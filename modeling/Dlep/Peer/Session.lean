import Dlep.Peer.Run
import Dlep.ProtocolMessage.Build

/-!
# The life of a session

A session is opened once, closed once and never opened again, and the client hears nothing of it
after its end: this is what the states of a peer are for. The handlers do not look at the state,
so that it is so only as long as no message opens a session that is open or has ended, and none
reaches the client after the end.
-/

namespace Dlep

open Std Calls Relation Runs

namespace Event

def isPeerUp : Event → Bool
  | .client (.peerUp _) => true
  | _ => false

def isPeerDown : Event → Bool
  | .client (.peerDown _) => true
  | _ => false

/-- Does the client hear of something that the peer told us during the session? -/
def isCallback : Event → Bool
  | .client call => call.isCallback
  | _ => false

end Event

namespace Peer

/-- The calls to the client: the session begins and ends at most once, and nothing comes after the
end. -/
structure Bracketed (trace : List Event) : Prop where
  ups : trace.countP Event.isPeerUp ≤ 1
  downs : trace.countP Event.isPeerDown ≤ 1
  ended : trace.Pairwise fun e e' => e.isPeerDown → ¬ (e'.isPeerUp ∨ e'.isCallback)

/-- What the state of the session says about the calls to the client. -/
structure SessionInv (p : Peer) : Prop where
  ups : p.trace.countP Event.isPeerUp ≤ if p.pstate = .connected then 0 else 1
  downs : p.trace.countP Event.isPeerDown = if p.pstate = .terminating then 1 else 0
  ended : p.trace.Pairwise fun e e' => e.isPeerDown → ¬ (e'.isPeerUp ∨ e'.isCallback)

/-- What the state says about the calls to the client brackets them. -/
theorem SessionInv.bracketed {p : Peer} (h : SessionInv p) : Bracketed p.trace where
  ups := h.ups.trans (by split <;> simp)
  downs := by
    rw [h.downs]
    split <;> simp
  ended := h.ended

/-- An event that is not about the session. -/
theorem SessionInv.append {p p' : Peer} {e : Event} (h : SessionInv p)
    (hstate : p'.pstate = p.pstate) (htrace : p'.trace = p.trace ++ [e])
    (hup : e.isPeerUp = false) (hdown : e.isPeerDown = false)
    (hcall : e.isCallback → p.pstate ≠ .terminating) : SessionInv p' := by
  refine ⟨?_, ?_, ?_⟩
  · simpa [htrace, hstate, hup] using h.ups
  · simpa [htrace, hstate, hdown] using h.downs
  · rw [htrace, List.pairwise_append]
    refine ⟨h.ended, by simp, fun a ha b hb hadown hbad => ?_⟩
    obtain rfl := List.mem_singleton.1 hb
    rcases hbad with hbad | hbad
    · simp [hup] at hbad
    · have hdowns := h.downs
      rw [if_neg (hcall hbad), List.countP_eq_zero] at hdowns
      exact hdowns a ha hadown

/-- Every move keeps the invariant, if the session opens only from the first state and the client is
not called after the end. -/
theorem Move.sessionInv {k : Kind} {p p' : Peer} (hm : Move k p p') (hp : SessionInv p)
    (hup : k = .up → p.pstate = .connected) (hcall : k = .callback → p.pstate ≠ .terminating) :
    SessionInv p' := by
  cases hm with
  | quiet hstate _ _ _ _ htrace =>
    obtain ⟨hups, hdowns, hended⟩ := hp
    refine ⟨?_, ?_, ?_⟩
    · rwa [htrace, hstate]
    · rwa [htrace, hstate]
    · rwa [htrace]
  | send buf => exact hp.append rfl rfl rfl rfl (by simp [Event.isCallback])
  | advertise mac => exact hp.append rfl rfl rfl rfl (by simp [Event.isCallback])
  | enqueue _ => exact hp.append rfl rfl rfl rfl (by simp [Event.isCallback])
  | transmit _ => exact hp.append rfl rfl rfl rfl (by simp [Event.isCallback])
  | accept _ _ _ => exact hp.append rfl rfl rfl rfl (by simp [Event.isCallback])
  | interest _ => exact ⟨hp.ups, hp.downs, hp.ended⟩
  | store _ => exact ⟨hp.ups, hp.downs, hp.ended⟩
  | init items =>
    exact hp.append rfl rfl rfl rfl (by simp [Event.isCallback, ClientCall.isCallback])
  | @callback _ call hcallback =>
    refine hp.append rfl rfl ?_ ?_ fun _ => hcall rfl
    · cases call with
      | peerUp info => simp [ClientCall.isCallback] at hcallback
      | _ => rfl
    · cases call with
      | peerDown info => simp [ClientCall.isCallback] at hcallback
      | _ => rfl
  | up info =>
    have hstate := hup rfl
    have hups := hp.ups
    have hdowns := hp.downs
    rw [if_pos hstate, Nat.le_zero] at hups
    rw [hstate, if_neg (by simp)] at hdowns
    refine ⟨?_, ?_, ?_⟩
    · simp [hups, Event.isPeerUp]
    · simp [hdowns, Event.isPeerDown]
    · refine List.pairwise_append.2 ⟨hp.ended, by simp, fun a ha b _ hadown => ?_⟩
      exact absurd hadown (List.countP_eq_zero.1 hdowns a ha)
  | @down _ rest hstate hrest =>
    have hdowns := hp.downs
    rw [if_neg hstate] at hdowns
    have hend : SessionInv
        { p with
          pstate := .terminating
          trace := p.trace ++ [.client (.peerDown p.peerId)] } := by
      refine ⟨?_, ?_, ?_⟩
      · simpa [Event.isPeerUp] using hp.bracketed.ups
      · simp [hdowns, Event.isPeerDown]
      · refine List.pairwise_append.2 ⟨hp.ended, by simp, fun a ha b _ hadown => ?_⟩
        exact absurd hadown (List.countP_eq_zero.1 hdowns a ha)
    rcases hrest with rfl | rfl
    · exact hend
    · exact hend.append (e := .clearDestinations) rfl (by simp) rfl rfl (by simp [Event.isCallback])

/-- Only the moves for it change the state of the session. -/
theorem Move.pstate {k : Kind} {p p' : Peer} (hm : Move k p p') (hup : k ≠ .up)
    (hdown : k ≠ .down) :
    p'.pstate = p.pstate := by
  cases hm with
  | quiet hstate _ _ _ _ _ => exact hstate
  | up _ => exact absurd rfl hup
  | down _ _ => exact absurd rfl hdown
  | _ => rfl

/-- Without a move that opens or ends the session, the state stays. -/
theorem Moves.pstate {ks : Finset Kind} {p p' : Peer} (h : Moves ks p p') (hup : .up ∉ ks)
    (hdown : .down ∉ ks) : p'.pstate = p.pstate :=
  h.keeps (P := fun q => q.pstate = p.pstate)
    (fun _ hk _ _ hm hq =>
      (hm.pstate (fun h => hup (h ▸ hk)) fun h => hdown (h ▸ hk)).trans hq) rfl

/-- Only the opening of a session leaves the last state. -/
theorem Move.terminating {k : Kind} {p p' : Peer} (hm : Move k p p') (hk : k ≠ .up)
    (hp : p.pstate = .terminating) : p'.pstate = .terminating := by
  cases hm with
  | quiet hstate _ _ _ _ _ => exact hstate.trans hp
  | up _ => exact absurd rfl hk
  | down _ _ => rfl
  | _ => exact hp

/-- Without a move that opens a session, one that is over stays over. -/
theorem Moves.terminating {ks : Finset Kind} {p p' : Peer} (h : Moves ks p p') (hks : .up ∉ ks)
    (hp : p.pstate = .terminating) : p'.pstate = .terminating :=
  h.keeps (fun _ hk _ _ hm => hm.terminating fun h => hks (h ▸ hk)) hp

/-- Moves that neither open the session nor call the client keep the invariant. -/
theorem Moves.sessionInv {ks : Finset Kind} {p p' : Peer} (h : Moves ks p p') (hup : .up ∉ ks)
    (hcall : .callback ∉ ks) (hp : SessionInv p) : SessionInv p' :=
  h.keeps
    (fun _ hk _ _ hm hq =>
      hm.sessionInv hq (fun h => absurd (h ▸ hk) hup) fun h => absurd (h ▸ hk) hcall) hp

/-- Before the end, the client may be called. -/
theorem Moves.sessionInv_of_ne {ks : Finset Kind} {p p' : Peer} (h : Moves ks p p') (hup : .up ∉ ks)
    (hdown : .down ∉ ks) (hstate : p.pstate ≠ .terminating) (hp : SessionInv p) :
    SessionInv p' := by
  refine (h.keeps (P := fun q => SessionInv q ∧ q.pstate ≠ .terminating) ?_ ⟨hp, hstate⟩).1
  intro k hk q q' hm hq
  have hstate' := hm.pstate (fun h => hup (h ▸ hk)) fun h => hdown (h ▸ hk)
  exact ⟨hm.sessionInv hq.1 (fun h => absurd (h ▸ hk) hup) fun _ =>
    hq.2, by rw [hstate']; exact hq.2⟩

section

variable [AddressText]

/-- The step handles a message that opens a session which is open or has ended, or that calls the
client after the end. -/
def Step.Reopens (p : Peer) (st : Step) : Prop :=
  (p.pstate ≠ .connected ∧ st.reach p = .handshake) ∨
    (p.pstate = .terminating ∧ st.reach p = .client)

instance {p : Peer} {st : Step} : Decidable (st.Reopens p) :=
  inferInstanceAs (Decidable (_ ∨ _))

/-- What a peer keeps: good queues, and the session as its state says. -/
structure Sound (p : Peer) : Prop where
  queues : p.QueueOk
  session : SessionInv p

omit [AddressText] in
/-- A message other than those of the handshake keeps the invariant, if it does not call the
client after the end. -/
theorem Phased.sessionInv {r : Reach} (hr : r ≠ .handshake) {p p' : Peer}
    (h : Phased r.kinds p p') (hp : Sound p) (hcall : p.pstate = .terminating → r ≠ .client) :
    SessionInv p' := by
  obtain ⟨q, hpq, hqp'⟩ := h hp.queues
  refine hqp'.sessionInv (by decide) (by decide) ?_
  cases r with
  | handshake => exact absurd rfl hr
  | client =>
    exact hpq.sessionInv_of_ne (by decide) (by decide) (fun h => hcall h rfl) hp.session
  | quiet => exact hpq.sessionInv (by decide) (by decide) hp.session
  | stores => exact hpq.sessionInv (by decide) (by decide) hp.session

omit [AddressText] in
/-- The opening of a session that was not open keeps the invariant. -/
theorem Opens.sessionInv {p p' : Peer} (h : Opens p p') (hp : Sound p)
    (hstate : p.pstate = .connected) : SessionInv p' := by
  rcases h hp.queues with hpp' | ⟨q, r, hpq, hup, hrp'⟩
  · exact hpp'.sessionInv (by decide) (by decide) hp.session
  · have hq := hpq.sessionInv (by decide) (by decide) hp.session
    have hr := hup.sessionInv hq
      (fun _ => (hpq.pstate (by decide) (by decide)).trans hstate) (fun h => by cases h)
    exact hrp'.sessionInv (by decide) (by decide) hr

/-- A step that does not open the session again keeps the peer sound. -/
theorem Sound.step {p : Peer} {st : Step} (hp : Sound p) (hst : ¬ st.Reopens p) :
    Sound (p.step st) := by
  refine ⟨queueOk_step st hp.queues, ?_⟩
  by_cases hmsg : st.input = .message
  · have hleads := step_leads hmsg p
    have hcall : p.pstate = .terminating → st.reach p ≠ .client := fun hstate hr =>
      hst (.inr ⟨hstate, hr⟩)
    have hopen : st.reach p = .handshake → p.pstate = .connected := fun hr =>
      not_not.1 fun hstate => hst (.inl ⟨hstate, hr⟩)
    cases hr : st.reach p with
    | handshake =>
      rw [hr] at hleads
      exact Opens.sessionInv hleads hp (hopen hr)
    | _ =>
      rw [hr] at hleads hcall
      exact Phased.sessionInv (by simp) hleads hp hcall
  · exact (step_evolves hmsg p hp.queues).sessionInv (by decide) (by decide) hp.session

/-- A step that does not open the session again does not leave the last state. -/
theorem terminating_step {p : Peer} {st : Step} (hp : p.QueueOk) (hst : ¬ st.Reopens p)
    (hstate : p.pstate = .terminating) : (p.step st).pstate = .terminating := by
  by_cases hmsg : st.input = .message
  · have hleads := step_leads hmsg p
    cases hr : st.reach p with
    | handshake => exact absurd (.inl ⟨by simp [hstate], hr⟩) hst
    | _ =>
      rw [hr] at hleads
      obtain ⟨q, hpq, hqp'⟩ := hleads hp
      exact hqp'.terminating (by decide) (hpq.terminating (by decide) hstate)
  · exact (step_evolves hmsg p hp).terminating (by decide) hstate

/-- A new peer satisfies the invariant. -/
theorem sound_of_create {cfg : ProtocolConfig} {peerId : PeerId} {now : Nat} {p : Peer}
    (h : Peer.create cfg peerId now = .ok p) : Sound p := by
  obtain rfl := create_ok h
  refine ⟨fun mac q hq => ?_, ⟨by simp, by simp, by simp⟩⟩
  simp at hq

/-- In every run in which no step opens the session again, the last state is never left, and the
calls to the client are bracketed. -/
theorem session_of_not_reopens {cfg : ProtocolConfig} {peerId : PeerId} {now : Nat} {p : Peer}
    {steps : List Step} (hp : Peer.create cfg peerId now = .ok p)
    (h : Along step (fun q st => ¬ st.Reopens q) p steps) :
    Bracketed (run step p steps).trace ∧
      ∀ pre post, steps = pre ++ post → (run step p pre).pstate = .terminating →
        (run step p steps).pstate = .terminating := by
  have hsound : ∀ {q steps}, Sound q → Along step (fun q st => ¬ st.Reopens q) q steps →
      Sound (run step q steps) := fun hq hrun =>
    hrun.invariant (fun _ _ hs hst => hs.step hst) hq
  refine ⟨(hsound (sound_of_create hp) h).session.bracketed, ?_⟩
  rintro pre post rfl hstate
  obtain ⟨hpre, hpost⟩ := along_append.1 h
  rw [run_append]
  refine (hpost.invariant (I := fun q => Sound q ∧ q.pstate = .terminating) ?_
    ⟨hsound (sound_of_create hp) hpre, hstate⟩).2
  exact fun q st hq hst => ⟨hq.1.step hst, terminating_step hq.1.queues hst hq.2⟩

/-! ## Before the session -/

omit [AddressText] in
/-- What is stored about the peer, and what the client has heard from it, is the same. -/
structure Untouched (p p' : Peer) : Prop where
  pdp : p'.peerPdp = p.peerPdp
  interest : p'.notInterestedDestinations = p.notInterestedDestinations
  calls : p'.trace.filter Event.isCallback = p.trace.filter Event.isCallback

omit [AddressText] in
/-- A peer that is untouched twice is untouched. -/
theorem Untouched.trans {p q r : Peer} (h : Untouched p q) (h' : Untouched q r) : Untouched p r :=
  ⟨h'.pdp.trans h.pdp, h'.interest.trans h.interest, h'.calls.trans h.calls⟩

omit [AddressText] in
/-- A move that does not store, and neither regards interest nor calls the client, leaves the peer
untouched. -/
theorem Move.untouched {k : Kind} {p p' : Peer} (hm : Move k p p') (hstore : k ≠ .store)
    (hinterest : k ≠ .interest) (hcall : k ≠ .callback) : Untouched p p' := by
  refine ⟨hm.peerPdp hstore, hm.notInterested hinterest, ?_⟩
  cases hm with
  | quiet _ _ _ _ _ htrace => rw [htrace]
  | callback _ => exact absurd rfl hcall
  | down _ hrest =>
    rcases hrest with rfl | rfl
    · simp [Event.isCallback, ClientCall.isCallback]
    · simp [Event.isCallback, ClientCall.isCallback]
  | _ => simp [Event.isCallback, ClientCall.isCallback]

omit [AddressText] in
/-- Moves that do not store, and neither regard interest nor call the client, leave the peer
untouched. -/
theorem Moves.untouched {ks : Finset Kind} {p p' : Peer} (h : Moves ks p p') (hstore : .store ∉ ks)
    (hinterest : .interest ∉ ks) (hcall : .callback ∉ ks) : Untouched p p' :=
  h.keeps (P := fun q => Untouched p q)
    (fun _ hk _ _ hm hq => hq.trans
      (hm.untouched (fun h => hstore (h ▸ hk)) (fun h => hinterest (h ▸ hk))
        fun h => hcall (h ▸ hk)))
    ⟨rfl, rfl, rfl⟩

/-- The step handles a message of a session that is not open yet. -/
def Step.Intrudes (p : Peer) (st : Step) : Prop :=
  p.pstate = .connected ∧ (st.reach p = .stores ∨ st.reach p = .client)

instance {p : Peer} {st : Step} : Decidable (st.Intrudes p) := inferInstanceAs (Decidable (_ ∧ _))

/-- A message that does not complete the handshake leaves the peer as it is. -/
theorem untouched_step {p : Peer} {st : Step} (hp : p.QueueOk) (hmsg : st.input = .message)
    (hstate : p.pstate = .connected) (hst : ¬ st.Intrudes p)
    (hopen : (p.step st).pstate ≠ .inSession) : Untouched p (p.step st) := by
  have hleads := step_leads hmsg p
  cases hr : st.reach p with
  | stores => exact absurd ⟨hstate, .inl hr⟩ hst
  | client => exact absurd ⟨hstate, .inr hr⟩ hst
  | quiet =>
    rw [hr] at hleads
    obtain ⟨q, hpq, hqp'⟩ := hleads hp
    exact (hpq.untouched (by decide) (by decide) (by decide)).trans
      (hqp'.untouched (by decide) (by decide) (by decide))
  | handshake =>
    rw [hr] at hleads
    rcases hleads hp with hpp' | ⟨q, r, _, hup, hrp'⟩
    · exact hpp'.untouched (by decide) (by decide) (by decide)
    · -- the session is open at the end
      cases hup with
      | up info => exact absurd (hrp'.pstate (by decide) (by decide)) hopen

/-- In every run in which no message comes before its session, no message that is handled before the
session is open, other than the one that opens it, touches what is stored or reaches the client. -/
theorem untouched_of_not_intrudes {cfg : ProtocolConfig} {peerId : PeerId} {now : Nat} {p : Peer}
    {steps : List Step} (hp : Peer.create cfg peerId now = .ok p)
    (h : Along step (fun q st => ¬ st.Intrudes q) p steps) :
    ∀ pre st post, steps = pre ++ st :: post → st.input = .message →
      (run step p pre).pstate = .connected → (run step p (pre ++ [st])).pstate ≠ .inSession →
      Untouched (run step p pre) (run step p (pre ++ [st])) := by
  rintro pre st post rfl hmsg hstate hopen
  obtain ⟨hpre, hst, -⟩ := along_append.1 h
  have hqueues : (run step p pre).QueueOk :=
    hpre.invariant (fun _ st hq _ => queueOk_step st hq) (sound_of_create hp).queues
  rw [run_append] at hopen ⊢
  exact untouched_step hqueues hmsg hstate hst hopen

end

/-! ## A message after the end -/

/-- A node of the shipped configuration that has no data yet. -/
def bareView (modem : Bool) : DlepView where
  cfg := rfc8175
  modem := modem
  destAdvertEnabled := false
  localPdp := { peerId := str "local" }
  peers := [none]

/-- A client that answers every message and takes every destination. -/
def bareSurroundings : Surroundings where
  params := { heartbeatInterval := 60, peerType := some (str "node"), peerFlags := none }
  ackProbability := 100
  ackTimeout := 3
  sendTries := 3
  heartbeatThreshold := 4
  destinationUp _ _ _ := ""
  peerInit _ _ := none
  now := 0
  random := 0
  peerMac := none

/-- A peer as the constructor makes it. -/
def barePeer : Peer :=
  { peerId := str "peer", peerPdp := { peerId := str "peer" }, lastReceiveTime := 0 }

/-- Steps of the same node. -/
def bareSteps (modem : Bool) (inputs : List Input) : List Step :=
  inputs.map fun input => { d := bareView modem, s := bareSurroundings, input }

/-- With a heartbeat interval of one minute. -/
def sessionInitialization : Bytes := [0, 1, 0, 13, 0, 5, 0, 4, 0, 0, 234, 96, 0, 4, 0, 1, 0]

def sessionTermination : Bytes := [0, 5, 0, 5, 0, 1, 0, 1, 0]

/-- A session of a modem that is opened and closed by the router. -/
def shortSession : List Step :=
  bareSteps true [.receive sessionInitialization, .message, .receive sessionTermination, .message,
    .eof]

attribute [local instance] plainText

/-- The sample session is opened and closed once. -/
theorem session_of_not_reopens_shortSession :
    Bracketed (run step barePeer shortSession).trace ∧
      ∀ pre post, shortSession = pre ++ post → (run step barePeer pre).pstate = .terminating →
        (run step barePeer shortSession).pstate = .terminating :=
  @session_of_not_reopens plainText rfc8175 (str "peer") 0 barePeer _ rfl (by decide +kernel)

/-- One read brings the end of the session and then its beginning: the handler of the second message
does not ask for the state, and the client is told that the peer is up after it was told that it is
down. -/
theorem session_reopened :
    Peer.create rfc8175 (str "peer") 0 = .ok barePeer ∧
      (run step barePeer (bareSteps true
        [.receive (sessionTermination ++ sessionInitialization), .message])).pstate =
          .terminating ∧
      (run step barePeer (bareSteps true
        [.receive (sessionTermination ++ sessionInitialization), .message, .message])).pstate =
          .inSession ∧
      ¬ Bracketed (run step barePeer (bareSteps true
        [.receive (sessionTermination ++ sessionInitialization), .message, .message])).trace := by
  obtain ⟨hended, hopen, hupAgain⟩ :
      (run step barePeer (bareSteps true
        [.receive (sessionTermination ++ sessionInitialization), .message])).pstate = .terminating ∧
      (run step barePeer (bareSteps true
        [.receive (sessionTermination ++ sessionInitialization), .message, .message])).pstate =
          .inSession ∧
      ¬ (run step barePeer (bareSteps true [.receive (sessionTermination ++ sessionInitialization),
        .message, .message])).trace.Pairwise
          fun e e' => e.isPeerDown → ¬ (e'.isPeerUp ∨ e'.isCallback) := by decide +kernel
  exact ⟨rfl, hended, hopen, fun h => hupAgain h.ended⟩

/-- The client brings one destination up, and the peer is not interested in another. -/
def strayRefusal : List Step :=
  bareSteps true [.destinationUp [10, 12] [],
    .receive [0, 8, 0, 11, 0, 7, 0, 2, 10, 11, 0, 1, 0, 1, 1]]

/-- The response is unexpected and ends the session before it was open, but it is not remembered
that the destination was refused. -/
theorem untouched_of_not_intrudes_strayRefusal :
    (run step barePeer strayRefusal).pstate = .connected ∧
      (run step barePeer (strayRefusal ++ bareSteps true [.message])).pstate = .terminating ∧
      Untouched (run step barePeer strayRefusal)
        (run step barePeer (strayRefusal ++ bareSteps true [.message])) := by
  obtain ⟨hrun, hconnected, hended⟩ :
      Along step (fun q st => ¬ st.Intrudes q) barePeer
        (strayRefusal ++ bareSteps true [.message]) ∧
      (run step barePeer strayRefusal).pstate = .connected ∧
      (run step barePeer (strayRefusal ++ bareSteps true [.message])).pstate = .terminating := by
    decide +kernel
  refine ⟨hconnected, hended, ?_⟩
  exact @untouched_of_not_intrudes plainText rfc8175 (str "peer") 0 barePeer
    (strayRefusal ++ bareSteps true [.message]) rfl hrun strayRefusal
    ⟨bareView true, bareSurroundings, .message⟩ [] rfl rfl hconnected (by
      show (run step barePeer (strayRefusal ++ bareSteps true [.message])).pstate ≠ .inSession
      simp [hended])

/-- For the MAC address `0a:0b`. -/
def destinationAnnounce : Bytes := [0, 9, 0, 6, 0, 7, 0, 2, 10, 11]

/-- A router announces a destination first: the modem stores it and asks its client, and there is no
session yet. -/
theorem destinationAnnounce_intrudes :
    Peer.create rfc8175 (str "peer") 0 = .ok barePeer ∧
      (run step barePeer (bareSteps true [.receive destinationAnnounce])).pstate = .connected ∧
      (run step barePeer (bareSteps true [.receive destinationAnnounce, .message])).pstate =
        .connected ∧
      ¬ Untouched (run step barePeer (bareSteps true [.receive destinationAnnounce]))
        (run step barePeer (bareSteps true [.receive destinationAnnounce, .message])) := by
  obtain ⟨hbefore, hafter, hcalls⟩ :
      (run step barePeer (bareSteps true [.receive destinationAnnounce])).pstate = .connected ∧
      (run step barePeer (bareSteps true [.receive destinationAnnounce, .message])).pstate =
        .connected ∧
      ((run step barePeer (bareSteps true
        [.receive destinationAnnounce, .message])).trace.filter Event.isCallback).length ≠
        ((run step barePeer (bareSteps true
          [.receive destinationAnnounce])).trace.filter Event.isCallback).length := by
    decide +kernel
  exact ⟨rfl, hbefore, hafter, fun h => hcalls (congrArg List.length h.calls)⟩

end Peer

end Dlep
