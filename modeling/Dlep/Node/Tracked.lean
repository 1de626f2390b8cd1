import Dlep.Node.Roster
import Dlep.Peer.Termination

/-!
# The information base and the live peers

The information base lists a peer from the moment in which its object is made. It forgets the peer
at the end of `terminate`, and nowhere else: a session that the peer ends, or that ends with its
connection, leaves the peer in the information base for ever.
-/

namespace Dlep

open Std Calls Runs

namespace Peer

/-- A new message can always be put on its queue. -/
theorem returns_sendNew {now : Nat} {rp : ResponsePending} (hrp : rp.queued = false) :
    Returns (sendNew now rp) := by
  intro p
  have hfresh : ¬ ({ rp with uid := p.nextUid } : ResponsePending).queued = true := by simp [hrp]
  simp only [sendNew, sendMessageExpectingResponse, enqueue, sendIfHead, if_neg hfresh, wp_bind,
    wp_get, wp_modify]
  split
  · trivial
  · simp only [wp_bind, wp_modify, wp_get, ExtTreeMap.getElem?_insert_self]
    split
    · split
      · trivial
      · trivial
    · next hempty =>
      cases hold : (p.responsesPending[rp.destination]?).getD [] with
      | nil => exact (hempty _ _ (by rw [hold]; rfl)).elim
      | cons head rest => exact (hempty _ _ (by rw [hold]; rfl)).elim

section

variable [AddressText] {d : DlepView} {s : Surroundings} {status : String}
    {reason : Bytes} {p : Peer}

instance : Decidable (Expressible d status reason) :=
  decidable_of_iff ((terminationRequest d status reason).isOk = true) (by
    unfold Expressible
    cases terminationRequest d status reason with
    | ok rp => exact ⟨fun _ => ⟨rp, rfl⟩, fun _ => rfl⟩
    | error e =>
      refine ⟨fun h => ?_, fun ⟨_, h⟩ => ?_⟩
      · cases h
      · cases h)

/-- With a message that can be composed, the call returns. -/
theorem returns_terminate (h : Expressible d status reason) :
    Returns (terminate d s status reason) := by
  intro p
  by_cases hstate : p.pstate = .terminating
  · simp only [terminate, wp_bind, wp_get, if_pos hstate, wp_pure]
  · obtain ⟨rp, hrp⟩ := h
    have hrun : wp (do
        stopPeer d
        let rp ← terminationRequest d status reason
        sendNew s.now rp
        modify fun p => { p with registered := false } : PeerM Unit)
        (fun _ _ => True) (fun _ _ => False) p := by
      rw [wp_bind]
      refine (standing_stopPeer p).mono (fun _ q _ => ?_) fun _ _ hfalse => hfalse
      rw [hrp, wp_bind, wp_lift_ok, wp_bind]
      exact (returns_sendNew (terminationRequest_ok hrp).2.1 q).mono (fun _ _ _ => trivial)
        fun _ _ hfalse => hfalse
    unfold wp at hrun ⊢
    rwa [terminate_run hstate]

/-- The information base lists the peer exactly as long as its session is not over. -/
def Tracked (p : Peer) : Prop := p.registered = true ↔ p.pstate ≠ .terminating

omit [AddressText] in
/-- Being tracked is a matter of the standing only. -/
theorem Tracked.of_standing {q : Peer} (h : p.Tracked) (hsame : q.standing = p.standing) :
    q.Tracked := by
  have hlisted : q.registered = p.registered := congrArg Standing.registered hsame
  have hstate : q.pstate = p.pstate := congrArg Standing.pstate hsame
  rw [Tracked, hlisted, hstate]
  exact h

/-- Terminating with a reason that can be expressed tells the information base. -/
theorem tracked_terminate (h : Expressible d status reason) :
    Within (fun p q : Peer => p.Tracked → q.Tracked) (terminate d s status reason) := by
  refine within_of_wp fun p => ?_
  refine ((standing_terminate p).and (returns_terminate h p)).mono (fun _ q hq hp => ?_)
    fun _ _ hq => hq.2.elim
  obtain ⟨hq, -⟩ := hq
  split at hq
  · rw [hq]
    exact hp
  · have hlisted : q.registered = false := congrArg Standing.registered hq
    have hstate : q.pstate = .terminating := congrArg Standing.pstate hq
    simp [Tracked, hlisted, hstate]

/-- The step ends the session without telling the information base, or opens one that is over: the
peer ends it, the connection is lost, the Session Termination cannot be composed, or there is
another handshake. -/
def Step.Strays (p : Peer) (st : Step) : Prop :=
  match st.fate p with
  | .stays => False
  | .ends status reason => p.pstate ≠ .terminating ∧ ¬ Expressible st.d status reason
  | .stops => p.pstate ≠ .terminating
  | .opens => p.pstate = .terminating

instance {st : Step} : Decidable (st.Strays p) := by
  unfold Step.Strays
  cases st.fate p <;> infer_instance

/-- A session that is over stays over, unless there is another handshake. -/
theorem standing_of_over {st : Step} (hp : p.QueueOk) (hover : p.pstate = .terminating)
    (hfate : st.fate p ≠ .opens) : (p.step st).standing = p.standing := by
  have hoverlooks : Overlooks fun p q : Peer => p.pstate = .terminating → q.standing = p.standing :=
    { refl _ _ := rfl
      trans _ _ _ h h' hover :=
        (h' ((congrArg Standing.pstate (h hover)).trans hover)).trans (h hover)
      other _ _ h _ := h }
  refine overlooks_step (R := fun p q : Peer => p.pstate = .terminating →
    q.standing = p.standing) hp ?_
    hover
  cases hst : st.fate p with
  | stays => trivial
  | ends status reason =>
    intro q hq
    refine (wp_after (P := fun r : Peer => r.standing = q.standing)).1 ?_
    refine (standing_terminate q).mono (fun _ r hr => ?_) fun _ r hr => absurd hq hr.1
    rw [if_pos hq] at hr
    rw [hr]
  | stops =>
    intro q hq
    refine (wp_after (P := fun r : Peer => r.standing = q.standing)).1 ?_
    refine (standing_stopPeer q).mono (fun _ r hr => ?_) fun _ _ hfalse => hfalse.elim
    rw [hr, ← hq]
    rfl
  | opens => exact absurd hst hfate

omit [AddressText] in
/-- The peer is listed if it was, and its session is not over if it was not. -/
structure Opened (p q : Peer) : Prop where
  registered : q.registered = p.registered
  live : p.pstate ≠ .terminating → q.pstate ≠ .terminating

instance : Overlooks Opened where
  refl _ := ⟨rfl, id⟩
  trans _ _ _ h h' := ⟨h'.registered.trans h.registered, h'.live ∘ h.live⟩
  other p q h := by
    have hstate : q.pstate = p.pstate := congrArg Standing.pstate h
    refine ⟨congrArg Standing.registered h, fun hlive => ?_⟩
    rwa [hstate]

/-- A step that does not stray keeps the peer tracked. -/
theorem tracked_step {st : Step} (hp : p.QueueOk) (hst : ¬ st.Strays p) (h : p.Tracked) :
    (p.step st).Tracked := by
  by_cases hover : p.pstate = .terminating
  · refine h.of_standing (standing_of_over hp hover fun hopens => hst ?_)
    rw [Step.Strays, hopens]
    exact hover
  · cases hfate : st.fate p with
    | stays =>
      refine h.of_standing (overlooks_step (R := SameStanding) hp ?_)
      rw [hfate]
      trivial
    | ends status reason =>
      have hexpressible : Expressible st.d status reason := by
        refine not_not.1 fun hnot => hst ?_
        rw [Step.Strays, hfate]
        exact ⟨hover, hnot⟩
      have hoverlooks : Overlooks fun p q : Peer => p.Tracked → q.Tracked :=
        { refl _ := id, trans _ _ _ h h' := h' ∘ h, other _ _ h hp := hp.of_standing h }
      refine overlooks_step (R := fun p q : Peer => p.Tracked → q.Tracked) hp ?_ h
      rw [hfate]
      exact tracked_terminate hexpressible
    | stops =>
      refine absurd ?_ hst
      rw [Step.Strays, hfate]
      exact hover
    | opens =>
      have hopened : Opened p (p.step st) := by
        refine overlooks_step hp ?_
        rw [hfate]
        exact ⟨within_modify fun _ => ⟨rfl, fun _ => by simp⟩,
          within_mutualExtensions fun _ _ => ⟨rfl, id⟩⟩
      have hlisted : p.registered = true := h.2 hover
      exact ⟨fun _ => hopened.live hover, fun _ => hopened.registered.trans hlisted⟩

end

end Peer

namespace Node

variable {n n' : Node}

/-- The names that `InfoBaseMgr::addPeer` adds in a step: those of the objects that are made
(`Peer.cpp:42`). -/
def joined (n n' : Node) : List PeerId := (n'.objects.drop n.objects.length).map Peer.peerId

/-- The names that `InfoBaseMgr::removePeer` erases in a step (`Peer.cpp:861`). -/
def left (n n' : Node) : List PeerId :=
  ((n.objects.zip n'.objects).filter fun pq => pq.1.registered && !pq.2.registered).map
    fun pq => pq.1.peerId

/-- The names that join are those of the objects that are new. -/
theorem mem_joined {peerId : PeerId} :
    peerId ∈ joined n n' ↔
      ∃ (i : Nat) (q : Peer), n.objects.length ≤ i ∧ n'.objects[i]? = some q ∧
        q.peerId = peerId := by
  rw [joined, List.mem_map]
  constructor
  · rintro ⟨q, hq, hid⟩
    obtain ⟨i, hi⟩ := List.mem_iff_getElem?.1 hq
    rw [List.getElem?_drop] at hi
    exact ⟨n.objects.length + i, q, Nat.le_add_right _ _, hi, hid⟩
  · rintro ⟨i, q, hi, hq, hid⟩
    refine ⟨q, List.mem_iff_getElem?.2 ⟨i - n.objects.length, ?_⟩, hid⟩
    rwa [List.getElem?_drop, Nat.add_sub_of_le hi]

/-- The names that leave are those of the objects that are not registered any more. -/
theorem mem_left {peerId : PeerId} :
    peerId ∈ left n n' ↔ ∃ (i : Nat) (p q : Peer), n.objects[i]? = some p ∧
      n'.objects[i]? = some q ∧
      p.registered = true ∧ q.registered = false ∧ p.peerId = peerId := by
  simp only [left, List.mem_map, List.mem_filter, Bool.and_eq_true, Bool.not_eq_true', Prod.exists]
  constructor
  · rintro ⟨p, q, ⟨hmem, hlisted, hnot⟩, hid⟩
    obtain ⟨i, hi⟩ := List.mem_iff_getElem?.1 hmem
    obtain ⟨hp, hq⟩ := List.getElem?_zip_eq_some.1 hi
    exact ⟨i, p, q, hp, hq, hlisted, hnot, hid⟩
  · rintro ⟨i, p, q, hp, hq, hlisted, hnot, hid⟩
    refine ⟨p, q, ⟨List.mem_iff_getElem?.2 ⟨i, ?_⟩, hlisted, hnot⟩, hid⟩
    exact List.getElem?_zip_eq_some.2 ⟨hp, hq⟩

/-- No two objects have the same name. -/
def DistinctNames (n : Node) : Prop :=
  ∀ (i j : Nat) (p q : Peer), n.objects[i]? = some p → n.objects[j]? = some q →
    p.peerId = q.peerId →
    i = j

/-- The objects that there were age, and those that are made are listed under names of their own. -/
structure Grows (n n' : Node) : Prop where
  old : ∀ (i : Nat) (p : Peer), n.objects[i]? = some p → ∃ q, n'.objects[i]? = some q ∧ p.Ages q
  new : ∀ (i : Nat) (q : Peer), n'.objects[i]? = some q → n.objects.length ≤ i →
    q.registered = true ∧ (∀ (j : Nat) (p : Peer), n.objects[j]? = some p → p.peerId ≠ q.peerId) ∧
      i = n.objects.length

/-- An object of the later node is one that was there, aged, or a new one. -/
theorem Grows.cases (h : Grows n n') {i : Nat} {q : Peer} (hq : n'.objects[i]? = some q) :
    (∃ p, n.objects[i]? = some p ∧ p.Ages q) ∨ n.objects.length ≤ i := by
  rcases lt_or_ge i n.objects.length with hlt | hge
  · obtain ⟨q', hq', hages⟩ := h.old i _ (List.getElem?_eq_getElem hlt)
    obtain rfl := Option.some.inj (hq.symm.trans hq')
    exact .inl ⟨_, List.getElem?_eq_getElem hlt, hages⟩
  · exact .inr hge

/-- New objects have names of their own. -/
theorem DistinctNames.grows (hn : n.DistinctNames) (h : Grows n n') : n'.DistinctNames := by
  intro i j p q hp hq hsame
  rcases h.cases hp with ⟨p₀, hp₀, hpages⟩ | hi
  · rcases h.cases hq with ⟨q₀, hq₀, hqages⟩ | hj
    · exact hn i j p₀ q₀ hp₀ hq₀ (by rw [← hpages.peerId, ← hqages.peerId, hsame])
    · refine absurd ?_ ((h.new j q hq hj).2.1 i p₀ hp₀)
      rw [← hpages.peerId, hsame]
  · rcases h.cases hq with ⟨q₀, hq₀, hqages⟩ | hj
    · refine absurd ?_ ((h.new i p hp hi).2.1 j q₀ hq₀)
      rw [← hqages.peerId, hsame]
    · rw [(h.new i p hp hi).2.2, (h.new j q hq hj).2.2]

/-- The names of the objects that the information base lists. -/
def Lists (keys : List PeerId) (n : Node) : Prop :=
  ∀ peerId, peerId ∈ keys ↔ ∃ (i : Nat) (p : Peer), n.objects[i]? = some p ∧ p.registered = true ∧
    p.peerId = peerId

/-- What is added and erased in a step is what changes for the objects. -/
theorem Lists.grows {keys : List PeerId} (hkeys : Lists keys n) (hn : n.DistinctNames)
    (h : Grows n n') :
    Lists ((keys ++ joined n n').filter fun peerId => peerId ∉ left n n') n' := by
  intro peerId
  simp only [List.mem_filter, List.mem_append, decide_eq_true_eq, hkeys peerId, mem_joined]
  constructor
  · rintro ⟨⟨i, p, hp, hlisted, hid⟩ | ⟨i, q, hi, hq, hid⟩, hleft⟩
    · obtain ⟨q, hq, hages⟩ := h.old i p hp
      refine ⟨i, q, hq, not_not.1 fun hnot => hleft ?_, hages.peerId.trans hid⟩
      exact mem_left.2 ⟨i, p, q, hp, hq, hlisted, Bool.not_eq_true _ ▸ hnot, hid⟩
    · exact ⟨i, q, hq, (h.new i q hq hi).1, hid⟩
  · rintro ⟨i, q, hq, hlisted, hid⟩
    rcases h.cases hq with ⟨p, hp, hages⟩ | hi
    · refine ⟨.inl ⟨i, p, hp, hages.registered hlisted, hages.peerId.symm.trans hid⟩,
        fun hleft => ?_⟩
      obtain ⟨j, p', q', hp', hq', -, hnot, hid'⟩ := mem_left.1 hleft
      obtain rfl := hn i j p p' hp hp' (by rw [← hages.peerId, hid, hid'])
      obtain rfl := Option.some.inj (hq.symm.trans hq')
      exact absurd (hlisted.symm.trans hnot) (by decide)
    · refine ⟨.inr ⟨i, q, hi, hq, hid⟩, fun hleft => ?_⟩
      obtain ⟨j, p', q', hp', -, -, -, hid'⟩ := mem_left.1 hleft
      exact (h.new i q hq hi).2.1 j p' hp' (hid'.trans hid.symm)

/-- The queues are good, and the information base lists exactly the objects whose session is not
over. -/
structure AllTracked (n : Node) : Prop where
  queues : n.QueuesOk
  tracked : ∀ (i : Nat) (p : Peer), n.objects[i]? = some p → p.Tracked

/-- The object ages, and goes on to be tracked, if the end of the session can be told. -/
structure Parts [AddressText] (cfg : ProtocolConfig) (modem : Bool) (p q : Peer) : Prop where
  ages : p.Ages q
  queues : p.QueueOk → q.QueueOk
  pstate : p.pstate = .terminating → q.pstate = .terminating
  tracked : (p.pstate ≠ .terminating → ∀ d : DlepView, d.cfg = cfg → d.modem = modem →
    Peer.Expressible d "Success" []) → p.Tracked → q.Tracked

section

variable [AddressText] {s : Surroundings}

instance {cfg : ProtocolConfig} {modem : Bool} : Std.Refl (Parts cfg modem) :=
  ⟨fun p => ⟨Std.Refl.refl p, id, id, fun _ => id⟩⟩

instance {cfg : ProtocolConfig} {modem : Bool} : IsTrans Peer (Parts cfg modem) where
  trans _ _ _ h h' := by
    refine ⟨IsTrans.trans _ _ _ h.ages h'.ages, h'.queues ∘ h.queues, h'.pstate ∘ h.pstate, ?_⟩
    intro hexpressible hp
    exact h'.tracked (fun hlive => hexpressible fun hover => hlive (h.pstate hover))
      (h.tracked hexpressible hp)

/-- A peer that is terminated parts. -/
theorem parts_terminate {d : DlepView} :
    Within (Parts d.cfg d.modem) (Peer.terminate d s "Success" []) := by
  intro p
  refine ⟨Peer.ages_terminate p, fun hp => (Peer.within_terminate p hp).queueOk hp,
    fun _ => Peer.pstate_terminate p, fun hexpressible hp => ?_⟩
  by_cases hover : p.pstate = .terminating
  · have hsame : after (Peer.terminate d s "Success" []) p = p := by
      refine (wp_after (P := fun q => q = p)).1 ?_
      refine (Peer.standing_terminate p).mono (fun _ q hq => ?_) fun _ q hq => absurd hover hq.1
      rwa [if_pos hover] at hq
    rwa [hsame]
  · exact Peer.tracked_terminate (hexpressible hover d rfl rfl) p hp

/-- A new peer has a name that no other has had. -/
def Step.Distinct (n : Node) (st : Step) : Prop :=
  match st.input with
  | .connect peerId => ∀ p ∈ n.objects, p.peerId ≠ peerId
  | _ => True

instance {st : Step} : Decidable (st.Distinct n) := by
  unfold Step.Distinct
  split <;> infer_instance

/-- The step ends the session of a peer without telling the information base, or opens one that is
over. -/
def Step.Strays (n : Node) (st : Step) : Prop :=
  match st.input with
  | .peer i occasion => ∃ p ∈ n.objects[i]?, Peer.Step.Strays p ⟨n.view i, st.s, occasion.input⟩
  | .terminate =>
    (∃ p ∈ n.objects, p.pstate ≠ .terminating) ∧ ¬ Peer.Expressible (n.view 0) "Success" []
  | _ => False

instance {st : Step} : Decidable (st.Strays n) := by
  unfold Step.Strays
  split <;> infer_instance

/-- Whether a reason can be expressed depends on the configuration and the role only. -/
theorem expressible_congr {d d' : DlepView} {status : String} {reason : Bytes}
    (hcfg : d'.cfg = d.cfg) (hmodem : d'.modem = d.modem) (h : Peer.Expressible d status reason) :
    Peer.Expressible d' status reason := by
  obtain ⟨rp, hrp⟩ := h
  refine ⟨rp, ?_⟩
  simp only [Peer.terminationRequest, Peer.composeChecked, Peer.compose, hcfg, hmodem] at hrp ⊢
  exact hrp

omit [AddressText] in
/-- No object is made. -/
theorem Grows.of_ages (hlength : n'.objects.length = n.objects.length)
    (hold : ∀ (i : Nat) (p : Peer), n.objects[i]? = some p →
      ∃ q, n'.objects[i]? = some q ∧ p.Ages q) : Grows n n' := by
  refine ⟨hold, fun i q hq hi => ?_⟩
  have hlt := (List.getElem?_eq_some_iff.1 hq).1
  omega

omit [AddressText] in
/-- A node that stays as it is grows by nothing. -/
theorem Grows.refl (n : Node) : Grows n n := .of_ages rfl fun _ p hp => ⟨p, hp, Std.Refl.refl p⟩

omit [AddressText] in
/-- Where the standing of every object stays, all stay tracked. -/
theorem AllTracked.sameRoster (hn : n.AllTracked) (h : SameRoster n n') : n'.AllTracked := by
  refine ⟨h.queues hn.queues, fun i q hq => ?_⟩
  obtain ⟨p, hp, hsame⟩ := h.exists_object hq
  exact (hn.tracked i p hp).of_standing hsame

omit [AddressText] in
/-- Where the roster stays, no object is made. -/
theorem SameRoster.grows (h : SameRoster n n') : Grows n n' := by
  refine .of_ages h.length fun i p hp => ?_
  obtain ⟨q, hq, hsame⟩ := h.exists_image hp
  exact ⟨q, hq, Peer.Overlooks.other p q hsame⟩

/-- A connection of a new name adds an object that is tracked. -/
theorem AllTracked.connect (hn : n.AllTracked) {peerId : PeerId}
    (hdistinct : ∀ p ∈ n.objects, p.peerId ≠ peerId) :
    (n.step ⟨s, .connect peerId⟩).AllTracked ∧ Grows n (n.step ⟨s, .connect peerId⟩) := by
  rcases @step_connect n _ s peerId with hsame | ⟨p₀, hcreate, hroster⟩
  · rw [hsame]
    exact ⟨hn, .refl n⟩
  · have hp₀ := Peer.create_ok hcreate
    have hmade : ∀ {i : Nat} {p : Peer}, (n.objects ++ [p₀])[i]? = some p →
        n.objects[i]? = some p ∨ i = n.objects.length ∧ p = p₀ := by
      intro i p hp
      rcases lt_or_ge i n.objects.length with hlt | hge
      · rw [List.getElem?_append_left hlt] at hp
        exact .inl hp
      · have hlen := (List.getElem?_eq_some_iff.1 hp).1
        rw [List.length_append, List.length_singleton] at hlen
        rw [List.getElem?_append_right hge] at hp
        exact .inr ⟨by omega, List.mem_singleton.1 (List.mem_of_getElem? hp)⟩
    refine ⟨AllTracked.sameRoster ⟨fun i p hp => ?_, fun i p hp => ?_⟩ hroster, ⟨fun i p hp => ?_,
      fun i q hq hi => ?_⟩⟩
    · rcases hmade hp with hold | ⟨-, rfl⟩
      · exact hn.queues i p hold
      · exact (Peer.sound_of_create hcreate).queues
    · rcases hmade hp with hold | ⟨-, rfl⟩
      · exact hn.tracked i p hold
      · rw [hp₀]
        exact ⟨fun _ => by simp, fun _ => rfl⟩
    · have hlt := (List.getElem?_eq_some_iff.1 hp).1
      obtain ⟨q, hq, hsame⟩ :=
        hroster.exists_image (p := p) (by rwa [List.getElem?_append_left hlt])
      exact ⟨q, hq, Peer.Overlooks.other p q hsame⟩
    · obtain ⟨p, hp, hsame⟩ := hroster.exists_object hq
      rcases hmade hp with hold | ⟨hlen, rfl⟩
      · have hlt := (List.getElem?_eq_some_iff.1 hold).1
        omega
      · have hid : q.peerId = peerId := by
          rw [show q.peerId = p.peerId from congrArg Peer.Standing.peerId hsame, hp₀]
        refine ⟨?_, fun j p' hp' => ?_, hlen⟩
        · rw [show q.registered = p.registered from congrArg Peer.Standing.registered hsame, hp₀]
        · rw [hid]
          exact hdistinct p' (List.mem_of_getElem? hp')

/-- What happens to a peer, if it does not stray, keeps all tracked. -/
theorem AllTracked.peer (hn : n.AllTracked) {i : Nat} {occasion : Occasion}
    (hst : ¬ Step.Strays n ⟨s, .peer i occasion⟩) :
    (n.step ⟨s, .peer i occasion⟩).AllTracked ∧ Grows n (n.step ⟨s, .peer i occasion⟩) := by
  cases hp : n.objects[i]? with
  | none =>
    rw [step_peer_none hp]
    exact ⟨hn, .refl n⟩
  | some p =>
    have hok := hn.queues i p hp
    have hstays : ¬ Peer.Step.Strays p ⟨n.view i, s, occasion.input⟩ := fun h => hst ⟨p, hp, h⟩
    rw [step_peer hp]
    refine ⟨⟨hn.queues.set hp (Peer.queueOk_step _ hok), fun j q hq => ?_⟩,
      .of_ages List.length_set fun j p' hp' => ?_⟩
    · rw [getElem?_set hp] at hq
      split at hq
      · rw [← Option.some.inj hq]
        exact Peer.tracked_step hok hstays (hn.tracked i p hp)
      · exact hn.tracked j q hq
    · simp only [getElem?_set hp]
      split
      · next hij =>
        obtain rfl := Option.some.inj (hp.symm.trans (hij ▸ hp'))
        exact ⟨_, rfl, Peer.ages_step hok _⟩
      · exact ⟨p', hp', Std.Refl.refl p'⟩

/-- Terminating the service, if no peer strays, keeps all tracked. -/
theorem AllTracked.terminate (hn : n.AllTracked) (hst : ¬ Step.Strays n ⟨s, .terminate⟩) :
    (n.step ⟨s, .terminate⟩).AllTracked ∧ Grows n (n.step ⟨s, .terminate⟩) := by
  have hall : ∀ {n' : Node}, Happens Parts n n' → n'.AllTracked ∧ Grows n n' := by
    intro n' h
    refine ⟨⟨fun i q hq => ?_, fun i q hq => ?_⟩, .of_ages h.length fun i p hp => ?_⟩
    · obtain ⟨p, hp, hpq⟩ := h.exists_object hq
      exact hpq.queues (hn.queues i p hp)
    · obtain ⟨p, hp, hpq⟩ := h.exists_object hq
      refine hpq.tracked (fun hlive d hcfg hmodem => ?_) (hn.tracked i p hp)
      refine expressible_congr (d := n.view 0) hcfg hmodem (not_not.1 fun hnot => hst ⟨?_, hnot⟩)
      exact ⟨p, List.mem_of_getElem? hp, hlive⟩
    · obtain ⟨q, hq, hpq⟩ := h.object i p hp
      exact ⟨q, hq, hpq.ages⟩
  rcases @step_terminate n _ s Parts _ _ (fun d => parts_terminate) (fun _ _ p q h => h.pstate) with
    h | ⟨n', h, heq, -⟩
  · exact hall h
  · rw [heq]
    obtain ⟨htracked, hgrows⟩ := hall h
    exact ⟨⟨htracked.queues, htracked.tracked⟩, ⟨hgrows.old, hgrows.new⟩⟩

/-- A step that does not stray keeps every object tracked, and only ages it. -/
theorem AllTracked.step (hn : n.AllTracked) {st : Step} (hdistinct : st.Distinct n)
    (hst : ¬ st.Strays n) : (n.step st).AllTracked ∧ Grows n (n.step st) := by
  obtain ⟨s, input⟩ := st
  cases hquiet : input.isQuiet with
  | true =>
    have hsame := @sameRoster_step n _ ⟨s, input⟩ hquiet
    exact ⟨hn.sameRoster hsame, hsame.grows⟩
  | false =>
    cases input with
    | connect peerId => exact hn.connect hdistinct
    | peer i occasion => exact hn.peer hst
    | cleanup =>
      exact ⟨⟨hn.queues, hn.tracked⟩, .of_ages rfl fun _ p hp => ⟨p, hp, Std.Refl.refl p⟩⟩
    | terminate => exact hn.terminate hst
    | _ => cases hquiet

end

end Node

/-- A node, and the names under which its information base has data. Source:
`InfoBaseMgr::peer_data` (`InfoBaseMgr.h:213`). -/
structure Booked where
  node : Node
  peerData : List PeerId := []

namespace Booked

open Node (joined left)

/-- The names are exactly those of the objects whose session is not over. -/
def Tracks (b : Booked) : Prop :=
  ∀ peerId, peerId ∈ b.peerData ↔ ∃ p ∈ b.node.objects, p.peerId = peerId ∧ p.pstate ≠ .terminating

section

variable [AddressText] {b : Booked}

/-- The state after a step. -/
def step (b : Booked) (st : Node.Step) : Booked where
  node := b.node.step st
  peerData := (b.peerData ++ joined b.node (b.node.step st)).filter fun peerId =>
    peerId ∉ left b.node (b.node.step st)

omit [AddressText] in
/-- What every run keeps. -/
structure Sound (b : Booked) : Prop where
  tracked : b.node.AllTracked
  names : b.node.DistinctNames
  lists : Node.Lists b.peerData b.node

omit [AddressText] in
/-- The names that are listed are those of the peers that are alive. -/
theorem Sound.tracks (hb : b.Sound) : b.Tracks := by
  intro peerId
  rw [hb.lists peerId]
  constructor
  · rintro ⟨i, p, hp, hlisted, hid⟩
    exact ⟨p, List.mem_of_getElem? hp, hid, (hb.tracked.tracked i p hp).1 hlisted⟩
  · rintro ⟨p, hmem, hid, hlive⟩
    obtain ⟨i, hp⟩ := List.mem_iff_getElem?.1 hmem
    exact ⟨i, p, hp, (hb.tracked.tracked i p hp).2 hlive, hid⟩

/-- A step under a new name that does not stray keeps the books. -/
theorem Sound.step (hb : b.Sound) {st : Node.Step} (hdistinct : st.Distinct b.node)
    (hst : ¬ st.Strays b.node) : (b.step st).Sound := by
  obtain ⟨htracked, hgrows⟩ := hb.tracked.step hdistinct hst
  exact ⟨htracked, hb.names.grows hgrows, hb.lists.grows hb.names hgrows⟩

/-- In every run with peers of distinct names in which no session is ended without telling the
information base, and none that is over is opened again, the information base lists exactly the
peers whose session is not over. -/
theorem tracks_of_not_strays {cfg : ProtocolConfig} {modem enabled : Bool} {n : Node}
    (hn : Node.create cfg modem enabled = .ok n) {steps : List Node.Step}
    (hdistinct : Along step (fun b st => st.Distinct b.node) ⟨n, []⟩ steps)
    (h : Along step (fun b st => ¬ st.Strays b.node) ⟨n, []⟩ steps) :
    ∀ pre, pre <+: steps → (run step ⟨n, []⟩ pre).Tracks := by
  obtain ⟨hobjects, -⟩ := Node.objects_of_create hn
  have hstart : Sound ⟨n, []⟩ := by
    refine ⟨⟨fun i p hp => ?_, fun i p hp => ?_⟩, fun i j p q hp => ?_, fun peerId => ?_⟩
    · simp [hobjects] at hp
    · simp [hobjects] at hp
    · simp [hobjects] at hp
    · simp [hobjects]
  rintro pre ⟨post, rfl⟩
  have hboth := (along_append.1 hdistinct).1.and (along_append.1 h).1
  exact (hboth.invariant (fun b st hb hst => hb.step hst.1 hst.2) hstart).tracks

end

attribute [local instance] plainText

def bareSteps (inputs : List Node.Input) : List Node.Step :=
  inputs.map fun input => { s := Peer.bareSurroundings, input }

/-- Two routers connect to a modem, and one of them opens its session. -/
def twoRouters : List Node.Input :=
  [.connect (str "one"), .connect (str "two"), .peer 0 (.receive Peer.sessionInitialization),
    .peer 0 .message]

/-- The sessions of both routers are ended by the modem. -/
theorem tracks_of_not_strays_twoRouters :
    (run step ⟨Node.shipped true, []⟩ (bareSteps (twoRouters ++ [.terminate]))).Tracks ∧
      (run step ⟨Node.shipped true, []⟩ (bareSteps twoRouters)).peerData = [str "one", str "two"] ∧
      (run step ⟨Node.shipped true, []⟩
        (bareSteps (twoRouters ++ [.terminate]))).peerData = [] := by
  -- one evaluation of the run, for all that is read off it
  obtain ⟨hdistinct, hrun, hopened, hended⟩ :
      Along step (fun b st => st.Distinct b.node) ⟨Node.shipped true, []⟩
        (bareSteps (twoRouters ++ [.terminate])) ∧
      Along step (fun b st => ¬ st.Strays b.node) ⟨Node.shipped true, []⟩
        (bareSteps (twoRouters ++ [.terminate])) ∧
      (run step ⟨Node.shipped true, []⟩ (bareSteps twoRouters)).peerData = [str "one", str "two"] ∧
      (run step ⟨Node.shipped true, []⟩
        (bareSteps (twoRouters ++ [.terminate]))).peerData = [] := by
    decide +kernel
  refine ⟨?_, hopened, hended⟩
  exact @tracks_of_not_strays plainText rfc8175 true false _ (Node.create_shipped true)
    _ hdistinct hrun _
    List.prefix_rfl

/-- The connection of one of them is lost: its session is over, and the information base has its
data still. -/
theorem twoRouters_stray :
    Node.create rfc8175 true false = .ok (Node.shipped true) ∧
      ¬ (run step ⟨Node.shipped true, []⟩ (bareSteps (twoRouters ++ [.peer 0 .eof]))).Tracks := by
  refine ⟨Node.create_shipped true, fun h => ?_⟩
  obtain ⟨hdata, hover⟩ :
      str "one" ∈ (run step ⟨Node.shipped true, []⟩
        (bareSteps (twoRouters ++ [.peer 0 .eof]))).peerData ∧
        ((run step ⟨Node.shipped true, []⟩
          (bareSteps (twoRouters ++ [.peer 0 .eof]))).node.objects.all fun p =>
            p.peerId ≠ str "one" || p.pstate = .terminating) = true := by decide +kernel
  obtain ⟨p, hmem, hid, hlive⟩ := (h (str "one")).1 hdata
  have hp := List.all_eq_true.1 hover p hmem
  simp [hid, hlive] at hp

end Booked

end Dlep
