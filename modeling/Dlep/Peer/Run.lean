import Dlep.Peer.Reach
import Dlep.Lib.Runs

/-!
# Runs of a peer

What can happen to a peer, in any order: bytes arrive and messages are handled, timers expire, the
connection ends, and the local node makes its calls. In every step the node and the surroundings may
be others. A call that throws leaves behind what it has written.
-/

namespace Dlep

open Std Calls Runs

namespace Peer

/-- What happens to a peer. -/
inductive Input where
  | start
  /-- Bytes arrive. -/
  | receive (bytes : Bytes)
  /-- The next message is handled, if all of it is there. -/
  | message
  | acktivityTimeout
  | heartbeatTimeout
  | eof
  | terminate (status : String) (reason : Bytes)
  | destinationUp (mac : DlepMac) (items : DataItems)
  | destinationDown (mac : DlepMac) (items : DataItems)
  | destinationUpdate (mac : DlepMac) (items : DataItems)
  | peerUpdate (items : DataItems)
  | linkCharacteristicsRequest (mac : DlepMac) (items : DataItems)
  | linkCharacteristicsResponse (mac : DlepMac) (items : DataItems)
  /-- Source: the local part of `Peer::remove_destination` (`Peer.cpp:2048`). -/
  | removeDestination (mac : DlepMac)

/-- An input, and what the peer sees of its node and of its surroundings meanwhile. -/
structure Step where
  d : DlepView
  s : Surroundings
  input : Input

section

variable [AddressText]

/-- The call that an input is. -/
def Step.call (st : Step) : PeerM Unit :=
  match st.input with
  | .start => startPeer st.d st.s
  | .receive bytes => fillBuffer st.s bytes
  | .message => do let _ ← handleNext st.d st.s
  | .acktivityTimeout => handleAcktivityTimeout st.d st.s
  | .heartbeatTimeout => handleHeartbeatTimeout
  | .eof => stopPeer st.d
  | .terminate status reason => Peer.terminate st.d st.s status reason
  | .destinationUp mac items => Peer.destinationUp st.d st.s mac items
  | .destinationDown mac items => Peer.destinationDown st.d st.s mac items
  | .destinationUpdate mac items => Peer.destinationUpdate st.d mac items
  | .peerUpdate items => do let _ ← Peer.peerUpdate st.d st.s items
  | .linkCharacteristicsRequest mac items => Peer.linkCharacteristicsRequest st.d st.s mac items
  | .linkCharacteristicsResponse mac items => Peer.linkCharacteristicsResponse st.d st.s mac items
  | .removeDestination mac => do let _ ← onPdp (PeerData.removeDestination mac)

/-- The state after a step. -/
def step (p : Peer) (st : Step) : Peer := after st.call p

/-- The message that would be handled next. -/
def nextMessage (d : DlepView) (p : Peer) : Option Bytes :=
  match ProtocolMessage.isCompleteMessage d.cfg p.signalRecv with
  | .ok (some size) => some (p.signalRecv.take size)
  | _ => none

/-- How far the message of a step gets; a step without one is quiet. -/
def Step.reach (p : Peer) (st : Step) : Reach :=
  match st.input, nextMessage st.d p with
  | .message, some buf => reachOf st.d p buf
  | _, _ => .quiet

/-! ## What a step does -/

/-- What happens without a message: the client is not called, except for the end of the session. -/
theorem step_evolves {st : Step} (hst : st.input ≠ .message) (p : Peer) :
    Evolves {.quiet, .send, .queue, .store, .init, .down} p (step p st) := by
  obtain ⟨d, s, input⟩ := st
  cases input with
  | start => exact widen within_startPeer (by decide) p
  | receive bytes => exact .single (.quiet rfl rfl rfl rfl le_rfl rfl) (by simp)
  | message => exact absurd rfl hst
  | acktivityTimeout => exact widen within_handleAcktivityTimeout (by decide) p
  | heartbeatTimeout => exact widen within_handleHeartbeatTimeout (by decide) p
  | eof => exact widen within_stopPeer (by decide) p
  | terminate status reason => exact widen within_terminate (by decide) p
  | destinationUp mac items => exact widen within_destinationUp (by decide) p
  | destinationDown mac items => exact widen within_destinationDown (by decide) p
  | destinationUpdate mac items => exact widen within_destinationUpdate (by decide) p
  | peerUpdate items =>
    exact widen (within_bind within_peerUpdate fun _ => within_pure) (by decide) p
  | linkCharacteristicsRequest mac items =>
    exact widen within_linkCharacteristicsRequest (by decide) p
  | linkCharacteristicsResponse mac items =>
    exact widen within_linkCharacteristicsResponse (by decide) p
  | removeDestination mac =>
    exact widen (within_bind (within_onPdp PeerData.noNewMetrics_removeDestination)
      fun _ => within_pure) (by decide) p

/-- Without a complete message, nothing happens. -/
theorem step_of_nextMessage_none {p : Peer} {st : Step} (hmsg : st.input = .message)
    (hnext : nextMessage st.d p = none) : p.step st = p := by
  refine (wp_after (P := fun q => q = p)).1 ?_
  simp only [Step.call, hmsg, handleNext, wp_bind, wp_get]
  refine wp_lift (fun size hsize => ?_) fun _ _ => rfl
  cases size with
  | none => rfl
  | some size => simp [nextMessage, hsize] at hnext

/-- With a complete message, its handler is called, and then the bytes of the message are dropped.
-/
theorem step_of_nextMessage {p : Peer} {st : Step} {buf : Bytes} {P : Peer → Prop}
    (hmsg : st.input = .message) (hnext : nextMessage st.d p = some buf)
    (hdrop : ∀ q n, P q → P { q with signalRecv := q.signalRecv.drop n })
    (h : wp (handlePeerSignal st.d st.s buf) (fun _ q => P q) (fun _ q => P q) p) :
    P (p.step st) := by
  refine wp_after.1 ?_
  simp only [Step.call, hmsg, handleNext, wp_bind, wp_get]
  refine wp_lift (fun size hsize => ?_) fun e he => by simp [nextMessage, he] at hnext
  cases size with
  | none => simp [nextMessage, hsize] at hnext
  | some size =>
    obtain rfl : p.signalRecv.take size = buf := by simpa [nextMessage, hsize] using hnext
    rw [wp_bind, wp_get, wp_bind]
    exact h.mono (fun _ q hq => hdrop q size hq) fun _ _ hq => hq

/-- A message leads where its reach says. -/
theorem step_leads {st : Step} (hmsg : st.input = .message) (p : Peer) :
    (st.reach p).Leads p (step p st) := by
  unfold Step.reach
  rw [hmsg]
  cases hnext : nextMessage st.d p with
  | none =>
    rw [step_of_nextMessage_none hmsg hnext]
    exact .refl _ p
  | some buf =>
    have hdrop : ∀ (q : Peer) (n : Nat),
        Move .quiet q { q with signalRecv := q.signalRecv.drop n } :=
      fun _ _ => .quiet rfl rfl rfl rfl le_rfl rfl
    exact step_of_nextMessage hmsg hnext (fun q n h => h.quiet (hdrop q n))
      (leads_handlePeerSignal p)

/-- What every move keeps, every step keeps. -/
theorem step_keeps {P : Peer → Prop} (hmove : ∀ k q q', Move k q q' → P q → P q') {p : Peer}
    (st : Step) (hok : p.QueueOk) (hp : P p) : P (p.step st) := by
  by_cases hmsg : st.input = .message
  · exact (step_leads hmsg p).keeps hmove hok hp
  · exact (step_evolves hmsg p hok).keeps (fun k _ => hmove k) hp

/-- Every step keeps the queues good. -/
theorem queueOk_step {p : Peer} (st : Step) (hp : p.QueueOk) : (p.step st).QueueOk :=
  step_keeps (fun _ _ _ hm => hm.queueOk) st hp hp

/-- A valid message whose status does not end the session is given to its handler. -/
theorem wp_handlePeerSignal_of_pass {d : DlepView} {s : Surroundings} {buf : Bytes}
    {pm : ProtocolMessage} {name : String} {p : Peer} {Q : Unit → Peer → Prop}
    {E : Exn → Peer → Prop} (hbuf : received d buf = .ok ([], pm))
    (hpass : checkStatusCodeFailure d s pm p = .ok false p)
    (hname : pm.getSignalName d.cfg = .ok name)
    (h : wp (dispatch d s name pm) Q E p) : wp (handlePeerSignal d s buf) Q E p := by
  have hcheck : wp (checkStatusCodeFailure d s pm) (fun ended q => ended = false ∧ q = p)
      (fun _ _ => False) p := by
    simp [wp, hpass]
  simp only [handlePeerSignal, hbuf, wp_bind, wp_lift_ok, ne_eq, not_true_eq_false, if_false]
  refine hcheck.mono (fun ended q hq => ?_) fun _ _ hfalse => hfalse.elim
  obtain ⟨rfl, rfl⟩ := hq
  simp only [Bool.false_eq_true, if_false, wp_bind, hname, wp_lift_ok]
  exact h

/-- The message that the bytes are, with its name, if it is given to its handler. -/
def handledOf (d : DlepView) (s : Surroundings) (p : Peer) (buf : Bytes) :
    Option (String × ProtocolMessage) :=
  match received d buf with
  | .ok ([], pm) =>
    match checkStatusCodeFailure d s pm p, pm.getSignalName d.cfg with
    | .ok false _, .ok name => some (name, pm)
    | _, _ => none
  | _ => none

/-- The message that a step gives to its handler. -/
def Step.handled (p : Peer) (st : Step) : Option (String × ProtocolMessage) :=
  match st.input, nextMessage st.d p with
  | .message, some buf => handledOf st.d st.s p buf
  | _, _ => none

/-- A message that is given to its handler is valid, and has the name of the handler. -/
theorem received_of_handledOf {d : DlepView} {s : Surroundings} {p : Peer} {buf : Bytes}
    {name : String} {pm : ProtocolMessage} (h : handledOf d s p buf = some (name, pm)) :
    received d buf = .ok ([], pm) ∧ pm.getSignalName d.cfg = .ok name := by
  unfold handledOf at h
  split at h
  · next hreceived =>
    split at h
    · next hname =>
      obtain ⟨rfl, rfl⟩ := Prod.mk.inj (Option.some.inj h)
      exact ⟨hreceived, hname⟩
    · cases h
  · cases h

/-- A step that gives a message to its handler is one that reads the next message of the buffer.
-/
theorem exists_of_handled {p : Peer} {st : Step} {name : String} {pm : ProtocolMessage}
    (h : st.handled p = some (name, pm)) :
    ∃ buf, st.input = .message ∧ nextMessage st.d p = some buf ∧
      handledOf st.d st.s p buf = some (name, pm) := by
  unfold Step.handled at h
  split at h
  · next buf hmsg hnext => exact ⟨buf, hmsg, hnext, h⟩
  · cases h

/-- A message that is given to its handler. -/
theorem wp_handlePeerSignal_of_handledOf {d : DlepView} {s : Surroundings} {p : Peer} {buf : Bytes}
    {name : String} {pm : ProtocolMessage} {Q : Unit → Peer → Prop} {E : Exn → Peer → Prop}
    (h : handledOf d s p buf = some (name, pm)) (hdispatch : wp (dispatch d s name pm) Q E p) :
    wp (handlePeerSignal d s buf) Q E p := by
  obtain ⟨hreceived, hname⟩ := received_of_handledOf h
  refine wp_handlePeerSignal_of_pass hreceived ?_ hname hdispatch
  have hcheck := @wp_checkStatusCodeFailure _ d s pm p
  unfold handledOf at h
  rw [hreceived] at h
  dsimp only at h
  split at h
  · next q _ hpass _ =>
    rw [wp, hpass] at hcheck
    obtain rfl : q = p := hcheck.2
    exact hpass
  · cases h

/-- The check of the status ends the session, or leaves the peer as it is. -/
theorem wp_checkStatusCodeFailure_of_end {d : DlepView} {s : Surroundings} {pm : ProtocolMessage}
    {p : Peer} {P : Peer → Prop} (hsame : P p)
    (hend : ∀ status reason, P (after (terminate d s status reason) p)) :
    wp (checkStatusCodeFailure d s pm) (fun ended q => P q ∧ (ended = false → q = p))
      (fun _ q => P q) p := by
  rw [checkStatusCodeFailure, wp_bind]
  refine wp_lift (fun _ _ => ?_) fun _ _ => hsame
  split
  · exact ⟨hsame, fun _ => rfl⟩
  · rw [wp_bind]
    refine wp_lift (fun status _ => ?_) fun _ _ => hsame
    cases status with
    | none => exact ⟨hsame, fun _ => rfl⟩
    | some status =>
      rw [wp_bind]
      refine wp_lift (fun info _ => ?_) fun _ _ => hsame
      split
      · rw [wp_bind]
        exact (wp_after.2 (hend _ _)).mono (fun _ q hq => ⟨hq, fun h => by cases h⟩)
          fun _ _ hq => hq
      · exact ⟨hsame, fun _ => rfl⟩

/-- A message is given to its handler, or the session ends, or nothing happens. -/
theorem wp_handlePeerSignal_of_handled {d : DlepView} {s : Surroundings} {buf : Bytes} {p : Peer}
    {P : Peer → Prop} (hsame : P p)
    (hend : ∀ status reason, P (after (terminate d s status reason) p))
    (hdispatch : ∀ name pm, handledOf d s p buf = some (name, pm) →
      P (after (dispatch d s name pm) p)) :
    wp (handlePeerSignal d s buf) (fun _ q => P q) (fun _ q => P q) p := by
  rw [handlePeerSignal, wp_bind]
  refine wp_lift (fun r hr => ?_) fun _ _ => hsame
  obtain ⟨err, pm⟩ := r
  dsimp only
  split
  · exact wp_after.2 (hend _ _)
  · next herr =>
    obtain rfl : err = [] := by simpa using herr
    rw [wp_bind]
    have hcheck := @wp_checkStatusCodeFailure_of_end _ d s pm p P hsame hend
    refine wp_of_run (fun ended q hrun => ?_) fun e q hrun => ?_
    · rw [wp, hrun] at hcheck
      cases ended with
      | true => exact hcheck.1
      | false =>
        obtain rfl := hcheck.2 rfl
        simp only [Bool.false_eq_true, if_false, wp_bind]
        refine wp_lift (fun name hname => ?_) fun _ _ => hsame
        refine wp_after.2 (hdispatch name pm ?_)
        simp only [handledOf, hr, hrun, hname]
    · rw [wp, hrun] at hcheck
      exact hcheck

/-- The constructor starts with nothing. -/
theorem create_ok {cfg : ProtocolConfig} {peerId : PeerId} {now : Nat} {p : Peer}
    (h : Peer.create cfg peerId now = .ok p) :
    p = { peerId, peerPdp := { peerId }, lastReceiveTime := now } := by
  obtain ⟨pd, hpd, hp⟩ := bind_eq_ok.1 h
  obtain rfl := Except.ok.inj hp
  have hempty : wp (PeerData.updateDataItemsHelper cfg []) (fun _ pd' => pd' = { peerId })
      (fun _ _ => True) { peerId } := by
    rw [PeerData.updateDataItemsHelper, wp_bind]
    exact wp_lift (fun _ _ => rfl) fun _ _ => trivial
  unfold PeerData.create at hpd
  unfold wp at hempty
  split at hpd
  · next heq =>
    rw [heq] at hempty
    rw [← Except.ok.inj hpd, hempty]
  · cases hpd

/-- A read is a run: the bytes arrive, and then one message after the other is handled. -/
theorem handleSessionReceive_eq_run {d : DlepView} {s : Surroundings} {bytes : Bytes} (p : Peer) :
    ∃ n, after (handleSessionReceive d s bytes) p =
      run step p (⟨d, s, .receive bytes⟩ :: List.replicate n ⟨d, s, .message⟩) := by
  have hstep : ∀ q, after (handleNext d s) q = step q ⟨d, s, .message⟩ := fun q =>
    after_bind_pure.symm
  have hloop : ∀ (fuel : Nat) (q : Peer), ∃ n, after (handleComplete d s fuel) q =
      run step q (List.replicate n ⟨d, s, .message⟩) := by
    intro fuel
    induction fuel with
    | zero => exact fun q => ⟨0, rfl⟩
    | succ fuel ih =>
      intro q
      refine (wp_after (P := fun q' => ∃ n, q' =
        run step q (List.replicate n ⟨d, s, .message⟩))).1 ?_
      have hnext := (wp_after (P := fun q' => q' = step q ⟨d, s, .message⟩)).2 (hstep q)
      refine wp_bind.2 (hnext.mono ?_ fun _ q' hq' => ⟨1, hq'⟩)
      rintro more q' rfl
      cases more with
      | true =>
        obtain ⟨n, hn⟩ := ih (step q ⟨d, s, .message⟩)
        exact wp_after.2 ⟨n + 1, hn⟩
      | false => exact ⟨1, rfl⟩
  exact hloop _ _

end

end Peer

end Dlep
