import Dlep.Peer.Closed
import Dlep.Peer.Queues

/-!
# What a queue of messages looks like

The message at the head of a queue has been sent and awaits its response, the others wait to be
sent. This is kept by everything a peer does, except where a response is accepted for a
destination in which the peer is not interested any more: then the next message becomes the head
and is not sent.
-/

namespace Dlep

open Std Calls Runs

namespace Peer

/-- The documented form of a queue (`Peer.h:300`). -/
structure InFlight (mac : DlepMac) (q : List ResponsePending) : Prop where
  head : ∃ head rest, q = head :: rest ∧ 1 ≤ head.sendTries ∧ ∀ rp ∈ rest, rp.sendTries = 0
  member : ∀ rp ∈ q, rp.destination = mac ∧ rp.queued = true
  distinct : (q.map ResponsePending.uid).Nodup

/-- A queue of the documented form is not empty. -/
theorem InFlight.ne_nil {mac : DlepMac} {q : List ResponsePending}
    (h : InFlight mac q) : q ≠ [] := by
  obtain ⟨head, rest, rfl, _⟩ := h.head
  simp

/-- Every queue has its form, and identities are not used again. -/
def QueuesInFlight (p : Peer) : Prop :=
  ∀ (mac : DlepMac) (q : List ResponsePending), p.responsesPending[mac]? = some q →
    InFlight mac q ∧ ∀ rp ∈ q, rp.uid < p.nextUid

/-- A queue with one message, which has been sent once. -/
theorem inFlight_singleton {mac : DlepMac} {rp : ResponsePending} (hmac : rp.destination = mac)
    (hqueued : rp.queued = true) (htries : rp.sendTries = 1) : InFlight mac [rp] where
  head := ⟨rp, [], rfl, by simp [htries], by simp⟩
  member := by simp [hmac, hqueued]
  distinct := by simp

/-- A message that has not been sent is put at the end. -/
theorem InFlight.append {mac : DlepMac} {q : List ResponsePending} {rp : ResponsePending}
    (h : InFlight mac q) (hmac : rp.destination = mac) (hqueued : rp.queued = true)
    (htries : rp.sendTries = 0) (hnew : ∀ rp' ∈ q, rp'.uid < rp.uid) :
    InFlight mac (q ++ [rp]) where
  head := by
    obtain ⟨head, rest, rfl, hhead, hrest⟩ := h.head
    refine ⟨head, rest ++ [rp], by simp, hhead, fun rp' hrp' => ?_⟩
    rcases List.mem_append.1 hrp' with hold | hlast
    · exact hrest rp' hold
    · exact List.mem_singleton.1 hlast ▸ htries
  member := by
    intro rp' hrp'
    rcases List.mem_append.1 hrp' with hold | hlast
    · exact h.member rp' hold
    · exact List.mem_singleton.1 hlast ▸ ⟨hmac, hqueued⟩
  distinct := by
    rw [List.map_append, List.nodup_append]
    refine ⟨h.distinct, by simp, fun a ha b hb hab => ?_⟩
    obtain ⟨rp', hrp', rfl⟩ := List.mem_map.1 ha
    obtain rfl : b = rp.uid := by simpa using hb
    exact absurd hab (Nat.ne_of_lt (hnew rp' hrp'))

/-- The head is sent; the others of the queue are as they were. -/
theorem inFlight_sent {mac : DlepMac} {head sent : ResponsePending} {rest : List ResponsePending}
    (hmember : ∀ rp ∈ head :: rest, rp.destination = mac ∧ rp.queued = true)
    (hdistinct : ((head :: rest).map ResponsePending.uid).Nodup)
    (hrest : ∀ rp ∈ rest, rp.sendTries = 0) (htries : 1 ≤ sent.sendTries)
    (huid : sent.uid = head.uid) (hmac : sent.destination = head.destination)
    (hqueued : sent.queued = head.queued) : InFlight mac (sent :: rest) where
  head := ⟨sent, rest, rfl, htries, hrest⟩
  member := by
    obtain ⟨hhead, hothers⟩ := List.forall_mem_cons.1 hmember
    exact List.forall_mem_cons.2 ⟨by rwa [hmac, hqueued], hothers⟩
  distinct := by
    rw [List.map_cons, huid, ← List.map_cons]
    exact hdistinct

/-- A count below its limit does not wrap when it is raised. -/
theorem one_le_add_one {n limit : UInt32} (h : n < limit) : 1 ≤ n + 1 := by
  have hlt := UInt32.lt_iff_toNat_lt.1 h
  have hlimit := limit.toNat_lt
  rw [UInt32.le_iff_toNat_le, UInt32.toNat_add]
  have hsum : n.toNat + 1 < 2 ^ 32 := by omega
  simp only [UInt32.toNat_one, Nat.mod_eq_of_lt hsum]
  omega

/-- The queues after one of them has been written. -/
theorem getElem?_insert_queue {queues : ExtTreeMap DlepMac (List ResponsePending)} {mac : DlepMac}
    {q : List ResponsePending} (key : DlepMac) :
    (queues.insert mac q)[key]? = if mac = key then some q else queues[key]? := by
  simp only [ExtTreeMap.getElem?_insert, Std.compare_eq_iff_eq]

/-- One queue is replaced by a good one. -/
theorem QueuesInFlight.insert {p p' : Peer} {mac : DlepMac} {q : List ResponsePending}
    (h : QueuesInFlight p)
    (hqueues : ∀ key : DlepMac, p'.responsesPending[key]? =
      if mac = key then some q else p.responsesPending[key]?)
    (huid : p.nextUid ≤ p'.nextUid) (hq : InFlight mac q) (hfresh : ∀ rp ∈ q, rp.uid < p'.nextUid) :
    QueuesInFlight p' := by
  intro mac' q' hq'
  rw [hqueues] at hq'
  split at hq'
  · next hmac =>
    subst hmac
    obtain rfl := Option.some.inj hq'
    exact ⟨hq, hfresh⟩
  · obtain ⟨hflight, hold⟩ := h mac' q' hq'
    exact ⟨hflight, fun rp hrp => Nat.lt_of_lt_of_le (hold rp hrp) huid⟩

/-! ## The calls that write the queues -/

/-- A new message goes to the end of its queue, and is sent if it is the first there. -/
theorem queuesInFlight_sendNew {now : Nat} {rp : ResponsePending} (hqueued : rp.queued = false)
    (htries : rp.sendTries = 0) {p : Peer} (hp : QueuesInFlight p) :
    QueuesInFlight (after (sendNew now rp) p) := by
  refine wp_after.1 ?_
  have hfresh : ¬ ({ rp with uid := p.nextUid } :
    ResponsePending).queued = true := by simp [hqueued]
  simp only [sendNew, sendMessageExpectingResponse, enqueue, sendIfHead, if_neg hfresh, wp_bind,
    wp_get, wp_modify]
  split
  · exact fun mac q hq => ⟨(hp mac q hq).1,
      fun rp' hrp' => Nat.lt_succ_of_lt ((hp mac q hq).2 rp' hrp')⟩
  · simp only [wp_bind, wp_modify, wp_get, ExtTreeMap.getElem?_insert_self]
    cases hold : p.responsesPending[rp.destination]? with
    | none =>
      simp only [Option.getD_none, List.nil_append, if_true, transmit, wp_modify]
      refine hp.insert (q := [{ rp with
          uid := p.nextUid, queued := true, sendTime := now, sendTries := rp.sendTries + 1 }])
        (fun key => ?_) (Nat.le_succ _) (inFlight_singleton rfl rfl (by simp [htries])) (by simp)
      simp only [getElem?_insert_queue]
      split <;> rfl
    | some q =>
      obtain ⟨hflight, huids⟩ := hp _ _ hold
      obtain ⟨head, rest, rfl, _⟩ := hflight.head
      have hne : ¬ head.uid = p.nextUid := Nat.ne_of_lt (huids head (by simp))
      simp only [Option.getD_some, List.cons_append, if_neg hne, wp_pure]
      refine hp.insert getElem?_insert_queue (Nat.le_succ _) ?_ ?_
      · exact hflight.append rfl rfl htries fun rp' hrp' => huids rp' hrp'
      · intro rp' hrp'
        rw [← List.cons_append] at hrp'
        rcases List.mem_append.1 hrp' with hmem | hlast
        · exact Nat.lt_succ_of_lt (huids rp' hmem)
        · obtain rfl := List.mem_singleton.1 hlast
          exact Nat.lt_succ_self _

/-- A message that is on its queue is sent if it is the head. -/
theorem wp_sendMessageExpectingResponse_queued {now : Nat} {p : Peer} {head : ResponsePending}
    {rest : List ResponsePending}
    (hqueue : p.responsesPending[head.destination]? = some (head :: rest))
    (hqueued : head.queued = true) {Q : Unit → Peer → Prop} {E : Exn → Peer → Prop}
    (hnot : p.isNotInterested head.destination = true → Q () p)
    (hsend : p.isNotInterested head.destination = false → Q ()
      { p with
        responsesPending := p.responsesPending.insert head.destination
          ({ head with sendTime := now, sendTries := head.sendTries + 1 } :: rest)
        trace := p.trace ++ [.transmit head] }) :
    wp (sendMessageExpectingResponse now head) Q E p := by
  simp only [sendMessageExpectingResponse, wp_bind, wp_get]
  split
  · next hint => exact hnot hint
  · next hint =>
    simp only [enqueue, if_pos hqueued, sendIfHead, wp_bind, wp_pure, wp_get, hqueue, if_true,
      transmit, wp_modify]
    exact hsend (by simpa using hint)

/-- What the call leaves behind. -/
theorem wp_sendMessageExpectingResponse_head {now : Nat} {p : Peer} {head : ResponsePending}
    {rest : List ResponsePending}
    (hqueue : p.responsesPending[head.destination]? = some (head :: rest))
    (hqueued : head.queued = true) {P : Peer → Prop}
    (hnot : p.isNotInterested head.destination = true → P p)
    (hsend : p.isNotInterested head.destination = false → P
      { p with
        responsesPending := p.responsesPending.insert head.destination
          ({ head with sendTime := now, sendTries := head.sendTries + 1 } :: rest)
        trace := p.trace ++ [.transmit head] }) :
    P (after (sendMessageExpectingResponse now head) p) :=
  wp_after.1 (wp_sendMessageExpectingResponse_queued hqueue hqueued hnot hsend)

/-- Sending the head again raises its count and nothing else. -/
theorem queuesInFlight_resend {now : Nat} {p : Peer} {mac : DlepMac} {head : ResponsePending}
    {rest : List ResponsePending} {limit : UInt32}
    (hqueue : p.responsesPending[mac]? = some (head :: rest)) (hlimit : head.sendTries < limit)
    (hp : QueuesInFlight p) :
    QueuesInFlight (after (sendMessageExpectingResponse now head) p) := by
  obtain ⟨hflight, huids⟩ := hp _ _ hqueue
  obtain ⟨rfl, hqueued⟩ := hflight.member head (by simp)
  obtain ⟨_, _, ⟨rfl, rfl⟩, _, hrest⟩ := hflight.head
  refine wp_sendMessageExpectingResponse_head hqueue hqueued (fun _ => hp) fun _ => ?_
  refine hp.insert getElem?_insert_queue le_rfl ?_ ?_
  · exact inFlight_sent hflight.member hflight.distinct hrest (one_le_add_one hlimit) rfl rfl rfl
  · exact List.forall_mem_cons.2 (List.forall_mem_cons.1 huids)

instance : Closed fun p q => QueuesInFlight p → QueuesInFlight q where
  refl _ h := h
  trans _ _ _ h h' hp := h' (h hp)
  other p q hqueues huid _ _ hp := by
    intro mac l hl
    rw [hqueues] at hl
    rw [huid]
    exact hp mac l hl
  send _ _ hqueued htries _ := queuesInFlight_sendNew hqueued htries
  resend _ _ _ _ _ _ := queuesInFlight_resend

/-- The response is accepted, and the message behind the one it answers is not sent. -/
def Strands (p : Peer) (pm : ProtocolMessage) (mac : DlepMac) : Prop :=
  p.expects pm mac ∧ p.isNotInterested mac ∧ 1 < (p.queue mac).length

instance {p : Peer} {pm : ProtocolMessage} {mac : DlepMac} : Decidable (p.Strands pm mac) :=
  inferInstanceAs (Decidable (_ ∧ _))

/-- After a response that strands nothing, the next message is sent. -/
theorem queuesInFlight_acceptResponse {s : Surroundings} {pm : ProtocolMessage} {mac : DlepMac}
    {p : Peer} (hstrands : ¬ p.Strands pm mac) (hp : QueuesInFlight p) :
    QueuesInFlight (after (acceptResponse s pm mac) p) := by
  refine wp_after.1 ?_
  simp only [acceptResponse, wp_bind, wp_get]
  split
  · exact hp
  · exact hp
  · next rp rest hqueue =>
    obtain ⟨hflight, huids⟩ := hp _ _ hqueue
    obtain ⟨_, _, ⟨rfl, rfl⟩, _, hzero⟩ := hflight.head
    split
    · exact hp
    · next id hid =>
      split
      · next hresp =>
        rw [wp_bind]
        cases rest with
        | nil =>
          intro mac' q hq
          simp only at hq
          rw [ExtTreeMap.getElem?_erase] at hq
          split at hq
          · cases hq
          · exact hp mac' q hq
        | cons next rest =>
          -- the next message is the head now, and is sent since the peer is interested
          have hinterest : p.isNotInterested mac = false := by
            by_contra hne
            refine hstrands ⟨?_, by simpa using hne, ?_⟩
            · simp [expects, hqueue, hid, hresp]
            · simp [queue, hqueue]
          obtain ⟨hrp, hothers⟩ := List.forall_mem_cons.1 hflight.member
          obtain ⟨rfl, hqueued⟩ := hothers next (by simp)
          have hdistinct : ((next :: rest).map ResponsePending.uid).Nodup :=
            (List.nodup_cons.1 hflight.distinct).2
          simp only [popResponse, wp_bind, wp_modify, wp_pure]
          refine wp_after.2 (wp_sendMessageExpectingResponse_head
            ExtTreeMap.getElem?_insert_self hqueued (fun hint => ?_) fun _ => ?_)
          · exact absurd (hint.symm.trans hinterest) (by simp)
          · have hsent : InFlight next.destination
                ({ next with sendTime := s.now, sendTries := next.sendTries + 1 } :: rest) := by
              refine inFlight_sent hothers hdistinct (fun rp' hrp' => hzero rp' (by simp [hrp'])) ?_
                rfl rfl rfl
              simp [hzero next (by simp)]
            refine hp.insert (fun key => ?_) le_rfl hsent ?_
            · simp only [getElem?_insert_queue]
              split <;> rfl
            · exact List.forall_mem_cons.2
                (List.forall_mem_cons.1 (List.forall_mem_cons.1 huids).2)
      · exact hp

/-! ## Runs -/

section

variable [AddressText]

/-- The message is a response that strands the next message for its destination: it is valid, its
status does not end the session, its handler looks for the message that it answers, and the
response is accepted. -/
def strandedBy (d : DlepView) (p : Peer) (buf : Bytes) : Bool :=
  match received d buf with
  | .ok ([], pm) =>
    match statusEnds d pm, pm.getSignalName d.cfg, ifPresent (pm.getMac d.cfg) with
    | false, .ok name, .ok mac => p.takesResponse name mac && p.Strands pm (mac.getD [])
    | _, _, _ => false
  | _ => false

/-- The step handles a response that strands the next message for its destination. -/
def Step.strands (p : Peer) (st : Step) : Bool :=
  match st.input, nextMessage st.d p with
  | .message, some buf => strandedBy st.d p buf
  | _, _ => false

/-- A step that strands no message keeps the form of the queues. -/
theorem queuesInFlight_step {p : Peer} {st : Step} (hst : st.strands p = false)
    (hp : QueuesInFlight p) : QueuesInFlight (p.step st) := by
  by_cases hmsg : st.input = .message
  · cases hnext : nextMessage st.d p with
    | none =>
      rw [step_of_nextMessage_none hmsg hnext]
      exact hp
    | some buf =>
      have hbuf : strandedBy st.d p buf = false := by simpa [Step.strands, hmsg, hnext] using hst
      have hsignal : wp (handlePeerSignal st.d st.s buf)
          (fun _ q => QueuesInFlight p → QueuesInFlight q)
          (fun _ q => QueuesInFlight p → QueuesInFlight q) p := by
        refine closed_handlePeerSignal (R := fun p q => QueuesInFlight p → QueuesInFlight q)
          fun pm name mac hpm hends hname htakes hmac =>
            queuesInFlight_acceptResponse fun hstrands => ?_
        simp [strandedBy, hpm, hends, hname, hmac, htakes, hstrands] at hbuf
      refine step_of_nextMessage hmsg hnext (fun _ _ h => h) ?_
      exact hsignal.mono (fun _ _ h => h hp) fun _ _ h => h hp
  · by_cases hreceive : ∃ bytes, st.input = .receive bytes
    · obtain ⟨bytes, hbytes⟩ := hreceive
      obtain ⟨d, s, input⟩ := st
      subst hbytes
      exact hp
    · exact closed_step (R := fun p q => QueuesInFlight p → QueuesInFlight q) hmsg
        (fun bytes h => hreceive ⟨bytes, h⟩) p hp

/-- In every run in which no response strands a message, every queue holds a message, the head of a
queue has been sent and the others have not, and all of them are queued, for the destination of the
queue, and different objects. -/
theorem inFlight_of_not_strands {cfg : ProtocolConfig} {peerId : PeerId} {now : Nat} {p : Peer}
    {steps : List Step} (hp : Peer.create cfg peerId now = .ok p)
    (h : Along step (fun q st => st.strands q = false) p steps) (mac : DlepMac)
    (q : List ResponsePending)
    (hq : (run step p steps).responsesPending[mac]? = some q) : InFlight mac q := by
  have hstart : QueuesInFlight p := by
    obtain rfl := create_ok hp
    intro mac q hq
    simp at hq
  exact (h.invariant (fun _ _ hs hst => queuesInFlight_step hst hs) hstart mac q hq).1

end

attribute [local instance] plainText

/-- To Destination Up for `0a:0b`, with the status Not Interested. -/
def upNotInterested : Bytes := [0, 8, 0, 11, 0, 7, 0, 2, 10, 11, 0, 1, 0, 1, 1]

/-- To Destination Down for `0a:0b`. -/
def downResponse : Bytes := [0, 12, 0, 11, 0, 7, 0, 2, 10, 11, 0, 1, 0, 1, 0]

/-- A modem brings a destination up and down. -/
def upAndDown : List Step :=
  bareSteps true [.destinationUp [10, 11] [], .destinationDown [10, 11] []]

/-- A destination is brought up and down; the second message waits behind the first. -/
theorem inFlight_of_not_strands_upAndDown :
    ∃ q, (run step barePeer upAndDown).responsesPending[([10, 11] : DlepMac)]? = some q ∧
      InFlight [10, 11] q := by
  have hsome : (run step barePeer upAndDown).responsesPending[([10, 11] : DlepMac)]?.isSome := by
    decide +kernel
  obtain ⟨q, hq⟩ := Option.isSome_iff_exists.1 hsome
  exact ⟨q, hq, @inFlight_of_not_strands plainText rfc8175 (str "peer") 0 barePeer upAndDown rfl
    (by decide +kernel) [10, 11] q hq⟩

/-- In a session, a modem brings a destination up, down and up again; the router is not
interested, and answers the first two messages. -/
def upDownUp : List Step :=
  bareSteps true [.receive sessionInitialization, .message, .destinationUp [10, 11] [],
    .destinationDown [10, 11] [], .destinationUp [10, 11] [], .receive upNotInterested, .message,
    .receive downResponse, .message]

/-- The third message is at the head of its queue and was never sent. -/
theorem upDownUp_strands :
    Peer.create rfc8175 (str "peer") 0 = .ok barePeer ∧
      ∃ q, (run step barePeer upDownUp).responsesPending[([10, 11] : DlepMac)]? = some q ∧
        ¬ InFlight [10, 11] q := by
  have htries : ((run step barePeer upDownUp).responsesPending[([10, 11] : DlepMac)]?).map
      (List.map ResponsePending.sendTries) = some [0] := by decide +kernel
  obtain ⟨q, hq, hmap⟩ := Option.map_eq_some_iff.1 htries
  refine ⟨rfl, q, hq, fun h => ?_⟩
  obtain ⟨head, rest, rfl, hhead, _⟩ := h.head
  rw [(List.cons.inj hmap).1] at hhead
  exact absurd hhead (by decide)

end Peer

end Dlep
