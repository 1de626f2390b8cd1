import Dlep.Peer.Handlers
import Mathlib.Logic.Relation

/-!
# What a peer can do

Every call on a peer is a sequence of moves of a few kinds: a message is sent, a queue advances, the
data of the peer is written, the client is called, the session opens or closes. A move says all that
it changes, so that an invariant of the peer is proved for the moves and then holds for every call.
Which kinds a call may use is a statement about the call alone.
-/

namespace Dlep

open Std Calls Relation

/-- Is the event about a queue? -/
def Event.isQueue : Event → Bool
  | .enqueue _ => true
  | .transmit _ => true
  | .accept _ _ _ => true
  | _ => false

/-- Is the event a call about what the peer told us during the session? -/
def ClientCall.isCallback : ClientCall → Bool
  | .peerUpdate _ _ => true
  | .destinationUp _ _ _ => true
  | .destinationUpdate _ _ _ => true
  | .destinationDown _ _ _ => true
  | .linkcharRequest _ _ _ => true
  | .linkcharReply _ _ _ => true
  | _ => false

namespace Peer

/-- The kinds of moves. -/
inductive Kind where
  | quiet
  | send
  | queue
  | interest
  | store
  | init
  | callback
  | up
  | down
  deriving DecidableEq

/-- Every queue holds a message, and the messages of a queue are marked as queued and are for the
destination of the queue. -/
def QueueOk (p : Peer) : Prop :=
  ∀ (mac : DlepMac) (q : List ResponsePending), p.responsesPending[mac]? = some q →
    q ≠ [] ∧ ∀ rp ∈ q, rp.queued = true ∧ rp.destination = mac

/-- One move. -/
inductive Move : Kind → Peer → Peer → Prop where
  /-- Fields that no other move writes. -/
  | quiet {p p' : Peer} (hstate : p'.pstate = p.pstate) (hpdp : p'.peerPdp = p.peerPdp)
      (hqueues : p'.responsesPending = p.responsesPending)
      (hinterest : p'.notInterestedDestinations = p.notInterestedDestinations)
      (huid : p.nextUid ≤ p'.nextUid) (htrace : p'.trace = p.trace) : Move .quiet p p'
  | send {p : Peer} (buf : Bytes) : Move .send p { p with trace := p.trace ++ [.send buf] }
  | advertise {p : Peer} (mac : DlepMac) :
      Move .send p { p with trace := p.trace ++ [.addDestination mac] }
  /-- A new message is put on its queue. -/
  | enqueue {p : Peer} {rp : ResponsePending} (huid : rp.uid = p.nextUid) :
      Move .queue p
        { p with
          nextUid := p.nextUid + 1
          responsesPending := p.responsesPending.insert rp.destination
            ((p.responsesPending[rp.destination]?).getD [] ++ [{ rp with queued := true }])
          trace := p.trace ++ [.enqueue rp] }
  /-- The head of a queue is sent. -/
  | transmit {p : Peer} {now : Nat} {mac : DlepMac} {rp : ResponsePending}
      {rest : List ResponsePending} (hhead : p.responsesPending[mac]? = some (rp :: rest)) :
      Move .queue p
        { p with
          responsesPending := p.responsesPending.insert mac
            ({ rp with sendTime := now, sendTries := rp.sendTries + 1 } :: rest)
          trace := p.trace ++ [.transmit rp] }
  /-- The head of a queue has got its response: the queue is shortened or removed. -/
  | accept {p : Peer} {mac : DlepMac} {rp : ResponsePending} {rest : List ResponsePending}
      {queues : ExtTreeMap DlepMac (List ResponsePending)} {id : SignalIdType}
      (hhead : p.responsesPending[mac]? = some (rp :: rest)) (hid : rp.responseId = id)
      (hqueues : queues = if rest = [] then p.responsesPending.erase mac
        else p.responsesPending.insert mac rest) :
      Move .queue p
        { p with
          responsesPending := queues
          trace := p.trace ++ [.accept rp id mac] }
  | interest {p : Peer} (macs : ExtTreeSet DlepMac) :
      Move .interest p { p with notInterestedDestinations := macs }
  /-- The data of the peer is written; metrics of the peer are never added where there are none. -/
  | store {p : Peer} {pd : PeerData}
      (hmetrics : p.peerPdp.metricDataItems = ∅ → pd.metricDataItems = ∅) :
      Move .store p { p with peerPdp := pd }
  | init {p : Peer} (items : DataItems) :
      Move .init p { p with trace := p.trace ++ [.client (.peerInit p.peerId items)] }
  | callback {p : Peer} {call : ClientCall} (hcall : call.isCallback) :
      Move .callback p { p with trace := p.trace ++ [.client call] }
  | up {p : Peer} (info : PeerInfo) :
      Move .up p { p with pstate := .inSession, trace := p.trace ++ [.client (.peerUp info)] }
  /-- The session closes, but only once. -/
  | down {p : Peer} {rest : List Event} (hstate : p.pstate ≠ .terminating)
      (hrest : rest = [] ∨ rest = [.clearDestinations]) :
      Move .down p
        { p with
          pstate := .terminating
          trace := p.trace ++ .client (.peerDown p.peerId) :: rest }

/-- A sequence of moves of the given kinds. -/
def Moves (ks : Finset Kind) : Peer → Peer → Prop :=
  ReflTransGen fun p p' => ∃ k ∈ ks, Move k p p'

instance {ks : Finset Kind} : Std.Refl (Moves ks) := inferInstanceAs (Std.Refl (ReflTransGen _))

instance {ks : Finset Kind} : IsTrans Peer (Moves ks) :=
  inferInstanceAs (IsTrans Peer (ReflTransGen _))

/-- One move is a sequence of moves. -/
theorem Moves.single {ks : Finset Kind} {k : Kind} {p p' : Peer} (h : Move k p p') (hk : k ∈ ks) :
    Moves ks p p' := ReflTransGen.single ⟨k, hk, h⟩

/-- Moves of some kinds are moves of more kinds. -/
theorem Moves.mono {ks ks' : Finset Kind} {p p' : Peer} (h : Moves ks p p') (hks : ks ⊆ ks') :
    Moves ks' p p' :=
  ReflTransGen.mono (fun _ _ ⟨k, hk, hm⟩ => ⟨k, hks hk, hm⟩) _ _ h

/-- What every move keeps, every sequence of moves keeps. -/
theorem Moves.keeps {ks : Finset Kind} {P : Peer → Prop} {p p' : Peer}
    (hmove : ∀ k ∈ ks, ∀ q q', Move k q q' → P q → P q') (h : Moves ks p p') (hp : P p) : P p' := by
  induction h with
  | refl => exact hp
  | tail _ hlast ih =>
    obtain ⟨k, hk, hm⟩ := hlast
    exact hmove k hk _ _ hm ih

/-! ## Queues -/

/-- A move keeps the queues good. -/
theorem Move.queueOk {k : Kind} {p p' : Peer} (h : Move k p p') (hp : p.QueueOk) : p'.QueueOk := by
  cases h with
  | quiet _ _ hqueues _ _ _ =>
    unfold QueueOk
    rw [hqueues]
    exact hp
  | @enqueue _ rp huid =>
    intro mac q hq
    rw [ExtTreeMap.getElem?_insert] at hq
    split at hq
    · next hmac =>
      obtain rfl := compare_eq_iff_eq.1 hmac
      obtain rfl := Option.some.inj hq
      refine ⟨by simp, fun rp' hrp' => ?_⟩
      rcases List.mem_append.1 hrp' with hold | hnew
      · cases hq' : p.responsesPending[rp.destination]? with
        | none => simp [hq'] at hold
        | some q' =>
          rw [hq'] at hold
          exact (hp _ _ hq').2 rp' hold
      · obtain rfl := List.mem_singleton.1 hnew
        exact ⟨rfl, rfl⟩
    · exact hp mac q hq
  | @transmit _ now mac₀ rp rest hhead =>
    intro mac q hq
    rw [ExtTreeMap.getElem?_insert] at hq
    split at hq
    · next hmac =>
      obtain rfl := compare_eq_iff_eq.1 hmac
      obtain rfl := Option.some.inj hq
      refine ⟨by simp, List.forall_mem_cons.2 ?_⟩
      exact List.forall_mem_cons.1 (hp _ _ hhead).2
    · exact hp mac q hq
  | @accept _ mac₀ rp rest queues id hhead hid hqueues =>
    intro mac q hq
    have hold := (List.forall_mem_cons.1 (hp _ _ hhead).2).2
    change queues[mac]? = some q at hq
    rw [hqueues] at hq
    split at hq
    · rw [ExtTreeMap.getElem?_erase] at hq
      split at hq
      · cases hq
      · exact hp mac q hq
    · next hrest =>
      rw [ExtTreeMap.getElem?_insert] at hq
      split at hq
      · next hmac =>
        obtain rfl := compare_eq_iff_eq.1 hmac
        obtain rfl := Option.some.inj hq
        exact ⟨hrest, hold⟩
      · exact hp mac q hq
  | _ => exact hp

/-- A sequence of moves keeps the queues good. -/
theorem Moves.queueOk {ks : Finset Kind} {p p' : Peer} (h : Moves ks p p') (hp : p.QueueOk) :
    p'.QueueOk :=
  h.keeps (fun _ _ _ _ hm => hm.queueOk) hp

/-- Only the moves for it write the data of the peer. -/
theorem Move.peerPdp {k : Kind} {p p' : Peer} (h : Move k p p') (hk : k ≠ .store) :
    p'.peerPdp = p.peerPdp := by
  cases h with
  | quiet _ hpdp _ _ _ _ => exact hpdp
  | store _ => exact absurd rfl hk
  | _ => rfl

/-- Without a move that stores, the data stay. -/
theorem Moves.peerPdp {ks : Finset Kind} {p p' : Peer} (h : Moves ks p p') (hks : .store ∉ ks) :
    p'.peerPdp = p.peerPdp :=
  h.keeps (P := fun q => q.peerPdp = p.peerPdp)
    (fun _ hk _ _ hm hq => (hm.peerPdp fun h => hks (h ▸ hk)).trans hq) rfl

/-- Only a move about interest changes what the peer is not interested in. -/
theorem Move.notInterested {k : Kind} {p p' : Peer} (h : Move k p p') (hk : k ≠ .interest) :
    p'.notInterestedDestinations = p.notInterestedDestinations := by
  cases h with
  | quiet _ _ _ hinterest _ _ => exact hinterest
  | interest _ => exact absurd rfl hk
  | _ => rfl

/-- Without a move about interest, what the peer is not interested in stays. -/
theorem Moves.notInterested {ks : Finset Kind} {p p' : Peer} (h : Moves ks p p')
    (hks : .interest ∉ ks) : p'.notInterestedDestinations = p.notInterestedDestinations :=
  h.keeps (P := fun q => q.notInterestedDestinations = p.notInterestedDestinations)
    (fun _ hk _ _ hm hq => (hm.notInterested fun h => hks (h ▸ hk)).trans hq) rfl

/-- A call moves by the given kinds from every state with good queues. -/
def Evolves (ks : Finset Kind) (p p' : Peer) : Prop := p.QueueOk → Moves ks p p'

instance {ks : Finset Kind} : Std.Refl (Evolves ks) := ⟨fun p _ => Std.Refl.refl p⟩

instance {ks : Finset Kind} : IsTrans Peer (Evolves ks) :=
  ⟨fun _ _ _ h h' hp => IsTrans.trans _ _ _ (h hp) (h' ((h hp).queueOk hp))⟩

/-- A peer that does nothing makes no moves. -/
theorem Evolves.refl {ks : Finset Kind} (p : Peer) : Evolves ks p p := Std.Refl.refl p

/-- Moves after moves are moves. -/
theorem Evolves.trans {ks : Finset Kind} {p q r : Peer} (h : Evolves ks p q) (h' : Evolves ks q r) :
    Evolves ks p r := IsTrans.trans _ _ _ h h'

/-- Moves of some kinds are moves of more kinds. -/
theorem Evolves.mono {ks ks' : Finset Kind} {p p' : Peer} (h : Evolves ks p p') (hks : ks ⊆ ks') :
    Evolves ks' p p' := fun hp => (h hp).mono hks

/-- One move is a sequence of moves. -/
theorem Evolves.single {ks : Finset Kind} {k : Kind} {p p' : Peer} (h : Move k p p') (hk : k ∈ ks) :
    Evolves ks p p' := fun _ => .single h hk

/-- A call that moves by some kinds moves by more kinds. -/
theorem widen {α : Type} {ks ks' : Finset Kind} {m : PeerM α} (h : Within (Evolves ks) m)
    (hks : ks ⊆ ks') : Within (Evolves ks') m :=
  h.mono fun _ _ hm => hm.mono hks

/-! ## The parts of the calls -/

/-- A message that is sent at once. -/
theorem within_sendSessionMessage {buf : Bytes} :
    Within (Evolves {.send}) (sendSessionMessage buf) :=
  within_modify fun _ => .single (.send buf) (by simp)

/-- A call of the client about the peer. -/
theorem within_callClient {call : ClientCall} (hcall : call.isCallback) :
    Within (Evolves {.callback}) (callClient call) :=
  within_modify fun _ => .single (.callback hcall) (by simp)

/-- A refusal is recorded. -/
theorem within_notInterested {mac : DlepMac} : Within (Evolves {.interest}) (notInterested mac) :=
  within_modify fun _ => .single (.interest _) (by simp)

/-- A refusal is forgotten. -/
theorem within_regainInterest {mac : DlepMac} : Within (Evolves {.interest}) (regainInterest mac) :=
  within_modify fun _ => .single (.interest _) (by simp)

/-- The message is sent if it is the head of its queue. -/
theorem within_sendIfHead {now : Nat} {rp : ResponsePending} :
    Within (Evolves {.queue}) (sendIfHead now rp) := by
  refine within_of_wp fun p => ?_
  simp only [sendIfHead, wp_bind, wp_get]
  split
  · next head rest hhead =>
    split
    · exact fun _ => .single (.transmit hhead) (by simp)
    · exact Evolves.refl p
  · exact Evolves.refl p

/-- A message that is on its queue is sent again. -/
theorem within_sendMessageExpectingResponse {now : Nat} {rp : ResponsePending}
    (hrp : rp.queued = true) : Within (Evolves {.queue}) (sendMessageExpectingResponse now rp) := by
  refine within_bind within_get fun _ => within_ite (fun _ => within_pure) fun _ => ?_
  refine within_bind ?_ fun _ => within_sendIfHead
  simp only [enqueue, hrp, if_true]
  exact within_pure

/-- A new message gets its identity and is put on its queue. -/
theorem within_sendNew {now : Nat} {rp : ResponsePending} (hrp : rp.queued = false) :
    Within (Evolves {.quiet, .queue}) (sendNew now rp) := by
  refine within_of_wp fun p => ?_
  have hfresh : ¬ ({ rp with uid := p.nextUid } : ResponsePending).queued = true := by simp [hrp]
  simp only [sendNew, sendMessageExpectingResponse, enqueue, if_neg hfresh, wp_bind, wp_get,
    wp_modify]
  split
  · -- the peer is not interested: only the identity is used up
    exact fun _ => .single (.quiet rfl rfl rfl rfl (Nat.le_succ _) rfl) (by simp)
  · simp only [wp_bind, wp_modify]
    have henqueue := @Move.enqueue p { rp with uid := p.nextUid } rfl
    exact (widen within_sendIfHead (by decide)).wp_trans (.single henqueue (by simp))

/-- A new object is not on a queue. -/
theorem ResponsePending.make_queued {cfg : ProtocolConfig} {pm : ProtocolMessage}
    {rp : ResponsePending} (h : ResponsePending.make cfg pm = .ok rp) : rp.queued = false := by
  simp only [ResponsePending.make, bind_eq_ok] at h
  obtain ⟨_, _, _, _, _, _, _, _, _, _, hrp⟩ := h
  rw [← Except.ok.inj hrp]

/-- A request is a new message. -/
theorem within_sendRequest {cfg : ProtocolConfig} {now : Nat} {pm : ProtocolMessage} :
    Within (Evolves {.quiet, .queue}) (sendRequest cfg now pm) := by
  refine within_of_wp fun p => ?_
  simp only [sendRequest, wp_bind]
  refine wp_lift (fun rp hrp => ?_) fun e _ => Evolves.refl p
  exact (within_sendNew (ResponsePending.make_queued hrp)).wp p

/-- Does the head of the queue expect this response? -/
def expects (p : Peer) (pm : ProtocolMessage) (mac : DlepMac) : Bool :=
  match p.responsesPending[mac]?, pm.getSignalId with
  | some (rp :: _), .ok id => rp.responseId = id
  | _, _ => false

/-- The response is accepted exactly if it is expected. -/
theorem wp_acceptResponse {s : Surroundings} {pm : ProtocolMessage} {mac : DlepMac} {p : Peer}
    (hp : p.QueueOk) :
    wp (acceptResponse s pm mac)
      (fun ok p' => ok = p.expects pm mac ∧ if ok then Moves {.queue} p p' else p' = p)
      (fun _ p' => Moves {.queue} p p') p := by
  simp only [acceptResponse, expects, wp_bind, wp_get]
  split
  · next hnone => simp [hnone]
  · exact Std.Refl.refl p
  · next rp rest hhead =>
    simp only [hhead]
    split
    · next hid => simp [hid]
    · next id hid =>
      simp only [hid]
      split
      · next hresp =>
        simp only [hresp, decide_true]
        cases rest with
        | nil =>
          simp only [popResponse, wp_bind, wp_modify, wp_pure, if_true, true_and]
          exact .single (.accept hhead hresp (by simp)) (by simp)
        | cons next rest =>
          simp only [popResponse, wp_bind, wp_modify, wp_pure, if_true, true_and]
          have hnext := (hp _ _ hhead).2 next (by simp)
          have haccept : Evolves {.queue} p _ :=
            .single (.accept hhead hresp (if_neg (by simp)).symm) (by simp)
          exact ((within_sendMessageExpectingResponse hnext.1).wp_trans haccept).mono
            (fun _ _ h => h hp) fun _ _ h => h hp
      · next hresp => simp [hresp]

section

variable [AddressText] {d : DlepView} {s : Surroundings}

omit [AddressText] in
/-- The client is told that the session is down. -/
theorem within_stopPeer : Within (Evolves {.down}) (stopPeer d) := by
  refine within_of_wp fun p => ?_
  simp only [stopPeer, setStateTerminating, setState, callClient, emit, wp_bind, wp_get]
  split
  · exact Evolves.refl p
  · next hstate =>
    simp only [wp_bind, wp_modify]
    split
    · simp only [wp_modify, List.append_assoc]
      exact .single (.down hstate (.inr rfl)) (by simp)
    · exact .single (.down hstate (.inl rfl)) (by simp)

/-- The session goes down, and the message that ends it is sent. -/
theorem within_terminate {status : String} {reason : Bytes} :
    Within (Evolves {.quiet, .queue, .down}) (terminate d s status reason) := by
  refine within_bind within_get fun _ => within_ite (fun _ => within_pure) fun _ => ?_
  refine within_bind (widen within_stopPeer (by decide)) fun _ =>
    within_bind within_lift fun _ => ?_
  refine within_bind (widen within_sendRequest (by decide)) fun _ => ?_
  exact within_modify fun _ => .single (.quiet rfl rfl rfl rfl le_rfl rfl) (by simp)

/-! ## Timers and calls of the local node -/

/-- A silent peer is terminated. -/
theorem within_checkForActivity :
    Within (Evolves {.quiet, .queue, .down}) (checkForActivity d s) := by
  refine within_bind within_get fun p => within_ite (fun _ => within_pure) fun _ => ?_
  refine within_ite (fun _ => ?_) fun _ => within_pure
  exact within_bind within_terminate fun _ => within_pure

/-- Late messages are sent again; after too many tries the session ends. -/
theorem within_retransmit {macs : List DlepMac} :
    Within (Evolves {.quiet, .queue, .down}) (retransmit d s macs) := by
  induction macs with
  | nil => exact within_pure
  | cons mac macs ih =>
    refine within_of_wp fun p => ?_
    simp only [retransmit, wp_bind, wp_get]
    split
    · next head rest hhead =>
      split
      · split
        · rw [wp_bind]
          -- the head of a queue is marked as queued, so that it is sent again and not queued again
          have hsend : p.QueueOk → Evolves {.quiet, .queue, .down} p
              (after (sendMessageExpectingResponse s.now head) p) := fun hp =>
            widen (within_sendMessageExpectingResponse ((hp _ _ hhead).2 head (by simp)).1)
              (by decide) p
          refine (wp_after.2 ?_).mono (fun _ p' h => ih.wp_trans h) fun _ _ h => h
          exact fun hp => hsend hp hp
        · exact within_terminate.wp p
      · exact ih.wp p
    · exact ih.wp p

/-- The timer looks for late messages, and for a silent peer. -/
theorem within_handleAcktivityTimeout :
    Within (Evolves {.quiet, .queue, .down}) (handleAcktivityTimeout d s) := by
  refine within_bind within_checkForActivity fun _ => within_ite (fun _ => ?_) fun _ => within_pure
  exact within_bind within_get fun _ => within_retransmit

omit [AddressText] in
/-- A heartbeat is sent. -/
theorem within_handleHeartbeatTimeout : Within (Evolves {.send}) handleHeartbeatTimeout :=
  within_bind within_get fun _ => within_ite (fun _ => within_sendSessionMessage) fun _ =>
    within_pure

omit [AddressText] in
/-- What is owed for a destination is part of the data. -/
theorem within_setNeedsResponse {mac : DlepMac} {name : String} :
    Within (Evolves {.store})
      (modify fun p => { p with peerPdp := p.peerPdp.setNeedsResponse mac name } : PeerM Unit) :=
  within_modify fun _ => .single (.store fun h => h) (by simp)

/-- A request that the destination is up, or the response that is owed for it. -/
theorem within_destinationUp {mac : DlepMac} {items : DataItems} :
    Within (Evolves {.quiet, .send, .queue, .store}) (destinationUp d s mac items) := by
  refine within_bind within_get fun p => within_ite (fun _ => ?_) fun _ => ?_
  · refine within_bind (widen within_setNeedsResponse (by decide)) fun _ => ?_
    exact within_bind within_lift fun _ => widen within_sendSessionMessage (by decide)
  · exact within_bind within_lift fun _ => widen within_sendRequest (by decide)

/-- A request that the destination is down. -/
theorem within_destinationDown {mac : DlepMac} {items : DataItems} :
    Within (Evolves {.quiet, .queue}) (destinationDown d s mac items) :=
  within_bind within_lift fun _ => within_sendRequest

/-- An update is sent without a queue. -/
theorem within_destinationUpdate {mac : DlepMac} {items : DataItems} :
    Within (Evolves {.send}) (destinationUpdate d mac items) := by
  refine within_bind within_get fun _ => within_ite (fun _ => within_pure) fun _ => ?_
  exact within_bind within_lift fun _ => within_sendSessionMessage

/-- A request with the update. -/
theorem within_peerUpdate {items : DataItems} :
    Within (Evolves {.quiet, .queue}) (peerUpdate d s items) := by
  refine within_bind within_get fun _ => within_ite (fun _ => ?_) fun _ => within_pure
  refine within_bind within_lift fun _ => ?_
  exact within_bind within_sendRequest fun _ => within_pure

/-- A request about the link. -/
theorem within_linkCharacteristicsRequest {mac : DlepMac} {items : DataItems} :
    Within (Evolves {.quiet, .queue}) (linkCharacteristicsRequest d s mac items) :=
  within_bind within_lift fun _ => within_sendRequest

/-- A response about the link. -/
theorem within_linkCharacteristicsResponse {mac : DlepMac} {items : DataItems} :
    Within (Evolves {.send}) (linkCharacteristicsResponse d s mac items) := by
  refine within_ite (fun _ => ?_) fun _ => within_pure
  exact within_bind within_lift fun _ => within_sendSessionMessage

/-- A response with a status. -/
theorem within_sendSimpleResponse {name status : String} {message : Bytes} {mac : Option DlepMac} :
    Within (Evolves {.send}) (sendSimpleResponse d s name status message mac) := by
  refine within_ite (fun _ => ?_) fun _ => within_pure
  exact within_bind within_lift fun _ => within_sendSessionMessage

/-- The client may change the message of the handshake. -/
theorem within_letClientModify {pm : ProtocolMessage} :
    Within (Evolves {.init}) (letClientModify d s pm) := by
  refine within_of_wp fun p => ?_
  have hinit : Evolves {.init} p _ := .single (.init pm.dataItems) (by simp)
  simp only [letClientModify, callClient, emit, wp_bind, wp_get, wp_modify]
  split
  · exact hinit
  · rw [wp_bind]
    exact wp_lift (fun _ _ => hinit) fun _ _ => hinit

/-- A router sends its opening as a request. -/
theorem within_startPeer : Within (Evolves {.quiet, .queue, .init}) (startPeer d s) := by
  refine within_bind within_lift fun _ => within_bind ?_ fun _ => ?_
  · exact within_modify fun _ => .single (.quiet rfl rfl rfl rfl le_rfl rfl) (by simp)
  · refine within_ite (fun _ => within_pure) fun _ => within_bind within_lift fun _ => ?_
    refine within_bind (widen within_letClientModify (by decide)) fun _ => ?_
    exact widen within_sendRequest (by decide)

end

end Peer

end Dlep
