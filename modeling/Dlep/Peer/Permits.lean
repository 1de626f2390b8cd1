import Dlep.Peer.Run

/-!
# What a peer says

What a peer says to the other side is put on a queue or sent at once. A relation between states
that permits the messages of a call, and whatever the peer does in silence, contains the call.
This is proved once, for all such relations: they may ask for something of every message, of the
destinations in which the peer is not interested, of the responses it still owes, and of the
openings of the session.
-/

namespace Dlep

open Std Calls

/-- Is the event not about a message, and not about the opening of the session? -/
def Event.isSilent : Event → Bool
  | .client (.peerUp _) => false
  | .client _ => true
  | .addDestination _ => true
  | .clearDestinations => true
  | _ => false

namespace PeerData

/-- No response is owed that was not owed before. -/
def OwesNoMore (pd pd' : PeerData) : Prop :=
  ∀ mac, pd'.getNeedsResponse mac = "" ∨ pd'.getNeedsResponse mac = pd.getNeedsResponse mac

instance : Std.Refl OwesNoMore := ⟨fun _ _ => .inr rfl⟩

instance : IsTrans PeerData OwesNoMore where
  trans _ _ _ h h' mac := by
    rcases h' mac with hmac | hmac
    · exact .inl hmac
    · rw [hmac]
      exact h mac

/-- What is owed for a destination is part of its data, and nothing is owed where there are none.
-/
theorem getNeedsResponse_eq {pd : PeerData} {mac : DlepMac} :
    pd.getNeedsResponse mac =
      ((pd.destinationData[mac]?).map DestinationData.needsResponse).getD "" := by
  unfold getNeedsResponse
  cases pd.destinationData[mac]? <;> rfl

/-- A destination is written that owes what it owed. -/
theorem owesNoMore_insert {pd : PeerData} {mac : DlepMac} {dd : DestinationData}
    (hdd : dd.needsResponse = pd.getNeedsResponse mac) :
    OwesNoMore pd { pd with destinationData := pd.destinationData.insert mac dd } := by
  intro key
  simp only [getNeedsResponse_eq, ExtTreeMap.getElem?_insert, Std.compare_eq_iff_eq]
  split
  · next hmac =>
    rw [← getNeedsResponse_eq, ← hmac]
    exact .inr hdd
  · exact .inr rfl

/-- A response that was given is not owed any more. -/
theorem owesNoMore_setNeedsResponse {pd : PeerData} {mac : DlepMac} :
    OwesNoMore pd (pd.setNeedsResponse mac "") := by
  intro key
  simp only [setNeedsResponse, getNeedsResponse_eq, ExtTreeMap.getElem?_modify,
    Std.compare_eq_iff_eq]
  split
  · cases pd.destinationData[mac]? with
    | none => exact .inl rfl
    | some dd => exact .inl rfl
  · exact .inr rfl

/-- What is owed for one destination does not matter for another. -/
theorem getNeedsResponse_setNeedsResponse_of_ne {pd : PeerData} {mac other : DlepMac}
    (h : other ≠ mac) {name : String} :
    (pd.setNeedsResponse mac name).getNeedsResponse other = pd.getNeedsResponse other := by
  simp only [setNeedsResponse, getNeedsResponse_eq, ExtTreeMap.getElem?_modify,
    Std.compare_eq_iff_eq]
  rw [if_neg fun hsame => h hsame.symm]

section

variable [AddressText] {cfg : ProtocolConfig}

/-- The destination owes what it owed. -/
def SameOwed (dd dd' : DestinationData) : Prop := dd'.needsResponse = dd.needsResponse

instance : Std.Refl SameOwed := ⟨fun _ => rfl⟩

instance : IsTrans DestinationData SameOwed := ⟨fun _ _ _ h h' => Eq.trans h' h⟩

/-- An update of a destination changes nothing that is owed for it. -/
theorem sameOwed_update {items : DataItems} :
    Within SameOwed (DestinationData.update cfg items) := by
  refine within_forM fun di _ => within_bind within_lift fun _ =>
    within_ite (fun _ => ?_) fun _ => ?_
  · exact within_modify fun _ => rfl
  · refine within_bind within_lift fun _ => within_ite (fun _ => ?_) fun _ => within_pure
    refine within_bind within_get fun _ => within_bind within_lift fun _ => ?_
    exact within_modify fun _ => rfl

omit [AddressText] in
/-- A call on a destination that changes nothing that is owed keeps that nothing more is. -/
theorem owesNoMore_onDestination {mac : DlepMac} {m : EStateM Exn DestinationData Unit}
    (hm : Within SameOwed m) : Within OwesNoMore (onDestination mac m) := by
  refine within_of_wp fun pd => ?_
  simp only [onDestination, wp_bind, wp_get]
  cases hdd : pd.destinationData[mac]? with
  | none => exact fun _ => .inr rfl
  | some dd =>
    refine wp_zoom.2 (wp_after.2 (owesNoMore_insert ?_))
    rw [hm dd, getNeedsResponse_eq, hdd]
    rfl

/-- Nothing is owed for a new destination. -/
theorem owesNoMore_addDestination {mac : DlepMac} {items : DataItems} :
    Within OwesNoMore (addDestination cfg mac items) := by
  refine within_of_wp fun pd => ?_
  simp only [addDestination, wp_bind, wp_get]
  split
  · exact fun _ => .inr rfl
  · next hnew =>
    rw [wp_bind]
    refine wp_lift (fun dd hdd => ?_) fun _ _ _ => .inr rfl
    refine owesNoMore_insert ?_
    have hnone : pd.destinationData[mac]? = none := by
      rw [validDestination_eq_isSome] at hnew
      exact Option.not_isSome_iff_eq_none.1 hnew
    have hcreate : wp (DestinationData.update cfg items) (fun _ dd => dd.needsResponse = "")
        (fun _ dd => dd.needsResponse = "") { macAddress := mac } :=
      sameOwed_update.wp _
    unfold DestinationData.create at hdd
    unfold wp at hcreate
    split at hdd
    · next heq =>
      rw [heq] at hcreate
      rw [← Except.ok.inj hdd, hcreate, getNeedsResponse_eq, hnone]
      rfl
    · cases hdd

omit [AddressText] in
/-- Nothing is owed for a destination that was removed. -/
theorem owesNoMore_removeDestination {mac : DlepMac} :
    Within OwesNoMore (removeDestination mac) := by
  refine within_bind within_get fun _ => within_ite (fun _ => ?_) fun _ => within_pure
  refine within_bind (within_modify fun pd key => ?_) fun _ => within_pure
  simp only [getNeedsResponse_eq, ExtTreeMap.getElem?_erase]
  split
  · exact .inl rfl
  · exact .inr rfl

/-- An update of all destinations changes nothing that is owed. -/
theorem owesNoMore_updateDataItems {items : DataItems} :
    Within OwesNoMore (updateDataItems cfg items) := by
  have hstore : ∀ (statusId : DataItemIdType) (items : DataItems),
      Within OwesNoMore (storeDataItems cfg statusId items) := by
    intro statusId items
    induction items with
    | nil => exact within_pure
    | cons di items ih =>
      refine within_bind within_lift fun _ => within_ite (fun _ => ?_) fun _ => ?_
      · refine within_bind (within_modify fun _ _ => .inr rfl) fun _ => ?_
        exact within_bind ih fun _ => within_pure
      · refine within_bind within_lift fun _ => within_ite (fun _ => ?_) fun _ => ?_
        · refine within_bind within_get fun _ => within_bind within_lift fun _ => ?_
          exact within_bind (within_modify fun _ _ => .inr rfl) fun _ => ih
        · refine within_ite (fun _ => ?_) fun _ => ih
          exact within_bind (within_modify fun _ _ => .inr rfl) fun _ => ih
  refine within_bind within_get fun _ => within_bind within_lift fun _ => ?_
  refine within_ite (fun _ => within_pure) fun _ => ?_
  refine within_bind (within_bind within_lift fun _ => hstore _ _) fun _ => ?_
  refine within_bind within_get fun _ => within_bind (within_forM fun _ _ => ?_) fun _ =>
    within_pure
  exact owesNoMore_onDestination sameOwed_update

end

end PeerData

namespace Peer

/-- The relation permits to send the messages `S` at once, to put the messages `Q` on the queues
of their destinations, to send what is on the queues to a peer that is interested, and to do
anything in silence but to regain an interest or to owe a response. -/
class Permits (S : outParam (Bytes → Prop)) (Q : outParam (DlepMac → Bytes → Prop))
    (R : Peer → Peer → Prop) : Prop extends Std.Refl R, IsTrans Peer R where
  other : ∀ p q, q.trace = p.trace → q.notInterestedDestinations = p.notInterestedDestinations →
    q.peerPdp = p.peerPdp → q.heartbeatMsg = p.heartbeatMsg →
      q.responsesPending = p.responsesPending → R p q
  emit : ∀ (p : Peer) (e : Event), e.isSilent = true → R p { p with trace := p.trace ++ [e] }
  send : ∀ (p : Peer) (buf : Bytes), S buf → R p { p with trace := p.trace ++ [.send buf] }
  enqueue : ∀ (p : Peer) (rp : ResponsePending), Q rp.destination rp.msgBuffer → R p { p with
    responsesPending := p.responsesPending.insert rp.destination
      ((p.responsesPending[rp.destination]?).getD [] ++ [{ rp with queued := true }])
    trace := p.trace ++ [.enqueue rp] }
  transmit : ∀ (p : Peer) (now : Nat) (mac : DlepMac) (head : ResponsePending)
    (rest : List ResponsePending), p.responsesPending[mac]? = some (head :: rest) →
      p.isNotInterested mac = false → R p { p with
        responsesPending := p.responsesPending.insert mac
          ({ head with sendTime := now, sendTries := head.sendTries + 1 } :: rest)
        trace := p.trace ++ [.transmit head] }
  accept : ∀ (p : Peer) (mac : DlepMac) (rp : ResponsePending) (rest : List ResponsePending)
    (id : SignalIdType), p.responsesPending[mac]? = some (rp :: rest) → R p { p with
      responsesPending := if rest = [] then p.responsesPending.erase mac
        else p.responsesPending.insert mac rest
      trace := p.trace ++ [.accept rp id mac] }
  heartbeat : ∀ (p : Peer) (pm : ProtocolMessage), S pm.msgbuf → R p { p with heartbeatMsg := pm }
  store : ∀ (p : Peer) (pd : PeerData), p.peerPdp.OwesNoMore pd → R p { p with peerPdp := pd }
  lose : ∀ (p : Peer) (mac : DlepMac), R p
    { p with notInterestedDestinations := p.notInterestedDestinations.insert mac }

section

variable {S : Bytes → Prop} {Q : DlepMac → Bytes → Prop} {R : Peer → Peer → Prop}
  [permits : Permits S Q R]

include permits

/-- Writing other fields is permitted. -/
theorem permits_modify {f : Peer → Peer}
    (h : ∀ p, (f p).trace = p.trace ∧ (f p).notInterestedDestinations =
      p.notInterestedDestinations ∧
      (f p).peerPdp = p.peerPdp ∧ (f p).heartbeatMsg = p.heartbeatMsg ∧
      (f p).responsesPending = p.responsesPending) : Within R (modify f : PeerM Unit) :=
  within_modify fun p =>
    Permits.other p (f p) (h p).1 (h p).2.1 (h p).2.2.1 (h p).2.2.2.1 (h p).2.2.2.2

/-- A silent event is permitted. -/
theorem permits_emit {e : Event} (he : e.isSilent = true) : Within R (emit e) :=
  within_modify fun p => Permits.emit p e he

/-- A message in `S` may be sent at once. -/
theorem permits_sendSessionMessage {buf : Bytes} (hbuf : S buf) :
    Within R (sendSessionMessage buf) :=
  within_modify fun p => Permits.send p buf hbuf

/-- Changing the data is permitted, if nothing more is owed. -/
theorem permits_onPdp {α : Type} {m : EStateM Exn PeerData α} (hm : Within PeerData.OwesNoMore m) :
    Within R (onPdp m) :=
  within_zoom fun p => Permits.store p _ (hm p.peerPdp)

/-- A refusal may be recorded. -/
theorem permits_notInterested {mac : DlepMac} : Within R (notInterested mac) :=
  within_modify fun p => Permits.lose p mac

/-! ## Messages that expect a response -/

/-- What is on a queue may be sent to a peer that is interested. -/
theorem permits_sendIfHead {now : Nat} {rp : ResponsePending} {p : Peer}
    (hp : p.isNotInterested rp.destination = false) : R p (after (sendIfHead now rp) p) := by
  refine wp_after.1 ?_
  simp only [sendIfHead, wp_bind, wp_get]
  split
  · next head rest hhead =>
    split
    · exact Permits.transmit p now rp.destination head rest hhead hp
    · exact Std.Refl.refl p
  · exact Std.Refl.refl p

/-- A message is put on its queue, unless it is there, and sent if it is the head. -/
theorem permits_sendMessageExpectingResponse {now : Nat} {rp : ResponsePending}
    (hrp : rp.queued = false → Q rp.destination rp.msgBuffer) :
    Within R (sendMessageExpectingResponse now rp) := by
  refine within_of_wp fun p => ?_
  simp only [sendMessageExpectingResponse, wp_bind, wp_get]
  split
  · exact Std.Refl.refl p
  · next hinterest =>
    have hinterest : p.isNotInterested rp.destination = false := by simpa using hinterest
    unfold enqueue
    split
    · rw [wp_bind, wp_pure]
      exact wp_after.2 (permits_sendIfHead hinterest)
    · next hfresh =>
      rw [wp_bind, wp_modify]
      have hqueued : R p _ := Permits.enqueue p rp (hrp (by simpa using hfresh))
      refine (wp_after.2 (permits_sendIfHead ?_)).mono (fun _ _ h => IsTrans.trans _ _ _ hqueued h)
        fun _ _ h => IsTrans.trans _ _ _ hqueued h
      exact hinterest

/-- The head of a queue is sent again. -/
theorem permits_resend {now : Nat} {rp : ResponsePending} (hrp : rp.queued = true) :
    Within R (sendMessageExpectingResponse now rp) :=
  permits_sendMessageExpectingResponse fun h => absurd (hrp.symm.trans h) (by decide)

/-- A message in `Q` may be put on its queue and, as its head, be sent. -/
theorem permits_sendNew {now : Nat} {rp : ResponsePending} (hrp : Q rp.destination rp.msgBuffer) :
    Within R (sendNew now rp) := by
  refine within_bind within_get fun _ => ?_
  refine within_bind (permits_modify fun _ => ⟨rfl, rfl, rfl, rfl, rfl⟩) fun _ => ?_
  exact permits_sendMessageExpectingResponse fun _ => hrp

/-- A request whose message is in `Q` is permitted. -/
theorem permits_sendRequest {cfg : ProtocolConfig} {now : Nat} {pm : ProtocolMessage}
    (hpm : ∀ rp, ResponsePending.make cfg pm = .ok rp → Q rp.destination rp.msgBuffer) :
    Within R (sendRequest cfg now pm) := by
  refine within_of_wp fun p => ?_
  rw [sendRequest, wp_bind]
  exact wp_lift (fun rp hrp => (permits_sendNew (hpm rp hrp)).wp p) fun _ _ => Std.Refl.refl p

/-- A response takes the head off its queue, and the next message is sent. -/
theorem permits_acceptResponse {s : Surroundings} {pm : ProtocolMessage} {mac : DlepMac} {p : Peer}
    (hp : p.QueueOk) : R p (after (acceptResponse s pm mac) p) := by
  refine wp_after.1 ?_
  simp only [acceptResponse, wp_bind, wp_get]
  split
  · exact Std.Refl.refl p
  · exact Std.Refl.refl p
  · next rp rest hqueue =>
    split
    · exact Std.Refl.refl p
    · next id _ =>
      split
      · have htaken : R p _ := Permits.accept p mac rp rest id hqueue
        rw [wp_bind]
        cases rest with
        | nil => exact htaken
        | cons next rest =>
          have hnext := ((hp _ _ hqueue).2 next (by simp)).1
          simp only [popResponse, wp_bind, wp_modify, wp_pure]
          exact (permits_resend hnext).wp_trans htaken
      · exact Std.Refl.refl p

/-- Stopping a peer is permitted. -/
theorem permits_stopPeer {d : DlepView} : Within R (stopPeer d) := by
  refine within_bind within_get fun _ => within_ite (fun _ => within_pure) fun _ => ?_
  refine within_bind (permits_modify fun _ => ⟨rfl, rfl, rfl, rfl, rfl⟩) fun _ => ?_
  refine within_bind (permits_emit rfl) fun _ => ?_
  exact within_ite (fun _ => permits_emit rfl) fun _ => within_pure

omit permits in
/-- The simple responses: three that are named by their handlers, and those that the configuration
names. -/
def Responds (cfg : ProtocolConfig) (name : String) : Prop :=
  name = "Session_Update_Response" ∨ name = "Session_Termination_Response" ∨
    name = "Destination_Down_Response" ∨
    name ≠ "" ∧ ∃ request, cfg.getMessageResponseName request = .ok name

omit permits in
/-- The messages that a peer composes in answer to others: they are permitted. -/
structure Utters [AddressText] (S : Bytes → Prop) (Q : DlepMac → Bytes → Prop) (d : DlepView)
    (s : Surroundings) : Prop where
  response : ∀ name status message mac pm, Responds d.cfg name →
    composeChecked d name (addStatusAndMac d.cfg status message mac)
      "send_simple_response" = .ok pm →
      S pm.msgbuf
  termination : ∀ status reason pm rp, composeChecked d "Session_Termination"
      (fun pm => ProtocolMessage.addStatus d.cfg status reason pm) "terminate" = .ok pm →
    ResponsePending.make d.cfg pm = .ok rp → Q rp.destination rp.msgBuffer

section

variable [AddressText] {d : DlepView} {s : Surroundings}

/-- A simple response is permitted. -/
theorem permits_sendSimpleResponse {name status : String} {message : Bytes} {mac : Option DlepMac}
    (hutters : Utters S Q d s) (hname : Responds d.cfg name) :
    Within R (sendSimpleResponse d s name status message mac) := by
  refine within_ite (fun _ => within_of_wp fun p => ?_) fun _ => within_pure
  rw [wp_bind]
  refine wp_lift (fun pm hpm => ?_) fun _ _ => Std.Refl.refl p
  exact (permits_sendSessionMessage (hutters.response _ _ _ _ _ hname hpm)).wp p

/-- Ending a session is permitted. -/
theorem permits_terminate {status : String} {reason : Bytes} (hutters : Utters S Q d s) :
    Within R (terminate d s status reason) := by
  refine within_bind within_get fun _ => within_ite (fun _ => within_pure) fun _ => ?_
  refine within_bind permits_stopPeer fun _ => within_of_wp fun p => ?_
  rw [wp_bind]
  refine wp_lift (fun pm hpm => ?_) fun _ _ => Std.Refl.refl p
  have hrest : Within R (do
      sendRequest d.cfg s.now pm
      modify fun p => { p with registered := false } : PeerM Unit) := by
    refine within_bind (permits_sendRequest fun rp hrp => ?_) fun _ =>
      permits_modify fun _ => ⟨rfl, rfl, rfl, rfl, rfl⟩
    exact hutters.termination _ _ _ _ hpm hrp
  exact hrest.wp p

/-! ## Timers and calls of the local node -/

/-- By induction over the queues: sending late heads again is permitted. -/
theorem permits_retransmit (hutters : Utters S Q d s) {macs : List DlepMac} {p : Peer}
    (hp : p.QueueOk) : R p (after (retransmit d s macs) p) := by
  induction macs generalizing p with
  | nil => exact Std.Refl.refl p
  | cons mac macs ih =>
    refine wp_after.1 ?_
    simp only [retransmit, wp_bind, wp_get]
    split
    · next head rest hhead =>
      have hqueued := ((hp _ _ hhead).2 head (by simp)).1
      split
      · split
        · rw [wp_bind]
          have hsend : Within R (sendMessageExpectingResponse s.now head) := permits_resend hqueued
          refine ((hsend.wp p).and ((within_sendMessageExpectingResponse hqueued).wp p)).mono
            (fun _ q hq => ?_) fun _ _ hq => hq.1
          have hrest := wp_after.2 (ih ((hq.2 hp).queueOk hp))
          exact hrest.mono (fun _ _ h => IsTrans.trans _ _ _ hq.1 h) fun _ _ h =>
            IsTrans.trans _ _ _ hq.1 h
        · exact (permits_terminate hutters).wp p
      · exact wp_after.2 (ih hp)
    · exact wp_after.2 (ih hp)

/-- What the timer does is permitted. -/
theorem permits_handleAcktivityTimeout (hutters : Utters S Q d s) {p : Peer} (hp : p.QueueOk) :
    R p (after (handleAcktivityTimeout d s) p) := by
  have hactivity : Within R (checkForActivity d s) := by
    refine within_bind within_get fun _ => within_ite (fun _ => within_pure) fun _ => ?_
    refine within_ite (fun _ => ?_) fun _ => within_pure
    exact within_bind (permits_terminate hutters) fun _ => within_pure
  have hmoves := (within_checkForActivity (d := d) (s := s)).wp p
  refine wp_after.1 (wp_bind.2 (((hactivity.wp p).and hmoves).mono (fun active q hq => ?_)
    fun _ _ hq => hq.1))
  cases active with
  | true =>
    simp only [if_true, checkForRetransmits, wp_bind, wp_get]
    have hrest := wp_after.2 (@permits_retransmit S Q R _ _ d s hutters q.responsesPending.keys q
      ((hq.2 hp).queueOk hp))
    exact hrest.mono (fun _ _ h => IsTrans.trans _ _ _ hq.1 h) fun _ _ h =>
      IsTrans.trans _ _ _ hq.1 h
  | false => exact hq.1

omit [AddressText] in
/-- A heartbeat is permitted, if its message is. -/
theorem permits_handleHeartbeatTimeout {p : Peer} (hp : S p.heartbeatMsg.msgbuf) :
    R p (after handleHeartbeatTimeout p) := by
  refine wp_after.1 ?_
  simp only [handleHeartbeatTimeout, wp_bind, wp_get]
  split
  · exact Permits.send p _ hp
  · exact Std.Refl.refl p

/-- Taking a destination down is permitted, if its message is. -/
theorem permits_destinationDown {mac : DlepMac} {items : DataItems}
    (h : ∀ pm rp, destinationMessage d "Destination_Down" mac items "destination_down" = .ok pm →
      ResponsePending.make d.cfg pm = .ok rp → Q rp.destination rp.msgBuffer) :
    Within R (destinationDown d s mac items) := by
  refine within_of_wp fun p => ?_
  rw [destinationDown, wp_bind]
  exact wp_lift (fun pm hpm => (permits_sendRequest fun rp => h pm rp hpm).wp p)
    fun _ _ => Std.Refl.refl p

/-- A session update is permitted, if its message is. -/
theorem permits_peerUpdate {items : DataItems}
    (h : ∀ r rp, compose d "Session_Update" (fun pm => ProtocolMessage.addDataItems d.cfg items pm)
        "peer_update" = .ok r → ResponsePending.make d.cfg r.2 = .ok rp →
      Q rp.destination rp.msgBuffer) : Within R (peerUpdate d s items) := by
  refine within_bind within_get fun _ => within_ite (fun _ => ?_) fun _ => within_pure
  refine within_of_wp fun p => ?_
  rw [wp_bind]
  refine wp_lift (fun r hr => ?_) fun _ _ => Std.Refl.refl p
  exact (within_bind (permits_sendRequest fun rp => h r rp hr) fun _ => within_pure).wp p

/-- A request about a link is permitted, if its message is. -/
theorem permits_linkCharacteristicsRequest {mac : DlepMac} {items : DataItems}
    (h : ∀ pm rp, destinationMessage d "Link_Characteristics_Request" mac items
        "link_characteristics_request" = .ok pm → ResponsePending.make d.cfg pm = .ok rp →
      Q rp.destination rp.msgBuffer) : Within R (linkCharacteristicsRequest d s mac items) := by
  refine within_of_wp fun p => ?_
  rw [linkCharacteristicsRequest, wp_bind]
  exact wp_lift (fun pm hpm => (permits_sendRequest fun rp => h pm rp hpm).wp p)
    fun _ _ => Std.Refl.refl p

/-- A response about a link is permitted, if its message is. -/
theorem permits_linkCharacteristicsResponse {mac : DlepMac} {items : DataItems}
    (h : shouldSendResponse s = true →
      ∀ pm, destinationMessage d "Link_Characteristics_Response" mac
      items "link_characteristics_response" = .ok pm → S pm.msgbuf) :
    Within R (linkCharacteristicsResponse d s mac items) := by
  refine within_ite (fun hsend => within_of_wp fun p => ?_) fun _ => within_pure
  rw [wp_bind]
  exact wp_lift (fun pm hpm => (permits_sendSessionMessage (h hsend pm hpm)).wp p)
    fun _ _ => Std.Refl.refl p

/-! ## The handshake -/

omit permits in
/-- The message that opens a session, as the client leaves it. -/
def modified (d : DlepView) (s : Surroundings) (peerId : PeerId) (pm : ProtocolMessage) :
    Except Exn ProtocolMessage :=
  match s.peerInit peerId pm.dataItems with
  | none => .ok pm
  | some items => do
    let (_, pm) ← ProtocolMessage.rebuildFromDataItems d.cfg d.modem items pm
    return pm

/-- What follows the client's changes gets the message as the client left it. -/
theorem permits_letClientModify {pm : ProtocolMessage} {rest : ProtocolMessage → PeerM Unit}
    {p : Peer} (hrest : ∀ pm', modified d s p.peerId pm = .ok pm' → Within R (rest pm')) :
    R p (after (letClientModify d s pm >>= rest) p) := by
  refine wp_after.1 ?_
  have hcalled : R p { p with trace := p.trace ++ [.client (.peerInit p.peerId pm.dataItems)] } :=
    Permits.emit p _ rfl
  simp only [letClientModify, callClient, emit, wp_bind, wp_get, wp_modify]
  unfold modified at hrest
  cases hinit : s.peerInit p.peerId pm.dataItems with
  | none =>
    simp only [hinit] at hrest
    exact (hrest pm rfl).wp_trans hcalled
  | some items =>
    simp only [hinit] at hrest
    dsimp only
    rw [wp_bind]
    refine wp_lift (fun r hr => ?_) fun _ _ => hcalled
    obtain ⟨err, pm'⟩ := r
    exact (hrest pm' (by rw [hr]; rfl)).wp_trans hcalled

/-- Starting a peer is permitted, if its heartbeat and its opening are. -/
theorem permits_startPeer {p : Peer}
    (hheartbeat : ∀ pm, composeChecked d "Heartbeat"
      (fun pm => ProtocolMessage.addCommonDataItems d.cfg s.params pm) "start_peer" = .ok pm →
        S pm.msgbuf)
    (hinit : d.modem = false → ∀ pm pm' rp, initializationMessage d s = .ok pm →
      modified d s p.peerId pm = .ok pm' → ResponsePending.make d.cfg pm' = .ok rp →
        Q rp.destination rp.msgBuffer) : R p (after (startPeer d s) p) := by
  refine wp_after.1 ?_
  rw [startPeer, wp_bind]
  refine wp_lift (fun heartbeatMsg hmsg => ?_) fun _ _ => Std.Refl.refl p
  simp only [wp_bind, wp_modify]
  have hstored : R p { p with heartbeatMsg } := Permits.heartbeat p _ (hheartbeat _ hmsg)
  split
  · exact hstored
  · next hmodem =>
    rw [wp_bind]
    refine wp_lift (fun pm hpm => ?_) fun _ _ => hstored
    have hsend : R { p with heartbeatMsg } (after (letClientModify d s pm >>= fun pm' =>
        sendRequest d.cfg s.now pm') { p with heartbeatMsg }) :=
      permits_letClientModify fun pm' hpm' => permits_sendRequest fun rp hrp =>
        hinit (by simpa using hmodem) pm pm' rp hpm hpm' hrp
    exact (wp_after.2 hsend).mono (fun _ _ h => IsTrans.trans _ _ _ hstored h) fun _ _ h =>
      IsTrans.trans _ _ _ hstored h

omit [AddressText] in
/-- What is remembered of the peer is no message. -/
theorem permits_storePeerProperties {pm : ProtocolMessage} :
    Within R (storePeerProperties d pm) := by
  refine within_bind ?_ fun _ => within_bind ?_ fun _ => ?_
  · refine within_bind within_lift fun peerType => ?_
    cases peerType with
    | some _ => exact permits_modify fun _ => ⟨rfl, rfl, rfl, rfl, rfl⟩
    | none => exact within_pure
  · unfold storeExperimentNames
    split
    · exact permits_modify fun _ => ⟨rfl, rfl, rfl, rfl, rfl⟩
    · exact within_pure
    · exact within_pure
    · exact within_throw
  · refine within_bind within_lift fun _ => ?_
    refine within_bind (permits_modify fun _ => ⟨rfl, rfl, rfl, rfl, rfl⟩) fun _ => ?_
    exact within_bind within_lift fun _ => permits_modify fun _ => ⟨rfl, rfl, rfl, rfl, rfl⟩

omit [AddressText] in
/-- The extensions are no message. -/
theorem permits_addMutualExtensions {pm : ProtocolMessage} :
    Within R (addMutualExtensions d pm) := by
  refine within_bind within_lift fun extensions => ?_
  cases extensions with
  | some _ => exact permits_modify fun _ => ⟨rfl, rfl, rfl, rfl, rfl⟩
  | none => exact within_pure

omit [AddressText] in
/-- The extensions are no message. -/
theorem permits_setMutualExtensions {pm : ProtocolMessage} :
    Within R (setMutualExtensions d pm) := by
  refine within_bind within_lift fun extensions => ?_
  cases extensions with
  | some _ => exact permits_modify fun _ => ⟨rfl, rfl, rfl, rfl, rfl⟩
  | none => exact within_pure

/-- The answer to an opening is permitted, if it is after the client's changes. -/
theorem permits_sendPeerInitializationResponse
    (h : shouldSendResponse s = true → ∀ (p : Peer) pm pm', initializationResponse d s p = .ok pm →
      modified d s p.peerId pm = .ok pm' → S pm'.msgbuf) :
    Within R (sendPeerInitializationResponse d s) := by
  refine within_of_wp fun p => ?_
  simp only [sendPeerInitializationResponse, wp_bind, wp_get]
  refine wp_lift (fun pm hpm => ?_) fun _ _ => Std.Refl.refl p
  have hrest : R p (after (letClientModify d s pm >>= fun pm' =>
      if shouldSendResponse s then sendSessionMessage pm'.msgbuf else pure ()) p) := by
    refine permits_letClientModify fun pm' hpm' => within_ite (fun hsend => ?_) fun _ => within_pure
    exact permits_sendSessionMessage (h hsend p pm pm' hpm hpm')
  exact wp_bind.1 (wp_after.2 hrest)

omit [AddressText] in
/-- Advertising a peer is no message. -/
theorem permits_advertisePeer : Within R (advertisePeer d s) := by
  refine within_ite (fun _ => ?_) fun _ => within_pure
  split
  · exact permits_emit rfl
  · exact within_pure

/-! ## The session -/

/-- The handler of Session Update sends a simple response, or ends the session. -/
theorem permits_handlePeerUpdate (hutters : Utters S Q d s) {pm : ProtocolMessage} :
    Within R (handlePeerUpdate d s pm) := by
  refine within_bind within_get fun _ => within_bind within_lift fun _ => ?_
  refine within_ite (fun _ => permits_terminate hutters) fun _ => ?_
  refine within_bind (permits_onPdp PeerData.owesNoMore_updateDataItems) fun _ => ?_
  exact within_bind (permits_emit rfl) fun _ => permits_sendSimpleResponse hutters (.inl rfl)

/-- The handler of Session Termination sends a simple response at most. -/
theorem permits_handlePeerTermination (hutters : Utters S Q d s) :
    Within R (handlePeerTermination d s) :=
  within_bind (permits_sendSimpleResponse hutters (.inr (.inl rfl))) fun _ => permits_stopPeer

omit [AddressText] in
/-- Asking the client about a destination is no message. -/
theorem permits_askClient {mac : DlepMac} {items : DataItems} :
    Within R (askClient s mac items) := by
  refine within_bind within_get fun _ => within_bind (permits_emit rfl) fun _ => ?_
  exact within_pure

/-- Nothing is owed for a destination that was stored. -/
theorem permits_addDestinationChecked {mac : DlepMac} {items : DataItems} :
    Within R (addDestinationChecked d mac items) :=
  within_bind (permits_onPdp PeerData.owesNoMore_addDestination) fun _ => within_lift

/-- A destination that is up, if the peer's interest in it may be regained. -/
theorem permits_handleDestinationUp (hutters : Utters S Q d s) {pm : ProtocolMessage} {p : Peer}
    (hregain : ∀ mac, pm.getMac d.cfg = .ok mac → p.peerPdp.validDestination mac = false →
      addressesOk d p [] pm.dataItems = true → R p { p with
        notInterestedDestinations := p.notInterestedDestinations.erase mac }) :
    R p (after (handleDestinationUp d s pm) p) := by
  have hanswer : ∀ name status mac, Within R (answerUp d s name status mac) := by
    intro name status mac
    refine within_of_wp fun p => ?_
    rw [answerUp, wp_bind]
    refine wp_lift (fun responseName hresponse => ?_) fun _ _ => Std.Refl.refl p
    refine (within_ite (fun hne => ?_) fun _ => within_pure).wp p
    exact permits_sendSimpleResponse hutters (.inr (.inr (.inr ⟨hne, name, hresponse⟩)))
  refine wp_after.1 ?_
  rw [handleDestinationUp, wp_bind]
  refine wp_lift (fun mac hmac => ?_) fun _ _ => Std.Refl.refl p
  rw [wp_bind]
  refine wp_lift (fun name _ => ?_) fun _ _ => Std.Refl.refl p
  have hstatus : R p (after (upStatus d s mac pm.dataItems) p) := by
    refine wp_after.1 ?_
    simp only [upStatus, wp_bind, wp_get]
    split
    · exact Std.Refl.refl p
    · next hnew =>
      simp only [takeDestination, wp_bind, wp_get]
      refine wp_lift (fun err herr => ?_) fun _ _ => Std.Refl.refl p
      split
      · exact (within_bind (permits_terminate hutters) fun _ => within_pure).wp p
      · next hempty =>
        obtain rfl := not_not.1 hempty
        have hrest : Within R (do
            let status ← askClient s mac pm.dataItems
            if status = "Success" then
              addDestinationChecked d mac pm.dataItems
              return status
            else return status : PeerM String) := by
          refine within_bind permits_askClient fun _ => within_ite (fun _ => ?_) fun _ =>
            within_pure
          exact within_bind permits_addDestinationChecked fun _ => within_pure
        rw [wp_bind, admitDestination, wp_bind]
        exact hrest.wp_trans (hregain mac hmac (Bool.not_eq_true _ ▸ hnew) (decide_eq_true herr))
  refine wp_bind.2 ((wp_after.2 hstatus).mono (fun status q hq => ?_) fun _ _ hq => hq)
  cases status with
  | none => exact hq
  | some status => exact (hanswer _ _ _).wp_trans hq

/-- The handler of Destination Update sends nothing, unless it ends the session. -/
theorem permits_handleDestinationUpdate (hutters : Utters S Q d s) {pm : ProtocolMessage} :
    Within R (handleDestinationUpdate d s pm) := by
  refine within_bind within_lift fun _ => within_bind within_get fun _ => ?_
  split
  · exact permits_terminate hutters
  · refine within_bind within_lift fun _ => within_bind within_lift fun _ => ?_
    refine within_ite (fun _ => permits_terminate hutters) fun _ => ?_
    refine within_bind (permits_onPdp ?_) fun _ => permits_emit rfl
    exact PeerData.owesNoMore_onDestination PeerData.sameOwed_update

omit [AddressText] in
/-- Dropping a destination is no message. -/
theorem permits_dropDestination {mac : DlepMac} : Within R (dropDestination d mac) := by
  refine within_bind (permits_onPdp PeerData.owesNoMore_removeDestination) fun _ => ?_
  refine within_ite (fun _ => within_pure) fun _ => within_ite (fun _ => ?_) fun _ => within_pure
  exact within_bind permits_notInterested fun _ => within_pure

/-- The handler of Destination Down sends a simple response, or ends the session. -/
theorem permits_handleDestinationDown (hutters : Utters S Q d s) {pm : ProtocolMessage} :
    Within R (handleDestinationDown d s pm) := by
  refine within_bind within_lift fun _ => within_bind permits_dropDestination fun _ => ?_
  refine within_ite (fun _ => ?_) fun _ => permits_terminate hutters
  refine within_bind within_lift fun _ => within_bind within_get fun _ => ?_
  refine within_bind (permits_emit rfl) fun _ => ?_
  exact permits_sendSimpleResponse hutters (.inr (.inr (.inl rfl)))

/-- The handler of Link Characteristics Request is permitted, if its answer is. -/
theorem permits_handleLinkCharacteristicsRequest (hutters : Utters S Q d s) {pm : ProtocolMessage}
    (hanswer : ∀ mac dd metrics answer, pm.getMac d.cfg = .ok mac →
      pm.getDataItemsNoMac d.cfg = .ok [] → d.localPdp.getDestinationData mac = some dd →
      metricsOf d.cfg dd.getAllDataItems = .ok metrics → shouldSendResponse s = true →
      destinationMessage d "Link_Characteristics_Response" mac metrics
        "link_characteristics_response" = .ok answer → S answer.msgbuf) :
    Within R (handleLinkCharacteristicsRequest d s pm) := by
  refine within_of_wp fun p => ?_
  rw [handleLinkCharacteristicsRequest, wp_bind]
  refine wp_lift (fun mac hmac => ?_) fun _ _ => Std.Refl.refl p
  rw [wp_bind]
  refine wp_lift (fun items hitems => ?_) fun _ _ => Std.Refl.refl p
  cases hdd : d.localPdp.getDestinationData mac with
  | none => exact (permits_terminate hutters).wp p
  | some dd =>
    dsimp only
    split
    · next hnil =>
      rw [wp_bind]
      refine wp_lift (fun metrics hmetrics => ?_) fun _ _ => Std.Refl.refl p
      refine (permits_linkCharacteristicsResponse fun hsend answer hcompose => ?_).wp p
      exact hanswer mac dd metrics answer hmac (hnil ▸ hitems) hdd hmetrics hsend hcompose
    · exact (within_bind within_get fun _ => permits_emit rfl).wp p

/-! ## Responses -/

section

variable {pm : ProtocolMessage} {p : Peer}

/-- A response leaves the interests of the peer as they are, whether it was expected or not. -/
theorem permits_handleResponse (hutters : Utters S Q d s) (hp : p.QueueOk) :
    wp (handleResponse d s pm)
      (fun ok q => R p q ∧ q.notInterestedDestinations = p.notInterestedDestinations ∧
        q.peerPdp = p.peerPdp ∧ ∀ mac, pm.getMac d.cfg = .ok mac → ok = p.expects pm mac)
      (fun _ q => R p q) p := by
  simp only [handleResponse, wp_bind]
  refine wp_lift (fun name _ => wp_lift (fun dest hdest => ?_) fun _ _ => Std.Refl.refl p)
    fun _ _ => Std.Refl.refl p
  have haccept : R p (after (acceptResponse s pm (dest.getD [])) p) := permits_acceptResponse hp
  refine ((wp_acceptResponse hp).and (wp_after.2 haccept)).mono (fun ok q hq => ?_)
    fun _ q hq => hq.2
  obtain ⟨⟨hok, hmoves⟩, hq⟩ := hq
  have hexpects : ∀ mac, pm.getMac d.cfg = .ok mac → ok = p.expects pm mac := by
    intro mac hmac
    rw [hmac] at hdest
    obtain rfl := Except.ok.inj hdest
    exact hok
  cases ok with
  | true =>
    exact ⟨hq, Moves.notInterested hmoves (by decide), Moves.peerPdp hmoves (by decide), hexpects⟩
  | false =>
    obtain rfl : q = p := hmoves
    have hend : Within R (terminate d s "Unexpected_Message" (str name)) :=
      permits_terminate hutters
    simp only [Bool.false_eq_true, if_false, wp_bind, wp_pure]
    refine ((hend.wp q).and (within_terminate.wp q)).mono (fun _ _ h => ?_) fun _ _ h => h.1
    exact ⟨h.1, (h.2 hp).notInterested (by decide), (h.2 hp).peerPdp (by decide), hexpects⟩

/-- What is done when the response was accepted, or was not. -/
theorem permits_ifResponse (hutters : Utters S Q d s) (hp : p.QueueOk) {yes no : PeerM Unit}
    (hyes : Within R yes) (hno : Within R no) :
    wp (do if ← handleResponse d s pm then yes else no) (fun _ q => R p q)
      (fun _ q => R p q) p := by
  refine wp_bind.2 ((permits_handleResponse hutters hp).mono (fun ok q hq => ?_) fun _ _ hq => hq)
  cases ok with
  | true => exact hyes.wp_trans hq.1
  | false => exact hno.wp_trans hq.1

/-- The handler of Session Update Response is permitted. -/
theorem permits_handlePeerUpdateResponse (hutters : Utters S Q d s) (hp : p.QueueOk) :
    wp (handlePeerUpdateResponse d s pm) (fun _ q => R p q) (fun _ q => R p q) p :=
  wp_bind.2 ((permits_handleResponse hutters hp).mono (fun _ _ hq => hq.1) fun _ _ hq => hq)

/-- The handler of Session Termination Response is permitted. -/
theorem permits_handlePeerTerminationResponse (hutters : Utters S Q d s) (hp : p.QueueOk) :
    wp (handlePeerTerminationResponse d s pm) (fun _ q => R p q) (fun _ q => R p q) p := by
  simp only [handlePeerTerminationResponse, wp_bind, wp_get]
  split
  · rw [wp_bind]
    exact (permits_handleResponse hutters hp).mono (fun _ _ hq => permits_stopPeer.wp_trans hq.1)
      fun _ _ hq => hq
  · exact Std.Refl.refl p

omit permits in
/-- Does the message tell of success, or have no status? -/
def succeeds (cfg : ProtocolConfig) (pm : ProtocolMessage) : Bool :=
  match ifPresent (pm.getStatus cfg) with
  | .ok none => true
  | .ok (some status) => status = "Success"
  | .error _ => false

omit permits in
/-- Does a router, by this response, regain the interest of the peer? -/
def regains (d : DlepView) (pm : ProtocolMessage) (mac : DlepMac) (p : Peer) : Bool :=
  !d.modem && p.expects pm mac && succeeds d.cfg pm && !p.peerPdp.validDestination mac &&
    addressesOk d p [] pm.dataItems

/-- The handler of Destination Up Response is permitted, if regaining the interest is. -/
theorem permits_handleDestinationUpResponse (hutters : Utters S Q d s) (hp : p.QueueOk)
    (hregain : ∀ mac, pm.getMac d.cfg = .ok mac → regains d pm mac p = true → ∀ q,
      q.notInterestedDestinations = p.notInterestedDestinations → R q { q with
        notInterestedDestinations := q.notInterestedDestinations.erase mac }) :
    wp (handleDestinationUpResponse d s pm) (fun _ q => R p q) (fun _ q => R p q) p := by
  rw [handleDestinationUpResponse, wp_bind]
  refine wp_lift (fun mac hmac => ?_) fun _ _ => Std.Refl.refl p
  rw [wp_bind]
  refine wp_lift (fun _ _ => ?_) fun _ _ => Std.Refl.refl p
  refine wp_bind.2 ((permits_handleResponse hutters hp).mono (fun ok q hq => ?_) fun _ _ hq => hq)
  obtain ⟨hpq, hsame, hdata, hok⟩ := hq
  cases ok with
  | false => exact hpq
  | true =>
    have hcheck : wp (checkUpStatus d pm mac)
        (fun good r => R p r ∧ (good = true → r = q ∧ succeeds d.cfg pm = true))
        (fun _ r => R p r) q := by
      rw [checkUpStatus, wp_bind]
      refine wp_lift (fun status hstatus => ?_) fun _ _ => hpq
      cases status with
      | none => exact ⟨hpq, fun _ => ⟨rfl, by rw [succeeds, hstatus]⟩⟩
      | some status =>
        dsimp only
        split
        · rw [wp_bind]
          exact (permits_notInterested.wp_trans hpq).mono (fun _ _ hr => ⟨hr, fun h => by cases h⟩)
            fun _ _ hr => hr
        · refine ⟨hpq, fun hgood => ⟨rfl, ?_⟩⟩
          rw [succeeds, hstatus]
          exact hgood
    refine wp_bind.2 (hcheck.mono (fun good r hr => ?_) fun _ _ hr => hr)
    cases good with
    | false => exact hr.1
    | true =>
      obtain ⟨rfl, hstatus⟩ := hr.2 rfl
      cases hmodem : d.modem with
      | true => exact hpq
      | false =>
        have hup : R r (after (handleDestinationUp d s pm) r) := by
          refine permits_handleDestinationUp hutters fun mac' hmac' hnew haddresses => ?_
          obtain rfl : mac = mac' := Except.ok.inj (hmac.symm.trans hmac')
          refine hregain mac hmac ?_ r hsame
          have hvalidate := of_decide_eq_true haddresses
          rw [validateIpDataItems_congr hdata] at hvalidate
          rw [hdata] at hnew
          simp [regains, addressesOk, hmodem, ← hok mac hmac, hstatus, hnew, hvalidate]
        exact (wp_after.2 hup).mono (fun _ _ h => IsTrans.trans _ _ _ hpq h) fun _ _ h =>
          IsTrans.trans _ _ _ hpq h

/-- The handler of Destination Down Response is permitted. -/
theorem permits_handleDestinationDownResponse (hutters : Utters S Q d s) (hp : p.QueueOk) :
    wp (handleDestinationDownResponse d s pm) (fun _ q => R p q) (fun _ q => R p q) p := by
  rw [handleDestinationDownResponse, wp_bind]
  refine wp_lift (fun _ _ => ?_) fun _ _ => Std.Refl.refl p
  exact wp_bind.2 ((permits_handleResponse hutters hp).mono (fun _ _ hq => hq.1) fun _ _ hq => hq)

/-- The handler of Link Characteristics Response is permitted. -/
theorem permits_handleLinkCharacteristicsResponse (hutters : Utters S Q d s) (hp : p.QueueOk) :
    wp (handleLinkCharacteristicsResponse d s pm) (fun _ q => R p q) (fun _ q => R p q) p := by
  rw [handleLinkCharacteristicsResponse, wp_bind]
  refine wp_lift (fun _ _ => ?_) fun _ _ => Std.Refl.refl p
  refine permits_ifResponse hutters hp ?_ within_pure
  refine within_bind within_get fun _ => ?_
  split
  · exact permits_terminate hutters
  · refine within_bind within_lift fun _ => within_bind (permits_onPdp ?_) fun _ => ?_
    · refine PeerData.owesNoMore_onDestination ?_
      exact within_bind PeerData.sameOwed_update fun _ => within_bind within_get fun _ =>
        within_lift
    · exact within_bind within_get fun _ => permits_emit rfl

end

/-! ## Destinations that are up -/

/-- A destination that is up: the response that is owed is sent, or else a request. -/
theorem permits_destinationUp {mac : DlepMac} {items : DataItems} {p : Peer}
    (howed : p.peerPdp.getNeedsResponse mac ≠ "" → ∀ pm,
      upMessage d s (p.peerPdp.getNeedsResponse mac) mac items = .ok pm → S pm.msgbuf)
    (hrequest : p.peerPdp.getNeedsResponse mac = "" → ∀ pm rp,
      upMessage d s (upMessageName d) mac items = .ok pm → ResponsePending.make d.cfg pm = .ok rp →
        Q rp.destination rp.msgBuffer) :
    R p (after (destinationUp d s mac items) p) := by
  refine wp_after.1 ?_
  simp only [destinationUp, wp_bind, wp_get]
  split
  · next howes =>
    have hpaid : R p { p with peerPdp := p.peerPdp.setNeedsResponse mac "" } :=
      Permits.store p _ PeerData.owesNoMore_setNeedsResponse
    rw [wp_bind, wp_modify, wp_bind]
    refine wp_lift (fun pm hpm => ?_) fun _ _ => hpaid
    exact (permits_sendSessionMessage (howed howes pm hpm)).wp_trans hpaid
  · next hnone =>
    rw [wp_bind]
    refine wp_lift (fun pm hpm => ?_) fun _ _ => Std.Refl.refl p
    exact (permits_sendRequest fun rp => hrequest (not_not.1 hnone) pm rp hpm).wp p

/-- The handshake is permitted up to the moment in which the session is entered. -/
theorem wp_handlePeerInitialization (hutters : Utters S Q d s) {pm : ProtocolMessage} {p : Peer}
    {P : Peer → Prop}
    (hanswer : shouldSendResponse s = true → ∀ (p : Peer) pm pm',
      initializationResponse d s p = .ok pm →
      modified d s p.peerId pm = .ok pm' → S pm'.msgbuf)
    (hquiet : ∀ q, R p q → P q)
    (henter : ∀ q, R p q → P (after (enterSession d s getInfo >>= fun _ => advertisePeer d s) q)) :
    P (after (handlePeerInitialization d s pm) p) := by
  refine wp_after.1 ?_
  simp only [handlePeerInitialization, wp_bind, wp_get]
  refine wp_lift (fun err _ => ?_) fun _ _ => hquiet p (Std.Refl.refl p)
  split
  · exact ((permits_terminate hutters).wp p).mono (fun _ q => hquiet q) fun _ q => hquiet q
  · have hbefore : Within R (do
        storePeerProperties d pm
        addMutualExtensions d pm
        sendPeerInitializationResponse d s : PeerM Unit) := by
      refine within_bind permits_storePeerProperties fun _ => ?_
      refine within_bind permits_addMutualExtensions fun _ => ?_
      exact permits_sendPeerInitializationResponse hanswer
    have hwp := hbefore.wp p
    simp only [wp_bind] at hwp ⊢
    refine hwp.mono (fun _ q hq => hq.mono (fun _ q hq => hq.mono (fun _ q hq => ?_) ?_) ?_) ?_
    · have hentered := wp_after.2 (henter q hq)
      rwa [wp_bind] at hentered
    all_goals exact fun _ q hq => hquiet q hq

/-- The handler of Session Initialization Response is permitted, but for the entering of the
session. -/
theorem wp_handlePeerInitializationResponse (hutters : Utters S Q d s) {pm : ProtocolMessage}
    {p : Peer} (hp : p.QueueOk) {P : Peer → Prop} (hquiet : ∀ q, R p q → P q)
    (henter : ∀ q, R p q → P (after (enterSession d s fun p =>
      { getInfo p with dataItems := pm.dataItems }) q)) :
    P (after (handlePeerInitializationResponse d s pm) p) := by
  have hbefore : wp (do
      if ← handleResponse d s pm then
        storePeerProperties d pm
        setMutualExtensions d pm
        let _ ← onPdp (PeerData.updateDataItems d.cfg pm.dataItems)
        return true
      else return false : PeerM Bool) (fun _ q => R p q) (fun _ q => R p q) p := by
    refine wp_bind.2 ((permits_handleResponse hutters hp).mono (fun ok q hq => ?_) fun _ _ hq => hq)
    cases ok with
    | false => exact hq.1
    | true =>
      refine (within_bind permits_storePeerProperties fun _ => ?_).wp_trans hq.1
      refine within_bind permits_setMutualExtensions fun _ => ?_
      exact within_bind (permits_onPdp PeerData.owesNoMore_updateDataItems) fun _ => within_pure
  refine wp_after.1 ?_
  rw [handlePeerInitializationResponse, wp_bind]
  rw [wp_bind] at hbefore
  refine hbefore.mono (fun ok q hq => ?_) fun _ q hq => hquiet q hq
  cases ok with
  | false => exact hquiet q hq
  | true =>
    simp only [if_true, wp_bind] at hq ⊢
    refine hq.mono (fun _ q hq => hq.mono (fun _ q hq => hq.mono (fun _ q hq => ?_) ?_) ?_) ?_
    · exact wp_after.2 (henter q hq)
    all_goals exact fun _ q hq => hquiet q hq

/-! ## A message -/

omit permits in
/-- What a received message may lead to, apart from destinations that come up and from the
handshake. -/
structure Hears [AddressText] (S : Bytes → Prop) (Q : DlepMac → Bytes → Prop)
    (R : Peer → Peer → Prop)
    (d : DlepView) (s : Surroundings) (name : String) (pm : ProtocolMessage) (p : Peer) : Prop where
  utters : Utters S Q d s
  regain : name = "Destination_Up_Response" ∨ name = "Destination_Announce_Response" → ∀ mac,
    pm.getMac d.cfg = .ok mac → regains d pm mac p = true → ∀ q,
      q.notInterestedDestinations = p.notInterestedDestinations → R q { q with
        notInterestedDestinations := q.notInterestedDestinations.erase mac }
  answer : ∀ mac dd metrics answer, pm.getMac d.cfg = .ok mac →
    pm.getDataItemsNoMac d.cfg = .ok [] → d.localPdp.getDestinationData mac = some dd →
    metricsOf d.cfg dd.getAllDataItems = .ok metrics → shouldSendResponse s = true →
    destinationMessage d "Link_Characteristics_Response" mac metrics
      "link_characteristics_response" = .ok answer → S answer.msgbuf

omit permits in
/-- The messages that bring a destination up or open the session. -/
def opens (name : String) : Bool :=
  name = "Destination_Up" || name = "Destination_Announce" || name = "Session_Initialization" ||
    name = "Session_Initialization_Response"

/-- By cases on the handler: a message that neither brings a destination up nor opens the session
is permitted. -/
theorem permits_dispatch {pm : ProtocolMessage} {p : Peer} {name : String}
    (hears : Hears S Q R d s name pm p) (hp : p.QueueOk) (hname : opens name = false) :
    R p (after (dispatch d s name pm) p) := by
  obtain ⟨hutters, hregain, hanswer⟩ := hears
  have hnothing : wp (pure () : PeerM Unit) (fun _ q => R p q) (fun _ q => R p q) p :=
    Std.Refl.refl p
  refine wp_after.1 ?_
  unfold dispatch
  split
  · exact hnothing
  · exact (permits_handleDestinationUpdate hutters).wp p
  · cases hname
  · exact permits_handleDestinationUpResponse hutters hp (hregain (.inl rfl))
  · cases hname
  · exact permits_handleDestinationUpResponse hutters hp (hregain (.inr rfl))
  · exact (permits_handleDestinationDown hutters).wp p
  · exact permits_handleDestinationDownResponse hutters hp
  · exact (permits_handleLinkCharacteristicsRequest hutters hanswer).wp p
  · exact permits_handleLinkCharacteristicsResponse hutters hp
  · exact (permits_handlePeerUpdate hutters).wp p
  · exact permits_handlePeerUpdateResponse hutters hp
  · cases hname
  · cases hname
  · exact (permits_handlePeerTermination hutters).wp p
  · exact permits_handlePeerTerminationResponse hutters hp
  · exact hnothing

/-- A message is handled by the handler of its name, or ends the session. -/
theorem wp_handlePeerSignal (hutters : Utters S Q d s) {buf : Bytes} {p : Peer} {P : Peer → Prop}
    (hquiet : ∀ q, R p q → P q)
    (hdispatch : ∀ name pm, handledOf d s p buf = some (name, pm) →
      P (after (dispatch d s name pm) p)) :
    wp (handlePeerSignal d s buf) (fun _ q => P q) (fun _ q => P q) p := by
  refine wp_handlePeerSignal_of_handled (hquiet p (Std.Refl.refl p)) (fun _ _ => ?_) hdispatch
  exact hquiet _ (permits_terminate hutters p)

end

end

end Peer

end Dlep
