import Dlep.Peer.Run

/-!
# What the calls on a peer leave alone

The queues are written in three places only: where a new message is sent, where the head of a
queue is sent again because its response is late, and where a response is accepted. No call but
the read itself writes the receive buffer. So a relation between states contains every call if it
contains these three and whatever else leaves the queues and the buffer alone; this is proved
once, for all such relations.
-/

namespace Dlep

open Std Calls

namespace Peer

/-- The relation contains the calls that write the queues, except for the acceptance of a
response, and everything that does not write the queues or the receive buffer and records nothing
about them. -/
class Closed (R : Peer → Peer → Prop) : Prop extends Std.Refl R, IsTrans Peer R where
  other : ∀ p q, q.responsesPending = p.responsesPending → q.nextUid = p.nextUid →
    q.signalRecv = p.signalRecv →
    (∃ events, q.trace = p.trace ++ events ∧ ∀ e ∈ events, e.isQueue = false) → R p q
  send : ∀ (now : Nat) (rp : ResponsePending), rp.queued = false → rp.sendTries = 0 →
    Within R (sendNew now rp)
  resend : ∀ (now : Nat) (p : Peer) (mac : DlepMac) (head : ResponsePending)
    (rest : List ResponsePending) (limit : UInt32),
    p.responsesPending[mac]? = some (head :: rest) → head.sendTries < limit →
    R p (after (sendMessageExpectingResponse now head) p)

/-- The relation contains everything that does not write the queues or the receive buffer and
records nothing about them. -/
class Idle (R : Peer → Peer → Prop) : Prop extends Std.Refl R, IsTrans Peer R where
  other : ∀ p q, q.responsesPending = p.responsesPending → q.nextUid = p.nextUid →
    q.signalRecv = p.signalRecv →
    (∃ events, q.trace = p.trace ++ events ∧ ∀ e ∈ events, e.isQueue = false) → R p q

/-- The relation contains the calls that write the queues at the time and by the limits of the
surroundings, except for the acceptance of a response. -/
class Sending (s : Surroundings) (R : Peer → Peer → Prop) : Prop where
  send : ∀ rp : ResponsePending, rp.queued = false → rp.sendTries = 0 → Within R (sendNew s.now rp)
  resend : ∀ (p : Peer) (mac : DlepMac) (head : ResponsePending) (rest : List ResponsePending),
    p.responsesPending[mac]? = some (head :: rest) → head.sendTime + s.ackTimeout.toNat < s.now →
    head.sendTries < s.sendTries → R p (after (sendMessageExpectingResponse s.now head) p)

instance {R : Peer → Peer → Prop} [Closed R] : Idle R := ⟨Closed.other⟩

instance {s : Surroundings} {R : Peer → Peer → Prop} [Closed R] : Sending s R where
  send := Closed.send s.now
  resend p mac head rest hhead _ := Closed.resend s.now p mac head rest s.sendTries hhead

section

variable {R : Peer → Peer → Prop} [Idle R]

/-- Writing other fields is in the relation. -/
theorem closed_modify {f : Peer → Peer}
    (h : ∀ p, (f p).responsesPending = p.responsesPending ∧ (f p).nextUid = p.nextUid ∧
      (f p).signalRecv = p.signalRecv ∧ (f p).trace = p.trace) : Within R (modify f : PeerM Unit) :=
  within_modify fun p => Idle.other p (f p) (h p).1 (h p).2.1 (h p).2.2.1
    ⟨[], by simp [(h p).2.2.2], by simp⟩

/-- An event that is not about a queue is in the relation. -/
theorem closed_emit {e : Event} (he : e.isQueue = false) : Within R (emit e) :=
  within_modify fun p => Idle.other p _ rfl rfl rfl ⟨[e], rfl, by simp [he]⟩

/-- A message that is sent at once does not go through a queue. -/
theorem closed_sendSessionMessage {buf : Bytes} : Within R (sendSessionMessage buf) :=
  closed_emit rfl

/-- A call of the client does not go through a queue. -/
theorem closed_callClient {call : ClientCall} : Within R (callClient call) := closed_emit rfl

/-- The data of the peer are apart from the queues. -/
theorem closed_onPdp {α : Type} {m : EStateM Exn PeerData α} : Within R (onPdp m) :=
  within_zoom fun p => Idle.other p _ rfl rfl rfl ⟨[], by simp, by simp⟩

/-- The record of refusals is apart from the queues. -/
theorem closed_notInterested {mac : DlepMac} : Within R (notInterested mac) :=
  closed_modify fun _ => ⟨rfl, rfl, rfl, rfl⟩

/-- The record of refusals is apart from the queues. -/
theorem closed_regainInterest {mac : DlepMac} : Within R (regainInterest mac) :=
  closed_modify fun _ => ⟨rfl, rfl, rfl, rfl⟩

/-- A new object has not been sent. -/
theorem ResponsePending.make_sendTries {cfg : ProtocolConfig} {pm : ProtocolMessage}
    {rp : ResponsePending} (h : ResponsePending.make cfg pm = .ok rp) : rp.sendTries = 0 := by
  simp only [ResponsePending.make, bind_eq_ok] at h
  obtain ⟨_, _, _, _, _, _, _, _, _, _, hrp⟩ := h
  rw [← Except.ok.inj hrp]

/-- A request is a new message. -/
theorem closed_sendRequest {s : Surroundings} [Sending s R] {cfg : ProtocolConfig}
    {pm : ProtocolMessage} : Within R (sendRequest cfg s.now pm) := by
  refine within_of_wp fun p => ?_
  rw [sendRequest, wp_bind]
  refine wp_lift (fun rp hrp => ?_) fun _ _ => Std.Refl.refl p
  have hqueued := ResponsePending.make_queued hrp
  exact (Sending.send rp hqueued (ResponsePending.make_sendTries hrp)).wp p

/-- Stopping a peer writes no queue. -/
theorem closed_stopPeer {d : DlepView} : Within R (stopPeer d) := by
  refine within_bind within_get fun _ => within_ite (fun _ => within_pure) fun _ => ?_
  refine within_bind (closed_modify fun _ => ⟨rfl, rfl, rfl, rfl⟩) fun _ => ?_
  refine within_bind closed_callClient fun _ => ?_
  exact within_ite (fun _ => closed_emit rfl) fun _ => within_pure

section

variable [AddressText] {d : DlepView} {s : Surroundings} [Sending s R]

/-- Ending a session sends one new message. -/
theorem closed_terminate {status : String} {reason : Bytes} :
    Within R (terminate d s status reason) := by
  refine within_bind within_get fun _ => within_ite (fun _ => within_pure) fun _ => ?_
  refine within_bind closed_stopPeer fun _ => within_bind within_lift fun _ => ?_
  exact within_bind closed_sendRequest fun _ => closed_modify fun _ => ⟨rfl, rfl, rfl, rfl⟩

omit [Sending s R] in
/-- A response is sent at once. -/
theorem closed_sendSimpleResponse {name status : String} {message : Bytes} {mac : Option DlepMac} :
    Within R (sendSimpleResponse d s name status message mac) := by
  refine within_ite (fun _ => ?_) fun _ => within_pure
  exact within_bind within_lift fun _ => closed_sendSessionMessage

/-! ## Timers and calls of the local node -/

/-- By induction over the queues, every late head is sent again. -/
theorem closed_retransmit {macs : List DlepMac} : Within R (retransmit d s macs) := by
  induction macs with
  | nil => exact within_pure
  | cons mac macs ih =>
    refine within_of_wp fun p => ?_
    simp only [retransmit, wp_bind, wp_get]
    split
    · next head rest hhead =>
      split
      · next hlate =>
        split
        · next htries =>
          rw [wp_bind]
          have hsend := wp_after.2 (Sending.resend (R := R) p mac head rest hhead hlate htries)
          exact hsend.mono (fun _ q hq => ih.wp_trans hq) fun _ _ hq => hq
        · exact closed_terminate.wp p
      · exact ih.wp p
    · exact ih.wp p

/-- The timer sends late heads again, or ends the session. -/
theorem closed_handleAcktivityTimeout : Within R (handleAcktivityTimeout d s) := by
  refine within_bind ?_ fun _ => within_ite (fun _ => ?_) fun _ => within_pure
  · refine within_bind within_get fun _ => within_ite (fun _ => within_pure) fun _ => ?_
    refine within_ite (fun _ => ?_) fun _ => within_pure
    exact within_bind closed_terminate fun _ => within_pure
  · exact within_bind within_get fun _ => closed_retransmit

omit [AddressText] in
/-- A heartbeat is sent at once. -/
theorem closed_handleHeartbeatTimeout : Within R handleHeartbeatTimeout := by
  refine within_bind within_get fun _ => within_ite (fun _ => ?_) fun _ => within_pure
  exact closed_sendSessionMessage

/-- A destination up is a new message, or the response that is owed. -/
theorem closed_destinationUp {mac : DlepMac} {items : DataItems} :
    Within R (destinationUp d s mac items) := by
  refine within_bind within_get fun _ => within_ite (fun _ => ?_) fun _ => ?_
  · refine within_bind (closed_modify fun _ => ⟨rfl, rfl, rfl, rfl⟩) fun _ => ?_
    exact within_bind within_lift fun _ => closed_sendSessionMessage
  · exact within_bind within_lift fun _ => closed_sendRequest

/-- A destination down is a new message. -/
theorem closed_destinationDown {mac : DlepMac} {items : DataItems} :
    Within R (destinationDown d s mac items) :=
  within_bind within_lift fun _ => closed_sendRequest

/-- A destination update is sent at once. -/
theorem closed_destinationUpdate {mac : DlepMac} {items : DataItems} :
    Within R (destinationUpdate d mac items) := by
  refine within_bind within_get fun _ => within_ite (fun _ => within_pure) fun _ => ?_
  exact within_bind within_lift fun _ => closed_sendSessionMessage

/-- A session update is a new message. -/
theorem closed_peerUpdate {items : DataItems} : Within R (peerUpdate d s items) := by
  refine within_bind within_get fun _ => within_ite (fun _ => ?_) fun _ => within_pure
  refine within_bind within_lift fun _ => within_bind closed_sendRequest fun _ => within_pure

/-- A request about a link is a new message. -/
theorem closed_linkCharacteristicsRequest {mac : DlepMac} {items : DataItems} :
    Within R (linkCharacteristicsRequest d s mac items) :=
  within_bind within_lift fun _ => closed_sendRequest

omit [Sending s R] in
/-- A response about a link is sent at once. -/
theorem closed_linkCharacteristicsResponse {mac : DlepMac} {items : DataItems} :
    Within R (linkCharacteristicsResponse d s mac items) := by
  refine within_ite (fun _ => ?_) fun _ => within_pure
  exact within_bind within_lift fun _ => closed_sendSessionMessage

omit [Sending s R] in
/-- The client may change a message, not the queues. -/
theorem closed_letClientModify {pm : ProtocolMessage} : Within R (letClientModify d s pm) := by
  refine within_bind within_get fun _ => within_bind closed_callClient fun _ => ?_
  split
  · exact within_pure
  · exact within_bind within_lift fun _ => within_pure

/-- A router starts with a new message, a modem with none. -/
theorem closed_startPeer : Within R (startPeer d s) := by
  refine within_bind within_lift fun _ => ?_
  refine within_bind (closed_modify fun _ => ⟨rfl, rfl, rfl, rfl⟩) fun _ => ?_
  refine within_ite (fun _ => within_pure) fun _ => within_bind within_lift fun _ => ?_
  exact within_bind closed_letClientModify fun _ => closed_sendRequest

/-! ## The handshake -/

omit [AddressText] in
/-- What is remembered of the peer is apart from the queues. -/
theorem closed_storePeerProperties {pm : ProtocolMessage} :
    Within R (storePeerProperties d pm) := by
  refine within_bind ?_ fun _ => within_bind ?_ fun _ => ?_
  · refine within_bind within_lift fun peerType => ?_
    cases peerType with
    | some _ => exact closed_modify fun _ => ⟨rfl, rfl, rfl, rfl⟩
    | none => exact within_pure
  · unfold storeExperimentNames
    split
    · exact closed_modify fun _ => ⟨rfl, rfl, rfl, rfl⟩
    · exact within_pure
    · exact within_pure
    · exact within_throw
  · refine within_bind within_lift fun _ => ?_
    refine within_bind (closed_modify fun _ => ⟨rfl, rfl, rfl, rfl⟩) fun _ => ?_
    exact within_bind within_lift fun _ => closed_modify fun _ => ⟨rfl, rfl, rfl, rfl⟩

omit [AddressText] in
/-- The extensions are apart from the queues. -/
theorem closed_addMutualExtensions {pm : ProtocolMessage} :
    Within R (addMutualExtensions d pm) := by
  refine within_bind within_lift fun extensions => ?_
  cases extensions with
  | some _ => exact closed_modify fun _ => ⟨rfl, rfl, rfl, rfl⟩
  | none => exact within_pure

omit [AddressText] in
/-- The extensions are apart from the queues. -/
theorem closed_setMutualExtensions {pm : ProtocolMessage} :
    Within R (setMutualExtensions d pm) := by
  refine within_bind within_lift fun extensions => ?_
  cases extensions with
  | some _ => exact closed_modify fun _ => ⟨rfl, rfl, rfl, rfl⟩
  | none => exact within_pure

omit [Sending s R] in
/-- The answer to an opening is sent at once. -/
theorem closed_sendPeerInitializationResponse : Within R (sendPeerInitializationResponse d s) := by
  refine within_bind within_get fun _ => within_bind within_lift fun _ => ?_
  refine within_bind closed_letClientModify fun _ => within_ite (fun _ => ?_) fun _ => within_pure
  exact closed_sendSessionMessage

/-- Entering a session writes no queue. -/
theorem closed_enterSession {info : Peer → PeerInfo} : Within R (enterSession d s info) := by
  refine within_bind (closed_modify fun _ => ⟨rfl, rfl, rfl, rfl⟩) fun _ => ?_
  refine within_bind within_get fun _ => within_bind closed_callClient fun _ => ?_
  exact within_forM fun _ _ => closed_destinationUp

omit [AddressText] [Sending s R] in
/-- Advertising a router writes no queue. -/
theorem closed_advertisePeer : Within R (advertisePeer d s) := by
  refine within_ite (fun _ => ?_) fun _ => within_pure
  split
  · exact closed_emit rfl
  · exact within_pure

/-- The handler of Session Initialization. -/
theorem closed_handlePeerInitialization {pm : ProtocolMessage} :
    Within R (handlePeerInitialization d s pm) := by
  refine within_bind within_get fun _ => within_bind within_lift fun _ => ?_
  refine within_ite (fun _ => closed_terminate) fun _ => ?_
  refine within_bind closed_storePeerProperties fun _ => ?_
  refine within_bind closed_addMutualExtensions fun _ => ?_
  refine within_bind closed_sendPeerInitializationResponse fun _ => ?_
  exact within_bind closed_enterSession fun _ => closed_advertisePeer

/-! ## The session -/

/-- The handler of Session Update. -/
theorem closed_handlePeerUpdate {pm : ProtocolMessage} : Within R (handlePeerUpdate d s pm) := by
  refine within_bind within_get fun _ => within_bind within_lift fun _ => ?_
  refine within_ite (fun _ => closed_terminate) fun _ => within_bind closed_onPdp fun _ => ?_
  exact within_bind closed_callClient fun _ => closed_sendSimpleResponse

omit [Sending s R] in
/-- The handler of Session Termination. -/
theorem closed_handlePeerTermination : Within R (handlePeerTermination d s) :=
  within_bind closed_sendSimpleResponse fun _ => closed_stopPeer

/-- A destination that is taken is apart from the queues. -/
theorem closed_takeDestination {mac : DlepMac} {items : DataItems} :
    Within R (takeDestination d s mac items) := by
  refine within_bind within_get fun _ => within_bind within_lift fun _ =>
    within_ite (fun _ => ?_) ?_
  · exact within_bind closed_terminate fun _ => within_pure
  · refine fun _ => within_bind ?_ fun _ => within_pure
    refine within_bind closed_regainInterest fun _ => within_bind ?_ fun _ => ?_
    · refine within_bind within_get fun _ => within_bind closed_callClient fun _ => ?_
      exact within_pure
    · refine within_ite (fun _ => ?_) fun _ => within_pure
      refine within_bind (within_bind closed_onPdp fun _ => within_lift) fun _ => within_pure

/-- The handler of Destination Up. -/
theorem closed_handleDestinationUp {pm : ProtocolMessage} :
    Within R (handleDestinationUp d s pm) := by
  refine within_bind within_lift fun _ => within_bind within_lift fun _ => within_bind ?_ ?_
  · refine within_bind within_get fun _ => within_ite (fun _ => within_pure) fun _ => ?_
    exact closed_takeDestination
  · intro status
    cases status with
    | none => exact within_pure
    | some _ =>
      refine within_bind within_lift fun _ => within_ite (fun _ => ?_) fun _ => within_pure
      exact closed_sendSimpleResponse

omit [Sending s R] in
/-- The answer to an announcement is sent at once. -/
theorem closed_answerAnnounce {responseName status : String} {mac : DlepMac} :
    Within R (answerAnnounce d s responseName status mac) := by
  refine within_ite (fun _ => ?_) fun _ => closed_sendSimpleResponse
  exact closed_modify fun _ => ⟨rfl, rfl, rfl, rfl⟩

/-- The handler of Destination Announce. -/
theorem closed_handleDestinationAnnounce {pm : ProtocolMessage} :
    Within R (handleDestinationAnnounce d s pm) := by
  refine within_bind within_lift fun _ => within_bind within_lift fun _ => ?_
  refine within_bind within_lift fun _ => within_bind within_lift fun _ => ?_
  refine within_bind within_get fun _ => within_ite (fun _ => closed_answerAnnounce) fun _ => ?_
  refine within_bind closed_regainInterest fun _ => ?_
  refine within_bind (within_bind closed_onPdp fun _ => within_lift) fun _ => ?_
  split
  · refine within_bind (closed_modify fun _ => ⟨rfl, rfl, rfl, rfl⟩) fun _ => ?_
    exact closed_destinationUp
  · refine within_bind ?_ fun _ => closed_answerAnnounce
    refine within_bind within_get fun _ => within_bind closed_callClient fun _ => ?_
    exact within_pure

/-- The handler of Destination Update. -/
theorem closed_handleDestinationUpdate {pm : ProtocolMessage} :
    Within R (handleDestinationUpdate d s pm) := by
  refine within_bind within_lift fun _ => within_bind within_get fun _ => ?_
  split
  · exact closed_terminate
  · refine within_bind within_lift fun _ => within_bind within_lift fun _ => ?_
    refine within_ite (fun _ => closed_terminate) fun _ => ?_
    exact within_bind closed_onPdp fun _ => closed_callClient

/-- The handler of Destination Down. -/
theorem closed_handleDestinationDown {pm : ProtocolMessage} :
    Within R (handleDestinationDown d s pm) := by
  refine within_bind within_lift fun _ => within_bind ?_ fun _ =>
    within_ite (fun _ => ?_) fun _ => ?_
  · refine within_bind closed_onPdp fun _ => within_ite (fun _ => within_pure) fun _ => ?_
    refine within_ite (fun _ => ?_) fun _ => within_pure
    exact within_bind closed_notInterested fun _ => within_pure
  · refine within_bind within_lift fun _ => within_bind within_get fun _ => ?_
    exact within_bind closed_callClient fun _ => closed_sendSimpleResponse
  · exact closed_terminate

/-- The handler of Link Characteristics Request. -/
theorem closed_handleLinkCharacteristicsRequest {pm : ProtocolMessage} :
    Within R (handleLinkCharacteristicsRequest d s pm) := by
  refine within_bind within_lift fun _ => within_bind within_lift fun _ => ?_
  split
  · exact closed_terminate
  · refine within_ite (fun _ => ?_) fun _ => ?_
    · exact within_bind within_lift fun _ => closed_linkCharacteristicsResponse
    · exact within_bind within_get fun _ => closed_callClient

/-! ## Responses

A handler of a response accepts it before it does anything else, so that what is wanted of the
acceptance is wanted in the state in which the message arrives. -/

/-- Does the handler of a message of this name look for the message that it answers? The handlers
of the responses about a destination need the MAC address for it, and the end of a session is only
awaited by a peer that has asked for it. -/
def takesResponse (p : Peer) (name : String) (mac : Option DlepMac) : Bool :=
  match name with
  | "Session_Initialization_Response" => true
  | "Session_Update_Response" => true
  | "Session_Termination_Response" => p.pstate = .terminating
  | "Destination_Up_Response" => mac.isSome
  | "Destination_Announce_Response" => mac.isSome
  | "Destination_Down_Response" => mac.isSome
  | "Link_Characteristics_Response" => mac.isSome
  | _ => false

section

variable {pm : ProtocolMessage} {p : Peer}

/-- The first part of every handler of a response: the relation needs to contain the acceptance.
-/
theorem closed_handleResponse
    (haccept : ∀ mac, ifPresent (pm.getMac d.cfg) = .ok mac →
      R p (after (acceptResponse s pm (mac.getD [])) p)) :
    wp (handleResponse d s pm) (fun _ q => R p q) (fun _ q => R p q) p := by
  simp only [handleResponse, wp_bind]
  refine wp_lift (fun _ _ => wp_lift (fun mac hmac => ?_) fun _ _ => Std.Refl.refl p)
    fun _ _ => Std.Refl.refl p
  have hwp := wp_after.2 (haccept mac hmac)
  refine hwp.mono (fun ok q hq => ?_) fun _ _ hq => hq
  cases ok with
  | true => exact hq
  | false => exact (within_bind closed_terminate fun _ => within_pure).wp_trans hq

/-- What is done when the response was accepted, or was not. -/
theorem closed_ifResponse {yes no : PeerM Unit} (hyes : Within R yes) (hno : Within R no)
    (haccept : ∀ mac, ifPresent (pm.getMac d.cfg) = .ok mac →
      R p (after (acceptResponse s pm (mac.getD [])) p)) :
    wp (do if ← handleResponse d s pm then yes else no) (fun _ q => R p q)
      (fun _ q => R p q) p := by
  refine wp_bind.2 ((closed_handleResponse haccept).mono (fun ok q hq => ?_) fun _ _ hq => hq)
  cases ok with
  | true => exact hyes.wp_trans hq
  | false => exact hno.wp_trans hq

omit [AddressText] [Sending s R] [Idle R] in
/-- A message with a MAC address answers only what is on the queue of that address. -/
theorem accept_of_getMac {mac : DlepMac} (hmac : pm.getMac d.cfg = .ok mac)
    (haccept : ∀ mac, pm.getMac d.cfg = .ok mac → R p (after (acceptResponse s pm mac) p))
    (mac' : Option DlepMac) (hmac' : ifPresent (pm.getMac d.cfg) = .ok mac') :
    R p (after (acceptResponse s pm (mac'.getD [])) p) := by
  rw [ifPresent_ok hmac] at hmac'
  obtain rfl := Except.ok.inj hmac'
  exact haccept mac hmac

/-- The handler of Session Initialization Response. -/
theorem closed_handlePeerInitializationResponse
    (haccept : ∀ mac, ifPresent (pm.getMac d.cfg) = .ok mac →
      R p (after (acceptResponse s pm (mac.getD [])) p)) :
    wp (handlePeerInitializationResponse d s pm) (fun _ q => R p q) (fun _ q => R p q) p := by
  refine closed_ifResponse ?_ within_pure haccept
  refine within_bind closed_storePeerProperties fun _ => ?_
  refine within_bind closed_setMutualExtensions fun _ => within_bind closed_onPdp fun _ => ?_
  exact closed_enterSession

/-- The handler of Session Update Response. -/
theorem closed_handlePeerUpdateResponse
    (haccept : ∀ mac, ifPresent (pm.getMac d.cfg) = .ok mac →
      R p (after (acceptResponse s pm (mac.getD [])) p)) :
    wp (handlePeerUpdateResponse d s pm) (fun _ q => R p q) (fun _ q => R p q) p :=
  wp_bind.2 ((closed_handleResponse haccept).mono (fun _ _ hq => hq) fun _ _ hq => hq)

/-- The handler of Session Termination Response, which accepts it only once the peer is
terminating. -/
theorem closed_handlePeerTerminationResponse
    (haccept : p.pstate = .terminating → ∀ mac, ifPresent (pm.getMac d.cfg) = .ok mac →
      R p (after (acceptResponse s pm (mac.getD [])) p)) :
    wp (handlePeerTerminationResponse d s pm) (fun _ q => R p q) (fun _ q => R p q) p := by
  simp only [handlePeerTerminationResponse, wp_bind, wp_get]
  split
  · next hstate =>
    rw [wp_bind]
    exact (closed_handleResponse (haccept hstate)).mono (fun _ _ hq => closed_stopPeer.wp_trans hq)
      fun _ _ hq => hq
  · exact Std.Refl.refl p

section

variable (haccept : ∀ mac, pm.getMac d.cfg = .ok mac → R p (after (acceptResponse s pm mac) p))

include haccept

/-- The handler of Destination Up Response. -/
theorem closed_handleDestinationUpResponse :
    wp (handleDestinationUpResponse d s pm) (fun _ q => R p q) (fun _ q => R p q) p := by
  rw [handleDestinationUpResponse, wp_bind]
  refine wp_lift (fun mac hmac => ?_) fun _ _ => Std.Refl.refl p
  rw [wp_bind]
  refine wp_lift (fun _ _ => ?_) fun _ _ => Std.Refl.refl p
  refine closed_ifResponse ?_ within_pure (accept_of_getMac hmac haccept)
  refine within_bind ?_ fun _ => within_ite (fun _ => ?_) fun _ => within_pure
  · refine within_bind within_lift fun status => ?_
    cases status with
    | none => exact within_pure
    | some _ =>
      refine within_ite (fun _ => ?_) fun _ => within_pure
      exact within_bind closed_notInterested fun _ => within_pure
  · exact within_ite (fun _ => within_pure) fun _ => closed_handleDestinationUp

/-- The handler of Destination Down Response. -/
theorem closed_handleDestinationDownResponse :
    wp (handleDestinationDownResponse d s pm) (fun _ q => R p q) (fun _ q => R p q) p := by
  rw [handleDestinationDownResponse, wp_bind]
  refine wp_lift (fun mac hmac => ?_) fun _ _ => Std.Refl.refl p
  have hresponse := closed_handleResponse (accept_of_getMac hmac haccept)
  exact wp_bind.2 (hresponse.mono (fun _ _ hq => hq) fun _ _ hq => hq)

/-- The handler of Link Characteristics Response. -/
theorem closed_handleLinkCharacteristicsResponse :
    wp (handleLinkCharacteristicsResponse d s pm) (fun _ q => R p q) (fun _ q => R p q) p := by
  rw [handleLinkCharacteristicsResponse, wp_bind]
  refine wp_lift (fun mac hmac => ?_) fun _ _ => Std.Refl.refl p
  refine closed_ifResponse ?_ within_pure (accept_of_getMac hmac haccept)
  refine within_bind within_get fun _ => ?_
  split
  · exact closed_terminate
  · refine within_bind within_lift fun _ => within_bind closed_onPdp fun _ => ?_
    exact within_bind within_get fun _ => closed_callClient

end

/-- A valid message, by its handler. -/
theorem closed_dispatch {name : String}
    (haccept : ∀ mac, p.takesResponse name mac = true → ifPresent (pm.getMac d.cfg) = .ok mac →
      R p (after (acceptResponse s pm (mac.getD [])) p)) :
    wp (dispatch d s name pm) (fun _ q => R p q) (fun _ q => R p q) p := by
  have hpure : wp (pure () : PeerM Unit) (fun _ q => R p q) (fun _ q => R p q) p := Std.Refl.refl p
  unfold dispatch
  split
  · exact hpure
  · exact closed_handleDestinationUpdate.wp p
  · split
    · exact closed_handleDestinationAnnounce.wp p
    · exact closed_handleDestinationUp.wp p
  · exact closed_handleDestinationUpResponse fun mac h => haccept (some mac) rfl (ifPresent_ok h)
  · exact closed_handleDestinationAnnounce.wp p
  · exact closed_handleDestinationUpResponse fun mac h => haccept (some mac) rfl (ifPresent_ok h)
  · exact closed_handleDestinationDown.wp p
  · exact closed_handleDestinationDownResponse fun mac h => haccept (some mac) rfl (ifPresent_ok h)
  · exact closed_handleLinkCharacteristicsRequest.wp p
  · exact closed_handleLinkCharacteristicsResponse fun mac h =>
      haccept (some mac) rfl (ifPresent_ok h)
  · exact closed_handlePeerUpdate.wp p
  · exact closed_handlePeerUpdateResponse fun mac h => haccept mac rfl h
  · exact closed_handlePeerInitialization.wp p
  · exact closed_handlePeerInitializationResponse fun mac h => haccept mac rfl h
  · exact closed_handlePeerTermination.wp p
  · exact closed_handlePeerTerminationResponse fun hstate mac h =>
      haccept mac (by simp [takesResponse, hstate]) h
  · exact hpure

end

/-- The status is looked at before the message is handled: the state is as before and the status
does not end the session, or the session was ended. -/
theorem closed_checkStatusCodeFailure {pm : ProtocolMessage} (p : Peer) :
    wp (checkStatusCodeFailure d s pm)
      (fun ended q => R p q ∧ (ended = false → q = p ∧ statusEnds d pm = false))
      (fun _ q => R p q) p := by
  have hrefl : R p p := Std.Refl.refl p
  rw [checkStatusCodeFailure, wp_bind]
  refine wp_lift (fun name hname => ?_) fun _ _ => hrefl
  split
  · next hend => exact ⟨hrefl, fun _ => ⟨rfl, statusEnds_of_termination hname hend⟩⟩
  · next hend =>
    rw [wp_bind]
    refine wp_lift (fun status hstatus => ?_) fun _ _ => hrefl
    have hends : statusEnds d pm = isFailure d.cfg status := by
      simp only [statusEnds, hname, hstatus, if_neg hend]
    cases status with
    | none => exact ⟨hrefl, fun _ => ⟨rfl, hends⟩⟩
    | some status =>
      rw [wp_bind]
      refine wp_lift (fun info hinfo => ?_) fun _ _ => hrefl
      split
      · rw [wp_bind]
        exact (closed_terminate.wp p).mono (fun _ q hq => ⟨hq, fun h => by cases h⟩)
          fun _ _ hq => hq
      · next hmode => exact ⟨hrefl, fun _ => ⟨rfl, by simp [hends, isFailure, hinfo, hmode]⟩⟩

/-- Every message that is handled, if the acceptance of those that are taken for a response is all
right: they are valid, and their status does not end the session. -/
theorem closed_handlePeerSignal {buf : Bytes} {p : Peer}
    (haccept : ∀ pm name mac, received d buf = .ok ([], pm) → statusEnds d pm = false →
      pm.getSignalName d.cfg = .ok name → p.takesResponse name mac = true →
      ifPresent (pm.getMac d.cfg) = .ok mac → R p (after (acceptResponse s pm (mac.getD [])) p)) :
    wp (handlePeerSignal d s buf) (fun _ q => R p q) (fun _ q => R p q) p := by
  rw [handlePeerSignal, wp_bind]
  refine wp_lift (fun r hr => ?_) fun _ _ => Std.Refl.refl p
  obtain ⟨err, pm⟩ := r
  dsimp only
  split
  · exact closed_terminate.wp p
  · next herr =>
    obtain rfl : err = [] := by simpa using herr
    rw [wp_bind]
    refine (closed_checkStatusCodeFailure p).mono (fun ended q hq => ?_) fun _ _ hq => hq
    cases ended with
    | true => exact hq.1
    | false =>
      obtain ⟨rfl, hends⟩ := hq.2 rfl
      simp only [Bool.false_eq_true, if_false, wp_bind]
      refine wp_lift (fun name hname => ?_) fun _ _ => Std.Refl.refl q
      exact closed_dispatch fun mac htakes hmac => haccept pm name mac hr hends hname htakes hmac

/-- Every step but a read and the handling of a message. -/
theorem closed_step {st : Step} [Sending st.s R] (hmsg : st.input ≠ .message)
    (hreceive : ∀ bytes, st.input ≠ .receive bytes) (p : Peer) : R p (p.step st) := by
  obtain ⟨d, s, input⟩ := st
  cases input with
  | start => exact closed_startPeer p
  | receive bytes => exact absurd rfl (hreceive bytes)
  | message => exact absurd rfl hmsg
  | acktivityTimeout => exact closed_handleAcktivityTimeout p
  | heartbeatTimeout => exact closed_handleHeartbeatTimeout p
  | eof => exact closed_stopPeer p
  | terminate status reason => exact closed_terminate p
  | destinationUp mac items => exact closed_destinationUp p
  | destinationDown mac items => exact closed_destinationDown p
  | destinationUpdate mac items => exact closed_destinationUpdate p
  | peerUpdate items => exact within_bind closed_peerUpdate (fun _ => within_pure) p
  | linkCharacteristicsRequest mac items => exact closed_linkCharacteristicsRequest p
  | linkCharacteristicsResponse mac items => exact closed_linkCharacteristicsResponse p
  | removeDestination mac => exact within_bind closed_onPdp (fun _ => within_pure) p

end

end

end Peer

end Dlep
