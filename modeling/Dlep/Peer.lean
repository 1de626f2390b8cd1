import Dlep.InfoBase

/-!
# The peer object

The session with one peer: its state, the queues of messages that wait for a response, the timers
and the calls the local node makes. What the peer does to the outside (bytes on the session, calls
to the client, destinations to advertise) is recorded in `trace`, together with what happens to
the queues. The event loop, the locks and the timers themselves are outside: a timer or a read may
fire at any moment.
-/

namespace Dlep

open Std Calls

abbrev PeerId := Bytes

/-- Source: `PeerState` (`Peer.h:49`). No peer is ever `nonexistent`. -/
inductive PeerState where
  | connected
  | inSession
  | terminating
  deriving DecidableEq, Repr

/-- A message that waits for a response. Source: `ResponsePending` (`Peer.h:82`). The queues hold
pointers, and `uid` is the identity of the object. -/
structure ResponsePending where
  uid : Nat
  responseId : SignalIdType
  responseName : String
  destination : DlepMac
  queued : Bool
  msgBuffer : Bytes
  sendTime : Nat
  sendTries : UInt32
  deriving DecidableEq

/-- Source: `PeerInfo` (`DlepCommon.h`). -/
structure PeerInfo where
  peerId : PeerId
  peerType : Bytes
  extensions : List ExtensionIdType
  experimentNames : List Bytes
  dataItems : DataItems
  destinations : List DlepMac
  heartbeatInterval : UInt32

/-- The calls a peer makes to the client. Source: `DlepClient` (`DlepClient.h`). -/
inductive ClientCall where
  | peerInit (peerId : PeerId) (items : DataItems)
  | peerUp (info : PeerInfo)
  | peerUpdate (peerId : PeerId) (items : DataItems)
  | peerDown (peerId : PeerId)
  | destinationUp (peerId : PeerId) (mac : DlepMac) (items : DataItems)
  | destinationUpdate (peerId : PeerId) (mac : DlepMac) (items : DataItems)
  | destinationDown (peerId : PeerId) (mac : DlepMac) (items : DataItems)
  | linkcharRequest (peerId : PeerId) (mac : DlepMac) (items : DataItems)
  | linkcharReply (peerId : PeerId) (mac : DlepMac) (items : DataItems)

/-- What a peer does. -/
inductive Event where
  /-- A message that expects no response is handed to the session. -/
  | send (buf : Bytes)
  /-- A message is put on its queue. -/
  | enqueue (rp : ResponsePending)
  /-- A message from a queue is handed to the session. -/
  | transmit (rp : ResponsePending)
  /-- The response `id` for `mac` was expected by `rp`, which leaves its queue. -/
  | accept (rp : ResponsePending) (id : SignalIdType) (mac : DlepMac)
  | client (call : ClientCall)
  /-- Calls of the destination advertisement (`DestAdvert.h`). -/
  | addDestination (mac : DlepMac)
  | clearDestinations

/-- Source: `Peer` (`Peer.h:133`). Of the receive buffer only the bytes received are kept, and
`registered` tells whether the information base lists the peer. -/
structure Peer where
  peerId : PeerId
  peerPdp : PeerData
  peerType : Bytes := str "unknown"
  experimentNames : List Bytes := []
  pstate : PeerState := .connected
  responsesPending : ExtTreeMap DlepMac (List ResponsePending) := ∅
  peerHeartbeatInterval : UInt32 := 0
  peerHeartbeatIntervalSec : UInt32 := 0
  heartbeatMsg : ProtocolMessage := {}
  lastReceiveTime : Nat
  signalRecv : Bytes := []
  mutualExtensions : List ExtensionIdType := []
  notInterestedDestinations : ExtTreeSet DlepMac := ∅
  registered : Bool := true
  nextUid : Nat := 0
  trace : List Event := []

/-- What a peer reads of the node it belongs to. In `peers`, which are in the order of the map,
`none` is the peer itself. Source: `Dlep` (`Dlep.h`). -/
structure DlepView where
  cfg : ProtocolConfig
  modem : Bool
  destAdvertEnabled : Bool
  localPdp : PeerData
  peers : List (Option PeerData)

/-- What a peer is answered from outside during one call: by the client, the clock, the random
number generator and the address resolution. -/
structure Surroundings where
  params : ClientParameters
  ackProbability : UInt32
  ackTimeout : UInt32
  sendTries : UInt32
  heartbeatThreshold : UInt32
  destinationUp : PeerId → DlepMac → DataItems → String
  /-- The data items in place of the given ones, if the client wants to change them. -/
  peerInit : PeerId → DataItems → Option DataItems
  now : Nat
  random : Nat
  /-- The result of `NetUtils::ipv4ToEtherMacAddr` for the peer's address. -/
  peerMac : Option DlepMac

/-- A call on a peer. -/
abbrev PeerM := EStateM Exn Peer

/-- A value that may be absent: `catch (const ProtocolMessage::DataItemNotPresent &)`. -/
def ifPresent {α : Type} : Except Exn α → Except Exn (Option α)
  | .ok a => .ok (some a)
  | .error (.std .dataItemNotPresent _) => .ok none
  | .error e => .error e

namespace ResponsePending

/-- The name of the response, which is of the same kind as the message (`Peer.cpp:98`). -/
def nameOf (cfg : ProtocolConfig) (isSignal : Bool) (id : SignalIdType) : Except Exn String :=
  if isSignal then cfg.getSignalName id else cfg.getMessageName id

/-- Source: `ResponsePending::ResponsePending` (`Peer.cpp:86`). -/
def make (cfg : ProtocolConfig) (pm : ProtocolMessage) : Except Exn ResponsePending := do
  let name ← pm.getSignalName cfg
  let siginfo ← cfg.getSignalInfo name
  assertThat (siginfo.responseId ≠ 0) "response_id != 0"
  let responseName ← nameOf cfg pm.isSignal siginfo.responseId
  let destination ← ifPresent (pm.getMac cfg)
  return {
    uid := 0
    responseId := siginfo.responseId
    responseName
    destination := destination.getD []
    queued := false
    msgBuffer := pm.msgbuf
    sendTime := 0
    sendTries := 0 }

end ResponsePending

namespace Peer

/-- Source: `Peer::Peer` (`Peer.cpp:22`). -/
def create [AddressText] (cfg : ProtocolConfig) (peerId : PeerId) (now : Nat) :
    Except Exn Peer := do
  let peerPdp ← PeerData.create cfg peerId []
  return { peerId, peerPdp, lastReceiveTime := now }

def emit (e : Event) : PeerM Unit := modify fun p => { p with trace := p.trace ++ [e] }

/-- Source: `Peer::send_session_message` (`Peer.cpp:68`). -/
def sendSessionMessage (buf : Bytes) : PeerM Unit := emit (.send buf)

def callClient (call : ClientCall) : PeerM Unit := emit (.client call)

/-- A call on the data of the peer. -/
def onPdp {α : Type} (m : EStateM Exn PeerData α) : PeerM α :=
  zoom peerPdp (fun peerPdp p => { p with peerPdp }) m

/-! ## Messages that expect a response -/

/-- Source: `Peer::is_not_interested` (`Peer.cpp:192`). -/
def isNotInterested (p : Peer) (destination : DlepMac) : Bool :=
  p.notInterestedDestinations.contains destination

/-- Source: `Peer::not_interested` (`Peer.cpp:199`). -/
def notInterested (destination : DlepMac) : PeerM Unit :=
  modify fun p =>
    { p with notInterestedDestinations := p.notInterestedDestinations.insert destination }

/-- The peer wants to hear of the destination again (`Peer.cpp:1427`, `:1561`). -/
def regainInterest (destination : DlepMac) : PeerM Unit :=
  modify fun p =>
    { p with notInterestedDestinations := p.notInterestedDestinations.erase destination }

/-- Put a message on the queue of its destination, unless it is there (`Peer.cpp:231`). -/
def enqueue (rp : ResponsePending) : PeerM Unit :=
  if rp.queued then pure ()
  else
    modify fun p =>
      { p with
        responsesPending := p.responsesPending.insert rp.destination
          ((p.responsesPending[rp.destination]?).getD [] ++ [{ rp with queued := true }])
        trace := p.trace ++ [.enqueue rp] }

/-- Send the head of a queue, and count the try (`Peer.cpp:248`). -/
def transmit (now : Nat) (destination : DlepMac) (rp : ResponsePending)
    (rest : List ResponsePending) : PeerM Unit :=
  modify fun p =>
    { p with
      responsesPending := p.responsesPending.insert destination
        ({ rp with sendTime := now, sendTries := rp.sendTries + 1 } :: rest)
      trace := p.trace ++ [.transmit rp] }

/-- Send the message if it is at the head of its queue (`Peer.cpp:246`). -/
def sendIfHead (now : Nat) (rp : ResponsePending) : PeerM Unit := do
  match (← get).responsesPending[rp.destination]? with
  | some (head :: rest) =>
    if head.uid = rp.uid then transmit now rp.destination head rest else pure ()
  | _ => throw (.undefined "front() of an empty queue")

/-- Source: `Peer::send_message_expecting_response` (`Peer.cpp:211`). -/
def sendMessageExpectingResponse (now : Nat) (rp : ResponsePending) : PeerM Unit := do
  if (← get).isNotInterested rp.destination then pure ()
  else
    enqueue rp
    sendIfHead now rp

/-- A call of `send_message_expecting_response` with a new object. -/
def sendNew (now : Nat) (rp : ResponsePending) : PeerM Unit := do
  let uid := (← get).nextUid
  modify fun p => { p with nextUid := uid + 1 }
  sendMessageExpectingResponse now { rp with uid }

/-- Send a message that expects a response: the object for it is made on the spot. -/
def sendRequest (cfg : ProtocolConfig) (now : Nat) (pm : ProtocolMessage) : PeerM Unit := do
  let rp ← ResponsePending.make cfg pm
  sendNew now rp

/-- Take the head off its queue, and send the next message (`Peer.cpp:299`). -/
def popResponse (now : Nat) (destination : DlepMac) (rp : ResponsePending)
    (id : SignalIdType) : List ResponsePending → PeerM Unit
  | [] => modify fun p =>
      { p with
        responsesPending := p.responsesPending.erase destination
        trace := p.trace ++ [.accept rp id destination] }
  | next :: rest => do
    modify fun p =>
      { p with
        responsesPending := p.responsesPending.insert destination (next :: rest)
        trace := p.trace ++ [.accept rp id destination] }
    sendMessageExpectingResponse now next

/-- Is the response the one the head of the queue expects? The `try` block of `handle_response`
(`Peer.cpp:289`), in which `std::map::at` throws if there is no queue. -/
def acceptResponse (s : Surroundings) (pm : ProtocolMessage) (destination : DlepMac) :
    PeerM Bool := do
  match (← get).responsesPending[destination]? with
  | none => return false
  | some [] => throw (.undefined "front() of an empty queue")
  | some (rp :: rest) =>
    match pm.getSignalId with
    | .error _ => return false
    | .ok id =>
      if rp.responseId = id then
        popResponse s.now destination rp id rest
        return true
      else return false

/-! ## The end of a session -/

/-- Source: `Peer::set_state` (`Peer.cpp:1980`). -/
def setState (newstate : PeerState) : PeerM Unit := modify fun p => { p with pstate := newstate }

section

variable (d : DlepView) (s : Surroundings)

/-- Source: `Peer::set_state_terminating` (`Peer.cpp:2000`). -/
def setStateTerminating : PeerM Unit := do
  let p ← get
  if p.pstate = .terminating then pure ()
  else
    setState .terminating
    callClient (.peerDown p.peerId)
    if d.destAdvertEnabled then emit .clearDestinations else pure ()

/-- Source: `Peer::stop_peer` (`Peer.cpp:816`). -/
def stopPeer : PeerM Unit := setStateTerminating d

/-- Source: `Peer::handle_heartbeat_timeout` (`Peer.cpp:898`), for a timer that has expired. -/
def handleHeartbeatTimeout : PeerM Unit := do
  let p ← get
  if p.pstate = .inSession then sendSessionMessage p.heartbeatMsg.msgbuf else pure ()

/-- Source: `Peer::should_send_response` (`Peer.cpp:142`). -/
def shouldSendResponse : Bool := s.random % 100 < s.ackProbability.toNat

/-- The message for a destination that is up: a router announces it if the protocol has the message
(`Peer.cpp:535`). -/
def upMessageName : String :=
  if d.modem then "Destination_Up"
  else
    match d.cfg.getSignalId "Destination_Announce" with
    | .ok _ => "Destination_Announce"
    | .error _ => "Destination_Up"

end

section

variable [AddressText] (d : DlepView) (s : Surroundings)

/-- A message with a header, to which `build` adds the data items, parsed and checked under the name
of the calling function. -/
def compose (name : String) (build : ProtocolMessage → Except Exn ProtocolMessage)
    (func : String) : Except Exn (Bytes × ProtocolMessage) := do
  let pm ← ProtocolMessage.addHeader d.cfg name {}
  let pm ← build pm
  ProtocolMessage.parseAndValidate d.cfg d.modem (str func) pm

/-- A freshly built message should be parsable: `assert(err == "")`. -/
def composeChecked (name : String) (build : ProtocolMessage → Except Exn ProtocolMessage)
    (func : String) : Except Exn ProtocolMessage := do
  let (err, pm) ← compose d name build func
  assertThat (err = []) "err == \"\""
  return pm

/-- Source: `Peer::terminate` (`Peer.cpp:829`). -/
def terminate (status : String) (reason : Bytes) : PeerM Unit := do
  if (← get).pstate = .terminating then pure ()
  else
    stopPeer d
    let pm ← composeChecked d "Session_Termination"
      (fun pm => ProtocolMessage.addStatus d.cfg status reason pm) "terminate"
    sendRequest d.cfg s.now pm
    modify fun p => { p with registered := false }

/-! ## Responses -/

/-- A status, unless its name is empty (`Peer.cpp:174`). -/
def addStatusUnlessEmpty (cfg : ProtocolConfig) (status : String) (message : Bytes)
    (pm : ProtocolMessage) : Except Exn ProtocolMessage :=
  if status ≠ "" then ProtocolMessage.addStatus cfg status message pm else .ok pm

/-- A MAC address, if there is one (`Peer.cpp:178`). -/
def addMacIfGiven (cfg : ProtocolConfig) (pm : ProtocolMessage) :
    Option DlepMac → Except Exn ProtocolMessage
  | some mac => ProtocolMessage.addMac cfg mac pm
  | none => .ok pm

/-- The data items of a simple response. -/
def addStatusAndMac (cfg : ProtocolConfig) (status : String) (message : Bytes)
    (mac : Option DlepMac) (pm : ProtocolMessage) : Except Exn ProtocolMessage := do
  let pm ← addStatusUnlessEmpty cfg status message pm
  addMacIfGiven cfg pm mac

/-- Source: `Peer::send_simple_response` (`Peer.cpp:161`). -/
def sendSimpleResponse (name status : String) (message : Bytes) (mac : Option DlepMac) :
    PeerM Unit := do
  if shouldSendResponse s then
    let pm ← composeChecked d name (addStatusAndMac d.cfg status message mac) "send_simple_response"
    sendSessionMessage pm.msgbuf
  else pure ()

/-- Source: `Peer::handle_response` (`Peer.cpp:265`). -/
def handleResponse (pm : ProtocolMessage) : PeerM Bool := do
  let name ← pm.getSignalName d.cfg
  let destination ← ifPresent (pm.getMac d.cfg)
  if ← acceptResponse s pm (destination.getD []) then return true
  else
    terminate d s "Unexpected_Message" (str name)
    return false

/-! ## Timers -/

/-- The product is one of `unsigned int`, and so is the sum that it is stored in. Source:
`Peer::check_for_activity` (`Peer.cpp:361`). -/
def checkForActivity : PeerM Bool := do
  let p ← get
  if p.peerHeartbeatIntervalSec = 0 then return true
  else
    let activeTime := UInt32.ofNat
      (p.lastReceiveTime + (p.peerHeartbeatIntervalSec * s.heartbeatThreshold).toNat)
    if activeTime.toNat ≤ s.now then
      terminate d s "Timed_Out" []
      return false
    else return true

/-- The loop of `check_for_retransmits` over the queues (`Peer.cpp:427`). -/
def retransmit : List DlepMac → PeerM Unit
  | [] => pure ()
  | mac :: macs => do
    match (← get).responsesPending[mac]? with
    | some (head :: _) =>
      if head.sendTime + s.ackTimeout.toNat < s.now then
        if head.sendTries < s.sendTries then
          sendMessageExpectingResponse s.now head
          retransmit macs
        else terminate d s "Timed_Out" []
      else retransmit macs
    | _ => retransmit macs

/-- Source: `Peer::check_for_retransmits` (`Peer.cpp:399`). -/
def checkForRetransmits : PeerM Unit := do
  retransmit d s (← get).responsesPending.keys

/-- Source: `Peer::handle_acktivity_timeout` (`Peer.cpp:459`), for a timer that has expired. -/
def handleAcktivityTimeout : PeerM Unit := do
  if ← checkForActivity d s then checkForRetransmits d s else pure ()

/-! ## Calls of the local node -/

/-- The message about a destination that `destination_up` composes (`Peer.cpp:567`). -/
def upMessage (name : String) (mac : DlepMac) (items : DataItems) : Except Exn ProtocolMessage := do
  let (_, pm) ← compose d name
    (fun pm => do
      let pm ← ProtocolMessage.addMac d.cfg mac pm
      let pm ← ProtocolMessage.addDataItems d.cfg items pm
      ProtocolMessage.addCommonDataItems d.cfg s.params pm) "destination_up"
  return pm

/-- A message about a destination with the client's data items. -/
def destinationMessage (name : String) (mac : DlepMac) (items : DataItems) (func : String) :
    Except Exn ProtocolMessage := do
  let (_, pm) ← compose d name
    (fun pm => do
      let pm ← ProtocolMessage.addMac d.cfg mac pm
      ProtocolMessage.addDataItems d.cfg items pm) func
  return pm

/-- Source: `Peer::destination_up` (`Peer.cpp:520`). -/
def destinationUp (mac : DlepMac) (items : DataItems) : PeerM Unit := do
  let name := (← get).peerPdp.getNeedsResponse mac
  if name ≠ "" then
    modify fun p => { p with peerPdp := p.peerPdp.setNeedsResponse mac "" }
    let pm ← upMessage d s name mac items
    sendSessionMessage pm.msgbuf
  else
    let pm ← upMessage d s (upMessageName d) mac items
    sendRequest d.cfg s.now pm

/-- Source: `Peer::destination_down` (`Peer.cpp:593`). -/
def destinationDown (mac : DlepMac) (items : DataItems) : PeerM Unit := do
  let pm ← destinationMessage d "Destination_Down" mac items "destination_down"
  sendRequest d.cfg s.now pm

/-- Source: `Peer::destination_update` (`Peer.cpp:620`). -/
def destinationUpdate (mac : DlepMac) (items : DataItems) : PeerM Unit := do
  if (← get).isNotInterested mac then pure ()
  else
    let pm ← destinationMessage d "Destination_Update" mac items "destination_update"
    sendSessionMessage pm.msgbuf

/-- Source: `Peer::peer_update` (`Peer.cpp:653`). -/
def peerUpdate (items : DataItems) : PeerM Bool := do
  if (← get).pstate = .inSession then
    let (_, pm) ← compose d "Session_Update"
      (fun pm => ProtocolMessage.addDataItems d.cfg items pm) "peer_update"
    sendRequest d.cfg s.now pm
    return true
  else return false

/-- Source: `Peer::link_characteristics_request` (`Peer.cpp:687`). -/
def linkCharacteristicsRequest (mac : DlepMac) (items : DataItems) : PeerM Unit := do
  let pm ← destinationMessage d "Link_Characteristics_Request" mac items
    "link_characteristics_request"
  sendRequest d.cfg s.now pm

/-- Source: `Peer::link_characteristics_response` (`Peer.cpp:713`). -/
def linkCharacteristicsResponse (mac : DlepMac) (items : DataItems) : PeerM Unit := do
  if shouldSendResponse s then
    let pm ← destinationMessage d "Link_Characteristics_Response" mac items
      "link_characteristics_response"
    sendSessionMessage pm.msgbuf
  else pure ()

/-- The client may change the data items of a message that opens the session (`Peer.cpp:802`,
`:1086`). -/
def letClientModify (pm : ProtocolMessage) : PeerM ProtocolMessage := do
  let peerId := (← get).peerId
  callClient (.peerInit peerId pm.dataItems)
  match s.peerInit peerId pm.dataItems with
  | none => return pm
  | some items =>
    let (_, pm) ← ProtocolMessage.rebuildFromDataItems d.cfg d.modem items pm
    return pm

/-- The extensions, if there are any (`Peer.cpp:786`, `:1067`). -/
def addExtensionsIfAny (cfg : ProtocolConfig) (extensions : List ExtensionIdType)
    (pm : ProtocolMessage) : Except Exn ProtocolMessage :=
  if extensions = [] then .ok pm else ProtocolMessage.addExtensions cfg extensions pm

/-- The opening message of a router (`Peer.cpp:777`). -/
def initializationMessage : Except Exn ProtocolMessage :=
  composeChecked d "Session_Initialization"
    (fun pm => do
      let pm ← ProtocolMessage.addCommonDataItems d.cfg s.params pm
      addExtensionsIfAny d.cfg d.cfg.getExtensionIds pm) "start_peer"

/-- Source: `Peer::start_peer` (`Peer.cpp:744`). -/
def startPeer : PeerM Unit := do
  let heartbeatMsg ← composeChecked d "Heartbeat"
    (fun pm => ProtocolMessage.addCommonDataItems d.cfg s.params pm) "start_peer"
  modify fun p => { p with heartbeatMsg }
  if d.modem then pure ()
  else
    let pm ← initializationMessage d s
    let pm ← letClientModify d s pm
    sendRequest d.cfg s.now pm

end

end Peer

end Dlep
