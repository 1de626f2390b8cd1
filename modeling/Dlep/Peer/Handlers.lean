import Dlep.Peer

/-!
# The message handlers

One handler for each message, the dispatch by name, and the loop that cuts messages out of the
received bytes. No handler looks at the state of the session before it acts.
-/

namespace Dlep

open Std Calls

/-- The experiment names of a message, of which there may be none. Source:
`ProtocolMessage::get_experiment_names` (`ProtocolMessage.cpp:882`), with
`get_data_item_values` (`ProtocolMessage.cpp:781`). -/
def ProtocolMessage.getExperimentNames (cfg : ProtocolConfig) (pm : ProtocolMessage) :
    Except Exn (List Bytes) := do
  let id ← cfg.getDataItemId "Experimental_Definition" none
  (pm.dataItems.filter fun di => di.id = id).mapM fun di =>
    match ProtocolMessage.string? di.value with
    | some val => .ok val
    | none => throwStd .dataItemWrongType (str "Experimental_Definition")

namespace Peer

/-! ## IP addresses -/

/-- The first peer that has the address, in the order of the map (`Peer.cpp:2080`). -/
def ownerAmong (di : DataItem) : List PeerData → Bytes
  | [] => []
  | pd :: pds => if pd.findIpDataItem di ≠ [] then pd.findIpDataItem di else ownerAmong di pds

/-- Who has the address already? The local node is asked first. -/
def ipOwner (d : DlepView) (p : Peer) (di : DataItem) : Bytes :=
  if d.localPdp.findIpDataItem di ≠ [] then d.localPdp.findIpDataItem di
  else ownerAmong di (d.peers.map fun pd => pd.getD p.peerPdp)

section

variable [AddressText] (d : DlepView) (s : Surroundings)

/-- The reason why the addresses cannot be added or dropped, or an empty text. Source:
`Peer::validate_ip_data_items` (`Peer.cpp:2062`). -/
def validateIpDataItems (p : Peer) (existing : DataItems) : DataItems → Except Exn Bytes
  | [] => .ok []
  | ndi :: items => do
    if ← d.cfg.isIpaddr ndi.id none then
      if ndi.ipFlags &&& DataItem.ipFlagAdd ≠ 0 then
        if ipOwner d p ndi ≠ [] then
          return str "cannot add " ++ (← ndi.toString d.cfg none) ++ str ", " ++ ipOwner d p ndi ++
            str " already has it"
        else validateIpDataItems p existing items
      else if (ndi.findIpDataItem existing).isSome then validateIpDataItems p existing items
      else return str "cannot remove " ++ (← ndi.toString d.cfg none) ++ str ", it is not there"
    else validateIpDataItems p existing items

/-! ## The handshake -/

/-- Source: `Peer::get_info` (`Peer.cpp:1051`). -/
def getInfo (p : Peer) : PeerInfo where
  peerId := p.peerId
  peerType := p.peerType
  extensions := p.mutualExtensions
  experimentNames := p.experimentNames
  dataItems := p.peerPdp.getDataItems
  destinations := p.peerPdp.getDestinations
  heartbeatInterval := p.peerHeartbeatInterval

/-- The seconds of an interval, rounded to the nearest. The addition is one of `unsigned int`
(`Peer.cpp:1116`). -/
def toSeconds (units : Units) (interval : UInt32) : UInt32 :=
  match units with
  | .milliseconds => (interval + 500) / 1000
  | .microseconds => (interval + 500000) / 1000000
  | _ => interval

/-- Source: `Peer::store_heartbeat_interval` (`Peer.cpp:1106`). -/
def storeHeartbeatInterval (pm : ProtocolMessage) : PeerM Unit := do
  let interval ← pm.getHeartbeatInterval d.cfg
  modify fun p => { p with peerHeartbeatInterval := interval, peerHeartbeatIntervalSec := interval }
  let info ← d.cfg.getDataItemInfoByName "Heartbeat_Interval"
  modify fun p => { p with peerHeartbeatIntervalSec := toSeconds info.units interval }

/-- The optional peer type (`Peer.cpp:1158`, `:1274`). -/
def storePeerType (pm : ProtocolMessage) : PeerM Unit := do
  match ← ifPresent (pm.getPeerType d.cfg) with
  | some peerType => modify fun p => { p with peerType }
  | none => pure ()

/-- The optional experiment names (`Peer.cpp:1169`, `:1285`). -/
def storeExperimentNames (pm : ProtocolMessage) : PeerM Unit :=
  match pm.getExperimentNames d.cfg with
  | .ok experimentNames => modify fun p => { p with experimentNames }
  | .error (.std .dataItemNotPresent _) => pure ()
  | .error (.std .badDataItemName _) => pure ()
  | .error e => throw e

/-- What both sides of the handshake store of the peer. -/
def storePeerProperties (pm : ProtocolMessage) : PeerM Unit := do
  storePeerType d pm
  storeExperimentNames d pm
  storeHeartbeatInterval d pm

/-- The response of a modem, before its client sees it (`Peer.cpp:1060`). -/
def initializationResponse (p : Peer) : Except Exn ProtocolMessage := do
  let (_, pm) ← compose d "Session_Initialization_Response"
    (fun pm => do
      let pm ← ProtocolMessage.addCommonDataItems d.cfg s.params pm
      let pm ← addExtensionsIfAny d.cfg p.mutualExtensions pm
      ProtocolMessage.addAllowedDataItems d.cfg d.localPdp.getDataItems pm)
    "send_peer_initialization_response"
  return pm

/-- Source: `Peer::send_peer_initialization_response` (`Peer.cpp:1063`). -/
def sendPeerInitializationResponse : PeerM Unit := do
  let pm ← initializationResponse d s (← get)
  let pm ← letClientModify d s pm
  if shouldSendResponse s then sendSessionMessage pm.msgbuf else pure ()

/-- Source: `PeerData::sendAllDestinations` (`InfoBaseMgr.cpp:291`). -/
def sendAllDestinations : PeerM Unit :=
  d.localPdp.destinationData.toList.forM fun dest => destinationUp d s dest.1 dest.2.getAllDataItems

/-- Record the extensions that both sides have, in the order of the peer's list (`Peer.cpp:1186`).
-/
def addMutualExtensions (pm : ProtocolMessage) : PeerM Unit := do
  match ← ifPresent (pm.getExtensions d.cfg) with
  | some extensions =>
    let common := extensions.filter fun extid => d.cfg.getExtensionIds.contains extid
    modify fun p => { p with mutualExtensions := p.mutualExtensions ++ common }
  | none => pure ()

/-- Take over the extensions of a response (`Peer.cpp:1302`). -/
def setMutualExtensions (pm : ProtocolMessage) : PeerM Unit := do
  match ← ifPresent (pm.getExtensions d.cfg) with
  | some mutualExtensions => modify fun p => { p with mutualExtensions }
  | none => pure ()

/-- The session is up, and the client is told (`Peer.cpp:1219`, `:1319`). -/
def enterSession (info : Peer → PeerInfo) : PeerM Unit := do
  setState .inSession
  callClient (.peerUp (info (← get)))
  sendAllDestinations d s

/-- Advertise the peer itself (`Peer.cpp:1235`). -/
def advertisePeer : PeerM Unit :=
  if d.destAdvertEnabled then
    match s.peerMac with
    | some mac => emit (.addDestination mac)
    | none => pure ()
  else pure ()

/-- Source: `Peer::handle_peer_initialization` (`Peer.cpp:1141`). -/
def handlePeerInitialization (pm : ProtocolMessage) : PeerM Unit := do
  let err ← validateIpDataItems d (← get) [] pm.dataItems
  if err ≠ [] then terminate d s "Inconsistent_Data" err
  else
    storePeerProperties d pm
    addMutualExtensions d pm
    sendPeerInitializationResponse d s
    enterSession d s getInfo
    advertisePeer d s

/-- Source: `Peer::handle_peer_initialization_response` (`Peer.cpp:1262`). -/
def handlePeerInitializationResponse (pm : ProtocolMessage) : PeerM Unit := do
  if ← handleResponse d s pm then
    storePeerProperties d pm
    setMutualExtensions d pm
    let _ ← onPdp (PeerData.updateDataItems d.cfg pm.dataItems)
    enterSession d s fun p => { getInfo p with dataItems := pm.dataItems }
  else pure ()

/-! ## The session -/

/-- Source: `Peer::handle_peer_update` (`Peer.cpp:1333`). -/
def handlePeerUpdate (pm : ProtocolMessage) : PeerM Unit := do
  let p ← get
  let err ← validateIpDataItems d p p.peerPdp.ipDataItems pm.dataItems
  if err ≠ [] then terminate d s "Inconsistent_Data" err
  else
    let status ← onPdp (PeerData.updateDataItems d.cfg pm.dataItems)
    callClient (.peerUpdate p.peerId pm.dataItems)
    sendSimpleResponse d s "Session_Update_Response" status [] none

/-- Source: `Peer::handle_peer_update_response` (`Peer.cpp:1356`). -/
def handlePeerUpdateResponse (pm : ProtocolMessage) : PeerM Unit := do
  let _ ← handleResponse d s pm

/-- Source: `Peer::handle_peer_termination` (`Peer.cpp:1362`). -/
def handlePeerTermination : PeerM Unit := do
  sendSimpleResponse d s "Session_Termination_Response" "" [] none
  stopPeer d

/-- Source: `Peer::handle_peer_termination_response` (`Peer.cpp:1371`). -/
def handlePeerTerminationResponse (pm : ProtocolMessage) : PeerM Unit := do
  if (← get).pstate = .terminating then
    let _ ← handleResponse d s pm
    stopPeer d
  else pure ()

/-! ## Destinations -/

/-- Add a destination, which is not there: `assert(ok)` (`Peer.cpp:1446`, `:1571`). -/
def addDestinationChecked (mac : DlepMac) (items : DataItems) : PeerM Unit := do
  let ok ← onPdp (PeerData.addDestination d.cfg mac items)
  assertThat ok "ok"

/-- Ask the client whether it takes the destination; an empty answer is a yes (`Peer.cpp:1434`,
`:1601`). -/
def askClient (mac : DlepMac) (items : DataItems) : PeerM String := do
  let peerId := (← get).peerId
  callClient (.destinationUp peerId mac items)
  let status := s.destinationUp peerId mac items
  return if status = "" then "Success" else status

/-- Ask the client about a destination, and store it if the client takes it (`Peer.cpp:1427`). -/
def admitDestination (mac : DlepMac) (items : DataItems) : PeerM String := do
  regainInterest mac
  let status ← askClient s mac items
  if status = "Success" then
    addDestinationChecked d mac items
    return status
  else return status

/-- The destination is new: its addresses are checked first (`Peer.cpp:1409`). The status is `none`
if the session was terminated. -/
def takeDestination (mac : DlepMac) (items : DataItems) : PeerM (Option String) := do
  let err ← validateIpDataItems d (← get) [] items
  if err ≠ [] then
    terminate d s "Inconsistent_Data" err
    return none
  else return some (← admitDestination d s mac items)

/-- The status of a destination that is up: a known one is refused (`Peer.cpp:1405`). -/
def upStatus (mac : DlepMac) (items : DataItems) : PeerM (Option String) := do
  if (← get).peerPdp.validDestination mac then return some "Invalid_Message"
  else takeDestination d s mac items

/-- The response to a destination that is up, if the message has one (`Peer.cpp:1461`). -/
def answerUp (name status : String) (mac : DlepMac) : PeerM Unit := do
  let responseName ← d.cfg.getMessageResponseName name
  if responseName ≠ "" then sendSimpleResponse d s responseName status [] (some mac) else pure ()

/-- Source: `Peer::handle_destination_up` (`Peer.cpp:1388`). -/
def handleDestinationUp (pm : ProtocolMessage) : PeerM Unit := do
  let mac ← pm.getMac d.cfg
  let name ← pm.getSignalName d.cfg
  match ← upStatus d s mac pm.dataItems with
  | none => pure ()
  | some status => answerUp d s name status mac

/-- What the status of a response asks for: is the response a success? (`Peer.cpp:1487`) -/
def checkUpStatus (pm : ProtocolMessage) (mac : DlepMac) : PeerM Bool := do
  match ← ifPresent (pm.getStatus d.cfg) with
  | none => return true
  | some status =>
    if status = "Not_Interested" then
      notInterested mac
      return false
    else return status = "Success"

/-- Source: `Peer::handle_destination_up_response` (`Peer.cpp:1475`). -/
def handleDestinationUpResponse (pm : ProtocolMessage) : PeerM Unit := do
  let mac ← pm.getMac d.cfg
  let _ ← pm.getSignalName d.cfg
  if ← handleResponse d s pm then
    if ← checkUpStatus d pm mac then
      if d.modem then pure () else handleDestinationUp d s pm
    else pure ()
  else pure ()

/-- The answer to an announced destination: later, when the client brings it up, or at once if it is
refused (`Peer.cpp:1614`). -/
def answerAnnounce (responseName status : String) (mac : DlepMac) : PeerM Unit :=
  if status = "Success" then
    modify fun p => { p with peerPdp := p.peerPdp.setNeedsResponse mac responseName }
  else sendSimpleResponse d s responseName status [] (some mac)

/-- Source: `Peer::handle_destination_announce` (`Peer.cpp:1530`). -/
def handleDestinationAnnounce (pm : ProtocolMessage) : PeerM Unit := do
  let mac ← pm.getMac d.cfg
  let name ← pm.getSignalName d.cfg
  let responseName ← d.cfg.getMessageResponseName name
  assertThat (responseName ≠ "") "response_name != \"\""
  if (← get).peerPdp.validDestination mac then
    answerAnnounce d s responseName "Invalid_Message" mac
  else
    regainInterest mac
    addDestinationChecked d mac pm.dataItems
    match d.localPdp.getDestinationData mac with
    | some dd =>
      modify fun p => { p with peerPdp := p.peerPdp.setNeedsResponse mac responseName }
      destinationUp d s mac dd.getAllDataItems
    | none =>
      let status ← askClient s mac pm.dataItems
      answerAnnounce d s responseName status mac

/-- Source: `Peer::handle_destination_update` (`Peer.cpp:1642`). -/
def handleDestinationUpdate (pm : ProtocolMessage) : PeerM Unit := do
  let mac ← pm.getMac d.cfg
  let p ← get
  match p.peerPdp.getDestinationData mac with
  | none => terminate d s "Invalid_Message" []
  | some dd =>
    let items ← pm.getDataItemsNoMac d.cfg
    let err ← validateIpDataItems d p dd.ipDataItems items
    if err ≠ [] then terminate d s "Inconsistent_Data" err
    else
      onPdp (PeerData.onDestination mac (DestinationData.update d.cfg items))
      callClient (.destinationUpdate p.peerId mac items)

/-- Was the destination the peer's, or ours, which the peer then does not want? (`Peer.cpp:1684`) -/
def dropDestination (mac : DlepMac) : PeerM Bool := do
  if ← onPdp (PeerData.removeDestination mac) then return true
  else if d.localPdp.validDestination mac then
    notInterested mac
    return true
  else return false

/-- Source: `Peer::handle_destination_down` (`Peer.cpp:1675`). -/
def handleDestinationDown (pm : ProtocolMessage) : PeerM Unit := do
  let mac ← pm.getMac d.cfg
  if ← dropDestination d mac then
    let items ← pm.getDataItemsNoMac d.cfg
    callClient (.destinationDown (← get).peerId mac items)
    sendSimpleResponse d s "Destination_Down_Response" "Success" [] (some mac)
  else terminate d s "Invalid_Destination" []

/-- Source: `Peer::handle_destination_down_response` (`Peer.cpp:1719`). -/
def handleDestinationDownResponse (pm : ProtocolMessage) : PeerM Unit := do
  let _ ← pm.getMac d.cfg
  let _ ← handleResponse d s pm

/-! ## Link characteristics -/

/-- The metrics among the data items (`Peer.cpp:1759`). -/
def metricsOf (cfg : ProtocolConfig) (items : DataItems) : Except Exn DataItems :=
  items.filterM fun di => cfg.isMetric di.id none

/-- Source: `Peer::handle_link_characteristics_request` (`Peer.cpp:1732`). -/
def handleLinkCharacteristicsRequest (pm : ProtocolMessage) : PeerM Unit := do
  let mac ← pm.getMac d.cfg
  let items ← pm.getDataItemsNoMac d.cfg
  match d.localPdp.getDestinationData mac with
  | none => terminate d s "Invalid_Destination" []
  | some dd =>
    if items = [] then
      let metrics ← metricsOf d.cfg dd.getAllDataItems
      linkCharacteristicsResponse d s mac metrics
    else callClient (.linkcharRequest (← get).peerId mac items)

/-- Source: `Peer::handle_link_characteristics_response` (`Peer.cpp:1777`). -/
def handleLinkCharacteristicsResponse (pm : ProtocolMessage) : PeerM Unit := do
  let mac ← pm.getMac d.cfg
  if ← handleResponse d s pm then
    match (← get).peerPdp.getDestinationData mac with
    | none => terminate d s "Invalid_Destination" []
    | some _ =>
      let items ← pm.getDataItemsNoMac d.cfg
      onPdp (PeerData.onDestination mac do
        DestinationData.update d.cfg items
        (← get).log d.cfg)
      callClient (.linkcharReply (← get).peerId mac items)
  else pure ()

/-! ## Dispatch -/

/-- Source: `Peer::check_status_code_failure` (`Peer.cpp:1825`). -/
def checkStatusCodeFailure (pm : ProtocolMessage) : PeerM Bool := do
  let name ← pm.getSignalName d.cfg
  if name = "Session_Termination" ∨ name = "Session_Termination_Response" then return false
  else
    match ← ifPresent (pm.getStatus d.cfg) with
    | none => return false
    | some status =>
      let info ← d.cfg.getStatusCodeInfo status
      if info.failureMode = .terminate then
        terminate d s status []
        return true
      else return false

/-- The handler of a message, by its name (`Peer.cpp:1893`). -/
def dispatch (name : String) (pm : ProtocolMessage) : PeerM Unit :=
  match name with
  | "Heartbeat" => pure ()
  | "Destination_Update" => handleDestinationUpdate d s pm
  | "Destination_Up" =>
    if d.modem then handleDestinationAnnounce d s pm else handleDestinationUp d s pm
  | "Destination_Up_Response" => handleDestinationUpResponse d s pm
  | "Destination_Announce" => handleDestinationAnnounce d s pm
  | "Destination_Announce_Response" => handleDestinationUpResponse d s pm
  | "Destination_Down" => handleDestinationDown d s pm
  | "Destination_Down_Response" => handleDestinationDownResponse d s pm
  | "Link_Characteristics_Request" => handleLinkCharacteristicsRequest d s pm
  | "Link_Characteristics_Response" => handleLinkCharacteristicsResponse d s pm
  | "Session_Update" => handlePeerUpdate d s pm
  | "Session_Update_Response" => handlePeerUpdateResponse d s pm
  | "Session_Initialization" => handlePeerInitialization d s pm
  | "Session_Initialization_Response" => handlePeerInitializationResponse d s pm
  | "Session_Termination" => handlePeerTermination d s
  | "Session_Termination_Response" => handlePeerTerminationResponse d s pm
  | _ => pure ()

/-- The message that a buffer holds, or the reason why it is not valid. -/
def received (buf : Bytes) : Except Exn (Bytes × ProtocolMessage) :=
  ProtocolMessage.parseAndValidateBuffer d.cfg buf false (!d.modem) (str "handle_peer_signal") {}

/-- Source: `Peer::handle_peer_signal` (`Peer.cpp:1862`). -/
def handlePeerSignal (buf : Bytes) : PeerM Unit := do
  let (err, pm) ← received d buf
  if err ≠ [] then terminate d s "Invalid_Message" err
  else if ← checkStatusCodeFailure d s pm then pure ()
  else
    let name ← pm.getSignalName d.cfg
    dispatch d s name pm

/-- Handle the first message in the buffer, if all of it is there (`Peer.cpp:997`). -/
def handleNext : PeerM Bool := do
  match ← ProtocolMessage.isCompleteMessage d.cfg (← get).signalRecv with
  | none => return false
  | some size =>
    handlePeerSignal d s ((← get).signalRecv.take size)
    modify fun p => { p with signalRecv := p.signalRecv.drop size }
    return true

/-- Handle all complete messages in the buffer (`Peer.cpp:987`). -/
def handleComplete : Nat → PeerM Unit
  | 0 => throw .outOfFuel
  | n + 1 => do
    if ← handleNext d s then handleComplete n else pure ()

/-- Bytes arrive (`Peer.cpp:977`). -/
def fillBuffer (bytes : Bytes) : PeerM Unit :=
  modify fun p => { p with lastReceiveTime := s.now, signalRecv := p.signalRecv ++ bytes }

/-- Source: `Peer::handle_session_receive` (`Peer.cpp:942`), for a read without an error. -/
def handleSessionReceive (bytes : Bytes) : PeerM Unit := do
  fillBuffer s bytes
  handleComplete d s ((← get).signalRecv.length + 1)

end

end Peer

end Dlep
