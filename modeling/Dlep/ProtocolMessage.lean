import Dlep.DataItem

/-!
# Protocol messages

A `ProtocolMessage` is built by appending data items to a header whose length field is patched in
place, or filled by parsing a buffer. Signals, which go over UDP, start with a prefix; messages go
over the TCP session, where `isCompleteMessage` finds their end.
-/

namespace Dlep

open ByteReader

/-- The configuration parameters of the client that the library reads. Source:
`DlepClient::get_config_parameter` (`DlepClient.h`); `none` is a parameter that does not exist. -/
structure ClientParameters where
  heartbeatInterval : UInt32
  peerType : Option Bytes
  peerFlags : Option UInt32

/-- Source: `ProtocolMessage` (`ProtocolMessage.h:19`). -/
structure ProtocolMessage where
  msgLenIndex : Nat := 0
  headerLength : Nat := 0
  msgbuf : Bytes := []
  signalId : SignalIdType := 0
  signalIdInitialized : Bool := false
  isSignal : Bool := false
  dataItems : DataItems := []

namespace ProtocolMessage

section

variable (cfg : ProtocolConfig)

/-! ## Building -/

/-- Source: `ProtocolMessage::get_signal_name` (`ProtocolMessage.cpp:510`). -/
def getSignalName (pm : ProtocolMessage) : Except Exn String :=
  if ¬ pm.signalIdInitialized then
    throwStd .signalIdNotInitialized (decimal pm.signalId.toNat)
  else if pm.isSignal then cfg.getSignalName pm.signalId
  else cfg.getMessageName pm.signalId

/-- Source: `ProtocolMessage::get_signal_id` (`ProtocolMessage.cpp:500`). -/
def getSignalId (pm : ProtocolMessage) : Except Exn SignalIdType :=
  if ¬ pm.signalIdInitialized then
    throwStd .signalIdNotInitialized (decimal pm.signalId.toNat)
  else .ok pm.signalId

/-- Source: `ProtocolMessage::add_header` (`ProtocolMessage.cpp:27`). -/
def addHeader (msgName : String) (pm : ProtocolMessage) : Except Exn ProtocolMessage := do
  let (signalId, isSignal) ← cfg.getSignalId msgName
  let start := if isSignal then pm.msgbuf ++ str cfg.signalPrefix else pm.msgbuf
  let withId ← serializeField 4 signalId.toNat cfg.signalIdSize start
  let msgbuf ← serializeField 4 0 cfg.signalLengthSize withId
  return { pm with
    signalId, isSignal, msgbuf, signalIdInitialized := true
    msgLenIndex := withId.length, headerLength := msgbuf.length }

/-- Source: `ProtocolMessage::update_message_length` (`ProtocolMessage.cpp:453`). -/
def updateMessageLength (pm : ProtocolMessage) : Except Exn ProtocolMessage := do
  assertThat (pm.msgbuf.length ≥ pm.headerLength) "msgbuf.size() >= header_length"
  assertThat (pm.msgLenIndex < pm.msgbuf.length) "msgbuf.begin() + msg_len_index < msgbuf.end()"
  let size ← vectorSize pm.msgbuf
  let msgbuf ← serializeAt 8 (size - pm.headerLength) cfg.signalLengthSize pm.msgbuf pm.msgLenIndex
  return { pm with msgbuf }

/-- The names are looked up for the log. Source: `ProtocolMessage::add_data_item`
(`ProtocolMessage.cpp:66`). -/
def addDataItem (di : DataItem) (pm : ProtocolMessage) : Except Exn ProtocolMessage := do
  let dibuf ← di.serialize cfg
  let pm ← updateMessageLength cfg { pm with msgbuf := pm.msgbuf ++ dibuf }
  let _ ← cfg.getDataItemName di.id none
  let _ ← pm.getSignalName cfg
  return pm

/-- Source: `ProtocolMessage::add_data_items` (`ProtocolMessage.cpp:84`). -/
def addDataItems : DataItems → ProtocolMessage → Except Exn ProtocolMessage
  | [], pm => .ok pm
  | di :: items, pm => do
    let pm ← addDataItem cfg di pm
    addDataItems items pm

/-- Source: `ProtocolMessage::add_allowed_data_items` (`ProtocolMessage.cpp:93`). -/
def addAllowedDataItems (items : DataItems) (pm : ProtocolMessage) :
    Except Exn ProtocolMessage := do
  let name ← pm.getSignalName cfg
  let siginfo ← cfg.getSignalInfo name
  addDataItems cfg (items.filter fun di => siginfo.dataItems.any fun difs => difs.id = di.id) pm

/-- A data item of the given name. -/
def addNamed (name : String) (value : DataItemValue) (pm : ProtocolMessage) :
    Except Exn ProtocolMessage := do
  let di ← DataItem.ofName cfg name value
  addDataItem cfg di pm

/-- Source: `ProtocolMessage::add_version` (`ProtocolMessage.cpp:113`). -/
def addVersion (pm : ProtocolMessage) : Except Exn ProtocolMessage :=
  addNamed cfg "Version" (.a2U16 cfg.version.1 cfg.version.2) pm

/-- The interval is converted to the configured units, in an `unsigned int`. Source:
`ProtocolMessage::add_heartbeat_interval` (`ProtocolMessage.cpp:121`). -/
def addHeartbeatInterval (client : ClientParameters) (pm : ProtocolMessage) :
    Except Exn ProtocolMessage := do
  let info ← cfg.getDataItemInfoByName "Heartbeat_Interval"
  let interval :=
    match info.units with
    | .milliseconds => client.heartbeatInterval * 1000
    | .microseconds => client.heartbeatInterval * 1000000
    | _ => client.heartbeatInterval
  match info.valueType with
  | .u16 => addNamed cfg "Heartbeat_Interval" (.u16 interval.toUInt16) pm
  | .u32 => addNamed cfg "Heartbeat_Interval" (.u32 interval) pm
  | _ => return pm

/-- Is Peer Type optional for this signal? Only the first reference counts
(`ProtocolMessage.cpp:196`). -/
def peerTypeOptional (pm : ProtocolMessage) : Except Exn Bool := do
  let name ← pm.getSignalName cfg
  let siginfo ← cfg.getSignalInfo name
  let id ← cfg.getDataItemId "Peer_Type" none
  return match siginfo.dataItems.find? fun difs => difs.id = id with
    | some difs => difs.occurs = .zeroOrOne || difs.occurs = .zeroOrMore
    | none => false

/-- Source: `ProtocolMessage::add_peer_type` (`ProtocolMessage.cpp:172`). -/
def addPeerType (client : ClientParameters) (pm : ProtocolMessage) :
    Except Exn ProtocolMessage := do
  let optional ← if client.peerType.isSome then pure false else peerTypeOptional cfg pm
  if optional then return pm
  else
    let peerType := client.peerType.getD []
    let ty ← cfg.getDataItemValueType "Peer_Type"
    if ty = .string then addNamed cfg "Peer_Type" (.string peerType) pm
    else addNamed cfg "Peer_Type" (.u8String (client.peerFlags.getD 0).toUInt8 peerType) pm

/-- Source: `ProtocolMessage::add_experiment_names` (`ProtocolMessage.cpp:248`). -/
def addExperimentNames (pm : ProtocolMessage) : Except Exn ProtocolMessage :=
  cfg.getExperimentNames.foldlM (fun pm en =>
    addNamed cfg "Experimental_Definition" (.string (str en)) pm) pm

/-- The status to try in place of one that is not configured (`ProtocolMessage.cpp:289`). -/
def remapStatus (status : String) : String :=
  if status = "Invalid_Message" then "Invalid_Data"
  else if status = "Invalid_Destination" ∨ status = "Inconsistent_Data" then "Invalid_Message"
  else if status = "Invalid_Data" then "Invalid_Message"
  else if status = "Not_Interested" then "Request_Denied"
  else "Unknown_Message"

/-- The loop of `add_status`. A status is remapped at most four times before the loop returns to
one it has tried, and then it does not end (`ProtocolMessage.cpp:276`). -/
def findStatusCodeId : Nat → String → Except Exn StatusCodeIdType
  | 0, _ => .error .outOfFuel
  | n + 1, status =>
    match cfg.getStatusCodeId status with
    | .ok id => .ok id
    | .error _ => findStatusCodeId n (remapStatus status)

/-- Source: `ProtocolMessage::add_status` (`ProtocolMessage.cpp:264`). -/
def addStatus (status : String) (reason : Bytes) (pm : ProtocolMessage) :
    Except Exn ProtocolMessage := do
  let id ← findStatusCodeId cfg 5 status
  let ty ← cfg.getDataItemValueType "Status"
  if ty = .u8 then addNamed cfg "Status" (.u8 id.toUInt8) pm
  else addNamed cfg "Status" (.u8String id.toUInt8 reason) pm

/-- Source: `ProtocolMessage::add_extensions` (`ProtocolMessage.cpp:342`). -/
def addExtensions (extensions : List ExtensionIdType) (pm : ProtocolMessage) :
    Except Exn ProtocolMessage :=
  addNamed cfg "Extensions_Supported" (.vExtid extensions) pm

/-- Source: `ProtocolMessage::add_mac` (`ProtocolMessage.cpp:353`). -/
def addMac (mac : DlepMac) (pm : ProtocolMessage) : Except Exn ProtocolMessage :=
  addNamed cfg "MAC_Address" (.dlepmac mac) pm

/-- Source: the loop of `ProtocolMessage::add_common_data_items` (`ProtocolMessage.cpp:373`). -/
def addCommonFor (client : ClientParameters) :
    List SubDataItem → ProtocolMessage → Except Exn ProtocolMessage
  | [], pm => .ok pm
  | difs :: refs, pm => do
    let name ← cfg.getDataItemName difs.id none
    let pm ←
      if name = "Version" then addVersion cfg pm
      else if name = "Heartbeat_Interval" then addHeartbeatInterval cfg client pm
      else if name = "Peer_Type" then addPeerType cfg client pm
      else if name = "Experimental_Definition" then addExperimentNames cfg pm
      else if name = "Status" then addStatus cfg "Success" [] pm
      else .ok pm
    addCommonFor client refs pm

/-- Source: `ProtocolMessage::add_common_data_items` (`ProtocolMessage.cpp:363`). -/
def addCommonDataItems (client : ClientParameters) (pm : ProtocolMessage) :
    Except Exn ProtocolMessage := do
  let name ← pm.getSignalName cfg
  let siginfo ← cfg.getSignalInfo name
  addCommonFor cfg client siginfo.dataItems pm

/-- Source: `ProtocolMessage::clear_data_items` (`ProtocolMessage.cpp:403`). -/
def clearDataItems (pm : ProtocolMessage) : Except Exn ProtocolMessage := do
  assertThat (0 < pm.headerLength) "header_length > 0"
  let pm ← updateMessageLength cfg { pm with msgbuf := padTo pm.headerLength pm.msgbuf }
  return { pm with dataItems := [] }

/-! ## Framing -/

/-- The size of the first message in the buffer, if all of it is there. Sizes are `size_t`. Source:
`ProtocolMessage::is_complete_message` (`ProtocolMessage.cpp:465`). -/
def isCompleteMessage (buf : Bytes) : Except Exn (Option Nat) :=
  let headerSize := cfg.signalIdSize.1 + cfg.signalLengthSize.1
  if buf.length < headerSize then .ok none
  else do
    let (_, c) ← deserializeField 4 cfg.signalIdSize (.whole 0 buf)
    let (signalLen, _) ← deserializeField 8 cfg.signalLengthSize c
    let msgSize := (headerSize + signalLen) % 2 ^ 64
    return if buf.length ≥ msgSize then some msgSize else none

end

/-! ## Parsing -/

section

variable [AddressText] (cfg : ProtocolConfig)

/-- One round of the parsing loop: look at the header, deserialize, and print for the log
(`ProtocolMessage.cpp:601`). -/
def parseDataItem : Decoder DataItem := fun c => do
  let (_, c₁) ← deserializeField 4 cfg.dataItemIdSize c
  let _ ← deserializeField 8 cfg.dataItemLengthSize c₁
  let (di, c') ← DataItem.deserialize cfg none c
  let _ ← di.toString cfg none
  return (di, c')

/-- The parsing loop: the data items it has recorded when it ends, and how it ends. -/
def parseDataItems : Nat → Cursor → DataItems × Except Exn Unit
  | 0, _ => ([], .error .outOfFuel)
  | n + 1, c =>
    if c.left ≤ 0 then ([], .ok ())
    else
      match parseDataItem cfg c with
      | .error e => ([], .error e)
      | .ok (di, c') =>
        let (items, r) := parseDataItems n c'
        (di :: items, r)

/-- The `try` block of `parse` (`ProtocolMessage.cpp:588`). -/
def parseBody (pm : ProtocolMessage) (c : Cursor) : ProtocolMessage × Except Exn Unit :=
  match deserializeField 4 cfg.signalIdSize c with
  | .error e => (pm, .error e)
  | .ok (id, c) =>
    let pm := { pm with signalId := UInt32.ofNat id, signalIdInitialized := true }
    match deserializeField 8 cfg.signalLengthSize c with
    | .error e => (pm, .error e)
    | .ok (_, c) =>
      match pm.getSignalName cfg with
      | .error e => (pm, .error e)
      | .ok _ =>
        let (items, r) := parseDataItems cfg (c.bytes.length + 1) c
        ({ pm with dataItems := items }, r)

/-- The error of a signal that does not start with the prefix (`ProtocolMessage.cpp:563`). -/
def prefixMismatch (signalPrefix : Bytes) : Bytes → Bytes → Option Bytes
  | ch :: expected, b :: msg =>
    if b ≠ ch then
      some (str "signal prefix " ++ signalPrefix ++ str " mismatch: " ++ [b] ++ str " != " ++ [ch])
    else prefixMismatch signalPrefix expected msg
  | _, _ => none

/-- An error with the log prefix behind it. -/
def withLogPrefix (logPrefix err : Bytes) : Bytes :=
  if err ≠ [] then err ++ str " " ++ logPrefix else err

/-- Parse the message's own buffer. An exception becomes the error that is returned; the data items
recorded before it stay. Source: `ProtocolMessage::parse` (`ProtocolMessage.cpp:538`). -/
def parse (logPrefix : Bytes) (pm : ProtocolMessage) : Except Exn (Bytes × ProtocolMessage) :=
  let pm := { pm with dataItems := [] }
  let signalPrefix := if pm.isSignal then str cfg.signalPrefix else []
  if pm.isSignal ∧ pm.msgbuf.length ≤ signalPrefix.length then
    .ok (withLogPrefix logPrefix
      (str "signal is too short to have expected prefix " ++ signalPrefix), pm)
  else
    match prefixMismatch signalPrefix signalPrefix pm.msgbuf with
    | some err => .ok (withLogPrefix logPrefix err, pm)
    | none =>
      match parseBody cfg pm (.whole signalPrefix.length (pm.msgbuf.drop signalPrefix.length)) with
      | (pm, .ok _) => .ok ([], pm)
      | (pm, .error (.std _ what)) => .ok (withLogPrefix logPrefix what, pm)
      | (_, .error e) => .error e

/-- Parse a buffer. Source: `ProtocolMessage::parse` (`ProtocolMessage.cpp:526`). -/
def parseBuffer (buf : Bytes) (isSignal : Bool) (logPrefix : Bytes) (pm : ProtocolMessage) :
    Except Exn (Bytes × ProtocolMessage) :=
  parse cfg logPrefix { pm with msgbuf := buf, isSignal }

end

section

variable (cfg : ProtocolConfig)

/-- Check the sender, then the number and kind of the data items, then the data items themselves. -/
def validateContent (modemSender : Bool) (siginfo : SignalInfo) (pm : ProtocolMessage) :
    Except Exn Bytes :=
  let senderFlag := if modemSender then SignalInfo.modemSendsFlag else SignalInfo.routerSendsFlag
  if siginfo.flags &&& senderFlag = 0 then
    .ok (str "cannot be sent by " ++ if modemSender then str "modem" else str "router")
  else do
    let err ← validateOccurrences cfg pm.dataItems siginfo.dataItems none
    if err ≠ [] then return err else validateEach cfg none pm.dataItems

/-- Source: `ProtocolMessage::validate` (`ProtocolMessage.cpp:653`). -/
def validate (modemSender : Bool) (pm : ProtocolMessage) : Except Exn Bytes := do
  let signalName ← pm.getSignalName cfg
  let siginfo ← cfg.getSignalInfo signalName
  let err ← validateContent cfg modemSender siginfo pm
  return if err ≠ [] then str signalName ++ str " " ++ err else err

end

section

variable [AddressText] (cfg : ProtocolConfig)

/-- Source: `ProtocolMessage::parse_and_validate` (`ProtocolMessage.cpp:732`). -/
def parseAndValidate (modemSender : Bool) (logPrefix : Bytes) (pm : ProtocolMessage) :
    Except Exn (Bytes × ProtocolMessage) := do
  let (err, pm) ← parse cfg logPrefix pm
  if err ≠ [] then return (err, pm)
  else
    let err ← validate cfg modemSender pm
    return (err, pm)

/-- Source: `ProtocolMessage::parse_and_validate` (`ProtocolMessage.cpp:718`). -/
def parseAndValidateBuffer (buf : Bytes) (isSignal modemSender : Bool) (logPrefix : Bytes)
    (pm : ProtocolMessage) : Except Exn (Bytes × ProtocolMessage) :=
  parseAndValidate cfg modemSender logPrefix { pm with msgbuf := buf, isSignal }

/-- Source: `ProtocolMessage::rebuild_from_data_items` (`ProtocolMessage.cpp:419`). -/
def rebuildFromDataItems (modemSender : Bool) (items : DataItems) (pm : ProtocolMessage) :
    Except Exn (Bytes × ProtocolMessage) := do
  if ¬ pm.signalIdInitialized then
    throwStd .signalIdNotInitialized (decimal pm.signalId.toNat)
  else
    let pm ← clearDataItems cfg pm
    let pm ← addDataItems cfg items pm
    parseAndValidate cfg modemSender (str "rebuild_from_data_items") pm

end

/-! ## Retrieving -/

section

variable (cfg : ProtocolConfig)

/-- The value of the first data item of a name, `get` being the wanted alternative of the variant.
Source: `ProtocolMessage::get_data_item_value` (`ProtocolMessage.cpp:750`). -/
def getDataItemValue {α : Type} (name : String) (get : DataItemValue → Option α)
    (pm : ProtocolMessage) : Except Exn α := do
  let id ← cfg.getDataItemId name none
  match pm.dataItems.find? fun di => di.id = id with
  | none => throwStd .dataItemNotPresent (str name)
  | some di =>
    match get di.value with
    | some val => return val
    | none => throwStd .dataItemWrongType (str name)

/-- Source: `ProtocolMessage::get_data_item_exists` (`ProtocolMessage.cpp:806`). -/
def getDataItemExists (name : String) (pm : ProtocolMessage) : Except Exn Bool := do
  let id ← cfg.getDataItemId name none
  return pm.dataItems.any fun di => di.id = id

end

/-- The alternatives of the variant that the getters ask for. -/
def dlepmac? : DataItemValue → Option DlepMac
  | .dlepmac v => some v
  | _ => none

def string? : DataItemValue → Option Bytes
  | .string v => some v
  | _ => none

def u8? : DataItemValue → Option UInt8
  | .u8 v => some v
  | _ => none

def u16? : DataItemValue → Option UInt16
  | .u16 v => some v
  | _ => none

def u32? : DataItemValue → Option UInt32
  | .u32 v => some v
  | _ => none

def u8String? : DataItemValue → Option (UInt8 × Bytes)
  | .u8String f1 f2 => some (f1, f2)
  | _ => none

def vExtid? : DataItemValue → Option (List ExtensionIdType)
  | .vExtid f1 => some f1
  | _ => none

section

variable (cfg : ProtocolConfig)

/-- Source: `ProtocolMessage::get_mac` (`ProtocolMessage.cpp:822`). -/
def getMac (pm : ProtocolMessage) : Except Exn DlepMac :=
  getDataItemValue cfg "MAC_Address" dlepmac? pm

/-- Source: `ProtocolMessage::get_peer_type` (`ProtocolMessage.cpp:829`). -/
def getPeerType (pm : ProtocolMessage) : Except Exn Bytes := do
  let ty ← cfg.getDataItemValueType "Peer_Type"
  if ty = .string then getDataItemValue cfg "Peer_Type" string? pm
  else
    let val ← getDataItemValue cfg "Peer_Type" u8String? pm
    return val.2

/-- Source: `ProtocolMessage::get_status` (`ProtocolMessage.cpp:855`). -/
def getStatus (pm : ProtocolMessage) : Except Exn String := do
  let ty ← cfg.getDataItemValueType "Status"
  let id ←
    if ty = .u8 then do
      let val ← getDataItemValue cfg "Status" u8? pm
      pure val.toUInt32
    else do
      let val ← getDataItemValue cfg "Status" u8String? pm
      pure val.1.toUInt32
  cfg.getStatusCodeName id

/-- Source: `ProtocolMessage::get_heartbeat_interval` (`ProtocolMessage.cpp:888`). -/
def getHeartbeatInterval (pm : ProtocolMessage) : Except Exn UInt32 := do
  let ty ← cfg.getDataItemValueType "Heartbeat_Interval"
  match ty with
  | .u16 => do
    let val ← getDataItemValue cfg "Heartbeat_Interval" u16? pm
    return val.toUInt32
  | .u32 => getDataItemValue cfg "Heartbeat_Interval" u32? pm
  | _ => throwStd .dataItemWrongType (str "Heartbeat_Interval")

/-- Source: `ProtocolMessage::get_extensions` (`ProtocolMessage.cpp:915`). -/
def getExtensions (pm : ProtocolMessage) : Except Exn (List ExtensionIdType) :=
  getDataItemValue cfg "Extensions_Supported" vExtid? pm

/-- Source: the condition of `ProtocolMessage::get_metrics_and_ipaddrs`
(`ProtocolMessage.cpp:962`). -/
def isMetricOrIpaddr (di : DataItem) : Except Exn Bool := do
  if ← cfg.isMetric di.id none then return true else cfg.isIpaddr di.id none

/-- Source: `ProtocolMessage::get_metrics_and_ipaddrs` (`ProtocolMessage.cpp:959`). -/
def getMetricsAndIpaddrs (pm : ProtocolMessage) : Except Exn DataItems :=
  pm.dataItems.filterM (isMetricOrIpaddr cfg)

/-- Source: `ProtocolMessage::get_data_items_no_mac` (`ProtocolMessage.cpp:976`). -/
def getDataItemsNoMac (pm : ProtocolMessage) : Except Exn DataItems := do
  let macId ← cfg.getDataItemId "MAC_Address" none
  return pm.dataItems.filter fun di => di.id ≠ macId

end

end ProtocolMessage

end Dlep
