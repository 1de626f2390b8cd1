import Dlep.ProtocolConfig
import Dlep.Lib.Folds

/-!
# Loading the protocol configuration

A configuration is a list of modules, each with its data items, signals and status codes, in this
order. The loader enters them one after the other in the tables of `ProtocolConfigImpl` and throws
at the first element that does not fit. An element about a signal that has an id defines it; one
without an id refers to a signal that an earlier element has defined, and changes what is stored
about it.

The XML file is read and checked against `protocol-config.xsd` by another library. The element types
here are what that schema lets through, with its order of the parts, so that a reference from a
signal has no id, and an enumeration has no other texts than its own. `extractId` and
`XmlBoolean.extract` are `extract_node_value` at the two types where it changes what it reads.
-/

namespace Dlep

open Std

/-! ## The elements of a file -/

/-- The texts of an `xs:boolean`. -/
inductive XmlBoolean where
  | wordTrue
  | wordFalse
  | digitOne
  | digitZero
  deriving DecidableEq, Repr

/-- The stream reads a boolean with `std::boolalpha`, for which the digits are not booleans: the
value of a read that fails is false. Source: `ProtocolConfigImpl::extract_node_value`
(`ProtocolConfigImpl.cpp:390`). -/
def XmlBoolean.extract : XmlBoolean → Bool
  | .wordTrue => true
  | .wordFalse | .digitOne | .digitZero => false

/-- An `xs:nonNegativeInteger` read as a `std::uint32_t`: one that is too large gives the largest.
-/
def extractId (n : Nat) : UInt32 := UInt32.ofNat (min n (2 ^ 32 - 1))

/-- `data_item` in a signal (`protocol-config.xsd`, `SignalType`). -/
structure DataItemForSignalElement where
  name : String
  occurs : Occurs
  deriving DecidableEq, Repr

/-- `sub_data_item` (`protocol-config.xsd`, `DataItemType`). -/
structure SubDataItemElement where
  name : String
  id : Option Nat
  occurs : Occurs
  deriving DecidableEq, Repr

/-- The two kinds of references are read by one function. -/
def DataItemForSignalElement.toSubDataItem (el : DataItemForSignalElement) : SubDataItemElement :=
  { name := el.name, id := none, occurs := el.occurs }

structure DataItemElement where
  name : String
  valueType : DataItemValueType
  id : Option Nat
  metric : XmlBoolean
  units : Units
  subDataItems : List SubDataItemElement
  deriving DecidableEq, Repr

/-- Who may send a signal (`protocol-config.xsd`, `SignalSenderType`). -/
inductive SenderElement where
  | modem
  | router
  | both
  deriving DecidableEq, Repr

def SenderElement.flags : SenderElement → UInt32
  | .modem => SignalInfo.modemSendsFlag
  | .router => SignalInfo.routerSendsFlag
  | .both => SignalInfo.modemSendsFlag ||| SignalInfo.routerSendsFlag

structure SignalElement where
  name : String
  id : Option Nat
  message : Option XmlBoolean
  sender : Option SenderElement
  response : Option String
  dataItems : List DataItemForSignalElement
  deriving DecidableEq, Repr

namespace SignalElement

variable (el : SignalElement)

/-- Whether the element says that it is about a message. -/
def isMessage : Bool := (el.message.map XmlBoolean.extract).getD false

/-- The flags the element gives a value for. -/
def haveFlags : UInt32 :=
  (if el.message.isSome then SignalInfo.messageFlag else 0) |||
    (if el.sender.isSome then SenderElement.both.flags else 0)

/-- The values it gives them. -/
def flags : UInt32 :=
  (if el.isMessage then SignalInfo.messageFlag else 0) |||
    (el.sender.map SenderElement.flags).getD 0

end SignalElement

structure StatusCodeElement where
  name : String
  id : Nat
  failureMode : FailureMode
  deriving DecidableEq, Repr

structure ModuleElement where
  name : String
  experimentName : Option String := none
  extensionId : Option Nat := none
  dataItems : List DataItemElement := []
  signals : List SignalElement := []
  statusCodes : List StatusCodeElement := []
  deriving DecidableEq, Repr

/-- A configuration file after its includes are in place. -/
structure ConfigFile where
  version : Option (Nat × Nat)
  signalPrefix : Option String
  signalLengthSize : FieldSize
  signalIdSize : FieldSize
  dataItemLengthSize : FieldSize
  dataItemIdSize : FieldSize
  extensionIdSize : FieldSize
  modules : List ModuleElement

/-! ## The tables -/

/-- The tables of `ProtocolConfigImpl` while they are filled. -/
structure ConfigTables where
  moduleInfoMap : ExtTreeMap String ModuleInfo
  signalMap : Bimap SignalIdType String
  signalInfoMap : ExtTreeMap SignalIdType SignalInfo
  messageMap : Bimap SignalIdType String
  messageInfoMap : ExtTreeMap SignalIdType SignalInfo
  dataItemMap : Bimap DataItemIdType String
  dataItemInfoMap : ExtTreeMap String DataItemInfo
  statusCodeMap : Bimap StatusCodeIdType String
  statusCodeInfoMap : ExtTreeMap StatusCodeIdType StatusCodeInfo

namespace ConfigTables

def empty : ConfigTables where
  moduleInfoMap := ∅
  signalMap := Bimap.empty
  signalInfoMap := ∅
  messageMap := Bimap.empty
  messageInfoMap := ∅
  dataItemMap := Bimap.empty
  dataItemInfoMap := ∅
  statusCodeMap := Bimap.empty
  statusCodeInfoMap := ∅

variable (t : ConfigTables)

/-- The id/name map of the signals, or of the messages. -/
def idNameMap (isMessage : Bool) : Bimap SignalIdType String :=
  if isMessage then t.messageMap else t.signalMap

def idInfoMap (isMessage : Bool) : ExtTreeMap SignalIdType SignalInfo :=
  if isMessage then t.messageInfoMap else t.signalInfoMap

def setIdNameMap (isMessage : Bool) (m : Bimap SignalIdType String) : ConfigTables :=
  if isMessage then { t with messageMap := m } else { t with signalMap := m }

def setIdInfoMap (isMessage : Bool) (m : ExtTreeMap SignalIdType SignalInfo) : ConfigTables :=
  if isMessage then { t with messageInfoMap := m } else { t with signalInfoMap := m }

/-! ### Lookups

Those the loader itself makes. They are the ones of the loaded configuration
(`ProtocolConfig.getSignalId` and so on), on tables that are still being filled. -/

/-- Source: `ProtocolConfigImpl::get_signal_id` (`ProtocolConfigImpl.cpp:1064`). -/
def getSignalId (name : String) : Except Exn (SignalIdType × Bool) :=
  match t.signalMap.right name with
  | some id => .ok (id, true)
  | none =>
    match t.messageMap.right name with
    | some id => .ok (id, false)
    | none => throwStd .badSignalName (str name)

/-- Source: `ProtocolConfigImpl::get_data_item_info` (`ProtocolConfigImpl.cpp:1260`). -/
def getDataItemInfoByName (name : String) : Except Exn DataItemInfo :=
  match (t.dataItemInfoMap.toList.map Prod.snd).filter (fun info => info.name = name) with
  | info :: _ => .ok info
  | [] => throwStd .badDataItemName (str name)

/-- Source: `ProtocolConfigImpl::get_data_item_id` (`ProtocolConfigImpl.cpp:1144`), without a
parent. -/
def getDataItemId (name : String) : Except Exn DataItemIdType :=
  match t.dataItemMap.right name with
  | some id => .ok id
  | none => throwStd .badDataItemName (str name)

/-- Source: `ProtocolConfigImpl::get_data_item_name` (`ProtocolConfigImpl.cpp:1179`), without a
parent. -/
def getDataItemName (id : DataItemIdType) : Except Exn String :=
  match t.dataItemMap.left id with
  | some name => .ok name
  | none => throwStd .badDataItemId (decimal id.toNat)

end ConfigTables

/-- Enter a mapping, unless the id has another name or the name another id. Source:
`ProtocolConfigImpl::insert_id_name_mapping` (`ProtocolConfigImpl.cpp:568`). -/
def insertIdNameMapping (idNameMap : Bimap UInt32 String) (id : UInt32) (name : String)
    (mapName : String) : Except Exn (Bimap UInt32 String) :=
  match (idNameMap.left id).filter (· ≠ name) with
  | some other =>
    throwStd .badProtocolConfig (str mapName ++ str " id " ++ decimal id.toNat ++
      str " has multiple names: " ++ str other ++ str ", " ++ str name)
  | none =>
    match (idNameMap.right name).filter (· ≠ id) with
    | some other =>
      throwStd .badProtocolConfig (str mapName ++ str " name " ++ str name ++
        str " has multiple ids: " ++ decimal id.toNat ++ str ", " ++ decimal other.toNat)
    | none => .ok (idNameMap.insert id name)

namespace ConfigTables

variable (t : ConfigTables)

/-! ### References and data items -/

/-- A reference to a data item: it has the id it is given, or else the one of its definition.
Source: `ProtocolConfigImpl::extract_module_data_item_ref` (`ProtocolConfigImpl.cpp:830`). -/
def extractModuleDataItemRef (parentName : String) (el : SubDataItemElement) :
    Except Exn SubDataItem := do
  match t.getDataItemInfoByName el.name with
  | .error _ =>
    throwStd .badProtocolConfig (str "In " ++ str parentName ++
      str ", undefined reference to data item " ++ str el.name)
  | .ok _ =>
    -- An id does not have to be defined at the top level.
    let topLevelId := (t.getDataItemId el.name).toOption.getD idUndefined
    let id := (el.id.map extractId).getD topLevelId
    if id = idUndefined then
      throwStd .badProtocolConfig (str "In " ++ str parentName ++
        str ", id is undefined for data item reference " ++ str el.name)
    else return { name := el.name, id, occurs := el.occurs }

/-- The id/name map with the mapping of a data item that has an id. -/
def dataItemMapWith (el : DataItemElement) : Except Exn (Bimap DataItemIdType String) :=
  match el.id with
  | some n => insertIdNameMapping t.dataItemMap (extractId n) el.name "data_item"
  | none => .ok t.dataItemMap

/-- Source: `ProtocolConfigImpl::extract_module_data_item` (`ProtocolConfigImpl.cpp:900`). -/
def extractModuleDataItem (el : DataItemElement) : Except Exn ConfigTables := do
  let dataItemMap ← t.dataItemMapWith el
  let t := { t with dataItemMap }
  let subDataItems ← el.subDataItems.mapM (t.extractModuleDataItemRef el.name)
  if el.name ∈ t.dataItemInfoMap then
    throwStd .badProtocolConfig (str "redefinition of data item " ++ str el.name)
  else
    let diInfo : DataItemInfo :=
      { name := el.name
        id := (el.id.map extractId).getD idUndefined
        valueType := el.valueType
        flags := if el.metric.extract then DataItemInfo.metricFlag else 0
        units := el.units
        subDataItems }
    return { t with dataItemInfoMap := t.dataItemInfoMap.insert el.name diInfo }

/-! ### Signals -/

/-- The id of the response of an element, 0 if it names none. -/
def extractResponse (el : SignalElement) : Except Exn SignalIdType :=
  match el.response with
  | none => .ok 0
  | some response =>
    match t.getSignalId response with
    | .ok (id, _) => .ok id
    | .error _ =>
      throwStd .badProtocolConfig (str "undefined response " ++ str response ++
        str " for signal " ++ str el.name)

/-- The table an element about a signal belongs to, its id, and the id/name map of that table with
the mapping of a definition in it. -/
def resolveSignal (el : SignalElement) :
    Except Exn (Bool × SignalIdType × Bimap SignalIdType String) := do
  match el.id with
  | some n =>
    if el.message = none then
      throwStd .badProtocolConfig (str "definition of signal/message " ++ str el.name ++
        str " must specify a message element")
    else if el.sender = none then
      throwStd .badProtocolConfig (str "definition of signal/message " ++ str el.name ++
        str " must specify a sender element")
    else
      let m ← insertIdNameMapping (t.idNameMap el.isMessage) (extractId n) el.name
        (if el.isMessage then "message" else "signal")
      return (el.isMessage, extractId n, m)
  | none =>
    match t.getSignalId el.name with
    | .ok (id, isSignal) => return (!isSignal, id, t.idNameMap !isSignal)
    | .error _ => throwStd .badProtocolConfig (str "undefined signal/message " ++ str el.name)

/-- What is stored about a signal after an element that modifies it. Flags the element does not
mention and the response stay as they are. -/
def modifySignal (el : SignalElement) (dataItems : List SubDataItem) (existing : SignalInfo) :
    SignalInfo :=
  { existing with
    flags :=
      if el.haveFlags ≠ 0 then (existing.flags &&& ~~~el.haveFlags) ||| el.flags
      else existing.flags
    dataItems := existing.dataItems ++ dataItems }

/-- Source: `ProtocolConfigImpl::extract_module_signal` (`ProtocolConfigImpl.cpp:595`). -/
def extractModuleSignal (el : SignalElement) : Except Exn ConfigTables := do
  let responseId ← t.extractResponse el
  let dataItems ← el.dataItems.mapM fun ref =>
    t.extractModuleDataItemRef el.name ref.toSubDataItem
  let (isMessage, id, m) ← t.resolveSignal el
  let t := t.setIdNameMap isMessage m
  match (t.idInfoMap isMessage)[id]? with
  | none =>
    assertThat el.id.isSome "have_id"
    let siginfo : SignalInfo :=
      { name := el.name, id, flags := el.flags, dataItems, responseId }
    return t.setIdInfoMap isMessage ((t.idInfoMap isMessage).insert id siginfo)
  | some existing =>
    return t.setIdInfoMap isMessage
      ((t.idInfoMap isMessage).insert id (modifySignal el dataItems existing))

/-! ### Status codes and modules -/

/-- Source: `ProtocolConfigImpl::extract_module_status_code` (`ProtocolConfigImpl.cpp:974`). -/
def extractModuleStatusCode (el : StatusCodeElement) : Except Exn ConfigTables := do
  let id := extractId el.id
  let statusCodeMap ← insertIdNameMapping t.statusCodeMap id el.name "status_code"
  if id ∈ t.statusCodeInfoMap then
    throwStd .badProtocolConfig (str "redefinition of status code " ++ str el.name)
  else
    let scInfo : StatusCodeInfo := { name := el.name, id, failureMode := el.failureMode }
    return { t with
      statusCodeMap
      statusCodeInfoMap := t.statusCodeInfoMap.insert id scInfo }

/-- Source: `ProtocolConfigImpl::extract_module` (`ProtocolConfigImpl.cpp:514`). -/
def extractModule (el : ModuleElement) : Except Exn ConfigTables := do
  let t ← el.dataItems.foldlM extractModuleDataItem t
  let t ← el.signals.foldlM extractModuleSignal t
  let t ← el.statusCodes.foldlM extractModuleStatusCode t
  if el.name ∈ t.moduleInfoMap then
    throwStd .badProtocolConfig (str "redefinition of module " ++ str el.name)
  else
    let modinfo : ModuleInfo :=
      { name := el.name
        experimentName := el.experimentName.getD ""
        extensionId := (el.extensionId.map extractId).getD 0 }
    return { t with moduleInfoMap := t.moduleInfoMap.insert el.name modinfo }

end ConfigTables

namespace ConfigFile

variable (file : ConfigFile)

/-- The tables after all modules. Source: `ProtocolConfigImpl::extract_protocol_config`
(`ProtocolConfigImpl.cpp:324`). -/
def extractProtocolConfig : Except Exn ConfigTables :=
  file.modules.foldlM ConfigTables.extractModule ConfigTables.empty

/-- Source: `ProtocolConfigImpl::extract_version` (`ProtocolConfigImpl.cpp:446`), whose numbers are
`std::uint16_t`. -/
def extractVersion : UInt16 × UInt16 :=
  let extract (n : Nat) : UInt16 := UInt16.ofNat (min n (2 ^ 16 - 1))
  (file.version.map fun v => (extract v.1, extract v.2)).getD (0, 0)

/-- The elements about data items, signals and status codes, in the order they are read. -/
def dataItemElements : List DataItemElement := file.modules.flatMap ModuleElement.dataItems

def signalElements : List SignalElement := file.modules.flatMap ModuleElement.signals

def statusCodeElements : List StatusCodeElement := file.modules.flatMap ModuleElement.statusCodes

end ConfigFile

end Dlep
