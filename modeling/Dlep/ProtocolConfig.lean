import Dlep.Basic
import Dlep.Lib.Bimap
import Dlep.Lib.OrderedMap

/-!
# The protocol configuration

Which signals, messages, data items and status codes there are is not part of the code: the library
reads it from configuration files. `ProtocolConfig` is what `ProtocolConfigImpl` holds after it has
read them, and this module is its lookups. The fields that are propositions are what the loader
leaves behind: each information table belongs to its id/name map, and references name data items
that are defined.
-/

namespace Dlep

open Std

/-- Source: `DataItemValueType` (`DataItem.h:294`). -/
inductive DataItemValueType where
  | blank
  | u8
  | u16
  | u32
  | u64
  | vU8
  | vU32
  | a2U16
  | string
  | dlepmac
  | u8String
  | u8Ipv4
  | u8Ipv6
  | u16VU8
  | vExtid
  | u8Ipv4U16
  | u8Ipv6U16
  | u8Ipv4U8
  | u8Ipv6U8
  | u8U8
  | u64U64
  | subDataItems
  | u16SubDataItems
  deriving DecidableEq, Repr

/-- How many times a data item can occur: `"1"`, `"0-1"`, `"1+"`, `"0+"`. -/
inductive Occurs where
  | one
  | zeroOrOne
  | oneOrMore
  | zeroOrMore
  deriving DecidableEq, Repr

/-- The units of a data item, `none` if it has none (`protocol-config.xsd:49`). -/
inductive Units where
  | none
  | seconds
  | milliseconds
  | microseconds
  | bitsPerSecond
  | percentage
  | octets
  | count
  deriving DecidableEq, Repr

inductive FailureMode where
  | continue
  | terminate
  deriving DecidableEq, Repr

/-- A reference to a data item from the message or the data item that carries it. Source:
`SubDataItem` (`DataItem.h:341`). -/
structure SubDataItem where
  name : String
  id : DataItemIdType
  occurs : Occurs
  deriving DecidableEq, Repr

/-- Source: `DataItemInfo` (`DataItem.h:358`). -/
structure DataItemInfo where
  name : String
  id : DataItemIdType
  valueType : DataItemValueType
  flags : UInt32
  units : Units
  subDataItems : List SubDataItem
  deriving DecidableEq, Repr

def DataItemInfo.metricFlag : UInt32 := 1

/-- Source: `ProtocolConfig::SignalInfo` (`ProtocolConfig.h:170`). -/
structure SignalInfo where
  name : String
  id : SignalIdType
  flags : UInt32
  dataItems : List SubDataItem
  responseId : SignalIdType
  deriving DecidableEq, Repr

def SignalInfo.messageFlag : UInt32 := 1
def SignalInfo.modemSendsFlag : UInt32 := 2
def SignalInfo.routerSendsFlag : UInt32 := 4

/-- Source: `ProtocolConfig::StatusCodeInfo` (`ProtocolConfig.h:229`). -/
structure StatusCodeInfo where
  name : String
  id : StatusCodeIdType
  failureMode : FailureMode
  deriving DecidableEq, Repr

/-- Source: `ProtocolConfig::ModuleInfo` (`ProtocolConfig.h:261`). -/
structure ModuleInfo where
  name : String
  experimentName : String
  extensionId : ExtensionIdType
  deriving DecidableEq, Repr

/-- A field size in bytes; the schema allows 1 to 8 (`protocol-config.xsd:170`). -/
abbrev FieldSize := { n : Nat // 1 ≤ n ∧ n ≤ 8 }

/-- A field may have two bytes. -/
theorem FieldSize.two_fits : 1 ≤ 2 ∧ 2 ≤ 8 := by decide

/-- A field may have eight bytes. -/
theorem FieldSize.eight_fits : 1 ≤ 8 ∧ 8 ≤ 8 := by decide

/-- The tables of a loaded configuration. Source: `ProtocolConfigImpl`
(`ProtocolConfigImpl.h:85`). -/
structure ProtocolConfig where
  version : UInt16 × UInt16
  signalPrefix : String
  signalLengthSize : FieldSize
  signalIdSize : FieldSize
  dataItemLengthSize : FieldSize
  dataItemIdSize : FieldSize
  extensionIdSize : FieldSize
  moduleInfoMap : ExtTreeMap String ModuleInfo
  signalMap : Bimap SignalIdType String
  signalInfoMap : ExtTreeMap SignalIdType SignalInfo
  messageMap : Bimap SignalIdType String
  messageInfoMap : ExtTreeMap SignalIdType SignalInfo
  dataItemMap : Bimap DataItemIdType String
  dataItemInfoMap : ExtTreeMap String DataItemInfo
  statusCodeMap : Bimap StatusCodeIdType String
  statusCodeInfoMap : ExtTreeMap StatusCodeIdType StatusCodeInfo
  /-- A message is in its id/name map exactly when it is in its information table. -/
  signalInfo_name : ∀ id, (signalInfoMap[id]?).map SignalInfo.name = signalMap.left id
  messageInfo_name : ∀ id, (messageInfoMap[id]?).map SignalInfo.name = messageMap.left id
  statusCodeInfo_name :
    ∀ id, (statusCodeInfoMap[id]?).map StatusCodeInfo.name = statusCodeMap.left id
  /-- The information about a data item is filed under its name. -/
  dataItemInfo_name : ∀ (name : String) (info : DataItemInfo),
    dataItemInfoMap[name]? = some info → info.name = name
  /-- A data item with an id is defined. -/
  dataItemMap_defined : ∀ id name, dataItemMap.left id = some name → name ∈ dataItemInfoMap
  /-- A reference from another data item is to a defined data item. -/
  subDataItem_defined : ∀ (name : String) (info : DataItemInfo),
    dataItemInfoMap[name]? = some info →
    ∀ sdi ∈ info.subDataItems, sdi.name ∈ dataItemInfoMap

namespace ProtocolConfig

variable (cfg : ProtocolConfig)

/-- The id of a signal or message, and whether it is a signal. Source:
`ProtocolConfigImpl::get_signal_id` (`ProtocolConfigImpl.cpp:1064`). -/
def getSignalId (name : String) : Except Exn (SignalIdType × Bool) :=
  match cfg.signalMap.right name with
  | some id => .ok (id, true)
  | none =>
    match cfg.messageMap.right name with
    | some id => .ok (id, false)
    | none => throwStd .badSignalName (str name)

/-- Source: `ProtocolConfigImpl::get_signal_name` (`ProtocolConfigImpl.cpp:1099`). -/
def getSignalName (id : SignalIdType) : Except Exn String :=
  match cfg.signalMap.left id with
  | some name => .ok name
  | none => throwStd .badSignalId (decimal id.toNat)

/-- Source: `ProtocolConfigImpl::get_message_name` (`ProtocolConfigImpl.cpp:1111`). -/
def getMessageName (id : SignalIdType) : Except Exn String :=
  match cfg.messageMap.left id with
  | some name => .ok name
  | none => throwStd .badSignalId (decimal id.toNat)

/-- The information about the signals, then the messages, of a name. Source:
`ProtocolConfigImpl::get_signal_info` (`ProtocolConfigImpl.cpp:1327`). -/
def getSignalInfos (name : String) : List SignalInfo :=
  (cfg.signalInfoMap.toList.map Prod.snd).filter (fun info => info.name = name) ++
    (cfg.messageInfoMap.toList.map Prod.snd).filter (fun info => info.name = name)

/-- Source: `ProtocolConfigImpl::get_signal_info` (`ProtocolConfigImpl.cpp:1315`). -/
def getSignalInfo (name : String) : Except Exn SignalInfo :=
  match cfg.getSignalInfos name with
  | info :: _ => .ok info
  | [] => throwStd .badSignalName (str name)

/-- The name of the response to a message, `""` if it has none. Source:
`ProtocolConfigImpl::get_message_response_name` (`ProtocolConfigImpl.cpp:1123`). -/
def getMessageResponseName (msgName : String) : Except Exn String := do
  let siginfo ← cfg.getSignalInfo msgName
  if siginfo.responseId = 0 then return ""
  else if siginfo.flags &&& SignalInfo.messageFlag ≠ 0 then cfg.getMessageName siginfo.responseId
  else cfg.getSignalName siginfo.responseId

/-- The id of a name in the list of a parent, unless it is not set there. -/
def subDataItemId? (parent : Option DataItemInfo) (name : String) : Option DataItemIdType :=
  parent.bind fun info =>
    (info.subDataItems.find? fun sdi => sdi.name = name ∧ sdi.id ≠ idUndefined).map SubDataItem.id

/-- Source: `ProtocolConfigImpl::get_data_item_id` (`ProtocolConfigImpl.cpp:1144`). -/
def getDataItemId (name : String) (parent : Option DataItemInfo) : Except Exn DataItemIdType :=
  match subDataItemId? parent name with
  | some id => .ok id
  | none =>
    match cfg.dataItemMap.right name with
    | some id => .ok id
    | none => throwStd .badDataItemName (str name)

/-- The name of an id in the list of a parent. -/
def subDataItemName? (parent : Option DataItemInfo) (id : DataItemIdType) : Option String :=
  parent.bind fun info => (info.subDataItems.find? fun sdi => sdi.id = id).map SubDataItem.name

/-- Source: `ProtocolConfigImpl::get_data_item_name` (`ProtocolConfigImpl.cpp:1179`). -/
def getDataItemName (id : DataItemIdType) (parent : Option DataItemInfo) : Except Exn String :=
  match subDataItemName? parent id with
  | some name => .ok name
  | none =>
    match cfg.dataItemMap.left id with
    | some name => .ok name
    | none => throwStd .badDataItemId (decimal id.toNat)

/-- Source: `ProtocolConfigImpl::get_data_item_info` (`ProtocolConfigImpl.cpp:1260`). -/
def getDataItemInfoByName (name : String) : Except Exn DataItemInfo :=
  match (cfg.dataItemInfoMap.toList.map Prod.snd).filter (fun info => info.name = name) with
  | info :: _ => .ok info
  | [] => throwStd .badDataItemName (str name)

/-- Source: `ProtocolConfigImpl::get_data_item_info` (`ProtocolConfigImpl.cpp:1301`). -/
def getDataItemInfo (id : DataItemIdType) (parent : Option DataItemInfo) :
    Except Exn DataItemInfo := do
  let name ← cfg.getDataItemName id parent
  cfg.getDataItemInfoByName name

/-- Source: `ProtocolConfigImpl::get_data_item_value_type` (`ProtocolConfigImpl.cpp:1241`). -/
def getDataItemValueType (name : String) : Except Exn DataItemValueType :=
  match cfg.dataItemInfoMap[name]? with
  | some info => .ok info.valueType
  | none => throwStd .badDataItemName (str name)

/-- Source: `ProtocolConfigImpl::get_status_code_id` (`ProtocolConfigImpl.cpp:1211`). -/
def getStatusCodeId (name : String) : Except Exn StatusCodeIdType :=
  match cfg.statusCodeMap.right name with
  | some id => .ok id
  | none => throwStd .badStatusCodeName (str name)

/-- Source: `ProtocolConfigImpl::get_status_code_name` (`ProtocolConfigImpl.cpp:1223`). -/
def getStatusCodeName (id : StatusCodeIdType) : Except Exn String :=
  match cfg.statusCodeMap.left id with
  | some name => .ok name
  | none => throwStd .badStatusCodeId (decimal id.toNat)

/-- Source: `ProtocolConfigImpl::get_status_code_info` (`ProtocolConfigImpl.cpp:1387`). -/
def getStatusCodeInfo (name : String) : Except Exn StatusCodeInfo :=
  match (cfg.statusCodeInfoMap.toList.map Prod.snd).filter (fun info => info.name = name) with
  | info :: _ => .ok info
  | [] => throwStd .badSignalName (str name)

/-- Source: `ProtocolConfigImpl::get_module_info` (`ProtocolConfigImpl.cpp:1435`). -/
def getModuleInfo (name : String) : Except Exn ModuleInfo :=
  match (cfg.moduleInfoMap.toList.map Prod.snd).filter (fun info => info.name = name) with
  | info :: _ => .ok info
  | [] => throwStd .badModuleName (str name)

/-- Source: `ProtocolConfigImpl::get_extension_ids` (`ProtocolConfigImpl.cpp:1476`). -/
def getExtensionIds : List ExtensionIdType :=
  ((cfg.moduleInfoMap.toList.map Prod.snd).filter fun info => info.extensionId ≠ 0).map
    ModuleInfo.extensionId

/-- Source: `ProtocolConfigImpl::get_experiment_names` (`ProtocolConfigImpl.cpp:1492`). -/
def getExperimentNames : List String :=
  ((cfg.moduleInfoMap.toList.map Prod.snd).filter fun info => info.experimentName ≠ "").map
    ModuleInfo.experimentName

/-- Source: `ProtocolConfigImpl::is_metric` (`ProtocolConfigImpl.cpp:1508`). -/
def isMetric (id : DataItemIdType) (parent : Option DataItemInfo) : Except Exn Bool := do
  if id = idUndefined then return false
  else
    let info ← cfg.getDataItemInfo id parent
    return info.flags &&& DataItemInfo.metricFlag ≠ 0

/-- Source: `ProtocolConfigImpl::is_ipaddr` (`ProtocolConfigImpl.cpp:1522`). -/
def isIpaddr (id : DataItemIdType) (parent : Option DataItemInfo) : Except Exn Bool := do
  if id = idUndefined then return false
  else
    let info ← cfg.getDataItemInfo id parent
    return ([.u8Ipv4, .u8Ipv6, .u8Ipv4U16, .u8Ipv6U16, .u8Ipv4U8, .u8Ipv6U8] :
      List DataItemValueType).contains info.valueType

/-! ## What the lookups return

A scan of a `std::map` for the entries of a name finds the entry filed under that name, because the
entries carry their name. -/

/-- The data item found under a name is the entry of the map. -/
theorem getDataItemInfoByName_eq_ok {name : String} {info : DataItemInfo} :
    cfg.getDataItemInfoByName name = .ok info ↔ cfg.dataItemInfoMap[name]? = some info := by
  have hscan := OrderedMap.filter_toList_eq cfg.dataItemInfoMap (fun info => info.name = name) name
    (fun j a h => by simp [cfg.dataItemInfo_name j a h])
  unfold getDataItemInfoByName
  rw [hscan]
  cases cfg.dataItemInfoMap[name]? <;> simp [throwStd]

/-- A data item whose name can be looked up is defined. -/
theorem exists_getDataItemInfo {id : DataItemIdType} {parent : Option DataItemInfo} {name : String}
    (hparent : ∀ info ∈ parent, cfg.getDataItemInfoByName info.name = .ok info)
    (h : cfg.getDataItemName id parent = .ok name) :
    ∃ info, cfg.getDataItemInfo id parent = .ok info ∧ info.name = name := by
  have hmem : name ∈ cfg.dataItemInfoMap := by
    unfold getDataItemName subDataItemName? at h
    split at h
    · next n hn =>
      obtain ⟨info, hinfo, hfind⟩ := Option.bind_eq_some_iff.1 hn
      obtain ⟨sdi, hsdi, rfl⟩ := Option.map_eq_some_iff.1 hfind
      have := cfg.subDataItem_defined _ _
        (cfg.getDataItemInfoByName_eq_ok.1 (hparent info hinfo)) sdi
        (List.mem_of_find?_eq_some hsdi)
      simpa [← Except.ok.inj h] using this
    · split at h
      · next n hn => exact Except.ok.inj h ▸ cfg.dataItemMap_defined _ _ hn
      · simp [throwStd] at h
  obtain ⟨info, hinfo⟩ := Option.isSome_iff_exists.1 (ExtTreeMap.mem_iff_isSome_getElem?.1 hmem)
  refine ⟨info, ?_, cfg.dataItemInfo_name _ _ hinfo⟩
  rw [getDataItemInfo, h, ok_bind]
  exact cfg.getDataItemInfoByName_eq_ok.2 hinfo

/-- The data item found under an id, in whatever parent, is also the entry of the map under its
own name. -/
theorem getElem?_of_getDataItemInfo {id : DataItemIdType}
    {parent : Option DataItemInfo} {info : DataItemInfo}
    (h : cfg.getDataItemInfo id parent = .ok info) :
    cfg.dataItemInfoMap[info.name]? = some info := by
  obtain ⟨name, _, hinfo⟩ := bind_eq_ok.1 h
  have hget := cfg.getDataItemInfoByName_eq_ok.1 hinfo
  rwa [cfg.dataItemInfo_name _ _ hget]

/-- The name found for the id of a signal is the one the bimap pairs with it. -/
theorem getSignalName_eq_ok {id : SignalIdType} {name : String} :
    cfg.getSignalName id = .ok name ↔ cfg.signalMap.left id = some name := by
  unfold getSignalName
  cases cfg.signalMap.left id <;> simp [throwStd]

/-- The name found for the id of a message is the one the bimap pairs with it. -/
theorem getMessageName_eq_ok {id : SignalIdType} {name : String} :
    cfg.getMessageName id = .ok name ↔ cfg.messageMap.left id = some name := by
  unfold getMessageName
  cases cfg.messageMap.left id <;> simp [throwStd]

/-- What is configured for the id of a signal or a message. -/
def infoOfId (isSignal : Bool) (id : SignalIdType) :
    Option SignalInfo :=
  if isSignal then cfg.signalInfoMap[id]? else cfg.messageInfoMap[id]?

/-- No reference list names an id twice. -/
structure DistinctReferences : Prop where
  signal : ∀ (isSignal : Bool) (id : SignalIdType) (info : SignalInfo),
    cfg.infoOfId isSignal id = some info → (info.dataItems.map SubDataItem.id).Nodup
  dataItem : ∀ (name : String) (info : DataItemInfo), cfg.dataItemInfoMap[name]? = some info →
    (info.subDataItems.map SubDataItem.id).Nodup

/-- No name is that of a signal and of a message. -/
def NamesDisjoint : Prop :=
  ∀ name, cfg.signalMap.right name = none ∨ cfg.messageMap.right name = none

/-- Scanning a table for the name of an id finds the entry of that id. -/
theorem filter_name_eq {m : ExtTreeMap SignalIdType SignalInfo} {names : Bimap SignalIdType String}
    (hnames : ∀ id, (m[id]?).map SignalInfo.name = names.left id) {id : SignalIdType}
    {name : String} (hid : names.right name = some id) :
    (m.toList.map Prod.snd).filter (fun info => info.name = name) = (m[id]?).toList := by
  refine OrderedMap.filter_toList_eq m _ id fun j a hj => ?_
  have hleft : names.left j = some a.name := by rw [← hnames, hj]; rfl
  simp only [decide_eq_true_eq]
  constructor
  · rintro rfl
    have := names.left_eq_some_iff_right.1 hleft
    exact Option.some.inj (this.symm.trans hid)
  · rintro rfl
    have := names.left_eq_some_iff_right.2 hid
    exact Option.some.inj (hleft.symm.trans this)

/-- A name that the bimap does not know is the name of no entry. -/
theorem filter_name_eq_nil {m : ExtTreeMap SignalIdType SignalInfo}
    {names : Bimap SignalIdType String}
    (hnames : ∀ id, (m[id]?).map SignalInfo.name = names.left id) {name : String}
    (hno : names.right name = none) :
    (m.toList.map Prod.snd).filter (fun info => info.name = name) = [] := by
  rw [List.filter_eq_nil_iff]
  intro info hinfo hname
  obtain ⟨⟨j, _⟩, hmem, rfl⟩ := List.mem_map.1 hinfo
  have hj := ExtTreeMap.mem_toList_iff_getElem?_eq_some.1 hmem
  have hleft : names.left j = some name := by
    rw [← hnames, hj]
    simpa using hname
  rw [names.left_eq_some_iff_right.1 hleft] at hno
  cases hno

/-- The name of a signal leads back to the entry under its id. -/
theorem getSignalInfo_of_signal {id : SignalIdType} {name : String}
    (hleft : cfg.signalMap.left id = some name) :
    ∃ siginfo, cfg.infoOfId true id = some siginfo ∧ cfg.getSignalInfo name = .ok siginfo := by
  have hright := cfg.signalMap.left_eq_some_iff_right.1 hleft
  obtain ⟨siginfo, hinfo, _⟩ := Option.map_eq_some_iff.1 ((cfg.signalInfo_name id).trans hleft)
  refine ⟨siginfo, by simp [infoOfId, hinfo], ?_⟩
  simp [getSignalInfo, getSignalInfos, filter_name_eq cfg.signalInfo_name hright, hinfo]

/-- The name of a message leads back to the entry under its id, if no signal has that name. -/
theorem getSignalInfo_of_message (hnames : cfg.NamesDisjoint) {id : SignalIdType} {name : String}
    (hleft : cfg.messageMap.left id = some name) :
    ∃ siginfo, cfg.infoOfId false id = some siginfo ∧ cfg.getSignalInfo name = .ok siginfo := by
  have hright := cfg.messageMap.left_eq_some_iff_right.1 hleft
  have hno : cfg.signalMap.right name = none := (hnames name).resolve_right (by simp [hright])
  obtain ⟨siginfo, hinfo, _⟩ := Option.map_eq_some_iff.1 ((cfg.messageInfo_name id).trans hleft)
  refine ⟨siginfo, by simp [infoOfId, hinfo], ?_⟩
  simp [getSignalInfo, getSignalInfos, filter_name_eq_nil cfg.signalInfo_name hno,
    filter_name_eq cfg.messageInfo_name hright, hinfo]

/-! ## A configuration from its definitions -/

/-- Everything the modules of a configuration define, references of extension modules included. -/
structure Definitions where
  signals : List SignalInfo := []
  messages : List SignalInfo := []
  dataItems : List DataItemInfo := []
  statusCodes : List StatusCodeInfo := []
  modules : List ModuleInfo := []

/-- The data items that have an id of their own, and not only in a parent. -/
def Definitions.topLevel (defs : Definitions) : List DataItemInfo :=
  defs.dataItems.filter fun info => info.id ≠ idUndefined

/-- What the loader checks: nothing is defined twice, and references are to defined data items. -/
def Definitions.Consistent (defs : Definitions) : Prop :=
  ((defs.signals.map SignalInfo.id).Nodup ∧ (defs.signals.map SignalInfo.name).Nodup) ∧
  ((defs.messages.map SignalInfo.id).Nodup ∧ (defs.messages.map SignalInfo.name).Nodup) ∧
  ((defs.topLevel.map DataItemInfo.id).Nodup ∧ (defs.dataItems.map DataItemInfo.name).Nodup) ∧
  ((defs.statusCodes.map StatusCodeInfo.id).Nodup ∧
    (defs.statusCodes.map StatusCodeInfo.name).Nodup) ∧
  ∀ info ∈ defs.dataItems, ∀ sdi ∈ info.subDataItems, sdi.name ∈
    defs.dataItems.map DataItemInfo.name

instance (defs : Definitions) : Decidable defs.Consistent :=
  inferInstanceAs (Decidable (_ ∧ _))

/-- The id/name map of a list of definitions. -/
def nameMap {α : Type} (id : α → UInt32) (name : α → String) (as : List α)
    (hid : (as.map id).Nodup) (hname : (as.map name).Nodup) : Bimap UInt32 String where
  entries := as.map fun a => (id a, name a)
  left_nodup := by rwa [List.map_map]
  right_nodup := by rwa [List.map_map]

/-- The information table and the id/name map of one list agree. -/
theorem map_name_eq_left {α : Type} (id : α → UInt32) (name : α → String) (as : List α)
    (hid : (as.map id).Nodup) (hname : (as.map name).Nodup) (k : UInt32) :
    ((ExtTreeMap.ofList (as.map fun a => (id a, a)))[k]?).map name =
      (nameMap id name as hid hname).left k := by
  rw [OrderedMap.getElem?_ofList_map id hid, Bimap.left, nameMap, List.find?_map]
  simp [Function.comp_def]

/-- The configuration with the given field sizes, for lengths and for ids. -/
def ofDefinitions (lengthSize idSize : FieldSize) (defs : Definitions) (h : defs.Consistent) :
    ProtocolConfig where
  version := (0, 0)
  signalPrefix := "DLEP"
  signalLengthSize := lengthSize
  signalIdSize := idSize
  dataItemLengthSize := lengthSize
  dataItemIdSize := idSize
  extensionIdSize := idSize
  moduleInfoMap := ExtTreeMap.ofList (defs.modules.map fun m => (m.name, m))
  signalMap := nameMap SignalInfo.id SignalInfo.name defs.signals h.1.1 h.1.2
  signalInfoMap := ExtTreeMap.ofList (defs.signals.map fun i => (i.id, i))
  messageMap := nameMap SignalInfo.id SignalInfo.name defs.messages h.2.1.1 h.2.1.2
  messageInfoMap := ExtTreeMap.ofList (defs.messages.map fun i => (i.id, i))
  dataItemMap := nameMap DataItemInfo.id DataItemInfo.name defs.topLevel h.2.2.1.1
    (h.2.2.1.2.sublist (List.filter_sublist.map _))
  dataItemInfoMap := ExtTreeMap.ofList (defs.dataItems.map fun i => (i.name, i))
  statusCodeMap := nameMap StatusCodeInfo.id StatusCodeInfo.name defs.statusCodes h.2.2.2.1.1
    h.2.2.2.1.2
  statusCodeInfoMap := ExtTreeMap.ofList (defs.statusCodes.map fun i => (i.id, i))
  signalInfo_name := map_name_eq_left _ _ _ _ _
  messageInfo_name := map_name_eq_left _ _ _ _ _
  statusCodeInfo_name := map_name_eq_left _ _ _ _ _
  dataItemInfo_name name info hinfo := by
    rw [OrderedMap.getElem?_ofList_map DataItemInfo.name h.2.2.1.2] at hinfo
    simpa using List.find?_some hinfo
  dataItemMap_defined id name hname := by
    obtain ⟨info, hinfo, heq⟩ := List.mem_map.1 ((Bimap.left_eq_some_iff _).1 hname)
    rw [ExtTreeMap.mem_ofList, List.contains_iff_mem, List.map_map]
    exact List.mem_map.2 ⟨info, List.mem_of_mem_filter hinfo, (Prod.ext_iff.1 heq).2⟩
  subDataItem_defined name info hinfo sdi hsdi := by
    rw [OrderedMap.getElem?_ofList_map DataItemInfo.name h.2.2.1.2] at hinfo
    rw [ExtTreeMap.mem_ofList, List.contains_iff_mem, List.map_map]
    exact h.2.2.2.2 info (List.mem_of_find?_eq_some hinfo) sdi hsdi

/-- The references of a configuration are distinct if those of its definitions are. -/
theorem ofDefinitions_distinctReferences {lengthSize idSize : FieldSize} {defs : Definitions}
    {h : defs.Consistent}
    (hsignals : ∀ info ∈ defs.signals ++ defs.messages, (info.dataItems.map SubDataItem.id).Nodup)
    (hitems : ∀ info ∈ defs.dataItems, (info.subDataItems.map SubDataItem.id).Nodup) :
    (ofDefinitions lengthSize idSize defs h).DistinctReferences where
  signal isSignal id info hinfo := by
    cases isSignal with
    | true =>
      change (ExtTreeMap.ofList (defs.signals.map fun i => (i.id, i)))[id]? = some info at hinfo
      rw [OrderedMap.getElem?_ofList_map SignalInfo.id h.1.1] at hinfo
      exact hsignals info (List.mem_append_left _ (List.mem_of_find?_eq_some hinfo))
    | false =>
      change (ExtTreeMap.ofList (defs.messages.map fun i => (i.id, i)))[id]? = some info at hinfo
      rw [OrderedMap.getElem?_ofList_map SignalInfo.id h.2.1.1] at hinfo
      exact hsignals info (List.mem_append_right _ (List.mem_of_find?_eq_some hinfo))
  dataItem name info hinfo := by
    change (ExtTreeMap.ofList (defs.dataItems.map fun i => (i.name, i)))[name]? = some info at hinfo
    rw [OrderedMap.getElem?_ofList_map DataItemInfo.name h.2.2.1.2] at hinfo
    exact hitems info (List.mem_of_find?_eq_some hinfo)

/-- Definitions whose signals and messages have different names give a configuration in which they
are disjoint. -/
theorem ofDefinitions_namesDisjoint {lengthSize idSize : FieldSize} {defs : Definitions}
    {h : defs.Consistent} (hnames : ∀ s ∈ defs.signals, ∀ m ∈ defs.messages, s.name ≠ m.name) :
    (ofDefinitions lengthSize idSize defs h).NamesDisjoint := by
  intro name
  by_contra hboth
  obtain ⟨hs, hm⟩ := not_or.1 hboth
  obtain ⟨i, hi⟩ := Option.ne_none_iff_exists'.1 hs
  obtain ⟨j, hj⟩ := Option.ne_none_iff_exists'.1 hm
  obtain ⟨s, hsmem, hseq⟩ := List.mem_map.1 ((Bimap.right_eq_some_iff _).1 hi)
  obtain ⟨m, hmmem, hmeq⟩ := List.mem_map.1 ((Bimap.right_eq_some_iff _).1 hj)
  exact hnames s hsmem m hmmem ((Prod.mk.inj hseq).2.trans (Prod.mk.inj hmeq).2.symm)

end ProtocolConfig

end Dlep
