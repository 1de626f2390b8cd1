import Dlep.ProtocolMessage
import Dlep.Lib.Calls

/-!
# The information base

What is known of a peer and of its destinations. A metric has one value per id; IP addresses are
added and dropped by flags. The functions here change one `PeerData`; the part of them that tells
the peers (`tell_peers`) belongs to the node that holds the peers.
-/

namespace Dlep

open Std Calls

/-- `LLDLEP::internal::DataItemMap` (`InfoBaseMgr.h:39`). -/
abbrev DataItemMap := ExtTreeMap DataItemIdType DataItem

/-- Source: `DestinationData` (`InfoBaseMgr.h:42`). -/
structure DestinationData where
  macAddress : DlepMac
  metricDataItems : DataItemMap := ∅
  ipDataItems : DataItems := []
  needsResponse : String := ""

/-- Source: `PeerData` (`InfoBaseMgr.h:111`). -/
structure PeerData where
  peerId : Bytes
  destinationData : ExtTreeMap DlepMac DestinationData := ∅
  metricDataItems : DataItemMap := ∅
  ipDataItems : DataItems := []
  otherDataItems : DataItems := []

section

variable [AddressText] (cfg : ProtocolConfig)

/-- Add or drop an address. The data item is printed for the log. Source: `update_ip_data_items`
(`InfoBaseMgr.cpp:26`). -/
def updateIpDataItems (items : DataItems) (new : DataItem) : Except Exn DataItems :=
  let adding := new.ipFlags &&& DataItem.ipFlagAdd ≠ 0
  match items.findIdx? fun di => di.ipEqual new with
  | some i =>
    if adding then .ok items
    else do
      let _ ← new.toString cfg none
      return items.eraseIdx i
  | none =>
    if adding then do
      let _ ← new.toString cfg none
      return items ++ [new]
    else .ok items

namespace DestinationData

/-- Store one data item, if it is a metric or an address: the loop body of the constructor and of
`DestinationData::update` (`InfoBaseMgr.cpp:82`, `:111`). -/
def store (di : DataItem) : EStateM Exn DestinationData Unit := do
  if ← cfg.isMetric di.id none then
    modify fun dd => { dd with metricDataItems := dd.metricDataItems.insert di.id di }
  else if ← cfg.isIpaddr di.id none then
    let dd ← get
    let ipDataItems ← updateIpDataItems cfg dd.ipDataItems di
    modify fun dd => { dd with ipDataItems }
  else
    pure ()

/-- Source: `DestinationData::update` (`InfoBaseMgr.cpp:108`). The number of updates it returns is
not used by its callers. -/
def update (updates : DataItems) : EStateM Exn DestinationData Unit :=
  updates.forM (store cfg)

/-- Source: `DestinationData::DestinationData` (`InfoBaseMgr.cpp:72`). -/
def create (mac : DlepMac) (initial : DataItems) : Except Exn DestinationData :=
  match update cfg initial { macAddress := mac } with
  | .ok _ dd => .ok dd
  | .error e _ => .error e

/-- The printing of `DestinationData::log` (`InfoBaseMgr.cpp:163`). -/
def log (dd : DestinationData) : Except Exn Unit :=
  ((dd.metricDataItems.toList.map Prod.snd) ++ dd.ipDataItems).forM fun di => do
    let _ ← di.toString cfg none

end DestinationData

end

namespace DestinationData

/-- Source: `DestinationData::get_all_data_items` (`InfoBaseMgr.cpp:140`). -/
def getAllDataItems (dd : DestinationData) : DataItems :=
  dd.metricDataItems.toList.map Prod.snd ++ dd.ipDataItems

/-- The owner's name, or an empty text. Source: `DestinationData::find_ip_data_item`
(`InfoBaseMgr.cpp:197`). -/
def findIpDataItem (dd : DestinationData) (di : DataItem) : Bytes :=
  if (di.findIpDataItem dd.ipDataItems).isSome then str "destination=" ++ macToString dd.macAddress
  else []

end DestinationData

namespace PeerData

/-- Source: `PeerData::validDestination` (`InfoBaseMgr.cpp:410`). -/
def validDestination (pd : PeerData) (mac : DlepMac) : Bool := pd.destinationData.contains mac

/-- Source: `PeerData::getDestinationData` (`InfoBaseMgr.cpp:355`). -/
def getDestinationData (pd : PeerData) (mac : DlepMac) : Option DestinationData :=
  pd.destinationData[mac]?

/-- A destination is valid exactly if there are data about it. -/
theorem validDestination_eq_isSome {pd : PeerData} {mac : DlepMac} :
    pd.validDestination mac = (pd.getDestinationData mac).isSome :=
  ExtTreeMap.contains_eq_isSome_getElem?

/-- Source: `PeerData::getDestinations` (`InfoBaseMgr.cpp:400`). -/
def getDestinations (pd : PeerData) : List DlepMac := pd.destinationData.keys

/-- Source: `PeerData::get_data_items` (`InfoBaseMgr.cpp:515`). -/
def getDataItems (pd : PeerData) : DataItems :=
  pd.metricDataItems.toList.map Prod.snd ++ pd.ipDataItems ++ pd.otherDataItems

/-- Source: `PeerData::needs_response` (`InfoBaseMgr.cpp:581`). -/
def getNeedsResponse (pd : PeerData) (mac : DlepMac) : String :=
  match pd.destinationData[mac]? with
  | none => ""
  | some dd => dd.needsResponse

/-- Source: `PeerData::needs_response` (`InfoBaseMgr.cpp:569`). -/
def setNeedsResponse (pd : PeerData) (mac : DlepMac) (responseName : String) : PeerData :=
  { pd with
    destinationData := pd.destinationData.modify mac fun dd =>
      { dd with needsResponse := responseName } }

/-- The owner among the destinations, in the order of the map (`InfoBaseMgr.cpp:608`). -/
def findAmong (di : DataItem) : List DestinationData → Bytes
  | [] => []
  | dd :: dds => if dd.findIpDataItem di ≠ [] then dd.findIpDataItem di else findAmong di dds

/-- The owner's name, or an empty text. Source: `PeerData::find_ip_data_item`
(`InfoBaseMgr.cpp:596`). -/
def findIpDataItem (pd : PeerData) (di : DataItem) : Bytes :=
  if (di.findIpDataItem pd.ipDataItems).isSome then str "peer=" ++ pd.peerId
  else findAmong di (pd.destinationData.toList.map Prod.snd)

section

variable [AddressText] (cfg : ProtocolConfig)

/-- A call on the data of one destination; nothing if there is none. -/
def onDestination (mac : DlepMac) (m : EStateM Exn DestinationData Unit) :
    EStateM Exn PeerData Unit := do
  match (← get).destinationData[mac]? with
  | none => pure ()
  | some dd =>
    zoom (fun _ => dd) (fun dd pd =>
      { pd with destinationData := pd.destinationData.insert mac dd })
      m

/-- The local part of `PeerData::addDestination` (`InfoBaseMgr.cpp:260`). -/
def addDestination (mac : DlepMac) (initial : DataItems) : EStateM Exn PeerData Bool := do
  if (← get).validDestination mac then return false
  else
    let dd ← DestinationData.create cfg mac initial
    modify fun pd => { pd with destinationData := pd.destinationData.insert mac dd }
    return true

/-- The local part of `PeerData::removeDestination` (`InfoBaseMgr.cpp:323`). -/
def removeDestination (mac : DlepMac) : EStateM Exn PeerData Bool := do
  if (← get).validDestination mac then
    modify fun pd => { pd with destinationData := pd.destinationData.erase mac }
    return true
  else return false

/-- The local part of `PeerData::updateDestination` (`InfoBaseMgr.cpp:304`). -/
def updateDestination (mac : DlepMac) (updates : DataItems) : EStateM Exn PeerData Bool := do
  if (← get).validDestination mac then
    onDestination mac (DestinationData.update cfg updates)
    return true
  else return false

/-- Store the data items, and return the metrics, which are for the destinations too. Source:
`PeerData::update_data_items_helper` (`InfoBaseMgr.cpp:222`). -/
def storeDataItems (statusId : DataItemIdType) : DataItems → EStateM Exn PeerData DataItems
  | [] => pure []
  | di :: items => do
    if ← cfg.isMetric di.id none then
      modify fun pd => { pd with metricDataItems := pd.metricDataItems.insert di.id di }
      let rest ← storeDataItems statusId items
      return di :: rest
    else if ← cfg.isIpaddr di.id none then
      let pd ← get
      let ipDataItems ← updateIpDataItems cfg pd.ipDataItems di
      modify fun pd => { pd with ipDataItems }
      storeDataItems statusId items
    else if di.id ≠ statusId then
      modify fun pd => { pd with otherDataItems := pd.otherDataItems ++ [di] }
      storeDataItems statusId items
    else storeDataItems statusId items

/-- Source: `PeerData::update_data_items_helper` (`InfoBaseMgr.cpp:222`). -/
def updateDataItemsHelper (items : DataItems) : EStateM Exn PeerData DataItems := do
  let statusId ← cfg.getDataItemId "Status" none
  storeDataItems cfg statusId items

/-- Source: `PeerData::PeerData` (`InfoBaseMgr.cpp:209`). -/
def create (peerId : Bytes) (initial : DataItems) : Except Exn PeerData :=
  match updateDataItemsHelper cfg initial { peerId } with
  | .ok _ pd => .ok pd
  | .error e _ => .error e

end

/-- Is some metric among the updates new? The first one is named in the log
(`InfoBaseMgr.cpp:425`). -/
def hasUnknownMetric (cfg : ProtocolConfig) (known : DataItemMap) : DataItems → Except Exn Bool
  | [] => .ok false
  | di :: items => do
    if ← cfg.isMetric di.id none then
      if known.contains di.id then hasUnknownMetric cfg known items
      else
        let _ ← cfg.getDataItemName di.id none
        return true
    else hasUnknownMetric cfg known items

section

variable [AddressText] (cfg : ProtocolConfig)

/-- All or nothing: a metric that was not known before refuses the whole update. The local part of
`PeerData::update_data_items` (`InfoBaseMgr.cpp:416`). -/
def updateDataItems (updates : DataItems) : EStateM Exn PeerData String := do
  if ← hasUnknownMetric cfg (← get).metricDataItems updates then
    return "Invalid_Message"
  else
    let destinationUpdates ← updateDataItemsHelper cfg updates
    (← get).getDestinations.forM fun mac =>
      onDestination mac (DestinationData.update cfg destinationUpdates)
    return "Success"

end

/-- Where the data item was found, it is dropped: the loop body of `remove_data_items`. -/
def removeDataItem (pd : PeerData) (di : DataItem) : PeerData :=
  if (pd.metricDataItems[di.id]?).any fun known => known.equal di then
    { pd with metricDataItems := pd.metricDataItems.erase di.id }
  else if pd.ipDataItems.any fun known => known.equal di then
    { pd with ipDataItems := pd.ipDataItems.eraseP fun known => known.equal di }
  else { pd with otherDataItems := pd.otherDataItems.eraseP fun known => known.equal di }

/-- Source: `PeerData::remove_data_items` (`InfoBaseMgr.cpp:481`). -/
def removeDataItems (pd : PeerData) (items : DataItems) : PeerData := items.foldl removeDataItem pd

/-! ## The metrics of a peer

An update cannot add a metric: a peer without metrics stays without. -/

/-- No metric is added where there is none. -/
def NoNewMetrics (pd pd' : PeerData) : Prop := pd.metricDataItems = ∅ → pd'.metricDataItems = ∅

instance : Std.Refl NoNewMetrics := ⟨fun _ h => h⟩

instance : IsTrans PeerData NoNewMetrics := ⟨fun _ _ _ h h' hp => h' (h hp)⟩

/-- A list without metrics. -/
def NoMetrics (cfg : ProtocolConfig) (items : DataItems) : Prop :=
  ∀ di ∈ items, cfg.isMetric di.id none = .ok false

/-- Where no metric is known, an update has no unknown one exactly if it has no metric. -/
theorem hasUnknownMetric_empty {cfg : ProtocolConfig} {items : DataItems} :
    hasUnknownMetric cfg ∅ items = .ok false ↔ NoMetrics cfg items := by
  induction items with
  | nil => simp [hasUnknownMetric, NoMetrics]
  | cons di items ih =>
    rw [NoMetrics, List.forall_mem_cons, hasUnknownMetric, bind_eq_ok]
    constructor
    · rintro ⟨isMetric, hmetric, h⟩
      cases isMetric with
      | true =>
        have hempty : (∅ : DataItemMap).contains di.id = false := ExtTreeMap.contains_empty
        simp only [hempty, if_true, Bool.false_eq_true, if_false, bind_eq_ok] at h
        obtain ⟨_, _, h⟩ := h
        cases h
      | false => exact ⟨hmetric, ih.1 h⟩
    · rintro ⟨hmetric, h⟩
      exact ⟨false, hmetric, ih.2 h⟩

section

variable [AddressText] {cfg : ProtocolConfig}

omit [AddressText] in
/-- Calls on a destination leave the metrics of the peer. -/
theorem noNewMetrics_onDestination {mac : DlepMac} {m : EStateM Exn DestinationData Unit} :
    Within NoNewMetrics (onDestination mac m) := by
  refine within_bind within_get fun pd => ?_
  split
  · exact within_pure
  · exact within_zoom fun _ h => h

/-- Adding a destination leaves the metrics of the peer. -/
theorem noNewMetrics_addDestination {mac : DlepMac} {items : DataItems} :
    Within NoNewMetrics (addDestination cfg mac items) := by
  refine within_bind within_get fun _ => within_ite (fun _ => within_pure) fun _ => ?_
  refine within_bind within_lift fun _ => within_bind ?_ fun _ => within_pure
  exact within_modify fun _ h => h

omit [AddressText] in
/-- Removing a destination leaves the metrics of the peer. -/
theorem noNewMetrics_removeDestination {mac : DlepMac} :
    Within NoNewMetrics (removeDestination mac) := by
  refine within_bind within_get fun _ => within_ite (fun _ => ?_) fun _ => within_pure
  exact within_bind (within_modify fun _ h => h) fun _ => within_pure

/-- Without a metric in the list, the metrics are not written. -/
theorem noNewMetrics_storeDataItems {statusId : DataItemIdType} {items : DataItems}
    (hitems : NoMetrics cfg items) : Within NoNewMetrics (storeDataItems cfg statusId items) := by
  induction items with
  | nil => exact within_pure
  | cons di items ih =>
    obtain ⟨hdi, hitems⟩ := List.forall_mem_cons.1 hitems
    have hrest := ih hitems
    simp only [storeDataItems, hdi, lift_ok_bind, Bool.false_eq_true, if_false]
    refine within_bind within_lift fun _ => within_ite (fun _ => ?_) fun _ => ?_
    · refine within_bind within_get fun _ => within_bind within_lift fun _ => ?_
      exact within_bind (within_modify fun _ h => h) fun _ => hrest
    · refine within_ite (fun _ => ?_) fun _ => hrest
      exact within_bind (within_modify fun _ h => h) fun _ => hrest

/-- An update brings no metric where there is none, since it would be unknown. -/
theorem noNewMetrics_updateDataItems {items : DataItems} :
    Within NoNewMetrics (updateDataItems cfg items) := by
  refine within_of_wp fun pd => ?_
  by_cases hpd : pd.metricDataItems = ∅
  · -- whether the list has a metric decides whether anything is written
    simp only [updateDataItems, wp_bind, wp_get, hpd]
    refine wp_lift (fun unknown hunknown => ?_) fun _ _ h => h
    cases unknown with
    | true => exact fun h => h
    | false =>
      have hstore : Within NoNewMetrics (updateDataItemsHelper cfg items) :=
        within_bind within_lift fun _ =>
          noNewMetrics_storeDataItems (hasUnknownMetric_empty.1 hunknown)
      have hrest : Within NoNewMetrics (do
          let destinationUpdates ← updateDataItemsHelper cfg items
          (← get).getDestinations.forM fun mac =>
            onDestination mac (DestinationData.update cfg destinationUpdates)
          return "Success") := by
        refine within_bind hstore fun _ => within_bind within_get fun _ => ?_
        exact within_bind (within_forM fun _ _ => noNewMetrics_onDestination) fun _ => within_pure
      exact hrest.wp pd
  · exact wp_after.2 fun h => absurd h hpd

end

end PeerData

end Dlep
