import Dlep.Lib.LastWrite
import Dlep.Peer.Addresses
import Dlep.Rfc8175

/-!
# The data of a destination is what was written last

A destination is constructed from a list of data items and is updated by further lists. What it
has in the end is what one pass over all of them leaves (`Holds`): for each metric the last data
item, and the addresses whose last request was to add them.
-/

namespace Dlep

open Std Calls Ownership LastWrite

section

variable {cfg : ProtocolConfig} {di : DataItem} {items : DataItems} {k : Address}

/-- The last request for an address is that of the last data item for it. -/
theorem last_requests :
    last (fun op => decide (op.key = k)) (requests cfg items) =
      (last (fun di => decide (di.IsFor cfg k)) items).map fun di =>
        if di.adds then .add k else .drop k := by
  have hop : ∀ di : DataItem,
      (if di.IsIpaddr cfg then di.op? else none).any (fun op => decide (op.key = k)) =
        decide (di.IsFor cfg k) := by
    intro di
    rw [Bool.eq_iff_iff]
    by_cases hip : di.IsIpaddr cfg
    · rw [if_pos hip, DataItem.op?]
      cases hk : di.address? with
      | none => simp [DataItem.IsFor, hk]
      | some k' =>
        have hkey : (if di.adds then Op.add k' else Op.drop k').key = k' := by
          split
          · rfl
          · rfl
        rw [Option.map_some, Option.any_some, decide_eq_true_iff, hkey]
        simp [DataItem.IsFor, hip, hk]
    · simp [DataItem.IsFor, hip]
  have hfilter := @last_filterMap _ _ items
    (fun di => if di.IsIpaddr cfg then di.op? else none) fun op : Op Address => decide (op.key = k)
  simp only [hop] at hfilter
  change last _ (items.filterMap fun di => if di.IsIpaddr cfg then di.op? else none) = _
  rw [hfilter]
  cases hlast : last (fun di => decide (di.IsFor cfg k)) items with
  | none => rfl
  | some di =>
    obtain ⟨hip, hk⟩ : di.IsFor cfg k := of_decide_eq_true (last_eq_some hlast).2
    rw [Option.bind_some, if_pos hip, DataItem.op?, hk]
    rfl

end

/-- The metric with the id that is given last. -/
def lastMetric (cfg : ProtocolConfig) (id : DataItemIdType) (items : DataItems) : Option DataItem :=
  last (fun di => decide (di.IsMetric cfg ∧ di.id = id)) items

/-- No metric is given last under an id exactly if none is given. -/
theorem lastMetric_eq_none_iff {cfg : ProtocolConfig} {id : DataItemIdType} {items : DataItems} :
    lastMetric cfg id items = none ↔ ∀ di ∈ items, di.IsMetric cfg → di.id ≠ id := by
  rw [lastMetric, last_eq_none_iff]
  simp only [decide_eq_false_iff_not, not_and]

/-- The metric given last is that of the later list if there is one. -/
theorem lastMetric_append {cfg : ProtocolConfig} {id : DataItemIdType} {items items' : DataItems} :
    lastMetric cfg id (items ++ items') = (lastMetric cfg id items').or (lastMetric cfg id items) :=
  last_append

/-! ## One pass -/

namespace DestinationData

/-- The destination has what one pass over the data items leaves. -/
structure Holds (cfg : ProtocolConfig) (items : DataItems) (dd : DestinationData) : Prop where
  metric : ∀ id, dd.metricDataItems[id]? =
    last (fun di => decide (di.IsMetric cfg ∧ di.id = id)) items
  addresses : addressesOf dd.ipDataItems = applyAll [] (requests cfg items)
  stored : ∀ di ∈ dd.ipDataItems, di ∈ items ∧ ∃ k, di.IsFor cfg k

section

variable {cfg : ProtocolConfig} {items : DataItems} {dd : DestinationData}

/-- A stored metric is one of those given, under its own id. -/
theorem Holds.metric_stored (h : dd.Holds cfg items) {id : DataItemIdType} {di : DataItem}
    (hdi : dd.metricDataItems[id]? = some di) : di ∈ items ∧ di.IsMetric cfg ∧ di.id = id := by
  rw [h.metric] at hdi
  obtain ⟨hmem, hid⟩ := last_eq_some hdi
  exact ⟨hmem, of_decide_eq_true hid⟩

/-- An update of an empty destination is one pass. -/
theorem Updated.holds {mac : DlepMac} (h : Updated cfg items { macAddress := mac } dd) :
    dd.Holds cfg items where
  metric id := by
    have hid := h.metrics id
    rwa [ExtTreeMap.getElem?_empty, Option.or_none] at hid
  addresses := h.ips.addresses
  stored di hdi := by
    rcases h.ips.stored di hdi with hold | hnew
    · cases hold
    · exact hnew

end

section

variable [AddressText] (cfg : ProtocolConfig)

/-- A destination that is constructed and then updated. -/
def build (mac : DlepMac) (initial : DataItems) (updates : List DataItems) :
    Except Exn DestinationData := do
  let dd ← create cfg mac initial
  match updates.forM (update cfg) dd with
  | .ok _ dd => .ok dd
  | .error e _ => .error e

end

section

variable [AddressText] {cfg : ProtocolConfig} {mac : DlepMac} {initial : DataItems}
  {updates : List DataItems}

/-- Two updates in a row are one with both lists. -/
theorem update_append {items items' : DataItems} :
    update cfg (items ++ items') = (update cfg items >>= fun _ => update cfg items') :=
  List.forM_append

/-- Updates one after the other are one update. -/
theorem forM_update : updates.forM (update cfg) = update cfg updates.flatten := by
  induction updates with
  | nil => rfl
  | cons items updates ih => rw [List.forM, List.flatten_cons, update_append, ih]

/-- How the data items are spread over the lists makes no difference. -/
theorem build_eq_create :
    build cfg mac initial updates = create cfg mac (initial ++ updates.flatten) := by
  rw [build, create, create, forM_update, update_append, bind_run]
  cases (update cfg initial { macAddress := mac } : EStateM.Result Exn DestinationData Unit) with
  | ok _ dd => rfl
  | error e dd => rfl

/-- Data items of the configuration construct a destination that holds one pass over them. -/
theorem create_holds (mac : DlepMac) {items : DataItems} (h : ∀ di ∈ items, di.Configured cfg) :
    ∃ dd, create cfg mac items = .ok dd ∧ dd.Holds cfg items := by
  obtain ⟨dd, hdd, hupdated⟩ := create_updated mac fun di hdi => (h di hdi).classified
  exact ⟨dd, hdd, hupdated.holds⟩

end

/-! ## What is returned -/

namespace Holds

variable {cfg : ProtocolConfig} {items : DataItems} {dd : DestinationData}

/-- All data items are the metrics and the addresses. -/
theorem mem_getAllDataItems {di : DataItem} :
    di ∈ dd.getAllDataItems ↔ (∃ id : DataItemIdType, dd.metricDataItems[id]? = some di) ∨
      di ∈ dd.ipDataItems := by
  rw [getAllDataItems, List.mem_append, List.mem_map]
  simp only [Prod.exists, exists_eq_right, ExtTreeMap.mem_toList_iff_getElem?_eq_some]

/-- Nothing is made up, and what is neither a metric nor an address is not returned. -/
theorem of_mem_getAllDataItems (h : dd.Holds cfg items) {di : DataItem}
    (hdi : di ∈ dd.getAllDataItems) : di ∈ items ∧ (di.IsMetric cfg ∨ ∃ k, di.IsFor cfg k) := by
  rcases mem_getAllDataItems.1 hdi with ⟨id, hid⟩ | hip
  · obtain ⟨hmem, hmetric, _⟩ := h.metric_stored hid
    exact ⟨hmem, .inl hmetric⟩
  · exact ⟨(h.stored di hip).1, .inr (h.stored di hip).2⟩

/-- The data items that are returned and are addresses. -/
theorem filter_isIpaddr (h : dd.Holds cfg items) :
    dd.getAllDataItems.filter (fun di => decide (di.IsIpaddr cfg)) = dd.ipDataItems := by
  have hmetrics : (dd.metricDataItems.toList.map Prod.snd).filter
      (fun di => decide (di.IsIpaddr cfg)) = [] := by
    rw [List.filter_eq_nil_iff]
    intro di hdi
    obtain ⟨⟨id, di'⟩, hmem, rfl⟩ := List.mem_map.1 hdi
    have hmetric := (h.metric_stored (ExtTreeMap.mem_toList_iff_getElem?_eq_some.1 hmem)).2.1
    simp [DataItem.IsIpaddr, show cfg.isMetric di'.id none = .ok true from hmetric]
  rw [getAllDataItems, List.filter_append, hmetrics, List.nil_append, List.filter_eq_self]
  intro di hdi
  obtain ⟨k, hk⟩ := (h.stored di hdi).2
  exact decide_eq_true hk.1

/-- For a metric, the last data item is returned and no other one. -/
theorem filter_metric (h : dd.Holds cfg items) {id : DataItemIdType}
    (hid : cfg.isMetric id none = .ok true) :
    dd.getAllDataItems.filter (fun di => decide (di.id = id)) =
      (last (fun di => decide (di.id = id)) items).toList := by
  have hips : dd.ipDataItems.filter (fun di => decide (di.id = id)) = [] := by
    rw [List.filter_eq_nil_iff]
    intro di hdi
    obtain ⟨k, hk⟩ := (h.stored di hdi).2
    rw [decide_eq_true_iff]
    rintro rfl
    have hmetric := hid.symm.trans hk.1.1
    cases hmetric
  have hone := OrderedMap.filter_toList_eq dd.metricDataItems (fun di => decide (di.id = id)) id
    fun j di hj => by rw [decide_eq_true_iff, (h.metric_stored hj).2.2]
  have hlast : last (fun di => decide (di.IsMetric cfg ∧ di.id = id)) items =
      last (fun di => decide (di.id = id)) items := by
    refine last_congr fun di _ => ?_
    rw [Bool.eq_iff_iff, decide_eq_true_iff, decide_eq_true_iff]
    refine ⟨And.right, ?_⟩
    rintro rfl
    exact ⟨hid, rfl⟩
  rw [getAllDataItems, List.filter_append, hips, List.append_nil, hone, h.metric, hlast]

/-- An address is returned if its last request was to add it. -/
theorem mem_addresses_iff (h : dd.Holds cfg items) {k : Address} :
    k ∈ addressesOf dd.ipDataItems ↔
      ∃ di, last (fun di => decide (di.IsFor cfg k)) items = some di ∧ di.adds = true := by
  rw [h.addresses, mem_applyAll_iff List.nodup_nil, last_requests]
  cases last (fun di => decide (di.IsFor cfg k)) items with
  | none => simp
  | some di => simp

/-- No two stored addresses are equal as addresses. -/
theorem pairwise_ipDataItems (h : dd.Holds cfg items) :
    dd.ipDataItems.Pairwise fun di di' => di.ipEqual di' = false := by
  have hnodup : (addressesOf dd.ipDataItems).Nodup := by
    rw [h.addresses]
    exact nodup_applyAll List.nodup_nil _
  rw [addressesOf, List.Nodup, List.pairwise_filterMap] at hnodup
  refine hnodup.imp fun {di di'} hne => ?_
  rw [Bool.eq_false_iff]
  intro heq
  obtain ⟨k, hk, hk'⟩ := DataItem.ipEqual_iff.1 heq
  exact hne k hk k hk' rfl

end Holds

section

variable [AddressText] {cfg : ProtocolConfig} {mac : DlepMac} {initial : DataItems}
  {updates : List DataItems}

/-- What a destination returns depends on the data items in their order and not on how they were
spread over construction and updates: the last one for each metric, and the addresses whose last
request was to add them, each once. -/
theorem returns_last_written
    (hconfigured : ∀ di ∈ initial ++ updates.flatten, di.Configured cfg) :
    ∃ dd, build cfg mac initial updates = .ok dd ∧
      create cfg mac (initial ++ updates.flatten) = .ok dd ∧
      (∀ id : DataItemIdType, cfg.isMetric id none = .ok true →
        dd.getAllDataItems.filter (fun di => decide (di.id = id)) =
          (last (fun di => decide (di.id = id)) (initial ++ updates.flatten)).toList) ∧
      (∀ k : Address, (∃ di ∈ dd.getAllDataItems, di.IsFor cfg k) ↔
        ∃ di, last (fun di => decide (di.IsFor cfg k)) (initial ++ updates.flatten) = some di ∧
          di.adds = true) ∧
      (dd.getAllDataItems.filter fun di => decide (di.IsIpaddr cfg)).Pairwise
        (fun di di' => di.ipEqual di' = false) ∧
      ∀ di ∈ dd.getAllDataItems, di ∈ initial ++ updates.flatten ∧
        (di.IsMetric cfg ∨ ∃ k, di.IsFor cfg k) := by
  obtain ⟨dd, hdd, h⟩ := create_holds mac hconfigured
  refine ⟨dd, build_eq_create.trans hdd, hdd, fun id hid => h.filter_metric hid, fun k => ?_, ?_,
    fun di hdi => h.of_mem_getAllDataItems hdi⟩
  · rw [← h.mem_addresses_iff, mem_addressesOf]
    constructor
    · rintro ⟨di, hdi, hfor⟩
      have hmem : di ∈ dd.getAllDataItems.filter fun di => decide (di.IsIpaddr cfg) :=
        List.mem_filter.2 ⟨hdi, decide_eq_true hfor.1⟩
      rw [h.filter_isIpaddr] at hmem
      exact ⟨di, hmem, hfor.2⟩
    · rintro ⟨di, hdi, hk⟩
      obtain ⟨k', hfor⟩ := (h.stored di hdi).2
      exact ⟨di, Holds.mem_getAllDataItems.2 (.inr hdi), hfor.1, hk⟩
  · rw [h.filter_isIpaddr]
    exact h.pairwise_ipDataItems

end

/-! ## Two batches -/

attribute [local instance] plainText

/-- Requests about an address, and a value of a metric. -/
def addressItem (id : DataItemIdType) (flags : UInt8) : DataItem :=
  .mk id (.u8Ipv4 flags (.ofBytes [10, 0, 0, 1]))

def latencyItem (latency : UInt64) : DataItem := .mk 16 (.u64 latency)

/-- An address is added and a latency given, the address is dropped, and another latency is given.
-/
def addDrop : DataItems := [addressItem 8 1, latencyItem 5, addressItem 8 0, latencyItem 7]

/-- The last latency is returned, and no address. -/
theorem returns_last_written_addDrop :
    ∃ dd, build rfc8175 [2, 0, 0, 0, 0, 1] [addressItem 8 1, latencyItem 5]
        [[addressItem 8 0], [latencyItem 7]] = .ok dd ∧
      create rfc8175 [2, 0, 0, 0, 0, 1] addDrop = .ok dd ∧
      dd.getAllDataItems.filter (fun di => decide (di.id = 16)) = [latencyItem 7] ∧
      (∀ id : DataItemIdType, rfc8175.isMetric id none = .ok true →
        dd.getAllDataItems.filter (fun di => decide (di.id = id)) =
          (last (fun di => decide (di.id = id)) addDrop).toList) ∧
      (∀ k : Address, (∃ di ∈ dd.getAllDataItems, di.IsFor rfc8175 k) ↔
        ∃ di, last (fun di => decide (di.IsFor rfc8175 k)) addDrop = some di ∧ di.adds = true) ∧
      (¬ ∃ di ∈ dd.getAllDataItems, di.IsFor rfc8175 (.v4 (.ofBytes [10, 0, 0, 1]))) ∧
      (dd.getAllDataItems.filter fun di => decide (di.IsIpaddr rfc8175)).Pairwise
        (fun di di' => di.ipEqual di' = false) ∧
      ∀ di ∈ dd.getAllDataItems, di ∈ addDrop ∧
        (di.IsMetric rfc8175 ∨ ∃ k, di.IsFor rfc8175 k) := by
  obtain ⟨dd, hbuild, hcreate, hmetrics, haddresses, honce, hgiven⟩ :=
    @returns_last_written plainText rfc8175 [2, 0, 0, 0, 0, 1] [addressItem 8 1, latencyItem 5]
      [[addressItem 8 0], [latencyItem 7]] (by
        intro di hdi
        simp only [List.flatten_cons, List.flatten_nil, List.cons_append, List.nil_append,
          List.mem_cons, List.not_mem_nil, or_false] at hdi
        rcases hdi with rfl | rfl | rfl | rfl
        · exact ⟨_, rfl⟩
        · exact ⟨_, rfl⟩
        · exact ⟨_, rfl⟩
        · exact ⟨_, rfl⟩)
  refine ⟨dd, hbuild, hcreate, (hmetrics 16 (by decide +kernel)).trans rfl, hmetrics,
    haddresses, fun h => ?_, honce, hgiven⟩
  obtain ⟨di, hdi, hadds⟩ := (haddresses _).1 h
  have hdropped : (last (fun di => decide (di.IsFor rfc8175 (.v4 (.ofBytes [10, 0, 0, 1]))))
    addDrop).map
      DataItem.adds = some false := by decide +kernel
  have hlast : last (fun di => decide (di.IsFor rfc8175 (.v4 (.ofBytes [10, 0, 0, 1])))) addDrop =
    some di := hdi
  rw [hlast, Option.map_some, hadds] at hdropped
  cases hdropped

/-- A configuration in which one of two data items for addresses is a metric. -/
def meteredAddress : ProtocolConfig :=
  .ofDefinitions ⟨2, FieldSize.two_fits⟩ ⟨2, FieldSize.two_fits⟩
    { dataItems := [Rfc8175.item "IPv4_Address" 8 .u8Ipv4,
        Rfc8175.metric "Metered_Address" 9 .u8Ipv4 .none] } (by decide)

/-- An address that is a metric is returned beside the same address that is not. -/
theorem meteredAddress_returned_twice :
    ¬ ∀ (cfg : ProtocolConfig) (mac : DlepMac) (initial : DataItems) (updates : List DataItems)
        (dd : DestinationData),
      (∀ di ∈ initial ++ updates.flatten, di.Configured cfg ∧
        (cfg.isIpaddr di.id none = .ok true → ∃ k, di.address? = some k)) →
      build cfg mac initial updates = .ok dd →
      dd.getAllDataItems.Pairwise fun di di' => di.ipEqual di' = false := by
  intro h
  have hbuild := h meteredAddress [2, 0, 0, 0, 0, 1] [addressItem 8 1, addressItem 9 1] []
    { macAddress := [2, 0, 0, 0, 0, 1]
      metricDataItems := (∅ : DataItemMap).insert 9 (addressItem 9 1)
      ipDataItems := [addressItem 8 1] } ?_ rfl
  · revert hbuild
    decide +kernel
  · intro di hdi
    simp only [List.flatten_nil, List.append_nil, List.mem_cons, List.not_mem_nil, or_false] at hdi
    rcases hdi with rfl | rfl
    · exact ⟨⟨_, rfl⟩, fun _ => ⟨_, rfl⟩⟩
    · exact ⟨⟨_, rfl⟩, fun _ => ⟨_, rfl⟩⟩

end DestinationData

end Dlep
