import Dlep.Lib.LastWrite
import Dlep.Peer.Received

/-!
# The addresses in the information base

A peer and each of its destinations have a list of addresses. The data items of a message are
requests to add and to drop addresses, and every function of the information base that takes data
items applies these requests to one of the lists.
-/

namespace Dlep

open Std Calls Ownership LastWrite

/-- What `ip_equal` compares: an address, or a subnet. -/
inductive Address where
  | v4 (a : AddressV4)
  | v6 (a : AddressV6)
  | subnet4 (a : AddressV4) (length : UInt8)
  | subnet6 (a : AddressV6) (length : UInt8)
  deriving DecidableEq

namespace DataItem

def address? (di : DataItem) : Option Address :=
  match di.value with
  | .u8Ipv4 _ a => some (.v4 a)
  | .u8Ipv6 _ a => some (.v6 a)
  | .u8Ipv4U8 _ a n => some (.subnet4 a n)
  | .u8Ipv6U8 _ a n => some (.subnet6 a n)
  | _ => none

/-- Is the address to be added? -/
def adds (di : DataItem) : Bool := di.ipFlags &&& ipFlagAdd ≠ 0

/-- The request that a data item is. -/
def op? (di : DataItem) : Option (Op Address) :=
  di.address?.map fun k => if di.adds then .add k else .drop k

/-- The comparison of the source is that of the addresses. -/
theorem ipEqual_iff {di other : DataItem} :
    di.ipEqual other = true ↔ ∃ k, di.address? = some k ∧ other.address? = some k := by
  obtain ⟨id, value⟩ := di
  obtain ⟨id', value'⟩ := other
  cases value with
  | u8Ipv4 f a =>
    cases value' with
    | u8Ipv4 f' b => simpa [ipEqual, address?] using eq_comm
    | _ => simp [ipEqual, address?]
  | u8Ipv6 f a =>
    cases value' with
    | u8Ipv6 f' b => simpa [ipEqual, address?] using eq_comm
    | _ => simp [ipEqual, address?]
  | u8Ipv4U8 f a n =>
    cases value' with
    | u8Ipv4U8 f' b m => simpa [ipEqual, address?] using and_congr eq_comm eq_comm
    | _ => simp [ipEqual, address?]
  | u8Ipv6U8 f a n =>
    cases value' with
    | u8Ipv6U8 f' b m => simpa [ipEqual, address?] using and_congr eq_comm eq_comm
    | _ => simp [ipEqual, address?]
  | _ => simp [ipEqual, address?]

/-- A data item without an address adds nothing. -/
theorem adds_eq_false {di : DataItem} (h : di.address? = none) : di.adds = false := by
  obtain ⟨id, value⟩ := di
  cases value with
  | u8Ipv4 f a => cases h
  | u8Ipv6 f a => cases h
  | u8Ipv4U8 f a n => cases h
  | u8Ipv6U8 f a n => cases h
  | _ => simp [adds, ipFlags]

end DataItem

/-- The addresses in a list of data items. -/
def addressesOf (items : DataItems) : List Address := items.filterMap DataItem.address?

/-- An address is in a list exactly if a data item with it is. -/
theorem mem_addressesOf {items : DataItems} {k : Address} :
    k ∈ addressesOf items ↔ ∃ di ∈ items, di.address? = some k := List.mem_filterMap

/-- Searching a list for the address of a data item. -/
theorem isSome_findIdx?_iff {items : DataItems} {di : DataItem} :
    (items.findIdx? fun other => di.ipEqual other).isSome = true ↔
      ∃ k, di.address? = some k ∧ k ∈ addressesOf items := by
  rw [List.findIdx?_isSome, List.any_eq_true]
  constructor
  · rintro ⟨other, hmem, heq⟩
    obtain ⟨k, hk, hk'⟩ := DataItem.ipEqual_iff.1 heq
    exact ⟨k, hk, mem_addressesOf.2 ⟨other, hmem, hk'⟩⟩
  · rintro ⟨k, hk, hmem⟩
    obtain ⟨other, hother, hk'⟩ := mem_addressesOf.1 hmem
    exact ⟨other, hother, DataItem.ipEqual_iff.2 ⟨k, hk, hk'⟩⟩

/-- The first data item with an address is erased, and so is the address. -/
theorem addressesOf_eraseIdx {items : DataItems} {new : DataItem} {k : Address} {i : Nat}
    (hk : new.address? = some k) (hi : items.findIdx? (fun di => di.ipEqual new) = some i) :
    addressesOf (items.eraseIdx i) = (addressesOf items).erase k := by
  induction items generalizing i with
  | nil => cases hi
  | cons di items ih =>
    rw [List.findIdx?_cons] at hi
    split at hi
    · next heq =>
      obtain ⟨k', hdi, hk'⟩ := DataItem.ipEqual_iff.1 heq
      obtain rfl := Option.some.inj (hk.symm.trans hk')
      obtain rfl := Option.some.inj hi
      simp [addressesOf, hdi]
    · next hne =>
      obtain ⟨j, hj, rfl⟩ := Option.map_eq_some_iff.1 hi
      have hrest := ih hj
      unfold addressesOf at hrest ⊢
      rw [List.eraseIdx_cons_succ]
      cases hdi : di.address? with
      | none => rw [List.filterMap_cons_none hdi, List.filterMap_cons_none hdi, hrest]
      | some k' =>
        have hkk' : k' ≠ k := by
          rintro rfl
          exact hne (DataItem.ipEqual_iff.2 ⟨k', hdi, hk⟩)
        rw [List.filterMap_cons_some hdi, List.filterMap_cons_some hdi, hrest,
          List.erase_cons_tail (by simpa using hkk')]

/-- The requests that the information base takes out of data items. -/
def requests (cfg : ProtocolConfig) (items : DataItems) : List (Op Address) :=
  items.filterMap fun di =>
    if cfg.isMetric di.id none = .ok false ∧ cfg.isIpaddr di.id none =
      .ok true then di.op? else none

/-- What a data item that is an address asks for. -/
theorem requests_of_isIpaddr {cfg : ProtocolConfig} {di : DataItem}
    (hmetric : cfg.isMetric di.id none = .ok false) (hipaddr : cfg.isIpaddr di.id none = .ok true) :
    requests cfg [di] = di.op?.toList := by
  rw [requests, List.filterMap_cons, if_pos ⟨hmetric, hipaddr⟩]
  cases di.op? with
  | none => rfl
  | some op => rfl

/-- A data item that is no address, or a metric, requests nothing. -/
theorem requests_of_not_isIpaddr {cfg : ProtocolConfig} {di : DataItem}
    (h : ¬ (cfg.isMetric di.id none = .ok false ∧ cfg.isIpaddr di.id none = .ok true)) :
    requests cfg [di] = [] := by
  rw [requests, List.filterMap_cons, if_neg h]
  rfl

section

variable [AddressText] {cfg : ProtocolConfig}

/-- One data item is one request. -/
theorem addressesOf_updateIpDataItems {items items' : DataItems} {new : DataItem}
    (h : updateIpDataItems cfg items new = .ok items') :
    addressesOf items' = applyAll (addressesOf items) new.op?.toList := by
  have hfound : (items.findIdx? fun di => di.ipEqual new).isSome = true ↔
      ∃ k, new.address? = some k ∧ k ∈ addressesOf items := by
    rw [← isSome_findIdx?_iff]
    have hsymm : (fun di : DataItem => di.ipEqual new) = fun di => new.ipEqual di := by
      funext di
      rw [Bool.eq_iff_iff, DataItem.ipEqual_iff, DataItem.ipEqual_iff]
      exact exists_congr fun k => and_comm
    rw [hsymm]
  cases hk : new.address? with
  | none =>
    -- not an address, so that nothing is found and nothing is added
    have hnone : (items.findIdx? fun di => di.ipEqual new) = none := by
      rw [← Option.not_isSome_iff_eq_none, hfound]
      simp [hk]
    have hadds : ¬ (new.ipFlags &&& DataItem.ipFlagAdd ≠ 0) := by
      simpa [DataItem.adds] using DataItem.adds_eq_false hk
    simp only [updateIpDataItems, hnone, if_neg hadds] at h
    rw [← Except.ok.inj h, DataItem.op?, hk]
    rfl
  | some k =>
    have hop : new.op?.toList = [if new.adds then .add k else .drop k] := by
      rw [DataItem.op?, hk]
      rfl
    rw [hop, applyAll_cons, applyAll_nil]
    simp only [hk, Option.some.injEq, exists_eq_left'] at hfound
    cases hadds : new.adds with
    | true =>
      have hadding : new.ipFlags &&& DataItem.ipFlagAdd ≠ 0 := by simpa [DataItem.adds] using hadds
      rw [if_pos rfl, apply]
      cases hi : items.findIdx? fun di => di.ipEqual new with
      | some i =>
        simp only [updateIpDataItems, hi, if_pos hadding] at h
        rw [← Except.ok.inj h, if_pos (hfound.1 (by rw [hi]; rfl))]
      | none =>
        simp only [updateIpDataItems, hi, if_pos hadding, bind_eq_ok] at h
        obtain ⟨_, _, h⟩ := h
        have hfree : k ∉ addressesOf items := fun hmem => by simpa [hi] using hfound.2 hmem
        rw [← Except.ok.inj h, if_neg hfree]
        simp [addressesOf, hk]
    | false =>
      have hadding : ¬ new.ipFlags &&& DataItem.ipFlagAdd ≠ 0 := by simpa
        [DataItem.adds] using hadds
      rw [if_neg Bool.false_ne_true, apply]
      cases hi : items.findIdx? fun di => di.ipEqual new with
      | some i =>
        simp only [updateIpDataItems, hi, if_neg hadding, bind_eq_ok] at h
        obtain ⟨_, _, h⟩ := h
        rw [← Except.ok.inj h, addressesOf_eraseIdx hk hi]
      | none =>
        simp only [updateIpDataItems, hi, if_neg hadding] at h
        have hfree : k ∉ addressesOf items := fun hmem => by simpa [hi] using hfound.2 hmem
        rw [← Except.ok.inj h, List.erase_of_not_mem hfree]

omit [AddressText] in
/-- An address that the configuration knows has no sub data items, so that it can be printed. -/
theorem DataItem.Configured.resolves {di : DataItem} {k : Address} (h : di.Configured cfg)
    (hk : di.address? = some k) : di.Resolves cfg none := by
  obtain ⟨id, value⟩ := di
  obtain ⟨info, hinfo⟩ := h
  refine ⟨hinfo, fun sdi hsdi => ?_⟩
  cases value with
  | subDataItems items => cases hk
  | u16SubDataItems f items => cases hk
  | _ => cases hsdi

/-- What is in a list of addresses was there or is the new data item, which then is an address. -/
theorem DataItem.Configured.updateIpDataItems {di : DataItem} (h : di.Configured cfg)
    (items : DataItems) :
    ∃ items', updateIpDataItems cfg items di = .ok items' ∧
      ∀ di' ∈ items', di' ∈ items ∨ di' = di ∧ ∃ k, di.address? = some k := by
  cases hk : di.address? with
  | none =>
    have hfound : (items.findIdx? fun di' => di'.ipEqual di) = none := by
      rw [List.findIdx?_eq_none_iff]
      intro di' _
      rw [Bool.eq_false_iff]
      intro heq
      obtain ⟨k, _, hk'⟩ := ipEqual_iff.1 heq
      rw [hk] at hk'
      cases hk'
    have hadds : ¬ (di.ipFlags &&& ipFlagAdd ≠ 0) := by simpa [adds] using adds_eq_false hk
    refine ⟨items, ?_, fun di' hmem => .inl hmem⟩
    simp only [Dlep.updateIpDataItems, hfound, if_neg hadds]
  | some k =>
    obtain ⟨text, htext⟩ := toString_ok_iff_resolves.2 (h.resolves hk)
    unfold Dlep.updateIpDataItems
    simp only [htext, ok_bind]
    split
    · split
      · exact ⟨items, rfl, fun di' hmem => .inl hmem⟩
      · exact ⟨_, rfl, fun di' hmem => .inl (List.mem_of_mem_eraseIdx hmem)⟩
    · split
      · refine ⟨_, rfl, fun di' hmem => (List.mem_append.1 hmem).imp_right fun hnew => ?_⟩
        exact ⟨List.mem_singleton.1 hnew, k, rfl⟩
      · exact ⟨items, rfl, fun di' hmem => .inl hmem⟩

end

/-! ## What an update stores -/

section

variable (cfg : ProtocolConfig) (di : DataItem)

/-- The data item is stored as a metric. -/
def DataItem.IsMetric : Prop := cfg.isMetric di.id none = .ok true

/-- The data item is stored as an address: a metric is not, even if its value is an address. -/
def DataItem.IsIpaddr : Prop :=
  cfg.isMetric di.id none = .ok false ∧ cfg.isIpaddr di.id none = .ok true

/-- The data item is stored as the address `k`, or takes it away. -/
def DataItem.IsFor (k : Address) : Prop := di.IsIpaddr cfg ∧ di.address? = some k

instance : Decidable (di.IsMetric cfg) := inferInstanceAs (Decidable (_ = _))

instance : Decidable (di.IsIpaddr cfg) := inferInstanceAs (Decidable (_ ∧ _))

instance (k : Address) : Decidable (di.IsFor cfg k) := inferInstanceAs (Decidable (_ ∧ _))

end

/-- The metrics are those that were given last, and else those that were there. -/
def MetricsUpdated (cfg : ProtocolConfig) (items : DataItems) (m m' : DataItemMap) : Prop :=
  ∀ id : DataItemIdType, m'[id]? =
    (last (fun di => decide (di.IsMetric cfg ∧ di.id = id)) items).or m[id]?

/-- The list of addresses is what the requests leave of the one that was there. -/
structure AddressesUpdated (cfg : ProtocolConfig) (items ips ips' : DataItems) : Prop where
  addresses : addressesOf ips' = applyAll (addressesOf ips) (requests cfg items)
  stored : ∀ di ∈ ips', di ∈ ips ∨ di ∈ items ∧ ∃ k, di.IsFor cfg k
  same : (∀ di ∈ items, ¬ di.IsIpaddr cfg) → ips' = ips

section

variable {cfg : ProtocolConfig} {items items' : DataItems} {di : DataItem}

/-- Without data items the metrics stay. -/
theorem metricsUpdated_nil {m : DataItemMap} : MetricsUpdated cfg [] m m := fun _ => rfl

/-- Metrics are updated with one list after the other. -/
theorem MetricsUpdated.append {m m' m'' : DataItemMap} (h : MetricsUpdated cfg items m m')
    (h' : MetricsUpdated cfg items' m' m'') : MetricsUpdated cfg (items ++ items') m m'' := by
  intro id
  rw [h', h, last_append, Option.or_assoc]

/-- A metric replaces the one with its id. -/
theorem metricsUpdated_insert {m : DataItemMap} (h : di.IsMetric cfg) :
    MetricsUpdated cfg [di] m (m.insert di.id di) := by
  intro id
  rw [← List.nil_append [di], last_concat, last_nil, ExtTreeMap.getElem?_insert]
  by_cases hid : di.id = id
  · rw [if_pos (Std.compare_eq_iff_eq.2 hid), if_pos (decide_eq_true ⟨h, hid⟩)]
    rfl
  · rw [if_neg fun heq => hid (Std.compare_eq_iff_eq.1 heq),
      if_neg fun hdec => hid (of_decide_eq_true hdec).2]
    rfl

/-- What is no metric leaves the metrics. -/
theorem metricsUpdated_of_not_isMetric {m : DataItemMap} (h : ¬ di.IsMetric cfg) :
    MetricsUpdated cfg [di] m m := by
  intro id
  rw [← List.nil_append [di], last_concat, if_neg fun hdec => h (of_decide_eq_true hdec).1]
  rfl

/-- Without data items the addresses stay. -/
theorem addressesUpdated_nil {ips : DataItems} : AddressesUpdated cfg [] ips ips where
  addresses := rfl
  stored _ h := .inl h
  same _ := rfl

/-- Addresses are updated with one list after the other. -/
theorem AddressesUpdated.append {ips ips' ips'' : DataItems}
    (h : AddressesUpdated cfg items ips ips') (h' : AddressesUpdated cfg items' ips' ips'') :
    AddressesUpdated cfg (items ++ items') ips ips'' where
  addresses := by
    rw [h'.addresses, h.addresses, requests, requests, requests, List.filterMap_append]
    exact List.foldl_append.symm
  stored di hdi := by
    rcases h'.stored di hdi with hmid | ⟨hmem, hfor⟩
    · exact (h.stored di hmid).imp_right fun ⟨hmem, hfor⟩ => ⟨List.mem_append_left _ hmem, hfor⟩
    · exact .inr ⟨List.mem_append_right _ hmem, hfor⟩
  same hno := by
    obtain ⟨hitems, hitems'⟩ := List.forall_mem_append.1 hno
    exact (h'.same hitems').trans (h.same hitems)

/-- What is no address leaves the addresses. -/
theorem addressesUpdated_of_not_isIpaddr {ips : DataItems} (h : ¬ di.IsIpaddr cfg) :
    AddressesUpdated cfg [di] ips ips where
  addresses := by
    rw [requests_of_not_isIpaddr h]
    rfl
  stored _ hdi := .inl hdi
  same _ := rfl

/-- An address is added or dropped without an exception. -/
theorem DataItem.IsIpaddr.updateIpDataItems [AddressText] (h : di.IsIpaddr cfg) (ips : DataItems) :
    ∃ ips', updateIpDataItems cfg ips di = .ok ips' ∧ AddressesUpdated cfg [di] ips ips' := by
  obtain ⟨ips', hips, hstored⟩ := (configured_of_isIpaddr h.2).updateIpDataItems ips
  refine ⟨ips', hips, ?_, fun di' hmem => (hstored di' hmem).imp_right ?_, fun hno => ?_⟩
  · rw [requests_of_isIpaddr h.1 h.2]
    exact addressesOf_updateIpDataItems hips
  · rintro ⟨rfl, k, hk⟩
    exact ⟨List.mem_singleton_self _, k, h, hk⟩
  · exact absurd h (hno di (List.mem_singleton_self _))

end

/-! ## Destinations -/

namespace DestinationData

/-- The destination after an update with the data items. -/
structure Updated (cfg : ProtocolConfig) (items : DataItems) (dd dd' : DestinationData) : Prop where
  metrics : MetricsUpdated cfg items dd.metricDataItems dd'.metricDataItems
  ips : AddressesUpdated cfg items dd.ipDataItems dd'.ipDataItems
  macAddress : dd'.macAddress = dd.macAddress
  needsResponse : dd'.needsResponse = dd.needsResponse

section

variable {cfg : ProtocolConfig} {items items' : DataItems} {di : DataItem}
    {dd dd' dd'' : DestinationData}

/-- Without data items a destination stays. -/
theorem updated_nil : Updated cfg [] dd dd := ⟨metricsUpdated_nil, addressesUpdated_nil, rfl, rfl⟩

/-- A destination is updated with one list after the other. -/
theorem Updated.append (h : Updated cfg items dd dd') (h' : Updated cfg items' dd' dd'') :
    Updated cfg (items ++ items') dd dd'' where
  metrics := h.metrics.append h'.metrics
  ips := h.ips.append h'.ips
  macAddress := h'.macAddress.trans h.macAddress
  needsResponse := h'.needsResponse.trans h.needsResponse

variable [AddressText]

/-- Storing one data item is an update with it, and does not throw. -/
theorem wp_store (hdi : di.Classified cfg) (dd : DestinationData) :
    wp (store cfg di) (fun _ dd' => Updated cfg [di] dd dd') (fun _ _ => False) dd := by
  obtain ⟨metric, hmetric⟩ := hdi.isMetric
  obtain ⟨ipaddr, hipaddr⟩ := hdi
  simp only [store, hmetric, hipaddr, lift_ok_bind]
  cases metric with
  | true =>
    have hno : ¬ di.IsIpaddr cfg := by simp [DataItem.IsIpaddr, hmetric]
    exact ⟨metricsUpdated_insert hmetric, addressesUpdated_of_not_isIpaddr hno, rfl, rfl⟩
  | false =>
    have hno : ¬ di.IsMetric cfg := by simp [DataItem.IsMetric, hmetric]
    cases ipaddr with
    | true =>
      obtain ⟨ips, hips, hupdated⟩ :=
        DataItem.IsIpaddr.updateIpDataItems ⟨hmetric, hipaddr⟩ dd.ipDataItems
      simp only [Bool.false_eq_true, if_false, if_true, wp_bind, wp_get, hips,
        wp_lift_ok, wp_modify]
      exact ⟨metricsUpdated_of_not_isMetric hno, hupdated, rfl, rfl⟩
    | false =>
      have hnoip : ¬ di.IsIpaddr cfg := by simp [DataItem.IsIpaddr, hipaddr]
      exact ⟨metricsUpdated_of_not_isMetric hno, addressesUpdated_of_not_isIpaddr hnoip, rfl, rfl⟩

/-- An update does not throw, by induction over its data items. -/
theorem wp_update (h : ∀ di ∈ items, di.Classified cfg) (dd : DestinationData) :
    wp (update cfg items) (fun _ dd' => Updated cfg items dd dd') (fun _ _ => False) dd := by
  unfold update
  induction items generalizing dd with
  | nil => exact updated_nil
  | cons di items ih =>
    obtain ⟨hdi, hitems⟩ := List.forall_mem_cons.1 h
    rw [List.forM, wp_bind]
    refine (wp_store hdi dd).mono (fun _ dd₁ h₁ => ?_) fun _ _ h => h
    exact (ih hitems dd₁).mono (fun _ dd₂ h₂ => h₁.append h₂) fun _ _ h => h

/-- A new destination is an empty one that was updated. -/
theorem create_updated (mac : DlepMac) (h : ∀ di ∈ items, di.Classified cfg) :
    ∃ dd, create cfg mac items = .ok dd ∧ Updated cfg items { macAddress := mac } dd := by
  obtain ⟨_, dd, hrun, hdd⟩ := (wp_update h { macAddress := mac }).exists_ok
  exact ⟨dd, by rw [create, hrun], hdd⟩

end

end DestinationData

section

variable [AddressText] {cfg : ProtocolConfig}

/-! ## Peers -/

namespace PeerData

omit [AddressText] in
/-- The addresses of a peer, and of its destinations. -/
def addresses (pd : PeerData) : Option DlepMac → List Address
  | none => addressesOf pd.ipDataItems
  | some mac =>
    match pd.destinationData[mac]? with
    | some dd => addressesOf dd.ipDataItems
    | none => []

section

omit [AddressText]

variable {pd : PeerData} {mac : DlepMac}

/-- Storing a destination replaces its addresses. -/
theorem addresses_insert {dd : DestinationData} :
    ({ pd with destinationData := pd.destinationData.insert mac dd } : PeerData).addresses =
      Function.update pd.addresses (some mac) (addressesOf dd.ipDataItems) := by
  funext o
  cases o with
  | none => rfl
  | some mac' =>
    rcases eq_or_ne mac' mac with rfl | hne
    · rw [Function.update_self, addresses, ExtTreeMap.getElem?_insert_self]
    · rw [Function.update_of_ne (by simpa using hne), addresses, addresses,
        ExtTreeMap.getElem?_insert, if_neg fun heq => hne (compare_eq_iff_eq.1 heq).symm]

/-- A destination that is erased has no addresses. -/
theorem addresses_erase :
    ({ pd with destinationData := pd.destinationData.erase mac } : PeerData).addresses =
      Function.update pd.addresses (some mac) [] := by
  funext o
  cases o with
  | none => rfl
  | some mac' =>
    rcases eq_or_ne mac' mac with rfl | hne
    · rw [Function.update_self, addresses, ExtTreeMap.getElem?_erase_self]
    · rw [Function.update_of_ne (by simpa using hne), addresses, addresses,
        ExtTreeMap.getElem?_erase, if_neg fun heq => hne (compare_eq_iff_eq.1 heq).symm]

/-- What is no destination has no addresses. -/
theorem addresses_of_not_valid (h : pd.validDestination mac = false) :
    pd.addresses (some mac) = [] := by
  rw [validDestination_eq_isSome, Option.isSome_eq_false_iff, Option.isNone_iff_eq_none,
    getDestinationData] at h
  rw [addresses, h]

/-- What is owed for a destination does not matter for the addresses. -/
theorem addresses_setNeedsResponse {name : String} :
    (pd.setNeedsResponse mac name).addresses = pd.addresses := by
  funext o
  cases o with
  | none => rfl
  | some mac' =>
    rw [setNeedsResponse, addresses, addresses, ExtTreeMap.getElem?_modify]
    rcases eq_or_ne mac' mac with rfl | hne
    · rw [if_pos ReflCmp.compare_self]
      cases pd.destinationData[mac']? with
      | none => rfl
      | some dd => rfl
    · rw [if_neg fun heq => hne (Std.compare_eq_iff_eq.1 heq).symm]

/-- Removing a destination takes its addresses away. -/
theorem wp_removeDestination (pd : PeerData) :
    wp (removeDestination mac)
      (fun ok pd' => ok = pd.validDestination mac ∧
        pd'.addresses = Function.update pd.addresses (some mac) [])
      (fun _ _ => False) pd := by
  simp only [removeDestination, wp_bind, wp_get]
  cases hvalid : pd.validDestination mac with
  | true => exact ⟨rfl, addresses_erase⟩
  | false => exact ⟨rfl, by rw [← addresses_of_not_valid hvalid, Function.update_eq_self]⟩

end

variable {pd : PeerData} {mac : DlepMac}

/-- A destination that was not there is added, with what its constructor takes of the data items. -/
theorem wp_addDestination_created {items : DataItems} (h : ∀ di ∈ items, di.Classified cfg)
    (hnew : pd.validDestination mac = false) :
    wp (addDestination cfg mac items)
      (fun ok pd' => ok = true ∧ ∃ dd : DestinationData,
        DestinationData.Updated cfg items { macAddress := mac } dd ∧
        pd' = { pd with destinationData := pd.destinationData.insert mac dd })
      (fun _ _ => False) pd := by
  obtain ⟨dd, hdd, hupdated⟩ := DestinationData.create_updated mac h
  simp only [addDestination, wp_bind, wp_get, hnew, Bool.false_eq_true, if_false, hdd, wp_lift_ok,
    wp_modify, wp_pure, true_and]
  exact ⟨dd, hupdated, rfl⟩

/-- A new destination has the addresses that its data items request. -/
theorem wp_addDestination {items : DataItems} (h : ∀ di ∈ items, di.Classified cfg)
    (hnew : pd.validDestination mac = false) :
    wp (addDestination cfg mac items)
      (fun ok pd' => ok = true ∧ pd'.addresses =
        Function.update pd.addresses (some mac)
          (applyAll (pd.addresses (some mac)) (requests cfg items)))
      (fun _ _ => False) pd := by
  refine (wp_addDestination_created h hnew).mono (fun ok pd' hpd' => ?_) fun _ _ h => h
  obtain ⟨hok, dd, hupdated, rfl⟩ := hpd'
  refine ⟨hok, ?_⟩
  rw [addresses_insert, hupdated.ips.addresses, addresses_of_not_valid hnew]
  rfl

omit [AddressText] in
/-- A call on a destination changes the addresses of that destination. -/
theorem wp_onDestination {m : EStateM Exn DestinationData Unit} {dd : DestinationData}
    (hdd : pd.destinationData[mac]? = some dd) {ks : List Address}
    (hm : wp m (fun _ dd' => addressesOf dd'.ipDataItems = ks)
      (fun _ dd' => addressesOf dd'.ipDataItems = ks) dd) :
    wp (onDestination mac m) (fun _ pd' => pd'.addresses =
      Function.update pd.addresses (some mac) ks)
      (fun _ pd' => pd'.addresses = Function.update pd.addresses (some mac) ks) pd := by
  simp only [onDestination, wp_bind, wp_get, hdd]
  refine wp_zoom.2 (hm.mono (fun _ dd' hdd' => ?_) fun _ dd' hdd' => ?_)
  · rw [addresses_insert, hdd']
  · rw [addresses_insert, hdd']

/-- The peer after its own part of an update, which leaves its destinations alone. -/
structure Stored (cfg : ProtocolConfig) (statusId : DataItemIdType) (items : DataItems)
    (pd pd' : PeerData) : Prop where
  metrics : MetricsUpdated cfg items pd.metricDataItems pd'.metricDataItems
  ips : AddressesUpdated cfg items pd.ipDataItems pd'.ipDataItems
  other : pd'.otherDataItems = pd.otherDataItems ++ items.filter fun di =>
    decide (¬ di.IsMetric cfg ∧ ¬ di.IsIpaddr cfg ∧ di.id ≠ statusId)
  destinationData : pd'.destinationData = pd.destinationData
  peerId : pd'.peerId = pd.peerId

omit [AddressText] in
/-- Without data items nothing is stored. -/
theorem stored_nil {statusId : DataItemIdType} : Stored cfg statusId [] pd pd :=
  ⟨metricsUpdated_nil, addressesUpdated_nil, (List.append_nil _).symm, rfl, rfl⟩

omit [AddressText] in
/-- Data items are stored one list after the other. -/
theorem Stored.append {statusId : DataItemIdType} {items items' : DataItems} {pd' pd'' : PeerData}
    (h : Stored cfg statusId items pd pd') (h' : Stored cfg statusId items' pd' pd'') :
    Stored cfg statusId (items ++ items') pd pd'' where
  metrics := h.metrics.append h'.metrics
  ips := h.ips.append h'.ips
  other := by rw [h'.other, h.other, List.filter_append, List.append_assoc]
  destinationData := h'.destinationData.trans h.destinationData
  peerId := h'.peerId.trans h.peerId

/-- The data items go to the peer, and the metrics are returned. -/
theorem wp_storeDataItems_stored {statusId : DataItemIdType} {items : DataItems}
    (h : ∀ di ∈ items, di.Classified cfg) (pd : PeerData) :
    wp (storeDataItems cfg statusId items)
      (fun metrics pd' => metrics = items.filter (fun di => decide (di.IsMetric cfg)) ∧
        Stored cfg statusId items pd pd')
      (fun _ _ => False) pd := by
  induction items generalizing pd with
  | nil => exact ⟨rfl, stored_nil⟩
  | cons di items ih =>
    obtain ⟨hdi, hitems⟩ := List.forall_mem_cons.1 h
    obtain ⟨metric, hmetric⟩ := hdi.isMetric
    obtain ⟨ipaddr, hipaddr⟩ := hdi
    simp only [storeDataItems, hmetric, hipaddr, lift_ok_bind]
    cases metric with
    | true =>
      have his : di.IsMetric cfg := hmetric
      have hno : ¬ di.IsIpaddr cfg := by simp [DataItem.IsIpaddr, hmetric]
      have hone : Stored cfg statusId [di] pd
          { pd with metricDataItems := pd.metricDataItems.insert di.id di } :=
        ⟨metricsUpdated_insert his, addressesUpdated_of_not_isIpaddr hno, by simp [his], rfl, rfl⟩
      simp only [if_true, wp_bind, wp_modify, wp_pure]
      refine (ih hitems _).mono (fun metrics pd' hrest => ?_) fun _ _ h => h
      exact ⟨by simp [hrest.1, his], hone.append hrest.2⟩
    | false =>
      have hno : ¬ di.IsMetric cfg := by simp [DataItem.IsMetric, hmetric]
      rw [List.filter_cons_of_neg (by simpa using hno)]
      cases ipaddr with
      | true =>
        have hip : di.IsIpaddr cfg := ⟨hmetric, hipaddr⟩
        obtain ⟨ips, hips, hupdated⟩ := hip.updateIpDataItems pd.ipDataItems
        have hone : Stored cfg statusId [di] pd { pd with ipDataItems := ips } :=
          ⟨metricsUpdated_of_not_isMetric hno, hupdated, by simp [hip], rfl, rfl⟩
        simp only [Bool.false_eq_true, if_false, if_true, wp_bind, wp_get, hips, wp_lift_ok,
          wp_modify]
        exact (ih hitems _).mono (fun _ _ hrest => ⟨hrest.1, hone.append hrest.2⟩) fun _ _ h => h
      | false =>
        have hnoip : ¬ di.IsIpaddr cfg := by simp [DataItem.IsIpaddr, hipaddr]
        simp only [Bool.false_eq_true, if_false]
        split
        · next hid =>
          have hone : Stored cfg statusId [di] pd
              { pd with otherDataItems := pd.otherDataItems ++ [di] } :=
            ⟨metricsUpdated_of_not_isMetric hno, addressesUpdated_of_not_isIpaddr hnoip,
              by simp [hno, hnoip, hid], rfl, rfl⟩
          simp only [wp_bind, wp_modify]
          exact (ih hitems _).mono (fun _ _ hrest => ⟨hrest.1, hone.append hrest.2⟩) fun _ _ h => h
        · next hid =>
          have hone : Stored cfg statusId [di] pd pd :=
            ⟨metricsUpdated_of_not_isMetric hno, addressesUpdated_of_not_isIpaddr hnoip,
              by simp [not_not.1 hid], rfl, rfl⟩
          exact (ih hitems _).mono (fun _ _ hrest => ⟨hrest.1, hone.append hrest.2⟩) fun _ _ h => h

/-- The destinations in the list are updated, and the other ones are not touched. -/
structure Spread (cfg : ProtocolConfig) (items : DataItems) (macs : List DlepMac)
    (pd pd' : PeerData) : Prop where
  listed : ∀ (mac : DlepMac) (dd : DestinationData), mac ∈ macs →
    pd.destinationData[mac]? = some dd →
    ∃ dd', pd'.destinationData[mac]? = some dd' ∧ DestinationData.Updated cfg items dd dd'
  absent : ∀ mac : DlepMac, pd.destinationData[mac]? = none → pd'.destinationData[mac]? = none
  other : ∀ mac : DlepMac, mac ∉ macs → pd'.destinationData[mac]? = pd.destinationData[mac]?
  own : pd' = { pd with destinationData := pd'.destinationData }

/-- The metrics of an update go to every destination of the list, by induction over it. -/
theorem wp_forM_spread {items : DataItems} {macs : List DlepMac}
    (h : ∀ di ∈ items, di.Classified cfg) (hmacs : macs.Nodup) (pd : PeerData) :
    wp (macs.forM fun mac => onDestination mac (DestinationData.update cfg items))
      (fun _ pd' => Spread cfg items macs pd pd') (fun _ _ => False) pd := by
  induction macs generalizing pd with
  | nil => exact ⟨by simp, fun _ h => h, fun _ _ => rfl, rfl⟩
  | cons mac macs ih =>
    obtain ⟨hnew, hmacs⟩ := List.nodup_cons.1 hmacs
    have hone : wp (onDestination mac (DestinationData.update cfg items))
        (fun _ pd' => Spread cfg items [mac] pd pd') (fun _ _ => False) pd := by
      simp only [onDestination, wp_bind, wp_get]
      cases hdd : pd.destinationData[mac]? with
      | none =>
        refine ⟨fun mac' dd hmem hdd' => ?_, fun _ h => h, fun _ _ => rfl, rfl⟩
        rw [List.mem_singleton.1 hmem, hdd] at hdd'
        cases hdd'
      | some dd =>
        refine wp_zoom.2 ((DestinationData.wp_update h dd).mono (fun _ dd' hdd' => ?_)
          fun _ _ h => h)
        refine ⟨fun mac' dd₀ hmem hdd₀ => ?_, fun mac' hnone => ?_, fun mac' hmem => ?_, rfl⟩
        · obtain rfl := List.mem_singleton.1 hmem
          obtain rfl := Option.some.inj (hdd.symm.trans hdd₀)
          exact ⟨dd', ExtTreeMap.getElem?_insert_self, hdd'⟩
        · have hne : mac ≠ mac' := by
            rintro rfl
            rw [hdd] at hnone
            cases hnone
          rw [ExtTreeMap.getElem?_insert,
            if_neg fun heq => hne (Std.compare_eq_iff_eq.1 heq), hnone]
        · have hne : mac ≠ mac' := fun heq => hmem (heq ▸ List.mem_singleton_self _)
          rw [ExtTreeMap.getElem?_insert, if_neg fun heq => hne (Std.compare_eq_iff_eq.1 heq)]
    rw [List.forM, wp_bind]
    refine hone.mono (fun _ pd₁ h₁ => ?_) fun _ _ h => h
    refine (ih hmacs pd₁).mono (fun _ pd₂ h₂ => ?_) fun _ _ h => h
    refine ⟨fun mac' dd hmem hdd => ?_, fun mac' hnone => h₂.absent mac' (h₁.absent mac' hnone),
      fun mac' hmem => ?_, ?_⟩
    · rcases List.mem_cons.1 hmem with rfl | hlater
      · obtain ⟨dd', hdd', hupdated⟩ := h₁.listed mac' dd (List.mem_singleton_self _) hdd
        exact ⟨dd', (h₂.other mac' hnew).trans hdd', hupdated⟩
      · have hne : mac' ∉ [mac] := by
          rw [List.mem_singleton]
          rintro rfl
          exact hnew hlater
        exact h₂.listed mac' dd hlater ((h₁.other mac' hne).trans hdd)
    · obtain ⟨hne, hmem⟩ := not_or.1 fun h => hmem (List.mem_cons.2 h)
      rw [h₂.other mac' hmem, h₁.other mac' (by simpa using hne)]
    · rw [h₂.own, h₁.own]

/-- The peer after an update that was not refused: its own data has the data items, and the metrics
have gone to all its destinations. -/
structure Updated (cfg : ProtocolConfig) (statusId : DataItemIdType) (items : DataItems)
    (pd pd' : PeerData) : Prop where
  metrics : MetricsUpdated cfg items pd.metricDataItems pd'.metricDataItems
  ips : AddressesUpdated cfg items pd.ipDataItems pd'.ipDataItems
  other : pd'.otherDataItems = pd.otherDataItems ++ items.filter fun di =>
    decide (¬ di.IsMetric cfg ∧ ¬ di.IsIpaddr cfg ∧ di.id ≠ statusId)
  destination : ∀ (mac : DlepMac) (dd : DestinationData), pd.destinationData[mac]? = some dd →
    ∃ dd', pd'.destinationData[mac]? = some dd' ∧
      DestinationData.Updated cfg (items.filter fun di => decide (di.IsMetric cfg)) dd dd'
  absent : ∀ mac : DlepMac, pd.destinationData[mac]? = none → pd'.destinationData[mac]? = none
  peerId : pd'.peerId = pd.peerId

/-- An update is stored unless a metric in it is unknown, or the status has no id. -/
theorem wp_updateDataItems_updated {items : DataItems} (h : ∀ di ∈ items, di.Classified cfg)
    {unknown : Bool} (hunknown : hasUnknownMetric cfg pd.metricDataItems items = .ok unknown) :
    wp (updateDataItems cfg items)
      (fun status pd' => if unknown then status = "Invalid_Message" ∧ pd' = pd
        else status = "Success" ∧ ∃ id, cfg.getDataItemId "Status" none = .ok id ∧
          Updated cfg id items pd pd')
      (fun _ pd' => unknown = false ∧ pd' = pd ∧ ¬ ∃ id, cfg.getDataItemId "Status" none = .ok id)
      pd := by
  simp only [updateDataItems, wp_bind, wp_get, hunknown, wp_lift_ok]
  cases unknown with
  | true => exact ⟨rfl, rfl⟩
  | false =>
    simp only [Bool.false_eq_true, if_false, updateDataItemsHelper, wp_bind]
    refine wp_lift (fun id hid => ?_) fun e he => ⟨trivial, rfl, by simp [he]⟩
    refine (wp_storeDataItems_stored h pd).mono (fun metrics pd₁ h₁ => ?_) fun _ _ h => h.elim
    obtain ⟨rfl, hstored⟩ := h₁
    rw [wp_get]
    have hmetrics : ∀ di ∈ items.filter (fun di => decide (di.IsMetric cfg)), di.Classified cfg :=
      fun di hdi => h di (List.mem_of_mem_filter hdi)
    refine (wp_forM_spread hmetrics ExtTreeMap.nodup_keys pd₁).mono (fun _ pd₂ h₂ => ?_)
      fun _ _ h => h.elim
    obtain ⟨dests, rfl⟩ : ∃ dests, pd₂ = { pd₁ with destinationData := dests } := ⟨_, h₂.own⟩
    refine ⟨rfl, id, hid, hstored.metrics, hstored.ips, hstored.other, fun mac dd hdd => ?_,
      fun mac hnone => ?_, hstored.peerId⟩
    · rw [← hstored.destinationData] at hdd
      refine h₂.listed mac dd (ExtTreeMap.mem_keys.2 ?_) hdd
      exact ExtTreeMap.mem_iff_isSome_getElem?.2 (by rw [hdd]; rfl)
    · exact h₂.absent mac (by rw [hstored.destinationData, hnone])

/-- An update with known data items fails only if the status has no id, and then writes nothing.
It is a success unless a metric is unknown. -/
theorem wp_updateDataItems {items : DataItems} (h : items.Known cfg) (pd : PeerData) :
    wp (updateDataItems cfg items)
      (fun status _ => hasUnknownMetric cfg pd.metricDataItems items = .ok false →
        status = "Success")
      (fun _ pd' => pd' = pd ∧ ¬ ∃ id, cfg.getDataItemId "Status" none = .ok id) pd := by
  obtain ⟨unknown, hunknown⟩ := hasUnknownMetric_ok h pd.metricDataItems
  refine (wp_updateDataItems_updated h.classified hunknown).mono (fun status pd' hpd' hfalse => ?_)
    fun _ pd' hpd' => hpd'.2
  cases unknown with
  | true =>
    rw [hunknown] at hfalse
    cases hfalse
  | false => exact hpd'.1

omit [AddressText] in
/-- The metrics that go to the destinations do not change their addresses. -/
theorem addresses_of_updated {statusId : DataItemIdType} {items : DataItems} {pd' : PeerData}
    (h : Updated cfg statusId items pd pd') :
    pd'.addresses =
      Function.update pd.addresses none (applyAll (pd.addresses none) (requests cfg items)) := by
  funext o
  cases o with
  | none =>
    rw [Function.update_self]
    exact h.ips.addresses
  | some mac =>
    rw [Function.update_of_ne (by simp), addresses, addresses]
    cases hdd : pd.destinationData[mac]? with
    | none => rw [h.absent mac hdd]
    | some dd =>
      obtain ⟨dd', hdd', hupdated⟩ := h.destination mac dd hdd
      have hsame : dd'.ipDataItems = dd.ipDataItems := by
        refine hupdated.ips.same fun di hdi hip => ?_
        have hmetric : di.IsMetric cfg := of_decide_eq_true (List.mem_filter.1 hdi).2
        have hboth := hmetric.symm.trans hip.1
        cases hboth
      rw [hdd']
      exact congrArg addressesOf hsame

/-- An update is stored unless a metric in it is unknown, or the status has no id. -/
theorem wp_updateDataItems_addresses {items : DataItems} (h : items.Known cfg) {unknown : Bool}
    (hunknown : hasUnknownMetric cfg pd.metricDataItems items = .ok unknown) :
    wp (updateDataItems cfg items)
      (fun _ pd' => if unknown then pd' = pd
        else (∃ id, cfg.getDataItemId "Status" none = .ok id) ∧ pd'.addresses =
          Function.update pd.addresses none (applyAll (pd.addresses none) (requests cfg items)))
      (fun _ pd' => pd' = pd ∧ ¬ ∃ id, cfg.getDataItemId "Status" none = .ok id) pd := by
  refine (wp_updateDataItems_updated h.classified hunknown).mono (fun _ pd' hpd' => ?_)
    fun _ pd' hpd' => hpd'.2
  cases unknown with
  | true => exact hpd'.2
  | false =>
    obtain ⟨_, id, hid, hupdated⟩ := hpd'
    exact ⟨⟨id, hid⟩, addresses_of_updated hupdated⟩

end PeerData

end

end Dlep
