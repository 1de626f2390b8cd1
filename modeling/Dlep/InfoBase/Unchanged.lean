import Dlep.Peer.Addresses

/-!
# Updates that change nothing

An update leaves what is stored as it is exactly if all of it is there already: every metric has
the value that is given last, the addresses that are added and dropped leave the list that was
there, and there is nothing that is only appended.
-/

namespace Dlep

open Std Calls LastWrite

/-- The metrics alone make the same of the metrics. -/
theorem metricsUpdated_filter {cfg : ProtocolConfig} {items : DataItems} {m m' : DataItemMap}
    (h : MetricsUpdated cfg (items.filter fun di => decide (di.IsMetric cfg)) m m') :
    MetricsUpdated cfg items m m' := by
  intro id
  have hboth : ∀ di : DataItem,
    (decide (di.IsMetric cfg ∧ di.id = id) && decide (di.IsMetric cfg)) =
      decide (di.IsMetric cfg ∧ di.id = id) := by
    intro di
    rw [Bool.eq_iff_iff, Bool.and_eq_true, decide_eq_true_iff, decide_eq_true_iff]
    exact and_iff_left_of_imp And.left
  rw [h id, LastWrite.last, LastWrite.last, List.filter_filter]
  simp only [hboth]

section

variable [AddressText] {cfg : ProtocolConfig} {items : DataItems}

/-- The addresses among the data items, added and dropped one after the other. -/
def storeAddresses (cfg : ProtocolConfig) (ips items : DataItems) : Except Exn DataItems :=
  (items.filter fun di => decide (di.IsIpaddr cfg)).foldlM (updateIpDataItems cfg) ips

/-- An address is added or dropped, and then the rest is. -/
theorem storeAddresses_cons {di : DataItem} {ips : DataItems} (h : di.IsIpaddr cfg) :
    storeAddresses cfg ips (di :: items) =
      updateIpDataItems cfg ips di >>= fun ips' => storeAddresses cfg ips' items := by
  simp only [storeAddresses, List.filter_cons, h, decide_true, if_true, List.foldlM_cons]

/-- A data item that is no address is skipped. -/
theorem storeAddresses_cons_of_not {di : DataItem} {ips : DataItems} (h : ¬ di.IsIpaddr cfg) :
    storeAddresses cfg ips (di :: items) = storeAddresses cfg ips items := by
  simp only [storeAddresses, List.filter_cons, h, decide_false, Bool.false_eq_true, if_false]

namespace DestinationData

variable {dd : DestinationData}

/-- All of the update is there already. -/
structure Subsumes (cfg : ProtocolConfig) (items : DataItems) (dd : DestinationData) : Prop where
  metrics : MetricsUpdated cfg items dd.metricDataItems dd.metricDataItems
  addresses : storeAddresses cfg dd.ipDataItems items = .ok dd.ipDataItems

/-- The addresses of a destination after an update. -/
theorem wp_update_addresses (h : ∀ di ∈ items, di.Classified cfg) (dd : DestinationData) :
    wp (update cfg items) (fun _ dd' => storeAddresses cfg dd.ipDataItems items =
      .ok dd'.ipDataItems)
      (fun _ _ => False) dd := by
  unfold update
  induction items generalizing dd with
  | nil => exact rfl
  | cons di items ih =>
    obtain ⟨hdi, hitems⟩ := List.forall_mem_cons.1 h
    obtain ⟨metric, hmetric⟩ := hdi.isMetric
    obtain ⟨ipaddr, hipaddr⟩ := hdi
    rw [List.forM, wp_bind]
    simp only [store, hmetric, hipaddr, lift_ok_bind]
    cases metric with
    | true =>
      have hno : ¬ di.IsIpaddr cfg := by simp [DataItem.IsIpaddr, hmetric]
      rw [storeAddresses_cons_of_not hno]
      exact ih hitems _
    | false =>
      cases ipaddr with
      | true =>
        have hip : di.IsIpaddr cfg := ⟨hmetric, hipaddr⟩
        obtain ⟨ips, hips, _⟩ := hip.updateIpDataItems dd.ipDataItems
        rw [storeAddresses_cons hip, hips, ok_bind]
        simp only [Bool.false_eq_true, if_false, if_true, wp_bind, wp_get, hips,
          wp_lift_ok, wp_modify]
        exact ih hitems _
      | false =>
        have hno : ¬ di.IsIpaddr cfg := by simp [DataItem.IsIpaddr, hipaddr]
        rw [storeAddresses_cons_of_not hno]
        exact ih hitems _

omit [AddressText] in
/-- An update that changes neither the metrics nor the addresses. -/
theorem Updated.eq_self {dd' : DestinationData} (h : Updated cfg items dd dd')
    (hmetrics : ∀ id : DataItemIdType, dd'.metricDataItems[id]? = dd.metricDataItems[id]?)
    (hips : dd'.ipDataItems = dd.ipDataItems) : dd' = dd := by
  have hmetrics := ExtTreeMap.ext_getElem? hmetrics
  obtain ⟨mac, metrics, ips, needs⟩ := dd
  obtain ⟨mac', metrics', ips', needs'⟩ := dd'
  obtain rfl : mac' = mac := h.macAddress
  obtain rfl : needs' = needs := h.needsResponse
  obtain rfl : metrics' = metrics := hmetrics
  obtain rfl : ips' = ips := hips
  rfl

/-- A destination is as before exactly if all of the update was there. -/
theorem wp_update_eq_self_iff (h : ∀ di ∈ items, di.Classified cfg) (dd : DestinationData) :
    wp (update cfg items) (fun _ dd' => dd' = dd ↔ dd.Subsumes cfg items)
      (fun _ _ => False) dd := by
  refine ((wp_update h dd).and (wp_update_addresses h dd)).mono ?_ fun _ _ h => h.1
  rintro _ dd' ⟨hupdated, haddresses⟩
  constructor
  · rintro rfl
    exact ⟨hupdated.metrics, haddresses⟩
  · intro hsub
    exact hupdated.eq_self (fun id => (hupdated.metrics id).trans (hsub.metrics id).symm)
      (Except.ok.inj (haddresses.symm.trans hsub.addresses))

end DestinationData

namespace PeerData

variable {pd : PeerData} {statusId : DataItemIdType}

/-- All of the update is there already, of the peer and of its destinations, and there is nothing
that is only appended. -/
structure Subsumes (cfg : ProtocolConfig) (statusId : DataItemIdType) (items : DataItems)
    (pd : PeerData) :
    Prop where
  metrics : MetricsUpdated cfg items pd.metricDataItems pd.metricDataItems
  addresses : storeAddresses cfg pd.ipDataItems items = .ok pd.ipDataItems
  other : ∀ di ∈ items, di.IsMetric cfg ∨ di.IsIpaddr cfg ∨ di.id = statusId
  destinations : ∀ (mac : DlepMac) (dd : DestinationData), pd.destinationData[mac]? = some dd →
    MetricsUpdated cfg items dd.metricDataItems dd.metricDataItems

/-- The addresses of a peer after its own part of an update. -/
theorem wp_storeDataItems_addresses (h : ∀ di ∈ items, di.Classified cfg) (pd : PeerData) :
    wp (storeDataItems cfg statusId items)
      (fun _ pd' => storeAddresses cfg pd.ipDataItems items = .ok pd'.ipDataItems)
      (fun _ _ => False) pd := by
  induction items generalizing pd with
  | nil => exact rfl
  | cons di items ih =>
    obtain ⟨hdi, hitems⟩ := List.forall_mem_cons.1 h
    obtain ⟨metric, hmetric⟩ := hdi.isMetric
    obtain ⟨ipaddr, hipaddr⟩ := hdi
    simp only [storeDataItems, hmetric, hipaddr, lift_ok_bind]
    cases metric with
    | true =>
      have hno : ¬ di.IsIpaddr cfg := by simp [DataItem.IsIpaddr, hmetric]
      rw [storeAddresses_cons_of_not hno]
      simp only [if_true, wp_bind, wp_modify, wp_pure]
      exact ih hitems _
    | false =>
      cases ipaddr with
      | true =>
        have hip : di.IsIpaddr cfg := ⟨hmetric, hipaddr⟩
        obtain ⟨ips, hips, _⟩ := hip.updateIpDataItems pd.ipDataItems
        rw [storeAddresses_cons hip, hips, ok_bind]
        simp only [Bool.false_eq_true, if_false, if_true, wp_bind, wp_get, hips,
          wp_lift_ok, wp_modify]
        exact ih hitems _
      | false =>
        have hno : ¬ di.IsIpaddr cfg := by simp [DataItem.IsIpaddr, hipaddr]
        rw [storeAddresses_cons_of_not hno]
        simp only [Bool.false_eq_true, if_false]
        split
        · simp only [wp_bind, wp_modify]
          exact ih hitems _
        · exact ih hitems _

/-- The addresses of a peer after an update that was not refused. -/
theorem wp_updateDataItems_storeAddresses (h : ∀ di ∈ items, di.Classified cfg)
    (hunknown : hasUnknownMetric cfg pd.metricDataItems items = .ok false) :
    wp (updateDataItems cfg items)
      (fun _ pd' => storeAddresses cfg pd.ipDataItems items = .ok pd'.ipDataItems)
      (fun _ _ => True) pd := by
  simp only [updateDataItems, wp_bind, wp_get, hunknown, wp_lift_ok, Bool.false_eq_true, if_false,
    updateDataItemsHelper]
  refine wp_lift (fun statusId _ => ?_) fun _ _ => trivial
  have hstored := (@wp_storeDataItems_stored _ cfg statusId items h pd).and
    (@wp_storeDataItems_addresses _ cfg items statusId h pd)
  refine hstored.mono (fun metrics pd₁ h₁ => ?_) fun _ _ h => trivial
  obtain ⟨⟨rfl, _⟩, hips⟩ := h₁
  have hmetrics : ∀ di ∈ items.filter (fun di => decide (di.IsMetric cfg)), di.Classified cfg :=
    fun di hdi => h di (List.mem_of_mem_filter hdi)
  refine (wp_forM_spread hmetrics ExtTreeMap.nodup_keys pd₁).mono (fun _ pd₂ h₂ => ?_)
    fun _ _ h => trivial
  rw [wp_pure, h₂.own]
  exact hips

/-- The peer is as before exactly if all of the update was there. -/
theorem wp_updateDataItems_eq_self_iff (h : ∀ di ∈ items, di.Classified cfg)
    (hunknown : hasUnknownMetric cfg pd.metricDataItems items = .ok false)
    (hstatus : cfg.getDataItemId "Status" none = .ok statusId) :
    wp (updateDataItems cfg items)
      (fun status pd' => status = "Success" ∧ (pd' = pd ↔ pd.Subsumes cfg statusId items))
      (fun _ _ => False) pd := by
  have haddresses := wp_updateDataItems_storeAddresses h hunknown
  refine ((wp_updateDataItems_updated h hunknown).and haddresses).mono ?_ ?_
  · rintro status pd' ⟨⟨rfl, id, hid, hupdated⟩, hips⟩
    obtain rfl := Except.ok.inj (hstatus.symm.trans hid)
    refine ⟨rfl, fun hsame => ?_, fun hsub => ?_⟩
    · subst hsame
      refine ⟨hupdated.metrics, hips, fun di hdi => ?_, fun mac dd hdd => ?_⟩
      · have hnone :=
          List.filter_eq_nil_iff.1 (List.append_right_eq_self.1 hupdated.other.symm) di hdi
        by_contra hno
        simp only [not_or] at hno
        exact hnone (decide_eq_true hno)
      · obtain ⟨dd', hdd', hdest⟩ := hupdated.destination mac dd hdd
        obtain rfl := Option.some.inj (hdd.symm.trans hdd')
        exact metricsUpdated_filter hdest.metrics
    · have hnone : (items.filter fun di =>
          decide (¬ di.IsMetric cfg ∧ ¬ di.IsIpaddr cfg ∧ di.id ≠ statusId)) = [] := by
        refine List.filter_eq_nil_iff.2 fun di hdi hdec => ?_
        obtain ⟨hmetric, hip, hid⟩ := of_decide_eq_true hdec
        rcases hsub.other di hdi with h | h | h
        · exact hmetric h
        · exact hip h
        · exact hid h
      have hother := hupdated.other
      rw [hnone, List.append_nil] at hother
      have hmetrics : pd'.metricDataItems = pd.metricDataItems :=
        ExtTreeMap.ext_getElem? fun id => (hupdated.metrics id).trans (hsub.metrics id).symm
      have hips' : pd'.ipDataItems = pd.ipDataItems :=
        Except.ok.inj (hips.symm.trans hsub.addresses)
      have hdests : pd'.destinationData = pd.destinationData := by
        refine ExtTreeMap.ext_getElem? fun mac => ?_
        cases hdd : pd.destinationData[mac]? with
        | none => exact hupdated.absent mac hdd
        | some dd =>
          obtain ⟨dd', hdd', hdest⟩ := hupdated.destination mac dd hdd
          have hno : ∀ di ∈ items.filter (fun di => decide (di.IsMetric cfg)),
              ¬ di.IsIpaddr cfg := by
            intro di hdi hip
            have hmetric : cfg.isMetric di.id none = .ok true :=
              of_decide_eq_true (List.mem_filter.1 hdi).2
            rw [hip.1] at hmetric
            cases hmetric
          rw [hdd', hdest.eq_self (fun id => ?_) (hdest.ips.same hno)]
          exact (metricsUpdated_filter hdest.metrics id).trans
            (hsub.destinations mac dd hdd id).symm
      obtain ⟨peerId, dests, metrics, ips, other⟩ := pd
      obtain ⟨peerId', dests', metrics', ips', other'⟩ := pd'
      obtain rfl : peerId' = peerId := hupdated.peerId
      obtain rfl : dests' = dests := hdests
      obtain rfl : metrics' = metrics := hmetrics
      obtain rfl : ips' = ips := hips'
      obtain rfl : other' = other := hother
      rfl
  · rintro _ _ ⟨⟨_, _, hnone⟩, _⟩
    exact hnone ⟨statusId, hstatus⟩

end PeerData

end

end Dlep
