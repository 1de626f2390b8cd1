import Dlep.DestAdvert.Declared
import Dlep.InfoBase.LastWriter

/-!
# Metrics given by RF ID

The metrics that the client gives for a remote modem go to the destinations it has advertised so
far, and are kept for the ones it advertises later. The destinations merge what they are given;
what is kept for the later ones is the last call alone. So a later destination has all metrics
exactly if every metric that was given before that call is given again in it, or after the
destination was advertised.
-/

namespace Dlep

open Std Calls Runs LastWrite

namespace Node

/-! ## The destinations of the node -/

section

variable [AddressText] {n : Node} {s : Surroundings} {mac : DlepMac} {items : DataItems}

/-- The data of the given destinations are written, each as `U` says, and nothing else that the node
knows of destinations. -/
structure Wrote (macs : List DlepMac) (U : Option DestinationData → DestinationData → Prop)
    (n n' : Node) : Prop where
  role : SameRole n n'
  others : ∀ key ∉ macs, n'.localPdp.destinationData[key]? = n.localPdp.destinationData[key]?
  written : ∀ mac ∈ macs, ∃ dd, n'.localPdp.destinationData[mac]? = some dd ∧
    U n.localPdp.destinationData[mac]? dd

omit [AddressText] in
/-- Storing the data of one destination writes it and nothing else. -/
theorem wrote_withDestination {U : Option DestinationData → DestinationData → Prop} {n' : Node}
    {dd : DestinationData} (h : SameData (n.withDestination mac dd) n')
    (hU : U n.localPdp.destinationData[mac]? dd) : Wrote [mac] U n n' := by
  refine ⟨⟨h.cfg, h.modem, h.enabled⟩, fun key hkey => ?_, fun key hkey => ?_⟩
  · rw [h.localPdp, withDestination, ExtTreeMap.getElem?_insert, if_neg]
    rw [Std.compare_eq_iff_eq]
    exact fun hsame => hkey (List.mem_singleton.2 hsame.symm)
  · obtain rfl := List.mem_singleton.1 hkey
    refine ⟨dd, ?_, hU⟩
    rw [h.localPdp]
    exact ExtTreeMap.getElem?_insert_self

omit [AddressText] in
/-- One destination after the other. -/
theorem wrote_forM {f : DlepMac → NodeM Unit} {macs : List DlepMac}
    {U : Option DestinationData → DestinationData → Prop} (hnodup : macs.Nodup)
    (h : ∀ n₁, SameRole n n₁ → ∀ mac ∈ macs,
      n₁.localPdp.destinationData[mac]? = n.localPdp.destinationData[mac]? →
      wp (f mac) (fun _ n' => Wrote [mac] U n₁ n') (fun _ _ => True) n₁) :
    wp (macs.forM f) (fun _ n' => Wrote macs U n n') (fun _ _ => True) n := by
  induction macs generalizing n with
  | nil => exact ⟨.refl n, fun _ _ => rfl, by simp⟩
  | cons dest dests ih =>
    obtain ⟨hdest, hnodup⟩ := List.nodup_cons.1 hnodup
    rw [List.forM, wp_bind]
    refine (h n (.refl n) dest List.mem_cons_self rfl).mono (fun _ n₁ h₁ => ?_) fun _ _ _ => trivial
    have hsame : ∀ key, key ≠ dest →
        n₁.localPdp.destinationData[key]? = n.localPdp.destinationData[key]? := fun key hne =>
      h₁.others key (mt List.mem_singleton.1 hne)
    have hrest : ∀ n₂, SameRole n₁ n₂ → ∀ mac ∈ dests,
        n₂.localPdp.destinationData[mac]? = n₁.localPdp.destinationData[mac]? →
        wp (f mac) (fun _ n' => Wrote [mac] U n₂ n') (fun _ _ => True) n₂ := by
      intro n₂ hrole mac hmac hdata
      refine h n₂ (h₁.role.trans hrole) mac (List.mem_cons_of_mem _ hmac) ?_
      rw [hdata, hsame mac (ne_of_mem_of_not_mem hmac hdest)]
    refine (ih hnodup hrest).mono (fun _ n₂ h₂ => ?_) fun _ _ _ => trivial
    refine ⟨h₁.role.trans h₂.role, fun key hkey => ?_, fun mac hmac => ?_⟩
    · obtain ⟨hne, hkey⟩ := not_or.1 (mt List.mem_cons.2 hkey)
      exact (h₂.others key hkey).trans (hsame key hne)
    · rcases List.mem_cons.1 hmac with rfl | hmem
      · obtain ⟨dd, hdd, hU⟩ := h₁.written mac (List.mem_singleton.2 rfl)
        exact ⟨dd, (h₂.others mac hdest).trans hdd, hU⟩
      · obtain ⟨dd, hdd, hU⟩ := h₂.written mac hmem
        rw [hsame mac (ne_of_mem_of_not_mem hmem hdest)] at hU
        exact ⟨dd, hdd, hU⟩

/-- What is known of a destination after it was added: what was known before, or else the metrics
that came with it. -/
def Joined (cfg : ProtocolConfig) (items : DataItems) (old : Option DestinationData)
    (dd : DestinationData) : Prop :=
  match old with
  | none => ∀ id, dd.metricDataItems[id]? = lastMetric cfg id items
  | some dd₀ => dd = dd₀

/-- Adding a destination writes its data: what was known of it, or what came with it. -/
theorem wrote_addDestination (hitems : ∀ di ∈ items, di.Classified n.cfg) :
    wp (addDestination s mac items) (fun _ n' => Wrote [mac] (Joined n.cfg items) n n')
      (fun _ _ => True)
      n := by
  simp only [addDestination, onLocal, PeerData.addDestination, PeerData.validDestination, wp_bind,
    wp_get, wp_zoom, ExtTreeMap.contains_eq_isSome_getElem?]
  cases hold : n.localPdp.destinationData[mac]? with
  | some dd =>
    refine ⟨.refl n, fun _ _ => rfl, fun key hkey => ?_⟩
    obtain rfl := List.mem_singleton.1 hkey
    exact ⟨dd, hold, by rw [hold]; rfl⟩
  | none =>
    obtain ⟨dd, hdd, hupdated⟩ := DestinationData.create_updated mac hitems
    simp only [Option.isSome_none, Bool.false_eq_true, if_false, hdd, wp_bind, wp_lift_ok,
      wp_modify, wp_pure, if_true]
    refine (sameData_tellPeers.wp (n.withDestination mac dd)).mono (fun _ n' hn' => ?_)
      fun _ _ _ => trivial
    refine wrote_withDestination hn' ?_
    rw [hold]
    intro id
    have hid := hupdated.metrics id
    rwa [ExtTreeMap.getElem?_empty, Option.or_none] at hid

/-- A known destination merges what it is given. -/
def Merged (cfg : ProtocolConfig) (items : DataItems) (old : Option DestinationData)
    (dd : DestinationData) : Prop :=
  ∃ dd₀, old = some dd₀ ∧ MetricsUpdated cfg items dd₀.metricDataItems dd.metricDataItems

/-- An update of a known destination merges what it gives. -/
theorem wrote_updateDestination (hitems : ∀ di ∈ items, di.Classified n.cfg)
    (hknown : ∃ dd, n.localPdp.destinationData[mac]? = some dd) :
    wp (updateDestination mac items) (fun _ n' => Wrote [mac] (Merged n.cfg items) n n')
      (fun _ _ => True)
      n := by
  obtain ⟨dd, hdd⟩ := hknown
  have hvalid : n.localPdp.validDestination mac = true := by
    rw [PeerData.validDestination, ExtTreeMap.contains_eq_isSome_getElem?, hdd]
    rfl
  simp only [updateDestination, onLocal, PeerData.updateDestination, PeerData.onDestination,
    wp_bind, wp_get, wp_zoom, if_pos hvalid, hdd, wp_pure]
  refine (DestinationData.wp_update hitems dd).mono (fun _ dd' hupdated => ?_) fun _ _ _ => trivial
  simp only [if_true, wp_bind, wp_pure]
  refine (sameData_tellPeers.wp (n.withDestination mac dd')).mono (fun _ n' hn' => ?_)
    fun _ _ _ => trivial
  exact wrote_withDestination hn' ⟨dd, hdd, hupdated.metrics⟩

/-- Adding destinations one after the other, by induction over the list. -/
theorem wrote_addDestinations {macs : List DlepMac} (hnodup : macs.Nodup)
    (hitems : ∀ di ∈ items, di.Classified n.cfg) :
    wp (macs.forM fun dest => do let _ ← addDestination s dest items)
      (fun _ n' => Wrote macs (Joined n.cfg items) n n') (fun _ _ => True) n := by
  refine wrote_forM hnodup fun n₁ hrole mac _ _ => ?_
  rw [wp_bind, ← hrole.cfg]
  exact wrote_addDestination (by rwa [hrole.cfg])

/-- Updating destinations one after the other, by induction over the list. -/
theorem wrote_updateDestinations {macs : List DlepMac} (hnodup : macs.Nodup)
    (hitems : ∀ di ∈ items, di.Classified n.cfg)
    (hknown : ∀ mac ∈ macs, ∃ dd, n.localPdp.destinationData[mac]? = some dd) :
    wp (macs.forM fun dest => do let _ ← updateDestination dest items)
      (fun _ n' => Wrote macs (Merged n.cfg items) n n') (fun _ _ => True) n := by
  refine wrote_forM hnodup fun n₁ hrole mac hmac hdata => ?_
  rw [wp_bind, ← hrole.cfg]
  refine wrote_updateDestination (by rwa [hrole.cfg]) ?_
  rw [hdata]
  exact hknown mac hmac

end

end Node

namespace DestAdvert

/-! ## One remote modem -/

/-- The destinations that the remote modem has advertised. -/
def destinationsOf (a : DestAdvert) (rfId : DlepMac) : ExtTreeSet DlepMac :=
  match a.destAdvertDb[rfId]? with
  | none => ∅
  | some entry => entry.info.destinations

/-- The remote modem is up, was last given `latest` and has advertised `dests`; these are
destinations of the node, and all others are as in `pd`. -/
structure Stands (pd : PeerData) (rfId : DlepMac) (latest : DataItems) (dests : ExtTreeSet DlepMac)
    (a : DestAdvert) : Prop where
  enabled : a.node.destAdvertEnabled = true
  entry : ∃ entry, a.destAdvertDb[rfId]? = some entry ∧ entry.up = true ∧ entry.dataItems = latest ∧
    entry.info.destinations = dests
  own : ∀ mac ∈ dests, ∃ dd, a.node.localPdp.destinationData[mac]? = some dd
  others : ∀ mac ∉ dests, a.node.localPdp.destinationData[mac]? = pd.destinationData[mac]?

section

variable [AddressText] {a : DestAdvert} {s : Surroundings} {rfId : DlepMac}
    {items latest : DataItems}
  {dests : ExtTreeSet DlepMac} {pd : PeerData}

/-- Bringing a remote modem up adds the destinations that it has advertised. -/
theorem stands_destinationUp (henabled : a.node.destAdvertEnabled = true)
    (hdown : ∀ entry, a.destAdvertDb[rfId]? = some entry → entry.up = false)
    (hitems : ∀ di ∈ items, di.Classified a.node.cfg) :
    wp (destinationUp s rfId items)
      (fun _ a' => a'.node.cfg = a.node.cfg ∧
        Stands a.node.localPdp rfId items (a.destinationsOf rfId) a' ∧
        ∀ mac ∈ a.destinationsOf rfId, ∃ dd, a'.node.localPdp.destinationData[mac]? = some dd ∧
          Node.Joined a.node.cfg items a.node.localPdp.destinationData[mac]? dd)
      (fun _ _ => True) a := by
  simp only [destinationUp, wp_bind, wp_get, henabled, if_true, destinationsOf]
  cases hentry : a.destAdvertDb[rfId]? with
  | none =>
    simp only [addAdvertEntry, wp_bind, wp_modify, onNode, wp_zoom, Node.destinationUp, wp_get,
      henabled, if_true, wp_pure]
    refine ⟨trivial, ⟨henabled, ⟨_, ExtTreeMap.getElem?_insert_self, rfl, rfl, rfl⟩, ?_,
      fun _ _ => rfl⟩, ?_⟩
    · intro mac hmac
      cases ExtTreeSet.not_mem_empty hmac
    · intro mac hmac
      cases ExtTreeSet.not_mem_empty hmac
  | some entry =>
    have hup := hdown entry hentry
    simp only [updateAdvertEntryDataItems, updateEntry, wp_bind, wp_modify, onNode, wp_zoom,
      Node.destinationUp, wp_get, henabled, if_true, DestAdvertDBEntry.advert,
        hup, Bool.false_eq_true,
      if_false]
    refine (Node.wrote_addDestinations (nodup_toList _) hitems).mono (fun _ n' h => ?_)
      fun _ _ _ => trivial
    simp only [updateAdvertEntryState, updateEntry, wp_modify, wp_pure]
    have hwritten : ∀ mac ∈ entry.info.destinations, ∃ dd,
        n'.localPdp.destinationData[mac]? = some dd ∧
        Node.Joined a.node.cfg items a.node.localPdp.destinationData[mac]? dd := fun mac hmac =>
      h.written mac (ExtTreeSet.mem_toList.2 hmac)
    refine ⟨h.role.cfg, ⟨h.role.enabled.trans henabled, ?_, fun mac hmac => ?_, fun mac hmac => ?_⟩,
      hwritten⟩
    · exact ⟨_, (getElem?_modify_modify hentry _ _ rfId).trans (if_pos rfl), rfl, rfl, rfl⟩
    · obtain ⟨dd, hdd, _⟩ := hwritten mac hmac
      exact ⟨dd, hdd⟩
    · exact h.others mac (mt ExtTreeSet.mem_toList.1 hmac)

/-- An update of a remote modem is merged into each of its destinations, and kept as the latest.
-/
theorem stands_destinationUpdate (h : Stands pd rfId latest dests a)
    (hitems : ∀ di ∈ items, di.Classified a.node.cfg) :
    wp (destinationUpdate rfId items)
      (fun _ a' => a'.node.cfg = a.node.cfg ∧ Stands pd rfId items dests a' ∧
        ∀ mac ∈ dests, ∃ dd, a'.node.localPdp.destinationData[mac]? = some dd ∧
          Node.Merged a.node.cfg items a.node.localPdp.destinationData[mac]? dd)
      (fun _ _ => True) a := by
  obtain ⟨entry, hentry, hup, rfl, rfl⟩ := h.entry
  simp only [destinationUpdate, wp_bind, wp_get, h.enabled, if_true, hentry,
    updateAdvertEntryDataItems, updateEntry, wp_modify, onNode, wp_zoom, Node.destinationUpdate,
      DestAdvertDBEntry.advert, hup]
  have hknown : ∀ mac ∈ entry.info.destinations.toList, ∃ dd,
      a.node.localPdp.destinationData[mac]? = some dd := fun mac hmac =>
    h.own mac (ExtTreeSet.mem_toList.1 hmac)
  refine (Node.wrote_updateDestinations (nodup_toList _) hitems hknown).mono (fun _ n' hn' => ?_)
    fun _ _ _ => trivial
  have hwritten : ∀ mac ∈ entry.info.destinations, ∃ dd, n'.localPdp.destinationData[mac]? =
    some dd ∧
      Node.Merged a.node.cfg items a.node.localPdp.destinationData[mac]? dd := fun mac hmac =>
    hn'.written mac (ExtTreeSet.mem_toList.2 hmac)
  refine ⟨hn'.role.cfg, ⟨hn'.role.enabled.trans h.enabled, ?_, fun mac hmac => ?_,
    fun mac hmac => ?_⟩, hwritten⟩
  · exact ⟨_, (getElem?_modify hentry _ rfId).trans (if_pos rfl), hup, rfl, rfl⟩
  · obtain ⟨dd, hdd, _⟩ := hwritten mac hmac
    exact ⟨dd, hdd⟩
  · exact (hn'.others mac (mt ExtTreeSet.mem_toList.1 hmac)).trans (h.others mac hmac)

/-- An advertisement that only adds gives the new destinations the latest data items, and leaves
the others. -/
theorem stands_handleMessage {info : DestAdvertInfo} (h : Stands pd rfId latest dests a)
    (hrf : info.rfId = rfId) (hadds : ∀ mac ∈ dests, mac ∈ info.destinations)
    (hitems : ∀ di ∈ latest, di.Classified a.node.cfg) :
    wp (handleMessage s info)
      (fun _ a' => a'.node.cfg = a.node.cfg ∧ Stands pd rfId latest info.destinations a' ∧
        (∀ mac ∈ dests, a'.node.localPdp.destinationData[mac]? =
          a.node.localPdp.destinationData[mac]?) ∧
        ∀ mac ∈ info.destinations, mac ∉ dests → ∃ dd,
          a'.node.localPdp.destinationData[mac]? = some dd ∧
          Node.Joined a.node.cfg latest pd.destinationData[mac]? dd)
      (fun _ _ => True) a := by
  obtain ⟨entry, hentry, hup, rfl, rfl⟩ := h.entry
  have hnone : getDifference entry.info.destinations info.destinations = [] := by
    refine List.eq_nil_iff_forall_not_mem.2 fun mac hmac => ?_
    obtain ⟨hold, hnew⟩ := mem_getDifference.1 hmac
    exact hnew (hadds mac hold)
  have hnodup : (getDifference info.destinations entry.info.destinations).Nodup :=
    (nodup_toList _).filter _
  subst hrf
  simp only [handleMessage, wp_bind, wp_get, hentry, updateEntry, wp_modify, hup, if_true, onNode,
    wp_zoom, changeDestinations, hnone]
  refine (Node.wrote_addDestinations hnodup hitems).mono (fun _ n' hn' => ?_) fun _ _ _ => trivial
  have hold : ∀ mac ∈ entry.info.destinations,
      n'.localPdp.destinationData[mac]? = a.node.localPdp.destinationData[mac]? := fun mac hmac =>
    hn'.others mac fun hnew => (mem_getDifference.1 hnew).2 hmac
  have hnew : ∀ mac ∈ info.destinations, mac ∉ entry.info.destinations → ∃ dd,
      n'.localPdp.destinationData[mac]? = some dd ∧
      Node.Joined a.node.cfg entry.dataItems pd.destinationData[mac]? dd := by
    intro mac hmac hnot
    rw [← h.others mac hnot]
    exact hn'.written mac (mem_getDifference.2 ⟨hmac, hnot⟩)
  refine ⟨hn'.role.cfg, ⟨hn'.role.enabled.trans h.enabled, ?_, fun mac hmac => ?_,
    fun mac hmac => ?_⟩, hold, hnew⟩
  · exact ⟨_, (getElem?_modify_modify hentry _ _ info.rfId).trans (if_pos rfl), hup, rfl, rfl⟩
  · by_cases hmem : mac ∈ entry.info.destinations
    · obtain ⟨dd, hdd⟩ := h.own mac hmem
      exact ⟨dd, (hold mac hmem).trans hdd⟩
    · obtain ⟨dd, hdd, _⟩ := hnew mac hmac hmem
      exact ⟨dd, hdd⟩
  · have hout : mac ∉ entry.info.destinations := fun hmem => hmac (hadds mac hmem)
    have hnotnew : mac ∉ getDifference info.destinations entry.info.destinations := fun hnew =>
      hmac (mem_getDifference.1 hnew).1
    exact (hn'.others mac hnotnew).trans (h.others mac hout)

end

/-! ## Runs about one remote modem -/

/-- The data items that the updates give, in order. -/
def given : List Step → DataItems
  | [] => []
  | ⟨_, .destinationUpdate _ items⟩ :: steps => items ++ given steps
  | _ :: steps => given steps

/-- Updates for the remote modem and advertisements of it that only add destinations to `dests`. -/
def OnlyAdds (rfId : DlepMac) : ExtTreeSet DlepMac → List Step → Prop
  | _, [] => True
  | dests, ⟨_, .destinationUpdate key _⟩ :: steps => key = rfId ∧ OnlyAdds rfId dests steps
  | dests, ⟨_, .advertisement info⟩ :: steps =>
    info.rfId = rfId ∧ (∀ mac ∈ dests, mac ∈ info.destinations) ∧
      OnlyAdds rfId info.destinations steps
  | _, _ :: _ => False

section

variable (cfg : ProtocolConfig)

/-- All metrics of the list that are not given later are there. -/
def Agrees (items later : DataItems) (dd : DestinationData) : Prop :=
  ∀ id, lastMetric cfg id later = none → dd.metricDataItems[id]? = lastMetric cfg id items

/-- A destination that is advertised after `earlier` and then, by the last call, `latest` were
given, and before `later` are given, misses no metric: if it is new, every metric of the earlier
calls is given again; if it was known, what was known of it agrees. -/
def InTime (earlier latest later : DataItems) : Option DestinationData → Prop
  | none =>
    ∀ di ∈ earlier, di.IsMetric cfg → ∃ di' ∈ latest ++ later, di'.IsMetric cfg ∧ di'.id = di.id
  | some dd => Agrees cfg (earlier ++ latest) later dd

/-- Every destination that an advertisement adds to `dests` is in time. -/
def CatchesUp (pd : PeerData) : DataItems → DataItems → ExtTreeSet DlepMac → List Step → Prop
  | _, _, _, [] => True
  | earlier, latest, dests, ⟨_, .destinationUpdate _ items⟩ :: steps =>
    CatchesUp pd (earlier ++ latest) items dests steps
  | earlier, latest, dests, ⟨_, .advertisement info⟩ :: steps =>
    (∀ mac ∈ info.destinations, mac ∉ dests →
      InTime cfg earlier latest (given steps) pd.destinationData[mac]?) ∧
    CatchesUp pd earlier latest info.destinations steps
  | earlier, latest, dests, _ :: steps => CatchesUp pd earlier latest dests steps

/-- Every destination of the remote modem has, of each metric, the value that was given last, and
no other metrics. -/
def Level (rfId : DlepMac) (items : DataItems) (a : DestAdvert) : Prop :=
  ∀ mac ∈ a.destinationsOf rfId, ∃ dd, a.node.localPdp.destinationData[mac]? = some dd ∧
    ∀ id, dd.metricDataItems[id]? = lastMetric cfg id items

end

section

variable {cfg : ProtocolConfig} {items earlier latest later : DataItems} {dd dd' : DestinationData}

/-- A destination that was just added misses no metric exactly if it came in time. -/
theorem agrees_of_joined {old : Option DestinationData} (h : Node.Joined cfg latest old dd) :
    Agrees cfg (earlier ++ latest) later dd ↔ InTime cfg earlier latest later old := by
  cases old with
  | some dd₀ =>
    obtain rfl : dd = dd₀ := h
    exact Iff.rfl
  | none =>
    have h : ∀ id, dd.metricDataItems[id]? = lastMetric cfg id latest := h
    constructor
    · intro hagrees di hdi hmetric
      by_contra hnone
      push Not at hnone
      have hlater : lastMetric cfg di.id later = none :=
        lastMetric_eq_none_iff.2 fun di' hdi' => hnone di' (List.mem_append_right _ hdi')
      have hlatest : lastMetric cfg di.id latest = none :=
        lastMetric_eq_none_iff.2 fun di' hdi' => hnone di' (List.mem_append_left _ hdi')
      have hall := hagrees di.id hlater
      rw [h, lastMetric_append, hlatest, Option.none_or] at hall
      exact lastMetric_eq_none_iff.1 hall.symm di hdi hmetric rfl
    · intro hintime id hlater
      rw [h, lastMetric_append]
      cases hlatest : lastMetric cfg id latest with
      | some di => rfl
      | none =>
        rw [Option.none_or, eq_comm, lastMetric_eq_none_iff]
        rintro di hdi hmetric rfl
        obtain ⟨di', hdi', hmetric', hid⟩ := hintime di hdi hmetric
        rcases List.mem_append.1 hdi' with hmem | hmem
        · exact lastMetric_eq_none_iff.1 hlatest di' hmem hmetric' hid
        · exact lastMetric_eq_none_iff.1 hlater di' hmem hmetric' hid

/-- What a destination merges may be counted as given before or after. -/
theorem agrees_of_merged (h : MetricsUpdated cfg latest dd.metricDataItems dd'.metricDataItems) :
    Agrees cfg (items ++ latest) later dd' ↔ Agrees cfg items (latest ++ later) dd := by
  have hlater : ∀ id, lastMetric cfg id (latest ++ later) = none ↔
      lastMetric cfg id later = none ∧ lastMetric cfg id latest = none := by
    intro id
    rw [lastMetric_append, Option.or_eq_none_iff]
  have hvalue : ∀ id, dd'.metricDataItems[id]? = (lastMetric cfg id latest).or
      dd.metricDataItems[id]? := h
  constructor
  · intro hagrees id hid
    obtain ⟨hid, hnone⟩ := (hlater id).1 hid
    have hthis := hagrees id hid
    rwa [hvalue, lastMetric_append, hnone, Option.none_or,
      Option.none_or] at hthis
  · intro hagrees id hid
    rw [hvalue, lastMetric_append]
    cases hnone : lastMetric cfg id latest with
    | some di => rfl
    | none =>
      rw [Option.none_or, Option.none_or]
      exact hagrees id ((hlater id).2 ⟨hid, hnone⟩)

end

section

variable [AddressText] {a : DestAdvert} {s : Surroundings} {rfId : DlepMac}
  {items earlier latest : DataItems} {dests : ExtTreeSet DlepMac} {pd : PeerData}
  {steps : List Step} {cfg : ProtocolConfig}

variable (earlier) in

/-- By induction over the schedule: the destinations end up level exactly if those at hand agree
and every later one comes in time. -/
theorem level_iff_agrees (h : Stands pd rfId latest dests a) (hcfg : a.node.cfg = cfg)
    (honly : OnlyAdds rfId dests steps) (hlatest : ∀ di ∈ latest, di.Classified cfg)
    (hgiven : ∀ di ∈ given steps, di.Classified cfg) :
    wp (steps.forM Step.call)
      (fun _ a' => Level cfg rfId (earlier ++ latest ++ given steps) a' ↔
        (∀ mac ∈ dests, ∃ dd, a.node.localPdp.destinationData[mac]? = some dd ∧
          Agrees cfg (earlier ++ latest) (given steps) dd) ∧
        CatchesUp cfg pd earlier latest dests steps)
      (fun _ _ => True) a := by
  induction steps generalizing a earlier latest dests with
  | nil =>
    obtain ⟨entry, hentry, _, _, rfl⟩ := h.entry
    have hdests : a.destinationsOf rfId = entry.info.destinations := by rw [destinationsOf, hentry]
    rw [List.forM]
    simp only [wp_pure, Level, given, CatchesUp, and_true, List.append_nil, hdests, Agrees,
      lastMetric, last_nil, forall_const]
  | cons st steps ih =>
    obtain ⟨s, input⟩ := st
    cases input with
    | destinationUpdate key items =>
      obtain ⟨rfl, honly⟩ := honly
      obtain ⟨hitems, hgiven⟩ := List.forall_mem_append.1 hgiven
      rw [List.forM, wp_bind, Step.call, wp_bind]
      refine (stands_destinationUpdate h (by rwa [hcfg])).mono ?_ fun _ _ _ => trivial
      rintro _ a₁ ⟨hcfg₁, hstands, hmerged⟩
      rw [wp_pure]
      refine (ih (earlier ++ latest) hstands (hcfg₁.trans hcfg) honly hitems hgiven).mono
        (fun _ a' hlevel => ?_) fun _ _ _ => trivial
      rw [given, ← List.append_assoc, hlevel, CatchesUp]
      refine and_congr_left fun _ => forall₂_congr fun mac hmac => ?_
      obtain ⟨dd', hdd', dd, hdd, hupdated⟩ := hmerged mac hmac
      rw [hdd', hdd]
      simp only [Option.some.injEq, exists_eq_left']
      rw [hcfg] at hupdated
      exact agrees_of_merged hupdated
    | advertisement info =>
      obtain ⟨hrf, hadds, honly⟩ := honly
      rw [List.forM, wp_bind, Step.call]
      refine (stands_handleMessage h hrf hadds (by rwa [hcfg])).mono ?_ fun _ _ _ => trivial
      rintro _ a₁ ⟨hcfg₁, hstands, hold, hnew⟩
      have hgiven : ∀ di ∈ given steps, di.Classified cfg := hgiven
      refine (ih earlier hstands (hcfg₁.trans hcfg) honly hlatest hgiven).mono
        (fun _ a' hlevel => ?_) fun _ _ _ => trivial
      rw [given, hlevel, CatchesUp, ← and_assoc]
      · refine and_congr_left fun _ => ?_
        constructor
        · intro hall
          refine ⟨fun mac hmac => ?_, fun mac hmac hnot => ?_⟩
          · rw [← hold mac hmac]
            exact hall mac (hadds mac hmac)
          · obtain ⟨dd, hdd, hjoined⟩ := hnew mac hmac hnot
            obtain ⟨dd', hdd', hagrees⟩ := hall mac hmac
            obtain rfl := Option.some.inj (hdd.symm.trans hdd')
            rw [hcfg] at hjoined
            exact (agrees_of_joined hjoined).1 hagrees
        · rintro ⟨hall, hjoin⟩ mac hmac
          by_cases hmem : mac ∈ dests
          · rw [hold mac hmem]
            exact hall mac hmem
          · obtain ⟨dd, hdd, hjoined⟩ := hnew mac hmac hmem
            rw [hcfg] at hjoined
            exact ⟨dd, hdd, (agrees_of_joined hjoined).2 (hjoin mac hmac hmem)⟩
      · simp
    | _ => exact honly.elim

/-- A remote modem is brought up, and then only updates for it and advertisements of it that add
destinations follow. In the end its destinations all have, of each metric, the value given last
exactly if all of them were advertised in time. -/
theorem level_iff_catchesUp {a' : DestAdvert} (henabled : a.node.destAdvertEnabled = true)
    (hdown : ∀ entry, a.destAdvertDb[rfId]? = some entry → entry.up = false)
    (hitems : ∀ di ∈ items, di.Configured a.node.cfg)
    (hgiven : ∀ di ∈ given steps, di.Configured a.node.cfg)
    (honly : OnlyAdds rfId (a.destinationsOf rfId) steps)
    (hrun : (do
      let _ ← destinationUp s rfId items
      steps.forM Step.call) a = .ok () a') :
    Level a.node.cfg rfId (items ++ given steps) a' ↔
      (∀ mac ∈ a.destinationsOf rfId,
        InTime a.node.cfg [] items (given steps) a.node.localPdp.destinationData[mac]?) ∧
      CatchesUp a.node.cfg a.node.localPdp [] items (a.destinationsOf rfId) steps := by
  have hup := stands_destinationUp (s := s) henabled hdown fun di hdi => (hitems di hdi).classified
  have hwp : wp (do
      let _ ← destinationUp s rfId items
      steps.forM Step.call)
      (fun _ a' => Level a.node.cfg rfId (items ++ given steps) a' ↔
        (∀ mac ∈ a.destinationsOf rfId,
          InTime a.node.cfg [] items (given steps) a.node.localPdp.destinationData[mac]?) ∧
        CatchesUp a.node.cfg a.node.localPdp [] items (a.destinationsOf rfId) steps)
      (fun _ _ => True) a := by
    rw [wp_bind]
    refine hup.mono ?_ fun _ _ _ => trivial
    rintro _ a₁ ⟨hcfg, hstands, hjoined⟩
    refine (level_iff_agrees [] hstands hcfg honly
      (fun di hdi => (hitems di hdi).classified) fun di hdi => (hgiven di hdi).classified).mono
      (fun _ a' hlevel => ?_) fun _ _ _ => trivial
    rw [List.nil_append] at hlevel
    rw [hlevel]
    refine and_congr_left fun _ => forall₂_congr fun mac hmac => ?_
    obtain ⟨dd, hdd, hjoined⟩ := hjoined mac hmac
    rw [hdd]
    simp only [Option.some.injEq, exists_eq_left']
    exact @agrees_of_joined _ [] items (given steps) dd _ hjoined
  rw [wp, hrun] at hwp
  exact hwp

end

/-! ## A destination that is advertised late -/

attribute [local instance] plainText

/-- A data rate. -/
def rateItem (rate : UInt64) : DataItem := .mk 12 (.u64 rate)

/-- A remote modem comes up with a latency and a data rate; then these steps. -/
def bringUp (inputs : List Input) : DestAdvertM Unit := do
  let _ ← destinationUp Peer.bareSurroundings [1] [DestinationData.latencyItem 5, rateItem 9]
  (advertSteps inputs).forM Step.call

/-- The sample metrics are configured. -/
theorem configured_latency_rate :
    ∀ di ∈ [DestinationData.latencyItem 5, rateItem 9], di.Configured rfc8175 := by
  intro di hdi
  rcases List.mem_pair.1 hdi with rfl | rfl
  · exact ⟨_, rfl⟩
  · exact ⟨_, rfl⟩

/-- Advertised before the update, the destination has both metrics. -/
theorem level_iff_catchesUp_advertModem : ∃ a',
    bringUp [advertisementOf [1], .destinationUpdate [1] [DestinationData.latencyItem 7]]
      advertModem =
      .ok () a' ∧
    Level rfc8175 [1] [DestinationData.latencyItem 5, rateItem 9,
      DestinationData.latencyItem 7] a' := by
  have hok : (match bringUp [advertisementOf [1],
      .destinationUpdate [1] [DestinationData.latencyItem 7]] advertModem with
    | .ok _ _ => true
    | .error _ _ => false) = true := by decide +kernel
  split at hok
  · next a' hrun =>
    refine ⟨a', hrun, ?_⟩
    have hgiven : ∀ di ∈ [DestinationData.latencyItem 7], di.Configured rfc8175 := by
      intro di hdi
      obtain rfl := List.mem_singleton.1 hdi
      exact ⟨_, rfl⟩
    have hadds : ∀ mac ∈ (∅ : ExtTreeSet DlepMac), mac ∈ (∅ : ExtTreeSet DlepMac).insert
        [2, 0, 0, 0, 0, 1] :=
      fun mac hmac => absurd hmac ExtTreeSet.not_mem_empty
    refine (@level_iff_catchesUp plainText advertModem Peer.bareSurroundings [1]
      [DestinationData.latencyItem 5, rateItem 9]
      (advertSteps [advertisementOf [1], .destinationUpdate [1] [DestinationData.latencyItem 7]])
        a' rfl
      ?_ configured_latency_rate hgiven ⟨rfl, hadds, rfl, trivial⟩ hrun).2 ⟨?_, ?_, trivial⟩
    · intro entry (hentry : none = some entry)
      cases hentry
    · intro mac hmac
      exact absurd hmac ExtTreeSet.not_mem_empty
    · intro mac _ _ di hdi
      cases hdi
  · cases hok

/-- Advertised after the update, it lacks the data rate. -/
theorem bringUp_late : ∃ a',
    bringUp [.destinationUpdate [1] [DestinationData.latencyItem 7], advertisementOf [1]]
      advertModem =
      .ok () a' ∧
    ¬ Level rfc8175 [1] [DestinationData.latencyItem 5, rateItem 9,
      DestinationData.latencyItem 7] a' := by
  have hlacks : (match bringUp [.destinationUpdate [1] [DestinationData.latencyItem 7],
      advertisementOf [1]] advertModem with
    | .ok _ a' => (a'.destinationsOf [1]).contains [2, 0, 0, 0, 0, 1] &&
        (a'.node.localPdp.destinationData[([2, 0, 0, 0, 0, 1] : DlepMac)]?).all
          fun dd => !dd.metricDataItems.contains 12
    | .error _ _ => false) = true := by decide +kernel
  have hrate : (lastMetric rfc8175 12
      [DestinationData.latencyItem 5, rateItem 9, DestinationData.latencyItem 7]).isSome =
        true := by
    decide +kernel
  split at hlacks
  · next a' hrun =>
    refine ⟨a', hrun, fun hlevel => ?_⟩
    obtain ⟨hmem, hall⟩ := Bool.and_eq_true_iff.1 hlacks
    obtain ⟨dd, hdd, hmetrics⟩ := hlevel _ (ExtTreeSet.contains_iff_mem.1 hmem)
    rw [hdd, Option.all_some, ExtTreeMap.contains_eq_isSome_getElem?, hmetrics, hrate] at hall
    cases hall
  · cases hlacks

end DestAdvert

end Dlep
