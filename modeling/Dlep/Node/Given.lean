import Dlep.Node.Peers
import Dlep.Peer.Voice

/-!
# What the client of a node is responsible for

Nothing that a peer says gets into the data that its node declares. So all that the peers of a
node are told of destinations was given: every destination was brought up by the client or by the
destination advertisement, and every data item that is stored of it was part of a call.
-/

namespace Dlep

open Std Calls Runs

/-- Adding or dropping an address stores no other address. -/
theorem mem_of_updateIpDataItems [AddressText] {cfg : ProtocolConfig} {items items' : DataItems}
    {new di : DataItem} (h : updateIpDataItems cfg items new = .ok items') (hdi : di ∈ items') :
    di ∈ items ∨ di = new := by
  simp only [updateIpDataItems] at h
  cases hfind : items.findIdx? fun known => known.ipEqual new with
  | some i =>
    simp only [hfind] at h
    split at h
    · obtain rfl := Except.ok.inj h
      exact .inl hdi
    · obtain ⟨_, _, h⟩ := bind_eq_ok.1 h
      obtain rfl := Except.ok.inj h
      exact .inl (List.mem_of_mem_eraseIdx hdi)
  | none =>
    simp only [hfind] at h
    split at h
    · obtain ⟨_, _, h⟩ := bind_eq_ok.1 h
      obtain rfl := Except.ok.inj h
      exact (List.mem_append.1 hdi).imp id List.mem_singleton.1
    · obtain rfl := Except.ok.inj h
      exact .inl hdi

namespace DestinationData

/-- What is stored was stored before, or is among the data items. -/
def Draws (items : DataItems) (dd dd' : DestinationData) : Prop :=
  ∀ di ∈ dd'.getAllDataItems, di ∈ dd.getAllDataItems ∨ di ∈ items

variable {items : DataItems}

instance instReflDraws : Std.Refl (Draws items) := ⟨fun _ _ hdi => .inl hdi⟩

instance instTransDraws : IsTrans DestinationData (Draws items) where
  trans _ _ _ h h' di hdi := (h' di hdi).elim (h di) .inr

variable [AddressText] {cfg : ProtocolConfig}

/-- Storing a data item stores that data item. -/
theorem draws_store {di : DataItem} (hdi : di ∈ items) : Within (Draws items) (store cfg di) := by
  refine within_bind within_lift fun _ => within_ite (fun _ => ?_) fun _ => ?_
  · refine within_modify fun dd new hnew => ?_
    rcases Holds.mem_getAllDataItems.1 hnew with ⟨id, hid⟩ | hip
    · rw [ExtTreeMap.getElem?_insert] at hid
      split at hid
      · obtain rfl := Option.some.inj hid
        exact .inr hdi
      · exact .inl (Holds.mem_getAllDataItems.2 (.inl ⟨id, hid⟩))
    · exact .inl (Holds.mem_getAllDataItems.2 (.inr hip))
  · refine within_bind within_lift fun _ => within_ite (fun _ => ?_) fun _ => within_pure
    refine within_of_wp fun dd => ?_
    simp only [wp_bind, wp_get]
    refine wp_lift (fun ips hips => ?_) fun _ _ => Std.Refl.refl dd
    rw [wp_modify]
    intro new hnew
    rcases Holds.mem_getAllDataItems.1 hnew with hmetric | hip
    · exact .inl (Holds.mem_getAllDataItems.2 (.inl hmetric))
    · rcases mem_of_updateIpDataItems hips hip with hold | rfl
      · exact .inl (Holds.mem_getAllDataItems.2 (.inr hold))
      · exact .inr hdi

/-- An update stores data items of its list only. -/
theorem draws_update : Within (Draws items) (update cfg items) :=
  within_forM fun _ hdi => draws_store hdi

/-- A new destination has data items of the list it was made with. -/
theorem mem_of_create {mac : DlepMac} {dd : DestinationData} (h : create cfg mac items = .ok dd)
    {di : DataItem} (hdi : di ∈ dd.getAllDataItems) : di ∈ items := by
  have hdraws : Draws items { macAddress := mac }
      (after (update cfg items) { macAddress := mac }) :=
    draws_update _
  unfold create at h
  rw [after] at hdraws
  split at h
  · next hrun =>
    rw [hrun] at hdraws
    obtain rfl := Except.ok.inj h
    exact (hdraws di hdi).resolve_left (by simp [getAllDataItems])
  · cases h

end DestinationData

namespace PeerData

/-- Every destination meets a condition, and so does every data item that is stored of it. -/
def Confined (dest : DlepMac → Prop) (item : DlepMac → DataItem → Prop) (pd : PeerData) : Prop :=
  ∀ mac dd, pd.getDestinationData mac = some dd →
    dest mac ∧ ∀ di ∈ dd.getAllDataItems, item mac di

variable {dest : DlepMac → Prop} {item : DlepMac → DataItem → Prop} {mac : DlepMac}
  {items : DataItems}

/-- The condition is about the destinations only. -/
theorem Confined.of_destinationData {pd pd' : PeerData} (hpd : pd.Confined dest item)
    (h : pd'.destinationData = pd.destinationData) : pd'.Confined dest item := by
  intro mac dd hdd
  rw [getDestinationData, h] at hdd
  exact hpd mac dd hdd

/-- Storing a destination that meets the condition keeps it. -/
theorem Confined.insert {pd : PeerData} (hpd : pd.Confined dest item) {dd : DestinationData}
    (hmac : dest mac) (hdd : ∀ di ∈ dd.getAllDataItems, item mac di) :
    Confined dest item { pd with destinationData := pd.destinationData.insert mac dd } := by
  intro mac' dd' hdd'
  rw [getDestinationData, ExtTreeMap.getElem?_insert] at hdd'
  split at hdd'
  · next hsame =>
    obtain rfl := Std.compare_eq_iff_eq.1 hsame
    obtain rfl := Option.some.inj hdd'
    exact ⟨hmac, hdd⟩
  · exact hpd mac' dd' hdd'

/-- Removing a destination keeps the condition. -/
theorem confined_removeDestination :
    Within (Preserves (Confined dest item)) (removeDestination mac) := by
  refine within_bind within_get fun _ => within_ite (fun _ => ?_) fun _ => within_pure
  refine within_bind (within_modify fun pd hpd mac' dd hdd => ?_) fun _ => within_pure
  rw [getDestinationData, ExtTreeMap.getElem?_erase] at hdd
  split at hdd
  · cases hdd
  · exact hpd mac' dd hdd

/-- A call on the data of one destination. -/
theorem confined_onDestination {m : EStateM Exn DestinationData Unit}
    (hm : Within (DestinationData.Draws items) m) (hitems : ∀ di ∈ items, item mac di) :
    Within (Preserves (Confined dest item)) (onDestination mac m) := by
  refine within_of_wp fun pd => ?_
  rw [onDestination, wp_bind, wp_get]
  cases hdd : pd.destinationData[mac]? with
  | none => exact fun hpd => hpd
  | some dd =>
    refine wp_zoom.2 (wp_after.2 fun hpd => ?_)
    obtain ⟨hmac, hstored⟩ := hpd mac dd hdd
    exact hpd.insert hmac fun di hdi => (hm dd di hdi).elim (hstored di) (hitems di)

section

variable [AddressText] {cfg : ProtocolConfig}

/-- Adding a destination that meets the condition keeps it. -/
theorem confined_addDestination (hmac : dest mac) (hitems : ∀ di ∈ items, item mac di) :
    Within (Preserves (Confined dest item)) (addDestination cfg mac items) := by
  refine within_bind within_get fun _ => within_ite (fun _ => within_pure) fun _ => ?_
  refine within_of_wp fun pd => ?_
  rw [wp_bind]
  refine wp_lift (fun dd hdd => ?_) fun _ _ hpd => hpd
  rw [wp_bind, wp_modify]
  exact fun hpd => hpd.insert hmac fun di hdi => hitems di (DestinationData.mem_of_create hdd hdi)

/-- Updating a destination with data items that meet the condition keeps it. -/
theorem confined_updateDestination (hitems : ∀ di ∈ items, item mac di) :
    Within (Preserves (Confined dest item)) (updateDestination cfg mac items) := by
  refine within_bind within_get fun _ => within_ite (fun _ => ?_) fun _ => within_pure
  exact within_bind (confined_onDestination DestinationData.draws_update hitems) fun _ =>
    within_pure

/-- The metrics that an update of the session has for the destinations are among its data items. -/
theorem wp_storeDataItems {statusId : DataItemIdType} {pd : PeerData} :
    wp (storeDataItems cfg statusId items)
      (fun rest pd' => (∀ di ∈ rest, di ∈ items) ∧ pd'.destinationData = pd.destinationData)
      (fun _ pd' => pd'.destinationData = pd.destinationData) pd := by
  induction items generalizing pd with
  | nil => exact ⟨fun _ hdi => hdi, rfl⟩
  | cons di items ih =>
    have hrest : ∀ {pd₁ : PeerData}, pd₁.destinationData = pd.destinationData →
        wp (storeDataItems cfg statusId items)
          (fun rest pd' =>
            (∀ di' ∈ rest, di' ∈ di :: items) ∧ pd'.destinationData = pd.destinationData)
          (fun _ pd' => pd'.destinationData = pd.destinationData) pd₁ := by
      intro pd₁ hpd₁
      refine ih.mono (fun rest pd' h => ?_) fun _ pd' h => h.trans hpd₁
      exact ⟨fun di' hdi' => List.mem_cons_of_mem _ (h.1 di' hdi'), h.2.trans hpd₁⟩
    rw [storeDataItems, wp_bind]
    refine wp_lift (fun isMetric _ => ?_) fun _ _ => rfl
    cases isMetric with
    | true =>
      simp only [if_true, wp_bind, wp_modify, wp_pure]
      have hothers := @hrest { pd with metricDataItems := pd.metricDataItems.insert di.id di } rfl
      refine hothers.mono (fun rest pd' h => ⟨?_, h.2⟩) fun _ _ h => h
      exact List.forall_mem_cons.2 ⟨List.mem_cons_self, h.1⟩
    | false =>
      simp only [Bool.false_eq_true, if_false, wp_bind]
      refine wp_lift (fun isIpaddr _ => ?_) fun _ _ => rfl
      cases isIpaddr with
      | true =>
        simp only [if_true, wp_bind, wp_get]
        refine wp_lift (fun ips _ => ?_) fun _ _ => rfl
        rw [wp_modify]
        exact hrest rfl
      | false =>
        simp only [Bool.false_eq_true, if_false]
        split
        · rw [wp_bind, wp_modify]
          exact hrest rfl
        · exact hrest rfl

/-- Updating all destinations with data items that meet the condition keeps it. -/
theorem confined_updateDataItems (hitems : ∀ mac, ∀ di ∈ items, item mac di) :
    Within (Preserves (Confined dest item)) (updateDataItems cfg items) := by
  refine within_bind within_get fun _ => within_bind within_lift fun unknown => ?_
  refine within_ite (fun _ => within_pure) fun _ => within_of_wp fun pd => ?_
  rw [wp_bind, updateDataItemsHelper, wp_bind]
  refine wp_lift (fun statusId _ => ?_) fun _ _ => Std.Refl.refl pd
  refine wp_storeDataItems.mono (fun rest pd' h => ?_) fun _ pd' h hpd => hpd.of_destinationData h
  have hstored : Preserves (Confined dest item) pd pd' := fun hpd => hpd.of_destinationData h.2
  refine Within.wp_trans ?_ hstored
  refine within_bind within_get fun _ => within_bind (within_forM fun mac _ => ?_) fun _ =>
    within_pure
  exact confined_onDestination DestinationData.draws_update fun di hdi => hitems mac di (h.1 di hdi)

end

/-- Removing data items keeps the condition. -/
theorem Confined.removeDataItems {pd : PeerData} (hpd : pd.Confined dest item) :
    (pd.removeDataItems items).Confined dest item := by
  unfold PeerData.removeDataItems
  induction items generalizing pd with
  | nil => exact hpd
  | cons di items ih =>
    refine ih (hpd.of_destinationData ?_)
    unfold removeDataItem
    split
    · rfl
    · split
      · rfl
      · rfl

/-- The data of a new session have no destinations. -/
theorem confined_create [AddressText] {cfg : ProtocolConfig} {peerId : Bytes} {pd : PeerData}
    (h : create cfg peerId items = .ok pd) : pd.Confined dest item := by
  intro mac dd hdd
  obtain ⟨_, hrun⟩ : ∃ rest, updateDataItemsHelper cfg items { peerId } = .ok rest pd := by
    unfold create at h
    split at h
    · next hrun =>
      obtain rfl := Except.ok.inj h
      exact ⟨_, hrun⟩
    · cases h
  have hnone : wp (updateDataItemsHelper cfg items) (fun _ pd' => pd'.destinationData = ∅)
      (fun _ _ => True) { peerId } := by
    rw [updateDataItemsHelper, wp_bind]
    refine wp_lift (fun statusId _ => ?_) fun _ _ => trivial
    exact wp_storeDataItems.mono (fun _ _ h => h.2) fun _ _ _ => trivial
  rw [wp, hrun] at hnone
  rw [getDestinationData, hnone] at hdd
  simp at hdd

end PeerData

/-- The metrics of a list are in it. -/
theorem Peer.mem_of_metricsOf {cfg : ProtocolConfig} {items metrics : DataItems}
    (h : metricsOf cfg items = .ok metrics) {di : DataItem} (hdi : di ∈ metrics) : di ∈ items := by
  have haux : ∀ (rest kept all : DataItems),
      List.filterAuxM (fun di => cfg.isMetric di.id none) rest kept = .ok all →
      ∀ di ∈ all, di ∈ rest ∨ di ∈ kept := by
    intro rest
    induction rest with
    | nil =>
      intro kept all hall di hdi
      obtain rfl := Except.ok.inj hall
      exact .inr hdi
    | cons first rest ih =>
      intro kept all hall di hdi
      obtain ⟨isMetric, -, hall⟩ := bind_eq_ok.1 hall
      rcases ih _ all hall di hdi with hrest | hkept
      · exact .inl (List.mem_cons_of_mem _ hrest)
      · cases isMetric with
        | true =>
          rcases List.mem_cons.1 hkept with rfl | hkept
          · exact .inl List.mem_cons_self
          · exact .inr hkept
        | false => exact .inr hkept
  obtain ⟨all, hall, hmetrics⟩ := bind_eq_ok.1 h
  obtain rfl := Except.ok.inj hmetrics
  exact (haux items [] all hall di (List.mem_reverse.1 hdi)).resolve_right List.not_mem_nil

namespace Node

/-! ## What was given -/

/-- A step of the node asks this of some peer. -/
def Asked (steps : List Step) (input : Peer.Input) : Prop :=
  ∃ st ∈ steps, ∃ i, Causes i st.input input

/-- The data item was given with the destination, in an update or a reply about it, or in an
update of the session, which is for all destinations. -/
def Given (steps : List Step) (mac : DlepMac) (di : DataItem) : Prop :=
  ∃ items, di ∈ items ∧ (Asked steps (.destinationUp mac items) ∨
    Asked steps (.destinationUpdate mac items) ∨
      Asked steps (.linkCharacteristicsResponse mac items) ∨
    Asked steps (.peerUpdate items))

/-- The destination was brought up. -/
def BroughtUp (steps : List Step) (mac : DlepMac) : Prop :=
  ∃ items, Asked steps (.destinationUp mac items)

/-- What the client of the node is responsible for. -/
def clientVoice (steps : List Step) : Peer.Voice where
  destination topic mac items :=
    match topic with
    | .up => BroughtUp steps mac ∧ ∀ di ∈ items, Given steps mac di
    | .update => Asked steps (.destinationUpdate mac items)
    | .down => Asked steps (.destinationDown mac items)
    | .linkchar => ∀ di ∈ items, Given steps mac di
  session items := Asked steps (.peerUpdate items)

/-- The data of the node are what the client gave. -/
def clientTerms (steps : List Step) : Terms where
  known := PeerData.Confined (BroughtUp steps) (Given steps)
  made _ _ := True
  asked _ _ := Asked steps

section

variable [AddressText] {steps : List Step}

/-- The calls on the data keep that all of it was given by the client. -/
theorem lasts_clientTerms : (clientTerms steps).Lasts where
  add cfg s mac items hasked :=
    PeerData.confined_addDestination ⟨items, hasked 0⟩ fun di hdi => ⟨items, hdi, .inl (hasked 0)⟩
  remove mac := PeerData.confined_removeDestination
  update cfg s mac items hasked := by
    refine PeerData.confined_updateDestination fun di hdi => ⟨items, hdi, .inr ?_⟩
    rcases hasked with hupdate | hreply
    · exact .inl (hupdate 0)
    · exact .inr (.inl (hreply 0))
  session cfg s items hasked :=
    PeerData.confined_updateDataItems fun mac di hdi => ⟨items, hdi, .inr (.inr (.inr (hasked 0)))⟩
  drop items pd hpd := hpd.removeDataItems

omit [AddressText] in
/-- In a step of a peer on these terms, its node says what the client is responsible for. -/
theorem voices_client {st : Peer.Step} (hknown : (clientTerms steps).known st.d.localPdp)
    (hasked : st.input = .start ∨ Asked steps st.input) :
    Peer.Voices (clientVoice steps) st.d st.input where
  known mac dd hdd := hknown mac dd hdd
  metrics mac dd metrics hdd hmetrics := fun di hdi =>
    (hknown mac dd hdd).2 di (Peer.mem_of_metricsOf hmetrics hdi)
  up mac items hinput := by
    rw [hinput, or_iff_right (by simp)] at hasked
    exact ⟨⟨items, hasked⟩, fun di hdi => ⟨items, hdi, .inl hasked⟩⟩
  update mac items hinput := by
    rw [hinput, or_iff_right (by simp)] at hasked
    exact hasked
  down mac items hinput := by
    rw [hinput, or_iff_right (by simp)] at hasked
    exact hasked
  linkchar mac items hinput := by
    rw [hinput, or_iff_right (by simp)] at hasked
    exact fun di hdi => ⟨items, hdi, .inr (.inr (.inl hasked))⟩
  session items hinput := by
    rw [hinput, or_iff_right (by simp)] at hasked
    exact hasked

/-- Whatever the peers of a node send, and however the calls of the client come in between: all
that any of them is sent about destinations and the session is what the client is responsible for.
-/
theorem said_of_nodeRun {cfg : ProtocolConfig} {modem enabled : Bool} {n : Node} (hcfg : cfg.Candid)
    (hn : Node.create cfg modem enabled = .ok n) :
    ∀ q ∈ (run step n steps).objects, ∀ e ∈ q.trace, ∀ buf ∈ e.handed,
      Peer.Said cfg (clientVoice steps) buf := by
  intro q hq
  have hknown : (clientTerms steps).known n.localPdp := by
    obtain ⟨items, _, h⟩ := bind_eq_ok.1 hn
    obtain ⟨localPdp, hlocal, h⟩ := bind_eq_ok.1 h
    rw [← Except.ok.inj h]
    exact PeerData.confined_create hlocal
  have hprogress : Progress (clientTerms steps) n (run step n steps) := by
    refine advances_run lasts_clientTerms (fun _ _ _ _ => trivial) ?_ hknown
    exact fun st hst i input hcause => ⟨st, hst, i, hcause⟩
  obtain ⟨i, hrun⟩ := isRun_of_mem hn hprogress hq
  obtain ⟨peerId, now, p, own, hp, rfl, hown⟩ := hrun.exists_run
  refine Peer.said_of_run hcfg hp fun st hst => ?_
  obtain ⟨hshows, hasked⟩ := hown st hst
  exact ⟨hshows.cfg, voices_client hshows.known hasked⟩

end

attribute [local instance] plainText

/-- A router opens a session with a modem, and the client of the modem brings a destination up. -/
def oneUp : List Step :=
  [.connect (str "router"), .peer 0 (.receive Peer.sessionInitialization), .peer 0 .message,
    .destinationUp none [10, 11] []].map fun input => ⟨Peer.bareSurroundings, input⟩

/-- The router is told. -/
theorem said_of_nodeRun_oneUp :
    ∃ q ∈ (run step (shipped true) oneUp).objects, ∃ e ∈ q.trace, ∃ buf ∈ e.handed,
      bufferName rfc8175 buf = some "Destination_Up" ∧
      Peer.Said rfc8175 (clientVoice oneUp) buf := by
  obtain ⟨q, hq, e, he, buf, hbuf, hname⟩ : ∃ q ∈ (run step (shipped true) oneUp).objects,
      ∃ e ∈ q.trace, ∃ buf ∈ e.handed, bufferName rfc8175 buf = some "Destination_Up" := by
    decide +kernel
  refine ⟨q, hq, e, he, buf, hbuf, hname, ?_⟩
  exact said_of_nodeRun rfc8175_candid (create_shipped true) q hq e he buf hbuf

end Node

end Dlep
