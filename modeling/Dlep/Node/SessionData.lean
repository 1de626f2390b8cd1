import Dlep.InfoBase.LastWriter
import Dlep.InfoBase.Unchanged
import Dlep.Node.Sound
import Dlep.Peer.Names
import Dlep.ProtocolMessage.Checked

/-!
# The session data of a node

What the client of a node gives in updates is remembered for the peers to come, and a modem puts
it into its response to each of them. A metric replaces the one with its id and an address is
added and dropped, but any other data item is only appended. So updates that are valid one by one
can leave more behind than one message may have; how often each data item may be left behind is
said exactly by the numbers that the response allows.
-/

namespace Dlep

open Std Calls Runs ProtocolMessage

/-! ## What updates leave behind -/

/-- The data item is remembered as neither a metric nor an address. -/
def DataItem.IsOther (cfg : ProtocolConfig) (statusId : DataItemIdType) (di : DataItem) : Prop :=
  ¬ di.IsMetric cfg ∧ ¬ di.IsIpaddr cfg ∧ di.id ≠ statusId

instance {cfg : ProtocolConfig} {statusId : DataItemIdType} {di : DataItem} :
    Decidable (di.IsOther cfg statusId) :=
  inferInstanceAs (Decidable (_ ∧ _))

/-- The metrics, each with the value that was given last. -/
def latest (cfg : ProtocolConfig) (given : DataItems) (metrics : DataItemMap) : DataItemMap :=
  metrics.map fun id di => (lastMetric cfg id given).getD di

/-- The session data of a peer after the data items of any number of updates: the metrics with
their last values, the addresses that were added and not dropped again, and all other data items
but the status. -/
def sessionData [AddressText] (cfg : ProtocolConfig) (given : DataItems) (pd : PeerData) :
    Except Exn DataItems := do
  let statusId ← cfg.getDataItemId "Status" none
  let ips ← storeAddresses cfg pd.ipDataItems given
  return (latest cfg given pd.metricDataItems).toList.map Prod.snd ++ ips ++
    (pd.otherDataItems ++ given.filter fun di => decide (di.IsOther cfg statusId))

/-- The addresses of two lists are stored one list after the other. -/
theorem storeAddresses_append [AddressText] {cfg : ProtocolConfig} {ips items items' : DataItems} :
    storeAddresses cfg ips (items ++ items') =
      storeAddresses cfg ips items >>= fun ips' => storeAddresses cfg ips' items' := by
  simp only [storeAddresses, List.filter_append, List.foldlM_append]

namespace PeerData

section

variable [AddressText] {cfg : ProtocolConfig} {statusId : DataItemIdType}
  {items items' : DataItems} {pd pd' pd'' : PeerData}

/-- The session data after the data items of any number of updates. -/
structure Accumulated (cfg : ProtocolConfig) (statusId : DataItemIdType) (items : DataItems)
    (pd pd' : PeerData) : Prop where
  metrics : pd'.metricDataItems = latest cfg items pd.metricDataItems
  addresses : storeAddresses cfg pd.ipDataItems items = .ok pd'.ipDataItems
  stored : ∀ di ∈ pd'.ipDataItems, di ∈ pd.ipDataItems ∨ di ∈ items
  other : pd'.otherDataItems =
    pd.otherDataItems ++ items.filter fun di => decide (di.IsOther cfg statusId)

/-- No updates leave the session data. -/
theorem accumulated_nil : Accumulated cfg statusId [] pd pd := by
  refine ⟨?_, rfl, fun _ => .inl, (List.append_nil _).symm⟩
  refine ExtTreeMap.ext_getElem? fun id => ?_
  rw [latest, ExtTreeMap.getElem?_map]
  cases pd.metricDataItems[id]? with
  | none => rfl
  | some di => rfl

/-- Updates accumulate one after the other. -/
theorem Accumulated.append (h : Accumulated cfg statusId items pd pd')
    (h' : Accumulated cfg statusId items' pd' pd'') :
    Accumulated cfg statusId (items ++ items') pd pd'' := by
  refine ⟨ExtTreeMap.ext_getElem? fun id => ?_, ?_, fun di hdi => ?_, ?_⟩
  · simp only [h'.metrics, h.metrics, latest, ExtTreeMap.getElem?_map, Option.map_map,
      lastMetric_append]
    cases pd.metricDataItems[id]? with
    | none => rfl
    | some di => cases lastMetric cfg id items' <;> rfl
  · rw [storeAddresses_append, h.addresses, ok_bind, h'.addresses]
  · rw [List.mem_append]
    rcases h'.stored di hdi with hold | hnew
    · exact (h.stored di hold).imp_right .inl
    · exact .inr (.inr hnew)
  · rw [h'.other, h.other, List.filter_append, List.append_assoc]

/-- An update that is not refused is accumulated. -/
theorem wp_updateDataItems_accumulated (hitems : ∀ di ∈ items, di.Classified cfg)
    (hstatus : cfg.getDataItemId "Status" none = .ok statusId) :
    wp (updateDataItems cfg items)
      (fun status pd' => status = "Success" → Accumulated cfg statusId items pd pd')
      (fun _ _ => True) pd := by
  have hrefused := hasUnknownMetric_eq hitems pd.metricDataItems
  generalize hunknown : (items.any fun di => decide (cfg.isMetric di.id none = .ok true) &&
    !pd.metricDataItems.contains di.id) = unknown at hrefused
  cases unknown with
  | true =>
    refine (wp_updateDataItems_updated hitems hrefused).mono (fun status pd' h => ?_)
      fun _ _ _ => trivial
    obtain ⟨rfl, _⟩ := h
    exact fun hsuccess => absurd hsuccess (by decide)
  | false =>
    refine ((wp_updateDataItems_updated hitems hrefused).and
      (wp_updateDataItems_storeAddresses hitems hrefused)).mono ?_ fun _ _ _ => trivial
    rintro status pd' ⟨⟨_, id, hid, hupdated⟩, haddresses⟩ _
    obtain rfl := Except.ok.inj (hstatus.symm.trans hid)
    refine ⟨ExtTreeMap.ext_getElem? fun id => ?_, haddresses, fun di hdi => ?_, hupdated.other⟩
    swap
    · exact (hupdated.ips.stored di hdi).imp_right And.left
    rw [hupdated.metrics id, latest, ExtTreeMap.getElem?_map, lastMetric]
    cases hknown : pd.metricDataItems[id]? with
    | some di => cases LastWrite.last _ items <;> rfl
    | none =>
      -- a metric that the peer does not have would have refused the update
      have hnone : lastMetric cfg id items = none := by
        rw [lastMetric_eq_none_iff]
        rintro di hdi hmetric rfl
        have hcontains := List.any_eq_false.1 hunknown di hdi
        rw [ExtTreeMap.contains_eq_isSome_getElem?, hknown] at hcontains
        have hmetric : cfg.isMetric di.id none = .ok true := hmetric
        simp [hmetric] at hcontains
      rw [lastMetric] at hnone
      rw [hnone]
      rfl

/-- The session data of the peer are what its updates leave behind. -/
theorem Accumulated.sessionData (h : Accumulated cfg statusId items pd pd')
    (hstatus : cfg.getDataItemId "Status" none = .ok statusId) :
    sessionData cfg items pd = .ok pd'.getDataItems := by
  rw [Dlep.sessionData, hstatus, ok_bind, h.addresses, ok_bind, getDataItems, h.metrics, h.other]
  rfl

omit [AddressText] in
/-- A metric is one that was given, or it is one that was there. -/
theorem mem_latest {metrics : DataItemMap} {di : DataItem}
    (hdi : di ∈ (latest cfg items metrics).toList.map Prod.snd) :
    di ∈ metrics.toList.map Prod.snd ∨ di ∈ items := by
  rw [latest, ExtTreeMap.toList_map, List.map_map] at hdi
  obtain ⟨q, hq, rfl⟩ := List.mem_map.1 hdi
  change (lastMetric cfg q.1 items).getD q.2 ∈ _ ∨ (lastMetric cfg q.1 items).getD q.2 ∈ items
  cases hlast : lastMetric cfg q.1 items with
  | none => exact .inl (List.mem_map_of_mem hq)
  | some di => exact .inr (LastWrite.last_eq_some hlast).1

/-- Nothing is made up. -/
theorem Accumulated.mem_getDataItems (h : Accumulated cfg statusId items pd pd') {di : DataItem}
    (hdi : di ∈ pd'.getDataItems) : di ∈ pd.getDataItems ∨ di ∈ items := by
  simp only [getDataItems, List.mem_append] at hdi ⊢
  rcases hdi with (hmetric | hip) | hother
  · rw [h.metrics] at hmetric
    exact (mem_latest hmetric).imp_left fun hold => .inl (.inl hold)
  · exact (h.stored di hip).imp_left fun hold => .inl (.inr hold)
  · rw [h.other, List.mem_append] at hother
    exact hother.imp .inr List.mem_of_mem_filter

end

/-! ## Calls about destinations -/

/-- What the peer has of its own is the same. -/
structure SameOwn (pd pd' : PeerData) : Prop where
  metrics : pd'.metricDataItems = pd.metricDataItems
  ips : pd'.ipDataItems = pd.ipDataItems
  other : pd'.otherDataItems = pd.otherDataItems

instance : Std.Refl SameOwn := ⟨fun _ => ⟨rfl, rfl, rfl⟩⟩

instance : IsTrans PeerData SameOwn :=
  ⟨fun _ _ _ h h' => ⟨h'.metrics.trans h.metrics, h'.ips.trans h.ips, h'.other.trans h.other⟩⟩

/-- A call on a destination leaves what the peer has of its own. -/
theorem sameOwn_onDestination {mac : DlepMac} {m : EStateM Exn DestinationData Unit} :
    Within SameOwn (onDestination mac m) := by
  refine within_bind within_get fun pd => ?_
  split
  · exact within_pure
  · exact within_zoom fun _ => ⟨rfl, rfl, rfl⟩

/-- Removing a destination leaves what the peer has of its own. -/
theorem sameOwn_removeDestination {mac : DlepMac} : Within SameOwn (removeDestination mac) := by
  refine within_bind within_get fun _ => within_ite (fun _ => ?_) fun _ => within_pure
  exact within_bind (within_modify fun _ => ⟨rfl, rfl, rfl⟩) fun _ => within_pure

section

variable [AddressText] {cfg : ProtocolConfig} {mac : DlepMac} {items : DataItems}

/-- Adding a destination leaves what the peer has of its own. -/
theorem sameOwn_addDestination : Within SameOwn (addDestination cfg mac items) := by
  refine within_bind within_get fun _ => within_ite (fun _ => within_pure) fun _ => ?_
  refine within_bind within_lift fun _ => within_bind ?_ fun _ => within_pure
  exact within_modify fun _ => ⟨rfl, rfl, rfl⟩

/-- Updating a destination leaves what the peer has of its own. -/
theorem sameOwn_updateDestination : Within SameOwn (updateDestination cfg mac items) := by
  refine within_bind within_get fun _ => within_ite (fun _ => ?_) fun _ => within_pure
  exact within_bind sameOwn_onDestination fun _ => within_pure

end

end PeerData

namespace Node

/-- The node runs the same protocol in the same role and has the same session data. -/
structure SameSession (n n' : Node) : Prop extends SameRole n n' where
  own : n.localPdp.SameOwn n'.localPdp

instance : Std.Refl SameSession := ⟨fun n => ⟨.refl n, Std.Refl.refl n.localPdp⟩⟩

instance : IsTrans Node SameSession :=
  ⟨fun _ _ _ h h' => ⟨h.toSameRole.trans h'.toSameRole, IsTrans.trans _ _ _ h.own h'.own⟩⟩

/-- A call on a peer leaves the session data of the node. -/
theorem sameSession_onPeer {α : Type} {i : Nat} {call : DlepView → PeerM α} :
    Within SameSession (onPeer i call) := by
  refine within_of_wp fun n => wp_onPeer (fun _ _ => Std.Refl.refl n) fun p _ => wp_after.2 ?_
  exact ⟨⟨rfl, rfl, rfl⟩, Std.Refl.refl n.localPdp⟩

/-- A call on every peer leaves the session data of the node. -/
theorem sameSession_tellPeers {call : DlepView → PeerM Unit} :
    Within SameSession (tellPeers call) :=
  within_bind within_get fun _ => within_forM fun _ _ => sameSession_onPeer

/-- A call on the data of the node leaves the session data if it leaves what is the peer's own. -/
theorem sameSession_onLocal {α : Type} {m : EStateM Exn PeerData α}
    (h : Within PeerData.SameOwn m) :
    Within SameSession (onLocal m) :=
  within_zoom fun n => ⟨⟨rfl, rfl, rfl⟩, h n.localPdp⟩

section

variable [AddressText] {s : Surroundings} {entry : Option AdvertEntry} {mac : DlepMac}
  {items : DataItems}

/-- Adding a destination leaves the session data. -/
theorem sameSession_addDestination : Within SameSession (addDestination s mac items) := by
  refine within_bind within_get fun n => ?_
  refine within_bind (sameSession_onLocal PeerData.sameOwn_addDestination) fun ok => ?_
  exact within_ite (fun _ => within_bind sameSession_tellPeers fun _ => within_pure) fun _ =>
    within_pure

/-- Updating a destination leaves the session data. -/
theorem sameSession_updateDestination : Within SameSession (updateDestination mac items) := by
  refine within_bind within_get fun n => ?_
  refine within_bind (sameSession_onLocal PeerData.sameOwn_updateDestination) fun ok => ?_
  exact within_ite (fun _ => within_bind sameSession_tellPeers fun _ => within_pure) fun _ =>
    within_pure

/-- Removing a destination leaves the session data. -/
theorem sameSession_removeDestination : Within SameSession (removeDestination s mac items) := by
  refine within_bind (sameSession_onLocal PeerData.sameOwn_removeDestination) fun ok => ?_
  exact within_ite (fun _ => within_bind sameSession_tellPeers fun _ => within_pure) fun _ =>
    within_pure

/-- The client brings a destination up. -/
theorem sameSession_destinationUp : Within SameSession (destinationUp s entry mac items) := by
  refine within_bind within_get fun n => within_ite (fun _ => ?_) fun _ => ?_
  · split
    · refine within_ite (fun _ => within_pure) fun _ => within_bind ?_ fun _ => within_pure
      exact within_forM fun _ _ => within_bind sameSession_addDestination fun _ => within_pure
    · exact within_pure
  · refine within_bind sameSession_addDestination fun ok => ?_
    exact within_ite (fun _ => within_pure) fun _ => within_pure

/-- The client updates a destination. -/
theorem sameSession_destinationUpdate : Within SameSession (destinationUpdate entry mac items) := by
  have hpeer : Within SameSession (updatePeerDestination mac items) := by
    refine within_bind within_get fun n => ?_
    split
    · exact within_pure
    · exact within_bind sameSession_onPeer fun _ => within_pure
  refine within_bind within_get fun n => within_ite (fun _ => ?_) fun _ => ?_
  · split
    · refine within_ite (fun _ => within_bind ?_ fun _ => within_pure) fun _ => within_pure
      exact within_forM fun _ _ => within_bind sameSession_updateDestination fun _ => within_pure
    · exact hpeer
  · refine within_bind sameSession_updateDestination fun ok => ?_
    exact within_ite (fun _ => within_pure) fun _ => hpeer

/-- A destination is dropped, ours or that of a peer. -/
theorem sameSession_dropDestination : Within SameSession (dropDestination s mac items) := by
  have hpeer : ∀ i, Within SameSession (removePeerDestination s i mac items) := fun i =>
    within_bind sameSession_onPeer fun _ => within_ite
      (fun _ => within_bind sameSession_tellPeers fun _ => within_pure) fun _ => within_pure
  refine within_bind sameSession_removeDestination fun ok =>
    within_ite (fun _ => within_pure) fun _ => ?_
  refine within_bind within_get fun n => ?_
  split
  · exact within_pure
  · exact within_bind (hpeer _) fun _ => within_bind within_lift fun _ => within_pure

/-- The destinations of an entry are dropped. -/
theorem sameSession_dropDestinations {dests : List DlepMac} :
    Within SameSession (dropDestinations s items dests) := by
  induction dests with
  | nil => exact within_pure
  | cons dest dests ih =>
    exact within_bind sameSession_removeDestination fun _ => within_bind ih fun _ => within_pure

/-- The client takes a destination down. -/
theorem sameSession_destinationDown : Within SameSession (destinationDown s entry mac items) := by
  refine within_bind within_get fun n => within_ite (fun _ => ?_) fun _ =>
    sameSession_dropDestination
  split
  · exact within_ite (fun _ => sameSession_dropDestinations) fun _ => within_pure
  · exact sameSession_dropDestination

/-- The client asks about a link. -/
theorem sameSession_linkcharRequest : Within SameSession (linkcharRequest s mac items) := by
  refine within_bind within_get fun n => ?_
  split
  · exact within_pure
  · exact within_bind sameSession_onPeer fun _ => within_pure

/-- The client answers about a link. -/
theorem sameSession_linkcharReply {peerId : PeerId} :
    Within SameSession (linkcharReply s peerId mac items) := by
  refine within_bind within_get fun n => ?_
  split
  · exact within_pure
  · refine within_bind sameSession_onPeer fun _ => within_bind within_get fun _ => ?_
    refine within_bind (sameSession_onLocal PeerData.sameOwn_updateDestination) fun ok => ?_
    exact within_ite (fun _ => within_pure) fun _ => within_pure

/-- A connection is made. -/
theorem sameSession_handleAsyncMakePeer {peerId : PeerId} :
    Within SameSession (handleAsyncMakePeer s peerId) := by
  refine within_of_wp fun n => ?_
  simp only [handleAsyncMakePeer, wp_bind, wp_get]
  refine wp_lift (fun p _ => ?_) fun _ _ => Std.Refl.refl n
  rw [wp_set]
  exact sameSession_onPeer.wp_trans ⟨⟨rfl, rfl, rfl⟩, Std.Refl.refl n.localPdp⟩

/-- Apart from updates and removals, whatever happens to a node leaves its session data alone. -/
theorem sameSession_step {n : Node} {st : Step} (hupdate : ∀ items, st.input ≠ .peerUpdate items)
    (hremove : ∀ items, st.input ≠ .peerRemoveDataItems items) : SameSession n (n.step st) := by
  have hdrop : ∀ {α : Type} {m : NodeM α}, Within SameSession m →
      Within SameSession (m >>= fun _ => pure ()) := fun hm => within_bind hm fun _ => within_pure
  suffices hcall : Within SameSession st.call from hcall n
  unfold Step.call
  cases hinput : st.input with
  | connect peerId => exact sameSession_handleAsyncMakePeer
  | peer i occasion => exact sameSession_onPeer
  | cleanup => exact within_modify fun n => ⟨⟨rfl, rfl, rfl⟩, Std.Refl.refl n.localPdp⟩
  | destinationUp entry mac items => exact hdrop sameSession_destinationUp
  | destinationUpdate entry mac items => exact hdrop sameSession_destinationUpdate
  | destinationDown entry mac items => exact hdrop sameSession_destinationDown
  | peerUpdate items => exact absurd hinput (hupdate items)
  | peerRemoveDataItems items => exact absurd hinput (hremove items)
  | linkcharRequest mac items => exact hdrop sameSession_linkcharRequest
  | linkcharReply peerId mac items => exact hdrop sameSession_linkcharReply
  | terminate =>
    exact within_bind sameSession_tellPeers fun _ =>
      within_modify fun n => ⟨⟨rfl, rfl, rfl⟩, Std.Refl.refl n.localPdp⟩
  | advertUp mac items => exact hdrop sameSession_addDestination
  | advertDown mac => exact hdrop sameSession_removeDestination

end

/-! ## Runs -/

/-- What the client gives in a step. -/
def Step.given (st : Step) : DataItems :=
  match st.input with
  | .peerUpdate items => items
  | _ => []

/-- What the client gives in all steps, one after the other. -/
def given (steps : List Step) : DataItems := steps.flatMap Step.given

end Node

namespace Peer

variable [AddressText] {d : DlepView} {items : DataItems}

/-- The message for an update, which its check accepts. -/
def ValidUpdate (d : DlepView) (items : DataItems) : Prop :=
  ∃ pm, compose d "Session_Update" (fun pm => addDataItems d.cfg items pm) "peer_update" =
    .ok ([], pm)

/-- The data items of a valid message pass one by one. -/
theorem ValidUpdate.passes (h : ValidUpdate d items) : ∀ di ∈ items, di.Passes d.cfg := by
  obtain ⟨pm, h⟩ := h
  obtain ⟨header, hheader, h⟩ := bind_eq_ok.1 h
  obtain ⟨pm₀, hpm₀, hvalid⟩ := bind_eq_ok.1 h
  obtain ⟨body, hframes⟩ := (frames_addHeader hheader).addDataItems hpm₀
  exact ((hframes.parseAndValidate_iff d.modem _).1 ⟨pm, hvalid⟩).2

end Peer

namespace Node

section

variable [AddressText] {s : Surroundings} {n : Node} {statusId : DataItemIdType} {items : DataItems}

/-- The client makes no removals, and each of its updates returns ok and has a valid message. -/
def UpdatesValidly (n : Node) (st : Step) : Prop :=
  match st.input with
  | .peerUpdate items =>
    (∃ n', peerUpdate st.s items n = .ok .ok n') ∧ ∃ i, Peer.ValidUpdate (n.view i) items
  | .peerRemoveDataItems _ => False
  | _ => True

/-- The session data of the node after the data items of any number of updates. -/
structure Accumulated (statusId : DataItemIdType) (items : DataItems) (n n' : Node) : Prop
    extends SameRole n n' where
  own : PeerData.Accumulated n.cfg statusId items n.localPdp n'.localPdp
  passes : ∀ di ∈ items, di.Passes n.cfg

/-- Where the session data stay, nothing has accumulated. -/
theorem SameSession.accumulated {n' : Node} (h : SameSession n n') :
    Accumulated statusId [] n n' := by
  have hnil := @PeerData.accumulated_nil _ n.cfg statusId n.localPdp
  refine ⟨h.toSameRole, ⟨?_, ?_, ?_, ?_⟩, by simp⟩
  · rw [h.own.metrics]
    exact hnil.metrics
  · rw [h.own.ips]
    exact hnil.addresses
  · rw [h.own.ips]
    exact hnil.stored
  · rw [h.own.other]
    exact hnil.other

/-- Updates of a node accumulate one after the other. -/
theorem Accumulated.append {n' n'' : Node} {items' : DataItems}
    (h : Accumulated statusId items n n')
    (h' : Accumulated statusId items' n' n'') : Accumulated statusId (items ++ items') n n'' := by
  have hown := h'.own
  have hpasses := h'.passes
  rw [h.cfg] at hown hpasses
  exact ⟨h.toSameRole.trans h'.toSameRole, h.own.append hown,
    List.forall_mem_append.2 ⟨h.passes, hpasses⟩⟩

/-- An update that returns ok accumulates its data items. -/
theorem wp_peerUpdate_accumulated (hstatus : n.cfg.getDataItemId "Status" none = .ok statusId)
    (hitems : ∀ di ∈ items, di.Passes n.cfg) :
    wp (peerUpdate s items) (fun status n' => status = .ok → Accumulated statusId items n n')
      (fun _ _ => True) n := by
  have hclassified : ∀ di ∈ items, di.Classified n.cfg := fun di hdi =>
    DataItem.Configured.classified (hitems di hdi).info
  simp only [peerUpdate, wp_bind, wp_get]
  refine wp_zoom.2 ((PeerData.wp_updateDataItems_accumulated hclassified hstatus).mono
    (fun status pd' h => ?_) fun _ _ _ => trivial)
  split
  · next hsuccess =>
    rw [wp_bind]
    refine (sameData_tellPeers.wp _).mono (fun _ n' hn' => ?_) fun _ _ _ => trivial
    rw [wp_pure]
    refine fun _ => ⟨⟨hn'.cfg, hn'.modem, hn'.enabled⟩, ?_, hitems⟩
    rw [hn'.localPdp]
    exact h hsuccess
  · exact fun hok => by cases hok

/-- One step accumulates what is given in it. -/
theorem accumulated_step {st : Step} (hstatus : n.cfg.getDataItemId "Status" none = .ok statusId)
    (hst : n.UpdatesValidly st) : Accumulated statusId st.given n (n.step st) := by
  obtain ⟨s, input⟩ := st
  have hother : (∀ items, input ≠ .peerUpdate items) →
    (∀ items, input ≠ .peerRemoveDataItems items) →
      Accumulated statusId [] n (n.step ⟨s, input⟩) := fun hupdate hremove =>
    (sameSession_step hupdate hremove).accumulated
  cases input with
  | peerUpdate items =>
    obtain ⟨⟨n', hrun⟩, i, hvalid⟩ := hst
    have haccumulated := @wp_peerUpdate_accumulated _ s n statusId items hstatus hvalid.passes
    rw [wp, hrun] at haccumulated
    have hstep : n.step ⟨s, .peerUpdate items⟩ = n' := by
      have hafter : after (peerUpdate s items) n = n' := by rw [after, hrun]
      rw [← hafter]
      exact after_bind_pure
    rw [hstep]
    exact haccumulated rfl
  | peerRemoveDataItems items => exact hst.elim
  | _ => exact hother (by simp) (by simp)

/-- A run accumulates what is given in its steps. -/
theorem accumulated_run {steps : List Step}
    (hstatus : n.cfg.getDataItemId "Status" none = .ok statusId)
    (h : Along step UpdatesValidly n steps) :
    Accumulated statusId (given steps) n (run step n steps) := by
  induction steps generalizing n with
  | nil => exact (Std.Refl.refl (r := SameSession) n).accumulated
  | cons st steps ih =>
    have hfirst := accumulated_step hstatus h.1
    rw [← hfirst.cfg] at hstatus
    exact hfirst.append (ih hstatus h.2)

end

end Node

/-! ## The response -/

/-- Those data items that the message may have. -/
def SignalInfo.allowed (siginfo : SignalInfo) (items : DataItems) : DataItems :=
  items.filter fun di => siginfo.dataItems.any fun difs => difs.id = di.id

/-- The data items that a message may have are those its references name. -/
theorem SignalInfo.mem_allowed {siginfo : SignalInfo} {items : DataItems} {di : DataItem} :
    di ∈ siginfo.allowed items ↔ di ∈ items ∧ di.id ∈ siginfo.dataItems.map SubDataItem.id := by
  simp only [allowed, List.mem_filter, List.any_eq_true, decide_eq_true_eq, List.mem_map]

/-- Of the data items that a reference counts, none is left out. -/
theorem SignalInfo.countId_allowed {siginfo : SignalInfo} {items : DataItems} {ref : SubDataItem}
    (href : ref ∈ siginfo.dataItems) :
    countId (siginfo.allowed items) ref.id = countId items ref.id := by
  rw [countId, allowed, List.countP_filter]
  refine List.countP_congr fun di _ => ?_
  simp only [Bool.and_eq_true, decide_eq_true_eq, List.any_eq_true, and_iff_left_iff_imp]
  exact fun hid => ⟨ref, href, hid.symm⟩

namespace Peer

section

variable [AddressText] (d : DlepView) (s : Surroundings) (p : Peer)

/-- The response of a modem with what its check says, before its client sees it. -/
def checkedResponse : Except Exn (Bytes × ProtocolMessage) :=
  compose d "Session_Initialization_Response"
    (fun pm => do
      let pm ← addCommonDataItems d.cfg s.params pm
      let pm ← addExtensionsIfAny d.cfg p.mutualExtensions pm
      addAllowedDataItems d.cfg d.localPdp.getDataItems pm)
    "send_peer_initialization_response"

/-- The response without the session data of the node. -/
def opening : Except Exn ProtocolMessage := do
  let pm ← addHeader d.cfg "Session_Initialization_Response" {}
  let pm ← addCommonDataItems d.cfg s.params pm
  addExtensionsIfAny d.cfg p.mutualExtensions pm

end

variable [AddressText] {d d' : DlepView} {s : Surroundings} {p : Peer} {pm pm' : ProtocolMessage}
  {base : DataItems} {body : Bytes} {resp : SignalInfo}

omit [AddressText] in
/-- The response without session data depends on the configuration only. -/
theorem opening_congr (hcfg : d'.cfg = d.cfg) : opening d' s p = opening d s p := by
  simp only [opening, hcfg]

/-- The checked response was built on a response without session data. -/
theorem opening_of_checkedResponse {err : Bytes} (h : checkedResponse d s p = .ok (err, pm)) :
    ∃ opening, Peer.opening d s p = .ok opening ∧
      ∃ base, Building d.cfg "Session_Initialization_Response" opening base := by
  obtain ⟨header, hheader, h⟩ := bind_eq_ok.1 h
  obtain ⟨_, h, _⟩ := bind_eq_ok.1 h
  obtain ⟨common, hcommon, h⟩ := bind_eq_ok.1 h
  obtain ⟨opening, hopening, _⟩ := bind_eq_ok.1 h
  obtain ⟨items, hitems⟩ := adds_addCommonDataItems _ _ _ _ (.addHeader hheader) hcommon
  obtain ⟨more, hmore⟩ := adds_addExtensionsIfAny _ _ _ _ hitems hopening
  refine ⟨opening, ?_, _, hmore⟩
  rw [Peer.opening, hheader, ok_bind, hcommon, ok_bind, hopening]

/-- The response is the opening with the session data that the message may have. -/
theorem checkedResponse_of_opening (h : opening d s p = .ok pm)
    (hpm : Frames d.cfg "Session_Initialization_Response" pm base body)
    (hresp : d.cfg.getSignalInfo "Session_Initialization_Response" = .ok resp) :
    checkedResponse d s p =
      addDataItems d.cfg (resp.allowed d.localPdp.getDataItems) pm >>=
        parseAndValidate d.cfg d.modem (str "send_peer_initialization_response") := by
  have hallowed : addAllowedDataItems d.cfg d.localPdp.getDataItems pm =
      addDataItems d.cfg (resp.allowed d.localPdp.getDataItems) pm := by
    rw [addAllowedDataItems, getSignalName_of_getSignalId hpm.signalId hpm.initialized, ok_bind,
      hresp, ok_bind]
    rfl
  have hcompose : checkedResponse d s p = opening d s p >>= fun pm =>
      addAllowedDataItems d.cfg d.localPdp.getDataItems pm >>=
        parseAndValidate d.cfg d.modem (str "send_peer_initialization_response") := by
    simp only [checkedResponse, compose, opening, bind_assoc]
  rw [hcompose, h, ok_bind, hallowed]

/-- A valid response: it is put together, may be sent, and has valid data items in the right
numbers. -/
theorem valid_checkedResponse_iff (h : opening d s p = .ok pm)
    (hpm : Frames d.cfg "Session_Initialization_Response" pm base body)
    (hresp : d.cfg.getSignalInfo "Session_Initialization_Response" = .ok resp) :
    (∃ pm', checkedResponse d s p = .ok ([], pm')) ↔
      (∃ pm', addDataItems d.cfg (resp.allowed d.localPdp.getDataItems) pm = .ok pm') ∧
        resp.flags &&& SignalInfo.senderFlag d.modem ≠ 0 ∧
        validateOccurrences d.cfg (base ++ resp.allowed d.localPdp.getDataItems)
          resp.dataItems none =
          .ok [] ∧
        ∀ di ∈ base ++ resp.allowed d.localPdp.getDataItems, di.Passes d.cfg := by
  have hvalid : ∀ pm₁, addDataItems d.cfg (resp.allowed d.localPdp.getDataItems) pm = .ok pm₁ →
      ((∃ pm', parseAndValidate d.cfg d.modem (str "send_peer_initialization_response") pm₁ =
          .ok ([], pm')) ↔
        resp.flags &&& SignalInfo.senderFlag d.modem ≠ 0 ∧
        validateOccurrences d.cfg (base ++ resp.allowed d.localPdp.getDataItems)
          resp.dataItems none =
          .ok [] ∧
        ∀ di ∈ base ++ resp.allowed d.localPdp.getDataItems, di.Passes d.cfg) := by
    intro pm₁ hpm₁
    obtain ⟨rest, hframes⟩ := hpm.addDataItems hpm₁
    rw [hframes.parseAndValidate_iff]
    constructor
    · rintro ⟨⟨info, hinfo, hflag, hoccurs⟩, hpasses⟩
      obtain rfl := Except.ok.inj (hresp.symm.trans hinfo)
      exact ⟨hflag, hoccurs, hpasses⟩
    · rintro ⟨hflag, hoccurs, hpasses⟩
      exact ⟨⟨resp, hresp, hflag, hoccurs⟩, hpasses⟩
  rw [checkedResponse_of_opening h hpm hresp]
  constructor
  · rintro ⟨pm', hchecked⟩
    obtain ⟨pm₁, hpm₁, hchecked⟩ := bind_eq_ok.1 hchecked
    exact ⟨⟨pm₁, hpm₁⟩, (hvalid pm₁ hpm₁).1 ⟨pm', hchecked⟩⟩
  · rintro ⟨⟨pm₁, hpm₁⟩, hrest⟩
    obtain ⟨pm', hchecked⟩ := (hvalid pm₁ hpm₁).2 hrest
    exact ⟨pm', bind_eq_ok.2 ⟨pm₁, hpm₁, hchecked⟩⟩

end Peer

namespace Node

section

variable [AddressText] {cfg : ProtocolConfig} {modem enabled : Bool} {n : Node}

/-- A node that was made has an id for the status. -/
theorem status_of_create (h : create cfg modem enabled = .ok n) :
    n.cfg = cfg ∧ ∃ statusId, cfg.getDataItemId "Status" none = .ok statusId := by
  obtain ⟨items, _, h⟩ := bind_eq_ok.1 h
  obtain ⟨pd, hpd, h⟩ := bind_eq_ok.1 h
  obtain rfl := Except.ok.inj h
  refine ⟨rfl, ?_⟩
  cases hstatus : cfg.getDataItemId "Status" none with
  | ok statusId => exact ⟨statusId, rfl⟩
  | error e =>
    simp only [PeerData.create, PeerData.updateDataItemsHelper, bind_run, hstatus] at hpd
    cases hpd

variable {steps : List Step} {s : Surroundings} {p : Peer} {i j : Nat} {resp : SignalInfo}
  {default : ProtocolMessage}

/-- After updates that are valid one by one, the response to a new peer is valid exactly if the
session data that they have left behind fit into it, and each data item is there as often as the
response may have it. -/
theorem valid_checkedResponse_iff_counts (hcreate : create cfg modem enabled = .ok n)
    (hsteps : Along step UpdatesValidly n steps)
    (hresp : cfg.getSignalInfo "Session_Initialization_Response" = .ok resp)
    (hdefault : Peer.checkedResponse (n.view i) s p = .ok ([], default)) :
    ∃ opening base data, Peer.opening (n.view i) s p = .ok opening ∧
      Building cfg "Session_Initialization_Response" opening base ∧
      sessionData cfg (given steps) n.localPdp = .ok data ∧
      ((∃ pm, Peer.checkedResponse ((run step n steps).view j) s p = .ok ([], pm)) ↔
        FitBehind cfg opening (resp.allowed data) ∧
        ∀ ref ∈ firstReferences resp.dataItems, ref.occurs.Allows
          (Reading.machine.count (countId base ref.id + countId data ref.id))) := by
  obtain ⟨rfl, statusId, hstatus⟩ := status_of_create hcreate
  have hrun := accumulated_run hstatus hsteps
  generalize run step n steps = n' at hrun ⊢
  have hcfg : (n'.view j).cfg = (n.view i).cfg := hrun.cfg
  have hmodem : (n'.view j).modem = (n.view i).modem := hrun.modem
  obtain ⟨opening, hopening, base, hbase⟩ := Peer.opening_of_checkedResponse hdefault
  obtain ⟨body, hframes⟩ : ∃ body, Frames n.cfg "Session_Initialization_Response"
      opening base body :=
    hbase.frames
  have hdata := hrun.own.sessionData hstatus
  refine ⟨opening, base, _, hopening, hbase, hdata, ?_⟩
  obtain ⟨_, hflag, hoccurs, hpasses⟩ :=
    (Peer.valid_checkedResponse_iff hopening hframes hresp).1 ⟨default, hdefault⟩
  obtain ⟨hbasePasses, holdPasses⟩ := List.forall_mem_append.1 hpasses
  have hdataPasses : ∀ di ∈ resp.allowed n'.localPdp.getDataItems, di.Passes n.cfg := by
    intro di hdi
    obtain ⟨hmem, hid⟩ := SignalInfo.mem_allowed.1 hdi
    rcases hrun.own.mem_getDataItems hmem with hold | hgiven
    · exact holdPasses di (SignalInfo.mem_allowed.2 ⟨hold, hid⟩)
    · exact hrun.passes di hgiven
  have hreferenced : ∀ di ∈ base ++ resp.allowed n'.localPdp.getDataItems,
      di.id ∈ resp.dataItems.map SubDataItem.id := by
    intro di hdi
    rcases List.mem_append.1 hdi with hmem | hmem
    · exact (validateOccurrences_eq_nil_iff.1 hoccurs).2 di (List.mem_append_left _ hmem)
    · exact (SignalInfo.mem_allowed.1 hmem).2
  have hcounts : ∀ ref ∈ firstReferences resp.dataItems,
      countId (base ++ resp.allowed n'.localPdp.getDataItems) ref.id =
        countId base ref.id + countId n'.localPdp.getDataItems ref.id := by
    intro ref href
    rw [countId_append, SignalInfo.countId_allowed (List.mem_of_mem_filter href)]
  have hopening' : Peer.opening (n'.view j) s p = .ok opening :=
    (Peer.opening_congr hcfg).trans hopening
  have hframes' : Frames (n'.view j).cfg "Session_Initialization_Response" opening base body := by
    rw [hcfg]
    exact hframes
  have hresp' : (n'.view j).cfg.getSignalInfo "Session_Initialization_Response" = .ok resp := by
    rw [hcfg]
    exact hresp
  rw [Peer.valid_checkedResponse_iff hopening' hframes' hresp', hmodem, hcfg]
  change (∃ pm', addDataItems n.cfg (resp.allowed n'.localPdp.getDataItems) opening = .ok pm') ∧ _ ∧
    validateOccurrences n.cfg (base ++ resp.allowed n'.localPdp.getDataItems)
      resp.dataItems none = _ ∧
    (∀ di ∈ base ++ resp.allowed n'.localPdp.getDataItems, di.Passes n.cfg) ↔ _
  have hoccurs : validateOccurrences n.cfg (base ++ resp.allowed n.localPdp.getDataItems)
    resp.dataItems
      none = .ok [] := hoccurs
  rw [hframes.exists_addDataItems_iff hdataPasses,
    validateOccurrences_iff_of_eq_nil hoccurs hreferenced]
  constructor
  · rintro ⟨hfit, _, hallows, _⟩
    exact ⟨hfit, fun ref href => hcounts ref href ▸ hallows ref href⟩
  · rintro ⟨hfit, hallows⟩
    refine ⟨hfit, hflag, fun ref href => ?_, List.forall_mem_append.2 ⟨hbasePasses, hdataPasses⟩⟩
    rw [hcounts ref href]
    exact hallows ref href

end

/-! ## Two hop limits -/

attribute [local instance] plainText

/-- A configuration whose updates and responses may have one hop limit each. -/
def oneHopLimit : ProtocolConfig :=
  .ofDefinitions ⟨2, FieldSize.two_fits⟩ ⟨2, FieldSize.two_fits⟩
    { messages := [
        Rfc8175.message "Session_Initialization_Response" 2 .both 0
          [⟨"Hop_Control", 18, .zeroOrOne⟩],
        Rfc8175.message "Session_Update" 3 .both 0 [⟨"Hop_Control", 18, .zeroOrOne⟩]]
      dataItems := [Rfc8175.item "Status" 1 .u8String, Rfc8175.item "Hop_Control" 18 .u16] }
    (by decide)

/-- A modem with this configuration that has no peers yet. -/
def hopModem : Node where
  cfg := oneHopLimit
  modem := true
  destAdvertEnabled := false
  localPdp := { peerId := str "local_pdp" }

/-- The client gives a hop limit. -/
def hopLimit (hops : UInt16) : Step := ⟨Peer.bareSurroundings, .peerUpdate [.mk 18 (.u16 hops)]⟩

/-- The sample modem starts without data and peers. -/
theorem create_hopModem : create oneHopLimit true false = .ok hopModem := rfl

/-- That an update is valid can be computed. -/
theorem updatesValidly_hopLimit {n : Node} {hops : UInt16}
    (hrun : (match peerUpdate Peer.bareSurroundings [.mk 18 (.u16 hops)] n with
      | .ok .ok _ => true
      | _ => false) = true)
    (hvalid : (match Peer.compose (n.view 0) "Session_Update"
        (fun pm => addDataItems n.cfg [.mk 18 (.u16 hops)] pm) "peer_update" with
      | .ok ([], _) => true
      | _ => false) = true) : UpdatesValidly n (hopLimit hops) := by
  refine ⟨?_, 0, ?_⟩
  · split at hrun
    · next n' hn' => exact ⟨n', hn'⟩
    · cases hrun
  · split at hvalid
    · next pm hpm => exact ⟨pm, hpm⟩
    · cases hvalid

/-- The hop limits are given one after the other, each in a valid update. -/
theorem updatesValidly_hopLimits : Along step UpdatesValidly hopModem [hopLimit 1, hopLimit 2] :=
  ⟨updatesValidly_hopLimit (by decide +kernel) (by decide +kernel),
    updatesValidly_hopLimit (by decide +kernel) (by decide +kernel), trivial⟩

/-- The response of the sample modem is accepted before any update. -/
theorem exists_default_hopModem :
    ∃ default, Peer.checkedResponse (hopModem.view 0) Peer.bareSurroundings Peer.barePeer =
      .ok ([], default) := by
  have hvalid : (match Peer.checkedResponse (hopModem.view 0) Peer.bareSurroundings
    Peer.barePeer with
    | .ok ([], _) => true
    | _ => false) = true := by decide +kernel
  split at hvalid
  · next pm hpm => exact ⟨pm, hpm⟩
  · cases hvalid

/-- Two hop limits are given, of which the configuration allows one. -/
theorem valid_checkedResponse_iff_counts_hopModem :
    ∃ opening base data, Peer.opening (hopModem.view 0) Peer.bareSurroundings Peer.barePeer =
      .ok opening ∧
      Building oneHopLimit "Session_Initialization_Response" opening base ∧
      sessionData oneHopLimit (given [hopLimit 1, hopLimit 2]) hopModem.localPdp = .ok data ∧
      ((∃ pm, Peer.checkedResponse ((run step hopModem [hopLimit 1, hopLimit 2]).view 0)
          Peer.bareSurroundings Peer.barePeer = .ok ([], pm)) ↔
        FitBehind oneHopLimit opening
          ((Rfc8175.message "Session_Initialization_Response" 2 .both 0
            [⟨"Hop_Control", 18, .zeroOrOne⟩]).allowed data) ∧
        ∀ ref ∈ firstReferences [⟨"Hop_Control", 18, .zeroOrOne⟩], ref.occurs.Allows
          (Reading.machine.count (countId base ref.id + countId data ref.id))) := by
  obtain ⟨default, hdefault⟩ := exists_default_hopModem
  exact valid_checkedResponse_iff_counts create_hopModem updatesValidly_hopLimits rfl hdefault

/-- Two updates with a hop limit are valid one by one, and the response has both hop limits,
although update and response may have the same data items equally often. -/
theorem checkedResponse_hopModem :
    ¬ ∀ (cfg : ProtocolConfig) (modem enabled : Bool) (n : Node) (steps : List Step)
      (s : Surroundings)
        (p : Peer) (i j : Nat) (update resp : SignalInfo) (default : ProtocolMessage),
      cfg.getSignalInfo "Session_Update" = .ok update →
      cfg.getSignalInfo "Session_Initialization_Response" = .ok resp →
      (∀ ref ∈ update.dataItems, ∃ ref' ∈ resp.dataItems,
        ref'.id = ref.id ∧ ref'.occurs = ref.occurs) →
      create cfg modem enabled = .ok n → Along step UpdatesValidly n steps →
      Peer.checkedResponse (n.view i) s p = .ok ([], default) →
      ∃ pm, Peer.checkedResponse ((run step n steps).view j) s p = .ok ([], pm) := by
  intro h
  obtain ⟨default, hdefault⟩ := exists_default_hopModem
  obtain ⟨pm, hpm⟩ :=
    h oneHopLimit true false hopModem [hopLimit 1, hopLimit 2] Peer.bareSurroundings
    Peer.barePeer 0 0 _ _ default rfl rfl (fun ref href => ⟨ref, href, rfl, rfl⟩) create_hopModem
    updatesValidly_hopLimits hdefault
  have hinvalid : (match Peer.checkedResponse ((run step hopModem [hopLimit 1, hopLimit 2]).view 0)
      Peer.bareSurroundings Peer.barePeer with
    | .ok ([], _) => true
    | _ => false) = false := by decide +kernel
  rw [hpm] at hinvalid
  cases hinvalid

end Node

end Dlep
