import Dlep.InfoBase.LastWriter
import Dlep.InfoBase.Unchanged
import Dlep.Node.Announce
import Dlep.Node.Tell
import Dlep.ProtocolMessage.Across

/-!
# Updates of a peer's data

An update of the data of a peer, or of the node itself, is refused as a whole or applied as a
whole, to the peer and to all its destinations, and the peers in session are told once. The
message for them is about no destination, since it has no MAC address.
-/

namespace Dlep

open Std Calls Runs ProtocolMessage

/-! ## A message without a MAC address -/

namespace ProtocolMessage

variable [AddressText] {cfg : ProtocolConfig} {name : String} {pm pm' : ProtocolMessage}
  {items : DataItems} {body : Bytes}

/-- Whatever is read of a list that was written, it is read in order. -/
theorem ids_parseDataItems {ws : List Bytes}
    (hws : List.Forall₂ (fun di w => di.serialize cfg = .ok w) items ws) (n pos : Nat) :
    (parseDataItems cfg n (.whole pos ws.flatten)).1.map DataItem.id <+: items.map DataItem.id := by
  induction hws generalizing n pos with
  | nil =>
    cases n with
    | zero => exact List.prefix_rfl
    | succ n => exact List.prefix_rfl
  | @cons di w items ws hw hws ih =>
    cases n with
    | zero => exact List.nil_prefix
    | succ n =>
      rw [parseDataItems]
      split
      · exact List.nil_prefix
      · cases hitem : parseDataItem cfg (.whole pos (w :: ws).flatten) with
        | error e => exact List.nil_prefix
        | ok r =>
          obtain ⟨di', c⟩ := r
          obtain ⟨form, rest, hform, _, hbytes, rfl⟩ := parseDataItem_ok.1 hitem
          rw [List.flatten_cons] at hbytes
          obtain ⟨hread, rfl⟩ := readAs_of_append ⟨rfl, rfl, rfl, rfl, rfl⟩ hw hform hbytes
          dsimp only
          rw [List.map_cons, List.map_cons, hread.1]
          exact List.cons_prefix_cons.2 ⟨rfl, ih n _⟩

/-- A message into which no MAC address was put has none when it is parsed. -/
theorem Frames.getMac_none {id : DataItemIdType} {logPrefix err : Bytes}
    (hid : cfg.getDataItemId "MAC_Address" none = .ok id) (hpm : Frames cfg name pm items body)
    (hitems : ∀ di ∈ items, di.id ≠ id)
    (h : ProtocolMessage.parse cfg logPrefix pm = .ok (err, pm')) :
    ifPresent (pm'.getMac cfg) = .ok none := by
  obtain ⟨pos, hparse⟩ :=
    parse_frame logPrefix hpm.signalId hpm.id_fits hpm.body_fits hpm.size hpm.msgbuf
  rw [hparse] at h
  have hread := parseEnd_ok h
  obtain ⟨ws, hws, rfl⟩ := serializeSubDataItems_ok.1 hpm.body
  have hsub := ids_parseDataItems hws (ws.flatten.length + 1) pos
  have hnone : (pm'.dataItems.find? fun di => di.id = id) = none := by
    rw [List.find?_eq_none]
    intro di hdi hsame
    rw [hread] at hdi
    obtain ⟨di', hdi', heq⟩ := List.mem_map.1 (hsub.subset (List.mem_map_of_mem hdi))
    exact hitems di' hdi' (heq.trans (of_decide_eq_true hsame))
  simp only [ProtocolMessage.getMac, getDataItemValue, hid, ok_bind, hnone]
  rfl

end ProtocolMessage

namespace Peer

/-! ## What an update does to its peer -/

section

variable [AddressText] {d : DlepView} {s : Surroundings} {items : DataItems} {p q : Peer}

/-- The request with an update. -/
def updateRequestOf (d : DlepView) (items : DataItems) : Except Exn ResponsePending := do
  let (_, pm) ← compose d "Session_Update" (fun pm => addDataItems d.cfg items pm) "peer_update"
  ResponsePending.make d.cfg pm

/-- The request with an update depends on the configuration and the role only. -/
theorem updateRequestOf_congr {d' : DlepView} (hcfg : d'.cfg = d.cfg)
    (hmodem : d'.modem = d.modem) :
    updateRequestOf d' items = updateRequestOf d items := by
  simp only [updateRequestOf, compose, hcfg, hmodem]

/-- The request is a Session Update with the data items, and is about no destination. -/
theorem updateRequestOf_ok {rp : ResponsePending}
    (hmac : ∀ id, d.cfg.getDataItemId "MAC_Address" none = .ok id → ∀ di ∈ items, di.id ≠ id)
    (h : updateRequestOf d items = .ok rp) :
    (∃ pm body, Frames d.cfg "Session_Update" pm items body ∧ rp.msgBuffer = pm.msgbuf) ∧
      rp.destination = [] := by
  obtain ⟨⟨err, pm⟩, hcompose, hmake⟩ := bind_eq_ok.1 h
  obtain ⟨header, hheader, hcompose⟩ := bind_eq_ok.1 hcompose
  obtain ⟨pm₀, hpm₀, hvalid⟩ := bind_eq_ok.1 hcompose
  obtain ⟨body, hframes⟩ := (frames_addHeader hheader).addDataItems hpm₀
  obtain ⟨err', hparse⟩ := parse_of_parseAndValidate hvalid
  obtain ⟨hbuf, mac, hmac', hdest⟩ := ResponsePending.make_ok hmake
  rw [List.nil_append] at hframes
  refine ⟨⟨pm, body, hframes.parse hparse, hbuf⟩, ?_⟩
  cases hid : d.cfg.getDataItemId "MAC_Address" none with
  | error e =>
    -- such a configuration has no name for the destination of a message
    simp only [ProtocolConfig.getDataItemId, ProtocolConfig.subDataItemId?, Option.bind_none] at hid
    split at hid
    · cases hid
    · next hright =>
      simp only [ProtocolMessage.getMac, getDataItemValue, ProtocolConfig.getDataItemId,
        ProtocolConfig.subDataItemId?, Option.bind_none, hright] at hmac'
      cases hmac'
  | ok id =>
    rw [hframes.getMac_none hid (hmac id hid) hparse] at hmac'
    rw [hdest, ← Except.ok.inj hmac']
    rfl

/-- The peer, in session, is told of the update once, unless it is not interested in what is about
no destination. -/
structure ToldOfUpdate (cfg : ProtocolConfig) (items : DataItems) (p q : Peer) : Prop where
  heard : p.pstate = .inSession → p.isNotInterested [] = false → ∃ rp pm body,
    Frames cfg "Session_Update" pm items body ∧ rp.msgBuffer = pm.msgbuf ∧ rp.destination = [] ∧
      Requested rp p q
  unheard : ¬ (p.pstate = .inSession ∧ p.isNotInterested [] = false) →
    q = { p with nextUid := q.nextUid }
  queues : QueueInv q

omit [AddressText] in
/-- To a destination in which the peer is not interested, nothing is sent. -/
theorem wp_sendNew_of_not_interested {now : Nat} {rp : ResponsePending} {Q : Unit → Peer → Prop}
    {E : Exn → Peer → Prop} (hint : p.isNotInterested rp.destination = true)
    (hQ : Q () { p with nextUid := p.nextUid + 1 }) : wp (sendNew now rp) Q E p := by
  simp only [sendNew, sendMessageExpectingResponse, wp_bind, wp_get, wp_modify]
  split
  · exact hQ
  · next hnot => exact absurd hint hnot

omit [AddressText] in
/-- What is known of the peer stays. -/
theorem ToldOfUpdate.peerPdp {cfg : ProtocolConfig} (h : ToldOfUpdate cfg items p q) :
    q.peerPdp = p.peerPdp := by
  by_cases hheard : p.pstate = .inSession ∧ p.isNotInterested [] = false
  · obtain ⟨rp, pm, body, _, _, _, hrequested⟩ := h.heard hheard.1 hheard.2
    rw [hrequested.only]
  · rw [h.unheard hheard]

/-- Where the request can be composed, the peer is told of the update. -/
theorem toldOfUpdate_peerUpdate (hp : QueueInv p)
    (hmac : ∀ id, d.cfg.getDataItemId "MAC_Address" none = .ok id → ∀ di ∈ items, di.id ≠ id)
    (hcan : ∃ rp, updateRequestOf d items = .ok rp) :
    wp (peerUpdate d s items) (fun _ q => ToldOfUpdate d.cfg items p q) (fun _ _ => False) p := by
  obtain ⟨rp, hrp⟩ := hcan
  obtain ⟨⟨pm, body, hframes, hbuf⟩, hdest⟩ := updateRequestOf_ok hmac hrp
  simp only [peerUpdate, wp_bind, wp_get]
  split
  · next hstate =>
    obtain ⟨⟨err, pm'⟩, hcompose, hmake⟩ := bind_eq_ok.1 hrp
    rw [wp_bind, hcompose, wp_lift_ok, wp_bind]
    cases hint : p.isNotInterested [] with
    | true =>
      have hmake : ResponsePending.make d.cfg pm' = .ok rp := hmake
      rw [sendRequest, wp_bind, hmake, wp_lift_ok]
      refine wp_sendNew_of_not_interested (by rw [hdest, hint]) ?_
      rw [wp_pure]
      refine ⟨fun _ h => absurd (hint.symm.trans h) (by simp), fun _ => rfl, ?_⟩
      exact hp.append [] hp.ok (List.append_nil _).symm (by simp) rfl (Nat.le_succ _)
    | false =>
      refine (requested_sendRequest hmake hp).mono (fun _ q hq => ?_) fun _ _ hfalse => hfalse
      rw [wp_pure]
      exact ⟨fun _ _ => ⟨rp, pm, body, hframes, hbuf, hdest, hq⟩,
        fun hnot => absurd ⟨hstate, hint⟩ hnot, hq.queues⟩
  · next hstate => exact ⟨fun h => absurd h hstate, fun _ => rfl, hp⟩

end

end Peer

namespace Node

/-! ## The data of the node and of its peers -/

/-- The data of the node itself, or of one of its peers. -/
def dataOf (n : Node) : Option Nat → Option PeerData
  | none => some n.localPdp
  | some i => (n.objects[i]?).map Peer.peerPdp

/-- The node with other data. -/
def withData (n : Node) (pd : PeerData) : Option Nat → Node
  | none => { n with localPdp := pd }
  | some i => { n with objects := n.objects.modify i fun p => { p with peerPdp := pd } }

/-- A call on the data of the node or of one of its peers. -/
def onData {α : Type} (owner : Option Nat) (m : EStateM Exn PeerData α) : NodeM α :=
  match owner with
  | none => onLocal m
  | some i => onPeer i fun _ => Peer.onPdp m

section

variable [AddressText] {n : Node} {s : Surroundings} {items : DataItems} {owner : Option Nat}

/-- Source: `PeerData::update_data_items` (`InfoBaseMgr.cpp:416`). -/
def updateDataItems (s : Surroundings) (owner : Option Nat) (items : DataItems) (tell : Bool) :
    NodeM String := do
  let status ← onData owner (PeerData.updateDataItems (← get).cfg items)
  if status = "Success" then
    if tell then
      tellPeers fun d => do let _ ← Peer.peerUpdate d s items
    else pure ()
    return status
  else return status

/-- The update that the client makes is one of the data of the node, and the peers are told. -/
theorem peerUpdate_eq_updateDataItems :
    peerUpdate s items = do
      let status ← updateDataItems s none items true
      return if status = "Success" then .ok else .invalidDataItem := by
  simp only [peerUpdate, updateDataItems, onData, bind_assoc, if_true]
  refine bind_congr fun n => bind_congr fun status => ?_
  split
  · next hstatus => simp only [bind_assoc, pure_bind, if_pos hstatus]
  · next hstatus => simp only [pure_bind, if_neg hstatus]

omit [AddressText] in
/-- Writing the data of a peer replaces its object. -/
theorem withData_object {i : Nat} {p : Peer} (hp : n.objects[i]? = some p) (pd : PeerData) :
    n.withData pd (some i) = { n with objects := n.objects.set i { p with peerPdp := pd } } := by
  rw [withData, List.modify_eq_set_getElem?, hp]
  rfl

omit [AddressText] in
/-- Writing the data that are there changes nothing. -/
theorem withData_self {pd : PeerData} (hpd : n.dataOf owner = some pd) :
    n.withData pd owner = n := by
  cases owner with
  | none =>
    obtain rfl := Option.some.inj hpd
    rfl
  | some i =>
    obtain ⟨p, hp, rfl⟩ := Option.map_eq_some_iff.1 hpd
    obtain ⟨hi, hget⟩ := List.getElem?_eq_some_iff.1 hp
    rw [withData_object hp, ← hget, List.set_getElem_self]

omit [AddressText] in
/-- Other data keep a node sound. -/
theorem Sound.withData (hn : n.Sound) (pd : PeerData) : (n.withData pd owner).Sound := by
  cases owner with
  | none => exact ⟨hn.queues, hn.object, hn.unique⟩
  | some i =>
    refine ⟨fun j q hq => ?_, fun key j hj => ?_, hn.unique⟩
    · rw [Node.withData, List.getElem?_modify] at hq
      obtain ⟨p, hp, rfl⟩ := Option.map_eq_some_iff.1 hq
      have hinv := hn.queues j p hp
      split
      · exact hinv.append [] hinv.ok (List.append_nil _).symm (by simp) rfl le_rfl
      · exact hinv
    · rw [Node.withData, List.length_modify]
      exact hn.object key j hj

omit [AddressText] in
/-- A call on the data of an owner is the call on them, put back whether it returns or throws. -/
theorem wp_onData {α : Type} {m : EStateM Exn PeerData α} {pd : PeerData} {Q : α → Node → Prop}
    {E : Exn → Node → Prop} (hpd : n.dataOf owner = some pd)
    (h : wp m (fun a pd' => Q a (n.withData pd' owner))
      (fun e pd' => E e (n.withData pd' owner)) pd) :
    wp (onData owner m) Q E n := by
  cases owner with
  | none =>
    obtain rfl := Option.some.inj hpd
    exact wp_zoom.2 h
  | some i =>
    obtain ⟨p, hp, rfl⟩ := Option.map_eq_some_iff.1 hpd
    show wp (onPeer i fun _ => Peer.onPdp m) Q E n
    refine wp_onPeer (fun hnone => ?_) fun p' hp' => ?_
    · rw [hp] at hnone
      cases hnone
    · obtain rfl := Option.some.inj (hp.symm.trans hp')
      refine wp_zoom.2 ?_
      simpa only [withData_object hp] using h

/-- The update with the data items can be composed for every peer in the map. -/
def CanTellUpdate (n : Node) (items : DataItems) : Prop :=
  ∀ i ∈ n.listed, ∃ rp, Peer.updateRequestOf (n.view i) items = .ok rp

/-- What an update of the data of an owner does: it is refused as a whole, or made as a whole and
told. -/
theorem wp_updateDataItems {tell unknown : Bool} {pd : PeerData} {statusId : DataItemIdType}
    (hn : n.Sound) (hpd : n.dataOf owner = some pd) (hitems : ∀ di ∈ items, di.Classified n.cfg)
    (hstatus : n.cfg.getDataItemId "Status" none = .ok statusId)
    (hmac : ∀ id, n.cfg.getDataItemId "MAC_Address" none = .ok id → ∀ di ∈ items, di.id ≠ id)
    (hcan : n.CanTellUpdate items)
    (hunknown : PeerData.hasUnknownMetric n.cfg pd.metricDataItems items = .ok unknown) :
    wp (updateDataItems s owner items tell)
      (fun status n' => if unknown then status = "Invalid_Message" ∧ n' = n
        else status = "Success" ∧ ∃ pd', PeerData.Updated n.cfg statusId items pd pd' ∧
          Told (if tell then n.listed else []) (Peer.ToldOfUpdate n.cfg items)
            (n.withData pd' owner) n')
      (fun _ _ => False) n := by
  simp only [updateDataItems, wp_bind, wp_get]
  refine wp_onData hpd ?_
  refine (PeerData.wp_updateDataItems_updated hitems hunknown).mono (fun status pd' h => ?_) ?_
  · cases unknown with
    | true =>
      obtain ⟨rfl, rfl⟩ := h
      exact ⟨rfl, withData_self hpd⟩
    | false =>
      obtain ⟨rfl, id, hid, hupdated⟩ := h
      obtain rfl := Except.ok.inj (hstatus.symm.trans hid)
      simp only [if_true, Bool.false_eq_true, if_false]
      cases tell with
      | true =>
        simp only [if_true, wp_bind, wp_pure]
        have hlisted : (n.withData pd' owner).listed = n.listed := by cases owner <;> rfl
        have hcfg : (n.withData pd' owner).cfg = n.cfg := by cases owner <;> rfl
        have hmodem : (n.withData pd' owner).modem = n.modem := by cases owner <;> rfl
        have hsound : (n.withData pd' owner).Sound := hn.withData pd'
        refine (hsound.told_tellPeers (U := Peer.ToldOfUpdate n.cfg items) ?_).mono ?_
          fun _ _ hfalse => hfalse
        rotate_left
        · rintro _ n' hn'
          rw [hlisted] at hn'
          exact ⟨trivial, pd', hupdated, hn'⟩
        · intro i hi p hp d hdcfg hdmodem
          rw [hlisted] at hi
          rw [hcfg] at hdcfg
          rw [hmodem] at hdmodem
          have hcan' : ∃ rp, Peer.updateRequestOf d items = .ok rp := by
            obtain ⟨rp, hrp⟩ := hcan i hi
            exact ⟨rp, (Peer.updateRequestOf_congr hdcfg hdmodem).trans hrp⟩
          rw [← hdcfg] at hmac ⊢
          rw [wp_bind]
          exact (Peer.toldOfUpdate_peerUpdate ((hn.withData pd').queues i p hp) hmac hcan').mono
            (fun _ _ hq => hq) fun _ _ hfalse => hfalse
      | false => exact ⟨rfl, pd', hupdated, rfl, rfl, by simp, fun _ _ => rfl⟩
  · rintro _ _ ⟨_, _, hnone⟩
    exact hnone ⟨statusId, hstatus⟩

omit [AddressText] in
/-- The data that were written are there. -/
theorem dataOf_withData {pd : PeerData} (hpd : n.dataOf owner = some pd) (pd' : PeerData) :
    (n.withData pd' owner).dataOf owner = some pd' := by
  cases owner with
  | none => rfl
  | some i =>
    obtain ⟨p, hp, _⟩ := Option.map_eq_some_iff.1 hpd
    rw [withData, dataOf, List.getElem?_modify_eq, hp]
    rfl

omit [AddressText] in
/-- What is told to the peers does not change the data. -/
theorem Told.dataOf {js : List Nat} {cfg : ProtocolConfig} {n' : Node}
    (h : Told js (Peer.ToldOfUpdate cfg items) n n') : n'.dataOf owner = n.dataOf owner := by
  cases owner with
  | none => rw [Node.dataOf, Node.dataOf, h.rest]
  | some i =>
    rw [Node.dataOf, Node.dataOf]
    by_cases hi : i ∈ js
    · cases hp : n.objects[i]? with
      | none =>
        have hnone : n'.objects[i]? = none := by
          rw [List.getElem?_eq_none_iff, h.length]
          exact List.getElem?_eq_none_iff.1 hp
        rw [hnone]
      | some p =>
        obtain ⟨q, hq, htold⟩ := h.changed i hi p hp
        rw [hq, Option.map_some, Option.map_some, htold.peerPdp]
    · rw [h.same i hi]

/-- The update of the data of a peer or of the node is refused, and changes nothing, exactly if a
metric in it is not among those of the peer. Else it is applied to the peer and all its
destinations, and every peer in the map is told, if it shall be. -/
theorem updateDataItems_atomic {tell : Bool} {pd : PeerData} (hn : n.Sound)
    (hpd : n.dataOf owner = some pd) (hitems : ∀ di ∈ items, di.Configured n.cfg)
    (hstatus : ∃ id, n.cfg.getDataItemId "Status" none = .ok id)
    (hmac : ∀ id, n.cfg.getDataItemId "MAC_Address" none = .ok id → ∀ di ∈ items, di.id ≠ id)
    (hcan : n.CanTellUpdate items) :
    ∃ status n', updateDataItems s owner items tell n = .ok status n' ∧
      (status = "Invalid_Message" ↔
        ∃ di ∈ items, di.IsMetric n.cfg ∧ pd.metricDataItems[di.id]? = none) ∧
      (status = "Invalid_Message" → n' = n) ∧
      (status ≠ "Invalid_Message" → status = "Success" ∧ ∃ pd', n'.dataOf owner = some pd' ∧
        MetricsUpdated n.cfg items pd.metricDataItems pd'.metricDataItems ∧
        (∀ mac : DlepMac, pd.destinationData[mac]? = none → pd'.destinationData[mac]? = none) ∧
        (∀ (mac : DlepMac) (dd : DestinationData), pd.destinationData[mac]? = some dd →
          ∃ dd', pd'.destinationData[mac]? = some dd' ∧
            MetricsUpdated n.cfg items dd.metricDataItems dd'.metricDataItems ∧
            dd'.ipDataItems = dd.ipDataItems) ∧
        Told (if tell then n.listed else []) (Peer.ToldOfUpdate n.cfg items)
          (n.withData pd' owner) n') := by
  obtain ⟨statusId, hstatus⟩ := hstatus
  have hclassified : ∀ di ∈ items, di.Classified n.cfg := fun di hdi => (hitems di hdi).classified
  have hunknown := PeerData.hasUnknownMetric_eq hclassified pd.metricDataItems
  have hany : (items.any fun di => decide (n.cfg.isMetric di.id none = .ok true) &&
      !pd.metricDataItems.contains di.id) = true ↔
      ∃ di ∈ items, di.IsMetric n.cfg ∧ pd.metricDataItems[di.id]? = none := by
    simp only [List.any_eq_true, Bool.and_eq_true, decide_eq_true_iff, Bool.not_eq_true',
      ExtTreeMap.contains_eq_isSome_getElem?, Option.isSome_eq_false_iff, Option.isNone_iff_eq_none]
    rfl
  obtain ⟨status, n', hrun, h⟩ :=
    (@wp_updateDataItems _ n s items owner tell _ pd statusId hn hpd hclassified hstatus hmac hcan
      hunknown).exists_ok
  refine ⟨status, n', hrun, ?_⟩
  split at h
  · next hyes =>
    obtain ⟨rfl, rfl⟩ := h
    exact ⟨iff_of_true rfl (hany.1 hyes), fun _ => rfl, fun hne => absurd rfl hne⟩
  · next hno =>
    obtain ⟨rfl, pd', hupdated, htold⟩ := h
    have hne : "Success" ≠ "Invalid_Message" := by decide
    refine ⟨iff_of_false hne fun hyes => hno (hany.2 hyes), fun heq => absurd heq hne, fun _ => ?_⟩
    refine ⟨rfl, pd', ?_, hupdated.metrics, hupdated.absent, fun mac dd hdd => ?_, htold⟩
    · rw [htold.dataOf, dataOf_withData hpd]
    · obtain ⟨dd', hdd', hdest⟩ := hupdated.destination mac dd hdd
      refine ⟨dd', hdd', metricsUpdated_filter hdest.metrics, hdest.ips.same fun di hdi hip => ?_⟩
      have hmetric : n.cfg.isMetric di.id none = .ok true :=
        of_decide_eq_true (List.mem_filter.1 hdi).2
      rw [hip.1] at hmetric
      cases hmetric

end

attribute [local instance] plainText

/-- The modem, with a latency. -/
def modemWithLatency : Node :=
  { modemOfOne with
    localPdp :=
      { peerId := str "local"
        metricDataItems := (∅ : DataItemMap).insert 16 (DestinationData.latencyItem 5) } }

/-- The sample modem can tell its router of a new latency. -/
theorem canTellUpdate_modemWithLatency :
    modemWithLatency.CanTellUpdate [DestinationData.latencyItem 7] := by
  intro i _
  have hrequest : (Peer.updateRequestOf (Peer.bareView true) [DestinationData.latencyItem 7]).isOk =
      true := by decide +kernel
  have hsame : Peer.updateRequestOf (modemWithLatency.view i) [DestinationData.latencyItem 7] =
      Peer.updateRequestOf (Peer.bareView true) [DestinationData.latencyItem 7] :=
    Peer.updateRequestOf_congr rfl rfl
  rw [hsame]
  cases hrp : Peer.updateRequestOf (Peer.bareView true) [DestinationData.latencyItem 7] with
  | ok rp => exact ⟨rp, rfl⟩
  | error e =>
    rw [hrp] at hrequest
    cases hrequest

/-- The sample modem has one latency and is given another. -/
theorem updateDataItems_atomic_modemWithLatency :
    ∃ n' pd', updateDataItems Peer.bareSurroundings none [DestinationData.latencyItem 7] true
        modemWithLatency = .ok "Success" n' ∧
      n'.dataOf none = some pd' ∧
      MetricsUpdated rfc8175 [DestinationData.latencyItem 7]
        modemWithLatency.localPdp.metricDataItems pd'.metricDataItems := by
  have hqueues : Peer.QueueInv Peer.barePeer :=
    @Peer.queueInv_of_create _ rfc8175 (str "peer") 0 _ rfl
  have hsound : modemWithLatency.Sound :=
    sound_of_one rfl rfl (hqueues.append [] hqueues.ok (by simp [routerInSession])
      (by simp) rfl le_rfl)
  have hnone : ∀ id, rfc8175.getDataItemId "MAC_Address" none = .ok id →
      ∀ di ∈ [DestinationData.latencyItem 7], di.id ≠ id := by
    intro id hid di hdi
    have hmac : rfc8175.getDataItemId "MAC_Address" none = .ok 7 := rfl
    obtain rfl := Except.ok.inj (hmac.symm.trans hid)
    obtain rfl := List.mem_singleton.1 hdi
    decide
  have hknown : modemWithLatency.localPdp.metricDataItems[(DestinationData.latencyItem 7).id]? =
      some (DestinationData.latencyItem 5) := ExtTreeMap.getElem?_insert_self
  obtain ⟨status, n', hrun, hrefused, _, happlied⟩ :=
    @updateDataItems_atomic plainText modemWithLatency
    Peer.bareSurroundings [DestinationData.latencyItem 7] none true
      modemWithLatency.localPdp hsound rfl
    (by simpa using ⟨_, rfl⟩) ⟨1, rfl⟩ hnone canTellUpdate_modemWithLatency
  have hne : status ≠ "Invalid_Message" := by
    intro heq
    obtain ⟨di, hdi, _, hnone⟩ := hrefused.1 heq
    obtain rfl := List.mem_singleton.1 hdi
    rw [hknown] at hnone
    cases hnone
  obtain ⟨rfl, pd', hdata, hmetrics, _⟩ := happlied hne
  exact ⟨n', pd', hrun, hdata, hmetrics⟩

end Node

end Dlep
