import Dlep.InfoBase.LastWriter
import Dlep.Peer.OneOwner
import Dlep.Peer.Run

/-!
# The order of an accepted update

`validateIpDataItems` looks at the data items one by one, so that the order makes no difference to
it. What it accepts adds only what nobody owns and drops only what the owner has. The requests
then do not contradict each other, and the order makes no difference to what they leave either.
-/

namespace Dlep

open Std Calls Ownership LastWrite Runs

namespace Peer

/-! ## No address is there twice -/

/-- Neither the peer nor a destination of it has an address twice. -/
def OnceEach (p : Peer) : Prop := ∀ dest, (p.peerPdp.addresses dest).Nodup

/-- Addresses that stay are there once each. -/
theorem OnceEach.same {p q : Peer} (hp : p.OnceEach) (h : SameAddresses p q) : q.OnceEach := by
  unfold OnceEach
  rw [show q.peerPdp.addresses = p.peerPdp.addresses from h]
  exact hp

/-- Addresses of one owner may be replaced by others that are there once each. -/
theorem OnceEach.writes {p q : Peer} {dest : Option DlepMac} {ks : List Address} (hp : p.OnceEach)
    (h : Writes dest ks p q) (hks : ks.Nodup) : q.OnceEach := by
  intro dest'
  rw [show q.peerPdp.addresses = Function.update p.peerPdp.addresses dest ks from h]
  rcases eq_or_ne dest' dest with rfl | hne
  · rwa [Function.update_self]
  · rw [Function.update_of_ne hne]
    exact hp dest'

/-- Requests make no address appear twice. -/
theorem OnceEach.asks {d : DlepView} {items : DataItems} {p q : Peer} (hp : p.OnceEach)
    (h : Asks d items p q) : q.OnceEach := by
  rcases h with hsame | ⟨_, dest, ops, _, hwrites⟩
  · exact hp.same hsame
  · exact hp.writes hwrites (nodup_applyAll (hp dest) ops)

section

variable [AddressText] {d : DlepView} {s : Surroundings} {p : Peer}

/-- No message makes an address appear twice. -/
theorem onceEach_handlePeerSignal {buf : Bytes} (hp : p.OnceEach) :
    wp (handlePeerSignal d s buf) (fun _ q => q.OnceEach) (fun _ q => q.OnceEach) p := by
  refine wp_handlePeerSignal_of_handled hp (fun status reason => ?_) fun name pm hhandled => ?_
  · exact hp.same (same_of_keeps keeps_terminate p)
  · obtain ⟨hreceived, hname⟩ := received_of_handledOf hhandled
    have hknown := known_of_received hreceived
    have htyped := typed_of_received hreceived
    by_cases hun : ∃ dest ks, Unchecked d s pm p name dest ks
    · obtain ⟨dest, ks, hun⟩ := hun
      exact hp.writes (writes_dispatch hknown hun) (hun.spec htyped hp).1
    · exact hp.asks (asks_dispatch hknown htyped hname fun dest ks h => hun ⟨dest, ks, h⟩)

/-- No step makes an address appear twice. -/
theorem onceEach_step {st : Step} (hok : p.QueueOk) (hp : p.OnceEach) : (p.step st).OnceEach := by
  by_cases hmsg : st.input = .message
  · cases hnext : nextMessage st.d p with
    | none =>
      rw [step_of_nextMessage_none hmsg hnext]
      exact hp
    | some buf =>
      exact step_of_nextMessage hmsg hnext (fun q n hq => hq) (onceEach_handlePeerSignal hp)
  · obtain ⟨d, s, input⟩ := st
    have hkeeps : ∀ {ks : Finset Kind} {m : PeerM Unit}, Within (Evolves ks) m → .store ∉ ks →
        (after m p).OnceEach := fun hm hks =>
      hp.same (congrArg PeerData.addresses ((hm p hok).peerPdp hks))
    cases input with
    | start => exact hkeeps within_startPeer (by decide)
    | receive bytes => exact hp
    | message => exact absurd rfl hmsg
    | acktivityTimeout => exact hkeeps within_handleAcktivityTimeout (by decide)
    | heartbeatTimeout => exact hkeeps within_handleHeartbeatTimeout (by decide)
    | eof => exact hkeeps within_stopPeer (by decide)
    | terminate status reason => exact hkeeps within_terminate (by decide)
    | destinationUp mac items => exact hp.same (same_destinationUp p)
    | destinationDown mac items => exact hkeeps within_destinationDown (by decide)
    | destinationUpdate mac items => exact hkeeps within_destinationUpdate (by decide)
    | peerUpdate items =>
      exact hkeeps (within_bind within_peerUpdate fun _ => within_pure) (by decide)
    | linkCharacteristicsRequest mac items =>
      exact hkeeps within_linkCharacteristicsRequest (by decide)
    | linkCharacteristicsResponse mac items =>
      exact hkeeps within_linkCharacteristicsResponse (by decide)
    | removeDestination mac =>
      have hremove : wp (onPdp (PeerData.removeDestination mac))
          (fun _ q => Writes (some mac) [] p q) (fun _ _ => False) p := by
        rw [onPdp, wp_zoom]
        exact (PeerData.wp_removeDestination p.peerPdp).mono (fun _ _ h => h.2) fun _ _ h => h
      refine (wp_after (P := OnceEach)).1 ?_
      simp only [Step.call, wp_bind, wp_pure]
      exact hremove.mono (fun _ q hq => hp.writes hq List.nodup_nil) fun _ _ h => h.elim

/-- At no time of a run an address is there twice. -/
theorem onceEach_run {cfg : ProtocolConfig} {peerId : PeerId} {now : Nat} (steps : List Step)
    (hp : Peer.create cfg peerId now = .ok p) : (run step p steps).OnceEach := by
  have hstart : p.QueueOk ∧ p.OnceEach := by
    rw [create_ok hp]
    refine ⟨fun mac q hq => ?_, fun dest => ?_⟩
    · rw [ExtTreeMap.getElem?_empty] at hq
      cases hq
    · cases dest with
      | none => exact List.nodup_nil
      | some mac =>
        rw [PeerData.addresses, ExtTreeMap.getElem?_empty]
        exact List.nodup_nil
  have hrun : (run step p steps).QueueOk ∧ (run step p steps).OnceEach :=
    along_true.invariant (I := fun q : Peer => q.QueueOk ∧ q.OnceEach)
      (fun q st hq _ => ⟨queueOk_step st hq.1, onceEach_step hq.1 hq.2⟩) hstart
  exact hrun.2

end

end Peer

/-! ## What is accepted does not contradict itself -/

/-- The requests to add an address, and to drop it. -/
theorem add_mem_requests_iff {cfg : ProtocolConfig} {items : DataItems} {k : Address} :
    .add k ∈ requests cfg items ↔ ∃ di ∈ items, di.IsFor cfg k ∧ di.adds = true := by
  simp only [requests, List.mem_filterMap, Option.ite_none_right_eq_some]
  refine exists_congr fun di => and_congr_right fun _ => ?_
  rw [DataItem.IsFor, and_assoc (a := di.IsIpaddr cfg), DataItem.IsIpaddr]
  refine and_congr_right fun _ => ?_
  rw [DataItem.op?, Option.map_eq_some_iff]
  cases hadds : di.adds with
  | true => simp
  | false => simp

/-- A list requests to drop an address exactly if a data item for it says so. -/
theorem drop_mem_requests_iff {cfg : ProtocolConfig} {items : DataItems} {k : Address} :
    .drop k ∈ requests cfg items ↔ ∃ di ∈ items, di.IsFor cfg k ∧ di.adds = false := by
  simp only [requests, List.mem_filterMap, Option.ite_none_right_eq_some]
  refine exists_congr fun di => and_congr_right fun _ => ?_
  rw [DataItem.IsFor, and_assoc (a := di.IsIpaddr cfg), DataItem.IsIpaddr]
  refine and_congr_right fun _ => ?_
  rw [DataItem.op?, Option.map_eq_some_iff]
  cases hadds : di.adds with
  | true => simp
  | false => simp

namespace PeerData

/-- The addresses that an update of a peer, or of one of its destinations, is checked against. -/
def ipDataItemsOf (pd : PeerData) : Option DlepMac → Option DataItems
  | none => some pd.ipDataItems
  | some mac => (pd.getDestinationData mac).map DestinationData.ipDataItems

/-- The addresses of an owner are those of its stored data items. -/
theorem addresses_of_ipDataItemsOf {pd : PeerData} {dest : Option DlepMac} {existing : DataItems}
    (h : pd.ipDataItemsOf dest = some existing) : pd.addresses dest = addressesOf existing := by
  cases dest with
  | none =>
    obtain rfl := Option.some.inj h
    rfl
  | some mac =>
    obtain ⟨dd, hdd, rfl⟩ := Option.map_eq_some_iff.1 h
    rw [addresses, show pd.destinationData[mac]? = some dd from hdd]

section

variable [AddressText] (cfg : ProtocolConfig)

/-- The update of a peer, or of one of its destinations, that follows the check (`Peer.cpp:1345`,
`:1663`). -/
def updateOwner (dest : Option DlepMac) (items : DataItems) : EStateM Exn PeerData String :=
  match dest with
  | none => updateDataItems cfg items
  | some mac => do
    onDestination mac (DestinationData.update cfg items)
    return "Success"

end

section

variable [AddressText] {cfg : ProtocolConfig} {items items' : DataItems} {dest : Option DlepMac}
  {pd : PeerData}

omit [AddressText] in
/-- An unknown metric refuses the update of a peer. -/
def Refuses (cfg : ProtocolConfig) (pd : PeerData) (dest : Option DlepMac) (items : DataItems) :
    Prop :=
  dest = none ∧ ∃ di ∈ items, di.IsMetric cfg ∧ pd.metricDataItems.contains di.id = false

omit [AddressText] in
/-- Whether an update is refused does not depend on its order. -/
theorem refuses_of_perm (hperm : items.Perm items') :
    Refuses cfg pd dest items ↔ Refuses cfg pd dest items' := by
  simp only [Refuses, hperm.mem_iff]

/-- An update is refused, or it is a success; it fails if the status has no id. -/
theorem wp_updateOwner (h : ∀ di ∈ items, di.Classified cfg)
    (hdest : ∃ existing, pd.ipDataItemsOf dest = some existing) :
    wp (updateOwner cfg dest items)
      (fun status pd' => Refuses cfg pd dest items ∧ status = "Invalid_Message" ∧ pd' = pd ∨
        ¬ Refuses cfg pd dest items ∧ status = "Success" ∧
          (dest = none → ∃ id, cfg.getDataItemId "Status" none = .ok id) ∧
          pd'.addresses dest = applyAll (pd.addresses dest) (requests cfg items))
      (fun _ _ => ¬ Refuses cfg pd dest items ∧ dest = none ∧
        ¬ ∃ id, cfg.getDataItemId "Status" none = .ok id) pd := by
  cases dest with
  | none =>
    have hunknown := hasUnknownMetric_eq h pd.metricDataItems
    have hrefuses : (items.any fun di => decide (cfg.isMetric di.id none = .ok true) &&
        !pd.metricDataItems.contains di.id) = true ↔ Refuses cfg pd none items := by
      simp [Refuses, DataItem.IsMetric]
    refine (wp_updateDataItems_updated h hunknown).mono (fun status pd' hpd' => ?_) fun _ _ h => ?_
    · split at hpd'
      · next hunknown => exact .inl ⟨hrefuses.1 hunknown, hpd'⟩
      · next hknown =>
        obtain ⟨hstatus, id, hid, hupdated⟩ := hpd'
        exact .inr ⟨fun h => hknown (hrefuses.2 h), hstatus, fun _ => ⟨id, hid⟩,
          hupdated.ips.addresses⟩
    · exact ⟨fun hno => by simp [hrefuses.2 hno] at h, rfl, h.2.2⟩
  | some mac =>
    have hno : ¬ Refuses cfg pd (some mac) items := fun hrefuses => by cases hrefuses.1
    obtain ⟨existing, hexisting⟩ := hdest
    obtain ⟨dd, hdd, rfl⟩ := Option.map_eq_some_iff.1 hexisting
    have hold := addresses_of_ipDataItemsOf hexisting
    simp only [updateOwner, onDestination, wp_bind, wp_get,
      show pd.destinationData[mac]? = some dd from hdd]
    refine wp_zoom.2 ((DestinationData.wp_update h dd).mono (fun _ dd' hdd' => ?_)
      fun _ _ h => h.elim)
    refine .inr ⟨hno, rfl, nofun, ?_⟩
    rw [addresses_insert, Function.update_self, hold]
    exact hdd'.ips.addresses

/-- What a success leaves, in whatever order the data items are. -/
theorem updateOwner_of_perm (h : ∀ di ∈ items, di.Classified cfg) (hperm : items.Perm items')
    (hdest : ∃ existing, pd.ipDataItemsOf dest = some existing) {status : String} {pd₁ : PeerData}
    (hrun : updateOwner cfg dest items pd = .ok status pd₁) :
    ∃ pd₂, updateOwner cfg dest items' pd = .ok status pd₂ ∧
      (status = "Success" ∧
          pd₁.addresses dest = applyAll (pd.addresses dest) (requests cfg items) ∧
          pd₂.addresses dest = applyAll (pd.addresses dest) (requests cfg items') ∨
        status = "Invalid_Message" ∧ pd₁ = pd ∧ pd₂ = pd) := by
  have h' : ∀ di ∈ items', di.Classified cfg := fun di hdi => h di (hperm.mem_iff.2 hdi)
  have hone := wp_updateOwner h hdest
  rw [wp, hrun] at hone
  have htwo := wp_updateOwner h' hdest
  rw [← refuses_of_perm hperm] at htwo
  cases hrun' : updateOwner cfg dest items' pd with
  | error e pd₂ =>
    rw [wp, hrun'] at htwo
    rcases hone with ⟨hrefuses, _⟩ | ⟨_, _, hid, _⟩
    · exact absurd hrefuses htwo.1
    · exact absurd (hid htwo.2.1) htwo.2.2
  | ok status' pd₂ =>
    rw [wp, hrun'] at htwo
    rcases hone with ⟨hrefuses, rfl, hpd₁⟩ | ⟨hno, rfl, _, hpd₁⟩
    · rcases htwo with ⟨_, rfl, hpd₂⟩ | ⟨hno, _⟩
      · exact ⟨pd₂, rfl, .inr ⟨rfl, hpd₁, hpd₂⟩⟩
      · exact absurd hrefuses hno
    · rcases htwo with ⟨hrefuses, _⟩ | ⟨_, rfl, _, hpd₂⟩
      · exact absurd hrefuses hno
      · exact ⟨pd₂, rfl, .inl ⟨rfl, hpd₁, hpd₂⟩⟩

end

end PeerData

namespace Peer

section

variable {d : DlepView} {p : Peer} {dest : Option DlepMac} {existing items : DataItems}

/-- An address that can be granted is of a known kind. -/
theorem Grantable.classified {di : DataItem} (h : Grantable d p existing di) :
    di.Classified d.cfg := by
  rcases h with hno | ⟨hip, _⟩
  · exact ⟨false, hno⟩
  · exact ⟨true, hip⟩

/-- What may be added is not there, and what may be dropped is. -/
theorem requests_of_grantable (hself : none ∈ d.peers)
    (hexisting : p.peerPdp.ipDataItemsOf dest = some existing)
    (hgrant : ∀ di ∈ items, Grantable d p existing di) {k : Address} :
    (.add k ∈ requests d.cfg items → k ∉ p.peerPdp.addresses dest) ∧
      (.drop k ∈ requests d.cfg items → k ∈ p.peerPdp.addresses dest) := by
  rw [add_mem_requests_iff, drop_mem_requests_iff]
  constructor
  · rintro ⟨di, hdi, ⟨hip, hk⟩, hadds⟩ hthere
    rcases hgrant di hdi with hno | ⟨_, hfree⟩
    · exact absurd (hno.symm.trans hip.2) (by simp)
    · rw [if_pos hadds] at hfree
      obtain ⟨i, hi⟩ := List.mem_iff_getElem?.1 hself
      refine ipOwner_ne_nil.2 ⟨k, hk, (some i, dest), ?_⟩ hfree
      rw [owners, hi]
      exact hthere
  · rintro ⟨di, hdi, ⟨hip, hk⟩, hadds⟩
    rcases hgrant di hdi with hno | ⟨_, hthere⟩
    · exact absurd (hno.symm.trans hip.2) (by simp)
    · rw [if_neg (by simp [hadds])] at hthere
      obtain ⟨k', hk', hmem⟩ := isSome_findIdx?_iff.1 hthere
      obtain rfl := Option.some.inj (hk.symm.trans hk')
      rwa [PeerData.addresses_of_ipDataItemsOf hexisting]

/-- What accepted data items leave: what was there and is not dropped, and what is added. -/
theorem mem_applyAll_of_grantable (hp : p.OnceEach) (hself : none ∈ d.peers)
    (hexisting : p.peerPdp.ipDataItemsOf dest = some existing)
    (hgrant : ∀ di ∈ items, Grantable d p existing di) {k : Address} :
    k ∈ applyAll (p.peerPdp.addresses dest) (requests d.cfg items) ↔
      k ∈ p.peerPdp.addresses dest ∧ (¬ ∃ di ∈ items, di.IsFor d.cfg k ∧ di.adds = false) ∨
        ∃ di ∈ items, di.IsFor d.cfg k ∧ di.adds = true := by
  have hreq := requests_of_grantable hself hexisting hgrant (k := k)
  rw [mem_applyAll_of_disjoint (hp dest) fun hadd hdrop => hreq.1 hadd (hreq.2 hdrop),
    add_mem_requests_iff, drop_mem_requests_iff]

variable [AddressText]

/-- At any time of a run, a list of data items that is accepted for the peer or for one of its
destinations is accepted in any order. The update has the same outcome in any order, and if it is
not refused, the owner then has what it had and is not dropped, and what is added. -/
theorem accepted_in_any_order {cfg : ProtocolConfig} {peerId : PeerId} {now : Nat} {p₀ : Peer}
    {steps : List Step} {items' : DataItems} (hp : Peer.create cfg peerId now = .ok p₀)
    (hrun : run step p₀ steps = p) (hself : none ∈ d.peers)
    (hexisting : p.peerPdp.ipDataItemsOf dest = some existing) (hperm : items.Perm items')
    (hvalid : validateIpDataItems d p existing items = .ok []) :
    validateIpDataItems d p existing items' = .ok [] ∧
    (dest ≠ none → ∃ pd₁, PeerData.updateOwner d.cfg dest items p.peerPdp = .ok "Success" pd₁) ∧
    ∀ (status : String) (pd₁ : PeerData), PeerData.updateOwner d.cfg dest items p.peerPdp =
      .ok status pd₁ →
      ∃ pd₂, PeerData.updateOwner d.cfg dest items' p.peerPdp = .ok status pd₂ ∧
        (status = "Success" ∧ (pd₂.addresses dest).Perm (pd₁.addresses dest) ∧
            (∀ k : Address, k ∈ pd₁.addresses dest ↔
              k ∈ p.peerPdp.addresses dest ∧ (¬ ∃ di ∈ items, di.IsFor d.cfg k ∧ di.adds = false) ∨
                ∃ di ∈ items, di.IsFor d.cfg k ∧ di.adds = true) ∨
          status = "Invalid_Message" ∧ pd₁ = p.peerPdp ∧ pd₂ = p.peerPdp) := by
  have hgrant := validateIpDataItems_eq_nil_iff.1 hvalid
  have hgrant' : ∀ di ∈ items', Grantable d p existing di := fun di hdi =>
    hgrant di (hperm.mem_iff.2 hdi)
  have hclassified : ∀ di ∈ items, di.Classified d.cfg := fun di hdi => (hgrant di hdi).classified
  have honce : p.OnceEach := hrun ▸ onceEach_run steps hp
  refine ⟨validateIpDataItems_eq_nil_iff.2 hgrant', fun hdest => ?_, fun status pd₁ hok => ?_⟩
  · obtain ⟨status, pd₁, hok, hpd₁⟩ :=
      ((PeerData.wp_updateOwner hclassified ⟨existing, hexisting⟩).mono (fun _ _ h => h)
        fun _ _ h => hdest h.2.1).exists_ok
    rcases hpd₁ with ⟨hrefuses, _⟩ | ⟨_, rfl, _⟩
    · exact absurd hrefuses.1 hdest
    · exact ⟨pd₁, hok⟩
  obtain ⟨pd₂, hok', hresult⟩ := PeerData.updateOwner_of_perm hclassified hperm
    ⟨existing, hexisting⟩ hok
  refine ⟨pd₂, hok', hresult.imp_left fun ⟨hstatus, hpd₁, hpd₂⟩ => ⟨hstatus, ?_, fun k => ?_⟩⟩
  · rw [hpd₁, hpd₂]
    refine (List.perm_ext_iff_of_nodup (nodup_applyAll (honce dest) _)
      (nodup_applyAll (honce dest) _)).2 fun k => ?_
    rw [mem_applyAll_of_grantable honce hself hexisting hgrant,
      mem_applyAll_of_grantable honce hself hexisting hgrant']
    simp only [hperm.mem_iff]
  · rw [hpd₁]
    exact mem_applyAll_of_grantable honce hself hexisting hgrant

end

/-! ## An address for another -/

attribute [local instance] plainText

/-- A destination is announced with the address `10.0.0.1`. -/
def addressedSteps : List Step :=
  bareSteps true [.receive announceWithAddress, .message]

/-- The address is dropped. -/
def dropOld : DataItem := .mk 8 (.u8Ipv4 0 (.ofBytes [10, 0, 0, 1]))

/-- Another address is added. -/
def addNew : DataItem := .mk 8 (.u8Ipv4 1 (.ofBytes [10, 0, 0, 2]))

/-- One address of the destination is replaced by another, in either order. -/
theorem accepted_in_any_order_dropAndAdd :
    ∃ existing pd₁ pd₂,
      (run step barePeer addressedSteps).peerPdp.ipDataItemsOf (some [10, 11]) = some existing ∧
      validateIpDataItems (bareView true) (run step barePeer addressedSteps) existing
        [addNew, dropOld] =
        .ok [] ∧
      PeerData.updateOwner rfc8175 (some [10, 11]) [dropOld, addNew]
        (run step barePeer addressedSteps).peerPdp = .ok "Success" pd₁ ∧
      PeerData.updateOwner rfc8175 (some [10, 11]) [addNew, dropOld]
        (run step barePeer addressedSteps).peerPdp = .ok "Success" pd₂ ∧
      (pd₂.addresses (some [10, 11])).Perm (pd₁.addresses (some [10, 11])) ∧
      ∀ k : Address, k ∈ pd₁.addresses (some [10, 11]) ↔
        k ∈ (run step barePeer addressedSteps).peerPdp.addresses (some [10, 11]) ∧
          (¬ ∃ di ∈ [dropOld, addNew], di.IsFor rfc8175 k ∧ di.adds = false) ∨
        ∃ di ∈ [dropOld, addNew], di.IsFor rfc8175 k ∧ di.adds = true := by
  have hany : ((run step barePeer addressedSteps).peerPdp.ipDataItemsOf (some [10, 11])).any
      (fun existing => validateIpDataItems (bareView true)
        (run step barePeer addressedSteps) existing
        [dropOld, addNew] = .ok []) = true := by decide +kernel
  obtain ⟨existing, hexisting, hvalid⟩ := (Option.any_eq_true _ _).1 hany
  obtain ⟨haccepted, hdone, hsame⟩ := @accepted_in_any_order (bareView true)
    (run step barePeer addressedSteps) (some [10, 11]) existing [dropOld, addNew] plainText rfc8175
    (str "peer") 0 barePeer addressedSteps [addNew, dropOld] rfl rfl (List.mem_singleton_self none)
    hexisting (.swap _ _ _) (of_decide_eq_true hvalid)
  obtain ⟨pd₁, hpd₁⟩ := hdone (by simp)
  obtain ⟨pd₂, hpd₂, hresult⟩ := hsame "Success" pd₁ hpd₁
  obtain ⟨-, hperm, hholds⟩ := hresult.resolve_right fun h => absurd h.1 (by decide)
  exact ⟨existing, pd₁, pd₂, hexisting, haccepted, hpd₁, hpd₂, hperm, hholds⟩

/-- The configuration in which IPv4 addresses are metrics. -/
def meteredView : DlepView :=
  { bareView true with
    cfg := .ofDefinitions ⟨2, FieldSize.two_fits⟩ ⟨2, FieldSize.two_fits⟩
      { signals := Rfc8175.signals
        messages := Rfc8175.messages
        dataItems := Rfc8175.dataItems.map fun info =>
          if info.name = "IPv4_Address" then { info with flags := DataItemInfo.metricFlag }
            else info
        statusCodes := Rfc8175.statusCodes
        modules := Rfc8175.modules } (by decide) }

/-- A destination is announced. -/
def meteredSteps : List Step :=
  [⟨meteredView, bareSurroundings, .receive destinationAnnounce⟩,
    ⟨meteredView, bareSurroundings, .message⟩]

/-- An address that is a metric is accepted, and is then not among the addresses of the
destination. -/
theorem metered_address_not_added :
    ¬ ∀ (cfg : ProtocolConfig) (peerId : PeerId) (now : Nat) (p : Peer) (steps : List Step)
        (d : DlepView) (dest : Option DlepMac) (existing items : DataItems) (pd : PeerData),
      Peer.create cfg peerId now = .ok p → none ∈ d.peers →
      (run step p steps).peerPdp.ipDataItemsOf dest = some existing →
      validateIpDataItems d (run step p steps) existing items = .ok [] →
      PeerData.updateOwner d.cfg dest items (run step p steps).peerPdp = .ok "Success" pd →
      ∀ k : Address, k ∈ pd.addresses dest ↔
        k ∈ (run step p steps).peerPdp.addresses dest ∧
          (¬ ∃ di ∈ items, d.cfg.isIpaddr di.id none = .ok true ∧ di.address? = some k ∧
            di.adds = false) ∨
        ∃ di ∈ items, d.cfg.isIpaddr di.id none = .ok true ∧ di.address? = some k ∧
          di.adds = true := by
  intro h
  obtain ⟨hexisting, hvalid, hrun⟩ :
      ((run step barePeer meteredSteps).peerPdp.ipDataItemsOf (some [10, 11])).map List.length =
        some 0 ∧
      validateIpDataItems meteredView (run step barePeer meteredSteps) []
        [DestinationData.addressItem 8 1] = .ok [] ∧
      (match PeerData.updateOwner meteredView.cfg (some [10, 11])
          [DestinationData.addressItem 8 1] (run step barePeer meteredSteps).peerPdp with
        | .ok status pd => decide (status = "Success" ∧ pd.addresses (some [10, 11]) = [])
        | .error _ _ => false) = true := by decide +kernel
  obtain ⟨existing, hexisting, hlength⟩ := Option.map_eq_some_iff.1 hexisting
  obtain rfl := List.length_eq_zero_iff.1 hlength
  split at hrun
  · next status pd hok =>
    obtain ⟨rfl, hnone⟩ := of_decide_eq_true hrun
    have hk :=
      (h meteredView.cfg (str "peer") 0 barePeer meteredSteps meteredView (some [10, 11]) []
        [DestinationData.addressItem 8 1] pd rfl (List.mem_singleton_self none) hexisting hvalid hok
        (.v4 (.ofBytes [10, 0, 0, 1]))).2 (.inr ⟨_, List.mem_singleton_self _, rfl, rfl, rfl⟩)
    rw [hnone] at hk
    cases hk
  · cases hrun

end Peer

end Dlep
