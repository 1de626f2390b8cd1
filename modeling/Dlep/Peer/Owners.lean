import Dlep.Peer.Addresses
import Dlep.Peer.Run
import Dlep.ProtocolMessage.Wire

/-!
# The owners of addresses

The local node, its peers and the destinations of all of them own addresses. `validateIpDataItems`
asks for the owner of every address that is to be added, and the handlers that call it first store
only what is free.
-/

namespace Dlep

open Std Calls Ownership

namespace Peer

/-- Who can own an address: the local node, or the peer at an index; either itself or one of its
destinations. -/
abbrev Owner := Option Nat × Option DlepMac

/-- What everyone owns. -/
def owners (d : DlepView) (p : Peer) : Owner → List Address
  | (none, dest) => d.localPdp.addresses dest
  | (some i, dest) =>
    match d.peers[i]? with
    | some pd => (pd.getD p.peerPdp).addresses dest
    | none => []

/-- The peer itself stands once in the map of the peers. -/
structure SelfAt (d : DlepView) (i : Nat) : Prop where
  self : d.peers[i]? = some none
  only : ∀ j, d.peers[j]? = some none → j = i

/-- The addresses that data items ask to add. -/
def addsOf (cfg : ProtocolConfig) (items : DataItems) : List Address :=
  items.filterMap fun di =>
    if cfg.isIpaddr di.id none = .ok true ∧ di.adds = true then di.address? else none

/-- Something is to be added that is owned. -/
def AddsOwned (d : DlepView) (p : Peer) (items : DataItems) : Prop :=
  ∃ k ∈ addsOf d.cfg items, Owned (owners d p) k

/-- What data items ask to add, one data item at a time. -/
theorem mem_addsOf {cfg : ProtocolConfig} {items : DataItems} {k : Address} :
    k ∈ addsOf cfg items ↔ ∃ di ∈ items, cfg.isIpaddr di.id none = .ok true ∧ di.adds = true ∧
      di.address? = some k := by
  simp only [addsOf, List.mem_filterMap, Option.ite_none_right_eq_some, and_assoc]

/-- What is added is among the requests. -/
theorem mem_addsOf_of_add_mem_requests {cfg : ProtocolConfig} {items : DataItems} {k : Address}
    (h : .add k ∈ requests cfg items) : k ∈ addsOf cfg items := by
  simp only [requests, List.mem_filterMap, Option.ite_none_right_eq_some] at h
  obtain ⟨di, hdi, ⟨_, hipaddr⟩, hop⟩ := h
  obtain ⟨k', hk', hadd⟩ := Option.map_eq_some_iff.1 hop
  split at hadd
  · next hadds =>
    obtain rfl := Op.add.inj hadd
    exact mem_addsOf.2 ⟨di, hdi, hipaddr, hadds, hk'⟩
  · cases hadd

/-! ## The table -/

section

variable {d : DlepView} {p q : Peer} {i : Nat}

/-- The peer owns what its data say. -/
theorem owners_self (hself : SelfAt d i) (dest : Option DlepMac) :
    owners d p (some i, dest) = p.peerPdp.addresses dest := by
  rw [owners, hself.self]
  rfl

/-- Who owns what depends on the addresses of the peer only. -/
theorem owners_congr (h : q.peerPdp.addresses = p.peerPdp.addresses) : owners d q = owners d p := by
  funext o
  obtain ⟨who, dest⟩ := o
  cases who with
  | none => rfl
  | some j =>
    rw [owners, owners]
    cases d.peers[j]? with
    | none => rfl
    | some pd =>
      cases pd with
      | none => exact congrFun h dest
      | some _ => rfl

/-- What the peer writes about itself is written at its place in the table. -/
theorem owners_update (hself : SelfAt d i) {dest : Option DlepMac} {ks : List Address}
    (h : q.peerPdp.addresses = Function.update p.peerPdp.addresses dest ks) :
    owners d q = Function.update (owners d p) (some i, dest) ks := by
  funext o
  obtain ⟨who, dest'⟩ := o
  cases who with
  | none => rw [Function.update_of_ne (by simp)]; rfl
  | some j =>
    rcases eq_or_ne j i with rfl | hne
    · rw [owners_self hself, h]
      rcases eq_or_ne dest' dest with rfl | hdest
      · rw [Function.update_self, Function.update_self]
      · rw [Function.update_of_ne hdest, Function.update_of_ne (by simpa using hdest),
          owners_self hself]
    · rw [Function.update_of_ne (by simp [hne]), owners, owners]
      cases hj : d.peers[j]? with
      | none => rfl
      | some pd =>
        cases pd with
        | none => exact absurd (hself.only j hj) hne
        | some _ => rfl

end

/-! ## Asking for the owner -/

end Peer

/-- A destination is named if it has the address. -/
theorem DestinationData.findIpDataItem_ne_nil {dd : DestinationData} {di : DataItem} :
    dd.findIpDataItem di ≠ [] ↔ ∃ k, di.address? = some k ∧ k ∈ addressesOf dd.ipDataItems := by
  have htext : str "destination=" ≠ [] := str_ne_nil (by simp)
  rw [← isSome_findIdx?_iff, DestinationData.findIpDataItem, DataItem.findIpDataItem]
  split
  · next h => simp [h, htext]
  · next h => simp [h]

/-- An owner is found among destinations exactly if one of them has the address. -/
theorem PeerData.findAmong_ne_nil {di : DataItem} {dds : List DestinationData} :
    PeerData.findAmong di dds ≠ [] ↔ ∃ dd ∈ dds, dd.findIpDataItem di ≠ [] := by
  induction dds with
  | nil => simp [PeerData.findAmong]
  | cons dd dds ih =>
    rw [PeerData.findAmong, List.exists_mem_cons_iff]
    split
    · next h => simp [h]
    · next h => rw [ih, or_iff_right h]

/-- A peer is named, or a destination of it, if it has the address. -/
theorem PeerData.findIpDataItem_ne_nil {pd : PeerData} {di : DataItem} :
    pd.findIpDataItem di ≠ [] ↔ ∃ k, di.address? = some k ∧ ∃ dest, k ∈ pd.addresses dest := by
  have htext : str "peer=" ≠ [] := str_ne_nil (by simp)
  have hpeer : (di.findIpDataItem pd.ipDataItems).isSome = true ↔
      ∃ k, di.address? = some k ∧ k ∈ pd.addresses none := isSome_findIdx?_iff
  have hdests : PeerData.findAmong di (pd.destinationData.toList.map Prod.snd) ≠ [] ↔
      ∃ k, di.address? = some k ∧ ∃ mac, k ∈ pd.addresses (some mac) := by
    rw [PeerData.findAmong_ne_nil]
    constructor
    · rintro ⟨dd, hdd, hfind⟩
      obtain ⟨⟨mac, _⟩, hmem, rfl⟩ := List.mem_map.1 hdd
      obtain ⟨k, hk, hmem'⟩ := DestinationData.findIpDataItem_ne_nil.1 hfind
      refine ⟨k, hk, mac, ?_⟩
      rw [PeerData.addresses, ExtTreeMap.mem_toList_iff_getElem?_eq_some.1 hmem]
      exact hmem'
    · rintro ⟨k, hk, mac, hmem⟩
      rw [PeerData.addresses] at hmem
      split at hmem
      · next dd hdd =>
        refine ⟨dd, List.mem_map.2 ⟨(mac, dd), ?_, rfl⟩, ?_⟩
        · exact ExtTreeMap.mem_toList_iff_getElem?_eq_some.2 hdd
        · exact DestinationData.findIpDataItem_ne_nil.2 ⟨k, hk, hmem⟩
      · cases hmem
  unfold PeerData.findIpDataItem
  split
  · next h =>
    obtain ⟨k, hk, hmem⟩ := hpeer.1 h
    refine ⟨fun _ => ⟨k, hk, none, hmem⟩, fun _ => by simp [htext]⟩
  · next h =>
    rw [hdests]
    constructor
    · rintro ⟨k, hk, mac, hmem⟩
      exact ⟨k, hk, some mac, hmem⟩
    · rintro ⟨k, hk, dest, hmem⟩
      cases dest with
      | none => exact absurd (hpeer.2 ⟨k, hk, hmem⟩) h
      | some mac => exact ⟨k, hk, mac, hmem⟩

namespace Peer

/-- An owner is found among peers exactly if one of them has the address. -/
theorem ownerAmong_ne_nil {di : DataItem} {pds : List PeerData} :
    ownerAmong di pds ≠ [] ↔ ∃ pd ∈ pds, pd.findIpDataItem di ≠ [] := by
  induction pds with
  | nil => simp [ownerAmong]
  | cons pd pds ih =>
    rw [ownerAmong, List.exists_mem_cons_iff]
    split
    · next h => simp [h]
    · next h => rw [ih, or_iff_right h]

section

variable {d : DlepView} {p : Peer}

/-- The owner is found if there is one. -/
theorem ipOwner_ne_nil {di : DataItem} :
    ipOwner d p di ≠ [] ↔ ∃ k, di.address? = some k ∧ Owned (owners d p) k := by
  have hpeers : ownerAmong di (d.peers.map fun pd => pd.getD p.peerPdp) ≠ [] ↔
      ∃ k, di.address? = some k ∧ ∃ i dest, k ∈ owners d p (some i, dest) := by
    rw [ownerAmong_ne_nil]
    constructor
    · rintro ⟨_, hmem, hfind⟩
      obtain ⟨pd, hpd, rfl⟩ := List.mem_map.1 hmem
      obtain ⟨i, hi⟩ := List.mem_iff_getElem?.1 hpd
      obtain ⟨k, hk, dest, hmem⟩ := PeerData.findIpDataItem_ne_nil.1 hfind
      refine ⟨k, hk, i, dest, ?_⟩
      rw [owners, hi]
      exact hmem
    · rintro ⟨k, hk, i, dest, hmem⟩
      rw [owners] at hmem
      split at hmem
      · next pd hpd =>
        refine ⟨_, List.mem_map_of_mem (List.mem_of_getElem? hpd), ?_⟩
        exact PeerData.findIpDataItem_ne_nil.2 ⟨k, hk, dest, hmem⟩
      · cases hmem
  unfold ipOwner
  split
  · next h =>
    obtain ⟨k, hk, dest, hmem⟩ := PeerData.findIpDataItem_ne_nil.1 h
    exact ⟨fun _ => ⟨k, hk, (none, dest), hmem⟩, fun _ => h⟩
  · next h =>
    rw [hpeers]
    constructor
    · rintro ⟨k, hk, i, dest, hmem⟩
      exact ⟨k, hk, (some i, dest), hmem⟩
    · rintro ⟨k, hk, ⟨who, dest⟩, hmem⟩
      cases who with
      | none => exact absurd (PeerData.findIpDataItem_ne_nil.2 ⟨k, hk, dest, hmem⟩) h
      | some i => exact ⟨k, hk, i, dest, hmem⟩

variable [AddressText]

omit [AddressText] in
/-- Nothing is wrong with one data item: it is no address, or it is added and free, or it is
dropped and there. -/
def Grantable (d : DlepView) (p : Peer) (existing : DataItems) (di : DataItem) : Prop :=
  d.cfg.isIpaddr di.id none = .ok false ∨ d.cfg.isIpaddr di.id none = .ok true ∧
    if di.adds then ipOwner d p di = [] else (di.findIpDataItem existing).isSome = true

/-- The data items are looked at one by one. -/
theorem validateIpDataItems_eq_nil_iff {existing items : DataItems} :
    validateIpDataItems d p existing items = .ok [] ↔ ∀ di ∈ items, Grantable d p existing di := by
  have hcannotAdd : str "cannot add " ≠ [] := str_ne_nil (by simp)
  have hcannotRemove : str "cannot remove " ≠ [] := str_ne_nil (by simp)
  induction items with
  | nil => simp [validateIpDataItems]
  | cons ndi items ih =>
    refine (Iff.trans ?_ (and_congr_right fun _ => ih)).trans List.forall_mem_cons.symm
    rw [validateIpDataItems, bind_eq_ok, Grantable]
    have hadds : (ndi.ipFlags &&& DataItem.ipFlagAdd ≠ 0) ↔
        ndi.adds = true := by simp [DataItem.adds]
    simp only [hadds]
    constructor
    · rintro ⟨ipaddr, hipaddr, h⟩
      cases ipaddr with
      | false => exact ⟨.inl hipaddr, h⟩
      | true =>
        rw [if_pos rfl] at h
        split at h
        · next hadding =>
          split at h
          · obtain ⟨_, _, h⟩ := bind_eq_ok.1 h
            have hnil := Except.ok.inj h
            simp [hcannotAdd] at hnil
          · next hfree => exact ⟨.inr ⟨hipaddr, by rw [if_pos hadding, not_not.1 hfree]⟩, h⟩
        · next hdropping =>
          split at h
          · next hthere => exact ⟨.inr ⟨hipaddr, by rwa [if_neg hdropping]⟩, h⟩
          · obtain ⟨_, _, h⟩ := bind_eq_ok.1 h
            have hnil := Except.ok.inj h
            simp [hcannotRemove] at hnil
    · rintro ⟨hipaddr | ⟨hipaddr, hgrant⟩, h⟩
      · exact ⟨false, hipaddr, h⟩
      · refine ⟨true, hipaddr, ?_⟩
        rw [if_pos rfl]
        split
        · next hadding =>
          rw [if_pos hadding] at hgrant
          rw [if_neg (not_not.2 hgrant)]
          exact h
        · next hdropping =>
          rw [if_neg hdropping] at hgrant
          rw [if_pos hgrant]
          exact h

/-- If nothing is wrong with the addresses, none that is to be added is owned. -/
theorem not_addsOwned_of_validateIpDataItems {existing items : DataItems}
    (h : validateIpDataItems d p existing items = .ok []) : ¬ AddsOwned d p items := by
  rintro ⟨k, hk, howned⟩
  obtain ⟨di, hdi, hipaddr, hadds, haddress⟩ := mem_addsOf.1 hk
  rcases validateIpDataItems_eq_nil_iff.1 h di hdi with hno | ⟨_, hgrant⟩
  · exact absurd (hno.symm.trans hipaddr) (by simp)
  · rw [if_pos hadds] at hgrant
    exact ipOwner_ne_nil.2 ⟨k, haddress, howned⟩ hgrant

end

/-! ## Calls that leave the addresses alone -/

/-- The data of the peer is as it was. -/
def KeepsPdp (p q : Peer) : Prop := q.peerPdp = p.peerPdp

instance : Std.Refl KeepsPdp := ⟨fun _ => rfl⟩

instance : IsTrans Peer KeepsPdp := ⟨fun _ _ _ h h' => h'.trans h⟩

/-- Data that are kept twice are kept. -/
theorem KeepsPdp.trans {p q r : Peer} (h : KeepsPdp p q) (h' : KeepsPdp q r) : KeepsPdp p r :=
  Eq.trans h' h

/-- Writing other fields keeps the data. -/
theorem keeps_modify {f : Peer → Peer} (h : ∀ p, (f p).peerPdp = p.peerPdp) :
    Within KeepsPdp (modify f : PeerM Unit) := within_modify h

/-- An event keeps the data. -/
theorem keeps_emit {e : Event} : Within KeepsPdp (emit e) := keeps_modify fun _ => rfl

/-- Sending a message keeps the data. -/
theorem keeps_sendMessageExpectingResponse {now : Nat} {rp : ResponsePending} :
    Within KeepsPdp (sendMessageExpectingResponse now rp) := by
  refine within_bind within_get fun _ => within_ite (fun _ => within_pure) fun _ => ?_
  refine within_bind ?_ fun _ => within_bind within_get fun _ => ?_
  · exact within_ite (fun _ => within_pure) fun _ => keeps_modify fun _ => rfl
  · split
    · exact within_ite (fun _ => keeps_modify fun _ => rfl) fun _ => within_pure
    · exact within_throw

/-- Sending a request keeps the data. -/
theorem keeps_sendRequest {cfg : ProtocolConfig} {now : Nat} {pm : ProtocolMessage} :
    Within KeepsPdp (sendRequest cfg now pm) := by
  refine within_bind within_lift fun _ => within_bind within_get fun _ => ?_
  exact within_bind (keeps_modify fun _ => rfl) fun _ => keeps_sendMessageExpectingResponse

/-- Stopping a peer keeps its data. -/
theorem keeps_stopPeer {d : DlepView} : Within KeepsPdp (stopPeer d) := by
  refine within_bind within_get fun _ => within_ite (fun _ => within_pure) fun _ => ?_
  refine within_bind (keeps_modify fun _ => rfl) fun _ => within_bind keeps_emit fun _ => ?_
  exact within_ite (fun _ => keeps_emit) fun _ => within_pure

/-- Accepting a response keeps the data. -/
theorem keeps_acceptResponse {s : Surroundings} {pm : ProtocolMessage} {mac : DlepMac} :
    Within KeepsPdp (acceptResponse s pm mac) := by
  refine within_bind within_get fun _ => ?_
  split
  · exact within_pure
  · exact within_throw
  · next rp rest _ =>
    split
    · exact within_pure
    · refine within_ite (fun _ => within_bind ?_ fun _ => within_pure) fun _ => within_pure
      cases rest with
      | nil => exact keeps_modify fun _ => rfl
      | cons next rest =>
        exact within_bind (keeps_modify fun _ => rfl) fun _ => keeps_sendMessageExpectingResponse

section

variable [AddressText] {d : DlepView} {s : Surroundings}

/-- Ending a session keeps the data. -/
theorem keeps_terminate {status : String} {reason : Bytes} :
    Within KeepsPdp (terminate d s status reason) := by
  refine within_bind within_get fun _ => within_ite (fun _ => within_pure) fun _ => ?_
  refine within_bind keeps_stopPeer fun _ => within_bind within_lift fun _ => ?_
  exact within_bind keeps_sendRequest fun _ => keeps_modify fun _ => rfl

/-- Sending a response keeps the data. -/
theorem keeps_sendSimpleResponse {name status : String} {message : Bytes} {mac : Option DlepMac} :
    Within KeepsPdp (sendSimpleResponse d s name status message mac) :=
  within_ite (fun _ => within_bind within_lift fun _ => keeps_emit) fun _ => within_pure

/-- The first part of the handlers of responses keeps the data. -/
theorem keeps_handleResponse {pm : ProtocolMessage} : Within KeepsPdp (handleResponse d s pm) := by
  refine within_bind within_lift fun _ => within_bind within_lift fun _ => ?_
  refine within_bind keeps_acceptResponse fun _ => within_ite (fun _ => within_pure) fun _ => ?_
  exact within_bind keeps_terminate fun _ => within_pure

/-- Asking the client about a message keeps the data. -/
theorem keeps_letClientModify {pm : ProtocolMessage} :
    Within KeepsPdp (letClientModify d s pm) := by
  refine within_bind within_get fun _ => within_bind keeps_emit fun _ => ?_
  split
  · exact within_pure
  · exact within_bind within_lift fun _ => within_pure

omit [AddressText] in
/-- The properties of the peer are not among its data items. -/
theorem keeps_storePeerProperties {pm : ProtocolMessage} :
    Within KeepsPdp (storePeerProperties d pm) := by
  refine within_bind ?_ fun _ => within_bind ?_ fun _ => ?_
  · refine within_bind within_lift fun peerType => ?_
    cases peerType with
    | some _ => exact keeps_modify fun _ => rfl
    | none => exact within_pure
  · unfold storeExperimentNames
    split
    · exact keeps_modify fun _ => rfl
    · exact within_pure
    · exact within_pure
    · exact within_throw
  · refine within_bind within_lift fun _ => within_bind (keeps_modify fun _ => rfl) fun _ => ?_
    exact within_bind within_lift fun _ => keeps_modify fun _ => rfl

omit [AddressText] in
/-- The extensions are not among the data items. -/
theorem keeps_addMutualExtensions {pm : ProtocolMessage} :
    Within KeepsPdp (addMutualExtensions d pm) := by
  refine within_bind within_lift fun extensions => ?_
  cases extensions with
  | some _ => exact keeps_modify fun _ => rfl
  | none => exact within_pure

omit [AddressText] in
/-- The extensions are not among the data items. -/
theorem keeps_setMutualExtensions {pm : ProtocolMessage} :
    Within KeepsPdp (setMutualExtensions d pm) := by
  refine within_bind within_lift fun extensions => ?_
  cases extensions with
  | some _ => exact keeps_modify fun _ => rfl
  | none => exact within_pure

/-- Answering an opening keeps the data. -/
theorem keeps_sendPeerInitializationResponse :
    Within KeepsPdp (sendPeerInitializationResponse d s) := by
  refine within_bind within_get fun _ => within_bind within_lift fun _ => ?_
  refine within_bind keeps_letClientModify fun _ => ?_
  exact within_ite (fun _ => keeps_emit) fun _ => within_pure

/-- The addresses are as they were, even if other data of the peer has changed. -/
def SameAddresses (p q : Peer) : Prop := q.peerPdp.addresses = p.peerPdp.addresses

instance : Std.Refl SameAddresses := ⟨fun _ => rfl⟩

instance : IsTrans Peer SameAddresses := ⟨fun _ _ _ h h' => h'.trans h⟩

omit [AddressText] in
/-- Where the data are kept, the addresses are. -/
theorem KeepsPdp.same {p q : Peer} (h : KeepsPdp p q) : SameAddresses p q :=
  congrArg PeerData.addresses h

omit [AddressText] in
/-- A call that keeps the data keeps the addresses. -/
theorem same_of_keeps {α : Type} {m : PeerM α} (h : Within KeepsPdp m) : Within SameAddresses m :=
  h.mono fun _ _ => KeepsPdp.same

omit [AddressText] in
/-- What is owed for a destination is not an address. -/
theorem same_setNeedsResponse {mac : DlepMac} {name : String} :
    Within SameAddresses
      (modify fun p => { p with peerPdp := p.peerPdp.setNeedsResponse mac name } : PeerM Unit) :=
  within_modify fun _ => PeerData.addresses_setNeedsResponse

/-- Telling the peer that a destination is up keeps the addresses. -/
theorem same_destinationUp {mac : DlepMac} {items : DataItems} :
    Within SameAddresses (destinationUp d s mac items) := by
  refine within_bind within_get fun _ => within_ite (fun _ => ?_) fun _ => ?_
  · refine within_bind same_setNeedsResponse fun _ => ?_
    exact within_bind within_lift fun _ => same_of_keeps keeps_emit
  · exact within_bind within_lift fun _ => same_of_keeps keeps_sendRequest

/-- Entering a session keeps the addresses. -/
theorem same_enterSession {info : Peer → PeerInfo} :
    Within SameAddresses (enterSession d s info) := by
  refine within_bind (same_of_keeps (keeps_modify fun _ => rfl)) fun _ => ?_
  refine within_bind within_get fun _ => within_bind (same_of_keeps keeps_emit) fun _ => ?_
  exact within_forM fun _ _ => same_destinationUp

/-- The handler of Session Initialization stores no address. -/
theorem same_handlePeerInitialization {pm : ProtocolMessage} :
    Within SameAddresses (handlePeerInitialization d s pm) := by
  refine within_bind within_get fun _ => within_bind within_lift fun _ => ?_
  refine within_ite (fun _ => same_of_keeps keeps_terminate) fun _ => ?_
  refine within_bind (same_of_keeps keeps_storePeerProperties) fun _ => ?_
  refine within_bind (same_of_keeps keeps_addMutualExtensions) fun _ => ?_
  refine within_bind (same_of_keeps keeps_sendPeerInitializationResponse) fun _ => ?_
  refine within_bind same_enterSession fun _ => within_ite (fun _ => ?_) fun _ => within_pure
  split
  · exact same_of_keeps keeps_emit
  · exact within_pure

/-- Answering an announcement keeps the addresses. -/
theorem same_answerAnnounce {responseName status : String} {mac : DlepMac} :
    Within SameAddresses (answerAnnounce d s responseName status mac) :=
  within_ite (fun _ => same_setNeedsResponse) fun _ => same_of_keeps keeps_sendSimpleResponse

/-! ## Handlers that ask -/

/-- The addresses of the peer, or of one of its destinations, are replaced. -/
def Writes (dest : Option DlepMac) (ks : List Address) (p q : Peer) : Prop :=
  q.peerPdp.addresses = Function.update p.peerPdp.addresses dest ks

omit [AddressText] in
/-- Nothing more is written after a write. -/
theorem Writes.same {dest : Option DlepMac} {ks : List Address} {p q r : Peer}
    (h : Writes dest ks p q) (h' : SameAddresses q r) : Writes dest ks p r := h'.trans h

omit [AddressText] in
/-- Nothing is written before a write. -/
theorem SameAddresses.writes {dest : Option DlepMac} {ks : List Address} {p q r : Peer}
    (h : SameAddresses p q) (h' : Writes dest ks q r) : Writes dest ks p r := by
  unfold Writes
  rw [← show q.peerPdp.addresses = p.peerPdp.addresses from h]
  exact h'

/-- Nothing is written, or nothing that is owned is to be added, and the requests are granted. -/
def Asks (d : DlepView) (items : DataItems) (p q : Peer) : Prop :=
  SameAddresses p q ∨ ¬ AddsOwned d p items ∧
    ∃ dest ops, (∀ k, .add k ∈ ops → k ∈ addsOf d.cfg items) ∧
    Writes dest (applyAll (p.peerPdp.addresses dest) ops) p q

omit [AddressText] in
/-- Nothing more is written after requests that were checked. -/
theorem Asks.same {items : DataItems} {p q r : Peer} (h : Asks d items p q)
    (h' : SameAddresses q r) :
    Asks d items p r := by
  rcases h with hsame | ⟨hfree, dest, ops, hops, hwrites⟩
  · exact .inl (h'.trans hsame)
  · exact .inr ⟨hfree, dest, ops, hops, hwrites.same h'⟩

omit [AddressText] in
/-- Nothing is written before requests that are checked. -/
theorem KeepsPdp.asks {items : DataItems} {p q r : Peer} (h : KeepsPdp p q)
    (h' : Asks d items q r) :
    Asks d items p r := by
  rcases h' with hsame | ⟨hfree, dest, ops, hops, hwrites⟩
  · exact .inl (hsame.trans h.same)
  · refine .inr ⟨?_, dest, ops, hops, h.same.writes ?_⟩
    · rwa [AddsOwned, ← owners_congr h.same]
    · rw [← show q.peerPdp.addresses = p.peerPdp.addresses from h.same]
      exact hwrites

omit [AddressText] in
/-- A call that leaves the addresses alone, after one that does not. -/
theorem wp_of_same {α : Type} {R : Peer → Peer → Prop} {m : PeerM α} {p q : Peer}
    (hm : Within SameAddresses m) (hR : ∀ r, SameAddresses q r → R p r) :
    wp m (fun _ r => R p r) (fun _ r => R p r) q :=
  (hm.wp q).mono (fun _ r h => hR r h) fun _ r h => hR r h

/-- The handler of Session Update checks its requests. -/
theorem asks_handlePeerUpdate {pm : ProtocolMessage} (h : pm.dataItems.Known d.cfg) (p : Peer) :
    Asks d pm.dataItems p (after (handlePeerUpdate d s pm) p) := by
  refine (wp_after (P := Asks d pm.dataItems p)).1 ?_
  simp only [handlePeerUpdate, wp_bind, wp_get]
  refine wp_lift (fun err herr => ?_) fun _ _ => .inl rfl
  split
  · exact wp_of_same (same_of_keeps keeps_terminate) fun _ h => .inl h
  · next hnil =>
    rw [not_not.1 hnil] at herr
    have hfree := not_addsOwned_of_validateIpDataItems herr
    obtain ⟨unknown, hunknown⟩ := PeerData.hasUnknownMetric_ok h p.peerPdp.metricDataItems
    rw [wp_bind, onPdp, wp_zoom]
    refine (PeerData.wp_updateDataItems_addresses h hunknown).mono (fun _ pd hpd => ?_)
      fun _ pd hpd => .inl (congrArg PeerData.addresses hpd.1)
    have hasks : Asks d pm.dataItems p { p with peerPdp := pd } := by
      cases unknown with
      | true => exact .inl (congrArg PeerData.addresses hpd)
      | false => exact .inr ⟨hfree, none, _, fun _ => mem_addsOf_of_add_mem_requests, hpd.2⟩
    refine wp_of_same ?_ fun _ h => hasks.same h
    exact within_bind (same_of_keeps keeps_emit) fun _ => same_of_keeps keeps_sendSimpleResponse

/-- A new destination gets the addresses that its data items request. -/
theorem wp_addDestinationChecked {mac : DlepMac} {items : DataItems}
    (h : items.Known d.cfg) {p : Peer} (hnew : p.peerPdp.validDestination mac = false) :
    wp (addDestinationChecked d mac items)
      (fun _ q => Writes (some mac)
        (applyAll (p.peerPdp.addresses (some mac)) (requests d.cfg items)) p q)
      (fun _ _ => False) p := by
  rw [addDestinationChecked, wp_bind, onPdp, wp_zoom]
  refine (PeerData.wp_addDestination h.classified hnew).mono (fun ok pd hpd => ?_) fun _ _ h => h
  obtain ⟨rfl, hpd⟩ := hpd
  exact hpd

omit [AddressText] in
/-- Asking the client about a destination keeps the data. -/
theorem keeps_askClient {mac : DlepMac} {items : DataItems} :
    Within KeepsPdp (askClient s mac items) :=
  within_bind within_get fun _ => within_bind keeps_emit fun _ => within_pure

/-- A destination whose addresses are free is added if the client takes it. -/
theorem asks_admitDestination {mac : DlepMac} {items : DataItems} (h : items.Known d.cfg) {p : Peer}
    (hnew : p.peerPdp.validDestination mac = false) (hfree : ¬ AddsOwned d p items) :
    wp (admitDestination d s mac items) (fun _ q => Asks d items p q)
      (fun _ q => Asks d items p q) p := by
  rw [admitDestination, regainInterest, wp_bind, wp_modify, wp_bind]
  refine (keeps_askClient.wp _).mono (fun status q hq => ?_) fun _ q hq => .inl hq.same
  have hq : KeepsPdp p q := hq
  split
  · rw [wp_bind]
    have hnew : q.peerPdp.validDestination mac = false := by
      rw [show q.peerPdp = p.peerPdp from hq]
      exact hnew
    refine (wp_addDestinationChecked h hnew).mono (fun _ r hr => ?_) fun _ _ h => h.elim
    refine hq.asks (.inr ⟨?_, some mac, _, fun _ => mem_addsOf_of_add_mem_requests, hr⟩)
    rwa [AddsOwned, owners_congr hq.same]
  · exact .inl hq.same

/-- The handler of Destination Up checks its requests before it stores the destination. -/
theorem asks_upStatus {mac : DlepMac} {items : DataItems} (h : items.Known d.cfg) (p : Peer) :
    wp (upStatus d s mac items) (fun _ q => Asks d items p q) (fun _ q => Asks d items p q) p := by
  rw [upStatus, wp_bind, wp_get]
  cases hvalid : p.peerPdp.validDestination mac with
  | true => exact .inl rfl
  | false =>
    simp only [Bool.false_eq_true, if_false, takeDestination, wp_bind, wp_get]
    refine wp_lift (fun err herr => ?_) fun _ _ => .inl rfl
    split
    · refine wp_of_same ?_ fun _ h => .inl h
      exact within_bind (same_of_keeps keeps_terminate) fun _ => within_pure
    · next hnil =>
      rw [not_not.1 hnil] at herr
      rw [wp_bind]
      exact asks_admitDestination h hvalid (not_addsOwned_of_validateIpDataItems herr)

/-- The handler of Destination Up checks its requests. -/
theorem asks_handleDestinationUp {pm : ProtocolMessage} (h : pm.dataItems.Known d.cfg) (p : Peer) :
    wp (handleDestinationUp d s pm) (fun _ q => Asks d pm.dataItems p q)
      (fun _ q => Asks d pm.dataItems p q) p := by
  rw [handleDestinationUp, wp_bind]
  refine wp_lift (fun mac _ => ?_) fun _ _ => .inl rfl
  rw [wp_bind]
  refine wp_lift (fun name _ => ?_) fun _ _ => .inl rfl
  rw [wp_bind]
  refine (asks_upStatus h p).mono (fun status q hq => ?_) fun _ _ hq => hq
  cases status with
  | none => exact hq
  | some status =>
    refine wp_of_same ?_ fun _ h => hq.same h
    refine within_bind within_lift fun _ => within_ite (fun _ => ?_) fun _ => within_pure
    exact same_of_keeps keeps_sendSimpleResponse

/-- The handler of Destination Up Response checks its requests. -/
theorem asks_handleDestinationUpResponse {pm : ProtocolMessage} (h : pm.dataItems.Known d.cfg)
    (p : Peer) :
    wp (handleDestinationUpResponse d s pm) (fun _ q => Asks d pm.dataItems p q)
      (fun _ q => Asks d pm.dataItems p q) p := by
  rw [handleDestinationUpResponse, wp_bind]
  refine wp_lift (fun mac _ => ?_) fun _ _ => .inl rfl
  rw [wp_bind]
  refine wp_lift (fun _ _ => ?_) fun _ _ => .inl rfl
  rw [wp_bind]
  refine (keeps_handleResponse.wp p).mono (fun ok q hq => ?_) fun _ _ hq => .inl hq.same
  cases ok with
  | false => exact .inl hq.same
  | true =>
    have hstatus : Within KeepsPdp (checkUpStatus d pm mac) := by
      refine within_bind within_lift fun status => ?_
      cases status with
      | none => exact within_pure
      | some _ =>
        refine within_ite (fun _ => ?_) fun _ => within_pure
        exact within_bind (keeps_modify fun _ => rfl) fun _ => within_pure
    rw [if_pos rfl, wp_bind]
    refine (hstatus.wp_trans hq).mono (fun success r hr => ?_) fun _ _ hr => .inl hr.same
    cases success with
    | false => exact .inl hr.same
    | true =>
      rw [if_pos rfl]
      split
      · exact .inl hr.same
      · exact (asks_handleDestinationUp h r).mono (fun _ _ h => hr.asks h) fun _ _ h => hr.asks h

omit [AddressText] in
/-- The values have the types that are configured for their ids. -/
def Typed (cfg : ProtocolConfig) (items : DataItems) : Prop :=
  ∀ di ∈ items, ∃ info, cfg.getDataItemInfo di.id none = .ok info ∧
    di.value.getType = info.valueType

omit [AddressText] in
/-- Data items that were read from the wire have their configured types. -/
theorem typed_of_forms {cfg : ProtocolConfig} {items : DataItems} {forms : List Form}
    (h : ProtocolMessage.Forms cfg items forms) : Typed cfg items := by
  induction h with
  | nil => simp [Typed]
  | cons hform _ ih =>
    refine List.forall_mem_cons.2 ⟨?_, ih⟩
    cases hform with
    | mk hinfo htype => exact ⟨_, hinfo, htype⟩

/-- The data items of a valid message have their configured types. -/
theorem typed_of_received {buf : Bytes} {pm : ProtocolMessage} (h : received d buf = .ok ([], pm)) :
    Typed d.cfg pm.dataItems := by
  obtain ⟨⟨err, pm'⟩, hparse, hvalid⟩ := bind_eq_ok.1 h
  have hpm : err = [] ∧ pm' = pm := by
    dsimp only at hvalid
    split at hvalid
    · next herr => exact absurd (Prod.mk.inj (Except.ok.inj hvalid)).1 herr
    · next herr =>
      obtain ⟨_, _, hret⟩ := bind_eq_ok.1 hvalid
      exact ⟨not_not.1 herr, (Prod.mk.inj (Except.ok.inj hret)).2⟩
  obtain ⟨rfl, rfl⟩ := hpm
  obtain ⟨_, _, ⟨_, _, _, _, _, hforms, _⟩, _⟩ :=
    (@ProtocolMessage.accepts_iff _ d.cfg false buf (str "handle_peer_signal") {} _).1
      ⟨pm', hparse, rfl⟩
  exact typed_of_forms hforms

omit [AddressText] in
/-- The data item with the MAC address is no IP address. -/
theorem addsOf_getDataItemsNoMac {pm : ProtocolMessage} {cfg : ProtocolConfig}
    (htyped : Typed cfg pm.dataItems) {mac : DlepMac} (hmac : pm.getMac cfg = .ok mac)
    {items : DataItems} (hitems : pm.getDataItemsNoMac cfg = .ok items) :
    addsOf cfg items = addsOf cfg pm.dataItems := by
  obtain ⟨macId, hid, hitems⟩ := bind_eq_ok.1 hitems
  obtain rfl := Except.ok.inj hitems
  have hno : cfg.isIpaddr macId none ≠ .ok true := by
    rw [ProtocolMessage.getMac, ProtocolMessage.getDataItemValue, hid, ok_bind] at hmac
    split at hmac
    · cases hmac
    · next di hfind =>
      have hdi : di.id = macId := by simpa using List.find?_some hfind
      obtain ⟨info, hinfo, htype⟩ := htyped di (List.mem_of_find?_eq_some hfind)
      have hvalue : di.value.getType = .dlepmac := by
        split at hmac
        · next _ hget =>
          unfold ProtocolMessage.dlepmac? at hget
          split at hget
          · next heq =>
            rw [heq]
            rfl
          · cases hget
        · cases hmac
      rw [hdi] at hinfo
      unfold ProtocolConfig.isIpaddr
      split
      · simp [pure, Except.pure]
      · simp [hinfo, pure, Except.pure, ← htype, hvalue]
  unfold addsOf
  rw [List.filterMap_filter]
  refine List.filterMap_congr fun di _ => ?_
  split
  · rfl
  · next heq =>
    have hdi : di.id = macId := by simpa using heq
    rw [if_neg fun h => hno (hdi ▸ h.1)]

omit [AddressText] in
/-- A call on the data of a destination. -/
theorem writes_onDestination {p : Peer} {mac : DlepMac} {dd : DestinationData}
    {m : EStateM Exn DestinationData Unit} {ops : List (Op Address)}
    (hdd : p.peerPdp.getDestinationData mac = some dd)
    (hm : wp m (fun _ dd' => addressesOf dd'.ipDataItems =
      applyAll (addressesOf dd.ipDataItems) ops)
      (fun _ dd' => addressesOf dd'.ipDataItems = applyAll (addressesOf dd.ipDataItems) ops) dd) :
    wp (onPdp (PeerData.onDestination mac m))
      (fun _ q => Writes (some mac) (applyAll (p.peerPdp.addresses (some mac)) ops) p q)
      (fun _ q => Writes (some mac) (applyAll (p.peerPdp.addresses (some mac)) ops) p q) p := by
  have hold : p.peerPdp.addresses (some mac) = addressesOf dd.ipDataItems := by
    rw [PeerData.addresses, show p.peerPdp.destinationData[mac]? = some dd from hdd]
  rw [hold, onPdp, wp_zoom]
  exact PeerData.wp_onDestination hdd hm

/-- The handler of Destination Update checks its requests. -/
theorem asks_handleDestinationUpdate {pm : ProtocolMessage} (h : pm.dataItems.Known d.cfg)
    (htyped : Typed d.cfg pm.dataItems) (p : Peer) :
    wp (handleDestinationUpdate d s pm) (fun _ q => Asks d pm.dataItems p q)
      (fun _ q => Asks d pm.dataItems p q) p := by
  rw [handleDestinationUpdate, wp_bind]
  refine wp_lift (fun mac hmac => ?_) fun _ _ => .inl rfl
  rw [wp_bind, wp_get]
  cases hdd : p.peerPdp.getDestinationData mac with
  | none => exact wp_of_same (same_of_keeps keeps_terminate) fun _ h => .inl h
  | some dd =>
    simp only [wp_bind]
    refine wp_lift (fun items hitems => ?_) fun _ _ => .inl rfl
    refine wp_lift (fun err herr => ?_) fun _ _ => .inl rfl
    split
    · exact wp_of_same (same_of_keeps keeps_terminate) fun _ h => .inl h
    · next hnil =>
      rw [not_not.1 hnil] at herr
      have hsame := addsOf_getDataItemsNoMac htyped hmac hitems
      have hfree : ¬ AddsOwned d p pm.dataItems := by
        have := not_addsOwned_of_validateIpDataItems herr
        rwa [AddsOwned, hsame] at this
      have hknown : items.Known d.cfg := by
        obtain ⟨_, _, hret⟩ := bind_eq_ok.1 hitems
        obtain rfl := Except.ok.inj hret
        exact fun di hdi => h di (List.mem_of_mem_filter hdi)
      have hasks : ∀ q, Writes (some mac) (applyAll (p.peerPdp.addresses (some mac))
          (requests d.cfg items)) p q → Asks d pm.dataItems p q := fun q hq =>
        .inr ⟨hfree, some mac, _, fun _ hk => hsame ▸ mem_addsOf_of_add_mem_requests hk, hq⟩
      rw [wp_bind]
      refine (writes_onDestination hdd ((DestinationData.wp_update hknown.classified dd).mono
        (fun _ _ h => h.ips.addresses) fun _ _ h => h.elim)).mono (fun _ q hq => ?_) fun _ q hq =>
          hasks q hq
      exact wp_of_same (same_of_keeps keeps_emit) fun _ h => (hasks q hq).same h

end

end Peer

end Dlep
