import Dlep.Peer.Owners
import Dlep.Peer.Session

/-!
# The addresses of a Session Initialization

A modem checks the addresses that a router sends when it opens the session, and does not store
them. So it cannot remember them: they are found afterwards only if the peer had them before,
which the check excludes for a peer in the map.
-/

namespace Dlep

open Calls Ownership Runs

namespace DataItem

/-- The data item that drops the address instead. -/
def dropping (di : DataItem) : DataItem :=
  match di.value with
  | .u8Ipv4 _ a => .mk di.id (.u8Ipv4 0 a)
  | .u8Ipv6 _ a => .mk di.id (.u8Ipv6 0 a)
  | .u8Ipv4U8 _ a n => .mk di.id (.u8Ipv4U8 0 a n)
  | .u8Ipv6U8 _ a n => .mk di.id (.u8Ipv6U8 0 a n)
  | _ => di

/-- The data item that drops an address has the same id and address. -/
theorem dropping_spec {di : DataItem} {k : Address} (h : di.address? = some k) :
    di.dropping.id = di.id ∧ di.dropping.address? = some k ∧ di.dropping.adds = false := by
  obtain ⟨id, value⟩ := di
  cases value with
  | u8Ipv4 f a => exact ⟨rfl, h, by simp [dropping, adds, ipFlags]⟩
  | u8Ipv6 f a => exact ⟨rfl, h, by simp [dropping, adds, ipFlags]⟩
  | u8Ipv4U8 f a n => exact ⟨rfl, h, by simp [dropping, adds, ipFlags]⟩
  | u8Ipv6U8 f a n => exact ⟨rfl, h, by simp [dropping, adds, ipFlags]⟩
  | _ => cases h

end DataItem

namespace Peer

/-- The data items drop addresses, and exactly these. -/
structure DropsExactly (cfg : ProtocolConfig) (items : DataItems) (ks : List Address) : Prop where
  drops : ∀ di ∈ items, cfg.isIpaddr di.id none = .ok true ∧ di.adds = false
  exactly : ∀ di ∈ items, ∃ k ∈ ks, di.address? = some k
  all : ∀ k ∈ ks, k ∈ addressesOf items

section

variable [AddressText] {d : DlepView} {s : Surroundings} {pm : ProtocolMessage} {p q : Peer}

/-- The peer is among those whose addresses are looked at. -/
def Lists (d : DlepView) (asking q : Peer) : Prop :=
  some q.peerPdp ∈ d.peers ∨ none ∈ d.peers ∧ asking = q

/-- What is expected of the peer after a Session Initialization: every address that the message
adds is found, no other message can add it again, and the peer can drop exactly these addresses.
-/
structure Remembered (d : DlepView) (pm : ProtocolMessage) (q : Peer) : Prop where
  found : ∀ di ∈ pm.dataItems, d.cfg.isIpaddr di.id none = .ok true → di.adds = true →
    q.peerPdp.findIpDataItem di ≠ []
  again : ∀ (d' : DlepView) (asking : Peer) (existing items : DataItems), d'.cfg = d.cfg →
    Lists d' asking q → (∃ k ∈ addsOf d.cfg pm.dataItems, k ∈ addsOf d.cfg items) →
      validateIpDataItems d' asking existing items ≠ .ok []
  dropped : ∀ (d' : DlepView) (items : DataItems), d'.cfg = d.cfg →
    DropsExactly d.cfg items (addsOf d.cfg pm.dataItems) →
      validateIpDataItems d' q q.peerPdp.ipDataItems items = .ok []

/-- A list that only drops addresses passes exactly if the addresses are there. -/
theorem validateIpDataItems_drops {existing items : DataItems}
    (hdrops : ∀ di ∈ items, d.cfg.isIpaddr di.id none = .ok true ∧ di.adds = false) :
    validateIpDataItems d p existing items = .ok [] ↔
      ∀ di ∈ items, ∃ k, di.address? = some k ∧ k ∈ addressesOf existing := by
  have hcannotRemove : str "cannot remove " ≠ [] := str_ne_nil (by simp)
  induction items with
  | nil => simp [validateIpDataItems]
  | cons di items ih =>
    obtain ⟨⟨hipaddr, hadds⟩, hrest⟩ := List.forall_mem_cons.1 hdrops
    have hflags : ¬ di.ipFlags &&& DataItem.ipFlagAdd ≠ 0 := by simpa [DataItem.adds] using hadds
    have hfind : (di.findIpDataItem existing).isSome = true ↔
        ∃ k, di.address? = some k ∧ k ∈ addressesOf existing := isSome_findIdx?_iff
    rw [List.forall_mem_cons]
    refine Iff.trans ?_ (and_congr hfind (ih hrest))
    rw [validateIpDataItems, hipaddr, ok_bind, if_pos rfl, if_neg hflags]
    split
    · next h => simp [h]
    · next h =>
      refine iff_of_false (fun hok => ?_) fun hboth => h hboth.1
      obtain ⟨text, _, hok⟩ := bind_eq_ok.1 hok
      have hnil := Except.ok.inj hok
      simp [hcannotRemove] at hnil

omit [AddressText] in
/-- The addresses of a listed peer are owned. -/
theorem Lists.owned {d' : DlepView} {asking : Peer} (h : Lists d' asking q) {k : Address}
    (hk : k ∈ addressesOf q.peerPdp.ipDataItems) : Owned (owners d' asking) k := by
  rcases h with h | ⟨h, rfl⟩
  · obtain ⟨i, hi⟩ := List.mem_iff_getElem?.1 h
    refine ⟨(some i, none), ?_⟩
    rw [owners, hi]
    exact hk
  · obtain ⟨i, hi⟩ := List.mem_iff_getElem?.1 h
    refine ⟨(some i, none), ?_⟩
    rw [owners, hi]
    exact hk

omit [AddressText] in
/-- The peer takes back all that a message adds. -/
theorem dropsExactly_dropping {cfg : ProtocolConfig} {items : DataItems} :
    DropsExactly cfg (items.filterMap fun di =>
      if cfg.isIpaddr di.id none = .ok true ∧ di.adds = true then some di.dropping else none)
      (addsOf cfg items) := by
  have hmem : ∀ di' ∈ items.filterMap fun di =>
      if cfg.isIpaddr di.id none = .ok true ∧ di.adds = true then some di.dropping else none,
      ∃ k ∈ addsOf cfg items, cfg.isIpaddr di'.id none = .ok true ∧ di'.adds = false ∧
        di'.address? = some k := by
    intro di' hdi'
    obtain ⟨di, hdi, hdrop⟩ := List.mem_filterMap.1 hdi'
    obtain ⟨⟨hipaddr, hadds⟩, hdrop⟩ := Option.ite_none_right_eq_some.1 hdrop
    obtain rfl := Option.some.inj hdrop
    cases haddress : di.address? with
    | none => exact absurd (DataItem.adds_eq_false haddress) (by simp [hadds])
    | some k =>
      obtain ⟨hid, hsame, hnot⟩ := DataItem.dropping_spec haddress
      exact ⟨k, mem_addsOf.2 ⟨di, hdi, hipaddr, hadds, haddress⟩, by rwa [hid], hnot, hsame⟩
  refine ⟨fun di' hdi' => ?_, fun di' hdi' => ?_, fun k hk => ?_⟩
  · obtain ⟨k, _, hipaddr, hadds, _⟩ := hmem di' hdi'
    exact ⟨hipaddr, hadds⟩
  · obtain ⟨k, hk, _, _, haddress⟩ := hmem di' hdi'
    exact ⟨k, hk, haddress⟩
  · obtain ⟨di, hdi, hipaddr, hadds, haddress⟩ := mem_addsOf.1 hk
    refine mem_addressesOf.2 ⟨di.dropping, ?_, (DataItem.dropping_spec haddress).2.1⟩
    exact List.mem_filterMap.2 ⟨di, hdi, if_pos ⟨hipaddr, hadds⟩⟩

/-- What a peer has stored for itself is remembered, and nothing else. -/
theorem remembered_iff_stored :
    Remembered d pm q ↔ ∀ k ∈ addsOf d.cfg pm.dataItems, k ∈ addressesOf q.peerPdp.ipDataItems := by
  constructor
  · intro h k hk
    have hdrops := @dropsExactly_dropping d.cfg pm.dataItems
    have hstored := (validateIpDataItems_drops hdrops.drops).1 (h.dropped d _ rfl hdrops)
    obtain ⟨di, hdi, haddress⟩ := mem_addressesOf.1 (hdrops.all k hk)
    obtain ⟨k', hk', hmem⟩ := hstored di hdi
    rwa [Option.some.inj (haddress.symm.trans hk')]
  · intro h
    refine ⟨fun di hdi hipaddr hadds => ?_, fun d' asking existing items hcfg hlists hagain hok =>
      ?_, fun d' items hcfg hdrops => ?_⟩
    · cases haddress : di.address? with
      | none => exact absurd (DataItem.adds_eq_false haddress) (by simp [hadds])
      | some k =>
        refine PeerData.findIpDataItem_ne_nil.2 ⟨k, haddress, none, ?_⟩
        exact h k (mem_addsOf.2 ⟨di, hdi, hipaddr, hadds, haddress⟩)
    · obtain ⟨k, hk, hitems⟩ := hagain
      refine not_addsOwned_of_validateIpDataItems hok ⟨k, ?_, hlists.owned (h k hk)⟩
      rwa [hcfg]
    · refine (validateIpDataItems_drops fun di hdi => ?_).2 fun di hdi => ?_
      · rw [hcfg]
        exact hdrops.drops di hdi
      · obtain ⟨k, hk, haddress⟩ := hdrops.exactly di hdi
        exact ⟨k, haddress, h k hk⟩

/-- The addresses of an accepted Session Initialization are remembered exactly if the peer has
them stored already. In a map that lists the peer, the check excludes that: the message must not
add any. -/
theorem remembered_handlePeerInitialization_iff
    (hok : validateIpDataItems d p [] pm.dataItems = .ok []) :
    (Remembered d pm (after (handlePeerInitialization d s pm) p) ↔
        ∀ k ∈ addsOf d.cfg pm.dataItems, k ∈ addressesOf p.peerPdp.ipDataItems) ∧
      (none ∈ d.peers → ((∀ k ∈ addsOf d.cfg pm.dataItems, k ∈ addressesOf p.peerPdp.ipDataItems) ↔
        addsOf d.cfg pm.dataItems = [])) := by
  have hsame : SameAddresses p (after (handlePeerInitialization d s pm) p) :=
    same_handlePeerInitialization p
  have hown : addressesOf (after (handlePeerInitialization d s pm) p).peerPdp.ipDataItems =
      addressesOf p.peerPdp.ipDataItems := congrFun hsame none
  refine ⟨?_, fun hlisted => ?_⟩
  · rw [remembered_iff_stored, hown]
  · constructor
    · intro h
      refine List.eq_nil_iff_forall_not_mem.2 fun k hk => ?_
      refine not_addsOwned_of_validateIpDataItems hok ⟨k, hk, ?_⟩
      exact Lists.owned (.inr ⟨hlisted, rfl⟩) (h k hk)
    · intro h
      simp [h]

end

attribute [local instance] plainText

/-- A heartbeat interval and a peer type, as a Session Initialization must have them. -/
def plainOpening : ProtocolMessage :=
  { dataItems := [.mk 5 (.u32 60000), .mk 4 (.u8String 0 [])] }

/-- The address 10.0.0.1 is added. -/
def addressItem : DataItem := .mk 8 (.u8Ipv4 1 (.ofBytes [10, 0, 0, 1]))

/-- An opening that also has the address. -/
def openingItems : ProtocolMessage := { dataItems := plainOpening.dataItems ++ [addressItem] }

/-- A peer that has told us the address in the session, and whose place in the map was taken by a
later connection. -/
def peerWithAddress : Peer :=
  { barePeer with peerPdp := { peerId := str "peer", ipDataItems := [addressItem] } }

/-- The peer opens the session again: its address is known already. In the map, only an opening
without addresses is remembered. -/
theorem remembered_handlePeerInitialization_iff_openingItems :
    Remembered { bareView true with peers := [] } openingItems
        (after (handlePeerInitialization { bareView true with peers := [] } bareSurroundings
          openingItems) peerWithAddress) ∧
      Remembered (bareView true) plainOpening
        (after (handlePeerInitialization (bareView true) bareSurroundings plainOpening)
          peerWithAddress) := by
  obtain ⟨hknown, -⟩ := @remembered_handlePeerInitialization_iff plainText
    { bareView true with peers := [] } bareSurroundings openingItems peerWithAddress rfl
  obtain ⟨hlisted, hnone⟩ := @remembered_handlePeerInitialization_iff plainText (bareView true)
    bareSurroundings plainOpening peerWithAddress rfl
  refine ⟨hknown.2 (by decide +kernel), hlisted.2 ((hnone (List.mem_singleton_self none)).2 rfl)⟩

/-- A Session Initialization with a heartbeat interval, a peer type and the address. -/
def openingWithAddress : Bytes :=
  [0, 1, 0, 22, 0, 5, 0, 4, 0, 0, 234, 96, 0, 4, 0, 1, 0, 0, 8, 0, 5, 1, 10, 0, 0, 1]

/-- The session is opened, and the address is not found. -/
theorem openingWithAddress_forgotten :
    (run step barePeer (bareSteps true [.receive openingWithAddress, .message])).pstate =
      .inSession ∧
      (run step barePeer (bareSteps true
        [.receive openingWithAddress, .message])).peerPdp.findIpDataItem addressItem = [] ∧
      validateIpDataItems (bareView true) barePeer [] openingItems.dataItems = .ok [] ∧
      ¬ Remembered (bareView true) openingItems
        (run step barePeer (bareSteps true [.receive openingWithAddress, .message])) := by
  obtain ⟨hopen, hforgotten⟩ :
      (run step barePeer (bareSteps true [.receive openingWithAddress, .message])).pstate =
        .inSession ∧
      (run step barePeer (bareSteps true
        [.receive openingWithAddress, .message])).peerPdp.findIpDataItem addressItem = [] := by
    decide +kernel
  refine ⟨hopen, hforgotten, rfl, fun h => ?_⟩
  exact h.found addressItem (by simp [openingItems]) rfl rfl hforgotten

end Peer

end Dlep
