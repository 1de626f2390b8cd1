import Dlep.Peer.Run

/-!
# The node

The node holds its own data and all its peers. The calls of the client's service change the data
of the node and tell the peers. A peer object lives on after it has left the map of the peers, as
long as the event loop holds on to it. What the client does while it is called by a peer is
outside.
-/

namespace Dlep

open Std Calls Runs

/-- Source: `DlepService::ReturnStatus` (`DlepService.h:40`). No call returns
`invalid_mac_address`. -/
inductive ReturnStatus where
  | ok
  | invalidDataItem
  | destinationExists
  | destinationDoesNotExist
  | peerDoesNotExist
  deriving DecidableEq, Repr

/-- What the destination advertisement knows of an address: is it up, and which destinations does it
stand for? Source: `DestAdvertDBEntry` (`DestAdvertDataBase.h`). -/
structure AdvertEntry where
  up : Bool
  destinations : List DlepMac

/-- All peer objects that were ever made, and the map from the peers' names to the objects. Source:
`Dlep` (`Dlep.h:81`). -/
structure Node where
  cfg : ProtocolConfig
  modem : Bool
  destAdvertEnabled : Bool
  localPdp : PeerData
  objects : List Peer := []
  peers : ExtTreeMap PeerId Nat := ∅

/-- A call on a node. -/
abbrev NodeM := EStateM Exn Node

namespace Node

/-- The peers in the map, in its order. -/
def listed (n : Node) : List Nat := n.peers.toList.map Prod.snd

/-- What the peer `i` reads of the node. -/
def view (n : Node) (i : Nat) : DlepView where
  cfg := n.cfg
  modem := n.modem
  destAdvertEnabled := n.destAdvertEnabled
  localPdp := n.localPdp
  peers := n.listed.filterMap fun j =>
    if j = i then some none else (n.objects[j]?).map fun p => some p.peerPdp

/-- The data items that declare the metrics of the node: each has its default value, and is
printed for the log (`Dlep.cpp:97`). -/
def defaultMetrics [AddressText] (cfg : ProtocolConfig) : List DataItemInfo → Except Exn DataItems
  | [] => .ok []
  | info :: infos => do
    if ← cfg.isMetric info.id none then
      let di ← DataItem.ofDefault cfg info.name
      let _ ← di.toString cfg none
      let items ← defaultMetrics cfg infos
      return di :: items
    else defaultMetrics cfg infos

/-- Source: the part of `Dlep::initialize` (`Dlep.cpp:57`) that makes the data of the node. -/
def create [AddressText] (cfg : ProtocolConfig) (modem destAdvertEnabled : Bool) :
    Except Exn Node := do
  let items ← defaultMetrics cfg (cfg.dataItemInfoMap.toList.map Prod.snd)
  let localPdp ← PeerData.create cfg (str "local_pdp") items
  return { cfg, modem, destAdvertEnabled, localPdp }

/-! ## Calls on the parts of a node -/

/-- A call on a peer. -/
def onPeer {α : Type} (i : Nat) (call : DlepView → PeerM α) : NodeM α := do
  let n ← get
  match n.objects[i]? with
  | none => throw (.undefined "a pointer to no peer")
  | some p =>
    zoom (fun _ => p) (fun p n => { n with objects := n.objects.set i p }) (call (n.view i))

/-- A call on the data of the node. -/
def onLocal {α : Type} (m : EStateM Exn PeerData α) : NodeM α :=
  zoom localPdp (fun localPdp n => { n with localPdp }) m

/-- A call on every peer in the map. -/
def tellPeers (call : DlepView → PeerM Unit) : NodeM Unit := do
  (← get).listed.forM fun i => onPeer i call

/-- The peer that has the destination. Source: `Dlep::find_peer` (`Dlep.cpp:574`). -/
def findPeer (n : Node) (mac : DlepMac) : Option Nat :=
  n.listed.find? fun i => (n.objects[i]?).any fun p => p.peerPdp.validDestination mac

/-- Source: `Dlep::cleanup_ex_peers` (`Dlep.cpp:530`). -/
def cleanupExPeers : NodeM Unit :=
  modify fun n => { n with
    peers := n.peers.filter fun _ i =>
      (n.objects[i]?).any fun p => p.pstate ≠ .terminating }

section

variable [AddressText] (s : Surroundings)

/-- A connection is made. Source: `Dlep::handle_async_make_peer` (`Dlep.cpp:294`). -/
def handleAsyncMakePeer (peerId : PeerId) : NodeM Unit := do
  let n ← get
  let p ← Peer.create n.cfg peerId s.now
  set { n with
    objects := n.objects ++ [p]
    peers := n.peers.insert peerId n.objects.length }
  onPeer n.objects.length fun d => Peer.startPeer d s

/-! ## Destinations -/

/-- `PeerData::addDestination` (`InfoBaseMgr.cpp:260`) on the data of the node, with `tell_peers`.
-/
def addDestination (mac : DlepMac) (items : DataItems) : NodeM Bool := do
  if ← onLocal (PeerData.addDestination (← get).cfg mac items) then
    tellPeers fun d => Peer.destinationUp d s mac items
    return true
  else return false

/-- `PeerData::updateDestination` (`InfoBaseMgr.cpp:304`) on the data of the node, with
`tell_peers`. -/
def updateDestination (mac : DlepMac) (items : DataItems) : NodeM Bool := do
  if ← onLocal (PeerData.updateDestination (← get).cfg mac items) then
    tellPeers fun d => Peer.destinationUpdate d mac items
    return true
  else return false

/-- `PeerData::removeDestination` (`InfoBaseMgr.cpp:323`) on the data of the node, with
`tell_peers`. -/
def removeDestination (mac : DlepMac) (items : DataItems) : NodeM Bool := do
  if ← onLocal (PeerData.removeDestination mac) then
    tellPeers fun d => Peer.destinationDown d s mac items
    return true
  else return false

/-- Source: `Peer::remove_destination` (`Peer.cpp:2049`). All the peers are told, not only the one
that had the destination. -/
def removePeerDestination (i : Nat) (mac : DlepMac) (items : DataItems) : NodeM Bool := do
  if ← onPeer i fun _ => Peer.onPdp (PeerData.removeDestination mac) then
    tellPeers fun d => Peer.destinationDown d s mac items
    return true
  else return false

/-! ## The service -/

/-- Source: `DlepServiceImpl::destination_up` (`DlepServiceImpl.cpp:43`). The destination
advertisement has `entry` for the address. -/
def destinationUp (entry : Option AdvertEntry) (mac : DlepMac) (items : DataItems) :
    NodeM ReturnStatus := do
  if (← get).destAdvertEnabled then
    match entry with
    | some entry =>
      if entry.up then return .destinationExists
      else
        entry.destinations.forM fun dest => do let _ ← addDestination s dest items
        return .ok
    | none => return .ok
  else if ← addDestination s mac items then return .ok
  else return .destinationExists

/-- The update may be about a destination of a peer (`DlepServiceImpl.cpp:164`). -/
def updatePeerDestination (mac : DlepMac) (items : DataItems) : NodeM ReturnStatus := do
  match (← get).findPeer mac with
  | none => return .destinationDoesNotExist
  | some i =>
    onPeer i fun d => Peer.destinationUpdate d mac items
    return .ok

/-- Source: `DlepServiceImpl::destination_update` (`DlepServiceImpl.cpp:112`). -/
def destinationUpdate (entry : Option AdvertEntry) (mac : DlepMac) (items : DataItems) :
    NodeM ReturnStatus := do
  if (← get).destAdvertEnabled then
    match entry with
    | some entry =>
      if entry.up then
        entry.destinations.forM fun dest => do let _ ← updateDestination dest items
        return .ok
      else return .ok
    | none => updatePeerDestination mac items
  else if ← updateDestination mac items then return .ok
  else updatePeerDestination mac items

/-- The destination is ours, or else one of a peer (`DlepServiceImpl.cpp:229`). -/
def dropDestination (mac : DlepMac) (items : DataItems) : NodeM ReturnStatus := do
  if ← removeDestination s mac items then return .ok
  else
    match (← get).findPeer mac with
    | none => return .destinationDoesNotExist
    | some i =>
      let ok ← removePeerDestination s i mac items
      assertThat ok "ok"
      return .ok

/-- Drop all the destinations of an entry; one that is not there is reported
(`DlepServiceImpl.cpp:212`). -/
def dropDestinations (items : DataItems) : List DlepMac → NodeM ReturnStatus
  | [] => return .ok
  | dest :: dests => do
    let ok ← removeDestination s dest items
    let status ← dropDestinations items dests
    return if ok then status else .destinationDoesNotExist

/-- Source: `DlepServiceImpl::destination_down` (`DlepServiceImpl.cpp:185`). -/
def destinationDown (entry : Option AdvertEntry) (mac : DlepMac) (items : DataItems) :
    NodeM ReturnStatus := do
  if (← get).destAdvertEnabled then
    match entry with
    | some entry => if entry.up then dropDestinations s items entry.destinations else return .ok
    | none => dropDestination s mac items
  else dropDestination s mac items

/-- Source: `DlepServiceImpl::peer_update` (`DlepServiceImpl.cpp:258`), with
`PeerData::update_data_items` (`InfoBaseMgr.cpp:416`) on the data of the node. -/
def peerUpdate (items : DataItems) : NodeM ReturnStatus := do
  let status ← onLocal (PeerData.updateDataItems (← get).cfg items)
  if status = "Success" then
    tellPeers fun d => do let _ ← Peer.peerUpdate d s items
    return .ok
  else return .invalidDataItem

/-- Source: `DlepServiceImpl::peer_remove_data_items` (`DlepServiceImpl.cpp:280`). -/
def peerRemoveDataItems (items : DataItems) : NodeM ReturnStatus := do
  modify fun n => { n with localPdp := n.localPdp.removeDataItems items }
  return .ok

/-- Source: `DlepServiceImpl::linkchar_request` (`DlepServiceImpl.cpp:356`). -/
def linkcharRequest (mac : DlepMac) (items : DataItems) : NodeM ReturnStatus := do
  match (← get).findPeer mac with
  | none => return .peerDoesNotExist
  | some i =>
    onPeer i fun d => Peer.linkCharacteristicsRequest d s mac items
    return .ok

/-- Source: `DlepServiceImpl::linkchar_reply` (`DlepServiceImpl.cpp:384`). -/
def linkcharReply (peerId : PeerId) (mac : DlepMac) (items : DataItems) : NodeM ReturnStatus := do
  match (← get).peers[peerId]? with
  | none => return .peerDoesNotExist
  | some i =>
    onPeer i fun d => Peer.linkCharacteristicsResponse d s mac items
    if ← onLocal (PeerData.updateDestination (← get).cfg mac items) then return .ok
    else return .destinationDoesNotExist

/-- Source: `DlepServiceImpl::terminate` (`DlepServiceImpl.cpp:412`). -/
def terminate : NodeM Unit := do
  tellPeers fun d => Peer.terminate d s "Success" []
  modify fun n => { n with peers := ∅ }

end

/-! ## Runs -/

/-- What the event loop brings to a peer. -/
inductive Occasion where
  | receive (bytes : Bytes)
  | message
  | acktivityTimeout
  | heartbeatTimeout
  | eof

def Occasion.input : Occasion → Peer.Input
  | .receive bytes => .receive bytes
  | .message => .message
  | .acktivityTimeout => .acktivityTimeout
  | .heartbeatTimeout => .heartbeatTimeout
  | .eof => .eof

/-- What happens to a node: a connection is made, something happens to a peer, the client makes a
call of its service, or the destination advertisement brings a destination up or down
(`DestAdvert.cpp:163`, `:179`, `:400`). -/
inductive Input where
  | connect (peerId : PeerId)
  | peer (i : Nat) (occasion : Occasion)
  | cleanup
  | destinationUp (entry : Option AdvertEntry) (mac : DlepMac) (items : DataItems)
  | destinationUpdate (entry : Option AdvertEntry) (mac : DlepMac) (items : DataItems)
  | destinationDown (entry : Option AdvertEntry) (mac : DlepMac) (items : DataItems)
  | peerUpdate (items : DataItems)
  | peerRemoveDataItems (items : DataItems)
  | linkcharRequest (mac : DlepMac) (items : DataItems)
  | linkcharReply (peerId : PeerId) (mac : DlepMac) (items : DataItems)
  | terminate
  | advertUp (mac : DlepMac) (items : DataItems)
  | advertDown (mac : DlepMac)

/-- An input, and the surroundings meanwhile. -/
structure Step where
  s : Surroundings
  input : Input

section

variable [AddressText]

/-- The call that an input is. -/
def Step.call (st : Step) : NodeM Unit :=
  match st.input with
  | .connect peerId => handleAsyncMakePeer st.s peerId
  | .peer i occasion => onPeer i fun d => Peer.Step.call ⟨d, st.s, occasion.input⟩
  | .cleanup => cleanupExPeers
  | .destinationUp entry mac items => do let _ ← Node.destinationUp st.s entry mac items
  | .destinationUpdate entry mac items => do let _ ← Node.destinationUpdate entry mac items
  | .destinationDown entry mac items => do let _ ← Node.destinationDown st.s entry mac items
  | .peerUpdate items => do let _ ← Node.peerUpdate st.s items
  | .peerRemoveDataItems items => do let _ ← Node.peerRemoveDataItems items
  | .linkcharRequest mac items => do let _ ← Node.linkcharRequest st.s mac items
  | .linkcharReply peerId mac items => do let _ ← Node.linkcharReply st.s peerId mac items
  | .terminate => Node.terminate st.s
  | .advertUp mac items => do let _ ← addDestination st.s mac items
  | .advertDown mac => do let _ ← removeDestination st.s mac []

/-- The state after a step. -/
def step (n : Node) (st : Step) : Node := after st.call n

end

/-! ## What happens to every object -/

section

variable {T : ProtocolConfig → Bool → Peer → Peer → Prop} {n : Node}

/-- The configuration and the role of the node stay, and every object is still there, related to
what it was. -/
structure Each (T : ProtocolConfig → Bool → Peer → Peer → Prop) (n n' : Node) : Prop where
  cfg : n'.cfg = n.cfg
  modem : n'.modem = n.modem
  object : ∀ (i : Nat) (p : Peer), n.objects[i]? = some p →
    ∃ q, n'.objects[i]? = some q ∧ T n.cfg n.modem p q

instance [∀ cfg modem, Std.Refl (T cfg modem)] : Std.Refl (Each T) :=
  ⟨fun _ => ⟨rfl, rfl, fun _ p hp => ⟨p, hp, Std.Refl.refl p⟩⟩⟩

instance [∀ cfg modem, IsTrans Peer (T cfg modem)] : IsTrans Node (Each T) where
  trans _ _ _ h h' := by
    refine ⟨h'.cfg.trans h.cfg, h'.modem.trans h.modem, fun i p hp => ?_⟩
    obtain ⟨q, hq, hpq⟩ := h.object i p hp
    obtain ⟨r, hr, hqr⟩ := h'.object i q hq
    rw [h.cfg, h.modem] at hqr
    exact ⟨r, hr, IsTrans.trans _ _ _ hpq hqr⟩

/-- A call on one object is seen by this object only. -/
theorem wp_onPeer {α : Type} {i : Nat} {call : DlepView → PeerM α} {Q : α → Node → Prop}
    {E : Exn → Node → Prop} (hnone : n.objects[i]? = none → ∀ e, E e n)
    (hsome : ∀ p, n.objects[i]? = some p → wp (call (n.view i))
      (fun a q => Q a { n with objects := n.objects.set i q })
      (fun e q => E e { n with objects := n.objects.set i q }) p) :
    wp (onPeer i call) Q E n := by
  simp only [onPeer, wp_bind, wp_get]
  cases hp : n.objects[i]? with
  | none => exact hnone hp _
  | some p => exact wp_zoom.2 (hsome p hp)

/-- A peer is listed exactly if the map has it under some name. -/
theorem mem_listed {i : Nat} : i ∈ n.listed ↔ ∃ key : PeerId, n.peers[key]? = some i := by
  simp only [listed, List.mem_map, Prod.exists]
  constructor
  · rintro ⟨key, j, hmem, rfl⟩
    exact ⟨key, ExtTreeMap.mem_toList_iff_getElem?_eq_some.1 hmem⟩
  · rintro ⟨key, hkey⟩
    exact ⟨key, i, ExtTreeMap.mem_toList_iff_getElem?_eq_some.2 hkey, rfl⟩

/-- The view of a peer does not depend on the peer. -/
theorem view_set {i : Nat} {q : Peer} :
    view { n with objects := n.objects.set i q } i = n.view i := by
  unfold view
  congr 1
  refine List.filterMap_congr fun j _ => ?_
  split
  · rfl
  · next hji => rw [List.getElem?_set_ne fun h => hji h.symm]

/-- A call on a peer that there is none of goes wrong. -/
theorem onPeer_none {α : Type} {i : Nat} {call : DlepView → PeerM α}
    (hnone : n.objects[i]? = none) :
    onPeer i call n = .error (.undefined "a pointer to no peer") n := by
  simp only [onPeer, bind_run, show (get : NodeM Node) n = .ok n n from rfl, hnone]
  rfl

/-- A call on a peer is the call on its object, which is put back whether it returns or throws. -/
theorem onPeer_some {α : Type} {i : Nat} {call : DlepView → PeerM α} {p : Peer}
    (hp : n.objects[i]? = some p) :
    onPeer i call n =
      match call (n.view i) p with
      | .ok a q => .ok a { n with objects := n.objects.set i q }
      | .error e q => .error e { n with objects := n.objects.set i q } := by
  simp only [onPeer, bind_run, show (get : NodeM Node) n = .ok n n from rfl, hp, zoom]
  cases call (n.view i) p <;> rfl

/-- Two calls on one object. -/
theorem onPeer_bind {α β : Type} {i : Nat} {m : DlepView → PeerM α} {f : DlepView → α → PeerM β} :
    onPeer i (fun d => m d >>= f d) = onPeer i m >>= fun a => onPeer i fun d => f d a := by
  funext n
  cases hp : n.objects[i]? with
  | none => rw [bind_run, onPeer_none hp, onPeer_none hp]
  | some p =>
    have hi := (List.getElem?_eq_some_iff.1 hp).1
    rw [bind_run, onPeer_some hp, onPeer_some hp, bind_run]
    cases m (n.view i) p with
    | error e q => rfl
    | ok a q =>
      have hq : (n.objects.set i q)[i]? = some q := by simp [hi]
      dsimp only
      rw [onPeer_some (n := { n with objects := n.objects.set i q }) hq, view_set]
      cases f (n.view i) a q <;> simp

/-- Replacing one object leaves all others. -/
theorem getElem?_set {i : Nat} {p : Peer} (hp : n.objects[i]? = some p) (q : Peer) (j : Nat) :
    (n.objects.set i q)[j]? = if i = j then some q else n.objects[j]? := by
  have hi := (List.getElem?_eq_some_iff.1 hp).1
  rw [List.getElem?_set]
  split
  · rfl
  · rfl

/-- Replacing an object by a related one relates every object. -/
theorem each_set [∀ cfg modem, Std.Refl (T cfg modem)] {i : Nat} {p q : Peer}
    (hp : n.objects[i]? = some p) (hpq : T n.cfg n.modem p q) :
    Each T n { n with objects := n.objects.set i q } := by
  refine ⟨rfl, rfl, fun j p' hp' => ?_⟩
  simp only [getElem?_set hp]
  split
  · next hij =>
    obtain rfl := Option.some.inj (hp.symm.trans (hij ▸ hp'))
    exact ⟨q, rfl, hpq⟩
  · exact ⟨p', hp', Std.Refl.refl p'⟩

/-- A call on a peer that relates it to what it was relates every object. -/
theorem each_onPeer [∀ cfg modem, Std.Refl (T cfg modem)] {α : Type} {i : Nat}
    {call : DlepView → PeerM α} (h : ∀ d, Within (T d.cfg d.modem) (call d)) :
    Within (Each T) (onPeer i call) := by
  refine within_of_wp fun n => wp_onPeer (fun _ _ => Std.Refl.refl n) fun p hp => ?_
  exact ((h _).wp p).mono (fun _ _ hq => each_set hp hq) fun _ _ hq => each_set hp hq

/-- A call on every peer relates every object to what it was. -/
theorem each_tellPeers [∀ cfg modem, Std.Refl (T cfg modem)]
    [∀ cfg modem, IsTrans Peer (T cfg modem)] {call : DlepView → PeerM Unit}
    (h : ∀ d, Within (T d.cfg d.modem) (call d)) :
    Within (Each T) (tellPeers call) :=
  within_bind within_get fun _ => within_forM fun _ _ => each_onPeer h

/-- A call on the data of the node leaves the objects. -/
theorem each_onLocal [∀ cfg modem, Std.Refl (T cfg modem)] {α : Type} {m : EStateM Exn PeerData α} :
    Within (Each T) (onLocal m) :=
  within_zoom fun _ => ⟨rfl, rfl, fun _ p hp => ⟨p, hp, Std.Refl.refl p⟩⟩

/-- Whatever the client brings up, each peer is told by its `destination_up`. -/
theorem each_destinationUp [AddressText] [∀ cfg modem, Std.Refl (T cfg modem)]
    [∀ cfg modem, IsTrans Peer (T cfg modem)] {s : Surroundings} {entry : Option AdvertEntry}
    {mac : DlepMac} {items : DataItems}
    (h : ∀ d dest, Within (T d.cfg d.modem) (Peer.destinationUp d s dest items)) :
    Within (Each T) (destinationUp s entry mac items) := by
  have hadd : ∀ dest, Within (Each T) (addDestination s dest items) := by
    intro dest
    refine within_bind within_get fun n => within_bind each_onLocal fun ok => ?_
    refine within_ite (fun _ => within_bind ?_ fun _ => within_pure) fun _ => within_pure
    exact each_tellPeers fun d => h d dest
  refine within_bind within_get fun n => within_ite (fun _ => ?_) fun _ => ?_
  · split
    · refine within_ite (fun _ => within_pure) fun _ => within_bind ?_ fun _ => within_pure
      exact within_forM fun dest _ => within_bind (hadd dest) fun _ => within_pure
    · exact within_pure
  · exact within_bind (hadd mac) fun ok => within_ite (fun _ => within_pure) fun _ => within_pure

end

end Node

end Dlep
