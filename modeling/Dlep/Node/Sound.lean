import Dlep.Node
import Dlep.Peer.Queues

/-!
# Sound nodes

In every run the queues of all peers are good, and the map takes every name to an object of its own.
What happens to the peers does not change which destinations the node itself has.
-/

namespace Dlep

open Std Calls Runs

namespace Node

variable {n : Node}

/-- The queues of all objects are good, and the map takes every name to an object of its own. -/
structure Sound (n : Node) : Prop where
  queues : ∀ (i : Nat) (p : Peer), n.objects[i]? = some p → p.QueueInv
  object : ∀ (key : PeerId) (i : Nat), n.peers[key]? = some i → i < n.objects.length
  unique : ∀ (key key' : PeerId) (i : Nat), n.peers[key]? = some i →
    n.peers[key']? = some i → key = key'

/-- The map takes every name to an object. -/
theorem Sound.exists_object (hn : n.Sound) {i : Nat} (hi : i ∈ n.listed) :
    ∃ p, n.objects[i]? = some p := by
  obtain ⟨key, hkey⟩ := mem_listed.1 hi
  exact ⟨_, List.getElem?_eq_getElem (hn.object key i hkey)⟩

/-- No object is listed twice. -/
theorem Sound.nodup_listed (hn : n.Sound) : n.listed.Nodup := by
  refine List.Nodup.map_on ?_ ?_
  · rintro ⟨key, i⟩ hmem ⟨key', i'⟩ hmem' hsame
    obtain rfl : i = i' := hsame
    have hkey := ExtTreeMap.mem_toList_iff_getElem?_eq_some.1 hmem
    have hkey' := ExtTreeMap.mem_toList_iff_getElem?_eq_some.1 hmem'
    rw [hn.unique key key' i hkey hkey']
  · refine n.peers.distinct_keys_toList.imp fun hne hsame => hne ?_
    rw [hsame, Std.compare_self]

/-- A node with one peer. -/
theorem sound_of_one {key : PeerId} {p : Peer} (hobjects : n.objects = [p])
    (hpeers : n.peers = (∅ : ExtTreeMap PeerId Nat).insert key 0) (hp : p.QueueInv) : n.Sound := by
  have hkey : ∀ (key' : PeerId) (i : Nat), n.peers[key']? = some i → key = key' ∧ i = 0 := by
    intro key' i hi
    rw [hpeers, ExtTreeMap.getElem?_insert] at hi
    simp only [Std.compare_eq_iff_eq] at hi
    split at hi
    · next hsame => exact ⟨hsame, (Option.some.inj hi).symm⟩
    · simp at hi
  refine ⟨fun i q hq => ?_, fun key' i hi => ?_, fun key₁ key₂ i hi hi' => ?_⟩
  · rw [hobjects] at hq
    obtain rfl := List.mem_singleton.1 (List.mem_of_getElem? hq)
    exact hp
  · obtain ⟨_, rfl⟩ := hkey key' i hi
    simp [hobjects]
  · exact (hkey key₁ i hi).1.symm.trans (hkey key₂ i hi').1

/-- The destinations of the node itself. -/
def has (n : Node) : Set DlepMac := {mac | n.localPdp.validDestination mac = true}

/-! ## Calls that leave the destinations of the node alone -/

/-- The node runs the same protocol in the same role. -/
structure SameRole (n n' : Node) : Prop where
  cfg : n'.cfg = n.cfg
  modem : n'.modem = n.modem
  enabled : n'.destAdvertEnabled = n.destAdvertEnabled

/-- A node has the role that it has. -/
theorem SameRole.refl (n : Node) : SameRole n n := ⟨rfl, rfl, rfl⟩

/-- A role that is kept twice is kept. -/
theorem SameRole.trans {n' n'' : Node} (h : SameRole n n') (h' : SameRole n' n'') :
    SameRole n n'' :=
  ⟨h'.cfg.trans h.cfg, h'.modem.trans h.modem, h'.enabled.trans h.enabled⟩

/-- The node stays sound, and its destinations are the same. -/
structure Leaves (n n' : Node) : Prop where
  sound : n.Sound → n'.Sound
  has : n'.has = n.has
  role : SameRole n n'

instance : Std.Refl Leaves := ⟨fun n => ⟨id, rfl, .refl n⟩⟩

instance : IsTrans Node Leaves :=
  ⟨fun _ _ _ h h' => ⟨h'.sound ∘ h.sound, h'.has.trans h.has, h.role.trans h'.role⟩⟩

/-- The node has the same data and the same role. -/
structure SameData (n n' : Node) : Prop extends SameRole n n' where
  localPdp : n'.localPdp = n.localPdp

instance : Std.Refl SameData := ⟨fun n => ⟨.refl n, rfl⟩⟩

instance : IsTrans Node SameData :=
  ⟨fun _ _ _ h h' => ⟨h.toSameRole.trans h'.toSameRole, h'.localPdp.trans h.localPdp⟩⟩

/-- What the peers are told does not change the data of the node. -/
theorem sameData_tellPeers {call : DlepView → PeerM Unit} : Within SameData (tellPeers call) := by
  refine within_bind within_get fun _ => within_forM fun i _ => within_of_wp fun n => ?_
  refine wp_onPeer (fun _ _ => Std.Refl.refl n) fun p _ => wp_after.2 ?_
  exact ⟨⟨rfl, rfl, rfl⟩, rfl⟩

/-- Replacing an object by one with good queues keeps the node sound. -/
theorem Sound.set (hn : n.Sound) {i : Nat} {p q : Peer} (hp : n.objects[i]? = some p)
    (hq : q.QueueInv) : Sound { n with objects := n.objects.set i q } := by
  refine ⟨fun j r hr => ?_, fun key j hj => ?_, hn.unique⟩
  · rw [getElem?_set hp] at hr
    split at hr
    · rwa [← Option.some.inj hr]
    · exact hn.queues j r hr
  · rw [List.length_set]
    exact hn.object key j hj

/-- A call on a peer that keeps its queues good. -/
theorem leaves_onPeer {α : Type} {i : Nat} {call : DlepView → PeerM α}
    (h : ∀ d, Within (fun p q : Peer => p.QueueInv → q.QueueInv) (call d)) :
    Within Leaves (onPeer i call) := by
  refine within_of_wp fun n => wp_onPeer (fun _ _ => Std.Refl.refl n) fun p hp => ?_
  have hleaves : ∀ q : Peer, (p.QueueInv → q.QueueInv) →
      Leaves n { n with objects := n.objects.set i q } := fun q hq =>
    ⟨fun hn => hn.set hp (hq (hn.queues i p hp)), rfl, ⟨rfl, rfl, rfl⟩⟩
  exact ((h _).wp p).mono (fun _ q hq => hleaves q hq) fun _ q hq => hleaves q hq

/-- A call on every peer that keeps its queues good leaves the destinations. -/
theorem leaves_tellPeers {call : DlepView → PeerM Unit}
    (h : ∀ d, Within (fun p q : Peer => p.QueueInv → q.QueueInv) (call d)) :
    Within Leaves (tellPeers call) :=
  within_bind within_get fun _ => within_forM fun _ _ => leaves_onPeer h

/-- A call on the data of the node that keeps its destinations. -/
theorem leaves_onLocal {α : Type} {m : EStateM Exn PeerData α}
    (h : Within (fun pd pd' : PeerData => ∀ mac, pd'.validDestination mac =
      pd.validDestination mac) m) :
    Within Leaves (onLocal m) := by
  refine within_zoom fun n => ⟨fun hn => ⟨hn.queues, hn.object, hn.unique⟩, ?_, ⟨rfl, rfl, rfl⟩⟩
  exact Set.ext fun mac => by
    change (after m n.localPdp).validDestination mac = true ↔ n.localPdp.validDestination mac = true
    rw [h n.localPdp mac]

section

variable [AddressText]

/-- Every step of a peer keeps its queues good. -/
theorem queueInv_step (st : Peer.Step) {p : Peer} (hp : p.QueueInv) : (p.step st).QueueInv :=
  Peer.step_keeps (fun _ _ _ hm => hm.queueInv) st hp.ok hp

omit [AddressText] in
/-- A call that evolves the history keeps the queues good. -/
theorem queueInv_of_evolves {α : Type} {ks : Finset Peer.Kind} {m : PeerM α}
    (h : Within (Peer.Evolves ks) m) : Within (fun p q : Peer => p.QueueInv → q.QueueInv) m :=
  fun p hp => (h p hp.ok).keeps (fun _ _ _ _ hm => hm.queueInv) hp

/-- What happens to a peer. -/
theorem leaves_peer {s : Surroundings} {i : Nat} {input : Peer.Input} :
    Within Leaves (onPeer i fun d => Peer.Step.call ⟨d, s, input⟩) :=
  leaves_onPeer fun d _ hp => queueInv_step ⟨d, s, input⟩ hp

omit [AddressText] in
/-- Cleaning up leaves the destinations. -/
theorem leaves_cleanupExPeers : Within Leaves cleanupExPeers := by
  have hsub : ∀ (n : Node) (f : PeerId → Nat → Bool) (key : PeerId) (i : Nat),
      (n.peers.filter f)[key]? = some i → n.peers[key]? = some i := by
    intro n f key i hi
    rw [ExtTreeMap.getElem?_filter', Option.filter_eq_some_iff] at hi
    exact hi.1
  refine within_modify fun n =>
    ⟨fun hn => ⟨hn.queues, fun key i hi => ?_, fun key key' i hi hi' => ?_⟩, rfl, ⟨rfl, rfl, rfl⟩⟩
  · exact hn.object key i (hsub n _ key i hi)
  · exact hn.unique key key' i (hsub n _ key i hi) (hsub n _ key' i hi')

/-- A new object gets an index of its own. -/
theorem Sound.connect {cfg : ProtocolConfig} {peerId : PeerId} {now : Nat} {p : Peer} (hn : n.Sound)
    (hp : Peer.create cfg peerId now = .ok p) :
    Sound { n with
      objects := n.objects ++ [p]
      peers := n.peers.insert peerId n.objects.length } := by
  have hkey : ∀ (key : PeerId) (i : Nat),
      (n.peers.insert peerId n.objects.length)[key]? = some i →
        (peerId = key ∧ i = n.objects.length) ∨ n.peers[key]? = some i := by
    intro key i hi
    rw [ExtTreeMap.getElem?_insert] at hi
    simp only [Std.compare_eq_iff_eq] at hi
    split at hi
    · next hsame => exact .inl ⟨hsame, (Option.some.inj hi).symm⟩
    · exact .inr hi
  refine ⟨fun i q hq => ?_, fun key i hi => ?_, fun key key' i hi hi' => ?_⟩
  · rcases lt_or_ge i n.objects.length with hlt | hge
    · rw [List.getElem?_append_left hlt] at hq
      exact hn.queues i q hq
    · rw [List.getElem?_append_right hge] at hq
      obtain rfl := List.mem_singleton.1 (List.mem_of_getElem? hq)
      exact Peer.queueInv_of_create hp
  · rw [List.length_append, List.length_singleton]
    rcases hkey key i hi with ⟨-, rfl⟩ | hold
    · omega
    · have := hn.object key i hold
      omega
  · rcases hkey key i hi with ⟨rfl, rfl⟩ | hold
    · rcases hkey key' _ hi' with ⟨rfl, -⟩ | hold'
      · rfl
      · exact absurd (hn.object key' _ hold') (lt_irrefl _)
    · rcases hkey key' i hi' with ⟨-, rfl⟩ | hold'
      · exact absurd (hn.object key _ hold) (lt_irrefl _)
      · exact hn.unique key key' i hold hold'

/-- A connection leaves the destinations. -/
theorem leaves_handleAsyncMakePeer {s : Surroundings} {peerId : PeerId} :
    Within Leaves (handleAsyncMakePeer s peerId) := by
  refine within_of_wp fun n => ?_
  simp only [handleAsyncMakePeer, wp_bind, wp_get]
  refine wp_lift (fun p hp => ?_) fun _ _ => Std.Refl.refl n
  rw [wp_set]
  exact (@leaves_peer _ s n.objects.length .start).wp_trans
    ⟨fun hn => hn.connect hp, rfl, ⟨rfl, rfl, rfl⟩⟩

omit [AddressText] in
/-- Only the data of a known destination is written. -/
theorem sameDestinations_onDestination {mac : DlepMac} {m : EStateM Exn DestinationData Unit} :
    Within (fun pd pd' : PeerData => ∀ key, pd'.validDestination key = pd.validDestination key)
      (PeerData.onDestination mac m) := by
  refine within_of_wp fun pd => ?_
  simp only [PeerData.onDestination, wp_bind, wp_get]
  cases hdd : pd.destinationData[mac]? with
  | none => exact fun _ => rfl
  | some dd =>
    refine wp_zoom.2 (wp_after.2 fun key => ?_)
    simp only [PeerData.validDestination, ExtTreeMap.contains_insert]
    rcases eq_or_ne mac key with rfl | hne
    · simp [ExtTreeMap.contains_eq_isSome_getElem?, hdd]
    · simp [hne]

/-- An update of a destination leaves which there are. -/
theorem leaves_updateDestination {mac : DlepMac} {items : DataItems} :
    Within Leaves (updateDestination mac items) := by
  refine within_bind within_get fun n => within_bind (leaves_onLocal ?_) fun ok => ?_
  · intro pd
    refine (wp_after (P := fun pd' : PeerData => ∀ key,
      pd'.validDestination key = pd.validDestination key)).1 ?_
    simp only [PeerData.updateDestination, wp_bind, wp_get]
    split
    · rw [wp_bind]
      exact (sameDestinations_onDestination.wp pd).mono (fun _ _ h => h) fun _ _ h => h
    · exact fun _ => rfl
  · refine within_ite (fun _ => within_bind ?_ fun _ => within_pure) fun _ => within_pure
    exact leaves_tellPeers fun d => queueInv_of_evolves Peer.within_destinationUpdate

/-- The client's update leaves which destinations there are. -/
theorem leaves_destinationUpdate {entry : Option AdvertEntry} {mac : DlepMac} {items : DataItems} :
    Within Leaves (destinationUpdate entry mac items) := by
  have hpeer : Within Leaves (updatePeerDestination mac items) := by
    refine within_bind within_get fun n => ?_
    split
    · exact within_pure
    · refine within_bind (leaves_onPeer fun d => ?_) fun _ => within_pure
      exact queueInv_of_evolves Peer.within_destinationUpdate
  refine within_bind within_get fun n => within_ite (fun _ => ?_) fun _ => ?_
  · split
    · refine within_ite (fun _ => within_bind ?_ fun _ => within_pure) fun _ => within_pure
      exact within_forM fun dest _ => within_bind leaves_updateDestination fun _ => within_pure
    · exact hpeer
  · refine within_bind leaves_updateDestination fun ok => ?_
    exact within_ite (fun _ => within_pure) fun _ => hpeer

/-- A destination of a peer is dropped. -/
theorem leaves_removePeerDestination {s : Surroundings} {i : Nat} {mac : DlepMac}
    {items : DataItems} :
    Within Leaves (removePeerDestination s i mac items) := by
  refine within_bind (leaves_onPeer fun d => ?_) fun ok => ?_
  · exact queueInv_of_evolves (Peer.within_onPdp PeerData.noNewMetrics_removeDestination)
  · refine within_ite (fun _ => within_bind ?_ fun _ => within_pure) fun _ => within_pure
    exact leaves_tellPeers fun d => queueInv_of_evolves Peer.within_destinationDown

/-- A destination that the node does not have is at most dropped by a peer. -/
theorem leaves_dropDestination {s : Surroundings} {mac : DlepMac} {items : DataItems}
    (hnot : ¬ n.localPdp.validDestination mac = true) :
    wp (dropDestination s mac items) (fun _ n' => Leaves n n') (fun _ n' => Leaves n n') n := by
  simp only [dropDestination, removeDestination, onLocal, PeerData.removeDestination, wp_bind,
    wp_zoom, wp_get, if_neg hnot, wp_pure, Bool.false_eq_true, if_false]
  split
  · exact Std.Refl.refl n
  · have hdrop : ∀ i, Within Leaves (do
        let ok ← removePeerDestination s i mac items
        assertThat ok "ok"
        return ReturnStatus.ok) := fun i =>
      within_bind leaves_removePeerDestination fun ok =>
        within_bind within_lift fun _ => within_pure
    exact (hdrop _).wp n

/-! ## Calls that change the destinations of the node -/

omit [AddressText] in
/-- A node that is sound stays so. -/
def StaysSound (n n' : Node) : Prop := n.Sound → n'.Sound

omit [AddressText] in
instance : Std.Refl StaysSound := ⟨fun _ hn => hn⟩

omit [AddressText] in
instance : IsTrans Node StaysSound := ⟨fun _ _ _ h h' hn => h' (h hn)⟩

omit [AddressText] in
/-- What leaves the destinations keeps the node sound. -/
theorem staysSound_of_leaves {α : Type} {m : NodeM α} (h : Within Leaves m) : Within StaysSound m :=
  h.mono fun _ _ hleaves => hleaves.sound

omit [AddressText] in
/-- A call on the data of the node, after which the peers are told if it was done. -/
theorem staysSound_ifTold {α : Type} {m : EStateM Exn PeerData Bool} {call : DlepView → PeerM Unit}
    (h : ∀ d, Within (fun p q : Peer => p.QueueInv → q.QueueInv) (call d)) {yes no : α} :
    Within StaysSound (do
      if ← onLocal m then
        tellPeers call
        return yes
      else return no : NodeM α) := by
  have hlocal : Within StaysSound (onLocal m) :=
    within_zoom fun _ hn => ⟨hn.queues, hn.object, hn.unique⟩
  refine within_bind hlocal fun _ => within_ite (fun _ => ?_) fun _ => within_pure
  exact within_bind (staysSound_of_leaves (leaves_tellPeers h)) fun _ => within_pure

section

variable {s : Surroundings} {entry : Option AdvertEntry} {mac : DlepMac} {items : DataItems}

/-- Adding a destination keeps the node sound. -/
theorem staysSound_addDestination : Within StaysSound (addDestination s mac items) :=
  within_bind within_get fun _ =>
    staysSound_ifTold fun _ => queueInv_of_evolves Peer.within_destinationUp

/-- Removing a destination keeps the node sound. -/
theorem staysSound_removeDestination : Within StaysSound (removeDestination s mac items) :=
  staysSound_ifTold fun _ => queueInv_of_evolves Peer.within_destinationDown

/-- The client brings a destination up. -/
theorem staysSound_destinationUp : Within StaysSound (destinationUp s entry mac items) := by
  refine within_bind within_get fun _ => within_ite (fun _ => ?_) fun _ => ?_
  · split
    · refine within_ite (fun _ => within_pure) fun _ => within_bind ?_ fun _ => within_pure
      exact within_forM fun _ _ => within_bind staysSound_addDestination fun _ => within_pure
    · exact within_pure
  · refine within_bind staysSound_addDestination fun _ => ?_
    exact within_ite (fun _ => within_pure) fun _ => within_pure

/-- A destination is dropped, ours or that of a peer. -/
theorem staysSound_dropDestination : Within StaysSound (dropDestination s mac items) := by
  refine within_bind staysSound_removeDestination fun _ =>
    within_ite (fun _ => within_pure) fun _ => ?_
  refine within_bind within_get fun _ => ?_
  split
  · exact within_pure
  · refine within_bind (staysSound_of_leaves leaves_removePeerDestination) fun _ => ?_
    exact within_bind within_lift fun _ => within_pure

/-- The client takes a destination down. -/
theorem staysSound_destinationDown : Within StaysSound (destinationDown s entry mac items) := by
  have hall : ∀ dests, Within StaysSound (dropDestinations s items dests) := by
    intro dests
    induction dests with
    | nil => exact within_pure
    | cons dest dests ih =>
      refine within_bind staysSound_removeDestination fun _ => ?_
      exact within_bind ih fun _ => within_pure
  refine within_bind within_get fun _ => within_ite (fun _ => ?_) fun _ =>
    staysSound_dropDestination
  split
  · exact within_ite (fun _ => hall _) fun _ => within_pure
  · exact staysSound_dropDestination

end

end

end Node

end Dlep
