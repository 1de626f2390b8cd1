import Dlep.DestAdvert.Declared

/-!
# What has been heard

A table holds nothing but what has been heard, and a node with destination advertisement has no
destinations but those it has heard of. This does not ask that the node can tell its peers, nor in
which order things happen.
-/

namespace Dlep

open Std Calls

/-! ## What a node gains -/

namespace Node

/-- The node has no destinations but those it had and some others. -/
structure Gains (D : Set DlepMac) (n n' : Node) : Prop where
  has : ∀ mac ∈ n'.has, mac ∈ n.has ∨ mac ∈ D
  enabled : n'.destAdvertEnabled = n.destAdvertEnabled

instance {D : Set DlepMac} : Std.Refl (Gains D) := ⟨fun _ => ⟨fun _ h => .inl h, rfl⟩⟩

instance {D : Set DlepMac} : IsTrans Node (Gains D) where
  trans _ _ _ h h' := by
    refine ⟨fun mac hmac => ?_, h'.enabled.trans h.enabled⟩
    rcases h'.has mac hmac with hold | hnew
    · exact h.has mac hold
    · exact .inr hnew

section

variable {D : Set DlepMac}

/-- What leaves the destinations gains none. -/
theorem gains_of_leaves {α : Type} {m : NodeM α} (h : Within Leaves m) : Within (Gains D) m :=
  h.mono fun _ _ hleaves => ⟨fun _ hmac => .inl (hleaves.has ▸ hmac), hleaves.role.enabled⟩

/-- What leaves the data gains no destination. -/
theorem gains_of_sameData {α : Type} {m : NodeM α} (h : Within SameData m) :
    Within (Gains D) m := by
  refine h.mono fun n n' hsame => ⟨fun mac hmac => .inl ?_, hsame.enabled⟩
  change n'.localPdp.validDestination mac = true at hmac
  rwa [hsame.localPdp] at hmac

/-- A call on the data of the node. -/
theorem gains_onLocal {α : Type} {m : EStateM Exn PeerData α}
    (h : Within (fun pd pd' : PeerData => ∀ mac, pd'.validDestination mac = true →
      pd.validDestination mac = true ∨ mac ∈ D) m) : Within (Gains D) (onLocal m) :=
  within_zoom fun n => ⟨fun mac hmac => h n.localPdp mac hmac, rfl⟩

variable [AddressText] {s : Surroundings} {mac : DlepMac} {items : DataItems}

/-- A destination that is added is gained. -/
theorem gains_addDestination (hmac : mac ∈ D) : Within (Gains D) (addDestination s mac items) := by
  refine within_bind within_get fun n => within_bind (gains_onLocal ?_) fun ok => ?_
  · refine within_of_wp fun pd => ?_
    simp only [PeerData.addDestination, wp_bind, wp_get]
    split
    · exact fun _ => .inl
    · rw [wp_bind]
      refine wp_lift (fun dd _ => ?_) fun _ _ _ => .inl
      rw [wp_bind, wp_modify, wp_pure]
      intro key hkey
      rcases eq_or_ne mac key with rfl | hne
      · exact .inr hmac
      · refine .inl ?_
        simpa [PeerData.validDestination, ExtTreeMap.contains_insert, hne] using hkey
  · refine within_ite (fun _ => within_bind ?_ fun _ => within_pure) fun _ => within_pure
    exact gains_of_sameData sameData_tellPeers

/-- Removing a destination gains none. -/
theorem gains_removeDestination : Within (Gains D) (removeDestination s mac items) := by
  refine within_bind (gains_onLocal ?_) fun ok => ?_
  · refine within_of_wp fun pd => ?_
    simp only [PeerData.removeDestination, wp_bind, wp_get]
    split
    · rw [wp_bind, wp_modify, wp_pure]
      intro key hkey
      rw [PeerData.validDestination, ExtTreeMap.contains_erase] at hkey
      exact .inl (Bool.and_eq_true_iff.1 hkey).2
    · exact fun _ => .inl
  · refine within_ite (fun _ => within_bind ?_ fun _ => within_pure) fun _ => within_pure
    exact gains_of_sameData sameData_tellPeers

/-- The way down through the node gains no destination. -/
theorem gains_destinationDown {entry : Option AdvertEntry} :
    Within (Gains D) (destinationDown s entry mac items) := by
  have hall : ∀ dests, Within (Gains D) (dropDestinations s items dests) := by
    intro dests
    induction dests with
    | nil => exact within_pure
    | cons dest dests ih =>
      exact within_bind gains_removeDestination fun _ => within_bind ih fun _ => within_pure
  have hone : Within (Gains D) (dropDestination s mac items) := by
    refine within_bind gains_removeDestination fun _ =>
      within_ite (fun _ => within_pure) fun _ => ?_
    refine within_bind within_get fun n => ?_
    split
    · exact within_pure
    · refine within_bind (gains_of_leaves leaves_removePeerDestination) fun _ => ?_
      exact within_bind within_lift fun _ => within_pure
  refine within_bind within_get fun n => within_ite (fun _ => ?_) fun _ => hone
  split
  · exact within_ite (fun _ => hall _) fun _ => within_pure
  · exact hone

/-- With destination advertisement, the client brings up what the remote modem has advertised. -/
theorem gains_destinationUp {n : Node} {entry : Option AdvertEntry}
    (henabled : n.destAdvertEnabled = true)
    (hentry : ∀ e ∈ entry, ∀ dest ∈ e.destinations, dest ∈ D) :
    wp (destinationUp s entry mac items) (fun _ n' => Gains D n n')
      (fun _ n' => Gains D n n') n := by
  simp only [destinationUp, wp_bind, wp_get, henabled, if_true]
  cases entry with
  | none => exact Std.Refl.refl n
  | some e =>
    have hadd : Within (Gains D) (e.destinations.forM fun dest => do
        let _ ← addDestination s dest items) :=
      within_forM fun dest hdest =>
        within_bind (gains_addDestination (hentry e rfl dest hdest)) fun _ => within_pure
    dsimp only
    split
    · exact Std.Refl.refl n
    · exact (within_bind hadd fun _ => within_pure).wp n

end

end Node

/-! ## What a table holds -/

namespace DestAdvert

/-- The destinations that are heard of. -/
def among (H : DestAdvertInfo → Prop) : Set DlepMac :=
  {mac | ∃ info, H info ∧ mac ∈ info.destinations}

/-- An entry for which nothing has been heard is empty; all other entries, and the destinations of
the node, are from what was heard. -/
structure Grounded (H : DestAdvertInfo → Prop) (a : DestAdvert) : Prop where
  enabled : a.node.destAdvertEnabled = true
  entries : ∀ (rfId : DlepMac) (entry : DestAdvertDBEntry), a.destAdvertDb[rfId]? = some entry →
    entry.info = {} ∨ (entry.info.rfId = rfId ∧ H entry.info)
  has : ∀ mac ∈ a.node.has, mac ∈ among H

variable {H : DestAdvertInfo → Prop} {a : DestAdvert} {rfId : DlepMac} {s : Surroundings}

/-- What is grounded in some advertisements is so in more. -/
theorem Grounded.mono {H' : DestAdvertInfo → Prop} (ha : Grounded H a)
    (h : ∀ info, H info → H' info) :
    Grounded H' a := by
  refine ⟨ha.enabled, fun rfId entry hentry => ?_, fun mac hmac => ?_⟩
  · exact (ha.entries rfId entry hentry).imp_right fun hinfo => ⟨hinfo.1, h _ hinfo.2⟩
  · obtain ⟨info, hinfo, hmem⟩ := ha.has mac hmac
    exact ⟨info, h info hinfo, hmem⟩

/-- Every destination of an entry was heard of. -/
theorem Grounded.mem_among {entry : DestAdvertDBEntry} (ha : Grounded H a)
    (hentry : a.destAdvertDb[rfId]? = some entry) {mac : DlepMac}
    (hmac : mac ∈ entry.info.destinations) :
    mac ∈ among H := by
  rcases ha.entries rfId entry hentry with hempty | ⟨_, hheard⟩
  · rw [hempty] at hmac
    exact absurd hmac ExtTreeSet.not_mem_empty
  · exact ⟨_, hheard, hmac⟩

/-- What is grounded stays so. -/
def Keeps (H : DestAdvertInfo → Prop) (a a' : DestAdvert) : Prop := Grounded H a → Grounded H a'

instance : Std.Refl (Keeps H) := ⟨fun _ => id⟩

instance : IsTrans DestAdvert (Keeps H) := ⟨fun _ _ _ h h' => h' ∘ h⟩

/-- The node may gain destinations that were heard of. -/
theorem Grounded.node {n' : Node} (ha : Grounded H a) (h : Node.Gains (among H) a.node n') :
    Grounded H { a with node := n' } := by
  refine ⟨h.enabled.trans ha.enabled, ha.entries, fun mac hmac => ?_⟩
  rcases h.has mac hmac with hold | hnew
  · exact ha.has mac hold
  · exact hnew

/-- A call on the node that gains only what was heard of keeps the table grounded. -/
theorem keeps_onNode {α : Type} {m : NodeM α} (h : Within (Node.Gains (among H)) m) :
    Within (Keeps H) (onNode m) := by
  intro a
  refine (wp_after (P := fun a' => Keeps H a a')).1 (wp_zoom.2 ?_)
  exact (h.wp a.node).mono (fun _ _ hgains ha => ha.node hgains) fun _ _ hgains ha => ha.node hgains

/-- A new entry keeps the table grounded if it is empty or was heard of. -/
theorem keeps_addAdvertEntry {entry : DestAdvertDBEntry}
    (h : entry.info = {} ∨ (entry.info.rfId = rfId ∧ H entry.info)) :
    Within (Keeps H) (addAdvertEntry rfId entry) := by
  refine within_modify fun a ha => ⟨ha.enabled, fun key old hold => ?_, ha.has⟩
  rw [getElem?_insert] at hold
  split at hold
  · next hsame =>
    obtain rfl := Option.some.inj hold
    exact hsame ▸ h
  · exact ha.entries key old hold

/-- A change of an entry keeps the table grounded if what it stores was heard of. -/
theorem keeps_updateEntry {f : DestAdvertDBEntry → DestAdvertDBEntry}
    (h : ∀ entry : DestAdvertDBEntry, (f entry).info = entry.info ∨
      ((f entry).info.rfId = rfId ∧ H (f entry).info)) : Within (Keeps H) (updateEntry rfId f) := by
  refine within_modify fun a ha => ⟨ha.enabled, fun key entry hentry => ?_, ha.has⟩
  rw [ExtTreeMap.getElem?_modify] at hentry
  simp only [Std.compare_eq_iff_eq] at hentry
  split at hentry
  · next hsame =>
    obtain ⟨old, hold, rfl⟩ := Option.map_eq_some_iff.1 hentry
    rcases h old with hinfo | hinfo
    · rw [hinfo]
      exact hsame ▸ ha.entries rfId old hold
    · exact .inr (hsame ▸ hinfo)
  · exact ha.entries key entry hentry

/-- Erasing an entry keeps the table grounded. -/
theorem keeps_eraseEntry : Within (Keeps H) (eraseEntry rfId) := by
  refine within_modify fun a ha => ⟨ha.enabled, fun key entry hentry => ?_, ha.has⟩
  rw [ExtTreeMap.getElem?_erase] at hentry
  split at hentry
  · cases hentry
  · exact ha.entries key entry hentry

section

variable [AddressText] {items : DataItems}

/-- The destinations of an advertisement that is heard are heard of. -/
theorem keeps_handleMessage {info : DestAdvertInfo} (hheard : H info) :
    Within (Keeps H) (handleMessage s info) := by
  refine within_bind within_get fun a => ?_
  split
  · exact keeps_addAdvertEntry (.inr ⟨rfl, hheard⟩)
  · next entry hentry =>
    have hchange : Within (Node.Gains (among H)) (changeDestinations s entry info) := by
      refine within_bind (within_forM fun mac hmac => ?_) fun _ => ?_
      · have hadded : mac ∈ among H := ⟨info, hheard, (mem_getDifference.1 hmac).1⟩
        exact within_bind (Node.gains_addDestination hadded) fun _ => within_pure
      · exact within_forM fun _ _ => within_bind Node.gains_removeDestination fun _ => within_pure
    have hinfo : Within (Keeps H) (updateEntry info.rfId fun entry => { entry with info }) :=
      keeps_updateEntry fun _ => .inr ⟨rfl, hheard⟩
    refine within_bind (keeps_updateEntry fun _ => .inl rfl) fun _ =>
      within_ite (fun _ => ?_) fun _ => ?_
    · exact within_bind (keeps_onNode hchange) fun _ => hinfo
    · exact hinfo

/-- The way up through the node, with the destinations of an entry that was heard of. -/
theorem Grounded.wp_destinationUp {entry : Option AdvertEntry} (ha : Grounded H a)
    (hentry : ∀ e ∈ entry, ∀ dest ∈ e.destinations, dest ∈ among H) :
    wp (onNode (Node.destinationUp s entry rfId items)) (fun _ a' => Grounded H a')
      (fun _ a' => Grounded H a') a :=
  wp_zoom.2 ((Node.gains_destinationUp ha.enabled hentry).mono (fun _ _ hgains => ha.node hgains)
    fun _ _ hgains => ha.node hgains)

/-- The client brings a remote modem up. -/
theorem keeps_destinationUp : Within (Keeps H) (destinationUp s rfId items) := by
  intro a ha
  refine wp_after.1 ?_
  simp only [destinationUp, wp_bind, wp_get, ha.enabled, if_true]
  split
  · next entry hentry =>
    have hdests : ∀ e ∈ some entry.advert, ∀ dest ∈ e.destinations, dest ∈ among H := by
      intro e he dest hdest
      obtain rfl := Option.some.inj he
      exact ha.mem_among hentry (ExtTreeSet.mem_toList.1 hdest)
    have hitems : Within (Keeps H) (updateAdvertEntryDataItems rfId items) :=
      keeps_updateEntry fun _ => .inl rfl
    have hstate : Within (Keeps H) (updateAdvertEntryState rfId true) :=
      keeps_updateEntry fun _ => .inl rfl
    rw [wp_bind]
    refine (hitems.wp a).mono (fun _ a₁ h₁ => ?_) fun _ _ h₁ => h₁ ha
    rw [wp_bind]
    refine ((h₁ ha).wp_destinationUp hdests).mono (fun _ a₂ ha₂ => ?_) fun _ _ ha₂ => ha₂
    split
    · exact ha₂
    · rw [wp_bind]
      exact (hstate.wp a₂).mono (fun _ _ h => h ha₂) fun _ _ h => h ha₂
  · have hplaceholder : Within (Keeps H) (addAdvertEntry rfId
        { timestamp := s.now, up := true, placeholder := true, info := {}, dataItems := items }) :=
      keeps_addAdvertEntry (.inl rfl)
    rw [wp_bind]
    refine (hplaceholder.wp a).mono (fun _ a₁ h₁ => ?_) fun _ _ h₁ => h₁ ha
    refine (h₁ ha).wp_destinationUp fun e he => ?_
    cases he

/-- The client updates a remote modem. -/
theorem keeps_destinationUpdate : Within (Keeps H) (destinationUpdate rfId items) := by
  have hupdate : ∀ entry, Within (Keeps H) (onNode (Node.destinationUpdate entry rfId items)) :=
    fun _ => keeps_onNode (Node.gains_of_leaves Node.leaves_destinationUpdate)
  refine within_bind within_get fun a => within_ite (fun _ => ?_) fun _ => hupdate _
  split
  · exact within_bind (keeps_updateEntry fun _ => .inl rfl) fun _ => hupdate _
  · exact hupdate _

/-- The client takes a remote modem down. -/
theorem keeps_destinationDown : Within (Keeps H) (destinationDown s rfId items) := by
  have hdown : ∀ entry, Within (Keeps H) (onNode (Node.destinationDown s entry rfId items)) :=
    fun _ => keeps_onNode Node.gains_destinationDown
  refine within_bind within_get fun a => within_ite (fun _ => ?_) fun _ => hdown _
  split
  · refine within_bind (hdown _) fun _ => within_ite (fun _ => ?_) fun _ => within_pure
    exact within_bind (keeps_updateEntry fun _ => .inl rfl) fun _ => within_pure
  · exact hdown _

/-- The timer looks at one entry. -/
theorem keeps_purgeEntry {holdInterval expireCount : UInt32} :
    Within (Keeps H) (purgeEntry s holdInterval expireCount rfId) := by
  refine within_bind within_get fun a => ?_
  split
  · exact within_pure
  · refine within_ite (fun _ => keeps_eraseEntry) fun _ => within_ite (fun _ => ?_) fun _ =>
      within_pure
    refine within_ite (fun _ => within_bind (keeps_onNode ?_) fun _ => keeps_eraseEntry) fun _ =>
      keeps_eraseEntry
    exact within_forM fun _ _ => within_bind Node.gains_removeDestination fun _ => within_pure

/-- Whatever happens, a table that holds what was heard goes on to do so, if what is heard now
was. -/
theorem keeps_step {st : Step} (h : ∀ info, st.input = .advertisement info → H info)
    (a : DestAdvert) :
    Keeps H a (a.step st) := by
  obtain ⟨s, input⟩ := st
  have hnode : ∀ {m : NodeM Unit}, Within Node.Leaves m → Within (Keeps H) (onNode m) :=
    fun hm => keeps_onNode (Node.gains_of_leaves hm)
  cases input with
  | connect peerId => exact hnode Node.leaves_handleAsyncMakePeer a
  | peer i occasion => exact hnode Node.leaves_peer a
  | cleanup => exact hnode Node.leaves_cleanupExPeers a
  | advertisement info => exact keeps_handleMessage (h info rfl) a
  | destinationUp rfId items => exact within_bind keeps_destinationUp (fun _ => within_pure) a
  | destinationUpdate rfId items =>
    exact within_bind keeps_destinationUpdate (fun _ => within_pure) a
  | destinationDown rfId items => exact within_bind keeps_destinationDown (fun _ => within_pure) a
  | purge holdInterval expireCount =>
    exact within_bind within_get (fun _ => within_forM fun _ _ => keeps_purgeEntry) a

end

end DestAdvert

end Dlep
