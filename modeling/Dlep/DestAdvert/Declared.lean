import Dlep.DestAdvert
import Dlep.Lib.Unions
import Dlep.Node.Tell

/-!
# The destinations of the remote modems

The node should have exactly the destinations that the remote modems which are up have advertised.
The table and the data of the node are kept apart, and each step changes the latter by the
difference it makes to one entry. So the node has these destinations exactly as long as no step
withdraws a destination that another remote modem has, too.
-/

namespace Dlep

open Std Calls Runs Unions

namespace DestAdvertDBEntry

/-- The destinations of an entry. -/
def destinations (entry : DestAdvertDBEntry) : Set DlepMac := {mac | mac ∈ entry.info.destinations}

/-- The destinations for which an entry stands: none while it is down. -/
def share (entry : DestAdvertDBEntry) : Set DlepMac :=
  {mac | entry.up = true ∧ mac ∈ entry.destinations}

end DestAdvertDBEntry

namespace DestAdvert

/-- What each remote modem stands for. -/
def share (a : DestAdvert) (rfId : DlepMac) : Set DlepMac :=
  (a.destAdvertDb[rfId]?).elim ∅ DestAdvertDBEntry.share

/-- A destination is in the share of a remote modem exactly if it is in its entry and the entry is
up. -/
theorem mem_share_iff {a : DestAdvert} {rfId mac : DlepMac} :
    mac ∈ a.share rfId ↔ ∃ entry, a.destAdvertDb[rfId]? = some entry ∧ mac ∈ entry.share := by
  unfold share
  cases a.destAdvertDb[rfId]? <;> simp

/-- A remote modem without an entry stands for nothing. -/
theorem share_of_none {a : DestAdvert} {rfId : DlepMac} (hentry : a.destAdvertDb[rfId]? = none) :
    a.share rfId = ∅ := by
  simp [share, hentry]

/-- A remote modem that is down stands for nothing. -/
theorem share_of_not_up {a : DestAdvert} {rfId : DlepMac} {entry : DestAdvertDBEntry}
    (hentry : a.destAdvertDb[rfId]? = some entry) (hup : entry.up = false) : a.share rfId = ∅ := by
  simp [share, hentry, DestAdvertDBEntry.share, hup]

/-- A remote modem that is up stands for its destinations. -/
theorem share_of_up {a : DestAdvert} {rfId : DlepMac} {entry : DestAdvertDBEntry}
    (hentry : a.destAdvertDb[rfId]? = some entry) (hup : entry.up = true) :
    a.share rfId = entry.destinations := by
  simp [share, hentry, DestAdvertDBEntry.share, hup]

/-- The node has the destinations of the remote modems that are up, and no others. -/
def Declared (a : DestAdvert) : Prop := a.node.has = union a.share

/-- The remote modem that an input is about. -/
def Input.rfId : Input → DlepMac
  | .advertisement info => info.rfId
  | .destinationUp rfId _ => rfId
  | .destinationUpdate rfId _ => rfId
  | .destinationDown rfId _ => rfId
  | _ => []

/-- What the remote modem stands for after the input. -/
def declares (a : DestAdvert) : Input → Set DlepMac
  | .advertisement info =>
    {mac | (a.destAdvertDb[info.rfId]?).any DestAdvertDBEntry.up = true ∧ mac ∈ info.destinations}
  | .destinationUp rfId _ => (a.destAdvertDb[rfId]?).elim ∅ DestAdvertDBEntry.destinations
  | .destinationDown _ _ => ∅
  | input => a.share input.rfId

/-- No other remote modem that is up has what the input withdraws. -/
def WithdrawsOwn (a : DestAdvert) (st : Step) : Prop :=
  Disjoint (a.share st.input.rfId \ a.declares st.input) (others a.share st.input.rfId)

/-! ## What the steps do to the two -/

/-- One remote modem gets another set, and the destinations of the node are changed by the
difference. -/
structure Replaces (a : DestAdvert) (rfId : DlepMac) (new : Set DlepMac)
    (a' : DestAdvert) : Prop where
  share : a'.share = Function.update a.share rfId new
  has : a'.node.has = (a.node.has ∪ (new \ a.share rfId)) \ (a.share rfId \ new)

/-- The table has the destination under the name. -/
def Lists (a : DestAdvert) (rfId mac : DlepMac) : Prop :=
  ∃ entry, a.destAdvertDb[rfId]? = some entry ∧ mac ∈ entry.destinations

/-- The input is an advertisement of the destination. -/
def Input.Brings : Input → DlepMac → Prop
  | .advertisement info, mac => mac ∈ info.destinations
  | _, _ => False

/-- The node is sound and listens to the advertisements. -/
structure Good (a : DestAdvert) : Prop where
  sound : a.node.Sound
  enabled : a.node.destAdvertEnabled = true

/-- The addresses of remote modems are not addresses of destinations. -/
structure Foreign (isRf : DlepMac → Prop) (a : DestAdvert) : Prop where
  table : ∀ rfId mac, a.Lists rfId mac → ¬ isRf mac
  own : ∀ mac ∈ a.node.has, ¬ isRf mac

/-- What is declared down by a name that is not in the table is not a destination of the node. -/
def NamesRf (a : DestAdvert) : Input → Prop
  | .destinationDown rfId _ => a.destAdvertDb[rfId]? = none → rfId ∉ a.node.has
  | _ => True

section

variable {isRf : DlepMac → Prop} {a a' : DestAdvert} {rfId : DlepMac} {entry : DestAdvertDBEntry}
  {new : Set DlepMac}

/-- After a replacement the node declares what it should exactly if nothing that was withdrawn is
also another's. -/
theorem Replaces.declared_iff (h : Replaces a rfId new a') (ha : Declared a) :
    Declared a' ↔ Disjoint (a.share rfId \ new) (others a.share rfId) := by
  rw [Declared, h.share, h.has, ha]
  exact replaced_eq_iff

/-- An empty table and a node without destinations agree. -/
theorem declared_of_empty (hdb : a.destAdvertDb = ∅) (hhas : a.node.has = ∅) : Declared a := by
  rw [Declared, hhas]
  refine (Set.eq_empty_of_forall_notMem ?_).symm
  rintro mac ⟨rfId, hmac⟩
  simp [share, hdb] at hmac

/-- Nothing is known yet, so that no address is both of a remote modem and of a destination. -/
theorem foreign_of_empty (hdb : a.destAdvertDb = ∅) (hhas : a.node.has = ∅) : Foreign isRf a := by
  refine ⟨?_, by simp [hhas]⟩
  rintro rfId mac ⟨entry, hentry, -⟩
  simp [hdb] at hentry

/-- What an input makes a remote modem stand for was in its entry, or is advertised now. -/
theorem lists_or_brings_of_declares {input : Input} {mac : DlepMac} (hmac : mac ∈ a.declares input)
    (hnew : mac ∉ a.share input.rfId) : a.Lists input.rfId mac ∨ input.Brings mac := by
  cases input with
  | advertisement info => exact .inr hmac.2
  | destinationUp rfId items =>
    left
    have hmac : mac ∈ (a.destAdvertDb[rfId]?).elim ∅ DestAdvertDBEntry.destinations := hmac
    cases hentry : a.destAdvertDb[rfId]? with
    | none =>
      rw [hentry] at hmac
      exact hmac.elim
    | some entry =>
      rw [hentry] at hmac
      exact ⟨entry, hentry, hmac⟩
  | destinationDown rfId items => exact hmac.elim
  | _ => exact absurd hmac hnew

/-- One entry is written. -/
theorem share_of_write {written : Option DestAdvertDBEntry}
    (h : ∀ key : DlepMac, a'.destAdvertDb[key]? =
      if rfId = key then written else a.destAdvertDb[key]?) :
    a'.share = Function.update a.share rfId (written.elim ∅ DestAdvertDBEntry.share) := by
  funext key
  simp only [share, h]
  rcases eq_or_ne rfId key with rfl | hne
  · rw [if_pos rfl, Function.update_self]
  · rw [if_neg hne, Function.update_of_ne (Ne.symm hne)]
    rfl

/-- Nothing changes that matters here. -/
theorem Replaces.same (hshare : a'.share = a.share) (hhas : a'.node.has = a.node.has)
    (rfId : DlepMac) : Replaces a rfId (a.share rfId) a' := by
  refine ⟨by rw [hshare, Function.update_eq_self], ?_⟩
  rw [hhas]
  simp

end

section

variable [AddressText]

/-- The destination can be stored with the data items, and every peer can be told of it. -/
def CanAdd (s : Surroundings) (n : Node) (items : DataItems) (mac : DlepMac) : Prop :=
  (∃ dd, DestinationData.create n.cfg mac items = .ok dd) ∧ n.CanTellUp s mac items

/-- What the step has to tell the peers can be composed. -/
def Tellable (a : DestAdvert) (st : Step) : Prop :=
  match st.input with
  | .advertisement info => ∀ entry, a.destAdvertDb[info.rfId]? = some entry → entry.up = true →
    (∀ mac ∈ info.destinations, mac ∉ entry.destinations → mac ∉ a.node.has →
      CanAdd st.s a.node entry.dataItems mac) ∧
    ∀ mac ∈ entry.destinations, mac ∉ info.destinations → a.node.CanTellDown mac []
  | .destinationUp rfId items => ∀ entry, a.destAdvertDb[rfId]? = some entry → entry.up = false →
    ∀ mac ∈ entry.destinations, mac ∉ a.node.has → CanAdd st.s a.node items mac
  | .destinationDown rfId items => ∀ entry, a.destAdvertDb[rfId]? = some entry → entry.up = true →
    ∀ mac ∈ entry.destinations, a.node.CanTellDown mac items
  | .purge _ expireCount => ∀ (rfId : DlepMac) (entry : DestAdvertDBEntry),
    a.destAdvertDb[rfId]? = some entry → entry.isExpired expireCount st.s.now = true →
      entry.up = true →
      ∀ mac ∈ entry.destinations, a.node.CanTellDown mac []
  | _ => True

/-- The client speaks of remote modems, and these advertise destinations. -/
def Addressed (isRf : DlepMac → Prop) : Input → Prop
  | .advertisement info => ∀ mac ∈ info.destinations, ¬ isRf mac
  | .destinationUp rfId _ => isRf rfId
  | .destinationUpdate rfId _ => isRf rfId
  | .destinationDown rfId _ => isRf rfId
  | _ => True

variable {isRf : DlepMac → Prop} {a a' : DestAdvert} {rfId : DlepMac} {entry : DestAdvertDBEntry}
  {s : Surroundings}

omit [AddressText] in
/-- The difference of two sets, as the source computes it. -/
theorem mem_getDifference {A B : ExtTreeSet DlepMac} {mac : DlepMac} :
    mac ∈ getDifference A B ↔ mac ∈ A ∧ mac ∉ B := by
  rw [getDifference, List.mem_filter, ExtTreeSet.mem_toList, Bool.not_eq_true', ← Bool.not_eq_true,
    ExtTreeSet.contains_iff_mem]

omit [AddressText] in
/-- A set lists no destination twice. -/
theorem nodup_toList (A : ExtTreeSet DlepMac) : A.toList.Nodup :=
  A.distinct_toList.imp fun hne hsame => hne (by rw [hsame, Std.compare_self])

/-- What an advertisement adds and deletes. -/
theorem kept_changeDestinations {info : DestAdvertInfo} {n : Node} (hn : n.Sound)
    (hadd : ∀ mac ∈ info.destinations, mac ∉ entry.destinations → mac ∉ n.has →
      CanAdd s n entry.dataItems mac)
    (hremove : ∀ mac ∈ entry.destinations, mac ∉ info.destinations → n.CanTellDown mac []) :
    wp (changeDestinations s entry info)
      (fun _ n' => Node.Kept n n' ∧
        n'.has = (n.has ∪ ({mac | mac ∈ info.destinations} \ entry.destinations)) \
          (entry.destinations \ {mac | mac ∈ info.destinations}))
      (fun _ _ => False) n := by
  rw [changeDestinations, wp_bind]
  have hnodup : (getDifference info.destinations entry.info.destinations).Nodup :=
    (nodup_toList _).filter _
  refine (Node.kept_addDestinations hnodup hn fun mac hmac => ?_).mono ?_ fun _ _ hfalse => hfalse
  · obtain ⟨hnew, hold⟩ := mem_getDifference.1 hmac
    exact hadd mac hnew hold
  · rintro _ n' ⟨hkept, hhas⟩
    refine (Node.kept_removeDestinations hkept.sound fun mac hmac _ => ?_).mono ?_
      fun _ _ hfalse => hfalse
    · obtain ⟨hold, hnew⟩ := mem_getDifference.1 hmac
      exact hkept.canTellDown (hremove mac hold hnew)
    · rintro _ n'' ⟨hkept', hhas', -⟩
      refine ⟨hkept.trans hkept', ?_⟩
      rw [hhas', hhas]
      ext mac
      simp only [Set.mem_sdiff, Set.mem_union, Set.mem_ofPred_eq, mem_getDifference,
        DestAdvertDBEntry.destinations]

/-- A step does what it should to the table and to the destinations of the node. -/
structure StepsTo (a : DestAdvert) (input : Input) (a' : DestAdvert) : Prop where
  good : Good a'
  replaces : Replaces a input.rfId (a.declares input) a'
  role : Node.SameRole a.node a'.node
  table : ∀ rfId mac, a'.Lists rfId mac → a.Lists rfId mac ∨ input.Brings mac

omit [AddressText] in
/-- If only remote modems are named, and they advertise destinations, their addresses stay apart. -/
theorem StepsTo.foreign {input : Input} (h : StepsTo a input a') (hforeign : Foreign isRf a)
    (haddressed : Addressed isRf input) : Foreign isRf a' := by
  have hbrings : ∀ mac, input.Brings mac → ¬ isRf mac := by
    intro mac hmac
    cases input with
    | advertisement info => exact haddressed mac hmac
    | _ => exact hmac.elim
  refine ⟨fun rfId mac hmac => ?_, fun mac hmac => ?_⟩
  · rcases h.table rfId mac hmac with hold | hnew
    · exact hforeign.table rfId mac hold
    · exact hbrings mac hnew
  · rw [h.replaces.has] at hmac
    rcases hmac.1 with hold | ⟨hdeclares, hnew⟩
    · exact hforeign.own mac hold
    · rcases lists_or_brings_of_declares hdeclares hnew with hold | hnew
      · exact hforeign.table _ mac hold
      · exact hbrings mac hnew

omit [AddressText] in
/-- Where the addresses are apart, a client that speaks of remote modems declares no destination
of the node down. -/
theorem Foreign.namesRf {input : Input} (hforeign : Foreign isRf a)
    (haddressed : Addressed isRf input) :
    a.NamesRf input := by
  cases input with
  | destinationDown rfId items => exact fun _ hmem => hforeign.own rfId hmem haddressed
  | _ => trivial

omit [AddressText] in
/-- One entry is written, and the destinations of the node are changed accordingly. -/
theorem StepsTo.write {input : Input} {written : Option DestAdvertDBEntry} (hgood : Good a)
    (hwrite : ∀ key : DlepMac, a'.destAdvertDb[key]? =
      if input.rfId = key then written else a.destAdvertDb[key]?)
    (hdeclares : written.elim ∅ DestAdvertDBEntry.share = a.declares input)
    (hwritten : ∀ entry, written = some entry → ∀ mac ∈ entry.destinations,
      a.Lists input.rfId mac ∨ input.Brings mac)
    (hsound : a'.node.Sound) (hrole : Node.SameRole a.node a'.node)
    (hhas : a'.node.has = (a.node.has ∪ (a.declares input \ a.share input.rfId)) \
      (a.share input.rfId \ a.declares input)) : StepsTo a input a' := by
  have hshare := share_of_write hwrite
  rw [hdeclares] at hshare
  refine ⟨⟨hsound, hrole.enabled.trans hgood.enabled⟩, ⟨hshare, hhas⟩, hrole, ?_⟩
  rintro rfId mac ⟨entry, hentry, hmac⟩
  rw [hwrite] at hentry
  split at hentry
  · next hsame => exact hsame ▸ hwritten entry hentry mac hmac
  · exact .inl ⟨entry, hentry, hmac⟩

omit [AddressText] in
/-- What happens to the peers does not matter. -/
theorem StepsTo.leaves {input : Input} {n' : Node} (hgood : Good a)
    (hdeclares : a.declares input = a.share input.rfId) (h : Node.Leaves a.node n') :
    StepsTo a input { a with node := n' } := by
  refine @StepsTo.write _ _ _ a.destAdvertDb[input.rfId]? hgood (fun key => ?_) hdeclares.symm
    (fun entry hentry mac hmac => .inl ⟨entry, hentry, hmac⟩) (h.sound hgood.sound) h.role ?_
  · split
    · next hsame => rw [hsame]
    · rfl
  · rw [hdeclares, h.has]
    simp

omit [AddressText] in
/-- Changing an entry changes it and no other. -/
theorem getElem?_modify (hentry : a.destAdvertDb[rfId]? = some entry)
    (f : DestAdvertDBEntry → DestAdvertDBEntry) (key : DlepMac) :
    (a.destAdvertDb.modify rfId f)[key]? =
      if rfId = key then some (f entry) else a.destAdvertDb[key]? := by
  rw [ExtTreeMap.getElem?_modify, hentry]
  simp only [Std.compare_eq_iff_eq, Option.map_some]

omit [AddressText] in
/-- Changing an entry twice changes it and no other. -/
theorem getElem?_modify_modify (hentry : a.destAdvertDb[rfId]? = some entry)
    (f g : DestAdvertDBEntry → DestAdvertDBEntry) (key : DlepMac) :
    ((a.destAdvertDb.modify rfId f).modify rfId g)[key]? =
      if rfId = key then some (g (f entry)) else a.destAdvertDb[key]? := by
  rw [ExtTreeMap.getElem?_modify, getElem?_modify hentry, getElem?_modify hentry]
  simp only [Std.compare_eq_iff_eq, if_true, Option.map_some]
  rcases eq_or_ne rfId key with rfl | hne
  · rw [if_pos rfl, if_pos rfl]
  · rw [if_neg hne, if_neg hne, if_neg hne]

omit [AddressText] in
/-- Inserting an entry leaves all others. -/
theorem getElem?_insert (entry : DestAdvertDBEntry) (key : DlepMac) :
    (a.destAdvertDb.insert rfId entry)[key]? =
      if rfId = key then some entry else a.destAdvertDb[key]? := by
  rw [ExtTreeMap.getElem?_insert]
  simp only [Std.compare_eq_iff_eq]

/-- An advertisement replaces what its remote modem stands for. -/
theorem stepsTo_handleMessage {info : DestAdvertInfo} (hgood : Good a)
    (htell : Tellable a ⟨s, .advertisement info⟩) :
    wp (handleMessage s info) (fun _ a' => StepsTo a (.advertisement info) a')
      (fun _ _ => False) a := by
  simp only [handleMessage, wp_bind, wp_get]
  cases hentry : a.destAdvertDb[info.rfId]? with
  | none =>
    have hdeclares : a.declares (.advertisement info) = ∅ := by simp [declares, hentry]
    have hshare : a.share info.rfId = ∅ := share_of_none hentry
    refine .write hgood (getElem?_insert _) ?_ ?_ hgood.sound (.refl _) ?_
    · simp [hdeclares, DestAdvertDBEntry.share]
    · rintro _ ⟨⟩ mac hmac
      exact .inr hmac
    · simp [hdeclares, Input.rfId, hshare]
  | some entry =>
    have hwrite : ∀ (node : Node) (key : DlepMac), (DestAdvert.mk node
        ((a.destAdvertDb.modify info.rfId fun entry => { entry with timestamp := s.now }).modify
          info.rfId fun entry => { entry with info })).destAdvertDb[key]? =
        if info.rfId = key then some { entry with timestamp := s.now, info }
          else a.destAdvertDb[key]? := by
      exact fun node key => getElem?_modify_modify hentry _ _ key
    have hbrings : ∀ e, some { entry with timestamp := s.now, info } = some e →
        ∀ mac ∈ e.destinations, a.Lists (Input.advertisement info).rfId mac ∨
          (Input.advertisement info).Brings mac := by
      rintro _ ⟨⟩ mac hmac
      exact .inr hmac
    have hdeclares : (some { entry with timestamp := s.now, info }).elim ∅ DestAdvertDBEntry.share =
        a.declares (.advertisement info) := by
      simp [declares, hentry, DestAdvertDBEntry.share, DestAdvertDBEntry.destinations]
    simp only [updateEntry, wp_bind, wp_modify]
    cases hup : entry.up with
    | false =>
      have hnone : a.declares (.advertisement info) = ∅ := by simp [declares, hentry, hup]
      have hshare : a.share info.rfId = ∅ := share_of_not_up hentry hup
      refine .write hgood (hwrite a.node) hdeclares hbrings hgood.sound (.refl _) ?_
      simp [hnone, Input.rfId, hshare]
    | true =>
      obtain ⟨hadd, hremove⟩ := htell entry hentry hup
      simp only [if_true, onNode, wp_bind]
      refine wp_zoom.2 ((kept_changeDestinations (s := s) hgood.sound hadd hremove).mono ?_
        fun _ _ hfalse => hfalse)
      rintro _ n' ⟨hkept, hhas⟩
      refine .write hgood (hwrite n') hdeclares hbrings hkept.sound hkept.toSameRole ?_
      have hshare : a.share info.rfId = entry.destinations := share_of_up hentry hup
      have hnew : a.declares (.advertisement info) = {mac | mac ∈ info.destinations} := by
        simp [declares, hentry, hup]
      rw [Input.rfId, hshare, hnew]
      exact hhas

/-- A remote modem that comes up stands for what it has advertised. -/
theorem stepsTo_destinationUp {items : DataItems} (hgood : Good a)
    (htell : Tellable a ⟨s, .destinationUp rfId items⟩) :
    wp (destinationUp s rfId items) (fun _ a' => StepsTo a (.destinationUp rfId items) a')
      (fun _ _ => False) a := by
  simp only [destinationUp, wp_bind, wp_get, hgood.enabled, if_true]
  cases hentry : a.destAdvertDb[rfId]? with
  | none =>
    have hdeclares : a.declares (.destinationUp rfId items) = ∅ := by simp [declares, hentry]
    have hshare : a.share rfId = ∅ := share_of_none hentry
    simp only [addAdvertEntry, wp_bind, wp_modify, onNode, wp_zoom, Node.destinationUp, wp_get,
      hgood.enabled, if_true, wp_pure]
    refine .write hgood (getElem?_insert _) ?_ ?_ hgood.sound (.refl _) ?_
    · simp [hdeclares, DestAdvertDBEntry.share, DestAdvertDBEntry.destinations]
    · rintro _ ⟨⟩ mac hmac
      simp [DestAdvertDBEntry.destinations] at hmac
    · simp [hdeclares, Input.rfId, hshare]
  | some entry =>
    have hlists : ∀ mac ∈ entry.destinations, a.Lists rfId mac :=
      fun mac hmac => ⟨entry, hentry, hmac⟩
    have hdeclares : a.declares (.destinationUp rfId items) = entry.destinations := by
      simp [declares, hentry]
    simp only [updateAdvertEntryDataItems, updateEntry, wp_bind, wp_modify, onNode, wp_zoom,
      Node.destinationUp, wp_get, hgood.enabled, if_true, DestAdvertDBEntry.advert]
    rcases Bool.eq_false_or_eq_true entry.up with hup | hup
    · -- the remote modem is up already
      have hshare : a.share rfId = entry.destinations := share_of_up hentry hup
      simp only [hup, if_true, wp_pure]
      refine .write hgood (getElem?_modify hentry _) ?_ ?_ hgood.sound (.refl _) ?_
      · simp [hdeclares, DestAdvertDBEntry.share, hup, DestAdvertDBEntry.destinations]
      · rintro _ ⟨⟩ mac hmac
        exact .inl (hlists mac hmac)
      · simp [hdeclares, Input.rfId, hshare]
    · have hshare : a.share rfId = ∅ := share_of_not_up hentry hup
      have hcan : ∀ mac ∈ entry.info.destinations.toList, mac ∉ a.node.has →
          CanAdd s a.node items mac := fun mac hmac hnot =>
        htell entry hentry hup mac (ExtTreeSet.mem_toList.1 hmac) hnot
      simp only [hup, Bool.false_eq_true, if_false, wp_bind]
      refine (Node.kept_addDestinations (nodup_toList _) hgood.sound hcan).mono ?_
        fun _ _ hfalse => hfalse
      rintro _ n' ⟨hkept, hhas⟩
      simp only [updateAdvertEntryState, updateEntry, wp_modify, wp_pure]
      refine .write hgood (getElem?_modify_modify hentry _ _) ?_ ?_ hkept.sound hkept.toSameRole ?_
      · simp [hdeclares, DestAdvertDBEntry.share, DestAdvertDBEntry.destinations]
      · rintro _ ⟨⟩ mac hmac
        exact .inl (hlists mac hmac)
      · rw [Input.rfId, hshare, hdeclares, hhas]
        ext mac
        simp [DestAdvertDBEntry.destinations]

/-- Entries that are dropped together. -/
theorem wp_dropDestinations {items : DataItems} {macs : List DlepMac} {n : Node}
    {Q : Node → Prop} {E : Exn → Node → Prop}
    (h : wp (macs.forM fun mac => do let _ ← Node.removeDestination s mac items)
      (fun _ n' => Q n') E n) :
    wp (Node.dropDestinations s items macs) (fun _ n' => Q n') E n := by
  induction macs generalizing n with
  | nil => exact h
  | cons mac macs ih =>
    rw [List.forM, wp_bind, wp_bind] at h
    rw [Node.dropDestinations, wp_bind]
    refine h.mono (fun ok n' hn' => ?_) fun _ _ he => he
    rw [wp_bind]
    exact ih hn'

/-- A remote modem that goes down stands for nothing. -/
theorem stepsTo_destinationDown {items : DataItems} (hgood : Good a)
    (hnames : a.NamesRf (.destinationDown rfId items))
    (htell : Tellable a ⟨s, .destinationDown rfId items⟩) :
    StepsTo a (.destinationDown rfId items) (after (destinationDown s rfId items) a) := by
  refine (wp_after (P := fun a' => StepsTo a (.destinationDown rfId items) a')).1 ?_
  have hdeclares : a.declares (.destinationDown rfId items) = ∅ := rfl
  simp only [destinationDown, wp_bind, wp_get, hgood.enabled, if_true]
  cases hentry : a.destAdvertDb[rfId]? with
  | none =>
    -- the name is not that of a destination of the node: at most a peer loses one
    have hnot : ¬ a.node.localPdp.validDestination rfId = true := hnames hentry
    have hleaves : wp (Node.destinationDown s none rfId items)
        (fun _ n' => Node.Leaves a.node n') (fun _ n' => Node.Leaves a.node n') a.node := by
      simp only [Node.destinationDown, wp_bind, wp_get]
      rw [if_pos hgood.enabled]
      exact Node.leaves_dropDestination hnot
    have hsame : a.declares (.destinationDown rfId items) = a.share rfId :=
      (share_of_none hentry).symm
    exact wp_zoom.2 (hleaves.mono (fun _ n' hn' => .leaves hgood hsame hn')
      fun _ n' hn' => .leaves hgood hsame hn')
  | some entry =>
    simp only [onNode, wp_bind, wp_zoom, Node.destinationDown, wp_get, hgood.enabled, if_true,
      DestAdvertDBEntry.advert]
    rcases Bool.eq_false_or_eq_true entry.up with hup | hup
    · have hshare : a.share rfId = entry.destinations := share_of_up hentry hup
      have hcan : ∀ mac ∈ entry.info.destinations.toList, mac ∈ a.node.has →
          a.node.CanTellDown mac items := fun mac hmac _ =>
        htell entry hentry hup mac (ExtTreeSet.mem_toList.1 hmac)
      simp only [hup, if_true]
      refine wp_dropDestinations ((Node.kept_removeDestinations hgood.sound hcan).mono ?_
        fun _ _ hfalse => hfalse.elim)
      rintro _ n' ⟨hkept, hhas, -⟩
      refine .write hgood (getElem?_modify hentry _) ?_ ?_ hkept.sound hkept.toSameRole ?_
      · simp [hdeclares, DestAdvertDBEntry.share]
      · rintro _ ⟨⟩ mac hmac
        exact .inl ⟨entry, hentry, hmac⟩
      · rw [hdeclares, Input.rfId, hshare, hhas]
        ext mac
        simp [DestAdvertDBEntry.destinations]
    · simp only [hup, Bool.false_eq_true, if_false, wp_pure]
      exact .leaves hgood (share_of_not_up hentry hup).symm (refl a.node)

omit [AddressText] in
/-- A call on the node that leaves its destinations changes nothing that is declared. -/
theorem stepsTo_onNode {α : Type} {m : NodeM α} {input : Input} (hgood : Good a)
    (hdeclares : a.declares input = a.share input.rfId) (hm : Within Node.Leaves m) :
    StepsTo a input (after (onNode m) a) := by
  refine (wp_after (P := fun a' => StepsTo a input a')).1 (wp_zoom.2 ?_)
  exact (hm.wp a.node).mono (fun _ n' hn' => .leaves hgood hdeclares hn')
    fun _ n' hn' => .leaves hgood hdeclares hn'

/-- An update of a remote modem changes nothing that is declared. -/
theorem stepsTo_destinationUpdate {items : DataItems} (hgood : Good a) :
    StepsTo a (.destinationUpdate rfId items) (after (destinationUpdate rfId items) a) := by
  refine (wp_after (P := fun a' => StepsTo a (.destinationUpdate rfId items) a')).1 ?_
  simp only [destinationUpdate, wp_bind, wp_get, hgood.enabled, if_true]
  cases hentry : a.destAdvertDb[rfId]? with
  | none => exact wp_after.2 (stepsTo_onNode hgood rfl Node.leaves_destinationUpdate)
  | some entry =>
    have hupdate : ∀ n', Node.Leaves a.node n' → StepsTo a (.destinationUpdate rfId items)
        ⟨n', a.destAdvertDb.modify rfId fun entry => { entry with dataItems := items }⟩ := by
      intro n' hn'
      have hshare : a.share rfId = entry.share := by simp [share, hentry]
      have hdeclares : a.declares (.destinationUpdate rfId items) = a.share rfId := rfl
      refine .write hgood (getElem?_modify hentry _) ?_ ?_ (hn'.sound hgood.sound) hn'.role ?_
      · rw [hdeclares, hshare]
        rfl
      · rintro _ ⟨⟩ mac hmac
        exact .inl ⟨entry, hentry, hmac⟩
      · rw [hdeclares, hn'.has]
        simp [Input.rfId]
    simp only [updateAdvertEntryDataItems, updateEntry, wp_bind, wp_modify, onNode]
    exact wp_zoom.2 ((Node.leaves_destinationUpdate.wp a.node).mono (fun _ n' hn' => hupdate n' hn')
      fun _ n' hn' => hupdate n' hn')

/-- With both parameters zero, the timer does nothing. -/
theorem step_purge_zero : step a ⟨s, .purge 0 0⟩ = a := by
  have hentry : ∀ (a : DestAdvert) (key : DlepMac), purgeEntry s 0 0 key a = .ok () a := by
    intro a key
    unfold purgeEntry
    simp only [bind_run, show (get : DestAdvertM DestAdvert) a = .ok a a from rfl]
    cases a.destAdvertDb[key]? with
    | none => rfl
    | some entry =>
      have hheld : entry.isHeld 0 s.now = false := by simp [DestAdvertDBEntry.isHeld]
      have hexpired : entry.isExpired 0 s.now = false := by simp [DestAdvertDBEntry.isExpired]
      simp only [hheld, hexpired]
      rfl
  have hloop : ∀ keys : List DlepMac, keys.forM (purgeEntry s 0 0) a = .ok () a := by
    intro keys
    induction keys with
    | nil => rfl
    | cons key keys ih =>
      rw [forM_cons_run, hentry]
      exact ih
  exact (wp_after (P := fun a' => a' = a)).1 (wp_of_ok (hloop _) rfl)

/-- The timer of the table is switched off. -/
def Input.NoPurge : Input → Prop
  | .purge holdInterval expireCount => holdInterval = 0 ∧ expireCount = 0
  | _ => True

/-- Every step but those of the timer. -/
theorem stepsTo_step {st : Step} (hgood : Good a) (hnames : a.NamesRf st.input)
    (hpurge : st.input.NoPurge) (htell : Tellable a st) : StepsTo a st.input (step a st) := by
  obtain ⟨s, input⟩ := st
  cases input with
  | connect peerId => exact stepsTo_onNode hgood rfl Node.leaves_handleAsyncMakePeer
  | peer i occasion => exact stepsTo_onNode hgood rfl Node.leaves_peer
  | cleanup => exact stepsTo_onNode hgood rfl Node.leaves_cleanupExPeers
  | advertisement info =>
    refine wp_after.1 ?_
    exact (stepsTo_handleMessage hgood htell).mono (fun _ _ h => h) fun _ _ h => h.elim
  | destinationUp rfId items =>
    rw [step, Step.call, after_bind_pure]
    refine wp_after.1 ?_
    exact (stepsTo_destinationUp hgood htell).mono (fun _ _ h => h) fun _ _ h => h.elim
  | destinationUpdate rfId items =>
    rw [step, Step.call, after_bind_pure]
    exact stepsTo_destinationUpdate hgood
  | destinationDown rfId items =>
    rw [step, Step.call, after_bind_pure]
    exact stepsTo_destinationDown hgood hnames htell
  | purge holdInterval expireCount =>
    obtain ⟨rfl, rfl⟩ := hpurge
    rw [step_purge_zero]
    exact .leaves hgood rfl (Std.Refl.refl a.node)

/-- Starting from empty tables, with the timer switched off: the node has exactly the destinations
of the remote modems that are up, all along a run, exactly if no step withdraws a destination that
another remote modem which is up has, too. -/
theorem declared_iff_withdrawsOwn {steps : List Step} (hsound : a.node.Sound)
    (henabled : a.node.destAdvertEnabled = true) (hdb : a.destAdvertDb = ∅) (hhas : a.node.has = ∅)
    (haddressed : ∀ st ∈ steps, Addressed isRf st.input) (hpurge : ∀ st ∈ steps, st.input.NoPurge)
    (htell : Along step Tellable a steps) :
    (∀ pre, pre <+: steps → Declared (run step a pre)) ↔ Along step WithdrawsOwn a steps := by
  have hstart : Good a ∧ Foreign isRf a := ⟨⟨hsound, henabled⟩, foreign_of_empty hdb hhas⟩
  refine forall_prefix_iff_along (I := fun a => Good a ∧ Foreign isRf a)
    (fun a st hinv hdeclared hst => ?_)
    ((htell.and_inputs haddressed).and_inputs hpurge) hstart (declared_of_empty hdb hhas)
  have hstep := stepsTo_step hinv.1 (hinv.2.namesRf hst.1.2) hst.2 hst.1.1
  exact ⟨⟨hstep.good, hstep.foreign hinv.2 hst.1.2⟩, hstep.replaces.declared_iff hdeclared⟩

end

attribute [local instance] plainText

/-- A modem with one router in session, that listens to the advertisements. -/
def advertModem : DestAdvert where
  node :=
    { cfg := rfc8175
      modem := true
      destAdvertEnabled := true
      localPdp := { peerId := str "local" }
      objects := [{ Peer.barePeer with pstate := .inSession }]
      peers := (∅ : ExtTreeMap PeerId Nat).insert (str "peer") 0 }

/-- Steps of a client that takes everything. -/
def advertSteps (inputs : List Input) : List Step :=
  inputs.map fun input => ⟨Peer.bareSurroundings, input⟩

/-- An advertisement of one destination. -/
def advertisementOf (rfId : DlepMac) : Input :=
  .advertisement
    { reportInterval := 10, rfId
      destinations := (∅ : ExtTreeSet DlepMac).insert [2, 0, 0, 0, 0, 1] }

/-- The sample modem is sound. -/
theorem sound_advertModem : advertModem.node.Sound := by
  have hqueues : Peer.QueueInv Peer.barePeer :=
    @Peer.queueInv_of_create _ rfc8175 (str "peer") 0 _ rfl
  exact Node.sound_of_one rfl rfl (hqueues.append [] hqueues.ok (by simp) (by simp) rfl le_rfl)

/-- The sample modem can add the router and tell its peer of it. -/
theorem canAdd_advertModem :
    CanAdd Peer.bareSurroundings advertModem.node [] [2, 0, 0, 0, 0, 1] := by
  refine ⟨⟨_, rfl⟩, fun i hi p hp => ⟨fun _ => ?_, fun howed => ?_⟩⟩
  · have hrequest : (Peer.upRequestOf (advertModem.node.view i) Peer.bareSurroundings
        [2, 0, 0, 0, 0, 1] []).isOk = true := by
      have hsame : Peer.upRequestOf (advertModem.node.view i) Peer.bareSurroundings
          [2, 0, 0, 0, 0, 1] [] =
          Peer.upRequestOf (Peer.bareView true) Peer.bareSurroundings [2, 0, 0, 0, 0, 1] [] :=
        Peer.upRequestOf_congr rfl rfl
      rw [hsame]
      decide +kernel
    cases hrp : Peer.upRequestOf (advertModem.node.view i) Peer.bareSurroundings
        [2, 0, 0, 0, 0, 1] [] with
    | ok rp => exact ⟨rp, rfl⟩
    | error e =>
      rw [hrp] at hrequest
      cases hrequest
  · obtain rfl := List.mem_singleton.1 (List.mem_of_getElem? hp)
    exact absurd rfl howed

/-- The modem with a placeholder. -/
def placeholderModem : DestAdvert :=
  { advertModem with
    destAdvertDb := (∅ : ExtTreeMap DlepMac DestAdvertDBEntry).insert [1]
      { timestamp := 0, up := true, placeholder := true, info := {}, dataItems := [] } }

/-- What the first step of the sample run leaves behind. -/
theorem step_destinationUp_advertModem :
    step advertModem ⟨Peer.bareSurroundings, .destinationUp [1] []⟩ = placeholderModem := rfl

/-- A placeholder stands for nothing. -/
theorem share_placeholderModem (rfId : DlepMac) : placeholderModem.share rfId = ∅ := by
  refine Set.eq_empty_of_forall_notMem fun mac hmac => ?_
  simp only [share, placeholderModem, ExtTreeMap.getElem?_insert, Std.compare_eq_iff_eq] at hmac
  split at hmac
  · have hmem : mac ∈ (∅ : ExtTreeSet DlepMac) := hmac.2
    simp at hmem
  · simp at hmac

/-- The sample modem can tell its peer of what is advertised. -/
theorem tellable_placeholderModem :
    Tellable placeholderModem ⟨Peer.bareSurroundings, advertisementOf [1]⟩ := by
  intro entry hentry _
  obtain rfl := Option.some.inj ((ExtTreeMap.getElem?_insert_self).symm.trans hentry)
  refine ⟨fun mac hmac _ _ => ?_, fun mac (hmac : mac ∈ (∅ : ExtTreeSet DlepMac)) => ?_⟩
  · obtain rfl : [2, 0, 0, 0, 0, 1] = mac := by simpa using hmac
    exact canAdd_advertModem
  · simp at hmac

/-- The sample modem has nothing to tell for a remote modem that it has not heard of. -/
theorem tellable_advertModem :
    Tellable advertModem ⟨Peer.bareSurroundings, .destinationUp [1] []⟩ :=
  fun entry (hentry : none = some entry) => absurd hentry (by simp)

/-- A remote modem comes up, and then advertises its destination. -/
theorem declared_iff_withdrawsOwn_advertModem :
    Declared (run step advertModem (advertSteps [.destinationUp [1] [], advertisementOf [1]])) := by
  have hnone : ∀ (a : DestAdvert) (st : Step), a.share st.input.rfId = ∅ → WithdrawsOwn a st := by
    intro a st hshare
    simp [WithdrawsOwn, hshare]
  refine (@declared_iff_withdrawsOwn plainText (fun mac => mac ≠ [2, 0, 0, 0, 0, 1]) advertModem
    (advertSteps [.destinationUp [1] [], advertisementOf [1]]) sound_advertModem rfl rfl ?_ ?_ ?_
    ⟨tellable_advertModem, tellable_placeholderModem, trivial⟩).2 ?_ _ List.prefix_rfl
  · exact Set.eq_empty_of_forall_notMem fun mac hmac => by cases hmac
  · simp [advertSteps, advertisementOf, Addressed]
  · simp [advertSteps, advertisementOf, Input.NoPurge]
  · exact ⟨hnone _ _ rfl, hnone _ _ (share_placeholderModem [1]), trivial⟩

/-- Two remote modems have the same destination, both come up, and one goes down. -/
def sharedDestination : List Step := advertSteps
  [advertisementOf [1], advertisementOf [3], .destinationUp [1] [], .destinationUp [3] [],
    .destinationDown [1] []]

/-- The other one still stands for the destination, but the node has lost it. -/
theorem sharedDestination_lost : ¬ Declared (run step advertModem sharedDestination) := by
  obtain ⟨hup, hlost⟩ :
      ((run step advertModem sharedDestination).destAdvertDb[([3] : DlepMac)]?).any
        (fun entry => entry.up && entry.info.destinations.contains [2, 0, 0, 0, 0, 1]) = true ∧
      (run step advertModem sharedDestination).node.localPdp.validDestination
        [2, 0, 0, 0, 0, 1] = false := by decide +kernel
  obtain ⟨entry, hentry, hboth⟩ := (Option.any_eq_true _ _).1 hup
  obtain ⟨hisUp, hmem⟩ := Bool.and_eq_true_iff.1 hboth
  intro hdeclared
  have hhas : [2, 0, 0, 0, 0, 1] ∈ (run step advertModem sharedDestination).node.has := by
    rw [hdeclared]
    refine ⟨[3], ?_⟩
    rw [share, hentry]
    exact ⟨hisUp, ExtTreeSet.contains_iff_mem.1 hmem⟩
  exact absurd hhas (by simp [Node.has, hlost])

end DestAdvert

end Dlep
