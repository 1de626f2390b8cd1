import Dlep.ConfigLoader.Responses
import Dlep.ProtocolMessage.Checked

/-!
# References from several modules

The references of a signal are those of all elements about it, in the order of the file; two that
name one data item are not merged. The check takes the number of a data item out of the counts at
the first reference that names it, and a later one finds zero. So a signal can be satisfied
exactly as long as no later reference asks for at least one, and references that do not ask for
one can be added to any.
-/

namespace Dlep

open Std

/-! ## The check -/

/-- Does the reference do without the data item? -/
def Occurs.isOptional : Occurs → Bool
  | .zeroOrOne | .zeroOrMore => true
  | .one | .oneOrMore => false

/-- A reference to a data item that an earlier one names does without it. -/
def RepeatsOptional (refs : List SubDataItem) : Prop :=
  refs.Pairwise fun earlier later => earlier.id = later.id → later.occurs.isOptional = true

section

variable {cfg cfg' : ProtocolConfig} {items : DataItems} {refs added : List SubDataItem}
  {parent : Option DataItemInfo}

/-- A reference accepts that its data item is missing exactly if it is optional. -/
theorem checkOccurs_zero {ref : SubDataItem} :
    checkOccurs ref 0 = [] ↔ ref.occurs.isOptional = true := by
  have h := @checkOccurs_eq_nil ref 0
  rw [show UInt32.ofNat 0 = 0 from rfl] at h
  rw [h]
  cases ref.occurs <;> simp [Occurs.Allows, Occurs.isOptional, Reading.machine]

/-- One data item is always enough. -/
theorem checkOccurs_one {ref : SubDataItem} : checkOccurs ref 1 = [] := by
  have h := @checkOccurs_eq_nil ref 1
  rw [show UInt32.ofNat 1 = 1 from rfl] at h
  rw [h]
  cases ref.occurs <;> simp [Occurs.Allows, Reading.machine]

/-- The references have nothing to object exactly if the first ones of each id accept the counts,
and every repeated one accepts 0: the count is used up by then. -/
theorem checkReferences_eq_nil_iff_optional {counts : ExtTreeMap DataItemIdType UInt32} :
    (checkReferences refs counts).1 = [] ↔
      (∀ ref ∈ firstReferences refs, checkOccurs ref (counts[ref.id]?.getD 0) = []) ∧
        RepeatsOptional refs := by
  simp only [checkReferences_eq_nil_iff_pairwise, checkOccurs_zero, RepeatsOptional]

/-- One data item for each id that is asked for. -/
def requiredItems (refs : List SubDataItem) : DataItems :=
  ((refs.filter fun ref => !ref.occurs.isOptional).map SubDataItem.id).dedup.map fun id =>
    .mk id .blank

/-- Of each id, `requiredItems` has one data item if some reference requires it, and none
otherwise. -/
theorem countId_requiredItems (id : DataItemIdType) : countId (requiredItems refs) id =
    if ∃ ref ∈ refs, ref.occurs.isOptional = false ∧ ref.id = id then 1 else 0 := by
  have hcount : countId (requiredItems refs) id =
      ((refs.filter fun ref => !ref.occurs.isOptional).map SubDataItem.id).dedup.count id := by
    rw [countId, requiredItems, List.countP_map, List.count]
    rfl
  have hmem : id ∈ (refs.filter fun ref => !ref.occurs.isOptional).map SubDataItem.id ↔
      ∃ ref ∈ refs, ref.occurs.isOptional = false ∧ ref.id = id := by
    simp [and_assoc]
  rw [hcount, List.count_dedup]
  simp only [hmem]

/-- Some list of data items is accepted exactly if later references are optional. -/
theorem exists_validateOccurrences_iff :
    (∃ items, validateOccurrences cfg items refs parent = .ok []) ↔ RepeatsOptional refs := by
  constructor
  · rintro ⟨items, hitems⟩
    exact (checkReferences_eq_nil_iff_optional.1 (validateOccurrences_eq_nil_iff.1 hitems).1).2
  · intro hoptional
    refine ⟨requiredItems refs, validateOccurrences_eq_nil_iff.2 ⟨?_, fun di hdi => ?_⟩⟩
    · refine checkReferences_eq_nil_iff_optional.2 ⟨fun ref href => ?_, hoptional⟩
      rw [getD_countOccurrences, countId_requiredItems]
      split
      · exact checkOccurs_one
      · next hnone =>
        refine checkOccurs_zero.2 (Bool.not_eq_false _ ▸ fun hrequired => hnone ?_)
        exact ⟨ref, (List.mem_filter.1 href).1, hrequired, rfl⟩
    · obtain ⟨id, hid, rfl⟩ := List.mem_map.1 hdi
      obtain ⟨ref, href, rfl⟩ := List.mem_map.1 (List.mem_dedup.1 hid)
      exact List.mem_map_of_mem (List.mem_filter.1 href).1

/-- A first reference of the longer list is one of the shorter list, or names a data item that the
shorter list does not name. -/
theorem firstReferences_append {ref : SubDataItem} (h : ref ∈ firstReferences (refs ++ added)) :
    ref ∈ firstReferences refs ∨ ref ∈ added ∧ ref.id ∉ refs.map SubDataItem.id := by
  obtain ⟨hmem, hfind⟩ := List.mem_filter.1 h
  rw [decide_eq_true_eq, List.find?_append, Option.or_eq_some_iff] at hfind
  rcases hfind with hfirst | ⟨hnone, hlater⟩
  · exact .inl (List.mem_filter.2 ⟨List.mem_of_find?_eq_some hfirst, by simpa using hfirst⟩)
  · refine .inr ⟨List.mem_of_find?_eq_some hlater, fun hin => ?_⟩
    obtain ⟨other, hother, hid⟩ := List.mem_map.1 hin
    simpa [hid] using List.find?_eq_none.1 hnone other hother

/-- What was accepted is accepted with more optional references. -/
theorem validateOccurrences_append (hitems : validateOccurrences cfg items refs parent = .ok [])
    (hadded : ∀ ref ∈ added, ref.occurs.isOptional = true) :
    validateOccurrences cfg' items (refs ++ added) parent = .ok [] := by
  obtain ⟨hcheck, hnamed⟩ := validateOccurrences_eq_nil_iff.1 hitems
  obtain ⟨hfirst, hoptional⟩ := checkReferences_eq_nil_iff_optional.1 hcheck
  refine validateOccurrences_eq_nil_iff.2 ⟨?_, fun di hdi => ?_⟩
  · refine checkReferences_eq_nil_iff_optional.2 ⟨fun ref href => ?_, ?_⟩
    · rcases firstReferences_append href with hold | ⟨hnew, hid⟩
      · exact hfirst ref hold
      · -- no data item has the id
        have hzero : countId items ref.id = 0 := by
          rw [countId, List.countP_eq_zero]
          intro di hdi hsame
          exact hid (of_decide_eq_true hsame ▸ hnamed di hdi)
        rw [getD_countOccurrences, hzero]
        exact checkOccurs_zero.2 (hadded ref hnew)
    · exact List.pairwise_append.2
        ⟨hoptional, List.pairwise_of_forall_mem_list fun _ _ later hlater _ =>
        hadded later hlater, fun _ _ later hlater _ => hadded later hlater⟩
  · rw [List.map_append]
    exact List.mem_append_left _ (hnamed di hdi)

end

/-! ## The references of a signal in a file -/

namespace SignalElements

variable (els : List SignalElement)

/-- The id that the definitions among the elements give a name, as the name of a signal or of a
message. -/
def idOf (isMessage : Bool) (name : String) : Option SignalIdType :=
  (els.find? fun el => el.id.isSome && el.isMessage == isMessage && el.name == name).map
    SignalElement.extractedId

/-- What the next element is about: it defines a signal or a message, or refers to one by its
name, and then to the signal if there are both. -/
def target (el : SignalElement) : Option (Bool × SignalIdType) :=
  match el.id with
  | some n => some (el.isMessage, extractId n)
  | none => ((idOf els false el.name).map (Prod.mk false)).or
      ((idOf els true el.name).map (Prod.mk true))

/-- The references in further elements about a signal or message. -/
def referencesAfter (key : Bool × SignalIdType) : List SignalElement → List SignalElement →
    List DataItemForSignalElement
  | _, [] => []
  | before, el :: els =>
    (if target before el = some key then el.dataItems else []) ++
      referencesAfter key (before ++ [el]) els

/-- The references in all elements about a signal or message. -/
def references (key : Bool × SignalIdType) : List DataItemForSignalElement :=
  referencesAfter key [] els

/-- No element asks for a data item that an earlier reference of the signal names already. -/
def RequiredFirst : Prop :=
  ∀ d ∈ els, d.id.isSome = true →
    (references els (d.isMessage, d.extractedId)).Pairwise fun earlier later =>
      earlier.name = later.name → later.occurs.isOptional = true

instance : Decidable (RequiredFirst els) := by
  unfold RequiredFirst
  infer_instance

variable {els} {key : Bool × SignalIdType} {el : SignalElement}

/-- One more element adds its references to the signal it is about. -/
theorem referencesAfter_concat {before : List SignalElement} :
    referencesAfter key before (els ++ [el]) = referencesAfter key before els ++
      if target (before ++ els) el = some key then el.dataItems else [] := by
  induction els generalizing before with
  | nil => simp [referencesAfter]
  | cons first els ih =>
    rw [List.cons_append, referencesAfter, referencesAfter, ih, List.append_assoc,
      List.append_assoc, List.singleton_append]

/-- One more element adds its references to the signal it is about, after those of the elements
before it. -/
theorem references_concat : references (els ++ [el]) key =
    references els key ++ if target els el = some key then el.dataItems else [] :=
  referencesAfter_concat

/-- One more element defines an id for its name, unless there is one. -/
theorem idOf_concat {isMessage : Bool} {name : String} : idOf (els ++ [el]) isMessage name =
    (idOf els isMessage name).or
      (if el.id.isSome ∧ el.isMessage = isMessage ∧
        el.name = name then some el.extractedId else none) := by
  rw [idOf, List.find?_append, Option.map_or, idOf]
  congr 1
  by_cases hel : el.id.isSome ∧ el.isMessage = isMessage ∧ el.name = name
  · rw [if_pos hel]
    obtain ⟨hid, hkind, hname⟩ := hel
    simp [hid, hkind, hname]
  · rw [if_neg hel]
    simp only [Option.map_eq_none_iff, List.find?_eq_none, List.mem_singleton, forall_eq]
    simpa [and_assoc] using hel

end SignalElements

/-- A reference without its id. -/
def SubDataItem.toReference (ref : SubDataItem) : DataItemForSignalElement :=
  { name := ref.name, occurs := ref.occurs }

open SignalElements

namespace ConfigTables

variable {t t' : ConfigTables} {els : List SignalElement} {el : SignalElement}

/-- References keep their names and occurrences when their ids are filled in. -/
theorem toReference_of_extract {parentName : String} {refs : List SubDataItem}
    (h : (el.dataItems.mapM fun ref => t.extractModuleDataItemRef parentName ref.toSubDataItem) =
      .ok refs) : refs.map SubDataItem.toReference = el.dataItems := by
  refine Folds.map_eq_of_mapM (fun ref sdi hsdi => ?_) h
  unfold extractModuleDataItemRef at hsdi
  split at hsdi
  · cases hsdi
  · dsimp only at hsdi
    split at hsdi
    · cases hsdi
    · cases hsdi
      rfl

/-- The references that are stored for a signal or message. -/
def stored (t : ConfigTables) (key : Bool × SignalIdType) : List SubDataItem :=
  ((t.idInfoMap key.1)[key.2]?).elim [] SignalInfo.dataItems

/-- The tables hold what the elements that were read say of signals and their references. -/
structure Merges (els : List SignalElement) (t : ConfigTables) : Prop where
  right : ∀ (isMessage : Bool) (name : String), (t.idNameMap isMessage).right name =
    idOf els isMessage name
  defined : ∀ (isMessage : Bool) (id : SignalIdType) (info : SignalInfo),
    (t.idInfoMap isMessage)[id]? = some info →
      ∃ d ∈ els, d.id.isSome = true ∧ d.isMessage = isMessage ∧ d.extractedId = id
  entered : ∀ d ∈ els, d.id.isSome = true →
    ∃ info, (t.idInfoMap d.isMessage)[d.extractedId]? = some info
  references : ∀ key, (t.stored key).map SubDataItem.toReference = references els key

/-- Before the first element the tables hold no signals. -/
theorem merges_empty : Merges [] empty where
  right isMessage name := by cases isMessage <;> simp [idNameMap, empty, idOf]
  defined isMessage id info h := by cases isMessage <;> simp [idInfoMap, empty] at h
  entered d hd := nomatch hd
  references key := by
    obtain ⟨isMessage, id⟩ := key
    cases isMessage <;> simp [stored, idInfoMap, empty, SignalElements.references, referencesAfter]

/-- Data items and status codes do not matter for what is stored about signals. -/
theorem Merges.sameSignals (hsame : SameSignals t t') (h : Merges els t) : Merges els t' where
  right isMessage name := by rw [hsame.idNameMap, h.right]
  defined isMessage id info hinfo := h.defined isMessage id info (by rwa [← hsame.idInfoMap])
  entered d hd hid := by
    rw [hsame.idInfoMap]
    exact h.entered d hd hid
  references key := by
    rw [stored, hsame.idInfoMap]
    exact h.references key

/-- An element with an id is entered under it, in the tables of its own kind. -/
theorem Entry.extractedId {isMessage : Bool} {id : SignalIdType} {info : SignalInfo}
    (hentry : t.Entry el isMessage id info) (hid : el.id.isSome = true) :
    el.isMessage = isMessage ∧ el.extractedId = id := by
  obtain ⟨n, hn⟩ := Option.isSome_iff_exists.1 hid
  obtain ⟨rfl, rfl, -⟩ := hentry.defined n hn
  simp [SignalElement.extractedId, hn]

/-- The next element is about what the tables make of it. -/
theorem Merges.target (h : Merges els t) {isMessage : Bool} {id : SignalIdType} {info : SignalInfo}
    (hentry : t.Entry el isMessage id info) : target els el = some (isMessage, id) := by
  cases hid : el.id with
  | some n =>
    obtain ⟨rfl, rfl, -⟩ := hentry.defined n hid
    simp [SignalElements.target, hid]
  | none =>
    have hget := hentry.referred hid
    have hsignal := h.right false el.name
    have hmessage := h.right true el.name
    simp only [idNameMap, Bool.false_eq_true, if_false, if_true] at hsignal hmessage
    simp only [getSignalId, hsignal, hmessage] at hget
    simp only [SignalElements.target, hid]
    cases hfirst : idOf els false el.name with
    | some i =>
      rw [hfirst] at hget
      obtain ⟨rfl, hkind⟩ := Prod.mk.inj (Except.ok.inj hget)
      cases isMessage with
      | false => rfl
      | true => cases hkind
    | none =>
      rw [hfirst] at hget
      cases hsecond : idOf els true el.name with
      | none =>
        rw [hsecond] at hget
        cases hget
      | some i =>
        rw [hsecond] at hget
        obtain ⟨rfl, hkind⟩ := Prod.mk.inj (Except.ok.inj hget)
        cases isMessage with
        | false => cases hkind
        | true => rfl

/-- Recording a signal replaces its references and those of no other. -/
theorem stored_recordSignal {isMessage : Bool} {id : SignalIdType} {info : SignalInfo}
    (key : Bool × SignalIdType) : (t.recordSignal isMessage id info).stored key =
      if (isMessage, id) = key then info.dataItems else t.stored key := by
  rw [stored, idInfoMap_recordSignal]
  by_cases hkey : (isMessage, id) = key
  · rw [if_pos hkey, if_pos (by simp [← hkey])]
    rfl
  · rw [if_neg hkey, if_neg fun h => hkey (Prod.ext h.1.symm h.2.symm)]
    rfl

/-- An element about a signal adds its references to those of the signal. -/
theorem Merges.record (h : Merges els t) {isMessage : Bool} {id : SignalIdType} {info : SignalInfo}
    {refs : List SubDataItem} (hentry : t.Entry el isMessage id info)
    (hrefs : refs.map SubDataItem.toReference = el.dataItems)
    (hmerged : info.dataItems = t.stored (isMessage, id) ++ refs) :
    Merges (els ++ [el]) (t.recordSignal isMessage id info) := by
  have htarget := h.target hentry
  constructor
  case right =>
    intro b name
    rw [right_recordSignal hentry.fits, idOf_concat, h.right, hentry.name]
    by_cases hsame : b = isMessage ∧ name = el.name
    · obtain ⟨rfl, rfl⟩ := hsame
      rw [if_pos ⟨rfl, rfl⟩]
      cases hold : idOf els b el.name with
      | some i =>
        have hid := hentry.fits.2 i
        rw [hentry.name, h.right] at hid
        rw [hid hold, Option.some_or]
      | none =>
        have hdefines : el.id.isSome = true := by
          by_contra hnone
          have hid : el.id = none := by simpa using hnone
          have hright := getSignalId_eq_ok (hentry.referred hid)
          rw [Bool.not_not, h.right, hold] at hright
          cases hright
        obtain ⟨hkind, hid⟩ := hentry.extractedId hdefines
        rw [Option.none_or, if_pos ⟨hdefines, hkind, rfl⟩, hid]
    · rw [if_neg hsame, if_neg, Option.or_none]
      rintro ⟨hdefines, hkind, hname⟩
      exact hsame ⟨hkind.symm.trans (hentry.extractedId hdefines).1, hname.symm⟩
  case defined =>
    intro b i info' hinfo
    rw [idInfoMap_recordSignal] at hinfo
    split at hinfo
    · next hkey =>
      obtain ⟨rfl, rfl⟩ := hkey
      rcases hentry.first_or_modified with ⟨-, hdefines, -⟩ | ⟨existing, _, hexisting, -⟩
      · exact ⟨el, List.mem_append_right _ (List.mem_singleton_self el), hdefines,
          hentry.extractedId hdefines⟩
      · obtain ⟨d, hd, hdefined⟩ := h.defined b i existing hexisting
        exact ⟨d, List.mem_append_left _ hd, hdefined⟩
    · obtain ⟨d, hd, hdefined⟩ := h.defined b i info' hinfo
      exact ⟨d, List.mem_append_left _ hd, hdefined⟩
  case entered =>
    intro d hd hdefines
    rw [idInfoMap_recordSignal]
    split
    · exact ⟨info, rfl⟩
    · next hkey =>
      rcases List.mem_append.1 hd with hold | hnew
      · exact h.entered d hold hdefines
      · obtain rfl := List.mem_singleton.1 hnew
        exact absurd (hentry.extractedId hdefines) hkey
  case references =>
    intro key
    rw [stored_recordSignal, references_concat, htarget, ← h.references key]
    by_cases hkey : (isMessage, id) = key
    · subst hkey
      rw [if_pos rfl, if_pos rfl, hmerged, List.map_append, hrefs]
    · rw [if_neg hkey, if_neg fun hsame => hkey (Option.some.inj hsame), List.append_nil]

/-- One more element adds its references where they belong, at the end. -/
theorem Merges.extractModuleSignal (h : Merges els t) (ht : t.Consistent)
    (hstep : t.extractModuleSignal el = .ok t') : Merges (els ++ [el]) t' := by
  obtain ⟨isMessage, id, info, refs, hentry, rfl, hextract, hmerged⟩ :=
    ht.extractModuleSignal_merged hstep
  exact h.record hentry (toReference_of_extract hextract) hmerged

/-- Every signal keeps its references, and gets only optional ones after them. -/
def Extends (t t' : ConfigTables) : Prop :=
  ∀ (isMessage : Bool) (id : SignalIdType) (info : SignalInfo),
    (t.idInfoMap isMessage)[id]? = some info → ∃ info' added,
      (t'.idInfoMap isMessage)[id]? = some info' ∧ info'.dataItems = info.dataItems ++ added ∧
        ∀ ref ∈ added, ref.occurs.isOptional = true

/-- Tables that stay as they are extend themselves. -/
theorem Extends.refl (t : ConfigTables) : Extends t t :=
  fun _ _ info hinfo => ⟨info, [], hinfo, (List.append_nil _).symm, by simp⟩

/-- Optional references added behind those of a signal extend the tables. -/
theorem Extends.record {s : ConfigTables} (h : Extends s t) {isMessage : Bool} {id : SignalIdType}
    {info : SignalInfo} {refs : List SubDataItem}
    (hrefs : ∀ ref ∈ refs, ref.occurs.isOptional = true)
    (hmerged : info.dataItems = t.stored (isMessage, id) ++ refs) :
    Extends s (t.recordSignal isMessage id info) := by
  intro b i before hbefore
  obtain ⟨info', added, hinfo', hsplit, hadded⟩ := h b i before hbefore
  rw [idInfoMap_recordSignal]
  by_cases hkey : b = isMessage ∧ i = id
  · obtain ⟨rfl, rfl⟩ := hkey
    refine ⟨info, added ++ refs, by rw [if_pos ⟨rfl, rfl⟩], ?_, fun ref href => ?_⟩
    · rw [hmerged, stored, hinfo', Option.elim_some, hsplit, List.append_assoc]
    · exact (List.mem_append.1 href).elim (hadded ref) (hrefs ref)
  · exact ⟨info', added, by rw [if_neg hkey, hinfo'], hsplit, hadded⟩

/-- By induction over the elements of the modules: where all references are optional, the tables
are extended. -/
theorem extends_of_extract {modules : List ModuleElement} (ht : t.Consistent)
    (h : modules.foldlM extractModule t = .ok t')
    (hoptional : ∀ el ∈ modules.flatMap ModuleElement.signals, ∀ ref ∈ el.dataItems,
      ref.occurs.isOptional = true) : Extends t t' := by
  have hbase : (∀ el ∈ ([] : List SignalElement), ∀ ref ∈ el.dataItems,
    ref.occurs.isOptional = true) →
      Extends t t := fun _ => .refl t
  have hrun := ht.foldlM_extractModule
    (I := fun els s => (∀ el ∈ els, ∀ ref ∈ el.dataItems, ref.occurs.isOptional = true) →
      Extends t s)
    ?_ ?_ hbase h
  · exact hrun.2 hoptional
  · intro els s s' _ hsame hextends hall b i info hinfo
    rw [hsame.idInfoMap]
    exact hextends hall b i info hinfo
  · intro els s el s' hs hstep hextends hall
    obtain ⟨isMessage, id, info, refs, hentry, rfl, hextract, hmerged⟩ :=
      hs.extractModuleSignal_merged hstep
    refine (hextends fun el hel => hall el (List.mem_append_left _ hel)).record
      (fun ref href => ?_) hmerged
    refine hall el (List.mem_append_right _ (List.mem_singleton_self el)) ref.toReference ?_
    rw [← toReference_of_extract hextract]
    exact List.mem_map_of_mem href

/-- References of a signal with one id are to one name. -/
theorem Consistent.id_eq_iff (ht : t.Consistent) {key : Bool × SignalIdType}
    {ref other : SubDataItem} (href : ref ∈ t.stored key) (hother : other ∈ t.stored key) :
    ref.id = other.id ↔ ref.name = other.name := by
  cases hinfo : (t.idInfoMap key.1)[key.2]? with
  | none => simp [stored, hinfo] at href
  | some info =>
    simp only [stored, hinfo, Option.elim_some] at href hother
    have hname := ht.reference_name key.1 key.2 info hinfo ref href
    have hname' := ht.reference_name key.1 key.2 info hinfo other hother
    constructor
    · intro hid
      rw [hid] at hname
      exact Option.some.inj (hname.symm.trans hname')
    · intro hsame
      rw [hsame] at hname
      exact Option.some.inj ((t.dataItemMap.left_eq_some_iff_right.1 hname).symm.trans
        (t.dataItemMap.left_eq_some_iff_right.1 hname'))

/-- For one signal, what is stored repeats only optional references exactly if the elements do. -/
theorem Merges.repeatsOptional_iff (h : Merges els t) (ht : t.Consistent)
    (key : Bool × SignalIdType) :
    RepeatsOptional (t.stored key) ↔
      (SignalElements.references els key).Pairwise fun earlier later =>
      earlier.name = later.name → later.occurs.isOptional = true := by
  rw [← h.references key, List.pairwise_map, RepeatsOptional]
  refine List.Pairwise.iff_of_mem fun href hother => ?_
  rw [ht.id_eq_iff href hother]
  rfl

end ConfigTables

/-! ## Satisfiable signals -/

/-- What is stored about the signals, or about the messages. -/
def ProtocolConfig.idInfoMap (cfg : ProtocolConfig) (isMessage : Bool) :
    ExtTreeMap SignalIdType SignalInfo :=
  if isMessage then cfg.messageInfoMap else cfg.signalInfoMap

/-- Some list of data items is accepted for every signal and message. -/
def ProtocolConfig.Satisfiable (cfg : ProtocolConfig) : Prop :=
  ∀ (isMessage : Bool) (id : SignalIdType) (info : SignalInfo),
    (cfg.idInfoMap isMessage)[id]? = some info →
      ∃ items, validateOccurrences cfg items info.dataItems none = .ok []

namespace ConfigFile

open ConfigTables

/-- The file with one more module. -/
def withModule (file : ConfigFile) (el : ModuleElement) : ConfigFile :=
  { file with modules := file.modules ++ [el] }

/-- A further module all of whose references from signals are optional takes nothing back: what was
accepted for a signal is accepted with the module. -/
def TakesOptional (file : ConfigFile) (cfg : ProtocolConfig) : Prop :=
  ∀ (el : ModuleElement) (cfg' : ProtocolConfig), (file.withModule el).load = .ok cfg' →
    (∀ signal ∈ el.signals, ∀ ref ∈ signal.dataItems, ref.occurs.isOptional = true) →
      ∀ (isMessage : Bool) (id : SignalIdType) (info : SignalInfo),
        (cfg.idInfoMap isMessage)[id]? = some info →
          ∃ info', (cfg'.idInfoMap isMessage)[id]? = some info' ∧
            ∀ items, validateOccurrences cfg items info.dataItems none = .ok [] →
              validateOccurrences cfg' items info'.dataItems none = .ok []

variable {file : ConfigFile} {cfg : ProtocolConfig}

/-- Every file that loads takes a further module of optional references. -/
theorem takesOptional (h : file.load = .ok cfg) : file.TakesOptional cfg := by
  intro el cfg' hload hoptional isMessage id info hinfo
  obtain ⟨t, ht, hrun, rfl⟩ := load_eq_ok h
  obtain ⟨t', ht', hrun', rfl⟩ := load_eq_ok hload
  have hlast : [el].foldlM ConfigTables.extractModule t = .ok t' := by
    rw [extractProtocolConfig, withModule, List.foldlM_append] at hrun'
    rw [extractProtocolConfig] at hrun
    rwa [hrun] at hrun'
  have hextends := ConfigTables.extends_of_extract ht hlast (by simpa using hoptional)
  obtain ⟨info', added, hinfo', hsplit, hadded⟩ := hextends isMessage id info hinfo
  refine ⟨info', hinfo', fun items hitems => ?_⟩
  rw [hsplit]
  exact validateOccurrences_append hitems hadded

/-- In every file that can be loaded, each signal can be satisfied and optional references take
nothing back, if and only if no element asks for a data item that an earlier reference of the
signal names. -/
theorem load_satisfiable_iff (h : file.load = .ok cfg) :
    cfg.Satisfiable ∧ file.TakesOptional cfg ↔ RequiredFirst file.signalElements := by
  rw [and_iff_left (takesOptional h)]
  obtain ⟨t, ht, hrun, rfl⟩ := load_eq_ok h
  have hmerges : t.Merges file.signalElements :=
    (consistent_empty.foldlM_extractModule (I := Merges)
      (fun _ _ _ _ hsame hs => hs.sameSignals hsame)
      (fun _ _ _ _ hs hstep hmerges => hmerges.extractModuleSignal hs hstep) merges_empty hrun).2
  have hone : ∀ (isMessage : Bool) (id : SignalIdType) (info : SignalInfo),
      (t.idInfoMap isMessage)[id]? = some info →
        ((∃ items, validateOccurrences (t.toConfig ht file) items info.dataItems none = .ok []) ↔
          (references file.signalElements (isMessage, id)).Pairwise fun earlier later =>
            earlier.name = later.name → later.occurs.isOptional = true) := by
    intro isMessage id info hinfo
    have hstored : t.stored (isMessage, id) = info.dataItems := by simp [stored, hinfo]
    rw [exists_validateOccurrences_iff, ← hstored, hmerges.repeatsOptional_iff ht]
  constructor
  · intro hsatisfiable d hd hdefines
    obtain ⟨info, hinfo⟩ := hmerges.entered d hd hdefines
    exact (hone d.isMessage d.extractedId info hinfo).1
      (hsatisfiable d.isMessage d.extractedId info hinfo)
  · intro hrequired isMessage id info hinfo
    obtain ⟨d, hd, hdefines, rfl, rfl⟩ := hmerges.defined isMessage id info hinfo
    exact (hone d.isMessage d.extractedId info hinfo).2 (hrequired d hd hdefines)

/-- The hop count is an optional part of one message. -/
theorem load_satisfiable_hopCount :
    ∃ cfg, sessionUpdateHopCount.load = .ok cfg ∧ cfg.Satisfiable ∧
      sessionUpdateHopCount.TakesOptional cfg := by
  have hrun : (match sessionUpdateHopCount.load with
      | .ok _ => true
      | .error _ => false) = true := by
    decide +kernel
  split at hrun
  · next cfg hcfg => exact ⟨cfg, hcfg, (load_satisfiable_iff hcfg).2 (by decide +kernel)⟩
  · cases hrun

end ConfigFile

/-- An extension that refers once more to the status of a response, which the response requires. -/
def ModuleElement.statusAgain : ModuleElement where
  name := "extension"
  signals := [⟨"Session_Update_Response", none, none, none, none, [⟨"Status", .one⟩]⟩]

/-- The loader accepts the extension, and no list of data items is accepted for the response. -/
theorem ConfigFile.load_not_satisfiable :
    ∃ cfg info, (ofModules [.sessionUpdate, .statusAgain]).load = .ok cfg ∧
      cfg.messageInfoMap[(4 : UInt32)]? = some info ∧
      ∀ items, validateOccurrences cfg items info.dataItems none ≠ .ok [] := by
  have hrun : (match (ofModules [.sessionUpdate, .statusAgain]).load with
      | .ok cfg => (cfg.messageInfoMap[(4 : UInt32)]?).any fun info =>
        info.dataItems == [⟨"Status", 1, .one⟩, ⟨"Status", 1, .one⟩]
      | .error _ => false) = true := by
    decide +kernel
  split at hrun
  · next cfg hcfg =>
    obtain ⟨info, hinfo, hrefs⟩ := (Option.any_eq_true _ _).1 hrun
    refine ⟨cfg, info, hcfg, hinfo, fun items hitems => ?_⟩
    have hoptional := exists_validateOccurrences_iff.1 ⟨items, hitems⟩
    rw [RepeatsOptional, beq_iff_eq.1 hrefs] at hoptional
    simp [Occurs.isOptional] at hoptional
  · cases hrun

end Dlep
