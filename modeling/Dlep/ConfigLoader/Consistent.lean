import Dlep.ConfigLoader

/-!
# The loaded tables are consistent

A mapping is entered when the id of an element is read, and the information about it when the
element is complete; an element of a later module can change what an earlier one has stored. Every
extraction function keeps `ConfigTables.Consistent`, and none takes a mapping back
(`ConfigTables.Grows`), so that all definitions of a file are in its tables
(`ConfigTables.extractModule_keeps`). An element about a signal does one thing to the tables,
whether it defines the signal or refers to it: `ConfigTables.Entry` says what it enters, and
`ConfigTables.recordSignal` enters it.
-/

namespace Dlep

open Std

/-- A mapping is entered exactly if it does not conflict with one that is there. -/
theorem insertIdNameMapping_eq_ok {idNameMap m : Bimap UInt32 String} {id : UInt32}
    {name mapName : String} :
    insertIdNameMapping idNameMap id name mapName = .ok m ↔
      idNameMap.Fits id name ∧ m = idNameMap.insert id name := by
  have hleft : (idNameMap.left id).filter (· ≠ name) = none ↔
      ∀ n, idNameMap.left id = some n → n = name := by
    simp [Option.filter_eq_none_iff]
  have hright : (idNameMap.right name).filter (· ≠ id) = none ↔
      ∀ i, idNameMap.right name = some i → i = id := by
    simp [Option.filter_eq_none_iff]
  unfold insertIdNameMapping
  split
  · next other hother =>
    have hno : ¬ idNameMap.Fits id name := fun hfits => by
      rw [hleft.2 hfits.1] at hother
      cases hother
    simp [throwStd, hno]
  · next hl =>
    split
    · next other hother =>
      have hno : ¬ idNameMap.Fits id name := fun hfits => by
        rw [hright.2 hfits.2] at hother
        cases hother
      simp [throwStd, hno]
    · next hr =>
      have hfits : idNameMap.Fits id name := ⟨hleft.1 hl, hright.1 hr⟩
      simp [hfits, eq_comm]

namespace ConfigTables

variable {t t' : ConfigTables}

/-! ## The tables of a kind -/

section

variable (t) (b b' : Bool) (m : Bimap SignalIdType String)
  (infos : ExtTreeMap SignalIdType SignalInfo)

/-- Replacing the names of one kind leaves those of the other kind. -/
@[simp] theorem idNameMap_setIdNameMap :
    (t.setIdNameMap b m).idNameMap b' = if b' = b then m else t.idNameMap b' := by
  cases b <;> cases b' <;> rfl

/-- Replacing names leaves what is stored under the ids. -/
@[simp] theorem idInfoMap_setIdNameMap :
    (t.setIdNameMap b m).idInfoMap b' = t.idInfoMap b' := by
  cases b <;> rfl

/-- Replacing what is stored under the ids leaves the names. -/
@[simp] theorem idNameMap_setIdInfoMap :
    (t.setIdInfoMap b infos).idNameMap b' = t.idNameMap b' := by
  cases b <;> rfl

/-- Replacing what is stored for one kind leaves what is stored for the other. -/
@[simp] theorem idInfoMap_setIdInfoMap :
    (t.setIdInfoMap b infos).idInfoMap b' = if b' = b then infos else t.idInfoMap b' := by
  cases b <;> cases b' <;> rfl

/-- Writing names back as they are changes nothing. -/
@[simp] theorem setIdNameMap_idNameMap : t.setIdNameMap b (t.idNameMap b) = t := by
  cases b <;> rfl

/-- The tables of data items and status codes are the same. -/
structure SameRest (t t' : ConfigTables) : Prop where
  dataItemMap : t'.dataItemMap = t.dataItemMap
  dataItemInfoMap : t'.dataItemInfoMap = t.dataItemInfoMap
  statusCodeMap : t'.statusCodeMap = t.statusCodeMap
  statusCodeInfoMap : t'.statusCodeInfoMap = t.statusCodeInfoMap

/-- The tables of signals and messages are the same. -/
structure SameSignals (t t' : ConfigTables) : Prop where
  idNameMap : ∀ b, t'.idNameMap b = t.idNameMap b
  idInfoMap : ∀ b, t'.idInfoMap b = t.idInfoMap b

end

/-- Enter the mapping of a signal and the information about it. -/
def recordSignal (t : ConfigTables) (isMessage : Bool) (id : SignalIdType) (info : SignalInfo) :
    ConfigTables :=
  (t.setIdNameMap isMessage ((t.idNameMap isMessage).insert id info.name)).setIdInfoMap isMessage
    ((t.idInfoMap isMessage).insert id info)

section

variable {isMessage : Bool} {id : SignalIdType} {info : SignalInfo}

/-- A signal is entered without touching data items and status codes. -/
theorem sameRest_recordSignal : SameRest t (t.recordSignal isMessage id info) := by
  cases isMessage <;> exact ⟨rfl, rfl, rfl, rfl⟩

/-- What is stored for a signal is found under its kind and id, and nothing else has changed. -/
theorem idInfoMap_recordSignal (b : Bool) (i : SignalIdType) :
    ((t.recordSignal isMessage id info).idInfoMap b)[i]? =
      if b = isMessage ∧ i = id then some info else (t.idInfoMap b)[i]? := by
  rw [recordSignal, idInfoMap_setIdInfoMap]
  by_cases hb : b = isMessage
  · subst hb
    simp [ExtTreeMap.getElem?_insert, @eq_comm _ i id]
  · simp [hb]

/-- The name of a signal that is entered is found under its kind and id, every other as before. -/
theorem left_recordSignal (hfits : (t.idNameMap isMessage).Fits id info.name) (b : Bool)
    (i : SignalIdType) :
    ((t.recordSignal isMessage id info).idNameMap b).left i =
      if b = isMessage ∧ i = id then some info.name else (t.idNameMap b).left i := by
  rw [recordSignal, idNameMap_setIdInfoMap, idNameMap_setIdNameMap]
  by_cases hb : b = isMessage
  · subst hb
    simp [Bimap.left_insert hfits]
  · simp [hb]

/-- The id of a signal that is entered is found under its kind and name, every other as before. -/
theorem right_recordSignal (hfits : (t.idNameMap isMessage).Fits id info.name) (b : Bool)
    (name : String) :
    ((t.recordSignal isMessage id info).idNameMap b).right name =
      if b = isMessage ∧ name = info.name then some id else (t.idNameMap b).right name := by
  rw [recordSignal, idNameMap_setIdInfoMap, idNameMap_setIdNameMap]
  by_cases hb : b = isMessage
  · subst hb
    simp [Bimap.right_insert hfits]
  · simp [hb]

end

/-! ## Consistency -/

/-- What the loader leaves behind. -/
structure Consistent (t : ConfigTables) : Prop where
  signalInfo_name : ∀ isMessage id,
    ((t.idInfoMap isMessage)[id]?).map SignalInfo.name = (t.idNameMap isMessage).left id
  statusCodeInfo_name : ∀ id,
    (t.statusCodeInfoMap[id]?).map StatusCodeInfo.name = t.statusCodeMap.left id
  dataItemInfo_name : ∀ (name : String) (info : DataItemInfo),
    t.dataItemInfoMap[name]? = some info → info.name = name
  dataItemMap_id : ∀ id name, t.dataItemMap.left id = some name →
    ∃ info, t.dataItemInfoMap[name]? = some info ∧ info.id = id
  /-- A reference from a signal has the id of the data item it names. -/
  reference_name : ∀ (isMessage : Bool) (id : SignalIdType) (info : SignalInfo),
    (t.idInfoMap isMessage)[id]? = some info →
    ∀ ref ∈ info.dataItems, t.dataItemMap.left ref.id = some ref.name
  subDataItem_defined : ∀ (name : String) (info : DataItemInfo),
    t.dataItemInfoMap[name]? = some info →
    ∀ sdi ∈ info.subDataItems, sdi.name ∈ t.dataItemInfoMap

/-- Every mapping of the first tables is in the second. -/
structure Grows (t t' : ConfigTables) : Prop where
  idNameMap : ∀ (isMessage : Bool) (id : SignalIdType) (name : String),
    (t.idNameMap isMessage).left id = some name → (t'.idNameMap isMessage).left id = some name
  dataItemMap : ∀ id name, t.dataItemMap.left id = some name → t'.dataItemMap.left id = some name
  statusCodeMap : ∀ id name,
    t.statusCodeMap.left id = some name → t'.statusCodeMap.left id = some name

/-- The loader starts with tables that hold together. -/
theorem consistent_empty : Consistent empty where
  signalInfo_name isMessage id := by cases isMessage <;> simp [idInfoMap, idNameMap, empty]
  statusCodeInfo_name id := by simp [empty]
  dataItemInfo_name name info h := by simp [empty] at h
  dataItemMap_id id name h := by simp [empty] at h
  reference_name isMessage id info h := by cases isMessage <;> simp [idInfoMap, empty] at h
  subDataItem_defined name info h := by simp [empty] at h

/-- Tables that stay as they are keep their mappings. -/
theorem Grows.refl (t : ConfigTables) : Grows t t :=
  ⟨fun _ _ _ h => h, fun _ _ h => h, fun _ _ h => h⟩

/-- Mappings that are kept twice are kept. -/
theorem Grows.trans {t₁ t₂ t₃ : ConfigTables} (h : Grows t₁ t₂) (h' : Grows t₂ t₃) :
    Grows t₁ t₃ where
  idNameMap b id name hleft := h'.idNameMap b id name (h.idNameMap b id name hleft)
  dataItemMap id name hleft := h'.dataItemMap id name (h.dataItemMap id name hleft)
  statusCodeMap id name hleft := h'.statusCodeMap id name (h.statusCodeMap id name hleft)

/-! ## References -/

section

variable (hnames : ∀ (name : String) (info : DataItemInfo),
  t.dataItemInfoMap[name]? = some info → info.name = name)

include hnames

/-- A data item that is found by name has an entry under the name. -/
theorem mem_of_getDataItemInfoByName {name : String} {info : DataItemInfo}
    (h : t.getDataItemInfoByName name = .ok info) : name ∈ t.dataItemInfoMap := by
  unfold getDataItemInfoByName at h
  split at h
  · next found rest hscan =>
    have hmem : found ∈ (t.dataItemInfoMap.toList.map Prod.snd).filter
        (fun info => info.name = name) := by
      rw [hscan]
      exact List.mem_cons_self
    obtain ⟨hlisted, hname⟩ := List.mem_filter.1 hmem
    obtain ⟨⟨key, _⟩, hentry, rfl⟩ := List.mem_map.1 hlisted
    have hget := ExtTreeMap.mem_toList_iff_getElem?_eq_some.1 hentry
    have hkey : key = name := (hnames key _ hget).symm.trans (by simpa using hname)
    rw [← hkey, ExtTreeMap.mem_iff_isSome_getElem?, hget]
    rfl
  · cases h

/-- A reference is to a defined data item, and without an id of its own it has the one of that data
item. -/
theorem extractModuleDataItemRef_ok {parentName : String} {el : SubDataItemElement}
    {sdi : SubDataItem} (h : t.extractModuleDataItemRef parentName el = .ok sdi) :
    sdi.name ∈ t.dataItemInfoMap ∧
      (el.id = none → t.dataItemMap.left sdi.id = some sdi.name) := by
  unfold extractModuleDataItemRef at h
  split at h
  · cases h
  · next info hinfo =>
    dsimp only at h
    split at h
    · cases h
    · next hdefined =>
      cases h
      refine ⟨mem_of_getDataItemInfoByName hnames hinfo, fun hnone => ?_⟩
      have hid := hdefined
      simp only [hnone, Option.map_none, Option.getD_none] at hid ⊢
      unfold getDataItemId at hid ⊢
      cases hright : t.dataItemMap.right el.name with
      | none =>
        rw [hright] at hid
        exact absurd rfl hid
      | some i => exact t.dataItemMap.left_eq_some_iff_right.2 hright

end

/-! ## Data items -/

/-- The two ways an element leaves the bimap of data items: with its mapping where it has an id,
as it was where it has none. -/
theorem dataItemMapWith_eq_ok {el : DataItemElement} {m : Bimap DataItemIdType String} :
    t.dataItemMapWith el = .ok m ↔
      (∃ n, el.id = some n ∧ t.dataItemMap.Fits (extractId n) el.name ∧
        m = t.dataItemMap.insert (extractId n) el.name) ∨ el.id = none ∧ m = t.dataItemMap := by
  unfold dataItemMapWith
  cases el.id with
  | none => simp [eq_comm]
  | some n => simp [insertIdNameMapping_eq_ok]

/-- Mappings that are there stay, and the one that is new is that of the element. -/
theorem left_of_dataItemMapWith {el : DataItemElement} {m : Bimap DataItemIdType String}
    (h : t.dataItemMapWith el = .ok m) :
    (∀ id name, t.dataItemMap.left id = some name → m.left id = some name) ∧
    (∀ n, el.id = some n → m.left (extractId n) = some el.name) ∧
    ∀ id name, m.left id = some name → t.dataItemMap.left id = some name ∨
      name = el.name ∧ (el.id.map extractId).getD idUndefined = id := by
  rcases dataItemMapWith_eq_ok.1 h with ⟨n, hid, hfits, rfl⟩ | ⟨hid, rfl⟩
  · refine ⟨fun id name hleft => Bimap.left_insert_of_left hfits hleft, fun n' hn' => ?_,
      fun id name hleft => ?_⟩
    · obtain rfl := Option.some.inj (hid.symm.trans hn')
      exact Bimap.left_insert_self hfits
    · rw [Bimap.left_insert hfits] at hleft
      split at hleft
      · next heq => exact .inr ⟨(Option.some.inj hleft).symm, by simp [hid, heq]⟩
      · exact .inl hleft
  · exact ⟨fun _ _ hleft => hleft, fun n hn => by simp [hid] at hn, fun _ _ hleft => .inl hleft⟩

/-- A data item that was not defined is added. -/
theorem Consistent.insertDataItem (ht : t.Consistent) {el : DataItemElement}
    {m : Bimap DataItemIdType String} {info : DataItemInfo} (hm : t.dataItemMapWith el = .ok m)
    (hfresh : el.name ∉ t.dataItemInfoMap) (hname : info.name = el.name)
    (hid : info.id = (el.id.map extractId).getD idUndefined)
    (hsubs : ∀ sdi ∈ info.subDataItems, sdi.name ∈ t.dataItemInfoMap) :
    { t with
      dataItemMap := m
      dataItemInfoMap := t.dataItemInfoMap.insert el.name info }.Consistent where
  signalInfo_name := ht.signalInfo_name
  statusCodeInfo_name := ht.statusCodeInfo_name
  dataItemInfo_name name info' hinfo := by
    simp only [ExtTreeMap.getElem?_insert, Std.compare_eq_iff_eq] at hinfo
    split at hinfo
    · next heq =>
      obtain rfl := Option.some.inj hinfo
      exact hname.trans heq
    · exact ht.dataItemInfo_name name info' hinfo
  dataItemMap_id id name hleft := by
    simp only [ExtTreeMap.getElem?_insert, Std.compare_eq_iff_eq]
    rcases (left_of_dataItemMapWith hm).2.2 id name hleft with hold | ⟨rfl, rfl⟩
    · obtain ⟨info', hinfo', hid'⟩ := ht.dataItemMap_id id name hold
      have hne : el.name ≠ name := by
        rintro rfl
        exact hfresh (ExtTreeMap.mem_iff_isSome_getElem?.2 (by rw [hinfo']; rfl))
      exact ⟨info', by rw [if_neg hne, hinfo'], hid'⟩
    · exact ⟨info, if_pos rfl, hid⟩
  reference_name b id siginfo hsig ref href :=
    (left_of_dataItemMapWith hm).1 _ _ (ht.reference_name b id siginfo hsig ref href)
  subDataItem_defined name info' hinfo sdi hsdi := by
    have hmem : sdi.name ∈ t.dataItemInfoMap := by
      simp only [ExtTreeMap.getElem?_insert, Std.compare_eq_iff_eq] at hinfo
      split at hinfo
      · obtain rfl := Option.some.inj hinfo
        exact hsubs sdi hsdi
      · exact ht.subDataItem_defined name info' hinfo sdi hsdi
    exact ExtTreeMap.mem_insert.2 (.inr hmem)

/-- One data item keeps the tables together and every mapping in them, and enters its own. -/
theorem Consistent.extractModuleDataItem (ht : t.Consistent) {el : DataItemElement}
    (h : t.extractModuleDataItem el = .ok t') :
    t'.Consistent ∧ Grows t t' ∧ SameSignals t t' ∧
      ∀ n, el.id = some n → t'.dataItemMap.left (extractId n) = some el.name := by
  unfold ConfigTables.extractModuleDataItem at h
  obtain ⟨m, hm, h⟩ := bind_eq_ok.1 h
  obtain ⟨subs, hsubs, h⟩ := bind_eq_ok.1 h
  split at h
  · cases h
  · next hfresh =>
    cases h
    obtain ⟨hold, hown, _⟩ := left_of_dataItemMapWith hm
    have hdefined : ∀ sdi ∈ subs, sdi.name ∈ t.dataItemInfoMap := by
      refine Folds.forall_mem_of_mapM (fun ref sdi hsdi => ?_) hsubs
      have hnames : ∀ (name : String) (info : DataItemInfo),
          { t with dataItemMap := m }.dataItemInfoMap[name]? = some info → info.name = name :=
        ht.dataItemInfo_name
      exact (extractModuleDataItemRef_ok hnames hsdi).1
    exact ⟨ht.insertDataItem hm hfresh rfl rfl hdefined,
      ⟨fun _ _ _ hleft => hleft, hold, fun _ _ hleft => hleft⟩, ⟨fun _ => rfl, fun _ => rfl⟩, hown⟩

/-! ## Status codes -/

/-- One status code keeps the tables together and every mapping in them, and enters its own. -/
theorem Consistent.extractModuleStatusCode (ht : t.Consistent) {el : StatusCodeElement}
    (h : t.extractModuleStatusCode el = .ok t') :
    t'.Consistent ∧ Grows t t' ∧ SameSignals t t' ∧
      t'.statusCodeMap.left (extractId el.id) = some el.name := by
  unfold ConfigTables.extractModuleStatusCode at h
  obtain ⟨m, hm, h⟩ := bind_eq_ok.1 h
  obtain ⟨hfits, rfl⟩ := insertIdNameMapping_eq_ok.1 hm
  split at h
  · cases h
  · cases h
    refine ⟨{ ht with statusCodeInfo_name := fun id => ?_ },
      ⟨fun _ _ _ hleft => hleft, fun _ _ hleft => hleft,
        fun _ _ hleft => Bimap.left_insert_of_left hfits hleft⟩,
      ⟨fun _ => rfl, fun _ => rfl⟩, Bimap.left_insert_self hfits⟩
    rw [Bimap.left_insert hfits]
    by_cases hid : id = extractId el.id
    · subst hid
      rw [if_pos rfl, ExtTreeMap.getElem?_insert_self]
      rfl
    · rw [if_neg hid, ExtTreeMap.getElem?_insert,
        if_neg (fun heq => hid (Std.compare_eq_iff_eq.1 heq).symm)]
      exact ht.statusCodeInfo_name id

/-! ## Signals -/

/-- What an element about a signal enters under `id` in the tables of a kind. -/
structure Entry (t : ConfigTables) (el : SignalElement) (isMessage : Bool) (id : SignalIdType)
    (info : SignalInfo) : Prop where
  name : info.name = el.name
  fits : (t.idNameMap isMessage).Fits id info.name
  defined : ∀ n, el.id = some n →
    isMessage = el.isMessage ∧ id = extractId n ∧ el.message.isSome
  referred : el.id = none → t.getSignalId el.name = .ok (id, !isMessage)
  reference_name : ∀ ref ∈ info.dataItems, t.dataItemMap.left ref.id = some ref.name
  first_or_modified :
    ((t.idInfoMap isMessage)[id]? = none ∧ el.id.isSome ∧ info.flags = el.flags ∧
      t.extractResponse el = .ok info.responseId) ∨
    ∃ existing dataItems, (t.idInfoMap isMessage)[id]? = some existing ∧
      info = modifySignal el dataItems existing

/-- The id that a name leads to is the one of its kind. -/
theorem getSignalId_eq_ok {name : String} {id : SignalIdType} {isSignal : Bool}
    (h : t.getSignalId name = .ok (id, isSignal)) :
    (t.idNameMap !isSignal).right name = some id := by
  unfold getSignalId at h
  split at h
  · next i hi =>
    cases h
    exact hi
  · split at h
    · next i hi =>
      cases h
      exact hi
    · cases h

/-- The id/name map that `resolveSignal` returns has the mapping of the element. -/
theorem resolveSignal_ok {el : SignalElement} {isMessage : Bool} {id : SignalIdType}
    {m : Bimap SignalIdType String} (h : t.resolveSignal el = .ok (isMessage, id, m)) :
    (t.idNameMap isMessage).Fits id el.name ∧ m = (t.idNameMap isMessage).insert id el.name ∧
      (∀ n, el.id = some n → isMessage = el.isMessage ∧ id = extractId n ∧ el.message.isSome) ∧
      (el.id = none → t.getSignalId el.name = .ok (id, !isMessage)) := by
  unfold resolveSignal at h
  split at h
  · next n hn =>
    split at h
    · cases h
    · next hmessage =>
      split at h
      · cases h
      · obtain ⟨m', hm', h⟩ := bind_eq_ok.1 h
        cases h
        obtain ⟨hfits, hinsert⟩ := insertIdNameMapping_eq_ok.1 hm'
        refine ⟨hfits, hinsert, fun n' hn' => ?_, fun hnone => by simp [hn] at hnone⟩
        obtain rfl := Option.some.inj (hn.symm.trans hn')
        exact ⟨rfl, rfl, Option.isSome_iff_ne_none.2 hmessage⟩
  · next hnone =>
    split at h
    · next i isSignal hget =>
      cases h
      have hright := getSignalId_eq_ok hget
      have hfits := Bimap.fits_of_right hright
      exact ⟨hfits, (Bimap.insert_of_right hright).symm, fun n hn => by simp [hnone] at hn,
        fun _ => by simpa using hget⟩
    · cases h

/-- An element about a signal enters what it defines, or what is there with its references
appended. -/
theorem Consistent.extractModuleSignal_merged (ht : t.Consistent) {el : SignalElement}
    (h : t.extractModuleSignal el = .ok t') :
    ∃ isMessage id info refs, t.Entry el isMessage id info ∧ t' = t.recordSignal isMessage id info ∧
      (el.dataItems.mapM fun ref => t.extractModuleDataItemRef el.name ref.toSubDataItem) =
        .ok refs ∧
      info.dataItems = ((t.idInfoMap isMessage)[id]?).elim [] SignalInfo.dataItems ++ refs := by
  unfold ConfigTables.extractModuleSignal at h
  obtain ⟨responseId, hresponse, h⟩ := bind_eq_ok.1 h
  obtain ⟨dataItems, hitems, h⟩ := bind_eq_ok.1 h
  obtain ⟨⟨isMessage, id, m⟩, hresolve, h⟩ := bind_eq_ok.1 h
  obtain ⟨hfits, rfl, hdefined, hreferred⟩ := resolveSignal_ok hresolve
  have href : ∀ ref ∈ dataItems, t.dataItemMap.left ref.id = some ref.name :=
    Folds.forall_mem_of_mapM
      (fun _ _ hsdi => (extractModuleDataItemRef_ok ht.dataItemInfo_name hsdi).2 rfl) hitems
  simp only [idInfoMap_setIdNameMap] at h
  split at h
  · next hnone =>
    obtain ⟨_, hhave, h⟩ := bind_eq_ok.1 h
    cases h
    exact ⟨isMessage, id, { name := el.name, id, flags := el.flags, dataItems, responseId },
      dataItems, ⟨rfl, hfits, hdefined, hreferred, href,
        .inl ⟨hnone, assertThat_ok.1 hhave, rfl, hresponse⟩⟩, rfl, hitems, by rw [hnone]; rfl⟩
  · next existing hsome =>
    cases h
    have hname : existing.name = el.name := by
      have hleft := ht.signalInfo_name isMessage id
      rw [hsome] at hleft
      exact hfits.1 existing.name hleft.symm
    refine ⟨isMessage, id, modifySignal el dataItems existing, dataItems,
      ⟨hname, hname ▸ hfits, hdefined, hreferred, fun ref hmem => ?_,
        .inr ⟨existing, dataItems, hsome, rfl⟩⟩, ?_, hitems, by rw [hsome]; rfl⟩
    · rcases List.mem_append.1 hmem with hold | hnew
      · exact ht.reference_name isMessage id existing hsome ref hold
      · exact href ref hnew
    · rw [recordSignal, show (modifySignal el dataItems existing).name = el.name from hname]

/-- One element about a signal records one entry, under the kind and id it is about. -/
theorem Consistent.extractModuleSignal (ht : t.Consistent) {el : SignalElement}
    (h : t.extractModuleSignal el = .ok t') :
    ∃ isMessage id info, t.Entry el isMessage id info ∧ t' = t.recordSignal isMessage id info := by
  obtain ⟨isMessage, id, info, _, hentry, hrecord, -⟩ := ht.extractModuleSignal_merged h
  exact ⟨isMessage, id, info, hentry, hrecord⟩

/-- Recording an entry keeps the tables together. -/
theorem Entry.consistent (ht : t.Consistent) {el : SignalElement} {isMessage : Bool}
    {id : SignalIdType} {info : SignalInfo} (h : t.Entry el isMessage id info) :
    (t.recordSignal isMessage id info).Consistent := by
  have hrest := @sameRest_recordSignal t isMessage id info
  constructor
  case signalInfo_name =>
    intro b i
    rw [idInfoMap_recordSignal, left_recordSignal h.fits]
    split
    · rfl
    · exact ht.signalInfo_name b i
  case reference_name =>
    intro b i info' hinfo ref href
    rw [hrest.dataItemMap]
    rw [idInfoMap_recordSignal] at hinfo
    split at hinfo
    · obtain rfl := Option.some.inj hinfo
      exact h.reference_name ref href
    · exact ht.reference_name b i info' hinfo ref href
  case statusCodeInfo_name =>
    rw [hrest.statusCodeInfoMap, hrest.statusCodeMap]
    exact ht.statusCodeInfo_name
  case dataItemInfo_name =>
    rw [hrest.dataItemInfoMap]
    exact ht.dataItemInfo_name
  case dataItemMap_id =>
    rw [hrest.dataItemInfoMap, hrest.dataItemMap]
    exact ht.dataItemMap_id
  case subDataItem_defined =>
    rw [hrest.dataItemInfoMap]
    exact ht.subDataItem_defined

/-- Recording an entry keeps every mapping. -/
theorem Entry.grows {el : SignalElement} {isMessage : Bool} {id : SignalIdType}
    {info : SignalInfo} (h : t.Entry el isMessage id info) :
    Grows t (t.recordSignal isMessage id info) := by
  have hrest := @sameRest_recordSignal t isMessage id info
  constructor
  · intro b i name hleft
    rw [left_recordSignal h.fits]
    split
    · next heq =>
      obtain ⟨rfl, rfl⟩ := heq
      rw [h.fits.1 name hleft]
    · exact hleft
  · rw [hrest.dataItemMap]
    exact fun _ _ hleft => hleft
  · rw [hrest.statusCodeMap]
    exact fun _ _ hleft => hleft

/-- A recorded entry is found under its id by its name. -/
theorem Entry.left_eq {el : SignalElement} {isMessage : Bool} {id : SignalIdType}
    {info : SignalInfo} (h : t.Entry el isMessage id info) :
    ((t.recordSignal isMessage id info).idNameMap isMessage).left id = some el.name := by
  rw [left_recordSignal h.fits, if_pos ⟨rfl, rfl⟩, h.name]

/-! ## Modules -/

/-- The definitions of a module that have an id are in the tables. -/
structure Contains (t : ConfigTables) (el : ModuleElement) : Prop where
  dataItem : ∀ item ∈ el.dataItems, ∀ n, item.id = some n →
    t.dataItemMap.left (extractId n) = some item.name
  signal : ∀ signal ∈ el.signals, ∀ n, signal.id = some n →
    (t.idNameMap signal.isMessage).left (extractId n) = some signal.name
  statusCode : ∀ status ∈ el.statusCodes,
    t.statusCodeMap.left (extractId status.id) = some status.name

/-- What a module has entered is still there when more is entered. -/
theorem Contains.grows {el : ModuleElement} (hgrows : Grows t t') (h : t.Contains el) :
    t'.Contains el where
  dataItem item hitem n hn := hgrows.dataItemMap _ _ (h.dataItem item hitem n hn)
  signal signal hsignal n hn := hgrows.idNameMap _ _ _ (h.signal signal hsignal n hn)
  statusCode status hstatus := hgrows.statusCodeMap _ _ (h.statusCode status hstatus)

/-- Tables that stay as they are keep their signals. -/
theorem SameSignals.refl (t : ConfigTables) : SameSignals t t := ⟨fun _ => rfl, fun _ => rfl⟩

/-- Signals that are kept twice are kept. -/
theorem SameSignals.trans {t₁ t₂ t₃ : ConfigTables} (h : SameSignals t₁ t₂)
    (h' : SameSignals t₂ t₃) : SameSignals t₁ t₃ where
  idNameMap b := (h'.idNameMap b).trans (h.idNameMap b)
  idInfoMap b := (h'.idInfoMap b).trans (h.idInfoMap b)

/-- The data items of a module, one after the other. -/
theorem Consistent.extractModuleDataItems (ht : t.Consistent) {els : List DataItemElement}
    (h : els.foldlM ConfigTables.extractModuleDataItem t = .ok t') :
    t'.Consistent ∧ (Grows t t' ∧ SameSignals t t') ∧
      ∀ el ∈ els, ∀ n, el.id = some n → t'.dataItemMap.left (extractId n) = some el.name := by
  refine Folds.foldlM_grows (I := Consistent) (R := fun s s' => Grows s s' ∧ SameSignals s s')
    (D := fun el s => ∀ n, el.id = some n → s.dataItemMap.left (extractId n) = some el.name)
    (fun s => ⟨.refl s, .refl s⟩) (fun h₁ h₂ => ⟨h₁.1.trans h₂.1, h₁.2.trans h₂.2⟩) ?_ ?_ ht h
  · intro el s s' hR hD n hn
    exact hR.1.dataItemMap _ _ (hD n hn)
  · intro s el s' hs hstep
    obtain ⟨hcons, hgrows, hsame, hD⟩ := hs.extractModuleDataItem hstep
    exact ⟨hcons, ⟨hgrows, hsame⟩, hD⟩

/-- The status codes of a module, one after the other. -/
theorem Consistent.extractModuleStatusCodes (ht : t.Consistent) {els : List StatusCodeElement}
    (h : els.foldlM ConfigTables.extractModuleStatusCode t = .ok t') :
    t'.Consistent ∧ (Grows t t' ∧ SameSignals t t') ∧
      ∀ el ∈ els, t'.statusCodeMap.left (extractId el.id) = some el.name := by
  refine Folds.foldlM_grows (I := Consistent) (R := fun s s' => Grows s s' ∧ SameSignals s s')
    (D := fun el s => s.statusCodeMap.left (extractId el.id) = some el.name)
    (fun s => ⟨.refl s, .refl s⟩) (fun h₁ h₂ => ⟨h₁.1.trans h₂.1, h₁.2.trans h₂.2⟩) ?_ ?_ ht h
  · intro el s s' hR hD
    exact hR.1.statusCodeMap _ _ hD
  · intro s el s' hs hstep
    obtain ⟨hcons, hgrows, hsame, hD⟩ := hs.extractModuleStatusCode hstep
    exact ⟨hcons, ⟨hgrows, hsame⟩, hD⟩

/-- The elements about signals of a module, one after the other. -/
theorem Consistent.extractModuleSignals (ht : t.Consistent) {els : List SignalElement}
    (h : els.foldlM ConfigTables.extractModuleSignal t = .ok t') :
    t'.Consistent ∧ Grows t t' ∧
      ∀ el ∈ els, ∀ n, el.id = some n →
        (t'.idNameMap el.isMessage).left (extractId n) = some el.name := by
  refine Folds.foldlM_grows (I := Consistent) (R := Grows)
    (D := fun el s => ∀ n, el.id = some n →
      (s.idNameMap el.isMessage).left (extractId n) = some el.name)
    .refl Grows.trans ?_ ?_ ht h
  · intro el s s' hR hD n hn
    exact hR.idNameMap _ _ _ (hD n hn)
  · intro s el s' hs hstep
    obtain ⟨isMessage, id, info, hentry, rfl⟩ := hs.extractModuleSignal hstep
    refine ⟨hentry.consistent hs, hentry.grows, fun n hn => ?_⟩
    obtain ⟨rfl, rfl, -⟩ := hentry.defined n hn
    exact hentry.left_eq

/-- A module is its data items, its signals and its status codes; the last step only files the
module. -/
theorem extractModule_eq_ok {el : ModuleElement} (h : t.extractModule el = .ok t') :
    ∃ t₁ t₂ t₃, el.dataItems.foldlM ConfigTables.extractModuleDataItem t = .ok t₁ ∧
      el.signals.foldlM ConfigTables.extractModuleSignal t₁ = .ok t₂ ∧
      el.statusCodes.foldlM ConfigTables.extractModuleStatusCode t₂ = .ok t₃ ∧
      ∃ modules, t' = { t₃ with moduleInfoMap := modules } := by
  unfold extractModule at h
  obtain ⟨t₁, h₁, h⟩ := bind_eq_ok.1 h
  obtain ⟨t₂, h₂, h⟩ := bind_eq_ok.1 h
  obtain ⟨t₃, h₃, h⟩ := bind_eq_ok.1 h
  split at h
  · cases h
  · cases h
    exact ⟨t₁, t₂, t₃, h₁, h₂, h₃, _, rfl⟩

/-- A module keeps the tables together and every mapping in them, and what it defines is entered.
-/
theorem Consistent.extractModule (ht : t.Consistent) {el : ModuleElement}
    (h : t.extractModule el = .ok t') : t'.Consistent ∧ Grows t t' ∧ t'.Contains el := by
  obtain ⟨t₁, t₂, t₃, hitems, hsignals, hcodes, modules, rfl⟩ := extractModule_eq_ok h
  obtain ⟨ht₁, ⟨hgrows₁, -⟩, hitem⟩ := ht.extractModuleDataItems hitems
  obtain ⟨ht₂, hgrows₂, hsignal⟩ := ht₁.extractModuleSignals hsignals
  obtain ⟨ht₃, ⟨hgrows₃, -⟩, hcode⟩ := ht₂.extractModuleStatusCodes hcodes
  have hlast : Grows t₃ { t₃ with moduleInfoMap := modules } :=
    ⟨fun _ _ _ hleft => hleft, fun _ _ hleft => hleft, fun _ _ hleft => hleft⟩
  refine ⟨⟨ht₃.signalInfo_name, ht₃.statusCodeInfo_name, ht₃.dataItemInfo_name, ht₃.dataItemMap_id,
    ht₃.reference_name, ht₃.subDataItem_defined⟩,
    ((hgrows₁.trans hgrows₂).trans hgrows₃).trans hlast, ?_, ?_, hcode⟩
  · intro item hitem' n hn
    exact (hgrows₂.trans hgrows₃).dataItemMap _ _ (hitem item hitem' n hn)
  · intro signal hsignal' n hn
    exact hgrows₃.idNameMap _ _ _ (hsignal signal hsignal' n hn)

/-- Only the elements about signals change their tables. What each of them keeps, when it is added
to the elements that were read before, holds after a list of modules. -/
theorem Consistent.foldlM_extractModule {I : List SignalElement → ConfigTables → Prop}
    (hsame : ∀ els s s', Grows s s' → SameSignals s s' → I els s → I els s')
    (hsignal : ∀ els s el s', s.Consistent → s.extractModuleSignal el = .ok s' → I els s →
      I (els ++ [el]) s')
    (ht : t.Consistent) {els : List SignalElement} (hI : I els t) {modules : List ModuleElement}
    (h : modules.foldlM ConfigTables.extractModule t = .ok t') :
    t'.Consistent ∧ I (els ++ modules.flatMap ModuleElement.signals) t' := by
  refine Folds.foldlM_induct (I := fun done s => s.Consistent ∧
    I (els ++ done.flatMap ModuleElement.signals) s) ?_ ⟨ht, by simpa using hI⟩ h
  rintro done s el s' ⟨hs, hdone⟩ hstep
  obtain ⟨s₁, s₂, s₃, hitems, hsignals, hcodes, modules, rfl⟩ := extractModule_eq_ok hstep
  obtain ⟨hs₁, ⟨hgrows₁, hsame₁⟩, -⟩ := hs.extractModuleDataItems hitems
  obtain ⟨hs₂, -, -⟩ := hs₁.extractModuleSignals hsignals
  obtain ⟨-, ⟨hgrows₃, hsame₃⟩, -⟩ := hs₂.extractModuleStatusCodes hcodes
  have hmiddle := Folds.foldlM_induct (f := ConfigTables.extractModuleSignal)
    (I := fun earlier r => r.Consistent ∧
      I ((els ++ done.flatMap ModuleElement.signals) ++ earlier) r)
    ?_ ⟨hs₁, by simpa using hsame _ _ _ hgrows₁ hsame₁ hdone⟩ hsignals
  · refine ⟨(hs.extractModule hstep).1, ?_⟩
    rw [List.flatMap_append, List.flatMap_singleton, ← List.append_assoc]
    have hgrows : Grows s₃ { s₃ with moduleInfoMap := modules } :=
      ⟨fun _ _ _ hleft => hleft, fun _ _ hleft => hleft, fun _ _ hleft => hleft⟩
    have hlast : SameSignals s₃ { s₃ with moduleInfoMap := modules } := ⟨fun _ => rfl, fun _ => rfl⟩
    exact hsame _ _ _ hgrows hlast (hsame _ _ _ hgrows₃ hsame₃ hmiddle.2)
  · rintro earlier r signal r' ⟨hr, hearlier⟩ hstep'
    obtain ⟨isMessage, id, info, hentry, rfl⟩ := hr.extractModuleSignal hstep'
    refine ⟨hentry.consistent hr, ?_⟩
    rw [← List.append_assoc]
    exact hsignal _ _ _ _ hr hstep' hearlier

/-- Every reference from a data item has an id. -/
def ReferencesSet (t : ConfigTables) : Prop :=
  ∀ (name : String) (info : DataItemInfo), t.dataItemInfoMap[name]? = some info →
    ∀ ref ∈ info.subDataItems, ref.id ≠ idUndefined

/-- The loader throws for a reference without an id. -/
theorem extractModuleDataItemRef_id {parentName : String} {el : SubDataItemElement}
    {ref : SubDataItem}
    (h : t.extractModuleDataItemRef parentName el = .ok ref) : ref.id ≠ idUndefined := by
  unfold extractModuleDataItemRef at h
  split at h
  · cases h
  · dsimp only at h
    split at h
    · cases h
    · next hdefined =>
      cases h
      exact hdefined

/-- A data item whose references lack an id is refused. -/
theorem ReferencesSet.extractModuleDataItem (hset : t.ReferencesSet) {el : DataItemElement}
    (h : t.extractModuleDataItem el = .ok t') : t'.ReferencesSet := by
  unfold ConfigTables.extractModuleDataItem at h
  obtain ⟨m, hm, h⟩ := bind_eq_ok.1 h
  obtain ⟨subs, hsubs, h⟩ := bind_eq_ok.1 h
  split at h
  · cases h
  · cases h
    intro name info hinfo
    simp only [ExtTreeMap.getElem?_insert, Std.compare_eq_iff_eq] at hinfo
    split at hinfo
    · obtain rfl := Option.some.inj hinfo
      exact Folds.forall_mem_of_mapM (fun el ref href => extractModuleDataItemRef_id href) hsubs
    · exact hset name info hinfo

/-- Only the data items of a module change what the references are. -/
theorem ReferencesSet.extractModule (ht : t.Consistent) (hset : t.ReferencesSet)
    {el : ModuleElement} (h : t.extractModule el = .ok t') : t'.ReferencesSet := by
  obtain ⟨t₁, t₂, t₃, hitems, hsignals, hcodes, modules, rfl⟩ := extractModule_eq_ok h
  have hset₁ : t₁.ReferencesSet := Folds.foldlM_induct
    (I := fun _ s => s.ReferencesSet) (fun _ _ _ _ hs hstep => hs.extractModuleDataItem hstep)
      hset hitems
  have ht₁ := (ht.extractModuleDataItems hitems).1
  have hsame₂ := Folds.foldlM_induct
    (I := fun _ s => s.Consistent ∧ s.dataItemInfoMap = t₁.dataItemInfoMap) (by
      rintro _ s signal s' ⟨hs, hsame⟩ hstep
      obtain ⟨isMessage, id, info, hentry, rfl⟩ := hs.extractModuleSignal hstep
      exact ⟨hentry.consistent hs, sameRest_recordSignal.dataItemInfoMap.trans hsame⟩)
        ⟨ht₁, rfl⟩ hsignals
  have hsame₃ := Folds.foldlM_induct
    (I := fun _ s => s.dataItemInfoMap = t₂.dataItemInfoMap) (by
      intro _ s code s' hsame hstep
      unfold extractModuleStatusCode at hstep
      obtain ⟨m, -, hstep⟩ := bind_eq_ok.1 hstep
      split at hstep
      · cases hstep
      · cases hstep
        exact hsame) rfl hcodes
  intro name info hinfo
  exact hset₁ name info (hsame₂.2 ▸ hsame₃ ▸ hinfo)

end ConfigTables

namespace ConfigFile

variable {file : ConfigFile} {t : ConfigTables}

/-- Tables that were filled without an error have an id for every reference. -/
theorem referencesSet_of_extract (h : file.extractProtocolConfig = .ok t) : t.ReferencesSet :=
  (Folds.foldlM_induct (I := fun _ s => s.Consistent ∧ s.ReferencesSet)
    (fun _ _ _ _ hs hstep => ⟨(hs.1.extractModule hstep).1, hs.2.extractModule hs.1 hstep⟩)
    ⟨ConfigTables.consistent_empty,
      fun name info hinfo => by simp [ConfigTables.empty] at hinfo⟩ h).2

/-- By induction over the modules of a file: its tables hold together and contain all of its
definitions. -/
theorem consistent_of_extract (h : file.extractProtocolConfig = .ok t) :
    t.Consistent ∧ ∀ el ∈ file.modules, t.Contains el := by
  obtain ⟨hcons, -, hcontains⟩ := Folds.foldlM_grows (I := ConfigTables.Consistent)
    (R := ConfigTables.Grows) (D := fun el s => s.Contains el) .refl ConfigTables.Grows.trans
    ConfigTables.Contains.grows (fun hs hstep => hs.extractModule hstep)
    ConfigTables.consistent_empty h
  exact ⟨hcons, hcontains⟩

end ConfigFile

/-! ## The loaded configuration -/

/-- The configuration with the tables of the modules of a file. -/
def ConfigTables.toConfig (t : ConfigTables) (ht : t.Consistent) (file : ConfigFile) :
    ProtocolConfig where
  version := file.extractVersion
  signalPrefix := file.signalPrefix.getD ""
  signalLengthSize := file.signalLengthSize
  signalIdSize := file.signalIdSize
  dataItemLengthSize := file.dataItemLengthSize
  dataItemIdSize := file.dataItemIdSize
  extensionIdSize := file.extensionIdSize
  moduleInfoMap := t.moduleInfoMap
  signalMap := t.signalMap
  signalInfoMap := t.signalInfoMap
  messageMap := t.messageMap
  messageInfoMap := t.messageInfoMap
  dataItemMap := t.dataItemMap
  dataItemInfoMap := t.dataItemInfoMap
  statusCodeMap := t.statusCodeMap
  statusCodeInfoMap := t.statusCodeInfoMap
  signalInfo_name := ht.signalInfo_name false
  messageInfo_name := ht.signalInfo_name true
  statusCodeInfo_name := ht.statusCodeInfo_name
  dataItemInfo_name := ht.dataItemInfo_name
  dataItemMap_defined id name hleft := by
    obtain ⟨info, hinfo, -⟩ := ht.dataItemMap_id id name hleft
    rw [ExtTreeMap.mem_iff_isSome_getElem?, hinfo]
    rfl
  subDataItem_defined := ht.subDataItem_defined

/-- Source: `ProtocolConfigImpl::ProtocolConfigImpl` (`ProtocolConfigImpl.cpp:102`). -/
def ConfigFile.load (file : ConfigFile) : Except Exn ProtocolConfig :=
  match h : file.extractProtocolConfig with
  | .ok t => .ok (t.toConfig (consistent_of_extract h).1 file)
  | .error e => .error e

/-- Every reference of a loaded configuration has an id. -/
theorem ConfigFile.load_reference_id {file : ConfigFile} {cfg : ProtocolConfig}
    (h : file.load = .ok cfg) {name : String} {info : DataItemInfo}
    (hinfo : cfg.dataItemInfoMap[name]? = some info) :
    ∀ ref ∈ info.subDataItems, ref.id ≠ idUndefined := by
  unfold ConfigFile.load at h
  split at h
  · next t ht =>
    cases h
    exact ConfigFile.referencesSet_of_extract ht name info hinfo
  · cases h

/-- The tables hold together, and the definitions of the file that have an id are in them. -/
structure ConfigTables.Describes (t : ConfigTables) (file : ConfigFile) : Prop where
  signalMap_bijective : ∀ id name,
    t.signalMap.left id = some name ↔ t.signalMap.right name = some id
  messageMap_bijective : ∀ id name,
    t.messageMap.left id = some name ↔ t.messageMap.right name = some id
  dataItemMap_bijective : ∀ id name,
    t.dataItemMap.left id = some name ↔ t.dataItemMap.right name = some id
  statusCodeMap_bijective : ∀ id name,
    t.statusCodeMap.left id = some name ↔ t.statusCodeMap.right name = some id
  contains_signal : ∀ el ∈ file.signalElements, ∀ n, el.id = some n →
    (if el.isMessage then t.messageMap else t.signalMap).left (extractId n) = some el.name
  contains_dataItem : ∀ el ∈ file.dataItemElements, ∀ n, el.id = some n →
    t.dataItemMap.left (extractId n) = some el.name
  contains_statusCode : ∀ el ∈ file.statusCodeElements,
    t.statusCodeMap.left (extractId el.id) = some el.name
  signalInfo_name : ∀ id, (t.signalInfoMap[id]?).map SignalInfo.name = t.signalMap.left id
  messageInfo_name : ∀ id, (t.messageInfoMap[id]?).map SignalInfo.name = t.messageMap.left id
  statusCodeInfo_name : ∀ id,
    (t.statusCodeInfoMap[id]?).map StatusCodeInfo.name = t.statusCodeMap.left id
  dataItemInfo_id : ∀ id name, t.dataItemMap.left id = some name →
    ∃ info, t.dataItemInfoMap[name]? = some info ∧ info.id = id
  reference_name : ∀ (isMessage : Bool) (id : SignalIdType) (info : SignalInfo),
    (if isMessage then t.messageInfoMap else t.signalInfoMap)[id]? = some info →
    ∀ ref ∈ info.dataItems, t.getDataItemName ref.id = .ok ref.name

/-- Tables that were filled without an error describe the file. -/
theorem ConfigFile.extracted_describes {file : ConfigFile} {t : ConfigTables}
    (h : file.extractProtocolConfig = .ok t) : t.Describes file := by
  obtain ⟨hcons, hcontains⟩ := consistent_of_extract h
  constructor
  case signalMap_bijective => exact fun id name => t.signalMap.left_eq_some_iff_right
  case messageMap_bijective => exact fun id name => t.messageMap.left_eq_some_iff_right
  case dataItemMap_bijective => exact fun id name => t.dataItemMap.left_eq_some_iff_right
  case statusCodeMap_bijective => exact fun id name => t.statusCodeMap.left_eq_some_iff_right
  case contains_signal =>
    intro el hel n hn
    obtain ⟨module, hmodule, hmem⟩ := List.mem_flatMap.1 hel
    exact (hcontains module hmodule).signal el hmem n hn
  case contains_dataItem =>
    intro el hel n hn
    obtain ⟨module, hmodule, hmem⟩ := List.mem_flatMap.1 hel
    exact (hcontains module hmodule).dataItem el hmem n hn
  case contains_statusCode =>
    intro el hel
    obtain ⟨module, hmodule, hmem⟩ := List.mem_flatMap.1 hel
    exact (hcontains module hmodule).statusCode el hmem
  case signalInfo_name => exact hcons.signalInfo_name false
  case messageInfo_name => exact hcons.signalInfo_name true
  case statusCodeInfo_name => exact hcons.statusCodeInfo_name
  case dataItemInfo_id => exact hcons.dataItemMap_id
  case reference_name =>
    intro isMessage id info hinfo ref href
    rw [ConfigTables.getDataItemName, hcons.reference_name isMessage id info hinfo ref href]

/-! An extension that adds the hop count to a message of the core module. -/

/-- A file with the field sizes of RFC 8175. -/
def ConfigFile.ofModules (modules : List ModuleElement) : ConfigFile where
  version := some (1, 0)
  signalPrefix := some "DLEP"
  signalLengthSize := ⟨2, FieldSize.two_fits⟩
  signalIdSize := ⟨2, FieldSize.two_fits⟩
  dataItemLengthSize := ⟨2, FieldSize.two_fits⟩
  dataItemIdSize := ⟨2, FieldSize.two_fits⟩
  extensionIdSize := ⟨2, FieldSize.two_fits⟩
  modules

def ModuleElement.sessionUpdate : ModuleElement where
  name := "core"
  dataItems := [⟨"Status", .u8String, some 1, .wordFalse, .none, []⟩]
  signals := [
    ⟨"Session_Update_Response", some 4, some .wordTrue, some .both, none, [⟨"Status", .one⟩]⟩,
    ⟨"Session_Update", some 3, some .wordTrue, some .both, some "Session_Update_Response", []⟩]
  statusCodes := [⟨"Success", 0, .continue⟩]

def ModuleElement.hopCount : ModuleElement where
  name := "multi-hop"
  extensionId := some 65520
  dataItems := [⟨"Hop_Count", .u8U8, some 65415, .wordTrue, .count, []⟩]
  signals := [⟨"Session_Update", none, none, none, none, [⟨"Hop_Count", .zeroOrOne⟩]⟩]

def ConfigFile.sessionUpdateHopCount : ConfigFile := ofModules [.sessionUpdate, .hopCount]

/-- A module that refers to a message of another module, and adds a data item to it. -/
theorem ConfigFile.extracted_describes_hopCount :
    ∃ t, sessionUpdateHopCount.extractProtocolConfig = .ok t ∧
      t.Describes sessionUpdateHopCount ∧
      (t.messageInfoMap[(3 : UInt32)]?).map SignalInfo.dataItems =
        some [⟨"Hop_Count", 65415, .zeroOrOne⟩] := by
  have hrun : (match sessionUpdateHopCount.extractProtocolConfig with
      | .ok t => (t.messageInfoMap[(3 : UInt32)]?).map SignalInfo.dataItems ==
          some [⟨"Hop_Count", 65415, .zeroOrOne⟩]
      | .error _ => false) = true := by
    decide +kernel
  split at hrun
  · next t ht => exact ⟨t, ht, extracted_describes ht, by simpa using hrun⟩
  · cases hrun

/-- A data item that only occurs in another one has no id of its own, and is not in the id/name
map. -/
theorem ConfigFile.not_contains_every_dataItem :
    ¬ ∀ (file : ConfigFile) (t : ConfigTables), file.extractProtocolConfig = .ok t →
      ∀ el ∈ file.dataItemElements, ∃ id, t.dataItemMap.left id = some el.name := by
  intro hall
  have hrun : (match (ofModules [{
      name := "core"
      dataItems :=
        [⟨"Hop_Count", .u8U8, none, .wordTrue, .count, []⟩] }]).extractProtocolConfig with
      | .ok t => (t.dataItemMap.right "Hop_Count").isNone
      | .error _ => false) = true := by
    decide +kernel
  split at hrun
  · next t ht =>
    obtain ⟨id, hid⟩ := hall _ t ht _ (List.mem_singleton_self _)
    rw [t.dataItemMap.left_eq_some_iff_right.1 hid] at hrun
    cases hrun
  · cases hrun

end Dlep
