import Dlep.ProtocolMessage.Build

/-!
# The message grammar

What the configuration asks of a message: that its sender may send it, that each data item occurs as
often as its reference says and no other does, and that every data item has its type, keeps its
limits, and holds sub data items that do the same (`Conforms`). `validate` checks this with counters
of 32 bits, and leaves the status code of a percentage unchecked. The grammar is stated for any
`Reading` of these two points: `Reading.machine` is what `validate` decides (`validate_eq_nil_iff`),
`Reading.exact` is what the configuration says.
-/

namespace Dlep

open Std

/-- How the grammar is read: which number a number of data items is taken for, and whether a status
code is checked even if its data item is a percentage. -/
structure Reading where
  count : Nat → Nat
  checksPercentageStatus : Bool

def Reading.exact : Reading := ⟨id, true⟩
def Reading.machine : Reading := ⟨(· % 2 ^ 32), false⟩

/-- May a data item occur `n` times? -/
def Occurs.Allows : Occurs → Nat → Prop
  | .one, n => n = 1
  | .zeroOrOne, n => n ≤ 1
  | .oneOrMore, n => 1 ≤ n
  | .zeroOrMore, _ => True

/-- The number of data items with an id. -/
def countId (items : DataItems) (id : DataItemIdType) : Nat :=
  items.countP fun di => di.id = id

/-- Every reference is met, and every data item is referenced. -/
def OccurrencesConform (r : Reading) (items : DataItems) (refs : List SubDataItem) : Prop :=
  (∀ ref ∈ refs, ref.occurs.Allows (r.count (countId items ref.id))) ∧
    ∀ di ∈ items, ∃ ref ∈ refs, ref.id = di.id

/-- The limits of a value. -/
def DataItemValue.KeepsLimits (r : Reading) (cfg : ProtocolConfig) (info : DataItemInfo) :
    DataItemValue → Prop
  | .u8 v => (info.units = .percentage → v ≤ 100) ∧
      (info.name = "Status" → (info.units = .percentage → r.checksPercentageStatus) →
        ∃ name, cfg.getStatusCodeName v.toUInt32 = .ok name)
  | .u8String f1 _ =>
      info.name = "Status" → ∃ name, cfg.getStatusCodeName f1.toUInt32 = .ok name
  | .u8Ipv4 f1 _ => f1 ≤ 1
  | .u8Ipv6 f1 _ => f1 ≤ 1
  | .u8Ipv4U8 f1 _ f3 => f1 ≤ 1 ∧ f3 ≤ 32
  | .u8Ipv6U8 f1 _ f3 => f1 ≤ 1 ∧ f3 ≤ 128
  | _ => True

/-- Is the value a list of sub data items? -/
def DataItemValue.isContainer : DataItemValue → Bool
  | .subDataItems _ => true
  | .u16SubDataItems _ _ => true
  | _ => false

/-- A data item conforms to its configuration in the scope it stands in. -/
inductive DataItem.Conforms (r : Reading) (cfg : ProtocolConfig) :
    Option DataItemInfo → DataItem → Prop where
  | mk {parent : Option DataItemInfo} {id : DataItemIdType} {value : DataItemValue}
      {info : DataItemInfo} (hinfo : cfg.getDataItemInfo id parent = .ok info)
      (htype : value.getType = info.valueType) (hlimits : value.KeepsLimits r cfg info)
      (hoccurs : value.isContainer → OccurrencesConform r value.subItems info.subDataItems)
      (hsubs : ∀ sdi ∈ value.subItems, Conforms r cfg (some info) sdi) :
      Conforms r cfg parent (.mk id value)

def SignalInfo.senderFlag (modemSender : Bool) : UInt32 :=
  if modemSender then modemSendsFlag else routerSendsFlag

/-- A message conforms to its configuration. -/
def ProtocolMessage.Conforms (r : Reading) (cfg : ProtocolConfig) (modemSender : Bool)
    (pm : ProtocolMessage) : Prop :=
  ∃ siginfo, cfg.infoOfId pm.isSignal pm.signalId = some siginfo ∧
    siginfo.flags &&& SignalInfo.senderFlag modemSender ≠ 0 ∧
    OccurrencesConform r pm.dataItems siginfo.dataItems ∧
    ∀ di ∈ pm.dataItems, di.Conforms r cfg none

/-! ## Occurrences -/

/-- One round of the counting loop. -/
theorem countOccurrences_append (items : DataItems) (di : DataItem) :
    countOccurrences (items ++ [di]) = (countOccurrences items).insert di.id
      (((countOccurrences items)[di.id]?).elim 1 (· + 1)) := by
  rw [countOccurrences, List.foldl_append, ← countOccurrences, List.foldl_cons, List.foldl_nil]
  cases (countOccurrences items)[di.id]? <;> rfl

/-- The counters hold the number of data items, modulo `2 ^ 32`. -/
theorem getElem?_countOccurrences (items : DataItems) (id : DataItemIdType) :
    (countOccurrences items)[id]? =
      if countId items id = 0 then none else some (UInt32.ofNat (countId items id)) := by
  -- the loop appends, so the induction is from the back
  induction items using List.reverseRecOn generalizing id with
  | nil => simp [countOccurrences, countId]
  | append_singleton items di ih =>
    have hcount : countId (items ++ [di]) id = countId items id + if di.id = id then 1 else 0 := by
      simp [countId, List.countP_append, List.countP_singleton]
    rw [countOccurrences_append, ExtTreeMap.getElem?_insert, hcount]
    by_cases hid : di.id = id
    · subst hid
      rw [ih]
      by_cases hzero : countId items di.id = 0
      · simp [hzero]
      · simp [hzero, UInt32.ofNat_add]
    · have hne : ¬ compare di.id id = .eq := by simpa using hid
      rw [if_neg hne, ih]
      simp [hid]

/-- The check of a count accepts what the grammar of the machine allows. -/
theorem checkOccurs_eq_nil {ref : SubDataItem} {n : Nat} :
    checkOccurs ref (UInt32.ofNat n) = [] ↔ ref.occurs.Allows (Reading.machine.count n) := by
  have hnat : (UInt32.ofNat n).toNat = Reading.machine.count n := rfl
  generalize UInt32.ofNat n = actual at hnat ⊢
  rw [← hnat]
  have hone : actual = 1 ↔ actual.toNat = 1 := UInt32.toNat_inj.symm
  have hlt : actual < 1 ↔ actual.toNat < 1 := UInt32.lt_iff_toNat_lt
  have hgt : actual > 1 ↔ actual.toNat > 1 := UInt32.lt_iff_toNat_lt
  have htext : str "exactly one of " ≠ [] ∧ str "at least one of " ≠ [] ∧
      str "no more than one of " ≠ [] :=
    ⟨str_ne_nil (by simp), str_ne_nil (by simp), str_ne_nil (by simp)⟩
  unfold checkOccurs Occurs.Allows
  cases ref.occurs with
  | one =>
    by_cases h : actual.toNat = 1
    · simp [hone.2 h]
    · simp [mt hone.1 h, h, htext.1]
  | zeroOrOne =>
    by_cases h : actual.toNat > 1
    · simp [hgt.2 h, Nat.not_le.2 h, htext.2.2]
    · simp [mt hgt.1 h, Nat.not_lt.1 h]
  | oneOrMore =>
    by_cases h : actual.toNat < 1
    · simp [hlt.2 h, Nat.not_le.2 h, htext.2.1]
    · simp [mt hlt.1 h, Nat.not_lt.1 h]
  | zeroOrMore => simp

/-- The counter of an id is its count in 32 bits. -/
theorem getD_countOccurrences (items : DataItems) (id : DataItemIdType) :
    (countOccurrences items)[id]?.getD 0 = UInt32.ofNat (countId items id) := by
  rw [getElem?_countOccurrences]
  split
  · next h => simp [h]
  · rfl

/-- The references that are checked against a number: each is the first one with its id. The later
ones find nothing left to count. -/
def firstReferences (refs : List SubDataItem) : List SubDataItem :=
  refs.filter fun ref => refs.find? (fun other => other.id = ref.id) = some ref

/-- The first references of a list are its head and those of the rest with other ids. -/
theorem mem_firstReferences_cons {ref other : SubDataItem} {refs : List SubDataItem} :
    other ∈ firstReferences (ref :: refs) ↔
      other = ref ∨ other ∈ firstReferences refs ∧ other.id ≠ ref.id := by
  simp only [firstReferences, List.mem_filter, List.mem_cons, List.find?_cons]
  by_cases hid : ref.id = other.id
  · simp only [hid, decide_true, Option.some.injEq, decide_eq_true_eq, ne_eq, not_true_eq_false,
      and_false, or_false]
    constructor
    · rintro ⟨_, heq⟩
      exact heq.symm
    · rintro rfl
      exact ⟨.inl rfl, rfl⟩
  · have hne : other ≠ ref := fun heq => hid (heq ▸ rfl)
    simp only [hid, decide_false, hne, false_or, ne_eq, Ne.symm hid, not_false_eq_true, and_true]

/-- What is left in the end is what no reference names. -/
theorem getElem?_checkReferences {refs : List SubDataItem}
    {counts : ExtTreeMap DataItemIdType UInt32} (h : (checkReferences refs counts).1 = [])
    (id : DataItemIdType) :
    (checkReferences refs counts).2[id]? =
      if id ∈ refs.map SubDataItem.id then none else counts[id]? := by
  induction refs generalizing counts with
  | nil => simp [checkReferences]
  | cons ref refs ih =>
    simp only [checkReferences] at h ⊢
    split at h
    · next herr => exact absurd h herr
    · next hok =>
      rw [if_neg hok, ih h, ExtTreeMap.getElem?_erase]
      by_cases hid : ref.id = id
      · simp [hid]
      · have hcmp : ¬ compare ref.id id = .eq := by simpa using hid
        simp [hcmp, Ne.symm hid]

/-- A reference is the first one with its id, or else has what later ones have. -/
theorem mem_firstReferences_or {P : SubDataItem → Prop} {refs : List SubDataItem}
    {ref : SubDataItem} (h : refs.Pairwise fun earlier later => earlier.id = later.id → P later)
    (href : ref ∈ refs) :
    ref ∈ firstReferences refs ∨ P ref := by
  induction refs with
  | nil => cases href
  | cons first refs ih =>
    obtain ⟨hfirst, hrest⟩ := List.pairwise_cons.1 h
    rw [mem_firstReferences_cons]
    rcases List.mem_cons.1 href with heq | hmem
    · exact .inl (.inl heq)
    · by_cases hid : first.id = ref.id
      · exact .inr (hfirst ref hmem hid)
      · exact (ih hrest hmem).imp_left fun hin => .inr ⟨hin, Ne.symm hid⟩

/-- The first reference with each id is checked against the number of the data items with it, and
the later ones against zero. -/
theorem checkReferences_eq_nil_iff_pairwise {refs : List SubDataItem}
    {counts : ExtTreeMap DataItemIdType UInt32} :
    (checkReferences refs counts).1 = [] ↔
      (∀ ref ∈ firstReferences refs, checkOccurs ref (counts[ref.id]?.getD 0) = []) ∧
        refs.Pairwise fun earlier later => earlier.id = later.id → checkOccurs later 0 = [] := by
  induction refs generalizing counts with
  | nil => simp [checkReferences, firstReferences]
  | cons ref refs ih =>
    have hstep : (checkReferences (ref :: refs) counts).1 = [] ↔
        checkOccurs ref (counts[ref.id]?.getD 0) = [] ∧
          (checkReferences refs (counts.erase ref.id)).1 = [] := by
      simp only [checkReferences]
      split
      · next herr => exact iff_of_false herr fun h => herr h.1
      · next hok => exact (and_iff_right (not_not.1 hok)).symm
    have hself : ∀ other : SubDataItem, other.id = ref.id →
        (counts.erase ref.id)[other.id]?.getD 0 = 0 := by
      intro other hid
      rw [hid, ExtTreeMap.getElem?_erase_self]
      rfl
    have hothers : ∀ other : SubDataItem, other.id ≠ ref.id →
        (counts.erase ref.id)[other.id]? = counts[other.id]? := by
      intro other hne
      rw [ExtTreeMap.getElem?_erase, if_neg (by simpa using Ne.symm hne)]
    rw [hstep, ih, List.pairwise_cons]
    constructor
    · rintro ⟨hfirst, hrest, hpairwise⟩
      refine ⟨fun other hother => ?_, fun later hlater hid => ?_, hpairwise⟩
      · rcases mem_firstReferences_cons.1 hother with rfl | ⟨hmem, hne⟩
        · exact hfirst
        · rw [← hothers other hne]
          exact hrest other hmem
      · rcases mem_firstReferences_or hpairwise hlater with hmem | hzero
        · rw [← hself later hid.symm]
          exact hrest later hmem
        · exact hzero
    · rintro ⟨hfirst, hlater, hpairwise⟩
      refine ⟨hfirst ref (mem_firstReferences_cons.2 (.inl rfl)), fun other hother => ?_, hpairwise⟩
      by_cases hid : other.id = ref.id
      · rw [hself other hid]
        exact hlater other (List.mem_filter.1 hother).1 hid.symm
      · rw [hothers other hid]
        exact hfirst other (mem_firstReferences_cons.2 (.inr ⟨hother, hid⟩))

/-- The error for unexpected data items is not empty. -/
theorem unexpected_ne_nil (texts : Bytes) : str "unexpected data items: " ++ texts ≠ [] := by
  have htext : str "unexpected data items: " ≠ [] := str_ne_nil (by simp)
  simp [htext]

/-- The numbers are allowed if the references are met and nothing is left. -/
theorem validateOccurrences_eq_nil_iff {cfg : ProtocolConfig} {items : DataItems}
    {refs : List SubDataItem} {parent : Option DataItemInfo} :
    validateOccurrences cfg items refs parent = .ok [] ↔
      (checkReferences refs (countOccurrences items)).1 = [] ∧
        ∀ di ∈ items, di.id ∈ refs.map SubDataItem.id := by
  unfold validateOccurrences
  by_cases herr : (checkReferences refs (countOccurrences items)).1 = []
  · have hempty : (checkReferences refs (countOccurrences items)).2.isEmpty ↔
        ∀ di ∈ items, di.id ∈ refs.map SubDataItem.id := by
      have hget : ∀ id : DataItemIdType,
          (checkReferences refs (countOccurrences items)).2[id]? = none ↔
            (id ∈ refs.map SubDataItem.id ∨ countId items id = 0) := by
        intro id
        rw [getElem?_checkReferences herr id, getElem?_countOccurrences]
        by_cases hmem : id ∈ refs.map SubDataItem.id
        · simp [hmem]
        · simp [hmem]
      rw [ExtTreeMap.isEmpty_iff, ExtTreeMap.eq_empty_iff_forall_not_mem]
      simp only [ExtTreeMap.mem_iff_isSome_getElem?, Bool.not_eq_true, Option.isSome_eq_false_iff,
        Option.isNone_iff_eq_none, hget]
      constructor
      · intro h di hdi
        refine (h di.id).resolve_right ?_
        rw [countId, List.countP_eq_zero]
        intro hall
        simpa using hall di hdi
      · intro h id
        by_cases hzero : countId items id = 0
        · exact .inr hzero
        · obtain ⟨di, hdi, rfl⟩ : ∃ di ∈ items, di.id = id := by
            simpa [countId, List.countP_eq_zero] using hzero
          exact .inl (h di hdi)
    simp only [herr, ne_eq, not_true_eq_false, if_false, true_and]
    split
    · next h => exact iff_of_true rfl (hempty.1 h)
    · next h =>
      simp only [bind_eq_ok, pure, Except.pure, Except.ok.injEq, mt hempty.2 h, iff_false,
        not_exists, not_and]
      exact fun texts _ => unexpected_ne_nil texts
  · simp only [ne_eq, herr, not_false_eq_true, if_true, Except.ok.injEq, false_and]

/-- Among references with distinct ids, each is the first one. -/
theorem firstReferences_of_nodup {refs : List SubDataItem}
    (hnodup : (refs.map SubDataItem.id).Nodup) :
    firstReferences refs = refs := by
  refine List.filter_eq_self.2 fun ref href => ?_
  exact decide_eq_true (Bimap.find?_eq_some_of_nodup hnodup href)

/-- A list of data items is accepted exactly if its counters meet the references. -/
theorem validateOccurrences_eq_nil {cfg : ProtocolConfig} {items : DataItems}
    {refs : List SubDataItem} {parent : Option DataItemInfo}
    (hnodup : (refs.map SubDataItem.id).Nodup) :
    validateOccurrences cfg items refs parent = .ok [] ↔
      OccurrencesConform Reading.machine items refs := by
  have hdistinct : refs.Pairwise fun earlier later => earlier.id = later.id →
      checkOccurs later 0 = [] :=
    (List.pairwise_map.1 hnodup).imp fun hne heq => absurd heq hne
  rw [validateOccurrences_eq_nil_iff, checkReferences_eq_nil_iff_pairwise, and_iff_left hdistinct,
    firstReferences_of_nodup hnodup, OccurrencesConform]
  simp only [getD_countOccurrences, checkOccurs_eq_nil, List.mem_map]

/-! ## Data items -/

/-- Two checks of which the first error counts. -/
theorem firstError_eq_nil {x y : Except Exn Bytes} :
    (x >>= fun err => if err ≠ [] then pure err else y) = .ok [] ↔ x = .ok [] ∧ y = .ok [] := by
  rw [bind_eq_ok]
  constructor
  · rintro ⟨err, hx, hrest⟩
    split at hrest
    · next hne => exact absurd (Except.ok.inj hrest) hne
    · next hnil =>
      rw [ne_eq, not_not] at hnil
      exact ⟨hnil ▸ hx, hrest⟩
  · rintro ⟨hx, hy⟩
    exact ⟨[], hx, by simpa using hy⟩

/-- A check whose error gets a text in front. -/
theorem labelError_eq_nil {x : Except Exn Bytes} {name : String} :
    (x >>= fun err => pure (if err ≠ [] then str name ++ str " " ++ err else err)) = .ok [] ↔
      x = .ok [] := by
  have htext : str " " ≠ [] := str_ne_nil (by simp)
  rw [bind_eq_ok]
  constructor
  · rintro ⟨err, hx, hret⟩
    have heq := Except.ok.inj hret
    split at heq
    · simp [htext] at heq
    · exact heq ▸ hx
  · intro hx
    exact ⟨[], hx, rfl⟩

/-- A status is accepted exactly if its code is configured. -/
theorem validateStatus_eq_nil {cfg : ProtocolConfig} {id : StatusCodeIdType} :
    validateStatus cfg id = .ok [] ↔ ∃ name, cfg.getStatusCodeName id = .ok name := by
  unfold validateStatus ProtocolConfig.getStatusCodeName
  cases cfg.statusCodeMap.left id with
  | some name => simp
  | none => simp [throwStd, decimal_ne_nil]

/-- Flags are accepted exactly if they are 0 or 1. -/
theorem validateAddDrop_eq_nil {flags : UInt8} : validateAddDrop flags = [] ↔ flags ≤ 1 := by
  have htext : str "add/drop is " ≠ [] := str_ne_nil (by simp)
  unfold validateAddDrop
  split
  · next h => simp [htext, UInt8.not_le.2 h]
  · next h => simp [UInt8.not_lt.1 h]

/-- A subnet is accepted exactly if its flags are, and its prefix is short enough. -/
theorem validateSubnet_eq_nil {flags length max : UInt8} :
    validateSubnet flags length max = [] ↔ flags ≤ 1 ∧ length ≤ max := by
  have htext : str "subnet mask is " ≠ [] := str_ne_nil (by simp)
  unfold validateSubnet
  split
  · next h => simp [validateAddDrop_eq_nil, UInt8.not_le.2 h]
  · next h =>
    split
    · next hlen => simp [htext, UInt8.not_le.2 hlen]
    · next hlen => simp [UInt8.not_lt.1 h, UInt8.not_lt.1 hlen]

/-- A list is accepted exactly if each of its data items is. -/
theorem validateEach_eq_nil {cfg : ProtocolConfig} {parent : Option DataItemInfo}
    {items : DataItems} :
    validateEach cfg parent items = .ok [] ↔ ∀ di ∈ items, di.validate cfg parent = .ok [] := by
  induction items with
  | nil => simp [validateEach]
  | cons di items ih =>
    rw [validateEach, firstError_eq_nil, ih, List.forall_mem_cons]

/-- The checks of a list of sub data items. -/
theorem validateSubDataItems_eq_nil {cfg : ProtocolConfig} {info : DataItemInfo}
    {items : DataItems} (hnodup : (info.subDataItems.map SubDataItem.id).Nodup) :
    (do
      let err ← validateEach cfg (some info) items
      if err ≠ [] then return err
      else validateOccurrences cfg items info.subDataItems (some info)) = .ok [] ↔
      (∀ sdi ∈ items, sdi.validate cfg (some info) = .ok []) ∧
        OccurrencesConform Reading.machine items info.subDataItems := by
  rw [firstError_eq_nil, validateEach_eq_nil, validateOccurrences_eq_nil hnodup]

/-- The check of a value is the check of its limits, and of its sub data items if it is a list. -/
theorem DataItemValue.validate_eq_nil {cfg : ProtocolConfig} {info : DataItemInfo}
    {value : DataItemValue} (hnodup : (info.subDataItems.map SubDataItem.id).Nodup) :
    value.validate cfg info = .ok [] ↔ value.KeepsLimits Reading.machine cfg info ∧
      (value.isContainer → OccurrencesConform Reading.machine value.subItems info.subDataItems) ∧
      ∀ sdi ∈ value.subItems, sdi.validate cfg (some info) = .ok [] := by
  cases value with
  | u8 v =>
    have htext : str "is " ≠ [] := str_ne_nil (by simp)
    simp only [DataItemValue.validate, DataItemValue.KeepsLimits, DataItemValue.isContainer,
      DataItemValue.subItems, Reading.machine]
    by_cases hper : info.units = .percentage
    · by_cases hv : v > 100
      · simp [hper, hv, htext, UInt8.not_le.2 hv]
      · simp [hper, hv, UInt8.not_lt.1 hv]
    · by_cases hname : info.name = "Status"
      · simp [hper, hname, validateStatus_eq_nil]
      · simp [hper, hname]
  | u8String f1 f2 =>
    simp only [DataItemValue.validate, DataItemValue.KeepsLimits, DataItemValue.isContainer,
      DataItemValue.subItems]
    by_cases hname : info.name = "Status"
    · simp [hname, validateStatus_eq_nil]
    · simp [hname]
  | u8Ipv4 f1 f2 =>
    simp [DataItemValue.validate, DataItemValue.KeepsLimits, DataItemValue.isContainer,
      DataItemValue.subItems, validateAddDrop_eq_nil]
  | u8Ipv6 f1 f2 =>
    simp [DataItemValue.validate, DataItemValue.KeepsLimits, DataItemValue.isContainer,
      DataItemValue.subItems, validateAddDrop_eq_nil]
  | u8Ipv4U8 f1 f2 f3 =>
    simp [DataItemValue.validate, DataItemValue.KeepsLimits, DataItemValue.isContainer,
      DataItemValue.subItems, validateSubnet_eq_nil]
  | u8Ipv6U8 f1 f2 f3 =>
    simp [DataItemValue.validate, DataItemValue.KeepsLimits, DataItemValue.isContainer,
      DataItemValue.subItems, validateSubnet_eq_nil]
  | subDataItems items =>
    rw [DataItemValue.validate, validateSubDataItems_eq_nil hnodup]
    simp [DataItemValue.KeepsLimits, DataItemValue.isContainer, DataItemValue.subItems, and_comm]
  | u16SubDataItems f1 items =>
    rw [DataItemValue.validate, validateSubDataItems_eq_nil hnodup]
    simp [DataItemValue.KeepsLimits, DataItemValue.isContainer, DataItemValue.subItems, and_comm]
  | _ =>
    simp [DataItemValue.validate, DataItemValue.KeepsLimits, DataItemValue.isContainer,
      DataItemValue.subItems]

/-- A data item is accepted exactly if its id is configured, its type is that of its id, and its
value is accepted. -/
theorem DataItem.validate_eq_nil {cfg : ProtocolConfig} {parent : Option DataItemInfo}
    {id : DataItemIdType} {value : DataItemValue} :
    (DataItem.mk id value).validate cfg parent = .ok [] ↔
      ∃ info, cfg.getDataItemInfo id parent = .ok info ∧ value.getType = info.valueType ∧
        value.validate cfg info = .ok [] := by
  have htext : str " type is " ≠ [] := str_ne_nil (by simp)
  simp only [DataItem.validate, ProtocolConfig.getDataItemInfo]
  rw [bind_eq_ok]
  constructor
  · rintro ⟨name, hname, hrest⟩
    obtain ⟨info, hinfo, hrest⟩ := bind_eq_ok.1 hrest
    refine ⟨info, bind_eq_ok.2 ⟨name, hname, hinfo⟩, ?_⟩
    split at hrest
    · have := Except.ok.inj hrest
      simp [htext] at this
    · next htype => exact ⟨(not_not.1 htype).symm, labelError_eq_nil.1 hrest⟩
  · rintro ⟨info, hinfo, htype, herr⟩
    obtain ⟨name, hname, hinfo⟩ := bind_eq_ok.1 hinfo
    refine ⟨name, hname, bind_eq_ok.2 ⟨info, hinfo, ?_⟩⟩
    rw [if_neg (by simp [htype])]
    exact labelError_eq_nil.2 herr

/-- `validate` decides the grammar of data items, as the machine reads it. -/
theorem DataItem.validate_eq_nil_iff_conforms {cfg : ProtocolConfig}
    (hrefs : cfg.DistinctReferences) {parent : Option DataItemInfo} {di : DataItem} :
    di.validate cfg parent = .ok [] ↔ di.Conforms Reading.machine cfg parent := by
  induction di using DataItem.nesting_induction generalizing parent with
  | mk id value ih =>
    rw [DataItem.validate_eq_nil]
    constructor
    · rintro ⟨info, hinfo, htype, hvalue⟩
      have hnodup := hrefs.dataItem _ _ (cfg.getElem?_of_getDataItemInfo hinfo)
      obtain ⟨hlimits, hoccurs, hsubs⟩ := (DataItemValue.validate_eq_nil hnodup).1 hvalue
      exact .mk hinfo htype hlimits hoccurs fun sdi hsdi => (ih sdi hsdi).1 (hsubs sdi hsdi)
    · rintro ⟨hinfo, htype, hlimits, hoccurs, hsubs⟩
      have hnodup := hrefs.dataItem _ _ (cfg.getElem?_of_getDataItemInfo hinfo)
      refine ⟨_, hinfo, htype, (DataItemValue.validate_eq_nil hnodup).2 ⟨hlimits, hoccurs, ?_⟩⟩
      exact fun sdi hsdi => (ih sdi hsdi).2 (hsubs sdi hsdi)

/-! ## Messages -/

namespace ProtocolMessage

variable {cfg : ProtocolConfig} {pm : ProtocolMessage} {name : String}

/-- The information `validate` uses is the one that is configured for the id. -/
theorem getSignalInfo_of_getSignalName (hnames : cfg.NamesDisjoint)
    (hname : pm.getSignalName cfg = .ok name) :
    ∃ siginfo, cfg.infoOfId pm.isSignal pm.signalId = some siginfo ∧
      cfg.getSignalInfo name = .ok siginfo := by
  unfold getSignalName at hname
  split at hname
  · simp [throwStd] at hname
  · split at hname
    · next hsig =>
      rw [hsig]
      exact cfg.getSignalInfo_of_signal (cfg.getSignalName_eq_ok.1 hname)
    · next hmsg =>
      rw [Bool.not_eq_true] at hmsg
      rw [hmsg]
      exact cfg.getSignalInfo_of_message hnames (cfg.getMessageName_eq_ok.1 hname)

/-- `validate` decides the grammar of messages, as the machine reads it. -/
theorem validate_eq_nil_iff (hrefs : cfg.DistinctReferences) (hnames : cfg.NamesDisjoint)
    (hname : pm.getSignalName cfg = .ok name) {modemSender : Bool} :
    validate cfg modemSender pm = .ok [] ↔ pm.Conforms Reading.machine cfg modemSender := by
  obtain ⟨siginfo, hinfo, hsig⟩ := getSignalInfo_of_getSignalName hnames hname
  have hnodup := hrefs.signal _ _ _ hinfo
  have htext : str "cannot be sent by " ≠ [] := str_ne_nil (by simp)
  have hitems : validateEach cfg none pm.dataItems = .ok [] ↔
      ∀ di ∈ pm.dataItems, di.Conforms Reading.machine cfg none := by
    rw [validateEach_eq_nil]
    exact forall₂_congr fun di _ => DataItem.validate_eq_nil_iff_conforms hrefs
  have hconf : pm.Conforms Reading.machine cfg modemSender ↔
      siginfo.flags &&& SignalInfo.senderFlag modemSender ≠ 0 ∧
        OccurrencesConform Reading.machine pm.dataItems siginfo.dataItems ∧
        ∀ di ∈ pm.dataItems, di.Conforms Reading.machine cfg none := by
    simp [Conforms, hinfo]
  simp only [validate, hname, hsig, ok_bind]
  rw [labelError_eq_nil, hconf]
  unfold validateContent
  change (if siginfo.flags &&& SignalInfo.senderFlag modemSender = 0 then _ else _) = _ ↔ _
  split
  · next hflag => simp [htext, hflag]
  · next hflag =>
    rw [firstError_eq_nil, validateOccurrences_eq_nil hnodup, hitems, and_iff_right hflag]

/-- The error of a wrong prefix has a text. -/
theorem prefixMismatch_ne_nil {signalPrefix expected msg err : Bytes}
    (h : prefixMismatch signalPrefix expected msg = some err) : err ≠ [] := by
  induction expected generalizing msg with
  | nil => simp [prefixMismatch] at h
  | cons ch expected ih =>
    cases msg with
    | nil => simp [prefixMismatch] at h
    | cons b msg =>
      rw [prefixMismatch] at h
      split at h
      · obtain rfl := Option.some.inj h
        simp
      · exact ih h

/-- A prefix in the log does not make an error. -/
theorem withLogPrefix_eq_nil {logPrefix err : Bytes} :
    withLogPrefix logPrefix err = [] ↔ err = [] := by
  unfold withLogPrefix
  split
  · next h => simp [h]
  · rfl

/-- The text of an exception in looking up the name is not empty. -/
theorem getSignalName_what_ne_nil (cls : StdException) :
    pm.getSignalName cfg ≠ .error (.std cls []) := by
  unfold getSignalName ProtocolConfig.getSignalName ProtocolConfig.getMessageName
  split
  · simp [throwStd, decimal_ne_nil]
  · split <;> split <;> simp [throwStd, decimal_ne_nil]

section

variable [AddressText]

/-- A body that is parsed without an error text belongs to a message with a name. -/
theorem parseBody_getSignalName {q : ProtocolMessage} {c : ByteReader.Cursor}
    (h : (parseBody cfg q c).2 = .ok () ∨ ∃ cls, (parseBody cfg q c).2 = .error (.std cls [])) :
    ∃ name, (parseBody cfg q c).1.getSignalName cfg = .ok name := by
  unfold parseBody at h ⊢
  cases hid : deserializeField 4 cfg.signalIdSize c with
  | error e =>
    simp only [hid, reduceCtorEq, Except.error.injEq, false_or] at h
    obtain ⟨cls, rfl⟩ := h
    exact absurd rfl (deserializeField_what_ne_nil hid)
  | ok p =>
    cases hlen : deserializeField 8 cfg.signalLengthSize p.2 with
    | error e =>
      simp only [hid, hlen, reduceCtorEq, Except.error.injEq, false_or] at h
      obtain ⟨cls, rfl⟩ := h
      exact absurd rfl (deserializeField_what_ne_nil hlen)
    | ok p' =>
      simp only [hid, hlen] at h ⊢
      split at h
      · next e he =>
        simp only [reduceCtorEq, Except.error.injEq, false_or] at h
        obtain ⟨cls, rfl⟩ := h
        exact absurd he (getSignalName_what_ne_nil cls)
      · next name hname =>
        exact ⟨name, hname⟩

/-- A message that was parsed successfully has a name. -/
theorem getSignalName_of_parseBuffer {buf logPrefix : Bytes} {isSignal : Bool}
    {pm₀ : ProtocolMessage} (h : parseBuffer cfg buf isSignal logPrefix pm₀ = .ok ([], pm)) :
    ∃ name, pm.getSignalName cfg = .ok name := by
  unfold parseBuffer parse at h
  simp only at h
  generalize (if isSignal = true then str cfg.signalPrefix else []) = start at h
  split at h
  · have htext : str "signal is too short to have expected prefix " ≠ [] := str_ne_nil (by simp)
    have := (Prod.mk.inj (Except.ok.inj h)).1
    simp [withLogPrefix_eq_nil, htext] at this
  · split at h
    · next err herr =>
      have := (Prod.mk.inj (Except.ok.inj h)).1
      exact absurd (withLogPrefix_eq_nil.1 this) (prefixMismatch_ne_nil herr)
    · split at h
      · next q _ hbody =>
        obtain ⟨_, rfl⟩ := Prod.mk.inj (Except.ok.inj h)
        have := parseBody_getSignalName (.inl (congrArg Prod.snd hbody))
        rwa [hbody] at this
      · next q cls what hbody =>
        obtain ⟨hwhat, rfl⟩ := Prod.mk.inj (Except.ok.inj h)
        obtain rfl := withLogPrefix_eq_nil.1 hwhat
        have := parseBody_getSignalName (.inr ⟨cls, congrArg Prod.snd hbody⟩)
        rwa [hbody] at this
      · cases h

end

end ProtocolMessage

/-! ## Where the two readings agree -/

/-- The 32-bit counter takes `n` data items for a number with the other verdict. -/
def Occurs.Miscounts : Occurs → Nat → Prop
  | .one, n => n ≠ 1 ∧ n % 2 ^ 32 = 1
  | .zeroOrOne, n => 1 < n ∧ n % 2 ^ 32 ≤ 1
  | .oneOrMore, n => 1 ≤ n ∧ n % 2 ^ 32 = 0
  | .zeroOrMore, _ => False

/-- Some reference's count is mistaken. -/
def Miscounted (items : DataItems) (refs : List SubDataItem) : Prop :=
  ∃ ref ∈ refs, ref.occurs.Miscounts (countId items ref.id)

/-- The value is a percentage that is also the status, with a code that is not configured. -/
def DataItemValue.UncheckedStatus (cfg : ProtocolConfig) (info : DataItemInfo)
    (value : DataItemValue) : Prop :=
  ∃ v, value = .u8 v ∧ info.name = "Status" ∧ info.units = .percentage ∧
    ¬ ∃ name, cfg.getStatusCodeName v.toUInt32 = .ok name

/-- Nothing in the data item is miscounted or left unchecked. -/
inductive DataItem.Decided (cfg : ProtocolConfig) : Option DataItemInfo → DataItem → Prop where
  | mk {parent : Option DataItemInfo} {id : DataItemIdType} {value : DataItemValue}
      (hcounts : ∀ info, cfg.getDataItemInfo id parent = .ok info → value.isContainer →
        ¬ Miscounted value.subItems info.subDataItems)
      (hstatus : ∀ info, cfg.getDataItemInfo id parent = .ok info →
        ¬ value.UncheckedStatus cfg info)
      (hsubs : ∀ info, cfg.getDataItemInfo id parent = .ok info →
        ∀ sdi ∈ value.subItems, Decided cfg (some info) sdi) :
      Decided cfg parent (.mk id value)

/-- Nothing in the message is miscounted or left unchecked. -/
def ProtocolMessage.Decided (cfg : ProtocolConfig) (pm : ProtocolMessage) : Prop :=
  (∀ siginfo, cfg.infoOfId pm.isSignal pm.signalId = some siginfo →
    ¬ Miscounted pm.dataItems siginfo.dataItems) ∧
  ∀ di ∈ pm.dataItems, di.Decided cfg none

/-- Both readings agree on a count that is not mistaken. -/
theorem Occurs.allows_machine_iff {o : Occurs} {n : Nat} (h : ¬ o.Miscounts n) :
    o.Allows (Reading.machine.count n) ↔ o.Allows (Reading.exact.count n) := by
  cases o <;> simp only [Occurs.Miscounts, Occurs.Allows, Reading.machine, Reading.exact, id] at h ⊢
    <;> omega

/-- A count that both readings allow is not mistaken. -/
theorem Occurs.not_miscounts {o : Occurs} {n : Nat} (hm : o.Allows (Reading.machine.count n))
    (he : o.Allows (Reading.exact.count n)) : ¬ o.Miscounts n := by
  intro hmis
  cases o <;> simp only [Occurs.Miscounts, Occurs.Allows, Reading.machine, Reading.exact, id] at *
    <;> omega

/-- Both readings agree on a list in which no count is mistaken. -/
theorem occurrencesConform_machine_iff {items : DataItems} {refs : List SubDataItem}
    (h : ¬ Miscounted items refs) :
    OccurrencesConform Reading.machine items refs ↔
      OccurrencesConform Reading.exact items refs :=
  and_congr (forall₂_congr fun ref href => Occurs.allows_machine_iff fun hm => h ⟨ref, href, hm⟩)
    Iff.rfl

/-- In a list that both readings accept no count is mistaken. -/
theorem not_miscounted {items : DataItems} {refs : List SubDataItem}
    (hm : OccurrencesConform Reading.machine items refs)
    (he : OccurrencesConform Reading.exact items refs) : ¬ Miscounted items refs := by
  rintro ⟨ref, href, hmis⟩
  exact Occurs.not_miscounts (hm.1 ref href) (he.1 ref href) hmis

/-- A list that fits the counter is not miscounted. -/
theorem not_miscounted_of_length_lt {items : DataItems} {refs : List SubDataItem}
    (h : items.length < 2 ^ 32) : ¬ Miscounted items refs := by
  rintro ⟨ref, _, hmis⟩
  have hle : countId items ref.id ≤ items.length := List.countP_le_length
  generalize ref.occurs = o at hmis
  cases o <;> simp only [Occurs.Miscounts] at hmis <;> omega

/-- Both readings agree on a value whose status is checked. -/
theorem DataItemValue.keepsLimits_machine_iff {cfg : ProtocolConfig} {info : DataItemInfo}
    {value : DataItemValue} (hstatus : ¬ value.UncheckedStatus cfg info) :
    value.KeepsLimits Reading.machine cfg info ↔ value.KeepsLimits Reading.exact cfg info := by
  cases value with
  | u8 v =>
    simp only [DataItemValue.KeepsLimits, Reading.machine, Reading.exact]
    refine and_congr_right fun _ => forall_congr' fun hname => ?_
    by_cases hper : info.units = .percentage
    · -- only here do the readings differ: the check is skipped for a percentage
      have hcode : ∃ name, cfg.getStatusCodeName v.toUInt32 = .ok name := by
        by_contra hno
        exact hstatus ⟨v, rfl, hname, hper, hno⟩
      simp [hcode]
    · simp [hper]
  | _ => exact Iff.rfl

/-- By induction over the data item: both readings agree where everything is decided. -/
theorem DataItem.Decided.conforms_iff {cfg : ProtocolConfig} {parent : Option DataItemInfo}
    {di : DataItem} (h : di.Decided cfg parent) :
    di.Conforms Reading.machine cfg parent ↔ di.Conforms Reading.exact cfg parent := by
  induction h with
  | @mk parent id value hcounts hstatus _ ih =>
    constructor
    · rintro ⟨hinfo, htype, hlimits, hoccurs, hsubs⟩
      refine .mk hinfo htype ((DataItemValue.keepsLimits_machine_iff (hstatus _ hinfo)).1 hlimits)
        (fun hc => ?_) fun sdi hsdi => (ih _ hinfo sdi hsdi).1 (hsubs sdi hsdi)
      exact (occurrencesConform_machine_iff (hcounts _ hinfo hc)).1 (hoccurs hc)
    · rintro ⟨hinfo, htype, hlimits, hoccurs, hsubs⟩
      refine .mk hinfo htype ((DataItemValue.keepsLimits_machine_iff (hstatus _ hinfo)).2 hlimits)
        (fun hc => ?_) fun sdi hsdi => (ih _ hinfo sdi hsdi).2 (hsubs sdi hsdi)
      exact (occurrencesConform_machine_iff (hcounts _ hinfo hc)).2 (hoccurs hc)

/-- A data item that conforms in both readings has nothing on which they could differ. -/
theorem DataItem.Conforms.decided {cfg : ProtocolConfig} {parent : Option DataItemInfo}
    {di : DataItem} (hm : di.Conforms Reading.machine cfg parent)
    (he : di.Conforms Reading.exact cfg parent) : di.Decided cfg parent := by
  induction hm with
  | @mk parent id value info hinfo _ _ hoccurs _ ih =>
    obtain ⟨hinfo', _, hlimits', hoccurs', hsubs'⟩ := he
    obtain rfl := Except.ok.inj (hinfo.symm.trans hinfo')
    have huniq : ∀ info', cfg.getDataItemInfo id parent = .ok info' → info' = info :=
      fun _ h => Except.ok.inj (h.symm.trans hinfo)
    refine .mk (fun info' h hc => ?_) (fun info' h => ?_) fun info' h sdi hsdi => ?_
    · obtain rfl := huniq info' h
      exact not_miscounted (hoccurs hc) (hoccurs' hc)
    · obtain rfl := huniq info' h
      rintro ⟨v, rfl, hname, _, hno⟩
      exact hno (hlimits'.2 hname fun _ => rfl)
    · obtain rfl := huniq info' h
      exact ih sdi hsdi (hsubs' sdi hsdi)

namespace ProtocolMessage

/-- Both readings agree on a message where everything is decided. -/
theorem Decided.conforms_iff {cfg : ProtocolConfig} {modemSender : Bool} {pm : ProtocolMessage}
    (h : pm.Decided cfg) :
    pm.Conforms Reading.machine cfg modemSender ↔ pm.Conforms Reading.exact cfg modemSender := by
  refine exists_congr fun siginfo => and_congr_right fun hinfo => and_congr_right fun _ => ?_
  refine and_congr (occurrencesConform_machine_iff (h.1 siginfo hinfo)) ?_
  exact forall₂_congr fun di hdi => (h.2 di hdi).conforms_iff

/-- A message that both readings accept has everything decided. -/
theorem Conforms.decided {cfg : ProtocolConfig} {modemSender : Bool} {pm : ProtocolMessage}
    (hm : pm.Conforms Reading.machine cfg modemSender)
    (he : pm.Conforms Reading.exact cfg modemSender) : pm.Decided cfg := by
  obtain ⟨info, hinfo, _, hoccurs, hitems⟩ := hm
  obtain ⟨info', hinfo', _, hoccurs', hitems'⟩ := he
  obtain rfl := Option.some.inj (hinfo.symm.trans hinfo')
  refine ⟨fun siginfo h => ?_, fun di hdi => (hitems di hdi).decided (hitems' di hdi)⟩
  obtain rfl := Option.some.inj (h.symm.trans hinfo)
  exact not_miscounted hoccurs hoccurs'

/-- `validate` decides the configured grammar on every parsed message in which nothing is miscounted
or left unchecked; and among the messages that conform or are accepted, only on these. -/
theorem validate_iff_conforms [AddressText] {cfg : ProtocolConfig} {buf logPrefix : Bytes}
    {isSignal modemSender : Bool} {pm₀ pm : ProtocolMessage} (hrefs : cfg.DistinctReferences)
    (hnames : cfg.NamesDisjoint)
    (hparse : parseBuffer cfg buf isSignal logPrefix pm₀ = .ok ([], pm)) :
    (pm.Decided cfg →
      (validate cfg modemSender pm = .ok [] ↔ pm.Conforms Reading.exact cfg modemSender)) ∧
    (validate cfg modemSender pm = .ok [] ∨ pm.Conforms Reading.exact cfg modemSender →
      ((validate cfg modemSender pm = .ok [] ↔ pm.Conforms Reading.exact cfg modemSender) ↔
        pm.Decided cfg)) := by
  obtain ⟨name, hname⟩ := getSignalName_of_parseBuffer hparse
  rw [validate_eq_nil_iff hrefs hnames hname]
  refine ⟨Decided.conforms_iff, fun heither => ⟨fun hiff => ?_, Decided.conforms_iff⟩⟩
  obtain hm | he := heither
  · exact hm.decided (hiff.1 hm)
  · exact (hiff.2 he).decided he

/-- The message of `upResponse`, as it is parsed. -/
theorem validate_iff_conforms_upResponse :
    ∃ pm, @parseBuffer plainText rfc8175 upResponse.msgbuf false [] {} = .ok ([], pm) ∧
      pm.dataItems = upResponseItems ∧ pm.Decided rfc8175 ∧
      (validate rfc8175 false pm = .ok [] ↔ pm.Conforms Reading.exact rfc8175 false) := by
  let := plainText
  obtain ⟨body, hframes⟩ := building_upResponse.frames
  obtain ⟨pm, hparse, _, hitems⟩ :=
    (hframes.parseBuffer_iff upResponseItems_wellTyped [] {}).2 upResponseItems_decodable
  have hdecided : pm.Decided rfc8175 := by
    rw [Decided, hitems]
    refine ⟨fun siginfo _ => not_miscounted_of_length_lt (by decide), ?_⟩
    simp only [upResponseItems, List.forall_mem_cons]
    refine ⟨.mk ?_ ?_ ?_, .mk ?_ ?_ ?_, by simp⟩ <;>
      simp [DataItemValue.isContainer, DataItemValue.UncheckedStatus, DataItemValue.subItems]
  exact ⟨pm, hparse, hitems, hdecided,
    (validate_iff_conforms rfc8175_distinctReferences rfc8175_namesDisjoint hparse).1 hdecided⟩

/-- A configuration whose status is a percentage, with a single status code. -/
def percentStatus : ProtocolConfig :=
  .ofDefinitions ⟨2, FieldSize.two_fits⟩ ⟨2, FieldSize.two_fits⟩
    { messages := [Rfc8175.message "Report" 1 .both 0 [⟨"Status", 1, .one⟩]]
      dataItems := [{ Rfc8175.item "Status" 1 .u8 with units := .percentage }]
      statusCodes := [⟨"Success", 0, .continue⟩] }
    (by decide)

/-- The status code 7 is not configured, and the message that carries it is accepted. -/
theorem validate_percentStatus :
    percentStatus.DistinctReferences ∧ percentStatus.NamesDisjoint ∧
      ∃ pm, @parseBuffer plainText percentStatus [0, 1, 0, 5, 0, 1, 0, 1, 7] false [] {} =
          .ok ([], pm) ∧
        validate percentStatus true pm = .ok [] ∧
        ¬ pm.Conforms Reading.exact percentStatus true := by
  let := plainText
  refine ⟨ProtocolConfig.ofDefinitions_distinctReferences (by decide) (by decide),
    ProtocolConfig.ofDefinitions_namesDisjoint (by decide), _, rfl, by decide +kernel, ?_⟩
  rintro ⟨_, _, _, _, hitems⟩
  obtain ⟨hinfo, _, hlimits, _, _⟩ := hitems _ (List.mem_singleton.2 rfl)
  obtain rfl := Except.ok.inj hinfo
  obtain ⟨name, hcode⟩ := hlimits.2 rfl fun _ => rfl
  have hnone : (percentStatus.getStatusCodeName 7).toOption = none := by decide +kernel
  have hsome := congrArg Except.toOption hcode
  exact absurd (hnone.symm.trans hsome) (by simp [Except.toOption])

end ProtocolMessage

end Dlep
