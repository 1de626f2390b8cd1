import Dlep.ConfigLoader.Consistent

/-!
# Kinds and responses after loading

The response to a message is stored as an id, 0 for none, and looked up in the table that the
message flag of the stored information chooses. The flag follows the last element that has a
`message`; the table an entry is in follows the element that defined it. `Follows` is what the
tables hold after a sequence of elements about signals, as long as no name is that of a signal and
of a message: one step is `Follows.record`, a whole file `ConfigFile.follows_of_extract`. From it
come the exact conditions under which the flag agrees with the table and a lookup returns the
configured response (`ConfigFile.load_matchesSignals_iff`).
-/

namespace Dlep

open Std

/-! ## The message flag -/

/-- The message flag is the lowest bit. -/
theorem SignalInfo.message_iff_bit (flags : UInt32) :
    flags &&& messageFlag ≠ 0 ↔ flags.toBitVec.getLsbD 0 = true := by
  rw [Ne, ← UInt32.toNat_inj, UInt32.toNat_and]
  show ¬ flags.toNat &&& 1 = 0 ↔ flags.toNat.testBit 0 = true
  rw [Nat.and_one_is_mod, Nat.testBit_zero, decide_eq_true_eq]
  omega

namespace SignalElement

variable (el : SignalElement)

/-- The flag that an element sets is its kind. -/
theorem flags_message : el.flags &&& SignalInfo.messageFlag ≠ 0 ↔ el.isMessage = true := by
  unfold flags
  cases el.isMessage <;> cases el.sender with
  | none => decide
  | some sender => cases sender <;> decide

/-- The flag counts as given where the element has a `message`. -/
theorem haveFlags_message :
    el.haveFlags &&& SignalInfo.messageFlag ≠ 0 ↔ el.message.isSome = true := by
  unfold haveFlags
  cases el.message.isSome <;> cases el.sender.isSome <;> decide

/-- An element without a `message` leaves the flag as it is. -/
theorem modifySignal_message (dataItems : List SubDataItem) (existing : SignalInfo) :
    (ConfigTables.modifySignal el dataItems existing).flags &&& SignalInfo.messageFlag ≠ 0 ↔
      if el.message.isSome then el.isMessage = true
      else existing.flags &&& SignalInfo.messageFlag ≠ 0 := by
  have hmerge : (existing.flags &&& ~~~el.haveFlags ||| el.flags) &&& SignalInfo.messageFlag ≠ 0 ↔
      (existing.flags &&& SignalInfo.messageFlag ≠ 0 ∧
        ¬ el.haveFlags &&& SignalInfo.messageFlag ≠ 0) ∨
      el.flags &&& SignalInfo.messageFlag ≠ 0 := by
    simp [SignalInfo.message_iff_bit, -ne_eq]
  rw [haveFlags_message, flags_message] at hmerge
  show (if el.haveFlags ≠ 0 then existing.flags &&& ~~~el.haveFlags ||| el.flags
    else existing.flags) &&& SignalInfo.messageFlag ≠ 0 ↔ _
  cases hmessage : el.message with
  | none =>
    have hno : el.isMessage = false := by simp [isMessage, hmessage]
    simp only [hmessage, hno, Option.isSome_none, Bool.false_eq_true, not_false_eq_true, and_true,
      or_false, if_false] at hmerge ⊢
    split
    · exact hmerge
    · exact Iff.rfl
  | some b =>
    have hhave : el.haveFlags ≠ 0 := by
      intro hzero
      have := el.haveFlags_message.2 (by simp [hmessage])
      simp [hzero] at this
    rw [if_pos hhave, hmerge]
    simp [hmessage]

/-- The id a definition is stored under. -/
def extractedId : SignalIdType := (el.id.map extractId).getD 0

end SignalElement

/-! ## Definitions

The first element about a name defines it, and the others refer to it. -/

namespace SignalElements

variable (els : List SignalElement)

def definition (name : String) : Option SignalElement := els.find? fun el => el.name = name

/-- Whether the last element about a name that has a `message` says that it is one. -/
def lastKind (name : String) : Bool :=
  (((els.filter fun el => el.name = name).filterMap SignalElement.message).getLast?.map
    XmlBoolean.extract).getD false

/-- The id stored for the response of a definition. -/
def responseId (d : SignalElement) : SignalIdType :=
  ((d.response.bind (definition els)).map SignalElement.extractedId).getD 0

/-- No later element about a name leaves it with another kind than its definition gave it. -/
def KindsKept : Prop :=
  ∀ name d, definition els name = some d → lastKind els name = d.isMessage

/-- The definition of a response is of the same kind and has an id other than 0. A response with
the empty name may have id 0. -/
def ResponsesUsable : Prop :=
  ∀ name d, definition els name = some d → ∀ r dr, d.response = some r →
    definition els r = some dr →
    if dr.extractedId = 0 then r = "" else dr.isMessage = d.isMessage

/-! Only the names of the elements are defined, so that both conditions can be checked. -/

/-- The definition of a name is an element with that name. -/
theorem name_mem_of_definition {name : String} {d : SignalElement}
    (h : definition els name = some d) : d ∈ els ∧ d.name = name :=
  ⟨List.mem_of_find?_eq_some h, by simpa using List.find?_some h⟩

instance : Decidable (KindsKept els) :=
  decidable_of_iff
    (∀ el ∈ els, ∀ d ∈ definition els el.name, lastKind els el.name = d.isMessage) <| by
    constructor
    · intro h name d hd
      obtain ⟨hmem, rfl⟩ := name_mem_of_definition els hd
      exact h d hmem d hd
    · exact fun h el _ d hd => h el.name d hd

instance : Decidable (ResponsesUsable els) :=
  decidable_of_iff
    (∀ el ∈ els, ∀ d ∈ definition els el.name, ∀ r ∈ d.response, ∀ dr ∈ definition els r,
      if dr.extractedId = 0 then r = "" else dr.isMessage = d.isMessage) <| by
    constructor
    · intro h name d hd r dr hr hdr
      obtain ⟨hmem, rfl⟩ := name_mem_of_definition els hd
      exact h d hmem d hd r hr dr hdr
    · exact fun h el _ d hd r hr dr hdr => h el.name d hd r dr hr hdr

/-- One more element is the definition of its name if there is none before it. -/
theorem definition_concat (el : SignalElement) (name : String) :
    definition (els ++ [el]) name =
      (definition els name).or (if el.name = name then some el else none) := by
  rw [definition, List.find?_append, definition]
  by_cases hname : el.name = name <;> simp [hname]

/-- An element about another name does not change the kind. -/
theorem lastKind_concat_of_ne {el : SignalElement} {name : String} (hname : el.name ≠ name) :
    lastKind (els ++ [el]) name = lastKind els name := by
  simp [lastKind, hname]

/-- The last element that has a `message` decides. -/
theorem lastKind_concat (el : SignalElement) :
    lastKind (els ++ [el]) el.name =
      if el.message.isSome then el.isMessage else lastKind els el.name := by
  cases hmessage : el.message with
  | none => simp [lastKind, hmessage]
  | some b => simp [lastKind, hmessage, SignalElement.isMessage]

/-- A later element does not change what an earlier name means. -/
theorem responseId_concat {el d : SignalElement}
    (h : ∀ r, d.response = some r → (definition els r).isSome) :
    responseId (els ++ [el]) d = responseId els d := by
  unfold responseId
  cases hr : d.response with
  | none => rfl
  | some r =>
    obtain ⟨dr, hdr⟩ := Option.isSome_iff_exists.1 (h r hr)
    simp [definition_concat, hdr]

end SignalElements

open SignalElements

namespace ConfigTables

variable {t t' : ConfigTables}

/-- No name is that of a signal and of a message. -/
def NamesDisjoint (t : ConfigTables) : Prop :=
  ∀ name, t.signalMap.right name = none ∨ t.messageMap.right name = none

/-- Tables in which names are disjoint had them disjoint before. -/
theorem NamesDisjoint.of_grows (hgrows : Grows t t') (h : t'.NamesDisjoint) : t.NamesDisjoint := by
  intro name
  by_contra hboth
  obtain ⟨hs, hm⟩ := not_or.1 hboth
  obtain ⟨i, hi⟩ := Option.ne_none_iff_exists'.1 hs
  obtain ⟨j, hj⟩ := Option.ne_none_iff_exists'.1 hm
  have hi' := hgrows.idNameMap false i name (t.signalMap.left_eq_some_iff_right.2 hi)
  have hj' := hgrows.idNameMap true j name (t.messageMap.left_eq_some_iff_right.2 hj)
  rcases h name with hnone | hnone
  · rw [t'.signalMap.left_eq_some_iff_right.1 hi'] at hnone
    cases hnone
  · rw [t'.messageMap.left_eq_some_iff_right.1 hj'] at hnone
    cases hnone

/-- A name is found in the tables of one kind only, under one id. -/
theorem NamesDisjoint.kind_eq (h : t.NamesDisjoint) {b b' : Bool} {i i' : SignalIdType}
    {name : String} (hi : (t.idNameMap b).right name = some i)
    (hi' : (t.idNameMap b').right name = some i') : b = b' ∧ i = i' := by
  cases b <;> cases b'
  · exact ⟨rfl, Option.some.inj (hi.symm.trans hi')⟩
  · rcases h name with hnone | hnone
    · exact absurd (hi.symm.trans hnone) (by simp)
    · exact absurd (hi'.symm.trans hnone) (by simp)
  · rcases h name with hnone | hnone
    · exact absurd (hi'.symm.trans hnone) (by simp)
    · exact absurd (hi.symm.trans hnone) (by simp)
  · exact ⟨rfl, Option.some.inj (hi.symm.trans hi')⟩

/-! ## What the tables hold after some elements -/

/-- What is stored about a name after the elements `els`, the first of which about it is `d`. -/
structure Stored (els : List SignalElement) (t : ConfigTables) (name : String)
    (d : SignalElement) : Prop where
  right_eq : (t.idNameMap d.isMessage).right name = some d.extractedId
  info : ∃ info, (t.idInfoMap d.isMessage)[d.extractedId]? = some info ∧
    (info.flags &&& SignalInfo.messageFlag ≠ 0 ↔ lastKind els name = true) ∧
    info.responseId = responseId els d
  response_defined : ∀ r, d.response = some r → (definition els r).isSome

structure Follows (els : List SignalElement) (t : ConfigTables) : Prop where
  undefined : ∀ name, definition els name = none → ∀ b, (t.idNameMap b).right name = none
  defined : ∀ name d, definition els name = some d → Stored els t name d

/-- The name a lookup finds was defined. -/
theorem Follows.exists_definition {els : List SignalElement} (h : Follows els t) {b : Bool}
    {i : SignalIdType} {name : String} (hi : (t.idNameMap b).right name = some i) :
    ∃ d, definition els name = some d := by
  cases hd : definition els name with
  | some d => exact ⟨d, rfl⟩
  | none =>
    rw [h.undefined name hd b] at hi
    cases hi

/-- Before the first element the tables know of no name. -/
theorem follows_empty : Follows [] empty where
  undefined name _ b := by cases b <;> simp [idNameMap, empty]
  defined name d h := by simp [definition] at h

section

variable {els : List SignalElement} {el : SignalElement} {isMessage : Bool} {id : SignalIdType}
  {info : SignalInfo}

/-- An element about another name does not touch what is stored. -/
theorem Stored.record_other {name : String} {d : SignalElement}
    (hentry : t.Entry el isMessage id info) (hne : el.name ≠ name) (h : Stored els t name d) :
    Stored (els ++ [el]) (t.recordSignal isMessage id info) name d := by
  have hright : ((t.recordSignal isMessage id info).idNameMap d.isMessage).right name =
      some d.extractedId := by
    rw [right_recordSignal hentry.fits, if_neg, h.right_eq]
    rintro ⟨-, hname⟩
    exact hne (hentry.name.symm.trans hname.symm)
  refine ⟨hright, ?_, fun r hr => ?_⟩
  · obtain ⟨stored, hstored, hflag, hresponse⟩ := h.info
    refine ⟨stored, ?_, ?_, ?_⟩
    · rw [idInfoMap_recordSignal, if_neg, hstored]
      rintro ⟨rfl, rfl⟩
      -- The id would have both names in the new tables.
      have hleft := hentry.left_eq
      rw [(Bimap.left_eq_some_iff_right _).2 hright] at hleft
      exact hne (Option.some.inj hleft).symm
    · rw [lastKind_concat_of_ne els hne]
      exact hflag
    · rw [responseId_concat els h.response_defined]
      exact hresponse
  · obtain ⟨dr, hdr⟩ := Option.isSome_iff_exists.1 (h.response_defined r hr)
    simp [definition_concat, hdr]

/-- A later element about the name finds the entry of the definition and modifies it. -/
theorem Stored.record_again {d : SignalElement} (hentry : t.Entry el isMessage id info)
    (hdisjoint : (t.recordSignal isMessage id info).NamesDisjoint) (h : Stored els t el.name d) :
    Stored (els ++ [el]) (t.recordSignal isMessage id info) el.name d := by
  have hnew : ((t.recordSignal isMessage id info).idNameMap isMessage).right el.name = some id := by
    rw [right_recordSignal hentry.fits, if_pos ⟨rfl, hentry.name.symm⟩]
  have hold : ((t.recordSignal isMessage id info).idNameMap d.isMessage).right el.name =
      some d.extractedId := by
    rw [← Bimap.left_eq_some_iff_right]
    exact hentry.grows.idNameMap _ _ _ ((Bimap.left_eq_some_iff_right _).2 h.right_eq)
  obtain ⟨rfl, rfl⟩ := hdisjoint.kind_eq hnew hold
  refine ⟨hold, ?_, fun r hr => ?_⟩
  · obtain ⟨stored, hstored, hflag, hresponse⟩ := h.info
    refine ⟨info, by rw [idInfoMap_recordSignal, if_pos ⟨rfl, rfl⟩], ?_⟩
    rcases hentry.first_or_modified with ⟨hnone, -⟩ | ⟨existing, dataItems, hexisting, rfl⟩
    · rw [hstored] at hnone
      cases hnone
    · obtain rfl := Option.some.inj (hstored.symm.trans hexisting)
      constructor
      · rw [el.modifySignal_message, lastKind_concat]
        cases el.message.isSome with
        | true => exact Iff.rfl
        | false => exact hflag
      · rw [responseId_concat els h.response_defined]
        exact hresponse
  · obtain ⟨dr, hdr⟩ := Option.isSome_iff_exists.1 (h.response_defined r hr)
    simp [definition_concat, hdr]

/-- The response of an element is a name that was defined before, under the id of its definition. -/
theorem Follows.extractResponse (h : Follows els t) (hdisjoint : t.NamesDisjoint)
    {responseId : SignalIdType} (hresponse : t.extractResponse el = .ok responseId) :
    responseId = SignalElements.responseId els el ∧
      ∀ r, el.response = some r → (definition els r).isSome := by
  unfold ConfigTables.extractResponse at hresponse
  unfold SignalElements.responseId
  cases hr : el.response with
  | none =>
    rw [hr] at hresponse
    cases hresponse
    exact ⟨rfl, fun r hr' => nomatch hr'⟩
  | some r =>
    rw [hr] at hresponse
    dsimp only at hresponse
    split at hresponse
    · next i isSignal hget =>
      cases hresponse
      have hright := getSignalId_eq_ok hget
      obtain ⟨dr, hdr⟩ := h.exists_definition hright
      obtain ⟨-, hid⟩ := hdisjoint.kind_eq hright (h.defined r dr hdr).right_eq
      refine ⟨by simp [hdr, hid], fun r' hr' => ?_⟩
      obtain rfl := Option.some.inj hr'
      simp [hdr]
    · cases hresponse

/-- The first element about a name defines it. -/
theorem Follows.record_first (h : Follows els t) (ht : t.Consistent)
    (hentry : t.Entry el isMessage id info) (hdisjoint : t.NamesDisjoint)
    (hundefined : definition els el.name = none) :
    Stored (els ++ [el]) (t.recordSignal isMessage id info) el.name el := by
  obtain ⟨n, hn⟩ : ∃ n, el.id = some n := by
    cases hn : el.id with
    | some n => exact ⟨n, rfl⟩
    | none =>
      have hright := getSignalId_eq_ok (hentry.referred hn)
      rw [h.undefined el.name hundefined] at hright
      cases hright
  obtain ⟨rfl, rfl, hmessage⟩ := hentry.defined n hn
  have hid : el.extractedId = extractId n := by simp [SignalElement.extractedId, hn]
  rcases hentry.first_or_modified with ⟨-, -, hflags, hresponse⟩ | ⟨existing, _, hexisting, -⟩
  · obtain ⟨hresponse, hdefined⟩ := h.extractResponse hdisjoint hresponse
    refine ⟨?_, ⟨info, ?_, ?_, ?_⟩, fun r hr => ?_⟩
    · rw [right_recordSignal hentry.fits, if_pos ⟨rfl, hentry.name.symm⟩, hid]
    · rw [idInfoMap_recordSignal, if_pos ⟨rfl, hid⟩]
    · rw [hflags, el.flags_message, lastKind_concat, if_pos hmessage]
    · rw [responseId_concat els hdefined]
      exact hresponse
    · obtain ⟨dr, hdr⟩ := Option.isSome_iff_exists.1 (hdefined r hr)
      simp [definition_concat, hdr]
  · -- An entry under the id would have the name already.
    have hleft := ht.signalInfo_name el.isMessage (extractId n)
    rw [hexisting] at hleft
    have hname := (hentry.fits.1 existing.name hleft.symm).trans hentry.name
    have hright := (Bimap.left_eq_some_iff_right _).1 hleft.symm
    rw [hname, h.undefined el.name hundefined] at hright
    cases hright

/-- What one more element about a signal does. -/
theorem Follows.record (h : Follows els t) (ht : t.Consistent)
    (hentry : t.Entry el isMessage id info)
    (hdisjoint : (t.recordSignal isMessage id info).NamesDisjoint) :
    Follows (els ++ [el]) (t.recordSignal isMessage id info) := by
  constructor
  · intro name hundefined b
    rw [definition_concat, Option.or_eq_none_iff] at hundefined
    obtain ⟨hold, hnew⟩ := hundefined
    have hne : el.name ≠ name := fun heq => by simp [heq] at hnew
    rw [right_recordSignal hentry.fits, if_neg, h.undefined name hold]
    rintro ⟨-, hname⟩
    exact hne (hentry.name.symm.trans hname.symm)
  · intro name d hd
    rw [definition_concat] at hd
    cases hold : definition els name with
    | some d' =>
      rw [hold, Option.some_or] at hd
      obtain rfl := Option.some.inj hd
      by_cases hne : el.name = name
      · subst hne
        exact (h.defined el.name d' hold).record_again hentry hdisjoint
      · exact (h.defined name d' hold).record_other hentry hne
    | none =>
      rw [hold, Option.none_or] at hd
      split at hd
      · next hname =>
        subst hname
        obtain rfl := Option.some.inj hd
        exact h.record_first ht hentry (hdisjoint.of_grows hentry.grows) hold
      · cases hd

end

/-- Data items and status codes do not matter for what is stored about names. -/
theorem Follows.sameSignals {els : List SignalElement} (hsame : SameSignals t t')
    (h : Follows els t) : Follows els t' := by
  constructor
  · intro name hundefined b
    rw [hsame.idNameMap]
    exact h.undefined name hundefined b
  · intro name d hd
    have hstored := h.defined name d hd
    exact ⟨by rw [hsame.idNameMap, hstored.right_eq], by rw [hsame.idInfoMap]; exact hstored.info,
      hstored.response_defined⟩

end ConfigTables

namespace ConfigFile

variable {file : ConfigFile} {t : ConfigTables}

open ConfigTables

/-- Signals are read in the order of the file, and the other elements do not touch their tables. -/
theorem follows_of_extract (h : file.extractProtocolConfig = .ok t) (hdisjoint : t.NamesDisjoint) :
    Follows file.signalElements t := by
  have hrun := consistent_empty.foldlM_extractModule
    (I := fun els s => s.NamesDisjoint → Follows els s) ?_ ?_ (fun _ => follows_empty) h
  · exact hrun.2 hdisjoint
  · intro els s s' hgrows hsame hfollows hd
    exact (hfollows (hd.of_grows hgrows)).sameSignals hsame
  · intro els s el s' hs hstep hfollows hd
    obtain ⟨isMessage, id, info, hentry, rfl⟩ := hs.extractModuleSignal hstep
    exact (hfollows (hd.of_grows hentry.grows)).record hs hentry hd

/-- A file loads exactly if its modules do, and the configuration is made of their tables. -/
theorem load_eq_ok {cfg : ProtocolConfig} (h : file.load = .ok cfg) :
    ∃ t, ∃ ht : t.Consistent, file.extractProtocolConfig = .ok t ∧ cfg = t.toConfig ht file := by
  unfold load at h
  split at h
  · next t hrun =>
    cases h
    exact ⟨t, (consistent_of_extract hrun).1, hrun, rfl⟩
  · cases h

end ConfigFile

/-! ## The lookups -/

/-- The message flag of what is stored agrees with the table it is in, and the response to a message
is that of its definition, `""` where it has none. -/
structure ProtocolConfig.MatchesSignals (cfg : ProtocolConfig) (els : List SignalElement) :
    Prop where
  signal : ∀ (id : SignalIdType) (info : SignalInfo), cfg.signalInfoMap[id]? = some info →
    info.flags &&& SignalInfo.messageFlag = 0
  message : ∀ (id : SignalIdType) (info : SignalInfo), cfg.messageInfoMap[id]? = some info →
    info.flags &&& SignalInfo.messageFlag ≠ 0
  response : ∀ name d, definition els name = some d →
    cfg.getMessageResponseName name = .ok (d.response.getD "")

namespace ConfigTables

variable {els : List SignalElement} {t : ConfigTables}

/-- What is stored is what a definition has entered. -/
theorem Follows.exists_stored (h : Follows els t) (ht : t.Consistent)
    (hdisjoint : t.NamesDisjoint) {b : Bool} {id : SignalIdType} {info : SignalInfo}
    (hinfo : (t.idInfoMap b)[id]? = some info) :
    ∃ name d, definition els name = some d ∧ b = d.isMessage ∧ id = d.extractedId := by
  have hleft := ht.signalInfo_name b id
  rw [hinfo] at hleft
  have hright := (Bimap.left_eq_some_iff_right _).1 hleft.symm
  obtain ⟨d, hd⟩ := h.exists_definition hright
  exact ⟨info.name, d, hd, hdisjoint.kind_eq hright (h.defined _ d hd).right_eq⟩

/-- Every stored flag agrees with its table exactly if no later element has changed a kind. -/
theorem Follows.flags_match_iff (h : Follows els t) (ht : t.Consistent)
    (hdisjoint : t.NamesDisjoint) :
    (∀ (b : Bool) (id : SignalIdType) (info : SignalInfo), (t.idInfoMap b)[id]? = some info →
      (info.flags &&& SignalInfo.messageFlag ≠ 0 ↔ b = true)) ↔ KindsKept els := by
  constructor
  · intro hflags name d hd
    obtain ⟨info, hinfo, hflag, -⟩ := (h.defined name d hd).info
    rw [Bool.eq_iff_iff, ← hflag]
    exact hflags d.isMessage d.extractedId info hinfo
  · intro hkept b id info hinfo
    obtain ⟨name, d, hd, rfl, rfl⟩ := h.exists_stored ht hdisjoint hinfo
    obtain ⟨stored, hstored, hflag, -⟩ := (h.defined name d hd).info
    obtain rfl := Option.some.inj (hinfo.symm.trans hstored)
    rw [hflag, hkept name d hd]

/-- Looking up a defined name finds what its definition has entered. -/
theorem Follows.getSignalInfo (h : Follows els t) (ht : t.Consistent) (hdisjoint : t.NamesDisjoint)
    (file : ConfigFile) {name : String} {d : SignalElement} (hd : definition els name = some d) :
    ∃ info, (t.toConfig ht file).getSignalInfo name = .ok info ∧
      (info.flags &&& SignalInfo.messageFlag ≠ 0 ↔ lastKind els name = true) ∧
      info.responseId = responseId els d := by
  have hstored := h.defined name d hd
  obtain ⟨info, hinfo, hflag, hresponse⟩ := hstored.info
  have hleft := (Bimap.left_eq_some_iff_right _).2 hstored.right_eq
  refine ⟨info, ?_, hflag, hresponse⟩
  cases hkind : d.isMessage with
  | false =>
    rw [hkind] at hleft hinfo
    obtain ⟨found, hfound, hget⟩ := (t.toConfig ht file).getSignalInfo_of_signal hleft
    obtain rfl := Option.some.inj (hinfo.symm.trans hfound)
    exact hget
  | true =>
    rw [hkind] at hleft hinfo
    obtain ⟨found, hfound, hget⟩ := (t.toConfig ht file).getSignalInfo_of_message hdisjoint hleft
    obtain rfl := Option.some.inj (hinfo.symm.trans hfound)
    exact hget

/-- The response is looked up in the table of the kind that the last element gave. -/
theorem Follows.getMessageResponseName (h : Follows els t) (ht : t.Consistent)
    (hdisjoint : t.NamesDisjoint) (file : ConfigFile) {name : String} {d : SignalElement}
    (hd : definition els name = some d) (n : String) :
    (t.toConfig ht file).getMessageResponseName name = .ok n ↔
      if responseId els d = 0 then n = ""
      else (t.idNameMap (lastKind els name)).left (responseId els d) = some n := by
  obtain ⟨info, hget, hflag, hresponse⟩ := h.getSignalInfo ht hdisjoint file hd
  rw [ProtocolConfig.getMessageResponseName, hget, ok_bind, hresponse]
  split
  · exact ⟨fun heq => (Except.ok.inj heq).symm, fun heq => by rw [heq]; rfl⟩
  · cases hlast : lastKind els name with
    | true =>
      rw [if_pos (hflag.2 hlast)]
      exact ProtocolConfig.getMessageName_eq_ok _
    | false =>
      rw [if_neg (fun hset => by simp [hlast] at hflag; exact hset hflag)]
      exact ProtocolConfig.getSignalName_eq_ok _

/-- Where the kind of a name is that of its definition, the lookup returns the configured response
exactly when the response is usable. -/
theorem Follows.response_matches_iff (h : Follows els t) (ht : t.Consistent)
    (hdisjoint : t.NamesDisjoint) (file : ConfigFile) {name : String} {d : SignalElement}
    (hd : definition els name = some d) (hkept : lastKind els name = d.isMessage) :
    (t.toConfig ht file).getMessageResponseName name = .ok (d.response.getD "") ↔
      ∀ r dr, d.response = some r → definition els r = some dr →
        if dr.extractedId = 0 then r = "" else dr.isMessage = d.isMessage := by
  rw [h.getMessageResponseName ht hdisjoint file hd, hkept]
  cases hr : d.response with
  | none => simp [responseId, hr]
  | some r =>
    obtain ⟨dr, hdr⟩ := Option.isSome_iff_exists.1 ((h.defined name d hd).response_defined r hr)
    have hright := (h.defined r dr hdr).right_eq
    have hid : responseId els d = dr.extractedId := by simp [responseId, hr, hdr]
    have hfound : (t.idNameMap d.isMessage).left dr.extractedId = some r ↔
        dr.isMessage = d.isMessage := by
      constructor
      · intro hleft
        exact (hdisjoint.kind_eq hright ((Bimap.left_eq_some_iff_right _).1 hleft)).1
      · intro hkind
        rw [← hkind, Bimap.left_eq_some_iff_right, hright]
    rw [hid, Option.getD_some, hfound]
    constructor
    · intro husable r' dr' hr' hdr'
      obtain rfl := Option.some.inj hr'
      obtain rfl := Option.some.inj (hdr.symm.trans hdr')
      exact husable
    · intro husable
      exact husable r dr rfl hdr

end ConfigTables

/-- The lookups follow a loaded file exactly when no later element leaves a name with another kind
and every response is of the kind of its message, with an id other than 0. -/
theorem ConfigFile.load_matchesSignals_iff {file : ConfigFile} {cfg : ProtocolConfig}
    (h : file.load = .ok cfg) (hdisjoint : cfg.NamesDisjoint) :
    cfg.MatchesSignals file.signalElements ↔
      KindsKept file.signalElements ∧ ResponsesUsable file.signalElements := by
  obtain ⟨t, ht, hrun, rfl⟩ := load_eq_ok h
  have hfollows := follows_of_extract hrun hdisjoint
  have hflags := hfollows.flags_match_iff ht hdisjoint
  constructor
  · intro hmatches
    have hkept : KindsKept file.signalElements := by
      refine hflags.1 fun b id info hinfo => ?_
      cases b with
      | true => exact iff_of_true (hmatches.message id info hinfo) rfl
      | false => exact iff_of_false (not_not_intro (hmatches.signal id info hinfo)) (by simp)
    refine ⟨hkept, fun name d hd => ?_⟩
    exact (hfollows.response_matches_iff ht hdisjoint file hd (hkept name d hd)).1
      (hmatches.response name d hd)
  · rintro ⟨hkept, husable⟩
    have hagree := hflags.2 hkept
    refine ⟨fun id info hinfo => ?_, fun id info hinfo => ?_, fun name d hd => ?_⟩
    · by_contra hset
      exact absurd ((hagree false id info hinfo).1 hset) (by simp)
    · exact (hagree true id info hinfo).2 rfl
    · exact (hfollows.response_matches_iff ht hdisjoint file hd (hkept name d hd)).2
        (husable name d hd)

/-- Without signals no name is that of both. -/
theorem ProtocolConfig.namesDisjoint_of_isEmpty {cfg : ProtocolConfig}
    (h : cfg.signalMap.entries.isEmpty = true) : cfg.NamesDisjoint := by
  intro name
  left
  rw [Bimap.right, List.isEmpty_iff.1 h]
  rfl

/-- A file with a message that has a response, and a module that adds a reference to it. -/
theorem ConfigFile.load_matchesSignals_hopCount :
    ∃ cfg, sessionUpdateHopCount.load = .ok cfg ∧ cfg.NamesDisjoint ∧
      cfg.MatchesSignals sessionUpdateHopCount.signalElements := by
  have hrun : (match sessionUpdateHopCount.load with
      | .ok cfg => cfg.signalMap.entries.isEmpty
      | .error _ => false) = true := by
    decide +kernel
  split at hrun
  · next cfg hcfg =>
    have hdisjoint := ProtocolConfig.namesDisjoint_of_isEmpty hrun
    exact ⟨cfg, hcfg, hdisjoint,
      (load_matchesSignals_iff hcfg hdisjoint).2 ⟨by decide +kernel, by decide +kernel⟩⟩
  · cases hrun

/-- An extension that says that a message is a signal. -/
def ModuleElement.sessionUpdateAsSignal : ModuleElement where
  name := "extension"
  signals := [⟨"Session_Update", none, some .wordFalse, none, none, []⟩]

/-- A message whose response has id 0. -/
def ModuleElement.responseZero : ModuleElement where
  name := "core"
  signals := [
    ⟨"Session_Update_Response", some 0, some .wordTrue, some .both, none, []⟩,
    ⟨"Session_Update", some 3, some .wordTrue, some .both, some "Session_Update_Response", []⟩]

/-- The flag of a message can be cleared, and then its response is looked up among the signals. A
response with id 0 is taken for none. -/
theorem ConfigFile.load_not_matchesSignals :
    (∃ cfg, (ofModules [.sessionUpdate, .sessionUpdateAsSignal]).load = .ok cfg ∧
      cfg.NamesDisjoint ∧
      (∃ info, cfg.messageInfoMap[(3 : UInt32)]? = some info ∧
        info.flags &&& SignalInfo.messageFlag = 0) ∧
      cfg.getMessageResponseName "Session_Update" = throwStd .badSignalId (decimal 4) ∧
      ¬ cfg.MatchesSignals (ofModules [.sessionUpdate, .sessionUpdateAsSignal]).signalElements) ∧
    (∃ cfg, (ofModules [.responseZero]).load = .ok cfg ∧ cfg.NamesDisjoint ∧
      cfg.getMessageResponseName "Session_Update" = .ok "" ∧
      ¬ cfg.MatchesSignals (ofModules [.responseZero]).signalElements) := by
  constructor
  · have hrun : (match (ofModules [.sessionUpdate, .sessionUpdateAsSignal]).load with
        | .ok cfg => cfg.signalMap.entries.isEmpty &&
          (cfg.messageInfoMap[(3 : UInt32)]?).any
            (fun info => info.flags &&& SignalInfo.messageFlag == 0) &&
          (match cfg.getMessageResponseName "Session_Update" with
            | .error e => decide (e = .std .badSignalId (decimal 4))
            | .ok _ => false)
        | .error _ => false) = true := by
      decide +kernel
    split at hrun
    · next cfg hcfg =>
      rw [Bool.and_eq_true, Bool.and_eq_true, Option.any_eq_true] at hrun
      obtain ⟨⟨hempty, info, hinfo, hflag⟩, hlookup⟩ := hrun
      have hflag' : info.flags &&& SignalInfo.messageFlag = 0 := by simpa using hflag
      refine ⟨cfg, hcfg, ProtocolConfig.namesDisjoint_of_isEmpty hempty, ⟨info, hinfo, hflag'⟩, ?_,
        fun hmatches => hmatches.message 3 info hinfo hflag'⟩
      split at hlookup
      · next e he => rw [he, of_decide_eq_true hlookup, throwStd]
      · cases hlookup
    · cases hrun
  · have hrun : (match (ofModules [.responseZero]).load with
        | .ok cfg => cfg.signalMap.entries.isEmpty &&
          (match cfg.getMessageResponseName "Session_Update" with
            | .error _ => false
            | .ok n => n == "")
        | .error _ => false) = true := by
      decide +kernel
    split at hrun
    · next cfg hcfg =>
      rw [Bool.and_eq_true] at hrun
      obtain ⟨hempty, hlookup⟩ := hrun
      split at hlookup
      · cases hlookup
      · next n hn =>
        obtain rfl : n = "" := by simpa using hlookup
        refine ⟨cfg, hcfg, ProtocolConfig.namesDisjoint_of_isEmpty hempty, hn, fun hmatches => ?_⟩
        have hresponse := hmatches.response "Session_Update" _ rfl
        rw [hn] at hresponse
        exact absurd (Except.ok.inj hresponse) (by decide)
    · cases hrun

end Dlep
