import Dlep.ProtocolMessage.Across

/-!
# What a check of a composed message depends on

A message that was composed is parsed and checked by its composer. The check succeeds exactly if
the sender may send it, each data item alone can be written, read back and checked, and the
numbers of data items are allowed. The numbers are the only condition about more than one data
item, so that a message whose data items were in checked messages before can only fail in its
numbers and its length.
-/

namespace Dlep

open Std ByteReader

/-! ## One data item -/

namespace DataItem

/-- What is read of the bytes that are written for the data item. -/
def ReadBack (cfg : ProtocolConfig) (di read : DataItem) : Prop :=
  ∃ w form, di.serialize cfg = .ok w ∧ read.Wire cfg none form ∧ w = form.bytes

/-- The data item can be written, and what is read back can be printed and is checked without an
error. -/
def Passes (cfg : ProtocolConfig) (di : DataItem) : Prop :=
  ∃ read, di.ReadBack cfg read ∧ read.Resolves cfg none ∧ read.validate cfg none = .ok []

variable {cfg : ProtocolConfig} {di read : DataItem}

/-- A data item is read back under its id. -/
theorem ReadBack.id_eq (h : di.ReadBack cfg read) : read.id = di.id := by
  obtain ⟨w, form, hw, hform, hbytes⟩ := h
  have hsame : w ++ [] = form.bytes ++ [] := by rw [hbytes]
  exact (ProtocolMessage.readAs_of_append ⟨rfl, rfl, rfl, rfl, rfl⟩ hw hform hsame).1.1

/-- A data item that is read back has a configuration. -/
theorem ReadBack.info (h : di.ReadBack cfg read) :
    ∃ info, cfg.getDataItemInfo di.id none = .ok info := by
  have hid := h.id_eq
  obtain ⟨w, form, hw, hform, hbytes⟩ := h
  cases hform with
  | mk hinfo =>
    rw [← hid]
    exact ⟨_, hinfo⟩

/-- A data item that passes is configured. -/
theorem Passes.info (h : di.Passes cfg) : ∃ info, cfg.getDataItemInfo di.id none = .ok info := by
  obtain ⟨read, hread, _⟩ := h
  exact hread.info

/-- A data item that passes can be written. -/
theorem Passes.serialize (h : di.Passes cfg) : ∃ w, di.serialize cfg = .ok w := by
  obtain ⟨read, ⟨w, form, hw, _⟩, _⟩ := h
  exact ⟨w, hw⟩

/-- The number of bytes that are written for the data item. -/
def size (cfg : ProtocolConfig) (di : DataItem) : Nat :=
  match di.serialize cfg with
  | .ok w => w.length
  | .error _ => 0

/-- The size of a data item is that of its bytes. -/
theorem size_of_serialize {w : Bytes} (h : di.serialize cfg = .ok w) : di.size cfg = w.length := by
  rw [size, h]

end DataItem

/-! ## The numbers of data items -/

/-- The counts of two lists add up. -/
theorem countId_append {items items' : DataItems} {id : DataItemIdType} :
    countId (items ++ items') id = countId items id + countId items' id :=
  List.countP_append

/-- The numbers depend on the ids only. -/
theorem countId_of_map_id {items items' : DataItems}
    (h : items.map DataItem.id = items'.map DataItem.id) (id : DataItemIdType) :
    countId items id = countId items' id := by
  have hmap : ∀ l : DataItems, countId l id = (l.map DataItem.id).countP fun i => i = id := by
    intro l
    rw [List.countP_map]
    rfl
  rw [hmap, hmap, h]

/-- Lists with the same counts have the same occurrences. -/
theorem countOccurrences_of_countId {items items' : DataItems}
    (h : ∀ id, countId items id = countId items' id) :
    countOccurrences items = countOccurrences items' := by
  refine ExtTreeMap.ext_getElem? fun id => ?_
  rw [getElem?_countOccurrences, getElem?_countOccurrences, h id]

/-- Where the references were met once, they are met again if the first one with each id is. -/
theorem checkReferences_eq_nil_iff {refs : List SubDataItem}
    {before counts : ExtTreeMap DataItemIdType UInt32}
    (hbefore : (checkReferences refs before).1 = []) :
    (checkReferences refs counts).1 = [] ↔
      ∀ ref ∈ firstReferences refs, checkOccurs ref (counts[ref.id]?.getD 0) = [] := by
  rw [checkReferences_eq_nil_iff_pairwise,
    and_iff_left (checkReferences_eq_nil_iff_pairwise.1 hbefore).2]

/-- Where the numbers were allowed once, the numbers of other data items are allowed if all of
them are referenced and each number meets the first reference with its id. -/
theorem validateOccurrences_iff_of_eq_nil {cfg : ProtocolConfig} {before items : DataItems}
    {refs : List SubDataItem} {parent : Option DataItemInfo}
    (hbefore : validateOccurrences cfg before refs parent = .ok [])
    (hitems : ∀ di ∈ items, di.id ∈ refs.map SubDataItem.id) :
    validateOccurrences cfg items refs parent = .ok [] ↔ ∀ ref ∈ firstReferences refs,
      ref.occurs.Allows (Reading.machine.count (countId items ref.id)) := by
  rw [validateOccurrences_eq_nil_iff, and_iff_left hitems,
    checkReferences_eq_nil_iff (validateOccurrences_eq_nil_iff.1 hbefore).1]
  simp only [getD_countOccurrences, checkOccurs_eq_nil]

/-- The check of occurrences depends on the ids only. -/
theorem validateOccurrences_congr {cfg : ProtocolConfig} {items items' : DataItems}
    {refs : List SubDataItem} {parent : Option DataItemInfo}
    (h : items.map DataItem.id = items'.map DataItem.id) :
    validateOccurrences cfg items refs parent = validateOccurrences cfg items' refs parent := by
  rw [validateOccurrences, validateOccurrences, countOccurrences_of_countId (countId_of_map_id h)]

/-! ## Messages -/

namespace ProtocolMessage

section

variable {cfg : ProtocolConfig} {items read : DataItems} {ws : List Bytes}

/-- What is read of data items that were written one after the other is what is read of each. -/
theorem readBack_of_forms {forms : List Form}
    (hws : List.Forall₂ (fun di w => di.serialize cfg = .ok w) items ws)
    (hforms : Forms cfg read forms)
    (hbody : ws.flatten = bodyOf forms) : List.Forall₂ (DataItem.ReadBack cfg) items read := by
  induction hws generalizing read forms with
  | nil =>
    rw [forms_nil hforms hbody.symm]
    exact .nil
  | @cons di w items ws hw hws ih =>
    cases hforms with
    | nil => exact absurd (List.append_eq_nil_iff.1 hbody).1 (DataItem.serialize_ne_nil hw)
    | @cons first form read forms hform hforms =>
      change w ++ ws.flatten = form.bytes ++ bodyOf forms at hbody
      obtain ⟨_, hrest⟩ := readAs_of_append ⟨rfl, rfl, rfl, rfl, rfl⟩ hw hform hbody
      rw [hrest] at hbody
      exact .cons ⟨w, form, hw, hform, List.append_cancel_right hbody⟩ (ih hforms hrest)

/-- What is read back has the bytes that were written. -/
theorem forms_of_readBack (hread : List.Forall₂ (DataItem.ReadBack cfg) items read)
    (hws : List.Forall₂ (fun di w => di.serialize cfg = .ok w) items ws) :
    ∃ forms, Forms cfg read forms ∧ ws.flatten = bodyOf forms := by
  induction hread generalizing ws with
  | nil =>
    cases hws
    exact ⟨[], .nil, rfl⟩
  | @cons di first items read hfirst _ ih =>
    cases hws with
    | @cons _ w _ ws hw hws =>
      obtain ⟨w', form, hw', hform, hbytes⟩ := hfirst
      obtain rfl := Except.ok.inj (hw.symm.trans hw')
      obtain ⟨forms, hforms, hbody⟩ := ih hws
      refine ⟨form :: forms, .cons hform hforms, ?_⟩
      rw [List.flatten_cons, hbody, hbytes]
      rfl

/-- Data items are read back under their ids. -/
theorem map_id_of_readBack (h : List.Forall₂ (DataItem.ReadBack cfg) items read) :
    read.map DataItem.id = items.map DataItem.id := by
  induction h with
  | nil => rfl
  | cons hfirst _ ih => rw [List.map_cons, List.map_cons, hfirst.id_eq, ih]

/-- Data items that pass are read back as others that can be printed and are checked without an
error. -/
theorem forall_passes_iff : (∀ di ∈ items, di.Passes cfg) ↔
    ∃ read, List.Forall₂ (DataItem.ReadBack cfg) items read ∧ (∀ di ∈ read, di.Resolves cfg none) ∧
      ∀ di ∈ read, di.validate cfg none = .ok [] := by
  induction items with
  | nil => simp
  | cons di items ih =>
    rw [List.forall_mem_cons, ih]
    constructor
    · rintro ⟨⟨first, hback, hres, hvalid⟩, read, hread, hall, heach⟩
      exact ⟨first :: read, .cons hback hread, List.forall_mem_cons.2 ⟨hres, hall⟩,
        List.forall_mem_cons.2 ⟨hvalid, heach⟩⟩
    · rintro ⟨_, hread, hall, heach⟩
      cases hread with
      | @cons _ first _ read hback hread =>
        obtain ⟨hres, hall⟩ := List.forall_mem_cons.1 hall
        obtain ⟨hvalid, heach⟩ := List.forall_mem_cons.1 heach
        exact ⟨⟨first, hback, hres, hvalid⟩, read, hread, hall, heach⟩

end

variable [AddressText] {cfg : ProtocolConfig} {name : String} {pm pm' : ProtocolMessage}
  {items : DataItems} {body : Bytes}

/-- A composed message is parsed without an error exactly if each of its data items can be read
back and printed. -/
theorem Frames.parse_iff (hpm : Frames cfg name pm items body) (logPrefix : Bytes)
    {read : DataItems} :
    (∃ pm', ProtocolMessage.parse cfg logPrefix pm = .ok ([], pm') ∧ pm'.dataItems = read) ↔
      List.Forall₂ (DataItem.ReadBack cfg) items read ∧ ∀ di ∈ read, di.Resolves cfg none := by
  obtain ⟨pos, hparse⟩ :=
    parse_frame logPrefix hpm.signalId hpm.id_fits hpm.body_fits hpm.size hpm.msgbuf
  obtain ⟨ws, hws, hbody⟩ := serializeSubDataItems_ok.1 hpm.body
  rw [List.nil_append] at hbody
  rw [hparse]
  constructor
  · rintro ⟨pm', hend, rfl⟩
    have hdone : parseDataItems cfg (body.length + 1) (.whole pos body) =
        (pm'.dataItems, .ok ()) := by
      rw [parseEnd_ok hend]
      cases hr : (parseDataItems cfg (body.length + 1) (.whole pos body)).2 with
      | ok _ => exact Prod.ext rfl hr
      | error e =>
        have htext := hasText_parseDataItems hr
        rw [show parseDataItems cfg (body.length + 1) (.whole pos body) =
          ((parseDataItems cfg (body.length + 1) (.whole pos body)).1, .error e)
            from Prod.ext rfl hr]
          at hend
        cases e with
        | std cls what =>
          have hwhat := (Prod.mk.inj (Except.ok.inj hend)).1
          exact absurd (by rw [withLogPrefix_eq_nil.1 hwhat]) (htext cls)
        | _ => cases hend
    obtain ⟨forms, hforms, hall, hbytes⟩ := (parseDataItems_ok (Nat.lt_succ_self _)).1 hdone
    exact ⟨readBack_of_forms hws hforms (hbody.symm.trans hbytes), hall⟩
  · rintro ⟨hread, hall⟩
    obtain ⟨forms, hforms, hbytes⟩ := forms_of_readBack hread hws
    have hdone : parseDataItems cfg (body.length + 1) (.whole pos body) = (read, .ok ()) :=
      (parseDataItems_ok (Nat.lt_succ_self _)).2 ⟨forms, hforms, hall, hbody.trans hbytes⟩
    rw [hdone]
    exact ⟨_, rfl, rfl⟩

/-- Parsing and checking returns no error exactly if neither does. -/
theorem parseAndValidate_eq_nil_iff {modemSender : Bool} {logPrefix : Bytes} :
    ProtocolMessage.parseAndValidate cfg modemSender logPrefix pm = .ok ([], pm') ↔
      ProtocolMessage.parse cfg logPrefix pm = .ok ([], pm') ∧
        validate cfg modemSender pm' = .ok [] := by
  constructor
  · intro h
    obtain ⟨⟨err, pm₁⟩, hparse, h⟩ := bind_eq_ok.1 h
    dsimp only at h
    split at h
    · next herr => exact absurd (Prod.mk.inj (Except.ok.inj h)).1 herr
    · next herr =>
      obtain ⟨err', hvalid, h⟩ := bind_eq_ok.1 h
      obtain ⟨rfl, rfl⟩ := Prod.mk.inj (Except.ok.inj h)
      rw [not_not.1 herr] at hparse
      exact ⟨hparse, hvalid⟩
  · rintro ⟨hparse, hvalid⟩
    rw [ProtocolMessage.parseAndValidate, hparse, ok_bind]
    simp only [ne_eq, not_true_eq_false, if_false, hvalid, ok_bind]
    rfl

/-- A composed message is parsed and checked without an error exactly if the sender may send it,
each of its data items passes alone, and their numbers are allowed. -/
theorem Frames.parseAndValidate_iff (hpm : Frames cfg name pm items body) (modemSender : Bool)
    (logPrefix : Bytes) :
    (∃ pm', ProtocolMessage.parseAndValidate cfg modemSender logPrefix pm = .ok ([], pm')) ↔
      (∃ siginfo, cfg.getSignalInfo name = .ok siginfo ∧
        siginfo.flags &&& SignalInfo.senderFlag modemSender ≠ 0 ∧
        validateOccurrences cfg items siginfo.dataItems none = .ok []) ∧
      ∀ di ∈ items, di.Passes cfg := by
  have htext : str "cannot be sent by " ≠ [] := str_ne_nil (by simp)
  have hcheck : ∀ pm', ProtocolMessage.parse cfg logPrefix pm = .ok ([], pm') →
      (validate cfg modemSender pm' = .ok [] ↔
        (∃ siginfo, cfg.getSignalInfo name = .ok siginfo ∧
          siginfo.flags &&& SignalInfo.senderFlag modemSender ≠ 0 ∧
          validateOccurrences cfg pm'.dataItems siginfo.dataItems none = .ok []) ∧
        ∀ di ∈ pm'.dataItems, di.validate cfg none = .ok []) := by
    intro pm' hparse
    have hframes := hpm.parse hparse
    simp only [validate, getSignalName_of_getSignalId hframes.signalId hframes.initialized, ok_bind]
    cases hinfo : cfg.getSignalInfo name with
    | error e => simp [error_bind]
    | ok siginfo =>
      rw [ok_bind, labelError_eq_nil, validateContent]
      change (if siginfo.flags &&& SignalInfo.senderFlag modemSender = 0 then _ else _) = _ ↔ _
      split
      · next hflag => simp [htext, hflag]
      · next hflag => rw [firstError_eq_nil, validateEach_eq_nil]; simp [hflag]
  simp only [parseAndValidate_eq_nil_iff]
  constructor
  · rintro ⟨pm', hparse, hvalid⟩
    obtain ⟨hread, hall⟩ := (hpm.parse_iff logPrefix).1 ⟨pm', hparse, rfl⟩
    obtain ⟨⟨siginfo, hinfo, hflag, hoccurs⟩, heach⟩ := (hcheck pm' hparse).1 hvalid
    rw [validateOccurrences_congr (map_id_of_readBack hread)] at hoccurs
    exact ⟨⟨siginfo, hinfo, hflag, hoccurs⟩, forall_passes_iff.2 ⟨_, hread, hall, heach⟩⟩
  · rintro ⟨⟨siginfo, hinfo, hflag, hoccurs⟩, hpasses⟩
    obtain ⟨read, hread, hall, heach⟩ := forall_passes_iff.1 hpasses
    obtain ⟨pm', hparse, rfl⟩ := (hpm.parse_iff logPrefix).2 ⟨hread, hall⟩
    rw [← validateOccurrences_congr (map_id_of_readBack hread)] at hoccurs
    exact ⟨pm', hparse, (hcheck pm' hparse).2 ⟨⟨siginfo, hinfo, hflag, hoccurs⟩, heach⟩⟩

/-! ## The length of a message -/

omit [AddressText] in
/-- The vector of the message never gets longer than it can be. -/
theorem length_of_addDataItem {di : DataItem} {w : Bytes} (hw : di.serialize cfg = .ok w)
    (h : ProtocolMessage.addDataItem cfg di pm = .ok pm') :
    pm.msgbuf.length + w.length < 2 ^ 63 := by
  simp only [ProtocolMessage.addDataItem, hw, ok_bind, updateMessageLength,
    bind_eq_ok, vectorSize_ok]
    at h
  obtain ⟨_, ⟨_, _, _, _, _, ⟨hlength, _⟩, _⟩, _⟩ := h
  rwa [List.length_append] at hlength

/-- The data items fit behind what is in the message: the body fits the length field, and the
message the vector. -/
def FitBehind (cfg : ProtocolConfig) (pm : ProtocolMessage) (items : DataItems) : Prop :=
  items ≠ [] → pm.msgbuf.length - pm.headerLength + (items.map (DataItem.size cfg)).sum <
      256 ^ cfg.signalLengthSize.1 ∧
    pm.msgbuf.length + (items.map (DataItem.size cfg)).sum < 2 ^ 63

omit [AddressText] in
/-- Data items that pass can be put into a message exactly if they fit. -/
theorem Frames.exists_addDataItems_iff {more : DataItems} (hpm : Frames cfg name pm items body)
    (hmore : ∀ di ∈ more, di.Passes cfg) :
    (∃ pm', ProtocolMessage.addDataItems cfg more pm = .ok pm') ↔ FitBehind cfg pm more := by
  induction more generalizing pm items body with
  | nil => exact iff_of_true ⟨pm, rfl⟩ fun h => absurd rfl h
  | cons di more ih =>
    obtain ⟨hdi, hmore⟩ := List.forall_mem_cons.1 hmore
    obtain ⟨w, hw⟩ := hdi.serialize
    obtain ⟨info, hinfo⟩ := hdi.info
    obtain ⟨diName, hname, _⟩ := bind_eq_ok.1 hinfo
    have hlength := hpm.length_msgbuf
    have hsum : ((di :: more).map (DataItem.size cfg)).sum =
        w.length + (more.map (DataItem.size cfg)).sum := by
      rw [List.map_cons, List.sum_cons, DataItem.size_of_serialize hw]
    -- the header stays, and the bytes of the data item come behind
    have hgrown : ∀ pm₁, ProtocolMessage.addDataItem cfg di pm = .ok pm₁ →
        (∃ items₁ body₁, Frames cfg name pm₁ items₁ body₁) ∧
          body.length + w.length < 256 ^ cfg.signalLengthSize.1 ∧
          pm₁.headerLength = pm.headerLength ∧ pm₁.msgbuf.length = pm.msgbuf.length + w.length := by
      intro pm₁ hadd
      obtain ⟨w', hw', hframes⟩ := hpm.addDataItem hadd
      obtain rfl := Except.ok.inj (hw.symm.trans hw')
      have hsame := Prod.mk.inj (Except.ok.inj (hframes.signalId.symm.trans hpm.signalId))
      have hheader : pm₁.headerLength = pm.headerLength := by
        rw [hframes.headerLength, hframes.msgLenIndex, hpm.headerLength, hpm.msgLenIndex, hsame.1,
          hsame.2]
      have hfits := hframes.body_fits
      have hlength₁ := hframes.length_msgbuf
      rw [List.length_append] at hfits hlength₁
      exact ⟨⟨_, _, hframes⟩, hfits, hheader, by omega⟩
    rw [FitBehind, hsum]
    constructor
    · rintro ⟨pm', hall⟩ _
      obtain ⟨pm₁, hadd, hrest⟩ := bind_eq_ok.1 hall
      obtain ⟨⟨items₁, body₁, hframes⟩, hfits, hheader, hlength₁⟩ := hgrown pm₁ hadd
      have hvector := length_of_addDataItem hw hadd
      cases more with
      | nil =>
        rw [List.map_nil, List.sum_nil]
        omega
      | cons other more =>
        have hfit := (ih hframes hmore).1 ⟨pm', hrest⟩ (List.cons_ne_nil _ _)
        omega
    · intro hfit
      obtain ⟨hfits, hvector⟩ := hfit (List.cons_ne_nil _ _)
      obtain ⟨pm₁, hadd⟩ := hpm.exists_addDataItem hw hname
        (by rw [List.length_append]; omega) (by rw [List.length_append]; omega)
      obtain ⟨⟨items₁, body₁, hframes⟩, _, hheader, hlength₁⟩ := hgrown pm₁ hadd
      obtain ⟨pm', hrest⟩ := (ih hframes hmore).2 fun _ => by omega
      refine ⟨pm', ?_⟩
      rw [ProtocolMessage.addDataItems, hadd, ok_bind, hrest]

end ProtocolMessage

end Dlep
