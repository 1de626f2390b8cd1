import Dlep.DataItem.Wire
import Dlep.ProtocolMessage.Grammar

/-!
# The wire form of a message

What the parser accepts: a header, and then data items to the end of the buffer, each of which can
be printed. The length in the header is read and not used, so that it may say anything; this is
where the parser and the grammar differ, apart from data items that are well formed and cannot be
printed.
-/

namespace Dlep

open ByteReader

/-! ## Errors have a text -/

/-- An exception is not taken for a success, which is an empty text. -/
def Exn.HasText (e : Exn) : Prop := ∀ cls, e ≠ .std cls []

/-- An exception with a text has one. -/
theorem hasText_std {cls : StdException} {what : Bytes} (h : what ≠ []) :
    (Exn.std cls what).HasText := by
  intro cls' heq
  exact h (Exn.std.inj heq).2

/-- The exception at the end of a range has a text. -/
theorem hasText_endOfInput : endOfInput.HasText :=
  hasText_std (str_ne_nil (by simp))

/-- A fault is not taken for a success. -/
theorem hasText_readPastEnd : readPastEnd.HasText := by
  intro cls heq
  cases heq

/-- A bound that is used up is not taken for a success. -/
theorem hasText_outOfFuel : Exn.outOfFuel.HasText := by
  intro cls heq
  cases heq

/-- An integer fails with a text. -/
theorem fails_deserialize (szT : Nat) : Fails Exn.HasText (deserialize szT) :=
  fails_bind (fails_bytes hasText_endOfInput hasText_readPastEnd szT) fun _ => fails_pure

/-- A field fails with a text. -/
theorem fails_deserializeField (szT fieldSize : Nat) :
    Fails Exn.HasText (deserializeField szT fieldSize) := by
  intro c e h cls heq
  subst heq
  exact deserializeField_what_ne_nil h rfl

/-- One byte fails with a text. -/
theorem fails_readU8 : Fails Exn.HasText readU8 :=
  fails_bind (fails_deserialize 1) fun _ => fails_pure

/-- Two bytes fail with a text. -/
theorem fails_readU16 : Fails Exn.HasText readU16 :=
  fails_bind (fails_deserialize 2) fun _ => fails_pure

/-- Four bytes fail with a text. -/
theorem fails_readU32 : Fails Exn.HasText readU32 :=
  fails_bind (fails_deserialize 4) fun _ => fails_pure

/-- Eight bytes fail with a text. -/
theorem fails_readU64 : Fails Exn.HasText readU64 :=
  fails_bind (fails_deserialize 8) fun _ => fails_pure

/-- The rest of a range fails with a text. -/
theorem fails_readRest : Fails Exn.HasText readRest :=
  fails_rest (hasText_std (str_ne_nil (by simp))) hasText_readPastEnd

/-- An address fails with a text, if its own is not empty. -/
theorem fails_readAddress {n : Nat} {what : String} (hwhat : str what ≠ []) :
    Fails Exn.HasText (readAddress n what) := by
  intro c e h
  unfold readAddress at h
  split at h
  · exact Except.error.inj h ▸ hasText_std hwhat
  · exact fails_bytes hasText_endOfInput hasText_readPastEnd n c e h

/-- An IPv4 address fails with a text. -/
theorem fails_deserializeIpv4 : Fails Exn.HasText deserializeIpv4 :=
  fails_bind (fails_readAddress (str_ne_nil (by simp))) fun _ => fails_pure

/-- An IPv6 address fails with a text. -/
theorem fails_deserializeIpv6 : Fails Exn.HasText deserializeIpv6 :=
  fails_bind (fails_readAddress (str_ne_nil (by simp))) fun _ => fails_pure

/-- Asking how many bytes are left does not fail. -/
theorem fails_bytesLeft : Fails Exn.HasText bytesLeft := by
  intro c e h
  cases h

/-- A port fails with a text. -/
theorem fails_readOptionalPort : Fails Exn.HasText readOptionalPort := by
  refine fails_bind fails_bytesLeft fun left => ?_
  split
  · exact fails_readU16
  · exact fails_pure

/-- A value fails with a text, if its sub data items do. -/
theorem fails_deserializeValue {cfg : ProtocolConfig} {subs : Decoder DataItems}
    (hsubs : Fails Exn.HasText subs) (ty : DataItemValueType) :
    Fails Exn.HasText (deserializeValue cfg subs ty) := by
  cases ty with
  | blank => exact fails_pure
  | u8 => exact fails_bind fails_readU8 fun _ => fails_pure
  | u16 => exact fails_bind fails_readU16 fun _ => fails_pure
  | u32 => exact fails_bind fails_readU32 fun _ => fails_pure
  | u64 => exact fails_bind fails_readU64 fun _ => fails_pure
  | vU8 => exact fails_bind (fails_many hasText_outOfFuel fails_readU8) fun _ => fails_pure
  | vU32 => exact fails_bind (fails_many hasText_outOfFuel fails_readU32) fun _ => fails_pure
  | a2U16 => exact fails_bind fails_readU16 fun _ => fails_bind fails_readU16 fun _ => fails_pure
  | string | dlepmac => exact fails_bind fails_readRest fun _ => fails_pure
  | u8String => exact fails_bind fails_readU8 fun _ => fails_bind fails_readRest fun _ => fails_pure
  | u8Ipv4 =>
    exact fails_bind fails_readU8 fun _ => fails_bind fails_deserializeIpv4 fun _ => fails_pure
  | u8Ipv6 =>
    exact fails_bind fails_readU8 fun _ => fails_bind fails_deserializeIpv6 fun _ => fails_pure
  | u16VU8 =>
    refine fails_bind fails_readU16 fun _ => fails_bind fails_readU8 fun _ =>
      fails_bind fails_bytesLeft fun _ => ?_
    split
    · refine fails_throw (hasText_std ?_)
      have htext : str "expected vector of length " ≠ [] := str_ne_nil (by simp)
      simp [htext]
    · exact fails_bind fails_readRest fun _ => fails_pure
  | vExtid =>
    refine fails_bind (fails_many hasText_outOfFuel ?_) fun _ => fails_pure
    exact fails_bind (fails_deserializeField 4 _) fun _ => fails_pure
  | u8Ipv4U16 =>
    exact fails_bind fails_readU8 fun _ => fails_bind fails_deserializeIpv4 fun _ =>
      fails_bind fails_readOptionalPort fun _ => fails_pure
  | u8Ipv6U16 =>
    exact fails_bind fails_readU8 fun _ => fails_bind fails_deserializeIpv6 fun _ =>
      fails_bind fails_readOptionalPort fun _ => fails_pure
  | u8Ipv4U8 =>
    exact fails_bind fails_readU8 fun _ => fails_bind fails_deserializeIpv4 fun _ =>
      fails_bind fails_readU8 fun _ => fails_pure
  | u8Ipv6U8 =>
    exact fails_bind fails_readU8 fun _ => fails_bind fails_deserializeIpv6 fun _ =>
      fails_bind fails_readU8 fun _ => fails_pure
  | u8U8 => exact fails_bind fails_readU8 fun _ => fails_bind fails_readU8 fun _ => fails_pure
  | u64U64 => exact fails_bind fails_readU64 fun _ => fails_bind fails_readU64 fun _ => fails_pure
  | subDataItems => exact fails_bind hsubs fun _ => fails_pure
  | u16SubDataItems =>
    refine fails_bind fails_readU16 fun _ => fails_bind fails_readU8 fun _ =>
      fails_bind fails_readU8 fun _ => ?_
    split
    · refine fails_throw (hasText_std ?_)
      have htext : str "reserved byte is " ≠ [] := str_ne_nil (by simp)
      simp [htext]
    · refine fails_bind hsubs fun _ => ?_
      split
      · refine fails_throw (hasText_std ?_)
        have htext : str "number of sub data items is " ≠ [] := str_ne_nil (by simp)
        simp [htext]
      · exact fails_pure

/-- A scope that comes from the configuration. -/
def ProtocolConfig.Scope (cfg : ProtocolConfig) (parent : Option DataItemInfo) : Prop :=
  ∀ info ∈ parent, cfg.getDataItemInfoByName info.name = .ok info

/-- What is found in the configuration is a scope. -/
theorem ProtocolConfig.scope_of_getDataItemInfo {cfg : ProtocolConfig} {id : DataItemIdType}
    {parent : Option DataItemInfo} {info : DataItemInfo}
    (h : cfg.getDataItemInfo id parent = .ok info) : cfg.Scope (some info) := by
  intro info' hmem
  obtain rfl := Option.some.inj hmem
  exact cfg.getDataItemInfoByName_eq_ok.2 (cfg.getElem?_of_getDataItemInfo h)

/-- In a scope of the configuration, a lookup fails with the id that is not known. -/
theorem hasText_getDataItemInfo {cfg : ProtocolConfig} {id : DataItemIdType}
    {parent : Option DataItemInfo} (hparent : cfg.Scope parent) {e : Exn}
    (h : cfg.getDataItemInfo id parent = .error e) : e.HasText := by
  cases hname : cfg.getDataItemName id parent with
  | ok name =>
    obtain ⟨info, hinfo, _⟩ := cfg.exists_getDataItemInfo hparent hname
    rw [hinfo] at h
    cases h
  | error e' =>
    rw [ProtocolConfig.getDataItemInfo, hname, error_bind] at h
    obtain rfl := Except.error.inj h
    unfold ProtocolConfig.getDataItemName at hname
    split at hname
    · cases hname
    · split at hname
      · cases hname
      · exact Except.error.inj hname ▸ hasText_std (decimal_ne_nil _)

/-- By induction on the depth: a data item fails with a text. -/
theorem fails_deserializeUpTo {cfg : ProtocolConfig} (n : Nat) {parent : Option DataItemInfo}
    (hparent : cfg.Scope parent) : Fails Exn.HasText (DataItem.deserializeUpTo cfg n parent) := by
  induction n generalizing parent with
  | zero => exact fails_throw hasText_outOfFuel
  | succ n ih =>
    refine fails_bind (fails_deserializeField 4 _) fun _ =>
      fails_bind (fails_deserializeField 8 _) fun _ => fails_bind ?_ fun _ => ?_
    · intro c e h
      unfold itemEnd at h
      split at h
      · cases h
      · split at h
        · refine Except.error.inj h ▸ hasText_std ?_
          have htext : str "data item=" ≠ [] := str_ne_nil (by simp)
          simp [htext]
        · cases h
    · refine fails_bind_of_ok (fails_lift fun _ => hasText_getDataItemInfo hparent) ?_
      intro info c c' hinfo
      have hscope := cfg.scope_of_getDataItemInfo (lift_ok.1 hinfo).1
      refine fails_bind (fails_window ?_ fun left => ?_) fun _ => fails_pure
      · exact fails_deserializeValue (fails_many hasText_outOfFuel (ih hscope)) _
      · refine hasText_std ?_
        have htext : str "data item=" ≠ [] := str_ne_nil (by simp)
        simp [htext]

section

variable [AddressText] {cfg : ProtocolConfig}

/-- A list that cannot be printed fails with a text. -/
theorem hasText_subDataItemsToString {parent : Option DataItemInfo} {items : DataItems}
    (hitems : ∀ di ∈ items, ∀ e, di.toString cfg parent = .error e → e.HasText) {e : Exn}
    (h : subDataItemsToString cfg parent items = .error e) : e.HasText := by
  induction items with
  | nil => cases h
  | cons di items ih =>
    obtain ⟨hdi, hitems⟩ := List.forall_mem_cons.1 hitems
    rw [subDataItemsToString] at h
    cases htext : di.toString cfg parent with
    | error e' =>
      rw [htext, error_bind] at h
      exact Except.error.inj h ▸ hdi e' htext
    | ok text =>
      rw [htext, ok_bind] at h
      cases htexts : subDataItemsToString cfg parent items with
      | error e' =>
        rw [htexts, error_bind] at h
        exact ih hitems (htexts.trans h)
      | ok texts =>
        rw [htexts] at h
        cases h

omit [AddressText] in
/-- The scope in which sub data items are printed comes from the configuration. -/
theorem ProtocolConfig.Scope.printScope {parent : Option DataItemInfo} (hparent : cfg.Scope parent)
    {id : DataItemIdType} {info : DataItemInfo} (h : cfg.getDataItemInfo id parent = .ok info) :
    cfg.Scope (printScope info parent) := by
  unfold Dlep.printScope
  split
  · exact cfg.scope_of_getDataItemInfo h
  · exact hparent

/-- The printing of a value fails in its sub data items. -/
theorem hasText_valueToString {value : DataItemValue} {parent : Option DataItemInfo}
    (hsubs : ∀ sdi ∈ value.subItems, ∀ e, sdi.toString cfg parent = .error e → e.HasText) {e : Exn}
    (h : value.toString cfg parent = .error e) : e.HasText := by
  cases value with
  | subDataItems items | u16SubDataItems f1 items =>
    rw [DataItemValue.toString] at h
    cases htexts : subDataItemsToString cfg parent items with
    | error e' =>
      rw [htexts, error_bind] at h
      exact Except.error.inj h ▸ hasText_subDataItemsToString hsubs htexts
    | ok texts =>
      rw [htexts] at h
      cases h
  | _ => cases h

/-- Printing fails with the id that is not known. -/
theorem hasText_toString {di : DataItem} {parent : Option DataItemInfo}
    (hparent : cfg.Scope parent) {e : Exn} (h : di.toString cfg parent = .error e) : e.HasText := by
  induction di using DataItem.nesting_induction generalizing parent e with
  | mk id value ih =>
    rw [DataItem.toString] at h
    cases hname : cfg.getDataItemName id parent with
    | error e' =>
      rw [hname, error_bind] at h
      obtain rfl := Except.error.inj h
      refine @hasText_getDataItemInfo cfg id parent hparent _ ?_
      rw [ProtocolConfig.getDataItemInfo, hname, error_bind]
    | ok name =>
      obtain ⟨info, hinfo, _⟩ := cfg.exists_getDataItemInfo hparent hname
      have hscope := hparent.printScope hinfo
      rw [ProtocolConfig.getDataItemInfo, hname, ok_bind] at hinfo
      simp only [hname, ok_bind, hinfo] at h
      change (value.toString cfg (printScope info parent) >>= _) = _ at h
      cases htext : value.toString cfg (printScope info parent) with
      | error e' =>
        rw [htext, error_bind] at h
        exact Except.error.inj h ▸ hasText_valueToString
          (fun sdi hsdi e he => ih sdi hsdi hscope he) htext
      | ok text =>
        rw [htext] at h
        cases h

/-! ## The loop -/

namespace ProtocolMessage

omit [AddressText] in
/-- The top level is a scope. -/
theorem scope_none : cfg.Scope none := by
  intro info hinfo
  cases hinfo

/-- The parse of a data item fails with a text. -/
theorem hasText_parseDataItem {c : Cursor} {e : Exn} (h : parseDataItem cfg c = .error e) :
    e.HasText := by
  unfold parseDataItem at h
  cases hid : deserializeField 4 cfg.dataItemIdSize c with
  | error e' =>
    rw [hid, error_bind] at h
    exact Except.error.inj h ▸ fails_deserializeField _ _ _ _ hid
  | ok q =>
    obtain ⟨id, c₁⟩ := q
    rw [hid, ok_bind] at h
    dsimp only at h
    cases hlength : deserializeField 8 cfg.dataItemLengthSize c₁ with
    | error e' =>
      rw [hlength, error_bind] at h
      exact Except.error.inj h ▸ fails_deserializeField _ _ _ _ hlength
    | ok q' =>
      rw [hlength, ok_bind] at h
      cases hdi : DataItem.deserialize cfg none c with
      | error e' =>
        rw [hdi, error_bind] at h
        exact Except.error.inj h ▸ fails_deserializeUpTo _ scope_none _ _ hdi
      | ok r =>
        obtain ⟨di, c₂⟩ := r
        rw [hdi, ok_bind] at h
        dsimp only at h
        cases htext : di.toString cfg none with
        | error e' =>
          rw [htext, error_bind] at h
          exact Except.error.inj h ▸ hasText_toString scope_none htext
        | ok text =>
          rw [htext] at h
          cases h

/-- A round of the loop succeeds exactly on the wire forms that can be printed. -/
theorem parseDataItem_ok {pos : Nat} {b : Bytes} {di : DataItem} {c : Cursor} :
    parseDataItem cfg (.whole pos b) = .ok (di, c) ↔
      ∃ form rest, di.Wire cfg none form ∧ di.Resolves cfg none ∧ b = form.bytes ++ rest ∧
        c = .whole (pos + form.bytes.length) rest := by
  constructor
  · intro h
    simp only [parseDataItem, bind_eq_ok] at h
    obtain ⟨_, _, _, _, ⟨di', c'⟩, hdi, text, htext, hret⟩ := h
    obtain ⟨rfl, rfl⟩ := Prod.mk.inj (Except.ok.inj hret)
    obtain ⟨_, hpass, form, hform, rfl⟩ := takes_deserializeUpTo _ _ _ _ _ hdi
    have hb : b = form.bytes ++ c'.bytes := hpass.bytes
    have hagain := hform.deserialize pos c'.bytes
    rw [← hb, hdi] at hagain
    exact ⟨form, c'.bytes, hform, DataItem.toString_ok_iff_resolves.1 ⟨text, htext⟩, hb,
      (Prod.mk.inj (Except.ok.inj hagain)).2⟩
  · rintro ⟨form, rest, hform, hres, rfl, rfl⟩
    have hdes := hform.deserialize pos rest
    obtain ⟨text, htext⟩ := DataItem.toString_ok_iff_resolves.2 hres
    -- the header that is looked at first is the one that is read then
    have hheader := hdes
    rw [DataItem.deserialize, DataItem.deserializeUpTo, bind_ok] at hheader
    obtain ⟨id, c₁, hid, hheader⟩ := hheader
    obtain ⟨length, c₂, hlength, _⟩ := bind_ok.1 hheader
    simp only [parseDataItem, hid, ok_bind, hlength, hdes, htext, pure, Except.pure]

/-- The data items have the bytes of the given forms, one after the other. -/
def Forms (cfg : ProtocolConfig) (items : DataItems) (forms : List Form) : Prop :=
  List.Forall₂ (fun di form => DataItem.Wire cfg none di form) items forms

/-- The bytes of the forms. -/
def bodyOf (forms : List Form) : Bytes := (forms.map Form.bytes).flatten

omit [AddressText] in
/-- Without bytes there are no data items. -/
theorem forms_nil {items : DataItems} {forms : List Form} (h : Forms cfg items forms)
    (hbody : bodyOf forms = []) : items = [] := by
  cases h with
  | nil => rfl
  | cons hform _ =>
    have hpos := hform.length_pos
    rw [bodyOf, List.map_cons, List.flatten_cons, List.append_eq_nil_iff] at hbody
    simp [hbody.1] at hpos

/-- The loop succeeds exactly on wire forms that can be printed. -/
theorem parseDataItems_ok {n pos : Nat} {b : Bytes} {items : DataItems} (hn : b.length < n) :
    parseDataItems cfg n (.whole pos b) = (items, .ok ()) ↔
      ∃ forms, Forms cfg items forms ∧ (∀ di ∈ items, di.Resolves cfg none) ∧ b = bodyOf forms := by
  induction n generalizing pos b items with
  | zero => omega
  | succ n ih =>
    rw [parseDataItems]
    split
    · next hleft =>
      obtain rfl : b = [] :=
        List.eq_nil_of_length_eq_zero (by simp only [Cursor.whole] at hleft; omega)
      constructor
      · intro h
        obtain ⟨rfl, _⟩ := Prod.mk.inj h
        exact ⟨[], .nil, by simp, rfl⟩
      · rintro ⟨forms, hforms, _, hbody⟩
        rw [forms_nil hforms hbody.symm]
    · next hleft =>
      constructor
      · intro h
        split at h
        · cases h
        · next di c hdi =>
          obtain ⟨form, rest, hform, hres, rfl, rfl⟩ := parseDataItem_ok.1 hdi
          have hpos := hform.length_pos
          rw [List.length_append] at hn
          cases hrest : parseDataItems cfg n (.whole (pos + form.bytes.length) rest) with
          | mk more r =>
            simp only [hrest] at h
            obtain ⟨rfl, rfl⟩ := Prod.mk.inj h
            obtain ⟨forms, hforms, hall, rfl⟩ := (ih (by omega)).1 hrest
            exact ⟨form :: forms, .cons hform hforms, List.forall_mem_cons.2 ⟨hres, hall⟩, rfl⟩
      · rintro ⟨forms, hforms, hall, rfl⟩
        cases hforms with
        | nil => simp [bodyOf, Cursor.whole] at hleft
        | @cons di form more forms hform hforms =>
          obtain ⟨hres, hall⟩ := List.forall_mem_cons.1 hall
          have hpos := hform.length_pos
          have hbody : bodyOf (form :: forms) = form.bytes ++ bodyOf forms := rfl
          rw [hbody, List.length_append] at hn
          have hdi : parseDataItem cfg (.whole pos (bodyOf (form :: forms))) =
              .ok (di, .whole (pos + form.bytes.length) (bodyOf forms)) :=
            parseDataItem_ok.2 ⟨form, _, hform, hres, hbody, rfl⟩
          have hrest := (@ih (pos + form.bytes.length) _ more (by omega)).2
            ⟨forms, hforms, hall, rfl⟩
          simp only [hdi, hrest]

/-- The loop does not fail with an empty text. -/
theorem hasText_parseDataItems {n : Nat} {c : Cursor} {e : Exn}
    (h : (parseDataItems cfg n c).2 = .error e) : e.HasText := by
  induction n generalizing c with
  | zero => exact Except.error.inj h ▸ hasText_outOfFuel
  | succ n ih =>
    rw [parseDataItems] at h
    split at h
    · cases h
    · split at h
      · next e' he' => exact Except.error.inj h ▸ hasText_parseDataItem he'
      · exact ih h

/-! ## The grammar -/

omit [AddressText] in
/-- The id is one of the signals, or one of the messages. -/
def Known (cfg : ProtocolConfig) (isSignal : Bool) (id : SignalIdType) : Prop :=
  ∃ name, (if isSignal then cfg.getSignalName id else cfg.getMessageName id) = .ok name

omit [AddressText] in
/-- The buffer is a header, whose length field says `length`, and the data items `items`, whose
bytes are `body`. -/
def Splits (cfg : ProtocolConfig) (isSignal : Bool) (buf : Bytes) (length : Nat) (items : DataItems)
    (body : Bytes) : Prop :=
  ∃ id forms, Known cfg isSignal id ∧ id.toNat < 256 ^ cfg.signalIdSize.1 ∧
    length < 256 ^ cfg.signalLengthSize.1 ∧ Forms cfg items forms ∧ body = bodyOf forms ∧
    buf = idBytes cfg isSignal id ++ (BigEndian.encode cfg.signalLengthSize length ++ body)

omit [AddressText] in
/-- The wire grammar: the length field counts the bytes of the body. -/
def InGrammar (cfg : ProtocolConfig) (isSignal : Bool) (buf : Bytes) (items : DataItems) : Prop :=
  ∃ body, Splits cfg isSignal buf body.length items body

/-- Parsing a buffer returns no error. -/
def Accepts (cfg : ProtocolConfig) (isSignal : Bool) (buf logPrefix : Bytes)
    (pm₀ pm : ProtocolMessage) : Prop :=
  parseBuffer cfg buf isSignal logPrefix pm₀ = .ok ([], pm)

omit [AddressText] in
/-- Behind the bytes that were read, the range still ends with the memory. -/
theorem passes_whole {pos : Nat} {w u : Bytes} {c : Cursor} (h : (Cursor.whole pos w).Passes u c) :
    w = u ++ c.bytes ∧ c = .whole c.pos c.bytes := by
  obtain ⟨hbytes, hleft⟩ := h
  obtain ⟨pos', bytes, left⟩ := c
  simp only [Cursor.whole] at hbytes hleft ⊢
  refine ⟨hbytes, ?_⟩
  rw [hleft, hbytes, List.length_append]
  congr 1
  omega

/-- The `try` block ends without an exception exactly on a header and data items that can be
printed. -/
theorem parseBody_ok {q : ProtocolMessage} {pos : Nat} {w : Bytes} {items : DataItems} :
    (∃ q', parseBody cfg q (.whole pos w) = (q', .ok ()) ∧ q'.dataItems = items) ↔
      ∃ id length forms, Known cfg q.isSignal id ∧ id.toNat < 256 ^ cfg.signalIdSize.1 ∧
        length < 256 ^ cfg.signalLengthSize.1 ∧ Forms cfg items forms ∧
        (∀ di ∈ items, di.Resolves cfg none) ∧
        w = BigEndian.encode cfg.signalIdSize id.toNat ++
          (BigEndian.encode cfg.signalLengthSize length ++ bodyOf forms) := by
  constructor
  · rintro ⟨q', h, rfl⟩
    unfold parseBody at h
    split at h
    · cases h
    · next id c₁ hid =>
      split at h
      · cases h
      · next length c₂ hlength =>
        cases hname : ({ q with signalId := UInt32.ofNat id, signalIdInitialized := true } :
            ProtocolMessage).getSignalName cfg with
        | error e =>
          simp only [hname] at h
          cases h
        | ok name =>
          obtain ⟨_, hpass₁, hidlt, hidfit, rfl⟩ :=
            takes_deserializeField 4 cfg.signalIdSize.2.2 _ _ _ hid
          obtain ⟨rfl, hc₁⟩ := passes_whole hpass₁
          rw [hc₁] at hlength
          obtain ⟨_, hpass₂, _, hlenfit, rfl⟩ :=
            takes_deserializeField 8 cfg.signalLengthSize.2.2 _ _ _ hlength
          obtain ⟨hbytes, hc₂⟩ := passes_whole hpass₂
          cases hloop : parseDataItems cfg (c₂.bytes.length + 1) c₂ with
          | mk more r =>
            simp only [hname, hloop] at h
            obtain ⟨rfl, rfl⟩ := Prod.mk.inj h
            rw [hc₂] at hloop
            obtain ⟨forms, hforms, hall, hbody⟩ := (parseDataItems_ok (Nat.lt_succ_self _)).1 hloop
            have hidNat : (UInt32.ofNat id).toNat = id := UInt32.toNat_ofNat_of_lt' hidlt
            refine ⟨UInt32.ofNat id, length, forms, ⟨name, ?_⟩, by rwa [hidNat], hlenfit, hforms,
              hall, ?_⟩
            · simpa [getSignalName] using hname
            · rw [hidNat, hbytes]
              exact congrArg _ (congrArg _ hbody)
  · rintro ⟨id, length, forms, ⟨name, hname⟩, hidfit, hlenfit, hforms, hall, rfl⟩
    have hsize : length < 256 ^ 8 :=
      Nat.lt_of_lt_of_le hlenfit (Nat.pow_le_pow_right (by norm_num) cfg.signalLengthSize.2.2)
    have hid := deserialize_frameId hidfit pos
      (BigEndian.encode cfg.signalLengthSize length ++ bodyOf forms)
    have hlength := reads_deserializeField 8 cfg.signalLengthSize.2.2 hsize hlenfit
      (pos + cfg.signalIdSize) (bodyOf forms) (cfg.signalLengthSize.1 + (bodyOf forms).length)
        (by simp)
    have hloop := (@parseDataItems_ok _ cfg ((bodyOf forms).length + 1)
      (pos + cfg.signalIdSize + cfg.signalLengthSize) _ items (Nat.lt_succ_self _)).2
        ⟨forms, hforms, hall, rfl⟩
    simp only [Cursor.whole, List.length_append, BigEndian.length_encode, Nat.cast_add,
      add_sub_cancel_left] at hid hlength hloop
    have hgot : ({ q with signalId := id, signalIdInitialized := true } :
        ProtocolMessage).getSignalName cfg = .ok name := by
      simpa [getSignalName] using hname
    refine ⟨{ q with signalId := id, signalIdInitialized := true, dataItems := items }, ?_, rfl⟩
    simp only [parseBody, Cursor.whole, List.length_append, BigEndian.length_encode, Nat.cast_add,
      hid, hlength, UInt32.ofNat_toNat, hgot, hloop]

/-- The parse of a body fails with a text. -/
theorem hasText_parseBody {q q' : ProtocolMessage} {c : Cursor} {e : Exn}
    (h : parseBody cfg q c = (q', .error e)) : e.HasText := by
  unfold parseBody at h
  split at h
  · next e' he' =>
    obtain rfl := Except.error.inj (Prod.mk.inj h).2
    exact fails_deserializeField _ _ _ _ he'
  · split at h
    · next e' he' =>
      obtain rfl := Except.error.inj (Prod.mk.inj h).2
      exact fails_deserializeField _ _ _ _ he'
    · next id _ _ _ _ _ _ =>
      cases hname : ({ q with signalId := UInt32.ofNat id, signalIdInitialized := true } :
          ProtocolMessage).getSignalName cfg with
      | error e' =>
        simp only [hname] at h
        obtain rfl := Except.error.inj (Prod.mk.inj h).2
        rintro cls rfl
        exact getSignalName_what_ne_nil cls hname
      | ok name =>
        simp only [hname] at h
        exact hasText_parseDataItems (Prod.mk.inj h).2

omit [AddressText] in
/-- Without a mismatch the buffer begins with the prefix. -/
theorem append_of_prefixMismatch {signalPrefix expected msg : Bytes}
    (h : prefixMismatch signalPrefix expected msg = none) (hlen : expected.length ≤ msg.length) :
    msg = expected ++ msg.drop expected.length := by
  induction expected generalizing msg with
  | nil => rfl
  | cons ch expected ih =>
    cases msg with
    | nil => simp at hlen
    | cons b msg =>
      rw [prefixMismatch] at h
      split at h
      · cases h
      · next hb =>
        rw [not_not.1 hb, List.cons_append, List.length_cons, List.drop_succ_cons,
          ← ih h (by simpa using hlen)]

/-- A buffer is accepted exactly if it splits into a header and data items that can be printed. -/
theorem accepts_iff {isSignal : Bool} {buf logPrefix : Bytes} {pm₀ : ProtocolMessage}
    {items : DataItems} :
    (∃ pm, Accepts cfg isSignal buf logPrefix pm₀ pm ∧ pm.dataItems = items) ↔
      ∃ length body, Splits cfg isSignal buf length items body ∧
        ∀ di ∈ items, di.Resolves cfg none := by
  obtain ⟨start, hstart⟩ : ∃ start, (if isSignal then str cfg.signalPrefix else []) = start :=
    ⟨_, rfl⟩
  constructor
  · rintro ⟨pm, h, rfl⟩
    simp only [Accepts, parseBuffer, parse, hstart] at h
    split at h
    · have htext : str "signal is too short to have expected prefix " ≠ [] := str_ne_nil (by simp)
      have := (Prod.mk.inj (Except.ok.inj h)).1
      simp [withLogPrefix_eq_nil, htext] at this
    · next hlong =>
      split at h
      · next err herr =>
        have := (Prod.mk.inj (Except.ok.inj h)).1
        exact absurd (withLogPrefix_eq_nil.1 this) (prefixMismatch_ne_nil herr)
      · next hmatch =>
        split at h
        · next q _ hbody =>
          obtain ⟨_, rfl⟩ := Prod.mk.inj (Except.ok.inj h)
          obtain ⟨id, length, forms, hknown, hid, hlen, hforms, hall, hw⟩ :=
            parseBody_ok.1 ⟨_, hbody, rfl⟩
          have hle : start.length ≤ buf.length := by
            cases isSignal with
            | false =>
              obtain rfl : [] = start := hstart
              simp
            | true =>
              simp only [true_and, not_le] at hlong
              exact hlong.le
          have hbuf := append_of_prefixMismatch hmatch hle
          refine ⟨length, _, ⟨id, forms, hknown, hid, hlen, hforms, rfl, ?_⟩, hall⟩
          rw [hbuf, hw, idBytes, hstart, List.append_assoc]
        · next q cls what hbody =>
          obtain ⟨hwhat, _⟩ := Prod.mk.inj (Except.ok.inj h)
          obtain rfl := withLogPrefix_eq_nil.1 hwhat
          exact absurd rfl (hasText_parseBody hbody cls)
        · cases h
  · rintro ⟨length, _, ⟨id, forms, hknown, hid, hlen, hforms, rfl, rfl⟩, hall⟩
    obtain ⟨rest, hrest⟩ : ∃ rest, rest = BigEndian.encode cfg.signalIdSize id.toNat ++
        (BigEndian.encode cfg.signalLengthSize length ++ bodyOf forms) := ⟨_, rfl⟩
    have hbuf : idBytes cfg isSignal id ++
        (BigEndian.encode cfg.signalLengthSize length ++ bodyOf forms) = start ++ rest := by
      rw [idBytes, hstart, hrest, List.append_assoc]
    have hlong : ¬ (isSignal = true ∧ (start ++ rest).length ≤ start.length) := by
      have hpos := cfg.signalIdSize.2.1
      simp only [hrest, List.length_append, BigEndian.length_encode]
      omega
    obtain ⟨q, hbody, hitems⟩ := (@parseBody_ok _ cfg
      { pm₀ with msgbuf := start ++ rest, isSignal, dataItems := [] } start.length rest items).2
      ⟨id, length, forms, hknown, hid, hlen, hforms, hall, hrest⟩
    refine ⟨q, ?_, hitems⟩
    simp only [Accepts, parseBuffer, parse, hstart, hbuf, if_neg hlong, prefixMismatch_append,
      List.drop_left, hbody]

omit [AddressText] in
/-- Bytes are those of one list of data items only. -/
theorem forms_unique {items items' : DataItems} {forms forms' : List Form}
    (h : Forms cfg items forms) (h' : Forms cfg items' forms')
    (hbody : bodyOf forms = bodyOf forms') :
    items = items' := by
  induction h generalizing items' forms' with
  | nil => exact (forms_nil h' hbody.symm).symm
  | @cons di form items forms hform hforms ih =>
    cases h' with
    | nil =>
      have := forms_nil (.cons hform hforms) hbody
      cases this
    | @cons di' form' items' forms' hform' hforms' =>
      have hread := hform.deserialize 0 (bodyOf forms)
      have hread' := hform'.deserialize 0 (bodyOf forms')
      change form.bytes ++ bodyOf forms = form'.bytes ++ bodyOf forms' at hbody
      rw [hbody, hread'] at hread
      obtain ⟨rfl, hcursor⟩ := Prod.mk.inj (Except.ok.inj hread)
      rw [ih hforms' (congrArg Cursor.bytes hcursor).symm]

omit [AddressText] in
/-- A buffer splits in one way only. -/
theorem Splits.unique {isSignal : Bool} {buf body body' : Bytes} {length length' : Nat}
    {items items' : DataItems} (h : Splits cfg isSignal buf length items body)
    (h' : Splits cfg isSignal buf length' items' body') :
    length = length' ∧ items = items' ∧ body = body' := by
  obtain ⟨id, forms, _, _, hlen, hforms, rfl, hbuf⟩ := h
  obtain ⟨id', forms', _, _, hlen', hforms', rfl, hbuf'⟩ := h'
  rw [hbuf] at hbuf'
  have hids : (idBytes cfg isSignal id).length = (idBytes cfg isSignal id').length := by
    rw [length_idBytes, length_idBytes]
  obtain ⟨_, hrest⟩ := List.append_inj hbuf' hids
  obtain ⟨hlength, hbody⟩ := List.append_inj hrest (by simp)
  have hsame := congrArg BigEndian.decode hlength
  rw [BigEndian.decode_encode hlen, BigEndian.decode_encode hlen'] at hsame
  exact ⟨hsame, forms_unique hforms hforms' hbody, hbody⟩

/-- What is expected of the parser: it accepts the wire grammar, and returns the data items that the
grammar finds. -/
def DecidesGrammar (cfg : ProtocolConfig) (isSignal : Bool) (buf logPrefix : Bytes)
    (pm₀ : ProtocolMessage) : Prop :=
  ((∃ pm, Accepts cfg isSignal buf logPrefix pm₀ pm) ↔ ∃ items, InGrammar cfg isSignal buf items) ∧
    ∀ pm, Accepts cfg isSignal buf logPrefix pm₀ pm →
      ∀ items, InGrammar cfg isSignal buf items ↔ items = pm.dataItems

/-- The parser decides the grammar exactly on the buffers which, if they split into a header and
well formed data items, have the right length in the header if and only if all ids are found in
the scope in which they are printed. -/
theorem decidesGrammar_iff {isSignal : Bool} {buf logPrefix : Bytes} {pm₀ : ProtocolMessage} :
    DecidesGrammar cfg isSignal buf logPrefix pm₀ ↔
      ∀ length items body, Splits cfg isSignal buf length items body →
        (length = body.length ↔ ∀ di ∈ items, di.Resolves cfg none) := by
  constructor
  · rintro ⟨hboth, hitems⟩ length items body hsplit
    constructor
    · rintro rfl
      obtain ⟨pm, hpm⟩ := hboth.2 ⟨items, body, hsplit⟩
      obtain ⟨_, _, hsplit', hall⟩ := accepts_iff.1 ⟨pm, hpm, rfl⟩
      obtain ⟨_, heq, _⟩ := hsplit.unique hsplit'
      exact heq ▸ hall
    · intro hall
      obtain ⟨pm, hpm, rfl⟩ := (@accepts_iff _ cfg isSignal buf logPrefix pm₀ _).2
        ⟨length, body, hsplit, hall⟩
      obtain ⟨body', hsplit'⟩ := (hitems pm hpm _).2 rfl
      obtain ⟨hlength, _, rfl⟩ := hsplit.unique hsplit'
      exact hlength
  · intro hcond
    have hin : ∀ pm, Accepts cfg isSignal buf logPrefix pm₀ pm →
        InGrammar cfg isSignal buf pm.dataItems := by
      intro pm hpm
      obtain ⟨length, body, hsplit, hall⟩ := accepts_iff.1 ⟨pm, hpm, rfl⟩
      obtain rfl := (hcond length _ body hsplit).2 hall
      exact ⟨body, hsplit⟩
    refine ⟨⟨fun ⟨pm, hpm⟩ => ⟨_, hin pm hpm⟩, fun ⟨items, body, hsplit⟩ => ?_⟩, ?_⟩
    · obtain ⟨pm, hpm, _⟩ := (@accepts_iff _ cfg isSignal buf logPrefix pm₀ _).2
        ⟨_, body, hsplit, (hcond _ items body hsplit).1 rfl⟩
      exact ⟨pm, hpm⟩
    · intro pm hpm items
      constructor
      · rintro ⟨body, hsplit⟩
        obtain ⟨body', hsplit'⟩ := hin pm hpm
        exact (hsplit.unique hsplit').2.1
      · rintro rfl
        exact hin pm hpm

end ProtocolMessage

end

namespace ProtocolMessage

/-- A Peer Discovery without data items, whose header announces five bytes. -/
def shortDiscovery : Bytes := str "DLEP" ++ [0, 1, 0, 5]

/-- The signal is accepted, and its length is wrong. -/
theorem shortDiscovery_accepted :
    (∃ pm, @Accepts plainText rfc8175 true shortDiscovery [] {} pm) ∧
      ¬ @DecidesGrammar plainText rfc8175 true shortDiscovery [] {} := by
  let := plainText
  have hsplit : Splits rfc8175 true shortDiscovery 5 [] [] :=
    ⟨1, [], ⟨"Peer_Discovery", rfl⟩, by decide, by decide, .nil, rfl, by decide +kernel⟩
  obtain ⟨pm, hpm, _⟩ :=
    (@accepts_iff _ rfc8175 true shortDiscovery [] {} _).2 ⟨5, [], hsplit, by simp⟩
  refine ⟨⟨pm, hpm⟩, fun h => ?_⟩
  obtain ⟨items, body, hsplit'⟩ := h.1.1 ⟨pm, hpm⟩
  obtain ⟨hlength, _, rfl⟩ := hsplit.unique hsplit'
  cases hlength

end ProtocolMessage

end Dlep
