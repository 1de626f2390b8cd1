import Dlep.DataItem.Wire

/-!
# How far the decoder reads

`DataItem::deserialize` gets the end of a data item by adding the length that it has read to the
iterator (`DataItem.cpp:541`). The sum is taken modulo `2 ^ 64`. Where it wraps, the end lies
behind the iterator, the check against the end of the message does not see it, and the fields that
are read with `!=` go past the end of the message. `DataItem.Overruns` says which bytes lead
there. All others are decoded inside their range (`DataItem.decodesInside_iff`): the decoder
throws, or it stops right behind the data item, and sub data items fill the value of their parent.
-/

namespace Dlep

open ByteReader

/-- The library throws the exception, and does not go wrong. -/
def Exn.Thrown (e : Exn) : Prop := ∃ cls what, e = .std cls what

/-- A standard exception is thrown, not a fault. -/
theorem thrown_std {cls : StdException} {what : Bytes} : (Exn.std cls what).Thrown :=
  ⟨cls, what, rfl⟩

/-- A read behind the end of the memory is a fault. -/
theorem not_thrown_readPastEnd : ¬ readPastEnd.Thrown := by
  rintro ⟨cls, what, h⟩
  cases h

/-- Looking up a data item goes wrong by an exception only. -/
theorem thrown_getDataItemInfo {cfg : ProtocolConfig} {id : DataItemIdType}
    {parent : Option DataItemInfo} {e : Exn} (h : cfg.getDataItemInfo id parent = .error e) :
    e.Thrown := by
  cases hname : cfg.getDataItemName id parent with
  | ok name =>
    rw [ProtocolConfig.getDataItemInfo, hname, ok_bind] at h
    unfold ProtocolConfig.getDataItemInfoByName at h
    split at h
    · cases h
    · exact Except.error.inj h ▸ thrown_std
  | error e' =>
    rw [ProtocolConfig.getDataItemInfo, hname, error_bind] at h
    obtain rfl := Except.error.inj h
    unfold ProtocolConfig.getDataItemName at hname
    split at hname
    · cases hname
    · split at hname
      · cases hname
      · exact Except.error.inj hname ▸ thrown_std

/-! ## Inside the range -/

/-- An integer takes its bytes or finds the range too short. -/
theorem stays_deserialize (szT : Nat) : Stays Exn.Thrown szT (deserialize szT) :=
  (stays_bytes thrown_std szT).map _

/-- A field takes its bytes, finds the range too short, or holds a value too large for its type.
-/
theorem stays_deserializeField (szT fieldSize : Nat) :
    Stays Exn.Thrown fieldSize (deserializeField szT fieldSize) := by
  refine stays_bind (m := 0) (stays_bytes thrown_std fieldSize) fun bs => ?_
  show Stays Exn.Thrown 0 (if _ then _ else _)
  split
  · exact stays_throw thrown_std
  · exact stays_pure

/-- One byte is taken, or the range has none. -/
theorem stays_readU8 : Stays Exn.Thrown 1 readU8 := (stays_deserialize 1).map _

/-- Two bytes are taken, or the range is too short. -/
theorem stays_readU16 : Stays Exn.Thrown 2 readU16 := (stays_deserialize 2).map _

/-- Four bytes are taken, or the range is too short. -/
theorem stays_readU32 : Stays Exn.Thrown 4 readU32 := (stays_deserialize 4).map _

/-- Eight bytes are taken, or the range is too short. -/
theorem stays_readU64 : Stays Exn.Thrown 8 readU64 := (stays_deserialize 8).map _

/-- The rest of a range is inside the memory. -/
theorem stays_readRest : Stays Exn.Thrown 0 readRest := stays_rest

/-- An address takes its bytes, or the range has fewer. -/
theorem stays_readAddress (n : Nat) (what : String) : Stays Exn.Thrown n (readAddress n what) := by
  intro c hc
  unfold readAddress
  split
  · exact thrown_std
  · exact stays_bytes thrown_std n c hc

/-- An IPv4 address takes four bytes. -/
theorem stays_deserializeIpv4 : Stays Exn.Thrown 4 deserializeIpv4 := (stays_readAddress 4 _).map _

/-- An IPv6 address takes sixteen bytes. -/
theorem stays_deserializeIpv6 : Stays Exn.Thrown 16 deserializeIpv6 :=
  (stays_readAddress 16 _).map _

/-- Asking how many bytes are left reads none. -/
theorem stays_bytesLeft : Stays Exn.Thrown 0 bytesLeft := fun _ hc => ⟨hc, le_rfl⟩

/-- A port is read only if there are two bytes for it. -/
theorem stays_readOptionalPort : Stays Exn.Thrown 0 readOptionalPort := by
  refine stays_bind (n := 0) (m := 0) stays_bytesLeft fun left => ?_
  split
  · exact stays_readU16.mono (Nat.zero_le _)
  · exact stays_pure

/-- The id of an extension has at least one byte. -/
theorem stays_readExtensionId (cfg : ProtocolConfig) : Stays Exn.Thrown 1 (readExtensionId cfg) :=
  ((stays_deserializeField 4 cfg.extensionIdSize).map _).mono cfg.extensionIdSize.2.1

/-- Does a value of the type hold data items? -/
def DataItemValueType.nests : DataItemValueType → Bool
  | .subDataItems | .u16SubDataItems => true
  | _ => false

/-- A value that holds no data items is read inside its range. -/
theorem stays_deserializeValue {cfg : ProtocolConfig} {subs : Decoder DataItems}
    {ty : DataItemValueType} (hty : ty.nests = false) :
    Stays Exn.Thrown 0 (deserializeValue cfg subs ty) := by
  have hseq : ∀ {α β : Type} {r : Decoder α} {f : α → Decoder β} {n : Nat}, Stays Exn.Thrown n r →
      (∀ a, Stays Exn.Thrown 0 (f a)) → Stays Exn.Thrown 0 (r >>= f) :=
    fun hr hf => stays_bind (n := 0) (m := 0) (hr.mono (Nat.zero_le _)) hf
  cases ty with
  | blank => exact stays_pure
  | u8 => exact hseq stays_readU8 fun _ => stays_pure
  | u16 => exact hseq stays_readU16 fun _ => stays_pure
  | u32 => exact hseq stays_readU32 fun _ => stays_pure
  | u64 => exact hseq stays_readU64 fun _ => stays_pure
  | vU8 => exact hseq (stays_many stays_readU8) fun _ => stays_pure
  | vU32 => exact hseq (stays_many (stays_readU32.mono (by norm_num))) fun _ => stays_pure
  | a2U16 => exact hseq stays_readU16 fun _ => hseq stays_readU16 fun _ => stays_pure
  | string => exact hseq stays_readRest fun _ => stays_pure
  | dlepmac => exact hseq stays_readRest fun _ => stays_pure
  | u8String => exact hseq stays_readU8 fun _ => hseq stays_readRest fun _ => stays_pure
  | u8Ipv4 => exact hseq stays_readU8 fun _ => hseq stays_deserializeIpv4 fun _ => stays_pure
  | u8Ipv6 => exact hseq stays_readU8 fun _ => hseq stays_deserializeIpv6 fun _ => stays_pure
  | u16VU8 =>
    refine hseq stays_readU16 fun f1 => hseq stays_readU8 fun sz =>
      hseq stays_bytesLeft fun left => ?_
    split
    · exact stays_throw thrown_std
    · exact hseq stays_readRest fun _ => stays_pure
  | vExtid => exact hseq (stays_many (stays_readExtensionId cfg)) fun _ => stays_pure
  | u8Ipv4U16 =>
    exact hseq stays_readU8 fun _ => hseq stays_deserializeIpv4 fun _ =>
      hseq stays_readOptionalPort fun _ => stays_pure
  | u8Ipv6U16 =>
    exact hseq stays_readU8 fun _ => hseq stays_deserializeIpv6 fun _ =>
      hseq stays_readOptionalPort fun _ => stays_pure
  | u8Ipv4U8 =>
    exact hseq stays_readU8 fun _ => hseq stays_deserializeIpv4 fun _ =>
      hseq stays_readU8 fun _ => stays_pure
  | u8Ipv6U8 =>
    exact hseq stays_readU8 fun _ => hseq stays_deserializeIpv6 fun _ =>
      hseq stays_readU8 fun _ => stays_pure
  | u8U8 => exact hseq stays_readU8 fun _ => hseq stays_readU8 fun _ => stays_pure
  | u64U64 => exact hseq stays_readU64 fun _ => hseq stays_readU64 fun _ => stays_pure
  | subDataItems | u16SubDataItems => cases hty

/-- The fixed fields in front of the sub data items of a value. The last of them is reserved. -/
inductive DataItemValueType.LeadsIn : DataItemValueType → Bytes → Prop where
  | subDataItems : LeadsIn .subDataItems []
  | u16SubDataItems (f1 : UInt16) (count : UInt8) :
    LeadsIn .u16SubDataItems (BigEndian.encode 2 f1.toNat ++ ([count] ++ [0]))

/-- One byte is read as itself. -/
theorem reads_readU8_singleton (v : UInt8) : Reads readU8 [v] v := encode_one v ▸ reads_readU8 v

/-- An error in reading a value in its range is thrown, or comes from its sub data items. -/
theorem error_of_deserializeValue {cfg : ProtocolConfig} {subs : Decoder DataItems}
    {ty : DataItemValueType} {pos : Nat} {w behind : Bytes} {e : Exn}
    (h : deserializeValue cfg subs ty (.range pos w behind) = .error e) :
    e.Thrown ∨ ∃ fixed more, ty.LeadsIn fixed ∧ w = fixed ++ more ∧
      subs (.range (pos + fixed.length) more behind) = .error e := by
  have hU8 : ∀ (v : UInt8) (w : Bytes), w = [v] → Reads readU8 w v := by
    rintro v _ rfl
    exact reads_readU8_singleton v
  have hU16 : ∀ (v : UInt16) (w : Bytes), w = BigEndian.encode 2 v.toNat → Reads readU16 w v := by
    rintro v _ rfl
    exact reads_readU16 v
  cases hty : ty.nests with
  | false => exact .inl ((stays_deserializeValue hty).error (Cursor.inside_range pos w behind) h)
  | true =>
    cases ty with
    | subDataItems =>
      rcases bind_error.1 h with hsubs | ⟨items, c, _, hret⟩
      · exact .inr ⟨[], w, .subDataItems, rfl, hsubs⟩
      · cases hret
    | u16SubDataItems =>
      rcases error_of_bind_range stays_readU16 takes_readU16 hU16 h with
        he | ⟨f1, _, w₁, rfl, rfl, h₁⟩
      · exact .inl he
      rcases error_of_bind_range stays_readU8 takes_readU8 hU8 h₁ with
        he | ⟨count, _, w₂, rfl, rfl, h₂⟩
      · exact .inl he
      rcases error_of_bind_range stays_readU8 takes_readU8 hU8 h₂ with
        he | ⟨res, _, more, rfl, rfl, h₃⟩
      · exact .inl he
      split at h₃
      · exact .inl (Except.error.inj h₃ ▸ thrown_std)
      · next hres =>
        obtain rfl := not_not.1 hres
        rcases bind_error.1 h₃ with hsubs | ⟨items, c, _, hcount⟩
        · refine .inr ⟨_, more, .u16SubDataItems f1 count, by simp only [List.append_assoc], ?_⟩
          simpa only [List.length_append, Nat.add_assoc] using hsubs
        · split at hcount
          · exact .inl (Except.error.inj hcount ▸ thrown_std)
          · cases hcount
    | _ => cases hty

/-- What the sub data items fail with, the value fails with. -/
theorem deserializeValue_error {cfg : ProtocolConfig} {subs : Decoder DataItems}
    {ty : DataItemValueType} {fixed : Bytes} (hfixed : ty.LeadsIn fixed) {pos : Nat}
    {more behind : Bytes} {e : Exn}
    (h : subs (.range (pos + fixed.length) more behind) = .error e) :
    deserializeValue cfg subs ty (.range pos (fixed ++ more) behind) = .error e := by
  cases hfixed with
  | subDataItems => exact bind_error.2 (.inl h)
  | u16SubDataItems f1 count =>
    have hfields : (BigEndian.encode 2 f1.toNat ++ ([count] ++ [(0 : UInt8)])).length =
        (BigEndian.encode 2 f1.toNat).length + [count].length + [(0 : UInt8)].length := by
      simp only [List.length_append, Nat.add_assoc]
    rw [hfields, ← Nat.add_assoc, ← Nat.add_assoc] at h
    rw [List.append_assoc, List.append_assoc]
    refine bind_error.2 (.inr ⟨f1, _, (reads_readU16 f1).range _ _ _, ?_⟩)
    refine bind_error.2 (.inr ⟨count, _, (reads_readU8_singleton count).range _ _ _, ?_⟩)
    refine bind_error.2 (.inr ⟨0, _, (reads_readU8_singleton 0).range _ _ _, ?_⟩)
    rw [if_neg (not_not.2 rfl)]
    exact bind_error.2 (.inl h)

/-! ## With the end behind the iterator -/

/-- How many bytes of a value are read before it is seen that the end is behind the iterator: those
of the integers that come first. -/
def DataItemValueType.unguarded : DataItemValueType → Nat
  | .blank | .vU8 | .vU32 | .vExtid | .string | .dlepmac | .subDataItems => 0
  | .u8 | .u8String | .u8Ipv4 | .u8Ipv6 | .u8Ipv4U16 | .u8Ipv6U16 | .u8Ipv4U8 | .u8Ipv6U8 => 1
  | .u16 | .u8U8 => 2
  | .u16VU8 => 3
  | .u32 | .a2U16 | .u16SubDataItems => 4
  | .u64 => 8
  | .u64U64 => 16

/-- An integer does not notice that the end is behind the iterator. -/
theorem overreads_deserialize (szT : Nat) : Overreads readPastEnd szT (deserialize szT) :=
  (overreads_bytes szT).map _

/-- One byte is taken although the end is behind the iterator. -/
theorem overreads_readU8 : Overreads readPastEnd 1 readU8 := (overreads_deserialize 1).map _

/-- Two bytes are taken although the end is behind the iterator. -/
theorem overreads_readU16 : Overreads readPastEnd 2 readU16 := (overreads_deserialize 2).map _

/-- Four bytes are taken although the end is behind the iterator. -/
theorem overreads_readU32 : Overreads readPastEnd 4 readU32 := (overreads_deserialize 4).map _

/-- Eight bytes are taken although the end is behind the iterator. -/
theorem overreads_readU64 : Overreads readPastEnd 8 readU64 := (overreads_deserialize 8).map _

/-- The rest of a range whose end is behind the iterator has a negative length, which is thrown.
-/
theorem refuses_readRest : Refuses Exn.Thrown readRest := refuses_rest thrown_std

/-- An address compares the length of the range first, and so notices. -/
theorem refuses_readAddress (n : Nat) (what : String) :
    Refuses Exn.Thrown (readAddress n what) := by
  intro c hc
  have hshort : c.left < n := by omega
  exact ⟨_, by rw [readAddress, if_pos hshort], thrown_std⟩

/-- An IPv4 address compares the length of the range first, and so notices. -/
theorem refuses_deserializeIpv4 : Refuses Exn.Thrown deserializeIpv4 :=
  (refuses_readAddress 4 _).bind

/-- An IPv6 address compares the length of the range first, and so notices. -/
theorem refuses_deserializeIpv6 : Refuses Exn.Thrown deserializeIpv6 :=
  (refuses_readAddress 16 _).bind

/-- A vector cannot have a negative length. -/
theorem refuses_counted (sz : UInt8) {α : Type} {what : Int → Bytes} {r : Decoder α} :
    Refuses Exn.Thrown (do
      let left ← bytesLeft
      if left ≠ sz.toNat then throw (.std .lengthError (what left)) else r) := by
  intro c hc
  have hne : c.left ≠ sz.toNat := by omega
  refine ⟨.std .lengthError (what c.left), ?_, thrown_std⟩
  show (if c.left ≠ sz.toNat then throw (.std .lengthError (what c.left)) else r : Decoder α) c = _
  rw [if_pos hne, throw_run]

/-- With the end behind the iterator, a value never gets to its end. -/
theorem strays_deserializeValue {cfg : ProtocolConfig} {subs : Decoder DataItems}
    (hsubs : Strays readPastEnd Exn.Thrown 0 subs) (ty : DataItemValueType) :
    Strays readPastEnd Exn.Thrown ty.unguarded (deserializeValue cfg subs ty) := by
  cases ty with
  | blank => exact strays_pure
  | u8 => exact (overreads_readU8.map _).strays
  | u16 => exact (overreads_readU16.map _).strays
  | u32 => exact (overreads_readU32.map _).strays
  | u64 => exact (overreads_readU64.map _).strays
  | vU8 | vU32 | vExtid => exact strays_many.bind fun _ => strays_pure
  | a2U16 => exact (overreads_readU16.bind fun _ => overreads_readU16.map _).strays
  | string | dlepmac => exact refuses_readRest.bind.strays
  | u8String => exact overreads_readU8.strays_bind fun _ => refuses_readRest.bind.strays
  | u8Ipv4 | u8Ipv4U16 | u8Ipv4U8 =>
    exact overreads_readU8.strays_bind fun _ => refuses_deserializeIpv4.bind.strays
  | u8Ipv6 | u8Ipv6U16 | u8Ipv6U8 =>
    exact overreads_readU8.strays_bind fun _ => refuses_deserializeIpv6.bind.strays
  | u16VU8 =>
    exact overreads_readU16.strays_bind fun _ => overreads_readU8.strays_bind fun sz =>
      (refuses_counted sz).strays
  | u8U8 => exact (overreads_readU8.bind fun _ => overreads_readU8.map _).strays
  | u64U64 => exact (overreads_readU64.bind fun _ => overreads_readU64.map _).strays
  | subDataItems => exact hsubs.bind fun _ => strays_pure
  | u16SubDataItems =>
    refine overreads_readU16.strays_bind (m := 2) fun _ =>
      overreads_readU8.strays_bind (m := 1) fun _ =>
        overreads_readU8.strays_bind (m := 0) fun res => ?_
    split
    · exact (refuses_throw thrown_std).strays
    · refine hsubs.bind fun items => ?_
      split
      · exact (refuses_throw thrown_std).strays
      · exact strays_pure

/-! ## The header -/

def DataItem.headerSize (cfg : ProtocolConfig) : Nat :=
  cfg.dataItemIdSize.1 + cfg.dataItemLengthSize.1

/-- The id of a data item, and its length field. -/
def DataItem.header (cfg : ProtocolConfig) (id : DataItemIdType) (length : Nat) : Bytes :=
  BigEndian.encode cfg.dataItemIdSize id.toNat ++ BigEndian.encode cfg.dataItemLengthSize length

/-- The id and the length fit their fields. -/
structure DataItem.HeaderFits (cfg : ProtocolConfig) (id : DataItemIdType)
    (length : Nat) : Prop where
  id : id.toNat < 256 ^ cfg.dataItemIdSize.1
  length : length < 256 ^ cfg.dataItemLengthSize.1

/-- What comes after the header. -/
def DataItem.deserializeBody (cfg : ProtocolConfig) (n : Nat) (parent : Option DataItemInfo)
    (id : DataItemIdType) (length : Nat) : Decoder DataItem := do
  let diEnd ← itemEnd id length
  let info ← (cfg.getDataItemInfo id parent : Except Exn DataItemInfo)
  let subs := many .outOfFuel (deserializeUpTo cfg n (some info))
  let value ← window diEnd (deserializedTooLittle id length)
    (deserializeValue cfg subs info.valueType)
  return .mk id value

section

variable {cfg : ProtocolConfig} {parent : Option DataItemInfo} {id : DataItemIdType} {length : Nat}

/-- A header has the size that is configured for ids and lengths. -/
@[simp] theorem DataItem.length_header : (header cfg id length).length = headerSize cfg := by
  simp [header, headerSize]

/-- The bytes of a data item are its header and its value. -/
theorem DataItem.framed_eq (valbuf : Bytes) :
    framed cfg id valbuf = header cfg id valbuf.length ++ valbuf := by
  rw [framed, header, List.append_assoc]

/-- A header is read, and its body comes next. -/
theorem DataItem.HeaderFits.run (h : DataItem.HeaderFits cfg id length) (n pos : Nat)
    (rest behind : Bytes) :
    DataItem.deserializeUpTo cfg (n + 1) parent
        (.range pos (DataItem.header cfg id length ++ rest) behind) =
      DataItem.deserializeBody cfg n parent id length
        (.range (pos + DataItem.headerSize cfg) rest behind) := by
  have hsize : length < 256 ^ 8 :=
    Nat.lt_of_lt_of_le h.length (Nat.pow_le_pow_right (by norm_num) cfg.dataItemLengthSize.2.2)
  have hreadId := (reads_deserializeField 4 cfg.dataItemIdSize.2.2 id.toNat_lt h.id).range pos
    (BigEndian.encode cfg.dataItemLengthSize length ++ rest) behind
  have hreadLength := (reads_deserializeField 8 cfg.dataItemLengthSize.2.2 hsize h.length).range
    (pos + cfg.dataItemIdSize.1) rest behind
  rw [BigEndian.length_encode] at hreadId hreadLength
  rw [DataItem.header, List.append_assoc, DataItem.deserializeUpTo, bind_run, hreadId]
  simp only [Except.bind]
  rw [bind_run, hreadLength, UInt32.ofNat_toNat, DataItem.headerSize, ← Nat.add_assoc]
  rfl

variable (cfg) in

/-- A range begins with a header, or an exception is thrown. -/
theorem error_or_header (n : Nat) (parent : Option DataItemInfo) (pos : Nat) (bs behind : Bytes) :
    (∃ e, DataItem.deserializeUpTo cfg (n + 1) parent (.range pos bs behind) = .error e ∧
        e.Thrown) ∨
      ∃ id length rest, DataItem.HeaderFits cfg id length ∧
        bs = DataItem.header cfg id length ++ rest := by
  have hfield : ∀ (szT : Nat) (size : FieldSize) (v : Nat) (w : Bytes),
      v < 256 ^ szT ∧ v < 256 ^ size.1 ∧ w = BigEndian.encode size.1 v →
      Reads (deserializeField szT size.1) w v := by
    rintro szT size v _ ⟨hT, hfit, rfl⟩
    exact reads_deserializeField szT size.2.2 hT hfit
  rcases (stays_deserializeField 4 cfg.dataItemIdSize).range
      (takes_deserializeField 4 cfg.dataItemIdSize.2.2) (hfield 4 cfg.dataItemIdSize)
        pos bs behind with
    ⟨e, he, hthrown⟩ | ⟨v, w, bs₁, rfl, hv⟩
  · exact .inl ⟨e, bind_error.2 (.inl he), hthrown⟩
  have hreadId := (hfield 4 cfg.dataItemIdSize v w hv).range pos bs₁ behind
  obtain ⟨hlt, hid, rfl⟩ := hv
  rcases (stays_deserializeField 8 cfg.dataItemLengthSize).range
      (takes_deserializeField 8 cfg.dataItemLengthSize.2.2) (hfield 8 cfg.dataItemLengthSize) _ bs₁
      behind with ⟨e, he, hthrown⟩ | ⟨length, _, rest, rfl, _, hlength, rfl⟩
  · exact .inl ⟨e, bind_error.2 (.inr ⟨v, _, hreadId, bind_error.2 (.inl he)⟩), hthrown⟩
  · have hid' : (UInt32.ofNat v).toNat = v := UInt32.toNat_ofNat_of_lt' hlt
    refine .inr ⟨UInt32.ofNat v, length, rest, ⟨by rwa [hid'], hlength⟩, ?_⟩
    rw [DataItem.header, hid', List.append_assoc]

/-! ## The body -/

/-- Where the value fits, the end of the data item is right behind it. -/
theorem itemEnd_inside (id : DataItemIdType) (pos : Nat) (valbuf rest behind : Bytes) :
    itemEnd id valbuf.length (.range pos (valbuf ++ rest) behind) =
      .ok ((valbuf.length : Int), .range pos (valbuf ++ rest) behind) :=
  if_pos (by simp [Cursor.range])

/-- A length larger than what is left is not within the range. -/
theorem not_le_left {pos : Nat} {rest behind : Bytes} (hlong : rest.length < length) :
    ¬ (length : Int) ≤ (Cursor.range pos rest behind).left := by
  simp only [Cursor.range]
  omega

/-- A length that takes the sum to 2^64 puts the end in front of the iterator, and the check
passes. -/
theorem itemEnd_wraps {pos : Nat} {rest behind : Bytes} (hlong : rest.length < length)
    (hsum : 2 ^ 64 ≤ pos + length) :
    itemEnd id length (.range pos rest behind) =
      .ok ((length : Int) - 2 ^ 64, .range pos rest behind) :=
  (if_neg (not_le_left hlong)).trans (if_neg (Nat.not_lt.2 hsum))

/-- What the window of the value fails with, the body fails with. -/
theorem DataItem.deserializeBody_of_window {n : Nat} {c : Cursor} {diEnd : Int}
    {info : DataItemInfo} {e : Exn} (hend : itemEnd id length c = .ok (diEnd, c))
    (hinfo : cfg.getDataItemInfo id parent = .ok info)
    (h : window diEnd (deserializedTooLittle id length)
      (deserializeValue cfg (many .outOfFuel (deserializeUpTo cfg n (some info))) info.valueType)
      c = .error e) :
    deserializeBody cfg n parent id length c = .error e := by
  refine bind_error.2 (.inr ⟨_, _, hend, ?_⟩)
  refine bind_error.2 (.inr ⟨info, _, lift_ok.2 ⟨hinfo, rfl⟩, ?_⟩)
  exact bind_error.2 (.inl h)

/-- The body of a data item that ends in the range fails where its value does. -/
theorem DataItem.error_of_deserializeBody {n pos : Nat} {valbuf rest behind : Bytes} {e : Exn}
    (h : deserializeBody cfg n parent id valbuf.length (.range pos (valbuf ++ rest) behind) =
      .error e) :
    e.Thrown ∨ ∃ info, cfg.getDataItemInfo id parent = .ok info ∧
      deserializeValue cfg (many .outOfFuel (deserializeUpTo cfg n (some info))) info.valueType
        (.range pos valbuf (rest ++ behind)) = .error e := by
  rcases bind_error.1 h with he | ⟨diEnd, c, he, h₁⟩
  · rw [itemEnd_inside] at he
    cases he
  rw [itemEnd_inside] at he
  cases he
  rcases bind_error.1 h₁ with hlook | ⟨info, c, hlook, h₂⟩
  · exact .inl (thrown_getDataItemInfo (lift_error.1 hlook))
  obtain ⟨hinfo, rfl⟩ := lift_ok.1 hlook
  rcases bind_error.1 h₂ with hwindow | ⟨value, c, _, hret⟩
  · rw [window_range] at hwindow
    split at hwindow
    · next e' hvalue =>
      obtain rfl := Except.error.inj hwindow
      exact .inr ⟨info, hinfo, hvalue⟩
    · split at hwindow
      · cases hwindow
      · exact .inl (Except.error.inj hwindow ▸ thrown_std)
  · cases hret

/-- The data item ends behind the range, and the sum does not wrap. -/
theorem DataItem.deserializeBody_beyond {n pos : Nat} {rest behind : Bytes}
    (hlong : rest.length < length) (hsum : pos + length < 2 ^ 64) :
    ∃ e, deserializeBody cfg n parent id length (.range pos rest behind) = .error e ∧ e.Thrown := by
  have hend : itemEnd id length (.range pos rest behind) = .error _ :=
    (if_neg (not_le_left hlong)).trans (if_pos hsum)
  exact ⟨_, bind_error.2 (.inl hend), thrown_std⟩

/-- The sum wraps: the first integers of the value are read, whether or not they are in the
range. -/
theorem DataItem.deserializeBody_wraps {info : DataItemInfo}
    (hinfo : cfg.getDataItemInfo id parent = .ok info) {n pos : Nat} {rest behind : Bytes}
    (hlong : rest.length < length) (hlength : length < 2 ^ 64) (hsum : 2 ^ 64 ≤ pos + length) :
    ((rest ++ behind).length < info.valueType.unguarded →
      deserializeBody cfg n parent id length (.range pos rest behind) = .error readPastEnd) ∧
    (info.valueType.unguarded ≤ (rest ++ behind).length →
      ∃ e, deserializeBody cfg n parent id length (.range pos rest behind) = .error e ∧
        e.Thrown) := by
  have hneg : (length : Int) - 2 ^ 64 < 0 := by omega
  have hshort : ∀ left, (deserializedTooLittle id length left).Thrown := fun _ => thrown_std
  have hstrays : Strays readPastEnd Exn.Thrown info.valueType.unguarded (deserializeValue cfg
      (many .outOfFuel (deserializeUpTo cfg n (some info))) info.valueType) :=
    strays_deserializeValue strays_many _
  obtain ⟨hpast, hthrown⟩ := hstrays.window hneg hshort (.range pos rest behind)
  have hend := @itemEnd_wraps id length pos rest behind hlong hsum
  refine ⟨fun h => deserializeBody_of_window hend hinfo (hpast h), fun h => ?_⟩
  obtain ⟨e, he, hgood⟩ := hthrown h
  exact ⟨e, deserializeBody_of_window hend hinfo he, hgood⟩

/-- A data item that does not end in the range is not read. -/
theorem DataItem.deserializeBody_long {n pos : Nat} {rest behind : Bytes}
    (hlong : rest.length < length) (hlength : length < 2 ^ 64) :
    ∃ e, deserializeBody cfg n parent id length (.range pos rest behind) = .error e ∧
      (e.Thrown ∨ e = readPastEnd ∧ ∃ info, cfg.getDataItemInfo id parent = .ok info ∧
        2 ^ 64 ≤ pos + length ∧ (rest ++ behind).length < info.valueType.unguarded) := by
  rcases Nat.lt_or_ge (pos + length) (2 ^ 64) with hsum | hsum
  · obtain ⟨e, he, hthrown⟩ := deserializeBody_beyond hlong hsum
    exact ⟨e, he, .inl hthrown⟩
  cases hinfo : cfg.getDataItemInfo id parent with
  | error e =>
    refine ⟨e, bind_error.2 (.inr ⟨_, _, itemEnd_wraps hlong hsum, ?_⟩),
      .inl (thrown_getDataItemInfo hinfo)⟩
    exact bind_error.2 (.inl (lift_error.2 hinfo))
  | ok info =>
    obtain ⟨hpast, hthrown⟩ := deserializeBody_wraps hinfo hlong hlength hsum
    rcases Nat.lt_or_ge (rest ++ behind).length info.valueType.unguarded with hmem | hmem
    · exact ⟨_, hpast hmem, .inr ⟨rfl, info, rfl, hsum, hmem⟩⟩
    · obtain ⟨e, he, hgood⟩ := hthrown hmem
      exact ⟨e, he, .inl hgood⟩

/-- Where the body of a data item is read, the data item ends in the range. -/
theorem DataItem.left_nonneg_of_deserializeBody {n pos : Nat} {rest behind : Bytes} {di : DataItem}
    {c' : Cursor} (hlength : length < 2 ^ 64)
    (h : deserializeBody cfg n parent id length (.range pos rest behind) = .ok (di, c')) :
    0 ≤ c'.left := by
  by_cases hlong : rest.length < length
  · obtain ⟨e, he, _⟩ := deserializeBody_long hlong hlength
    cases h.symm.trans he
  obtain ⟨diEnd, c₁, hend, h₁⟩ := bind_ok.1 h
  obtain ⟨info, c₂, hlook, h₂⟩ := bind_ok.1 h₁
  obtain ⟨value, c₃, hwindow, hret⟩ := bind_ok.1 h₂
  obtain ⟨_, rfl⟩ := lift_ok.1 hlook
  obtain ⟨_, rfl⟩ := Prod.mk.inj (Except.ok.inj hret)
  have hle : (length : Int) ≤ (Cursor.range pos rest behind).left := by
    simp only [Cursor.range]
    omega
  obtain ⟨rfl, rfl⟩ := Prod.mk.inj (Except.ok.inj ((if_pos hle).symm.trans hend))
  obtain ⟨c₄, _, _, rfl⟩ := window_ok hwindow
  show 0 ≤ (Cursor.range pos rest behind).left - (length : Int)
  omega

end

/-! ## The bytes that lead past the end -/

/-- The bytes `bs` at offset `pos`, with the bytes `behind` between them and the end of the message,
lead to a header whose length wraps, and whose value starts with more bytes of integers than there
are up to the end of the message. -/
inductive DataItem.Overruns (cfg : ProtocolConfig) :
    Option DataItemInfo → Nat → Bytes → Bytes → Prop where
  /-- The header is the first thing there is. -/
  | here {parent : Option DataItemInfo} {pos : Nat} {id : DataItemIdType} {length : Nat}
      {rest behind : Bytes} {info : DataItemInfo} (hfits : HeaderFits cfg id length)
      (hinfo : cfg.getDataItemInfo id parent = .ok info) (hlong : rest.length < length)
      (hwraps : 2 ^ 64 ≤ pos + headerSize cfg + length)
      (hshort : (rest ++ behind).length < info.valueType.unguarded) :
      Overruns cfg parent pos (header cfg id length ++ rest) behind
  /-- The header stands in the value of a data item that ends in the range, behind sub data items
  that have their wire forms. -/
  | inside {parent : Option DataItemInfo} {pos : Nat} {id : DataItemIdType} {fixed more : Bytes}
      {items : DataItems} {subs : List Form} {rest behind : Bytes} {info : DataItemInfo}
      (hfits : HeaderFits cfg id (fixed ++ ((subs.map Form.bytes).flatten ++ more)).length)
      (hinfo : cfg.getDataItemInfo id parent = .ok info) (hfixed : info.valueType.LeadsIn fixed)
      (hsubs : SubForms cfg info items subs)
      (hmore : Overruns cfg (some info)
        (pos + headerSize cfg + fixed.length + (subs.map Form.bytes).flatten.length) more
        (rest ++ behind)) :
      Overruns cfg parent pos
        (framed cfg id (fixed ++ ((subs.map Form.bytes).flatten ++ more)) ++ rest) behind

section

variable {cfg : ProtocolConfig}

/-- A length that fits its field is below 2^64. -/
theorem DataItem.HeaderFits.length_lt {id : DataItemIdType} {length : Nat}
    (h : DataItem.HeaderFits cfg id length) : length < 2 ^ 64 := by
  calc length < 256 ^ cfg.dataItemLengthSize.1 := h.length
    _ ≤ 256 ^ 8 := Nat.pow_le_pow_right (by norm_num) cfg.dataItemLengthSize.2.2
    _ = 2 ^ 64 := by norm_num

/-- A header has a byte. -/
theorem DataItem.headerSize_pos (cfg : ProtocolConfig) : 0 < headerSize cfg :=
  Nat.add_pos_left cfg.dataItemIdSize.2.1 _

/-- Nothing at all does not overrun. -/
theorem DataItem.Overruns.ne_nil {parent : Option DataItemInfo} {pos : Nat} {bs behind : Bytes}
    (h : DataItem.Overruns cfg parent pos bs behind) : bs ≠ [] := by
  have hpos := DataItem.headerSize_pos cfg
  refine List.ne_nil_of_length_pos ?_
  cases h with
  | here =>
    rw [List.length_append, length_header]
    omega
  | inside =>
    rw [framed_eq, List.length_append, List.length_append, length_header]
    omega

/-- With length fields of seven bytes or less, no length is large enough. -/
theorem DataItem.not_overruns (hsize : cfg.dataItemLengthSize.1 ≤ 7)
    {parent : Option DataItemInfo} {pos : Nat} {bs behind : Bytes}
    (hpos : pos + bs.length < 2 ^ 63) :
    ¬ DataItem.Overruns cfg parent pos bs behind := by
  intro h
  induction h with
  | here hfits _ _ hwraps _ =>
    have hlength := hfits.length
    have hpow : 256 ^ cfg.dataItemLengthSize.1 ≤ 256 ^ 7 :=
      Nat.pow_le_pow_right (by norm_num) hsize
    rw [List.length_append, length_header] at hpos
    omega
  | inside _ _ _ _ _ ih =>
    refine ih ?_
    rw [framed_eq] at hpos
    simp only [List.length_append, length_header] at hpos ⊢
    omega

/-- A data item that is read from a range has one of its wire forms there. -/
theorem DataItem.ok_of_deserializeUpTo {n : Nat} {parent : Option DataItemInfo} {pos : Nat}
    {bs behind : Bytes} (hn : bs.length < n) {di : DataItem} {c' : Cursor}
    (h : deserializeUpTo cfg n parent (.range pos bs behind) = .ok (di, c')) :
    ∃ w rest, bs = w ++ rest ∧ (∃ form, di.Wire cfg parent form ∧ form.bytes = w) ∧
      c' = .range (pos + w.length) rest behind := by
  have hleft : 0 ≤ c'.left := by
    obtain ⟨m, rfl⟩ : ∃ m, n = m + 1 := ⟨n - 1, by omega⟩
    rcases error_or_header cfg m parent pos bs behind with
      ⟨e, he, _⟩ | ⟨id, length, rest, hfits, rfl⟩
    · rw [h] at he
      cases he
    · rw [hfits.run] at h
      exact left_nonneg_of_deserializeBody hfits.length_lt h
  refine (takes_deserializeUpTo n parent).range h ?_ hleft
  rintro _ hlen ⟨form, hform, rfl⟩
  exact reads_of_wire hform (Nat.lt_of_le_of_lt hlen hn)

/-- The decoder fails with an exception, or past the end of the message if the bytes lead there. -/
theorem DataItem.error_of_deserializeUpTo {n : Nat} {parent : Option DataItemInfo} {pos : Nat}
    {bs behind : Bytes} (hn : bs.length < n) {e : Exn}
    (h : deserializeUpTo cfg n parent (.range pos bs behind) = .error e) :
    e.Thrown ∨ e = readPastEnd ∧ Overruns cfg parent pos bs behind := by
  induction n generalizing parent pos bs behind with
  | zero => omega
  | succ n ih =>
    rcases error_or_header cfg n parent pos bs behind with
      ⟨e', he, hthrown⟩ | ⟨id, length, rest, hfits, rfl⟩
    · rw [h] at he
      exact .inl (Except.error.inj he ▸ hthrown)
    rw [hfits.run] at h
    by_cases hlong : rest.length < length
    · obtain ⟨e', he, hgood⟩ := deserializeBody_long hlong hfits.length_lt
      obtain rfl := Except.error.inj (h.symm.trans he)
      rcases hgood with hthrown | ⟨rfl, info, hinfo, hwraps, hmem⟩
      · exact .inl hthrown
      · exact .inr ⟨rfl, .here hfits hinfo hlong hwraps hmem⟩
    · -- the data item ends in the range, so that the error is one of its value
      obtain ⟨valbuf, rest, rfl, rfl⟩ : ∃ valbuf rest', rest = valbuf ++ rest' ∧
          length = valbuf.length :=
        ⟨rest.take length, rest.drop length, by simp, by simp [Nat.not_lt.1 hlong]⟩
      rcases error_of_deserializeBody h with hthrown | ⟨info, hinfo, hvalue⟩
      · exact .inl hthrown
      rcases error_of_deserializeValue hvalue with hthrown | ⟨fixed, sub, hfixed, rfl, hmany⟩
      · exact .inl hthrown
      have hpos := headerSize_pos cfg
      have hsub : sub.length < n := by
        simp only [List.length_append, length_header] at hn
        omega
      -- the loop stops at a sub data item that is not read, behind some that are
      obtain ⟨items, ws, more, rfl, _, hws, hmore⟩ := error_of_manyUpTo
        (P := fun sdi w => ∃ form, sdi.Wire cfg (some info) form ∧ form.bytes = w) (l := sub.length)
        (fun pos' bs sdi c' hl hok => by
          obtain ⟨w, rest', rfl, ⟨form, hform, rfl⟩, rfl⟩ :=
            ok_of_deserializeUpTo (Nat.lt_of_le_of_lt hl hsub) hok
          exact ⟨form.bytes, rest', List.ne_nil_of_length_pos hform.length_pos, rfl,
            ⟨form, hform, rfl⟩, rfl⟩)
        (Nat.le_refl _) (by simp only [Cursor.range, List.length_append]; omega) hmany
      obtain ⟨subs, hforms, rfl⟩ := exists_subForms hws
      rw [List.length_append] at hsub
      rcases ih (by omega) hmore with hthrown | ⟨rfl, hoverruns⟩
      · exact .inl hthrown
      · rw [← List.append_assoc, ← framed_eq]
        exact .inr ⟨rfl, .inside hfits hinfo hfixed hforms hoverruns⟩

/-- The decoder goes past the end of the message where the bytes lead there. -/
theorem DataItem.Overruns.run {parent : Option DataItemInfo} {pos : Nat} {bs behind : Bytes}
    (h : DataItem.Overruns cfg parent pos bs behind) {n : Nat} (hn : bs.length < n) :
    DataItem.deserializeUpTo cfg n parent (.range pos bs behind) = .error readPastEnd := by
  induction h generalizing n with
  | here hfits hinfo hlong hwraps hshort =>
    obtain ⟨m, rfl⟩ : ∃ m, n = m + 1 := ⟨n - 1, by omega⟩
    rw [hfits.run]
    exact (deserializeBody_wraps hinfo hlong hfits.length_lt hwraps).1 hshort
  | @inside parent pos id fixed more items subs rest behind info hfits hinfo
      hfixed hsubs hmore ih =>
    obtain ⟨m, rfl⟩ : ∃ m, n = m + 1 := ⟨n - 1, by omega⟩
    have hpos := headerSize_pos cfg
    rw [framed_eq] at hn ⊢
    simp only [List.length_append, length_header] at hn
    rw [List.append_assoc, hfits.run]
    refine deserializeBody_of_window (itemEnd_inside ..) hinfo ?_
    rw [window_range, deserializeValue_error hfixed ?_]
    have hcount := length_le_length_flatten hsubs.ne_nil
    -- the sub data items before are read, within what is left of the bound
    refine manyUpTo_error (hsubs.reads (by omega)) ?_ hmore.ne_nil (ih (by omega))
    simp only [Cursor.range, List.length_append]
    omega

end

/-! ## Inside the item -/

/-- The data item fills the bytes. They are its id, the length of its value, and its value, and read
on their own they give the data item. Its sub data items fill parts of the value, which stand one
after the other behind the fixed fields up to its end. -/
inductive DataItem.Fills (cfg : ProtocolConfig) :
    Option DataItemInfo → DataItem → Bytes → Prop where
  | mk {parent : Option DataItemInfo} {id : DataItemIdType} {value : DataItemValue}
      {info : DataItemInfo} {valbuf : Bytes} {parts : List Bytes}
      (hinfo : cfg.getDataItemInfo id parent = .ok info) (htype : value.getType = info.valueType)
      (hfits : HeaderFits cfg id valbuf.length)
      (hread : ∀ pos, deserialize cfg parent (.whole pos (framed cfg id valbuf)) =
        .ok (.mk id value, .whole (pos + (framed cfg id valbuf).length) []))
      (hparts : info.valueType.nests = true →
        ∃ fixed, info.valueType.LeadsIn fixed ∧ valbuf = fixed ++ parts.flatten)
      (hcount : value.subItems.length = parts.length)
      (hsubs : ∀ (i : Nat) (sdi : DataItem) (part : Bytes), value.subItems[i]? = some sdi →
        parts[i]? = some part → Fills cfg (some info) sdi part) :
      Fills cfg parent (.mk id value) (framed cfg id valbuf)

/-- Decoding the bytes at offset `pos`, where the memory ends with them. It throws, so that neither
the recursion nor a loop goes on for ever and no byte behind the end is asked for, or it stops right
behind the header and as many bytes as the length field says, which the data item fills. -/
structure DataItem.DecodesInside (cfg : ProtocolConfig) (parent : Option DataItemInfo) (pos : Nat)
    (bs : Bytes) : Prop where
  throws : ∀ e, deserialize cfg parent (.whole pos bs) = .error e → e.Thrown
  advances : ∀ di c', deserialize cfg parent (.whole pos bs) = .ok (di, c') →
    ∃ valbuf rest, bs = framed cfg di.id valbuf ++ rest ∧ HeaderFits cfg di.id valbuf.length ∧
      c' = .whole (pos + headerSize cfg + valbuf.length) rest ∧
      di.Fills cfg parent (framed cfg di.id valbuf)

/-- The sub data items of a value are written behind its fixed fields. -/
theorem DataItemValue.wire_of_nests {cfg : ProtocolConfig} {value : DataItemValue}
    (h : value.getType.nests = true) (port subs : Bytes) :
    ∃ fixed, value.getType.LeadsIn fixed ∧ value.wire cfg port subs = fixed ++ subs := by
  cases value with
  | subDataItems items => exact ⟨[], .subDataItems, rfl⟩
  | u16SubDataItems f1 items =>
    refine ⟨_, .u16SubDataItems f1 (UInt8.ofNat items.length), ?_⟩
    simp [DataItemValue.wire]
  | _ => cases h

section

variable {cfg : ProtocolConfig} {parent : Option DataItemInfo}

/-- A data item fills its wire forms. -/
theorem DataItem.Wire.fills {di : DataItem} {form : Form} (h : di.Wire cfg parent form) :
    di.Fills cfg parent form.bytes := by
  induction h with
  | @mk parent id value info zero port port' subs hinfo htype hfits hport hport' hcount hsubs hid
      hlength ih =>
    have hform := DataItem.Wire.mk hinfo htype hfits hport hport' hcount hsubs hid hlength
    have hparts : value.subItems.length = (subs.map Form.bytes).length := by rwa [List.length_map]
    refine .mk hinfo htype ⟨hid, hlength⟩ (fun pos => ?_) (fun hnests => ?_) hparts
      fun i sdi part hsdi hpart => ?_
    · have hread := hform.deserialize pos []
      rwa [List.append_nil] at hread
    · rw [← htype] at hnests ⊢
      exact DataItemValue.wire_of_nests hnests port _
    · rw [List.getElem?_map] at hpart
      obtain ⟨subForm, hsubForm, rfl⟩ := Option.map_eq_some_iff.1 hpart
      exact ih i sdi subForm hsdi hsubForm

variable {pos : Nat} {bs : Bytes}

/-- Bytes that do not lead past their end are decoded inside it. -/
theorem DataItem.decodesInside (h : ¬ DataItem.Overruns cfg parent pos bs []) :
    DataItem.DecodesInside cfg parent pos bs := by
  have hfuel : bs.length < (Cursor.whole pos bs).bytes.length + 1 := Nat.lt_succ_self _
  constructor
  · intro e he
    rw [deserialize, Cursor.whole_eq_range] at he
    rcases error_of_deserializeUpTo (by rwa [← Cursor.whole_eq_range]) he with hthrown | ⟨_, hover⟩
    · exact hthrown
    · exact absurd hover h
  · intro di c' hok
    rw [deserialize, Cursor.whole_eq_range] at hok
    obtain ⟨_, rest, rfl, ⟨form, hform, rfl⟩, rfl⟩ :=
      ok_of_deserializeUpTo (by rwa [← Cursor.whole_eq_range]) hok
    have hfills := hform.fills
    obtain ⟨valbuf, hfits, hbytes⟩ : ∃ valbuf, HeaderFits cfg di.id valbuf.length ∧
        form.bytes = framed cfg di.id valbuf := by
      cases hform with
      | mk _ _ _ _ _ _ _ hid hlength => exact ⟨_, ⟨hid, hlength⟩, rfl⟩
    rw [hbytes] at hfills ⊢
    refine ⟨valbuf, rest, rfl, hfits, ?_, hfills⟩
    rw [framed_eq, List.length_append, length_header, Cursor.whole_eq_range, Nat.add_assoc]

/-- With length fields of seven bytes or less, decoding stays inside every range. -/
theorem DataItem.decodesInside_of_le_seven (hsize : cfg.dataItemLengthSize.1 ≤ 7)
    (hpos : pos + bs.length < 2 ^ 63) : DataItem.DecodesInside cfg parent pos bs :=
  DataItem.decodesInside (DataItem.not_overruns hsize hpos)

/-- Decoding stays inside the range exactly if the bytes do not lead to a length that wraps in front
of integers that the range is too short for. -/
theorem DataItem.decodesInside_iff :
    DataItem.DecodesInside cfg parent pos bs ↔ ¬ DataItem.Overruns cfg parent pos bs [] := by
  refine ⟨fun h hover => ?_, DataItem.decodesInside⟩
  have hrun : deserialize cfg parent (.whole pos bs) = .error readPastEnd := by
    rw [deserialize, Cursor.whole_eq_range]
    refine hover.run ?_
    rw [← Cursor.whole_eq_range]
    exact Nat.lt_succ_self _
  exact not_thrown_readPastEnd (h.throws _ hrun)

end

/-- A data item with a length of `2 ^ 64 - 1` and no value, behind a message header of 9 bytes. -/
theorem DataItem.not_decodesInside_wideLengths :
    DataItem.deserialize wideLengths none (.whole 9 [1, 255, 255, 255, 255, 255, 255, 255, 255]) =
        .error readPastEnd ∧
      ¬ DataItem.DecodesInside wideLengths none 9 [1, 255, 255, 255, 255, 255, 255, 255, 255] := by
  have hrun : DataItem.deserialize wideLengths none
      (.whole 9 [1, 255, 255, 255, 255, 255, 255, 255, 255]) = .error readPastEnd := rfl
  exact ⟨hrun, fun h => not_thrown_readPastEnd (h.throws _ hrun)⟩

end Dlep
