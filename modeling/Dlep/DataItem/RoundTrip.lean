import Dlep.DataItem
import Dlep.Rfc8175

/-!
# Deserialize undoes serialize

`serialize` is turned around by `deserialize` case by case (`exact_deserializeValue`), and over the
nesting by induction on the typing of the data item (`reads_deserializeUpTo`). The counts that two
of the types put on the wire are taken from an `unsigned int`, so that a list of `2 ^ 32` items goes
out with the count of a list of none; `CountFits` is what keeps this from happening, and it is also
what every decoded data item satisfies (`everywhere_decodable_of_deserializeUpTo`).
-/

namespace Dlep

open ByteReader

/-! ## Data items and what they hold -/

/-- The sub data items a value holds. -/
def DataItemValue.subItems : DataItemValue → DataItems
  | .subDataItems items => items
  | .u16SubDataItems _ items => items
  | _ => []

/-- A sub data item is smaller than the value that holds it. -/
theorem DataItemValue.sizeOf_lt_of_mem_subItems {value : DataItemValue} {sdi : DataItem}
    (h : sdi ∈ value.subItems) : sizeOf sdi < sizeOf value := by
  cases value with
  | subDataItems items =>
    have : sizeOf sdi < sizeOf items := List.sizeOf_lt_of_mem h
    simp only [DataItemValue.subDataItems.sizeOf_spec]
    omega
  | u16SubDataItems f1 items =>
    have : sizeOf sdi < sizeOf items := List.sizeOf_lt_of_mem h
    simp only [DataItemValue.u16SubDataItems.sizeOf_spec]
    omega
  | _ => simp [DataItemValue.subItems] at h

/-- Induction over the nesting of data items. -/
theorem DataItem.nesting_induction {motive : DataItem → Prop}
    (mk : ∀ id value, (∀ sdi ∈ value.subItems, motive sdi) → motive (.mk id value)) :
    ∀ di, motive di
  | .mk id value => mk id value fun sdi _ => nesting_induction mk sdi
termination_by di => sizeOf di
decreasing_by
  have := DataItemValue.sizeOf_lt_of_mem_subItems ‹_›
  simp only [DataItem.mk.sizeOf_spec]
  omega

/-- A data item and all its sub data items have the value type that is configured for their id in
the scope they stand in. -/
inductive DataItem.WellTyped (cfg : ProtocolConfig) : Option DataItemInfo → DataItem → Prop where
  | mk {parent : Option DataItemInfo} {id : DataItemIdType} {value : DataItemValue}
      {info : DataItemInfo} (hinfo : cfg.getDataItemInfo id parent = .ok info)
      (htype : value.getType = info.valueType)
      (hsubs : ∀ sdi ∈ value.subItems, WellTyped cfg (some info) sdi) :
      WellTyped cfg parent (.mk id value)

/-- A property of the value of a data item and of the values of all its sub data items. -/
inductive DataItem.Everywhere (P : DataItemValue → Prop) : DataItem → Prop where
  | mk {id : DataItemIdType} {value : DataItemValue} (hvalue : P value)
      (hsubs : ∀ sdi ∈ value.subItems, Everywhere P sdi) : Everywhere P (.mk id value)

/-- What holds everywhere holds of the value itself. -/
theorem DataItem.Everywhere.value {P : DataItemValue → Prop} {id : DataItemIdType}
    {value : DataItemValue} (h : Everywhere P (.mk id value)) : P value := by
  cases h with
  | mk hvalue _ => exact hvalue

/-- What holds everywhere holds everywhere in the sub data items. -/
theorem DataItem.Everywhere.subs {P : DataItemValue → Prop} {id : DataItemIdType}
    {value : DataItemValue} (h : Everywhere P (.mk id value)) :
    ∀ sdi ∈ value.subItems, Everywhere P sdi := by
  cases h with
  | mk _ hsubs => exact hsubs

/-- A property of all values may be weakened. -/
theorem DataItem.Everywhere.imp {P Q : DataItemValue → Prop} {di : DataItem}
    (h : Everywhere P di) (himp : ∀ value, P value → Q value) : Everywhere Q di := by
  induction h with
  | mk hvalue _ ih => exact .mk (himp _ hvalue) ih

/-- Two properties of all values hold together. -/
theorem DataItem.Everywhere.and {P Q : DataItemValue → Prop} {di : DataItem}
    (hp : Everywhere P di) (hq : Everywhere Q di) : Everywhere (fun v => P v ∧ Q v) di := by
  induction hp with
  | mk hvalue _ ih => exact .mk ⟨hvalue, hq.value⟩ fun sdi hsdi => ih sdi hsdi (hq.subs sdi hsdi)

/-- An IPv6 address has scope id 0. -/
def DataItemValue.ScopeIdZero : DataItemValue → Prop
  | .u8Ipv6 _ a => a.scopeId = 0
  | .u8Ipv6U16 _ a _ => a.scopeId = 0
  | .u8Ipv6U8 _ a _ => a.scopeId = 0
  | _ => True

/-- A count that goes on the wire is not changed by the `unsigned int` it is kept in. -/
def DataItemValue.CountFits : DataItemValue → Prop
  | .u16VU8 _ bs => bs.length < 2 ^ 32
  | .u16SubDataItems _ items => items.length < 2 ^ 32
  | _ => True

/-! ## What serialize writes -/

/-- An integer is appended as its digits. -/
theorem serialize_eq_append (szT : Nat) {val : Nat} (h : val < 256 ^ szT) (buf : Bytes) :
    serialize szT val buf = buf ++ BigEndian.encode szT val := by
  rw [serialize, fieldBytes_eq_encode h]

/-- Integers that are appended one after the other are their digits one after the other. -/
theorem foldl_serialize {α : Type} (szT : Nat) {toNat : α → Nat}
    (h : ∀ a, toNat a < 256 ^ szT) (as : List α) (buf : Bytes) :
    as.foldl (fun buf a => serialize szT (toNat a) buf) buf =
      buf ++ (as.map fun a => BigEndian.encode szT (toNat a)).flatten := by
  induction as generalizing buf with
  | nil => simp
  | cons a as ih =>
    rw [List.foldl_cons, ih, serialize_eq_append szT (h a)]
    simp

/-- A list of extension ids is the fields of its ids, each of which fits its field. -/
theorem foldlM_serializeField {size : Nat} {xs : List UInt32} {buf out : Bytes}
    (h : xs.foldlM (fun buf x => serializeField 4 x.toNat size buf) buf = .ok out) :
    (∀ x ∈ xs, x.toNat < 256 ^ size) ∧
      out = buf ++ (xs.map fun x => BigEndian.encode size x.toNat).flatten := by
  induction xs generalizing buf with
  | nil =>
    have : buf = out := by simpa [pure, Except.pure] using h
    simp [this]
  | cons x xs ih =>
    rw [List.foldlM_cons, bind_eq_ok] at h
    obtain ⟨mid, hx, hrest⟩ := h
    obtain ⟨hfit, rfl⟩ := (serializeField_ok (by exact x.toNat_lt)).1 hx
    obtain ⟨hfits, rfl⟩ := ih hrest
    refine ⟨List.forall_mem_cons.2 ⟨hfit, hfits⟩, ?_⟩
    simp

/-- A list of data items is written one after the other. -/
theorem serializeSubDataItems_ok {cfg : ProtocolConfig} {items : DataItems} {buf out : Bytes} :
    serializeSubDataItems cfg items buf = .ok out ↔
      ∃ ws, List.Forall₂ (fun di w => di.serialize cfg = .ok w) items ws ∧
        out = buf ++ ws.flatten := by
  induction items generalizing buf with
  | nil => simp [serializeSubDataItems, eq_comm]
  | cons di items ih =>
    rw [serializeSubDataItems, bind_eq_ok]
    constructor
    · rintro ⟨w, hw, hrest⟩
      obtain ⟨ws, hws, rfl⟩ := ih.1 hrest
      exact ⟨w :: ws, .cons hw hws, by simp⟩
    · rintro ⟨ws, hws, rfl⟩
      cases hws with
      | @cons _ w _ ws hw hws => exact ⟨w, hw, ih.2 ⟨ws, hws, by simp⟩⟩

/-- A vector has its size exactly below 2^63 bytes; a longer one cannot be built. -/
theorem vectorSize_ok {buf : Bytes} {n : Nat} :
    vectorSize buf = .ok n ↔ buf.length < 2 ^ 63 ∧ n = buf.length := by
  unfold vectorSize
  split
  · next h => rw [Except.ok.injEq, and_iff_right h, eq_comm]
  · next h => simp only [throwStd, reduceCtorEq, h, false_and]

/-- A data item is its id, the length of its value, and its value. -/
theorem DataItem.serialize_ok {cfg : ProtocolConfig} {id : DataItemIdType} {value : DataItemValue}
    {w : Bytes} :
    (DataItem.mk id value).serialize cfg = .ok w ↔
      ∃ valbuf, value.serialize cfg = .ok valbuf ∧ valbuf.length < 2 ^ 63 ∧
        id.toNat < 256 ^ cfg.dataItemIdSize.1 ∧ valbuf.length < 256 ^ cfg.dataItemLengthSize.1 ∧
        w = BigEndian.encode cfg.dataItemIdSize id.toNat ++
          (BigEndian.encode cfg.dataItemLengthSize valbuf.length ++ valbuf) := by
  simp only [DataItem.serialize, bind_eq_ok, vectorSize_ok]
  constructor
  · rintro ⟨valbuf, hval, _, ⟨hlt, rfl⟩, hdr, hid, hdr', hlen, hw⟩
    obtain ⟨hidfit, rfl⟩ := (serializeField_ok (by exact id.toNat_lt)).1 hid
    obtain ⟨hlenfit, rfl⟩ := (serializeField_ok (lt_trans hlt (by norm_num))).1 hlen
    refine ⟨valbuf, hval, hlt, hidfit, hlenfit, ?_⟩
    simpa [pure, Except.pure, eq_comm] using hw
  · rintro ⟨valbuf, hval, hlt, hidfit, hlenfit, rfl⟩
    refine ⟨valbuf, hval, _, ⟨hlt, rfl⟩, _, (serializeField_ok id.toNat_lt).2 ⟨hidfit, rfl⟩, _,
      (serializeField_ok (lt_trans hlt (by norm_num))).2 ⟨hlenfit, rfl⟩, ?_⟩
    simp [pure, Except.pure]

/-- A data item is never written as nothing. -/
theorem DataItem.serialize_ne_nil {cfg : ProtocolConfig} {di : DataItem} {w : Bytes}
    (h : di.serialize cfg = .ok w) : w ≠ [] := by
  cases di with
  | mk id value =>
    obtain ⟨valbuf, _, _, _, _, rfl⟩ := DataItem.serialize_ok.1 h
    have hpos := cfg.dataItemIdSize.2.1
    intro hnil
    have := congrArg List.length hnil
    simp only [List.length_append, BigEndian.length_encode, List.length_nil] at this
    omega

/-- There are no more data items than bytes they take. -/
theorem length_le_of_serialized {cfg : ProtocolConfig} {items : DataItems} {ws : List Bytes}
    (hws : List.Forall₂ (fun di w => di.serialize cfg = .ok w) items ws) :
    items.length ≤ ws.flatten.length := by
  have hne : ∀ w ∈ ws, w ≠ [] := by
    induction hws with
    | nil => simp
    | cons hw _ ih => exact List.forall_mem_cons.2 ⟨DataItem.serialize_ne_nil hw, ih⟩
  rw [hws.length_eq]
  exact length_le_length_flatten hne

/-- The sub data items stand inside the value. -/
theorem DataItemValue.length_subItems_le {cfg : ProtocolConfig} {value : DataItemValue}
    {valbuf : Bytes} {ws : List Bytes} (hser : value.serialize cfg = .ok valbuf)
    (hws : List.Forall₂ (fun di w => di.serialize cfg = .ok w) value.subItems ws) :
    ws.flatten.length ≤ valbuf.length := by
  -- the bytes of the list are determined by the list
  have huniq : ∀ {items : DataItems} {us vs : List Bytes},
      List.Forall₂ (fun di w => di.serialize cfg = .ok w) items us →
      List.Forall₂ (fun di w => di.serialize cfg = .ok w) items vs → us = vs :=
    fun hus hvs => List.right_unique_forall₂'
      (fun _ _ _ h1 h2 => Except.ok.inj (h1.symm.trans h2)) hus hvs
  cases value with
  | subDataItems items =>
    obtain ⟨vs, hvs, rfl⟩ := serializeSubDataItems_ok.1 hser
    rw [huniq hws hvs]
    simp
  | u16SubDataItems f1 items =>
    simp only [DataItemValue.serialize] at hser
    split at hser
    · simp [throwStd] at hser
    · obtain ⟨vs, hvs, rfl⟩ := serializeSubDataItems_ok.1 hser
      rw [huniq hws hvs, List.length_append]
      omega
  | _ =>
    obtain rfl := List.forall₂_nil_left_iff.1 hws
    simp

/-! ## Reading the parts -/

/-- One byte is read back from its digit. -/
theorem reads_readU8 (v : UInt8) : Reads readU8 (BigEndian.encode 1 v.toNat) v := by
  have h := (reads_deserialize 1 v.toNat_lt).ret UInt8.ofNat
  rwa [UInt8.ofNat_toNat] at h

/-- An integer of two bytes is read back from its digits. -/
theorem reads_readU16 (v : UInt16) : Reads readU16 (BigEndian.encode 2 v.toNat) v := by
  have h := (reads_deserialize 2 v.toNat_lt).ret UInt16.ofNat
  rwa [UInt16.ofNat_toNat] at h

/-- An integer of four bytes is read back from its digits. -/
theorem reads_readU32 (v : UInt32) : Reads readU32 (BigEndian.encode 4 v.toNat) v := by
  have h := (reads_deserialize 4 v.toNat_lt).ret UInt32.ofNat
  rwa [UInt32.ofNat_toNat] at h

/-- An integer of eight bytes is read back from its digits. -/
theorem reads_readU64 (v : UInt64) : Reads readU64 (BigEndian.encode 8 v.toNat) v := by
  have h := (reads_deserialize 8 v.toNat_lt).ret UInt64.ofNat
  rwa [UInt64.ofNat_toNat] at h

/-- The id of an extension is read back if it fits its field. -/
theorem reads_readExtensionId {cfg : ProtocolConfig} {x : ExtensionIdType}
    (h : x.toNat < 256 ^ cfg.extensionIdSize.1) :
    Reads (readExtensionId cfg) (BigEndian.encode cfg.extensionIdSize x.toNat) x := by
  have hread := (reads_deserializeField 4 cfg.extensionIdSize.2.2 x.toNat_lt h).ret
    UInt32.ofNat
  rwa [UInt32.ofNat_toNat] at hread

/-- The digit of a byte is the byte. -/
theorem encode_one (v : UInt8) : BigEndian.encode 1 v.toNat = [v] := by
  simp [BigEndian.encode]

/-- An address of the right length is read back. -/
theorem reads_readAddress {n : Nat} (what : String) {bs : Bytes} (h : bs.length = n) :
    Reads (readAddress n what) bs bs := by
  subst h
  intro pos s l hl
  have hle : ¬ (l : Int) < bs.length := by omega
  simp only [readAddress, if_neg hle]
  exact reads_bytes endOfInput readPastEnd bs pos s l hl

/-- An IPv4 address is read back. -/
theorem reads_deserializeIpv4 (a : AddressV4) : Reads deserializeIpv4 a.bytes a := by
  have h := (reads_readAddress "data item has too few bytes for an IPv4 address" a.length_eq).ret
    AddressV4.ofBytes
  rwa [AddressV4.ofBytes_bytes] at h

/-- An IPv6 address with scope id 0 is read back. -/
theorem reads_deserializeIpv6 {a : AddressV6} (h : a.scopeId = 0) :
    Reads deserializeIpv6 a.bytes a := by
  have hread := (reads_readAddress "data item has too few bytes for an IPv6 address"
    a.length_eq).ret AddressV6.ofBytes
  rwa [AddressV6.ofBytes_bytes h] at hread

/-- What is left of a range is read back as it is. -/
theorem exact_readRest (w : Bytes) : Exact readRest w w := exact_rest _ _ w

/-- The port is there exactly when it is not 0. -/
theorem exact_readOptionalPort (v : UInt16) :
    Exact readOptionalPort (if v = 0 then [] else BigEndian.encode 2 v.toNat) v := by
  intro pos s
  split
  · next h =>
    simp [readOptionalPort, bytesLeft, bind_run, Except.bind, h]
  · have hread := (reads_readU16 v).exact pos s
    simp only [BigEndian.length_encode] at hread ⊢
    simpa [readOptionalPort, bytesLeft, bind_run, Except.bind] using hread

/-- A port of zero is not written. -/
theorem append_optionalPort (v : UInt16) (buf : Bytes) :
    (if v = 0 then buf else serialize 2 v.toNat buf) =
      buf ++ if v = 0 then [] else BigEndian.encode 2 v.toNat := by
  split
  · simp
  · rw [serialize_eq_append 2 v.toNat_lt]

/-- A loop reads back values that were written one after the other. -/
theorem exact_many_of_forall₂ {α : Type} {r : Decoder α} {R : α → Bytes → Prop} {as : List α}
    {ws : List Bytes} (h : List.Forall₂ R as ws)
    (hr : ∀ a ∈ as, ∀ w ∈ ws, R a w → Reads r w a) (hne : ∀ a ∈ as, ∀ w ∈ ws, R a w → w ≠ []) :
    Exact (many .outOfFuel r) ws.flatten as := by
  have hboth : List.Forall₂ (Reads r) ws as ∧ ∀ w ∈ ws, w ≠ [] := by
    induction h with
    | nil => simp
    | @cons a w as ws haw _ ih =>
      obtain ⟨htail, htailne⟩ := ih
        (fun b hb v hv => hr b (.tail _ hb) v (.tail _ hv))
        (fun b hb v hv => hne b (.tail _ hb) v (.tail _ hv))
      refine ⟨.cons (hr a (.head _) w (.head _) haw) htail, ?_⟩
      exact List.forall_mem_cons.2 ⟨hne a (.head _) w (.head _) haw, htailne⟩
  exact exact_many _ hboth.1 hboth.2

/-- Values are read back one after the other up to the end of the range, if none is written as
nothing. -/
theorem exact_many_map {α : Type} {r : Decoder α} {enc : α → Bytes} {as : List α}
    (hr : ∀ a ∈ as, Reads r (enc a) a) (hne : ∀ a ∈ as, enc a ≠ []) :
    Exact (many .outOfFuel r) (as.map enc).flatten as := by
  refine exact_many_of_forall₂ (R := fun a w => w = enc a) ?_ ?_ ?_
  · exact List.forall₂_map_right_iff.2 (List.forall₂_same.2 fun _ _ => rfl)
  · rintro a ha _ _ rfl
    exact hr a ha
  · rintro a ha _ _ rfl
    exact hne a ha

/-! ## Reading a value -/

/-- `deserializeValue` reads back what `serialize` wrote, if `subs` reads back the sub data items.
-/
theorem exact_deserializeValue {cfg : ProtocolConfig} {value : DataItemValue} {valbuf : Bytes}
    {subs : Decoder DataItems} (hser : value.serialize cfg = .ok valbuf)
    (hscope : value.ScopeIdZero) (hcount : value.CountFits)
    (hsubs : ∀ ws, List.Forall₂ (fun di w => di.serialize cfg = .ok w) value.subItems ws →
      Exact subs ws.flatten value.subItems) :
    Exact (deserializeValue cfg subs value.getType) valbuf value := by
  cases value with
  | blank =>
    obtain rfl := Except.ok.inj hser
    exact (reads_pure _).exact
  | u8 v =>
    obtain rfl := Except.ok.inj hser
    rw [serialize_eq_append 1 v.toNat_lt]
    exact ((reads_readU8 v).ret _).exact
  | u16 v =>
    obtain rfl := Except.ok.inj hser
    rw [serialize_eq_append 2 v.toNat_lt]
    exact ((reads_readU16 v).ret _).exact
  | u32 v =>
    obtain rfl := Except.ok.inj hser
    rw [serialize_eq_append 4 v.toNat_lt]
    exact ((reads_readU32 v).ret _).exact
  | u64 v =>
    obtain rfl := Except.ok.inj hser
    rw [serialize_eq_append 8 v.toNat_lt]
    exact ((reads_readU64 v).ret _).exact
  | vU8 v =>
    obtain rfl := Except.ok.inj hser
    rw [foldl_serialize 1 fun x : UInt8 => x.toNat_lt]
    exact (exact_many_map (fun x _ => reads_readU8 x) (by simp [BigEndian.encode])).ret _
  | vU32 v =>
    obtain rfl := Except.ok.inj hser
    rw [foldl_serialize 4 fun x : UInt32 => x.toNat_lt]
    exact (exact_many_map (fun x _ => reads_readU32 x) (by simp [BigEndian.encode])).ret _
  | a2U16 v0 v1 =>
    obtain rfl := Except.ok.inj hser
    rw [serialize_eq_append 2 v1.toNat_lt, serialize_eq_append 2 v0.toNat_lt]
    exact ((reads_readU16 v0).bind ((reads_readU16 v1).ret _)).exact
  | string v =>
    obtain rfl := Except.ok.inj hser
    exact (exact_readRest v).ret _
  | dlepmac v =>
    obtain rfl := Except.ok.inj hser
    exact (exact_readRest v).ret _
  | u8String f1 f2 =>
    obtain rfl := Except.ok.inj hser
    rw [serialize_eq_append 1 f1.toNat_lt]
    exact Exact.bind (reads_readU8 f1) ((exact_readRest f2).ret _)
  | u8Ipv4 f1 f2 =>
    obtain rfl := Except.ok.inj hser
    rw [← encode_one]
    exact ((reads_readU8 f1).bind ((reads_deserializeIpv4 f2).ret _)).exact
  | u8Ipv6 f1 f2 =>
    obtain rfl := Except.ok.inj hser
    rw [← encode_one]
    exact ((reads_readU8 f1).bind ((reads_deserializeIpv6 hscope).ret _)).exact
  | u16VU8 f1 f2 =>
    have hsize : unsignedSize f2.length = f2.length := Nat.mod_eq_of_lt hcount
    simp only [DataItemValue.serialize, hsize, bind_eq_ok] at hser
    obtain ⟨buf, hfield, hw⟩ := hser
    obtain ⟨hlt, rfl⟩ := (serializeField_ok (lt_of_lt_of_le hcount (by norm_num))).1 hfield
    obtain rfl := Except.ok.inj hw
    rw [serialize_eq_append 2 f1.toNat_lt, List.append_assoc]
    have hsz : (UInt8.ofNat f2.length).toNat = f2.length := Nat.mod_eq_of_lt hlt
    have hread := reads_readU8 (UInt8.ofNat f2.length)
    rw [hsz] at hread
    refine Exact.bind (reads_readU16 f1) (Exact.bind hread fun pos s => ?_)
    have hrest := (exact_readRest f2).ret (DataItemValue.u16VU8 f1) pos s
    simp only [bytesLeft, bind_run, Except.bind, hsz, ne_eq, not_true_eq_false, if_false]
    exact hrest
  | vExtid f1 =>
    obtain ⟨hfits, rfl⟩ := foldlM_serializeField hser
    have hpos := cfg.extensionIdSize.2.1
    exact (exact_many_map (fun x hx => reads_readExtensionId (hfits x hx)) (fun x _ hnil => by
      have := congrArg List.length hnil
      simp at this
      omega)).ret _
  | u8Ipv4U16 f1 f2 f3 =>
    obtain rfl := Except.ok.inj hser
    rw [append_optionalPort, ← encode_one, List.append_assoc]
    exact Exact.bind (reads_readU8 f1) (Exact.bind (reads_deserializeIpv4 f2)
      ((exact_readOptionalPort f3).ret _))
  | u8Ipv6U16 f1 f2 f3 =>
    obtain rfl := Except.ok.inj hser
    rw [append_optionalPort, ← encode_one, List.append_assoc]
    exact Exact.bind (reads_readU8 f1) (Exact.bind (reads_deserializeIpv6 hscope)
      ((exact_readOptionalPort f3).ret _))
  | u8Ipv4U8 f1 f2 f3 =>
    obtain rfl := Except.ok.inj hser
    rw [← encode_one, ← encode_one, List.append_assoc]
    exact ((reads_readU8 f1).bind ((reads_deserializeIpv4 f2).bind
      ((reads_readU8 f3).ret _))).exact
  | u8Ipv6U8 f1 f2 f3 =>
    obtain rfl := Except.ok.inj hser
    rw [← encode_one, ← encode_one, List.append_assoc]
    exact ((reads_readU8 f1).bind ((reads_deserializeIpv6 hscope).bind
      ((reads_readU8 f3).ret _))).exact
  | u8U8 f1 f2 =>
    obtain rfl := Except.ok.inj hser
    rw [serialize_eq_append 1 f2.toNat_lt, serialize_eq_append 1 f1.toNat_lt]
    exact ((reads_readU8 f1).bind ((reads_readU8 f2).ret _)).exact
  | u64U64 f1 f2 =>
    obtain rfl := Except.ok.inj hser
    rw [serialize_eq_append 8 f2.toNat_lt, serialize_eq_append 8 f1.toNat_lt]
    exact ((reads_readU64 f1).bind ((reads_readU64 f2).ret _)).exact
  | subDataItems items =>
    obtain ⟨ws, hws, rfl⟩ := serializeSubDataItems_ok.1 hser
    exact (hsubs ws hws).ret _
  | u16SubDataItems f1 items =>
    have hsize : unsignedSize items.length = items.length := Nat.mod_eq_of_lt hcount
    simp only [DataItemValue.serialize, hsize] at hser
    split at hser
    · simp [throwStd] at hser
    · next hle =>
      obtain ⟨ws, hws, rfl⟩ := serializeSubDataItems_ok.1 hser
      have hnum : (UInt8.ofNat items.length).toNat = items.length :=
        Nat.mod_eq_of_lt (by omega)
      have hbytes : serialize 2 f1.toNat [] ++ [UInt8.ofNat items.length, 0] ++ ws.flatten =
          BigEndian.encode 2 f1.toNat ++ (BigEndian.encode 1 (UInt8.ofNat items.length).toNat ++
            (BigEndian.encode 1 (0 : UInt8).toNat ++ ws.flatten)) := by
        rw [serialize_eq_append 2 f1.toNat_lt, encode_one, encode_one]
        simp
      rw [hbytes]
      refine Exact.bind (reads_readU16 f1) (Exact.bind (reads_readU8 _)
        (Exact.bind (reads_readU8 0) fun pos s => ?_))
      have hitems := hsubs ws hws pos s
      simp only [DataItemValue.subItems] at hitems
      simp only [ne_eq, not_true_eq_false, if_false, bind_run, hitems, Except.bind, hnum, pure_run]

/-! ## Reading a data item -/

/-- The end of a data item is where its value ends. -/
theorem reads_itemEnd (id : DataItemIdType) (w : Bytes) {α : Type} {f : Int → Decoder α} {a : α}
    (hf : Reads (f w.length) w a) : Reads (itemEnd id w.length >>= f) w a := by
  intro pos s l hl
  have hle : (w.length : Int) ≤ l := by exact_mod_cast hl
  simp only [bind_run, itemEnd, if_pos hle, Except.bind]
  exact hf pos s l hl

/-- The bytes of a data item are read as that data item, within any bound on the nesting that is
greater than their number. -/
theorem reads_deserializeUpTo {cfg : ProtocolConfig} {parent : Option DataItemInfo} {di : DataItem}
    (hty : di.WellTyped cfg parent) (hscope : di.Everywhere DataItemValue.ScopeIdZero)
    (hcount : di.Everywhere DataItemValue.CountFits) :
    ∀ {w n}, di.serialize cfg = .ok w → w.length < n →
      Reads (DataItem.deserializeUpTo cfg n parent) w di := by
  induction hty with
  | @mk parent id value info hinfo htype _ ih =>
    intro w n hser hn
    obtain ⟨valbuf, hval, hlt, hid, hlen, rfl⟩ := DataItem.serialize_ok.1 hser
    obtain ⟨m, rfl⟩ : ∃ m, n = m + 1 := ⟨n - 1, by omega⟩
    have hidpos := cfg.dataItemIdSize.2.1
    simp only [List.length_append, BigEndian.length_encode] at hn
    -- a sub data item is shorter by the header at least, so one level less is enough for it
    have hsubs : ∀ ws, List.Forall₂ (fun di w => di.serialize cfg = .ok w) value.subItems ws →
        Exact (many .outOfFuel (DataItem.deserializeUpTo cfg m (some info))) ws.flatten
          value.subItems := by
      intro ws hws
      have hflat := DataItemValue.length_subItems_le hval hws
      refine exact_many_of_forall₂ hws (fun sdi hsdi v hmem hv => ?_)
        fun _ _ _ _ hv => DataItem.serialize_ne_nil hv
      have hle : v.length ≤ ws.flatten.length := (List.sublist_flatten_of_mem hmem).length_le
      exact ih sdi hsdi (hscope.subs sdi hsdi) (hcount.subs sdi hsdi) hv (by omega)
    have hvalue := exact_deserializeValue hval hscope.value hcount.value hsubs
    have hitem := (hvalue.window (deserializedTooLittle id valbuf.length)).ret (DataItem.mk id)
    have hidread := reads_deserializeField 4 cfg.dataItemIdSize.2.2 id.toNat_lt hid
    have hlenread := reads_deserializeField 8 cfg.dataItemLengthSize.2.2
      (lt_trans hlt (by norm_num)) hlen
    refine hidread.bind (hlenread.bind ?_)
    rw [UInt32.ofNat_toNat]
    refine reads_itemEnd id valbuf ?_
    rw [hinfo]
    rw [htype] at hitem
    exact hitem

/-! ## What is decoded -/

/-- What is left of a range is as long as the range says. -/
theorem length_readRest {c c' : Cursor} {bs : Bytes} (h : readRest c = .ok (bs, c')) :
    (bs.length : Int) = c.left := by
  unfold readRest rest at h
  split at h
  · simp at h
  · split at h
    · simp at h
    · simp only [Except.ok.injEq, Prod.mk.injEq] at h
      obtain ⟨rfl, rfl⟩ := h
      rw [List.length_take]
      omega

/-- A decoded vector has the length its count says. -/
theorem u16VU8_of_deserializeValue {cfg : ProtocolConfig} {subs : Decoder DataItems}
    {value : DataItemValue} {c c' : Cursor}
    (h : deserializeValue cfg subs .u16VU8 c = .ok (value, c')) :
    ∃ f1 bs, value = .u16VU8 f1 bs ∧ bs.length < 256 := by
  simp only [deserializeValue, bind_ok] at h
  obtain ⟨f1, c₁, _, sz, c₂, _, left, c₃, hleft, h⟩ := h
  simp only [bytesLeft, Except.ok.injEq, Prod.mk.injEq] at hleft
  obtain ⟨rfl, rfl⟩ := hleft
  split at h
  · simp at h
  · next heq =>
    simp only [bind_ok, pure_run, Except.ok.injEq, Prod.mk.injEq] at h
    obtain ⟨bs, _, hbs, rfl, _⟩ := h
    have hlen := length_readRest hbs
    have hsz := sz.toNat_lt
    exact ⟨f1, bs, rfl, by omega⟩

/-- As many sub data items are decoded as their count says, and they come from `subs`. -/
theorem u16SubDataItems_of_deserializeValue {cfg : ProtocolConfig} {subs : Decoder DataItems}
    {value : DataItemValue} {c c' : Cursor}
    (h : deserializeValue cfg subs .u16SubDataItems c = .ok (value, c')) :
    ∃ f1 items, value = .u16SubDataItems f1 items ∧ items.length < 256 ∧
      ∃ c₁ c₂, subs c₁ = .ok (items, c₂) := by
  simp only [deserializeValue, bind_ok] at h
  obtain ⟨f1, c₁, _, num, c₂, _, reserved, c₃, _, h⟩ := h
  split at h
  · simp at h
  · obtain ⟨items, c₄, hitems, h⟩ := bind_ok.1 h
    split at h
    · simp at h
    · next heq =>
      simp only [pure_run, Except.ok.injEq, Prod.mk.injEq] at h
      obtain ⟨rfl, _⟩ := h
      have hnum := num.toNat_lt
      exact ⟨f1, items, rfl, by omega, c₃, c₄, hitems⟩

/-- A decoded value has the type it was decoded as. -/
theorem getType_of_deserializeValue {cfg : ProtocolConfig} {subs : Decoder DataItems}
    {ty : DataItemValueType} {value : DataItemValue} {c c' : Cursor}
    (h : deserializeValue cfg subs ty c = .ok (value, c')) : value.getType = ty := by
  cases ty with
  | blank =>
    simp only [deserializeValue, pure_run, Except.ok.injEq, Prod.mk.injEq] at h
    obtain ⟨rfl, rfl⟩ := h
    rfl
  | u8 | u16 | u32 | u64 | vU8 | vU32 | string | dlepmac | vExtid | subDataItems =>
    simp only [deserializeValue, bind_ok, pure_run, Except.ok.injEq, Prod.mk.injEq] at h
    obtain ⟨_, _, _, rfl, rfl⟩ := h
    rfl
  | a2U16 | u8String | u8Ipv4 | u8Ipv6 | u8U8 | u64U64 =>
    simp only [deserializeValue, bind_ok, pure_run, Except.ok.injEq, Prod.mk.injEq] at h
    obtain ⟨_, _, _, _, _, _, rfl, rfl⟩ := h
    rfl
  | u8Ipv4U16 | u8Ipv6U16 | u8Ipv4U8 | u8Ipv6U8 =>
    simp only [deserializeValue, bind_ok, pure_run, Except.ok.injEq, Prod.mk.injEq] at h
    obtain ⟨_, _, _, _, _, _, _, _, _, rfl, rfl⟩ := h
    rfl
  | u16VU8 =>
    obtain ⟨f1, bs, rfl, _⟩ := u16VU8_of_deserializeValue h
    rfl
  | u16SubDataItems =>
    obtain ⟨f1, items, rfl, _⟩ := u16SubDataItems_of_deserializeValue h
    rfl

/-- What every decoded value satisfies. -/
def DataItemValue.Decodable (value : DataItemValue) : Prop :=
  value.CountFits ∧ value.ScopeIdZero

/-- A decoded IPv6 address has scope id 0. -/
theorem scopeId_deserializeIpv6 {c c' : Cursor} {a : AddressV6}
    (h : deserializeIpv6 c = .ok (a, c')) : a.scopeId = 0 := by
  simp only [deserializeIpv6, bind_ok, pure_run, Except.ok.injEq, Prod.mk.injEq] at h
  obtain ⟨bs, _, _, rfl, _⟩ := h
  rfl

/-- A decoded value is decodable, and its sub data items come from `subs`. -/
theorem decodable_of_deserializeValue {cfg : ProtocolConfig} {subs : Decoder DataItems}
    {ty : DataItemValueType} {value : DataItemValue} {c c' : Cursor}
    (h : deserializeValue cfg subs ty c = .ok (value, c')) :
    value.Decodable ∧ (value.subItems = [] ∨ ∃ c₁ c₂, subs c₁ = .ok (value.subItems, c₂)) := by
  have htype := getType_of_deserializeValue h
  subst htype
  cases value with
  | u8Ipv6 f1 f2 =>
    simp only [DataItemValue.getType, deserializeValue, bind_ok, pure_run, Except.ok.injEq,
      Prod.mk.injEq, DataItemValue.u8Ipv6.injEq] at h
    obtain ⟨_, _, _, _, _, ha, ⟨rfl, rfl⟩, _⟩ := h
    exact ⟨⟨trivial, scopeId_deserializeIpv6 ha⟩, .inl rfl⟩
  | u8Ipv6U16 f1 f2 f3 =>
    simp only [DataItemValue.getType, deserializeValue, bind_ok, pure_run, Except.ok.injEq,
      Prod.mk.injEq, DataItemValue.u8Ipv6U16.injEq] at h
    obtain ⟨_, _, _, _, _, ha, _, _, _, ⟨rfl, rfl, rfl⟩, _⟩ := h
    exact ⟨⟨trivial, scopeId_deserializeIpv6 ha⟩, .inl rfl⟩
  | u8Ipv6U8 f1 f2 f3 =>
    simp only [DataItemValue.getType, deserializeValue, bind_ok, pure_run, Except.ok.injEq,
      Prod.mk.injEq, DataItemValue.u8Ipv6U8.injEq] at h
    obtain ⟨_, _, _, _, _, ha, _, _, _, ⟨rfl, rfl, rfl⟩, _⟩ := h
    exact ⟨⟨trivial, scopeId_deserializeIpv6 ha⟩, .inl rfl⟩
  | u16VU8 f1 bs =>
    obtain ⟨_, _, heq, hlt⟩ := u16VU8_of_deserializeValue h
    cases heq
    exact ⟨⟨lt_trans hlt (by norm_num), trivial⟩, .inl rfl⟩
  | subDataItems items =>
    simp only [DataItemValue.getType, deserializeValue, bind_ok, pure_run, Except.ok.injEq,
      Prod.mk.injEq, DataItemValue.subDataItems.injEq] at h
    obtain ⟨_, c₁, hsubs, rfl, rfl⟩ := h
    exact ⟨⟨trivial, trivial⟩, .inr ⟨c, c₁, hsubs⟩⟩
  | u16SubDataItems f1 items =>
    obtain ⟨_, _, heq, hlt, hsubs⟩ := u16SubDataItems_of_deserializeValue h
    cases heq
    exact ⟨⟨lt_trans hlt (by norm_num), trivial⟩, .inr hsubs⟩
  | _ => exact ⟨⟨trivial, trivial⟩, .inl rfl⟩

/-- A data item is decoded to its id, and a value decoded as the type that is configured for it. -/
theorem DataItem.deserializeUpTo_ok {cfg : ProtocolConfig} {n : Nat}
    {parent : Option DataItemInfo} {c c' : Cursor} {di : DataItem}
    (h : DataItem.deserializeUpTo cfg (n + 1) parent c = .ok (di, c')) :
    ∃ id value info c₁ c₂, di = .mk id value ∧ cfg.getDataItemInfo id parent = .ok info ∧
      deserializeValue cfg (many .outOfFuel (DataItem.deserializeUpTo cfg n (some info)))
        info.valueType c₁ = .ok (value, c₂) := by
  simp only [DataItem.deserializeUpTo, bind_ok] at h
  obtain ⟨idNat, _, _, length, _, _, diEnd, c₃, _, info, c₄, hinfo, value, _, hwin, h⟩ := h
  simp only [pure_run, Except.ok.injEq, Prod.mk.injEq] at h
  obtain ⟨rfl, _⟩ := h
  obtain ⟨c₁, hvalue, _, _⟩ := window_ok hwin
  exact ⟨_, value, info, _, c₁, rfl, (lift_ok.1 hinfo).1, hvalue⟩

/-- By induction on the depth: what is decoded satisfies `Decodable` everywhere. -/
theorem everywhere_decodable_of_deserializeUpTo {cfg : ProtocolConfig} {n : Nat}
    {parent : Option DataItemInfo} {c c' : Cursor} {di : DataItem}
    (h : DataItem.deserializeUpTo cfg n parent c = .ok (di, c')) :
    di.Everywhere DataItemValue.Decodable := by
  induction n generalizing parent c c' di with
  | zero => simp [DataItem.deserializeUpTo] at h
  | succ n ih =>
    obtain ⟨id, value, info, c₁, c₂, rfl, _, hvalue⟩ := DataItem.deserializeUpTo_ok h
    obtain ⟨hdec, hsubs⟩ := decodable_of_deserializeValue hvalue
    refine .mk hdec fun sdi hsdi => ?_
    rcases hsubs with hnil | ⟨c₃, c₄, hmany⟩
    · simp [hnil] at hsdi
    · obtain ⟨c₅, c₆, hsdi⟩ := exists_of_mem_many hmany sdi hsdi
      exact ih hsdi

/-! ## The round trip -/

/-- Deserialize undoes serialize, in front of any bytes. -/
theorem DataItem.deserialize_append {cfg : ProtocolConfig} {parent : Option DataItemInfo}
    {di : DataItem} {w : Bytes} (hty : di.WellTyped cfg parent)
    (hdec : di.Everywhere DataItemValue.Decodable) (hser : di.serialize cfg = .ok w)
    (pos : Nat) (s : Bytes) :
    DataItem.deserialize cfg parent (.whole pos (w ++ s)) =
      .ok (di, .whole (pos + w.length) s) := by
  have hread := reads_deserializeUpTo hty (hdec.imp fun _ h => h.2) (hdec.imp fun _ h => h.1) hser
    (n := (w ++ s).length + 1) (by simp) pos s (w ++ s).length (by simp)
  rw [DataItem.deserialize, Cursor.whole, hread]
  simp [Cursor.whole]

/-- Where serialize does not throw, deserialize undoes it, in front of any bytes, exactly if no
count is `2 ^ 32` or more. -/
theorem DataItem.deserialize_serialize_iff {cfg : ProtocolConfig} {parent : Option DataItemInfo}
    {di : DataItem} {w : Bytes} (hty : di.WellTyped cfg parent)
    (hscope : di.Everywhere DataItemValue.ScopeIdZero) (hser : di.serialize cfg = .ok w)
    (pos : Nat) (s : Bytes) :
    DataItem.deserialize cfg parent (.whole pos (w ++ s)) =
        .ok (di, .whole (pos + w.length) s) ↔
      di.Everywhere DataItemValue.CountFits := by
  constructor
  · intro h
    exact (everywhere_decodable_of_deserializeUpTo h).imp fun _ hdec => hdec.1
  · intro hcount
    exact DataItem.deserialize_append hty (hcount.and hscope) hser pos s

/-- A configuration in which the id 2 is `Label` inside an `Envelope`, and `Group` elsewhere. -/
def ProtocolMessage.nestedItems : ProtocolConfig :=
  .ofDefinitions ⟨2, FieldSize.two_fits⟩ ⟨2, FieldSize.two_fits⟩
    { messages := [Rfc8175.message "Report" 1 .both 0 [⟨"Envelope", 1, .zeroOrMore⟩]]
      dataItems := [
        { Rfc8175.item "Envelope" 1 .subDataItems with
          subDataItems := [⟨"Label", 2, .zeroOrMore⟩, ⟨"Box", 3, .zeroOrMore⟩] },
        Rfc8175.item "Label" idUndefined .u8,
        Rfc8175.item "Box" 3 .subDataItems,
        { Rfc8175.item "Group" 2 .subDataItems with subDataItems := [⟨"Value", 9, .zeroOrMore⟩] },
        Rfc8175.item "Value" idUndefined .u8] }
    (by decide)

/-- An envelope with a label and an empty box. -/
def labelAndBox : DataItem := .mk 1 (.subDataItems [.mk 2 (.u8 5), .mk 3 (.subDataItems [])])

/-- The sample item has the types that the sample configuration asks for. -/
theorem labelAndBox_wellTyped : labelAndBox.WellTyped ProtocolMessage.nestedItems none := by
  refine .mk rfl rfl fun sdi hsdi => ?_
  simp only [DataItemValue.subItems, List.mem_cons, List.not_mem_nil, or_false] at hsdi
  rcases hsdi with rfl | rfl
  · exact .mk (show _ = Except.ok (Rfc8175.item "Label" idUndefined .u8) from rfl) rfl
      (by simp [DataItemValue.subItems])
  · exact .mk (show _ = Except.ok (Rfc8175.item "Box" 3 .subDataItems) from rfl) rfl
      (by simp [DataItemValue.subItems])

/-- A property of the three values. -/
theorem labelAndBox_everywhere {P : DataItemValue → Prop} (henvelope : P labelAndBox.value)
    (hlabel : P (.u8 5)) (hbox : P (.subDataItems [])) : labelAndBox.Everywhere P := by
  refine .mk henvelope fun sdi hsdi => ?_
  simp only [DataItemValue.subItems, List.mem_cons, List.not_mem_nil, or_false] at hsdi
  rcases hsdi with rfl | rfl
  · exact .mk hlabel (by simp [DataItemValue.subItems])
  · exact .mk hbox (by simp [DataItemValue.subItems])

/-- The envelope is read in front of two more bytes. -/
theorem DataItem.deserialize_serialize_labelAndBox :
    DataItem.deserialize ProtocolMessage.nestedItems none
        (.whole 0 ([0, 1, 0, 9, 0, 2, 0, 1, 5, 0, 3, 0, 0] ++ [1, 2])) =
      .ok (labelAndBox, .whole 13 [1, 2]) :=
  (DataItem.deserialize_serialize_iff labelAndBox_wellTyped
    (labelAndBox_everywhere trivial trivial trivial) rfl 0 [1, 2]).2
    (labelAndBox_everywhere trivial trivial trivial)

/-- A configuration whose length fields have 8 bytes, with one data item of type `u16_vu8`. -/
def wideLengths : ProtocolConfig :=
  .ofDefinitions ⟨8, FieldSize.eight_fits⟩ ⟨1, by decide⟩
    { dataItems := [Rfc8175.item "Octets" 1 .u16VU8] } (by decide)

/-- A vector of `2 ^ 32` bytes is serialized with the count 0, and is refused when it is read. -/
theorem DataItem.deserialize_serialize_replicate :
    let di := DataItem.mk 1 (.u16VU8 0 (List.replicate (2 ^ 32) 0))
    di.WellTyped wideLengths none ∧ di.Everywhere DataItemValue.ScopeIdZero ∧
      ∃ w, di.serialize wideLengths = .ok w ∧
        DataItem.deserialize wideLengths none (.whole 0 w) ≠ .ok (di, .whole w.length []) := by
  intro di
  have hty : di.WellTyped wideLengths none :=
    .mk (show _ = Except.ok (Rfc8175.item "Octets" 1 .u16VU8) from rfl) rfl
      (by simp [DataItemValue.subItems])
  have hscope : di.Everywhere DataItemValue.ScopeIdZero :=
    .mk trivial (by simp [DataItemValue.subItems])
  have hvalue : (DataItemValue.u16VU8 0 (List.replicate (2 ^ 32) 0)).serialize wideLengths =
      .ok ([0, 0, 0] ++ List.replicate (2 ^ 32) 0) := by
    simp only [DataItemValue.serialize, List.length_replicate]
    rfl
  have hlen : ([0, 0, 0] ++ List.replicate (2 ^ 32) (0 : UInt8)).length = 2 ^ 32 + 3 := by
    rw [List.length_append, List.length_replicate, Nat.add_comm]
    rfl
  refine ⟨hty, hscope, _, DataItem.serialize_ok.2 ⟨_, hvalue, ?_, by decide, ?_, rfl⟩, fun h => ?_⟩
  · rw [hlen]
    norm_num
  · rw [hlen]
    decide
  · have hcount := everywhere_decodable_of_deserializeUpTo h
    have hlt : (List.replicate (2 ^ 32) (0 : UInt8)).length < 2 ^ 32 := hcount.value.1
    rw [List.length_replicate] at hlt
    exact lt_irrefl _ hlt

end Dlep
