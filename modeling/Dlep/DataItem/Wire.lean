import Dlep.DataItem.RoundTrip

/-!
# The wire form of a data item

The grammar of data items on the wire, without the decoder: `DataItem.Wire`. A value has one form,
except that a port of zero may be written or left out. Every form is read as its data item
(`reads_of_wire`), what is read is a form of what is returned (`takes_deserializeUpTo`), and
`serialize` writes the form without ports of zero (`DataItem.Wire.serialize`).
-/

namespace Dlep

open ByteReader

/-! ## The grammar -/

/-- The ways to write a port: nothing, or two zeros, for zero. The flag marks the two zeros. -/
inductive PortWritten : Bool → UInt16 → Bytes → Prop where
  | absent : PortWritten false 0 []
  | zero : PortWritten true 0 [0, 0]
  | nonzero {port : UInt16} (h : port ≠ 0) : PortWritten false port (BigEndian.encode 2 port.toNat)

/-- `port` are the bytes of the port of a value. Values without a port have none. -/
def DataItemValue.PortIs (zero : Bool) (port : Bytes) : DataItemValue → Prop
  | .u8Ipv4U16 _ _ f3 => PortWritten zero f3 port
  | .u8Ipv6U16 _ _ f3 => PortWritten zero f3 port
  | _ => zero = false ∧ port = []

/-- What a value must meet to have a wire form. -/
def DataItemValue.Fits (cfg : ProtocolConfig) : DataItemValue → Prop
  | .u8Ipv6 _ f2 => f2.scopeId = 0
  | .u16VU8 _ f2 => f2.length < 256
  | .vExtid f1 => ∀ x ∈ f1, x.toNat < 256 ^ cfg.extensionIdSize.1
  | .u8Ipv6U16 _ f2 _ => f2.scopeId = 0
  | .u8Ipv6U8 _ f2 _ => f2.scopeId = 0
  | .u16SubDataItems _ items => items.length < 256
  | _ => True

/-- The bytes of a value, of which `port` are those of its port and `subs` those of its sub data
items. -/
def DataItemValue.wire (cfg : ProtocolConfig) (port subs : Bytes) : DataItemValue → Bytes
  | .blank => []
  | .u8 v => [v]
  | .u16 v => BigEndian.encode 2 v.toNat
  | .u32 v => BigEndian.encode 4 v.toNat
  | .u64 v => BigEndian.encode 8 v.toNat
  | .vU8 v => v
  | .vU32 v => (v.map fun x => BigEndian.encode 4 x.toNat).flatten
  | .a2U16 v0 v1 => BigEndian.encode 2 v0.toNat ++ BigEndian.encode 2 v1.toNat
  | .string v => v
  | .dlepmac v => v
  | .u8String f1 f2 => f1 :: f2
  | .u8Ipv4 f1 f2 => f1 :: f2.bytes
  | .u8Ipv6 f1 f2 => f1 :: f2.bytes
  | .u16VU8 f1 f2 => BigEndian.encode 2 f1.toNat ++ UInt8.ofNat f2.length :: f2
  | .vExtid f1 => (f1.map fun x => BigEndian.encode cfg.extensionIdSize x.toNat).flatten
  | .u8Ipv4U16 f1 f2 _ => f1 :: (f2.bytes ++ port)
  | .u8Ipv6U16 f1 f2 _ => f1 :: (f2.bytes ++ port)
  | .u8Ipv4U8 f1 f2 f3 => f1 :: (f2.bytes ++ [f3])
  | .u8Ipv6U8 f1 f2 f3 => f1 :: (f2.bytes ++ [f3])
  | .u8U8 f1 f2 => [f1, f2]
  | .u64U64 f1 f2 => BigEndian.encode 8 f1.toNat ++ BigEndian.encode 8 f2.toNat
  | .subDataItems _ => subs
  | .u16SubDataItems f1 items =>
    BigEndian.encode 2 f1.toNat ++ UInt8.ofNat items.length :: 0 :: subs

/-- The bytes of a data item: its id, the length of its value, and its value. -/
def DataItem.framed (cfg : ProtocolConfig) (id : DataItemIdType) (valbuf : Bytes) : Bytes :=
  BigEndian.encode cfg.dataItemIdSize id.toNat ++
    (BigEndian.encode cfg.dataItemLengthSize valbuf.length ++ valbuf)

/-- A wire form: its bytes, the bytes without the ports of zero, and whether there is such a port.
-/
structure Form where
  bytes : Bytes
  trimmed : Bytes
  zeroPort : Bool

/-- The wire forms of a data item in a scope. The trimmed bytes are made like the bytes themselves,
but without the ports of zero, so that only these and the lengths around them differ. -/
inductive DataItem.Wire (cfg : ProtocolConfig) : Option DataItemInfo → DataItem → Form → Prop where
  | mk {parent : Option DataItemInfo} {id : DataItemIdType} {value : DataItemValue}
      {info : DataItemInfo} {zero : Bool} {port port' : Bytes} {subs : List Form}
      (hinfo : cfg.getDataItemInfo id parent = .ok info) (htype : value.getType = info.valueType)
      (hfits : value.Fits cfg) (hport : value.PortIs zero port) (hport' : value.PortIs false port')
      (hcount : value.subItems.length = subs.length)
      (hsubs : ∀ (i : Nat) (sdi : DataItem) (form : Form), value.subItems[i]? = some sdi →
        subs[i]? = some form → Wire cfg (some info) sdi form)
      (hid : id.toNat < 256 ^ cfg.dataItemIdSize.1)
      (hlength : (value.wire cfg port (subs.map Form.bytes).flatten).length <
        256 ^ cfg.dataItemLengthSize.1) :
      Wire cfg parent (.mk id value)
        { bytes := DataItem.framed cfg id (value.wire cfg port (subs.map Form.bytes).flatten)
          trimmed := DataItem.framed cfg id (value.wire cfg port' (subs.map Form.trimmed).flatten)
          zeroPort := zero || subs.any Form.zeroPort }

/-! ## What the readers take -/

/-- Shifting the bytes of an integer into a register of its size loses nothing. -/
theorem decode_shift {szT : Nat} {bs : Bytes} (h : bs.length = szT) :
    BigEndian.shiftDecode (8 * szT) bs = BigEndian.decode bs :=
  BigEndian.shiftDecode_eq_decode (by rw [h])

/-- An integer was written as its digits. -/
theorem takes_deserialize (szT : Nat) :
    Takes (deserialize szT) fun v w => v < 256 ^ szT ∧ w = BigEndian.encode szT v := by
  refine ((takes_bytes szT).ret fun bs => BigEndian.shiftDecode (8 * szT) bs).mono ?_
  rintro _ w ⟨bs, rfl, rfl, hlen⟩
  have hlt := BigEndian.decode_lt w
  have henc := BigEndian.encode_decode w
  rw [hlen] at hlt henc
  rw [decode_shift hlen]
  exact ⟨hlt, henc.symm⟩

/-- A field was written as the digits of its value, which fits it. -/
theorem takes_deserializeField (szT : Nat) {fieldSize : Nat} (hsz : fieldSize ≤ 8) :
    Takes (deserializeField szT fieldSize) fun v w =>
      v < 256 ^ szT ∧ v < 256 ^ fieldSize ∧ w = BigEndian.encode fieldSize v := by
  intro c c' v hrun
  obtain ⟨bs, c₁, hbs, hv⟩ := bind_ok.1 hrun
  obtain ⟨w, hw, rfl, hlen⟩ := takes_bytes fieldSize c c₁ bs hbs
  split at hv
  · cases hv
  · next hmask =>
    obtain ⟨rfl, rfl⟩ := Prod.mk.inj (Except.ok.inj hv)
    have hdec : BigEndian.shiftDecode 64 w = BigEndian.decode w :=
      BigEndian.shiftDecode_eq_decode (by omega)
    have hlt := BigEndian.decode_lt w
    have henc := BigEndian.encode_decode w
    rw [hlen] at hlt henc
    rw [hdec, not_not, Nat.and_two_pow_sub_one_eq_mod] at hmask
    rw [hdec]
    refine ⟨w, hw, ?_, hlt, henc.symm⟩
    rw [← hmask]
    exact (Nat.mod_lt _ (by positivity)).trans_eq (by rw [pow_mul]; norm_num)

/-- One byte was written as itself. -/
theorem takes_readU8 : Takes readU8 fun v w => w = [v] := by
  refine ((takes_deserialize 1).ret UInt8.ofNat).mono ?_
  rintro _ _ ⟨v, rfl, hlt, rfl⟩
  rw [← encode_one, UInt8.toNat_ofNat_of_lt' (by simpa using hlt)]

/-- An integer of two bytes was written as its digits. -/
theorem takes_readU16 : Takes readU16 fun v w => w = BigEndian.encode 2 v.toNat := by
  refine ((takes_deserialize 2).ret UInt16.ofNat).mono ?_
  rintro _ _ ⟨v, rfl, hlt, rfl⟩
  rw [UInt16.toNat_ofNat_of_lt' (by simpa using hlt)]

/-- An integer of four bytes was written as its digits. -/
theorem takes_readU32 : Takes readU32 fun v w => w = BigEndian.encode 4 v.toNat := by
  refine ((takes_deserialize 4).ret UInt32.ofNat).mono ?_
  rintro _ _ ⟨v, rfl, hlt, rfl⟩
  rw [UInt32.toNat_ofNat_of_lt' (by simpa using hlt)]

/-- An integer of eight bytes was written as its digits. -/
theorem takes_readU64 : Takes readU64 fun v w => w = BigEndian.encode 8 v.toNat := by
  refine ((takes_deserialize 8).ret UInt64.ofNat).mono ?_
  rintro _ _ ⟨v, rfl, hlt, rfl⟩
  rw [UInt64.toNat_ofNat_of_lt' (by simpa using hlt)]

/-- The id of an extension was written as its digits, and fits its field. -/
theorem takes_readExtensionId (cfg : ProtocolConfig) :
    Takes (readExtensionId cfg) fun x w => x.toNat < 256 ^ cfg.extensionIdSize.1 ∧
      w = BigEndian.encode cfg.extensionIdSize x.toNat := by
  refine ((takes_deserializeField 4 cfg.extensionIdSize.2.2).ret UInt32.ofNat).mono ?_
  rintro _ _ ⟨v, rfl, hlt, hfit, rfl⟩
  rw [UInt32.toNat_ofNat_of_lt' (by simpa using hlt)]
  exact ⟨hfit, rfl⟩

/-- What is left of a range is returned as it is. -/
theorem takes_readRest : Takes readRest fun bs w => w = bs := takes_rest

/-- An address was written as its bytes. -/
theorem takes_readAddress (n : Nat) (what : String) :
    Takes (readAddress n what) fun bs w => w = bs ∧ bs.length = n := by
  intro c c' bs hrun
  unfold readAddress at hrun
  split at hrun
  · cases hrun
  · exact takes_bytes n c c' bs hrun

/-- An IPv4 address was written as its four bytes. -/
theorem takes_deserializeIpv4 : Takes deserializeIpv4 fun a w => w = a.bytes := by
  refine ((takes_readAddress 4 _).ret AddressV4.ofBytes).mono ?_
  rintro _ w ⟨bs, rfl, rfl, hlen⟩
  exact (padTo_eq_self hlen).symm

/-- An IPv6 address was written as its sixteen bytes, and has scope id 0. -/
theorem takes_deserializeIpv6 : Takes deserializeIpv6 fun a w => a.scopeId = 0 ∧ w = a.bytes := by
  refine ((takes_readAddress 16 _).ret AddressV6.ofBytes).mono ?_
  rintro _ w ⟨bs, rfl, rfl, hlen⟩
  exact ⟨rfl, (padTo_eq_self hlen).symm⟩

/-- A port of zero was written as nothing or as two zeros. -/
theorem takes_readOptionalPort :
    Takes readOptionalPort fun v w => ∃ zero, PortWritten zero v w := by
  intro c c' v hrun
  obtain ⟨left, c₁, hleft, hv⟩ := bind_ok.1 hrun
  obtain ⟨rfl, rfl⟩ := Prod.mk.inj (Except.ok.inj hleft)
  split at hv
  · obtain ⟨w, hw, rfl⟩ := takes_readU16 _ _ _ hv
    refine ⟨_, hw, ?_⟩
    rcases eq_or_ne v 0 with rfl | hne
    · exact ⟨true, .zero⟩
    · exact ⟨false, .nonzero hne⟩
  · obtain ⟨rfl, rfl⟩ := Prod.mk.inj (Except.ok.inj hv)
    exact ⟨[], c.passes_nil, false, .absent⟩

/-- The bytes are those of a value whose sub data items have bytes as `S` says. -/
def DataItemValue.Written (cfg : ProtocolConfig) (S : DataItems → Bytes → Prop)
    (value : DataItemValue) (w : Bytes) : Prop :=
  value.Fits cfg ∧ ∃ zero port subs, value.PortIs zero port ∧ S value.subItems subs ∧
    w = value.wire cfg port subs

/-- Values of fixed length, and those that take all there is. -/
theorem DataItemValue.Written.plain {cfg : ProtocolConfig} {S : DataItems → Bytes → Prop}
    {value : DataItemValue} {w : Bytes} (hfits : value.Fits cfg) (hport : value.PortIs false [])
    (hsubs : S value.subItems []) (hw : w = value.wire cfg [] []) : value.Written cfg S w :=
  ⟨hfits, false, [], [], hport, hsubs, hw⟩

/-- Where each piece is the encoding of its value, the pieces are the encodings. -/
theorem eq_map_of_forall₂ {α : Type} {enc : α → Bytes} {as : List α} {ws : List Bytes}
    (h : List.Forall₂ (fun a w => w = enc a) as ws) : ws = as.map enc := by
  induction h with
  | nil => rfl
  | cons hw _ ih => rw [hw, ih, List.map_cons]

/-- The vector has the length that was read before it. -/
theorem takes_counted (f1 : UInt16) (sz : UInt8) :
    Takes (do
      let left ← bytesLeft
      if left ≠ sz.toNat then
        throw (.std .lengthError (str "expected vector of length " ++ decimal sz.toNat ++
          str ", got length " ++ signedDecimal left))
      else return DataItemValue.u16VU8 f1 (← readRest)) fun value w =>
        ∃ f2, value = .u16VU8 f1 f2 ∧ w = f2 ∧ f2.length = sz.toNat := by
  intro c c' value hrun
  obtain ⟨left, c₁, hleft, hv⟩ := bind_ok.1 hrun
  obtain ⟨rfl, rfl⟩ := Prod.mk.inj (Except.ok.inj hleft)
  split at hv
  · cases hv
  · next heq =>
    obtain ⟨f2, c₂, hf2, hret⟩ := bind_ok.1 hv
    obtain ⟨rfl, rfl⟩ := Prod.mk.inj (Except.ok.inj hret)
    have hlen := length_readRest hf2
    obtain ⟨w, hw, rfl⟩ := takes_readRest _ _ _ hf2
    exact ⟨w, hw, w, rfl, rfl, by omega⟩

/-- There are as many sub data items as were announced, behind a reserved byte of zero. -/
theorem takes_countedSubs {subs : Decoder DataItems} {S : DataItems → Bytes → Prop}
    (hsubs : Takes subs S) (f1 : UInt16) (num res : UInt8) :
    Takes (if res ≠ 0 then
        throw (.std .outOfRange (str "reserved byte is " ++ decimal res.toNat ++ str ", must be 0"))
      else do
        let items ← subs
        if items.length ≠ num.toNat then
          throw (.std .lengthError (str "number of sub data items is " ++ decimal items.length ++
            str ", expected " ++ decimal num.toNat))
        else return DataItemValue.u16SubDataItems f1 items) fun value w =>
          ∃ items, value = .u16SubDataItems f1 items ∧ res = 0 ∧ items.length = num.toNat ∧
            S items w := by
  intro c c' value hrun
  split at hrun
  · cases hrun
  · next hres =>
    obtain ⟨items, c₁, hitems, hv⟩ := bind_ok.1 hrun
    obtain ⟨w, hw, hS⟩ := hsubs _ _ _ hitems
    split at hv
    · cases hv
    · next hnum =>
      obtain ⟨rfl, rfl⟩ := Prod.mk.inj (Except.ok.inj hv)
      exact ⟨w, hw, items, rfl, not_not.1 hres, not_not.1 hnum, hS⟩

/-- A value that is read is written as it is. -/
theorem takes_deserializeValue {cfg : ProtocolConfig} {subs : Decoder DataItems}
    {S : DataItems → Bytes → Prop} (hsubs : Takes subs S) (hnil : S [] [])
    (ty : DataItemValueType) :
    Takes (deserializeValue cfg subs ty) fun value w => value.getType = ty ∧
      value.Written cfg S w := by
  have htype : ∀ {P : DataItemValue → Bytes → Prop}, Takes (deserializeValue cfg subs ty) P →
      Takes (deserializeValue cfg subs ty) fun value w => value.getType = ty ∧ P value w := by
    intro P h c c' value hrun
    obtain ⟨w, hw, hP⟩ := h c c' value hrun
    exact ⟨w, hw, getType_of_deserializeValue hrun, hP⟩
  refine htype ?_
  cases ty with
  | blank => exact takes_pure (.plain trivial ⟨rfl, rfl⟩ hnil rfl)
  | u8 =>
    refine (takes_readU8.ret _).mono ?_
    rintro _ _ ⟨v, rfl, rfl⟩
    exact .plain trivial ⟨rfl, rfl⟩ hnil rfl
  | u16 =>
    refine (takes_readU16.ret _).mono ?_
    rintro _ _ ⟨v, rfl, rfl⟩
    exact .plain trivial ⟨rfl, rfl⟩ hnil rfl
  | u32 =>
    refine (takes_readU32.ret _).mono ?_
    rintro _ _ ⟨v, rfl, rfl⟩
    exact .plain trivial ⟨rfl, rfl⟩ hnil rfl
  | u64 =>
    refine (takes_readU64.ret _).mono ?_
    rintro _ _ ⟨v, rfl, rfl⟩
    exact .plain trivial ⟨rfl, rfl⟩ hnil rfl
  | vU8 =>
    refine ((takes_many takes_readU8).ret _).mono ?_
    rintro _ _ ⟨v, rfl, ws, hws, rfl⟩
    refine .plain trivial ⟨rfl, rfl⟩ hnil ?_
    rw [eq_map_of_forall₂ hws]
    exact List.flatMap_singleton' v
  | vU32 =>
    refine ((takes_many takes_readU32).ret _).mono ?_
    rintro _ _ ⟨v, rfl, ws, hws, rfl⟩
    refine .plain trivial ⟨rfl, rfl⟩ hnil ?_
    rw [eq_map_of_forall₂ hws]
    rfl
  | a2U16 =>
    refine (takes_readU16.bind fun _ => takes_readU16.ret _).mono ?_
    rintro _ _ ⟨v0, _, _, rfl, ⟨v1, rfl, rfl⟩, rfl⟩
    exact .plain trivial ⟨rfl, rfl⟩ hnil rfl
  | string =>
    refine (takes_readRest.ret _).mono ?_
    rintro _ _ ⟨v, rfl, rfl⟩
    exact .plain trivial ⟨rfl, rfl⟩ hnil rfl
  | dlepmac =>
    refine (takes_readRest.ret _).mono ?_
    rintro _ _ ⟨v, rfl, rfl⟩
    exact .plain trivial ⟨rfl, rfl⟩ hnil rfl
  | u8String =>
    refine (takes_readU8.bind fun _ => takes_readRest.ret _).mono ?_
    rintro _ _ ⟨f1, _, _, rfl, ⟨f2, rfl, rfl⟩, rfl⟩
    exact .plain trivial ⟨rfl, rfl⟩ hnil rfl
  | u8Ipv4 =>
    refine (takes_readU8.bind fun _ => takes_deserializeIpv4.ret _).mono ?_
    rintro _ _ ⟨f1, _, _, rfl, ⟨f2, rfl, rfl⟩, rfl⟩
    exact .plain trivial ⟨rfl, rfl⟩ hnil rfl
  | u8Ipv6 =>
    refine (takes_readU8.bind fun _ => takes_deserializeIpv6.ret _).mono ?_
    rintro _ _ ⟨f1, _, _, rfl, ⟨f2, rfl, hscope, rfl⟩, rfl⟩
    exact .plain hscope ⟨rfl, rfl⟩ hnil rfl
  | u16VU8 =>
    refine (takes_readU16.bind fun f1 => takes_readU8.bind fun sz => takes_counted f1 sz).mono ?_
    rintro _ _ ⟨f1, _, _, rfl, ⟨sz, _, _, rfl, ⟨f2, rfl, rfl, hlen⟩, rfl⟩, rfl⟩
    refine .plain (hlen.trans_lt sz.toNat_lt) ⟨rfl, rfl⟩ hnil ?_
    simp [DataItemValue.wire, hlen]
  | vExtid =>
    refine ((takes_many (takes_readExtensionId cfg)).ret _).mono ?_
    rintro _ _ ⟨v, rfl, ws, hws, rfl⟩
    obtain ⟨hfits, hws⟩ := (List.forall₂_and_left _ _).1 hws
    refine .plain hfits ⟨rfl, rfl⟩ hnil ?_
    rw [eq_map_of_forall₂ hws]
    rfl
  | u8Ipv4U16 =>
    refine (takes_readU8.bind fun _ => takes_deserializeIpv4.bind fun _ =>
      takes_readOptionalPort.ret _).mono ?_
    rintro _ _ ⟨f1, _, _, rfl, ⟨f2, _, _, rfl, ⟨f3, rfl, zero, hport⟩, rfl⟩, rfl⟩
    exact ⟨trivial, zero, _, [], hport, hnil, rfl⟩
  | u8Ipv6U16 =>
    refine (takes_readU8.bind fun _ => takes_deserializeIpv6.bind fun _ =>
      takes_readOptionalPort.ret _).mono ?_
    rintro _ _ ⟨f1, _, _, rfl, ⟨f2, _, _, ⟨hscope, rfl⟩, ⟨f3, rfl, zero, hport⟩, rfl⟩, rfl⟩
    exact ⟨hscope, zero, _, [], hport, hnil, rfl⟩
  | u8Ipv4U8 =>
    refine (takes_readU8.bind fun _ => takes_deserializeIpv4.bind fun _ =>
      takes_readU8.ret _).mono ?_
    rintro _ _ ⟨f1, _, _, rfl, ⟨f2, _, _, rfl, ⟨f3, rfl, rfl⟩, rfl⟩, rfl⟩
    exact .plain trivial ⟨rfl, rfl⟩ hnil rfl
  | u8Ipv6U8 =>
    refine (takes_readU8.bind fun _ => takes_deserializeIpv6.bind fun _ =>
      takes_readU8.ret _).mono ?_
    rintro _ _ ⟨f1, _, _, rfl, ⟨f2, _, _, ⟨hscope, rfl⟩, ⟨f3, rfl, rfl⟩, rfl⟩, rfl⟩
    exact .plain hscope ⟨rfl, rfl⟩ hnil rfl
  | u8U8 =>
    refine (takes_readU8.bind fun _ => takes_readU8.ret _).mono ?_
    rintro _ _ ⟨f1, _, _, rfl, ⟨f2, rfl, rfl⟩, rfl⟩
    exact .plain trivial ⟨rfl, rfl⟩ hnil rfl
  | u64U64 =>
    refine (takes_readU64.bind fun _ => takes_readU64.ret _).mono ?_
    rintro _ _ ⟨f1, _, _, rfl, ⟨f2, rfl, rfl⟩, rfl⟩
    exact .plain trivial ⟨rfl, rfl⟩ hnil rfl
  | subDataItems =>
    refine (hsubs.ret _).mono ?_
    rintro _ w ⟨items, rfl, hS⟩
    exact ⟨trivial, false, [], w, ⟨rfl, rfl⟩, hS, rfl⟩
  | u16SubDataItems =>
    refine (takes_readU16.bind fun f1 => takes_readU8.bind fun num => takes_readU8.bind fun res =>
      takes_countedSubs hsubs f1 num res).mono ?_
    rintro _ _ ⟨f1, _, _, rfl, ⟨num, _, _, rfl, ⟨res, _, w, rfl, ⟨items, rfl, rfl, hlen, hS⟩, rfl⟩,
      rfl⟩, rfl⟩
    refine ⟨hlen.trans_lt num.toNat_lt, false, [], w, ⟨rfl, rfl⟩, hS, ?_⟩
    simp [DataItemValue.wire, hlen]

/-- Every port can be written without a zero. -/
theorem DataItemValue.exists_portIs (value : DataItemValue) : ∃ port, value.PortIs false port := by
  have hport : ∀ v : UInt16, ∃ port, PortWritten false v port := by
    intro v
    rcases eq_or_ne v 0 with rfl | hne
    · exact ⟨_, .absent⟩
    · exact ⟨_, .nonzero hne⟩
  cases value with
  | u8Ipv4U16 f1 f2 f3 => exact hport f3
  | u8Ipv6U16 f1 f2 f3 => exact hport f3
  | _ => exact ⟨[], rfl, rfl⟩

/-- The sub data items have the given forms, one after the other. -/
def SubForms (cfg : ProtocolConfig) (info : DataItemInfo) (items : DataItems) (subs : List Form) :
    Prop :=
  List.Forall₂ (fun sdi form => DataItem.Wire cfg (some info) sdi form) items subs

/-- The forms of sub data items, one index at a time. -/
theorem subForms_iff {cfg : ProtocolConfig} {info : DataItemInfo} {items : DataItems}
    {subs : List Form} :
    SubForms cfg info items subs ↔ items.length = subs.length ∧
      ∀ (i : Nat) (sdi : DataItem) (form : Form), items[i]? = some sdi → subs[i]? = some form →
        DataItem.Wire cfg (some info) sdi form := by
  rw [SubForms, List.forall₂_iff_get]
  refine and_congr_right fun _ => ⟨fun h i sdi form hsdi hform => ?_, fun h i hi hi' => ?_⟩
  · obtain ⟨hi, rfl⟩ := List.getElem?_eq_some_iff.1 hsdi
    obtain ⟨hi', rfl⟩ := List.getElem?_eq_some_iff.1 hform
    exact h i hi hi'
  · exact h i _ _ (List.getElem?_eq_getElem hi) (List.getElem?_eq_getElem hi')

/-- Bytes that are wire forms, one by one, are the forms of the list. -/
theorem exists_subForms {cfg : ProtocolConfig} {info : DataItemInfo} {items : DataItems}
    {ws : List Bytes}
    (h : List.Forall₂ (fun sdi w => ∃ form, DataItem.Wire cfg (some info) sdi form ∧ form.bytes = w)
      items ws) :
    ∃ subs, SubForms cfg info items subs ∧ subs.map Form.bytes = ws := by
  induction h with
  | nil => exact ⟨[], .nil, rfl⟩
  | cons hdi _ ih =>
    obtain ⟨form, hform, rfl⟩ := hdi
    obtain ⟨subs, hsubs, rfl⟩ := ih
    exact ⟨form :: subs, .cons hform hsubs, rfl⟩

/-- The end of a data item is behind its value, or the sum has wrapped once. -/
theorem takes_itemEnd (id : DataItemIdType) (length : Nat) :
    Takes (itemEnd id length) fun e w => w = [] ∧ (e = length ∨ e = (length : Int) - 2 ^ 64) := by
  intro c c' e hrun
  unfold itemEnd at hrun
  split at hrun
  · obtain ⟨rfl, rfl⟩ := Prod.mk.inj (Except.ok.inj hrun)
    exact ⟨[], c.passes_nil, rfl, .inl rfl⟩
  · split at hrun
    · cases hrun
    · obtain ⟨rfl, rfl⟩ := Prod.mk.inj (Except.ok.inj hrun)
      exact ⟨[], c.passes_nil, rfl, .inr rfl⟩

/-- What is read as a data item is a wire form of it. -/
theorem takes_deserializeUpTo {cfg : ProtocolConfig} (n : Nat) (parent : Option DataItemInfo) :
    Takes (DataItem.deserializeUpTo cfg n parent) fun di w =>
      ∃ form, di.Wire cfg parent form ∧ form.bytes = w := by
  induction n generalizing parent with
  | zero =>
    intro c c' di hrun
    cases hrun
  | succ n ih =>
    have hsubs : ∀ info, Takes (many .outOfFuel (DataItem.deserializeUpTo cfg n (some info)))
        fun items w => ∃ subs, SubForms cfg info items subs ∧
          w = (subs.map Form.bytes).flatten := by
      intro info
      refine (takes_many (ih (some info))).mono ?_
      rintro items _ ⟨ws, hws, rfl⟩
      obtain ⟨subs, hsubs, rfl⟩ := exists_subForms hws
      exact ⟨subs, hsubs, rfl⟩
    have hvalue := fun info => @takes_deserializeValue cfg _ _ (hsubs info) ⟨[], .nil, rfl⟩
    intro c c' di hrun
    simp only [DataItem.deserializeUpTo] at hrun
    obtain ⟨idNat, c₁, hid, hrun⟩ := bind_ok.1 hrun
    obtain ⟨length, c₂, hlength, hrun⟩ := bind_ok.1 hrun
    obtain ⟨diEnd, c₃, hend, hrun⟩ := bind_ok.1 hrun
    obtain ⟨info, c₄, hinfo, hrun⟩ := bind_ok.1 hrun
    obtain ⟨value, c₅, hval, hret⟩ := bind_ok.1 hrun
    obtain ⟨rfl, rfl⟩ := Prod.mk.inj (Except.ok.inj hret)
    obtain ⟨_, hpass₁, hidlt, hidfit, rfl⟩ :=
      takes_deserializeField 4 cfg.dataItemIdSize.2.2 _ _ _ hid
    obtain ⟨_, hpass₂, hlenlt, hlenfit, rfl⟩ :=
      takes_deserializeField 8 cfg.dataItemLengthSize.2.2 _ _ _ hlength
    obtain ⟨_, hpass₃, rfl, hdiEnd⟩ := takes_itemEnd _ _ _ _ _ hend
    obtain ⟨hgot, rfl⟩ := lift_ok.1 hinfo
    obtain ⟨w, hpass₄, ⟨htype, hfits, zero, port, _, hport, ⟨subs, hforms, rfl⟩, rfl⟩, hwlen⟩ :=
      takes_window (hvalue info info.valueType) _ _ _ hval
    obtain ⟨port', hport'⟩ := value.exists_portIs
    -- the end of the data item is not behind its beginning
    have hlen : (value.wire cfg port (subs.map Form.bytes).flatten).length = length := by
      rcases hdiEnd with rfl | rfl
      · exact_mod_cast hwlen
      · omega
    have hidNat : (UInt32.ofNat idNat).toNat = idNat := UInt32.toNat_ofNat_of_lt' hidlt
    obtain ⟨hcount, hsubs⟩ := subForms_iff.1 hforms
    refine ⟨_, hpass₁.append (hpass₂.append (hpass₃.append hpass₄)), _,
      .mk hgot htype hfits hport hport' hcount hsubs (by rwa [hidNat]) (by rwa [hlen]), ?_⟩
    simp only [DataItem.framed, hidNat, hlen, List.nil_append]

/-! ## What serialize writes -/

/-- Fields that are appended one after the other are their digits one after the other. -/
theorem foldlM_serializeField_of_fits {size : Nat} {xs : List UInt32}
    (h : ∀ x ∈ xs, x.toNat < 256 ^ size) (buf : Bytes) :
    xs.foldlM (fun buf x => serializeField 4 x.toNat size buf) buf =
      .ok (buf ++ (xs.map fun x => BigEndian.encode size x.toNat).flatten) := by
  induction xs generalizing buf with
  | nil => simp [pure, Except.pure]
  | cons x xs ih =>
    obtain ⟨hx, hxs⟩ := List.forall_mem_cons.1 h
    rw [List.foldlM_cons, (serializeField_ok x.toNat_lt).2 ⟨hx, rfl⟩, ok_bind, ih hxs]
    simp

/-- A value is written in the form without ports of zero. -/
theorem DataItemValue.serialize_eq_wire {cfg : ProtocolConfig} {value : DataItemValue}
    {port : Bytes} {ws : List Bytes} (hfits : value.Fits cfg) (hport : value.PortIs false port)
    (hws : List.Forall₂ (fun di w => di.serialize cfg = .ok w) value.subItems ws) :
    value.serialize cfg = .ok (value.wire cfg port ws.flatten) := by
  have hopt : ∀ {v : UInt16} {buf : Bytes}, PortWritten false v port →
      (if v = 0 then buf else Dlep.serialize 2 v.toNat buf) = buf ++ port := by
    rintro v buf (_ | _ | hne)
    · simp
    · rw [if_neg hne, serialize_eq_append 2 v.toNat_lt]
  cases value with
  | blank | string | dlepmac => rfl
  | u8 v =>
    rw [DataItemValue.serialize, serialize_eq_append 1 v.toNat_lt, encode_one]
    rfl
  | u16 v =>
    rw [DataItemValue.serialize, serialize_eq_append 2 v.toNat_lt]
    rfl
  | u32 v =>
    rw [DataItemValue.serialize, serialize_eq_append 4 v.toNat_lt]
    rfl
  | u64 v =>
    rw [DataItemValue.serialize, serialize_eq_append 8 v.toNat_lt]
    rfl
  | vU8 v =>
    rw [DataItemValue.serialize, foldl_serialize 1 UInt8.toNat_lt]
    simp [encode_one, DataItemValue.wire, ← List.flatMap_def]
  | vU32 v =>
    rw [DataItemValue.serialize, foldl_serialize 4 UInt32.toNat_lt]
    rfl
  | a2U16 v0 v1 =>
    rw [DataItemValue.serialize, serialize_eq_append 2 v1.toNat_lt,
      serialize_eq_append 2 v0.toNat_lt]
    rfl
  | u8String f1 f2 =>
    rw [DataItemValue.serialize, serialize_eq_append 1 f1.toNat_lt, encode_one]
    rfl
  | u8Ipv4 | u8Ipv6 => rfl
  | u16VU8 f1 f2 =>
    have hlen : f2.length < 256 := hfits
    have hsize : unsignedSize f2.length = f2.length := Nat.mod_eq_of_lt (by omega)
    have hcount : BigEndian.encode 1 f2.length = [UInt8.ofNat f2.length] := by
      rw [← encode_one, UInt8.toNat_ofNat_of_lt' hlen]
    have hfield := (@serializeField_ok 4 f2.length 1 (Dlep.serialize 2 f1.toNat []) _
      (Nat.lt_trans hlen (by norm_num))).2 ⟨by simpa using hlen, rfl⟩
    simp only [DataItemValue.serialize, hsize, hfield, ok_bind, hcount]
    rw [serialize_eq_append 2 f1.toNat_lt]
    simp [DataItemValue.wire, pure, Except.pure]
  | vExtid f1 => exact foldlM_serializeField_of_fits hfits []
  | u8Ipv4U16 f1 f2 f3 =>
    rw [DataItemValue.serialize, hopt hport]
    rfl
  | u8Ipv6U16 f1 f2 f3 =>
    rw [DataItemValue.serialize, hopt hport]
    rfl
  | u8Ipv4U8 | u8Ipv6U8 => rfl
  | u8U8 f1 f2 =>
    rw [DataItemValue.serialize, serialize_eq_append 1 f2.toNat_lt,
      serialize_eq_append 1 f1.toNat_lt, encode_one, encode_one]
    rfl
  | u64U64 f1 f2 =>
    rw [DataItemValue.serialize, serialize_eq_append 8 f2.toNat_lt,
      serialize_eq_append 8 f1.toNat_lt]
    rfl
  | subDataItems items => exact serializeSubDataItems_ok.2 ⟨ws, hws, rfl⟩
  | u16SubDataItems f1 items =>
    have hitems : items.length < 256 := hfits
    have hsize : unsignedSize items.length = items.length := Nat.mod_eq_of_lt (by omega)
    have hle : ¬ items.length > 255 := by omega
    rw [DataItemValue.serialize, hsize, if_neg hle, serialize_eq_append 2 f1.toNat_lt]
    refine serializeSubDataItems_ok.2 ⟨ws, hws, ?_⟩
    simp [DataItemValue.wire]

/-- With fewer bytes for the parts, there are fewer bytes for the value. -/
theorem DataItemValue.length_wire_le {cfg : ProtocolConfig} {value : DataItemValue}
    {port port' subs subs' : Bytes} (hport : port'.length ≤ port.length)
    (hsubs : subs'.length ≤ subs.length) :
    (value.wire cfg port' subs').length ≤ (value.wire cfg port subs).length := by
  cases value with
  | u8Ipv4U16 | u8Ipv6U16 | subDataItems | u16SubDataItems =>
    simp only [DataItemValue.wire, List.length_cons, List.length_append]
    omega
  | _ => exact le_rfl

/-- The port without a zero is the port itself, unless that is a zero. -/
theorem DataItemValue.PortIs.trimmed {value : DataItemValue} {zero : Bool} {port port' : Bytes}
    (h : value.PortIs zero port) (h' : value.PortIs false port') :
    port'.length ≤ port.length ∧ (zero = false → port' = port) := by
  have hwritten : ∀ {v : UInt16}, PortWritten zero v port → PortWritten false v port' →
      port'.length ≤ port.length ∧ (zero = false → port' = port) := by
    rintro v (_ | _ | hne) (_ | _ | hne')
    · exact ⟨le_rfl, fun _ => rfl⟩
    · exact absurd rfl hne'
    · exact ⟨Nat.zero_le _, fun hz => by cases hz⟩
    · exact absurd rfl hne'
    · exact absurd rfl hne
    · exact ⟨le_rfl, fun _ => rfl⟩
  cases value with
  | u8Ipv4U16 f1 f2 f3 => exact hwritten h h'
  | u8Ipv6U16 f1 f2 f3 => exact hwritten h h'
  | _ =>
    rw [h.2, h'.2]
    exact ⟨le_rfl, fun _ => rfl⟩

/-- What holds of the forms of the sub data items, by induction. -/
structure Form.Trims (cfg : ProtocolConfig) (di : DataItem) (form : Form) : Prop where
  shorter : form.trimmed.length ≤ form.bytes.length
  same : form.zeroPort = false → form.trimmed = form.bytes
  serialize : cfg.dataItemLengthSize.1 ≤ 7 → di.serialize cfg = .ok form.trimmed

/-- Leaving out ports of zero makes a list of forms no longer, and changes nothing where there is
none. -/
theorem Form.trims_flatten {cfg : ProtocolConfig} {items : DataItems} {subs : List Form}
    (h : List.Forall₂ (fun sdi form => Form.Trims cfg sdi form) items subs) :
    (subs.map Form.trimmed).flatten.length ≤ (subs.map Form.bytes).flatten.length ∧
      (subs.any Form.zeroPort = false →
        (subs.map Form.trimmed).flatten = (subs.map Form.bytes).flatten) := by
  induction h with
  | nil => simp
  | cons hform _ ih =>
    obtain ⟨hle, hsame⟩ := ih
    have hfirst := hform.shorter
    refine ⟨by simp only [List.map_cons, List.flatten_cons, List.length_append]; omega,
      fun hz => ?_⟩
    rw [List.any_cons, Bool.or_eq_false_iff] at hz
    simp only [List.map_cons, List.flatten_cons, hform.same hz.1, hsame hz.2]

/-- `serialize` writes the form without the ports of zero. -/
theorem DataItem.Wire.trims {cfg : ProtocolConfig} {parent : Option DataItemInfo} {di : DataItem}
    {form : Form} (h : di.Wire cfg parent form) : Form.Trims cfg di form := by
  induction h with
  | @mk parent id value info zero port port' subs _ _ hfits hport hport' hcount _ hid hlength ih =>
    have hforms : List.Forall₂ (fun sdi form => Form.Trims cfg sdi form) value.subItems subs := by
      refine List.forall₂_iff_get.2 ⟨hcount, fun i hi hi' => ?_⟩
      exact ih i _ _ (List.getElem?_eq_getElem hi) (List.getElem?_eq_getElem hi')
    obtain ⟨hsubsle, hsubs⟩ := Form.trims_flatten hforms
    obtain ⟨hportle, hportsame⟩ := hport.trimmed hport'
    have hle : (value.wire cfg port' (subs.map Form.trimmed).flatten).length ≤
        (value.wire cfg port (subs.map Form.bytes).flatten).length :=
      DataItemValue.length_wire_le hportle hsubsle
    refine ⟨?_, fun hz => ?_, fun hseven => ?_⟩
    · simp only [DataItem.framed, List.length_append, BigEndian.length_encode]
      omega
    · rw [Bool.or_eq_false_iff] at hz
      simp only [hportsame hz.1, hsubs hz.2]
    · have hws : List.Forall₂ (fun di w => di.serialize cfg = .ok w) value.subItems
          (subs.map Form.trimmed) :=
        List.forall₂_map_right_iff.2 (hforms.imp fun _ _ hform => hform.serialize hseven)
      have hshort : 256 ^ cfg.dataItemLengthSize.1 ≤ 2 ^ 63 :=
        (Nat.pow_le_pow_right (by norm_num) hseven).trans (by norm_num)
      exact DataItem.serialize_ok.2 ⟨_, DataItemValue.serialize_eq_wire hfits hport' hws,
        Nat.lt_of_lt_of_le (Nat.lt_of_le_of_lt hle hlength) hshort, hid,
        Nat.lt_of_le_of_lt hle hlength, rfl⟩

/-- Encode undoes decode: if a data item is accepted at the front of `b`, then the iterator has
moved over a wire form of it, and `serialize` returns that form, but without the ports of zero
that are written in it; without such a port it returns the form itself. -/
theorem DataItem.serialize_of_deserialize {cfg : ProtocolConfig}
    (hsize : cfg.dataItemLengthSize.1 ≤ 7) {parent : Option DataItemInfo} {b : Bytes}
    {di : DataItem} {c : Cursor} (h : DataItem.deserialize cfg parent (.whole 0 b) = .ok (di, c)) :
    ∃ form, di.Wire cfg parent form ∧ b = form.bytes ++ c.bytes ∧
      di.serialize cfg = .ok form.trimmed ∧
        (form.zeroPort = false → form.trimmed = form.bytes) := by
  obtain ⟨_, hpass, form, hform, rfl⟩ := takes_deserializeUpTo _ _ _ _ _ h
  have htrims := hform.trims
  exact ⟨form, hform, hpass.bytes, htrims.serialize hsize, htrims.same⟩

/-- An IPv4 Connection Point with a port of zero, and two more bytes. -/
def connectionPoint : Bytes := [0, 2, 0, 7, 1, 10, 0, 0, 1, 0, 0, 1, 2]

/-- A connection point with a written port of zero, which is written without it afterwards. -/
theorem DataItem.serialize_of_deserialize_connectionPoint :
    ∃ form, (DataItem.mk 2 (.u8Ipv4U16 1 ⟨[10, 0, 0, 1], rfl⟩ 0)).Wire rfc8175 none form ∧
      connectionPoint = form.bytes ++ [1, 2] ∧
      (DataItem.mk 2 (.u8Ipv4U16 1 ⟨[10, 0, 0, 1], rfl⟩ 0)).serialize rfc8175 = .ok form.trimmed ∧
      (form.zeroPort = false → form.trimmed = form.bytes) :=
  @DataItem.serialize_of_deserialize rfc8175 (by decide) none connectionPoint _
    ⟨11, [1, 2], 2⟩ rfl

/-! ## Every wire form is read -/

/-- A port is read from either way to write it. -/
theorem exact_readOptionalPort_of_written {zero : Bool} {v : UInt16} {port : Bytes}
    (h : PortWritten zero v port) : Exact readOptionalPort port v := by
  cases h with
  | absent => exact exact_readOptionalPort 0
  | zero =>
    intro pos s
    have hzero : BigEndian.encode 2 (0 : UInt16).toNat = [0, 0] := rfl
    have hread := (reads_readU16 0).exact pos s
    rw [hzero] at hread
    simpa [readOptionalPort, bytesLeft, bind_run, Except.bind] using hread
  | nonzero hne =>
    have hexact := exact_readOptionalPort v
    rwa [if_neg hne] at hexact

/-- The bytes of a value are read as the value, if `subs` reads the sub data items. -/
theorem exact_deserializeValue_wire {cfg : ProtocolConfig} {value : DataItemValue} {zero : Bool}
    {port sw : Bytes} {subs : Decoder DataItems} (hfits : value.Fits cfg)
    (hport : value.PortIs zero port) (hnil : Exact subs [] [])
    (hsubs : Exact subs sw value.subItems) :
    Exact (deserializeValue cfg subs value.getType) (value.wire cfg port sw) value := by
  -- where neither a port nor a sub data item is written, there is one form only
  have hplain : value.subItems = [] → value.PortIs false port → value.ScopeIdZero →
      value.CountFits → value.wire cfg port sw = value.wire cfg port [] →
      Exact (deserializeValue cfg subs value.getType) (value.wire cfg port sw) value := by
    intro hempty hport hscope hcount hwire
    have hser : value.serialize cfg = .ok (value.wire cfg port [].flatten) :=
      DataItemValue.serialize_eq_wire hfits hport (by rw [hempty]; exact .nil)
    rw [hwire]
    refine exact_deserializeValue hser hscope hcount fun ws hws => ?_
    rw [hempty] at hws ⊢
    obtain rfl := List.forall₂_nil_left_iff.1 hws
    exact hnil
  cases value with
  | u8Ipv4U16 f1 f2 f3 =>
    have hbytes : (DataItemValue.u8Ipv4U16 f1 f2 f3).wire cfg port sw =
        BigEndian.encode 1 f1.toNat ++ (f2.bytes ++ port) := by
      rw [encode_one]
      rfl
    rw [hbytes]
    exact Exact.bind (reads_readU8 f1) (Exact.bind (reads_deserializeIpv4 f2)
      ((exact_readOptionalPort_of_written hport).ret _))
  | u8Ipv6U16 f1 f2 f3 =>
    have hbytes : (DataItemValue.u8Ipv6U16 f1 f2 f3).wire cfg port sw =
        BigEndian.encode 1 f1.toNat ++ (f2.bytes ++ port) := by
      rw [encode_one]
      rfl
    rw [hbytes]
    exact Exact.bind (reads_readU8 f1) (Exact.bind (reads_deserializeIpv6 hfits)
      ((exact_readOptionalPort_of_written hport).ret _))
  | subDataItems items => exact hsubs.ret _
  | u16SubDataItems f1 items =>
    have hnum : (UInt8.ofNat items.length).toNat = items.length := UInt8.toNat_ofNat_of_lt' hfits
    have hbytes : (DataItemValue.u16SubDataItems f1 items).wire cfg port sw =
        BigEndian.encode 2 f1.toNat ++ (BigEndian.encode 1 (UInt8.ofNat items.length).toNat ++
          (BigEndian.encode 1 (0 : UInt8).toNat ++ sw)) := by
      rw [encode_one, encode_one]
      rfl
    rw [hbytes]
    refine Exact.bind (reads_readU16 f1) (Exact.bind (reads_readU8 _)
      (Exact.bind (reads_readU8 0) fun pos s => ?_))
    have hitems : subs ⟨pos, sw ++ s, sw.length⟩ = .ok (items, ⟨pos + sw.length, s, 0⟩) :=
      hsubs pos s
    simp only [ne_eq, not_true_eq_false, if_false, bind_run, hitems, Except.bind, hnum, pure_run]
  | u8Ipv6 | u8Ipv6U8 => exact hplain rfl (hport.1 ▸ hport) hfits trivial rfl
  | u16VU8 f1 f2 =>
    have hlen : f2.length < 256 := hfits
    exact hplain rfl (hport.1 ▸ hport) trivial (Nat.lt_trans hlen (by norm_num)) rfl
  | _ => exact hplain rfl (hport.1 ▸ hport) trivial trivial rfl

/-- Every data item has a byte. -/
theorem DataItem.Wire.length_pos {cfg : ProtocolConfig} {parent : Option DataItemInfo}
    {di : DataItem} {form : Form} (h : di.Wire cfg parent form) : 0 < form.bytes.length := by
  cases h with
  | mk =>
    have hpos := cfg.dataItemIdSize.2.1
    simp only [DataItem.framed, List.length_append, BigEndian.length_encode]
    omega

/-- No sub data item is written as nothing. -/
theorem SubForms.ne_nil {cfg : ProtocolConfig} {info : DataItemInfo} {items : DataItems}
    {subs : List Form} (h : SubForms cfg info items subs) : ∀ w ∈ subs.map Form.bytes, w ≠ [] := by
  induction h with
  | nil => simp
  | cons hform _ ih =>
    intro w hw
    rcases List.mem_cons.1 hw with rfl | hw
    · exact List.ne_nil_of_length_pos hform.length_pos
    · exact ih w hw

/-- The bytes of the sub data items stand inside those of the value. -/
theorem DataItemValue.length_subs_le {cfg : ProtocolConfig} {value : DataItemValue}
    {port : Bytes} {subs : List Form} (hcount : value.subItems.length = subs.length) :
    (subs.map Form.bytes).flatten.length ≤
      (value.wire cfg port (subs.map Form.bytes).flatten).length := by
  cases value with
  | subDataItems items => exact le_rfl
  | u16SubDataItems f1 items =>
    simp only [DataItemValue.wire, List.length_append, List.length_cons]
    omega
  | _ =>
    obtain rfl := List.eq_nil_of_length_eq_zero hcount.symm
    simp

/-- The bytes of a wire form are read as the data item, within any bound on the nesting that is
greater than their number. -/
theorem reads_of_wire {cfg : ProtocolConfig} {parent : Option DataItemInfo} {di : DataItem}
    {form : Form} (h : di.Wire cfg parent form) :
    ∀ {n}, form.bytes.length < n → Reads (DataItem.deserializeUpTo cfg n parent) form.bytes di := by
  induction h with
  | @mk parent id value info zero port port' subs hinfo htype hfits hport _ hcount hsubs hid hlength
      ih =>
    intro n hn
    obtain ⟨m, rfl⟩ : ∃ m, n = m + 1 := ⟨n - 1, by omega⟩
    have hidpos := cfg.dataItemIdSize.2.1
    have hflat : (subs.map Form.bytes).flatten.length ≤ _ :=
      @DataItemValue.length_subs_le cfg value port subs hcount
    obtain ⟨valbuf, hvalbuf⟩ : ∃ v, v = value.wire cfg port (subs.map Form.bytes).flatten :=
      ⟨_, rfl⟩
    simp only [DataItem.framed, List.length_append, BigEndian.length_encode] at hn
    -- a sub data item is shorter by the header at least, so one level less is enough for it
    have hmany : Exact (many .outOfFuel (DataItem.deserializeUpTo cfg m (some info)))
        (subs.map Form.bytes).flatten value.subItems := by
      have hforms : SubForms cfg info value.subItems subs := subForms_iff.2 ⟨hcount, hsubs⟩
      refine exact_many _ (List.forall₂_map_left_iff.2 ?_) hforms.ne_nil
      refine List.forall₂_iff_get.2 ⟨hcount.symm, fun i hi hi' => ?_⟩
      have hle : subs[i].bytes.length ≤ (subs.map Form.bytes).flatten.length :=
        (List.sublist_flatten_of_mem (List.mem_map_of_mem (List.getElem_mem hi))).length_le
      exact ih i _ _ (List.getElem?_eq_getElem hi') (List.getElem?_eq_getElem hi) (by omega)
    have hnil : Exact (many .outOfFuel (DataItem.deserializeUpTo cfg m (some info))) [] [] :=
      exact_many _ .nil (by simp)
    have hvalue := exact_deserializeValue_wire hfits hport hnil hmany
    have hitem := (hvalue.window (deserializedTooLittle id valbuf.length)).ret (DataItem.mk id)
    rw [← hvalbuf, htype] at hitem
    rw [← hvalbuf] at hlength ⊢
    have hsize : valbuf.length < 256 ^ 8 :=
      Nat.lt_of_lt_of_le hlength (Nat.pow_le_pow_right (by norm_num) cfg.dataItemLengthSize.2.2)
    refine (reads_deserializeField 4 cfg.dataItemIdSize.2.2 id.toNat_lt hid).bind
      ((reads_deserializeField 8 cfg.dataItemLengthSize.2.2 hsize hlength).bind ?_)
    rw [UInt32.ofNat_toNat]
    refine reads_itemEnd id valbuf ?_
    rw [hinfo]
    exact hitem

/-- So are the wire forms of sub data items. -/
theorem SubForms.reads {cfg : ProtocolConfig} {info : DataItemInfo} {items : DataItems}
    {subs : List Form} (h : SubForms cfg info items subs) {n : Nat}
    (hn : (subs.map Form.bytes).flatten.length < n) :
    List.Forall₂ (Reads (DataItem.deserializeUpTo cfg n (some info))) (subs.map Form.bytes)
      items := by
  induction h with
  | nil => exact .nil
  | cons hform _ ih =>
    simp only [List.map_cons, List.flatten_cons, List.length_append] at hn
    exact .cons (reads_of_wire hform (by omega)) (ih (by omega))

/-- Every wire form is accepted, in front of any bytes. -/
theorem DataItem.Wire.deserialize {cfg : ProtocolConfig} {parent : Option DataItemInfo}
    {di : DataItem} {form : Form} (h : di.Wire cfg parent form) (pos : Nat) (s : Bytes) :
    DataItem.deserialize cfg parent (.whole pos (form.bytes ++ s)) =
      .ok (di, .whole (pos + form.bytes.length) s) := by
  have hread := @reads_of_wire _ _ _ _ h ((form.bytes ++ s).length + 1) (by simp) pos s
    (form.bytes ++ s).length (by simp)
  rw [DataItem.deserialize, Cursor.whole, hread]
  simp [Cursor.whole]

end Dlep
