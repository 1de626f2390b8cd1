import Dlep.ProtocolConfig
import Dlep.Serialize

/-!
# Data items

A data item is an id and a value of one of 23 types; two of the types hold data items again. This
module is the data item's wire form (`serialize`, `deserialize`), its text form (`toString`), its
check against the configuration (`validate`) and the comparison of addresses (`ipEqual`). What an id
means depends on the data item it stands in, so that the functions take the information about the
parent, `none` at the top level.
-/

namespace Dlep

open ByteReader Std

mutual

/-- Source: `DataItemValue` (`DataItem.h:260`). -/
inductive DataItemValue where
  | blank
  | u8 (val : UInt8)
  | u16 (val : UInt16)
  | u32 (val : UInt32)
  | u64 (val : UInt64)
  | vU8 (val : Bytes)
  | vU32 (val : List UInt32)
  | a2U16 (val0 val1 : UInt16)
  | string (val : Bytes)
  | dlepmac (val : DlepMac)
  | u8String (field1 : UInt8) (field2 : Bytes)
  | u8Ipv4 (field1 : UInt8) (field2 : AddressV4)
  | u8Ipv6 (field1 : UInt8) (field2 : AddressV6)
  | u16VU8 (field1 : UInt16) (field2 : Bytes)
  | vExtid (field1 : List ExtensionIdType)
  | u8Ipv4U16 (field1 : UInt8) (field2 : AddressV4) (field3 : UInt16)
  | u8Ipv6U16 (field1 : UInt8) (field2 : AddressV6) (field3 : UInt16)
  | u8Ipv4U8 (field1 : UInt8) (field2 : AddressV4) (field3 : UInt8)
  | u8Ipv6U8 (field1 : UInt8) (field2 : AddressV6) (field3 : UInt8)
  | u8U8 (field1 field2 : UInt8)
  | u64U64 (field1 field2 : UInt64)
  | subDataItems (items : List DataItem)
  | u16SubDataItems (field1 : UInt16) (items : List DataItem)

/-- Source: `DataItem` (`DataItem.h:389`). -/
inductive DataItem where
  | mk (id : DataItemIdType) (value : DataItemValue)

end

abbrev DataItems := List DataItem

def DataItem.id : DataItem → DataItemIdType
  | .mk id _ => id

def DataItem.value : DataItem → DataItemValue
  | .mk _ value => value

/-- The id of a data item is the one it was built with. -/
@[simp] theorem DataItem.id_mk (id : DataItemIdType) (value : DataItemValue) :
    (DataItem.mk id value).id = id := rfl

/-- The value of a data item is the one it was built with. -/
@[simp] theorem DataItem.value_mk (id : DataItemIdType) (value : DataItemValue) :
    (DataItem.mk id value).value = value := rfl

/-! ## Comparing -/

mutual

/-- Do two values agree in all fields? -/
def DataItemValue.equal : DataItemValue → DataItemValue → Bool
  | .blank, .blank => true
  | .u8 a, .u8 b => a = b
  | .u16 a, .u16 b => a = b
  | .u32 a, .u32 b => a = b
  | .u64 a, .u64 b => a = b
  | .vU8 a, .vU8 b => a = b
  | .vU32 a, .vU32 b => a = b
  | .a2U16 a₀ a₁, .a2U16 b₀ b₁ => a₀ = b₀ && a₁ = b₁
  | .string a, .string b => a = b
  | .dlepmac a, .dlepmac b => a = b
  | .u8String a₁ a₂, .u8String b₁ b₂ => a₁ = b₁ && a₂ = b₂
  | .u8Ipv4 a₁ a₂, .u8Ipv4 b₁ b₂ => a₁ = b₁ && a₂ = b₂
  | .u8Ipv6 a₁ a₂, .u8Ipv6 b₁ b₂ => a₁ = b₁ && a₂ = b₂
  | .u16VU8 a₁ a₂, .u16VU8 b₁ b₂ => a₁ = b₁ && a₂ = b₂
  | .vExtid a, .vExtid b => a = b
  | .u8Ipv4U16 a₁ a₂ a₃, .u8Ipv4U16 b₁ b₂ b₃ => a₁ = b₁ && a₂ = b₂ && a₃ = b₃
  | .u8Ipv6U16 a₁ a₂ a₃, .u8Ipv6U16 b₁ b₂ b₃ => a₁ = b₁ && a₂ = b₂ && a₃ = b₃
  | .u8Ipv4U8 a₁ a₂ a₃, .u8Ipv4U8 b₁ b₂ b₃ => a₁ = b₁ && a₂ = b₂ && a₃ = b₃
  | .u8Ipv6U8 a₁ a₂ a₃, .u8Ipv6U8 b₁ b₂ b₃ => a₁ = b₁ && a₂ = b₂ && a₃ = b₃
  | .u8U8 a₁ a₂, .u8U8 b₁ b₂ => a₁ = b₁ && a₂ = b₂
  | .u64U64 a₁ a₂, .u64U64 b₁ b₂ => a₁ = b₁ && a₂ = b₂
  | .subDataItems as, .subDataItems bs => equalItems as bs
  | .u16SubDataItems a as, .u16SubDataItems b bs => a = b && equalItems as bs
  | _, _ => false

/-- Source: `DataItem::operator==` (`DataItem.h:396`). -/
def DataItem.equal : DataItem → DataItem → Bool
  | .mk id value, .mk id' value' => id = id' && value.equal value'

/-- The elements of two lists are compared one by one. -/
def equalItems : List DataItem → List DataItem → Bool
  | [], [] => true
  | a :: as, b :: bs => a.equal b && equalItems as bs
  | _, _ => false

end

/-- Source: `DataItem::get_type` (`DataItem.cpp:134`). -/
def DataItemValue.getType : DataItemValue → DataItemValueType
  | .blank => .blank
  | .u8 _ => .u8
  | .u16 _ => .u16
  | .u32 _ => .u32
  | .u64 _ => .u64
  | .vU8 _ => .vU8
  | .vU32 _ => .vU32
  | .a2U16 _ _ => .a2U16
  | .string _ => .string
  | .dlepmac _ => .dlepmac
  | .u8String _ _ => .u8String
  | .u8Ipv4 _ _ => .u8Ipv4
  | .u8Ipv6 _ _ => .u8Ipv6
  | .u16VU8 _ _ => .u16VU8
  | .vExtid _ => .vExtid
  | .u8Ipv4U16 _ _ _ => .u8Ipv4U16
  | .u8Ipv6U16 _ _ _ => .u8Ipv6U16
  | .u8Ipv4U8 _ _ _ => .u8Ipv4U8
  | .u8Ipv6U8 _ _ _ => .u8Ipv6U8
  | .u8U8 _ _ => .u8U8
  | .u64U64 _ _ => .u64U64
  | .subDataItems _ => .subDataItems
  | .u16SubDataItems _ _ => .u16SubDataItems

/-- Source: `DataItem::set_default_value` (`DataItem.cpp:53`). -/
def DataItemValueType.default : DataItemValueType → DataItemValue
  | .blank => .blank
  | .u8 => .u8 0
  | .u16 => .u16 0
  | .u32 => .u32 0
  | .u64 => .u64 0
  | .vU8 => .vU8 []
  | .vU32 => .vU32 []
  | .a2U16 => .a2U16 0 0
  | .string => .string []
  | .dlepmac => .dlepmac []
  | .u8String => .u8String 0 []
  | .u8Ipv4 => .u8Ipv4 0 (.ofBytes [])
  | .u8Ipv6 => .u8Ipv6 0 (.ofBytes [])
  | .u16VU8 => .u16VU8 0 []
  | .vExtid => .vExtid []
  | .u8Ipv4U16 => .u8Ipv4U16 0 (.ofBytes []) 0
  | .u8Ipv6U16 => .u8Ipv6U16 0 (.ofBytes []) 0
  | .u8Ipv4U8 => .u8Ipv4U8 0 (.ofBytes []) 0
  | .u8Ipv6U8 => .u8Ipv6U8 0 (.ofBytes []) 0
  | .u8U8 => .u8U8 0 0
  | .u64U64 => .u64U64 0 0
  | .subDataItems => .subDataItems []
  | .u16SubDataItems => .u16SubDataItems 0 []

/-- A data item of a name. Source: `DataItem::DataItem` (`DataItem.cpp:27`). -/
def DataItem.ofName (cfg : ProtocolConfig) (name : String) (value : DataItemValue) :
    Except Exn DataItem := do
  let id ← cfg.getDataItemId name none
  return .mk id value

/-- A data item of a name, with the default value. Source: `DataItem::DataItem`
(`DataItem.cpp:38`). -/
def DataItem.ofDefault (cfg : ProtocolConfig) (name : String) : Except Exn DataItem := do
  let id ← cfg.getDataItemId name none
  let ty ← cfg.getDataItemValueType name
  return .mk id ty.default

/-! ## Serialize -/

/-- The size of a byte vector. No `std::vector` holds `2 ^ 63` bytes: making one throws. -/
def vectorSize (buf : Bytes) : Except Exn Nat :=
  if buf.length < 2 ^ 63 then .ok buf.length
  else throwStd .lengthError (str "vector")

/-- The size of a container, kept in an `unsigned int`. -/
def unsignedSize (n : Nat) : Nat := n % 2 ^ 32

mutual

/-- Source: `DataItemSerializeVisitor` (`DataItem.cpp:147`). -/
def DataItemValue.serialize (cfg : ProtocolConfig) : DataItemValue → Except Exn Bytes
  | .blank => .ok []
  | .u8 v => .ok (Dlep.serialize 1 v.toNat [])
  | .u16 v => .ok (Dlep.serialize 2 v.toNat [])
  | .u32 v => .ok (Dlep.serialize 4 v.toNat [])
  | .u64 v => .ok (Dlep.serialize 8 v.toNat [])
  | .vU8 v => .ok (v.foldl (fun buf x => Dlep.serialize 1 x.toNat buf) [])
  | .vU32 v => .ok (v.foldl (fun buf x => Dlep.serialize 4 x.toNat buf) [])
  | .a2U16 v0 v1 => .ok (Dlep.serialize 2 v1.toNat (Dlep.serialize 2 v0.toNat []))
  | .string v => .ok v
  | .dlepmac v => .ok v
  | .u8String f1 f2 => .ok (Dlep.serialize 1 f1.toNat [] ++ f2)
  | .u8Ipv4 f1 f2 => .ok ([f1] ++ f2.bytes)
  | .u8Ipv6 f1 f2 => .ok ([f1] ++ f2.bytes)
  | .u16VU8 f1 f2 => do
    let buf ← serializeField 4 (unsignedSize f2.length) 1 (Dlep.serialize 2 f1.toNat [])
    return buf ++ f2
  | .vExtid f1 =>
    f1.foldlM (fun buf x => serializeField 4 x.toNat cfg.extensionIdSize buf) []
  -- the port is optional: 0 is not put
  | .u8Ipv4U16 f1 f2 f3 =>
    .ok (if f3 = 0 then [f1] ++ f2.bytes else Dlep.serialize 2 f3.toNat ([f1] ++ f2.bytes))
  | .u8Ipv6U16 f1 f2 f3 =>
    .ok (if f3 = 0 then [f1] ++ f2.bytes else Dlep.serialize 2 f3.toNat ([f1] ++ f2.bytes))
  | .u8Ipv4U8 f1 f2 f3 => .ok ([f1] ++ f2.bytes ++ [f3])
  | .u8Ipv6U8 f1 f2 f3 => .ok ([f1] ++ f2.bytes ++ [f3])
  | .u8U8 f1 f2 => .ok (Dlep.serialize 1 f2.toNat (Dlep.serialize 1 f1.toNat []))
  | .u64U64 f1 f2 => .ok (Dlep.serialize 8 f2.toNat (Dlep.serialize 8 f1.toNat []))
  | .subDataItems items => serializeSubDataItems cfg items []
  | .u16SubDataItems f1 items =>
    if unsignedSize items.length > 255 then
      throwStd .outOfRange (str "number of sub data items is " ++
        decimal (unsignedSize items.length) ++ str ", must be <= 255")
    else
      -- the number of items, and a reserved byte
      serializeSubDataItems cfg items (Dlep.serialize 2 f1.toNat [] ++
        [UInt8.ofNat (unsignedSize items.length), 0])

/-- The value comes first, because the header holds its length. Source: `DataItem::serialize`
(`DataItem.cpp:427`). -/
def DataItem.serialize (cfg : ProtocolConfig) : DataItem → Except Exn Bytes
  | .mk id value => do
    let valbuf ← value.serialize cfg
    let size ← vectorSize valbuf
    let dibuf ← serializeField 4 id.toNat cfg.dataItemIdSize []
    let dibuf ← serializeField 8 size cfg.dataItemLengthSize dibuf
    return dibuf ++ valbuf

/-- Source: `serialize_sub_data_items` (`DataItem.cpp:381`). -/
def serializeSubDataItems (cfg : ProtocolConfig) : DataItems → Bytes → Except Exn Bytes
  | [], buf => .ok buf
  | sdi :: items, buf => do
    let one ← sdi.serialize cfg
    serializeSubDataItems cfg items (buf ++ one)

end

/-! ## Deserialize -/

def readU8 : Decoder UInt8 := do return UInt8.ofNat (← deserialize 1)
def readU16 : Decoder UInt16 := do return UInt16.ofNat (← deserialize 2)
def readU32 : Decoder UInt32 := do return UInt32.ofNat (← deserialize 4)
def readU64 : Decoder UInt64 := do return UInt64.ofNat (← deserialize 8)

/-- The bytes up to `di_end`. A `di_end` behind the iterator is a range of negative length, which
`insert` cannot make room for. -/
def readRest : Decoder Bytes :=
  rest (.std .lengthError (str "vector::_M_range_insert")) readPastEnd

/-- `n` bytes of an address, as long as the iterator is before `di_end`. -/
def readAddress (n : Nat) (what : String) : Decoder Bytes := fun c =>
  if c.left < n then .error (.std .lengthError (str what))
  else bytes endOfInput readPastEnd n c

/-- Source: `DataItem::deserialize_ipv4` (`DataItem.cpp:451`). -/
def deserializeIpv4 : Decoder AddressV4 := do
  return .ofBytes (← readAddress 4 "data item has too few bytes for an IPv4 address")

/-- Source: `DataItem::deserialize_ipv6` (`DataItem.cpp:472`). -/
def deserializeIpv6 : Decoder AddressV6 := do
  return .ofBytes (← readAddress 16 "data item has too few bytes for an IPv6 address")

/-- The distance to `di_end`. -/
def bytesLeft : Decoder Int := fun c => .ok (c.left, c)

/-- A port, if there are more bytes. -/
def readOptionalPort : Decoder UInt16 := do
  if (← bytesLeft) ≠ 0 then readU16 else return 0

def readExtensionId (cfg : ProtocolConfig) : Decoder ExtensionIdType := do
  return UInt32.ofNat (← deserializeField 4 cfg.extensionIdSize)

/-- The value of a data item, `subs` reading its sub data items. Source: the `switch` of
`DataItem::deserialize` (`DataItem.cpp:551`). -/
def deserializeValue (cfg : ProtocolConfig) (subs : Decoder DataItems) :
    DataItemValueType → Decoder DataItemValue
  | .blank => return .blank
  | .u8 => return .u8 (← readU8)
  | .u16 => return .u16 (← readU16)
  | .u32 => return .u32 (← readU32)
  | .u64 => return .u64 (← readU64)
  | .vU8 => return .vU8 (← many .outOfFuel readU8)
  | .vU32 => return .vU32 (← many .outOfFuel readU32)
  | .a2U16 => return .a2U16 (← readU16) (← readU16)
  | .string => return .string (← readRest)
  | .dlepmac => return .dlepmac (← readRest)
  | .u8String => return .u8String (← readU8) (← readRest)
  | .u8Ipv4 => return .u8Ipv4 (← readU8) (← deserializeIpv4)
  | .u8Ipv6 => return .u8Ipv6 (← readU8) (← deserializeIpv6)
  | .u16VU8 => do
    let f1 ← readU16
    let sz ← readU8
    let left ← bytesLeft
    if left ≠ sz.toNat then
      throw (.std .lengthError (str "expected vector of length " ++ decimal sz.toNat ++
        str ", got length " ++ signedDecimal left))
    else
      return .u16VU8 f1 (← readRest)
  | .vExtid => return .vExtid (← many .outOfFuel (readExtensionId cfg))
  | .u8Ipv4U16 => return .u8Ipv4U16 (← readU8) (← deserializeIpv4) (← readOptionalPort)
  | .u8Ipv6U16 => return .u8Ipv6U16 (← readU8) (← deserializeIpv6) (← readOptionalPort)
  | .u8Ipv4U8 => return .u8Ipv4U8 (← readU8) (← deserializeIpv4) (← readU8)
  | .u8Ipv6U8 => return .u8Ipv6U8 (← readU8) (← deserializeIpv6) (← readU8)
  | .u8U8 => return .u8U8 (← readU8) (← readU8)
  | .u64U64 => return .u64U64 (← readU64) (← readU64)
  | .subDataItems => return .subDataItems (← subs)
  | .u16SubDataItems => do
    let f1 ← readU16
    let numSdis ← readU8
    let reserved ← readU8
    if reserved ≠ 0 then
      throw (.std .outOfRange (str "reserved byte is " ++ decimal reserved.toNat ++
        str ", must be 0"))
    else
      let items ← subs
      if items.length ≠ numSdis.toNat then
        throw (.std .lengthError (str "number of sub data items is " ++ decimal items.length ++
          str ", expected " ++ decimal numSdis.toNat))
      else
        return .u16SubDataItems f1 items

/-- The distance from the iterator to `di_end = it + di_length`. The sum is taken modulo `2 ^ 64`,
so that `di_end` can lie before the iterator; an end behind the range is an error
(`DataItem.cpp:541`). -/
def itemEnd (id : DataItemIdType) (length : Nat) : Decoder Int := fun c =>
  if length ≤ c.left then .ok (length, c)
  else if c.pos + length < 2 ^ 64 then
    .error (.std .lengthError (str "data item=" ++ decimal id.toNat ++ str " length=" ++
      decimal length ++ str " extends beyond the end of the message"))
  else .ok ((length : Int) - 2 ^ 64, c)

/-- What is thrown when the value did not take the whole of the data item (`DataItem.cpp:811`). -/
def deserializedTooLittle (id : DataItemIdType) (length : Nat) (left : Int) : Exn :=
  .std .lengthError (str "data item=" ++ decimal id.toNat ++ str " length=" ++ decimal length ++
    str " deserialized length was only " ++ signedDecimal left)

/-- `deserialize` with a bound on the nesting of data items. -/
def DataItem.deserializeUpTo (cfg : ProtocolConfig) :
    Nat → Option DataItemInfo → Decoder DataItem
  | 0, _ => throw .outOfFuel
  | n + 1, parent => do
    let id := UInt32.ofNat (← deserializeField 4 cfg.dataItemIdSize)
    let length ← deserializeField 8 cfg.dataItemLengthSize
    let diEnd ← itemEnd id length
    let info ← (cfg.getDataItemInfo id parent : Except Exn DataItemInfo)
    let subs := many .outOfFuel (deserializeUpTo cfg n (some info))
    let value ← window diEnd (deserializedTooLittle id length)
      (deserializeValue cfg subs info.valueType)
    return .mk id value

/-- Source: `DataItem::deserialize` (`DataItem.cpp:525`). A data item takes at least two bytes, so
the number of bytes bounds the nesting. -/
def DataItem.deserialize (cfg : ProtocolConfig) (parent : Option DataItemInfo) :
    Decoder DataItem := fun c =>
  deserializeUpTo cfg (c.bytes.length + 1) parent c

/-! ## Text -/

/-- Source: `data_item_value_type_map` (`DataItem.cpp:1991`). -/
def DataItemValueType.toText : DataItemValueType → Bytes
  | .blank => str "blank"
  | .u8 => str "u8"
  | .u16 => str "u16"
  | .u32 => str "u32"
  | .u64 => str "u64"
  | .vU8 => str "v_u8"
  | .vU32 => str "v_u32"
  | .a2U16 => str "a2_u16"
  | .string => str "string"
  | .dlepmac => str "dlepmac"
  | .u8String => str "u8_string"
  | .u8Ipv4 => str "u8_ipv4"
  | .u8Ipv6 => str "u8_ipv6"
  | .u16VU8 => str "u16_vu8"
  | .vExtid => str "v_extid"
  | .u8Ipv4U16 => str "u8_ipv4_u16"
  | .u8Ipv6U16 => str "u8_ipv6_u16"
  | .u8Ipv4U8 => str "u8_ipv4_u8"
  | .u8Ipv6U8 => str "u8_ipv6_u8"
  | .u8U8 => str "u8_u8"
  | .u64U64 => str "u64_u64"
  | .subDataItems => str "sub_data_items"
  | .u16SubDataItems => str "u16_sub_data_items"

/-- Numbers separated by commas. -/
def commaSeparated (ns : List Nat) : Bytes := (str ",").intercalate (ns.map decimal)

mutual

/-- Source: `DataItemToStringVisitor` (`DataItem.cpp:825`). -/
def DataItemValue.toString [AddressText] (cfg : ProtocolConfig) (parent : Option DataItemInfo) :
    DataItemValue → Except Exn Bytes
  | .blank => .ok []
  | .u8 v => .ok (decimal v.toNat)
  | .u16 v => .ok (decimal v.toNat)
  | .u32 v => .ok (decimal v.toNat)
  | .u64 v => .ok (decimal v.toNat)
  | .vU8 v => .ok (commaSeparated (v.map UInt8.toNat))
  | .vU32 v => .ok (commaSeparated (v.map UInt32.toNat))
  | .a2U16 v0 v1 => .ok (commaSeparated [v0.toNat, v1.toNat])
  | .string v => .ok v
  | .dlepmac v => .ok (macToString v)
  | .u8String f1 f2 => .ok (decimal f1.toNat ++ str ";" ++ f2)
  | .u8Ipv4 f1 f2 => .ok (decimal f1.toNat ++ str ";" ++ AddressText.v4ToString f2)
  | .u8Ipv6 f1 f2 => .ok (decimal f1.toNat ++ str ";" ++ AddressText.v6ToString f2)
  | .u16VU8 f1 f2 => .ok (decimal f1.toNat ++ str ";" ++ commaSeparated (f2.map UInt8.toNat))
  | .vExtid f1 => .ok (commaSeparated (f1.map UInt32.toNat))
  | .u8Ipv4U16 f1 f2 f3 => .ok (decimal f1.toNat ++ str ";" ++ AddressText.v4ToString f2 ++
      str ";" ++ decimal f3.toNat)
  | .u8Ipv6U16 f1 f2 f3 => .ok (decimal f1.toNat ++ str ";" ++ AddressText.v6ToString f2 ++
      str ";" ++ decimal f3.toNat)
  | .u8Ipv4U8 f1 f2 f3 => .ok (decimal f1.toNat ++ str ";" ++ AddressText.v4ToString f2 ++
      str ";" ++ decimal f3.toNat)
  | .u8Ipv6U8 f1 f2 f3 => .ok (decimal f1.toNat ++ str ";" ++ AddressText.v6ToString f2 ++
      str ";" ++ decimal f3.toNat)
  | .u8U8 f1 f2 => .ok (decimal f1.toNat ++ str ";" ++ decimal f2.toNat)
  | .u64U64 f1 f2 => .ok (decimal f1.toNat ++ str ";" ++ decimal f2.toNat)
  | .subDataItems items => do
    let text ← subDataItemsToString cfg parent items
    return str "\x7b " ++ text ++ str "\x7d "
  | .u16SubDataItems f1 items => do
    let text ← subDataItemsToString cfg parent items
    return decimal f1.toNat ++ str ";" ++ str "\x7b " ++ text ++ str "\x7d "

/-- The scope of the sub data items is the data item itself only if its configuration lists sub
data items. Source: `DataItem::to_string` (`DataItem.cpp:1050`). -/
def DataItem.toString [AddressText] (cfg : ProtocolConfig) (parent : Option DataItemInfo) :
    DataItem → Except Exn Bytes
  | .mk id value => do
    let name ← cfg.getDataItemName id parent
    let info ← cfg.getDataItemInfoByName name
    let scope := if info.subDataItems.length > 0 then some info else parent
    let text ← value.toString cfg scope
    return str name ++ str " " ++ text

/-- Source: `sub_data_items_to_string` (`DataItem.cpp:1016`). -/
def subDataItemsToString [AddressText] (cfg : ProtocolConfig) (parent : Option DataItemInfo) :
    DataItems → Except Exn Bytes
  | [] => .ok []
  | sdi :: items => do
    let text ← sdi.toString cfg parent
    let texts ← subDataItemsToString cfg parent items
    return text ++ str " " ++ texts

end

/-! ## Validate

The result is the description of the first error, `""` if there is none. -/

/-- How often each id occurs. The counters are `unsigned int`. -/
def countOccurrences (items : DataItems) : ExtTreeMap DataItemIdType UInt32 :=
  items.foldl (fun counts di =>
    match counts[di.id]? with
    | none => counts.insert di.id 1
    | some n => counts.insert di.id (n + 1)) ∅

/-- Check the expected number of occurrences against the actual one (`DataItem.cpp:1797`). -/
def checkOccurs (ref : SubDataItem) (actual : UInt32) : Bytes :=
  match ref.occurs with
  | .one =>
    if actual ≠ 1 then
      str "exactly one of " ++ str ref.name ++ str " required, but got " ++ decimal actual.toNat
    else []
  | .oneOrMore =>
    if actual < 1 then
      str "at least one of " ++ str ref.name ++ str " required, but got none"
    else []
  | .zeroOrOne =>
    if actual > 1 then
      str "no more than one of " ++ str ref.name ++ str " required, but got " ++
        decimal actual.toNat
    else []
  | .zeroOrMore => []

/-- Check the references one after the other, taking each out of the counts, up to the first
error. -/
def checkReferences : List SubDataItem → ExtTreeMap DataItemIdType UInt32 →
    Bytes × ExtTreeMap DataItemIdType UInt32
  | [], counts => ([], counts)
  | ref :: refs, counts =>
    let err := checkOccurs ref (counts[ref.id]?.getD 0)
    if err ≠ [] then (err, counts.erase ref.id)
    else checkReferences refs (counts.erase ref.id)

/-- The data items that are left, with their number. -/
def unexpectedDataItems (cfg : ProtocolConfig) (parent : Option DataItemInfo) :
    List (DataItemIdType × UInt32) → Except Exn Bytes
  | [] => .ok []
  | (id, count) :: rest => do
    let name ← cfg.getDataItemName id parent
    let texts ← unexpectedDataItems cfg parent rest
    return str name ++ str "(" ++ decimal count.toNat ++ str ") " ++ texts

/-- Source: `DataItem::validate_occurrences` (`DataItem.cpp:1752`). -/
def validateOccurrences (cfg : ProtocolConfig) (items : DataItems) (refs : List SubDataItem)
    (parent : Option DataItemInfo) : Except Exn Bytes :=
  let (err, left) := checkReferences refs (countOccurrences items)
  if err ≠ [] then .ok err
  else if left.isEmpty then .ok []
  else do
    let texts ← unexpectedDataItems cfg parent left.toList
    return str "unexpected data items: " ++ texts

/-- Source: `validate_status` (`DataItem.cpp:1604`). -/
def validateStatus (cfg : ProtocolConfig) (id : StatusCodeIdType) : Except Exn Bytes :=
  match cfg.getStatusCodeName id with
  | .ok _ => .ok []
  | .error (.std .badStatusCodeId _) => .ok (decimal id.toNat ++ str " is invalid")
  | .error e => .error e

/-- The flags of an address. -/
def validateAddDrop (flags : UInt8) : Bytes :=
  if flags > 1 then str "add/drop is " ++ decimal flags.toNat ++ str ", must be 0 or 1" else []

/-- The flags, then the prefix length, of a subnet. -/
def validateSubnet (flags : UInt8) (prefixLength max : UInt8) : Bytes :=
  if flags > 1 then validateAddDrop flags
  else if prefixLength > max then
    str "subnet mask is " ++ decimal prefixLength.toNat ++ str ", must be <= " ++ decimal max.toNat
  else []

mutual

/-- Source: `DataItemValidateVisitor` (`DataItem.cpp:1571`). -/
def DataItemValue.validate (cfg : ProtocolConfig) (info : DataItemInfo) :
    DataItemValue → Except Exn Bytes
  | .u8 v =>
    if info.units = .percentage then
      .ok (if v > 100 then str "is " ++ decimal v.toNat ++ str ", must be <= 100" else [])
    else if info.name = "Status" then validateStatus cfg v.toUInt32
    else .ok []
  | .u8String f1 _ => if info.name = "Status" then validateStatus cfg f1.toUInt32 else .ok []
  | .u8Ipv4 f1 _ => .ok (validateAddDrop f1)
  | .u8Ipv6 f1 _ => .ok (validateAddDrop f1)
  | .u8Ipv4U8 f1 _ f3 => .ok (validateSubnet f1 f3 32)
  | .u8Ipv6U8 f1 _ f3 => .ok (validateSubnet f1 f3 128)
  | .subDataItems items => do
    let err ← validateEach cfg (some info) items
    if err ≠ [] then return err
    else validateOccurrences cfg items info.subDataItems (some info)
  | .u16SubDataItems _ items => do
    let err ← validateEach cfg (some info) items
    if err ≠ [] then return err
    else validateOccurrences cfg items info.subDataItems (some info)
  | _ => .ok []

/-- Source: `DataItem::validate` (`DataItem.cpp:1723`). -/
def DataItem.validate (cfg : ProtocolConfig) (parent : Option DataItemInfo) :
    DataItem → Except Exn Bytes
  | .mk id value => do
    let name ← cfg.getDataItemName id parent
    let info ← cfg.getDataItemInfoByName name
    if info.valueType ≠ value.getType then
      return str name ++ str " type is " ++ value.getType.toText ++ str ", must be " ++
        info.valueType.toText
    else
      let err ← value.validate cfg info
      return if err ≠ [] then str name ++ str " " ++ err else err

/-- The first error of a list of data items (`DataItem.cpp:1685`, `ProtocolMessage.cpp:697`). -/
def validateEach (cfg : ProtocolConfig) (parent : Option DataItemInfo) :
    DataItems → Except Exn Bytes
  | [] => .ok []
  | di :: items => do
    let err ← di.validate cfg parent
    if err ≠ [] then return err else validateEach cfg parent items

end

/-! ## IP addresses -/

/-- Do two data items hold the same address or subnet? The flags do not matter. Source:
`DataItem::ip_equal` (`DataItem.cpp:1909`). -/
def DataItem.ipEqual (di other : DataItem) : Bool :=
  match di.value, other.value with
  | .u8Ipv4 _ a, .u8Ipv4 _ b => a = b
  | .u8Ipv6 _ a, .u8Ipv6 _ b => a = b
  | .u8Ipv4U8 _ a n, .u8Ipv4U8 _ b m => a = b && n = m
  | .u8Ipv6U8 _ a n, .u8Ipv6U8 _ b m => a = b && n = m
  | _, _ => false

/-- Source: `DataItem::ip_flags` (`DataItem.cpp:1959`). -/
def DataItem.ipFlags (di : DataItem) : UInt8 :=
  match di.value with
  | .u8Ipv4 f _ => f
  | .u8Ipv6 f _ => f
  | .u8Ipv4U8 f _ _ => f
  | .u8Ipv6U8 f _ _ => f
  | _ => 0

def DataItem.ipFlagAdd : UInt8 := 1

/-- Where the address stands in a list. Source: `DataItem::find_ip_data_item`
(`DataItem.cpp:1965`). -/
def DataItem.findIpDataItem (di : DataItem) (search : DataItems) : Option Nat :=
  search.findIdx? fun other => di.ipEqual other

end Dlep
