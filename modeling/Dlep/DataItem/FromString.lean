import Dlep.DataItem
import Dlep.Lib.StringStream

/-!
# Data items from text

The inverses of `DataItem.toString` and of its part about the value: `DataItem.fromString` and
`DataItem.valueFromString`. The text is read through a string stream, with a function for each
value type. Parsing an IP address is `boost::asio`'s own, like its printing.
-/

namespace Dlep

open StringStream hiding get

/-- The parsing of IP addresses, beside their printing. -/
class AddressSyntax extends AddressText where
  v4FromString : Bytes → Option AddressV4
  v6FromString : Bytes → Option AddressV6

/-- A parser of the library. -/
abbrev TextParser (α : Type) := Parser Exn α

/-- The name that a text is. A text that is not valid UTF-8 is no name of a configuration. -/
def nameOf (text : Bytes) : Option String := String.fromUTF8? text.toByteArray

/-- `throw std::invalid_argument(what)`. -/
def invalidArgument {α : Type} (what : Bytes) : TextParser α := throw (.std .invalidArgument what)

/-! ## Fields -/

/-- Source: `is_field_separator` (`DataItem.cpp:1096`). -/
def isFieldSeparator (c : Option UInt8) : Bool := c = some 59 || c = some 47

/-- Source: `check_field_separator` (`DataItem.cpp:1104`). -/
def checkFieldSeparator : TextParser Unit := do
  let c ← StringStream.get
  if !isFieldSeparator c || (← fail) then invalidArgument (str "expected field separator")

/-- What is thrown for a number that does not fit. -/
def tooLarge (typeName : Bytes) (u64 : Nat) : Bytes :=
  str "value " ++ decimal u64 ++ str " is too large for type " ++ typeName

/-- A number of `w` bits. Source: `parse_uint` (`DataItem.cpp:1122`). -/
def parseUint (typeName : Bytes) (w : Nat) : TextParser Nat := do
  let u64 ← number
  if ← fail then
    if ← eof then invalidArgument (str "missing value of type " ++ typeName)
    else
      clear
      let badvalue ← getline 32
      invalidArgument (badvalue ++ str " is not a valid value of type " ++ typeName)
  else if u64 % 2 ^ w ≠ u64 then invalidArgument (tooLarge typeName u64)
  else return u64

/-- `if (ss.peek() == c) ss.ignore();` -/
def skipOver (c : UInt8) : TextParser Unit := do
  if (← peek) = some c then ignore

/-- The loop of `parse_vector`, with a bound on its rounds. -/
def parseVectorUpTo (typeName : Bytes) (w : Nat) : Nat → List Nat → TextParser (List Nat)
  | 0, _ => throw .outOfFuel
  | n + 1, vec => do
    let u64 ← number
    if ← fail then
      clear
      return vec
    else if u64 % 2 ^ w ≠ u64 then invalidArgument (tooLarge typeName u64)
    else
      skipOver 44
      parseVectorUpTo typeName w n (vec ++ [u64])

/-- Numbers of `w` bits, if there are any. Every round but the last takes a digit. Source:
`parse_vector` (`DataItem.cpp:1169`). -/
def parseVector (typeName : Bytes) (w : Nat) : TextParser (List Nat) := fun ss =>
  parseVectorUpTo typeName w (ss.rest.length + 1) [] ss

/-- The last `n` of `size` numbers. -/
def parseArrayFrom (typeName : Bytes) (w size : Nat) : Nat → TextParser (List Nat)
  | 0 => return []
  | n + 1 => do
    if ← fail then
      invalidArgument (str "array requires " ++ decimal size ++ str " elements, but got only " ++
        decimal (size - (n + 1)))
    else
      let v ← parseUint typeName w
      skipOver 44
      return v :: (← parseArrayFrom typeName w size n)

/-- `size` numbers. Source: `DataItemValueFromStringStreamVisitor` (`DataItem.cpp:1216`). -/
def parseArray (typeName : Bytes) (w size : Nat) : TextParser (List Nat) :=
  parseArrayFrom typeName w size size

/-- The loop about the bytes of a MAC address, with a bound on its rounds. -/
def parseMacUpTo (typeName : Bytes) : Nat → DlepMac → TextParser DlepMac
  | 0, _ => throw .outOfFuel
  | n + 1, mac => do
    let byte ← parseUint typeName 8
    let mac := mac ++ [UInt8.ofNat byte]
    if (← peek) = some 58 then
      ignore
      parseMacUpTo typeName n mac
    else return mac

/-- A MAC address, whose bytes are hexadecimal. Source: `DataItemValueFromStringStreamVisitor`
(`DataItem.cpp:1256`). -/
def parseMac (typeName : Bytes) : TextParser DlepMac := do
  setHex true
  let mac ← fun ss => parseMacUpTo typeName (ss.rest.length + 1) [] ss
  setHex false
  return mac

/-- The loop that collects the characters of an address, with a bound on its rounds. -/
def addressTextUpTo : Nat → Bytes → TextParser Bytes
  | 0, _ => throw .outOfFuel
  | n + 1, ipStr => do
    if ← fail then return ipStr
    else if isFieldSeparator (← peek) then return ipStr
    else if ((← peek).map isSpace).getD false then return ipStr
    else
      let ch ← StringStream.get
      if ← eof then addressTextUpTo n ipStr
      else addressTextUpTo n (ipStr ++ ch.toList)

/-- Source: `parse_ip_addr` (`DataItem.cpp:1296`). -/
def parseIpAddr {α : Type} (fromString : Bytes → Option α) : TextParser α := do
  skipWhitespace .outOfFuel
  -- the last round is the one that finds no character
  let ipStr ← fun ss => addressTextUpTo (ss.rest.length + 2) [] ss
  match fromString ipStr with
  | some ipaddr => return ipaddr
  | none => invalidArgument (str "invalid IP address " ++ ipStr)

/-! ## Values -/

section

variable [AddressSyntax]

/-- The numbers of an array of two. -/
def pairOf : List Nat → DataItemValue
  | [v0, v1] => .a2U16 (UInt16.ofNat v0) (UInt16.ofNat v1)
  | _ => .a2U16 0 0

/-- The value of a data item of a type. The values with sub data items are not read here. Source:
`DataItemValueFromStringStreamVisitor` (`DataItem.cpp:1112`). -/
def parseValue (typeName : Bytes) : DataItemValueType → TextParser DataItemValue
  | .blank => return .blank
  | .u8 => return .u8 (UInt8.ofNat (← parseUint typeName 8))
  | .u16 => return .u16 (UInt16.ofNat (← parseUint typeName 16))
  | .u32 => return .u32 (UInt32.ofNat (← parseUint typeName 32))
  | .u64 => return .u64 (UInt64.ofNat (← parseUint typeName 64))
  | .vU8 => return .vU8 ((← parseVector typeName 8).map UInt8.ofNat)
  | .vU32 => return .vU32 ((← parseVector typeName 32).map UInt32.ofNat)
  | .a2U16 => return pairOf (← parseArray typeName 16 2)
  | .string => return .string (← word)
  | .dlepmac => return .dlepmac (← parseMac typeName)
  | .u8String => do
    let f1 ← parseUint typeName 8
    checkFieldSeparator
    return .u8String (UInt8.ofNat f1) (← word)
  | .u8Ipv4 => do
    let f1 ← parseUint typeName 8
    checkFieldSeparator
    return .u8Ipv4 (UInt8.ofNat f1) (← parseIpAddr AddressSyntax.v4FromString)
  | .u8Ipv6 => do
    let f1 ← parseUint typeName 8
    checkFieldSeparator
    return .u8Ipv6 (UInt8.ofNat f1) (← parseIpAddr AddressSyntax.v6FromString)
  | .u16VU8 => do
    let f1 ← parseUint typeName 16
    checkFieldSeparator
    return .u16VU8 (UInt16.ofNat f1) ((← parseVector typeName 8).map UInt8.ofNat)
  | .vExtid => return .vExtid ((← parseVector typeName 32).map UInt32.ofNat)
  | .u8Ipv4U16 => do
    let f1 ← parseUint typeName 8
    checkFieldSeparator
    let f2 ← parseIpAddr AddressSyntax.v4FromString
    checkFieldSeparator
    return .u8Ipv4U16 (UInt8.ofNat f1) f2 (UInt16.ofNat (← parseUint typeName 16))
  | .u8Ipv6U16 => do
    let f1 ← parseUint typeName 8
    checkFieldSeparator
    let f2 ← parseIpAddr AddressSyntax.v6FromString
    checkFieldSeparator
    return .u8Ipv6U16 (UInt8.ofNat f1) f2 (UInt16.ofNat (← parseUint typeName 16))
  | .u8Ipv4U8 => do
    let f1 ← parseUint typeName 8
    checkFieldSeparator
    let f2 ← parseIpAddr AddressSyntax.v4FromString
    checkFieldSeparator
    return .u8Ipv4U8 (UInt8.ofNat f1) f2 (UInt8.ofNat (← parseUint typeName 8))
  | .u8Ipv6U8 => do
    let f1 ← parseUint typeName 8
    checkFieldSeparator
    let f2 ← parseIpAddr AddressSyntax.v6FromString
    checkFieldSeparator
    return .u8Ipv6U8 (UInt8.ofNat f1) f2 (UInt8.ofNat (← parseUint typeName 8))
  | .u8U8 => do
    let f1 ← parseUint typeName 8
    checkFieldSeparator
    return .u8U8 (UInt8.ofNat f1) (UInt8.ofNat (← parseUint typeName 8))
  | .u64U64 => do
    let f1 ← parseUint typeName 64
    checkFieldSeparator
    return .u64U64 (UInt64.ofNat f1) (UInt64.ofNat (← parseUint typeName 64))
  | .subDataItems => return .subDataItems []
  -- the number of the new `Div_u16_sub_data_items_t` is copied before it is set
  | .u16SubDataItems => throw (.undefined "Div_u16_sub_data_items_t::field1")

/-- The value of a data item whose value has a type. Source: `DataItem::value_from_istringstream`
(`DataItem.cpp:1465`). -/
def valueFromIStringStream (valueType : DataItemValueType) : TextParser DataItemValue := do
  setHex false
  parseValue valueType.toText valueType

/-- Source: `DataItem::value_from_string` (`DataItem.cpp:1476`). -/
def DataItem.valueFromString (di : DataItem) (text : Bytes) : Except Exn DataItem := do
  let (value, _) ← valueFromIStringStream di.value.getType (ready text false)
  return .mk di.id value

/-! ## Data items -/

/-- Data items up to the closing brace, with a bound on the rounds. -/
def subDataItemsUpTo (readItem : TextParser DataItem) : Nat → DataItems → TextParser DataItems
  | 0, _ => throw .outOfFuel
  | n + 1, vsubdi => do
    if (← peek) = some 125 then
      ignore
      return vsubdi
    else
      let subdi ← readItem
      skipWhitespace .outOfFuel
      subDataItemsUpTo readItem n (vsubdi ++ [subdi])

/-- Source: `DataItem::sub_data_items_from_istringstream` (`DataItem.cpp:1483`). -/
def subDataItemsFromIStringStream (readItem : TextParser DataItem) : TextParser DataItems := do
  let token ← word
  if token ≠ str "\x7b" then
    let token := if ← eof then str "end of line" else token
    invalidArgument (str "expected \x7b, not " ++ token)
  else
    skipWhitespace .outOfFuel
    fun ss => subDataItemsUpTo readItem (ss.rest.length + 1) [] ss

/-- The name of a data item is looked up as it is. -/
def ProtocolConfig.lookUp {α : Type} (find : String → Except Exn α) (text : Bytes) : Except Exn α :=
  match nameOf text with
  | some name => find name
  | none => throwStd .badDataItemName text

/-- The value of a data item of a type, `readItem` reading its sub data items
(`DataItem.cpp:1527`). -/
def itemValueFromIStringStream (readItem : TextParser DataItem) (valueType : DataItemValueType) :
    TextParser DataItemValue := do
  if valueType = .subDataItems then
    return .subDataItems (← subDataItemsFromIStringStream readItem)
  else if valueType = .u16SubDataItems then
    setHex false
    let f1 ← parseUint DataItemValueType.u16.toText 16
    checkFieldSeparator
    return .u16SubDataItems (UInt16.ofNat f1) (← subDataItemsFromIStringStream readItem)
  else valueFromIStringStream valueType

/-- `from_istringstream` with a bound on the nesting of data items. -/
def DataItem.fromIStringStreamUpTo (cfg : ProtocolConfig) :
    Nat → Option DataItemInfo → TextParser DataItem
  | 0, _ => throw .outOfFuel
  | n + 1, parent => do
    let diName ← word
    if ← fail then invalidArgument (str "expected data item name, not end of line")
    else
      let id ← (ProtocolConfig.lookUp (fun name => cfg.getDataItemId name parent) diName :
        Except Exn DataItemIdType)
      let diInfo ← (ProtocolConfig.lookUp cfg.getDataItemInfoByName diName :
        Except Exn DataItemInfo)
      return .mk id (← itemValueFromIStringStream (fromIStringStreamUpTo cfg n (some diInfo))
        diInfo.valueType)

/-- Source: `DataItem::from_istringstream` (`DataItem.cpp:1514`). A data item takes at least the
characters of its name, so that the number of characters bounds the nesting. -/
def DataItem.fromIStringStream (cfg : ProtocolConfig) (parent : Option DataItemInfo) :
    TextParser DataItem := fun ss =>
  fromIStringStreamUpTo cfg (ss.rest.length + 1) parent ss

/-- Source: `DataItem::from_string` (`DataItem.cpp:1556`). -/
def DataItem.fromString (cfg : ProtocolConfig) (text : Bytes) (parent : Option DataItemInfo) :
    Except Exn DataItem := do
  let (di, _) ← fromIStringStream cfg parent (ready text false)
  return di

end

end Dlep
