import Mathlib.Tactic

/-!
# Bytes, texts and exceptions

The vocabulary every module shares. A `std::string` and a `std::vector<std::uint8_t>` are byte
lists; the names of the protocol configuration are Lean strings, and `str` is their text. `Exn` is
what can end a call early: a C++ exception with its class and `what()`, a failed `assert`, or an
operation whose behaviour the language leaves undefined. Only the first can be caught.
-/

namespace Dlep

abbrev Bytes := List UInt8

/-- The bytes of a text. -/
def str (s : String) : Bytes := s.toUTF8.toList

/-- What the loop of `ByteArray.toList` returns from the offset `i`: the bytes collected so far in
order, and the rest of the array. -/
theorem toList_loop_byteArray (b : ByteArray) (i : Nat) (r : List UInt8) :
    ByteArray.toList.loop b i r = r.reverse ++ b.data.toList.drop i := by
  fun_induction ByteArray.toList.loop b i r with
  | case1 i r h ih =>
    have hlt : i < b.data.toList.length := h
    have hget : b.get! i = b.data.toList[i] := by
      simp [ByteArray.get!, Array.getElem_toList, h]
    rw [ih, List.reverse_cons, List.append_assoc, List.drop_eq_getElem_cons hlt, hget]
    rfl
  | case2 i r h =>
    have hle : b.data.toList.length ≤ i := Nat.not_lt.1 h
    rw [List.drop_eq_nil_of_le hle, List.append_nil]

/-- The bytes of a text, read off its array in one piece. -/
theorem str_eq (s : String) : str s = s.toUTF8.data.toList := by
  rw [str, ByteArray.toList, toList_loop_byteArray]
  rfl

/-- A text that is not empty has a byte. -/
theorem str_ne_nil {s : String} (h : s ≠ "") : str s ≠ [] := by
  intro hnil
  have hsize : s.toUTF8.data.toList.length = 0 := by rw [← str_eq, hnil, List.length_nil]
  exact h (String.utf8ByteSize_eq_zero_iff.1 hsize)

/-- `std::to_string` of an unsigned integer. -/
def decimal (n : Nat) : Bytes := (Nat.toDigits 10 n).map fun c => UInt8.ofNat c.toNat

/-- `std::to_string` of a signed integer. -/
def signedDecimal : Int → Bytes
  | .ofNat n => decimal n
  | .negSucc n => str "-" ++ decimal (n + 1)

/-- A number is written with one digit at least. -/
theorem decimal_ne_nil (n : Nat) : decimal n ≠ [] := by
  simp [decimal]

/-- The exception classes of the library (`ProtocolConfig.h:297`, `ProtocolMessage.h:104`) and the
standard ones it throws. -/
inductive StdException where
  | invalidArgument
  | lengthError
  | outOfRange
  | badModuleName
  | badSignalId
  | badSignalName
  | badDataItemId
  | badDataItemName
  | badStatusCodeId
  | badStatusCodeName
  | badProtocolConfig
  | dataItemWrongType
  | dataItemNotPresent
  | signalIdNotInitialized
  deriving DecidableEq, Repr

/-- Why a call did not return. -/
inductive Exn where
  /-- A C++ exception of class `cls` with `what()`. -/
  | std (cls : StdException) (what : Bytes)
  /-- A failed `assert`: the process aborts. -/
  | assertion (cond : String)
  /-- Undefined behaviour of the language. -/
  | undefined (what : String)
  /-- The recursion bound of a model function; no run reaches it. -/
  | outOfFuel
  deriving DecidableEq, Repr

def throwStd {α : Type} (cls : StdException) (what : Bytes) : Except Exn α :=
  .error (.std cls what)

/-- `assert(cond)`. -/
def assertThat (cond : Bool) (text : String) : Except Exn Unit :=
  if cond then .ok () else .error (.assertion text)

/-- An assertion passes exactly when its condition holds. -/
@[simp] theorem assertThat_ok {cond : Bool} {text : String} {u : Unit} :
    assertThat cond text = .ok u ↔ cond = true := by
  cases cond <;> simp [assertThat]

/-- A sequence of two calls returns exactly when both do. -/
theorem bind_eq_ok {α β : Type} {x : Except Exn α} {f : α → Except Exn β} {b : β} :
    (x >>= f) = .ok b ↔ ∃ a, x = .ok a ∧ f a = .ok b := by
  cases x with
  | error e => simp [bind, Except.bind]
  | ok a => simp [bind, Except.bind]

/-- A call whose value is only put into another form returns exactly when the call does. -/
theorem exists_bind_pure_eq_ok {α β : Type} {x : Except Exn α} {f : α → β} :
    (∃ b, (x >>= fun a => pure (f a)) = .ok b) ↔ ∃ a, x = .ok a := by
  cases x with
  | error e => simp [bind, Except.bind]
  | ok a => simp [bind, Except.bind, pure, Except.pure]

/-- A computation that has returned hands its value on. -/
@[simp] theorem ok_bind {α β : Type} (a : α) (f : α → Except Exn β) :
    ((Except.ok a : Except Exn α) >>= f) = f a := rfl

/-- A computation that has thrown is not continued. -/
@[simp] theorem error_bind {α β : Type} (e : Exn) (f : α → Except Exn β) :
    ((Except.error e : Except Exn α) >>= f) = .error e := rfl

/-- `std::uint32_t` identifiers, and the value for an undefined one (`IdTypes.h:24`). -/
abbrev SignalIdType := UInt32
abbrev DataItemIdType := UInt32
abbrev ExtensionIdType := UInt32
abbrev StatusCodeIdType := UInt32

def idUndefined : UInt32 := 0xffffffff

/-- A MAC address of any length. Source: `DlepMac` (`DlepMac.h:25`), which compares and orders by
its bytes. -/
abbrev DlepMac := Bytes

/-- `boost::asio::ip::address_v4`: its bytes in network order. -/
structure AddressV4 where
  bytes : Bytes
  length_eq : bytes.length = 4
  deriving DecidableEq

/-- `boost::asio::ip::address_v6`: its bytes in network order, and the scope id. -/
structure AddressV6 where
  bytes : Bytes
  length_eq : bytes.length = 16
  scopeId : UInt64
  deriving DecidableEq

/-- The first `n` of the bytes, filled up with zeros. -/
def padTo (n : Nat) (bs : Bytes) : Bytes := (bs ++ List.replicate n 0).take n

/-- What is padded to `n` bytes is `n` bytes long. -/
theorem length_padTo (n : Nat) (bs : Bytes) : (padTo n bs).length = n := by
  simp [padTo]

/-- Bytes of the length asked for are neither padded nor cut. -/
theorem padTo_eq_self {n : Nat} {bs : Bytes} (h : bs.length = n) : padTo n bs = bs := by
  rw [padTo, List.take_append_of_le_length h.ge, List.take_of_length_le h.le]

def AddressV4.ofBytes (bs : Bytes) : AddressV4 := ⟨padTo 4 bs, length_padTo 4 bs⟩

/-- An address made from its bytes has scope id 0. -/
def AddressV6.ofBytes (bs : Bytes) : AddressV6 := ⟨padTo 16 bs, length_padTo 16 bs, 0⟩

/-- The four bytes of an IPv4 address give the address back. -/
@[simp] theorem AddressV4.ofBytes_bytes (a : AddressV4) : AddressV4.ofBytes a.bytes = a := by
  cases a with
  | mk bytes h => simp [AddressV4.ofBytes, padTo_eq_self h]

/-- The sixteen bytes of an IPv6 address give the address back; the scope id is not among them. -/
theorem AddressV6.ofBytes_bytes {a : AddressV6} (h : a.scopeId = 0) :
    AddressV6.ofBytes a.bytes = a := by
  cases a with
  | mk bytes hlen scope => simp_all [AddressV6.ofBytes, padTo_eq_self hlen]

/-- The printing of IP addresses, which is `boost::asio`'s own. -/
class AddressText where
  v4ToString : AddressV4 → Bytes
  v6ToString : AddressV6 → Bytes

/-- The two lower-case hex digits of a byte. -/
def hexByte (b : UInt8) : Bytes :=
  let digit (n : Nat) : UInt8 := UInt8.ofNat (Nat.digitChar n).toNat
  [digit (b.toNat / 16), digit (b.toNat % 16)]

/-- Source: `DlepMac::to_string` (`DlepMac.cpp:31`). -/
def macToString (mac : DlepMac) : Bytes :=
  (str ":").intercalate (mac.map hexByte)

/-- A printing of IP addresses: IPv4 with dots, IPv6 without abbreviation. -/
abbrev plainText : AddressText where
  v4ToString a := (str ".").intercalate (a.bytes.map fun b => decimal b.toNat)
  v6ToString a := (str ":").intercalate (a.bytes.map hexByte)

end Dlep
