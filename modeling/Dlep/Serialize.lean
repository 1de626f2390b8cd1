import Dlep.Basic
import Dlep.Lib.BigEndian
import Dlep.Lib.ByteReader

/-!
# Integer fields on the wire

`Serialize.h`: unsigned integers of 1, 2, 4 or 8 bytes are written to fields of 1 to 8 bytes, in
network byte order. An integer type is given by its size `szT`, its values are the naturals below
`256 ^ szT`. Writing is `BigEndian.encode` (`fieldBytes_eq_encode`), and reading a written field
gives the value back (`reads_deserializeField`, `reads_deserialize`).
-/

namespace Dlep

open ByteReader

/-- A reader of the library: it throws the library's exceptions. -/
abbrev Decoder (α : Type) := Reader Exn α

/-! ## Writing -/

/-- The bytes the loop of `serialize` writes for `i = fieldSize, …, 1` (`Serialize.h:73`). -/
def fieldBytes (szT : Nat) : Nat → Nat → Bytes
  | 0, _ => []
  | i + 1, val =>
    (if i + 1 ≤ szT then UInt8.ofNat ((val >>> (i * 8)) &&& 0xff) else 0) :: fieldBytes szT i val

/-- The bits of a `T` that a field of `fieldSize` bytes does not hold (`Serialize.h:61`). -/
def fieldMask (szT fieldSize : Nat) : Nat :=
  ((2 ^ (8 * szT) - 1) <<< (fieldSize * 8)) % 2 ^ (8 * szT)

/-- Verify that `val` fits in `fieldSize` bytes (`Serialize.h:57`). -/
def checkFits (szT fieldSize val : Nat) : Except Exn Unit :=
  if fieldSize < szT ∧ val &&& fieldMask szT fieldSize ≠ 0 then
    throwStd .invalidArgument (decimal val ++ str " cannot fit in " ++ decimal fieldSize ++
      str " bytes" ++ str " mask " ++ decimal (fieldMask szT fieldSize))
  else .ok ()

/-- Serialize a value into a field at offset `it` of `buf`, or at its end. Source: `serialize`
(`Serialize.h:49`). -/
def serializeAt (szT val fieldSize : Nat) (buf : Bytes) (it : Nat) : Except Exn Bytes := do
  checkFits szT fieldSize val
  if it = buf.length then
    return buf ++ fieldBytes szT fieldSize val
  else if buf.length < it + fieldSize then
    throwStd .lengthError (str "reached end of output buffer")
  else
    return buf.take it ++ fieldBytes szT fieldSize val ++ buf.drop (it + fieldSize)

/-- Serialize a value into a field appended to `buf`. Source: `serialize` (`Serialize.h:107`). -/
def serializeField (szT val fieldSize : Nat) (buf : Bytes) : Except Exn Bytes :=
  serializeAt szT val fieldSize buf buf.length

/-- Serialize a value in its own size, appended to `buf`. Source: `serialize` (`Serialize.h:124`).
-/
def serialize (szT val : Nat) (buf : Bytes) : Bytes :=
  buf ++ fieldBytes szT szT val

/-- A field has as many bytes as its size says, also where the type is narrower. -/
@[simp] theorem length_fieldBytes (szT n val : Nat) : (fieldBytes szT n val).length = n := by
  induction n with
  | zero => rfl
  | succ n ih => simp [fieldBytes, ih]

/-- The loop writes the big-endian numeral: the bytes above the type's own are zero. -/
theorem fieldBytes_eq_encode {szT val : Nat} (h : val < 256 ^ szT) (n : Nat) :
    fieldBytes szT n val = BigEndian.encode n val := by
  induction n with
  | zero => rfl
  | succ i ih =>
    have hbyte : (if i + 1 ≤ szT then UInt8.ofNat ((val >>> (i * 8)) &&& 0xff) else 0) =
        UInt8.ofNat (val / 256 ^ i) := by
      have hpow : 2 ^ (i * 8) = 256 ^ i := by rw [mul_comm, pow_mul]; norm_num
      split
      · apply UInt8.toNat_inj.1
        rw [UInt8.toNat_ofNat', UInt8.toNat_ofNat', Nat.shiftRight_eq_div_pow, hpow,
          show (0xff : Nat) = 2 ^ 8 - 1 from rfl, Nat.and_two_pow_sub_one_eq_mod]
        simp
      · next hi =>
        have hlt : val < 256 ^ i :=
          lt_of_lt_of_le h (Nat.pow_le_pow_right (by norm_num) (by omega))
        rw [Nat.div_eq_of_lt hlt]
        rfl
    rw [fieldBytes, BigEndian.encode, hbyte, ih]

/-- A value has no bit outside the field exactly when it is below `256 ^ fieldSize`. -/
theorem and_fieldMask_eq_zero {szT fieldSize val : Nat} (hval : val < 256 ^ szT) :
    val &&& fieldMask szT fieldSize = 0 ↔ val < 256 ^ fieldSize := by
  have h8 : ∀ k, 256 ^ k = 2 ^ (8 * k) := fun k => by rw [pow_mul]; norm_num
  rw [h8] at hval ⊢
  rw [mul_comm 8 fieldSize]
  have hbit : ∀ i, (fieldMask szT fieldSize).testBit i =
      (decide (i < 8 * szT) && decide (fieldSize * 8 ≤ i)) := by
    intro i
    simp only [fieldMask, Nat.testBit_mod_two_pow, Nat.testBit_shiftLeft,
      Nat.testBit_two_pow_sub_one]
    by_cases h1 : i < 8 * szT <;> by_cases h2 : fieldSize * 8 ≤ i <;> simp [h1, h2]
    omega
  constructor
  · intro h
    apply Nat.lt_pow_two_of_testBit
    intro i hi
    by_contra hset
    have hset : val.testBit i = true := by simpa using hset
    have hi8 : i < 8 * szT := by
      by_contra hge
      have := Nat.testBit_lt_two_pow (lt_of_lt_of_le hval
        (Nat.pow_le_pow_right (by norm_num) (not_lt.1 hge)))
      simp [this] at hset
    have : (val &&& fieldMask szT fieldSize).testBit i = true := by
      simp [hset, hbit, hi8, hi]
    simp [h] at this
  · intro h
    apply Nat.eq_of_testBit_eq
    intro i
    by_cases hi : fieldSize * 8 ≤ i
    · have := Nat.testBit_lt_two_pow (lt_of_lt_of_le h
        (Nat.pow_le_pow_right (by norm_num : 0 < 2) hi))
      simp [this]
    · simp [hbit, hi]

/-- The check before a field is written passes exactly when the value is below `256 ^ fieldSize`.
-/
theorem checkFits_ok {szT fieldSize val : Nat} {u : Unit} (hval : val < 256 ^ szT) :
    checkFits szT fieldSize val = .ok u ↔ val < 256 ^ fieldSize := by
  unfold checkFits
  by_cases hsz : fieldSize < szT
  · by_cases hm : val &&& fieldMask szT fieldSize = 0
    · simp [hm, (and_fieldMask_eq_zero hval).1 hm]
    · simp only [hsz, ne_eq, hm, not_false_eq_true, and_self, if_true, throwStd, reduceCtorEq,
        false_iff]
      exact fun h => hm ((and_fieldMask_eq_zero hval).2 h)
  · have hlt : val < 256 ^ fieldSize :=
      lt_of_lt_of_le hval (Nat.pow_le_pow_right (by norm_num) (not_lt.1 hsz))
    simp [hsz, hlt]

/-- A value too large for its field is refused with `std::invalid_argument`, whose text names the
value, the size and the mask. -/
theorem checkFits_error {szT fieldSize val : Nat} (hval : val < 256 ^ szT)
    (h : ¬ val < 256 ^ fieldSize) :
    checkFits szT fieldSize val = throwStd .invalidArgument (decimal val ++ str " cannot fit in " ++
      decimal fieldSize ++ str " bytes" ++ str " mask " ++ decimal (fieldMask szT fieldSize)) := by
  have hne : val &&& fieldMask szT fieldSize ≠ 0 := fun h0 => h ((and_fieldMask_eq_zero hval).1 h0)
  have hsz : fieldSize < szT := by
    by_contra hle
    exact h (lt_of_lt_of_le hval (Nat.pow_le_pow_right (by norm_num) (not_lt.1 hle)))
  rw [checkFits, if_pos ⟨hsz, hne⟩]

/-- A field is written exactly when its value fits, and then as the big-endian digits of the
value. -/
theorem serializeField_ok {szT val fieldSize : Nat} {buf out : Bytes} (hval : val < 256 ^ szT) :
    serializeField szT val fieldSize buf = .ok out ↔
      val < 256 ^ fieldSize ∧ out = buf ++ BigEndian.encode fieldSize val := by
  simp only [serializeField, serializeAt, if_pos, bind_eq_ok, checkFits_ok hval,
    fieldBytes_eq_encode hval, pure, Except.pure, Except.ok.injEq]
  exact ⟨fun ⟨_, h1, h2⟩ => ⟨h1, h2.symm⟩, fun ⟨h1, h2⟩ => ⟨(), h1, h2.symm⟩⟩

/-! ## Reading -/

def endOfInput : Exn := .std .lengthError (str "reached end of input buffer")

/-- A read at an address behind the end of the buffer. -/
def readPastEnd : Exn := .undefined "read past the end of the buffer"

/-- Deserialize a value of its own size. Source: `deserialize` (`Serialize.h:163`), and its
overload for one byte (`Serialize.h:143`). -/
def deserialize (szT : Nat) : Decoder Nat := do
  let bs ← bytes endOfInput readPastEnd szT
  return BigEndian.shiftDecode (8 * szT) bs

/-- Deserialize a value from a field of `fieldSize` bytes. Source: `deserialize`
(`Serialize.h:200`). -/
def deserializeField (szT fieldSize : Nat) : Decoder Nat := do
  let bs ← bytes endOfInput readPastEnd fieldSize
  let val64 := BigEndian.shiftDecode 64 bs
  if val64 &&& (2 ^ (8 * szT) - 1) ≠ val64 then
    throw (.std .invalidArgument
      (decimal val64 ++ str " cannot fit in " ++ decimal szT ++ str " bytes"))
  else
    return val64

/-- An integer of `szT` bytes is read back from its digits. -/
theorem reads_deserialize (szT : Nat) {val : Nat} (h : val < 256 ^ szT) :
    Reads (deserialize szT) (BigEndian.encode szT val) val := by
  have hb := reads_bytes endOfInput readPastEnd (BigEndian.encode szT val)
  rw [BigEndian.length_encode] at hb
  have hd : BigEndian.shiftDecode (8 * szT) (BigEndian.encode szT val) = val := by
    rw [BigEndian.shiftDecode_eq_decode (by simp), BigEndian.decode_encode h]
  have := hb.bind (f := fun bs => pure (BigEndian.shiftDecode (8 * szT) bs)) (reads_pure _)
  rw [hd, List.append_nil] at this
  exact this

/-- A field is read back from its digits, if the value fits the field and the type. -/
theorem reads_deserializeField (szT : Nat) {fieldSize val : Nat} (hsz : fieldSize ≤ 8)
    (hT : val < 256 ^ szT) (hf : val < 256 ^ fieldSize) :
    Reads (deserializeField szT fieldSize) (BigEndian.encode fieldSize val) val := by
  have hb := reads_bytes endOfInput readPastEnd (BigEndian.encode fieldSize val)
  rw [BigEndian.length_encode] at hb
  have hd : BigEndian.shiftDecode 64 (BigEndian.encode fieldSize val) = val := by
    rw [BigEndian.shiftDecode_eq_decode (by simp; omega), BigEndian.decode_encode hf]
  have hmask : val &&& (2 ^ (8 * szT) - 1) = val := by
    rw [Nat.and_two_pow_sub_one_eq_mod, Nat.mod_eq_of_lt]
    rwa [pow_mul]
  intro pos s l hl
  have h := hb pos s l hl
  simp only [deserializeField, bind_run, h, Except.bind, hd, hmask, ne_eq, not_true_eq_false,
    if_false, pure_run]

/-- Masking with all bits of a type leaves exactly the values of that type as they are. -/
theorem and_typeMask {szT v : Nat} : v &&& (2 ^ (8 * szT) - 1) = v ↔ v < 256 ^ szT := by
  have h8 : 256 ^ szT = 2 ^ (8 * szT) := by rw [pow_mul]; norm_num
  rw [Nat.and_two_pow_sub_one_eq_mod, h8]
  constructor
  · intro h
    rw [← h]
    exact Nat.mod_lt _ (by positivity)
  · exact Nat.mod_eq_of_lt

/-- Reading a field of a range: the range is too short, or the value too large for the type, or the
value is read and the iterator stands behind the field. -/
theorem deserializeField_range (szT : Nat) {n : Nat} (hn : n ≤ 8) (pos : Nat) (bs behind : Bytes) :
    deserializeField szT n (.range pos bs behind) =
      if bs.length < n then .error endOfInput
      else if BigEndian.decode (bs.take n) < 256 ^ szT then
        .ok (BigEndian.decode (bs.take n), .range (pos + n) (bs.drop n) behind)
      else .error (.std .invalidArgument (decimal (BigEndian.decode (bs.take n)) ++
        str " cannot fit in " ++ decimal szT ++ str " bytes")) := by
  rw [deserializeField, bind_run, bytes_range]
  by_cases hshort : bs.length < n
  · simp [hshort, Except.bind]
  · have hval : BigEndian.shiftDecode 64 (bs.take n) = BigEndian.decode (bs.take n) :=
      BigEndian.shiftDecode_eq_decode (by simp; omega)
    simp only [hshort, if_false, Except.bind, hval]
    by_cases hfits : BigEndian.decode (bs.take n) < 256 ^ szT
    · simp only [and_typeMask.2 hfits, hfits, ne_eq, not_true_eq_false, if_true, if_false, pure_run]
    · have hmask := mt and_typeMask.1 hfits
      rw [if_pos hmask, if_neg hfits, throw_run]

/-- The text of an exception in reading a field is not empty. -/
theorem deserializeField_what_ne_nil {szT fieldSize : Nat} {c : Cursor} {cls : StdException}
    {what : Bytes} (h : deserializeField szT fieldSize c = .error (.std cls what)) :
    what ≠ [] := by
  have htext : str "reached end of input buffer" ≠ [] := str_ne_nil (by simp)
  rw [deserializeField, bind_run] at h
  cases hb : bytes endOfInput readPastEnd fieldSize c with
  | error e =>
    simp only [hb, Except.bind, Except.error.injEq] at h
    rcases bytes_error hb with rfl | rfl
    · obtain ⟨_, rfl⟩ := Exn.std.inj h
      exact htext
    · cases h
  | ok p =>
    simp only [hb, Except.bind] at h
    split at h
    · obtain ⟨_, rfl⟩ := Exn.std.inj (Except.error.inj h)
      simp [decimal_ne_nil]
    · cases h

end Dlep
