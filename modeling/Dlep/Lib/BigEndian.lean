import Mathlib.Data.Nat.Bitwise
import Mathlib.Tactic

/-!
# Big-endian numerals

A natural number as a fixed number of bytes, most significant byte first, and back. `encode n v` is
the low `n` bytes of `v`; `decode` reads a byte list as a base-256 numeral. On `n` bytes the two are
inverse to each other (`decode_encode`, `encode_decode`). `shiftDecode` is the accumulator loop by
which C code reads such a numeral into a register of `w` bits; below `2 ^ w` it is `decode`
(`shiftDecode_eq_decode`).
-/

namespace BigEndian

/-- The low `n` bytes of `v`, most significant first. -/
def encode : Nat → Nat → List UInt8
  | 0, _ => []
  | n + 1, v => UInt8.ofNat (v / 256 ^ n) :: encode n v

/-- The value of a byte list read as a base-256 numeral. -/
def decode (bs : List UInt8) : Nat :=
  bs.foldl (fun acc b => acc * 256 + b.toNat) 0

/-- `encode n v` is `n` bytes long, whatever `v` is. -/
@[simp] theorem length_encode (n v : Nat) : (encode n v).length = n := by
  induction n with
  | zero => rfl
  | succ n ih => simp [encode, ih]

/-- No digits denote 0. -/
@[simp] theorem decode_nil : decode [] = 0 := rfl

/-- A numeral read from an accumulator that already holds digits. -/
theorem foldl_eq (bs : List UInt8) (acc : Nat) :
    bs.foldl (fun acc b => acc * 256 + b.toNat) acc = acc * 256 ^ bs.length + decode bs := by
  induction bs generalizing acc with
  | nil => simp
  | cons b bs ih =>
    simp only [decode, List.foldl_cons, List.length_cons] at *
    rw [ih, ih (0 * 256 + b.toNat)]
    ring

/-- The first digit counts as many times as the rest has values. -/
theorem decode_cons (b : UInt8) (bs : List UInt8) :
    decode (b :: bs) = b.toNat * 256 ^ bs.length + decode bs := by
  rw [decode, List.foldl_cons, foldl_eq]
  simp

/-- A number is below 256 to the number of its digits. -/
theorem decode_lt (bs : List UInt8) : decode bs < 256 ^ bs.length := by
  induction bs with
  | nil => simp
  | cons b bs ih =>
    have hb : b.toNat < 256 := b.toNat_lt
    have hmul : (b.toNat + 1) * 256 ^ bs.length ≤ 256 * 256 ^ bs.length :=
      Nat.mul_le_mul_right _ hb
    rw [decode_cons, List.length_cons, pow_succ]
    nlinarith [hmul, ih]

/-- A number of at most `n` digits is below `256 ^ n`. -/
theorem decode_lt_of_length_le {bs : List UInt8} {n : Nat} (h : bs.length ≤ n) :
    decode bs < 256 ^ n :=
  (decode_lt bs).trans_le (Nat.pow_le_pow_right (by norm_num) h)

/-- Reading back the low `n` bytes gives the number modulo `256 ^ n`. -/
theorem decode_encode_mod (n v : Nat) : decode (encode n v) = v % 256 ^ n := by
  induction n with
  | zero => simp [encode, Nat.mod_one]
  | succ n ih =>
    have hsplit : v % 256 ^ (n + 1) = v % 256 ^ n + 256 ^ n * (v / 256 ^ n % 256) := by
      rw [pow_succ, Nat.mod_mul]
    rw [encode, decode_cons, ih, length_encode, hsplit, UInt8.toNat_ofNat']
    ring

/-- A number that `n` digits can hold is decoded from them. -/
theorem decode_encode {n v : Nat} (h : v < 256 ^ n) : decode (encode n v) = v := by
  rw [decode_encode_mod, Nat.mod_eq_of_lt h]

/-- The bytes above the low `n` do not show in the low `n`. -/
theorem encode_add_mul (n a v : Nat) : encode n (a * 256 ^ n + v) = encode n v := by
  induction n generalizing a with
  | zero => rfl
  | succ n ih =>
    have hpos : 0 < 256 ^ n := Nat.pos_of_ne_zero (by positivity)
    have hdiv : (a * 256 ^ (n + 1) + v) / 256 ^ n = a * 256 + v / 256 ^ n := by
      rw [show a * 256 ^ (n + 1) + v = v + 256 ^ n * (a * 256) by ring,
        Nat.add_mul_div_left _ _ hpos]
      ring
    have htail : encode n (a * 256 ^ (n + 1) + v) = encode n v := by
      rw [show a * 256 ^ (n + 1) + v = (a * 256) * 256 ^ n + v by ring, ih]
    rw [encode, encode, htail, hdiv]
    congr 1
    apply UInt8.toNat_inj.1
    rw [UInt8.toNat_ofNat', UInt8.toNat_ofNat']
    omega

/-- Digits are encoded again as they were. -/
theorem encode_decode (bs : List UInt8) : encode bs.length (decode bs) = bs := by
  induction bs with
  | nil => rfl
  | cons b bs ih =>
    have hlt := decode_lt bs
    have hpos : 0 < 256 ^ bs.length := by omega
    have hhead : (b.toNat * 256 ^ bs.length + decode bs) / 256 ^ bs.length = b.toNat := by
      rw [Nat.add_comm, Nat.add_mul_div_right _ _ hpos, Nat.div_eq_of_lt hlt, Nat.zero_add]
    rw [List.length_cons, encode, decode_cons, hhead, encode_add_mul, ih, UInt8.ofNat_toNat]

/-! ## The accumulator loop -/

/-- A register of `w` bits that is shifted left by one byte and or-ed with the next byte. -/
def shiftDecode (w : Nat) (bs : List UInt8) : Nat :=
  bs.foldl (fun acc b => (acc <<< 8) % 2 ^ w ||| b.toNat) 0

/-- One round of the loop appends a digit while the register has room. -/
theorem shift_or_byte {w acc : Nat} (b : UInt8) (h : acc * 256 < 2 ^ w) :
    (acc <<< 8) % 2 ^ w ||| b.toNat = acc * 256 + b.toNat := by
  have hb : b.toNat < 2 ^ 8 := b.toNat_lt
  have hshift : acc <<< 8 = acc * 256 := by rw [Nat.shiftLeft_eq]
  rw [Nat.mod_eq_of_lt (by rw [hshift]; exact h), ← Nat.shiftLeft_add_eq_or_of_lt hb, hshift]

/-- Shifting bytes into a register of `w` bits computes their value, as long as the register does
not overflow. -/
theorem shift_foldl {w : Nat} (bs : List UInt8) (acc : Nat)
    (h : (acc + 1) * 256 ^ bs.length ≤ 2 ^ w) :
    bs.foldl (fun acc b => (acc <<< 8) % 2 ^ w ||| b.toNat) acc =
      bs.foldl (fun acc b => acc * 256 + b.toNat) acc := by
  induction bs generalizing acc with
  | nil => rfl
  | cons b bs ih =>
    have hb : b.toNat < 256 := b.toNat_lt
    have hp : 1 ≤ 256 ^ bs.length := Nat.one_le_pow _ _ (by norm_num)
    rw [List.length_cons, pow_succ] at h
    rw [List.foldl_cons, List.foldl_cons, shift_or_byte b (by nlinarith)]
    exact ih _ (by nlinarith [Nat.mul_le_mul_right (256 ^ bs.length) (Nat.le_of_lt_succ hb)])

/-- A numeral that fits the register is read exactly. -/
theorem shiftDecode_eq_decode {w : Nat} {bs : List UInt8} (h : 8 * bs.length ≤ w) :
    shiftDecode w bs = decode bs := by
  apply shift_foldl
  calc (0 + 1) * 256 ^ bs.length = 2 ^ (8 * bs.length) := by rw [pow_mul]; norm_num
    _ ≤ 2 ^ w := Nat.pow_le_pow_right (by norm_num) h

end BigEndian
