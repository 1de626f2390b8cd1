import Dlep.Lib.Calls
import Dlep.Serialize
import Dlep.ProtocolConfig

/-!
# The loops of the integer codec

`Serialize` gives the result of each template of `Serialize.h`; here are the templates themselves,
statement by statement: a loop that pushes or stores one byte a round, and a loop that shifts one
byte a round into a register. The results are the same (`serializeLoop_eq`, `deserialize_eq_loop`,
`deserializeField_eq_loop`), so that what the wire modules say of the results they say of the loops.
What a loop leaves in the buffer when it throws shows only here: nothing, where it appends
(`appendField_eq`).
-/

namespace Dlep

open ByteReader
open Calls (get_bind_run set_bind_run throw_bind_run)

/-- The unsigned types the templates are used at. -/
inductive UIntType where
  | u8
  | u16
  | u32
  | u64
  deriving DecidableEq, Repr

/-- `sizeof(T)`. -/
def UIntType.size : UIntType → Nat
  | u8 => 1
  | u16 => 2
  | u32 => 4
  | u64 => 8

/-- A value of the type. -/
abbrev UIntType.Value (T : UIntType) := Fin (256 ^ T.size)

/-- Every unsigned type has a byte. -/
theorem UIntType.size_pos (T : UIntType) : 1 ≤ T.size := by cases T <;> simp [size]

/-- No unsigned type has more than eight bytes, so that its size is a field size. -/
theorem UIntType.size_le (T : UIntType) : T.size ≤ 8 := by cases T <;> simp [size]

/-- `sizeof(T)` as a field size. -/
def UIntType.fieldSize (T : UIntType) : FieldSize := ⟨T.size, T.size_pos, T.size_le⟩

/-! ## Writing -/

/-- A function that changes a buffer. One that throws leaves what it has written so far. -/
abbrev Writer (α : Type) := EStateM Exn Bytes α

def pushBack (b : UInt8) : Writer Unit := modify (· ++ [b])

/-- The loop for `i = fieldSize, …, 1` (`Serialize.h:73`); `it` is the offset of the iterator. -/
def serializeLoop (T : UIntType) (val : Nat) (appendBytes : Bool) : Nat → Nat → Writer Unit
  | 0, _ => pure ()
  | i + 1, it => do
    let onebyte := if i + 1 ≤ T.size then UInt8.ofNat ((val >>> (i * 8)) &&& 0xff) else 0
    if appendBytes then
      pushBack onebyte
      serializeLoop T val appendBytes i it
    else
      let buf ← get
      if it = buf.length then
        throw (.std .lengthError (str "reached end of output buffer"))
      set (buf.set it onebyte)
      serializeLoop T val appendBytes i (it + 1)

/-- Source: `serialize` at a place in the buffer (`Serialize.h:49`). -/
def writeField (T : UIntType) (val fieldSize it : Nat) : Writer Nat := do
  if T.size > fieldSize then
    let mask := ((2 ^ (8 * T.size) - 1) <<< (fieldSize * 8)) % 2 ^ (8 * T.size)
    if val &&& mask ≠ 0 then
      throw (.std .invalidArgument (decimal val ++ str " cannot fit in " ++ decimal fieldSize ++
        str " bytes" ++ str " mask " ++ decimal mask))
  let appendBytes := it = (← get).length
  serializeLoop T val appendBytes fieldSize it
  return fieldSize

/-- Source: `serialize` with a field size, at the end of the buffer (`Serialize.h:107`). -/
def appendField (T : UIntType) (val fieldSize : Nat) : Writer Nat := do
  writeField T val fieldSize (← get).length

/-- The loop for `i = sizeof(T), …, 1` (`Serialize.h:129`). -/
def appendLoop (val : Nat) : Nat → Writer Unit
  | 0 => pure ()
  | i + 1 => do
    pushBack (UInt8.ofNat ((val >>> (i * 8)) &&& 0xff))
    appendLoop val i

/-- Source: `serialize` in the type's own size (`Serialize.h:124`). -/
def append (T : UIntType) (val : Nat) : Writer Nat := do
  appendLoop val T.size
  return T.size

/-- Bytes pushed one after the other are appended. -/
theorem serializeLoop_append (T : UIntType) (val : Nat) (it n : Nat) (buf : Bytes) :
    serializeLoop T val true n it buf = .ok () (buf ++ fieldBytes T.size n val) := by
  induction n generalizing buf with
  | zero => simp [serializeLoop, fieldBytes, pure, EStateM.pure]
  | succ i ih =>
    show serializeLoop T val true i it (buf ++ _) = _
    rw [ih, fieldBytes, List.append_assoc]
    rfl

/-- Bytes stored one after the other replace as many bytes of the buffer. -/
theorem serializeLoop_store (T : UIntType) (val n : Nat) {it : Nat} {buf : Bytes}
    (h : it + n ≤ buf.length) :
    serializeLoop T val false n it buf =
      .ok () (buf.take it ++ fieldBytes T.size n val ++ buf.drop (it + n)) := by
  induction n generalizing it buf with
  | zero => simp [serializeLoop, fieldBytes, pure, EStateM.pure]
  | succ i ih =>
    have hne : it ≠ buf.length := by omega
    have hstep : ∀ b : UInt8, (buf.set it b).take (it + 1) = buf.take it ++ [b] := by
      intro b
      rw [List.take_add_one, List.take_set_of_le le_rfl, List.getElem?_set_self (by omega)]
      rfl
    have hrest : ∀ b : UInt8, (buf.set it b).drop (it + 1 + i) = buf.drop (it + (i + 1)) := by
      intro b
      rw [List.drop_set_of_lt (by omega), Nat.add_right_comm, Nat.add_assoc]
    simp only [serializeLoop, Bool.false_eq_true, if_false, get_bind_run, hne, set_bind_run]
    rw [ih (by simp; omega), hstep, hrest, fieldBytes]
    simp only [List.append_assoc, List.cons_append, List.nil_append]

/-- A field that reaches beyond the buffer is refused after its first bytes are stored. -/
theorem serializeLoop_overrun (T : UIntType) (val n : Nat) {it : Nat} {buf : Bytes}
    (hit : it ≤ buf.length) (h : buf.length < it + n) :
    ∃ buf', serializeLoop T val false n it buf =
      .error (.std .lengthError (str "reached end of output buffer")) buf' := by
  induction n generalizing it buf with
  | zero => omega
  | succ i ih =>
    by_cases hend : it = buf.length
    · refine ⟨buf, ?_⟩
      simp only [serializeLoop, Bool.false_eq_true, if_false, get_bind_run, hend, if_true,
        throw_bind_run]
    · simp only [serializeLoop, Bool.false_eq_true, if_false, get_bind_run, hend, set_bind_run]
      exact ih (by simp; omega) (by simp; omega)

/-- After the check, `writeField` is the loop. -/
theorem loop_run (T : UIntType) (val n it : Nat) (buf : Bytes) :
    (do
      let appendBytes := it = (← get).length
      serializeLoop T val appendBytes n it
      return n : Writer Nat) buf =
      match serializeLoop T val (decide (it = buf.length)) n it buf with
      | .error e buf' => .error e buf'
      | .ok _ buf' => .ok n buf' := by
  rw [get_bind_run, Calls.bind_run]
  cases serializeLoop T val (decide (it = buf.length)) n it buf with
  | error e buf' => rfl
  | ok _ buf' => rfl

/-- `writeField` is the check of the value and then the loop, which appends where the iterator is
at the end. -/
theorem writeField_eq (T : UIntType) (val n it : Nat) (buf : Bytes) :
    writeField T val n it buf =
      match checkFits T.size n val with
      | .error e => .error e buf
      | .ok _ => match serializeLoop T val (decide (it = buf.length)) n it buf with
        | .error e buf' => .error e buf'
        | .ok _ buf' => .ok n buf' := by
  unfold writeField checkFits
  by_cases hsz : n < T.size
  · by_cases hmask : val &&& fieldMask T.size n = 0
    · have hmask' := hmask
      rw [fieldMask] at hmask'
      simp only [gt_iff_lt, hsz, if_true, hmask', hmask, ne_eq, not_true_eq_false, and_false,
        if_false]
      exact loop_run T val n it buf
    · have hmask' := hmask
      rw [fieldMask] at hmask'
      simp only [gt_iff_lt, hsz, if_true, hmask', hmask, ne_eq, not_false_eq_true, and_true]
      rfl
  · simp only [gt_iff_lt, hsz, if_false, false_and]
    exact loop_run T val n it buf

/-- Inside the buffer and at its end, the loop gives what `serializeAt` gives. -/
theorem writeField_ok {T : UIntType} {val n it k : Nat} {buf out : Bytes}
    (hit : it ≤ buf.length) :
    writeField T val n it buf = .ok k out ↔ k = n ∧ serializeAt T.size val n buf it = .ok out := by
  rw [writeField_eq, serializeAt]
  cases hfits : checkFits T.size n val with
  | error e => simp [bind, Except.bind]
  | ok _ =>
    by_cases hend : it = buf.length
    · simp [hend, serializeLoop_append, pure, Except.pure, eq_comm]
    · by_cases hroom : buf.length < it + n
      · obtain ⟨buf', hrun⟩ := serializeLoop_overrun T val n hit hroom
        simp [hend, hroom, hrun, throwStd]
      · simp [hend, hroom, serializeLoop_store T val n (not_lt.1 hroom), pure, Except.pure,
          eq_comm]

/-- Where the loop appends, a value that does not fit is refused before anything is written. -/
theorem appendField_eq (T : UIntType) (val n : Nat) (buf : Bytes) :
    appendField T val n buf =
      match serializeField T.size val n buf with
      | .error e => .error e buf
      | .ok out => .ok n out := by
  show writeField T val n buf.length buf = _
  rw [writeField_eq, serializeField, serializeAt]
  cases hfits : checkFits T.size n val with
  | error e => rfl
  | ok _ =>
    simp only [decide_true, serializeLoop_append, ok_bind, if_true]
    rfl

/-- The loop that appends the low `n` bytes of a value appends what `fieldBytes` says. -/
theorem appendLoop_eq (szT val n : Nat) (hn : n ≤ szT) (buf : Bytes) :
    appendLoop val n buf = .ok () (buf ++ fieldBytes szT n val) := by
  induction n generalizing buf with
  | zero => simp [appendLoop, fieldBytes, pure, EStateM.pure]
  | succ i ih =>
    show appendLoop val i (buf ++ _) = _
    rw [ih (by omega), fieldBytes, if_pos hn, List.append_assoc]
    rfl

/-- The template without a field size appends what `serialize` returns, and returns `sizeof(T)`.
-/
theorem append_eq (T : UIntType) (val : Nat) (buf : Bytes) :
    append T val buf = .ok T.size (serialize T.size val buf) := by
  have hloop := appendLoop_eq T.size val T.size le_rfl buf
  simp only [append, bind, EStateM.bind, hloop, pure, EStateM.pure, serialize]

/-! ## Reading -/

/-- The loop of `deserialize` with a register of `w` bits (`Serialize.h:172`). -/
def deserializeLoop (w : Nat) : Nat → Nat → Decoder Nat
  | 0, value => pure value
  | i + 1, value => do
    let b ← byte endOfInput readPastEnd
    deserializeLoop w i ((value <<< 8) % 2 ^ w ||| b.toNat)

/-- Source: `deserialize` in the type's own size (`Serialize.h:163`), and its overload for one byte
(`Serialize.h:143`). It gives the value and the number of bytes. -/
def readValue : UIntType → Decoder (Nat × Nat)
  | .u8 => do
    let value ← byte endOfInput readPastEnd
    return (value.toNat, 1)
  | T => do
    let value ← deserializeLoop (8 * T.size) T.size 0
    return (value, T.size)

/-- Source: `deserialize` with a field size (`Serialize.h:200`). -/
def readField (T : UIntType) (fieldSize : Nat) : Decoder (Nat × Nat) := do
  let val64 ← deserializeLoop 64 fieldSize 0
  let mask := 2 ^ (8 * T.size) - 1
  if val64 &&& mask ≠ val64 then
    throw (.std .invalidArgument
      (decimal val64 ++ str " cannot fit in " ++ decimal T.size ++ str " bytes"))
  return (val64, fieldSize)

/-- The register after the loop is what the bytes, read first, decode to. -/
theorem deserializeLoop_eq (w n value : Nat) :
    deserializeLoop w n value = (do
      let bs ← bytes endOfInput readPastEnd n
      return bs.foldl (fun acc b => (acc <<< 8) % 2 ^ w ||| b.toNat) value) := by
  induction n generalizing value with
  | zero => rfl
  | succ n ih =>
    funext c
    simp only [deserializeLoop, bytes, ih, bind_assoc, pure_bind, List.foldl_cons]

/-- From a register that is 0, the loop reads `n` bytes and shifts them in. -/
theorem deserializeLoop_zero (w n : Nat) :
    deserializeLoop w n 0 =
      (do return BigEndian.shiftDecode w (← bytes endOfInput readPastEnd n)) :=
  deserializeLoop_eq w n 0

/-- The template that also reports the size reads what `deserializeField` reads. -/
theorem readField_eq (T : UIntType) (n : Nat) :
    readField T n = (do return (← deserializeField T.size n, n)) := by
  simp only [readField, deserializeLoop_zero, deserializeField, bind_assoc, pure_bind]
  refine bind_congr fun bs => ?_
  by_cases hmask : BigEndian.shiftDecode 64 bs &&& (2 ^ (8 * T.size) - 1) =
      BigEndian.shiftDecode 64 bs
  · simp [hmask]
  · simp only [hmask, ne_eq, not_false_eq_true, if_true]
    rfl

/-- The one byte of the overload is what the loop would read. -/
theorem readValue_eq (T : UIntType) :
    readValue T = (do return (← deserialize T.size, T.size)) := by
  have hloop : ∀ k, (do
      let value ← deserializeLoop (8 * k) k 0
      return (value, k) : Decoder (Nat × Nat)) = (do return (← deserialize k, k)) := by
    intro k
    simp only [deserializeLoop_zero, deserialize, bind_assoc, pure_bind]
  cases T with
  | u8 =>
    simp only [readValue, deserialize, UIntType.size, bytes, BigEndian.shiftDecode, bind_assoc,
      pure_bind, List.foldl_cons, List.foldl_nil]
    simp
  | u16 => exact hloop 2
  | u32 => exact hloop 4
  | u64 => exact hloop 8

/-! ## The codec -/

/-- Reading a field of a range: the range is too short, or the value too large for the type, or the
value is read and the iterator stands behind the field. -/
theorem readField_range (T : UIntType) {n : Nat} (hn : n ≤ 8) (pos : Nat) (bs behind : Bytes) :
    readField T n (.range pos bs behind) =
      if bs.length < n then .error endOfInput
      else if BigEndian.decode (bs.take n) < 256 ^ T.size then
        .ok ((BigEndian.decode (bs.take n), n), .range (pos + n) (bs.drop n) behind)
      else .error (.std .invalidArgument (decimal (BigEndian.decode (bs.take n)) ++
        str " cannot fit in " ++ decimal T.size ++ str " bytes")) := by
  rw [readField_eq, bind_run, deserializeField_range T.size hn]
  split
  · rfl
  · split
    · rfl
    · rfl

/-- A value that fills the register is read through either overload. -/
theorem readValue_eq_readField (T : UIntType) : readValue T = readField T T.size := by
  rw [readValue_eq, readField_eq]
  congr 1
  funext c
  rw [deserialize, deserializeField, bind_run, bind_run]
  cases hbs : bytes endOfInput readPastEnd T.size c with
  | error e => rfl
  | ok p =>
    have hlen : p.1.length = T.size := length_of_bytes hbs
    have hlt : BigEndian.decode p.1 < 256 ^ T.size := hlen ▸ BigEndian.decode_lt p.1
    have hsize := T.size_le
    have hT : BigEndian.shiftDecode (8 * T.size) p.1 = BigEndian.decode p.1 :=
      BigEndian.shiftDecode_eq_decode (by omega)
    have h64 : BigEndian.shiftDecode 64 p.1 = BigEndian.decode p.1 :=
      BigEndian.shiftDecode_eq_decode (by omega)
    simp only [Except.bind, hT, h64, and_typeMask.2 hlt, ne_eq, not_true_eq_false, if_false]

/-- The template without a field size is the one with the size of the type. -/
theorem append_eq_appendField (T : UIntType) {val : Nat} (hval : val < 256 ^ T.size) :
    append T val = appendField T val T.size := by
  funext buf
  have hfield : serializeField T.size val T.size buf = .ok (serialize T.size val buf) := by
    rw [serializeField_ok hval, serialize, fieldBytes_eq_encode hval]
    exact ⟨hval, rfl⟩
  rw [append_eq, appendField_eq, hfield]

/-- What `appendField` does at any type, size and value: it appends the digits of a value that
fits, and throws before it has written anything otherwise. -/
theorem appendField_exact (T : UIntType) (n : FieldSize) (val : T.Value) (buf : Bytes) :
    appendField T val n buf =
      if (val : Nat) < 256 ^ (n : Nat) then .ok n (buf ++ BigEndian.encode n val)
      else .error (.std .invalidArgument (decimal val ++ str " cannot fit in " ++ decimal n ++
        str " bytes" ++ str " mask " ++ decimal (fieldMask T.size n))) buf := by
  rw [appendField_eq]
  by_cases hfits : (val : Nat) < 256 ^ (n : Nat)
  · rw [if_pos hfits, (serializeField_ok val.isLt).2 ⟨hfits, rfl⟩]
  · rw [if_neg hfits, serializeField, serializeAt, checkFits_error val.isLt hfits]
    rfl

/-- `serialize` refuses a value exactly when it is too large for the field, and then the buffer is
as it was; otherwise it appends the big-endian numeral. `deserialize` refuses a range exactly when
it is too short or its numeral too large for the type; otherwise it returns the numeral and stands
behind it, so that it reads back what `serialize` wrote. Without a field size, both do what they do
at `sizeof(T)`. -/
theorem field_codec_exact (T : UIntType) (n : FieldSize) (val : T.Value) (buf : Bytes) (pos : Nat)
    (s behind : Bytes) :
    appendField T val n buf =
      (if (val : Nat) < 256 ^ (n : Nat) then .ok n (buf ++ BigEndian.encode n val)
      else .error (.std .invalidArgument (decimal val ++ str " cannot fit in " ++ decimal n ++
        str " bytes" ++ str " mask " ++ decimal (fieldMask T.size n))) buf) ∧
    readField T n (.range pos s behind) =
      (if s.length < n then .error endOfInput
      else if BigEndian.decode (s.take n) < 256 ^ T.size then
        .ok ((BigEndian.decode (s.take n), n), .range (pos + n) (s.drop n) behind)
      else .error (.std .invalidArgument (decimal (BigEndian.decode (s.take n)) ++
        str " cannot fit in " ++ decimal T.size ++ str " bytes"))) ∧
    (∀ written, appendField T val n [] = .ok n written →
      readField T n (.range pos (written ++ s) behind) =
        .ok ((val, n), .range (pos + n) s behind)) ∧
    append T val = appendField T val T.size ∧
    readValue T = readField T T.size := by
  refine ⟨appendField_exact T n val buf, readField_range T n.2.2 pos s behind, ?_,
    append_eq_appendField T val.isLt, readValue_eq_readField T⟩
  intro written hwritten
  rw [appendField_exact] at hwritten
  by_cases hfits : (val : Nat) < 256 ^ (n : Nat)
  · rw [if_pos hfits, List.nil_append, EStateM.Result.ok.injEq] at hwritten
    have hlen : ¬ (BigEndian.encode n val ++ s).length < n := by simp
    have htake : (BigEndian.encode n val ++ s).take n = BigEndian.encode n val := by simp
    have hdrop : (BigEndian.encode n val ++ s).drop n = s := by simp
    rw [← hwritten.2, readField_range T n.2.2, if_neg hlen, htake, hdrop,
      BigEndian.decode_encode hfits, if_pos val.isLt]
  · simp [hfits] at hwritten

end Dlep
