import Mathlib.Data.List.TakeWhile
import Mathlib.Tactic

/-!
# Reading from a string stream

A `std::istringstream` is the characters that are left, two flags and the base of its numbers. Its
operations are those of the C++ library, in the classic locale: a formatted extraction skips white
space first, stops behind what it extracts, and sets `eofbit` where it had to look behind the last
character; an operation on a stream that is not good extracts nothing and sets `failbit`.

A printed text is read back where the extraction stops, and that depends on what follows: the
lemmas say so for a stream `ready` at a text and leave it `behind` the text.
-/

namespace StringStream

/-- A stream: the characters that are left, the flags, and whether its numbers are hexadecimal. -/
structure Stream where
  rest : List UInt8
  eof : Bool := false
  fail : Bool := false
  hex : Bool := false
  deriving DecidableEq

/-- A parser: it moves the stream or throws. -/
abbrev Parser (ε α : Type) := StateT Stream (Except ε) α

variable {ε α β : Type}

/-- `std::isspace`. -/
def isSpace (c : UInt8) : Bool := c = 32 || (9 ≤ c && c ≤ 13)

/-- The value of a digit. -/
def digit? (hex : Bool) (c : UInt8) : Option Nat :=
  if 48 ≤ c ∧ c ≤ 57 then some (c.toNat - 48)
  else if hex ∧ 97 ≤ c ∧ c ≤ 102 then some (c.toNat - 87)
  else if hex ∧ 65 ≤ c ∧ c ≤ 70 then some (c.toNat - 55)
  else none

def isDigit (hex : Bool) (c : UInt8) : Bool := (digit? hex c).isSome

/-- The number that digits denote. -/
def ofDigits (hex : Bool) (ds : List UInt8) : Nat :=
  ds.foldl (fun n c => n * (if hex then 16 else 10) + (digit? hex c).getD 0) 0

/-! ## The operations -/

/-- `ss.fail()`. -/
def fail : Parser ε Bool := fun ss => .ok (ss.fail, ss)

/-- `ss.eof()`. -/
def eof : Parser ε Bool := fun ss => .ok (ss.eof, ss)

/-- `ss.clear()`. -/
def clear : Parser ε Unit := fun ss => .ok ((), { ss with eof := false, fail := false })

/-- `ss >> std::hex` and `ss >> std::dec`. -/
def setHex (hex : Bool) : Parser ε Unit := fun ss => .ok ((), { ss with hex })

/-- `ss.peek()`; `none` is `traits::eof()`. -/
def peek : Parser ε (Option UInt8) := fun ss =>
  if ss.eof || ss.fail then .ok (none, { ss with fail := true })
  else match ss.rest with
    | [] => .ok (none, { ss with eof := true })
    | c :: _ => .ok (some c, ss)

/-- `ss.get()`. -/
def get : Parser ε (Option UInt8) := fun ss =>
  if ss.eof || ss.fail then .ok (none, { ss with fail := true })
  else match ss.rest with
    | [] => .ok (none, { ss with eof := true, fail := true })
    | c :: rest => .ok (some c, { ss with rest })

/-- `ss.ignore()`. -/
def ignore : Parser ε Unit := fun ss =>
  if ss.eof || ss.fail then .ok ((), { ss with fail := true })
  else match ss.rest with
    | [] => .ok ((), { ss with eof := true })
    | _ :: rest => .ok ((), { ss with rest })

/-- What a formatted extraction does first; it goes on if there is a character left. -/
def sentry : Parser ε Bool := fun ss =>
  if ss.eof || ss.fail then .ok (false, { ss with fail := true })
  else match ss.rest.dropWhile isSpace with
    | [] => .ok (false, { ss with rest := [], eof := true, fail := true })
    | c :: rest => .ok (true, { ss with rest := c :: rest })

/-- `ss >> s` for a string that is empty. -/
def word : Parser ε (List UInt8) := do
  if ← sentry then
    fun ss =>
      let rest := ss.rest.dropWhile fun c => !isSpace c
      .ok (ss.rest.takeWhile fun c => !isSpace c, { ss with rest, eof := rest.isEmpty })
  else return []

/-- The sign of a number, and what follows it. -/
def splitSign : List UInt8 → Bool × List UInt8
  | 43 :: rest => (false, rest)
  | 45 :: rest => (true, rest)
  | rest => (false, rest)

/-- A hexadecimal number may begin with `0x`. -/
def dropPrefix (hex : Bool) : List UInt8 → List UInt8
  | 48 :: c :: rest => if hex ∧ (c = 120 ∨ c = 88) then rest else 48 :: c :: rest
  | rest => rest

/-- `ss >> u64`: a sign and digits. It is 0 if there is no digit and the largest number if there
are too many, and `failbit` is set. -/
def number : Parser ε Nat := do
  if ← sentry then
    fun ss =>
      let (minus, unsigned) := splitSign ss.rest
      let digits := dropPrefix ss.hex unsigned
      let ds := digits.takeWhile (isDigit ss.hex)
      let rest := digits.dropWhile (isDigit ss.hex)
      let n := ofDigits ss.hex ds
      let ss' := { ss with rest, eof := rest.isEmpty }
      if ds = [] then .ok (0, { ss' with fail := true })
      else if 2 ^ 64 ≤ n then .ok (2 ^ 64 - 1, { ss' with fail := true })
      else .ok (if minus then (2 ^ 64 - n) % 2 ^ 64 else n, ss')
  else return 0

/-- `std::getline(ss, s, delim)` for a string that is empty. -/
def getline (delim : UInt8) : Parser ε (List UInt8) := fun ss =>
  if ss.eof || ss.fail then .ok ([], { ss with fail := true })
  else match ss.rest.dropWhile (· ≠ delim) with
    | [] => .ok (ss.rest, { ss with rest := [], eof := true, fail := ss.rest.isEmpty })
    | _ :: rest => .ok (ss.rest.takeWhile (· ≠ delim), { ss with rest })

/-- `while (ss && isspace(ss.peek())) ss.ignore();`, at most `n` times. -/
def skipWhitespaceUpTo (fuel : ε) : Nat → Parser ε Unit
  | 0 => throw fuel
  | n + 1 => do
    if ← fail then return
    else if ((← peek).map isSpace).getD false then
      ignore
      skipWhitespaceUpTo fuel n
    else return

/-- Every round takes a character. -/
def skipWhitespace (fuel : ε) : Parser ε Unit := fun ss =>
  skipWhitespaceUpTo fuel (ss.rest.length + 1) ss

/-! ## Running a parser -/

/-- Two parsers in sequence: the second starts where the first stopped. -/
theorem bind_run (p : Parser ε α) (f : α → Parser ε β) (ss : Stream) :
    (p >>= f) ss = (p ss).bind fun r => f r.1 r.2 := rfl

/-- A sequence goes on with the result of its first part. -/
theorem bind_of_ok {p : Parser ε α} {f : α → Parser ε β} {ss ss' : Stream} {a : α}
    (h : p ss = .ok (a, ss')) : (p >>= f) ss = f a ss' := by
  rw [bind_run, h]
  rfl

/-- A parser that returns at once leaves the stream as it is. -/
@[simp] theorem pure_run (a : α) (ss : Stream) : (pure a : Parser ε α) ss = .ok (a, ss) := rfl

/-! ## Reading what was printed -/

/-- A stream before its first operation, or behind a character it did not have to look behind. -/
def ready (rest : List UInt8) (hex : Bool) : Stream := { rest, hex }

/-- A stream behind a token: it has looked at what follows. -/
def behind (rest : List UInt8) (hex : Bool) : Stream := { rest, eof := rest.isEmpty, hex }

variable {rest ws : List UInt8} {c : UInt8} {hex : Bool}

/-- With a character left, a stream behind a token is as ready as before it. -/
@[simp] theorem behind_cons : behind (c :: rest) hex = ready (c :: rest) hex := rfl

/-- With some text left, a stream behind a token is as ready as before it. -/
theorem behind_of_ne (h : rest ≠ []) : behind rest hex = ready rest hex := by
  cases rest with
  | nil => exact absurd rfl h
  | cons c rest => rfl

/-- A stream that is ready has not failed. -/
@[simp] theorem fail_ready :
    (fail : Parser ε Bool) (ready rest hex) = .ok (false, ready rest hex) := rfl

/-- A stream behind a token has not failed. -/
@[simp] theorem fail_behind :
    (fail : Parser ε Bool) (behind rest hex) = .ok (false, behind rest hex) := rfl

/-- `peek` returns the next character and leaves it. -/
@[simp] theorem peek_cons :
    (peek : Parser ε (Option UInt8)) (ready (c :: rest) hex) =
      .ok (some c, ready (c :: rest) hex) := rfl

/-- `get` returns the next character and takes it. -/
@[simp] theorem get_cons :
    (get : Parser ε (Option UInt8)) (ready (c :: rest) hex) = .ok (some c, ready rest hex) := rfl

/-- `ignore` takes the next character. -/
@[simp] theorem ignore_cons :
    (ignore : Parser ε Unit) (ready (c :: rest) hex) = .ok ((), ready rest hex) := rfl

/-- All characters are white space. -/
def AllSpace (ws : List UInt8) : Prop := ∀ c ∈ ws, isSpace c = true

/-- The empty text is white space. -/
theorem AllSpace.nil : AllSpace [] := fun _ h => by cases h

/-- White space before white space is white space. -/
theorem AllSpace.cons (hc : isSpace c = true) (h : AllSpace ws) : AllSpace (c :: ws) := by
  intro c' hc'
  rcases List.mem_cons.1 hc' with rfl | hmem
  · exact hc
  · exact h c' hmem

/-- What follows does not begin with a character of a kind. -/
def StopsAt (p : UInt8 → Bool) (rest : List UInt8) : Prop := ∀ c ∈ rest.head?, p c = false

/-- A token that what follows does not continue is the longest prefix of its characters. -/
theorem takeWhile_append_of_stops {p : UInt8 → Bool} {w : List UInt8} (hw : ∀ c ∈ w, p c = true)
    (hrest : StopsAt p rest) : (w ++ rest).takeWhile p = w := by
  rw [List.takeWhile_append_of_pos hw]
  cases rest with
  | nil => simp
  | cons c rest => rw [List.takeWhile_cons_of_neg (by simpa using hrest c rfl), List.append_nil]

/-- Behind a token that what follows does not continue is what follows. -/
theorem dropWhile_append_of_stops {p : UInt8 → Bool} {w : List UInt8} (hw : ∀ c ∈ w, p c = true)
    (hrest : StopsAt p rest) : (w ++ rest).dropWhile p = rest := by
  rw [List.dropWhile_append_of_pos hw]
  cases rest with
  | nil => rfl
  | cons c rest => exact List.dropWhile_cons_of_neg (by simpa using hrest c rfl)

/-- Before a formatted extraction the white space is skipped. -/
theorem sentry_ready (hws : AllSpace ws) (hc : isSpace c = false) :
    (sentry : Parser ε Bool) (ready (ws ++ c :: rest) hex) = .ok (true, ready (c :: rest) hex) := by
  have hdrop : (ws ++ c :: rest).dropWhile isSpace = c :: rest :=
    dropWhile_append_of_stops hws fun c' hc' => by
      obtain rfl := Option.some.inj hc'
      exact hc
  simp only [sentry, ready, Bool.or_false, Bool.false_eq_true, if_false, hdrop]

/-- A word is read up to the white space behind it. -/
theorem word_ready {w : List UInt8} (hws : AllSpace ws) (hne : w ≠ [])
    (hw : ∀ c ∈ w, isSpace c = false) (hrest : StopsAt (fun c => !isSpace c) rest) :
    (word : Parser ε (List UInt8)) (ready (ws ++ (w ++ rest)) hex) = .ok (w, behind rest hex) := by
  have hw' : ∀ c ∈ w, (!isSpace c) = true := fun c hc => by rw [hw c hc, Bool.not_false]
  have htake := takeWhile_append_of_stops hw' hrest
  have hdrop := dropWhile_append_of_stops hw' hrest
  cases w with
  | nil => exact absurd rfl hne
  | cons c w =>
    have hsentry : (sentry : Parser ε Bool) _ = _ :=
      @sentry_ready ε (w ++ rest) ws c hex hws (hw c List.mem_cons_self)
    rw [List.cons_append, word, bind_of_ok hsentry]
    simp only [if_true, ready, behind, ← List.cons_append, htake, hdrop]

/-- What a number can be followed by. -/
def EndsNumber (hex : Bool) (rest : List UInt8) : Prop :=
  StopsAt (fun c => isDigit hex c || (hex && (c = 120 || c = 88))) rest

/-- A digit is neither white space nor a sign nor an `x`. -/
theorem isDigit_le {c : UInt8} (h : isDigit hex c = true) :
    isSpace c = false ∧ c ≠ 43 ∧ c ≠ 45 ∧ c ≠ 120 ∧ c ≠ 88 := by
  have hrange : (48 ≤ c.toNat ∧ c.toNat ≤ 57) ∨ (97 ≤ c.toNat ∧ c.toNat ≤ 102) ∨
      (65 ≤ c.toNat ∧ c.toNat ≤ 70) := by
    simp only [isDigit, digit?, UInt8.le_iff_toNat_le] at h
    split at h
    · next hd => exact .inl hd
    · split at h
      · next hd => exact .inr (.inl hd.2)
      · split at h
        · next hd => exact .inr (.inr hd.2)
        · cases h
  have hne : ∀ d : UInt8, c.toNat ≠ d.toNat → c ≠ d := fun d h heq => h (congrArg UInt8.toNat heq)
  refine ⟨?_, hne _ ?_, hne _ ?_, hne _ ?_, hne _ ?_⟩
  · simp only [isSpace, UInt8.le_iff_toNat_le, Bool.or_eq_false_iff, Bool.and_eq_false_iff,
      decide_eq_false_iff_not]
    exact ⟨hne _ (by simp; omega), .inr (by simp; omega)⟩
  all_goals simp; omega

/-- Digits are read up to what follows them. -/
theorem number_ready {ds : List UInt8} (hws : AllSpace ws) (hne : ds ≠ [])
    (hds : ∀ c ∈ ds, isDigit hex c = true) (hfits : ofDigits hex ds < 2 ^ 64)
    (hrest : EndsNumber hex rest) :
    (number : Parser ε Nat) (ready (ws ++ (ds ++ rest)) hex) =
      .ok (ofDigits hex ds, behind rest hex) := by
  have hstops : StopsAt (isDigit hex) rest := fun c hc => (Bool.or_eq_false_iff.1 (hrest c hc)).1
  have htake := takeWhile_append_of_stops hds hstops
  have hdrop := dropWhile_append_of_stops hds hstops
  cases ds with
  | nil => exact absurd rfl hne
  | cons c ds =>
    obtain ⟨hspace, hplus, hminus, -, -⟩ := isDigit_le (hds c List.mem_cons_self)
    have hsentry : (sentry : Parser ε Bool) _ = _ :=
      @sentry_ready ε (ds ++ rest) ws c hex hws hspace
    have hsign : splitSign (c :: ds ++ rest) = (false, c :: ds ++ rest) := by
      unfold splitSign
      split <;> simp_all
    have hprefix : dropPrefix hex (c :: ds ++ rest) = c :: ds ++ rest := by
      unfold dropPrefix
      split
      · next c' rest' heq =>
        rw [if_neg]
        · exact heq.symm
        rintro ⟨rfl, hx⟩
        cases ds with
        | nil =>
          obtain rfl : rest = c' :: rest' := by simpa using (List.cons.inj heq).2
          have := (Bool.or_eq_false_iff.1 (hrest c' rfl)).2
          simp at this
          exact hx.elim this.1 this.2
        | cons d ds =>
          obtain rfl : d = c' := (List.cons.inj (List.cons.inj heq).2).1
          obtain ⟨-, -, -, hx', hX'⟩ := isDigit_le (hds d (by simp))
          exact hx.elim hx' hX'
      · rfl
    rw [List.cons_append, number, bind_of_ok hsentry, ← List.cons_append]
    simp only [if_true, ready, hsign, hprefix, htake, hdrop, reduceCtorEq, if_false, not_le.2 hfits,
      Bool.false_eq_true, behind]

/-- There is no number where a text that is none begins. -/
theorem number_none (hws : AllSpace ws) (hspace : isSpace c = false)
    (hdigit : isDigit hex c = false) (hsign : c ≠ 43 ∧ c ≠ 45) :
    (number : Parser ε Nat) (ready (ws ++ c :: rest) hex) =
      .ok (0, { ready (c :: rest) hex with fail := true }) := by
  have hsentry : (sentry : Parser ε Bool) _ = _ := @sentry_ready ε rest ws c hex hws hspace
  have hsplit : splitSign (c :: rest) = (false, c :: rest) := by
    unfold splitSign
    split <;> simp_all
  have hzero : c ≠ 48 := by
    rintro rfl
    revert hdigit
    cases hex <;> decide
  have hprefix : dropPrefix hex (c :: rest) = c :: rest := by
    unfold dropPrefix
    split <;> simp_all
  rw [number, bind_of_ok hsentry]
  simp [ready, hsplit, hprefix, hdigit]

/-- There is no number behind the last character. -/
theorem number_end (hws : AllSpace ws) :
    (number : Parser ε Nat) (ready ws hex) =
      .ok (0, { rest := [], eof := true, fail := true, hex }) := by
  have hdrop : ws.dropWhile isSpace = [] := List.dropWhile_eq_nil_iff.2 hws
  have hsentry : (sentry : Parser ε Bool) (ready ws hex) =
      .ok (false, { rest := [], eof := true, fail := true, hex }) := by
    simp only [sentry, ready, Bool.or_false, Bool.false_eq_true, if_false, hdrop]
  rw [number, bind_of_ok hsentry]
  rfl

/-- White space is skipped up to the next character. -/
theorem skipWhitespace_ready {fuel : ε} (hws : AllSpace ws) (hc : isSpace c = false) :
    skipWhitespace fuel (ready (ws ++ c :: rest) hex) = .ok ((), ready (c :: rest) hex) := by
  have hloop : ∀ (ws : List UInt8) (n : Nat), AllSpace ws → ws.length < n →
      skipWhitespaceUpTo fuel n (ready (ws ++ c :: rest) hex) =
        .ok ((), ready (c :: rest) hex) := by
    intro ws
    induction ws with
    | nil =>
      intro n _ hn
      obtain ⟨n, rfl⟩ := Nat.exists_eq_succ_of_ne_zero hn.ne'
      rw [skipWhitespaceUpTo, bind_of_ok fail_ready]
      simp only [Bool.false_eq_true, if_false, List.nil_append]
      rw [bind_of_ok peek_cons]
      simp [hc]
    | cons w ws ih =>
      intro n hws hn
      obtain ⟨n, rfl⟩ := Nat.exists_eq_succ_of_ne_zero (by omega : n ≠ 0)
      rw [skipWhitespaceUpTo, bind_of_ok fail_ready]
      simp only [Bool.false_eq_true, if_false, List.cons_append]
      rw [bind_of_ok peek_cons]
      simp only [Option.map_some, Option.getD_some, hws w List.mem_cons_self, if_true]
      rw [bind_of_ok ignore_cons]
      exact ih n (fun c hc => hws c (List.mem_cons_of_mem _ hc)) (by simpa using hn)
  exact hloop ws _ hws (by simp [ready])

end StringStream
