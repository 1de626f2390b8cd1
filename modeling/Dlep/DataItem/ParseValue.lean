import Dlep.DataItem.FromString
import Dlep.ProtocolMessage.Grammar

/-!
# The text of a value is read back

A parser stops where its own text ends if what follows begins with white space, and then with
something that is no number: the next name, or a closing brace. `ReadsAs` says so of a parser, a
text and a result, and every value type has its lemma. A vector may be empty, and then it takes
the white space behind it, so that a parser leaves the stream only up to white space.
-/

namespace Dlep

open StringStream hiding get

/-! ## Numbers as texts -/

/-- The byte of a decimal digit. -/
theorem digit?_of_mem_toDigits {n : Nat} {d : Char} (hd : d ∈ Nat.toDigits 10 n) :
    digit? false (UInt8.ofNat d.toNat) = some (d.toNat - 48) := by
  have hdigit := Nat.isDigit_of_mem_toDigits (by decide) (by decide) hd
  have hrange : 48 ≤ d.toNat ∧ d.toNat ≤ 57 := by
    simpa [Char.isDigit, UInt32.le_iff_toNat_le] using hdigit
  have htoNat : (UInt8.ofNat d.toNat).toNat = d.toNat :=
    UInt8.toNat_ofNat_of_lt' (lt_of_le_of_lt hrange.2 (by decide))
  simp only [digit?, UInt8.le_iff_toNat_le, htoNat]
  exact if_pos hrange

/-- A number is printed in decimal digits. -/
theorem isDigit_decimal (n : Nat) : ∀ c ∈ decimal n, isDigit false c = true := by
  intro c hc
  obtain ⟨d, hd, rfl⟩ := List.mem_map.1 hc
  rw [isDigit, digit?_of_mem_toDigits hd]
  rfl

/-- The digits of a number denote it. -/
theorem ofDigits_decimal (n : Nat) : ofDigits false (decimal n) = n := by
  have hfold : ∀ (ds : List Char) (k : Nat),
      (∀ d ∈ ds, digit? false (UInt8.ofNat d.toNat) = some (d.toNat - 48)) →
      (ds.map fun d => UInt8.ofNat d.toNat).foldl
        (fun n c => n * 10 + (digit? false c).getD 0) k = Nat.ofDigitChars 10 ds k := by
    intro ds
    induction ds with
    | nil => intros; rfl
    | cons d ds ih =>
      intro k hds
      rw [List.map_cons, List.foldl_cons, hds d List.mem_cons_self,
        ih _ fun d hd => hds d (List.mem_cons_of_mem _ hd), Nat.ofDigitChars_cons, Option.getD_some,
        Nat.mul_comm]
      rfl
  exact (hfold _ 0 fun d hd => digit?_of_mem_toDigits hd).trans
    (Nat.ofDigitChars_toDigits (by decide) (by decide))

/-- The digits of a byte are digits, and denote it. -/
theorem hexByte_digits (b : UInt8) :
    (∀ c ∈ hexByte b, isDigit true c = true) ∧ ofDigits true (hexByte b) = b.toNat := by
  have hall : ∀ n < 256, (hexByte (UInt8.ofNat n)).all (isDigit true) = true ∧
      ofDigits true (hexByte (UInt8.ofNat n)) = n := by decide +kernel
  have := hall b.toNat b.toNat_lt
  rw [UInt8.ofNat_toNat] at this
  exact ⟨fun c hc => List.all_eq_true.1 this.1 c hc, this.2⟩

/-! ## What a parser makes of a text -/

/-- A character that does not belong to a number in front of it, and is not white space. -/
structure Opens (c : UInt8) : Prop where
  space : isSpace c = false
  digit : isDigit false c = false
  sign : c ≠ 43 ∧ c ≠ 45

/-- What can follow a text: nothing, or white space and something that is not a number. -/
def Follows (rest : Bytes) : Prop :=
  rest = [] ∨ ∃ ws c rest', rest = 32 :: (ws ++ c :: rest') ∧ AllSpace ws ∧ Opens c

/-- Where a parser leaves the stream: at what follows, up to white space. -/
def Left (rest : Bytes) (ss : Stream) : Prop :=
  ∀ ws c rest', rest = ws ++ c :: rest' → AllSpace ws → isSpace c = false →
    ∃ ws', AllSpace ws' ∧ ss = ready (ws' ++ c :: rest') false

/-- A parser reads a text as a result, whatever can follow it. -/
def ReadsAs {α : Type} (p : TextParser α) (text : Bytes) (a : α) : Prop :=
  ∀ rest, Follows rest → ∃ ss, p (ready (text ++ rest) false) = .ok (a, ss) ∧ Left rest ss

section

variable {α β : Type} {p : TextParser α} {text rest ws : Bytes} {a : α}

/-- A blank is one character. -/
theorem str_blank : str " " = [32] := by decide +kernel

/-- A blank is white space. -/
theorem allSpace_blank : AllSpace (str " ") := by
  rw [str_blank]
  exact .cons rfl .nil

/-- A stream that has not been moved is left where it is. -/
theorem left_ready (hws : AllSpace ws) : Left rest (ready (ws ++ rest) false) := by
  rintro ws' c rest' rfl hws' -
  refine ⟨ws ++ ws', fun c' hc' => ?_, by rw [List.append_assoc]⟩
  exact (List.mem_append.1 hc').elim (hws c') (hws' c')

/-- A stream behind a token is left at what follows. -/
theorem left_behind : Left rest (behind rest false) := by
  rintro ws c rest' rfl hws hc
  exact ⟨ws, hws, behind_of_ne (by simp)⟩

/-- Nothing follows, and so it does not matter how the stream is left. -/
theorem left_nil {ss : Stream} : Left [] ss := by
  rintro ws c rest' h
  simp at h

/-- If something follows a text, it begins with a blank. -/
theorem Follows.ne_cons {c : UInt8} (h : Follows (c :: rest)) : c = 32 := by
  rcases h with h | ⟨ws, c', rest', h, -, -⟩
  · cases h
  · exact (List.cons.inj h).1

/-- What follows ends every kind of token that has no blank in it. -/
theorem Follows.stops (h : Follows rest) {q : UInt8 → Bool} (hq : q 32 = false) :
    StopsAt q rest := by
  intro c hc
  cases rest with
  | nil => cases hc
  | cons c' rest =>
    obtain rfl := Option.some.inj hc
    rw [h.ne_cons, hq]

/-- A result computed from what was read is read from the same text. -/
theorem ReadsAs.map (h : ReadsAs p text a) (f : α → β) :
    ReadsAs (do return f (← p)) text (f a) := by
  intro rest hrest
  obtain ⟨ss, hrun, hleft⟩ := h rest hrest
  exact ⟨ss, by rw [bind_of_ok hrun]; rfl, hleft⟩

/-- Numbers are decimal before they are made decimal. -/
theorem ReadsAs.setHex (h : ReadsAs p text a) : ReadsAs (do
    StringStream.setHex false
    p) text a :=
  fun rest hrest => h rest hrest

/-! ## Fields -/

/-- A number that fits is what is parsed. -/
theorem parseUint_of_number {typeName : Bytes} {w n : Nat} {ss : Stream} {hex : Bool}
    (h : (number : TextParser Nat) ss = .ok (n, behind rest hex)) (hn : n < 2 ^ w) :
    parseUint typeName w ss = .ok (n, behind rest hex) := by
  rw [parseUint, bind_of_ok h, bind_of_ok fail_behind]
  simp [Nat.mod_eq_of_lt hn]

/-- A number is read from its digits and white space before them, if the type can hold it. -/
theorem parseUint_decimal {typeName : Bytes} {w n : Nat} (hws : AllSpace ws) (hw : w ≤ 64)
    (hn : n < 2 ^ w) (hrest : EndsNumber false rest) :
    parseUint typeName w (ready (ws ++ (decimal n ++ rest)) false) =
      .ok (n, behind rest false) := by
  have hvalue := ofDigits_decimal n
  have hfits : n < 2 ^ 64 := lt_of_lt_of_le hn (Nat.pow_le_pow_right (by decide) hw)
  have hnumber : (number : TextParser Nat) _ = _ :=
    @number_ready Exn rest ws false _ hws (decimal_ne_nil n) (isDigit_decimal n)
      (by rwa [hvalue]) hrest
  rw [hvalue] at hnumber
  exact parseUint_of_number hnumber hn

/-- A number at the end of a text; `ofNat` makes it one of its type. -/
theorem readsAs_parseUint {typeName : Bytes} {w n : Nat} {ofNat : Nat → α} {f : α → β}
    (hws : AllSpace ws) (hw : w ≤ 64) (hn : n < 2 ^ w) (ha : ofNat n = a) :
    ReadsAs (do return f (ofNat (← parseUint typeName w))) (ws ++ decimal n) (f a) := by
  rw [← ha]
  refine ReadsAs.map (fun rest hrest => ⟨_, ?_, left_behind⟩) fun n => f (ofNat n)
  rw [List.append_assoc]
  exact parseUint_decimal hws hw hn (hrest.stops rfl)

/-- The separator of fields is taken where it is there. -/
theorem checkFieldSeparator_ready {hex : Bool} :
    checkFieldSeparator (ready (59 :: rest) hex) = .ok ((), ready rest hex) := by
  rw [checkFieldSeparator, bind_of_ok get_cons, bind_of_ok fail_ready]
  rfl

/-- A semicolon is one character. -/
theorem str_semicolon : str ";" = [59] := by decide +kernel

/-- A colon is one character. -/
theorem str_colon : str ":" = [58] := by decide +kernel

/-- A number, a separator, and what follows them. -/
theorem readsAs_field {typeName : Bytes} {w n : Nat} {ofNat : Nat → β} {b : β}
    {k : β → TextParser α} (hws : AllSpace ws) (hw : w ≤ 64) (hn : n < 2 ^ w) (hb : ofNat n = b)
    (h : ReadsAs (k b) text a) :
    ReadsAs (do
      let f1 ← parseUint typeName w
      checkFieldSeparator
      k (ofNat f1)) (ws ++ (decimal n ++ str ";" ++ text)) a := by
  intro rest hrest
  have huint : parseUint typeName w (ready (ws ++ (decimal n ++ 59 :: (text ++ rest))) false) = _ :=
    @parseUint_decimal _ _ _ _ _ hws hw hn fun c hc => by
      obtain rfl := Option.some.inj hc
      rfl
  rw [str_semicolon]
  simp only [List.append_assoc, List.cons_append, List.nil_append]
  rw [bind_of_ok huint, behind_cons, bind_of_ok checkFieldSeparator_ready, hb]
  exact h rest hrest

/-- A word is read from its characters. -/
theorem readsAs_word {w : Bytes} (hws : AllSpace ws) (hne : w ≠ [])
    (hw : ∀ c ∈ w, isSpace c = false) :
    ReadsAs word (ws ++ w) w := by
  intro rest hrest
  refine ⟨_, ?_, left_behind⟩
  rw [List.append_assoc]
  exact word_ready hws hne hw (hrest.stops rfl)

/-! ## Vectors and arrays -/

/-- A stream behind a token whose end was looked at once more. -/
def looked (rest : Bytes) (hex : Bool) : Stream :=
  { rest, eof := rest.isEmpty, fail := rest.isEmpty, hex }

/-- With text left, a second look at the end of a token changes nothing. -/
theorem looked_of_ne {hex : Bool} (h : rest ≠ []) : looked rest hex = ready rest hex := by
  cases rest with
  | nil => exact absurd rfl h
  | cons c rest => rfl

/-- A stream whose end was looked at is left at what follows. -/
theorem left_looked : Left rest (looked rest false) := by
  rintro ws c rest' rfl hws hc
  exact ⟨ws, hws, looked_of_ne (by simp)⟩

/-- Looking behind a token returns what follows, or finds the end. -/
theorem peek_behind {hex : Bool} :
    (peek : TextParser (Option UInt8)) (behind rest hex) = .ok (rest.head?, looked rest hex) := by
  cases rest <;> rfl

/-- A separator that is there is skipped. -/
theorem skipOver_self {c : UInt8} {hex : Bool} :
    skipOver c (behind (c :: rest) hex) = .ok ((), ready rest hex) := by
  rw [skipOver, behind_cons, bind_of_ok peek_cons, if_pos rfl, ignore_cons]

/-- Where the next character is another one, none is skipped. -/
theorem skipOver_behind {c : UInt8} {hex : Bool} (h : StopsAt (fun c' => c' = c) rest) :
    skipOver c (behind rest hex) = .ok ((), looked rest hex) := by
  rw [skipOver, bind_of_ok peek_behind, if_neg]
  · rfl
  intro hc
  simpa using h c hc

/-- Between two numbers stands a comma. -/
theorem commaSeparated_cons_cons (n m : Nat) (ns : List Nat) :
    commaSeparated (n :: m :: ns) = decimal n ++ 44 :: commaSeparated (m :: ns) := by
  have hcomma : str "," = [44] := by decide +kernel
  simp [commaSeparated, hcomma]

/-- Every number takes a character. -/
theorem length_le_commaSeparated (ns : List Nat) : ns.length ≤ (commaSeparated ns).length := by
  induction ns with
  | nil => exact Nat.zero_le _
  | cons n ns ih =>
    have hpos := List.length_pos_of_ne_nil (decimal_ne_nil n)
    cases ns with
    | nil => simpa [commaSeparated, Nat.one_le_iff_ne_zero] using hpos.ne'
    | cons m ns =>
      simp only [commaSeparated_cons_cons, List.length_append, List.length_cons] at ih ⊢
      omega

section

variable {typeName : Bytes} {w : Nat}

/-- The loop ends where there is no number. -/
theorem parseVectorUpTo_end {n : Nat} {vec : List Nat} {ss : Stream}
    (hss : ss = looked rest false ∨ ∃ ws, AllSpace ws ∧ ss = ready (ws ++ rest) false)
    (hrest : Follows rest) :
    ∃ ss', parseVectorUpTo typeName w (n + 1) vec ss = .ok (vec, ss') ∧ Left rest ss' := by
  have hclear : ∀ ss₁ : Stream, (number : TextParser Nat) ss = .ok (0, { ss₁ with fail := true }) →
      parseVectorUpTo typeName w (n + 1) vec ss =
        .ok (vec, { ss₁ with eof := false, fail := false }) := by
    intro ss₁ h
    rw [parseVectorUpTo, bind_of_ok h]
    rfl
  rcases hrest with rfl | ⟨ws', c, rest', rfl, hws', hc⟩
  · rcases hss with rfl | ⟨ws, hws, rfl⟩
    · exact ⟨_, hclear { rest := [], eof := true } rfl, left_nil⟩
    · rw [List.append_nil] at hclear ⊢
      exact ⟨_, hclear { rest := [], eof := true } (number_end hws), left_nil⟩
  · obtain ⟨ws, hws, rfl⟩ : ∃ ws, AllSpace ws ∧ ss = ready (ws ++ c :: rest') false := by
      rcases hss with rfl | ⟨ws, hws, rfl⟩
      · exact ⟨32 :: ws', hws'.cons rfl, rfl⟩
      · exact ⟨ws ++ 32 :: ws', fun c' hc' => (List.mem_append.1 hc').elim (hws c')
          (hws'.cons rfl c'), by simp⟩
    refine ⟨_, hclear _ (number_none hws hc.space hc.digit hc.sign), ?_⟩
    rintro ws₁ c₁ rest₁ heq hws₁ hc₁
    -- both split what follows at its first character that is no white space
    have hdrop : ∀ (ws : Bytes) (c : UInt8) (rest : Bytes), AllSpace ws → isSpace c = false →
        (ws ++ c :: rest).dropWhile isSpace = c :: rest := by
      intro ws c rest hws hc
      exact dropWhile_append_of_stops hws fun c' hc' => by
        obtain rfl := Option.some.inj hc'
        exact hc
    have hsame := hdrop ws₁ c₁ rest₁ hws₁ hc₁
    rw [← heq, ← List.cons_append, hdrop _ c rest' (hws'.cons rfl) hc.space] at hsame
    exact ⟨[], .nil, by rw [List.nil_append, ← hsame]; rfl⟩

/-- The numbers of a vector are read one after the other. -/
theorem parseVectorUpTo_commaSeparated (hw : w ≤ 64) (hrest : Follows rest) (ns : List Nat) :
    ∀ (n : Nat) (vec : List Nat) (ws : Bytes), ns.length < n → (∀ m ∈ ns, m < 2 ^ w) → AllSpace ws →
      ∃ ss', parseVectorUpTo typeName w n vec (ready (ws ++ (commaSeparated ns ++ rest)) false) =
        .ok (vec ++ ns, ss') ∧ Left rest ss' := by
  induction ns with
  | nil =>
    intro n vec ws hn _ hws
    obtain ⟨n, rfl⟩ := Nat.exists_eq_succ_of_ne_zero hn.ne_bot
    rw [List.append_nil]
    exact parseVectorUpTo_end (.inr ⟨ws, hws, rfl⟩) hrest
  | cons m ns ih =>
    intro n vec ws hn hns hws
    obtain ⟨n, rfl⟩ := Nat.exists_eq_succ_of_ne_zero (by omega : n ≠ 0)
    have hm := hns m List.mem_cons_self
    have hfits : m < 2 ^ 64 := lt_of_lt_of_le hm (Nat.pow_le_pow_right (by decide) hw)
    have hround : ∀ rest₁ ss₁, EndsNumber false rest₁ →
        skipOver 44 (behind rest₁ false) = .ok ((), ss₁) →
        parseVectorUpTo typeName w (n + 1) vec (ready (ws ++ (decimal m ++ rest₁)) false) =
          parseVectorUpTo typeName w n (vec ++ [m]) ss₁ := by
      intro rest₁ ss₁ hends hskip
      have hnumber : (number : TextParser Nat) (ready (ws ++ (decimal m ++ rest₁)) false) = _ :=
        number_ready hws (decimal_ne_nil m) (isDigit_decimal m) (by rwa [ofDigits_decimal]) hends
      rw [ofDigits_decimal] at hnumber
      rw [parseVectorUpTo, bind_of_ok hnumber, bind_of_ok fail_behind]
      simp only [Bool.false_eq_true, if_false, Nat.mod_eq_of_lt hm, ne_eq, not_true_eq_false]
      exact bind_of_ok hskip
    cases ns with
    | nil =>
      rw [show commaSeparated [m] = decimal m by simp [commaSeparated],
        hround rest _ (hrest.stops rfl) (skipOver_behind (hrest.stops rfl))]
      obtain ⟨n, rfl⟩ := Nat.exists_eq_succ_of_ne_zero (by simp at hn; omega : n ≠ 0)
      exact parseVectorUpTo_end (.inl rfl) hrest
    | cons m' ns =>
      rw [commaSeparated_cons_cons, List.append_assoc, List.cons_append, hround _ _ (fun c hc => by
        obtain rfl := Option.some.inj hc
        rfl) skipOver_self]
      have htail := ih n (vec ++ [m]) [] (by simp at hn ⊢; omega)
        (fun k hk => hns k (List.mem_cons_of_mem _ hk)) .nil
      rwa [List.append_assoc, List.singleton_append] at htail

/-- A vector is read from its numbers and the commas between them. -/
theorem readsAs_parseVector {ns : List Nat} (hws : AllSpace ws) (hw : w ≤ 64)
    (hns : ∀ m ∈ ns, m < 2 ^ w) :
    ReadsAs (parseVector typeName w) (ws ++ commaSeparated ns) ns := by
  intro rest hrest
  have hlength := length_le_commaSeparated ns
  have := @parseVectorUpTo_commaSeparated rest typeName w hw hrest ns
    ((ws ++ (commaSeparated ns ++ rest)).length + 1) [] ws (by simp; omega) hns hws
  rw [List.append_assoc]
  exact this

/-- Both numbers of an array of two are read. -/
theorem readsAs_parseArray {v0 v1 : Nat} (hws : AllSpace ws) (hw : w ≤ 64) (h0 : v0 < 2 ^ w)
    (h1 : v1 < 2 ^ w) : ReadsAs (parseArray typeName w 2)
    (ws ++ commaSeparated [v0, v1]) [v0, v1] := by
  intro rest hrest
  have hfirst : parseUint typeName w
      (ready (ws ++ (decimal v0 ++ 44 :: (decimal v1 ++ rest))) false) = _ :=
    @parseUint_decimal _ _ _ _ _ hws hw h0 fun c hc => by
      obtain rfl := Option.some.inj hc
      rfl
  have hsecond : parseUint typeName w (ready (decimal v1 ++ rest) false) = _ :=
    @parseUint_decimal rest [] _ _ _ .nil hw h1 (hrest.stops rfl)
  refine ⟨_, ?_, left_looked⟩
  rw [commaSeparated_cons_cons, show commaSeparated [v1] = decimal v1 by simp [commaSeparated]]
  simp only [List.append_assoc, List.cons_append]
  rw [parseArray, parseArrayFrom, bind_of_ok fail_ready]
  simp only [Bool.false_eq_true, if_false]
  rw [bind_of_ok hfirst, bind_of_ok skipOver_self, parseArrayFrom, bind_run, bind_of_ok fail_ready]
  simp only [Bool.false_eq_true, if_false]
  rw [bind_of_ok hsecond, bind_of_ok (skipOver_behind (hrest.stops rfl))]
  rfl

end

/-! ## MAC addresses -/

/-- Between two bytes of a MAC address stands a colon. -/
theorem macToString_cons_cons (b b' : UInt8) (mac : DlepMac) :
    macToString (b :: b' :: mac) = hexByte b ++ 58 :: macToString (b' :: mac) := by
  simp [macToString, str_colon]

/-- The last byte of a MAC address has no colon behind it. -/
theorem macToString_singleton (b : UInt8) : macToString [b] = hexByte b := by
  simp [macToString]

/-- Every byte of a MAC address takes a character. -/
theorem length_le_macToString (mac : DlepMac) : mac.length ≤ (macToString mac).length := by
  induction mac with
  | nil => exact Nat.zero_le _
  | cons b mac ih =>
    cases mac with
    | nil => rw [macToString_singleton]; exact Nat.le_add_left 1 1
    | cons b' mac =>
      simp only [macToString_cons_cons, List.length_append, List.length_cons] at ih ⊢
      omega

/-- The bytes of a MAC address are read one after the other. -/
theorem parseMacUpTo_macToString {typeName : Bytes} (hrest : Follows rest) (mac : DlepMac) :
    ∀ (n : Nat) (done : DlepMac) (ws : Bytes), mac ≠ [] → mac.length ≤ n → AllSpace ws →
      parseMacUpTo typeName n done (ready (ws ++ (macToString mac ++ rest)) true) =
        .ok (done ++ mac, looked rest true) := by
  induction mac with
  | nil => intro n done ws h; exact absurd rfl h
  | cons b mac ih =>
    intro n done ws _ hn hws
    obtain ⟨n, rfl⟩ := Nat.exists_eq_succ_of_ne_zero (by simp at hn; omega : n ≠ 0)
    obtain ⟨hdigits, hvalue⟩ := hexByte_digits b
    have hbyte : ∀ rest₁, EndsNumber true rest₁ →
        parseUint typeName 8 (ready (ws ++ (hexByte b ++ rest₁)) true) =
          .ok (b.toNat, behind rest₁ true) := by
      intro rest₁ hends
      have hfits : ofDigits true (hexByte b) < 2 ^ 64 := by
        rw [hvalue]
        exact lt_of_lt_of_le b.toNat_lt (by decide)
      have hnumber : (number : TextParser Nat) (ready (ws ++ (hexByte b ++ rest₁)) true) = _ :=
        number_ready hws (List.cons_ne_nil _ _) hdigits hfits hends
      rw [hvalue] at hnumber
      exact parseUint_of_number hnumber b.toNat_lt
    cases mac with
    | nil =>
      rw [macToString_singleton, parseMacUpTo, bind_of_ok (hbyte rest (hrest.stops rfl)),
        bind_of_ok peek_behind, UInt8.ofNat_toNat, if_neg]
      · rfl
      intro hcolon
      have : rest.head? = some 58 := by simpa using hcolon
      have := hrest.stops (q := fun c => c = 58) rfl 58 this
      simp at this
    | cons b' mac =>
      rw [macToString_cons_cons, List.append_assoc, List.cons_append, parseMacUpTo,
        bind_of_ok (hbyte _ fun c hc => by
          obtain rfl := Option.some.inj hc
          rfl), behind_cons, bind_of_ok peek_cons, UInt8.ofNat_toNat]
      simp only [if_true]
      rw [bind_of_ok ignore_cons]
      have htail := ih n (done ++ [b]) [] (List.cons_ne_nil _ _) (by simpa using hn) .nil
      rwa [List.append_assoc, List.singleton_append] at htail

/-- A MAC address is read from its bytes and the colons between them. -/
theorem readsAs_parseMac {typeName : Bytes} {mac : DlepMac} (hws : AllSpace ws) (hmac : mac ≠ []) :
    ReadsAs (parseMac typeName) (ws ++ macToString mac) mac := by
  intro rest hrest
  have hlength := length_le_macToString mac
  have hset : (setHex true : TextParser Unit) (ready (ws ++ (macToString mac ++ rest)) false) =
      .ok ((), ready (ws ++ (macToString mac ++ rest)) true) := rfl
  have hloop : parseMacUpTo typeName
    ((ready (ws ++ (macToString mac ++ rest)) true).rest.length + 1) []
      (ready (ws ++ (macToString mac ++ rest)) true) = .ok (mac, looked rest true) :=
    parseMacUpTo_macToString hrest mac _ [] ws hmac (by simp [ready]; omega) hws
  refine ⟨looked rest false, ?_, left_looked⟩
  rw [List.append_assoc, parseMac, bind_of_ok hset]
  exact bind_of_ok (p := fun ss => parseMacUpTo typeName (ss.rest.length + 1) [] ss) hloop

/-! ## IP addresses -/

/-- The text of an address: it is not empty, and nothing in it ends it. -/
structure IsAddressText (text : Bytes) : Prop where
  ne_nil : text ≠ []
  space : ∀ c ∈ text, isSpace c = false
  separator : ∀ c ∈ text, isFieldSeparator (some c) = false

/-- The characters of an address are collected up to what follows. -/
theorem addressTextUpTo_text (hrest : (∃ rest', rest = 59 :: rest') ∨ Follows rest) :
    ∀ (text : Bytes) (n : Nat) (done : Bytes), text.length + 2 ≤ n →
      (∀ c ∈ text, isSpace c = false) → (∀ c ∈ text, isFieldSeparator (some c) = false) →
      addressTextUpTo n done (ready (text ++ rest) false) =
        .ok (done ++ text, looked rest false) := by
  intro text
  induction text with
  | nil =>
    intro n done hn _ _
    obtain ⟨n, rfl⟩ := Nat.exists_eq_add_of_le' (by simpa using hn : 2 ≤ n)
    rw [List.append_nil]
    rcases hrest with ⟨rest', rfl⟩ | rfl | ⟨ws, c, rest', rfl, -, -⟩
    · rfl
    · rfl
    · rfl
  | cons c text ih =>
    intro n done hn hspace hsep
    obtain ⟨n, rfl⟩ := Nat.exists_eq_succ_of_ne_zero (by omega : n ≠ 0)
    have hround : addressTextUpTo (n + 1) done (ready (c :: (text ++ rest)) false) =
        addressTextUpTo n (done ++ [c]) (ready (text ++ rest) false) := by
      rw [addressTextUpTo, bind_of_ok fail_ready]
      simp only [Bool.false_eq_true, if_false]
      rw [bind_of_ok peek_cons, hsep c List.mem_cons_self]
      simp only [Bool.false_eq_true, if_false]
      rw [bind_of_ok peek_cons, Option.map_some, hspace c List.mem_cons_self]
      rfl
    have htail := ih n (done ++ [c]) (by simpa using hn)
      (fun c' hc' => hspace c' (List.mem_cons_of_mem _ hc'))
      (fun c' hc' => hsep c' (List.mem_cons_of_mem _ hc'))
    rw [List.cons_append, hround, htail, List.append_assoc, List.singleton_append]

section

variable {fromString : Bytes → Option α}

/-- An address is read up to a semicolon or to what ends a text. -/
theorem parseIpAddr_text (htext : IsAddressText text) (hfrom : fromString text = some a)
    (hrest : (∃ rest', rest = 59 :: rest') ∨ Follows rest) :
    parseIpAddr fromString (ready (text ++ rest) false) = .ok (a, looked rest false) := by
  have hskip : skipWhitespace Exn.outOfFuel (ready (text ++ rest) false) =
      .ok ((), ready (text ++ rest) false) := by
    obtain ⟨c, text', rfl⟩ := List.exists_cons_of_ne_nil htext.ne_nil
    exact skipWhitespace_ready .nil (htext.space c List.mem_cons_self)
  have hloop := addressTextUpTo_text hrest text ((text ++ rest).length + 2) [] (by simp)
    htext.space htext.separator
  rw [parseIpAddr, bind_of_ok hskip, bind_run]
  show (Except.bind (addressTextUpTo ((text ++ rest).length + 2) [] _) _) = _
  rw [hloop]
  simp [Except.bind, hfrom]

/-- An address is read from its text. -/
theorem readsAs_parseIpAddr (htext : IsAddressText text) (hfrom : fromString text = some a) :
    ReadsAs (parseIpAddr fromString) text a := fun _ hrest =>
  ⟨_, parseIpAddr_text htext hfrom (.inr hrest), left_looked⟩

/-- An address, a separator, and what follows them. -/
theorem readsAs_address {k : α → TextParser β} {tail : Bytes} {b : β} (htext : IsAddressText text)
    (hfrom : fromString text = some a) (h : ReadsAs (k a) tail b) :
    ReadsAs (do
      let f2 ← parseIpAddr fromString
      checkFieldSeparator
      k f2) (text ++ str ";" ++ tail) b := by
  intro rest hrest
  rw [str_semicolon]
  simp only [List.append_assoc, List.cons_append, List.nil_append]
  rw [bind_of_ok (parseIpAddr_text htext hfrom (.inl ⟨_, rfl⟩)),
    looked_of_ne (List.cons_ne_nil _ _), bind_of_ok checkFieldSeparator_ready]
  exact h rest hrest

end

end

/-! ## Values -/

open AddressSyntax

/-- What the printing and the parsing of addresses are relied on for. -/
structure AddressSyntax.Lawful [AddressSyntax] : Prop where
  v4_text : ∀ a, IsAddressText (AddressText.v4ToString a)
  v4_inverse : ∀ a, v4FromString (AddressText.v4ToString a) = some a
  v6_text : ∀ a, a.scopeId = 0 → IsAddressText (AddressText.v6ToString a)
  v6_inverse : ∀ a, a.scopeId = 0 → v6FromString (AddressText.v6ToString a) = some a

/-- A text that is read as one word. -/
def IsWord (text : Bytes) : Prop := text ≠ [] ∧ ∀ c ∈ text, isSpace c = false

/-- The values whose texts are unambiguous. -/
def DataItemValue.TextSafe : DataItemValue → Prop
  | .string v => IsWord v
  | .dlepmac v => v ≠ []
  | .u8String _ f2 => IsWord f2
  | .u8Ipv6 _ f2 => f2.scopeId = 0
  | .u8Ipv6U16 _ f2 _ => f2.scopeId = 0
  | .u8Ipv6U8 _ f2 _ => f2.scopeId = 0
  | _ => True

/-- A value without data has no text. -/
theorem readsAs_blank {ws : Bytes} (hws : AllSpace ws) :
    ReadsAs (return DataItemValue.blank : TextParser DataItemValue) (ws ++ []) .blank := by
  intro rest _
  rw [List.append_nil]
  exact ⟨_, rfl, left_ready hws⟩

/-- The numbers of a vector, made numbers of their type. -/
theorem readsAs_vector {α β : Type} {typeName ws : Bytes} {w : Nat} {toNat : α → Nat}
    {ofNat : Nat → α} {vs : List α} {f : List α → β} (hws : AllSpace ws) (hw : w ≤ 64)
    (hfits : ∀ v, toNat v < 2 ^ w) (hinv : ∀ v, ofNat (toNat v) = v) :
    ReadsAs (do return f ((← parseVector typeName w).map ofNat))
      (ws ++ commaSeparated (vs.map toNat)) (f vs) := by
  have hmap : (vs.map toNat).map ofNat = vs := by
    rw [List.map_map]
    exact List.map_id'' hinv vs
  have hread := (@readsAs_parseVector ws typeName w (vs.map toNat) hws hw
    (by simpa using fun v _ => hfits v)).map fun ns => f (ns.map ofNat)
  rwa [hmap] at hread

/-- A number, an address and a number. -/
theorem readsAs_fields {α β γ : Type} {typeName ws text : Bytes}
    {fromString : Bytes → Option α} {a : α} {w n : Nat} {ofNat : Nat → β} {b : β}
    {make : UInt8 → α → β → γ} {f1 : UInt8} (hws : AllSpace ws) (htext : IsAddressText text)
    (hfrom : fromString text = some a) (hw : w ≤ 64) (hn : n < 2 ^ w) (hb : ofNat n = b) :
    ReadsAs (do
      let f1 ← parseUint typeName 8
      checkFieldSeparator
      let f2 ← parseIpAddr fromString
      checkFieldSeparator
      return make (UInt8.ofNat f1) f2 (ofNat (← parseUint typeName w)))
      (ws ++ (decimal f1.toNat ++ str ";" ++ text ++ str ";" ++ decimal n)) (make f1 a b) := by
  have hlast := @readsAs_parseUint _ _ [] b typeName w n ofNat (make f1 a) .nil hw hn hb
  have haddress := readsAs_address
    (k := fun f2 => do return make f1 f2 (ofNat (← parseUint typeName w))) htext hfrom hlast
  have htext : ws ++ (decimal f1.toNat ++ str ";" ++ text ++ str ";" ++ decimal n) =
      ws ++ (decimal f1.toNat ++ str ";" ++ (text ++ str ";" ++ ([] ++ decimal n))) := by
    simp only [List.append_assoc, List.nil_append]
  rw [htext]
  exact readsAs_field (k := fun f1 => do
    let f2 ← parseIpAddr fromString
    checkFieldSeparator
    return make f1 f2 (ofNat (← parseUint typeName w))) hws (by omega : 8 ≤ 64) f1.toNat_lt
      UInt8.ofNat_toNat haddress

/-- Every value without sub data items has a text, which is read back. -/
theorem readsAs_parseValue [AddressSyntax] (haddr : AddressSyntax.Lawful) {cfg : ProtocolConfig}
    {scope : Option DataItemInfo} {typeName ws : Bytes} (hws : AllSpace ws) {value : DataItemValue}
    (hplain : value.isContainer = false) (hsafe : value.TextSafe) :
    ∃ text, value.toString cfg scope = .ok text ∧
      ReadsAs (parseValue typeName value.getType) (ws ++ text) value := by
  have h8 : 8 ≤ 64 := by omega
  have h16 : 16 ≤ 64 := by omega
  have h32 : 32 ≤ 64 := by omega
  cases value with
  | blank => exact ⟨_, rfl, readsAs_blank hws⟩
  | u8 val => exact ⟨_, rfl, readsAs_parseUint hws h8 val.toNat_lt UInt8.ofNat_toNat⟩
  | u16 val => exact ⟨_, rfl, readsAs_parseUint hws h16 val.toNat_lt UInt16.ofNat_toNat⟩
  | u32 val => exact ⟨_, rfl, readsAs_parseUint hws h32 val.toNat_lt UInt32.ofNat_toNat⟩
  | u64 val => exact ⟨_, rfl, readsAs_parseUint hws le_rfl val.toNat_lt UInt64.ofNat_toNat⟩
  | vU8 val => exact ⟨_, rfl, readsAs_vector hws h8 UInt8.toNat_lt fun _ => UInt8.ofNat_toNat⟩
  | vU32 val => exact ⟨_, rfl, readsAs_vector hws h32 UInt32.toNat_lt fun _ => UInt32.ofNat_toNat⟩
  | a2U16 val0 val1 =>
    have hread :=
      (@readsAs_parseArray ws typeName 16 _ _ hws h16 val0.toNat_lt val1.toNat_lt).map pairOf
    rw [pairOf, UInt16.ofNat_toNat, UInt16.ofNat_toNat] at hread
    exact ⟨_, rfl, hread⟩
  | string val => exact ⟨_, rfl, (readsAs_word hws hsafe.1 hsafe.2).map DataItemValue.string⟩
  | dlepmac val => exact ⟨_, rfl, (readsAs_parseMac hws hsafe).map DataItemValue.dlepmac⟩
  | u8String f1 f2 =>
    have htail := (readsAs_word .nil hsafe.1 hsafe.2).map (DataItemValue.u8String f1)
    exact ⟨_, rfl, readsAs_field (k := fun f1 => do return DataItemValue.u8String f1 (← word))
      hws h8 f1.toNat_lt
      UInt8.ofNat_toNat htail⟩
  | u8Ipv4 f1 f2 =>
    have htail := (readsAs_parseIpAddr (haddr.v4_text f2) (haddr.v4_inverse f2)).map
      (DataItemValue.u8Ipv4 f1)
    exact ⟨_, rfl, readsAs_field
      (k := fun f1 => do return DataItemValue.u8Ipv4 f1 (← parseIpAddr v4FromString)) hws h8
      f1.toNat_lt UInt8.ofNat_toNat htail⟩
  | u8Ipv6 f1 f2 =>
    have htail := (readsAs_parseIpAddr (haddr.v6_text f2 hsafe) (haddr.v6_inverse f2 hsafe)).map
      (DataItemValue.u8Ipv6 f1)
    exact ⟨_, rfl, readsAs_field
      (k := fun f1 => do return DataItemValue.u8Ipv6 f1 (← parseIpAddr v6FromString)) hws h8
      f1.toNat_lt UInt8.ofNat_toNat htail⟩
  | u16VU8 f1 f2 =>
    have htail := @readsAs_vector UInt8 _ typeName [] _ _ _ f2 (DataItemValue.u16VU8 f1) .nil h8
      UInt8.toNat_lt fun _ => UInt8.ofNat_toNat
    exact ⟨_, rfl, readsAs_field
      (k := fun f1 => do
        return DataItemValue.u16VU8 f1 ((← parseVector typeName 8).map UInt8.ofNat)) hws h16
      f1.toNat_lt UInt16.ofNat_toNat htail⟩
  | vExtid f1 => exact ⟨_, rfl, readsAs_vector hws h32 UInt32.toNat_lt fun _ => UInt32.ofNat_toNat⟩
  | u8Ipv4U16 f1 f2 f3 =>
    exact ⟨_, rfl, readsAs_fields hws (haddr.v4_text f2) (haddr.v4_inverse f2) h16 f3.toNat_lt
      UInt16.ofNat_toNat⟩
  | u8Ipv6U16 f1 f2 f3 =>
    exact ⟨_, rfl, readsAs_fields hws (haddr.v6_text f2 hsafe)
      (haddr.v6_inverse f2 hsafe) h16 f3.toNat_lt
      UInt16.ofNat_toNat⟩
  | u8Ipv4U8 f1 f2 f3 =>
    exact ⟨_, rfl, readsAs_fields hws (haddr.v4_text f2) (haddr.v4_inverse f2) h8 f3.toNat_lt
      UInt8.ofNat_toNat⟩
  | u8Ipv6U8 f1 f2 f3 =>
    exact ⟨_, rfl, readsAs_fields hws (haddr.v6_text f2 hsafe)
      (haddr.v6_inverse f2 hsafe) h8 f3.toNat_lt
      UInt8.ofNat_toNat⟩
  | u8U8 f1 f2 =>
    have htail :=
      @readsAs_parseUint _ _ [] f2 typeName _ _ _ (DataItemValue.u8U8 f1) .nil h8 f2.toNat_lt
      UInt8.ofNat_toNat
    exact ⟨_, rfl, readsAs_field
      (k := fun f1 => do return DataItemValue.u8U8 f1 (UInt8.ofNat (← parseUint typeName 8))) hws h8
      f1.toNat_lt UInt8.ofNat_toNat htail⟩
  | u64U64 f1 f2 =>
    have htail := @readsAs_parseUint _ _ [] f2 typeName _ _ _ (DataItemValue.u64U64 f1) .nil le_rfl
      f2.toNat_lt UInt64.ofNat_toNat
    exact ⟨_, rfl, readsAs_field
      (k := fun f1 => do return DataItemValue.u64U64 f1 (UInt64.ofNat (← parseUint typeName 64)))
        hws le_rfl
      f1.toNat_lt UInt64.ofNat_toNat htail⟩
  | subDataItems items => cases hplain
  | u16SubDataItems f1 items => cases hplain

end Dlep
