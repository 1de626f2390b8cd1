import Mathlib.Data.List.Forall2
import Mathlib.Tactic

/-!
# Reading a byte range with a moving iterator

A decoder that walks a pair of iterators `[it, it_end)` over a buffer is a state transformer on a
`Cursor`: the offset of `it`, the memory from `it` on, and the signed distance `it_end - it`. The
distance is signed, and the memory may end before `it_end` or go on after it, so that a decoder
which compares iterators with `!=` and runs past its end is represented as well (`byte` reports the
read as `past`).

`Reads r w a` says that `r` reads the bytes `w` as `a` wherever they stand, whatever follows;
`Exact r w a` says so when the range ends right after `w`, which is what a decoder that consumes
"the rest" needs. Both compose along `bind`, and `exact_many` is the loop rule.
-/

namespace ByteReader

/-- A position in a buffer: the offset of the iterator, the memory from there on, and how far the
end of the range is. -/
structure Cursor where
  pos : Nat
  bytes : List UInt8
  left : Int
  deriving DecidableEq

/-- The whole of a buffer as a range, starting at offset `pos`. -/
def Cursor.whole (pos : Nat) (bs : List UInt8) : Cursor := ⟨pos, bs, bs.length⟩

/-- The range that holds `bs`, in a memory that goes on with `behind`. -/
def Cursor.range (pos : Nat) (bs behind : List UInt8) : Cursor := ⟨pos, bs ++ behind, bs.length⟩

/-- The whole of a buffer is a range with nothing behind it. -/
theorem Cursor.whole_eq_range (pos : Nat) (bs : List UInt8) :
    Cursor.whole pos bs = range pos bs [] := by
  rw [whole, range, List.append_nil]

/-- A decoder: it moves the cursor or fails. -/
abbrev Reader (ε α : Type) := StateT Cursor (Except ε) α

variable {ε α β : Type}

/-- Read one byte; `eof` if the range is at its end, `past` if the memory is. -/
def byte (eof past : ε) : Reader ε UInt8 := fun c =>
  if c.left = 0 then .error eof
  else match c.bytes with
    | [] => .error past
    | b :: bs => .ok (b, ⟨c.pos + 1, bs, c.left - 1⟩)

/-- Read `n` bytes one at a time. -/
def bytes (eof past : ε) : Nat → Reader ε (List UInt8)
  | 0 => pure []
  | n + 1 => do
    let b ← byte eof past
    let bs ← bytes eof past n
    return b :: bs

/-- Take everything up to the end of the range; `neg` if the end is behind the iterator. -/
def rest (neg past : ε) : Reader ε (List UInt8) := fun c =>
  if c.left < 0 then .error neg
  else if c.bytes.length < c.left.toNat then .error past
  else .ok (c.bytes.take c.left.toNat,
    ⟨c.pos + c.left.toNat, c.bytes.drop c.left.toNat, 0⟩)

/-- Read values while the iterator is before the end, at most `n` of them. -/
def manyUpTo (fuel : ε) (r : Reader ε α) : Nat → Reader ε (List α)
  | 0 => fun _ => .error fuel
  | n + 1 => fun c =>
    if c.left ≤ 0 then .ok ([], c)
    else (do
      let a ← r
      let as ← manyUpTo fuel r n
      return a :: as) c

/-- Read values while the iterator is before the end. Every value takes at least one byte, so the
number of bytes in memory bounds the number of rounds. -/
def many (fuel : ε) (r : Reader ε α) : Reader ε (List α) := fun c =>
  manyUpTo fuel r (c.bytes.length + 1) c

/-- Run `r` on the range that ends `len` after the iterator. Where `r` stops away from that end,
`short` says by how much. -/
def window (len : Int) (short : Int → ε) (r : Reader ε α) : Reader ε α := fun c =>
  match r ⟨c.pos, c.bytes, len⟩ with
  | .error e => .error e
  | .ok (a, c') =>
    if c'.left = 0 then .ok (a, ⟨c'.pos, c'.bytes, c.left - len⟩)
    else .error (short c'.left)

/-! ## What a reader makes of bytes it is given -/

/-- `r` reads `w` as `a`, wherever `w` stands and whatever follows it. -/
def Reads (r : Reader ε α) (w : List UInt8) (a : α) : Prop :=
  ∀ (pos : Nat) (s : List UInt8) (l : Nat), w.length ≤ l →
    r ⟨pos, w ++ s, l⟩ = .ok (a, ⟨pos + w.length, s, (l : Int) - w.length⟩)

/-- `r` reads `w` as `a` where the range ends right after `w`. -/
def Exact (r : Reader ε α) (w : List UInt8) (a : α) : Prop :=
  ∀ (pos : Nat) (s : List UInt8),
    r ⟨pos, w ++ s, w.length⟩ = .ok (a, ⟨pos + w.length, s, 0⟩)

/-- A reader that reads `w` anywhere reads it at the end of the range. -/
theorem Reads.exact {r : Reader ε α} {w : List UInt8} {a : α} (h : Reads r w a) : Exact r w a := by
  intro pos s
  simpa using h pos s w.length le_rfl

/-- Two readers in sequence: the second starts where the first stopped. -/
theorem bind_run (r : Reader ε α) (f : α → Reader ε β) (c : Cursor) :
    (r >>= f) c = (r c).bind fun p => f p.1 p.2 := rfl

/-- A run of a sequence succeeds exactly when its parts do, one after the other. -/
theorem bind_ok {r : Reader ε α} {f : α → Reader ε β} {c c' : Cursor} {b : β} :
    (r >>= f) c = .ok (b, c') ↔ ∃ a c₁, r c = .ok (a, c₁) ∧ f a c₁ = .ok (b, c') := by
  rw [bind_run]
  cases r c with
  | error e => simp [Except.bind]
  | ok p => obtain ⟨a, c₁⟩ := p; simp [Except.bind]

/-- A reader that returns at once leaves the cursor where it is. -/
@[simp] theorem pure_run (a : α) (c : Cursor) : (pure a : Reader ε α) c = .ok (a, c) := rfl

/-- A reader that throws fails at every cursor. -/
@[simp] theorem throw_run (e : ε) (c : Cursor) : (throw e : Reader ε α) c = .error e := rfl

/-- A run of a sequence fails where one of its parts does. -/
theorem bind_error {r : Reader ε α} {f : α → Reader ε β} {c : Cursor} {e : ε} :
    (r >>= f) c = .error e ↔ r c = .error e ∨ ∃ a c₁, r c = .ok (a, c₁) ∧ f a c₁ = .error e := by
  rw [bind_run]
  cases r c with
  | error e' => simp [Except.bind]
  | ok p => obtain ⟨a, c₁⟩ := p; simp [Except.bind]

/-- A computation that does not read. -/
theorem lift_ok {x : Except ε α} {c c' : Cursor} {a : α} :
    (liftM x : Reader ε α) c = .ok (a, c') ↔ x = .ok a ∧ c = c' := by
  have hrun : (liftM x : Reader ε α) c = x.bind fun a => .ok (a, c) := rfl
  rw [hrun]
  cases x with
  | error e => simp [Except.bind]
  | ok b => simp [Except.bind]

/-- A computation that does not read fails as a reader exactly when it fails. -/
theorem lift_error {x : Except ε α} {c : Cursor} {e : ε} :
    (liftM x : Reader ε α) c = .error e ↔ x = .error e := by
  have hrun : (liftM x : Reader ε α) c = x.bind fun a => .ok (a, c) := rfl
  rw [hrun]
  cases x with
  | error e' => simp [Except.bind]
  | ok b => simp [Except.bind]

/-- A reader that returns at once reads no bytes. -/
theorem reads_pure (a : α) : Reads (pure a : Reader ε α) [] a := by
  intro pos s l _
  simp

/-- Two readers in sequence read what the first reads and then what the second reads. -/
theorem Reads.bind {r : Reader ε α} {f : α → Reader ε β} {w v : List UInt8} {a : α} {b : β}
    (hr : Reads r w a) (hf : Reads (f a) v b) : Reads (r >>= f) (w ++ v) b := by
  intro pos s l hl
  rw [List.length_append] at hl
  have hv : v.length ≤ l - w.length := by omega
  have h1 := hr pos (v ++ s) l (by omega)
  have h2 := hf (pos + w.length) s (l - w.length) hv
  rw [Nat.cast_sub (by omega)] at h2
  rw [bind_run, List.append_assoc, h1]
  simp only [Except.bind, h2, List.length_append]
  simp only [Nat.add_assoc, Nat.cast_add, Int.sub_sub]

/-- If the second reader needs the end of the range right after it, so does the sequence. -/
theorem Exact.bind {r : Reader ε α} {f : α → Reader ε β} {w v : List UInt8} {a : α} {b : β}
    (hr : Reads r w a) (hf : Exact (f a) v b) : Exact (r >>= f) (w ++ v) b := by
  intro pos s
  have h1 := hr pos (v ++ s) (w ++ v).length (by simp)
  have h2 := hf (pos + w.length) s
  have hlen : ((w ++ v).length : Int) - w.length = v.length := by simp
  rw [bind_run, List.append_assoc, h1, hlen]
  simp only [Except.bind, h2, List.length_append, Nat.add_assoc]

/-- A value computed from what was read. -/
theorem Reads.ret {r : Reader ε α} {w : List UInt8} {a : α} (hr : Reads r w a) (g : α → β) :
    Reads (r >>= fun x => pure (g x)) w (g a) := by
  simpa using hr.bind (f := fun x => pure (g x)) (reads_pure (g a))

/-- Post-processing of the value read up to the end. -/
theorem Exact.map {r : Reader ε α} {f : α → Reader ε β} {w : List UInt8} {a : α} {b : β}
    (hr : Exact r w a) (hf : ∀ c, f a c = .ok (b, c)) : Exact (r >>= f) w b := by
  intro pos s
  rw [bind_run, hr pos s]
  exact hf _

/-- A result computed from what was read needs no more bytes. -/
theorem Exact.ret {r : Reader ε α} {w : List UInt8} {a : α} (hr : Exact r w a) (g : α → β) :
    Exact (r >>= fun x => pure (g x)) w (g a) :=
  hr.map fun _ => rfl

/-- `byte` reads one byte. -/
theorem reads_byte (eof past : ε) (b : UInt8) : Reads (byte eof past) [b] b := by
  intro pos s l hl
  have hpos : l ≠ 0 := by simp at hl; omega
  simp [byte, hpos]

/-- `bytes` reads as many bytes as it is asked for. -/
theorem reads_bytes (eof past : ε) (w : List UInt8) : Reads (bytes eof past w.length) w w := by
  induction w with
  | nil => exact reads_pure []
  | cons b w ih =>
    have htail : Reads (bytes eof past w.length >>= fun bs => pure (b :: bs)) w (b :: w) := by
      simpa using ih.bind (f := fun bs => pure (b :: bs)) (reads_pure (b :: w))
    exact (reads_byte eof past b).bind (f := fun b => bytes eof past w.length >>= fun bs =>
      pure (b :: bs)) htail

/-- `rest` reads what the range still holds. -/
theorem exact_rest (neg past : ε) (w : List UInt8) : Exact (rest neg past) w w := by
  intro pos s
  simp [rest]

/-- A window of the right length turns an exact read into a read. -/
theorem Exact.window {r : Reader ε α} {w : List UInt8} {a : α} (short : Int → ε)
    (h : Exact r w a) : Reads (ByteReader.window w.length short r) w a := by
  intro pos s l _
  simp [ByteReader.window, h pos s]

/-- The loop rule: values that each take at least a byte are read one after the other to the end of
the range. -/
theorem exact_manyUpTo (fuel : ε) {r : Reader ε α} {ws : List (List UInt8)} {as : List α}
    (h : List.Forall₂ (Reads r) ws as) (hne : ∀ w ∈ ws, w ≠ []) :
    ∀ n, ws.length < n → Exact (manyUpTo fuel r n) ws.flatten as := by
  induction h with
  | nil =>
    intro n hn pos s
    obtain ⟨m, rfl⟩ : ∃ m, n = m + 1 := ⟨n - 1, by omega⟩
    simp [manyUpTo]
  | @cons w a ws as hr _ ih =>
    intro n hn
    obtain ⟨m, rfl⟩ : ∃ m, n = m + 1 := ⟨n - 1, by omega⟩
    have hw : w ≠ [] := hne w (by simp)
    have htail := ih (fun v hv => hne v (by simp [hv])) m (by simpa using hn)
    have hstep : Exact (r >>= fun a => manyUpTo fuel r m >>= fun as => pure (a :: as))
        (w ++ ws.flatten) (a :: as) :=
      Exact.bind hr (htail.map fun c => rfl)
    intro pos s
    have hgt : ¬ ((w :: ws).flatten.length : Int) ≤ 0 := by
      have := List.length_pos_of_ne_nil hw
      simp only [List.flatten_cons, List.length_append]
      omega
    simp only [manyUpTo, if_neg hgt]
    exact hstep pos s

/-- Non-empty parts are no more than the bytes they make up. -/
theorem length_le_length_flatten {ws : List (List UInt8)} (hne : ∀ w ∈ ws, w ≠ []) :
    ws.length ≤ ws.flatten.length := by
  induction ws with
  | nil => simp
  | cons w ws ih =>
    have hw := List.length_pos_of_ne_nil (hne w (by simp))
    have hws := ih fun v hv => hne v (by simp [hv])
    simp only [List.length_cons, List.flatten_cons, List.length_append]
    omega

/-- `many` reads encodings that stand one behind the other up to the end of the range; none of
them may be empty. -/
theorem exact_many (fuel : ε) {r : Reader ε α} {ws : List (List UInt8)} {as : List α}
    (h : List.Forall₂ (Reads r) ws as) (hne : ∀ w ∈ ws, w ≠ []) :
    Exact (many fuel r) ws.flatten as := by
  intro pos s
  have hfuel : ws.length < (ws.flatten ++ s).length + 1 := by
    have := length_le_length_flatten hne
    simp only [List.length_append]
    omega
  exact exact_manyUpTo fuel h hne _ hfuel pos s

/-! ## What a loop of readers returns -/

/-- Every value that `manyUpTo` returns was read by its reader somewhere. -/
theorem exists_of_mem_manyUpTo {fuel : ε} {r : Reader ε α} {n : Nat} {c c' : Cursor}
    {as : List α} (h : manyUpTo fuel r n c = .ok (as, c')) :
    ∀ a ∈ as, ∃ c₁ c₂, r c₁ = .ok (a, c₂) := by
  induction n generalizing c c' as with
  | zero => simp [manyUpTo] at h
  | succ n ih =>
    simp only [manyUpTo] at h
    split at h
    · simp_all
    · obtain ⟨a, c₁, ha, hrest⟩ := bind_ok.1 h
      obtain ⟨as', c₂, has, hpure⟩ := bind_ok.1 hrest
      simp only [pure_run, Except.ok.injEq, Prod.mk.injEq] at hpure
      intro b hb
      rw [← hpure.1] at hb
      rcases List.mem_cons.1 hb with rfl | hb
      · exact ⟨c, c₁, ha⟩
      · exact ih has b hb

/-- Every value that a loop returns was returned by its body. -/
theorem exists_of_mem_many {fuel : ε} {r : Reader ε α} {c c' : Cursor} {as : List α}
    (h : many fuel r c = .ok (as, c')) : ∀ a ∈ as, ∃ c₁ c₂, r c₁ = .ok (a, c₂) :=
  exists_of_mem_manyUpTo h

/-- A range gives its first `n` bytes if it has as many. -/
theorem bytes_range (eof past : ε) (n pos : Nat) (bs behind : List UInt8) :
    bytes eof past n (.range pos bs behind) =
      if bs.length < n then .error eof
      else .ok (bs.take n, .range (pos + n) (bs.drop n) behind) := by
  induction n generalizing pos bs with
  | zero => simp [bytes]
  | succ n ih =>
    cases bs with
    | nil => simp [bytes, bind_run, byte, Cursor.range, Except.bind]
    | cons b bs =>
      have hbyte : byte eof past (.range pos (b :: bs) behind) =
          .ok (b, .range (pos + 1) bs behind) := by
        simp [byte, Cursor.range]
        omega
      rw [bytes, bind_run, hbyte]
      simp only [Except.bind, bind_run, ih]
      by_cases hshort : bs.length < n
      · simp [hshort]
      · simp [hshort, Nat.add_assoc, Nat.add_comm 1 n]

/-- What `bytes` returns has the length asked for. -/
theorem length_of_bytes {eof past : ε} {n : Nat} {c c' : Cursor} {bs : List UInt8}
    (h : bytes eof past n c = .ok (bs, c')) : bs.length = n := by
  induction n generalizing c c' bs with
  | zero =>
    simp only [bytes, pure_run, Except.ok.injEq, Prod.mk.injEq] at h
    simp [← h.1]
  | succ n ih =>
    obtain ⟨b, c₁, _, hrest⟩ := bind_ok.1 h
    obtain ⟨bs', c₂, hbs, hpure⟩ := bind_ok.1 hrest
    simp only [pure_run, Except.ok.injEq, Prod.mk.injEq] at hpure
    rw [← hpure.1, List.length_cons, ih hbs]

/-- Reading bytes fails only at the end of the range, or of the memory. -/
theorem bytes_error {eof past e : ε} {n : Nat} {c : Cursor} (h : bytes eof past n c = .error e) :
    e = eof ∨ e = past := by
  induction n generalizing c with
  | zero => simp [bytes] at h
  | succ n ih =>
    rw [bytes, bind_run] at h
    cases hb : byte eof past c with
    | error e' =>
      simp only [hb, Except.bind, Except.error.injEq] at h
      unfold byte at hb
      split at hb
      · exact .inl (by simpa [h] using hb.symm)
      · split at hb
        · exact .inr (by simpa [h] using hb.symm)
        · simp at hb
    | ok p =>
      simp only [hb, Except.bind, bind_run] at h
      cases hbs : bytes eof past n p.2 with
      | error e' =>
        rw [hbs] at h
        exact ih (hbs.trans h)
      | ok q => simp [hbs] at h

/-- A window that returns ran its reader on the shorter range up to the end of that range, and
then restores the outer one. -/
theorem window_ok {len : Int} {short : Int → ε} {r : Reader ε α} {c c' : Cursor} {a : α}
    (h : window len short r c = .ok (a, c')) :
    ∃ c₁, r ⟨c.pos, c.bytes, len⟩ = .ok (a, c₁) ∧ c₁.left = 0 ∧
      c' = ⟨c₁.pos, c₁.bytes, c.left - len⟩ := by
  unfold window at h
  split at h
  · simp at h
  · next b c₁ hr =>
    split at h
    · next hleft =>
      simp only [Except.ok.injEq, Prod.mk.injEq] at h
      obtain ⟨rfl, rfl⟩ := h
      exact ⟨c₁, hr, hleft, rfl⟩
    · simp at h

/-! ## What a reader has taken -/

/-- The cursor has moved over the bytes `w`. -/
structure Cursor.Passes (c : Cursor) (w : List UInt8) (c' : Cursor) : Prop where
  bytes : c.bytes = w ++ c'.bytes
  left : c'.left = c.left - w.length

/-- A cursor that stays has moved over no bytes. -/
theorem Cursor.passes_nil (c : Cursor) : c.Passes [] c := ⟨rfl, by simp⟩

/-- Two moves after each other are one. -/
theorem Cursor.Passes.append {c c₁ c₂ : Cursor} {u v : List UInt8} (h : c.Passes u c₁)
    (h' : c₁.Passes v c₂) : c.Passes (u ++ v) c₂ := by
  refine ⟨by rw [h.bytes, h'.bytes, List.append_assoc], ?_⟩
  rw [h'.left, h.left, List.length_append]
  omega

/-- A reader that returns `a` has moved over bytes that `P` allows for `a`. -/
def Takes (r : Reader ε α) (P : α → List UInt8 → Prop) : Prop :=
  ∀ c c' a, r c = .ok (a, c') → ∃ w, c.Passes w c' ∧ P a w

section

variable {P : α → List UInt8 → Prop}

/-- A reader that returns at once moves over no bytes. -/
theorem takes_pure {a : α} (h : P a []) : Takes (pure a : Reader ε α) P := by
  intro c c' a' hrun
  obtain ⟨rfl, rfl⟩ := Prod.mk.inj (Except.ok.inj hrun)
  exact ⟨[], c.passes_nil, h⟩

/-- What is known of the bytes may be weakened. -/
theorem Takes.mono {r : Reader ε α} {Q : α → List UInt8 → Prop} (h : Takes r P)
    (hPQ : ∀ a w, P a w → Q a w) : Takes r Q := by
  intro c c' a hrun
  obtain ⟨w, hw, hP⟩ := h c c' a hrun
  exact ⟨w, hw, hPQ a w hP⟩

/-- Two readers in sequence move over the bytes of the first and then those of the second. -/
theorem Takes.bind {r : Reader ε α} {f : α → Reader ε β} {Q : α → β → List UInt8 → Prop}
    (hr : Takes r P) (hf : ∀ a, Takes (f a) (Q a)) :
    Takes (r >>= f) fun b w => ∃ a u v, P a u ∧ Q a b v ∧ w = u ++ v := by
  intro c c' b hrun
  obtain ⟨a, c₁, ha, hb⟩ := bind_ok.1 hrun
  obtain ⟨u, hu, hPu⟩ := hr c c₁ a ha
  obtain ⟨v, hv, hQv⟩ := hf a c₁ c' b hb
  exact ⟨u ++ v, hu.append hv, a, u, v, hPu, hQv, rfl⟩

/-- A result computed from what was read has the same bytes under it. -/
theorem Takes.ret {r : Reader ε α} (hr : Takes r P) (g : α → β) :
    Takes (r >>= fun a => pure (g a)) fun b w => ∃ a, b = g a ∧ P a w := by
  intro c c' b hrun
  obtain ⟨a, c₁, ha, hb⟩ := bind_ok.1 hrun
  obtain ⟨rfl, rfl⟩ := Prod.mk.inj (Except.ok.inj hb)
  obtain ⟨w, hw, hPw⟩ := hr c c₁ a ha
  exact ⟨w, hw, a, rfl, hPw⟩

end

/-- `byte` moves over the byte that it returns. -/
theorem takes_byte {eof past : ε} : Takes (byte eof past) fun b w => w = [b] := by
  intro c c' b hrun
  unfold byte at hrun
  split at hrun
  · cases hrun
  · split at hrun
    · cases hrun
    · next b' bs hbytes =>
      obtain ⟨rfl, rfl⟩ := Prod.mk.inj (Except.ok.inj hrun)
      exact ⟨[b'], ⟨hbytes, by simp⟩, rfl⟩

/-- `bytes` moves over the bytes that it returns, and they are as many as asked for. -/
theorem takes_bytes {eof past : ε} (n : Nat) :
    Takes (bytes eof past n) fun bs w => w = bs ∧ bs.length = n := by
  induction n with
  | zero => exact takes_pure ⟨rfl, rfl⟩
  | succ n ih =>
    refine (takes_byte.bind fun b => ih.ret (b :: ·)).mono ?_
    rintro _ _ ⟨b, _, _, rfl, ⟨bs, rfl, rfl, hlen⟩, rfl⟩
    exact ⟨rfl, by simp [hlen]⟩

/-- `rest` moves over the bytes that it returns. -/
theorem takes_rest {neg past : ε} : Takes (rest neg past) fun bs w => w = bs := by
  intro c c' bs hrun
  unfold rest at hrun
  split at hrun
  · cases hrun
  · split at hrun
    · cases hrun
    · obtain ⟨rfl, rfl⟩ := Prod.mk.inj (Except.ok.inj hrun)
      refine ⟨_, ⟨(List.take_append_drop _ _).symm, ?_⟩, rfl⟩
      simp only [List.length_take]
      omega

/-- The loop takes what its rounds take, one after the other. -/
theorem takes_many {fuel : ε} {r : Reader ε α} {P : α → List UInt8 → Prop} (hr : Takes r P) :
    Takes (many fuel r) fun as w => ∃ ws, List.Forall₂ P as ws ∧ w = ws.flatten := by
  have hupTo : ∀ n, Takes (manyUpTo fuel r n) fun as w =>
      ∃ ws, List.Forall₂ P as ws ∧ w = ws.flatten := by
    intro n
    induction n with
    | zero =>
      intro c c' as hrun
      cases hrun
    | succ n ih =>
      intro c c' as hrun
      simp only [manyUpTo] at hrun
      split at hrun
      · obtain ⟨rfl, rfl⟩ := Prod.mk.inj (Except.ok.inj hrun)
        exact ⟨[], c.passes_nil, [], .nil, rfl⟩
      · obtain ⟨_, hw, a, u, _, hPa, ⟨as', rfl, ws, hws, rfl⟩, rfl⟩ :=
          hr.bind (fun a => ih.ret (a :: ·)) c c' as hrun
        exact ⟨_, hw, u :: ws, .cons hPa hws, rfl⟩
  exact fun c c' as hrun => hupTo _ c c' as hrun

/-- In a window, the reader takes all of it. -/
theorem takes_window {len : Int} {short : Int → ε} {r : Reader ε α} {P : α → List UInt8 → Prop}
    (hr : Takes r P) : Takes (window len short r) fun a w => P a w ∧ (w.length : Int) = len := by
  intro c c' a hrun
  obtain ⟨c₁, hr₁, hleft, rfl⟩ := window_ok hrun
  obtain ⟨w, hw, hP⟩ := hr _ c₁ a hr₁
  have hlen : (w.length : Int) = len := by
    have h := hw.left
    dsimp only at h
    omega
  exact ⟨w, ⟨hw.bytes, by rw [hlen]⟩, hP, hlen⟩

/-! ## How a reader fails -/

/-- The reader fails with errors that are `good` only. -/
def Fails (good : ε → Prop) (r : Reader ε α) : Prop := ∀ c e, r c = .error e → good e

section

variable {good : ε → Prop}

/-- A reader that returns does not fail. -/
theorem fails_pure {a : α} : Fails good (pure a : Reader ε α) := by
  intro c e h
  cases h

/-- A reader that throws fails with the error it throws. -/
theorem fails_throw {e : ε} (he : good e) : Fails good (throw e : Reader ε α) := by
  intro c e' h
  exact Except.error.inj h ▸ he

/-- What follows a reader may use what the reader can return. -/
theorem fails_bind_of_ok {r : Reader ε α} {f : α → Reader ε β} (hr : Fails good r)
    (hf : ∀ a c c', r c = .ok (a, c') → Fails good (f a)) : Fails good (r >>= f) := by
  intro c e h
  rw [bind_run] at h
  cases hrc : r c with
  | error e' =>
    rw [hrc] at h
    exact Except.error.inj h ▸ hr c e' hrc
  | ok p =>
    rw [hrc] at h
    exact hf p.1 c p.2 hrc p.2 e h

/-- A sequence fails with the errors of its parts. -/
theorem fails_bind {r : Reader ε α} {f : α → Reader ε β} (hr : Fails good r)
    (hf : ∀ a, Fails good (f a)) : Fails good (r >>= f) :=
  fails_bind_of_ok hr fun a _ _ _ => hf a

/-- A computation that does not read fails with its own errors. -/
theorem fails_lift {x : Except ε α} (hx : ∀ e, x = .error e → good e) :
    Fails good (liftM x : Reader ε α) := by
  intro c e h
  cases x with
  | ok a => cases h
  | error e' => exact Except.error.inj h ▸ hx e' rfl

/-- `bytes` fails with its two errors only. -/
theorem fails_bytes {eof past : ε} (heof : good eof) (hpast : good past) (n : Nat) :
    Fails good (bytes eof past n) := by
  intro c e h
  rcases bytes_error h with rfl | rfl
  · exact heof
  · exact hpast

/-- `rest` fails with its two errors only. -/
theorem fails_rest {neg past : ε} (hneg : good neg) (hpast : good past) :
    Fails good (rest neg past) := by
  intro c e h
  unfold rest at h
  split at h
  · exact Except.error.inj h ▸ hneg
  · split at h
    · exact Except.error.inj h ▸ hpast
    · cases h

/-- `many` fails with the errors of its reader, or when it runs out of rounds. -/
theorem fails_many {fuel : ε} {r : Reader ε α} (hfuel : good fuel) (hr : Fails good r) :
    Fails good (many fuel r) := by
  have hupTo : ∀ n, Fails good (manyUpTo fuel r n) := by
    intro n
    induction n with
    | zero =>
      intro c e h
      exact Except.error.inj h ▸ hfuel
    | succ n ih =>
      intro c e h
      simp only [manyUpTo] at h
      split at h
      · cases h
      · exact fails_bind hr (fun _ => fails_bind ih fun _ => fails_pure) c e h
  exact fun c e h => hupTo _ c e h

/-- A window fails with the errors of its reader, or because the reader stopped before the end. -/
theorem fails_window {len : Int} {short : Int → ε} {r : Reader ε α} (hr : Fails good r)
    (hshort : ∀ left, good (short left)) : Fails good (window len short r) := by
  intro c e h
  unfold window at h
  split at h
  · next e' hrun => exact Except.error.inj h ▸ hr _ e' hrun
  · split at h
    · cases h
    · exact Except.error.inj h ▸ hshort _

end

/-! ## Staying inside the memory -/

/-- The memory goes on at least to the end of the range. -/
structure Cursor.Inside (c : Cursor) : Prop where
  left_nonneg : 0 ≤ c.left
  left_le : c.left ≤ c.bytes.length

/-- A range is inside the memory that holds it. -/
theorem Cursor.inside_range (pos : Nat) (bs behind : List UInt8) :
    (Cursor.range pos bs behind).Inside :=
  ⟨by simp [range], by simp [range]⟩

/-- The result of a reader at `c`: it has moved on by at least `n` bytes and is inside the memory,
or it has failed with an error that is `good`. -/
def Lands (good : ε → Prop) (n : Nat) (c : Cursor) : Except ε (α × Cursor) → Prop
  | .ok (_, c') => c'.Inside ∧ c'.bytes.length + n ≤ c.bytes.length
  | .error e => good e

/-- Inside the memory, the reader stays inside. -/
def Stays (good : ε → Prop) (n : Nat) (r : Reader ε α) : Prop :=
  ∀ c, c.Inside → Lands good n c (r c)

section

variable {n m : Nat} {good : ε → Prop}

/-- A reader that stays and returns is inside the memory and has moved on by `n` bytes. -/
theorem Stays.ok {r : Reader ε α} (h : Stays good n r) {c c' : Cursor} {a : α}
    (hc : c.Inside) (hr : r c = .ok (a, c')) :
    c'.Inside ∧ c'.bytes.length + n ≤ c.bytes.length := by
  have := h c hc
  rwa [hr] at this

/-- A reader that stays and fails does so with an error that is `good`. -/
theorem Stays.error {r : Reader ε α} (h : Stays good n r) {c : Cursor} {e : ε}
    (hc : c.Inside) (hr : r c = .error e) : good e := by
  have := h c hc
  rwa [hr] at this

/-- A reader that returns at once stays where it is. -/
theorem stays_pure {a : α} : Stays good 0 (pure a : Reader ε α) :=
  fun _ hc => ⟨hc, le_rfl⟩

/-- A reader that throws a `good` error stays inside, since it does not move. -/
theorem stays_throw {e : ε} (he : good e) : Stays good n (throw e : Reader ε α) :=
  fun _ _ => he

/-- A reader that moves on by `n` bytes moves on by fewer. -/
theorem Stays.mono {r : Reader ε α} (h : Stays good n r) (hmn : m ≤ n) : Stays good m r := by
  intro c hc
  cases hr : r c with
  | error e => exact h.error hc hr
  | ok p =>
    obtain ⟨hin, hshort⟩ := h.ok hc hr
    exact ⟨hin, by omega⟩

/-- Readers that stay do so in sequence, and the bytes they move on by add up. -/
theorem stays_bind {r : Reader ε α} {f : α → Reader ε β} (hr : Stays good n r)
    (hf : ∀ a, Stays good m (f a)) : Stays good (n + m) (r >>= f) := by
  intro c hc
  rw [bind_run]
  cases hrc : r c with
  | error e => exact hr.error hc hrc
  | ok p =>
    obtain ⟨a, c₁⟩ := p
    obtain ⟨hc₁, hshort⟩ := hr.ok hc hrc
    simp only [Except.bind]
    cases hfc : f a c₁ with
    | error e => exact (hf a).error hc₁ hfc
    | ok q =>
      obtain ⟨hc₂, hshort'⟩ := (hf a).ok hc₁ hfc
      exact ⟨hc₂, by omega⟩

/-- What is computed from the value read. -/
theorem Stays.map {r : Reader ε α} (hr : Stays good n r) (g : α → β) :
    Stays good n (r >>= fun a => pure (g a)) :=
  stays_bind hr fun _ => stays_pure

/-- Inside the memory `byte` moves on by one byte, or finds the range at its end. -/
theorem stays_byte {eof past : ε} (heof : good eof) : Stays good 1 (byte eof past) := by
  intro c hc
  obtain ⟨h0, h1⟩ := hc
  cases heq : byte eof past c with
  | ok p =>
    unfold byte at heq
    split at heq
    · cases heq
    · split at heq
      · cases heq
      · next hleft b bs hbytes =>
        obtain rfl := Except.ok.inj heq
        rw [hbytes, List.length_cons] at h1
        exact ⟨⟨by simp only; omega, by simp only; omega⟩, by simp [hbytes]⟩
  | error e =>
    unfold byte at heq
    split at heq
    · obtain rfl := Except.error.inj heq
      exact heof
    · split at heq
      · next hleft hbytes =>
        rw [hbytes, List.length_nil] at h1
        omega
      · cases heq

/-- Inside the memory `bytes` moves on by `n` bytes, or finds the range at its end. -/
theorem stays_bytes {eof past : ε} (heof : good eof) (n : Nat) :
    Stays good n (bytes eof past n) := by
  induction n with
  | zero => exact stays_pure
  | succ n ih =>
    have hstep : Stays good (1 + (n + 0)) (bytes eof past (n + 1)) :=
      stays_bind (stays_byte heof) fun _ => stays_bind ih fun _ => stays_pure
    exact hstep.mono (by omega)

/-- `rest` goes to the end of the range, which is inside the memory. -/
theorem stays_rest {neg past : ε} : Stays good 0 (rest neg past) := by
  intro c hc
  obtain ⟨h0, h1⟩ := hc
  have hneg : ¬ c.left < 0 := by omega
  have hpast : ¬ c.bytes.length < c.left.toNat := by omega
  simp only [rest, if_neg hneg, if_neg hpast]
  exact ⟨⟨le_rfl, by simp⟩, by simp⟩

/-- With more rounds than there are bytes the repetition stays inside and never runs out of
rounds. -/
theorem stays_manyUpTo {fuel : ε} {r : Reader ε α} (hr : Stays good 1 r) {n : Nat} {c : Cursor}
    (hn : c.bytes.length < n) (hc : c.Inside) : Lands good 0 c (manyUpTo fuel r n c) := by
  induction n generalizing c with
  | zero => omega
  | succ n ih =>
    simp only [manyUpTo]
    split
    · exact ⟨hc, le_rfl⟩
    · rw [bind_run]
      cases ha : r c with
      | error e => exact hr.error hc ha
      | ok p =>
        obtain ⟨hc₁, hshort⟩ := hr.ok hc ha
        have htail := ih (c := p.2) (by omega) hc₁
        simp only [Except.bind, bind_run]
        cases has : manyUpTo fuel r n p.2 with
        | error e =>
          rw [has] at htail
          exact htail
        | ok q =>
          rw [has] at htail
          obtain ⟨hc₂, hshort'⟩ := htail
          exact ⟨hc₂, by omega⟩

/-- A reader that takes a byte a round stays inside when it is repeated. -/
theorem stays_many {fuel : ε} {r : Reader ε α} (hr : Stays good 1 r) :
    Stays good 0 (many fuel r) := by
  intro c hc
  exact stays_manyUpTo hr (Nat.lt_succ_self c.bytes.length) hc

end

/-! ## With the end behind the iterator

A reader that compares iterators with `!=` does not see an end that lies behind it. -/

/-- With the end behind it, `r` takes `n` bytes, as far as the memory goes. -/
def Overreads (past : ε) (n : Nat) (r : Reader ε α) : Prop :=
  ∀ c, c.left < 0 →
    (c.bytes.length < n → r c = .error past) ∧
    (n ≤ c.bytes.length → ∃ a, r c = .ok (a, ⟨c.pos + n, c.bytes.drop n, c.left - n⟩))

/-- The end is still behind the iterator, or the reader has failed with an error that is `good`. -/
def Astray (good : ε → Prop) : Except ε (α × Cursor) → Prop
  | .ok (_, c') => c'.left < 0
  | .error e => good e

/-- With the end behind it, `r` takes `n` bytes, as far as the memory goes, before it looks for the
end. -/
def Strays (past : ε) (good : ε → Prop) (n : Nat) (r : Reader ε α) : Prop :=
  ∀ c, c.left < 0 →
    (c.bytes.length < n → r c = .error past) ∧ (n ≤ c.bytes.length → Astray good (r c))

/-- With the end behind it, `r` fails with an error that is `good`. -/
def Refuses (good : ε → Prop) (r : Reader ε α) : Prop :=
  ∀ c, c.left < 0 → ∃ e, r c = .error e ∧ good e

section

variable {n m : Nat} {past : ε} {good : ε → Prop}

/-- A reader that returns at once takes nothing behind the end. -/
theorem overreads_pure {a : α} : Overreads past 0 (pure a : Reader ε α) := by
  intro c _
  exact ⟨fun h => absurd h (Nat.not_lt_zero _), fun _ => ⟨a, by simp⟩⟩

/-- `byte` does not notice that the end is behind it. -/
theorem overreads_byte {eof : ε} : Overreads past 1 (byte eof past) := by
  intro c hc
  have hne : c.left ≠ 0 := by omega
  obtain ⟨pos, bs, left⟩ := c
  cases bs with
  | nil => exact ⟨fun _ => by simp [byte, hne], fun h => absurd h (by simp)⟩
  | cons b bs => exact ⟨fun h => absurd h (by simp), fun _ => ⟨b, by simp [byte, hne]⟩⟩

/-- What readers take behind the end adds up in sequence. -/
theorem Overreads.bind {r : Reader ε α} {f : α → Reader ε β} (hr : Overreads past n r)
    (hf : ∀ a, Overreads past m (f a)) : Overreads past (n + m) (r >>= f) := by
  intro c hc
  obtain ⟨hshort, hlong⟩ := hr c hc
  rw [bind_run]
  by_cases hn : c.bytes.length < n
  · rw [hshort hn]
    exact ⟨fun _ => rfl, fun h => by omega⟩
  · obtain ⟨a, ha⟩ := hlong (by omega)
    obtain ⟨hshort', hlong'⟩ :=
      hf a ⟨c.pos + n, c.bytes.drop n, c.left - n⟩ (by simp only; omega)
    simp only [List.length_drop] at hshort' hlong'
    simp only [ha, Except.bind]
    refine ⟨fun h => hshort' (by omega), fun h => ?_⟩
    obtain ⟨b, hb⟩ := hlong' (by omega)
    refine ⟨b, hb.trans ?_⟩
    simp only [List.drop_drop, Nat.add_assoc, Nat.cast_add, Int.sub_sub]

/-- What is computed from the value read. -/
theorem Overreads.map {r : Reader ε α} (hr : Overreads past n r) (g : α → β) :
    Overreads past n (r >>= fun a => pure (g a)) :=
  hr.bind fun _ => overreads_pure

/-- `bytes` does not notice that the end is behind it. -/
theorem overreads_bytes {eof : ε} (n : Nat) : Overreads past n (bytes eof past n) := by
  induction n with
  | zero => exact overreads_pure
  | succ n ih =>
    have hstep : Overreads past (1 + n) (bytes eof past (n + 1)) :=
      overreads_byte.bind fun b => ih.map (b :: ·)
    rwa [Nat.add_comm] at hstep

/-- A reader that takes `n` bytes behind the end has the end still behind it afterwards. -/
theorem Overreads.strays {r : Reader ε α} (hr : Overreads past n r) : Strays past good n r := by
  intro c hc
  obtain ⟨hshort, hlong⟩ := hr c hc
  refine ⟨hshort, fun h => ?_⟩
  obtain ⟨a, ha⟩ := hlong h
  rw [ha]
  show c.left - n < 0
  omega

/-- A reader that returns at once has the end still behind it. -/
theorem strays_pure {a : α} : Strays past good 0 (pure a : Reader ε α) :=
  overreads_pure.strays

/-- A reader that notices the end takes nothing behind it. -/
theorem Refuses.strays {r : Reader ε α} (hr : Refuses good r) : Strays past good 0 r := by
  intro c hc
  obtain ⟨e, he, hgood⟩ := hr c hc
  rw [he]
  exact ⟨fun h => absurd h (Nat.not_lt_zero _), fun _ => hgood⟩

/-- The bytes that both readers take are taken before the end is looked for. -/
theorem Overreads.strays_bind {r : Reader ε α} {f : α → Reader ε β} (hr : Overreads past n r)
    (hf : ∀ a, Strays past good m (f a)) : Strays past good (n + m) (r >>= f) := by
  intro c hc
  obtain ⟨hshort, hlong⟩ := hr c hc
  rw [bind_run]
  by_cases hn : c.bytes.length < n
  · rw [hshort hn]
    exact ⟨fun _ => rfl, fun h => by omega⟩
  · obtain ⟨a, ha⟩ := hlong (by omega)
    obtain ⟨hshort', hlong'⟩ :=
      hf a ⟨c.pos + n, c.bytes.drop n, c.left - n⟩ (by simp only; omega)
    simp only [List.length_drop] at hshort' hlong'
    rw [ha]
    exact ⟨fun h => hshort' (by omega), fun h => hlong' (by omega)⟩

/-- Once the end was looked for, no more bytes are taken. -/
theorem Strays.bind {r : Reader ε α} {f : α → Reader ε β} (hr : Strays past good n r)
    (hf : ∀ a, Strays past good 0 (f a)) : Strays past good n (r >>= f) := by
  intro c hc
  obtain ⟨hshort, hlong⟩ := hr c hc
  rw [bind_run]
  refine ⟨fun h => by rw [hshort h]; rfl, fun h => ?_⟩
  have hastray := hlong h
  cases hrun : r c with
  | error e =>
    rw [hrun] at hastray
    exact hastray
  | ok p =>
    rw [hrun] at hastray
    exact (hf p.1 p.2 hastray).2 (Nat.zero_le _)

/-- A reader that throws fails behind the end too. -/
theorem refuses_throw {e : ε} (he : good e) : Refuses good (throw e : Reader ε α) :=
  fun _ _ => ⟨e, rfl, he⟩

/-- A sequence fails behind the end if its first reader does. -/
theorem Refuses.bind {r : Reader ε α} {f : α → Reader ε β} (hr : Refuses good r) :
    Refuses good (r >>= f) := by
  intro c hc
  obtain ⟨e, he, hgood⟩ := hr c hc
  exact ⟨e, by rw [bind_run, he]; rfl, hgood⟩

/-- `rest` notices that the end is behind it. -/
theorem refuses_rest {neg : ε} (hneg : good neg) : Refuses good (rest neg past) := by
  intro c hc
  exact ⟨neg, by rw [rest, if_pos hc], hneg⟩

/-- Behind the end `many` has nothing to read and returns. -/
theorem strays_many {fuel : ε} {r : Reader ε α} : Strays past good 0 (many fuel r) := by
  intro c hc
  have hleft : c.left ≤ 0 := by omega
  have hrun : many fuel r c = .ok ([], c) := if_pos hleft
  rw [hrun]
  exact ⟨fun h => absurd h (Nat.not_lt_zero _), fun _ => hc⟩

/-- A window whose end is behind the iterator is never filled. -/
theorem Strays.window {r : Reader ε α} {len : Int} {short : Int → ε} (hr : Strays past good n r)
    (hlen : len < 0) (hshort : ∀ left, good (short left)) (c : Cursor) :
    (c.bytes.length < n → window len short r c = .error past) ∧
    (n ≤ c.bytes.length → ∃ e, window len short r c = .error e ∧ good e) := by
  obtain ⟨hpast, hlong⟩ := hr ⟨c.pos, c.bytes, len⟩ hlen
  unfold ByteReader.window
  refine ⟨fun h => by rw [hpast h], fun h => ?_⟩
  have hastray := hlong h
  cases hrun : r ⟨c.pos, c.bytes, len⟩ with
  | error e =>
    rw [hrun] at hastray
    exact ⟨e, rfl, hastray⟩
  | ok p =>
    obtain ⟨a, c'⟩ := p
    rw [hrun] at hastray
    have hne : c'.left ≠ 0 := Int.ne_of_lt hastray
    exact ⟨short c'.left, by simp only [if_neg hne], hshort _⟩

end

/-! ## Where a window or a loop fails -/

/-- A range that begins with `w`. -/
theorem Reads.range {r : Reader ε α} {w : List UInt8} {a : α} (h : Reads r w a) (pos : Nat)
    (bs behind : List UInt8) :
    r (.range pos (w ++ bs) behind) = .ok (a, .range (pos + w.length) bs behind) := by
  have hrun := h pos (bs ++ behind) (w ++ bs).length (by simp)
  simpa [Cursor.range] using hrun

/-- What a reader takes of a range, it leaves the rest of the range behind. -/
theorem Takes.range {r : Reader ε α} {P : α → List UInt8 → Prop} (hr : Takes r P) {pos : Nat}
    {bs behind : List UInt8} {a : α} {c' : Cursor} (h : r (.range pos bs behind) = .ok (a, c'))
    (hreads : ∀ w, w.length ≤ bs.length → P a w → Reads r w a) (hleft : 0 ≤ c'.left) :
    ∃ w rest, bs = w ++ rest ∧ P a w ∧ c' = .range (pos + w.length) rest behind := by
  obtain ⟨w, hw, hP⟩ := hr _ _ _ h
  have hbytes : bs ++ behind = w ++ c'.bytes := hw.bytes
  have hlen : w.length ≤ bs.length := by
    have hcount : c'.left = bs.length - w.length := hw.left
    omega
  obtain ⟨rest, rfl⟩ := List.prefix_of_prefix_length_le (List.prefix_append w c'.bytes)
    (hbytes ▸ List.prefix_append bs behind) hlen
  rw [(hreads w hlen hP).range] at h
  exact ⟨w, rest, rfl, hP, (Prod.mk.inj (Except.ok.inj h)).2.symm⟩

/-- A reader that stays inside takes the front of a range, or fails with an error that is `good`. -/
theorem Stays.range {r : Reader ε α} {P : α → List UInt8 → Prop} {good : ε → Prop} {n : Nat}
    (hr : Stays good n r) (htakes : Takes r P) (hreads : ∀ a w, P a w → Reads r w a) (pos : Nat)
    (bs behind : List UInt8) :
    (∃ e, r (.range pos bs behind) = .error e ∧ good e) ∨ ∃ a w rest, bs = w ++ rest ∧ P a w := by
  have hin := Cursor.inside_range pos bs behind
  cases hrun : r (.range pos bs behind) with
  | error e => exact .inl ⟨e, rfl, hr.error hin hrun⟩
  | ok p =>
    obtain ⟨w, rest, hbs, hP, _⟩ := htakes.range hrun (fun w _ hP => hreads p.1 w hP)
      (hr.ok hin hrun).1.left_nonneg
    exact .inr ⟨p.1, w, rest, hbs, hP⟩

/-- A sequence that begins with such a reader. -/
theorem error_of_bind_range {r : Reader ε α} {f : α → Reader ε β} {P : α → List UInt8 → Prop}
    {good : ε → Prop} {n : Nat} (hr : Stays good n r) (htakes : Takes r P)
    (hreads : ∀ a w, P a w → Reads r w a) {pos : Nat} {bs behind : List UInt8} {e : ε}
    (h : (r >>= f) (.range pos bs behind) = .error e) :
    good e ∨ ∃ a w rest, bs = w ++ rest ∧ P a w ∧
      f a (.range (pos + w.length) rest behind) = .error e := by
  rcases hr.range htakes hreads pos bs behind with ⟨e', he, hgood⟩ | ⟨a, w, rest, rfl, hP⟩
  · rw [bind_run, he] at h
    exact .inl (Except.error.inj h ▸ hgood)
  · rw [bind_run, (hreads a w hP).range] at h
    exact .inr ⟨a, w, rest, rfl, hP, h⟩

/-- A window over the first `w.length` bytes of a range runs its reader on them; the memory behind
them is still there. -/
theorem window_range {short : Int → ε} {r : Reader ε α} (pos : Nat) (w bs behind : List UInt8) :
    window w.length short r (.range pos (w ++ bs) behind) =
      match r (.range pos w (bs ++ behind)) with
      | .error e => .error e
      | .ok (a, c') =>
        if c'.left = 0 then .ok (a, ⟨c'.pos, c'.bytes, bs.length⟩) else .error (short c'.left) := by
  simp only [window, Cursor.range, List.append_assoc, List.length_append, Nat.cast_add,
    add_sub_cancel_left]

section

variable {fuel : ε} {r : Reader ε α} {P : α → List UInt8 → Prop} {behind : List UInt8}

/-- An error of a loop is an error of its body, behind the values that were read before. -/
theorem error_of_manyUpTo {l : Nat} (hr : ∀ pos bs a c', bs.length ≤ l →
      r (.range pos bs behind) = .ok (a, c') →
      ∃ w rest, w ≠ [] ∧ bs = w ++ rest ∧ P a w ∧ c' = .range (pos + w.length) rest behind)
    {n pos : Nat} {bs : List UInt8} (hl : bs.length ≤ l) (hn : bs.length < n) {e : ε}
    (h : manyUpTo fuel r n (.range pos bs behind) = .error e) :
    ∃ as ws rest, bs = ws.flatten ++ rest ∧ rest ≠ [] ∧ List.Forall₂ P as ws ∧
      r (.range (pos + ws.flatten.length) rest behind) = .error e := by
  induction n generalizing pos bs with
  | zero => omega
  | succ n ih =>
    simp only [manyUpTo] at h
    split at h
    · cases h
    · next hleft =>
      have hbs : bs ≠ [] := by
        rintro rfl
        exact hleft (by simp [Cursor.range])
      rw [bind_run] at h
      cases ha : r (.range pos bs behind) with
      | error e' =>
        rw [ha] at h
        obtain rfl := Except.error.inj h
        exact ⟨[], [], bs, rfl, hbs, .nil, ha⟩
      | ok p =>
        obtain ⟨w, rest, hw, rfl, hP, hc⟩ := hr pos bs p.1 p.2 hl ha
        have hwlen := List.length_pos_of_ne_nil hw
        rw [List.length_append] at hl hn
        rw [ha] at h
        simp only [Except.bind, bind_run, hc] at h
        cases htail : manyUpTo fuel r n (.range (pos + w.length) rest behind) with
        | ok q => simp [htail] at h
        | error e' =>
          simp only [htail, Except.error.injEq] at h
          obtain rfl := h
          obtain ⟨as, ws, rest', rfl, hrest', hPs, herr⟩ := ih (by omega) (by omega) htail
          refine ⟨p.1 :: as, w :: ws, rest', by simp, hrest', .cons hP hPs, ?_⟩
          rwa [List.flatten_cons, List.length_append, ← Nat.add_assoc]

/-- A loop fails where its body does, behind values that it reads. -/
theorem manyUpTo_error {as : List α} {ws : List (List UInt8)} (hws : List.Forall₂ (Reads r) ws as)
    {n pos : Nat} (hn : ws.length < n) {rest : List UInt8} (hrest : rest ≠ []) {e : ε}
    (h : r (.range (pos + ws.flatten.length) rest behind) = .error e) :
    manyUpTo fuel r n (.range pos (ws.flatten ++ rest) behind) = .error e := by
  induction hws generalizing n pos with
  | nil =>
    obtain ⟨m, rfl⟩ : ∃ m, n = m + 1 := ⟨n - 1, by omega⟩
    have hleft : ¬ (Cursor.range pos rest behind).left ≤ 0 := by
      have := List.length_pos_of_ne_nil hrest
      simp only [Cursor.range]
      omega
    have hfail : r (.range pos rest behind) = .error e := h
    simp only [List.flatten_nil, List.nil_append, manyUpTo, if_neg hleft, bind_run, hfail,
      Except.bind]
  | @cons w a ws as hw _ ih =>
    obtain ⟨m, rfl⟩ : ∃ m, n = m + 1 := ⟨n - 1, by omega⟩
    have hleft : ¬ (Cursor.range pos ((w :: ws).flatten ++ rest) behind).left ≤ 0 := by
      have := List.length_pos_of_ne_nil hrest
      simp only [Cursor.range, List.length_append]
      omega
    have hread := hw.range pos (ws.flatten ++ rest) behind
    have htail : manyUpTo fuel r m (.range (pos + w.length) (ws.flatten ++ rest) behind) =
        .error e :=
      ih (by simpa using hn) (by simpa [Nat.add_assoc] using h)
    simp only [List.flatten_cons, List.append_assoc] at hleft ⊢
    simp only [manyUpTo, if_neg hleft, bind_run, hread, Except.bind, htail]

end

end ByteReader
