import Mathlib.Tactic

/-!
# Cutting a stream into messages

A stream is cut at its front as long as a whole message is there. `size` gives the length of the
first message, if all of it is there; `Framer` says that a message is not empty, and that bytes
that come later do not change it. What is cut then does not depend on how the stream arrives
(`Cuts.append`).
-/

namespace Framing

variable {α : Type}

structure Framer (size : List α → Option Nat) : Prop where
  pos : ∀ {buf n}, size buf = some n → 0 < n
  le : ∀ {buf n}, size buf = some n → n ≤ buf.length
  append : ∀ {buf n} (more : List α), size buf = some n → size (buf ++ more) = some n

/-- The stream is cut into messages, and no whole message is left. -/
inductive Cuts (size : List α → Option Nat) : List α → List (List α) → List α → Prop where
  | done {buf : List α} (h : size buf = none) : Cuts size buf [] buf
  | more {buf rest : List α} {n : Nat} {msgs : List (List α)} (h : size buf = some n)
      (hrest : Cuts size (buf.drop n) msgs rest) : Cuts size buf (buf.take n :: msgs) rest

variable {size : List α → Option Nat} {buf rest : List α} {msgs : List (List α)}

/-- The messages and what is left are the stream. -/
theorem Cuts.flatten (h : Cuts size buf msgs rest) : msgs.flatten ++ rest = buf := by
  induction h with
  | done _ => rfl
  | more _ _ ih => rw [List.flatten_cons, List.append_assoc, ih, List.take_append_drop]

/-- What is left is not a whole message. -/
theorem Cuts.size_rest (h : Cuts size buf msgs rest) : size rest = none := by
  induction h with
  | done h => exact h
  | more _ _ ih => exact ih

/-- A stream is cut in one way only. -/
theorem Cuts.unique {msgs' : List (List α)} {rest' : List α} (h : Cuts size buf msgs rest)
    (h' : Cuts size buf msgs' rest') : msgs = msgs' ∧ rest = rest' := by
  induction h generalizing msgs' with
  | done h =>
    cases h' with
    | done _ => exact ⟨rfl, rfl⟩
    | more hn _ => simp [h] at hn
  | more h _ ih =>
    cases h' with
    | done hn => simp [h] at hn
    | more hn hrest' =>
      obtain rfl := Option.some.inj (h.symm.trans hn)
      obtain ⟨rfl, rfl⟩ := ih hrest'
      exact ⟨rfl, rfl⟩

namespace Framer

variable (hsize : Framer size)

include hsize

/-- Every stream can be cut. -/
theorem exists_cuts (buf : List α) : ∃ msgs rest, Cuts size buf msgs rest := by
  induction hlen : buf.length using Nat.strong_induction_on generalizing buf with
  | _ len ih =>
    cases hn : size buf with
    | none => exact ⟨[], buf, .done hn⟩
    | some n =>
      have hpos := hsize.pos hn
      have hle := hsize.le hn
      obtain ⟨msgs, rest, hrest⟩ := ih (buf.drop n).length (by simp; omega) _ rfl
      exact ⟨_, rest, .more hn hrest⟩

/-- What arrives later is cut where the earlier cuts have ended. -/
theorem cuts_append {more rest' : List α} {msgs' : List (List α)} (h : Cuts size buf msgs rest)
    (h' : Cuts size (rest ++ more) msgs' rest') :
    Cuts size (buf ++ more) (msgs ++ msgs') rest' := by
  induction h with
  | done _ => exact h'
  | @more buf rest n msgs hn _ ih =>
    have hle := hsize.le hn
    have htail := ih h'
    rw [← List.drop_append_of_le_length hle] at htail
    rw [List.cons_append, ← List.take_append_of_le_length hle]
    exact .more (hsize.append more hn) htail

/-- Messages that stand one after the other, followed by something that is not a whole message. -/
theorem cuts_flatten (hmsgs : ∀ m ∈ msgs, size m = some m.length) (hrest : Cuts size rest [] rest) :
    Cuts size (msgs.flatten ++ rest) msgs rest := by
  induction msgs with
  | nil => exact hrest
  | cons m msgs ih =>
    obtain ⟨hm, hmsgs⟩ := List.forall_mem_cons.1 hmsgs
    have hn := hsize.append (msgs.flatten ++ rest) hm
    have hcut := Cuts.more hn (by rw [List.drop_left]; exact ih hmsgs)
    rwa [List.take_left, ← List.append_assoc] at hcut

/-- There are no more messages than elements. -/
theorem length_le (h : Cuts size buf msgs rest) : msgs.length ≤ buf.length := by
  induction h with
  | done _ => simp
  | @more buf rest n msgs hn _ ih =>
    have hpos := hsize.pos hn
    have hle := hsize.le hn
    simp only [List.length_cons, List.length_drop] at ih ⊢
    omega

end Framer

end Framing
