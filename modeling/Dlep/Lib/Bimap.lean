import Mathlib.Data.List.Nodup
import Mathlib.Tactic

/-!
# Bidirectional maps

A finite bijection between two types, looked up from either side. No key and no value stands twice
in its entries, so that the two lookups agree (`left_eq_some_iff_right`).
-/

structure Bimap (α β : Type) where
  entries : List (α × β)
  left_nodup : (entries.map Prod.fst).Nodup
  right_nodup : (entries.map Prod.snd).Nodup

namespace Bimap

variable {α β : Type}

/-- The value of a key. -/
def left [DecidableEq α] (m : Bimap α β) (a : α) : Option β :=
  (m.entries.find? fun e => e.1 = a).map Prod.snd

/-- The key of a value. -/
def right [DecidableEq β] (m : Bimap α β) (b : β) : Option α :=
  (m.entries.find? fun e => e.2 = b).map Prod.fst

/-- In a list whose images under `f` are distinct, searching for the image of a member finds it. -/
theorem find?_eq_some_of_nodup {ε γ : Type} [DecidableEq γ] {f : ε → γ} {es : List ε}
    (h : (es.map f).Nodup) {e : ε} (he : e ∈ es) : (es.find? fun x => f x = f e) = some e := by
  induction es with
  | nil => simp at he
  | cons x es ih =>
    rw [List.map_cons, List.nodup_cons] at h
    rcases List.mem_cons.1 he with rfl | hmem
    · simp
    · have hne : f x ≠ f e := fun heq => h.1 (heq ▸ List.mem_map_of_mem hmem)
      rw [List.find?_cons_of_neg (by simpa using hne)]
      exact ih h.2 hmem

/-- What is found from the left is the pair that is there. -/
theorem left_eq_some_iff [DecidableEq α] (m : Bimap α β) {a : α} {b : β} :
    m.left a = some b ↔ (a, b) ∈ m.entries := by
  constructor
  · intro h
    obtain ⟨⟨a', b'⟩, hfind, rfl⟩ := Option.map_eq_some_iff.1 h
    have ha : a' = a := by simpa using List.find?_some hfind
    subst ha
    exact List.mem_of_find?_eq_some hfind
  · intro h
    rw [left, find?_eq_some_of_nodup m.left_nodup h]
    rfl

/-- What is found from the right is the pair that is there. -/
theorem right_eq_some_iff [DecidableEq β] (m : Bimap α β) {a : α} {b : β} :
    m.right b = some a ↔ (a, b) ∈ m.entries := by
  constructor
  · intro h
    obtain ⟨⟨a', b'⟩, hfind, rfl⟩ := Option.map_eq_some_iff.1 h
    have hb : b' = b := by simpa using List.find?_some hfind
    subst hb
    exact List.mem_of_find?_eq_some hfind
  · intro h
    rw [right, find?_eq_some_of_nodup m.right_nodup h]
    rfl

/-- The two lookups are inverse to each other. -/
theorem left_eq_some_iff_right [DecidableEq α] [DecidableEq β] (m : Bimap α β) {a : α} {b : β} :
    m.left a = some b ↔ m.right b = some a := by
  rw [left_eq_some_iff, right_eq_some_iff]

/-! ## Insertion -/

/-- A map without entries. -/
def empty : Bimap α β := ⟨[], List.nodup_nil, List.nodup_nil⟩

/-- The empty bimap has nothing on the left. -/
@[simp] theorem left_empty [DecidableEq α] (a : α) : (empty : Bimap α β).left a = none := rfl

/-- The empty bimap has nothing on the right. -/
@[simp] theorem right_empty [DecidableEq β] (b : β) : (empty : Bimap α β).right b = none := rfl

/-- Nothing is found from the left exactly for a key that no pair has. -/
theorem left_eq_none_iff [DecidableEq α] (m : Bimap α β) {a : α} :
    m.left a = none ↔ a ∉ m.entries.map Prod.fst := by
  simp only [left, Option.map_eq_none_iff, List.find?_eq_none, List.mem_map, not_exists]
  constructor
  · rintro h e ⟨he, rfl⟩
    exact h e he (by simp)
  · intro h e he heq
    exact h e ⟨he, by simpa using heq⟩

/-- Nothing is found from the right exactly for a value that no pair has. -/
theorem right_eq_none_iff [DecidableEq β] (m : Bimap α β) {b : β} :
    m.right b = none ↔ b ∉ m.entries.map Prod.snd := by
  simp only [right, Option.map_eq_none_iff, List.find?_eq_none, List.mem_map, not_exists]
  constructor
  · rintro h e ⟨he, rfl⟩
    exact h e he (by simp)
  · intro h e he heq
    exact h e ⟨he, by simpa using heq⟩

/-- A list without repetitions stays one when something new is added at its end. -/
theorem nodup_concat {γ : Type} {l : List γ} {c : γ} (hl : l.Nodup) (hc : c ∉ l) :
    (l ++ [c]).Nodup := by
  rw [List.nodup_append]
  refine ⟨hl, List.nodup_singleton c, fun x hx y hy => ?_⟩
  rw [List.mem_singleton.1 hy]
  exact ne_of_mem_of_not_mem hx hc

section

variable [DecidableEq α] [DecidableEq β]

/-- Insert an entry. If its key or its value is there already, nothing happens. -/
def insert (m : Bimap α β) (a : α) (b : β) : Bimap α β :=
  if h : m.left a = none ∧ m.right b = none then
    { entries := m.entries ++ [(a, b)]
      left_nodup := by
        rw [List.map_append]
        exact nodup_concat m.left_nodup (m.left_eq_none_iff.1 h.1)
      right_nodup := by
        rw [List.map_append]
        exact nodup_concat m.right_nodup (m.right_eq_none_iff.1 h.2) }
  else m

/-- The key has no other value and the value has no other key. -/
def Fits (m : Bimap α β) (a : α) (b : β) : Prop :=
  (∀ b', m.left a = some b' → b' = b) ∧ ∀ a', m.right b = some a' → a' = a

/-- A pair that is there fits. -/
theorem fits_of_right {m : Bimap α β} {a : α} {b : β} (h : m.right b = some a) : m.Fits a b := by
  constructor
  · intro b' hleft
    rw [m.left_eq_some_iff_right.2 h] at hleft
    exact (Option.some.inj hleft).symm
  · intro a' hright
    exact Option.some.inj (hright.symm.trans h)

/-- Inserting a pair that is there changes nothing. -/
theorem insert_of_right {m : Bimap α β} {a : α} {b : β} (h : m.right b = some a) :
    m.insert a b = m := by
  rw [insert, dif_neg]
  rintro ⟨-, hnone⟩
  rw [hnone] at h
  cases h

/-- An entry that fits is in the map after it was inserted, and the others stay. -/
theorem left_insert {m : Bimap α β} {a : α} {b : β} (h : m.Fits a b) (a' : α) :
    (m.insert a b).left a' = if a' = a then some b else m.left a' := by
  unfold insert
  split
  · next hnone =>
    simp only [left, List.find?_append]
    by_cases ha : a' = a
    · subst ha
      have hfind : m.entries.find? (fun e => e.1 = a') = none := by
        simpa [left] using hnone.1
      simp [hfind]
    · simp [ha, Ne.symm ha]
  · next hsome =>
    have hleft : m.left a = some b := by
      cases hl : m.left a with
      | some b' => rw [h.1 b' hl]
      | none =>
        cases hr : m.right b with
        | none => exact absurd ⟨hl, hr⟩ hsome
        | some a₁ =>
          obtain rfl := h.2 a₁ hr
          rw [← hl, left_eq_some_iff_right, hr]
    split
    · next ha => rw [ha, hleft]
    · rfl

/-- A pair that fits is found from the left after it is inserted. -/
theorem left_insert_self {m : Bimap α β} {a : α} {b : β} (h : m.Fits a b) :
    (m.insert a b).left a = some b := by
  rw [left_insert h, if_pos rfl]

/-- What was found from the left is found after an insertion that fits. -/
theorem left_insert_of_left {m : Bimap α β} {a a' : α} {b b' : β} (h : m.Fits a b)
    (hleft : m.left a' = some b') : (m.insert a b).left a' = some b' := by
  rw [left_insert h]
  split
  · next ha => rw [h.1 b' (ha ▸ hleft)]
  · exact hleft

/-- After an insertion that fits, the new value is found from the right and every other as before.
-/
theorem right_insert {m : Bimap α β} {a : α} {b : β} (h : m.Fits a b) (b' : β) :
    (m.insert a b).right b' = if b' = b then some a else m.right b' := by
  refine Option.ext fun a' => ?_
  rw [← left_eq_some_iff_right, left_insert h]
  by_cases ha : a' = a
  · subst ha
    by_cases hb : b' = b
    · simp [hb]
    · rw [if_pos rfl, if_neg hb, ← left_eq_some_iff_right]
      exact ⟨fun heq => absurd (Option.some.inj heq).symm hb, fun hl => absurd (h.1 b' hl) hb⟩
  · rw [if_neg ha, left_eq_some_iff_right]
    by_cases hb : b' = b
    · subst hb
      rw [if_pos rfl]
      exact ⟨fun hr => absurd (h.2 a' hr) ha, fun heq => absurd (Option.some.inj heq).symm ha⟩
    · rw [if_neg hb]

end

end Bimap
