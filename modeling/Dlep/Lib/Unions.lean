import Mathlib.Data.Set.Lattice
import Mathlib.Tactic
import Mathlib.Order.CompletePartialOrder

/-!
# A union that is kept by differences

Several owners have a set each, and the union of the sets is kept on its own. When an owner gets
another set, what is new is added to the union, and what is gone is removed from it. Nobody counts
how many owners have an element, so the union stays right exactly if no other owner has what is
removed.
-/

namespace Unions

variable {ι α : Type} {t : ι → Set α} {i : ι} {s : Set α}

/-- What the owners have together. -/
def union (t : ι → Set α) : Set α := {a | ∃ i, a ∈ t i}

/-- What the owners other than `i` have. -/
def others (t : ι → Set α) (i : ι) : Set α := {a | ∃ j, j ≠ i ∧ a ∈ t j}

/-- No two owners have an element in common. -/
def Apart (t : ι → Set α) : Prop := ∀ i j, i ≠ j → Disjoint (t i) (t j)

/-- The union is what the others have and what one has. -/
theorem union_eq (t : ι → Set α) (i : ι) : union t = others t i ∪ t i := by
  ext a
  constructor
  · rintro ⟨j, hj⟩
    rcases eq_or_ne j i with rfl | hne
    · exact .inr hj
    · exact .inl ⟨j, hne, hj⟩
  · rintro (⟨j, -, hj⟩ | hi)
    · exact ⟨j, hj⟩
    · exact ⟨i, hi⟩

/-- Where the sets are apart, one is disjoint from what the others have. -/
theorem Apart.disjoint_others (h : Apart t) (i : ι) : Disjoint (t i) (others t i) := by
  refine Set.disjoint_left.2 ?_
  rintro a hi ⟨j, hne, hj⟩
  exact Set.disjoint_left.1 (h i j hne.symm) hi hj

variable [DecidableEq ι]

/-- What the others have does not depend on one's own set. -/
theorem others_update : others (Function.update t i s) i = others t i := by
  ext a
  constructor
  · rintro ⟨j, hne, hj⟩
    rw [Function.update_of_ne hne] at hj
    exact ⟨j, hne, hj⟩
  · rintro ⟨j, hne, hj⟩
    refine ⟨j, hne, ?_⟩
    rwa [Function.update_of_ne hne]

/-- Replacing one's own set replaces it in the union. -/
theorem union_update : union (Function.update t i s) = others t i ∪ s := by
  rw [union_eq _ i, others_update, Function.update_self]

/-- The union stays right exactly if no other owner has what is removed. -/
theorem replaced_eq_iff :
    (union t ∪ (s \ t i)) \ (t i \ s) = union (Function.update t i s) ↔
      Disjoint (t i \ s) (others t i) := by
  rw [union_update, union_eq t i, Set.disjoint_left]
  constructor
  · rintro h a ha hother
    have hmem : a ∈ others t i ∪ s := .inl hother
    rw [← h] at hmem
    exact hmem.2 ha
  · intro h
    ext a
    have ha := @h a
    simp only [Set.mem_sdiff, Set.mem_union] at ha ⊢
    tauto

end Unions
