import Mathlib.Tactic

/-!
# Tables of owners

A table lists what each owner has. Requests to add and to drop change the list of one owner. If
nothing is owned twice, the requests keep it so whenever what they add is free; if one of them
asks for something that is owned, nothing may change at all.
-/

namespace Ownership

variable {ω κ : Type}

/-- A request. -/
inductive Op (κ : Type) where
  | add (k : κ)
  | drop (k : κ)
  deriving DecidableEq

section

variable [DecidableEq κ]

/-- One request: what is there is not added again. -/
def apply (ks : List κ) : Op κ → List κ
  | .add k => if k ∈ ks then ks else ks ++ [k]
  | .drop k => ks.erase k

def applyAll (ks : List κ) (ops : List (Op κ)) : List κ := ops.foldl apply ks

/-- No requests change nothing. -/
@[simp] theorem applyAll_nil (ks : List κ) : applyAll ks [] = ks := rfl

/-- Requests are applied one after the other. -/
@[simp] theorem applyAll_cons (ks : List κ) (op : Op κ) (ops : List (Op κ)) :
    applyAll ks (op :: ops) = applyAll (apply ks op) ops := rfl

/-- One request makes no key appear twice. -/
theorem nodup_apply {ks : List κ} (h : ks.Nodup) (op : Op κ) : (apply ks op).Nodup := by
  cases op with
  | add k =>
    rw [apply]
    split
    · exact h
    · next hk =>
      refine List.nodup_append.2 ⟨h, List.nodup_singleton k, fun a ha b hb hab => hk ?_⟩
      rwa [← List.mem_singleton.1 hb, ← hab]
  | drop k => exact h.erase k

/-- Requests make no key appear twice. -/
theorem nodup_applyAll {ks : List κ} (h : ks.Nodup) (ops : List (Op κ)) :
    (applyAll ks ops).Nodup := by
  induction ops generalizing ks with
  | nil => exact h
  | cons op ops ih => exact ih (nodup_apply h op)

/-- What is there afterwards was there, or was added. -/
theorem mem_apply {ks : List κ} {op : Op κ} {k : κ} (h : k ∈ apply ks op) :
    k ∈ ks ∨ op = .add k := by
  cases op with
  | add k' =>
    rw [apply] at h
    split at h
    · exact .inl h
    · rcases List.mem_append.1 h with hold | hnew
      · exact .inl hold
      · exact .inr (by rw [List.mem_singleton.1 hnew])
  | drop k' => exact .inl (List.mem_of_mem_erase h)

/-- What is there after some requests was there before or was added by one of them. -/
theorem mem_applyAll {ks : List κ} {ops : List (Op κ)} {k : κ} (h : k ∈ applyAll ks ops) :
    k ∈ ks ∨ .add k ∈ ops := by
  induction ops generalizing ks with
  | nil => exact .inl h
  | cons op ops ih =>
    rcases ih h with hmid | hlater
    · rcases mem_apply hmid with hold | rfl
      · exact .inl hold
      · exact .inr (List.mem_cons_self ..)
    · exact .inr (List.mem_cons_of_mem _ hlater)

end

/-- Nothing is owned twice: not by one owner, and not by two. -/
structure Unique (t : ω → List κ) : Prop where
  once : ∀ o, (t o).Nodup
  one : ∀ {o o' k}, k ∈ t o → k ∈ t o' → o = o'

def Owned (t : ω → List κ) (k : κ) : Prop := ∃ o, k ∈ t o

/-- Everyone has what they had. -/
def SameOwners (t t' : ω → List κ) : Prop := ∀ o k, k ∈ t' o ↔ k ∈ t o

/-- What is expected of requests that add `adds`: nothing is owned twice, and if one of them is for
something that is owned, nothing changes. -/
def Keeps (adds : List κ) (t t' : ω → List κ) : Prop :=
  Unique t' ∧ ((∃ k ∈ adds, Owned t k) → SameOwners t t')

/-- A table in which nothing is owned twice keeps what is expected if it does not change. -/
theorem keeps_refl {adds : List κ} {t : ω → List κ} (h : Unique t) : Keeps adds t t :=
  ⟨h, fun _ _ _ => Iff.rfl⟩

variable [DecidableEq ω] {t : ω → List κ} {o : ω} {ks : List κ}

/-- The list of one owner may be replaced by things that it had or that are free. -/
theorem Unique.update (h : Unique t) (hnodup : ks.Nodup) (hfree : ∀ k ∈ ks, k ∈ t o ∨ ¬ Owned t k) :
    Unique (Function.update t o ks) := by
  -- nobody else has what the owner gets
  have hother : ∀ {o' k}, o' ≠ o → k ∈ ks → k ∉ t o' := by
    intro o' k hne hk hk'
    rcases hfree k hk with hown | hfree
    · exact hne (h.one hk' hown)
    · exact hfree ⟨o', hk'⟩
  refine ⟨fun o' => ?_, fun {o₁ o₂ k} h₁ h₂ => ?_⟩
  · rcases eq_or_ne o' o with rfl | hne
    · rwa [Function.update_self]
    · rw [Function.update_of_ne hne]
      exact h.once o'
  · rcases eq_or_ne o₁ o with rfl | hne₁
    · rcases eq_or_ne o₂ o₁ with rfl | hne₂
      · rfl
      · rw [Function.update_self] at h₁
        rw [Function.update_of_ne hne₂] at h₂
        exact absurd h₂ (hother hne₂ h₁)
    · rw [Function.update_of_ne hne₁] at h₁
      rcases eq_or_ne o₂ o with rfl | hne₂
      · rw [Function.update_self] at h₂
        exact absurd h₁ (hother hne₁ h₂)
      · rw [Function.update_of_ne hne₂] at h₂
        exact h.one h₁ h₂

/-- A table with one owner's keys replaced has the same owners exactly if the keys are the same.
-/
theorem sameOwners_update_iff : SameOwners t (Function.update t o ks) ↔ ∀ k, k ∈ ks ↔ k ∈ t o := by
  constructor
  · intro h k
    have hk := h o k
    rwa [Function.update_self] at hk
  · intro h o' k
    rcases eq_or_ne o' o with rfl | hne
    · rw [Function.update_self]
      exact h k
    · rw [Function.update_of_ne hne]

/-- A list that was replaced is as expected exactly if it has not changed, or nothing was asked for
that is owned. -/
theorem keeps_update_iff {adds : List κ} (h : Unique t) (hnodup : ks.Nodup)
    (hks : ∀ k ∈ ks, k ∈ t o ∨ k ∈ adds) :
    Keeps adds t (Function.update t o ks) ↔
      ((∃ k ∈ adds, Owned t k) → ∀ k, k ∈ ks ↔ k ∈ t o) := by
  constructor
  · exact fun hkeeps howned => sameOwners_update_iff.1 (hkeeps.2 howned)
  · intro hsame
    refine ⟨h.update hnodup fun k hk => ?_, fun howned => sameOwners_update_iff.2 (hsame howned)⟩
    rcases hks k hk with hold | hadd
    · exact .inl hold
    · by_cases hk' : Owned t k
      · exact .inl ((hsame ⟨k, hadd, hk'⟩ k).1 hk)
      · exact .inr hk'

end Ownership
