import Mathlib.Tactic

/-!
# Runs of a deterministic machine

A machine takes a state and an input to the next state. `Along P` says that every step of a run
meets the condition `P`, which may look at the state the step is taken in. An invariant that the
steps keep under `P` holds after every run along `P`.
-/

namespace Runs

variable {σ ι : Type} {step : σ → ι → σ} {P Q : σ → ι → Prop} {s : σ} {is js : List ι}

/-- The state after the inputs. -/
def run (step : σ → ι → σ) (s : σ) (is : List ι) : σ := is.foldl step s

/-- Every step of the run meets the condition. -/
def Along (step : σ → ι → σ) (P : σ → ι → Prop) : σ → List ι → Prop
  | _, [] => True
  | s, i :: is => P s i ∧ Along step P (step s i) is

instance instDecidableAlong [∀ s i, Decidable (P s i)] : ∀ s is, Decidable (Along step P s is)
  | _, [] => .isTrue trivial
  | s, i :: is =>
    have := instDecidableAlong (step s i) is
    inferInstanceAs (Decidable (P s i ∧ Along step P (step s i) is))

/-- Without inputs the state stays. -/
@[simp] theorem run_nil : run step s [] = s := rfl

/-- The first input is the first step. -/
@[simp] theorem run_cons {i : ι} : run step s (i :: is) = run step (step s i) is := rfl

/-- A run over two lists of inputs goes on where the first list ended. -/
theorem run_append : run step s (is ++ js) = run step (run step s is) js := List.foldl_append

/-- A property holds along two lists of inputs exactly if it holds along the first and then along
the second. -/
theorem along_append :
    Along step P s (is ++ js) ↔ Along step P s is ∧ Along step P (run step s is) js := by
  induction is generalizing s with
  | nil => simp [Along]
  | cons i is ih => simp only [List.cons_append, Along, ih, run_cons, and_assoc]

/-- What every step keeps, every run keeps. -/
theorem Along.invariant {I : σ → Prop} (hstep : ∀ s i, I s → P s i → I (step s i))
    (h : Along step P s is) (hs : I s) : I (run step s is) := by
  induction is generalizing s with
  | nil => exact hs
  | cons i is ih => exact ih h.2 (hstep s i hs h.1)

/-- An invariant lets one condition on the steps stand in for another. -/
theorem Along.of_invariant {I : σ → Prop} (hstep : ∀ s i, I s → P s i → Q s i ∧ I (step s i))
    (h : Along step P s is) (hs : I s) : Along step Q s is := by
  induction is generalizing s with
  | nil => trivial
  | cons i is ih =>
    obtain ⟨hQ, hI⟩ := hstep s i hs h.1
    exact ⟨hQ, ih h.2 hI⟩

/-- A property along a run may be weakened. -/
theorem Along.imp (hPQ : ∀ s i, P s i → Q s i) (h : Along step P s is) : Along step Q s is := by
  induction is generalizing s with
  | nil => trivial
  | cons i is ih => exact ⟨hPQ s i h.1, ih h.2⟩

/-- What holds at the end of a run, and not at its beginning, came to hold in one of the steps. -/
theorem exists_step_of_run {I : σ → Prop} (hs : ¬ I s) (h : I (run step s is)) :
    ∃ pre i, pre ++ [i] <+: is ∧ ¬ I (run step s pre) ∧ I (step (run step s pre) i) := by
  induction is generalizing s with
  | nil => exact absurd h hs
  | cons i is ih =>
    by_cases hnext : I (step s i)
    · exact ⟨[], i, by simp, hs, hnext⟩
    · obtain ⟨pre, j, hpre, hbefore, hthen⟩ := ih hnext h
      exact ⟨i :: pre, j, List.cons_prefix_cons.2 ⟨rfl, hpre⟩, hbefore, hthen⟩

/-- Let a condition decide at every step whether a property goes on to hold. Then the property
holds all along a run exactly if every step meets the condition. -/
theorem forall_prefix_iff_along {I R : σ → Prop}
    (hstep : ∀ s i, I s → R s → P s i → I (step s i) ∧ (R (step s i) ↔ Q s i))
    (h : Along step P s is) (hI : I s) (hR : R s) :
    (∀ pre, pre <+: is → R (run step s pre)) ↔ Along step Q s is := by
  induction is generalizing s with
  | nil =>
    refine ⟨fun _ => trivial, fun _ pre hpre => ?_⟩
    rw [List.prefix_nil.1 hpre]
    exact hR
  | cons i is ih =>
    obtain ⟨hI', hiff⟩ := hstep s i hI hR h.1
    constructor
    · intro hall
      have hR' : R (step s i) := hall [i] (by simp)
      refine ⟨hiff.1 hR', (ih h.2 hI' hR').1 fun pre hpre => ?_⟩
      exact hall (i :: pre) (List.cons_prefix_cons.2 ⟨rfl, hpre⟩)
    · rintro ⟨hQ, hrest⟩ pre hpre
      cases pre with
      | nil => exact hR
      | cons j pre =>
        obtain ⟨rfl, hpre'⟩ := List.cons_prefix_cons.1 hpre
        exact (ih h.2 hI' (hiff.2 hQ)).2 hrest pre hpre'

/-- Two properties along a run hold together. -/
theorem Along.and (h : Along step P s is) (h' : Along step Q s is) :
    Along step (fun s i => P s i ∧ Q s i) s is := by
  induction is generalizing s with
  | nil => trivial
  | cons i is ih => exact ⟨⟨h.1, h'.1⟩, ih h.2 h'.2⟩

/-- A condition on the inputs alone. -/
theorem Along.and_inputs {X : ι → Prop} (h : Along step P s is) (hX : ∀ i ∈ is, X i) :
    Along step (fun s i => P s i ∧ X i) s is := by
  induction is generalizing s with
  | nil => trivial
  | cons i is ih =>
    obtain ⟨hi, his⟩ := List.forall_mem_cons.1 hX
    exact ⟨⟨h.1, hi⟩, ih h.2 his⟩

/-- A machine that keeps more beside the state makes the same runs. -/
theorem along_of_map {τ : Type} {step' : τ → ι → τ} {f : τ → σ}
    (hf : ∀ t i, f (step' t i) = step (f t) i) {t : τ} :
    Along step' (fun t i => P (f t) i) t is ↔ Along step P (f t) is := by
  induction is generalizing t with
  | nil => exact Iff.rfl
  | cons i is ih =>
    rw [Along, Along, ih, hf]

/-- The trivial property holds along every run. -/
theorem along_true : Along step (fun _ _ => True) s is := by
  induction is generalizing s with
  | nil => trivial
  | cons i is ih => exact ⟨trivial, ih⟩

end Runs
