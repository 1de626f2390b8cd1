import Dlep.Lib.Runs
import Mathlib.Logic.Function.Basic

/-!
# Parties on the air

Parties with states of their own say things over a medium that everybody hears, or does not: what
was said once may be heard by anyone, at any time, any number of times. So what a party believes
of what it hears holds if it holds of all that was ever said before; and everything that is on the
air was said by a party in a state that it was in.
-/

namespace Broadcast

open Runs

variable {ι σ ε δ μ : Type}

/-- What a party does: an event may make it say something, and it hears what was said. -/
structure Party (σ ε δ μ : Type) where
  act : σ → ε → σ × Option μ
  hear : σ → δ → μ → σ

/-- The states of the parties, and all that was said. -/
structure Net (ι σ μ : Type) where
  states : ι → σ
  air : List μ := []

/-- Something happens to a party, or it hears the `k`th of the things that were said. -/
inductive Input (ι ε δ : Type) where
  | act (i : ι) (e : ε)
  | hear (i : ι) (x : δ) (k : Nat)

variable [DecidableEq ι] (party : Party σ ε δ μ)

def step (net : Net ι σ μ) : Input ι ε δ → Net ι σ μ
  | .act i e =>
    { states := Function.update net.states i (party.act (net.states i) e).1
      air := net.air ++ (party.act (net.states i) e).2.toList }
  | .hear i x k =>
    match net.air[k]? with
    | some m => { net with states := Function.update net.states i (party.hear (net.states i) x m) }
    | none => net

/-- The message was said in the run, by a party in the state that it was in. -/
def Uttered (net : Net ι σ μ) (inputs : List (Input ι ε δ)) (m : μ) : Prop :=
  ∃ pre i e, pre ++ [.act i e] <+: inputs ∧
    (party.act ((run (step party) net pre).states i) e).2 = some m

variable {party} {net : Net ι σ μ} {inputs inputs' : List (Input ι ε δ)}

/-- What was said in a run was said in every run that goes on from it. -/
theorem Uttered.mono {m : μ} (h : Uttered party net inputs m) (hpre : inputs <+: inputs') :
    Uttered party net inputs' m := by
  obtain ⟨pre, i, e, hbefore, hsaid⟩ := h
  exact ⟨pre, i, e, hbefore.trans hpre, hsaid⟩

/-- The last input is the last step. -/
theorem run_concat {input : Input ι ε δ} :
    run (step party) net (inputs ++ [input]) = step party (run (step party) net inputs) input := by
  rw [run_append]
  rfl

/-- All that is on the air was said. -/
theorem uttered_of_mem_air (hair : net.air = []) {m : μ}
    (hm : m ∈ (run (step party) net inputs).air) :
    Uttered party net inputs m := by
  induction inputs using List.reverseRecOn with
  | nil =>
    rw [run_nil, hair] at hm
    cases hm
  | append_singleton inputs input ih =>
    have hbefore : inputs <+: inputs ++ [input] := List.prefix_append ..
    rw [run_concat] at hm
    cases input with
    | act i e =>
      rcases List.mem_append.1 hm with hold | hnew
      · exact (ih hold).mono hbefore
      · exact ⟨inputs, i, e, List.prefix_rfl, Option.mem_toList.1 hnew⟩
    | hear i x k =>
      simp only [step] at hm
      split at hm
      · exact (ih hm).mono hbefore
      · exact (ih hm).mono hbefore

/-- What is kept by every event, and by hearing whatever was said, holds of every party in every
run. The condition may name what was said. -/
theorem holds_of_run {I : (μ → Prop) → ι → σ → Prop}
    (hmono : ∀ T T' i s, (∀ m, T m → T' m) → I T i s → I T' i s)
    (hact : ∀ T i s e, I T i s → I T i (party.act s e).1)
    (hhear : ∀ T i s x m, T m → I T i s → I T i (party.hear s x m)) (hair : net.air = [])
    (hinit : ∀ T i, I T i (net.states i)) (i : ι) :
    I (Uttered party net inputs) i ((run (step party) net inputs).states i) := by
  induction inputs using List.reverseRecOn generalizing i with
  | nil => exact hinit _ i
  | append_singleton inputs input ih =>
    have hlater : ∀ i, I (Uttered party net (inputs ++ [input])) i
        ((run (step party) net inputs).states i) := fun i =>
      hmono _ _ i _ (fun m hm => hm.mono (List.prefix_append ..)) (ih i)
    rw [run_concat]
    cases input with
    | act j e =>
      simp only [step, Function.update_apply]
      split
      · next hij => exact hij ▸ hact _ j _ e (hlater j)
      · exact hlater i
    | hear j x k =>
      simp only [step]
      split
      · next m hk =>
        have hsaid := uttered_of_mem_air hair (List.mem_of_getElem? hk)
        simp only [Function.update_apply]
        split
        · next hij => exact hij ▸ hhear _ j _ x m (hsaid.mono (List.prefix_append ..)) (hlater j)
        · exact hlater i
      · exact hlater i

end Broadcast
