import Mathlib.Tactic

/-!
# Folds that can fail

A loop that processes the elements of a list one after the other and gives up at the first error is
`List.foldlM` in `Except`. `foldlM_induct` is its induction rule: the invariant speaks of the
elements already processed. `foldlM_grows` is the case where a state only grows, so that what an
element has added is still there at the end.
-/

namespace Folds

variable {ε σ α β : Type} {f : σ → α → Except ε σ}

/-- The induction behind `foldlM_induct`, from any point of the list. -/
theorem foldlM_induct_from {I : List α → σ → Prop}
    (hstep : ∀ done s a s', I done s → f s a = .ok s' → I (done ++ [a]) s') :
    ∀ {as done : List α} {s s' : σ}, I done s → as.foldlM f s = .ok s' → I (done ++ as) s'
  | [], done, s, s', hI, h => by
    rw [List.foldlM_nil] at h
    cases h
    rwa [List.append_nil]
  | a :: as, done, s, s', hI, h => by
    rw [List.foldlM_cons] at h
    cases hs : f s a with
    | error e =>
      rw [hs] at h
      cases h
    | ok s₁ =>
      rw [hs] at h
      have hrest := foldlM_induct_from hstep (hstep done s a s₁ hI hs) h
      rwa [List.append_assoc] at hrest

/-- What holds of no element and is kept when one more is processed holds of all of them. -/
theorem foldlM_induct {I : List α → σ → Prop}
    (hstep : ∀ done s a s', I done s → f s a = .ok s' → I (done ++ [a]) s')
    {as : List α} {s s' : σ} (hI : I [] s) (h : as.foldlM f s = .ok s') : I as s' :=
  foldlM_induct_from hstep hI h

/-- A step that keeps an invariant, leads to a larger state and adds what its element stands for:
then the whole run does all three. -/
theorem foldlM_grows {I : σ → Prop} {R : σ → σ → Prop} {D : α → σ → Prop}
    (hrefl : ∀ s, R s s) (htrans : ∀ {s₁ s₂ s₃}, R s₁ s₂ → R s₂ s₃ → R s₁ s₃)
    (hstays : ∀ {a s s'}, R s s' → D a s → D a s')
    (hstep : ∀ {s a s'}, I s → f s a = .ok s' → I s' ∧ R s s' ∧ D a s')
    {as : List α} {s s' : σ} (hI : I s) (h : as.foldlM f s = .ok s') :
    I s' ∧ R s s' ∧ ∀ a ∈ as, D a s' := by
  have hrun := foldlM_induct (f := f)
    (I := fun done t => I t ∧ R s t ∧ ∀ a ∈ done, D a t) ?_
    ⟨hI, hrefl s, fun a ha => nomatch ha⟩ h
  · exact hrun
  · rintro done t a t' ⟨ht, hR, hD⟩ hs
    obtain ⟨ht', hR', ha⟩ := hstep ht hs
    refine ⟨ht', htrans hR hR', fun b hb => ?_⟩
    rcases List.mem_append.1 hb with hdone | hlast
    · exact hstays hR' (hD b hdone)
    · rwa [List.mem_singleton.1 hlast]

/-- What every result of a call has, every result of a list of calls has. -/
theorem forall_mem_of_mapM {f : α → Except ε β} {P : β → Prop}
    (hf : ∀ a b, f a = .ok b → P b) :
    ∀ {as : List α} {bs : List β}, as.mapM f = .ok bs → ∀ b ∈ bs, P b
  | [], bs, h => by
    rw [List.mapM_nil] at h
    cases h
    exact fun b hb => nomatch hb
  | a :: as, bs, h => by
    rw [List.mapM_cons] at h
    cases ha : f a with
    | error e =>
      rw [ha] at h
      cases h
    | ok b =>
      rw [ha] at h
      cases has : as.mapM f with
      | error e =>
        rw [has] at h
        cases h
      | ok rest =>
        rw [has] at h
        cases h
        intro c hc
        rcases List.mem_cons.1 hc with rfl | hrest
        · exact hf a _ ha
        · exact forall_mem_of_mapM hf has c hrest

/-- Where every result of a call gives back what it was called with, the results give back the
list. -/
theorem map_eq_of_mapM {f : α → Except ε β} {g : β → α} (hf : ∀ a b, f a = .ok b → g b = a) :
    ∀ {as : List α} {bs : List β}, as.mapM f = .ok bs → bs.map g = as
  | [], bs, h => by
    rw [List.mapM_nil] at h
    cases h
    rfl
  | a :: as, bs, h => by
    rw [List.mapM_cons] at h
    cases ha : f a with
    | error e =>
      rw [ha] at h
      cases h
    | ok b =>
      rw [ha] at h
      cases has : as.mapM f with
      | error e =>
        rw [has] at h
        cases h
      | ok rest =>
        rw [has] at h
        cases h
        rw [List.map_cons, hf a b ha, map_eq_of_mapM hf has]

end Folds
