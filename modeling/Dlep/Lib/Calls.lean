import Mathlib.Tactic

/-!
# Calls that may throw

A call on an object reads and writes the object's state, and returns a value or throws. What it has
written before it throws stays written. `wp` is the condition on the state before a call under which
the call ends as wanted, with one rule for each way to compose calls. `Within R` says that a call
stays inside a relation between the states before and after, whether it returns or throws; its rules
need `R` to be reflexive and transitive only.
-/

namespace Calls

variable {ε σ τ α β : Type}

/-- A computation without state is a call that leaves the state alone. -/
instance monadLiftExcept : MonadLift (Except ε) (EStateM ε σ) where
  monadLift x :=
    match x with
    | .ok a => pure a
    | .error e => throw e

/-- From the state `s` the call returns with `Q`, or throws with `E`. -/
def wp (m : EStateM ε σ α) (Q : α → σ → Prop) (E : ε → σ → Prop) (s : σ) : Prop :=
  match m s with
  | .ok a s' => Q a s'
  | .error e s' => E e s'

/-- A computation without a state that returns hands its value on. -/
@[simp] theorem lift_ok_bind {a : α} {f : α → EStateM ε σ β} :
    ((liftM (Except.ok a : Except ε α) : EStateM ε σ α) >>= f) = f a := rfl

/-- A call on a part of the object. -/
def zoom (part : σ → τ) (put : τ → σ → σ) (m : EStateM ε τ α) : EStateM ε σ α := fun s =>
  match m (part s) with
  | .ok a t => .ok a (put t s)
  | .error e t => .error e (put t s)

section

variable {Q : α → σ → Prop} {E : ε → σ → Prop} {s : σ}

/-- A call that returns at once returns in the state it was made in. -/
@[simp] theorem wp_pure {a : α} : wp (pure a) Q E s ↔ Q a s := Iff.rfl

/-- A call that throws at once throws in the state it was made in. -/
@[simp] theorem wp_throw {e : ε} : wp (throw e : EStateM ε σ α) Q E s ↔ E e s := Iff.rfl

/-- What the first call establishes is where the second starts; if the first throws, the sequence
does. -/
@[simp] theorem wp_bind {m : EStateM ε σ β} {f : β → EStateM ε σ α} :
    wp (m >>= f) Q E s ↔ wp m (fun b s' => wp (f b) Q E s') E s := by
  simp only [wp, bind, EStateM.bind]
  cases m s <;> rfl

/-- Reading the state leaves it as it is. -/
@[simp] theorem wp_get {Q : σ → σ → Prop} : wp (get : EStateM ε σ σ) Q E s ↔ Q s s := Iff.rfl

/-- Writing the state replaces it. -/
@[simp] theorem wp_set {Q : PUnit → σ → Prop} {t : σ} :
    wp (set t : EStateM ε σ PUnit) Q E s ↔ Q ⟨⟩ t := Iff.rfl

/-- Changing the state applies the change to it. -/
@[simp] theorem wp_modify {Q : PUnit → σ → Prop} {f : σ → σ} :
    wp (modify f : EStateM ε σ PUnit) Q E s ↔ Q ⟨⟩ (f s) := Iff.rfl

/-- A computation without a state that returns leaves the state as it is. -/
@[simp] theorem wp_lift_ok {a : α} :
    wp (liftM (Except.ok a : Except ε α)) Q E s ↔ Q a s := Iff.rfl

/-- A computation without a state that throws leaves the state as it is. -/
@[simp] theorem wp_lift_error {e : ε} :
    wp (liftM (Except.error e : Except ε α)) Q E s ↔ E e s := Iff.rfl

/-- The handler starts in the state in which the call threw: nothing is rolled back. -/
@[simp] theorem wp_tryCatch {m : EStateM ε σ α} {h : ε → EStateM ε σ α} :
    wp (tryCatch m h) Q E s ↔ wp m Q (fun e s' => wp (h e) Q E s') s := by
  simp only [wp, tryCatch, tryCatchThe, MonadExceptOf.tryCatch, EStateM.tryCatch]
  cases m s <;> rfl

/-- The two outcomes of a computation without a state, side by side. -/
theorem wp_lift {x : Except ε α} (hok : ∀ a, x = .ok a → Q a s) (herr : ∀ e, x = .error e → E e s) :
    wp (liftM x) Q E s := by
  cases x with
  | ok a => exact hok a rfl
  | error e => exact herr e rfl

/-- A call on a part is the call on that part, with its state put back whether it returns or
throws. -/
theorem wp_zoom {part : σ → τ} {put : τ → σ → σ} {m : EStateM ε τ α} :
    wp (zoom part put m) Q E s ↔
      wp m (fun a t => Q a (put t s)) (fun e t => E e (put t s)) (part s) := by
  simp only [wp, zoom]
  cases m (part s) <;> rfl

/-- What a call is known to do can be used for what is wanted of it. -/
theorem wp.mono {m : EStateM ε σ α} {Q' : α → σ → Prop} {E' : ε → σ → Prop} (h : wp m Q E s)
    (hQ : ∀ a s', Q a s' → Q' a s') (hE : ∀ e s', E e s' → E' e s') : wp m Q' E' s := by
  unfold wp at *
  cases hm : m s with
  | ok a s' =>
    rw [hm] at h
    exact hQ a s' h
  | error e s' =>
    rw [hm] at h
    exact hE e s' h

/-- Two facts about a call hold of it together. -/
theorem wp.and {m : EStateM ε σ α} {Q' : α → σ → Prop} {E' : ε → σ → Prop} (h : wp m Q E s)
    (h' : wp m Q' E' s) :
    wp m (fun a s' => Q a s' ∧ Q' a s') (fun e s' => E e s' ∧ E' e s') s := by
  unfold wp at *
  cases hm : m s with
  | ok a s' =>
    rw [hm] at h h'
    exact ⟨h, h'⟩
  | error e s' =>
    rw [hm] at h h'
    exact ⟨h, h'⟩

/-- A call that does not throw returns. -/
theorem wp.exists_ok {m : EStateM ε σ α} (h : wp m Q (fun _ _ => False) s) :
    ∃ a s', m s = .ok a s' ∧ Q a s' := by
  unfold wp at h
  cases hm : m s with
  | ok a s' =>
    rw [hm] at h
    exact ⟨a, s', rfl, h⟩
  | error e s' =>
    rw [hm] at h
    exact h.elim

end

/-- What is wanted of a call may be proved by running it. -/
theorem wp_of_run {Q : α → σ → Prop} {E : ε → σ → Prop} {m : EStateM ε σ α} {s : σ}
    (hok : ∀ a s', m s = .ok a s' → Q a s') (herror : ∀ e s', m s = .error e s' → E e s') :
    wp m Q E s := by
  unfold wp
  cases hm : m s with
  | ok a s' => exact hok a s' hm
  | error e s' => exact herror e s' hm

/-- A call whose run is known. -/
theorem wp_of_ok {Q : α → σ → Prop} {E : ε → σ → Prop} {m : EStateM ε σ α} {s s' : σ} {a : α}
    (hm : m s = .ok a s') (h : Q a s') : wp m Q E s := by
  unfold wp
  rw [hm]
  exact h

/-- A sequence of calls, run. -/
theorem bind_run {m : EStateM ε σ α} {f : α → EStateM ε σ β} {s : σ} :
    (m >>= f) s =
      match m s with
      | .ok a s' => f a s'
      | .error e s' => .error e s' := rfl

/-- Running a call that reads the state first. -/
theorem get_bind_run {f : σ → EStateM ε σ α} {s : σ} : (get >>= f) s = f s s := rfl

/-- Running a call that writes the state first. -/
theorem set_bind_run {f : PUnit → EStateM ε σ α} {s t : σ} : (set t >>= f) s = f ⟨⟩ t := rfl

/-- Running a call that throws first. -/
theorem throw_bind_run {f : β → EStateM ε σ α} {e : ε} {s : σ} :
    ((throw e : EStateM ε σ β) >>= f) s = .error e s := rfl

/-- A sequence of calls returns if both do. -/
theorem bind_run_eq_ok {m : EStateM ε σ α} {f : α → EStateM ε σ β} {s t : σ} {b : β} :
    (m >>= f) s = .ok b t ↔ ∃ a s', m s = .ok a s' ∧ f a s' = .ok b t := by
  rw [bind_run]
  cases m s with
  | ok a s' => simp
  | error e s' => simp

/-- A loop over a list makes its first round, and goes on unless that throws. -/
theorem forM_cons_run {f : α → EStateM ε σ PUnit} {a : α} {as : List α} {s : σ} :
    (a :: as).forM f s =
      match f a s with
      | .ok _ s' => as.forM f s'
      | .error e s' => .error e s' := by
  rw [List.forM, bind_run]
  cases f a s <;> rfl

/-- The state a call leaves behind. -/
def after (m : EStateM ε σ α) (s : σ) : σ :=
  match m s with
  | .ok _ s' => s'
  | .error _ s' => s'

/-- A condition on the state alone is one on the state the call leaves behind. -/
theorem wp_after {m : EStateM ε σ α} {P : σ → Prop} {s : σ} :
    wp m (fun _ s' => P s') (fun _ s' => P s') s ↔ P (after m s) := by
  unfold wp after
  cases m s <;> rfl

/-- What the call leaves behind does not depend on what becomes of its value. -/
theorem after_bind_pure {m : EStateM ε σ α} {f : α → β} {s : σ} :
    after (m >>= fun a => pure (f a)) s = after m s := by
  simp only [after, bind, EStateM.bind]
  cases m s <;> rfl

/-! ## Staying inside a relation -/

/-- Whether it returns or throws, the call leads from a state to one related to it. -/
def Within (R : σ → σ → Prop) (m : EStateM ε σ α) : Prop := ∀ s, R s (after m s)

section

variable {R : σ → σ → Prop}

/-- A call within a relation leads to a related state in either case. -/
theorem Within.wp {m : EStateM ε σ α} (h : Within R m) (s : σ) :
    wp m (fun _ s' => R s s') (fun _ s' => R s s') s := wp_after.2 (h s)

/-- To be within a relation is shown by the rules for either outcome. -/
theorem within_of_wp {m : EStateM ε σ α}
    (h : ∀ s, Calls.wp m (fun _ s' => R s s') (fun _ s' => R s s') s) : Within R m :=
  fun s => wp_after.1 (h s)

/-- A call within a relation is within every larger one. -/
theorem Within.mono {R' : σ → σ → Prop} {m : EStateM ε σ α} (h : Within R m)
    (hR : ∀ s s', R s s' → R' s s') : Within R' m := fun s => hR _ _ (h s)

/-- A change within a relation is a call within it. -/
theorem within_modify {f : σ → σ} (h : ∀ s, R s (f s)) :
    Within R (modify f : EStateM ε σ PUnit) := h

/-- A call on a part is within a relation if putting its result back is. -/
theorem within_zoom {part : σ → τ} {put : τ → σ → σ} {m : EStateM ε τ α}
    (h : ∀ s, R s (put (after m (part s)) s)) : Within R (zoom part put m) := by
  refine within_of_wp fun s => wp_zoom.2 ?_
  exact wp_after.2 (h s)

section

variable [Std.Refl R]

/-- A call that returns at once is within every reflexive relation. -/
theorem within_pure {a : α} : Within R (pure a : EStateM ε σ α) := fun s => Std.Refl.refl s

/-- A call that throws at once is within every reflexive relation. -/
theorem within_throw {e : ε} : Within R (throw e : EStateM ε σ α) := fun s => Std.Refl.refl s

/-- Reading the state is within every reflexive relation. -/
theorem within_get : Within R (get : EStateM ε σ σ) := fun s => Std.Refl.refl s

/-- A computation without a state is within every reflexive relation. -/
theorem within_lift {x : Except ε α} : Within R (liftM x : EStateM ε σ α) := by
  intro s
  cases x with
  | ok a => exact Std.Refl.refl s
  | error e => exact Std.Refl.refl s

end

/-- A call that follows others stays inside the relation as they did. -/
theorem Within.wp_trans [IsTrans σ R] {m : EStateM ε σ α} (h : Within R m)
    {s₀ s : σ} (hs : R s₀ s) :
    Calls.wp m (fun _ s' => R s₀ s') (fun _ s' => R s₀ s') s :=
  (h.wp s).mono (fun _ _ h' => IsTrans.trans _ _ _ hs h') fun _ _ h' => IsTrans.trans _ _ _ hs h'

/-- Calls within a transitive relation are so in sequence. -/
theorem within_bind [IsTrans σ R] {m : EStateM ε σ β} {f : β → EStateM ε σ α} (hm : Within R m)
    (hf : ∀ b, Within R (f b)) : Within R (m >>= f) := by
  refine within_of_wp fun s => wp_bind.2 ((hm.wp s).mono ?_ fun _ _ h => h)
  exact fun b s' hs' => (hf b).wp_trans hs'

/-- A call inside one relation, followed by a call inside another. -/
theorem within_seq {R₁ R₂ : σ → σ → Prop} {m : EStateM ε σ β} {f : β → EStateM ε σ α}
    (hm : Within R₁ m) (hf : ∀ b, Within R₂ (f b)) (hthrow : ∀ s t, R₁ s t → R s t)
    (hcomp : ∀ s t u, R₁ s t → R₂ t u → R s u) : Within R (m >>= f) := by
  refine within_of_wp fun s => wp_bind.2 ((hm.wp s).mono ?_ fun _ t h => hthrow s t h)
  intro b t hst
  exact ((hf b).wp t).mono (fun _ u h => hcomp s t u hst h) fun _ u h => hcomp s t u hst h

/-- A choice is within a relation if both of its branches are. -/
theorem within_ite {p : Prop} [Decidable p] {m n : EStateM ε σ α} (hm : p → Within R m)
    (hn : ¬ p → Within R n) : Within R (if p then m else n) := by
  split
  · next h => exact hm h
  · next h => exact hn h

/-- A loop stays inside a relation if its body does. -/
theorem within_forM [Std.Refl R] [IsTrans σ R] {f : β → EStateM ε σ PUnit} {bs : List β}
    (hf : ∀ b ∈ bs, Within R (f b)) : Within R (bs.forM f) := by
  induction bs with
  | nil => exact within_pure
  | cons b bs ih =>
    obtain ⟨hb, hbs⟩ := List.forall_mem_cons.1 hf
    exact within_bind hb fun _ => ih hbs

end

/-! ## Calls that do not throw -/

/-- The call returns, whatever the state is. -/
def Returns (m : EStateM ε σ α) : Prop := ∀ s, wp m (fun _ _ => True) (fun _ _ => False) s

end Calls
