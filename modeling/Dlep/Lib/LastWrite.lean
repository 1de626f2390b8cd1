import Dlep.Lib.Ownership

/-!
# The last write

Where writes follow one another, what is there in the end is what the last write for it left.
`last p` is the last element of a list with `p`, and it is all that the end of a run depends on:
of a map that is written by key, and of a list that things are added to and dropped from.
-/

namespace LastWrite

variable {α β : Type}

/-- The last element with `p`. -/
def last (p : α → Bool) (as : List α) : Option α := (as.filter p).getLast?

variable {p q : α → Bool} {as bs : List α} {a : α}

/-- An empty list has no last element with `p`. -/
@[simp] theorem last_nil : last p [] = none := rfl

/-- The last element with `p` is that of the second list if there is one. -/
theorem last_append : last p (as ++ bs) = (last p bs).or (last p as) := by
  rw [last, List.filter_append, List.getLast?_append]
  rfl

/-- One write more. -/
theorem last_concat : last p (as ++ [a]) = if p a then some a else last p as := by
  rw [last_append, last, List.filter_singleton]
  cases p a with
  | true => rfl
  | false => rfl

/-- The last element with `p` is an element, and has `p`. -/
theorem last_eq_some (h : last p as = some a) : a ∈ as ∧ p a = true :=
  List.mem_filter.1 (List.mem_of_getLast? h)

/-- There is no last element with `p` exactly if none has `p`. -/
theorem last_eq_none_iff : last p as = none ↔ ∀ a ∈ as, p a = false := by
  rw [last, List.getLast?_eq_none_iff, List.filter_eq_nil_iff]
  simp only [Bool.not_eq_true]

/-- Properties that agree on the elements have the same last element. -/
theorem last_congr (h : ∀ a ∈ as, p a = q a) : last p as = last q as := by
  rw [last, last, List.filter_congr h]

/-- The last element of a list that was mapped and filtered. -/
theorem last_filterMap {f : α → Option β} {r : β → Bool} :
    last r (as.filterMap f) = (last (fun a => (f a).any r) as).bind f := by
  induction as using List.reverseRecOn with
  | nil => rfl
  | append_singleton as a ih =>
    rw [List.filterMap_append, last_concat]
    cases hf : f a with
    | none => simpa [hf] using ih
    | some b =>
      rw [List.filterMap_cons_some hf, List.filterMap_nil, last_concat]
      cases hr : r b with
      | true => simp [hr, hf]
      | false => simpa [hr] using ih

end LastWrite

namespace Ownership

open LastWrite

variable {κ : Type} [DecidableEq κ]

/-- What a request is for. -/
def Op.key : Op κ → κ
  | .add k => k
  | .drop k => k

variable {ks : List κ} {k : κ} {ops : List (Op κ)}

/-- After one request the key it is for is there exactly if it was an addition; every other key is
as before. -/
theorem mem_apply_iff (h : ks.Nodup) {op : Op κ} :
    k ∈ apply ks op ↔ if op.key = k then op = .add k else k ∈ ks := by
  cases op with
  | add k' =>
    rw [apply, Op.key]
    split
    · next hmem =>
      split
      · next heq => simpa [heq] using heq ▸ hmem
      · exact Iff.rfl
    · split
      · next heq => simp [heq]
      · next hne => simp [Ne.symm hne]
  | drop k' =>
    rw [apply, Op.key, h.mem_erase_iff]
    split
    · next heq => simp [heq]
    · next hne => simp [Ne.symm hne]

/-- The last request for a thing decides whether it is there. -/
theorem mem_applyAll_iff (h : ks.Nodup) :
    k ∈ applyAll ks ops ↔
      match last (fun op => decide (op.key = k)) ops with
      | some op => op = .add k
      | none => k ∈ ks := by
  induction ops using List.reverseRecOn with
  | nil => exact Iff.rfl
  | append_singleton ops op ih =>
    have happly : applyAll ks (ops ++ [op]) = apply (applyAll ks ops) op := List.foldl_append
    rw [happly, mem_apply_iff (nodup_applyAll h ops), last_concat]
    by_cases hkey : op.key = k
    · simp [hkey]
    · simpa [hkey] using ih

/-- Requests that do not contradict each other: the order does not matter. -/
theorem mem_applyAll_of_disjoint (h : ks.Nodup) (hops : .add k ∈ ops → .drop k ∉ ops) :
    k ∈ applyAll ks ops ↔ (k ∈ ks ∧ .drop k ∉ ops) ∨ .add k ∈ ops := by
  rw [mem_applyAll_iff h]
  cases hlast : last (fun op => decide (op.key = k)) ops with
  | none =>
    have hnone : ∀ op ∈ ops, op.key ≠ k := by simpa using last_eq_none_iff.1 hlast
    have hadd : Op.add k ∉ ops := fun hmem => hnone _ hmem rfl
    have hdrop : Op.drop k ∉ ops := fun hmem => hnone _ hmem rfl
    simp [hadd, hdrop]
  | some op =>
    obtain ⟨hmem, hkey⟩ := last_eq_some hlast
    cases op with
    | add k' =>
      obtain rfl : k' = k := of_decide_eq_true hkey
      simp [hmem]
    | drop k' =>
      obtain rfl : k' = k := of_decide_eq_true hkey
      have hadd : Op.add k' ∉ ops := fun hadd => hops hadd hmem
      simp [hmem, hadd]

end Ownership
