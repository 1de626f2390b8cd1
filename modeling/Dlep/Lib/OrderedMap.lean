import Mathlib.Tactic

/-!
# Searching an ordered map

A `std::map` is an `ExtTreeMap`: a finite map that is traversed in the order of its keys. These are
the facts by which a traversal that looks for an entry is the same as a lookup.
-/

namespace OrderedMap

open Std

variable {κ α : Type} [Ord κ] [TransOrd κ] [LawfulEqOrd κ]

/-- A scan for a property that only the value under `k` has finds that value. -/
theorem filter_toList_eq (m : ExtTreeMap κ α) (p : α → Bool) (k : κ)
    (hp : ∀ j a, m[j]? = some a → (p a ↔ j = k)) :
    (m.toList.map Prod.snd).filter p = (m[k]?).toList := by
  have hpairs : m.toList.filter (fun e => p e.2) = ((m[k]?).map fun a => (k, a)).toList := by
    have hnodup : (m.toList.filter fun e => p e.2).Nodup :=
      (List.Nodup.of_map Prod.fst (by
        rw [ExtTreeMap.map_fst_toList_eq_keys]
        exact ExtTreeMap.nodup_keys)).filter _
    have hmem : ∀ e, e ∈ m.toList.filter (fun e => p e.2) ↔ m[k]? = some e.2 ∧ e.1 = k := by
      intro e
      rw [List.mem_filter, ExtTreeMap.mem_toList_iff_getElem?_eq_some]
      constructor
      · rintro ⟨hget, hpe⟩
        have := (hp _ _ hget).1 hpe
        exact ⟨this ▸ hget, this⟩
      · rintro ⟨hget, rfl⟩
        exact ⟨hget, (hp _ _ hget).2 rfl⟩
    cases hk : m[k]? with
    | none =>
      apply List.eq_nil_iff_forall_not_mem.2
      intro e he
      have := ((hmem e).1 he).1
      simp [hk] at this
    | some a =>
      have hone : ∀ e, e ∈ m.toList.filter (fun e => p e.2) ↔ e = (k, a) := by
        intro e
        rw [hmem, hk]
        constructor
        · rintro ⟨h1, h2⟩
          exact Prod.ext h2 (by simpa using h1.symm)
        · rintro rfl
          simp
      exact List.perm_singleton.1
        ((List.perm_ext_iff_of_nodup hnodup (List.nodup_singleton _)).2 (by simpa using hone))
  calc (m.toList.map Prod.snd).filter p = (m.toList.filter fun e => p e.2).map Prod.snd := by
        rw [List.filter_map]; rfl
    _ = (m[k]?).toList := by rw [hpairs]; cases m[k]? <;> rfl

/-- A map filed by a key on which the values differ is searched by that key. -/
theorem getElem?_ofList_map [DecidableEq κ] (key : α → κ) {as : List α} (h : (as.map key).Nodup)
    (k : κ) :
    (ExtTreeMap.ofList (as.map fun a => (key a, a)))[k]? = as.find? fun a => key a = k := by
  have hpair : (as.map fun a => (key a, a)).Pairwise fun a b => ¬ compare a.1 b.1 = .eq := by
    rw [List.pairwise_map]
    rw [List.Nodup, List.pairwise_map] at h
    exact h.imp fun hne heq => hne (LawfulEqCmp.eq_of_compare heq)
  cases hfind : as.find? fun a => key a = k with
  | none =>
    apply ExtTreeMap.getElem?_ofList_of_contains_eq_false
    simpa using hfind
  | some a =>
    have hk : key a = k := by simpa using List.find?_some hfind
    refine ExtTreeMap.getElem?_ofList_of_mem (k := key a) (by simp [hk]) hpair ?_
    exact List.mem_map_of_mem (f := fun a => (key a, a)) (List.mem_of_find?_eq_some hfind)

end OrderedMap
