import Mathlib.Data.List.Basic

/-!
# Maps that are walked in the order of their keys

`Std.ExtTreeMap` is a map that is determined by its entries, and lists them in the order of their
keys.  To insert the entries of a map one after another into an empty map gives the map back, in
whatever order they come.
-/

set_option autoImplicit false

universe u v

/-- A map that is walked in the order of its keys. -/
abbrev OrderedMap (κ : Type u) (ν : Type v) [Ord κ] := Std.ExtTreeMap κ ν

namespace OrderedMap

variable {κ : Type u} {ν : Type v} [Ord κ] [Std.TransOrd κ] [Std.LawfulEqOrd κ] [DecidableEq κ]

/-- Insert entries, one after another. -/
def insertAll (m : OrderedMap κ ν) (l : List (κ × ν)) : OrderedMap κ ν :=
  l.foldl (fun m e ↦ m.insert e.1 e.2) m

theorem insertAll_of_perm {m : OrderedMap κ ν} {l : List (κ × ν)} (h : l.Perm m.toList) :
    insertAll ∅ l = m := by
  have hlist : insertAll (∅ : OrderedMap κ ν) l = Std.ExtTreeMap.ofList l :=
    Std.ExtTreeMap.ofList_eq_foldl.symm
  have hdistinct : l.Pairwise fun a b ↦ ¬ compare a.1 b.1 = .eq := by
    refine (h.pairwise_iff fun hab hba ↦ hab ?_).2 Std.ExtTreeMap.distinct_keys_toList
    exact Std.OrientedCmp.eq_symm hba
  rw [hlist]
  refine Std.ExtTreeMap.ext_getElem? fun k ↦ ?_
  rcases hk : m[k]? with _ | x
  · refine Std.ExtTreeMap.getElem?_ofList_of_contains_eq_false ?_
    rw [← Bool.not_eq_true, List.contains_iff_mem, List.mem_map]
    rintro ⟨e, he, rfl⟩
    have hsome := Std.ExtTreeMap.mem_toList_iff_getElem?_eq_some.1 (h.mem_iff.1 he)
    rw [hk] at hsome
    cases hsome
  · have hmem : (k, x) ∈ l := h.mem_iff.2 (Std.ExtTreeMap.mem_toList_iff_getElem?_eq_some.2 hk)
    exact Std.ExtTreeMap.getElem?_ofList_of_mem Std.ReflCmp.compare_self hdistinct hmem

end OrderedMap
