import Mathlib.Data.List.Sort
import Mathlib.Order.Basic

/-!
# Hash rings

A ring is a list of nodes sorted by a key.  The node responsible for a point `h` of the key space is
the first one at or after `h`, or the first one of all when `h` lies behind every node.

`IsSuccessor` says which nodes may be responsible for `h` in terms of the *set* of nodes alone.  Two
nodes can both qualify, but only by having the same key (`IsSuccessor.key_eq`), and enlarging the
set can only promote a new node (`IsSuccessor.of_subset`): these two facts are all there is to
consistent hashing.  `successor` is the node a sorted list actually yields; it qualifies
(`isSuccessor_of_successor_eq_some`), and removing other nodes does not change it
(`successor_filter`).

The ring is searched by bisection.  `lowerBound` is the loop of `std::lower_bound`, which keeps a
start and a length and halves the length; on a list that `below` partitions it finds the first
element that is not below (`lowerBound_eq_findIdx`).
-/

set_option autoImplicit false

universe u v

namespace HashRing

/-! ## Bisection -/

section LowerBound

variable {ν : Type u} (below : ν → Bool) (xs : List ν)

/-- The loop of `std::lower_bound` on the `len` elements from `first` on. -/
def lowerBoundLoop (first len : ℕ) : ℕ :=
  if len = 0 then first
  else if (xs[first + len / 2]?).any below then
    lowerBoundLoop (first + len / 2 + 1) (len - len / 2 - 1)
  else lowerBoundLoop first (len / 2)
termination_by len

/-- `std::lower_bound`: the position of the first element that is not `below`. -/
def lowerBound : ℕ := lowerBoundLoop below xs 0 xs.length

variable {below xs}

/-- The loop stays around the point `k` at which the list stops being below. -/
theorem lowerBoundLoop_eq {k : ℕ} (hk : ∀ i (h : i < xs.length), below xs[i] = true ↔ i < k)
    (first len : ℕ) (hlo : first ≤ k) (hhi : k ≤ first + len) (hlen : first + len ≤ xs.length) :
    lowerBoundLoop below xs first len = k := by
  induction hn : len using Nat.strongRecOn generalizing first len with
  | _ n ih =>
    subst hn
    rw [lowerBoundLoop]
    split
    · omega
    · have hmid : first + len / 2 < xs.length := by omega
      rw [List.getElem?_eq_getElem hmid, Option.any_some]
      split
      · next hb =>
        have hlt := (hk _ hmid).1 hb
        exact ih (len - len / 2 - 1) (by omega) _ _ (by omega) (by omega) (by omega) rfl
      · next hb =>
        have hge : ¬ first + len / 2 < k := fun h ↦ hb ((hk _ hmid).2 h)
        exact ih (len / 2) (by omega) _ _ hlo (by omega) (by omega) rfl

/-- **Bisection finds the first element that is not below**, if no element that is not below comes
before one that is. -/
theorem lowerBound_eq_findIdx (h : xs.Pairwise fun a b ↦ below b = true → below a = true) :
    lowerBound below xs = xs.findIdx fun a ↦ !below a := by
  refine lowerBoundLoop_eq (fun i hi ↦ ⟨fun hb ↦ ?_, fun hlt ↦ ?_⟩) 0 xs.length (Nat.zero_le _)
    (by rw [Nat.zero_add]; exact List.findIdx_le_length) (by omega)
  · -- everything up to `i` is below, because `xs[i]` is
    refine List.lt_findIdx_of_not hi fun j hj ↦ ?_
    rcases Nat.eq_or_lt_of_le hj with rfl | hlt
    · simp [hb]
    · simp [List.pairwise_iff_getElem.1 h j i (by omega) hi hlt hb]
  · simpa using List.not_of_lt_findIdx hlt

theorem getElem?_lowerBound (h : xs.Pairwise fun a b ↦ below b = true → below a = true) :
    xs[lowerBound below xs]? = xs.find? fun a ↦ !below a := by
  rw [lowerBound_eq_findIdx h, List.find?_eq_getElem?_findIdx]

end LowerBound

/-! ## The node responsible for a point -/

variable {ν : Type u} {κ : Type v} [LinearOrder κ] (key : ν → κ)

/-- `n` may be responsible for `h`: it is a node of least key from `h` on, or of least key of all
when no node lies at or after `h`. -/
def IsSuccessor (nodes : List ν) (h : κ) (n : ν) : Prop :=
  n ∈ nodes ∧
    ((h ≤ key n ∧ ∀ m ∈ nodes, h ≤ key m → key n ≤ key m) ∨
      ((∀ m ∈ nodes, key m < h) ∧ ∀ m ∈ nodes, key n ≤ key m))

variable {key}

/-- Nodes responsible for the same point have the same key. -/
theorem IsSuccessor.key_eq {nodes : List ν} {h : κ} {n m : ν} (hn : IsSuccessor key nodes h n)
    (hm : IsSuccessor key nodes h m) : key n = key m := by
  obtain ⟨hnmem, ⟨hnh, hnle⟩ | ⟨hnlt, hnle⟩⟩ := hn <;>
    obtain ⟨hmmem, ⟨hmh, hmle⟩ | ⟨hmlt, hmle⟩⟩ := hm
  · exact le_antisymm (hnle m hmmem hmh) (hmle n hnmem hnh)
  · exact absurd (hmlt n hnmem) (not_lt.2 hnh)
  · exact absurd (hnlt m hmmem) (not_lt.2 hmh)
  · exact le_antisymm (hnle m hmmem) (hmle n hnmem)

/-- A node responsible in a larger ring is responsible in a smaller one that contains it. -/
theorem IsSuccessor.of_subset {nodes nodes' : List ν} {h : κ} {n : ν}
    (hn : IsSuccessor key nodes' h n) (hsub : ∀ m ∈ nodes, m ∈ nodes') (hmem : n ∈ nodes) :
    IsSuccessor key nodes h n := by
  obtain ⟨-, ⟨hnh, hle⟩ | ⟨hlt, hle⟩⟩ := hn
  · exact ⟨hmem, .inl ⟨hnh, fun m hm ↦ hle m (hsub m hm)⟩⟩
  · exact ⟨hmem, .inr ⟨fun m hm ↦ hlt m (hsub m hm), fun m hm ↦ hle m (hsub m hm)⟩⟩

/-- Responsibility depends on the set of nodes only. -/
theorem IsSuccessor.congr {nodes nodes' : List ν} {h : κ} {n : ν}
    (hn : IsSuccessor key nodes h n) (hmem : ∀ m, m ∈ nodes ↔ m ∈ nodes') :
    IsSuccessor key nodes' h n :=
  hn.of_subset (fun m hm ↦ (hmem m).2 hm) ((hmem n).1 hn.1)

variable (key)

/-- The node a ring yields for `h`: the first at or after `h`, or else the first of all. -/
def successor (h : κ) (ring : List ν) : Option ν :=
  (ring.find? fun n ↦ decide (h ≤ key n)).or ring.head?

variable {key}

theorem successor_eq_none_iff {h : κ} {ring : List ν} :
    successor key h ring = none ↔ ring = [] := by
  rw [successor, Option.or_eq_none_iff, List.head?_eq_none_iff]
  exact ⟨fun hr ↦ hr.2, fun hr ↦ ⟨by rw [hr]; rfl, hr⟩⟩

/-- In a sorted list, what a search finds first has the least key. -/
theorem key_le_of_find?_eq_some {p : ν → Bool} {ring : List ν} {n : ν}
    (hsorted : ring.Pairwise fun a b ↦ key a ≤ key b) (hfind : ring.find? p = some n) :
    ∀ m ∈ ring, p m = true → key n ≤ key m := by
  obtain ⟨-, as, bs, rfl, has⟩ := List.find?_eq_some_iff_append.1 hfind
  intro m hm hpm
  rcases List.mem_append.1 hm with hm | hm
  · have := has m hm
    simp [hpm] at this
  · rcases List.mem_cons.1 hm with rfl | hm
    · exact le_rfl
    · exact List.rel_of_pairwise_cons (List.pairwise_append.1 hsorted).2.1 hm

/-- **What a sorted ring yields is responsible.** -/
theorem isSuccessor_of_successor_eq_some {h : κ} {ring : List ν} {n : ν}
    (hsorted : ring.Pairwise fun a b ↦ key a ≤ key b) (hn : successor key h ring = some n) :
    IsSuccessor key ring h n := by
  rw [successor] at hn
  rcases hf : ring.find? fun n ↦ decide (h ≤ key n) with _ | m
  · -- no node lies at or after `h`, so the answer is the head, which is least of all
    rw [hf, Option.none_or] at hn
    have hlt : ∀ m ∈ ring, key m < h := by
      intro m hm
      simpa using List.find?_eq_none.1 hf m hm
    have hhead : ring.find? (fun _ ↦ true) = some n := by
      cases ring with
      | nil => exact absurd hn (by simp)
      | cons a as => simpa using hn
    exact ⟨List.mem_of_find?_eq_some hhead,
      .inr ⟨hlt, fun m hm ↦ key_le_of_find?_eq_some hsorted hhead m hm rfl⟩⟩
  · rw [hf, Option.some_or] at hn
    cases hn
    refine ⟨List.mem_of_find?_eq_some hf,
      .inl ⟨by simpa using List.find?_some hf, fun m hm hle ↦ ?_⟩⟩
    exact key_le_of_find?_eq_some hsorted hf m hm (by simpa using hle)

/-- A search whose hit survives a filter has the same hit after it. -/
theorem find?_filter_of_find?_eq_some {p q : ν → Bool} {l : List ν} {n : ν}
    (hn : l.find? q = some n) (hp : p n = true) : (l.filter p).find? q = some n := by
  obtain ⟨hq, as, bs, rfl, has⟩ := List.find?_eq_some_iff_append.1 hn
  rw [List.find?_filter, List.find?_eq_some_iff_append]
  refine ⟨by simp [hp, hq], as, bs, rfl, fun a ha ↦ ?_⟩
  have := has a ha
  simp only [Bool.not_eq_true'] at this
  simp [this]

/-- **Removing other nodes does not change the answer.** -/
theorem successor_filter {h : κ} {ring : List ν} {n : ν} {p : ν → Bool}
    (hn : successor key h ring = some n) (hp : p n = true) :
    successor key h (ring.filter p) = some n := by
  rw [successor] at hn ⊢
  rcases hf : ring.find? fun n ↦ decide (h ≤ key n) with _ | m
  · rw [hf, Option.none_or] at hn
    have hnone : (ring.filter p).find? (fun n ↦ decide (h ≤ key n)) = none := by
      rw [List.find?_eq_none] at hf ⊢
      exact fun m hm ↦ hf m (List.mem_of_mem_filter hm)
    rw [hnone, Option.none_or, List.head?_filter]
    cases ring with
    | nil => exact absurd hn (by simp)
    | cons a as =>
      cases hn
      rw [List.find?_cons, hp]
  · rw [hf, Option.some_or] at hn
    cases hn
    rw [find?_filter_of_find?_eq_some hf hp, Option.some_or]

end HashRing
