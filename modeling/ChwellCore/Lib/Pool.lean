import Mathlib.Algebra.BigOperators.Group.List.Basic
import Mathlib.Algebra.Order.Group.Multiset
import Mathlib.Tactic.Abel

/-!
# Pools of processes that hold tokens

A pool is a list of processes, each known by its place; a process that has ended stays where it is.
Two operations change it: a new process starts (`spawn`), and a process moves on (`put`).

If each process holds some tokens, `total` is what the pool holds altogether.  A step of a system
moves tokens between processes and tables, and that it neither loses nor doubles one is an equation
between sums: `total_put` says what a process contributes to it.  When the tokens of a whole system
are distinct, so are those of two places of the pool (`ne_of_nodup`).
-/

set_option autoImplicit false

universe u v

/-- A list of processes. -/
abbrev Pool (π : Type u) := List π

namespace Pool

variable {π : Type u} {τ : Type v} (f : π → Multiset τ)

/-- A new process starts. -/
def spawn (pool : Pool π) (p : π) : Pool π := pool ++ [p]

/-- Process `i` moves on. -/
def put (pool : Pool π) (i : ℕ) (p : π) : Pool π := pool.set i p

/-- What holds of every process before one moves on, and of where it goes, holds of every process.
-/
theorem forall_put {pool : Pool π} {i : ℕ} {q : π} {P : ℕ → π → Prop}
    (h : ∀ j p, j ≠ i → pool[j]? = some p → P j p) (hq : P i q) :
    ∀ j p, (pool.put i q)[j]? = some p → P j p := by
  intro j p hp
  rw [put, List.getElem?_set] at hp
  split at hp
  · next hij =>
    obtain ⟨-, hp⟩ := Option.ite_none_right_eq_some.1 hp
    obtain rfl := Option.some.inj hp
    exact hij ▸ hq
  · next hij => exact h j p (Ne.symm hij) hp

theorem forall_spawn {pool : Pool π} {q : π} {P : ℕ → π → Prop}
    (h : ∀ j p, pool[j]? = some p → P j p)
    (hq : P pool.length q) : ∀ j p, (pool.spawn q)[j]? = some p → P j p := by
  intro j p hp
  rw [spawn, List.getElem?_append] at hp
  split at hp
  · exact h j p hp
  · next hlen =>
    rcases hj : j - pool.length with _ | k
    · rw [hj] at hp
      cases hp
      have : j = pool.length := by omega
      exact this ▸ hq
    · rw [hj] at hp
      cases hp

theorem getElem?_put_self {pool : Pool π} {i : ℕ} {p : π} (h : pool[i]? = some p) (q : π) :
    (pool.put i q)[i]? = some q :=
  List.getElem?_set_self (List.getElem?_eq_some_iff.1 h).1

/-- A process at another place than the one that moves on is another process. -/
theorem getElem?_put_of_ne {pool : Pool π} {i j : ℕ} {p r : π} (h : pool[i]? = some p)
    (hj : pool[j]? = some r) (hne : r ≠ p) (q : π) : (pool.put i q)[j]? = some r := by
  rw [put, List.getElem?_set_ne]
  · exact hj
  · rintro rfl
    exact hne (Option.some.inj (hj.symm.trans h))

/-- A process that is not where one has moved was there before. -/
theorem getElem?_of_put {pool : Pool π} {i j : ℕ} {q r : π} (h : (pool.put i q)[j]? = some r)
    (hne : r ≠ q) : pool[j]? = some r := by
  rw [put, List.getElem?_set] at h
  split at h
  · split at h
    · exact absurd (Option.some.inj h).symm hne
    · cases h
  · exact h

theorem getElem?_spawn {pool : Pool π} {j : ℕ} {p : π} (h : pool[j]? = some p) (q : π) :
    (pool.spawn q)[j]? = some p := by
  rw [spawn, List.getElem?_append_left (List.getElem?_eq_some_iff.1 h).1]
  exact h

theorem getElem?_spawn_ite (pool : Pool π) (p : π) (j : ℕ) :
    (pool.spawn p)[j]? = if j = pool.length then some p else pool[j]? := by
  split
  · next h => rw [h, spawn, List.getElem?_concat_length]
  · next h =>
    rw [spawn, List.getElem?_append]
    split
    · rfl
    · rw [List.getElem?_eq_none (l := pool) (by omega), List.getElem?_eq_none]
      rw [List.length_singleton]
      omega

/-- What some process has is still there when one moves on that keeps it. -/
theorem exists_mem_put {pool : Pool π} {i : ℕ} {p q : π} (h : pool[i]? = some p) {P : π → Prop}
    (hkeep : P p → P q) (hex : ∃ r ∈ pool, P r) : ∃ r ∈ pool.put i q, P r := by
  obtain ⟨r, hr, hP⟩ := hex
  obtain ⟨j, hj⟩ := List.mem_iff_getElem?.1 hr
  by_cases hij : j = i
  · subst hij
    obtain rfl := Option.some.inj (h.symm.trans hj)
    exact ⟨q, List.mem_of_getElem? (getElem?_put_self h q), hkeep hP⟩
  · refine ⟨r, List.mem_of_getElem? (i := j) ?_, hP⟩
    rw [put, List.getElem?_set_ne (Ne.symm hij)]
    exact hj

theorem exists_mem_spawn {pool : Pool π} (q : π) {P : π → Prop} (hex : ∃ r ∈ pool, P r) :
    ∃ r ∈ pool.spawn q, P r := by
  obtain ⟨r, hr, hP⟩ := hex
  exact ⟨r, List.mem_append_left _ hr, hP⟩

/-- Processes that are told apart by what `g` says of them still are when one starts of which it
says something else. -/
theorem apart_spawn {α : Type v} {pool : Pool π} {P : π → Prop} {g : π → α}
    (h : ∀ (i j : ℕ) (p q : π), pool[i]? = some p → pool[j]? = some q → P p → P q → g p = g q →
      i = j)
    {r : π} (hr : ∀ p ∈ pool, P p → g p ≠ g r) (i j : ℕ) (p q : π)
    (hp : (pool.spawn r)[i]? = some p) (hq : (pool.spawn r)[j]? = some q) (hP : P p) (hQ : P q)
    (hpq : g p = g q) : i = j := by
  have hcases : ∀ (j : ℕ) (q : π), (pool.spawn r)[j]? = some q →
      pool[j]? = some q ∨ j = pool.length ∧ q = r :=
    forall_spawn (fun _ _ hq ↦ .inl hq) (.inr ⟨rfl, rfl⟩)
  rcases hcases i p hp with hp | ⟨hi, hpr⟩ <;> rcases hcases j q hq with hq | ⟨hj, hqr⟩
  · exact h i j p q hp hq hP hQ hpq
  · exact absurd (hqr ▸ hpq) (hr p (List.mem_of_getElem? hp) hP)
  · exact absurd (hpr ▸ hpq.symm) (hr q (List.mem_of_getElem? hq) hQ)
  · exact hi.trans hj.symm

/-- They still are when one moves on of which it says the same as before. -/
theorem apart_put {α : Type v} {pool : Pool π} {P : π → Prop} {g : π → α}
    (h : ∀ (i j : ℕ) (p q : π), pool[i]? = some p → pool[j]? = some q → P p → P q → g p = g q →
      i = j)
    {k : ℕ} {r r' : π} (hr : pool[k]? = some r) (hP : P r) (hg : g r' = g r) (i j : ℕ) (p q : π)
    (hp : (pool.put k r')[i]? = some p) (hq : (pool.put k r')[j]? = some q) (hPp : P p) (hPq : P q)
    (hpq : g p = g q) : i = j := by
  have hbefore : ∀ (j : ℕ) (q : π), (pool.put k r')[j]? = some q → P q →
      ∃ q₀, pool[j]? = some q₀ ∧ P q₀ ∧ g q₀ = g q :=
    forall_put (fun j q _ hq hPq ↦ ⟨q, hq, hPq, rfl⟩) fun _ ↦ ⟨r, hr, hP, hg.symm⟩
  obtain ⟨p₀, hp₀, hPp₀, hgp⟩ := hbefore i p hp hPp
  obtain ⟨q₀, hq₀, hPq₀, hgq⟩ := hbefore j q hq hPq
  exact h i j p₀ q₀ hp₀ hq₀ hPp₀ hPq₀ (hgp.trans (hpq.trans hgq.symm))

/-- What is asked of every process can be checked. -/
instance decidableForall {P : ℕ → π → Prop} [∀ i p, Decidable (P i p)] (pool : Pool π) :
    Decidable (∀ i p, pool[i]? = some p → P i p) :=
  decidable_of_iff (∀ x ∈ pool.zipIdx, P x.2 x.1)
    ⟨fun h i p hp ↦ h (p, i) (List.mem_zipIdx_iff_getElem?.2 hp),
      fun h x hx ↦ h x.2 x.1 (List.mem_zipIdx_iff_getElem?.1 hx)⟩

/-- What a process keeps when it moves on, the pool keeps. -/
theorem map_put {α : Type v} {g : π → α} {pool : Pool π} {i : ℕ} {p q : π} (h : pool[i]? = some p)
    (hg : g q = g p) : (pool.put i q).map g = pool.map g := by
  rw [put, List.map_set, hg]
  obtain ⟨hlt, rfl⟩ := List.getElem?_eq_some_iff.1 h
  rw [← List.getElem_map g (h := by simpa using hlt), List.set_getElem_self]

/-- What is known of the processes changes at the place of the one that moves on. -/
theorem getElem?_map_put {α : Type v} (g : π → α) {pool : Pool π} {i : ℕ} {p : π}
    (h : pool[i]? = some p) (q : π) (j : ℕ) :
    ((pool.put i q).map g)[j]? = if j = i then some (g q) else (pool.map g)[j]? := by
  have hlt : i < pool.length := (List.getElem?_eq_some_iff.1 h).1
  rw [put, List.map_set, List.getElem?_set]
  split
  · next hij => rw [if_pos hij.symm, if_pos (by simpa using hlt)]
  · next hij => rw [if_neg (Ne.symm hij)]

theorem getElem?_map_spawn {α : Type v} (g : π → α) (pool : Pool π) (p : π) (j : ℕ) :
    ((pool.spawn p).map g)[j]? = if j = pool.length then some (g p) else (pool.map g)[j]? := by
  rw [List.getElem?_map, getElem?_spawn_ite]
  split
  · rfl
  · exact List.getElem?_map.symm

/-- A process that moves on is counted where it goes, and no longer where it was. -/
theorem countP_put {pool : Pool π} {i : ℕ} {p : π} (h : pool[i]? = some p) (q : π)
    (P : π → Bool) : (pool.put i q).countP P + (if P p then 1 else 0) =
      pool.countP P + if P q then 1 else 0 := by
  induction pool generalizing i with
  | nil => cases h
  | cons p' pool ih =>
    cases i with
    | zero =>
      cases h
      simp only [put, List.set_cons_zero, List.countP_cons]
      omega
    | succ i =>
      have hrest := ih (i := i) h
      simp only [put, List.set_cons_succ, List.countP_cons] at hrest ⊢
      omega

theorem count_put [DecidableEq π] {pool : Pool π} {i : ℕ} {p : π} (h : pool[i]? = some p)
    (q r : π) : (pool.put i q).count r + (if p = r then 1 else 0) =
      pool.count r + if q = r then 1 else 0 := by
  have hput := countP_put h q (· == r)
  simpa only [List.count, beq_iff_eq] using hput

/-- What is there after a process has moved on is what it is then, or was there before. -/
theorem mem_put {pool : Pool π} {i : ℕ} {q r : π} (h : r ∈ pool.put i q) : r = q ∨ r ∈ pool :=
  (List.mem_or_eq_of_mem_set h).symm

/-- The tokens that the processes hold. -/
def total (pool : Pool π) : Multiset τ := (pool.map f).sum

@[simp] theorem total_nil : total f ([] : Pool π) = 0 := rfl

@[simp] theorem total_spawn (pool : Pool π) (p : π) :
    total f (pool.spawn p) = total f pool + f p := by
  simp [total, spawn]

/-- A process that moves on no longer counts for what it was, but for what it is then. -/
theorem sum_map_put {M : Type v} [AddCommMonoid M] (f : π → M) {pool : Pool π} {i : ℕ} {p : π}
    (h : pool[i]? = some p) (q : π) :
    ((pool.put i q).map f).sum + f p = (pool.map f).sum + f q := by
  induction pool generalizing i with
  | nil => cases h
  | cons p' pool ih =>
    cases i with
    | zero =>
      cases h
      simp only [put, List.set_cons_zero, List.map_cons, List.sum_cons]
      abel
    | succ i =>
      have hrest := ih (i := i) h
      simp only [put, List.set_cons_succ, List.map_cons, List.sum_cons] at hrest ⊢
      rw [add_assoc, hrest, add_assoc]

/-- A process that moves on gives back what it held and takes what it holds then. -/
theorem total_put {pool : Pool π} {i : ℕ} {p : π} (h : pool[i]? = some p) (q : π) :
    total f (pool.put i q) + f p = total f pool + f q :=
  sum_map_put f h q

/-- All processes move on, and each keeps its tokens. -/
theorem total_map_eq (pool : Pool π) {g : π → π} (hg : ∀ p, f (g p) = f p) :
    total f (pool.map g) = total f pool := by
  rw [total, total, List.map_map]
  congr 2
  funext p
  exact hg p

theorem le_total {pool : Pool π} {i : ℕ} {p : π} (h : pool[i]? = some p) : f p ≤ total f pool := by
  induction pool generalizing i with
  | nil => cases h
  | cons p' pool ih =>
    simp only [total, List.map_cons, List.sum_cons]
    rcases i with _ | i
    · cases h
      exact Multiset.le_add_right _ _
    · exact (ih h).trans (Multiset.le_add_left _ _)

theorem mem_total {pool : Pool π} {a : τ} : a ∈ total f pool ↔ ∃ p ∈ pool, a ∈ f p := by
  induction pool with
  | nil => simp
  | cons p pool ih =>
    simp only [total, List.map_cons, List.sum_cons, Multiset.mem_add,
      List.exists_mem_cons_iff] at ih ⊢
    rw [ih]

theorem total_le_total (pool : Pool π) {g : π → Multiset τ} (h : ∀ p, f p ≤ g p) :
    total f pool ≤ total g pool := by
  induction pool with
  | nil => exact le_rfl
  | cons p pool ih =>
    simp only [total, List.map_cons, List.sum_cons] at ih ⊢
    exact add_le_add (h p) ih

theorem total_eq_zero {pool : Pool π} (h : ∀ p ∈ pool, f p = 0) : total f pool = 0 := by
  rw [total, List.sum_eq_zero]
  intro m hm
  obtain ⟨p, hp, rfl⟩ := List.mem_map.1 hm
  exact h p hp

/-- Processes that hold a token at most hold no more tokens than there are processes. -/
theorem card_total_le (pool : Pool π) (hf : ∀ p, (f p).card ≤ 1) :
    (total f pool).card ≤ pool.length := by
  induction pool with
  | nil => exact le_rfl
  | cons p pool ih =>
    have hp := hf p
    simp only [total, List.map_cons, List.sum_cons, Multiset.card_add, List.length_cons] at ih ⊢
    omega

/-- Where a process holds no token twice, a token is in the pool as often as there are processes
that hold it. -/
theorem count_total [DecidableEq τ] (pool : Pool π) (hf : ∀ p, (f p).Nodup) (a : τ) :
    (total f pool).count a = pool.countP fun p ↦ a ∈ f p := by
  induction pool with
  | nil => rfl
  | cons p pool ih =>
    simp only [total, List.map_cons, List.sum_cons, Multiset.count_add] at ih ⊢
    rw [ih, List.countP_cons, Multiset.count_eq_of_nodup (hf p), add_comm]
    simp only [decide_eq_true_eq]

/-- Two processes hold no more than the pool. -/
theorem add_le_total {pool : Pool π} {i j : ℕ} (hij : i ≠ j) {p q : π} (hi : pool[i]? = some p)
    (hj : pool[j]? = some q) : f p + f q ≤ total f pool := by
  induction pool generalizing i j with
  | nil => cases hi
  | cons p' pool ih =>
    simp only [total, List.map_cons, List.sum_cons]
    rcases i with _ | i <;> rcases j with _ | j
    · exact absurd rfl hij
    · cases hi
      have hq : pool[j]? = some q := hj
      exact Multiset.add_le_add_left (le_total f hq)
    · cases hj
      have hp : pool[i]? = some p := hi
      rw [add_comm]
      exact Multiset.add_le_add_left (le_total f hp)
    · exact (ih (fun h ↦ hij (congrArg _ h)) hi hj).trans (Multiset.le_add_left _ _)

/-- Where tokens are distinct, two processes hold different ones. -/
theorem ne_of_nodup {pool : Pool π} {m : Multiset τ} (hm : m.Nodup) (hle : total f pool ≤ m)
    {i j : ℕ}
    (hij : i ≠ j) {p q : π} (hi : pool[i]? = some p) (hj : pool[j]? = some q) {a b : τ}
      (ha : a ∈ f p)
    (hb : b ∈ f q) : a ≠ b := by
  rintro rfl
  have hnodup := Multiset.nodup_of_le ((add_le_total f hij hi hj).trans hle) hm
  exact Multiset.disjoint_left.1 (Multiset.nodup_add.1 hnodup).2.2 ha hb

end Pool
