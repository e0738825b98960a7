import Mathlib.Data.List.Chain
import Mathlib.Tactic.Common

/-!
# Walks that come closer with every step

`Descent adj dist goal p path` says that `path` goes from `p` to `goal` along `adj`, and that every
step of it makes `dist` smaller by one.  Such a walk visits nothing twice (`Descent.nodup`), and its
length is known in advance (`Descent.length_eq`).  `Descent.forall_mem` is the rule for what holds
all along it.  If no step along `adj` can gain more than one, no walk is shorter
(`dist_le_length`).
-/

set_option autoImplicit false

namespace ChwellCore

universe u

variable {α : Type u} {adj : α → α → Prop} {dist : α → ℕ} {goal p : α} {path : List α}

/-- A walk, as the list of what it visits, on which `dist` falls by one with every step. -/
inductive Descent (adj : α → α → Prop) (dist : α → ℕ) (goal : α) : α → List α → Prop
  | done : Descent adj dist goal goal [goal]
  | step {p p' : α} {path : List α} : adj p p' → dist p = dist p' + 1 →
      Descent adj dist goal p' path → Descent adj dist goal p (p :: path)

namespace Descent

theorem head?_eq (h : Descent adj dist goal p path) : path.head? = some p := by
  cases h <;> rfl

theorem getLast?_eq (h : Descent adj dist goal p path) : path.getLast? = some goal := by
  induction h with
  | done => rfl
  | step _ _ _ ih => rw [List.getLast?_cons, ih, Option.getD_some]

theorem isChain (h : Descent adj dist goal p path) : path.IsChain adj := by
  induction h with
  | done => exact .singleton _
  | step hadj _ hrest ih =>
    refine ih.cons fun q hq ↦ ?_
    rw [hrest.head?_eq, Option.mem_some_iff] at hq
    exact hq ▸ hadj

/-- **What is kept by every step holds all along.** -/
theorem forall_mem {P : α → Prop}
    (hkeep : ∀ q q', P q → adj q q' → dist q = dist q' + 1 → P q')
    (h : Descent adj dist goal p path) (hp : P p) : ∀ q ∈ path, P q := by
  induction h with
  | done =>
    intro q hq
    rwa [List.mem_singleton.1 hq]
  | @step p p' path hadj hdist _ ih =>
    intro q hq
    rcases List.mem_cons.1 hq with rfl | hq
    · exact hp
    · exact ih (hkeep p p' hp hadj hdist) q hq

theorem dist_le (h : Descent adj dist goal p path) : ∀ q ∈ path, dist q ≤ dist p :=
  h.forall_mem (P := fun q ↦ dist q ≤ dist p) (fun _ _ hq _ hdist ↦ by omega) le_rfl

theorem nodup (h : Descent adj dist goal p path) : path.Nodup := by
  induction h with
  | done => exact List.pairwise_singleton _ _
  | @step p p' path _ hdist hrest ih =>
    refine List.nodup_cons.2 ⟨fun hmem ↦ ?_, ih⟩
    have hle := hrest.dist_le p hmem
    omega

theorem length_eq (h : Descent adj dist goal p path) :
    path.length + dist goal = dist p + 1 := by
  induction h with
  | done => exact Nat.add_comm _ _
  | step _ hdist _ ih =>
    rw [List.length_cons]
    omega

end Descent

/-- A walk takes as many steps as it has to gain, if no step gains more than one. -/
theorem dist_le_length (hadj : ∀ q q', adj q q' → dist q ≤ dist q' + 1) {q : α}
    (hchain : path.IsChain adj) (hhead : path.head? = some p) (hlast : path.getLast? = some q) :
    dist p + 1 ≤ path.length + dist q := by
  induction path generalizing p with
  | nil => cases hhead
  | cons a rest ih =>
    obtain rfl := Option.some.inj hhead
    rcases rest with _ | ⟨b, rest⟩
    · obtain rfl := Option.some.inj hlast
      exact (Nat.add_comm _ _).le
    · obtain ⟨hab, hrest⟩ := List.isChain_cons_cons.1 hchain
      have hle := ih hrest rfl (by rwa [List.getLast?_cons_cons] at hlast)
      have hstep := hadj _ _ hab
      rw [List.length_cons]
      omega

end ChwellCore
