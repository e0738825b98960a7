import ChwellCore.Lib.Run
import Mathlib.Algebra.BigOperators.Group.List.Basic
import Mathlib.Logic.Function.Basic
import Mathlib.Tactic.Linarith

/-!
# Attrition

Several sides, each with a count, and a sequence of blows, each of which takes something from one of
the counts: at least one, and no more than there is.  While a blow falls nobody is at zero.  That is
all a fight of any kind is here, so `Attrition.system` is a `System`, and what there is to say about
the counts is said about its runs: they balance (`run_balance`), they stay where they can be
(`run_nonneg`, `run_le`), and no blow falls when somebody has nothing left (`run_blow`).
-/

set_option autoImplicit false

universe u v

namespace Attrition

variable {ι : Type u} {ε : Type v} [DecidableEq ι] (target : ε → ι) (amount : ε → ℤ)

/-- What the blows take from one side. -/
def taken (i : ι) (es : List ε) : ℤ := ((es.filter fun e ↦ target e = i).map amount).sum

/-- A blow falls. -/
def system : System (ι → ℤ) ε where
  step c e c' := (∀ i, 0 < c i) ∧ (1 ≤ amount e ∧ amount e ≤ c (target e)) ∧
    c' = Function.update c (target e) (c (target e) - amount e)

variable {target} {amount}

@[simp] theorem taken_nil (i : ι) : taken target amount i [] = 0 := rfl

theorem taken_append (i : ι) (es fs : List ε) :
    taken target amount i (es ++ fs) = taken target amount i es + taken target amount i fs := by
  simp only [taken, List.filter_append, List.map_append, List.sum_append]

theorem taken_singleton (i : ι) (e : ε) :
    taken target amount i [e] = if target e = i then amount e else 0 := by
  by_cases h : target e = i
  · simp [taken, h]
  · simp [taken, h]

variable {c c' : ι → ℤ} {e : ε} {es fs : List ε}

/-- A blow changes the count of its target by its amount, and no other. -/
theorem step_apply (h : (system target amount).step c e c') (i : ι) :
    c' i = c i - taken target amount i [e] := by
  obtain ⟨-, -, rfl⟩ := h
  rw [taken_singleton]
  by_cases hi : target e = i
  · subst hi
    rw [Function.update_self, if_pos rfl]
  · rw [Function.update_of_ne (Ne.symm hi), if_neg hi, sub_zero]

/-- **The counts balance**: what a side has left is what it had, less what the blows have taken. -/
theorem run_balance (hrun : (system target amount).Run c es c') (i : ι) :
    c' i = c i - taken target amount i es := by
  induction hrun with
  | nil => rw [taken_nil, sub_zero]
  | snoc _ hlast ih => rw [step_apply hlast, ih, taken_append, sub_sub]

theorem run_nonneg (hrun : (system target amount).Run c es c') (hc : ∀ i, 0 ≤ c i) :
    ∀ i, 0 ≤ c' i := by
  refine hrun.invariant (motive := fun c ↦ ∀ i, 0 ≤ c i) ?_ hc
  intro c e c' hnonneg hstep i
  rw [step_apply hstep, taken_singleton]
  split
  · next hi =>
    subst hi
    exact Int.sub_nonneg.2 hstep.2.1.2
  · rw [sub_zero]
    exact hnonneg i

theorem run_le (hrun : (system target amount).Run c es c') (i : ι) : c' i ≤ c i := by
  induction hrun with
  | nil => exact le_rfl
  | snoc _ hlast ih =>
    refine le_trans ?_ ih
    rw [step_apply hlast, taken_singleton]
    split
    · linarith [hlast.2.1.1]
    · rw [sub_zero]

/-- When a blow falls, nobody is at zero, and it takes something. -/
theorem run_blow (hrun : (system target amount).Run c (es ++ e :: fs) c') :
    (∀ i, 0 < c i - taken target amount i es) ∧ 1 ≤ amount e := by
  obtain ⟨mid, hbefore, hafter⟩ := hrun.split
  obtain ⟨next, hstep, -⟩ := hafter.first
  refine ⟨fun i ↦ ?_, hstep.2.1.1⟩
  rw [← run_balance hbefore]
  exact hstep.1 i

end Attrition
