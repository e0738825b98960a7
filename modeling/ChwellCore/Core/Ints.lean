import Mathlib.Algebra.Order.Group.Int
import Mathlib.Tactic.Common

/-!
# The `int`s of the source

Arithmetic in `int` whose result does not fit is undefined behaviour, and so is a division by zero.
An expression that may come to it is computed in `ℤ` here and `checked`, and `none` says that it
does.
-/

set_option autoImplicit false

namespace ChwellCore

/-- The values of an `int`. -/
def InInt (n : ℤ) : Prop := -2147483648 ≤ n ∧ n ≤ 2147483647

instance (n : ℤ) : Decidable (InInt n) := inferInstanceAs (Decidable (_ ∧ _))

/-- The value of an `int` expression, unless it overflows. -/
def checked (n : ℤ) : Option ℤ := if -2147483648 ≤ n ∧ n ≤ 2147483647 then some n else none

/-- Division of `int`s. -/
def quot (a b : ℤ) : Option ℤ :=
  if b = 0 ∨ (a = -2147483648 ∧ b = -1) then none else some (a.tdiv b)

theorem checked_eq_some {n m : ℤ} :
    checked n = some m ↔ m = n ∧ -2147483648 ≤ n ∧ n ≤ 2147483647 := by
  rw [checked]
  split
  · next h =>
    rw [Option.some.injEq]
    exact ⟨fun he ↦ ⟨he.symm, h⟩, fun he ↦ he.1.symm⟩
  · next h =>
    refine ⟨fun he ↦ ?_, fun he ↦ absurd he.2 h⟩
    cases he

theorem checked_of_mem {n : ℤ} (h : -2147483648 ≤ n) (h' : n ≤ 2147483647) :
    checked n = some n :=
  if_pos ⟨h, h'⟩

theorem quot_of_pos {a b : ℤ} (h : 1 ≤ b) : quot a b = some (a.tdiv b) := if_neg (by omega)

end ChwellCore
