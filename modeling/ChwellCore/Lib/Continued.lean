import Mathlib.Data.List.Basic
import Mathlib.Tactic.Common

/-!
# Lists that say where they end

Every element of such a list says whether another one follows: `more a` holds of all elements but
the last (`Ended.exists_eq_concat`).  So a reader need not be told how long the list is.  A reader
who does not want to wait for its end for ever looks at no more than `n` elements: either one of
them is the last, or they all say that another follows (`exists_ended_or`).
-/

set_option autoImplicit false

universe u

/-- All elements but the last say that another follows. -/
inductive Ended {α : Type u} (more : α → Prop) : List α → Prop
  | last {a : α} : ¬ more a → Ended more [a]
  | cons {a : α} {as : List α} : more a → Ended more as → Ended more (a :: as)

namespace Ended

variable {α : Type u} {more : α → Prop} {as : List α}

theorem length_pos (h : Ended more as) : 0 < as.length := by
  cases h <;> exact Nat.succ_pos _

/-- What comes before the last element. -/
theorem exists_eq_concat (h : Ended more as) :
    ∃ first a, as = first ++ [a] ∧ (∀ b ∈ first, more b) ∧ ¬ more a := by
  induction h with
  | @last a hlast => exact ⟨[], a, rfl, fun b hb ↦ absurd hb List.not_mem_nil, hlast⟩
  | @cons a as hmore _ ih =>
    obtain ⟨first, b, rfl, hfirst, hlast⟩ := ih
    exact ⟨a :: first, b, rfl, List.forall_mem_cons.2 ⟨hmore, hfirst⟩, hlast⟩

/-- A last element ends what says that more follows. -/
theorem concat {first : List α} (hfirst : ∀ b ∈ first, more b) {a : α} (hlast : ¬ more a) :
    Ended more (first ++ [a]) := by
  induction first with
  | nil => exact .last hlast
  | cons b first ih =>
    obtain ⟨hb, hrest⟩ := List.forall_mem_cons.1 hfirst
    exact .cons hb (ih hrest)

end Ended

variable {α : Type u} {more : α → Prop}

/-- **Among the first `n` elements there is a last one, or they all say that another follows.** -/
theorem exists_ended_or (more : α → Prop) (n : ℕ) (as : List α) :
    (∃ bs, Ended more bs ∧ bs.length ≤ n ∧ bs <+: as) ∨ ∀ a ∈ as.take n, more a := by
  induction n generalizing as with
  | zero => exact .inr fun a ha ↦ absurd ha List.not_mem_nil
  | succ n ih =>
    rcases as with _ | ⟨a, as⟩
    · exact .inr fun a ha ↦ absurd ha List.not_mem_nil
    · by_cases hmore : more a
      · rcases ih as with ⟨bs, hbs, hlen, hpre⟩ | hall
        · exact .inl ⟨a :: bs, .cons hmore hbs, Nat.succ_le_succ hlen,
            List.cons_prefix_cons.2 ⟨rfl, hpre⟩⟩
        · exact .inr (List.forall_mem_cons.2 ⟨hmore, hall⟩)
      · exact .inl ⟨[a], .last hmore, Nat.succ_le_succ (Nat.zero_le n),
          List.cons_prefix_cons.2 ⟨rfl, List.nil_prefix⟩⟩
