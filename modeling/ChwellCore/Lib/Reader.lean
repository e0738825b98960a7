import Mathlib.Data.List.Basic
import Mathlib.Tactic.Common

/-!
# Readers

A `Reader` takes a value off the front of a list, or fails.  Formats that are made of fields one
after another are read by a reader in `do` notation, and `Reader.Reads p xs a`, that `p` reads `xs`
as `a` whatever follows, is proved for the format field by field: `Reads.bind` for two fields in a
row, `reads_times` for a field that is repeated.
-/

set_option autoImplicit false

/-- A reader of values in `α` from a list over `τ`. -/
abbrev Reader (τ α : Type) := StateT (List τ) Option α

namespace Reader

variable {τ α β : Type}

/-- The next `n` elements. -/
def take (n : ℕ) : Reader τ (List τ) :=
  fun xs ↦ if n ≤ xs.length then some (xs.take n, xs.drop n) else none

/-- The same thing `n` times. -/
def times (p : Reader τ α) : ℕ → Reader τ (List α)
  | 0 => pure []
  | n + 1 => do
    let a ← p
    let rest ← p.times n
    pure (a :: rest)

/-- The reader reads `xs` as `a`, and leaves what follows. -/
def Reads (p : Reader τ α) (xs : List τ) (a : α) : Prop :=
  ∀ rest, p.run (xs ++ rest) = some (a, rest)

theorem reads_pure (a : α) : (pure a : Reader τ α).Reads [] a := fun _ ↦ rfl

theorem Reads.bind {p : Reader τ α} {f : α → Reader τ β} {xs ys : List τ} {a : α} {b : β}
    (hp : p.Reads xs a) (hf : (f a).Reads ys b) : (p >>= f).Reads (xs ++ ys) b := by
  intro rest
  rw [StateT.run_bind, List.append_assoc, hp]
  exact hf rest

theorem Reads.map {p : Reader τ α} {xs : List τ} {a : α} (hp : p.Reads xs a) (f : α → β) :
    (do let a ← p; pure (f a)).Reads xs (f a) := by
  have h := hp.bind (f := fun a ↦ pure (f a)) (reads_pure (f a))
  rwa [List.append_nil] at h

theorem reads_take (xs : List τ) : (take xs.length).Reads xs xs := by
  intro rest
  show (if _ then _ else _) = _
  rw [if_pos (by rw [List.length_append]; exact Nat.le_add_right _ _), List.take_left',
    List.drop_left']
  · rfl
  · rfl

/-- A field that is repeated. -/
theorem reads_times {p : Reader τ α} {enc : α → List τ} {as : List α}
    (h : ∀ a ∈ as, p.Reads (enc a) a) : (p.times as.length).Reads (as.flatMap enc) as := by
  induction as with
  | nil => exact reads_pure []
  | cons a as ih =>
    refine (h a List.mem_cons_self).bind ?_
    exact (ih fun b hb ↦ h b (List.mem_cons_of_mem a hb)).map (a :: ·)

end Reader
