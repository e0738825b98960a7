import Mathlib.Data.List.Basic
import Mathlib.Tactic.Common

/-!
# Mutexes that are locked twice

What a thread does with mutexes is a list of events, in the order in which they happen.  A mutex
that is not recursive must not be acquired while the thread holds it: `relocks` is the test, which
goes through the list with the mutexes that are held.

A call that uses lock guards releases what it acquires, and does so in scopes, and this is what
`Scoped` is for: a list of events after which the same mutexes are held as before, whatever they
are.  Scoped events are put together by `++`, by `under`, which is a lock guard around a block, and
by `forEach`, which is a loop; for each of them there is a lemma that says when it relocks.
-/

set_option autoImplicit false

universe u v

/-- What a thread does with a mutex. -/
inductive LockEvent (μ : Type u) where
  | acquire (m : μ)
  | release (m : μ)
deriving DecidableEq

namespace LockEvent

variable {μ : Type u} [DecidableEq μ]

/-- The mutexes that are held after some events. -/
def heldAfter : List μ → List (LockEvent μ) → List μ
  | held, [] => held
  | held, acquire m :: es => heldAfter (m :: held) es
  | held, release m :: es => heldAfter (held.erase m) es

/-- Some event acquires a mutex that is held. -/
def relocks : List μ → List (LockEvent μ) → Bool
  | _, [] => false
  | held, acquire m :: es => decide (m ∈ held) || relocks (m :: held) es
  | held, release m :: es => relocks (held.erase m) es

theorem heldAfter_append (held : List μ) (a b : List (LockEvent μ)) :
    heldAfter held (a ++ b) = heldAfter (heldAfter held a) b := by
  induction a generalizing held with
  | nil => rfl
  | cons e a ih =>
    cases e with
    | acquire m => exact ih (m :: held)
    | release m => exact ih (held.erase m)

theorem relocks_append (held : List μ) (a b : List (LockEvent μ)) :
    relocks held (a ++ b) = (relocks held a || relocks (heldAfter held a) b) := by
  induction a generalizing held with
  | nil => rfl
  | cons e a ih =>
    cases e with
    | acquire m =>
      rw [List.cons_append, relocks, relocks, ih, Bool.or_assoc]
      rfl
    | release m => exact ih (held.erase m)

end LockEvent

/-- Events that leave held what was held. -/
structure Scoped (μ : Type u) [DecidableEq μ] where
  events : List (LockEvent μ)
  balanced : ∀ held, LockEvent.heldAfter held events = held

namespace Scoped

variable {μ : Type u} [DecidableEq μ] {α : Type v}

/-- Nothing is locked. -/
def nothing : Scoped μ := ⟨[], fun _ ↦ rfl⟩

instance : Append (Scoped μ) :=
  ⟨fun a b ↦ ⟨a.events ++ b.events, fun held ↦ by
    rw [LockEvent.heldAfter_append, a.balanced, b.balanced]⟩⟩

/-- A lock guard around a block. -/
def under (m : μ) (body : Scoped μ) : Scoped μ :=
  ⟨.acquire m :: (body.events ++ [.release m]), fun held ↦ by
    rw [LockEvent.heldAfter, LockEvent.heldAfter_append, body.balanced]
    exact List.erase_cons_head m held⟩

/-- A loop. -/
def forEach (l : List α) (body : α → Scoped μ) : Scoped μ :=
  l.foldr (fun a rest ↦ body a ++ rest) nothing

/-- Some event acquires a mutex that is held, when `held` are held at the beginning. -/
def relocks (held : List μ) (s : Scoped μ) : Bool := LockEvent.relocks held s.events

@[simp] theorem relocks_nothing (held : List μ) : relocks held nothing = false := rfl

@[simp] theorem relocks_append (held : List μ) (a b : Scoped μ) :
    relocks held (a ++ b) = (relocks held a || relocks held b) := by
  show LockEvent.relocks held (a.events ++ b.events) = _
  rw [LockEvent.relocks_append, a.balanced]
  rfl

@[simp] theorem relocks_under (held : List μ) (m : μ) (body : Scoped μ) :
    relocks held (under m body) = (decide (m ∈ held) || relocks (m :: held) body) := by
  show LockEvent.relocks held (.acquire m :: (body.events ++ [.release m])) = _
  rw [LockEvent.relocks, LockEvent.relocks_append, body.balanced]
  simp [LockEvent.relocks, relocks]

@[simp] theorem relocks_forEach (held : List μ) (l : List α) (body : α → Scoped μ) :
    relocks held (forEach l body) = l.any fun a ↦ relocks held (body a) := by
  induction l with
  | nil => rfl
  | cons a l ih =>
    rw [List.any_cons, ← ih]
    exact relocks_append held (body a) (forEach l body)

/-- A branch. -/
theorem relocks_ite (held : List μ) (p : Prop) [Decidable p] (a b : Scoped μ) :
    relocks held (if p then a else b) = if p then relocks held a else relocks held b := by
  split <;> rfl

end Scoped
