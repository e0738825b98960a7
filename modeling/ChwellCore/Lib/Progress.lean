import ChwellCore.Lib.Run

/-!
# Systems that come to rest

If something gets less with every step, a system comes to rest whichever steps it takes: no run is
longer than what there was (`Run.length_add_rank_le`).  If moreover a step can be taken wherever the
goal has not been reached, every run can go on to the goal (`exists_run_of_progress`).  Both are
about the states in which an invariant holds, because neither need be true in the others.
-/

set_option autoImplicit false

universe u v

namespace System

variable {σ : Type u} {ι : Type v} {T : System σ ι} {inv : σ → Prop} {rank : σ → ℕ}

/-- **A run is no longer than what there is to lose.** -/
theorem Run.length_add_rank_le
    (hdown : ∀ s l t, inv s → T.step s l t → inv t ∧ rank t < rank s) {s t : σ} {ls : List ι}
    (hs : inv s) (hrun : T.Run s ls t) : inv t ∧ ls.length + rank t ≤ rank s := by
  induction hrun with
  | nil => exact ⟨hs, Nat.le_of_eq (Nat.zero_add _)⟩
  | @snoc ls t u l _ hlast ih =>
    obtain ⟨ht, hle⟩ := ih
    obtain ⟨hu, hlt⟩ := hdown t l u ht hlast
    refine ⟨hu, ?_⟩
    rw [List.length_append, List.length_singleton]
    omega

/-- **Where a step can always be taken, the goal is reached.** -/
theorem exists_run_of_progress {goal : σ → Prop}
    (hdown : ∀ s l t, inv s → T.step s l t → inv t ∧ rank t < rank s)
    (hprogress : ∀ s, inv s → ¬ goal s → ∃ l t, T.step s l t) {s : σ} (hs : inv s) :
    ∃ ls t, T.Run s ls t ∧ inv t ∧ goal t := by
  induction hn : rank s using Nat.strongRecOn generalizing s with
  | _ n ih =>
    by_cases hgoal : goal s
    · exact ⟨[], s, .nil, hs, hgoal⟩
    · obtain ⟨l, t, hstep⟩ := hprogress s hs hgoal
      obtain ⟨ht, hlt⟩ := hdown s l t hs hstep
      obtain ⟨ls, u, hrun, hu, hgoal⟩ := ih (rank t) (hn ▸ hlt) ht rfl
      exact ⟨l :: ls, u, .cons hstep hrun, hu, hgoal⟩

end System
