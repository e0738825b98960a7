import Mathlib.Data.List.Basic
import Mathlib.Tactic.Common

/-!
# Runs of a transition system

A `System` is a labelled step relation; `System.Run s ls t` says that the labels `ls`, taken one
after another, lead from `s` to `t`.  A run grows at its *end*, because that is the direction an
invariant is proved in: what holds before the last step is what the induction hypothesis gives.

`Run.invariant` is the rule every safety proof goes through.  A property that is only kept by steps
satisfying some condition on the state they start from is a property of the *guarded* system,
`System.guarded`, whose runs are exactly the runs all of whose steps satisfy the condition.

`System.Since` looks back along a run, and `since_snoc` is how it is followed step by step.
`System.Along` asks something of every step of a run, and `along_iff` is the rule for an *exact*
guard: if each step does what is asked just when the guard lets it pass, then all steps of a run do
just when the run is one of the guarded system.  `snoc_eq_append_cons` is what both come from.  For
the last two, a step must not leave a choice (`System.Deterministic`).

A partial step function can be computed: `Run.exists_of_any` has the run from the computation.
-/

set_option autoImplicit false

universe u v

/-- A transition system: `step s l t` says that the step `l` can lead from `s` to `t`. -/
structure System (σ : Type u) (ι : Type v) where
  step : σ → ι → σ → Prop

namespace System

variable {σ : Type u} {ι : Type v} (T : System σ ι)

/-- The steps `ls`, in order, can lead from `s` to the last argument. -/
inductive Run (s : σ) : List ι → σ → Prop
  | nil : Run s [] s
  | snoc {ls : List ι} {t u : σ} {l : ι} : Run s ls t → T.step t l u → Run s (ls ++ [l]) u

/-- The system whose step function is total and deterministic. -/
def ofFun (f : σ → ι → σ) : System σ ι := ⟨fun s l t ↦ t = f s l⟩

/-- The system whose step function may refuse a step. -/
def ofPartial (f : σ → ι → Option σ) : System σ ι := ⟨fun s l t ↦ f s l = some t⟩

/-- Since a step of the run that satisfied `Q` in the state it was taken in, there has been none
that satisfies `P`. -/
def Since (P : ι → Prop) (Q : σ → ι → Prop) (s : σ) (ls : List ι) : Prop :=
  ∃ (ls₁ ls₂ : List ι) (l : ι) (t : σ), ls = ls₁ ++ l :: ls₂ ∧ T.Run s ls₁ t ∧ Q t l ∧
    ∀ l ∈ ls₂, ¬ P l

/-- Every step of the run satisfies `Q`. -/
def Along (Q : σ → ι → σ → Prop) (s : σ) (ls : List ι) : Prop :=
  ∀ (ls₁ ls₂ : List ι) (l : ι) (t u : σ), ls = ls₁ ++ l :: ls₂ → T.Run s ls₁ t → T.step t l u →
    Q t l u

/-- The steps of `T` that are taken in a state satisfying `g`. -/
def guarded (g : σ → ι → Prop) : System σ ι := ⟨fun s l t ↦ g s l ∧ T.step s l t⟩

variable {T}

/-- **The invariant rule**: what holds at the start and is kept by every step holds at the end. -/
theorem Run.invariant {motive : σ → Prop}
    (hstep : ∀ s l t, motive s → T.step s l t → motive t) {s t : σ} {ls : List ι}
    (hrun : T.Run s ls t) (hs : motive s) : motive t := by
  induction hrun with
  | nil => exact hs
  | snoc _ hlast ih => exact hstep _ _ _ ih hlast

theorem Run.single {s t : σ} {l : ι} (h : T.step s l t) : T.Run s [l] t := .snoc .nil h

/-- The last step of a run. -/
theorem Run.last {s u : σ} {ls : List ι} {l : ι} (h : T.Run s (ls ++ [l]) u) :
    ∃ t, T.Run s ls t ∧ T.step t l u := by
  generalize hall : ls ++ [l] = all at h
  cases h with
  | nil => simp at hall
  | snoc hrun hstep =>
    obtain ⟨rfl, hl⟩ := List.append_inj' hall rfl
    cases hl
    exact ⟨_, hrun, hstep⟩

theorem Run.append {s t u : σ} {as bs : List ι} (ha : T.Run s as t) (hb : T.Run t bs u) :
    T.Run s (as ++ bs) u := by
  induction hb with
  | nil => simpa using ha
  | snoc _ hlast ih =>
    rw [← List.append_assoc]
    exact ih.snoc hlast

theorem Run.cons {s t u : σ} {l : ι} {ls : List ι} (h : T.step s l t) (hrun : T.Run t ls u) :
    T.Run s (l :: ls) u :=
  (Run.single h).append hrun

/-- The first step of a run. -/
theorem Run.first {s u : σ} {ls : List ι} {l : ι} (h : T.Run s (l :: ls) u) :
    ∃ t, T.step s l t ∧ T.Run t ls u := by
  generalize hall : l :: ls = all at h
  induction h generalizing ls with
  | nil => simp at hall
  | @snoc before t u l' hrun hstep ih =>
    rcases before with _ | ⟨l'', before⟩
    · obtain ⟨rfl, rfl⟩ := List.cons.inj hall
      generalize hnil : [] = before at hrun
      cases hrun with
      | nil => exact ⟨u, hstep, .nil⟩
      | snoc => simp at hnil
    · obtain ⟨rfl, rfl⟩ := List.cons.inj hall
      obtain ⟨v, hfirst, hrest⟩ := ih rfl
      exact ⟨v, hfirst, hrest.snoc hstep⟩

/-- A run can be cut in two anywhere. -/
theorem Run.split {s u : σ} {as bs : List ι} (h : T.Run s (as ++ bs) u) :
    ∃ t, T.Run s as t ∧ T.Run t bs u := by
  induction as generalizing s with
  | nil => exact ⟨s, .nil, h⟩
  | cons l as ih =>
    obtain ⟨t, hfirst, hrest⟩ := Run.first h
    obtain ⟨v, hleft, hright⟩ := ih hrest
    exact ⟨v, .cons hfirst hleft, hright⟩

/-- A run of a smaller system is a run of a larger one. -/
theorem Run.mono {T' : System σ ι} (h : ∀ s l t, T.step s l t → T'.step s l t) {s t : σ}
    {ls : List ι} (hrun : T.Run s ls t) : T'.Run s ls t := by
  induction hrun with
  | nil => exact .nil
  | snoc _ hlast ih => exact ih.snoc (h _ _ _ hlast)

/-- A run whose steps all satisfy a guard is a run. -/
theorem Run.of_guarded {g : σ → ι → Prop} {s t : σ} {ls : List ι}
    (hrun : (T.guarded g).Run s ls t) : T.Run s ls t :=
  Run.mono (T := T.guarded g) (fun _ _ _ h ↦ h.2) hrun

/-- To run a partial step function is to fold it over the labels. -/
theorem Run.of_foldlM {f : σ → ι → Option σ} {s t : σ} {ls : List ι} (h : ls.foldlM f s = some t) :
    (ofPartial f).Run s ls t := by
  induction ls generalizing s with
  | nil =>
    cases h
    exact .nil
  | cons l ls ih =>
    rw [List.foldlM_cons] at h
    obtain ⟨u, hu, hrest⟩ := Option.bind_eq_some_iff.1 h
    exact .cons (T := ofPartial f) hu (ih hrest)

/-- The same with a guard that can be checked. -/
theorem Run.of_foldlM_guarded {f : σ → ι → Option σ} {g : σ → ι → Prop} [∀ s l, Decidable (g s l)]
    {s t : σ} {ls : List ι} (h : ls.foldlM (fun s l ↦ if g s l then f s l else none) s = some t) :
    ((ofPartial f).guarded g).Run s ls t := by
  refine Run.mono (fun u l v (hstep : (if g u l then f u l else none) = some v) ↦ ?_)
    (Run.of_foldlM h)
  obtain ⟨hg, hstep⟩ := Option.ite_none_right_eq_some.1 hstep
  exact ⟨hg, hstep⟩

/-- Where the steps are and what they lead to can be computed, a run is found by computing. -/
theorem Run.exists_of_any {f : σ → ι → Option σ} {P : σ → Prop} [DecidablePred P] {s : σ}
    {ls : List ι} (h : (ls.foldlM f s).any (fun t ↦ decide (P t)) = true) :
    ∃ t, (ofPartial f).Run s ls t ∧ P t := by
  obtain ⟨t, hfold, hP⟩ := (Option.any_eq_true _ _).1 h
  exact ⟨t, .of_foldlM hfold, of_decide_eq_true hP⟩

/-- The same with a guard that can be checked. -/
theorem Run.exists_of_any_guarded {f : σ → ι → Option σ} {g : σ → ι → Prop}
    [∀ s l, Decidable (g s l)] {P : σ → Prop} [DecidablePred P] {s : σ} {ls : List ι}
    (h : (ls.foldlM (fun s l ↦ if g s l then f s l else none) s).any
      (fun t ↦ decide (P t)) = true) :
    ∃ t, ((ofPartial f).guarded g).Run s ls t ∧ P t := by
  obtain ⟨t, hfold, hP⟩ := (Option.any_eq_true _ _).1 h
  exact ⟨t, .of_foldlM_guarded hfold, of_decide_eq_true hP⟩

/-- Where a step leads to depends on nothing else. -/
def Deterministic (T : System σ ι) : Prop := ∀ s l t t', T.step s l t → T.step s l t' → t = t'

theorem deterministic_ofPartial (f : σ → ι → Option σ) : (ofPartial f).Deterministic :=
  fun _ _ _ _ h h' ↦ Option.some.inj (h.symm.trans h')

/-- A deterministic system leaves a run no choice. -/
theorem Run.unique (hT : T.Deterministic) {s t t' : σ} {ls : List ι} (h : T.Run s ls t)
    (h' : T.Run s ls t') : t' = t := by
  induction h generalizing t' with
  | nil =>
    generalize hls : [] = ls at h'
    cases h' with
    | nil => rfl
    | snoc => simp at hls
  | snoc _ hlast ih =>
    obtain ⟨u, hu, hlast'⟩ := h'.last
    cases ih hu
    exact hT _ _ _ _ hlast' hlast

theorem Run.unique_of_ofPartial {f : σ → ι → Option σ} {s t t' : σ} {ls : List ι}
    (h : (ofPartial f).Run s ls t) (h' : (ofPartial f).Run s ls t') : t' = t :=
  h.unique (deterministic_ofPartial f) h'

/-- A step of a run that is one longer is the last one, or a step of the run before. -/
theorem snoc_eq_append_cons {ls ls₁ ls₂ : List ι} {l l' : ι} :
    ls ++ [l] = ls₁ ++ l' :: ls₂ ↔
      (ls₁ = ls ∧ l' = l ∧ ls₂ = []) ∨ ∃ ls₃, ls₂ = ls₃ ++ [l] ∧ ls = ls₁ ++ l' :: ls₃ := by
  constructor
  · intro h
    rcases List.eq_nil_or_concat' ls₂ with rfl | ⟨ls₃, l'', rfl⟩
    · obtain ⟨rfl, hl⟩ := List.append_inj' h rfl
      exact .inl ⟨rfl, (List.head_eq_of_cons_eq hl).symm, rfl⟩
    · rw [← List.cons_append, ← List.append_assoc] at h
      obtain ⟨rfl, hl⟩ := List.append_inj' h rfl
      obtain rfl := List.head_eq_of_cons_eq hl
      exact .inr ⟨ls₃, rfl, rfl⟩
  · rintro (⟨rfl, rfl, rfl⟩ | ⟨ls₃, rfl, rfl⟩)
    · rfl
    · rw [List.append_assoc, List.cons_append]

/-- What one more step does to `Since`. -/
theorem since_snoc {f : σ → ι → Option σ} {P : ι → Prop} {Q : σ → ι → Prop} {s t : σ}
    {ls : List ι} {l : ι} (hrun : (ofPartial f).Run s ls t) :
    (ofPartial f).Since P Q s (ls ++ [l]) ↔ Q t l ∨ (ofPartial f).Since P Q s ls ∧ ¬ P l := by
  constructor
  · rintro ⟨ls₁, ls₂, l', t', hls, hrun', hQ, hP⟩
    rcases snoc_eq_append_cons.1 hls with ⟨rfl, rfl, rfl⟩ | ⟨ls₃, rfl, rfl⟩
    · rw [hrun.unique_of_ofPartial hrun'] at hQ
      exact .inl hQ
    · exact .inr ⟨⟨ls₁, ls₃, l', t', rfl, hrun', hQ, fun k hk ↦ hP k (List.mem_append_left _ hk)⟩,
        hP l (List.mem_append_right _ (List.mem_singleton_self l))⟩
  · rintro (hQ | ⟨⟨ls₁, ls₂, l', t', rfl, hrun', hQ, hP⟩, hl⟩)
    · exact ⟨ls, [], l, t, rfl, hrun, hQ, fun _ hk ↦ absurd hk List.not_mem_nil⟩
    · refine ⟨ls₁, ls₂ ++ [l], l', t', List.append_assoc _ _ _, hrun', hQ, fun k hk ↦ ?_⟩
      rcases List.mem_append.1 hk with hk | hk
      · exact hP k hk
      · rwa [List.mem_singleton.1 hk]

/-- What one more step does to `Along`. -/
theorem along_snoc (hT : T.Deterministic) {Q : σ → ι → σ → Prop} {s t u : σ} {ls : List ι} {l : ι}
    (hrun : T.Run s ls t) (hstep : T.step t l u) :
    T.Along Q s (ls ++ [l]) ↔ T.Along Q s ls ∧ Q t l u := by
  constructor
  · intro h
    refine ⟨fun ls₁ ls₂ l' t' u' hls ↦ h ls₁ (ls₂ ++ [l]) l' t' u' ?_, h ls [] l t u rfl hrun hstep⟩
    rw [hls, List.append_assoc]
    rfl
  · rintro ⟨h, hlast⟩ ls₁ ls₂ l' t' u' hls hrun' hstep'
    rcases snoc_eq_append_cons.1 hls with ⟨rfl, rfl, rfl⟩ | ⟨ls₃, rfl, rfl⟩
    · obtain rfl := hrun.unique hT hrun'
      obtain rfl := hT _ _ _ _ hstep hstep'
      exact hlast
    · exact h ls₁ ls₃ l' t' u' rfl hrun' hstep'

/-- **The rule for an exact guard**: if, where `P` holds, a step does what is asked just when `g`
lets it pass, and `P` holds again after it, then the steps of a run all do what is asked just when
they all satisfy `g`. -/
theorem along_iff_of_deterministic (hT : T.Deterministic) {P : σ → Prop} {Q : σ → ι → σ → Prop}
    {g : σ → ι → Prop} (hiff : ∀ s l t, P s → T.step s l t → (Q s l t ↔ g s l))
    (hkeep : ∀ s l t, P s → T.step s l t → Q s l t → P t) {s t : σ} {ls : List ι} (hs : P s)
    (hrun : T.Run s ls t) : T.Along Q s ls ↔ (T.guarded g).Run s ls t := by
  -- a guarded run keeps `P`
  have hinv : ∀ {ls : List ι} {t : σ}, (T.guarded g).Run s ls t → P t := by
    intro ls t hrun
    refine hrun.invariant ?_ hs
    rintro s l t hP ⟨hg, hstep⟩
    exact hkeep s l t hP hstep ((hiff s l t hP hstep).2 hg)
  induction hrun with
  | nil =>
    refine iff_of_true (fun ls₁ ls₂ l t u hls ↦ ?_) .nil
    simp at hls
  | @snoc ls t u l hrun hlast ih =>
    rw [along_snoc hT hrun hlast]
    constructor
    · rintro ⟨hall, hQ⟩
      have hguarded := ih.1 hall
      exact hguarded.snoc ⟨(hiff t l u (hinv hguarded) hlast).1 hQ, hlast⟩
    · intro hguarded
      obtain ⟨v, hv, hg, hstep⟩ := hguarded.last
      cases hrun.unique hT hv.of_guarded
      exact ⟨ih.2 hv, (hiff t l u (hinv hv) hlast).2 hg⟩

/-- The same for a partial step function. -/
theorem along_iff {f : σ → ι → Option σ} {P : σ → Prop} {Q : σ → ι → σ → Prop} {g : σ → ι → Prop}
    (hiff : ∀ s l t, P s → f s l = some t → (Q s l t ↔ g s l))
    (hkeep : ∀ s l t, P s → f s l = some t → Q s l t → P t) {s t : σ} {ls : List ι} (hs : P s)
    (hrun : (ofPartial f).Run s ls t) :
    (ofPartial f).Along Q s ls ↔ ((ofPartial f).guarded g).Run s ls t :=
  along_iff_of_deterministic (deterministic_ofPartial f) hiff hkeep hs hrun

end System
