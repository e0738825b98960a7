import ChwellCore.Lib.Run
import ChwellCore.RateLimit.FixedWindow

/-!
# What a fixed window counts

`consume` of the two bucket limiters takes as many tokens as it is asked for.  `consume` of
`FixedWindowRateLimiter` is given the number as well, and passes on to `check`, which counts one.
So a window admits `max_requests` calls of `consume`, of any size.

A `WindowLedger` follows a run of the three operations and adds up what was admitted in the present
window of each key, a call of `consume` at a price that depends on its count.  `countsAll_iff` says
for which prices the window keeps to its limit and `get_remaining` reports what is left: just when
the calls that are admitted cost one each.  At the price of one that is every run
(`countsAll_calls`); at the price of their count it is a run of single requests
(`consume_counts_iff`).
-/

set_option autoImplicit false

namespace ChwellCore

/-- The readings are taken one after the other, from `clock` on. -/
def WindowReadings.After (clock : ℤ) (t : WindowReadings) : Prop :=
  clock ≤ t.created ∧ t.created ≤ t.now ∧ t.now ≤ t.restarted ∧ t.restarted ≤ t.refused

instance (clock : ℤ) (t : WindowReadings) : Decidable (t.After clock) :=
  inferInstanceAs (Decidable (_ ∧ _ ∧ _ ∧ _))

namespace Windows

variable (maxRequests windowSizeMs : ℤ)

/-- The operation starts the window of `key` anew. -/
def resets (t : WindowReadings) (key : Bytes) (s : Windows) : Bool :=
  shouldResetWindow windowSizeMs t.now ((s.lookup key).getD ⟨0, t.created⟩)

/-- `FixedWindowRateLimiter::get_remaining`. -/
def getRemaining (t : WindowReadings) (key : Bytes) (s : Windows) : ℤ × Windows :=
  match s.lookup key with
  | none => (maxRequests, s)
  | some _ =>
    let w := current windowSizeMs t key s
    (maxRequests - w.count, s.insert key w)

/-- The count of the window of `key`. -/
def counted (key : Bytes) (s : Windows) : ℤ := ((s.lookup key).map Window.count).getD 0

variable {maxRequests windowSizeMs} {t : WindowReadings} {key : Bytes} {s : Windows}

theorem counted_insert (k : Bytes) (w : Window) :
    counted k (s.insert key w) = if k = key then w.count else counted k s := by
  rw [counted, UnorderedMap.lookup_insert_ite]
  split
  · rfl
  · rfl

theorem current_count :
    (current windowSizeMs t key s).count =
      if resets windowSizeMs t key s then 0 else counted key s := by
  rw [current, counted, resets]
  split
  · rfl
  · cases s.lookup key <;> rfl

theorem getRemaining_fst :
    (getRemaining maxRequests windowSizeMs t key s).1 =
      maxRequests - if resets windowSizeMs t key s then 0 else counted key s := by
  rw [getRemaining]
  split
  · next hnone =>
    have hzero : counted key s = 0 := by rw [counted, hnone]; rfl
    rw [hzero, ite_self, sub_zero]
  · rw [← current_count]

theorem counted_getRemaining (k : Bytes) :
    counted k (getRemaining maxRequests windowSizeMs t key s).2 =
      if k = key then (current windowSizeMs t key s).count else counted k s := by
  rw [getRemaining]
  split
  · next hnone =>
    split
    · next hk =>
      rw [current_count, hk, counted, hnone]
      exact (ite_self _).symm
    · rfl
  · exact counted_insert k _

theorem allowed_check :
    (check maxRequests windowSizeMs t key s).1.allowed =
      decide ((current windowSizeMs t key s).count < maxRequests) := by
  rw [check]
  split
  · next h => exact (decide_eq_true h).symm
  · next h => exact (decide_eq_false h).symm

theorem lookup_check (k : Bytes) :
    (check maxRequests windowSizeMs t key s).2.lookup k =
      if k = key then
        some { current windowSizeMs t key s with
          count := (current windowSizeMs t key s).count +
            if (check maxRequests windowSizeMs t key s).1.allowed then 1 else 0 }
      else s.lookup k := by
  rw [allowed_check, check]
  by_cases h : (current windowSizeMs t key s).count < maxRequests
  · simp only [h, if_true, UnorderedMap.lookup_insert_ite, decide_true]
  · simp only [h, if_false, UnorderedMap.lookup_insert_ite, decide_false, add_zero,
      Bool.false_eq_true]

theorem counted_check (k : Bytes) :
    counted k (check maxRequests windowSizeMs t key s).2 =
      if k = key then (current windowSizeMs t key s).count +
        if (check maxRequests windowSizeMs t key s).1.allowed then 1 else 0
      else counted k s := by
  rw [counted, lookup_check]
  split
  · rfl
  · rfl

/-- A window that is looked at once more, at the same moment, is not over. -/
theorem not_resets_again (hsize : 1 ≤ windowSizeMs) {w : Window}
    (hw : w.startTimeMs = (current windowSizeMs t key s).startTimeMs) :
    shouldResetWindow windowSizeMs
      (if resets windowSizeMs t key s then t.restarted else t.now) w = false := by
  rw [shouldResetWindow, hw, current]
  by_cases h : resets windowSizeMs t key s = true
  · rw [if_pos h, resets] at *
    simp only [h, if_true]
    exact decide_eq_false (by omega)
  · rw [if_neg h]
    rw [Bool.not_eq_true, resets] at h
    simp only [h, Bool.false_eq_true, if_false]
    exact h

end Windows

/-! ## Runs -/

/-- The operations, with what they read off the clock. -/
inductive WindowOp where
  | check (key : Bytes) (t : WindowReadings)
  | consume (key : Bytes) (count : ℤ) (t : WindowReadings)
  | getRemaining (key : Bytes) (t : WindowReadings)

/-- A limiter in a run.  The last two fields are not in the code: what was admitted in the present
window of each key, and the last reading of the clock. -/
structure WindowLedger where
  windows : Windows
  used : Bytes → ℤ
  clock : ℤ

namespace WindowLedger

variable (maxRequests windowSizeMs : ℤ) (cost : ℤ → ℤ)

open Windows

/-- An empty table. -/
def init (now : ℤ) : WindowLedger := ⟨∅, fun _ ↦ 0, now⟩

/-- An operation on `key` that leaves the table `windows`, when something at a price of `price` was
admitted, and `clock` is the last reading it has taken. -/
def post (l : WindowLedger) (t : WindowReadings) (key : Bytes) (windows : Windows)
    (price clock : ℤ) : WindowLedger :=
  { windows
    used := Function.update l.used key
      ((if resets windowSizeMs t key l.windows then 0 else l.used key) + price)
    clock }

/-- The last reading that `current` takes. -/
def lastLook (l : WindowLedger) (t : WindowReadings) (key : Bytes) : ℤ :=
  if resets windowSizeMs t key l.windows then t.restarted else t.now

/-- One operation, at readings in their order.  The count given to `consume` is at least 1. -/
def step (l : WindowLedger) : WindowOp → Option WindowLedger
  | .check key t =>
    if t.After l.clock then
      let r := Windows.check maxRequests windowSizeMs t key l.windows
      some (l.post windowSizeMs t key r.2 (if r.1.allowed then 1 else 0)
        (if r.1.allowed then l.lastLook windowSizeMs t key else t.refused))
    else none
  | .consume key count t =>
    if t.After l.clock ∧ 1 ≤ count then
      let r := Windows.consume maxRequests windowSizeMs t key count l.windows
      some (l.post windowSizeMs t key r.2 (if r.1 then cost count else 0)
        (if r.1 then l.lastLook windowSizeMs t key else t.refused))
    else none
  | .getRemaining key t =>
    if t.After l.clock then
      let r := Windows.getRemaining maxRequests windowSizeMs t key l.windows
      some (l.post windowSizeMs t key r.2 0
        (if (l.windows.lookup key).isSome then l.lastLook windowSizeMs t key else l.clock))
    else none

/-- Runs of the three operations. -/
def system : System WindowLedger WindowOp :=
  System.ofPartial (step maxRequests windowSizeMs cost)

/-- No window has admitted more than the limit, and `get_remaining` reports what is left. -/
def CountsAll (l : WindowLedger) : Prop :=
  ∀ key, l.used key ≤ maxRequests ∧ ∀ t : WindowReadings, t.After l.clock →
    (Windows.getRemaining maxRequests windowSizeMs t key l.windows).1 =
      maxRequests - if resets windowSizeMs t key l.windows then 0 else l.used key

/-- A `consume` that finds room in the window costs one. -/
def Single (l : WindowLedger) : WindowOp → Prop
  | .consume key count t =>
    (current windowSizeMs t key l.windows).count < maxRequests → cost count = 1
  | _ => True

instance (l : WindowLedger) : ∀ o, Decidable (l.Single maxRequests windowSizeMs cost o)
  | .consume key count t =>
    inferInstanceAs (Decidable ((current windowSizeMs t key l.windows).count < maxRequests →
      cost count = 1))
  | .check .. | .getRemaining .. => .isTrue trivial

/-- The window knows what was admitted. -/
structure Inv (l : WindowLedger) : Prop where
  used_eq : ∀ key, l.used key = counted key l.windows
  le : ∀ key, l.used key ≤ maxRequests

variable {maxRequests windowSizeMs} {cost} {l l' : WindowLedger} {now : ℤ} {ops : List WindowOp}

theorem Inv.countsAll (h : l.Inv maxRequests) : l.CountsAll maxRequests windowSizeMs := by
  refine fun key ↦ ⟨h.le key, fun t _ ↦ ?_⟩
  rw [getRemaining_fst, h.used_eq]

/-- What was admitted in the window that an operation finds. -/
theorem Inv.current_count (h : l.Inv maxRequests) (t : WindowReadings) (key : Bytes) :
    (if resets windowSizeMs t key l.windows then 0 else l.used key) =
      (current windowSizeMs t key l.windows).count := by
  rw [Windows.current_count, h.used_eq]

/-- An operation that leaves a window with what it has admitted keeps the invariant. -/
theorem Inv.post (h : l.Inv maxRequests) {t : WindowReadings} {key : Bytes} {windows : Windows}
    {price : ℤ} (clock : ℤ)
    (hcounted : ∀ k, counted k windows =
      if k = key then (current windowSizeMs t key l.windows).count + price else counted k l.windows)
    (hle : (current windowSizeMs t key l.windows).count + price ≤ maxRequests) :
    (l.post windowSizeMs t key windows price clock).Inv maxRequests := by
  have hused : ∀ k, (l.post windowSizeMs t key windows price clock).used k =
      if k = key then (current windowSizeMs t key l.windows).count + price else l.used k := by
    intro k
    rw [← h.current_count]
    exact Function.update_apply _ _ _ _
  refine ⟨fun k ↦ ?_, fun k ↦ ?_⟩
  · rw [hused]
    exact ((hcounted k).trans (by rw [h.used_eq])).symm
  · rw [hused]
    split
    · exact hle
    · exact h.le k

variable (windowSizeMs) in
theorem Inv.current_le (h0 : 0 ≤ maxRequests) (h : l.Inv maxRequests) (t : WindowReadings)
    (key : Bytes) : (current windowSizeMs t key l.windows).count ≤ maxRequests := by
  rw [← h.current_count]
  split
  · exact h0
  · exact h.le key

/-- A `check` that counts what it admits keeps the invariant. -/
theorem Inv.check (h0 : 0 ≤ maxRequests) (h : l.Inv maxRequests) (t : WindowReadings) (key : Bytes)
    (clock : ℤ) :
    (l.post windowSizeMs t key (Windows.check maxRequests windowSizeMs t key l.windows).2
      (if (Windows.check maxRequests windowSizeMs t key l.windows).1.allowed then 1 else 0)
      clock).Inv maxRequests := by
  refine h.post clock counted_check ?_
  have hle := h.current_le windowSizeMs h0 t key
  rw [allowed_check]
  by_cases hlt : (current windowSizeMs t key l.windows).count < maxRequests
  · simp only [hlt, decide_true, if_true]
    omega
  · simp only [hlt, decide_false, Bool.false_eq_true, if_false, add_zero]
    exact hle

theorem Inv.step (h0 : 0 ≤ maxRequests) (h : l.Inv maxRequests) {o : WindowOp}
    (hg : l.Single maxRequests windowSizeMs cost o)
    (hs : l.step maxRequests windowSizeMs cost o = some l') : l'.Inv maxRequests := by
  rcases o with ⟨key, t⟩ | ⟨key, count, t⟩ | ⟨key, t⟩
  · obtain ⟨-, hs⟩ := Option.ite_none_right_eq_some.1 hs
    obtain rfl := Option.some.inj hs
    exact h.check h0 t key _
  · obtain ⟨-, hs⟩ := Option.ite_none_right_eq_some.1 hs
    obtain rfl := Option.some.inj hs
    have hprice : (if (consume maxRequests windowSizeMs t key count l.windows).1 then cost count
        else 0) =
        if (Windows.check maxRequests windowSizeMs t key l.windows).1.allowed then 1 else 0 := by
      simp only [consume, allowed_check]
      by_cases hlt : (current windowSizeMs t key l.windows).count < maxRequests
      · simp only [hlt, decide_true, if_true]
        exact hg hlt
      · simp only [hlt, decide_false]
        rfl
    simp only [hprice]
    exact h.check h0 t key _
  · obtain ⟨-, hs⟩ := Option.ite_none_right_eq_some.1 hs
    obtain rfl := Option.some.inj hs
    refine h.post _ (fun k ↦ ?_) ?_
    · rw [counted_getRemaining, add_zero]
    · rw [add_zero]
      exact h.current_le windowSizeMs h0 t key

/-- A `consume` that is admitted at another price is not what the window has counted. -/
theorem Inv.single_of_countsAll (hsize : 1 ≤ windowSizeMs) (h : l.Inv maxRequests) {o : WindowOp}
    (hs : l.step maxRequests windowSizeMs cost o = some l')
    (hall : l'.CountsAll maxRequests windowSizeMs) : l.Single maxRequests windowSizeMs cost o := by
  rcases o with ⟨key, t⟩ | ⟨key, count, t⟩ | ⟨key, t⟩
  · trivial
  · intro hlt
    obtain ⟨-, hs⟩ := Option.ite_none_right_eq_some.1 hs
    have hallowed : (Windows.check maxRequests windowSizeMs t key l.windows).1.allowed = true := by
      rw [allowed_check]
      exact decide_eq_true hlt
    simp only [consume, hallowed, if_true, Option.some_inj] at hs
    obtain ⟨now, hnow⟩ : ∃ now, now = l.lastLook windowSizeMs t key := ⟨_, rfl⟩
    have hclock : l'.clock = now := by rw [← hs, hnow]; rfl
    have hwindows : l'.windows = (Windows.check maxRequests windowSizeMs t key l.windows).2 := by
      rw [← hs]
      rfl
    -- `get_remaining`, at the last reading
    have hlook := (hall key).2 ⟨now, now, now, now⟩ ⟨hclock.le, le_rfl, le_rfl, le_rfl⟩
    have hagain : resets windowSizeMs ⟨now, now, now, now⟩ key l'.windows = false := by
      rw [resets, hwindows, lookup_check, if_pos rfl, Option.getD_some, hnow]
      exact not_resets_again hsize rfl
    rw [getRemaining_fst, hagain, if_neg Bool.false_ne_true, if_neg Bool.false_ne_true] at hlook
    have hcounted : counted key l'.windows = (current windowSizeMs t key l.windows).count + 1 := by
      rw [hwindows, counted_check, if_pos rfl, if_pos hallowed]
    have hused : l'.used key = (current windowSizeMs t key l.windows).count + cost count := by
      rw [← hs, ← h.current_count]
      exact Function.update_self _ _ _
    omega
  · trivial

/-- **What the window counts, at any price.**  For every limit of at least 0, every size of at least
1 and every run of the three operations from an empty table, on any keys and at readings in their
order: the limit is kept and `get_remaining` reports what is left of it, in every state of the run,
if and only if every `consume` of the run that finds room in its window costs one. -/
theorem countsAll_iff (h0 : 0 ≤ maxRequests) (hsize : 1 ≤ windowSizeMs)
    (hrun : (system maxRequests windowSizeMs cost).Run (init now) ops l) :
    (system maxRequests windowSizeMs cost).Along
        (fun _ _ l' ↦ l'.CountsAll maxRequests windowSizeMs) (init now) ops ↔
      ((system maxRequests windowSizeMs cost).guarded fun l o ↦
        l.Single maxRequests windowSizeMs cost o).Run (init now) ops l := by
  have hinit : (init now).Inv maxRequests := ⟨fun _ ↦ rfl, fun _ ↦ h0⟩
  refine System.along_iff (fun l o l' h hs ↦ ⟨h.single_of_countsAll hsize hs, fun hg ↦
    (h.step h0 hg hs).countsAll⟩) (fun l o l' h hs hall ↦ ?_) hinit hrun
  exact h.step h0 (h.single_of_countsAll hsize hs hall) hs

/-- **The window counts calls**: at a price of one for each, every run keeps to the limit. -/
theorem countsAll_calls (h0 : 0 ≤ maxRequests)
    (hrun : (system maxRequests windowSizeMs fun _ ↦ 1).Run (init now) ops l) :
    l.CountsAll maxRequests windowSizeMs := by
  refine (hrun.invariant (motive := Inv maxRequests) (fun l o l' h hs ↦ ?_)
    ⟨fun _ ↦ rfl, fun _ ↦ h0⟩).countsAll
  refine h.step h0 ?_ hs
  rcases o with _ | _ | _
  · trivial
  · exact fun _ ↦ rfl
  · trivial

/-- **When the window counts what is consumed**: just when it is consumed one by one. -/
theorem consume_counts_iff (h0 : 0 ≤ maxRequests) (hsize : 1 ≤ windowSizeMs)
    (hrun : (system maxRequests windowSizeMs fun count ↦ count).Run (init now) ops l) :
    (system maxRequests windowSizeMs fun count ↦ count).Along
        (fun _ _ l' ↦ l'.CountsAll maxRequests windowSizeMs) (init now) ops ↔
      ((system maxRequests windowSizeMs fun count ↦ count).guarded fun l o ↦
        l.Single maxRequests windowSizeMs (fun count ↦ count) o).Run (init now) ops l :=
  countsAll_iff h0 hsize hrun

/-- Two requests of one, and a look, with a limit of three. -/
theorem consume_counts_iff_single :
    ∃ l, (system 3 1000 fun count ↦ count).Run (init 0)
        [.consume [1] 1 ⟨0, 0, 0, 0⟩, .check [1] ⟨5, 5, 5, 5⟩, .getRemaining [1] ⟨7, 7, 7, 7⟩] l ∧
      ((system 3 1000 fun count ↦ count).Along (fun _ _ l' ↦ l'.CountsAll 3 1000) (init 0)
          [.consume [1] 1 ⟨0, 0, 0, 0⟩, .check [1] ⟨5, 5, 5, 5⟩, .getRemaining [1] ⟨7, 7, 7, 7⟩] ↔
        ((system 3 1000 fun count ↦ count).guarded fun l o ↦
          l.Single 3 1000 (fun count ↦ count) o).Run (init 0)
          [.consume [1] 1 ⟨0, 0, 0, 0⟩, .check [1] ⟨5, 5, 5, 5⟩, .getRemaining [1] ⟨7, 7, 7, 7⟩] l)
      := by
  obtain ⟨l, hrun, -⟩ : ∃ l, (system 3 1000 fun count ↦ count).Run (init 0)
      [.consume [1] 1 ⟨0, 0, 0, 0⟩, .check [1] ⟨5, 5, 5, 5⟩, .getRemaining [1] ⟨7, 7, 7, 7⟩] l ∧
        l.used [1] = 2 :=
    System.Run.exists_of_any (by decide +kernel)
  exact ⟨l, hrun, consume_counts_iff (by decide) (by decide) hrun⟩

/-- One request of five passes a limit of three, and two more are said to be left. -/
theorem not_forall_countsAll :
    ¬ ∀ (maxRequests windowSizeMs now : ℤ) (ops : List WindowOp) (l : WindowLedger),
      0 ≤ maxRequests → 1 ≤ windowSizeMs →
        (system maxRequests windowSizeMs fun count ↦ count).Run (init now) ops l →
          l.CountsAll maxRequests windowSizeMs := by
  intro h
  obtain ⟨l, hrun, hused⟩ : ∃ l, (system 3 1000 fun count ↦ count).Run (init 0)
      [.consume [1] 5 ⟨0, 0, 0, 0⟩] l ∧ l.used [1] = 5 :=
    System.Run.exists_of_any (by decide +kernel)
  have hle := (h 3 1000 0 _ l (by decide) (by decide) hrun [1]).1
  omega

end WindowLedger
end ChwellCore
