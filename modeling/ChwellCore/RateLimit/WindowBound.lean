import ChwellCore.RateLimit.WindowCounts

/-!
# What a fixed window admits in any interval

The windows of a `FixedWindowRateLimiter` are not those of its user: a window begins with the first
request after the last one is over, and an interval of time that is as long as a window may touch
two of them.  `granted_le_windows` says how many calls are admitted between any two instants,
whatever is done to any key in the meantime: the limit for each window that the interval can touch,
and once more for each `reset` of the key in the interval.

A window that has begun before the interval admits calls in it only if it began less than its size
before; from there on the windows are apart by their size at least, and `renewals` counts them.

`reset_all` resets the keys one after the other, as so many calls of `reset` would.
-/

set_option autoImplicit false

namespace ChwellCore

/-- `FixedWindowRateLimiter::reset`, of a window that is there. -/
def Windows.reset (now : ℤ) (key : Bytes) (s : Windows) : Windows := s.insert key ⟨0, now⟩

/-- A call, with what it reads off the clock. -/
inductive WindowCall where
  | check (key : Bytes) (t : WindowReadings)
  | consume (key : Bytes) (count : ℤ) (t : WindowReadings)
  | getRemaining (key : Bytes) (t : WindowReadings)
  | reset (key : Bytes) (now : ℤ)

/-- A limiter at work: its windows, the last reading of the clock, the calls that were admitted, and
the windows that were reset by hand. -/
structure WindowUsage where
  windows : Windows
  clock : ℤ
  grants : List Grant
  byHand : List Grant

namespace WindowUsage

open Windows

variable (maxRequests windowSizeMs : ℤ)

/-- The last time that a call looks at the clock before it counts. -/
def lastLook (u : WindowUsage) (t : WindowReadings) (key : Bytes) : ℤ :=
  if resets windowSizeMs t key u.windows then t.restarted else t.now

/-- What a call of `check` leaves. -/
def afterCheck (u : WindowUsage) (t : WindowReadings) (key : Bytes) (allowed : Bool)
    (windows : Windows) : WindowUsage :=
  { u with
    windows
    clock := if allowed then u.lastLook windowSizeMs t key else t.refused
    grants := u.grants ++ if allowed then [⟨key, u.lastLook windowSizeMs t key, 1⟩] else [] }

/-- One call, at readings in their order. -/
def step (u : WindowUsage) : WindowCall → Option WindowUsage
  | .check key t =>
    if t.After u.clock then
      let r := Windows.check maxRequests windowSizeMs t key u.windows
      some (u.afterCheck windowSizeMs t key r.1.allowed r.2)
    else none
  | .consume key count t =>
    if t.After u.clock then
      let r := Windows.consume maxRequests windowSizeMs t key count u.windows
      some (u.afterCheck windowSizeMs t key r.1 r.2)
    else none
  | .getRemaining key t =>
    if t.After u.clock then
      some { u with
        windows := (Windows.getRemaining maxRequests windowSizeMs t key u.windows).2
        clock :=
          if (u.windows.lookup key).isSome then u.lastLook windowSizeMs t key else u.clock }
    else none
  | .reset key now =>
    if u.clock ≤ now then
      if (u.windows.lookup key).isSome then
        some { u with
          windows := Windows.reset now key u.windows
          clock := now
          byHand := u.byHand ++ [⟨key, now, 1⟩] }
      else some u
    else none

/-- The limiter under any calls. -/
def system : System WindowUsage WindowCall := System.ofPartial (step maxRequests windowSizeMs)

end WindowUsage

/-! ## One window -/

/-- The windows that can have begun before `start` and still admit calls at `t₀`. -/
def renewals (windowSizeMs t₀ start : ℤ) : ℤ := (start + windowSizeMs - 1 - t₀) / windowSizeMs

section

variable {windowSizeMs maxRequests t₀ t₁ start now g n : ℤ} {w : Window}

theorem renewals_nonneg (hsize : 1 ≤ windowSizeMs) (h : t₀ < start + windowSizeMs) :
    0 ≤ renewals windowSizeMs t₀ start :=
  Int.ediv_nonneg (by omega) (by omega)

theorem renewals_le (t₀ : ℤ) (hsize : 1 ≤ windowSizeMs) (h : start ≤ now) :
    renewals windowSizeMs t₀ start ≤ renewals windowSizeMs t₀ now :=
  Int.ediv_le_ediv (by omega) (by omega)

/-- Windows are apart by their size. -/
theorem renewals_add_one_le (t₀ : ℤ) (hsize : 1 ≤ windowSizeMs) (h : start + windowSizeMs ≤ now) :
    renewals windowSizeMs t₀ start + 1 ≤ renewals windowSizeMs t₀ now := by
  refine le_trans (le_of_eq ?_) (renewals_le t₀ hsize h)
  have hsum : start + windowSizeMs + windowSizeMs - 1 - t₀ =
      start + windowSizeMs - 1 - t₀ + 1 * windowSizeMs := by ring
  rw [renewals, renewals, hsum, Int.add_mul_ediv_right _ _ (by omega)]

/-- What a window knows of the `g` calls that were admitted between `t₀` and `t₁`, if it was reset
by hand `n` times in between. -/
structure Window.Within (maxRequests windowSizeMs t₀ t₁ g n : ℤ) (w : Window) : Prop where
  nonneg : 0 ≤ w.count
  le_max : w.count ≤ maxRequests
  before : w.startTimeMs + windowSizeMs ≤ t₀ → g = 0
  during : t₀ < w.startTimeMs + windowSizeMs → w.startTimeMs ≤ t₁ →
    g ≤ maxRequests * (renewals windowSizeMs t₀ w.startTimeMs + n) + w.count

/-- A window that is over is followed by another. -/
theorem Window.Within.renew (h : w.Within maxRequests windowSizeMs t₀ t₁ g n)
    (hsize : 1 ≤ windowSizeMs) (hn : 0 ≤ n) (hover : w.startTimeMs + windowSizeMs ≤ now) :
    Window.Within maxRequests windowSizeMs t₀ t₁ g n ⟨0, now⟩ := by
  have hmax := h.nonneg.trans h.le_max
  refine ⟨le_rfl, hmax, fun hbefore ↦ h.before (by dsimp only at hbefore; omega), fun h₀ h₁ ↦ ?_⟩
  dsimp only at h₀ h₁ ⊢
  rw [add_zero]
  by_cases hold : w.startTimeMs + windowSizeMs ≤ t₀
  · rw [h.before hold]
    exact mul_nonneg hmax (add_nonneg (renewals_nonneg hsize h₀) hn)
  · have hduring := h.during (by omega) (by omega)
    have hstep : renewals windowSizeMs t₀ w.startTimeMs + n + 1 ≤
        renewals windowSizeMs t₀ now + n := by
      have := renewals_add_one_le t₀ hsize hover
      omega
    calc
      g ≤ maxRequests * (renewals windowSizeMs t₀ w.startTimeMs + n) + w.count := hduring
      _ ≤ maxRequests * (renewals windowSizeMs t₀ w.startTimeMs + n) + maxRequests := by
        have := h.le_max
        omega
      _ = maxRequests * (renewals windowSizeMs t₀ w.startTimeMs + n + 1) := by ring
      _ ≤ maxRequests * (renewals windowSizeMs t₀ now + n) :=
        mul_le_mul_of_nonneg_left hstep hmax

/-- A window that is reset by hand counts as one more if that is done in the interval. -/
theorem Window.Within.reset (h : w.Within maxRequests windowSizeMs t₀ t₁ g n)
    (hsize : 1 ≤ windowSizeMs) (hn : 0 ≤ n) (hlater : w.startTimeMs ≤ now)
    (hearly : now < t₀ → g = 0) :
    Window.Within maxRequests windowSizeMs t₀ t₁ g (if t₀ ≤ now ∧ now ≤ t₁ then n + 1 else n)
      ⟨0, now⟩ := by
  have hmax := h.nonneg.trans h.le_max
  refine ⟨le_rfl, hmax, fun hbefore ↦ hearly (by dsimp only at hbefore; omega), fun h₀ h₁ ↦ ?_⟩
  dsimp only at h₀ h₁ ⊢
  rw [add_zero]
  have hrenewals := renewals_nonneg hsize h₀
  by_cases hin : t₀ ≤ now
  · rw [if_pos ⟨hin, h₁⟩]
    by_cases hold : w.startTimeMs + windowSizeMs ≤ t₀
    · rw [h.before hold]
      exact mul_nonneg hmax (by omega)
    · have hduring := h.during (by omega) (by omega)
      have hstep : renewals windowSizeMs t₀ w.startTimeMs + n + 1 ≤
          renewals windowSizeMs t₀ now + (n + 1) := by
        have := renewals_le t₀ hsize hlater
        omega
      calc
        g ≤ maxRequests * (renewals windowSizeMs t₀ w.startTimeMs + n) + w.count := hduring
        _ ≤ maxRequests * (renewals windowSizeMs t₀ w.startTimeMs + n) + maxRequests := by
          have := h.le_max
          omega
        _ = maxRequests * (renewals windowSizeMs t₀ w.startTimeMs + n + 1) := by ring
        _ ≤ maxRequests * (renewals windowSizeMs t₀ now + (n + 1)) :=
          mul_le_mul_of_nonneg_left hstep hmax
  · rw [if_neg (fun h ↦ hin h.1), hearly (by omega)]
    exact mul_nonneg hmax (by omega)

/-- A call is admitted by a window that has begun and is not over. -/
theorem Window.Within.admit (h : w.Within maxRequests windowSizeMs t₀ t₁ g n)
    (hroom : w.count < maxRequests)
    (hopen : now < w.startTimeMs + windowSizeMs) :
    Window.Within maxRequests windowSizeMs t₀ t₁ (if t₀ ≤ now ∧ now ≤ t₁ then g + 1 else g) n
      { w with count := w.count + 1 } := by
  have hcount := h.nonneg
  refine ⟨by dsimp only; omega, by dsimp only; omega, fun hbefore ↦ ?_, fun h₀ h₁ ↦ ?_⟩
  · rw [if_neg (fun hin ↦ by dsimp only at hbefore; omega)]
    exact h.before hbefore
  · have hduring := h.during h₀ h₁
    dsimp only
    split <;> omega

/-- The bound, for the calls that a window has admitted in the interval. -/
theorem Window.Within.le (h : w.Within maxRequests windowSizeMs t₀ t₁ g n)
    (hsize : 1 ≤ windowSizeMs) (h₀ : t₀ < w.startTimeMs + windowSizeMs) (h₁ : w.startTimeMs ≤ t₁) :
    g ≤ maxRequests * (renewals windowSizeMs t₀ t₁ + 1 + n) := by
  have hmax := h.nonneg.trans h.le_max
  have hstep : renewals windowSizeMs t₀ w.startTimeMs + n + 1 ≤
      renewals windowSizeMs t₀ t₁ + 1 + n := by
    have := renewals_le t₀ hsize h₁
    omega
  calc
    g ≤ maxRequests * (renewals windowSizeMs t₀ w.startTimeMs + n) + w.count := h.during h₀ h₁
    _ ≤ maxRequests * (renewals windowSizeMs t₀ w.startTimeMs + n) + maxRequests := by
      have := h.le_max
      omega
    _ = maxRequests * (renewals windowSizeMs t₀ w.startTimeMs + n + 1) := by ring
    _ ≤ maxRequests * (renewals windowSizeMs t₀ t₁ + 1 + n) :=
      mul_le_mul_of_nonneg_left hstep hmax

end

/-! ## Runs -/

namespace WindowUsage

open Windows

variable {maxRequests windowSizeMs t₀ t₁ now clock : ℤ} {key key' : Bytes} {t : WindowReadings}
  {u u' : WindowUsage} {gs rs : List Grant}

/-- What was admitted for `key` between `t₀` and `t₁` is accounted for by its window. -/
structure Accounted (maxRequests windowSizeMs : ℤ) (key : Bytes) (t₀ t₁ : ℤ) (u : WindowUsage) :
    Prop where
  stored : ∀ w, u.windows.lookup key = some w → w.startTimeMs ≤ u.clock ∧
    w.Within maxRequests windowSizeMs t₀ t₁ (granted key t₀ t₁ u.grants)
      (granted key t₀ t₁ u.byHand)
  absent : u.windows.lookup key = none → granted key t₀ t₁ u.grants = 0
  early : u.clock < t₀ → granted key t₀ t₁ u.grants = 0
  resets_nonneg : 0 ≤ granted key t₀ t₁ u.byHand
  bound : granted key t₀ t₁ u.grants ≤
    maxRequests * (renewals windowSizeMs t₀ t₁ + 1 + granted key t₀ t₁ u.byHand)

theorem Accounted.empty (hmax : 0 ≤ maxRequests) (hsize : 1 ≤ windowSizeMs) (ht : t₀ ≤ t₁)
    (start : ℤ) : Accounted maxRequests windowSizeMs key t₀ t₁ ⟨∅, start, [], []⟩ := by
  refine ⟨fun w hw ↦ absurd hw (by simp), fun _ ↦ rfl, fun _ ↦ rfl, le_rfl, ?_⟩
  have hrenewals := renewals_nonneg hsize (show t₀ < t₁ + windowSizeMs by omega)
  have hnone : granted key t₀ t₁ [] = 0 := rfl
  rw [hnone]
  exact mul_nonneg hmax (by omega)

/-- The window that a call finds or begins has begun, is not over, and accounts for the calls. -/
theorem Accounted.current (h : Accounted maxRequests windowSizeMs key t₀ t₁ u)
    (hmax : 0 ≤ maxRequests) (hsize : 1 ≤ windowSizeMs) (hafter : t.After u.clock) :
    (Windows.current windowSizeMs t key u.windows).startTimeMs ≤ u.lastLook windowSizeMs t key ∧
      u.lastLook windowSizeMs t key <
        (Windows.current windowSizeMs t key u.windows).startTimeMs + windowSizeMs ∧
      u.clock ≤ u.lastLook windowSizeMs t key ∧
      (Windows.current windowSizeMs t key u.windows).Within maxRequests windowSizeMs t₀ t₁
        (granted key t₀ t₁ u.grants) (granted key t₀ t₁ u.byHand) := by
  obtain ⟨hcreated, hnow, hrestarted, -⟩ := hafter
  have hfound : ((u.windows.lookup key).getD ⟨0, t.created⟩).startTimeMs ≤ t.now ∧
      ((u.windows.lookup key).getD ⟨0, t.created⟩).Within maxRequests windowSizeMs t₀ t₁
        (granted key t₀ t₁ u.grants) (granted key t₀ t₁ u.byHand) := by
    cases hw : u.windows.lookup key with
    | none =>
      rw [h.absent hw]
      refine ⟨hnow, le_rfl, hmax, fun _ ↦ rfl, fun h₀ _ ↦ ?_⟩
      rw [Option.getD_none, add_zero]
      exact mul_nonneg hmax (add_nonneg (renewals_nonneg hsize h₀) h.resets_nonneg)
    | some w =>
      obtain ⟨hstart, hwithin⟩ := h.stored w hw
      exact ⟨(hstart.trans hcreated).trans hnow, hwithin⟩
  obtain ⟨hstart, hwithin⟩ := hfound
  rw [Windows.current, lastLook, Windows.resets]
  generalize (u.windows.lookup key).getD ⟨0, t.created⟩ = w at hstart hwithin
  by_cases hreset : shouldResetWindow windowSizeMs t.now w = true
  · have hover : w.startTimeMs + windowSizeMs ≤ t.now := by
      have := of_decide_eq_true hreset
      omega
    simp only [hreset, if_true]
    exact ⟨le_rfl, by omega, by omega, hwithin.renew hsize h.resets_nonneg (by omega)⟩
  · have hopen : t.now < w.startTimeMs + windowSizeMs := by
      have hnot : ¬ t.now - w.startTimeMs ≥ windowSizeMs := fun h ↦ hreset (decide_eq_true h)
      omega
    simp only [hreset, if_false, Bool.false_eq_true]
    exact ⟨hstart, hopen, by omega, hwithin⟩

/-- To store a window that accounts for the calls. -/
theorem Accounted.insert_self {w : Window} (hstart : w.startTimeMs ≤ clock)
    (hwithin : w.Within maxRequests windowSizeMs t₀ t₁ (granted key t₀ t₁ gs)
      (granted key t₀ t₁ rs))
    (hearly : clock < t₀ → granted key t₀ t₁ gs = 0) (hresets : 0 ≤ granted key t₀ t₁ rs)
    (hbound : granted key t₀ t₁ gs ≤
      maxRequests * (renewals windowSizeMs t₀ t₁ + 1 + granted key t₀ t₁ rs)) :
    Accounted maxRequests windowSizeMs key t₀ t₁ ⟨u.windows.insert key w, clock, gs, rs⟩ := by
  refine ⟨fun w' hw' ↦ ?_, fun hnone ↦ ?_, hearly, hresets, hbound⟩
  · rw [AList.lookup_insert, Option.some_inj] at hw'
    exact hw' ▸ ⟨hstart, hwithin⟩
  · rw [AList.lookup_insert] at hnone
    cases hnone

/-- What is done to another key. -/
theorem Accounted.insert_other (h : Accounted maxRequests windowSizeMs key t₀ t₁ u)
    (hkey : key' ≠ key) (hclock : u.clock ≤ clock)
    (hgs : granted key t₀ t₁ gs = granted key t₀ t₁ u.grants)
    (hrs : granted key t₀ t₁ rs = granted key t₀ t₁ u.byHand) (w : Window) :
    Accounted maxRequests windowSizeMs key t₀ t₁ ⟨u.windows.insert key' w, clock, gs, rs⟩ := by
  refine ⟨fun w' hw' ↦ ?_, fun hnone ↦ ?_, fun hearly ↦ ?_, ?_, ?_⟩
  · rw [AList.lookup_insert_ne hkey.symm] at hw'
    rw [hgs, hrs]
    exact ⟨(h.stored w' hw').1.trans hclock, (h.stored w' hw').2⟩
  · rw [AList.lookup_insert_ne hkey.symm] at hnone
    exact hgs.trans (h.absent hnone)
  · exact hgs.trans (h.early (hclock.trans_lt hearly))
  · exact hrs ▸ h.resets_nonneg
  · rw [hgs, hrs]
    exact h.bound

/-- A call of another key admits nothing for this one. -/
theorem granted_append_other (hkey : key' ≠ key) (time count : ℤ) (b : Bool) :
    granted key t₀ t₁ (gs ++ if b then [⟨key', time, count⟩] else []) = granted key t₀ t₁ gs := by
  cases b with
  | false => rw [if_neg Bool.false_ne_true, List.append_nil]
  | true =>
    rw [if_pos rfl, granted_append_singleton, if_neg]
    exact fun h ↦ hkey h.1

/-- A call that is admitted adds one to those that are, if it is in the interval. -/
theorem Accounted.grant (h : Accounted maxRequests windowSizeMs key t₀ t₁ u)
    (hsize : 1 ≤ windowSizeMs) {w : Window} (hbegun : w.startTimeMs ≤ now)
    (hopen : now < w.startTimeMs + windowSizeMs) (hclock : u.clock ≤ now)
    (hroom : w.count < maxRequests)
    (hwithin : w.Within maxRequests windowSizeMs t₀ t₁ (granted key t₀ t₁ u.grants)
      (granted key t₀ t₁ u.byHand)) :
    Accounted maxRequests windowSizeMs key t₀ t₁
      ⟨u.windows.insert key { w with count := w.count + 1 }, now, u.grants ++ [⟨key, now, 1⟩],
        u.byHand⟩ := by
  have hgranted : granted key t₀ t₁ (u.grants ++ [⟨key, now, 1⟩]) =
      if t₀ ≤ now ∧ now ≤ t₁ then granted key t₀ t₁ u.grants + 1
      else granted key t₀ t₁ u.grants := by
    rw [granted_append_singleton]
    simp only [true_and]
  have hadmit := hwithin.admit hroom hopen
  rw [← hgranted] at hadmit
  refine .insert_self hbegun hadmit (fun hearly ↦ ?_) h.resets_nonneg ?_
  · rw [hgranted, if_neg (fun hin ↦ by omega)]
    exact h.early (by omega)
  · by_cases hin : t₀ ≤ now ∧ now ≤ t₁
    · exact hadmit.le hsize (by dsimp only; omega) (by dsimp only; omega)
    · rw [hgranted, if_neg hin]
      exact h.bound

theorem Accounted.check (h : Accounted maxRequests windowSizeMs key t₀ t₁ u)
    (hmax : 0 ≤ maxRequests) (hsize : 1 ≤ windowSizeMs) (hafter : t.After u.clock)
    (key' : Bytes) :
    Accounted maxRequests windowSizeMs key t₀ t₁ (u.afterCheck windowSizeMs t key'
      (Windows.check maxRequests windowSizeMs t key' u.windows).1.allowed
      (Windows.check maxRequests windowSizeMs t key' u.windows).2) := by
  have hrefused : u.clock ≤ t.refused := by
    obtain ⟨h₁, h₂, h₃, h₄⟩ := hafter
    omega
  by_cases hkey : key' = key
  · subst hkey
    obtain ⟨hbegun, hopen, hclock, hwithin⟩ := h.current hmax hsize hafter
    have hlook : u.lastLook windowSizeMs t key' ≤ t.refused := by
      obtain ⟨-, -, h₃, h₄⟩ := hafter
      rw [lastLook]
      split <;> omega
    rw [Windows.check]
    split
    · next hroom => exact h.grant hsize hbegun hopen hclock hroom hwithin
    · rw [afterCheck, if_neg Bool.false_ne_true, if_neg Bool.false_ne_true, List.append_nil]
      refine .insert_self (hbegun.trans hlook) hwithin (fun hearly ↦ ?_) h.resets_nonneg h.bound
      exact h.early (by omega)
  · have hlook : u.clock ≤ u.lastLook windowSizeMs t key' := by
      obtain ⟨h₁, h₂, h₃, -⟩ := hafter
      rw [lastLook]
      split <;> omega
    rw [Windows.check]
    split
    · exact h.insert_other hkey hlook (granted_append_other hkey _ 1 true) rfl _
    · exact h.insert_other hkey hrefused (granted_append_other hkey _ 1 false) rfl _

/-- A reset of a window that is there. -/
theorem Accounted.reset (h : Accounted maxRequests windowSizeMs key t₀ t₁ u)
    (hmax : 0 ≤ maxRequests) (hsize : 1 ≤ windowSizeMs) (hclock : u.clock ≤ now)
    (hsome : (u.windows.lookup key').isSome) :
    Accounted maxRequests windowSizeMs key t₀ t₁
      ⟨Windows.reset now key' u.windows, now, u.grants, u.byHand ++ [⟨key', now, 1⟩]⟩ := by
  by_cases hkey : key' = key
  · subst hkey
    obtain ⟨w, hw⟩ := Option.isSome_iff_exists.1 hsome
    obtain ⟨hstart, hwithin⟩ := h.stored w hw
    have hnonneg := h.resets_nonneg
    have hbyHand : granted key' t₀ t₁ (u.byHand ++ [⟨key', now, 1⟩]) =
        if t₀ ≤ now ∧ now ≤ t₁ then granted key' t₀ t₁ u.byHand + 1
        else granted key' t₀ t₁ u.byHand := by
      rw [granted_append_singleton]
      simp only [true_and]
    have hmore : granted key' t₀ t₁ u.byHand ≤
        granted key' t₀ t₁ (u.byHand ++ [⟨key', now, 1⟩]) := by
      rw [hbyHand]
      split <;> omega
    have hreset := hwithin.reset hsize hnonneg (hstart.trans hclock)
      fun hearly ↦ h.early (hclock.trans_lt hearly)
    rw [← hbyHand] at hreset
    refine .insert_self le_rfl hreset (fun hearly ↦ h.early (hclock.trans_lt hearly))
      (hnonneg.trans hmore) (h.bound.trans ?_)
    exact mul_le_mul_of_nonneg_left (by omega) hmax
  · exact h.insert_other hkey hclock rfl (granted_append_other hkey now 1 true) _

theorem Accounted.step (h : Accounted maxRequests windowSizeMs key t₀ t₁ u)
    (hmax : 0 ≤ maxRequests) (hsize : 1 ≤ windowSizeMs) {c : WindowCall}
    (hs : u.step maxRequests windowSizeMs c = some u') :
    Accounted maxRequests windowSizeMs key t₀ t₁ u' := by
  cases c with
  | check key' t | consume key' count t =>
    obtain ⟨hafter, hs⟩ := Option.ite_none_right_eq_some.1 hs
    obtain rfl := Option.some.inj hs
    exact h.check hmax hsize hafter key'
  | getRemaining key' t =>
    obtain ⟨hafter, hs⟩ := Option.ite_none_right_eq_some.1 hs
    obtain rfl := Option.some.inj hs
    rw [Windows.getRemaining]
    cases hw : u.windows.lookup key' with
    | none => exact h
    | some w =>
      simp only [Option.isSome_some, if_true]
      by_cases hkey : key' = key
      · subst hkey
        obtain ⟨hbegun, -, hclock, hwithin⟩ := h.current hmax hsize hafter
        refine .insert_self hbegun hwithin (fun hearly ↦ ?_) h.resets_nonneg h.bound
        exact h.early (by omega)
      · refine h.insert_other hkey ?_ rfl rfl _
        obtain ⟨h₁, h₂, h₃, -⟩ := hafter
        rw [lastLook]
        split <;> omega
  | reset key' now =>
    obtain ⟨hclock, hs⟩ := Option.ite_none_right_eq_some.1 hs
    split at hs
    · next hsome =>
      obtain rfl := Option.some.inj hs
      exact h.reset hmax hsize hclock hsome
    · exact Option.some.inj hs ▸ h

/-- In every run of a fixed window limiter on a clock that is not set
back, with any calls for any keys, the calls that are admitted for a key between two instants are at
most the limit for each window that the interval can touch, and once more for each time that the
key was reset in the interval. -/
theorem granted_le_windows (hmax : 0 ≤ maxRequests) (hsize : 1 ≤ windowSizeMs) {start : ℤ}
    {calls : List WindowCall}
    (hrun : (system maxRequests windowSizeMs).Run ⟨∅, start, [], []⟩ calls u) (key : Bytes)
    (ht : t₀ ≤ t₁) :
    granted key t₀ t₁ u.grants ≤ maxRequests *
      ((t₁ + windowSizeMs - 1 - t₀) / windowSizeMs + 1 + granted key t₀ t₁ u.byHand) := by
  have hacc := hrun.invariant (motive := Accounted maxRequests windowSizeMs key t₀ t₁)
    (fun _ _ _ h hs ↦ h.step hmax hsize hs) (.empty hmax hsize ht start)
  exact hacc.bound

/-- Two calls in ten milliseconds: six are admitted in four, by two windows and a reset. -/
theorem granted_le_windows_two :
    ∃ u, (system 2 10).Run ⟨∅, 0, [], []⟩
      [.check (lit "a") ⟨0, 0, 0, 0⟩, .reset (lit "a") 1, .consume (lit "a") 5 ⟨9, 9, 9, 9⟩,
        .check (lit "b") ⟨9, 9, 9, 9⟩, .check (lit "a") ⟨10, 10, 10, 10⟩,
        .check (lit "a") ⟨11, 11, 11, 11⟩, .check (lit "a") ⟨11, 11, 11, 11⟩,
        .check (lit "a") ⟨11, 11, 11, 11⟩, .reset (lit "a") 12, .check (lit "a") ⟨12, 12, 12, 12⟩,
        .check (lit "a") ⟨12, 12, 12, 12⟩, .getRemaining (lit "a") ⟨12, 12, 12, 12⟩] u ∧
      granted (lit "a") 9 12 u.grants = 6 ∧
      granted (lit "a") 9 12 u.grants ≤
        2 * ((12 + 10 - 1 - 9) / 10 + 1 + granted (lit "a") 9 12 u.byHand) := by
  obtain ⟨u, hrun, hgranted⟩ : ∃ u, (system 2 10).Run ⟨∅, 0, [], []⟩
      [.check (lit "a") ⟨0, 0, 0, 0⟩, .reset (lit "a") 1, .consume (lit "a") 5 ⟨9, 9, 9, 9⟩,
        .check (lit "b") ⟨9, 9, 9, 9⟩, .check (lit "a") ⟨10, 10, 10, 10⟩,
        .check (lit "a") ⟨11, 11, 11, 11⟩, .check (lit "a") ⟨11, 11, 11, 11⟩,
        .check (lit "a") ⟨11, 11, 11, 11⟩, .reset (lit "a") 12, .check (lit "a") ⟨12, 12, 12, 12⟩,
        .check (lit "a") ⟨12, 12, 12, 12⟩, .getRemaining (lit "a") ⟨12, 12, 12, 12⟩] u ∧
      granted (lit "a") 9 12 u.grants = 6 :=
    System.Run.exists_of_any (by decide +kernel)
  exact ⟨u, hrun, hgranted,
    granted_le_windows (by decide) (by decide) hrun (lit "a") (by decide)⟩

end WindowUsage
end ChwellCore
