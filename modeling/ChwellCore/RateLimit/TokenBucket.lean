import ChwellCore.Core.Bytes
import ChwellCore.Lib.Run
import ChwellCore.Lib.UnorderedMap
import Mathlib.Algebra.Order.Ring.Rat
import Mathlib.Algebra.BigOperators.Group.List.Basic
import Mathlib.Data.Rat.Floor
import Mathlib.Tactic.Linarith
import Mathlib.Tactic.Ring

/-!
# Token buckets

`TokenBucketRateLimiter` and `LeakyBucketRateLimiter` are one piece of code under two names: a
bucket of tokens for each key, filled to the capacity when it is created, topped up at a constant
rate whenever it is looked at, and emptied by the counts that are consumed.  The operations are
written once, over the rate, and each limiter is an instance.

A topping up is cut down twice, to an integer and to the capacity, and sets the clock of the bucket
to the present either way, so that what was cut off is lost.  Both cuts are in favour of whoever
wants a bound.  `admission_bound` is that bound: within any interval of time, whatever is done to
any key, what is granted for one key is at most the capacity and what the rate gives in the
interval.

The rate is a rational number and the arithmetic is exact.  An operation is given the readings that
it takes off the clock; a creation and the topping up after it are two of them.
-/

set_option autoImplicit false

namespace ChwellCore

/-- `RateLimitResult`. -/
structure RateLimitResult where
  allowed : Bool := true
  remaining : ℤ := 0
  waitTimeMs : ℤ := 0
  reason : Bytes := []
deriving DecidableEq, Repr

/-- `Bucket`; the time is `last_refill_time_ms` in one limiter and `last_leak_time_ms` in the
other. -/
structure Bucket where
  tokens : ℤ
  lastTimeMs : ℤ
deriving DecidableEq, Repr

/-- `static_cast<int64_t>` of a double. -/
def truncate (q : ℚ) : ℤ := q.num.tdiv q.den

/-- Top up a bucket. -/
def Bucket.topUp (capacity : ℤ) (rate : ℚ) (now : ℤ) (b : Bucket) : Bucket :=
  let elapsedMs := now - b.lastTimeMs
  if elapsedMs > 0 then
    { tokens := min capacity (b.tokens + truncate ((elapsedMs : ℚ) / 1000 * rate)),
      lastTimeMs := now }
  else b

/-- The table of buckets of a limiter. -/
abbrev Buckets := UnorderedMap Bytes Bucket

namespace Buckets

variable (capacity : ℤ) (topUp : ℤ → Bucket → Bucket)

/-- Take `count` tokens for `key`, if there are so many; `created` is read when the bucket has to be
created, and `now` for the topping up. -/
def consume (created now : ℤ) (key : Bytes) (count : ℤ) (s : Buckets) : Bool × Buckets :=
  let b := topUp now ((s.lookup key).getD ⟨capacity, created⟩)
  if b.tokens ≥ count then (true, s.insert key { b with tokens := b.tokens - count })
  else (false, s.insert key b)

/-- The number of tokens for `key`. -/
def getRemaining (now : ℤ) (key : Bytes) (s : Buckets) : ℤ × Buckets :=
  match s.lookup key with
  | none => (capacity, s)
  | some b =>
    let b := topUp now b
    (b.tokens, s.insert key b)

/-- Consume one token and look at the number of those that are left. -/
def check (created consumed now : ℤ) (key : Bytes) (s : Buckets) : RateLimitResult × Buckets :=
  let r := consume capacity topUp created consumed key 1 s
  let r' := getRemaining capacity topUp now key r.2
  ({ allowed := r.1, remaining := r'.1 }, r'.2)

end Buckets

/-- The operations of a `RateLimiter`, over the readings that they take off the clock. -/
structure RateLimiter (σ : Type) where
  check : ℤ → ℤ → ℤ → Bytes → σ → RateLimitResult × σ
  consume : ℤ → ℤ → Bytes → ℤ → σ → Bool × σ
  getRemaining : ℤ → Bytes → σ → ℤ × σ

/-- `TokenBucketRateLimiter::refill_tokens`. -/
def refillTokens (capacity : ℤ) (refillRatePerSecond : ℚ) : ℤ → Bucket → Bucket :=
  Bucket.topUp capacity refillRatePerSecond

/-- `LeakyBucketRateLimiter::leak_tokens`. -/
def leakTokens (capacity : ℤ) (leakRatePerSecond : ℚ) : ℤ → Bucket → Bucket :=
  Bucket.topUp capacity leakRatePerSecond

/-- `TokenBucketRateLimiter`. -/
def TokenBucketRateLimiter (capacity : ℤ) (refillRatePerSecond : ℚ) : RateLimiter Buckets where
  check := Buckets.check capacity (refillTokens capacity refillRatePerSecond)
  consume := Buckets.consume capacity (refillTokens capacity refillRatePerSecond)
  getRemaining := Buckets.getRemaining capacity (refillTokens capacity refillRatePerSecond)

/-- `LeakyBucketRateLimiter`. -/
def LeakyBucketRateLimiter (capacity : ℤ) (leakRatePerSecond : ℚ) : RateLimiter Buckets where
  check := Buckets.check capacity (leakTokens capacity leakRatePerSecond)
  consume := Buckets.consume capacity (leakTokens capacity leakRatePerSecond)
  getRemaining := Buckets.getRemaining capacity (leakTokens capacity leakRatePerSecond)

/-- A count that was granted, and when. -/
structure Grant where
  key : Bytes
  time : ℤ
  count : ℤ
deriving DecidableEq, Repr

/-- The sum of the counts granted for `key` between `t₀` and `t₁`. -/
def granted (key : Bytes) (t₀ t₁ : ℤ) (gs : List Grant) : ℤ :=
  ((gs.filter fun g ↦ g.key = key ∧ t₀ ≤ g.time ∧ g.time ≤ t₁).map Grant.count).sum

/-- A limiter at work: its state, the last reading of the clock, and what has been granted. -/
structure Usage (σ : Type) where
  limiter : σ
  clock : ℤ
  grants : List Grant

/-- A call, with the readings that it takes off the clock.  A `check` that another thread interrupts
between its two halves is a `consume` and a `getRemaining`. -/
inductive LimiterCall where
  | check (key : Bytes) (created consumed now : ℤ)
  | consume (key : Bytes) (count created now : ℤ)
  | getRemaining (key : Bytes) (now : ℤ)

namespace RateLimiter

variable {σ : Type}

/-- One call, if the clock has not been set back and the count is not negative. -/
def step (L : RateLimiter σ) (u : Usage σ) : LimiterCall → Option (Usage σ)
  | .check key created consumed now =>
    if u.clock ≤ created ∧ created ≤ consumed ∧ consumed ≤ now then
      let r := L.check created consumed now key u.limiter
      some ⟨r.2, now, u.grants ++ if r.1.allowed then [⟨key, consumed, 1⟩] else []⟩
    else none
  | .consume key count created now =>
    if u.clock ≤ created ∧ created ≤ now ∧ 0 ≤ count then
      let r := L.consume created now key count u.limiter
      some ⟨r.2, now, u.grants ++ if r.1 then [⟨key, now, count⟩] else []⟩
    else none
  | .getRemaining key now =>
    if u.clock ≤ now then some ⟨(L.getRemaining now key u.limiter).2, now, u.grants⟩ else none

/-- The limiter under any calls. -/
def system (L : RateLimiter σ) : System (Usage σ) LimiterCall := System.ofPartial L.step

end RateLimiter

/-! ## One bucket -/

theorem truncate_nonneg {q : ℚ} (h : 0 ≤ q) : 0 ≤ truncate q :=
  Int.tdiv_nonneg (Rat.num_nonneg.2 h) (Int.natCast_nonneg _)

theorem truncate_le {q : ℚ} (h : 0 ≤ q) : (truncate q : ℚ) ≤ q := by
  rw [truncate, Int.tdiv_eq_ediv_of_nonneg (Rat.num_nonneg.2 h), ← Rat.floor_def']
  exact Int.floor_le q

section

variable {capacity : ℤ} {rate : ℚ} {t₀ t₁ g now n : ℤ} {b : Bucket}

/-- What `g` tokens granted between `t₀` and `t₁` have left in a bucket. -/
structure Bucket.Within (capacity : ℤ) (rate : ℚ) (t₀ t₁ g : ℤ) (b : Bucket) : Prop where
  nonneg : 0 ≤ b.tokens
  le_capacity : b.tokens ≤ capacity
  /-- Nothing has been granted before the interval. -/
  before : b.lastTimeMs < t₀ → g = 0
  /-- What is left and what was granted have come from the full bucket and from the rate. -/
  during : t₀ ≤ b.lastTimeMs → b.lastTimeMs ≤ t₁ →
    (g + b.tokens : ℚ) ≤ capacity + rate * (b.lastTimeMs - t₀) / 1000
  bound : (g : ℚ) ≤ capacity + rate * (t₁ - t₀) / 1000

/-- A topping up, at a time that is not before the last one. -/
theorem Bucket.topUp_lastTimeMs (capacity : ℤ) (rate : ℚ) (h : b.lastTimeMs ≤ now) :
    (b.topUp capacity rate now).lastTimeMs = now := by
  rw [topUp]
  split
  · rfl
  · omega

theorem Bucket.Within.topUp (h : b.Within capacity rate t₀ t₁ g) (hrate : 0 ≤ rate) (now : ℤ) :
    (b.topUp capacity rate now).Within capacity rate t₀ t₁ g := by
  rw [Bucket.topUp]
  split
  · next hel =>
    have hlast : b.lastTimeMs < now := by omega
    have helq : (0 : ℚ) ≤ (now - b.lastTimeMs : ℤ) := by exact_mod_cast hel.le
    have hq : (0 : ℚ) ≤ (now - b.lastTimeMs : ℤ) / 1000 * rate := by positivity
    have hadd := truncate_nonneg hq
    have hadd' := truncate_le hq
    generalize truncate ((now - b.lastTimeMs : ℤ) / 1000 * rate) = add at hadd hadd' ⊢
    refine ⟨le_min (h.nonneg.trans h.le_capacity) (add_nonneg h.nonneg hadd), min_le_left _ _,
      fun hlt ↦ h.before (hlast.trans hlt), fun hle hle' ↦ ?_, h.bound⟩
    dsimp only at hle hle' ⊢
    rcases lt_or_ge b.lastTimeMs t₀ with hb | hb
    · -- the interval has begun since the last topping up: the bucket is at most full
      have htokens : ((min capacity (b.tokens + add) : ℤ) : ℚ) ≤ capacity :=
        Int.cast_le.2 (min_le_left _ _)
      have hle : (0 : ℚ) ≤ now - t₀ := by exact_mod_cast Int.sub_nonneg.2 hle
      have hgain : 0 ≤ rate * (now - t₀) / 1000 := by positivity
      rw [h.before hb, Int.cast_zero, zero_add]
      exact htokens.trans (le_add_of_nonneg_right hgain)
    · have hd := h.during hb (by omega)
      have htokens : ((min capacity (b.tokens + add) : ℤ) : ℚ) ≤ (b.tokens + add : ℤ) :=
        Int.cast_le.2 (min_le_right _ _)
      push_cast at hadd' htokens ⊢
      have hsplit : rate * (now - t₀) / 1000 =
          rate * (b.lastTimeMs - t₀) / 1000 + (now - b.lastTimeMs) / 1000 * rate := by ring
      linarith
  · exact h

/-- What was topped up is granted, if it is enough. -/
theorem Bucket.Within.take (h : b.Within capacity rate t₀ t₁ g) (hrate : 0 ≤ rate) (hn : 0 ≤ n)
    (hb : n ≤ b.tokens) :
    Bucket.Within capacity rate t₀ t₁
      (if t₀ ≤ b.lastTimeMs ∧ b.lastTimeMs ≤ t₁ then g + n else g)
      { b with tokens := b.tokens - n } := by
  have hle : b.tokens - n ≤ capacity := by
    have := h.le_capacity
    omega
  split
  · next hin =>
    have hd := h.during hin.1 hin.2
    have hd' : ((g + n : ℤ) : ℚ) + (b.tokens - n : ℤ) ≤
        capacity + rate * (b.lastTimeMs - t₀) / 1000 := by
      push_cast
      linarith
    refine ⟨Int.sub_nonneg.2 hb, hle, fun hlt ↦ absurd hin.1 (not_le.2 hlt), fun _ _ ↦ hd', ?_⟩
    have hleft : (0 : ℚ) ≤ (b.tokens - n : ℤ) := by exact_mod_cast Int.sub_nonneg.2 hb
    have htime : rate * (b.lastTimeMs - t₀) / 1000 ≤ rate * (t₁ - t₀) / 1000 := by
      have : (b.lastTimeMs : ℚ) ≤ t₁ := by exact_mod_cast hin.2
      gcongr
    linarith
  · next hin =>
    exact ⟨Int.sub_nonneg.2 hb, hle, h.before, fun h₀ h₁ ↦ absurd ⟨h₀, h₁⟩ hin, h.bound⟩

/-- A bucket that has just been created. -/
theorem Bucket.Within.created (now : ℤ) (hcap : 0 ≤ capacity) (hrate : 0 ≤ rate) (ht : t₀ ≤ t₁) :
    Bucket.Within capacity rate t₀ t₁ 0 ⟨capacity, now⟩ := by
  refine ⟨hcap, le_rfl, fun _ ↦ rfl, fun hle _ ↦ ?_, ?_⟩
  · have hle : (0 : ℚ) ≤ now - t₀ := by exact_mod_cast Int.sub_nonneg.2 hle
    have hgain : 0 ≤ rate * (now - t₀) / 1000 := by positivity
    rw [Int.cast_zero, zero_add]
    exact le_add_of_nonneg_right hgain
  · have hle : (0 : ℚ) ≤ t₁ - t₀ := by exact_mod_cast Int.sub_nonneg.2 ht
    have hcap : (0 : ℚ) ≤ capacity := by exact_mod_cast hcap
    rw [Int.cast_zero]
    positivity

end

/-! ## The bound -/

theorem granted_append_singleton (key : Bytes) (t₀ t₁ : ℤ) (gs : List Grant) (x : Grant) :
    granted key t₀ t₁ (gs ++ [x]) =
      if x.key = key ∧ t₀ ≤ x.time ∧ x.time ≤ t₁ then granted key t₀ t₁ gs + x.count
      else granted key t₀ t₁ gs := by
  rw [granted, List.filter_append, List.map_append, List.sum_append, List.filter_cons]
  simp only [decide_eq_true_eq, List.filter_nil]
  split
  · rw [List.map_singleton, List.sum_singleton, granted]
  · rw [List.map_nil, List.sum_nil, add_zero, granted]

namespace Buckets

variable {capacity : ℤ} {rate : ℚ} {key key' : Bytes} {t₀ t₁ clock created now n : ℤ}
  {gs : List Grant} {s : Buckets}

/-- What is granted for `key` between `t₀` and `t₁` is accounted for by its bucket. -/
structure Accounted (capacity : ℤ) (rate : ℚ) (key : Bytes) (t₀ t₁ clock : ℤ) (gs : List Grant)
    (s : Buckets) : Prop where
  stored : ∀ b, s.lookup key = some b →
    b.lastTimeMs ≤ clock ∧ b.Within capacity rate t₀ t₁ (granted key t₀ t₁ gs)
  absent : s.lookup key = none → granted key t₀ t₁ gs = 0

theorem Accounted.empty : Accounted capacity rate key t₀ t₁ clock [] ∅ :=
  ⟨fun b hb ↦ absurd hb (by simp), fun _ ↦ rfl⟩

/-- The bucket of the key, which is created if there is none. -/
theorem Accounted.bucket (h : Accounted capacity rate key t₀ t₁ clock gs s) (hcap : 0 ≤ capacity)
    (hrate : 0 ≤ rate) (ht : t₀ ≤ t₁) (hclock : clock ≤ created) :
    ((s.lookup key).getD ⟨capacity, created⟩).lastTimeMs ≤ created ∧
      ((s.lookup key).getD ⟨capacity, created⟩).Within capacity rate t₀ t₁
        (granted key t₀ t₁ gs) := by
  rcases hb : s.lookup key with _ | b
  · rw [h.absent hb]
    exact ⟨le_rfl, .created created hcap hrate ht⟩
  · exact ⟨(h.stored b hb).1.trans hclock, (h.stored b hb).2⟩

/-- To store a bucket that accounts for what is granted. -/
theorem Accounted.insert_self {b : Bucket} (hlast : b.lastTimeMs ≤ clock)
    (hb : b.Within capacity rate t₀ t₁ (granted key t₀ t₁ gs)) :
    Accounted capacity rate key t₀ t₁ clock gs (s.insert key b) := by
  refine ⟨fun b' hb' ↦ ?_, fun hnone ↦ ?_⟩
  · rw [AList.lookup_insert, Option.some_inj] at hb'
    exact hb' ▸ ⟨hlast, hb⟩
  · rw [AList.lookup_insert] at hnone
    cases hnone

/-- What is done to another key. -/
theorem Accounted.insert_other (h : Accounted capacity rate key t₀ t₁ clock gs s)
    (hkey : key' ≠ key) (hclock : clock ≤ now) {gs' : List Grant}
    (hgs : granted key t₀ t₁ gs' = granted key t₀ t₁ gs) (b : Bucket) :
    Accounted capacity rate key t₀ t₁ now gs' (s.insert key' b) := by
  refine ⟨fun b' hb' ↦ ?_, fun hnone ↦ ?_⟩
  · rw [AList.lookup_insert_ne hkey.symm] at hb'
    exact ⟨(h.stored b' hb').1.trans hclock, hgs ▸ (h.stored b' hb').2⟩
  · rw [AList.lookup_insert_ne hkey.symm] at hnone
    exact hgs.trans (h.absent hnone)

/-- `consume`, and what it adds to the grants. -/
theorem Accounted.consume (h : Accounted capacity rate key t₀ t₁ clock gs s) (hcap : 0 ≤ capacity)
    (hrate : 0 ≤ rate) (ht : t₀ ≤ t₁) (hclock : clock ≤ created) (hnow : created ≤ now)
    (hn : 0 ≤ n) :
    let r := Buckets.consume capacity (Bucket.topUp capacity rate) created now key' n s
    Accounted capacity rate key t₀ t₁ now (gs ++ if r.1 then [⟨key', now, n⟩] else []) r.2 := by
  intro r
  by_cases hkey : key' = key
  · subst hkey
    obtain ⟨hlast, hb⟩ := h.bucket hcap hrate ht hclock
    have htop := Bucket.topUp_lastTimeMs capacity rate (hlast.trans hnow)
    have hb := hb.topUp hrate now
    simp only [r, Buckets.consume]
    generalize Bucket.topUp capacity rate now _ = b at htop hb
    subst htop
    split
    · next hle =>
      refine .insert_self le_rfl ?_
      simp only [if_true, granted_append_singleton, true_and]
      exact hb.take hrate hn hle
    · simp only [Bool.false_eq_true, if_false, List.append_nil]
      exact .insert_self le_rfl hb
  · simp only [r, Buckets.consume]
    split
    · refine h.insert_other hkey (hclock.trans hnow) ?_ _
      simp only [if_true, granted_append_singleton, hkey, false_and, if_false]
    · refine h.insert_other hkey (hclock.trans hnow) ?_ _
      simp only [Bool.false_eq_true, if_false, List.append_nil]

theorem Accounted.getRemaining (h : Accounted capacity rate key t₀ t₁ clock gs s)
    (hrate : 0 ≤ rate) (hclock : clock ≤ now) :
    Accounted capacity rate key t₀ t₁ now gs
      (Buckets.getRemaining capacity (Bucket.topUp capacity rate) now key' s).2 := by
  rw [Buckets.getRemaining]
  split
  · exact ⟨fun b hb ↦ ⟨(h.stored b hb).1.trans hclock, (h.stored b hb).2⟩, h.absent⟩
  · next b hb =>
    by_cases hkey : key' = key
    · subst hkey
      obtain ⟨hlast, hb⟩ := h.stored b hb
      exact .insert_self (Bucket.topUp_lastTimeMs _ _ (hlast.trans hclock)).le (hb.topUp hrate now)
    · exact h.insert_other hkey hclock rfl _

end Buckets

namespace RateLimiter

variable {capacity : ℤ} {rate : ℚ} {key : Bytes} {t₀ t₁ : ℤ}

/-- Every call keeps the account of every key. -/
theorem step_accounted (hcap : 0 ≤ capacity) (hrate : 0 ≤ rate) (ht : t₀ ≤ t₁)
    {u u' : Usage Buckets}
    {c : LimiterCall} (hstep : (TokenBucketRateLimiter capacity rate).step u c = some u')
    (h : Buckets.Accounted capacity rate key t₀ t₁ u.clock u.grants u.limiter) :
    Buckets.Accounted capacity rate key t₀ t₁ u'.clock u'.grants u'.limiter := by
  cases c with
  | check key' created consumed now =>
    rw [step, Option.ite_none_right_eq_some, Option.some_inj] at hstep
    obtain ⟨⟨hcreated, hconsumed, hnow⟩, rfl⟩ := hstep
    exact (h.consume hcap hrate ht hcreated hconsumed zero_le_one).getRemaining hrate hnow
  | consume key' count created now =>
    rw [step, Option.ite_none_right_eq_some, Option.some_inj] at hstep
    obtain ⟨⟨hcreated, hnow, hcount⟩, rfl⟩ := hstep
    exact h.consume hcap hrate ht hcreated hnow hcount
  | getRemaining key' now =>
    rw [step, Option.ite_none_right_eq_some, Option.some_inj] at hstep
    obtain ⟨hnow, rfl⟩ := hstep
    exact h.getRemaining hrate hnow

/-- **The admission bound.**  In every run of either limiter on a clock that is not set back, each
bucket holds between nothing and its capacity, and what is granted for a key between two instants is
at most the capacity and what the rate gives in between. -/
theorem admission_bound (hcap : 0 ≤ capacity) (hrate : 0 ≤ rate) {L : RateLimiter Buckets}
    (hL : L = TokenBucketRateLimiter capacity rate ∨ L = LeakyBucketRateLimiter capacity rate)
    {start : ℤ} {calls : List LimiterCall} {u : Usage Buckets}
    (hrun : L.system.Run ⟨∅, start, []⟩ calls u) :
    (∀ key b, u.limiter.lookup key = some b → 0 ≤ b.tokens ∧ b.tokens ≤ capacity) ∧
      ∀ key t₀ t₁, t₀ ≤ t₁ →
        (granted key t₀ t₁ u.grants : ℚ) ≤ capacity + rate * (t₁ - t₀) / 1000 := by
  have hL : L = TokenBucketRateLimiter capacity rate := hL.elim id id
  subst hL
  have hacc : ∀ key t₀ t₁, t₀ ≤ t₁ →
      Buckets.Accounted capacity rate key t₀ t₁ u.clock u.grants u.limiter := by
    intro key t₀ t₁ ht
    exact hrun.invariant
      (motive := fun u ↦ Buckets.Accounted capacity rate key t₀ t₁ u.clock u.grants u.limiter)
      (fun _ _ _ h hstep ↦ step_accounted hcap hrate ht hstep h) .empty
  refine ⟨fun key b hb ↦ ?_, fun key t₀ t₁ ht ↦ ?_⟩
  · have hin := ((hacc key 0 0 le_rfl).stored b hb).2
    exact ⟨hin.nonneg, hin.le_capacity⟩
  · rcases hb : u.limiter.lookup key with _ | b
    · rw [(hacc key t₀ t₁ ht).absent hb]
      exact (Bucket.Within.created 0 hcap hrate ht).bound
    · exact ((hacc key t₀ t₁ ht).stored b hb).2.bound

/-- Three tokens and two more each second: all of them are granted within half a second. -/
theorem admission_bound_three :
    ∃ u, (TokenBucketRateLimiter 3 2).system.Run ⟨∅, 0, []⟩
      [.consume (lit "a") 2 10 10, .consume (lit "b") 3 20 20, .check (lit "a") 110 110 120,
        .consume (lit "a") 1 300 310, .consume (lit "a") 1 900 910, .getRemaining (lit "a") 950] u ∧
      granted (lit "a") 10 510 u.grants = 3 ∧
      (granted (lit "a") 10 510 u.grants : ℚ) ≤ (3 : ℤ) + 2 * ((510 : ℤ) - (10 : ℤ)) / 1000 := by
  obtain ⟨u, hrun, hgranted⟩ : ∃ u, (TokenBucketRateLimiter 3 2).system.Run ⟨∅, 0, []⟩
      [.consume (lit "a") 2 10 10, .consume (lit "b") 3 20 20, .check (lit "a") 110 110 120,
        .consume (lit "a") 1 300 310, .consume (lit "a") 1 900 910, .getRemaining (lit "a") 950] u ∧
      granted (lit "a") 10 510 u.grants = 3 :=
    System.Run.exists_of_any (by decide +kernel)
  exact ⟨u, hrun, hgranted, (admission_bound (by decide) (by decide) (.inl rfl) hrun).2
    (lit "a") 10 510 (by decide)⟩

end RateLimiter

end ChwellCore
