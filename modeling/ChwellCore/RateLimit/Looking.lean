import ChwellCore.RateLimit.TokenBucket
import Mathlib.Algebra.Order.Floor.Ring

/-!
# Looking at a bucket

To look at a bucket is to top it up: `get_remaining`, and a `consume` that is refused, give a bucket
the whole tokens that it has earned and set its clock to the present.  What was earned of the next
token is lost, and somebody who looks often enough keeps the bucket from filling.

`looksAreFree_iff` says for which limiters this can be seen at all.  Let the rate give `q` whole
tokens and a fraction `f` of one each millisecond.  Fractions add up to a token after `⌈1/f⌉`
milliseconds.  Whoever has not looked in between has earned `q * ⌈1/f⌉ + 1` tokens by then, and
whoever has looked one less.  So looking is free if and only if there are no fractions, or the
bucket is full by then either way.
-/

set_option autoImplicit false

namespace ChwellCore

/-- Looking costs nothing: the rate gives whole tokens each millisecond, or the bucket is full by
the time that the fractions have added up to a token. -/
def Lossless (capacity : ℤ) (rate : ℚ) : Prop :=
  Int.fract (rate / 1000) = 0 ∨ capacity ≤ ⌊rate / 1000⌋ * ⌈1 / Int.fract (rate / 1000)⌉

/-! ## What is earned -/

section Earned

variable {rate : ℚ} {a b : ℤ}

/-- The whole tokens that the fractions of `a` milliseconds add up to. -/
def fractions (rate : ℚ) (a : ℤ) : ℤ := ⌊a * Int.fract (rate / 1000)⌋

theorem fractions_nonneg (rate : ℚ) (ha : 0 ≤ a) : 0 ≤ fractions rate a :=
  Int.floor_nonneg.2 (mul_nonneg (Int.cast_nonneg ha) (Int.fract_nonneg _))

theorem fractions_add_le (rate : ℚ) (a b : ℤ) :
    fractions rate a + fractions rate b ≤ fractions rate (a + b) := by
  rw [fractions, fractions, fractions, Int.cast_add, add_mul]
  exact Int.le_floor_add _ _

/-- Fewer than `⌈1/f⌉` of them are not a token. -/
theorem fractions_eq_zero (hf : Int.fract (rate / 1000) ≠ 0) (ha : 0 ≤ a)
    (hlt : a < ⌈1 / Int.fract (rate / 1000)⌉) : fractions rate a = 0 := by
  have hpos : 0 < Int.fract (rate / 1000) := (Int.fract_nonneg _).lt_of_ne hf.symm
  rw [fractions, Int.floor_eq_zero_iff, Set.mem_Ico]
  exact ⟨mul_nonneg (Int.cast_nonneg ha) hpos.le, (lt_div_iff₀ hpos).1 (Int.lt_ceil.1 hlt)⟩

/-- And so many are one. -/
theorem fractions_ceil (hf : Int.fract (rate / 1000) ≠ 0) :
    fractions rate ⌈1 / Int.fract (rate / 1000)⌉ = 1 := by
  have hpos : 0 < Int.fract (rate / 1000) := (Int.fract_nonneg _).lt_of_ne hf.symm
  have hlt := Int.fract_lt_one (rate / 1000)
  rw [fractions, Int.floor_eq_iff]
  constructor
  · rw [Int.cast_one]
    exact (div_le_iff₀ hpos).1 (Int.le_ceil _)
  · have hceil := Int.ceil_lt_add_one (1 / Int.fract (rate / 1000))
    have hmul := mul_lt_mul_of_pos_right hceil hpos
    rw [add_mul, one_div_mul_cancel hpos.ne', one_mul] at hmul
    push_cast
    linarith

theorem one_lt_ceil (hf : Int.fract (rate / 1000) ≠ 0) : 1 < ⌈1 / Int.fract (rate / 1000)⌉ := by
  have hpos : 0 < Int.fract (rate / 1000) := (Int.fract_nonneg _).lt_of_ne hf.symm
  rw [Int.lt_ceil, Int.cast_one]
  exact one_lt_one_div hpos (Int.fract_lt_one _)

/-- The whole tokens that `a` milliseconds give. -/
def earned (rate : ℚ) (a : ℤ) : ℤ := a * ⌊rate / 1000⌋ + fractions rate a

theorem floor_rate_nonneg (hrate : 0 ≤ rate) : 0 ≤ ⌊rate / 1000⌋ :=
  Int.floor_nonneg.2 (div_nonneg hrate (by norm_num))

theorem earned_nonneg (hrate : 0 ≤ rate) (ha : 0 ≤ a) : 0 ≤ earned rate a :=
  add_nonneg (mul_nonneg ha (floor_rate_nonneg hrate)) (fractions_nonneg rate ha)

theorem earned_add_le (rate : ℚ) (a b : ℤ) :
    earned rate a + earned rate b ≤ earned rate (a + b) := by
  have h := fractions_add_le rate a b
  simp only [earned, add_mul]
  linarith

theorem truncate_earned (hrate : 0 ≤ rate) (ha : 0 ≤ a) :
    truncate ((a : ℚ) / 1000 * rate) = earned rate a := by
  have haq : (0 : ℚ) ≤ a := Int.cast_nonneg ha
  have hq : (0 : ℚ) ≤ a / 1000 * rate := by positivity
  have hsplit : (a : ℚ) / 1000 * rate =
      ((a * ⌊rate / 1000⌋ : ℤ) : ℚ) + a * Int.fract (rate / 1000) := by
    rw [Int.fract]
    push_cast
    ring
  rw [truncate, Int.tdiv_eq_ediv_of_nonneg (Rat.num_nonneg.2 hq), ← Rat.floor_def', hsplit,
    Int.floor_intCast_add, earned, fractions]

/-- **Where looking is free**, what is earned in two parts is what is earned in one, or it is enough
to fill the bucket. -/
theorem Lossless.earned_add {capacity : ℤ} (h : Lossless capacity rate) (hrate : 0 ≤ rate)
    (ha : 0 ≤ a) (hb : 0 ≤ b) :
    earned rate a + earned rate b = earned rate (a + b) ∨
      capacity ≤ earned rate a + earned rate b := by
  have hq := floor_rate_nonneg hrate
  by_cases hf : Int.fract (rate / 1000) = 0
  · refine .inl ?_
    simp only [earned, fractions, hf, mul_zero, Int.floor_zero]
    ring
  have hcap := h.resolve_left hf
  rcases lt_or_ge (a + b) ⌈1 / Int.fract (rate / 1000)⌉ with hlt | hge
  · refine .inl ?_
    rw [earned, earned, earned, fractions_eq_zero hf ha (by omega),
      fractions_eq_zero hf hb (by omega), fractions_eq_zero hf (add_nonneg ha hb) hlt]
    ring
  · refine .inr ?_
    have hmul := mul_le_mul_of_nonneg_left hge hq
    have hfa := fractions_nonneg rate ha
    have hfb := fractions_nonneg rate hb
    rw [earned, earned]
    linarith

end Earned

/-! ## One bucket -/

section Level

variable {capacity : ℤ} {rate : ℚ} {created now t : ℤ} {b : Bucket}

theorem topUp_tokens (hrate : 0 ≤ rate) (h : b.lastTimeMs < t) :
    (b.topUp capacity rate t).tokens =
      min capacity (b.tokens + earned rate (t - b.lastTimeMs)) := by
  rw [Bucket.topUp, if_pos (by omega), truncate_earned hrate (by omega)]

theorem topUp_of_le (h : t ≤ b.lastTimeMs) : b.topUp capacity rate t = b := by
  rw [Bucket.topUp, if_neg (by omega)]

/-- A topping up in between. -/
theorem Lossless.topUp_topUp (hfree : Lossless capacity rate) (hrate : 0 ≤ rate)
    (hb : min 0 capacity ≤ b.tokens) (hnow : b.lastTimeMs ≤ now) (ht : now ≤ t) :
    ((b.topUp capacity rate now).topUp capacity rate t).tokens =
      (b.topUp capacity rate t).tokens := by
  have hlast := Bucket.topUp_lastTimeMs capacity rate hnow
  rcases hnow.eq_or_lt with heq | hnow
  · rw [topUp_of_le heq.ge]
  rcases ht.eq_or_lt with rfl | ht
  · rw [topUp_of_le hlast.ge]
  have hearned := earned_nonneg hrate (a := now - b.lastTimeMs) (by omega)
  have hearned' := earned_nonneg hrate (a := t - now) (by omega)
  have hadd := earned_add_le rate (now - b.lastTimeMs) (t - now)
  have hfree := hfree.earned_add hrate (a := now - b.lastTimeMs) (b := t - now) (by omega)
    (by omega)
  have hsum : now - b.lastTimeMs + (t - now) = t - b.lastTimeMs := by ring
  rw [hsum] at hadd hfree
  rw [topUp_tokens hrate (hlast.trans_lt ht), hlast, topUp_tokens hrate hnow,
    topUp_tokens hrate (hnow.trans ht)]
  omega

theorem topUp_full (hrate : 0 ≤ rate) (h : created ≤ now) :
    Bucket.topUp capacity rate now ⟨capacity, created⟩ = ⟨capacity, now⟩ := by
  rcases h.eq_or_lt with rfl | h
  · exact topUp_of_le le_rfl
  · have hearned := earned_nonneg hrate (a := now - created) (by omega)
    rw [Bucket.topUp, if_pos (by simpa using h), truncate_earned hrate (by simpa using h.le)]
    simp only [Bucket.mk.injEq, and_true]
    omega

/-- The tokens that a look at time `t` finds; where there is no bucket, a full one is as good. -/
def level (capacity : ℤ) (rate : ℚ) (t : ℤ) : Option Bucket → ℤ
  | none => capacity
  | some b => (b.topUp capacity rate t).tokens

/-- There is no bucket, or its time is not after `clock`.  It never holds less than nothing. -/
def Past (capacity clock : ℤ) (o : Option Bucket) : Prop :=
  ∀ b, o = some b → b.lastTimeMs ≤ clock ∧ min 0 capacity ≤ b.tokens

/-- A topping up, of a bucket that may have to be created. -/
theorem topUp_getD {clock : ℤ} {o : Option Bucket} (hrate : 0 ≤ rate) (h : Past capacity clock o)
    (hclock : clock ≤ created) (hnow : created ≤ now) :
    (o.getD ⟨capacity, created⟩).topUp capacity rate now = ⟨level capacity rate now o, now⟩ := by
  rcases o with _ | b
  · exact topUp_full hrate hnow
  · have hlast := (h b rfl).1.trans (hclock.trans hnow)
    exact congrArg (Bucket.mk _) (Bucket.topUp_lastTimeMs capacity rate hlast)

/-- A bucket at its own time. -/
theorem level_self (capacity : ℤ) (rate : ℚ) (x now : ℤ) :
    level capacity rate now (some ⟨x, now⟩) = x :=
  congrArg Bucket.tokens (topUp_of_le (b := ⟨x, now⟩) (le_refl now))

/-- A bucket later. -/
theorem level_of_lt (hrate : 0 ≤ rate) {x : ℤ} (h : now < t) :
    level capacity rate t (some ⟨x, now⟩) = min capacity (x + earned rate (t - now)) :=
  topUp_tokens (b := ⟨x, now⟩) hrate h

theorem le_level {clock : ℤ} {o : Option Bucket} (hrate : 0 ≤ rate) (h : Past capacity clock o)
    (t : ℤ) : min 0 capacity ≤ level capacity rate t o := by
  rcases o with _ | b
  · exact min_le_right _ _
  have hb := (h b rfl).2
  simp only [level]
  rcases le_or_gt t b.lastTimeMs with hle | hlt
  · rwa [topUp_of_le hle]
  · have hearned := earned_nonneg hrate (a := t - b.lastTimeMs) (by omega)
    rw [topUp_tokens hrate hlt]
    omega

/-- **A look changes nothing that later looks find**, if looking is free. -/
theorem Lossless.level_level (hfree : Lossless capacity rate) (hrate : 0 ≤ rate) {clock : ℤ}
    {o : Option Bucket} (h : Past capacity clock o) (hclock : clock ≤ now) (ht : now ≤ t) :
    level capacity rate t (some ⟨level capacity rate now o, now⟩) = level capacity rate t o := by
  rcases o with _ | b
  · exact congrArg Bucket.tokens (topUp_full hrate ht)
  · obtain ⟨hlast, hb⟩ := h b rfl
    have hlast := hlast.trans hclock
    refine Eq.trans ?_ (hfree.topUp_topUp hrate hb hlast ht)
    exact congrArg (fun b : Bucket ↦ (b.topUp capacity rate t).tokens)
      (congrArg (Bucket.mk _) (Bucket.topUp_lastTimeMs capacity rate hlast)).symm

end Level

/-! ## The operations -/

namespace Buckets

variable {capacity : ℤ} {rate : ℚ} {key : Bytes} {clock created now n : ℤ} {s : Buckets}

/-- What `consume` leaves in the bucket. -/
def left (level n : ℤ) : ℤ := if n ≤ level then level - n else level

theorem left_of_lt {level n : ℤ} (h : ¬ n ≤ level) : left level n = level := if_neg h

theorem consume_eq (hrate : 0 ≤ rate) (h : Past capacity clock (s.lookup key))
    (hclock : clock ≤ created) (hnow : created ≤ now) (n : ℤ) :
    consume capacity (Bucket.topUp capacity rate) created now key n s =
      (decide (n ≤ level capacity rate now (s.lookup key)),
        s.insert key ⟨left (level capacity rate now (s.lookup key)) n, now⟩) := by
  simp only [consume, topUp_getD hrate h hclock hnow, left, ge_iff_le]
  split
  · next hle => rw [decide_eq_true hle]
  · next hlt => rw [decide_eq_false hlt]

theorem getRemaining_fst (now : ℤ) (key : Bytes) (s : Buckets) :
    (getRemaining capacity (Bucket.topUp capacity rate) now key s).1 =
      level capacity rate now (s.lookup key) := by
  rw [getRemaining]
  split
  · next hnone => rw [hnone, level]
  · next b hb => rw [hb, level]

theorem getRemaining_lookup (rate : ℚ) (h : Past capacity clock (s.lookup key))
    (hclock : clock ≤ now) :
    (getRemaining capacity (Bucket.topUp capacity rate) now key s).2.lookup key =
      (s.lookup key).map fun b ↦ ⟨level capacity rate now (some b), now⟩ := by
  rw [getRemaining]
  split
  · next hnone => rw [hnone, Option.map_none]
  · next b hb =>
    have hlast := (h b hb).1.trans hclock
    rw [AList.lookup_insert, hb, Option.map_some]
    exact congrArg (fun now ↦ some (Bucket.mk _ now)) (Bucket.topUp_lastTimeMs capacity rate hlast)

/-- A bucket as `consume` leaves it. -/
theorem past_left {o : Option Bucket} (hrate : 0 ≤ rate) (h : Past capacity clock o) (n now : ℤ) :
    Past capacity now (some ⟨left (level capacity rate now o) n, now⟩) := by
  rintro b hb
  obtain rfl := Option.some.inj hb
  have hle := le_level hrate h now
  refine ⟨le_rfl, ?_⟩
  simp only [left]
  split <;> omega

/-- A bucket as a look leaves it. -/
theorem past_level {o : Option Bucket} (hrate : 0 ≤ rate) (h : Past capacity clock o) (now : ℤ) :
    Past capacity now (some ⟨level capacity rate now o, now⟩) := by
  rintro b hb
  obtain rfl := Option.some.inj hb
  exact ⟨le_rfl, le_level hrate h now⟩

end Buckets

/-! ## Schedules -/

/-- A call for one key, with the readings that it takes off the clock: one of the schedule, a
`consume`, or one that is inserted, a `getRemaining` or a `consume` that is refused. -/
inductive Visit where
  | consume (count : Int32) (created now : ℤ)
  | getRemaining (now : ℤ)
  | refused (count : Int32) (created now : ℤ)

/-- It is one of the schedule. -/
def Visit.isScheduled : Visit → Bool
  | .consume _ _ _ => true
  | .getRemaining _ | .refused _ _ _ => false

/-- A limiter under a schedule: its buckets, the last reading of the clock, and what the calls of
the schedule have returned. -/
structure Watched where
  buckets : Buckets
  clock : ℤ
  results : List Bool

namespace RateLimiter

/-- One call, if the clock has not been set back, and if a call that has to be refused is. -/
def visit (L : RateLimiter Buckets) (key : Bytes) (w : Watched) : Visit → Option Watched
  | .consume count created now =>
    if w.clock ≤ created ∧ created ≤ now then
      let r := L.consume created now key count.toInt w.buckets
      some ⟨r.2, now, w.results ++ [r.1]⟩
    else none
  | .getRemaining now =>
    if w.clock ≤ now then some ⟨(L.getRemaining now key w.buckets).2, now, w.results⟩ else none
  | .refused count created now =>
    if w.clock ≤ created ∧ created ≤ now then
      let r := L.consume created now key count.toInt w.buckets
      if r.1 then none else some ⟨r.2, now, w.results⟩
    else none

/-- The limiter under any visits for one key. -/
def visits (L : RateLimiter Buckets) (key : Bytes) : System Watched Visit :=
  System.ofPartial (L.visit key)

/-- Looking is free: without the inserted calls, the calls of the schedule return the same, and a
look at the end or later finds the same tokens. -/
def LooksAreFree (L : RateLimiter Buckets) : Prop :=
  ∀ (key : Bytes) (start : ℤ) (calls : List Visit) (w : Watched),
    (L.visits key).Run ⟨∅, start, []⟩ calls w →
      ∃ w', (L.visits key).Run ⟨∅, start, []⟩ (calls.filter Visit.isScheduled) w' ∧
        w'.results = w.results ∧
        ∀ t, w.clock ≤ t → (L.getRemaining t key w'.buckets).1 = (L.getRemaining t key w.buckets).1

/-! ### With and without the inserted calls -/

variable {capacity : ℤ} {rate : ℚ} {key : Bytes} {w w' u : Watched}

/-- Without (`w'`) and with (`w`) the inserted calls: the same results so far, and the same tokens
for whoever looks from now on. -/
structure Alike (capacity : ℤ) (rate : ℚ) (key : Bytes) (w' w : Watched) : Prop where
  clock_le : w'.clock ≤ w.clock
  results : w'.results = w.results
  past' : Past capacity w'.clock (w'.buckets.lookup key)
  past : Past capacity w.clock (w.buckets.lookup key)
  tokens : ∀ t, w.clock ≤ t →
    level capacity rate t (w'.buckets.lookup key) = level capacity rate t (w.buckets.lookup key)

theorem alike_start (capacity : ℤ) (rate : ℚ) (key : Bytes) (start : ℤ) :
    Alike capacity rate key ⟨∅, start, []⟩ ⟨∅, start, []⟩ :=
  ⟨le_rfl, rfl, fun b hb ↦ absurd hb (by simp), fun b hb ↦ absurd hb (by simp), fun _ _ ↦ rfl⟩

theorem consume_tokenBucket (capacity : ℤ) (rate : ℚ) :
    (TokenBucketRateLimiter capacity rate).consume =
      Buckets.consume capacity (Bucket.topUp capacity rate) := rfl

theorem getRemaining_tokenBucket (capacity : ℤ) (rate : ℚ) :
    (TokenBucketRateLimiter capacity rate).getRemaining =
      Buckets.getRemaining capacity (Bucket.topUp capacity rate) := rfl

/-- **A call of the schedule** finds the same tokens with and without the inserted calls. -/
theorem Alike.consume (hrate : 0 ≤ rate) (h : Alike capacity rate key w' w) {count : Int32}
    {created now : ℤ}
    (hstep : (TokenBucketRateLimiter capacity rate).visit key w (.consume count created now) =
      some u) :
    ∃ u', (TokenBucketRateLimiter capacity rate).visit key w' (.consume count created now) =
      some u' ∧ Alike capacity rate key u' u := by
  rw [visit, Option.ite_none_right_eq_some, Option.some_inj] at hstep
  obtain ⟨⟨hclock, hnow⟩, rfl⟩ := hstep
  have hclock' := h.clock_le.trans hclock
  rw [visit, if_pos ⟨hclock', hnow⟩]
  refine ⟨_, rfl, ?_⟩
  simp only [consume_tokenBucket, Buckets.consume_eq hrate h.past hclock hnow,
    Buckets.consume_eq hrate h.past' hclock' hnow, h.tokens now (hclock.trans hnow), h.results]
  refine ⟨le_rfl, rfl, ?_, ?_, fun t ht ↦ ?_⟩
  · rw [AList.lookup_insert]
    exact Buckets.past_left hrate h.past count.toInt now
  · rw [AList.lookup_insert]
    exact Buckets.past_left hrate h.past count.toInt now
  · rw [AList.lookup_insert, AList.lookup_insert]

/-- A bucket that is topped up in between. -/
theorem Alike.look (hfree : Lossless capacity rate) (hrate : 0 ≤ rate)
    (h : Alike capacity rate key w' w) {now : ℤ} (hclock : w.clock ≤ now) {s : Buckets}
    (hs : s.lookup key = some ⟨level capacity rate now (w.buckets.lookup key), now⟩) :
    Alike capacity rate key w' ⟨s, now, w.results⟩ := by
  refine ⟨h.clock_le.trans hclock, h.results, h.past', ?_, fun t ht ↦ ?_⟩
  · rw [hs]
    exact Buckets.past_level hrate h.past now
  · rw [hs, hfree.level_level hrate h.past hclock ht]
    exact h.tokens t (hclock.trans ht)

/-- **An inserted call** leaves the tokens that were there. -/
theorem Alike.inserted (hfree : Lossless capacity rate) (hrate : 0 ≤ rate)
    (h : Alike capacity rate key w' w) {v : Visit} (hv : v.isScheduled = false)
    (hstep : (TokenBucketRateLimiter capacity rate).visit key w v = some u) :
    Alike capacity rate key w' u := by
  cases v with
  | consume count created now => cases hv
  | getRemaining now =>
    rw [visit, Option.ite_none_right_eq_some, Option.some_inj] at hstep
    obtain ⟨hclock, rfl⟩ := hstep
    have hlookup := Buckets.getRemaining_lookup rate h.past hclock
    rcases hb : w.buckets.lookup key with _ | b
    · rw [hb, Option.map_none] at hlookup
      refine ⟨h.clock_le.trans hclock, h.results, h.past', fun b hb' ↦ ?_, fun t ht ↦ ?_⟩
      · cases hlookup.symm.trans hb'
      · exact (h.tokens t (hclock.trans ht)).trans
          (congrArg (level capacity rate t) (hb.trans hlookup.symm))
    · rw [hb, Option.map_some, ← hb] at hlookup
      exact h.look hfree hrate hclock hlookup
  | refused count created now =>
    rw [visit, Option.ite_none_right_eq_some] at hstep
    obtain ⟨⟨hclock, hnow⟩, hstep⟩ := hstep
    simp only [consume_tokenBucket, Buckets.consume_eq hrate h.past hclock hnow,
      decide_eq_true_eq] at hstep
    obtain ⟨hrefused, hstep⟩ := Option.ite_none_left_eq_some.1 hstep
    obtain rfl := Option.some.inj hstep
    rw [Buckets.left_of_lt hrefused]
    exact h.look hfree hrate (hclock.trans hnow) (AList.lookup_insert _)

/-- **Where looking is free, nobody sees it.** -/
theorem looksAreFree_of_lossless (hfree : Lossless capacity rate) (hrate : 0 ≤ rate) :
    (TokenBucketRateLimiter capacity rate).LooksAreFree := by
  intro key start calls w hrun
  obtain ⟨w', hrun', h⟩ : ∃ w', ((TokenBucketRateLimiter capacity rate).visits key).Run
      ⟨∅, start, []⟩ (calls.filter Visit.isScheduled) w' ∧ Alike capacity rate key w' w := by
    induction hrun with
    | nil => exact ⟨_, .nil, alike_start capacity rate key start⟩
    | @snoc calls w u v hrun hstep ih =>
      obtain ⟨w', hrun', h⟩ := ih
      rw [List.filter_append, List.filter_singleton]
      cases v with
      | consume count created now =>
        obtain ⟨u', hstep', h'⟩ := h.consume hrate hstep
        exact ⟨u', hrun'.snoc hstep', h'⟩
      | getRemaining now | refused count created now =>
        exact ⟨w', (List.append_nil _).symm ▸ hrun', h.inserted hfree hrate rfl hstep⟩
  refine ⟨w', hrun', h.results, fun t ht ↦ ?_⟩
  exact (Buckets.getRemaining_fst t key w'.buckets).trans
    ((h.tokens t ht).trans (Buckets.getRemaining_fst t key w.buckets).symm)

/-! ### One look too early -/

/-- Tokens are taken one by one. -/
theorem drained (hrate : 0 ≤ rate) (key : Bytes) {k : ℕ} (hk : (k : ℤ) ≤ capacity) :
    ∃ w, ((TokenBucketRateLimiter capacity rate).visits key).Run ⟨∅, 0, []⟩
        (List.replicate k (.consume 1 0 0)) w ∧
      w.clock = 0 ∧ Past capacity 0 (w.buckets.lookup key) ∧
      level capacity rate 0 (w.buckets.lookup key) = capacity - k ∧
      (0 < k → w.buckets.lookup key = some ⟨capacity - k, 0⟩) := by
  induction k with
  | zero =>
    refine ⟨_, .nil, rfl, fun b hb ↦ absurd hb (by simp), ?_, fun h ↦ absurd h (by omega)⟩
    exact (Int.sub_zero capacity).symm
  | succ k ih =>
    obtain ⟨w, hrun, hclock, hpast, hlevel, -⟩ := ih (by omega)
    have hone : (1 : Int32).toInt = 1 := rfl
    have hleft : Buckets.left (capacity - k) 1 = capacity - (k + 1 : ℕ) := by
      rw [Buckets.left, if_pos (by omega)]
      omega
    have hnext := Buckets.past_left hrate hpast 1 0
    have hconsume := Buckets.consume_eq hrate hpast le_rfl le_rfl 1
    rw [hlevel, hleft] at hnext hconsume
    have hstep : (TokenBucketRateLimiter capacity rate).visit key w (.consume 1 0 0) =
        some ⟨w.buckets.insert key ⟨capacity - (k + 1 : ℕ), 0⟩, 0,
          w.results ++ [decide (1 ≤ capacity - (k : ℤ))]⟩ := by
      rw [visit, if_pos ⟨hclock.le, le_rfl⟩, consume_tokenBucket, hone, hconsume]
    refine ⟨_, List.replicate_succ' ▸ hrun.snoc hstep, rfl, ?_, ?_, fun _ ↦ ?_⟩
    · rwa [AList.lookup_insert]
    · rw [AList.lookup_insert, level_self]
    · rw [AList.lookup_insert]

/-- **Where looking is not free**, somebody who looks before the fractions have added up to a token
has kept it from the bucket. -/
theorem lossless_of_looksAreFree (hrate : 0 ≤ rate)
    (h : (TokenBucketRateLimiter capacity rate).LooksAreFree) : Lossless capacity rate := by
  by_contra hnot
  obtain ⟨hf, hcap⟩ := not_or.1 hnot
  rw [not_le] at hcap
  have hn := one_lt_ceil hf
  have hfirst := fractions_eq_zero hf (a := ⌈1 / Int.fract (rate / 1000)⌉ - 1) (by omega) (by omega)
  have hlast := fractions_eq_zero hf zero_le_one hn
  have hall := fractions_ceil hf
  have hq := floor_rate_nonneg hrate
  have hk := mul_nonneg hq (zero_le_one.trans hn.le)
  generalize ⌈1 / Int.fract (rate / 1000)⌉ = n at hcap hn hfirst hlast hall hk
  -- all but `capacity - (q * n + 1)` tokens are taken at time 0
  obtain ⟨k, hkn⟩ := Int.eq_ofNat_of_zero_le (a := ⌊rate / 1000⌋ * n + 1) (by omega)
  have hkcap : (k : ℤ) ≤ capacity := by omega
  obtain ⟨w, hrun, hclock, hpast, -, hlookup⟩ := drained hrate [] hkcap
  have hlookup := hlookup (by omega)
  rw [← hkn] at hlookup
  have hclock' : w.clock ≤ n - 1 := by omega
  -- somebody looks one millisecond before the fractions have added up
  have hlook : (TokenBucketRateLimiter capacity rate).visit [] w (.getRemaining (n - 1)) =
      some ⟨_, n - 1, w.results⟩ := if_pos hclock'
  obtain ⟨w', hrun', -, htokens⟩ := h [] 0 _ _ (hrun.snoc hlook)
  have hfilter : (List.replicate k (Visit.consume 1 0 0) ++ [Visit.getRemaining (n - 1)]).filter
      Visit.isScheduled = List.replicate k (Visit.consume 1 0 0) := by
    rw [List.filter_append, List.filter_replicate_of_pos rfl]
    exact List.append_nil _
  rw [hfilter] at hrun'
  obtain rfl := hrun.unique_of_ofPartial hrun'
  have htokens := htokens n (by show n - 1 ≤ n; omega)
  rw [getRemaining_tokenBucket, Buckets.getRemaining_fst, Buckets.getRemaining_fst,
    Buckets.getRemaining_lookup rate hpast (by omega), hlookup, Option.map_some,
    level_of_lt hrate (by omega), level_of_lt hrate (by omega), level_of_lt hrate (by omega)]
    at htokens
  have hmul : (n - 1) * ⌊rate / 1000⌋ = ⌊rate / 1000⌋ * n - ⌊rate / 1000⌋ := by ring
  simp only [sub_zero, sub_sub_cancel, earned, hfirst, hlast, hall, hmul, mul_comm n, one_mul]
    at htokens
  generalize ⌊rate / 1000⌋ * n = p at htokens hcap hk
  omega

/-- **When looking is free**: exactly if no token can be lost. -/
theorem looksAreFree_iff (hrate : 0 ≤ rate) {L : RateLimiter Buckets}
    (hL : L = TokenBucketRateLimiter capacity rate ∨ L = LeakyBucketRateLimiter capacity rate) :
    L.LooksAreFree ↔ Lossless capacity rate := by
  have hL : L = TokenBucketRateLimiter capacity rate := hL.elim id id
  subst hL
  exact ⟨lossless_of_looksAreFree hrate, fun hfree ↦ looksAreFree_of_lossless hfree hrate⟩

/-- **A limiter that a look breaks**: one token, and one more each second.  It is taken at once and
again after a second, unless somebody looks a millisecond before. -/
theorem not_looksAreFree_one :
    ¬ (TokenBucketRateLimiter 1 1).LooksAreFree ∧ ¬ (LeakyBucketRateLimiter 1 1).LooksAreFree := by
  have hlooked : ∃ w, ((TokenBucketRateLimiter 1 1).visits (lit "a")).Run ⟨∅, 0, []⟩
      [.consume 1 0 0, .getRemaining 999, .consume 1 1000 1000] w ∧ w.results = [true, false] :=
    System.Run.exists_of_any (by decide +kernel)
  have hunseen : ∃ w, ((TokenBucketRateLimiter 1 1).visits (lit "a")).Run ⟨∅, 0, []⟩
      [.consume 1 0 0, .consume 1 1000 1000] w ∧ w.results = [true, true] :=
    System.Run.exists_of_any (by decide +kernel)
  have hnot : ¬ (TokenBucketRateLimiter 1 1).LooksAreFree := by
    obtain ⟨w, hrun, hw⟩ := hlooked
    obtain ⟨u, hrun', hu⟩ := hunseen
    intro h
    obtain ⟨w', hrun'', hresults, -⟩ := h _ _ _ _ hrun
    obtain rfl := hrun'.unique_of_ofPartial hrun''
    rw [hw, hu] at hresults
    exact absurd hresults (by decide)
  exact ⟨hnot, hnot⟩

/-- With a thousand tokens a second, a look breaks nothing. -/
theorem looksAreFree_thousand : (TokenBucketRateLimiter 5 1000).LooksAreFree :=
  (looksAreFree_iff (by norm_num) (.inl rfl)).2 (.inl (by norm_num))

end RateLimiter

end ChwellCore
