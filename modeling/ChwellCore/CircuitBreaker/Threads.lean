import ChwellCore.CircuitBreaker
import ChwellCore.Lib.Pool

/-!
# A breaker under many threads

The fields of a `DefaultCircuitBreaker` are atomics, and its calls take no lock.  A call looks at
the state, runs the guarded function for as long as that takes, counts the outcome, reads the
counters again to see whether they trip the breaker, and only then stores `OPEN`; between any two of
these accesses the other threads do theirs.  Here each access is a step, and `solo_execute` says
that a thread that is alone does what `execute` does.

However the accesses interleave, the limit holds but for what is under way: among `n` threads, at
most `failure_threshold - 1 + n` functions throw until somebody calls `recover`, and at most `n`
more after each such call (`thrown_lt`).  For the strategy that counts failures, the breaker is open
when all threads have returned just if it was tripped by hand or the threshold was reached
(`open_iff_at_rest`): no interleaving loses the trip, and none makes one up.

Every access is seen by those that come after it, the relaxed stores as well, and the two loads of
a sum are taken in the order in which they are written.  `reset` is left out, and so are the loads
of the state that a call only reports.
-/

set_option autoImplicit false

namespace ChwellCore

/-- How a function is run under a breaker. -/
inductive BreakerWay where
  | execute
  | executeWithResult
deriving DecidableEq, Repr

/-- Where a thread is in a call. -/
inductive BreakerCaller where
  | idle
  /-- `execute` has found `HALF_OPEN`. -/
  | probing
  | running (way : BreakerWay)
  /-- The function has returned. -/
  | returned (way : BreakerWay)
  /-- `execute` has read the state, and is about to count the success. -/
  | counting (seen : CircuitState)
  /-- `record_success` has counted it, and is about to read the state. -/
  | looking
  /-- It is about to store `CLOSED`. -/
  | closing
  /-- The function has thrown. -/
  | failed
  /-- The failure is counted, and its time comes next. -/
  | stamping
  /-- It is in `should_trip`, and has loaded these counters. -/
  | checking (loads : List UInt64)
  /-- It is about to store `OPEN`. -/
  | opening
  /-- It is in `trip`, which has stored `OPEN`. -/
  | timing
deriving DecidableEq, Repr

/-- What a thread does next. -/
inductive BreakerAccess where
  /-- A call begins, and looks at the state. -/
  | enter (way : BreakerWay)
  /-- The guarded function ends. -/
  | finish (func : FuncOutcome Unit)
  /-- The next access of the call; the clock is read if that is what it is. -/
  | next (nowMs : UInt64)
  | trip
  | recover

namespace BreakerAccess

/-- The guarded function ends with a `std::exception`. -/
def throws : BreakerAccess → Bool
  | .finish (.throwsStd _) => true
  | _ => false

def trips : BreakerAccess → Bool
  | .trip => true
  | _ => false

def recovers : BreakerAccess → Bool
  | .recover => true
  | _ => false

end BreakerAccess

namespace DefaultCircuitBreaker

section

variable {F : Type} [Div F] [NatCast F] [LE F] [DecidableLE F] (cfg : CircuitBreakerConfig F)

/-- `get_failure_rate`, compared with the threshold, from the counters that it has loaded; `none` if
it needs one more. -/
def judgeRate : List UInt64 → Option Bool
  | failures :: successes :: more =>
    let total := failures + successes
    if total = 0 then some (decide (cfg.failureRateThreshold ≤ ((0 : ℕ) : F)))
    else
      match more with
      | failures' :: _ =>
        some (decide (cfg.failureRateThreshold ≤ (failures'.toNat : F) / (total.toNat : F)))
      | [] => none
  | _ => none

/-- `should_trip`, from the counters that it has loaded. -/
def judge : List UInt64 → Option Bool
  | failures :: successes :: more =>
    let total := failures + successes
    match cfg.tripStrategy with
    | .failureCount => some (decide (cfg.failureThreshold.toUInt64 ≤ failures))
    | .failureRate =>
      if total < cfg.failureThreshold.toUInt64 then some false else judgeRate cfg more
    | .failureCountOrRate =>
      if cfg.failureThreshold.toUInt64 ≤ failures then some true
      else if 0 < total then judgeRate cfg more
      else some false
  | _ => none

/-- The counter that `should_trip` loads after so many. -/
def counter (cb : DefaultCircuitBreaker) (n : ℕ) : UInt64 :=
  if n % 2 = 0 then cb.failureCount else cb.successCount

/-- What a thread does with the breaker, and where it is then. -/
def access (cb : DefaultCircuitBreaker) :
    BreakerCaller → BreakerAccess → Option (DefaultCircuitBreaker × BreakerCaller)
  | .idle, .enter way =>
    if cb.state = .open then some (cb, .idle)
    else if cb.state = .halfOpen ∧ way = .execute then some (cb, .probing)
    else some (cb, .running way)
  | .probing, .next _ =>
    some ({ cb with halfOpenCount := cb.halfOpenCount + 1 },
      if cfg.halfOpenCalls ≤ cb.halfOpenCount.toUInt64 then .idle else .running .execute)
  | .running way, .finish (.returns _) => some (cb, .returned way)
  | .running _, .finish (.throwsStd _) => some (cb, .failed)
  | .running _, .finish .throwsOther => some (cb, .idle)
  | .returned .execute, .next _ => some (cb, .counting cb.state)
  | .returned .executeWithResult, .next _ =>
    some ({ cb with successCount := cb.successCount + 1 }, .looking)
  | .counting seen, .next _ =>
    some ({ cb with successCount := cb.successCount + 1 },
      if seen = .halfOpen then .closing else .idle)
  | .looking, .next _ => some (cb, if cb.state = .halfOpen then .closing else .idle)
  | .closing, .next _ => some ({ cb with state := .closed }, .idle)
  | .failed, .next _ => some ({ cb with failureCount := cb.failureCount + 1 }, .stamping)
  | .stamping, .next nowMs => some ({ cb with lastFailureTimeMs := nowMs }, .checking [])
  | .checking loads, .next _ =>
    let loads' := loads ++ [cb.counter loads.length]
    match judge cfg loads' with
    | none => some (cb, .checking loads')
    | some true => some (cb, .opening)
    | some false => some (cb, .idle)
  | .opening, .next _ => some ({ cb with state := .open }, .idle)
  | .idle, .trip => some ({ cb with state := .open }, .timing)
  | .timing, .next nowMs => some ({ cb with lastFailureTimeMs := nowMs }, .idle)
  | .idle, .recover => some ({ cb with state := .closed }, .idle)
  | _, _ => none

/-- One thread that is alone. -/
def solo : System (DefaultCircuitBreaker × BreakerCaller) BreakerAccess :=
  System.ofPartial fun s a ↦ access cfg s.1 s.2 a

end

end DefaultCircuitBreaker

/-- A breaker and the threads that use it.  What the functions have done, and how often the breaker
was tripped and closed by hand, is not in the code. -/
structure SharedBreaker where
  breaker : DefaultCircuitBreaker
  callers : Pool BreakerCaller
  thrown : ℕ
  trips : ℕ
  recoveries : ℕ

namespace SharedBreaker

open DefaultCircuitBreaker

variable {F : Type} [Div F] [NatCast F] [LE F] [DecidableLE F] (cfg : CircuitBreakerConfig F)

/-- A fresh breaker, and so many threads. -/
def new (lastFailureTimeMs : UInt64) (threads : ℕ) : SharedBreaker :=
  ⟨.fresh lastFailureTimeMs, List.replicate threads .idle, 0, 0, 0⟩

/-- An access of thread `i`. -/
def step (s : SharedBreaker) (a : ℕ × BreakerAccess) : Option SharedBreaker :=
  match s.callers[a.1]? with
  | some p =>
    (access cfg s.breaker p a.2).map fun r ↦
      { breaker := r.1
        callers := s.callers.put a.1 r.2
        thrown := s.thrown + if a.2.throws then 1 else 0
        trips := s.trips + if a.2.trips then 1 else 0
        recoveries := s.recoveries + if a.2.recovers then 1 else 0 }
  | none => none

/-- All interleavings. -/
def system : System SharedBreaker (ℕ × BreakerAccess) := System.ofPartial (step cfg)

end SharedBreaker

/-! ## What an access does -/

namespace BreakerCaller

/-- The thread is not on a way that leads through `HALF_OPEN`. -/
def Plain : BreakerCaller → Prop
  | .probing | .closing => False
  | .counting seen => seen ≠ .halfOpen
  | _ => True

/-- A failure may be counted before the thread looks at the state again. -/
def mayFail : BreakerCaller → Bool
  | .running _ | .failed => true
  | _ => false

/-- The function has thrown, and this is not counted yet. -/
def uncounted : BreakerCaller → Bool
  | .failed => true
  | _ => false

/-- The thread has counted a failure, and has not seen that the threshold is not reached. -/
def owesTrip (threshold : ℕ) : BreakerCaller → Bool
  | .stamping | .opening | .checking [] => true
  | .checking (failures :: _) => threshold ≤ failures.toNat
  | _ => false

end BreakerCaller

namespace DefaultCircuitBreaker

variable {F : Type} [Div F] [NatCast F] [LE F] [DecidableLE F] {cfg : CircuitBreakerConfig F}
  {cb cb' : DefaultCircuitBreaker} {p p' : BreakerCaller} {a : BreakerAccess} {threshold : ℕ}

/-- The number of failures that trips the breaker. -/
def limit (cfg : CircuitBreakerConfig F) : ℕ := max cfg.failureThreshold.toNat 1

/-- What an access can do to the state and the count of failures, if nobody is half-open and
failures are counted. -/
inductive Effect (threshold : ℕ) (cb : DefaultCircuitBreaker) (p : BreakerCaller) :
    BreakerAccess → DefaultCircuitBreaker → BreakerCaller → Prop
  | stays {a : BreakerAccess} {cb' : DefaultCircuitBreaker} {p' : BreakerCaller} :
      a.trips = false → a.recovers = false → cb'.state = cb.state →
      cb'.failureCount = cb.failureCount →
      (p.owesTrip threshold = true →
        p'.owesTrip threshold = true ∨ cb.failureCount.toNat < threshold) →
      (p'.mayFail = true → p.mayFail = true ∨ cb.state ≠ .open) →
      ((if p'.uncounted then 1 else 0) =
        (if p.uncounted then 1 else 0) + if a.throws then 1 else 0) → Effect threshold cb p a cb' p'
  | counts {nowMs : UInt64} : p = .failed →
      Effect threshold cb p (.next nowMs) { cb with failureCount := cb.failureCount + 1 } .stamping
  | opens {nowMs : UInt64} : p = .opening →
      Effect threshold cb p (.next nowMs) { cb with state := .open } .idle
  | trips : p = .idle → Effect threshold cb p .trip { cb with state := .open } .timing
  | recovers : p = .idle → Effect threshold cb p .recover { cb with state := .closed } .idle

/-- An access of a thread that owes no trip and does not begin to run a function. -/
theorem Effect.aside (htrip : a.trips = false) (hrecover : a.recovers = false)
    (hstate : cb'.state = cb.state)
    (hcount : cb'.failureCount = cb.failureCount) (howes : p.owesTrip threshold = false)
    (hmay : p'.mayFail = false)
    (hthrows : (if p'.uncounted then 1 else 0) =
      (if p.uncounted then 1 else 0) + if a.throws then 1 else 0) :
    Effect threshold cb p a cb' p' := by
  refine .stays htrip hrecover hstate hcount (fun h ↦ ?_) (fun h ↦ ?_) hthrows
  · rw [howes] at h
    cases h
  · rw [hmay] at h
    cases h

omit [Div F] [NatCast F] [LE F] [DecidableLE F] in
theorem toUInt64_le_iff {f : UInt64} :
    cfg.failureThreshold.toUInt64 ≤ f ↔ cfg.failureThreshold.toNat ≤ f.toNat := by
  rw [UInt64.le_iff_toNat_le, UInt32.toNat_toUInt64]

theorem judge_singleton (failures : UInt64) : judge cfg [failures] = none := rfl

/-- Two counters are enough if the threshold is reached. -/
theorem judge_of_le (hstrategy : cfg.tripStrategy ≠ .failureRate) {failures : UInt64}
    (h : cfg.failureThreshold.toNat ≤ failures.toNat) (successes : UInt64) (more : List UInt64) :
    judge cfg (failures :: successes :: more) = some true := by
  have hle := toUInt64_le_iff.2 h
  rw [judge]
  cases hs : cfg.tripStrategy with
  | failureCount => simp only [hle, decide_true]
  | failureRate => exact absurd hs hstrategy
  | failureCountOrRate => simp only [hle, if_true]

/-- A thread in `should_trip` that owes a trip loads one more counter. -/
theorem judge_of_owesTrip (hstrategy : cfg.tripStrategy ≠ .failureRate) {loads : List UInt64}
    (h : (BreakerCaller.checking loads).owesTrip cfg.failureThreshold.toNat = true) (c : UInt64) :
    (loads = [] ∧ judge cfg (loads ++ [c]) = none) ∨ judge cfg (loads ++ [c]) = some true := by
  rcases loads with _ | ⟨failures, _ | ⟨successes, more⟩⟩
  · exact .inl ⟨rfl, judge_singleton c⟩
  · exact .inr (judge_of_le hstrategy (of_decide_eq_true h) c [])
  · exact .inr (judge_of_le hstrategy (of_decide_eq_true h) successes (more ++ [c]))

theorem access_effect (hstate : cb.state ≠ .halfOpen) (hp : p.Plain)
    (hstrategy : cfg.tripStrategy ≠ .failureRate) (h : access cfg cb p a = some (cb', p')) :
    Effect cfg.failureThreshold.toNat cb p a cb' p' := by
  revert h
  fun_cases access cfg cb p a <;> intro h <;> cases h
  case case2 hhalf => exact absurd hhalf.1 hstate
  case case3 hopen _ => exact .stays rfl rfl rfl rfl (fun h ↦ by cases h) (fun _ ↦ .inr hopen) rfl
  case case4 => exact hp.elim
  case case6 => exact .stays rfl rfl rfl rfl (fun h ↦ by cases h) (fun _ ↦ .inl rfl) rfl
  case case10 => exact .aside rfl rfl rfl rfl rfl (by rw [if_neg hp]; rfl) (by rw [if_neg hp]; rfl)
  case case11 =>
    exact .aside rfl rfl rfl rfl rfl (by rw [if_neg hstate]; rfl) (by rw [if_neg hstate]; rfl)
  case case12 => exact hp.elim
  case case13 => exact .counts rfl
  case case14 => exact .stays rfl rfl rfl rfl (fun _ ↦ .inl rfl) (fun h ↦ by cases h) rfl
  case case15 loads _ _ hjudge =>
    refine .stays rfl rfl rfl rfl (fun howes ↦ ?_) (fun h ↦ by cases h) rfl
    rcases judge_of_owesTrip hstrategy howes (cb.counter loads.length) with ⟨rfl, -⟩ | htrue
    · -- the count of failures is what it has loaded
      rcases le_or_gt cfg.failureThreshold.toNat cb.failureCount.toNat with hle | hlt
      · exact .inl (decide_eq_true hle)
      · exact .inr hlt
    · rw [htrue] at hjudge
      cases hjudge
  case case16 => exact .stays rfl rfl rfl rfl (fun _ ↦ .inl rfl) (fun h ↦ by cases h) rfl
  case case17 loads _ _ hjudge =>
    refine .stays rfl rfl rfl rfl (fun howes ↦ ?_) (fun h ↦ by cases h) rfl
    rcases judge_of_owesTrip hstrategy howes (cb.counter loads.length) with ⟨-, hnone⟩ | htrue
    · rw [hnone] at hjudge
      cases hjudge
    · rw [htrue] at hjudge
      cases hjudge
  case case18 => exact .opens rfl
  case case19 => exact .trips rfl
  case case21 => exact .recovers rfl
  all_goals exact .aside rfl rfl rfl rfl rfl rfl rfl

/-- No access leads to `HALF_OPEN`. -/
theorem access_plain (hstate : cb.state ≠ .halfOpen) (hp : p.Plain)
    (h : access cfg cb p a = some (cb', p')) : cb'.state ≠ .halfOpen ∧ p'.Plain := by
  revert h
  fun_cases access cfg cb p a <;> intro h <;> cases h
  case case2 hhalf => exact absurd hhalf.1 hstate
  case case4 => exact hp.elim
  case case8 => exact ⟨hstate, hstate⟩
  case case10 => exact ⟨hstate, by rw [if_neg hp]; trivial⟩
  case case11 => exact ⟨hstate, by rw [if_neg hstate]; trivial⟩
  case case12 => exact hp.elim
  case case18 | case19 | case21 => exact ⟨(fun h ↦ by cases h), trivial⟩
  all_goals exact ⟨hstate, trivial⟩

/-- What a thread that has counted a failure knows of their number. -/
def Knows (cfg : CircuitBreakerConfig F) (count : ℕ) : BreakerCaller → Prop
  | .stamping | .checking [] => 1 ≤ count
  | .checking (failures :: _) => 1 ≤ count ∧ failures.toNat ≤ count
  | .opening => limit cfg ≤ count
  | _ => True

omit [Div F] [NatCast F] [LE F] [DecidableLE F] in
theorem Knows.mono {n m : ℕ} (h : Knows cfg n p) (hle : n ≤ m) : Knows cfg m p := by
  rcases p with _ | _ | _ | _ | _ | _ | _ | _ | _ | ⟨_ | _⟩ | _ | _
  case stamping | opening | checking.nil => exact h.trans hle
  case checking.cons => exact ⟨h.1.trans hle, h.2.trans hle⟩
  all_goals trivial

/-- The decision of a thread that is in `should_trip`, where only failures are counted. -/
theorem Knows.of_judge (hstrategy : cfg.tripStrategy = .failureCount) {loads : List UInt64} {n : ℕ}
    (h : Knows cfg n (.checking loads)) {c : UInt64}
    (hjudge : judge cfg (loads ++ [c]) = some true) : limit cfg ≤ n := by
  rcases loads with _ | ⟨failures, loads⟩
  · cases hjudge
  · obtain ⟨successes, more, heq⟩ : ∃ successes more, loads ++ [c] = successes :: more := by
      cases loads <;> exact ⟨_, _, rfl⟩
    rw [List.cons_append, heq] at hjudge
    simp only [judge, hstrategy, Option.some_inj, decide_eq_true_eq] at hjudge
    exact max_le ((toUInt64_le_iff.1 hjudge).trans h.2) h.1

theorem access_knows (hstrategy : cfg.tripStrategy = .failureCount)
    (hp : Knows cfg cb.failureCount.toNat p)
    (hcount : p = .failed → (cb.failureCount + 1).toNat = cb.failureCount.toNat + 1)
    (h : access cfg cb p a = some (cb', p')) : Knows cfg cb'.failureCount.toNat p' := by
  revert h
  fun_cases access cfg cb p a <;> intro h <;> cases h
  case case13 =>
    rw [Knows, hcount rfl]
    exact Nat.le_add_left _ _
  case case14 => exact hp
  case case15 loads _ _ _ =>
    rcases loads with _ | ⟨failures, loads⟩
    · exact ⟨hp, le_rfl⟩
    · exact hp
  case case16 hjudge => exact hp.of_judge hstrategy hjudge
  case case4 | case10 | case11 => split <;> trivial
  all_goals trivial

/-! ## A thread that is alone -/

/-- The first counters that `should_trip` loads if nobody changes them. -/
def countersOf (cb : DefaultCircuitBreaker) : ℕ → List UInt64
  | 0 => []
  | n + 1 => cb.countersOf n ++ [cb.counter n]

theorem length_countersOf (cb : DefaultCircuitBreaker) (n : ℕ) : (cb.countersOf n).length = n := by
  induction n with
  | zero => rfl
  | succ n ih => rw [countersOf, List.length_append, ih, List.length_singleton]

/-- The rate of a breaker without calls is judged from two counters. -/
theorem judgeRate_two (h : cb.failureCount + cb.successCount = 0) :
    judgeRate cfg [cb.failureCount, cb.successCount] =
      some (decide (cfg.failureRateThreshold ≤ getFailureRate cb)) := by
  simp only [judgeRate, getFailureRate, h, if_true]

/-- Any other is judged from three. -/
theorem judgeRate_three (cfg : CircuitBreakerConfig F)
    (h : cb.failureCount + cb.successCount ≠ 0) :
    judgeRate cfg [cb.failureCount, cb.successCount] = none ∧
      judgeRate cfg [cb.failureCount, cb.successCount, cb.failureCount] =
        some (decide (cfg.failureRateThreshold ≤ getFailureRate cb)) := by
  simp only [judgeRate, getFailureRate, h, if_false, and_self]

/-- A decision that is left to the rate needs the counters for the rate, and two more. -/
theorem judge_of_rate {b : Bool} (hjudge : ∀ more,
    judge cfg (cb.failureCount :: cb.successCount :: more) = judgeRate cfg more)
    (hb : decide (cfg.failureRateThreshold ≤ getFailureRate cb) = b) :
    ∃ n, (∀ m ≤ n, judge cfg (cb.countersOf m) = none) ∧
      judge cfg (cb.countersOf (n + 1)) = some b := by
  have hnone : ∀ m ≤ 3, judge cfg (cb.countersOf m) = none := by
    intro m hm
    obtain rfl | rfl | rfl | rfl : m = 0 ∨ m = 1 ∨ m = 2 ∨ m = 3 := by omega
    · rfl
    · rfl
    · exact hjudge []
    · exact hjudge [cb.failureCount]
  by_cases htotal : cb.failureCount + cb.successCount = 0
  · refine ⟨3, hnone, ?_⟩
    rw [← hb, ← judgeRate_two htotal]
    exact hjudge [cb.failureCount, cb.successCount]
  · obtain ⟨htwo, hthree⟩ := judgeRate_three cfg htotal
    refine ⟨4, fun m hm ↦ ?_, ?_⟩
    · rcases Nat.lt_or_eq_of_le hm with hlt | rfl
      · exact hnone m (by omega)
      · rw [← htwo]
        exact hjudge [cb.failureCount, cb.successCount]
    · rw [← hb, ← hthree]
      exact hjudge [cb.failureCount, cb.successCount, cb.failureCount]

/-- A decision that needs no rate is made from two counters. -/
theorem judge_of_two {b : Bool} (h : judge cfg [cb.failureCount, cb.successCount] = some b) :
    ∃ n, (∀ m ≤ n, judge cfg (cb.countersOf m) = none) ∧
      judge cfg (cb.countersOf (n + 1)) = some b := by
  refine ⟨1, fun m hm ↦ ?_, h⟩
  obtain rfl | rfl : m = 0 ∨ m = 1 := by omega
  · rfl
  · rfl

/-- **`should_trip` of a thread that is alone**: it loads counters until it has enough of them, and
decides as `should_trip` does. -/
theorem judge_countersOf (cfg : CircuitBreakerConfig F) (cb : DefaultCircuitBreaker) :
    ∃ n, (∀ m ≤ n, judge cfg (cb.countersOf m) = none) ∧
      judge cfg (cb.countersOf (n + 1)) = some (shouldTrip cfg cb) := by
  rw [shouldTrip]
  cases hstrategy : cfg.tripStrategy with
  | failureCount => exact judge_of_two (by rw [judge, hstrategy])
  | failureRate =>
    by_cases hfew : cb.failureCount + cb.successCount < cfg.failureThreshold.toUInt64
    · simp only [hfew, if_true]
      exact judge_of_two (by simp only [judge, hstrategy, hfew, if_true])
    · simp only [hfew, if_false]
      exact judge_of_rate (fun more ↦ by simp only [judge, hstrategy, hfew, if_false]) rfl
  | failureCountOrRate =>
    by_cases hmany : cfg.failureThreshold.toUInt64 ≤ cb.failureCount
    · simp only [hmany, decide_true, Bool.true_or]
      exact judge_of_two (by simp only [judge, hstrategy, hmany, if_true])
    · simp only [hmany, decide_false, Bool.false_or]
      by_cases hany : 0 < cb.failureCount + cb.successCount
      · simp only [hany, decide_true, Bool.true_and]
        refine judge_of_rate (fun more ↦ ?_) rfl
        simp only [judge, hstrategy, hmany, hany, if_false, if_true]
      · simp only [hany, decide_false, Bool.false_and]
        exact judge_of_two (by simp only [judge, hstrategy, hmany, hany, if_false])

/-- The thread loads counters as long as it needs more of them. -/
theorem solo_loads {n : ℕ} (hnone : ∀ m ≤ n, judge cfg (cb.countersOf m) = none) :
    (solo cfg).Run (cb, .checking []) (List.replicate n (.next 0))
      (cb, .checking (cb.countersOf n)) := by
  induction n with
  | zero => exact .nil
  | succ n ih =>
    rw [List.replicate_succ']
    refine (ih fun m hm ↦ hnone m (by omega)).snoc ?_
    have hmore := hnone (n + 1) le_rfl
    rw [countersOf] at hmore
    simp only [solo, System.ofPartial, access, length_countersOf, hmore, countersOf]

/-- Alone, a thread that has counted a failure trips the breaker just if `should_trip` says so. -/
theorem solo_shouldTrip (cfg : CircuitBreakerConfig F) (cb : DefaultCircuitBreaker) :
    ∃ as, (solo cfg).Run (cb, .checking []) as
      (if shouldTrip cfg cb then { cb with state := .open } else cb, .idle) := by
  obtain ⟨n, hnone, hsome⟩ := judge_countersOf cfg cb
  have hloads := solo_loads hnone
  rw [countersOf] at hsome
  cases htrip : shouldTrip cfg cb with
  | false =>
    have hlast : (solo cfg).step (cb, .checking (cb.countersOf n)) (.next 0) (cb, .idle) := by
      rw [htrip] at hsome
      simp only [solo, System.ofPartial, access, length_countersOf, hsome]
    exact ⟨_, hloads.snoc hlast⟩
  | true =>
    have hlast : (solo cfg).step (cb, .checking (cb.countersOf n)) (.next 0) (cb, .opening) := by
      rw [htrip] at hsome
      simp only [solo, System.ofPartial, access, length_countersOf, hsome]
    have hopen : (solo cfg).step (cb, .opening) (.next 0) ({ cb with state := .open }, .idle) := rfl
    exact ⟨_, (hloads.snoc hlast).snoc hopen⟩

/-- Alone, a thread whose function has thrown does what `record_failure` does. -/
theorem solo_recordFailure (cfg : CircuitBreakerConfig F) (cb : DefaultCircuitBreaker)
    (nowMs : UInt64) :
    ∃ as, (solo cfg).Run (cb, .failed) as (recordFailure cfg cb nowMs, .idle) := by
  obtain ⟨as, hrun⟩ := solo_shouldTrip cfg
    { cb with failureCount := cb.failureCount + 1, lastFailureTimeMs := nowMs }
  have hcount : (solo cfg).step (cb, .failed) (.next nowMs)
      ({ cb with failureCount := cb.failureCount + 1 }, .stamping) := rfl
  have hstamp : (solo cfg).step ({ cb with failureCount := cb.failureCount + 1 }, .stamping)
      (.next nowMs) ({ cb with failureCount := cb.failureCount + 1, lastFailureTimeMs := nowMs },
        .checking []) := rfl
  exact ⟨_, .cons hcount (.cons hstamp hrun)⟩

/-- Alone, a thread whose function has returned does what `record_success` does. -/
theorem solo_recordSuccess (cfg : CircuitBreakerConfig F) (cb : DefaultCircuitBreaker) :
    ∃ as, (solo cfg).Run (cb, .returned .execute) as (recordSuccess cb, .idle) := by
  have hlook : (solo cfg).step (cb, .returned .execute) (.next 0) (cb, .counting cb.state) := rfl
  rw [recordSuccess]
  by_cases hhalf : cb.state = .halfOpen
  · have hcount : (solo cfg).step (cb, .counting cb.state) (.next 0)
        ({ cb with successCount := cb.successCount + 1 }, .closing) := by
      simp only [solo, System.ofPartial, access, hhalf, if_true]
    have hclose : (solo cfg).step ({ cb with successCount := cb.successCount + 1 }, .closing)
        (.next 0) ({ cb with successCount := cb.successCount + 1, state := .closed }, .idle) := rfl
    rw [if_pos hhalf]
    exact ⟨_, ((System.Run.single hlook).snoc hcount).snoc hclose⟩
  · have hcount : (solo cfg).step (cb, .counting cb.state) (.next 0)
        ({ cb with successCount := cb.successCount + 1 }, .idle) := by
      simp only [solo, System.ofPartial, access, hhalf, if_false]
    rw [if_neg hhalf]
    exact ⟨_, (System.Run.single hlook).snoc hcount⟩

/-- What `execute` records of the function that it has run. -/
def recordOutcome (cfg : CircuitBreakerConfig F) (cb : DefaultCircuitBreaker) (t : Timing) :
    FuncOutcome Unit → DefaultCircuitBreaker
  | .returns _ => recordSuccess cb
  | .throwsStd _ => recordFailure cfg cb t.nowMs
  | .throwsOther => cb

/-- Alone, a thread that runs a function records its outcome. -/
theorem solo_recordOutcome (cfg : CircuitBreakerConfig F) (cb : DefaultCircuitBreaker) (t : Timing)
    (func : FuncOutcome Unit) :
    ∃ as, (solo cfg).Run (cb, .running .execute) as (recordOutcome cfg cb t func, .idle) := by
  cases func with
  | returns v =>
    obtain ⟨as, hrun⟩ := solo_recordSuccess cfg cb
    have hfinish : (solo cfg).step (cb, .running .execute) (.finish (.returns v))
        (cb, .returned .execute) := rfl
    exact ⟨_, .cons hfinish hrun⟩
  | throwsStd what =>
    obtain ⟨as, hrun⟩ := solo_recordFailure cfg cb t.nowMs
    have hfinish : (solo cfg).step (cb, .running .execute) (.finish (.throwsStd what))
        (cb, .failed) := rfl
    exact ⟨_, .cons hfinish hrun⟩
  | throwsOther =>
    have hfinish : (solo cfg).step (cb, .running .execute) (.finish .throwsOther) (cb, .idle) := rfl
    exact ⟨_, .single hfinish⟩

/-- **A thread that is alone** does what `execute` does. -/
theorem solo_execute (cfg : CircuitBreakerConfig F) (cb : DefaultCircuitBreaker) (t : Timing)
    (func : FuncOutcome Unit) :
    ∃ as, (solo cfg).Run (cb, .idle) as ((execute cfg cb t func).breaker, .idle) := by
  obtain hopen | hclosed | hhalf :
      cb.state = .open ∨ cb.state = .closed ∨ cb.state = .halfOpen := by cases cb.state <;> simp
  · have henter : (solo cfg).step (cb, .idle) (.enter .execute) (cb, .idle) := by
      simp only [solo, System.ofPartial, access, hopen, if_true]
    rw [execute_of_open hopen]
    exact ⟨_, .single henter⟩
  · have henter : (solo cfg).step (cb, .idle) (.enter .execute) (cb, .running .execute) := by
      simp only [solo, System.ofPartial, access, hclosed, reduceCtorEq, if_false, false_and]
    have hexecute : (execute cfg cb t func).breaker = recordOutcome cfg cb t func := by
      simp only [execute, hclosed, reduceCtorEq, if_false, false_and]
      cases func <;> rfl
    obtain ⟨as, hrun⟩ := solo_recordOutcome cfg cb t func
    rw [hexecute]
    exact ⟨_, .cons henter hrun⟩
  · have henter : (solo cfg).step (cb, .idle) (.enter .execute) (cb, .probing) := by
      simp only [solo, System.ofPartial, access, hhalf, reduceCtorEq, if_false, and_self, if_true]
    by_cases hmany : cfg.halfOpenCalls ≤ cb.halfOpenCount.toUInt64
    · have hprobe : (solo cfg).step (cb, .probing) (.next 0)
          ({ cb with halfOpenCount := cb.halfOpenCount + 1 }, .idle) := by
        simp only [solo, System.ofPartial, access, hmany, if_true]
      have hexecute : (execute cfg cb t func).breaker =
          { cb with halfOpenCount := cb.halfOpenCount + 1 } := by
        simp only [execute, hhalf, reduceCtorEq, if_false, if_true, hmany, and_self, rejected]
      rw [hexecute]
      exact ⟨_, (System.Run.single henter).snoc hprobe⟩
    · have hprobe : (solo cfg).step (cb, .probing) (.next 0)
          ({ cb with halfOpenCount := cb.halfOpenCount + 1 }, .running .execute) := by
        simp only [solo, System.ofPartial, access, hmany, if_false]
      have hexecute : (execute cfg cb t func).breaker =
          recordOutcome cfg { cb with halfOpenCount := cb.halfOpenCount + 1 } t func := by
        simp only [execute, hhalf, reduceCtorEq, if_false, if_true, hmany, and_false]
        cases func <;> rfl
      obtain ⟨as, hrun⟩ := solo_recordOutcome cfg
        { cb with halfOpenCount := cb.halfOpenCount + 1 } t func
      rw [hexecute]
      exact ⟨_, .cons henter (.cons hprobe hrun)⟩

end DefaultCircuitBreaker

/-! ## Runs -/

namespace SharedBreaker

open DefaultCircuitBreaker BreakerCaller

variable {F : Type} {cfg : CircuitBreakerConfig F} {s s' : SharedBreaker} {i : ℕ}
  {a : BreakerAccess} {acts : List (ℕ × BreakerAccess)} {stamp : UInt64} {threads : ℕ}

/-- The failures that the threads may still count, and the trips that they owe. -/
theorem countP_mayFail_add_owesTrip_le (threshold : ℕ) (pool : Pool BreakerCaller) :
    pool.countP mayFail + pool.countP (owesTrip threshold) ≤ pool.length := by
  rw [List.length_eq_countP_add_countP mayFail]
  refine Nat.add_le_add_left (List.countP_mono_left fun p _ howes ↦ ?_) _
  cases p with
  | stamping | checking | opening => rfl
  | _ => cases howes

theorem countP_uncounted_le (pool : Pool BreakerCaller) :
    pool.countP uncounted ≤ pool.countP mayFail := by
  refine List.countP_mono_left fun p _ h ↦ ?_
  cases p with
  | failed => rfl
  | _ => cases h

/-- What is known of the failures: as long as the breaker is closed, more of them than the limit
allows are owed a trip, and then those that are under way are all that is to come. -/
structure Inv (cfg : CircuitBreakerConfig F) (s : SharedBreaker) : Prop where
  state : s.breaker.state ≠ .halfOpen
  plain : ∀ p ∈ s.callers, p.Plain
  counted : s.breaker.failureCount.toNat + s.callers.countP uncounted = s.thrown
  shut : s.breaker.state ≠ .open →
    s.breaker.failureCount.toNat + 1 ≤ limit cfg + s.callers.length * s.recoveries +
      s.callers.countP (owesTrip cfg.failureThreshold.toNat)
  tripped : s.breaker.state = .open →
    s.breaker.failureCount.toNat + s.callers.countP mayFail + 1 ≤
      limit cfg + s.callers.length * (s.recoveries + 1)

section Step

variable {p p' : BreakerCaller} {cb : DefaultCircuitBreaker} {trips recoveries thrown : ℕ}

/-- A failure that is about to be counted can be counted. -/
theorem Inv.toNat_add_one (h : s.Inv cfg) (hp : s.callers[i]? = some .failed)
    (hmany : s.thrown < 2 ^ 64) :
    (s.breaker.failureCount + 1).toNat = s.breaker.failureCount.toNat + 1 := by
  have hpos : 0 < s.callers.countP uncounted :=
    List.countP_pos_iff.2 ⟨_, List.mem_of_getElem? hp, rfl⟩
  have hcounted := h.counted
  rw [UInt64.toNat_add, UInt64.toNat_one]
  omega

/-- A thread counts its failure, and owes a trip. -/
theorem Inv.counts (h : s.Inv cfg) (hp : s.callers[i]? = some .failed)
    (hmany : s.thrown < 2 ^ 64) :
    Inv cfg ⟨{ s.breaker with failureCount := s.breaker.failureCount + 1 },
      s.callers.put i .stamping, s.thrown, trips, s.recoveries⟩ := by
  have huncounted := Pool.countP_put hp .stamping uncounted
  have hmay := Pool.countP_put hp .stamping mayFail
  have howes := Pool.countP_put hp .stamping (owesTrip cfg.failureThreshold.toNat)
  have hlength : (s.callers.put i .stamping).length = s.callers.length := List.length_set
  simp only [uncounted, mayFail, owesTrip, if_true, Bool.false_eq_true, if_false, add_zero]
    at huncounted hmay howes
  have hwrap := h.toNat_add_one hp hmany
  refine ⟨h.state, fun q hq ↦ ?_, ?_, fun hclosed ↦ ?_, fun hopen ↦ ?_⟩
  · rcases Pool.mem_put hq with rfl | hq
    · trivial
    · exact h.plain q hq
  · have hcounted := h.counted
    simp only [hwrap]
    omega
  · have hbefore := h.shut hclosed
    simp only [hwrap, hlength]
    omega
  · have hbefore := h.tripped hopen
    simp only [hwrap, hlength]
    omega

/-- `OPEN` is stored, by a thread that runs no function. -/
theorem Inv.opens (h : s.Inv cfg) (hp : s.callers[i]? = some p) (hplain : p'.Plain)
    (hmay : p'.mayFail = false) (hsame : p'.uncounted = p.uncounted) :
    Inv cfg ⟨{ s.breaker with state := .open }, s.callers.put i p', s.thrown, trips,
      s.recoveries⟩ := by
  have huncounted := Pool.countP_put hp p' uncounted
  have hfail := Pool.countP_put hp p' mayFail
  have hboth := countP_mayFail_add_owesTrip_le cfg.failureThreshold.toNat s.callers
  have hlength : (s.callers.put i p').length = s.callers.length := List.length_set
  have hmul := Nat.mul_add_one s.callers.length s.recoveries
  refine ⟨(fun hhalf ↦ by cases hhalf), fun q hq ↦ ?_, ?_, fun hclosed ↦ absurd rfl hclosed,
    fun _ ↦ ?_⟩
  · rcases Pool.mem_put hq with rfl | hq
    · exact hplain
    · exact h.plain q hq
  · have hcounted := h.counted
    rw [hsame, Nat.add_right_cancel_iff] at huncounted
    simp only [huncounted]
    exact hcounted
  · simp only [hmay, Bool.false_eq_true, if_false, add_zero] at hfail
    simp only [hlength]
    by_cases hopen : s.breaker.state = .open
    · have hbefore := h.tripped hopen
      omega
    · have hbefore := h.shut hopen
      omega

/-- `CLOSED` is stored by hand, between two calls of a thread. -/
theorem Inv.recovers (h : s.Inv cfg) (hp : s.callers[i]? = some .idle) :
    Inv cfg ⟨{ s.breaker with state := .closed }, s.callers.put i .idle, s.thrown, trips,
      s.recoveries + 1⟩ := by
  have huncounted := Pool.countP_put hp .idle uncounted
  have howes := Pool.countP_put hp .idle (owesTrip cfg.failureThreshold.toNat)
  have hlength : (s.callers.put i .idle).length = s.callers.length := List.length_set
  have hmul := Nat.mul_add_one s.callers.length s.recoveries
  rw [Nat.add_right_cancel_iff] at huncounted howes
  refine ⟨(fun hhalf ↦ by cases hhalf), fun q hq ↦ ?_, ?_, fun _ ↦ ?_,
    (fun hopen ↦ by cases hopen)⟩
  · rcases Pool.mem_put hq with rfl | hq
    · trivial
    · exact h.plain q hq
  · simp only [huncounted]
    exact h.counted
  · simp only [hlength, howes]
    by_cases hopen : s.breaker.state = .open
    · have hbefore := h.tripped hopen
      omega
    · have hbefore := h.shut hopen
      omega

/-- Anything else leaves the state and the count alone. -/
theorem Inv.stays (h : s.Inv cfg) (hp : s.callers[i]? = some p) (hplain : p'.Plain)
    (hsame : cb.state = s.breaker.state) (hcount : cb.failureCount = s.breaker.failureCount)
    (howe : p.owesTrip cfg.failureThreshold.toNat = true →
      p'.owesTrip cfg.failureThreshold.toNat = true ∨
        s.breaker.failureCount.toNat < cfg.failureThreshold.toNat)
    (hfail : p'.mayFail = true → p.mayFail = true ∨ s.breaker.state ≠ .open)
    (hthrows : (if p'.uncounted then 1 else 0) + s.thrown =
      (if p.uncounted then 1 else 0) + thrown) :
    Inv cfg ⟨cb, s.callers.put i p', thrown, trips, s.recoveries⟩ := by
  have huncounted := Pool.countP_put hp p' uncounted
  have hmay := Pool.countP_put hp p' mayFail
  have howes := Pool.countP_put hp p' (owesTrip cfg.failureThreshold.toNat)
  have hlength : (s.callers.put i p').length = s.callers.length := List.length_set
  have hlimit : cfg.failureThreshold.toNat ≤ limit cfg := le_max_left _ _
  refine ⟨hsame ▸ h.state, fun q hq ↦ ?_, ?_, fun hclosed ↦ ?_, fun hopen ↦ ?_⟩
  · rcases Pool.mem_put hq with rfl | hq
    · exact hplain
    · exact h.plain q hq
  · have hcounted := h.counted
    simp only [hcount]
    omega
  · have hbefore := h.shut (hsame ▸ hclosed)
    simp only [hcount, hlength]
    cases hp' : p.owesTrip cfg.failureThreshold.toNat with
    | false =>
      simp only [hp', Bool.false_eq_true, if_false, add_zero] at howes
      omega
    | true =>
      rcases howe hp' with hstill | hfew
      · simp only [hp', hstill, if_true, Nat.add_right_cancel_iff] at howes
        omega
      · omega
  · have hwasOpen : s.breaker.state = .open := hsame ▸ hopen
    have hbefore := h.tripped hwasOpen
    simp only [hcount, hlength]
    cases hp' : p'.mayFail with
    | false =>
      simp only [hp', Bool.false_eq_true, if_false, add_zero] at hmay
      omega
    | true =>
      have hwas := (hfail hp').resolve_right (fun hne ↦ hne hwasOpen)
      simp only [hp', hwas, if_true, Nat.add_right_cancel_iff] at hmay
      omega

end Step

theorem inv_new (cfg : CircuitBreakerConfig F) (stamp : UInt64) (threads : ℕ) :
    (new stamp threads).Inv cfg := by
  have hidle : ∀ p ∈ (new stamp threads).callers, p = .idle :=
    fun p hp ↦ List.eq_of_mem_replicate hp
  refine ⟨(fun h ↦ by cases h), fun p hp ↦ hidle p hp ▸ trivial, ?_, fun _ ↦ ?_,
    (fun h ↦ by cases h)⟩
  · have hzero : (new stamp threads).callers.countP uncounted = 0 :=
      List.countP_eq_zero.2 fun p hp ↦ by rw [hidle p hp]; exact Bool.false_ne_true
    rw [hzero]
    rfl
  · have hlimit : 1 ≤ limit cfg := le_max_right _ _
    have hcount : (new stamp threads).breaker.failureCount.toNat = 0 := rfl
    omega

variable [Div F] [NatCast F] [LE F] [DecidableLE F]

theorem step_cases (hs : s.step cfg (i, a) = some s') :
    ∃ p cb p', s.callers[i]? = some p ∧ access cfg s.breaker p a = some (cb, p') ∧
      s' = ⟨cb, s.callers.put i p', s.thrown + (if a.throws then 1 else 0),
        s.trips + (if a.trips then 1 else 0), s.recoveries + if a.recovers then 1 else 0⟩ := by
  rw [step] at hs
  split at hs
  · next p hp =>
    obtain ⟨r, hr, rfl⟩ := Option.map_eq_some_iff.1 hs
    exact ⟨p, r.1, r.2, hp, hr, rfl⟩
  · cases hs

theorem Inv.step (hstrategy : cfg.tripStrategy ≠ .failureRate) (h : s.Inv cfg)
    (hs : s.step cfg (i, a) = some s') (hmany : s.thrown < 2 ^ 64) : s'.Inv cfg := by
  obtain ⟨p, cb, p', hp, haccess, rfl⟩ := step_cases hs
  have hpplain := h.plain p (List.mem_of_getElem? hp)
  have hplain := (access_plain h.state hpplain haccess).2
  cases access_effect h.state hpplain hstrategy haccess with
  | stays _ hrecovers hsame hcount howe hfail hthrows =>
    simp only [hrecovers, Bool.false_eq_true, if_false, add_zero]
    exact h.stays hp hplain hsame hcount howe hfail (by omega)
  | counts hpf =>
    subst hpf
    exact h.counts hp hmany
  | opens hpo =>
    subst hpo
    exact h.opens hp hplain rfl rfl
  | trips hpi =>
    subst hpi
    exact h.opens hp hplain rfl rfl
  | recovers hpi =>
    subst hpi
    exact h.recovers hp

/-- What is known at the end of a run in which the count of failures has not overflowed. -/
theorem inv_run (hstrategy : cfg.tripStrategy ≠ .failureRate)
    (hrun : (system cfg).Run (new stamp threads) acts s) :
    s.callers.length = threads ∧ (s.thrown < 2 ^ 64 → s.Inv cfg) := by
  refine hrun.invariant (motive := fun s ↦ s.callers.length = threads ∧
    (s.thrown < 2 ^ 64 → s.Inv cfg)) ?_ ⟨List.length_replicate, fun _ ↦ inv_new cfg stamp threads⟩
  rintro s ⟨i, a⟩ s' ⟨hlength, hinv⟩ hs
  obtain ⟨p, cb, p', -, -, hs'⟩ := step_cases hs
  have hthrown : s.thrown ≤ s'.thrown := by
    rw [hs']
    exact Nat.le_add_right _ _
  refine ⟨?_, fun hmany ↦ (hinv (by omega)).step hstrategy hs (by omega)⟩
  rw [hs']
  exact List.length_set.trans hlength

/-- **How many failures get through**: among `n` threads, however they interleave, fewer than the
threshold and `n` functions throw, and at most `n` more for each time that somebody calls `recover`,
if the strategy counts failures and there are not 2⁶⁴ of them. -/
theorem thrown_lt (hstrategy : cfg.tripStrategy ≠ .failureRate)
    (hrun : (system cfg).Run (new stamp threads) acts s) (hmany : s.thrown < 2 ^ 64) :
    s.thrown < limit cfg + threads * (s.recoveries + 1) := by
  obtain ⟨rfl, hinv⟩ := inv_run hstrategy hrun
  have h := hinv hmany
  have hcounted := h.counted
  have huncounted := countP_uncounted_le s.callers
  have hboth := countP_mayFail_add_owesTrip_le cfg.failureThreshold.toNat s.callers
  have hmul := Nat.mul_add_one s.callers.length s.recoveries
  by_cases hopen : s.breaker.state = .open
  · have hbound := h.tripped hopen
    omega
  · have hbound := h.shut hopen
    omega

/-- Two threads, with a threshold of one: both begin before either has failed. -/
def bothFail : List (ℕ × BreakerAccess) :=
  [(0, .enter .execute), (1, .enter .executeWithResult), (0, .finish (.throwsStd [])),
    (1, .finish (.throwsStd [])), (0, .next 5), (1, .next 6), (0, .next 5), (1, .next 6),
    (1, .next 0), (0, .next 0), (1, .next 0), (0, .next 0), (1, .next 0), (0, .next 0)]

/-- As many failures get through as the bound allows. -/
theorem thrown_lt_bothFail :
    ∃ s, (system { defaultConfig with failureThreshold := 1 }).Run (new 0 2) bothFail s ∧
      s.thrown = 2 ∧ s.thrown < limit { defaultConfig with failureThreshold := 1 } +
        2 * (s.recoveries + 1) := by
  obtain ⟨s, hrun, hthrown⟩ : ∃ s, (system { defaultConfig with failureThreshold := 1 }).Run
      (new 0 2) bothFail s ∧ s.thrown = 2 := System.Run.exists_of_any (by decide +kernel)
  exact ⟨s, hrun, hthrown, thrown_lt (by decide) hrun (by omega)⟩

/-! ## When all have returned -/

/-- What is known where failures are counted and nothing else: an open breaker was tripped by hand
or by as many failures as it takes, and one that was tripped by hand stays open. -/
structure Settled (cfg : CircuitBreakerConfig F) (s : SharedBreaker) : Prop extends Inv cfg s where
  knows : ∀ p ∈ s.callers, Knows cfg s.breaker.failureCount.toNat p
  reached : s.breaker.state = .open →
    0 < s.trips ∨ limit cfg ≤ s.breaker.failureCount.toNat
  byHand : s.recoveries = 0 → 0 < s.trips → s.breaker.state = .open

theorem Settled.step (hstrategy : cfg.tripStrategy = .failureCount) (h : s.Settled cfg)
    (hs : s.step cfg (i, a) = some s') (hmany : s.thrown < 2 ^ 64) : s'.Settled cfg := by
  have hcounts : cfg.tripStrategy ≠ .failureRate := by
    rw [hstrategy]
    exact fun h ↦ by cases h
  have hinv := h.toInv.step hcounts hs hmany
  obtain ⟨p, cb, p', hp, haccess, rfl⟩ := step_cases hs
  have hmem := List.mem_of_getElem? hp
  have hfailed : p = .failed →
      (s.breaker.failureCount + 1).toNat = s.breaker.failureCount.toNat + 1 :=
    fun hpf ↦ h.toInv.toNat_add_one (hpf ▸ hp) hmany
  have hknows := access_knows hstrategy (h.knows p hmem) hfailed haccess
  have heffect := access_effect h.state (h.plain p hmem) hcounts haccess
  have hgrows : s.breaker.failureCount.toNat ≤ cb.failureCount.toNat := by
    cases heffect with
    | stays _ _ _ hcount => exact (congrArg UInt64.toNat hcount).ge
    | counts hpf => exact (hfailed hpf).symm ▸ Nat.le_add_right _ _
    | opens | trips | recovers => exact le_rfl
  refine ⟨hinv, fun q hq ↦ ?_, fun hopen ↦ ?_, fun hrecoveries htrips ↦ ?_⟩
  · rcases Pool.mem_put hq with rfl | hq
    · exact hknows
    · exact (h.knows q hq).mono hgrows
  · cases heffect with
    | stays htrip _ hsame =>
      simp only [htrip, Bool.false_eq_true, if_false, add_zero]
      exact (h.reached (hsame ▸ hopen)).imp_right hgrows.trans'
    | counts => exact (h.reached hopen).imp_right hgrows.trans'
    | opens hpo =>
      subst hpo
      exact .inr (h.knows _ hmem)
    | trips => exact .inl (Nat.succ_pos _)
    | recovers => cases hopen
  · cases heffect with
    | stays htrip hrecover hsame =>
      simp only [htrip, hrecover, Bool.false_eq_true, if_false, add_zero] at htrips hrecoveries
      exact hsame.trans (h.byHand hrecoveries htrips)
    | counts => exact h.byHand hrecoveries htrips
    | opens => rfl
    | trips => rfl
    | recovers => cases hrecoveries

/-- **When the breaker is open**: if failures are counted and nothing else, then, however the calls
have interleaved, the breaker is open when all threads have returned just if it was tripped by hand
or the threshold was reached, as long as nobody has called `recover` and there are not 2⁶⁴ failures.
-/
theorem open_iff_at_rest (hstrategy : cfg.tripStrategy = .failureCount)
    (hrun : (system cfg).Run (new stamp threads) acts s) (hmany : s.thrown < 2 ^ 64)
    (hrecoveries : s.recoveries = 0) (hrest : ∀ p ∈ s.callers, p = .idle) :
    s.breaker.state = .open ↔ 0 < s.trips ∨ limit cfg ≤ s.thrown := by
  have hsettled : s.thrown < 2 ^ 64 → s.Settled cfg := by
    refine hrun.invariant (motive := fun s ↦ s.thrown < 2 ^ 64 → s.Settled cfg) ?_ fun _ ↦ ?_
    · rintro s ⟨i, a⟩ s' h hs hmany
      obtain ⟨p, cb, p', -, -, hs'⟩ := step_cases hs
      have hthrown : s.thrown ≤ s'.thrown := hs' ▸ Nat.le_add_right _ _
      exact (h (by omega)).step hstrategy hs (by omega)
    · refine ⟨inv_new cfg stamp threads, fun p hp ↦ ?_, (fun h ↦ by cases h), fun _ h ↦ ?_⟩
      · rw [List.eq_of_mem_replicate hp]
        trivial
      · exact absurd h (lt_irrefl 0)
  have h := hsettled hmany
  have hcounted := h.counted
  rw [List.countP_eq_zero.2 fun p hp ↦ hrest p hp ▸ Bool.false_ne_true, add_zero] at hcounted
  constructor
  · intro hopen
    rw [← hcounted]
    exact h.reached hopen
  · rintro (htrips | hlimit)
    · exact h.byHand hrecoveries htrips
    · by_contra hclosed
      have hshut := h.shut hclosed
      rw [List.countP_eq_zero.2 fun p hp ↦ hrest p hp ▸ Bool.false_ne_true, hrecoveries] at hshut
      omega

/-- Of two threads that fail with a threshold of one, both trip the breaker. -/
theorem open_iff_at_rest_bothFail :
    ∃ s, (system { defaultConfig with tripStrategy := .failureCount, failureThreshold := 1 }).Run
        (new 0 2) bothFail s ∧ (s.breaker.state = .open ↔ 0 < s.trips ∨
          limit { defaultConfig with tripStrategy := .failureCount, failureThreshold := 1 } ≤
            s.thrown) := by
  obtain ⟨s, hrun, hthrown, hrecoveries, hrest⟩ : ∃ s, (system { defaultConfig with
      tripStrategy := .failureCount, failureThreshold := 1 }).Run (new 0 2) bothFail s ∧
        s.thrown = 2 ∧ s.recoveries = 0 ∧ ∀ p ∈ s.callers, p = .idle :=
    System.Run.exists_of_any (by decide +kernel)
  exact ⟨s, hrun, open_iff_at_rest rfl hrun (by omega) hrecoveries hrest⟩

end SharedBreaker
end ChwellCore
