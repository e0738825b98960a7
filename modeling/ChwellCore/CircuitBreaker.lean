import ChwellCore.Core.Bytes
import ChwellCore.Lib.Run
import Mathlib.Algebra.Order.Ring.Rat

/-!
# The circuit breaker

`DefaultCircuitBreaker` counts the failures of the calls it guards and stops letting calls through
once it has tripped.  Its three states are those of the textbook: `CLOSED` lets every call through,
`OPEN` none, and `HALF_OPEN` a few probes that decide which of the other two comes next.

The part of the textbook that would lead from `OPEN` to `HALF_OPEN` is `should_attempt_reset`, which
compares the time since the last failure with `timeout_ms`.  Nothing calls it, and nothing else
stores `HALF_OPEN`: `Reachable.state_ne_halfOpen` says that no run of any of the operations ever
gets there.  A tripped breaker therefore rejects every call until somebody calls `recover` or
`reset` by hand, however much time has passed.

A function can be run under a breaker by `execute` or by `execute_with_result`.  The second is
written out again in the header, and `runs_agree_iff` says for which breakers and calls it does the
same as the first.

The failure rate is a quotient of doubles compared with a configured double.  Nothing here depends
on how a double rounds, so `F` is any type with a conversion from the counters, a division and a
decidable order.
-/

set_option autoImplicit false

namespace ChwellCore

/-- `CircuitState`. -/
inductive CircuitState where
  | closed
  | open
  | halfOpen
deriving DecidableEq, Repr

/-- `TripStrategy`. -/
inductive TripStrategy where
  | failureCount
  | failureRate
  | failureCountOrRate
deriving DecidableEq, Repr

/-- `CircuitBreakerConfig`, over a type `F` of doubles. -/
structure CircuitBreakerConfig (F : Type) where
  tripStrategy : TripStrategy := .failureCountOrRate
  failureThreshold : UInt32 := 5
  failureRateThreshold : F
  timeoutMs : UInt64 := 60000
  halfOpenCalls : UInt64 := 3

/-- `CircuitBreakerResult`. -/
structure CircuitBreakerResult where
  success : Bool
  state : CircuitState
  reason : Bytes
  durationMs : UInt64
deriving DecidableEq, Repr

/-- What a guarded function does: it returns a value, it throws a `std::exception` with a `what()`
text, or it throws something else. -/
inductive FuncOutcome (T : Type) where
  | returns (value : T)
  | throwsStd (what : Bytes)
  | throwsOther

/-- The same with another value. -/
def FuncOutcome.map {T U : Type} (f : T → U) : FuncOutcome T → FuncOutcome U
  | returns v => returns (f v)
  | throwsStd what => throwsStd what
  | throwsOther => throwsOther

/-- What one call reads off the clock: how long the guarded function took, and the time stamp taken
when it fails. -/
structure Timing where
  elapsedMs : UInt64
  nowMs : UInt64

/-- The atomics of a `DefaultCircuitBreaker`. -/
structure DefaultCircuitBreaker where
  state : CircuitState
  failureCount : UInt64
  successCount : UInt64
  halfOpenCount : UInt32
  lastFailureTimeMs : UInt64
deriving DecidableEq, Repr

/-- What a guarded call leaves behind.  `result` is `none` when an exception that is not a
`std::exception` leaves the call, and `out` is the value stored through `out_result`. -/
structure Execution (T : Type) where
  breaker : DefaultCircuitBreaker
  invoked : Bool
  result : Option CircuitBreakerResult
  out : Option T

namespace DefaultCircuitBreaker

/-- A fresh breaker.  The constructor does not initialise `last_failure_time_ms_`, so its value is
an argument here. -/
def fresh (lastFailureTimeMs : UInt64) : DefaultCircuitBreaker :=
  ⟨.closed, 0, 0, 0, lastFailureTimeMs⟩

section Doubles

variable {F : Type} [Div F] [NatCast F] [LE F] [DecidableLE F] (cfg : CircuitBreakerConfig F)

/-- `get_failure_rate`. -/
def getFailureRate (cb : DefaultCircuitBreaker) : F :=
  let total := cb.failureCount + cb.successCount
  if total = 0 then ((0 : ℕ) : F)
  else (cb.failureCount.toNat : F) / (total.toNat : F)

/-- `should_trip`. -/
def shouldTrip (cb : DefaultCircuitBreaker) : Bool :=
  let failures := cb.failureCount
  let total := failures + cb.successCount
  match cfg.tripStrategy with
  | .failureCount => cfg.failureThreshold.toUInt64 ≤ failures
  | .failureRate =>
    if total < cfg.failureThreshold.toUInt64 then false
    else cfg.failureRateThreshold ≤ getFailureRate cb
  | .failureCountOrRate =>
    cfg.failureThreshold.toUInt64 ≤ failures ||
      (0 < total && cfg.failureRateThreshold ≤ getFailureRate (F := F) cb)

/-- `should_attempt_reset`, with the difference of the two time stamps taken in 64 bits. -/
def shouldAttemptReset (cb : DefaultCircuitBreaker) (nowMs : UInt64) : Bool :=
  if cb.state ≠ .open then false
  else cfg.timeoutMs ≤ nowMs - cb.lastFailureTimeMs

/-- `record_success`. -/
def recordSuccess (cb : DefaultCircuitBreaker) : DefaultCircuitBreaker :=
  { cb with
    successCount := cb.successCount + 1
    state := if cb.state = .halfOpen then .closed else cb.state }

/-- `record_failure`.  The failing branch of `execute` is the same sequence of stores. -/
def recordFailure (cb : DefaultCircuitBreaker) (nowMs : UInt64) : DefaultCircuitBreaker :=
  let cb' := { cb with failureCount := cb.failureCount + 1, lastFailureTimeMs := nowMs }
  if shouldTrip cfg cb' then { cb' with state := .open } else cb'

/-- `trip`. -/
def trip (cb : DefaultCircuitBreaker) (nowMs : UInt64) : DefaultCircuitBreaker :=
  { cb with state := .open, lastFailureTimeMs := nowMs }

/-- `recover`. -/
def recover (cb : DefaultCircuitBreaker) : DefaultCircuitBreaker := { cb with state := .closed }

/-- `reset`. -/
def reset (_ : DefaultCircuitBreaker) : DefaultCircuitBreaker := fresh 0

/-- A call turned away before the guarded function is invoked. -/
def rejected {T : Type} (cb : DefaultCircuitBreaker) (state : CircuitState) (reason : Bytes) :
    Execution T :=
  ⟨cb, false, some ⟨false, state, reason, 0⟩, none⟩

/-- `execute`. -/
def execute (cb : DefaultCircuitBreaker) (t : Timing) (func : FuncOutcome Unit) : Execution Unit :=
  if cb.state = .open then rejected cb cb.state (lit "Circuit breaker is OPEN")
  else
    let count := cb.halfOpenCount
    -- `fetch_add` happens whether or not the probe is then admitted
    let cb := if cb.state = .halfOpen then { cb with halfOpenCount := count + 1 } else cb
    if cb.state = .halfOpen ∧ cfg.halfOpenCalls ≤ count.toUInt64 then
      rejected cb cb.state (lit "Half-open calls exceeded")
    else
      match func with
      | .returns v =>
        -- `result.state` is read before a half-open breaker is closed
        ⟨recordSuccess cb, true, some ⟨true, cb.state, [], t.elapsedMs⟩, some v⟩
      | .throwsStd what =>
        ⟨recordFailure cfg cb t.nowMs, true,
          some ⟨false, cb.state, lit "Exception: " ++ what, t.elapsedMs⟩, none⟩
      | .throwsOther => ⟨cb, true, none, none⟩

/-- `execute_with_result`.  Unlike `execute` it neither counts nor limits half-open probes, and it
reads `result.state` after the outcome has been recorded. -/
def executeWithResult {T : Type} (cb : DefaultCircuitBreaker) (t : Timing) (func : FuncOutcome T) :
    Execution T :=
  if cb.state = .open then rejected cb cb.state (lit "Circuit breaker is OPEN")
  else
    match func with
    | .returns v =>
      ⟨recordSuccess cb, true, some ⟨true, (recordSuccess cb).state, [], t.elapsedMs⟩, some v⟩
    | .throwsStd what =>
      ⟨recordFailure cfg cb t.nowMs, true,
        some ⟨false, (recordFailure cfg cb t.nowMs).state, lit "Exception: " ++ what, t.elapsedMs⟩,
        none⟩
    | .throwsOther => ⟨cb, true, none, none⟩

/-! ## Runs -/

/-- The operations of a breaker, with the outcome of the guarded function and the clock readings. -/
inductive Op (T : Type) where
  | execute (t : Timing) (func : FuncOutcome Unit)
  | executeWithResult (t : Timing) (func : FuncOutcome T)
  | recordSuccess
  | recordFailure (nowMs : UInt64)
  | trip (nowMs : UInt64)
  | recover
  | reset

/-- The breaker after one operation. -/
def applyOp {T : Type} (cb : DefaultCircuitBreaker) : Op T → DefaultCircuitBreaker
  | .execute t func => (execute cfg cb t func).breaker
  | .executeWithResult t func => (executeWithResult cfg cb t func).breaker
  | .recordSuccess => recordSuccess cb
  | .recordFailure nowMs => recordFailure cfg cb nowMs
  | .trip nowMs => trip cb nowMs
  | .recover => recover cb
  | .reset => reset cb

/-- The breaker as a transition system. -/
def system (T : Type) : System DefaultCircuitBreaker (Op T) := .ofFun (applyOp cfg)

/-- The breaker after the operations `ops`, starting from a fresh one. -/
def Reachable {T : Type} (ops : List (Op T)) (cb : DefaultCircuitBreaker) : Prop :=
  ∃ stamp, (system cfg T).Run (fresh stamp) ops cb

variable {cfg}

theorem recordSuccess_state_ne (cb : DefaultCircuitBreaker) :
    (recordSuccess cb).state ≠ .halfOpen := by
  simp only [recordSuccess]
  split
  · simp
  · assumption

theorem recordFailure_state {cb : DefaultCircuitBreaker} (h : cb.state ≠ .halfOpen)
    (nowMs : UInt64) : (recordFailure cfg cb nowMs).state ≠ .halfOpen := by
  simp only [recordFailure]
  split
  · simp
  · exact h

/-- No operation stores `HALF_OPEN`. -/
theorem applyOp_state_ne_halfOpen {T : Type} {cb : DefaultCircuitBreaker} (h : cb.state ≠ .halfOpen)
    (op : Op T) : (applyOp cfg cb op).state ≠ .halfOpen := by
  cases op with
  | execute t func =>
    simp only [applyOp, execute, h, false_and, if_false]
    split
    · exact h
    · cases func with
      | returns v => exact recordSuccess_state_ne cb
      | throwsStd what => exact recordFailure_state h t.nowMs
      | throwsOther => exact h
  | executeWithResult t func =>
    simp only [applyOp, executeWithResult]
    split
    · exact h
    · cases func with
      | returns v => exact recordSuccess_state_ne cb
      | throwsStd what => exact recordFailure_state h t.nowMs
      | throwsOther => exact h
  | recordSuccess => exact recordSuccess_state_ne cb
  | recordFailure nowMs => exact recordFailure_state h nowMs
  | trip nowMs => exact fun he ↦ by cases he
  | recover => exact fun he ↦ by cases he
  | reset => exact fun he ↦ by cases he

/-- **The half-open state is never reached**, by any run of any of the operations. -/
theorem Reachable.state_ne_halfOpen {T : Type} {ops : List (Op T)} {cb : DefaultCircuitBreaker}
    (h : Reachable cfg ops cb) : cb.state ≠ .halfOpen := by
  obtain ⟨stamp, hrun⟩ := h
  refine hrun.invariant (motive := fun cb ↦ cb.state ≠ .halfOpen) ?_ (by simp [fresh])
  rintro s op _ hs rfl
  exact applyOp_state_ne_halfOpen hs op

omit [Div F] [NatCast F] [LE F] [DecidableLE F] in
/-- `should_attempt_reset` answers yes once `timeout_ms` have passed since the last failure. -/
theorem shouldAttemptReset_of_le {cb : DefaultCircuitBreaker} {nowMs : UInt64}
    (hopen : cb.state = .open)
    (hpast : cb.lastFailureTimeMs.toNat + cfg.timeoutMs.toNat ≤ nowMs.toNat) :
    shouldAttemptReset cfg cb nowMs = true := by
  have hle : cb.lastFailureTimeMs ≤ nowMs := UInt64.le_iff_toNat_le.2 (by omega)
  simp only [shouldAttemptReset, hopen, ne_eq, not_true_eq_false, if_false, decide_eq_true_eq]
  rw [UInt64.le_iff_toNat_le, UInt64.toNat_sub_of_le _ _ hle]
  omega

/-- An open breaker turns every call away unchanged. -/
theorem execute_of_open {cb : DefaultCircuitBreaker} (hopen : cb.state = .open) (t : Timing)
    (func : FuncOutcome Unit) :
    execute cfg cb t func = rejected cb .open (lit "Circuit breaker is OPEN") := by
  rw [execute, if_pos hopen, hopen]

variable (cfg)

/-- What an open breaker owes its callers once the timeout is over: the next call is let through as
a probe, in the half-open state. -/
def ProbesAt (cb : DefaultCircuitBreaker) (t : Timing) (func : FuncOutcome Unit) : Prop :=
  (execute cfg cb t func).invoked = true

variable {cfg}

/-- **An open breaker never probes.**  In every run, at every time at which the breaker is open and
its timeout has passed, `should_attempt_reset` would say yes, and the next call is rejected all the
same, without the guarded function being invoked.  Nor does the breaker pass to the half-open state
at any later point of the run. -/
theorem open_not_probesAt {T : Type} {ops : List (Op T)} {cb : DefaultCircuitBreaker}
    (hreach : Reachable cfg ops cb) (hopen : cb.state = .open) (t : Timing)
    (hpast : cb.lastFailureTimeMs.toNat + cfg.timeoutMs.toNat ≤ t.nowMs.toNat)
    (func : FuncOutcome Unit) :
    shouldAttemptReset cfg cb t.nowMs = true ∧ ¬ ProbesAt cfg cb t func ∧
      ∀ (ops' : List (Op T)) (cb' : DefaultCircuitBreaker),
        (system cfg T).Run (execute cfg cb t func).breaker ops' cb' → cb'.state ≠ .halfOpen := by
  refine ⟨shouldAttemptReset_of_le hopen hpast, ?_, ?_⟩
  · rw [ProbesAt, execute_of_open hopen]
    simp [rejected]
  · intro ops' cb' hrun
    obtain ⟨stamp, hbefore⟩ := hreach
    have hcall : (system cfg T).step cb (.execute t func) (execute cfg cb t func).breaker := rfl
    exact Reachable.state_ne_halfOpen ⟨stamp, (hbefore.snoc hcall).append hrun⟩

end Doubles

/-! ## The two ways to run under a breaker -/

section Agreement

variable {F : Type} [Div F] [NatCast F] [LE F] [DecidableLE F] {cfg : CircuitBreakerConfig F}
  {T : Type} {cb : DefaultCircuitBreaker}

/-- The two calls do the same: both invoke the function or neither does, they report the same
success and the same state, and leave the same breaker. -/
structure Agree (e : Execution Unit) (e' : Execution T) : Prop where
  invoked : e.invoked = e'.invoked
  success : e.result.map CircuitBreakerResult.success = e'.result.map CircuitBreakerResult.success
  state : e.result.map CircuitBreakerResult.state = e'.result.map CircuitBreakerResult.state
  breaker : e.breaker = e'.breaker

theorem halfOpenCount_recordFailure (nowMs : UInt64) :
    (recordFailure cfg cb nowMs).halfOpenCount = cb.halfOpenCount := by
  rw [recordFailure]
  split <;> rfl

/-- `execute_with_result` leaves the count of the probes alone. -/
theorem halfOpenCount_executeWithResult (t : Timing) (func : FuncOutcome T) :
    (executeWithResult cfg cb t func).breaker.halfOpenCount = cb.halfOpenCount := by
  simp only [executeWithResult]
  split
  · rfl
  · rcases func with v | what | -
    · rfl
    · exact halfOpenCount_recordFailure t.nowMs
    · rfl

/-- `execute` counts every call in the half-open state. -/
theorem halfOpenCount_execute (hstate : cb.state = .halfOpen) (t : Timing)
    (func : FuncOutcome Unit) :
    (execute cfg cb t func).breaker.halfOpenCount = cb.halfOpenCount + 1 := by
  simp only [execute, hstate, reduceCtorEq, if_false, if_true, true_and]
  split
  · rfl
  · rcases func with v | what | -
    · rfl
    · exact halfOpenCount_recordFailure t.nowMs
    · rfl

/-- A failure trips the breaker or leaves its state alone. -/
theorem state_recordFailure (nowMs : UInt64) :
    (recordFailure cfg cb nowMs).state =
      if shouldTrip cfg { cb with failureCount := cb.failureCount + 1 } then .open else cb.state :=
  apply_ite state _ _ _

/-- A function that returns changes nothing that a closed breaker reports. -/
theorem agree_returns (hstate : cb.state = .closed) (t : Timing) (v : T) :
    Agree (execute cfg cb t (.returns ())) (executeWithResult cfg cb t (.returns v)) := by
  simp only [execute, executeWithResult, hstate, reduceCtorEq, if_false, false_and]
  refine ⟨rfl, rfl, ?_, rfl⟩
  simp only [Option.map_some, recordSuccess, hstate, reduceCtorEq, if_false]

/-- `execute_with_result` reports the state that a failure leads to, `execute` the one before. -/
theorem agree_throwsStd_iff (hstate : cb.state = .closed) (t : Timing) (what : Bytes) :
    Agree (execute cfg cb t (.throwsStd what)) (executeWithResult cfg cb t (.throwsStd what) :
        Execution T) ↔
      shouldTrip cfg { cb with failureCount := cb.failureCount + 1 } = false := by
  have hreport : Agree (execute cfg cb t (.throwsStd what))
      (executeWithResult cfg cb t (.throwsStd what) : Execution T) ↔
        some CircuitState.closed = some (recordFailure cfg cb t.nowMs).state := by
    simp only [execute, executeWithResult, hstate, reduceCtorEq, if_false, false_and]
    exact ⟨fun h ↦ h.state, fun h ↦ ⟨rfl, rfl, h, rfl⟩⟩
  rw [hreport, Option.some_inj, state_recordFailure]
  cases shouldTrip cfg { cb with failureCount := cb.failureCount + 1 } <;> simp [hstate]

theorem agree_throwsOther (hstate : cb.state = .closed) (t : Timing) :
    Agree (execute cfg cb t .throwsOther) (executeWithResult cfg cb t .throwsOther :
      Execution T) := by
  simp only [execute, executeWithResult, hstate, reduceCtorEq, if_false, false_and]
  exact ⟨rfl, rfl, rfl, rfl⟩

variable (cfg cb) in
/-- **When the two ways to run agree**: if the breaker is open, or if it is closed and this call
does not trip it. -/
theorem runs_agree_iff (t : Timing) (func : FuncOutcome T) :
    Agree (execute cfg cb t (func.map fun _ ↦ ())) (executeWithResult cfg cb t func) ↔
      cb.state = .open ∨ cb.state = .closed ∧ ∀ what, func = .throwsStd what →
        shouldTrip cfg { cb with failureCount := cb.failureCount + 1 } = false := by
  obtain hopen | hclosed | hhalf :
      cb.state = .open ∨ cb.state = .closed ∨ cb.state = .halfOpen := by cases cb.state <;> simp
  · refine iff_of_true ?_ (.inl hopen)
    rw [execute_of_open hopen, executeWithResult.eq_def, if_pos hopen, hopen]
    exact ⟨rfl, rfl, rfl, rfl⟩
  · have hne : cb.state ≠ .open := by rw [hclosed]; nofun
    rw [or_iff_right hne, and_iff_right hclosed]
    rcases func with v | what | -
    · exact iff_of_true (agree_returns hclosed t v) nofun
    · refine (agree_throwsStd_iff hclosed t what).trans ⟨fun h _ _ ↦ h, fun h ↦ h what rfl⟩
    · exact iff_of_true (agree_throwsOther hclosed t) nofun
  · refine iff_of_false (fun h ↦ ?_) (by simp [hhalf])
    have hcount := congrArg halfOpenCount h.breaker
    rw [halfOpenCount_execute hhalf, halfOpenCount_executeWithResult] at hcount
    simp at hcount

/-- Where the half-open state cannot be reached, the two ways leave the same breaker. -/
theorem Reachable.breaker_eq {U : Type} {ops : List (Op U)} (h : Reachable cfg ops cb) (t : Timing)
    (func : FuncOutcome T) :
    (execute cfg cb t (func.map fun _ ↦ ())).breaker =
      (executeWithResult cfg cb t func).breaker := by
  have hne := h.state_ne_halfOpen
  simp only [execute, executeWithResult, hne, if_false, false_and]
  split
  · rfl
  · rcases func with v | what | - <;> rfl

end Agreement

/-! ## A tripped breaker with the default configuration -/

/-- The default configuration, with the failure rate threshold read as a rational. -/
def defaultConfig : CircuitBreakerConfig ℚ := { failureRateThreshold := 1 / 2 }

theorem reachable_trip (T : Type) :
    Reachable (T := T) defaultConfig [.trip 1000] (trip (fresh 0) 1000) :=
  ⟨0, .single rfl⟩

theorem open_not_probesAt_tripped :
    Reachable (T := Unit) defaultConfig [.trip 1000] (trip (fresh 0) 1000) ∧
      ¬ ProbesAt defaultConfig (trip (fresh 0) 1000) ⟨0, 61000⟩ (.returns ()) :=
  ⟨reachable_trip Unit, (open_not_probesAt (reachable_trip Unit) rfl ⟨0, 61000⟩ (by decide) _).2.1⟩

/-- Tripped at 1000 ms, the breaker still turns a call away at 61000 ms. -/
theorem not_forall_open_probesAt :
    ¬ ∀ (ops : List (Op Unit)) (cb : DefaultCircuitBreaker), Reachable defaultConfig ops cb →
      cb.state = .open → ∀ t : Timing,
        cb.lastFailureTimeMs.toNat + defaultConfig.timeoutMs.toNat ≤ t.nowMs.toNat →
          ∀ func, ProbesAt defaultConfig cb t func := by
  intro h
  have hprobe := h [.trip 1000] _ (reachable_trip Unit) rfl ⟨0, 61000⟩ (by decide) (.returns ())
  rw [ProbesAt, execute_of_open rfl] at hprobe
  cases hprobe

/-! ## A breaker that the two calls see differently -/

/-- The first failure trips a breaker with a threshold of one; `execute` still reports `CLOSED`. -/
theorem not_forall_agree :
    ¬ ∀ (cfg : CircuitBreakerConfig ℚ) (cb : DefaultCircuitBreaker) (t : Timing)
      (func : FuncOutcome ℤ), func ≠ .throwsOther →
        Agree (execute cfg cb t (func.map fun _ ↦ ())) (executeWithResult cfg cb t func) := by
  intro h
  have hagree := h { defaultConfig with failureThreshold := 1 } (fresh 0) ⟨3, 1000⟩
    (.throwsStd (lit "timeout")) nofun
  exact absurd hagree.state (by decide)

end DefaultCircuitBreaker
end ChwellCore
