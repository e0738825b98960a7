import ChwellCore.CircuitBreaker
import ChwellCore.Rpc.RpcClient

/-!
# What the breaker of an RPC client counts

A client with a circuit breaker asks it for its state before it lets a call through, and reports to
it every request that the sweep finds expired, by having it execute a function that throws.  It
never reports a success: `on_message` answers a call and says nothing to the breaker.  Nor does a
report reach the counter of an open breaker, which rejects the function unexecuted, and the sweep
that trips a breaker goes on to report the rest of what it found.

`BreakerClient` is the client with all its threads and the breaker beside it, and `Counts` says that
the counters are what happened.  `counts_iff` is when they are, in every state of a run: when no
call is ever answered and no expired request comes to a breaker that is open already.
-/

set_option autoImplicit false

namespace ChwellCore
namespace Rpc

open DefaultCircuitBreaker (fresh execute recordFailure)

/-- The calls that were answered. -/
def World.answered (w : World) : ℕ := w.settled.countP Settlement.ok

/-- A step that answers a call. -/
def Act.isAnswer : Act → Bool
  | .answer _ => true
  | .connect | .call _ _ _ _ | .permit _ _ | .insert _ _ | .send _ | .receive _ _ | .take _
  | .onDisconnect | .fail _ | .disconnect | .join _ | .close _ | .swap _ | .notify _ | .return _
  | .wake _ | .expire => false

/-- A step that lets a call through. -/
def Act.admits : Act → Bool
  | .permit _ allowed => allowed
  | .connect | .call _ _ _ _ | .insert _ _ | .send _ | .receive _ _ | .take _ | .answer _
  | .onDisconnect | .fail _ | .disconnect | .join _ | .close _ | .swap _ | .notify _ | .return _
  | .wake _ | .expire => false

/-- Only the loop of `on_message` answers calls, one at a time. -/
theorem World.answered_step {w w' : World} {a : Act} (hs : World.Step w a w') :
    w'.answered = w.answered + if a.isAnswer then 1 else 0 := by
  have hsettle : ∀ (callback : RpcCallback) (ok : Bool) (response : Protocol.Message),
      (w.settled ++ [(⟨callback, ok, response⟩ : Settlement)]).countP Settlement.ok =
        w.settled.countP Settlement.ok + if ok then 1 else 0 := by
    intro callback ok response
    rw [List.countP_append, List.countP_singleton]
  cases hs with
  | answer hp => exact hsettle _ true _
  | callRefused cmd data present timeout | reject hp | fail hp | notify hp | expire hc =>
    exact hsettle _ false _
  | _ => rfl

/-- A client with a circuit breaker, and how many requests the sweep has removed and dealt with. -/
structure BreakerClient where
  world : World
  breaker : DefaultCircuitBreaker
  removed : ℕ

/-- A request that the sweep has removed is dealt with next. -/
def World.expires (w : World) : Act → Bool
  | .expire =>
    match w.cleanup with
    | .expiring (_ :: _) => true
    | _ => false
  | _ => false

namespace BreakerClient

section Doubles

variable {F : Type} [Div F] [NatCast F] [LE F] [DecidableLE F] (cfg : CircuitBreakerConfig F)
  (defaultTimeoutSeconds : Int32)

/-- `circuit_breaker_->execute` of `cleanup_expired_requests`. -/
def report (breaker : DefaultCircuitBreaker) (t : Timing) : DefaultCircuitBreaker :=
  (execute cfg breaker t (.throwsStd (lit "rpc timeout"))).breaker

/-- What a report does to the counters. -/
theorem report_counts {breaker : DefaultCircuitBreaker} (h : breaker.state ≠ .halfOpen)
    (t : Timing) :
    (report cfg breaker t).successCount = breaker.successCount ∧
      (report cfg breaker t).failureCount =
        if breaker.state = .open then breaker.failureCount else breaker.failureCount + 1 := by
  simp only [report, execute, h, false_and, if_false]
  split
  · exact ⟨rfl, rfl⟩
  · simp only [recordFailure]
    split <;> exact ⟨rfl, rfl⟩

/-- A step of the client, with what a report reads off the clock.  An open breaker lets no call
through. -/
def step (x : BreakerClient) (l : Act × Timing) : Option BreakerClient :=
  if l.1.admits = true ∧ x.breaker.state = .open then none
  else
    (World.step defaultTimeoutSeconds x.world l.1).map fun w ↦
      if x.world.expires l.1 then ⟨w, report cfg x.breaker l.2, x.removed + 1⟩
      else { x with world := w }

def system : System BreakerClient (Act × Timing) :=
  System.ofPartial (step cfg defaultTimeoutSeconds)

/-- A client that has not been used, with a breaker of its own. -/
def start (lastFailureTimeMs : UInt64) : BreakerClient := ⟨.fresh, fresh lastFailureTimeMs, 0⟩

/-- The counters are what happened: a success for each call answered, and a failure for each request
that the sweep removed. -/
def Counts (x : BreakerClient) : Prop :=
  x.breaker.successCount.toNat = x.world.answered ∧ x.breaker.failureCount.toNat = x.removed

/-- The step answers no call, and if it deals with a request that the sweep has removed, the breaker
is not open and its counter not at its end. -/
def Countable (x : BreakerClient) (l : Act × Timing) : Prop :=
  l.1.isAnswer = false ∧
    (x.world.expires l.1 = true → x.breaker.state ≠ .open ∧ x.removed + 1 < 2 ^ 64)

instance (x : BreakerClient) (l : Act × Timing) : Decidable (x.Countable l) :=
  inferInstanceAs (Decidable (_ ∧ _))

variable {cfg defaultTimeoutSeconds} {x x' : BreakerClient} {l : Act × Timing}

theorem report_state {breaker : DefaultCircuitBreaker} (h : breaker.state ≠ .halfOpen)
    (t : Timing) : (report cfg breaker t).state ≠ .halfOpen :=
  DefaultCircuitBreaker.applyOp_state_ne_halfOpen (T := Unit) h (.execute t _)

/-- A step of the client, and the report that goes with it. -/
theorem step_cases (hs : step cfg defaultTimeoutSeconds x l = some x') :
    World.Step x.world l.1 x'.world ∧
      ((x.world.expires l.1 = true ∧ x'.breaker = report cfg x.breaker l.2 ∧
        x'.removed = x.removed + 1) ∨
      (x.world.expires l.1 = false ∧ x'.breaker = x.breaker ∧ x'.removed = x.removed)) := by
  rw [step, Option.ite_none_left_eq_some, Option.map_eq_some_iff] at hs
  obtain ⟨-, w, hw, rfl⟩ := hs
  split
  · next hexp => exact ⟨World.step_cases hw, .inl ⟨hexp, rfl, rfl⟩⟩
  · next hexp => exact ⟨World.step_cases hw, .inr ⟨Bool.eq_false_iff.2 hexp, rfl, rfl⟩⟩

theorem state_step (h : x.breaker.state ≠ .halfOpen)
    (hs : step cfg defaultTimeoutSeconds x l = some x') : x'.breaker.state ≠ .halfOpen := by
  rcases (step_cases hs).2 with ⟨-, hbreaker, -⟩ | ⟨-, hbreaker, -⟩
  · rw [hbreaker]
    exact report_state h l.2
  · rwa [hbreaker]

/-- A sweep answers nobody. -/
theorem expires_isAnswer {w : World} {a : Act} (h : w.expires a = true) : a.isAnswer = false := by
  cases a with
  | expire => rfl
  | _ => cases h

/-- **The counters are right after a step just if it is countable.** -/
theorem counts_step_iff (h : x.Counts) (hstate : x.breaker.state ≠ .halfOpen)
    (hs : step cfg defaultTimeoutSeconds x l = some x') : x'.Counts ↔ x.Countable l := by
  obtain ⟨hworld, hcases⟩ := step_cases hs
  have hanswered := World.answered_step hworld
  obtain ⟨hsuccess, hfailure⟩ := h
  rcases hcases with ⟨hexp, hbreaker, hremoved⟩ | ⟨hexp, hbreaker, hremoved⟩
  · have hno := expires_isAnswer hexp
    obtain ⟨hs', hf'⟩ := report_counts cfg hstate l.2
    rw [Counts, Countable, hbreaker, hremoved, hanswered, hs', hf', hno, hexp, hsuccess]
    simp only [Bool.false_eq_true, if_false, add_zero, true_and, true_implies]
    split
    · next hopen =>
      rw [hfailure]
      exact iff_of_false (by omega) fun hno ↦ hno.1 hopen
    · next hopen =>
      rw [UInt64.toNat_add, hfailure]
      have hone : (1 : UInt64).toNat = 1 := rfl
      rw [hone]
      constructor
      · intro hmod
        refine ⟨hopen, ?_⟩
        omega
      · rintro ⟨-, hlt⟩
        exact Nat.mod_eq_of_lt hlt
  · rw [Counts, Countable, hbreaker, hremoved, hanswered, hexp, hsuccess]
    simp only [Bool.false_eq_true, false_implies, and_true, hfailure]
    rcases l.1.isAnswer with _ | _
    · simp
    · simp

/-- **When the breaker counts what happened.**  In a run of a client and its breaker, the counters
are right in every state if and only if no step answers a call, and no request that the sweep has
removed is dealt with when the breaker is open or its counter at its end. -/
theorem counts_iff {lastFailureTimeMs : UInt64} {ls : List (Act × Timing)}
    (hrun : (system cfg defaultTimeoutSeconds).Run (start lastFailureTimeMs) ls x) :
    (system cfg defaultTimeoutSeconds).Along (fun _ _ y ↦ y.Counts) (start lastFailureTimeMs) ls ↔
      ((system cfg defaultTimeoutSeconds).guarded Countable).Run (start lastFailureTimeMs) ls
        x := by
  refine System.along_iff (P := fun x ↦ x.Counts ∧ x.breaker.state ≠ .halfOpen) ?_ ?_ ?_ hrun
  · rintro s l t ⟨hcounts, hstate⟩ hs
    exact counts_step_iff hcounts hstate hs
  · rintro s l t ⟨-, hstate⟩ hs hcounts
    exact ⟨hcounts, state_step hstate hs⟩
  · exact ⟨⟨rfl, rfl⟩, by simp [start, fresh]⟩

end Doubles

/-- A step, with clock readings that do not matter. -/
def untimed (a : Act) : Act × Timing := (a, ⟨0, 0⟩)

/-- One call that nobody answers. -/
def oneTimeout : List (Act × Timing) :=
  ([.connect, .call 1 [] true 5, .permit 0 true, .insert 0 0, .send 0, .wake 5000000000, .expire,
    .expire] : List Act).map untimed

theorem counts_iff_oneTimeout :
    ∃ x, (system DefaultCircuitBreaker.defaultConfig 5).Run (start 0) oneTimeout x ∧
      x.removed = 1 ∧
      (system DefaultCircuitBreaker.defaultConfig 5).Along (fun _ _ y ↦ y.Counts) (start 0)
        oneTimeout := by
  obtain ⟨x, hrun, hremoved⟩ : ∃ x, ((system DefaultCircuitBreaker.defaultConfig 5).guarded
      Countable).Run (start 0) oneTimeout x ∧ x.removed = 1 :=
    System.Run.exists_of_any_guarded (by decide +kernel)
  exact ⟨x, hrun.of_guarded, hremoved, (counts_iff hrun.of_guarded).2 hrun⟩

/-- One call that is answered. -/
def oneAnswer : List (Act × Timing) :=
  ([.connect, .call 1 [] true 5, .permit 0 true, .insert 0 0, .send 0,
    .receive 0 (Protocol.serialize ⟨1, encodeRpcBody 1 []⟩), .take 1, .answer 1] :
      List Act).map untimed

/-- Two calls that nobody answers, found by one sweep. -/
def twoTimeouts : List (Act × Timing) :=
  ([.connect, .call 1 [] true 5, .permit 0 true, .insert 0 0, .send 0, .call 1 [] true 5,
    .permit 1 true, .insert 1 0, .send 1, .wake 5000000000, .expire, .expire] :
      List Act).map untimed

/-- A call that is answered is no success to the breaker, and of two requests that one sweep
removes it counts the first, which trips it. -/
theorem miscounted :
    (∃ x, (system DefaultCircuitBreaker.defaultConfig 5).Run (start 0) oneAnswer x ∧
      x.world.answered = 1 ∧ x.breaker.successCount = 0) ∧
    ∃ x, (system DefaultCircuitBreaker.defaultConfig 5).Run (start 0) twoTimeouts x ∧
      x.removed = 2 ∧ x.breaker.failureCount = 1 := by
  constructor
  · exact System.Run.exists_of_any (by decide +kernel)
  · exact System.Run.exists_of_any (by decide +kernel)

end BreakerClient

end Rpc
end ChwellCore
