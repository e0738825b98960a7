import ChwellCore.Lib.Pool
import ChwellCore.RateLimit.FixedWindow

/-!
# What a call costs

`RpcClient::call` asks its rate limiter with `check("rpc")` whether it may go on, and then takes its
permit with `consume("rpc")`.  But in each of the three limiters `check` has taken a permit already:
in the two buckets it is `consume` and a look at what is left, and in the fixed window `consume` is
`check`.  A call that passes takes two permits, or one and fails to take another, which nobody
notices because the answer of `consume` is thrown away.

A `Limiter` is what a limiter does to the permits of `"rpc"`, one locked section at a time, and
`LimitedCalls` are the calls of any number of threads on it, between the breaker and `fetch_add`.
`permits_iff` says when each of them costs what it should: when there is nothing left for `consume`
each time it is called.
-/

set_option autoImplicit false

namespace ChwellCore
namespace Rpc

/-- The locked sections that `check("rpc")` and `consume("rpc")` are made of, over the readings `ρ`
that they take off the clock: a permit is taken, if one is found, and the permits left may be looked
at.  `found` and `left` are the permits before and after. -/
structure Limiter (ρ σ : Type) where
  take : ρ → σ → Bool × σ
  look : ℤ → σ → σ
  found : ρ → σ → ℤ
  left : σ → ℤ
  take_fst : ∀ t s, (take t s).1 = decide (0 < found t s)
  left_take : ∀ t s, left (take t s).2 = found t s - if 0 < found t s then 1 else 0

/-- The key. -/
def rpcKey : Bytes := lit "rpc"

/-! ## The three limiters -/

/-- The bucket of the key as a section finds it; the readings are for its creation and for the
topping up. -/
def foundBucket (capacity : ℤ) (topUp : ℤ → Bucket → Bucket) (t : ℤ × ℤ) (s : Buckets) : Bucket :=
  topUp t.2 ((s.lookup rpcKey).getD ⟨capacity, t.1⟩)

/-- The tokens that are stored for the key. -/
def storedTokens (s : Buckets) : ℤ := ((s.lookup rpcKey).map Bucket.tokens).getD 0

theorem consume_bucket (capacity : ℤ) (topUp : ℤ → Bucket → Bucket) (t : ℤ × ℤ) (s : Buckets) :
    (Buckets.consume capacity topUp t.1 t.2 rpcKey 1 s).1 =
        decide (0 < (foundBucket capacity topUp t s).tokens) ∧
      storedTokens (Buckets.consume capacity topUp t.1 t.2 rpcKey 1 s).2 =
        (foundBucket capacity topUp t s).tokens -
          if 0 < (foundBucket capacity topUp t s).tokens then 1 else 0 := by
  have hfound : topUp t.2 ((s.lookup rpcKey).getD ⟨capacity, t.1⟩) =
      foundBucket capacity topUp t s := rfl
  simp only [Buckets.consume, hfound]
  split
  · next h =>
    have hpos : 0 < (foundBucket capacity topUp t s).tokens := by omega
    rw [storedTokens, AList.lookup_insert, if_pos hpos]
    exact ⟨(decide_eq_true hpos).symm, rfl⟩
  · next h =>
    have hnone : ¬ 0 < (foundBucket capacity topUp t s).tokens := by omega
    rw [storedTokens, AList.lookup_insert, if_neg hnone, sub_zero]
    exact ⟨(decide_eq_false hnone).symm, rfl⟩

/-- The sections of a limiter with buckets. -/
def bucketLimiter (capacity : ℤ) (topUp : ℤ → Bucket → Bucket) : Limiter (ℤ × ℤ) Buckets where
  take t s := Buckets.consume capacity topUp t.1 t.2 rpcKey 1 s
  look now s := (Buckets.getRemaining capacity topUp now rpcKey s).2
  found t s := (foundBucket capacity topUp t s).tokens
  left := storedTokens
  take_fst t s := (consume_bucket capacity topUp t s).1
  left_take t s := (consume_bucket capacity topUp t s).2

/-- `TokenBucketRateLimiter`. -/
def tokenBucketLimiter (capacity : ℤ) (refillRatePerSecond : ℚ) : Limiter (ℤ × ℤ) Buckets :=
  bucketLimiter capacity (refillTokens capacity refillRatePerSecond)

/-- `LeakyBucketRateLimiter`. -/
def leakyBucketLimiter (capacity : ℤ) (leakRatePerSecond : ℚ) : Limiter (ℤ × ℤ) Buckets :=
  bucketLimiter capacity (leakTokens capacity leakRatePerSecond)

/-- The requests that are counted for the key. -/
def storedCount (s : Windows) : ℤ := ((s.lookup rpcKey).map Window.count).getD 0

theorem consume_window (maxRequests windowSizeMs : ℤ) (t : WindowReadings) (s : Windows) :
    (Windows.consume maxRequests windowSizeMs t rpcKey 1 s).1 =
        decide (0 < maxRequests - (Windows.current windowSizeMs t rpcKey s).count) ∧
      maxRequests - storedCount (Windows.consume maxRequests windowSizeMs t rpcKey 1 s).2 =
        maxRequests - (Windows.current windowSizeMs t rpcKey s).count -
          if 0 < maxRequests - (Windows.current windowSizeMs t rpcKey s).count then 1 else 0 := by
  rw [Windows.consume, Windows.check]
  dsimp only
  split
  · next h =>
    have hpos : 0 < maxRequests - (Windows.current windowSizeMs t rpcKey s).count := by omega
    rw [storedCount, AList.lookup_insert, if_pos hpos]
    refine ⟨(decide_eq_true hpos).symm, ?_⟩
    simp only [Option.map_some, Option.getD_some]
    omega
  · next h =>
    have hnone : ¬ 0 < maxRequests - (Windows.current windowSizeMs t rpcKey s).count := by omega
    rw [storedCount, AList.lookup_insert, if_neg hnone, sub_zero]
    exact ⟨(decide_eq_false hnone).symm, rfl⟩

/-- `FixedWindowRateLimiter`, whose `check` is one section. -/
def fixedWindowLimiter (maxRequests windowSizeMs : ℤ) : Limiter WindowReadings Windows where
  take t s := Windows.consume maxRequests windowSizeMs t rpcKey 1 s
  look _ s := s
  found t s := maxRequests - (Windows.current windowSizeMs t rpcKey s).count
  left s := maxRequests - storedCount s
  take_fst t s := (consume_window maxRequests windowSizeMs t s).1
  left_take t s := (consume_window maxRequests windowSizeMs t s).2

/-- `check` and `consume` of the buckets are made of these sections. -/
theorem bucket_sections (capacity : ℤ) (rate : ℚ) (created consumed now : ℤ) (s : Buckets) :
    ((TokenBucketRateLimiter capacity rate).check created consumed now rpcKey s).1.allowed =
        ((tokenBucketLimiter capacity rate).take (created, consumed) s).1 ∧
      ((TokenBucketRateLimiter capacity rate).check created consumed now rpcKey s).2 =
        (tokenBucketLimiter capacity rate).look now
          ((tokenBucketLimiter capacity rate).take (created, consumed) s).2 ∧
      (TokenBucketRateLimiter capacity rate).consume created now rpcKey 1 s =
        (tokenBucketLimiter capacity rate).take (created, now) s ∧
      TokenBucketRateLimiter capacity rate = LeakyBucketRateLimiter capacity rate :=
  ⟨rfl, rfl, rfl, rfl⟩

/-- And those of the fixed window. -/
theorem window_sections (maxRequests windowSizeMs now : ℤ) (t : WindowReadings) (s : Windows) :
    (Windows.check maxRequests windowSizeMs t rpcKey s).1.allowed =
        ((fixedWindowLimiter maxRequests windowSizeMs).take t s).1 ∧
      (Windows.check maxRequests windowSizeMs t rpcKey s).2 =
        (fixedWindowLimiter maxRequests windowSizeMs).look now
          ((fixedWindowLimiter maxRequests windowSizeMs).take t s).2 :=
  ⟨rfl, rfl⟩

/-! ## The calls -/

/-- A call that is under way, and the permits it has taken. -/
inductive Caller where
  /-- In `check`, before the look at what is left. -/
  | checked (allowed : Bool) (permits : ℤ)
  /-- Between `check` and `consume`. -/
  | passed (permits : ℤ)
  | done
deriving DecidableEq, Repr

/-- A call that the limiter is done with: whether it has passed, and the permits it has taken. -/
structure CallRecord where
  passed : Bool
  permits : ℤ
deriving DecidableEq, Repr

/-- One permit for a call that passes, and none for one that is refused. -/
def CallRecord.Fair (e : CallRecord) : Prop := e.permits = if e.passed then 1 else 0

instance (e : CallRecord) : Decidable e.Fair := inferInstanceAs (Decidable (_ = _))

/-- A limiter, the calls under way, and those that are over. -/
structure LimitedCalls (σ : Type) where
  limiter : σ
  callers : Pool Caller
  log : List CallRecord

/-- A step of a call. -/
inductive LimiterStep (ρ : Type) where
  /-- A call begins, with the first section of `check`. -/
  | check (t : ρ)
  /-- The rest of `check`, and what `call` makes of its answer. -/
  | look (i : ℕ) (now : ℤ)
  | consume (i : ℕ) (t : ρ)

namespace LimitedCalls

variable {ρ σ : Type} (L : Limiter ρ σ)

/-- The permits that a section takes. -/
def spent (t : ρ) (s : σ) : ℤ := L.found t s - L.left (L.take t s).2

/-- One step; `none` if the call is not at that point. -/
def step (x : LimitedCalls σ) : LimiterStep ρ → Option (LimitedCalls σ)
  | .check t =>
    some { x with
      limiter := (L.take t x.limiter).2
      callers := x.callers.spawn (.checked (L.take t x.limiter).1 (spent L t x.limiter)) }
  | .look i now =>
    match x.callers[i]? with
    | some (.checked true permits) =>
      some { x with
        limiter := L.look now x.limiter
        callers := x.callers.put i (.passed permits) }
    | some (.checked false permits) =>
      some { x with
        limiter := L.look now x.limiter
        callers := x.callers.put i .done
        log := x.log ++ [⟨false, permits⟩] }
    | _ => none
  | .consume i t =>
    match x.callers[i]? with
    | some (.passed permits) =>
      some { x with
        limiter := (L.take t x.limiter).2
        callers := x.callers.put i .done
        log := x.log ++ [⟨true, permits + spent L t x.limiter⟩] }
    | _ => none

def system : System (LimitedCalls σ) (LimiterStep ρ) := System.ofPartial (step L)

/-- No call has been made. -/
def start (s : σ) : LimitedCalls σ := ⟨s, [], []⟩

/-- If the step is a `consume`, there is no permit left for it. -/
def Exhausted (x : LimitedCalls σ) : LimiterStep ρ → Prop
  | .consume _ t => L.found t x.limiter ≤ 0
  | .check _ | .look _ _ => True

instance (x : LimitedCalls σ) (l : LimiterStep ρ) : Decidable (x.Exhausted L l) :=
  match l with
  | .consume _ _ => inferInstanceAs (Decidable (_ ≤ _))
  | .check _ | .look _ _ => .isTrue trivial

/-- Every call that is over has cost what it should. -/
def Fair (x : LimitedCalls σ) : Prop := ∀ e ∈ x.log, e.Fair

variable {L} {x x' : LimitedCalls σ} {l : LimiterStep ρ}

/-- A section that finds a permit takes it. -/
theorem spent_eq (t : ρ) (s : σ) : spent L t s = if 0 < L.found t s then 1 else 0 := by
  rw [spent, L.left_take]
  omega

/-- What a call under way has taken: one permit, if `check` has found one. -/
def Caller.Sound : Caller → Prop
  | .checked allowed permits => permits = if allowed then 1 else 0
  | .passed permits => permits = 1
  | .done => True

/-- The calls under way have taken what `check` takes, and those that are over what they should. -/
structure Sound (x : LimitedCalls σ) : Prop where
  callers : ∀ (i : ℕ) (c : Caller), x.callers[i]? = some c → Caller.Sound c
  fair : x.Fair

theorem fair_append {log : List CallRecord} (h : ∀ e ∈ log, e.Fair) (e : CallRecord) :
    (∀ e' ∈ log ++ [e], e'.Fair) ↔ e.Fair := by
  rw [List.forall_mem_append, List.forall_mem_singleton]
  exact and_iff_right h

/-- **The calls that are over cost what they should after a step just if it is no `consume`, or one
that finds nothing.** -/
theorem fair_step_iff (h : x.Sound) (hs : step L x l = some x') : x'.Fair ↔ x.Exhausted L l := by
  cases l with
  | check t =>
    obtain rfl := Option.some.inj hs
    exact iff_of_true h.fair trivial
  | look i now =>
    simp only [step] at hs
    split at hs
    · obtain rfl := Option.some.inj hs
      exact iff_of_true h.fair trivial
    · next permits hc =>
      obtain rfl := Option.some.inj hs
      exact (fair_append h.fair _).trans (iff_of_true (h.callers i _ hc) trivial)
    · cases hs
  | consume i t =>
    simp only [step] at hs
    split at hs
    · next permits hc =>
      obtain rfl := Option.some.inj hs
      have hone : permits = 1 := h.callers i _ hc
      refine (fair_append h.fair _).trans ?_
      rw [CallRecord.Fair, Exhausted, spent_eq, hone]
      simp only [if_true]
      split <;> omega
    · cases hs

theorem Sound.put (h : x.Sound) {i : ℕ} {c : Caller} (hc : Caller.Sound c) :
    ∀ (j : ℕ) (c' : Caller), (x.callers.put i c)[j]? = some c' → Caller.Sound c' :=
  Pool.forall_put (P := fun _ c ↦ Caller.Sound c) (fun j c _ hj ↦ h.callers j c hj) hc

theorem Sound.step (h : x.Sound) (hs : LimitedCalls.step L x l = some x') (hfair : x'.Fair) :
    x'.Sound := by
  refine ⟨?_, hfair⟩
  cases l with
  | check t =>
    obtain rfl := Option.some.inj hs
    refine Pool.forall_spawn (P := fun _ c ↦ Caller.Sound c) h.callers ?_
    show spent L t x.limiter = if (L.take t x.limiter).1 then 1 else 0
    rw [spent_eq, L.take_fst]
    simp only [decide_eq_true_eq]
  | look i now =>
    simp only [LimitedCalls.step] at hs
    split at hs
    · next permits hc =>
      obtain rfl := Option.some.inj hs
      have hone : permits = 1 := h.callers i _ hc
      exact h.put hone
    · obtain rfl := Option.some.inj hs
      exact h.put trivial
    · cases hs
  | consume i t =>
    simp only [LimitedCalls.step] at hs
    split at hs
    · obtain rfl := Option.some.inj hs
      exact h.put trivial
    · cases hs

/-- **When every call costs what it should**, for a limiter that takes a permit whenever it finds
one. -/
theorem fair_iff (s : σ) {ls : List (LimiterStep ρ)} (hrun : (system L).Run (start s) ls x) :
    (system L).Along (fun _ _ y ↦ y.Fair) (start s) ls ↔
      ((system L).guarded (Exhausted L)).Run (start s) ls x := by
  refine System.along_iff (P := Sound) (fun _ _ _ h hs ↦ fair_step_iff h hs)
    (fun _ _ _ h hs hfair ↦ h.step hs hfair) ⟨fun i c hc ↦ ?_, fun e he ↦ ?_⟩ hrun
  · cases hc
  · cases he

/-- **When one call costs one permit.**  With each of the three limiters, in a run of calls of any
number of threads, at any times, every call that passes has taken one permit and every call that is
refused none, if and only if there was no permit left each time `consume` was called. -/
theorem permits_iff (limit size : ℤ) (rate : ℚ) :
    (∀ (ls : List (LimiterStep (ℤ × ℤ))) (x : LimitedCalls Buckets),
      (system (tokenBucketLimiter limit rate)).Run (start ∅) ls x →
        ((system (tokenBucketLimiter limit rate)).Along (fun _ _ y ↦ y.Fair) (start ∅) ls ↔
          ((system (tokenBucketLimiter limit rate)).guarded
            (Exhausted (tokenBucketLimiter limit rate))).Run (start ∅) ls x)) ∧
    (∀ (ls : List (LimiterStep (ℤ × ℤ))) (x : LimitedCalls Buckets),
      (system (leakyBucketLimiter limit rate)).Run (start ∅) ls x →
        ((system (leakyBucketLimiter limit rate)).Along (fun _ _ y ↦ y.Fair) (start ∅) ls ↔
          ((system (leakyBucketLimiter limit rate)).guarded
            (Exhausted (leakyBucketLimiter limit rate))).Run (start ∅) ls x)) ∧
    ∀ (ls : List (LimiterStep WindowReadings)) (x : LimitedCalls Windows),
      (system (fixedWindowLimiter limit size)).Run (start ∅) ls x →
        ((system (fixedWindowLimiter limit size)).Along (fun _ _ y ↦ y.Fair) (start ∅) ls ↔
          ((system (fixedWindowLimiter limit size)).guarded
            (Exhausted (fixedWindowLimiter limit size))).Run (start ∅) ls x) :=
  ⟨fun _ _ hrun ↦ fair_iff ∅ hrun, fun _ _ hrun ↦ fair_iff ∅ hrun, fun _ _ hrun ↦ fair_iff ∅ hrun⟩

/-- A call that takes the last permit, and one that is refused. -/
def lastPermit {ρ : Type} (t : ρ) : List (LimiterStep ρ) :=
  [.check t, .look 0 0, .consume 0 t, .check t, .look 1 0]

/-- With one permit, two calls at the same time. -/
theorem permits_iff_lastPermit :
    (∃ x, (system (tokenBucketLimiter 1 1)).Run (start ∅) (lastPermit (0, 0)) x ∧
      x.log = [⟨true, 1⟩, ⟨false, 0⟩] ∧
      (system (tokenBucketLimiter 1 1)).Along (fun _ _ y ↦ y.Fair) (start ∅) (lastPermit (0, 0))) ∧
    ∃ x, (system (fixedWindowLimiter 1 1000)).Run (start ∅) (lastPermit ⟨0, 0, 0, 0⟩) x ∧
      x.log = [⟨true, 1⟩, ⟨false, 0⟩] ∧
      (system (fixedWindowLimiter 1 1000)).Along (fun _ _ y ↦ y.Fair) (start ∅)
        (lastPermit ⟨0, 0, 0, 0⟩) := by
  constructor
  · obtain ⟨x, hrun, hlog⟩ : ∃ x, ((system (tokenBucketLimiter 1 1)).guarded fun x l ↦
        x.Exhausted (tokenBucketLimiter 1 1) l).Run (start ∅) (lastPermit (0, 0)) x ∧
        x.log = [⟨true, 1⟩, ⟨false, 0⟩] :=
      System.Run.exists_of_any_guarded (by decide +kernel)
    exact ⟨x, hrun.of_guarded, hlog, ((permits_iff 1 1000 1).1 _ x hrun.of_guarded).2 hrun⟩
  · obtain ⟨x, hrun, hlog⟩ : ∃ x, ((system (fixedWindowLimiter 1 1000)).guarded fun x l ↦
        x.Exhausted (fixedWindowLimiter 1 1000) l).Run (start ∅) (lastPermit ⟨0, 0, 0, 0⟩) x ∧
        x.log = [⟨true, 1⟩, ⟨false, 0⟩] :=
      System.Run.exists_of_any_guarded (by decide +kernel)
    exact ⟨x, hrun.of_guarded, hlog, ((permits_iff 1 1000 1).2.2 _ x hrun.of_guarded).2 hrun⟩

/-- One call. -/
def oneCall {ρ : Type} (t : ρ) : List (LimiterStep ρ) := [.check t, .look 0 0, .consume 0 t]

/-- With two permits, one call takes both, with each of the limiters. -/
theorem two_permits :
    (∃ x, (system (tokenBucketLimiter 2 1)).Run (start ∅) (oneCall (0, 0)) x ∧
      x.log = [⟨true, 2⟩]) ∧
    (∃ x, (system (leakyBucketLimiter 2 1)).Run (start ∅) (oneCall (0, 0)) x ∧
      x.log = [⟨true, 2⟩]) ∧
    ∃ x, (system (fixedWindowLimiter 2 1000)).Run (start ∅) (oneCall ⟨0, 0, 0, 0⟩) x ∧
      x.log = [⟨true, 2⟩] := by
  exact ⟨System.Run.exists_of_any (by decide +kernel),
    System.Run.exists_of_any (by decide +kernel), System.Run.exists_of_any (by decide +kernel)⟩

end LimitedCalls

end Rpc
end ChwellCore
