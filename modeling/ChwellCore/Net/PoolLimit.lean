import ChwellCore.Net.ConnectionPool

/-!
# The limit of the connection pool

`get_connection` opens a connection only if `connections_.size() + pending_creates_` is below
`max_connections`, and counts itself in `pending_creates_` while it does.  A call should be in one
of the two summands from its decision to open a connection until the connection is in the table.  It
is not: `pending_creates_` is decremented as soon as the connection is there, and the mutex is taken
after that to put it into the table.  A call that makes its decision in between counts too little,
and `too_many_connections` is a run in which a pool for one connection has two.

`within_max` says that this is the only way.  If no decision is taken on a sum to which the calls
between the decrement and the mutex (`unpushed`) would have made the difference, the pool keeps its
limit.  `maybe_expand`, which nothing calls, decrements after the push.
-/

set_option autoImplicit false

namespace ChwellCore
namespace Net

namespace Call

/-- Counted by `pending_creates_`. -/
def pending : Call → Bool
  | .creating | .created _ => true
  | .entering _ | .pushing _ | .waiting | .holding _ | .initialising _ | .initPushing _ _
  | .sweeping | .finished => false

/-- In `get_connection`, creating a connection, or with one that is not in the table. -/
def opening : Call → Bool
  | .creating | .created (some _) | .pushing _ => true
  | .created none | .entering _ | .waiting | .holding _ | .initialising _ | .initPushing _ _
  | .sweeping | .finished => false

/-- Between the decrement of `pending_creates_` and the mutex. -/
def unpushed : Call → Bool
  | .pushing _ => true
  | .entering _ | .creating | .created _ | .waiting | .holding _ | .initialising _
  | .initPushing _ _ | .sweeping | .finished => false

/-- How many connections an `init` can still put into the table. -/
def toCome : Call → ℕ
  | .initialising left => left
  | .initPushing left _ => left + 1
  | .entering _ | .creating | .created _ | .pushing _ | .waiting | .holding _ | .sweeping
  | .finished => 0

/-- A connection that is being opened is counted, unless it is about to be pushed. -/
theorem countP_opening_le (calls : Pool Call) :
    calls.countP opening ≤ calls.countP pending + calls.countP unpushed := by
  induction calls with
  | nil => exact le_rfl
  | cons p calls ih =>
    have hp : (if p.opening then 1 else 0) ≤
        (if p.pending then 1 else 0) + if p.unpushed then 1 else 0 := by
      rcases p with _ | _ | (_ | _) | _ | _ | _ | _ | _ | _ | _ <;>
        simp [opening, pending, unpushed]
    simp only [List.countP_cons]
    omega

end Call

/-- A step of `get_connection` or `return_connection`. -/
def PoolStep.isBorrowing : PoolStep → Bool
  | .getConnection _ | .enter _ _ _ _ | .create _ _ | .settle _ | .push _ _
  | .returnConnection _ _ _ _ => true
  | .init | .initCreate _ _ | .initPush _ | .shutdown | .sweep _ | .cleanup _ => false

/-- A step of `init`. -/
def PoolStep.isInit : PoolStep → Bool
  | .initCreate _ _ | .initPush _ => true
  | .getConnection _ | .enter _ _ _ _ | .create _ _ | .settle _ | .push _ _
  | .returnConnection _ _ _ _ | .init | .shutdown | .sweep _ | .cleanup _ => false

namespace ConnectionPool

variable (cfg : ConnectionPoolConfig)

/-- The open connections that the pool has in its table, or that a `get_connection` is creating or
has created and not yet pushed. -/
def openConnections (s : ConnectionPool) : ℕ :=
  (s.connections.filter fun c ↦ c.connection ∉ s.closed).length + s.calls.countP Call.opening

/-- `init` has been called, and has come to its end, and nothing else has happened. -/
def Initialised (s : ConnectionPool) : Prop :=
  s.calls = [.initialising 0] ∧ ∃ s₁ ls, step cfg fresh .init = some s₁ ∧
    ((system cfg).guarded fun _ l ↦ l.isInit = true).Run s₁ ls s

/-- If the step decides to open a connection, it would have done so too had it counted the calls
that are between the decrement and the mutex. -/
def Noticed (s : ConnectionPool) : PoolStep → Prop
  | .enter _ cleanupClock idleClock used =>
    let cs := (cleanupExpired cfg cleanupClock s.connections).1
    (tryGetIdle cfg idleClock used cs).1 = none →
    cs.length + s.pendingCreates < cfg.maxConnections →
      cs.length + s.pendingCreates + s.calls.countP Call.unpushed < cfg.maxConnections
  | _ => True

/-! ## Sizes -/

section Sizes

variable (clock : ℕ → ℤ) (used : ℤ) (cs : List PooledConnection)

theorem length_marks : (marks cs).length = cs.length := List.length_map _

theorem length_cleanupExpired_le : (cleanupExpired cfg clock cs).1.length ≤ cs.length := by
  have hle := (marks_cleanupExpired cfg clock cs).1.length_le
  rwa [length_marks, length_marks] at hle

theorem length_tryGetIdle : (tryGetIdle cfg clock used cs).2.length = cs.length := by
  rcases marks_tryGetIdle cfg clock used cs with ⟨-, hmarks⟩ | ⟨c, l, r, -, hl, hr⟩
  · rw [← length_marks, hmarks, length_marks]
  · rw [← length_marks, hr, ← length_marks cs, hl, List.length_append, List.length_append]
    rfl

theorem length_release (connection : ℕ) : (release connection used cs).1.length = cs.length := by
  rcases marks_release connection used cs with hmarks | ⟨l, r, b, hl, hr⟩
  · rw [← length_marks, hmarks, length_marks]
  · rw [← length_marks, hr, ← length_marks cs, hl, List.length_append, List.length_append]
    rfl

end Sizes

/-! ## The invariant -/

variable {cfg} {s s' : ConnectionPool} {i : ℕ} {p q : Call}

/-- What the pool counts, and what it would have to count. -/
structure Within (cfg : ConnectionPoolConfig) (s : ConnectionPool) : Prop where
  pending : s.pendingCreates = s.calls.countP Call.pending
  bound : (s.connections.length + s.calls.countP Call.opening : ℤ) ≤ cfg.maxConnections

theorem openConnections_le (h : s.Within cfg) : (s.openConnections : ℤ) ≤ cfg.maxConnections := by
  have hfilter := List.length_filter_le (fun c ↦ decide (c.connection ∉ s.closed)) s.connections
  have hbound := h.bound
  rw [openConnections]
  push_cast
  omega

/-- A call moves on. -/
theorem Within.put (h : s.Within cfg) (hi : s.calls[i]? = some p)
    (hcalls : s'.calls = s.calls.put i q)
    (hpending : s'.pendingCreates + (if p.pending then 1 else 0 : ℕ) =
      s.pendingCreates + (if q.pending then 1 else 0 : ℕ))
    (hle : s'.connections.length + (if q.opening then 1 else 0) ≤
      s.connections.length + if p.opening then 1 else 0) : s'.Within cfg := by
  have hp := Pool.countP_put hi q Call.pending
  have ho := Pool.countP_put hi q Call.opening
  have hpend := h.pending
  have hbound := h.bound
  refine ⟨?_, ?_⟩
  · rw [hcalls]
    omega
  · rw [hcalls]
    omega

/-- A call begins. -/
theorem Within.spawn (h : s.Within cfg) (hp : p.pending = false) (ho : p.opening = false)
    (hcalls : s'.calls = s.calls.spawn p) (hpending : s'.pendingCreates = s.pendingCreates)
    (hconn : s'.connections = s.connections) : s'.Within cfg := by
  refine ⟨?_, ?_⟩
  · rw [hpending, hcalls, Pool.spawn, List.countP_append, List.countP_singleton, hp]
    exact h.pending
  · rw [hconn, hcalls, Pool.spawn, List.countP_append, List.countP_singleton, ho]
    exact h.bound

theorem Within.clean (h : s.Within cfg) (clock : ℕ → ℤ) : (s.clean cfg clock).Within cfg := by
  refine ⟨h.pending, le_trans ?_ h.bound⟩
  have hle := length_cleanupExpired_le cfg clock s.connections
  exact add_le_add_left (Int.ofNat_le.2 hle) _

/-- The first critical section of `get_connection`.  A call that decides to open a connection has
seen all the others that do, if it has not missed those that are about to push theirs. -/
theorem Within.enter (h : s.Within cfg) {timeoutMs : ℤ}
    (hi : s.calls[i]? = some (.entering timeoutMs)) (cleanupClock idleClock : ℕ → ℤ) (used : ℤ)
    (hseen : s.Noticed cfg (.enter i cleanupClock idleClock used)) :
    (s.enter cfg i timeoutMs cleanupClock idleClock used).Within cfg := by
  have h := h.clean cleanupClock
  have hlen := length_tryGetIdle cfg idleClock used (s.clean cfg cleanupClock).connections
  replace hi : (s.clean cfg cleanupClock).calls[i]? = some (.entering timeoutMs) := hi
  replace hseen : (tryGetIdle cfg idleClock used (s.clean cfg cleanupClock).connections).1 = none →
      (s.clean cfg cleanupClock).connections.length + (s.clean cfg cleanupClock).pendingCreates <
        cfg.maxConnections →
      (s.clean cfg cleanupClock).connections.length + (s.clean cfg cleanupClock).pendingCreates +
        (s.clean cfg cleanupClock).calls.countP Call.unpushed < cfg.maxConnections := hseen
  rw [ConnectionPool.enter]
  generalize s.clean cfg cleanupClock = s at h hi hlen hseen
  dsimp only
  split
  · exact h.put hi rfl rfl hlen.le
  · next hnone =>
    split
    · next hdecide =>
      have hopening := Pool.countP_put hi .creating Call.opening
      have hpending := Pool.countP_put hi .creating Call.pending
      have hle := Call.countP_opening_le s.calls
      have hmax := hseen hnone (hlen ▸ hdecide)
      have hpend := h.pending
      simp only [Call.opening, Call.pending, Bool.false_eq_true, if_false, if_true, add_zero]
        at hopening hpending
      refine ⟨?_, ?_⟩
      · simp only [move]
        omega
      · simp only [move]
        omega
    · split <;> exact h.put hi rfl rfl hlen.le

theorem Within.serveWaiter (h : s.Within cfg) (hinv : s.Inv) (clock : ℕ → ℤ) (used : ℤ) :
    (s.serveWaiter cfg clock used).Within cfg := by
  have hlen := length_tryGetIdle cfg clock used s.connections
  rw [ConnectionPool.serveWaiter]
  split
  · exact h
  · next j js hqueue =>
    have hj := hinv.queued j (hqueue ▸ List.mem_cons_self)
    dsimp only
    split
    · exact h.put hj rfl rfl hlen.le
    · exact ⟨h.pending, by rw [hlen]; exact h.bound⟩

theorem Within.giveBack (h : s.Within cfg) {c : ℕ} (hi : s.calls[i]? = some (.holding c))
    (used : ℤ) : (s.giveBack i c used).Within cfg :=
  h.put hi rfl rfl (length_release used s.connections c).le

/-- Every step of a borrower keeps the limit, if its decision has noticed all the others. -/
theorem Within.step (h : s.Within cfg) (hinv : s.Inv) {l : PoolStep}
    (hs : ConnectionPool.step cfg s l = some s') (hl : l.isBorrowing = true)
    (hseen : s.Noticed cfg l) : s'.Within cfg := by
  cases step_cases cfg hs with
  | getConnection timeoutMs =>
    refine h.spawn ?_ ?_ rfl rfl rfl
    · split <;> rfl
    · split <;> rfl
  | enter cleanupClock idleClock used hi => exact h.enter hi cleanupClock idleClock used hseen
  | create now hi | createFailed hi | settle hi | settleFailed hi | pushLate used hi =>
    exact h.put hi rfl (by simp [Call.pending, move, openAt]) (by simp [Call.opening, move, openAt])
  | push used hi =>
    exact h.put hi rfl rfl (by simp [Call.opening, move])
  | returnConnection used idleClock used' hi =>
    exact (h.giveBack hi used).serveWaiter (hinv.giveBack hi used) idleClock used'
  | init | initCreate | initCreateFailed | initPush | shutdown | shutdownAgain | sweep | cleanup =>
    cases hl

/-! ## The start -/

/-- An `init` that is alone puts at most `n` connections into the table. -/
def Initialising (n : ℕ) (s : ConnectionPool) : Prop :=
  s.pendingCreates = 0 ∧ ∃ p : Call, s.calls = [p] ∧ s.connections.length + p.toCome ≤ n

theorem Initialising.put {n : ℕ} (h : s.Initialising n) (hi : s.calls[i]? = some p)
    (hcalls : s'.calls = s.calls.put i q) (hpending : s'.pendingCreates = s.pendingCreates)
    (hle : s'.connections.length + q.toCome ≤ s.connections.length + p.toCome) :
    s'.Initialising n := by
  obtain ⟨hzero, p', hp', hn⟩ := h
  rw [hp'] at hi hcalls
  rcases i with _ | i
  · cases hi
    exact ⟨hpending.trans hzero, q, hcalls, hle.trans hn⟩
  · cases hi

theorem Initialising.step {n : ℕ} (h : s.Initialising n) {l : PoolStep} (hl : l.isInit = true)
    (hs : ConnectionPool.step cfg s l = some s') : s'.Initialising n := by
  cases step_cases cfg hs with
  | initCreate now hi => exact h.put hi rfl rfl le_rfl
  | initCreateFailed hi => exact h.put hi rfl rfl (Nat.le_succ _)
  | initPush hi =>
    refine h.put hi rfl rfl ?_
    simp only [move, List.length_append, List.length_singleton, Call.toCome]
    omega
  | getConnection | enter | create | createFailed | settle | settleFailed | push | pushLate
  | returnConnection | init | shutdown | shutdownAgain | sweep | cleanup => cases hl

theorem Initialised.inv (h : s.Initialised cfg) : s.Inv := by
  obtain ⟨-, s₁, ls, hs₁, hrun⟩ := h
  exact inv_run (.cons (T := system cfg) hs₁ hrun.of_guarded)

theorem Initialised.within (h : s.Initialised cfg) (hmin : 0 ≤ cfg.minConnections)
    (hmax : cfg.minConnections ≤ cfg.maxConnections) : s.Within cfg := by
  obtain ⟨hcalls, s₁, ls, hs₁, hrun⟩ := h
  cases hs₁
  have hfinal := hrun.invariant (motive := fun s ↦ s.Initialising cfg.minConnections.toNat)
    (fun s l s' h (hs : l.isInit = true ∧ _) ↦ h.step hs.1 hs.2)
    ⟨rfl, .initialising cfg.minConnections.toNat, rfl, (Nat.zero_add _).le⟩
  obtain ⟨hpending, p, hp, hle⟩ := hfinal
  refine ⟨by rw [hcalls, hpending]; rfl, ?_⟩
  have hcount : s.calls.countP Call.opening = 0 := by rw [hcalls]; rfl
  rw [hcount]
  omega

/-- **The limit of the pool**: once `init` is done, and as long as no `get_connection` decides to
open a connection on a sum that misses calls which would have made the difference, the pool has no
more open connections than its maximum. -/
theorem within_max (hmin : 0 ≤ cfg.minConnections) (hmax : cfg.minConnections ≤ cfg.maxConnections)
    {s₀ : ConnectionPool} (hinit : s₀.Initialised cfg) {ls : List PoolStep}
    (hrun : ((system cfg).guarded fun s l ↦ l.isBorrowing = true ∧ s.Noticed cfg l).Run s₀ ls s) :
    (s.openConnections : ℤ) ≤ cfg.maxConnections := by
  have hall := hrun.invariant (motive := fun s ↦ s.Inv ∧ s.Within cfg)
    (fun _ _ _ h hs ↦ ⟨h.1.step hs.2, h.2.step h.1 hs.2 hs.1.1 hs.1.2⟩)
    ⟨hinit.inv, hinit.within hmin hmax⟩
  exact openConnections_le hall.2

instance decidableNoticed (s : ConnectionPool) (l : PoolStep) : Decidable (s.Noticed cfg l) :=
  match l with
  | .enter _ _ _ _ => inferInstanceAs (Decidable (_ → _ → _))
  | .getConnection _ | .create _ _ | .settle _ | .push _ _ | .returnConnection _ _ _ _ | .init
  | .initCreate _ _ | .initPush _ | .shutdown | .sweep _ | .cleanup _ => .isTrue trivial

/-- A pool for one connection that begins without any. -/
def oneConnection : ConnectionPoolConfig := ⟨0, 1, 100, 0⟩

theorem initialised_oneConnection :
    Initialised oneConnection { fresh with calls := [.initialising 0] } :=
  ⟨rfl, _, [], rfl, .nil⟩

/-- Two callers, of whom the second comes when the first has its connection in the table. -/
def afterPush : List PoolStep :=
  [.getConnection 5000, .enter 1 (fun _ ↦ 0) (fun _ ↦ 0) 0, .create 1 (some 1), .settle 1,
    .push 1 2, .getConnection 5000, .enter 2 (fun _ ↦ 3) (fun _ ↦ 3) 3]

theorem within_max_afterPush :
    ∃ s, ((system oneConnection).guarded fun s l ↦
        l.isBorrowing = true ∧ s.Noticed oneConnection l).Run
          { fresh with calls := [.initialising 0] } afterPush s ∧
      s.openConnections = 1 ∧ (s.openConnections : ℤ) ≤ oneConnection.maxConnections := by
  obtain ⟨s, hrun, hopen⟩ : ∃ s, ((system oneConnection).guarded fun s l ↦
      l.isBorrowing = true ∧ s.Noticed oneConnection l).Run
        { fresh with calls := [.initialising 0] } afterPush s ∧ s.openConnections = 1 :=
    System.Run.exists_of_any_guarded (by decide +kernel)
  exact ⟨s, hrun, hopen, within_max (by decide) (by decide) initialised_oneConnection hrun⟩

/-- Two callers, of whom the second comes when the first has its connection and has not taken the
mutex. -/
def beforePush : List PoolStep :=
  [.getConnection 5000, .enter 1 (fun _ ↦ 0) (fun _ ↦ 0) 0, .create 1 (some 1), .settle 1,
    .getConnection 5000, .enter 2 (fun _ ↦ 2) (fun _ ↦ 2) 2, .create 2 (some 3), .settle 2,
    .push 1 4, .push 2 5]

/-- The pool has two connections in its table, and its maximum is one. -/
theorem too_many_connections :
    ∃ s, ((system oneConnection).guarded fun _ l ↦ l.isBorrowing = true).Run
        { fresh with calls := [.initialising 0] } beforePush s ∧
      Initialised oneConnection { fresh with calls := [.initialising 0] } ∧
      s.connections.length = 2 ∧ ¬ (s.openConnections : ℤ) ≤ oneConnection.maxConnections := by
  obtain ⟨s, hrun, hlen, hopen⟩ : ∃ s, ((system oneConnection).guarded fun _ l ↦
      l.isBorrowing = true).Run { fresh with calls := [.initialising 0] } beforePush s ∧
        s.connections.length = 2 ∧ ¬ (s.openConnections : ℤ) ≤ oneConnection.maxConnections :=
    System.Run.exists_of_any_guarded (by decide +kernel)
  exact ⟨s, hrun, initialised_oneConnection, hlen, hopen⟩

end ConnectionPool

end Net
end ChwellCore
