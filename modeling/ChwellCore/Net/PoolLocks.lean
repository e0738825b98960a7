import ChwellCore.Lib.Locks
import ChwellCore.Net.ConnectionPool

/-!
# Callbacks that come back to the connection pool

`get_connection` unlocks the mutex of the pool before it invokes a callback.  `return_connection`
does not: if somebody waits, the callback is given the connection under the mutex, and so are the
callbacks to which `shutdown` says that there will be none.  A callback is code of the user, and the
obvious thing to do with a connection is to use it and to give it back.

Here the pool is used by one thread.  What the user's code does is a sequence of `Move`s: a call on
the pool, which may leave the thread inside of a callback, or the return from the callback that
runs.  So a run is any program, with callbacks as deeply nested as one likes.  `PoolThread.free_iff`
says when the thread acquires the mutex while it holds it.
-/

set_option autoImplicit false

namespace ChwellCore
namespace Net

/-- Who has invoked a callback that runs. -/
inductive Frame where
  /-- `get_connection`, with the mutex unlocked. -/
  | get
  /-- `return_connection`, for one that waits. -/
  | serve
  /-- `shutdown`, for one that waits, with the number of those that are left. -/
  | sweep (left : ℕ)
deriving DecidableEq

/-- The invoker holds the mutex. -/
def Frame.locked : Frame → Bool
  | .get => false
  | .serve | .sweep _ => true

/-- A thread: the pool, the callbacks that run, the innermost first, and what the thread has done
with the mutex of the pool, which is the only one. -/
structure PoolThread where
  pool : ConnectionPool
  stack : List Frame
  events : List (LockEvent Unit)

/-- What the user's code can do next. -/
inductive Move where
  /-- `init`, with the results of `create_connection`. -/
  | init (results : List (Option ℤ))
  /-- `get_connection`, with the result of `create_connection` if it comes to that. -/
  | getConnection (timeoutMs : ℤ) (cleanupClock idleClock : ℕ → ℤ) (used : ℤ) (result : Option ℤ)
      (pushed : ℤ)
  /-- `return_connection`, of the connection that call `i` has or of a copy; `none` if it was
  reset. -/
  | returnConnection (i : ℕ) (connection : Option ℕ) (used : ℤ) (idleClock : ℕ → ℤ) (used' : ℤ)
  /-- `total_connections`, `idle_connections` or `active_connections`. -/
  | count
  | shutdown
  /-- The callback that runs returns. -/
  | finish

/-- The call locks the mutex, in a pool that is shut down or not. -/
def Move.locks (down : Bool) : Move → Bool
  | .init _ | .getConnection _ _ _ _ _ _ | .shutdown => !down
  | .returnConnection _ connection _ _ _ => connection.isSome
  | .count => true
  | .finish => false

namespace PoolThread

variable (cfg : ConnectionPoolConfig)

/-- The thread that has done nothing. -/
def fresh : PoolThread := ⟨.fresh, [], []⟩

/-- A lock guard with nothing inside that uses the mutex. -/
def guard : Scoped Unit := .under () .nothing

/-- Steps of the pool one after another; those that are not there are passed over. -/
def steps (s : ConnectionPool) (ls : List PoolStep) : ConnectionPool :=
  ls.foldl (fun s l ↦ (ConnectionPool.step cfg s l).getD s) s

/-- The thread does something to the pool, acquires and releases the mutex, and is then in a
callback or not. -/
def act (t : PoolThread) (pool : ConnectionPool) (events : List (LockEvent Unit))
    (frames : List Frame) : PoolThread :=
  ⟨pool, frames ++ t.stack, t.events ++ events⟩

/-- `init`. -/
def init (t : PoolThread) (results : List (Option ℤ)) : PoolThread :=
  if t.pool.shutdown then t
  else
    let i := t.pool.calls.length
    t.act
      (steps cfg t.pool (.init :: results.flatMap fun r ↦ [.initCreate i r, .initPush i]))
      (.forEach results (fun r ↦ if r.isSome then guard else .nothing) ++ guard :
        Scoped Unit).events []

/-- `get_connection`: the first critical section, and, if it comes to opening a connection and that
succeeds, the second; then the callback, unless it has been left to wait. -/
def getConnection (t : PoolThread) (timeoutMs : ℤ) (cleanupClock idleClock : ℕ → ℤ) (used : ℤ)
    (result : Option ℤ) (pushed : ℤ) : PoolThread :=
  let i := t.pool.calls.length
  if t.pool.shutdown then t.act (steps cfg t.pool [.getConnection timeoutMs]) [] [.get]
  else
    let entered := steps cfg t.pool [.getConnection timeoutMs, .enter i cleanupClock idleClock used]
    let pool := steps cfg entered [.create i result, .settle i, .push i pushed]
    let creates := entered.calls[i]? = some .creating ∧ result.isSome = true
    t.act pool (guard ++ if creates then guard else .nothing).events
      (if pool.calls[i]? = some .waiting then [] else [.get])

/-- `return_connection` invokes the callback of one that waits. -/
def serves (s : ConnectionPool) (connection : ℕ) (used : ℤ) (idleClock : ℕ → ℤ)
    (used' : ℤ) : Bool :=
  !s.waitingCallbacks.isEmpty &&
    (tryGetIdle cfg idleClock used' (release connection used s.connections).1).1.isSome

/-- `return_connection`: the callback of one that waits is invoked before the mutex is released. -/
def returnConnection (t : PoolThread) (i : ℕ) (connection : Option ℕ) (used : ℤ) (idleClock : ℕ → ℤ)
    (used' : ℤ) : PoolThread :=
  match connection with
  | none => t
  | some c =>
    let pool := t.pool.returnConnection cfg i c used idleClock used'
    if serves cfg t.pool c used idleClock used' then t.act pool [.acquire ()] [.serve]
    else t.act pool guard.events []

/-- `shutdown`: so are the callbacks of all that wait. -/
def shutdown (t : PoolThread) : PoolThread :=
  if t.pool.shutdown then t
  else
    let pool := steps cfg t.pool [.shutdown, .sweep t.pool.calls.length]
    match t.pool.waitingCallbacks with
    | [] => t.act pool guard.events []
    | _ :: js => t.act pool [.acquire ()] [.sweep js.length]

/-- The callback that runs returns, and its invoker goes on. -/
def finish (t : PoolThread) : Option PoolThread :=
  match t.stack with
  | [] => none
  | .get :: stack => some { t with stack := stack }
  | .sweep (left + 1) :: stack => some { t with stack := .sweep left :: stack }
  | .sweep 0 :: stack | .serve :: stack =>
    some { t with stack := stack, events := t.events ++ [.release ()] }

/-- One move; `none` if no callback runs that could return, or if `init` does not create as many
connections as it should. -/
def step (t : PoolThread) : Move → Option PoolThread
  | .init results =>
    if results.length = cfg.minConnections.toNat then some (t.init cfg results) else none
  | .getConnection timeoutMs cleanupClock idleClock used result pushed =>
    some (t.getConnection cfg timeoutMs cleanupClock idleClock used result pushed)
  | .returnConnection i connection used idleClock used' =>
    some (t.returnConnection cfg i connection used idleClock used')
  | .count => some (t.act t.pool guard.events [])
  | .shutdown => some (t.shutdown cfg)
  | .finish => t.finish

/-- All that one thread can do with a pool. -/
def system : System PoolThread Move := .ofPartial (step cfg)

/-- The mutex has never been acquired while it was held. -/
def Free (t : PoolThread) : Prop := LockEvent.relocks [] t.events = false

/-- A callback of one that waits does not come back to the pool in a way that locks the mutex. -/
def Outside (t : PoolThread) (move : Move) : Prop :=
  t.stack.any Frame.locked = true → move.locks t.pool.shutdown = false

instance decidableFree (t : PoolThread) : Decidable t.Free := inferInstanceAs (Decidable (_ = _))

instance decidableOutside (t : PoolThread) (move : Move) : Decidable (t.Outside move) :=
  inferInstanceAs (Decidable (_ → _))

/-! ## What the thread holds -/

variable {cfg} {t u : PoolThread} {move : Move}

/-- How often the thread holds the mutex: once for each callback that was invoked under it. -/
def depth (t : PoolThread) : ℕ := t.stack.countP Frame.locked

/-- What a move does with the mutex. -/
structure Locks (t : PoolThread) (move : Move) (u : PoolThread) (events : List (LockEvent Unit)) :
    Prop where
  events_eq : u.events = t.events ++ events
  relocks : ∀ held, LockEvent.relocks held events =
    (decide (() ∈ held) && move.locks t.pool.shutdown)
  held : LockEvent.heldAfter (List.replicate t.depth ()) events = List.replicate u.depth ()

@[simp] theorem relocks_guard (held : List Unit) : guard.relocks held = decide (() ∈ held) := by
  rw [guard, Scoped.relocks_under, Scoped.relocks_nothing, Bool.or_false]

/-- A move that does nothing. -/
theorem locks_refl (h : move.locks t.pool.shutdown = false) : t.Locks move t [] :=
  ⟨(List.append_nil _).symm, fun held ↦ by rw [h, Bool.and_false]; rfl, rfl⟩

/-- A call that uses the mutex in lock guards, and invokes at most a callback without it. -/
theorem locks_act (pool : ConnectionPool) (events : Scoped Unit) {frames : List Frame}
    (hframes : frames.countP Frame.locked = 0)
    (h : ∀ held, events.relocks held = (decide (() ∈ held) && move.locks t.pool.shutdown)) :
    t.Locks move (t.act pool events.events frames) events.events := by
  refine ⟨rfl, h, ?_⟩
  rw [events.balanced, depth, depth, act, List.countP_append, hframes, Nat.zero_add]

/-- A call that invokes a callback under the mutex. -/
theorem locks_invoke (pool : ConnectionPool) {frame : Frame} (hframe : frame.locked = true)
    (h : move.locks t.pool.shutdown = true) :
    t.Locks move (t.act pool [.acquire ()] [frame]) [.acquire ()] := by
  refine ⟨rfl, fun held ↦ ?_, ?_⟩
  · rw [h, Bool.and_true, LockEvent.relocks, LockEvent.relocks, Bool.or_false]
  · rw [depth, depth, act, List.singleton_append, List.countP_cons, if_pos hframe,
      List.replicate_succ]
    rfl

theorem locks_init (results : List (Option ℤ)) :
    ∃ events, t.Locks (.init results) (t.init cfg results) events := by
  rw [init]
  split
  · next hdown => exact ⟨[], locks_refl (by rw [hdown]; rfl)⟩
  · next hdown =>
    refine ⟨_, locks_act _ _ rfl fun held ↦ ?_⟩
    have hlocks : (Move.init results).locks t.pool.shutdown = true := by
      rw [Bool.eq_false_of_not_eq_true hdown]
      rfl
    rw [hlocks, Bool.and_true, Scoped.relocks_append, Scoped.relocks_forEach, relocks_guard]
    by_cases hheld : () ∈ held
    · rw [decide_eq_true hheld, Bool.or_true]
    · rw [decide_eq_false hheld, Bool.or_false, List.any_eq_false]
      intro r _
      rw [Scoped.relocks_ite, relocks_guard, Scoped.relocks_nothing, decide_eq_false hheld]
      simp

theorem locks_getConnection (timeoutMs : ℤ) (cleanupClock idleClock : ℕ → ℤ) (used : ℤ)
    (result : Option ℤ) (pushed : ℤ) :
    ∃ events, t.Locks (.getConnection timeoutMs cleanupClock idleClock used result pushed)
      (t.getConnection cfg timeoutMs cleanupClock idleClock used result pushed) events := by
  rw [getConnection]
  dsimp only
  split
  · next hdown =>
    refine ⟨_, locks_act _ .nothing rfl fun held ↦ ?_⟩
    rw [hdown, Scoped.relocks_nothing]
    exact (Bool.and_false _).symm
  · next hdown =>
    have hlocks : (Move.getConnection timeoutMs cleanupClock idleClock used result pushed).locks
        t.pool.shutdown = true := by
      rw [Bool.eq_false_of_not_eq_true hdown]
      rfl
    refine ⟨_, locks_act _ _ (by split <;> rfl) fun held ↦ ?_⟩
    rw [hlocks, Bool.and_true, Scoped.relocks_append, Scoped.relocks_ite, relocks_guard,
      Scoped.relocks_nothing]
    split
    · exact Bool.or_self _
    · exact Bool.or_false _

theorem locks_returnConnection (i : ℕ) (connection : Option ℕ) (used : ℤ) (idleClock : ℕ → ℤ)
    (used' : ℤ) :
    ∃ events, t.Locks (.returnConnection i connection used idleClock used')
      (t.returnConnection cfg i connection used idleClock used') events := by
  rcases connection with _ | c
  · exact ⟨[], locks_refl rfl⟩
  · rw [returnConnection]
    split
    · exact ⟨_, locks_invoke _ rfl rfl⟩
    · exact ⟨_, locks_act _ _ rfl fun held ↦ (relocks_guard held).trans (Bool.and_true _).symm⟩

theorem locks_shutdown : ∃ events, t.Locks .shutdown (t.shutdown cfg) events := by
  rw [shutdown]
  split
  · next hdown => exact ⟨[], locks_refl (by rw [hdown]; rfl)⟩
  · next hdown =>
    have hlocks : Move.shutdown.locks t.pool.shutdown = true := by
      rw [Bool.eq_false_of_not_eq_true hdown]
      rfl
    split
    · refine ⟨_, locks_act _ _ rfl fun held ↦ ?_⟩
      rw [hlocks, Bool.and_true, relocks_guard]
    · exact ⟨_, locks_invoke _ rfl hlocks⟩

theorem locks_finish (h : t.finish = some u) : ∃ events, t.Locks .finish u events := by
  -- the last callback that was invoked under the mutex is over
  have hrelease : ∀ (frame : Frame) (stack : List Frame), frame.locked = true →
      t.stack = frame :: stack →
      t.Locks .finish { t with stack := stack, events := t.events ++ [.release ()] }
        [.release ()] := by
    intro frame stack hframe hstack
    refine ⟨rfl, fun held ↦ (Bool.and_false _).symm, ?_⟩
    rw [depth, depth, hstack, List.countP_cons, if_pos hframe, List.replicate_succ]
    exact List.erase_cons_head () _
  rw [finish] at h
  split at h
  · cases h
  · next stack hstack =>
    cases h
    refine ⟨[], (List.append_nil _).symm, fun held ↦ (Bool.and_false _).symm, ?_⟩
    rw [depth, depth, hstack]
    rfl
  · next left stack hstack =>
    cases h
    refine ⟨[], (List.append_nil _).symm, fun held ↦ (Bool.and_false _).symm, ?_⟩
    rw [depth, depth, hstack]
    rfl
  · next stack hstack =>
    cases h
    exact ⟨_, hrelease _ stack rfl hstack⟩
  · next stack hstack =>
    cases h
    exact ⟨_, hrelease _ stack rfl hstack⟩

/-- What every move does with the mutex. -/
theorem locks_step (h : step cfg t move = some u) : ∃ events, t.Locks move u events := by
  cases move with
  | init results =>
    rw [step] at h
    split at h <;> cases h
    exact locks_init results
  | getConnection timeoutMs cleanupClock idleClock used result pushed =>
    cases h
    exact locks_getConnection timeoutMs cleanupClock idleClock used result pushed
  | returnConnection i connection used idleClock used' =>
    cases h
    exact locks_returnConnection i connection used idleClock used'
  | count =>
    cases h
    exact ⟨_, locks_act _ _ rfl fun held ↦ (relocks_guard held).trans (Bool.and_true _).symm⟩
  | shutdown =>
    cases h
    exact locks_shutdown
  | finish => exact locks_finish h

/-- Some callback that runs was invoked under the mutex just when the thread holds it. -/
theorem mem_held_iff : () ∈ List.replicate t.depth () ↔ t.stack.any Frame.locked = true := by
  rw [List.mem_replicate, depth, Ne, List.countP_eq_zero, List.any_eq_true]
  push Not
  exact ⟨fun h ↦ h.1, fun h ↦ ⟨h, rfl⟩⟩

/-- **When the mutex of the pool is locked twice**: in a run of one thread the mutex is never
acquired while it is held just when no callback that `return_connection` or `shutdown` has invoked
for one that waits makes a call that locks it, nor does a callback that is invoked meanwhile. -/
theorem free_iff {ls : List Move} (hrun : (system cfg).Run fresh ls t) :
    (system cfg).Along (fun _ _ u ↦ u.Free) fresh ls ↔
      ((system cfg).guarded Outside).Run fresh ls t := by
  refine System.along_iff (P := fun t ↦ t.Free ∧
    LockEvent.heldAfter [] t.events = List.replicate t.depth ()) ?_ ?_ ⟨rfl, rfl⟩ hrun
  · rintro t move u ⟨hfree, hheld⟩ hstep
    obtain ⟨events, hlocks⟩ := locks_step hstep
    rw [Free] at hfree
    rw [Free, hlocks.events_eq, LockEvent.relocks_append, hfree, hheld, hlocks.relocks,
      Bool.false_or, Outside, ← mem_held_iff]
    by_cases hmem : () ∈ List.replicate t.depth ()
    · simp [hmem]
    · simp [hmem]
  · rintro t move u ⟨hfree, hheld⟩ hstep hfree'
    obtain ⟨events, hlocks⟩ := locks_step hstep
    refine ⟨hfree', ?_⟩
    rw [hlocks.events_eq, LockEvent.heldAfter_append, hheld, hlocks.held]

end PoolThread

end Net
end ChwellCore
