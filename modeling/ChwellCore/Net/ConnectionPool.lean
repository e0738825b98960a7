import ChwellCore.Lib.Pool
import ChwellCore.Lib.Run

/-!
# The connection pool

A `ConnectionPool` lends connections to the callers of `get_connection`, each of whom gives one back
with `return_connection`.  Everything that happens to the table of connections happens under the
mutex of the pool, but a new connection is opened outside it, and `get_connection` is a sequence of
steps with other calls in between: a look at `shutdown_`, the critical section in which it finds an
idle connection, becomes a waiter or decides to open a connection, the opening, the decrement of
`pending_creates_`, and the critical section in which the new connection is put into the table.

`one_borrower` says that no connection is ever lent to two callers at once, and that
`cleanup_expired` closes none that is lent.  The invariant is about who has a connection: the table,
if it is marked as not in use, or one of the calls (`holdings`).  No step makes a second holding of
it.  That a connection in use is in the table is not part of the invariant, because it is not true:
`shutdown` throws the table away.

Connections are numbered in the order in which they are opened.  A critical section reads the clock
more than once, and what it reads is arbitrary.
-/

set_option autoImplicit false

namespace ChwellCore
namespace Net

/-- `ConnectionPoolConfig`, without what only the opening of a connection looks at. -/
structure ConnectionPoolConfig where
  minConnections : ℤ := 2
  maxConnections : ℤ := 10
  idleTimeoutMs : ℤ := 300000
  maxLifetimeMs : ℤ := 0

/-- `PooledConnection`. -/
structure PooledConnection where
  connection : ℕ
  createTime : ℤ
  lastUsedTime : ℤ
  inUse : Bool
  isValid : Bool
deriving DecidableEq, Repr

/-- What `create_connection` leaves in a `PooledConnection` when it succeeds. -/
def createConnection (connection : ℕ) (now : ℤ) : PooledConnection :=
  { connection, createTime := now, lastUsedTime := now, inUse := false, isValid := true }

variable (cfg : ConnectionPoolConfig)

/-- `validate_connection`, and what it leaves of the connection. -/
def validateConnection (now : ℤ) (c : PooledConnection) : Bool × PooledConnection :=
  if ¬ c.isValid then (false, c)
  else if cfg.maxLifetimeMs > 0 ∧ now - c.createTime > cfg.maxLifetimeMs then
    (false, { c with isValid := false })
  else if ¬ c.inUse ∧ now - c.lastUsedTime > cfg.idleTimeoutMs then
    (false, { c with isValid := false })
  else (true, c)

/-- `cleanup_expired`: what it leaves of the table, and what it closes.  `clock c` is read when the
loop comes to connection `c`. -/
def cleanupExpired (clock : ℕ → ℤ) : List PooledConnection → List PooledConnection × List ℕ
  | [] => ([], [])
  | c :: cs =>
    let v := validateConnection cfg (clock c.connection) c
    let r := cleanupExpired clock cs
    if ¬ v.1 ∧ ¬ v.2.inUse then (r.1, c.connection :: r.2) else (v.2 :: r.1, r.2)

/-- `try_get_idle`: the connection that it has marked, if any, and the table. -/
def tryGetIdle (clock : ℕ → ℤ) (used : ℤ) :
    List PooledConnection → Option ℕ × List PooledConnection
  | [] => (none, [])
  | c :: cs =>
    if ¬ c.inUse ∧ c.isValid then
      let v := validateConnection cfg (clock c.connection) c
      if v.1 then (some c.connection, { v.2 with inUse := true, lastUsedTime := used } :: cs)
      else
        let r := tryGetIdle clock used cs
        (r.1, v.2 :: r.2)
    else
      let r := tryGetIdle clock used cs
      (r.1, c :: r.2)

/-- The loop of `return_connection` over the table: the connection is no longer in use, and it is
closed if it is not valid. -/
def release (connection : ℕ) (used : ℤ) :
    List PooledConnection → List PooledConnection × List ℕ
  | [] => ([], [])
  | c :: cs =>
    if c.connection = connection then
      ({ c with inUse := false, lastUsedTime := used } :: cs,
        if ¬ c.isValid then [connection] else [])
    else
      let r := release connection used cs
      (c :: r.1, r.2)

/-- Where a call on the pool is. -/
inductive Call where
  /-- `get_connection`, when the pool was not shut down. -/
  | entering (timeoutMs : ℤ)
  /-- `get_connection`, when it has counted itself among the creators. -/
  | creating
  /-- `get_connection`, when `create_connection` has returned. -/
  | created (c : Option PooledConnection)
  /-- `get_connection`, when it has decremented `pending_creates_`. -/
  | pushing (c : PooledConnection)
  /-- `get_connection` has returned, and its callback is among the waiting ones. -/
  | waiting
  /-- The callback has been given the connection, or is about to be. -/
  | holding (connection : ℕ)
  /-- `init`, with the number of connections that it has yet to create. -/
  | initialising (left : ℕ)
  /-- `init`, with a connection for the table. -/
  | initPushing (left : ℕ) (c : PooledConnection)
  /-- `shutdown`, when it has set the flag. -/
  | sweeping
  /-- The call is over: its callback was given nothing, or the connection has been returned. -/
  | finished
deriving DecidableEq

/-- `ConnectionPool`, and the calls on it.  A callback that waits is known by its call. -/
structure ConnectionPool where
  connections : List PooledConnection
  waitingCallbacks : List ℕ
  shutdown : Bool
  pendingCreates : ℤ
  /-- The connections that the pool has closed. -/
  closed : List ℕ
  /-- The number of connections that have been opened. -/
  opened : ℕ
  calls : Pool Call
deriving DecidableEq

/-- A step of one of the threads. -/
inductive PoolStep where
  /-- `get_connection` looks at `shutdown_`. -/
  | getConnection (timeoutMs : ℤ)
  /-- Its first critical section. -/
  | enter (i : ℕ) (cleanupClock idleClock : ℕ → ℤ) (used : ℤ)
  /-- `create_connection` returns, with the time of a connection or without one. -/
  | create (i : ℕ) (result : Option ℤ)
  /-- `--pending_creates_`. -/
  | settle (i : ℕ)
  /-- Its second critical section. -/
  | push (i : ℕ) (used : ℤ)
  /-- The holder of a connection calls `return_connection`. -/
  | returnConnection (i : ℕ) (used : ℤ) (idleClock : ℕ → ℤ) (used' : ℤ)
  /-- `init` looks at `shutdown_`. -/
  | init
  /-- `create_connection` returns in `init`. -/
  | initCreate (i : ℕ) (result : Option ℤ)
  /-- The critical section of `init`. -/
  | initPush (i : ℕ)
  /-- `shutdown` sets the flag. -/
  | shutdown
  /-- Its critical section. -/
  | sweep (i : ℕ)
  /-- `cleanup_expired` by itself. -/
  | cleanup (clock : ℕ → ℤ)

namespace ConnectionPool

/-- The pool after its constructor. -/
def fresh : ConnectionPool := ⟨[], [], false, 0, [], 0, []⟩

/-- One call is at a new place. -/
def move (s : ConnectionPool) (i : ℕ) (call : Call) : ConnectionPool :=
  { s with calls := s.calls.put i call }

/-- A connection is opened. -/
def openAt (s : ConnectionPool) (now : ℤ) : PooledConnection × ConnectionPool :=
  (createConnection s.opened now, { s with opened := s.opened + 1 })

/-- `cleanup_expired` as a step of the pool. -/
def clean (s : ConnectionPool) (clock : ℕ → ℤ) : ConnectionPool :=
  let r := cleanupExpired cfg clock s.connections
  { s with connections := r.1, closed := s.closed ++ r.2 }

/-- The first critical section of `get_connection`. -/
def enter (s : ConnectionPool) (i : ℕ) (timeoutMs : ℤ) (cleanupClock idleClock : ℕ → ℤ)
    (used : ℤ) : ConnectionPool :=
  let s := s.clean cfg cleanupClock
  let r := tryGetIdle cfg idleClock used s.connections
  let s := { s with connections := r.2 }
  match r.1 with
  | some connection => s.move i (.holding connection)
  | none =>
    if s.connections.length + s.pendingCreates < cfg.maxConnections then
      { s with pendingCreates := s.pendingCreates + 1 }.move i .creating
    else if timeoutMs ≠ 0 then
      { s with waitingCallbacks := s.waitingCallbacks ++ [i] }.move i .waiting
    else s.move i .finished

/-- The second half of `return_connection`: the first of the waiting callbacks is given an idle
connection, if there is one. -/
def serveWaiter (s : ConnectionPool) (idleClock : ℕ → ℤ) (used : ℤ) : ConnectionPool :=
  match s.waitingCallbacks with
  | [] => s
  | j :: js =>
    let r := tryGetIdle cfg idleClock used s.connections
    let s := { s with connections := r.2 }
    match r.1 with
    | some connection => { s with waitingCallbacks := js }.move j (.holding connection)
    | none => s

/-- The first half of `return_connection`, of the connection that call `i` holds. -/
def giveBack (s : ConnectionPool) (i connection : ℕ) (used : ℤ) : ConnectionPool :=
  let r := release connection used s.connections
  { s with connections := r.1, closed := s.closed ++ r.2 }.move i .finished

/-- `return_connection`. -/
def returnConnection (s : ConnectionPool) (i connection : ℕ) (used : ℤ) (idleClock : ℕ → ℤ)
    (used' : ℤ) : ConnectionPool :=
  (s.giveBack i connection used).serveWaiter cfg idleClock used'

/-- The critical section of `shutdown`. -/
def sweep (s : ConnectionPool) (i : ℕ) : ConnectionPool :=
  { s with
    connections := []
    closed := s.closed ++ s.connections.map PooledConnection.connection
    waitingCallbacks := []
    calls := (s.waitingCallbacks.foldl (fun calls j ↦ calls.put j .finished) s.calls).put i
      .finished }

/-- One step; `none` if there is no call at that place. -/
def step (s : ConnectionPool) : PoolStep → Option ConnectionPool
  | .getConnection timeoutMs =>
    some { s with calls := s.calls.spawn (if s.shutdown then .finished else .entering timeoutMs) }
  | .enter i cleanupClock idleClock used =>
    match s.calls[i]? with
    | some (.entering timeoutMs) => some (s.enter cfg i timeoutMs cleanupClock idleClock used)
    | _ => none
  | .create i result =>
    match s.calls[i]? with
    | some .creating =>
      match result with
      | some now => some ((s.openAt now).2.move i (.created (s.openAt now).1))
      | none => some (s.move i (.created none))
    | _ => none
  | .settle i =>
    match s.calls[i]? with
    | some (.created c) =>
      let s := { s with pendingCreates := s.pendingCreates - 1 }
      match c with
      | some c => some (s.move i (.pushing c))
      | none => some (s.move i .finished)
    | _ => none
  | .push i used =>
    match s.calls[i]? with
    | some (.pushing c) =>
      if s.shutdown then some (s.move i (.holding c.connection))
      else
        let c := { c with inUse := true, lastUsedTime := used }
        some ({ s with connections := s.connections ++ [c] }.move i (.holding c.connection))
    | _ => none
  | .returnConnection i used idleClock used' =>
    match s.calls[i]? with
    | some (.holding connection) => some (s.returnConnection cfg i connection used idleClock used')
    | _ => none
  | .init =>
    some { s with calls := s.calls.spawn
                    (if s.shutdown then .finished else .initialising cfg.minConnections.toNat) }
  | .initCreate i result =>
    match s.calls[i]? with
    | some (.initialising (left + 1)) =>
      match result with
      | some now => some ((s.openAt now).2.move i (.initPushing left (s.openAt now).1))
      | none => some (s.move i (.initialising left))
    | _ => none
  | .initPush i =>
    match s.calls[i]? with
    | some (.initPushing left c) =>
      some ({ s with connections := s.connections ++ [c] }.move i (.initialising left))
    | _ => none
  | .shutdown =>
    if s.shutdown then some s
    else some { s with shutdown := true, calls := s.calls.spawn .sweeping }
  | .sweep i =>
    match s.calls[i]? with
    | some .sweeping => some (s.sweep i)
    | _ => none
  | .cleanup clock => some (s.clean cfg clock)

/-- The system of all interleavings. -/
def system : System ConnectionPool PoolStep := System.ofPartial (step cfg)

/-- What `cleanup_expired` closes in a step. -/
def expired (s : ConnectionPool) : PoolStep → List ℕ
  | .enter _ cleanupClock _ _ => (cleanupExpired cfg cleanupClock s.connections).2
  | .cleanup clock => (cleanupExpired cfg clock s.connections).2
  | _ => []

/-- The connection is lent to call `i`. -/
def Lent (s : ConnectionPool) (connection i : ℕ) : Prop :=
  s.calls[i]? = some (.holding connection)

/-- What a step can do. -/
inductive Step (s : ConnectionPool) : PoolStep → ConnectionPool → Prop
  | getConnection (timeoutMs : ℤ) : Step s (.getConnection timeoutMs)
      { s with calls := s.calls.spawn (if s.shutdown then .finished else .entering timeoutMs) }
  | enter {i : ℕ} {timeoutMs : ℤ} (cleanupClock idleClock : ℕ → ℤ) (used : ℤ) :
      s.calls[i]? = some (.entering timeoutMs) →
      Step s (.enter i cleanupClock idleClock used)
        (s.enter cfg i timeoutMs cleanupClock idleClock used)
  | create {i : ℕ} (now : ℤ) : s.calls[i]? = some .creating →
      Step s (.create i (some now)) ((s.openAt now).2.move i (.created (s.openAt now).1))
  | createFailed {i : ℕ} : s.calls[i]? = some .creating →
      Step s (.create i none) (s.move i (.created none))
  | settle {i : ℕ} {c : PooledConnection} : s.calls[i]? = some (.created (some c)) →
      Step s (.settle i)
        ({ s with pendingCreates := s.pendingCreates - 1 }.move i (.pushing c))
  | settleFailed {i : ℕ} : s.calls[i]? = some (.created none) →
      Step s (.settle i) ({ s with pendingCreates := s.pendingCreates - 1 }.move i .finished)
  | push {i : ℕ} {c : PooledConnection} (used : ℤ) : s.calls[i]? = some (.pushing c) →
      s.shutdown = false →
      Step s (.push i used)
        ({ s with connections :=
                    s.connections ++ [{ c with inUse := true, lastUsedTime := used }] }.move i
          (.holding c.connection))
  | pushLate {i : ℕ} {c : PooledConnection} (used : ℤ) : s.calls[i]? = some (.pushing c) →
      s.shutdown = true → Step s (.push i used) (s.move i (.holding c.connection))
  | returnConnection {i c : ℕ} (used : ℤ) (idleClock : ℕ → ℤ) (used' : ℤ) :
      s.calls[i]? = some (.holding c) →
      Step s (.returnConnection i used idleClock used')
        (s.returnConnection cfg i c used idleClock used')
  | init : Step s .init
      { s with calls := s.calls.spawn
                 (if s.shutdown then .finished else .initialising cfg.minConnections.toNat) }
  | initCreate {i left : ℕ} (now : ℤ) : s.calls[i]? = some (.initialising (left + 1)) →
      Step s (.initCreate i (some now))
        ((s.openAt now).2.move i (.initPushing left (s.openAt now).1))
  | initCreateFailed {i left : ℕ} : s.calls[i]? = some (.initialising (left + 1)) →
      Step s (.initCreate i none) (s.move i (.initialising left))
  | initPush {i left : ℕ} {c : PooledConnection} : s.calls[i]? = some (.initPushing left c) →
      Step s (.initPush i)
        ({ s with connections := s.connections ++ [c] }.move i (.initialising left))
  | shutdown : s.shutdown = false →
      Step s .shutdown { s with shutdown := true, calls := s.calls.spawn .sweeping }
  | shutdownAgain : s.shutdown = true → Step s .shutdown s
  | sweep {i : ℕ} : s.calls[i]? = some .sweeping → Step s (.sweep i) (s.sweep i)
  | cleanup (clock : ℕ → ℤ) : Step s (.cleanup clock) (s.clean cfg clock)

theorem step_cases {s s' : ConnectionPool} {l : PoolStep} (hs : step cfg s l = some s') :
    Step cfg s l s' := by
  cases l with
  | getConnection timeoutMs =>
    cases hs
    exact .getConnection timeoutMs
  | enter i cleanupClock idleClock used =>
    simp only [step] at hs
    split at hs <;> cases hs
    next hi => exact .enter cleanupClock idleClock used hi
  | create i result =>
    simp only [step] at hs
    split at hs
    · next hi =>
      split at hs <;> cases hs
      · exact .create _ hi
      · exact .createFailed hi
    · cases hs
  | settle i =>
    simp only [step] at hs
    split at hs
    · next hi =>
      split at hs <;> cases hs
      · exact .settle hi
      · exact .settleFailed hi
    · cases hs
  | push i used =>
    simp only [step] at hs
    split at hs
    · next hi =>
      split at hs <;> cases hs
      · next hdown => exact .pushLate used hi hdown
      · next hdown => exact .push used hi (Bool.eq_false_of_not_eq_true hdown)
    · cases hs
  | returnConnection i used idleClock used' =>
    simp only [step] at hs
    split at hs <;> cases hs
    next hi => exact .returnConnection used idleClock used' hi
  | init =>
    cases hs
    exact .init
  | initCreate i result =>
    simp only [step] at hs
    split at hs
    · next hi =>
      split at hs <;> cases hs
      · exact .initCreate _ hi
      · exact .initCreateFailed hi
    · cases hs
  | initPush i =>
    simp only [step] at hs
    split at hs <;> cases hs
    next hi => exact .initPush hi
  | shutdown =>
    simp only [step] at hs
    split at hs <;> cases hs
    · next hdown => exact .shutdownAgain hdown
    · next hdown => exact .shutdown (Bool.eq_false_of_not_eq_true hdown)
  | sweep i =>
    simp only [step] at hs
    split at hs <;> cases hs
    next hi => exact .sweep hi
  | cleanup clock =>
    cases hs
    exact .cleanup clock

end ConnectionPool

/-! ## Marks

All that matters about the table is which connections are in it and which of them are in use. -/

section Marks

variable {cfg} {clock : ℕ → ℤ} {used : ℤ} {connection : ℕ} {cs : List PooledConnection}

/-- The connections of a table, and whether they are in use. -/
def marks (cs : List PooledConnection) : List (ℕ × Bool) :=
  cs.map fun c ↦ (c.connection, c.inUse)

theorem validateConnection_mark (cfg : ConnectionPoolConfig) (now : ℤ) (c : PooledConnection) :
    (validateConnection cfg now c).2.connection = c.connection ∧
      (validateConnection cfg now c).2.inUse = c.inUse := by
  rw [validateConnection]
  split
  · exact ⟨rfl, rfl⟩
  · split
    · exact ⟨rfl, rfl⟩
    · split <;> exact ⟨rfl, rfl⟩

theorem marks_cons (c : PooledConnection) (cs : List PooledConnection) :
    marks (c :: cs) = (c.connection, c.inUse) :: marks cs := rfl

theorem marks_validateConnection_cons (now : ℤ) (c : PooledConnection)
    (cs : List PooledConnection) :
    marks ((validateConnection cfg now c).2 :: cs) = (c.connection, c.inUse) :: marks cs := by
  obtain ⟨hc, hu⟩ := validateConnection_mark cfg now c
  rw [marks_cons, hc, hu]

/-- `cleanup_expired` leaves out connections that are not in use. -/
theorem marks_cleanupExpired (cfg : ConnectionPoolConfig) (clock : ℕ → ℤ)
    (cs : List PooledConnection) :
    (marks (cleanupExpired cfg clock cs).1).Sublist (marks cs) ∧
      ∀ c ∈ (cleanupExpired cfg clock cs).2, (c, false) ∈ marks cs := by
  induction cs with
  | nil => exact ⟨.slnil, fun c hc ↦ absurd hc List.not_mem_nil⟩
  | cons c cs ih =>
    rw [cleanupExpired]
    split
    · next hexp =>
      have hidle : c.inUse = false := by
        rw [(validateConnection_mark cfg (clock c.connection) c).2] at hexp
        exact Bool.eq_false_of_not_eq_true hexp.2
      refine ⟨ih.1.cons _, fun d hd ↦ ?_⟩
      rcases List.mem_cons.1 hd with rfl | hd
      · rw [marks_cons, hidle]
        exact List.mem_cons_self
      · exact List.mem_cons_of_mem _ (ih.2 d hd)
    · rw [marks_validateConnection_cons, marks_cons]
      exact ⟨ih.1.cons_cons _, fun d hd ↦ List.mem_cons_of_mem _ (ih.2 d hd)⟩

/-- What `try_get_idle` does to the marks: nothing, or it marks an idle connection. -/
theorem marks_tryGetIdle (cfg : ConnectionPoolConfig) (clock : ℕ → ℤ) (used : ℤ)
    (cs : List PooledConnection) :
    ((tryGetIdle cfg clock used cs).1 = none ∧ marks (tryGetIdle cfg clock used cs).2 = marks cs) ∨
    ∃ c l r, (tryGetIdle cfg clock used cs).1 = some c ∧ marks cs = l ++ (c, false) :: r ∧
      marks (tryGetIdle cfg clock used cs).2 = l ++ (c, true) :: r := by
  induction cs with
  | nil => exact .inl ⟨rfl, rfl⟩
  | cons c cs ih =>
    -- a connection that is passed over keeps its mark
    have hskip : ∀ c' : PooledConnection, c'.connection = c.connection → c'.inUse = c.inUse →
        ((tryGetIdle cfg clock used cs).1 = none ∧
          marks (c' :: (tryGetIdle cfg clock used cs).2) = marks (c :: cs)) ∨
        ∃ d l r, (tryGetIdle cfg clock used cs).1 = some d ∧
          marks (c :: cs) = l ++ (d, false) :: r ∧
          marks (c' :: (tryGetIdle cfg clock used cs).2) = l ++ (d, true) :: r := by
      intro c' hc hu
      rw [marks_cons, marks_cons, hc, hu]
      rcases ih with ⟨hnone, hmarks⟩ | ⟨d, l, r, hsome, hl, hr⟩
      · exact .inl ⟨hnone, by rw [hmarks]⟩
      · exact .inr ⟨d, _ :: l, r, hsome, by rw [hl]; rfl, by rw [hr]; rfl⟩
    have hv := validateConnection_mark cfg (clock c.connection) c
    rw [tryGetIdle]
    dsimp only
    split
    · next hidle =>
      split
      · refine .inr ⟨c.connection, [], marks cs, rfl, ?_, ?_⟩
        · rw [marks_cons, Bool.eq_false_of_not_eq_true hidle.1]
          rfl
        · rw [marks_cons, hv.1]
          rfl
      · exact hskip _ hv.1 hv.2
    · exact hskip _ rfl rfl

/-- What `return_connection` does to the marks: nothing, if the connection is not there, or it
takes a mark away. -/
theorem marks_release (connection : ℕ) (used : ℤ) (cs : List PooledConnection) :
    marks (release connection used cs).1 = marks cs ∨
    ∃ l r b, marks cs = l ++ (connection, b) :: r ∧
      marks (release connection used cs).1 = l ++ (connection, false) :: r := by
  induction cs with
  | nil => exact .inl rfl
  | cons c cs ih =>
    rw [release]
    split
    · next hc =>
      refine .inr ⟨[], marks cs, c.inUse, ?_, ?_⟩
      · rw [marks_cons, hc]
        rfl
      · rw [marks_cons, hc]
        rfl
    · rw [marks_cons, marks_cons]
      rcases ih with ih | ⟨l, r, b, hl, hr⟩
      · exact .inl (by rw [ih])
      · exact .inr ⟨_ :: l, r, b, by rw [hl]; rfl, by rw [hr]; rfl⟩

end Marks

/-! ## Holdings -/

/-- The connection that a call has: one that it has opened and not put into the table, or one that
it was lent. -/
def Call.has : Call → Multiset ℕ
  | .created (some c) | .pushing c | .initPushing _ c => {c.connection}
  | .holding connection => {connection}
  | .created none | .entering _ | .creating | .waiting | .initialising _ | .sweeping
  | .finished => 0

/-- The connections that are marked as not in use. -/
def idle (ms : List (ℕ × Bool)) : Multiset ℕ := ((ms.filter fun m ↦ !m.2).map Prod.fst : List ℕ)

section Idle

variable {l r : List (ℕ × Bool)} {c : ℕ}

theorem idle_append (l r : List (ℕ × Bool)) : idle (l ++ r) = idle l + idle r := by
  simp [idle]

@[simp] theorem idle_cons_false : idle ((c, false) :: r) = c ::ₘ idle r := rfl

@[simp] theorem idle_cons_true : idle ((c, true) :: r) = idle r := rfl

theorem idle_singleton_le (c : ℕ) (b : Bool) : idle [(c, b)] ≤ {c} := by
  cases b with
  | false => exact le_rfl
  | true => exact Multiset.zero_le _

theorem idle_le (h : l.Sublist r) : idle l ≤ idle r :=
  Multiset.coe_le.2 ((h.filter _).map _).subperm

theorem mem_idle (h : (c, false) ∈ l) : c ∈ idle l :=
  Multiset.mem_coe.2 (List.mem_map.2 ⟨_, List.mem_filter.2 ⟨h, rfl⟩, rfl⟩)

variable (clock : ℕ → ℤ) (used : ℤ) (cs : List PooledConnection)

theorem idle_cleanupExpired :
    idle (marks (cleanupExpired cfg clock cs).1) ≤ idle (marks cs) :=
  idle_le (marks_cleanupExpired cfg clock cs).1

/-- What `try_get_idle` gives it takes from the table. -/
theorem idle_tryGetIdle :
    idle (marks (tryGetIdle cfg clock used cs).2) +
      ((tryGetIdle cfg clock used cs).1.elim 0 fun c ↦ {c}) = idle (marks cs) := by
  rcases marks_tryGetIdle cfg clock used cs with ⟨hnone, hmarks⟩ | ⟨c, l, r, hc, hl, hr⟩
  · rw [hnone, hmarks]
    exact add_zero _
  · rw [hc, hl, hr, idle_append, idle_append, idle_cons_false, idle_cons_true, add_assoc,
      Option.elim_some, add_comm (idle r), Multiset.singleton_add]

/-- What `return_connection` gives to the table it has been given. -/
theorem idle_release (connection : ℕ) :
    idle (marks (release connection used cs).1) ≤ idle (marks cs) + {connection} := by
  rcases marks_release connection used cs with hmarks | ⟨l, r, b, hl, hr⟩
  · rw [hmarks]
    exact Multiset.le_add_right _ _
  · rw [hl, hr, idle_append, idle_append, idle_cons_false, add_assoc]
    refine Multiset.add_le_add_left ?_
    cases b with
    | false =>
      rw [idle_cons_false]
      exact Multiset.le_add_right _ _
    | true => rw [idle_cons_true, add_comm, Multiset.singleton_add]

end Idle

namespace ConnectionPool

variable {cfg} {s s' : ConnectionPool} {i : ℕ} {p q : Call}

/-- Who has which connection: the table, if it is not in use, and the calls. -/
def holdings (s : ConnectionPool) : Multiset ℕ :=
  idle (marks s.connections) + s.calls.total Call.has

/-- The invariant. -/
structure Inv (s : ConnectionPool) : Prop where
  nodup : s.holdings.Nodup
  opened : ∀ c ∈ s.holdings, c < s.opened
  queued : ∀ j ∈ s.waitingCallbacks, s.calls[j]? = some .waiting
  queue_nodup : s.waitingCallbacks.Nodup

theorem inv_fresh : fresh.Inv :=
  ⟨Multiset.nodup_zero, fun c hc ↦ absurd hc (Multiset.notMem_zero c),
    fun _ hj ↦ absurd hj List.not_mem_nil, .nil⟩

/-- No step but an opening makes a holding. -/
theorem Inv.of_le (h : s.Inv) (hle : s'.holdings ≤ s.holdings) (hopened : s'.opened = s.opened)
    (hqueued : ∀ j ∈ s'.waitingCallbacks, s'.calls[j]? = some .waiting)
    (hnodup : s'.waitingCallbacks.Nodup) : s'.Inv :=
  ⟨Multiset.nodup_of_le hle h.nodup,
    fun c hc ↦ hopened ▸ h.opened c (Multiset.mem_of_le hle hc), hqueued, hnodup⟩

/-- A call moves on, and connections change hands between it and the table. -/
theorem holdings_le (hi : s.calls[i]? = some p) (hcalls : s'.calls = s.calls.put i q)
    (hle : idle (marks s'.connections) + q.has ≤ idle (marks s.connections) + p.has) :
    s'.holdings ≤ s.holdings := by
  have htotal := Pool.total_put Call.has hi q
  refine le_of_add_le_add_right (a := p.has) ?_
  calc s'.holdings + p.has
      = idle (marks s'.connections) + q.has + s.calls.total Call.has := by
        rw [holdings, hcalls, add_assoc, htotal]
        abel
    _ ≤ idle (marks s.connections) + p.has + s.calls.total Call.has := by gcongr
    _ = s.holdings + p.has := by
        rw [holdings]
        abel

/-- A call that does not wait is not in the queue. -/
theorem Inv.ne_of_queued (h : s.Inv) (hi : s.calls[i]? = some p) (hp : p ≠ .waiting) {j : ℕ}
    (hj : j ∈ s.waitingCallbacks) : i ≠ j := by
  rintro rfl
  exact hp (Option.some.inj (hi.symm.trans (h.queued i hj)))

/-- The queue does not mind a call that does not wait. -/
theorem Inv.queued_put (h : s.Inv) (hi : s.calls[i]? = some p) (hp : p ≠ .waiting) (q : Call) :
    ∀ j ∈ s.waitingCallbacks, (s.calls.put i q)[j]? = some .waiting := by
  intro j hj
  rw [Pool.put, List.getElem?_set_ne (h.ne_of_queued hi hp hj)]
  exact h.queued j hj

theorem Inv.move_of_le (h : s.Inv) (hi : s.calls[i]? = some p) (hp : p ≠ .waiting)
    (hcalls : s'.calls = s.calls.put i q) (hwait : s'.waitingCallbacks = s.waitingCallbacks)
    (hopened : s'.opened = s.opened)
    (hle : idle (marks s'.connections) + q.has ≤ idle (marks s.connections) + p.has) : s'.Inv := by
  refine h.of_le (holdings_le hi hcalls hle) hopened ?_ (hwait ▸ h.queue_nodup)
  rw [hwait, hcalls]
  exact h.queued_put hi hp q

/-- A call opens a connection. -/
theorem Inv.move_opened (h : s.Inv) (hi : s.calls[i]? = some p) (hp : p ≠ .waiting)
    (hhas : p.has = 0) (hq : q.has = {s.opened}) :
    ({ s with opened := s.opened + 1 }.move i q).Inv := by
  have hholdings : ({ s with opened := s.opened + 1 }.move i q).holdings =
      s.opened ::ₘ s.holdings := by
    have htotal := Pool.total_put Call.has hi q
    rw [hhas, add_zero, hq] at htotal
    rw [holdings, holdings, move, htotal, ← Multiset.singleton_add]
    abel
  refine ⟨?_, fun c hc ↦ ?_, h.queued_put hi hp q, h.queue_nodup⟩
  · rw [hholdings, Multiset.nodup_cons]
    exact ⟨fun hmem ↦ lt_irrefl _ (h.opened _ hmem), h.nodup⟩
  · rw [hholdings, Multiset.mem_cons] at hc
    rcases hc with rfl | hc
    · exact Nat.lt_succ_self _
    · exact (h.opened c hc).trans (Nat.lt_succ_self _)

/-- A call begins. -/
theorem Inv.spawn (h : s.Inv) (hp : p.has = 0) (hcalls : s'.calls = s.calls.spawn p)
    (hwait : s'.waitingCallbacks = s.waitingCallbacks) (hopened : s'.opened = s.opened)
    (hconn : s'.connections = s.connections) : s'.Inv := by
  have hholdings : s'.holdings = s.holdings := by
    rw [holdings, holdings, hconn, hcalls, Pool.total_spawn, hp, add_zero]
  refine h.of_le hholdings.le hopened (fun j hj ↦ ?_) (hwait ▸ h.queue_nodup)
  rw [hwait] at hj
  have hj := h.queued j hj
  rw [hcalls, Pool.spawn, List.getElem?_append_left (List.getElem?_eq_some_iff.1 hj).1]
  exact hj

theorem Inv.clean (h : s.Inv) (cfg : ConnectionPoolConfig) (clock : ℕ → ℤ) :
    (s.clean cfg clock).Inv :=
  h.of_le (add_le_add_left (idle_cleanupExpired cfg clock s.connections) _) rfl h.queued
    h.queue_nodup

/-- A call joins the queue. -/
theorem Inv.wait (h : s.Inv) (hi : s.calls[i]? = some p) (hp : p ≠ .waiting)
    (hcalls : s'.calls = s.calls.put i .waiting)
    (hwait : s'.waitingCallbacks = s.waitingCallbacks ++ [i]) (hopened : s'.opened = s.opened)
    (hle : idle (marks s'.connections) ≤ idle (marks s.connections) + p.has) : s'.Inv := by
  have hnot : i ∉ s.waitingCallbacks := fun hmem ↦ h.ne_of_queued hi hp hmem rfl
  refine h.of_le (holdings_le hi hcalls ((add_zero _).trans_le hle)) hopened ?_ ?_
  · intro j hj
    rw [hwait] at hj
    rw [hcalls]
    rcases List.mem_append.1 hj with hj | hj
    · exact h.queued_put hi hp _ j hj
    · rw [List.mem_singleton.1 hj]
      exact List.getElem?_set_self (List.getElem?_eq_some_iff.1 hi).1
  · rw [hwait]
    exact List.nodup_append.2 ⟨h.queue_nodup, List.nodup_singleton i, fun a ha b hb hab ↦
      hnot (List.mem_singleton.1 hb ▸ hab ▸ ha)⟩

/-- The first of the queue is given what `try_get_idle` has found. -/
theorem Inv.serveWaiter (h : s.Inv) (clock : ℕ → ℤ) (used : ℤ) :
    (s.serveWaiter cfg clock used).Inv := by
  rw [ConnectionPool.serveWaiter]
  split
  · exact h
  · next j js hqueue =>
    have hidle := idle_tryGetIdle cfg clock used s.connections
    have hj := h.queued j (hqueue ▸ List.mem_cons_self)
    have hnodup := h.queue_nodup
    rw [hqueue, List.nodup_cons] at hnodup
    dsimp only
    split
    · next c hc =>
      rw [hc] at hidle
      refine h.of_le (holdings_le hj rfl ((Eq.le hidle).trans (Multiset.le_add_right _ _))) rfl
        (fun k hk ↦ ?_) hnodup.2
      have hjk : j ≠ k := fun hjk ↦ hnodup.1 (hjk ▸ hk)
      show (s.calls.set j _)[k]? = _
      rw [List.getElem?_set_ne hjk]
      exact h.queued k (hqueue ▸ List.mem_cons_of_mem _ hk)
    · next hnone =>
      rw [hnone] at hidle
      exact h.of_le (add_le_add_left ((add_zero _).symm.trans hidle).le _) rfl h.queued
        h.queue_nodup

/-- The first critical section of `get_connection`. -/
theorem Inv.enter (h : s.Inv) {timeoutMs : ℤ} (hi : s.calls[i]? = some (.entering timeoutMs))
    (cleanupClock idleClock : ℕ → ℤ) (used : ℤ) :
    (s.enter cfg i timeoutMs cleanupClock idleClock used).Inv := by
  have h := h.clean cfg cleanupClock
  have hp : Call.entering timeoutMs ≠ .waiting := Call.noConfusion
  replace hi : (s.clean cfg cleanupClock).calls[i]? = some (.entering timeoutMs) := hi
  have hidle := idle_tryGetIdle cfg idleClock used (s.clean cfg cleanupClock).connections
  rw [ConnectionPool.enter]
  generalize s.clean cfg cleanupClock = s at h hi hidle
  dsimp only
  split
  · next c hc =>
    rw [hc] at hidle
    exact h.move_of_le hi hp rfl rfl rfl ((Eq.le hidle).trans (Multiset.le_add_right _ _))
  · next hnone =>
    rw [hnone] at hidle
    have hle := (Eq.le hidle).trans (Multiset.le_add_right _ (Call.entering timeoutMs).has)
    split
    · exact h.move_of_le hi hp rfl rfl rfl hle
    · split
      · exact h.wait hi hp rfl rfl rfl ((add_zero _).symm.trans_le hle)
      · exact h.move_of_le hi hp rfl rfl rfl hle

theorem Inv.giveBack (h : s.Inv) {c : ℕ} (hi : s.calls[i]? = some (.holding c)) (used : ℤ) :
    (s.giveBack i c used).Inv :=
  h.move_of_le hi Call.noConfusion rfl rfl rfl
    ((add_zero _).trans_le (idle_release used s.connections c))

/-- A call that ends gives up what it has. -/
theorem total_put_finished (calls : Pool Call) (i : ℕ) :
    (calls.put i .finished).total Call.has ≤ calls.total Call.has := by
  rcases hi : calls[i]? with _ | p
  · rw [Pool.put, List.set_eq_of_length_le (List.getElem?_eq_none_iff.1 hi)]
  · have htotal := Pool.total_put Call.has hi .finished
    rw [show Call.finished.has = 0 from rfl, add_zero] at htotal
    rw [← htotal]
    exact Multiset.le_add_right _ _

theorem Inv.sweep (h : s.Inv) (i : ℕ) : (s.sweep i).Inv := by
  have hqueue : ∀ (js : List ℕ) (calls : Pool Call),
      (js.foldl (fun calls j ↦ calls.put j .finished) calls).total Call.has ≤
        calls.total Call.has := by
    intro js
    induction js with
    | nil => exact fun calls ↦ le_rfl
    | cons j js ih => exact fun calls ↦ (ih _).trans (total_put_finished calls j)
  refine h.of_le ?_ rfl (fun j hj ↦ absurd hj List.not_mem_nil) .nil
  exact add_le_add (Multiset.zero_le _) ((total_put_finished _ i).trans (hqueue _ s.calls))

/-- Every step keeps the invariant. -/
theorem Inv.step (h : s.Inv) {l : PoolStep} (hs : ConnectionPool.step cfg s l = some s') :
    s'.Inv := by
  cases step_cases cfg hs with
  | getConnection timeoutMs =>
    refine h.spawn ?_ rfl rfl rfl rfl
    split <;> rfl
  | enter cleanupClock idleClock used hi => exact h.enter hi cleanupClock idleClock used
  | create now hi => exact h.move_opened hi Call.noConfusion rfl rfl
  | createFailed hi | settle hi | settleFailed hi | pushLate used hi =>
    exact h.move_of_le hi Call.noConfusion rfl rfl rfl le_rfl
  | push used hi =>
    refine h.move_of_le hi Call.noConfusion rfl rfl rfl ?_
    rw [move, marks, List.map_append, idle_append]
    exact (congrArg (· + _) (add_zero _)).le
  | returnConnection used idleClock used' hi =>
    exact (h.giveBack hi used).serveWaiter idleClock used'
  | init =>
    refine h.spawn ?_ rfl rfl rfl rfl
    split <;> rfl
  | initCreate now hi => exact h.move_opened hi Call.noConfusion rfl rfl
  | initCreateFailed hi => exact h.move_of_le hi Call.noConfusion rfl rfl rfl le_rfl
  | initPush hi =>
    refine h.move_of_le hi Call.noConfusion rfl rfl rfl ?_
    rw [move, marks, List.map_append, idle_append]
    exact (add_zero _).trans_le (add_le_add_right (idle_singleton_le _ _) _)
  | shutdown => exact h.spawn rfl rfl rfl rfl rfl
  | shutdownAgain => exact h
  | sweep => exact h.sweep _
  | cleanup clock => exact h.clean cfg clock

theorem inv_run {ls : List PoolStep} (hrun : (system cfg).Run fresh ls s) : s.Inv :=
  hrun.invariant (motive := Inv) (fun _ _ _ h hs ↦ h.step hs) inv_fresh

theorem Lent.mem_total {c : ℕ} (h : s.Lent c i) : c ∈ s.calls.total Call.has :=
  (Pool.mem_total _).2 ⟨_, List.mem_of_getElem? h, Multiset.mem_singleton_self c⟩

/-- **One borrower**: in every run a connection is lent to one call at most, and what
`cleanup_expired` closes is lent to none. -/
theorem one_borrower {ls : List PoolStep} (hrun : (system cfg).Run fresh ls s) :
    (∀ c i j, s.Lent c i → s.Lent c j → i = j) ∧
      ∀ l, ∀ c ∈ s.expired cfg l, ∀ i, ¬ s.Lent c i := by
  have h := (inv_run hrun).nodup
  refine ⟨fun c i j hi hj ↦ ?_, fun l c hc i hi ↦ ?_⟩
  · by_contra hij
    exact Pool.ne_of_nodup Call.has h (Multiset.le_add_left _ _) hij hi hj
      (Multiset.mem_singleton_self c) (Multiset.mem_singleton_self c) rfl
  · have hidle : c ∈ idle (marks s.connections) := by
      cases l with
      | enter j cleanupClock idleClock used =>
        exact mem_idle ((marks_cleanupExpired cfg cleanupClock s.connections).2 c hc)
      | cleanup clock => exact mem_idle ((marks_cleanupExpired cfg clock s.connections).2 c hc)
      | getConnection | create | settle | push | returnConnection | init | initCreate | initPush
      | shutdown | sweep => exact absurd hc List.not_mem_nil
    exact Multiset.disjoint_left.1 (Multiset.nodup_add.1 h).2.2 hidle hi.mem_total

/-- Two callers after one another and one that waits: a connection that is returned is handed to the
one that waits, and the other one of the table is closed when it has been idle for too long. -/
def handToWaiter : List PoolStep :=
  [.init, .initCreate 0 (some 0), .initPush 0, .initCreate 0 (some 0), .initPush 0,
    .getConnection 5000, .enter 1 (fun _ ↦ 1) (fun _ ↦ 2) 3, .getConnection 5000,
    .enter 2 (fun _ ↦ 4) (fun _ ↦ 5) 6, .getConnection 5000, .enter 3 (fun _ ↦ 7) (fun _ ↦ 7) 7,
    .returnConnection 1 8 (fun _ ↦ 9) 10, .returnConnection 2 20 (fun _ ↦ 20) 20]

theorem one_borrower_handToWaiter :
    ∃ s, (system ⟨2, 2, 100, 0⟩).Run fresh handToWaiter s ∧ s.Lent 0 3 ∧
      1 ∈ s.expired ⟨2, 2, 100, 0⟩ (.cleanup fun _ ↦ 200) ∧ (∀ i, s.Lent 0 i → i = 3) ∧
      ∀ i, ¬ s.Lent 1 i := by
  obtain ⟨s, hrun, hlent, hexpired⟩ : ∃ s, (system ⟨2, 2, 100, 0⟩).Run fresh handToWaiter s ∧
      s.calls[3]? = some (.holding 0) ∧
        1 ∈ s.expired ⟨2, 2, 100, 0⟩ (.cleanup fun _ ↦ 200) :=
    System.Run.exists_of_any (by decide +kernel)
  have hone := one_borrower hrun
  exact ⟨s, hrun, hlent, hexpired, fun i hi ↦ hone.1 0 i 3 hi hlent, hone.2 _ 1 hexpired⟩

end ConnectionPool

end Net
end ChwellCore
