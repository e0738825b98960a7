import ChwellCore.Lib.Pool
import ChwellCore.Lib.Run
import Mathlib.Data.Finset.Basic

/-!
# The task queue

A `TaskQueue` is a priority queue of tasks behind a mutex, a condition variable on which idle
workers sleep, and some atomic counters.  What several threads do with it is interleaved: a step of
`Machine` is what one thread does between two moments at which another can be noticed.  A critical
section that is over before the thread does anything else is one step, taken when the mutex is free.
Only a worker that looks for a task holds the mutex for longer, because it reads `running_` twice on
the way, and `stop` writes `running_` without the mutex.

`cv_.wait` with a predicate is the loop it stands for: the predicate is read with the mutex held,
and if it is false the worker releases the mutex and becomes a waiter in one step.  `notify_one`
wakes some waiter if there is one, `notify_all` all that are waiters at this moment, and a waiter
may wake up for no reason.  A worker that has been woken up waits for the mutex like any other.

`start` and `stop` are called by one thread, `submit`, `cancel` and `wait_all` by any number of
others.  A task is what the queue reads of it: the id, the priority and the address of the object,
by which the priority queue orders tasks of equal priority.  Its function may throw what it likes,
and its result callback any `std::exception`: the worker goes on.  `tasks_` is the set of its keys,
and task ids are numbers without a bound.

What was accepted, cancelled, started and finished so far is not in the code.
-/

set_option autoImplicit false

namespace ChwellCore
namespace Task

/-! ## Data -/

/-- `TaskPriority`. -/
inductive TaskPriority where
  | low
  | normal
  | high
  | urgent
deriving DecidableEq, Repr

/-- The value of a priority as an `int`. -/
def TaskPriority.toInt : TaskPriority → ℤ
  | low => 0
  | normal => 1
  | high => 2
  | urgent => 3

/-- `TaskBase`. -/
structure TaskBase where
  id : ℕ
  priority : TaskPriority
  address : ℕ
deriving DecidableEq, Repr

/-- An element of `queue_`. -/
structure Entry where
  value : ℤ
  task : TaskBase
deriving DecidableEq, Repr

/-- `operator<` of the pairs in `queue_`: tasks are compared by their addresses. -/
def Entry.lt (a b : Entry) : Bool :=
  decide (a.value < b.value) ||
    decide (a.value = b.value) && decide (a.task.address < b.task.address)

/-- `queue_.top()`: the greatest element. -/
def top : List Entry → Option Entry
  | [] => none
  | e :: rest =>
    match top rest with
    | none => some e
    | some m => if e.lt m then some m else some e

theorem mem_of_top {queue : List Entry} {e : Entry} (h : top queue = some e) : e ∈ queue := by
  induction queue generalizing e with
  | nil => cases h
  | cons e' rest ih =>
    rw [top] at h
    cases hrest : top rest with
    | none =>
      rw [hrest] at h
      cases h
      exact List.mem_cons_self
    | some m =>
      rw [hrest] at h
      dsimp only at h
      split at h <;> cases h
      · exact List.mem_cons_of_mem _ (ih hrest)
      · exact List.mem_cons_self

/-- `TaskQueue::Config`. -/
structure Config where
  workerThreads : ℤ := 4
  maxQueueSize : ℤ := 10000
  enablePriority : Bool := true
deriving DecidableEq, Repr

/-- The members of `TaskQueue`. -/
structure TaskQueue where
  config : Config
  running : Bool
  nextTaskId : ℕ
  queue : List Entry
  tasks : Finset ℕ
  runningCount : ℤ
  completedCount : ℤ

namespace TaskQueue

/-- The test of `submit`. -/
def full (q : TaskQueue) : Prop := q.config.maxQueueSize ≤ q.queue.length

instance (q : TaskQueue) : Decidable q.full := inferInstanceAs (Decidable (_ ≤ _))

/-- What `submit` does with a task that is accepted. -/
def insert (q : TaskQueue) (task : TaskBase) : TaskQueue :=
  { q with
    tasks := Insert.insert task.id q.tasks
    queue := q.queue ++ [⟨if q.config.enablePriority then task.priority.toInt else 0, task⟩] }

/-- `cancel`. -/
def cancel (q : TaskQueue) (id : ℕ) : TaskQueue × Bool :=
  if id ∈ q.tasks then ({ q with tasks := q.tasks.erase id }, true) else (q, false)

end TaskQueue

/-! ## Threads -/

/-- Where a worker is in `worker_loop`. -/
inductive Worker where
  /-- It is about to read `running_` in the head of the loop. -/
  | looping
  /-- It needs the mutex, to look for a task. -/
  | locking
  /-- It has the mutex and is about to evaluate the predicate of `cv_.wait`. -/
  | testing
  /-- It has the mutex, and the predicate was false. -/
  | dozing
  /-- It sleeps on `cv_`. -/
  | waiting
  /-- It has the mutex, and the predicate was true. -/
  | deciding
  /-- It has taken a task off the queue. -/
  | popped (task : TaskBase)
  /-- It has incremented `running_count_`. -/
  | counted (task : TaskBase)
  /-- It is in `execute`. -/
  | executing (task : TaskBase)
  /-- It is back from `execute`. -/
  | executed (task : TaskBase)
  /-- It has decremented `running_count_`. -/
  | uncounted (task : TaskBase)
  /-- It has incremented `completed_count_`. -/
  | completed (task : TaskBase)
  /-- It has left the loop. -/
  | exited
deriving DecidableEq, Repr

/-- Where the thread is that calls `start` and `stop`. -/
inductive Control where
  /-- It is in neither of them. -/
  | idle
  /-- It is in `start` and has started so many workers. -/
  | starting (spawned : ℕ)
  /-- It is in `stop` and has not yet called `notify_all`. -/
  | stopping
  /-- It is in `stop` and has joined so many workers. -/
  | joining (joined : ℕ)
deriving DecidableEq, Repr

/-- A call of `wait_all`, with the tasks that had been accepted when it was made. -/
inductive WaitAll where
  /-- It is about to read `pending_count`. -/
  | polling (before : List ℕ)
  /-- It has read a `pending_count` of 0 and is about to read `running_count`. -/
  | sawEmpty (before : List ℕ)
  /-- It has returned. -/
  | returned (before : List ℕ)
deriving DecidableEq, Repr

/-- A `TaskQueue`, the threads around it, and what has happened. -/
structure Machine extends TaskQueue where
  /-- The worker that has the mutex. -/
  owner : Option ℕ
  workers : Pool Worker
  control : Control
  /-- The tasks of calls of `submit` that have drawn an id and do not have the mutex yet. -/
  drawn : List TaskBase
  waiters : Pool WaitAll
  /-- The tasks for which `submit` has returned an id. -/
  accepted : List ℕ
  /-- The tasks for which `cancel` has returned `true`. -/
  cancelled : List ℕ
  /-- The tasks whose function has been started. -/
  started : List ℕ
  /-- The tasks that have been executed to the end. -/
  finished : List ℕ

/-- What happens next. -/
inductive Act where
  /-- A call of `submit` draws an id for its task. -/
  | draw (priority : TaskPriority) (address : ℕ)
  /-- The call of `submit` with this task goes on, and `notify_one` wakes this worker. -/
  | offer (k : ℕ) (woken : Option ℕ)
  | cancel (id : ℕ)
  | start
  /-- `start` starts another worker, or returns. -/
  | spawn
  | stop
  | notifyAll
  /-- `stop` joins another worker, or returns. -/
  | join
  /-- This worker takes its next step. -/
  | work (i : ℕ)
  /-- This worker wakes up for no reason. -/
  | wake (i : ℕ)
  /-- `wait_all` is called. -/
  | waitAll
  /-- This call of `wait_all` reads its next counter. -/
  | poll (i : ℕ)
deriving DecidableEq, Repr

namespace Machine

/-- The constructor. -/
def new (config : Config) : Machine :=
  { config, running := false, nextTaskId := 1, queue := [], tasks := ∅, runningCount := 0,
    completedCount := 0, owner := none, workers := [], control := .idle, drawn := [],
    waiters := [], accepted := [], cancelled := [], started := [], finished := [] }

/-- Worker `i` moves on. -/
def put (s : Machine) (i : ℕ) (p : Worker) : Machine := { s with workers := s.workers.put i p }

/-- What a worker that is woken up does. -/
def wakeUp : Worker → Worker
  | .waiting => .locking
  | p => p

/-- `notify_one`: some waiter, if there is one. -/
def notifyOne (s : Machine) : Option ℕ → Option Machine
  | none => if .waiting ∈ s.workers then none else some s
  | some i => if s.workers[i]? = some .waiting then some (s.put i .locking) else none

/-- The critical section of `submit`. -/
def submit (s : Machine) (task : TaskBase) (woken : Option ℕ) : Option Machine :=
  if s.full then some s
  else
    notifyOne { s with toTaskQueue := s.insert task, accepted := s.accepted ++ [task.id] } woken

/-- The next step of worker `i`, which is here in `worker_loop`. -/
def work (s : Machine) (i : ℕ) : Worker → Option Machine
  | .looping => some (s.put i (if s.running then .locking else .exited))
  | .locking => if s.owner = none then some ({ s with owner := some i }.put i .testing) else none
  | .testing => some (s.put i (if s.running = false ∨ s.queue ≠ [] then .deciding else .dozing))
  | .dozing => some ({ s with owner := none }.put i .waiting)
  | .waiting => none
  | .deciding =>
    if s.running = false ∧ s.queue = [] then some ({ s with owner := none }.put i .exited)
    else
      match top s.queue with
      | none => some ({ s with owner := none }.put i .looping)
      | some e => some ({ s with owner := none, queue := s.queue.erase e }.put i (.popped e.task))
  | .popped task => some ({ s with runningCount := s.runningCount + 1 }.put i (.counted task))
  | .counted task => some ({ s with started := s.started ++ [task.id] }.put i (.executing task))
  | .executing task => some ({ s with finished := s.finished ++ [task.id] }.put i (.executed task))
  | .executed task => some ({ s with runningCount := s.runningCount - 1 }.put i (.uncounted task))
  | .uncounted task =>
    some ({ s with completedCount := s.completedCount + 1 }.put i (.completed task))
  | .completed task =>
    if s.owner = none then some ({ s with tasks := s.tasks.erase task.id }.put i .looping) else none
  | .exited => none

/-- The next read of a call of `wait_all`. -/
def poll (s : Machine) : WaitAll → Option WaitAll
  | .polling before =>
    if s.owner = none then
      some (if 0 < s.queue.length then .polling before else .sawEmpty before)
    else none
  | .sawEmpty before => some (if 0 < s.runningCount then .polling before else .returned before)
  | .returned _ => none

/-- One step. -/
def step (s : Machine) : Act → Option Machine
  | .draw priority address =>
    some { s with
      nextTaskId := s.nextTaskId + 1
      drawn := s.drawn ++ [⟨s.nextTaskId, priority, address⟩] }
  | .offer k woken =>
    match s.drawn[k]? with
    | some task =>
      if s.owner = none then { s with drawn := s.drawn.eraseIdx k }.submit task woken else none
    | none => none
  | .cancel id =>
    if s.owner = none then
      let r := s.toTaskQueue.cancel id
      some { s with
        toTaskQueue := r.1
        cancelled := if r.2 then s.cancelled ++ [id] else s.cancelled }
    else none
  | .start =>
    match s.control with
    | .idle => some { s with running := true, control := if s.running then .idle else .starting 0 }
    | _ => none
  | .spawn =>
    match s.control with
    | .starting k =>
      if k < s.config.workerThreads then
        some { s with workers := s.workers.spawn .looping, control := .starting (k + 1) }
      else some { s with control := .idle }
    | _ => none
  | .stop =>
    match s.control with
    | .idle => some { s with running := false, control := if s.running then .stopping else .idle }
    | _ => none
  | .notifyAll =>
    match s.control with
    | .stopping => some { s with workers := s.workers.map wakeUp, control := .joining 0 }
    | _ => none
  | .join =>
    match s.control with
    | .joining k =>
      match s.workers[k]? with
      | none => some { s with workers := [], control := .idle }
      | some .exited => some { s with control := .joining (k + 1) }
      | some _ => none
    | _ => none
  | .work i =>
    match s.workers[i]? with
    | some p => s.work i p
    | none => none
  | .wake i => if s.workers[i]? = some .waiting then some (s.put i .locking) else none
  | .waitAll => some { s with waiters := s.waiters.spawn (.polling s.accepted) }
  | .poll i =>
    match s.waiters[i]? with
    | some c => (s.poll c).map fun c' ↦ { s with waiters := s.waiters.put i c' }
    | none => none

/-- All that can happen to a task queue. -/
def system : System Machine Act := System.ofPartial step

/-! ## What a step can do -/

/-- A call of `submit` that is accepted, short of `notify_one`. -/
def accept (s : Machine) (k : ℕ) (task : TaskBase) : Machine :=
  { s with
    toTaskQueue := s.insert task
    drawn := s.drawn.eraseIdx k
    accepted := s.accepted ++ [task.id] }

/-- **What a step can do.** -/
inductive Step (s : Machine) : Act → Machine → Prop
  | draw (priority : TaskPriority) (address : ℕ) : Step s (.draw priority address)
      { s with
        nextTaskId := s.nextTaskId + 1
        drawn := s.drawn ++ [⟨s.nextTaskId, priority, address⟩] }
  | reject {k : ℕ} {task : TaskBase} (woken : Option ℕ) : s.drawn[k]? = some task → s.full →
      Step s (.offer k woken) { s with drawn := s.drawn.eraseIdx k }
  | accept {k : ℕ} {task : TaskBase} : s.drawn[k]? = some task → ¬ s.full →
      Step s (.offer k none) (s.accept k task)
  | acceptWake {k i : ℕ} {task : TaskBase} : s.drawn[k]? = some task → ¬ s.full →
      s.workers[i]? = some .waiting →
      Step s (.offer k (some i)) ((s.accept k task).put i .locking)
  | cancel {id : ℕ} : id ∈ s.tasks → Step s (.cancel id)
      { s with tasks := s.tasks.erase id, cancelled := s.cancelled ++ [id] }
  | cancelMiss {id : ℕ} : id ∉ s.tasks → Step s (.cancel id) s
  | start : s.control = .idle → s.running = false →
      Step s .start { s with running := true, control := .starting 0 }
  | startAgain : s.control = .idle → s.running = true → Step s .start s
  | spawn {k : ℕ} : s.control = .starting k → k < s.config.workerThreads →
      Step s .spawn { s with workers := s.workers.spawn .looping, control := .starting (k + 1) }
  | spawnEnd {k : ℕ} : s.control = .starting k → ¬ k < s.config.workerThreads →
      Step s .spawn { s with control := .idle }
  | stop : s.control = .idle → s.running = true →
      Step s .stop { s with running := false, control := .stopping }
  | stopAgain : s.control = .idle → s.running = false → Step s .stop s
  | notifyAll : s.control = .stopping →
      Step s .notifyAll { s with workers := s.workers.map wakeUp, control := .joining 0 }
  | join {k : ℕ} : s.control = .joining k → s.workers[k]? = some .exited →
      Step s .join { s with control := .joining (k + 1) }
  | joinEnd {k : ℕ} : s.control = .joining k → s.workers[k]? = none →
      Step s .join { s with workers := [], control := .idle }
  | enter {i : ℕ} : s.workers[i]? = some .looping → s.running = true →
      Step s (.work i) (s.put i .locking)
  | leave {i : ℕ} : s.workers[i]? = some .looping → s.running = false →
      Step s (.work i) (s.put i .exited)
  | lock {i : ℕ} : s.workers[i]? = some .locking → s.owner = none →
      Step s (.work i) ({ s with owner := some i }.put i .testing)
  | proceed {i : ℕ} : s.workers[i]? = some .testing → s.running = false ∨ s.queue ≠ [] →
      Step s (.work i) (s.put i .deciding)
  | doze {i : ℕ} : s.workers[i]? = some .testing → s.running = true → s.queue = [] →
      Step s (.work i) (s.put i .dozing)
  | wait {i : ℕ} : s.workers[i]? = some .dozing →
      Step s (.work i) ({ s with owner := none }.put i .waiting)
  | «break» {i : ℕ} : s.workers[i]? = some .deciding → s.running = false → s.queue = [] →
      Step s (.work i) ({ s with owner := none }.put i .exited)
  | findNone {i : ℕ} : s.workers[i]? = some .deciding → top s.queue = none →
      Step s (.work i) ({ s with owner := none }.put i .looping)
  | pop {i : ℕ} {e : Entry} : s.workers[i]? = some .deciding → top s.queue = some e →
      Step s (.work i) ({ s with owner := none, queue := s.queue.erase e }.put i (.popped e.task))
  | count {i : ℕ} {task : TaskBase} : s.workers[i]? = some (.popped task) →
      Step s (.work i) ({ s with runningCount := s.runningCount + 1 }.put i (.counted task))
  | begin {i : ℕ} {task : TaskBase} : s.workers[i]? = some (.counted task) →
      Step s (.work i) ({ s with started := s.started ++ [task.id] }.put i (.executing task))
  | finish {i : ℕ} {task : TaskBase} : s.workers[i]? = some (.executing task) →
      Step s (.work i) ({ s with finished := s.finished ++ [task.id] }.put i (.executed task))
  | uncount {i : ℕ} {task : TaskBase} : s.workers[i]? = some (.executed task) →
      Step s (.work i) ({ s with runningCount := s.runningCount - 1 }.put i (.uncounted task))
  | complete {i : ℕ} {task : TaskBase} : s.workers[i]? = some (.uncounted task) →
      Step s (.work i) ({ s with completedCount := s.completedCount + 1 }.put i (.completed task))
  | erase {i : ℕ} {task : TaskBase} : s.workers[i]? = some (.completed task) → s.owner = none →
      Step s (.work i) ({ s with tasks := s.tasks.erase task.id }.put i .looping)
  | wake {i : ℕ} : s.workers[i]? = some .waiting → Step s (.wake i) (s.put i .locking)
  | waitAll : Step s .waitAll { s with waiters := s.waiters.spawn (.polling s.accepted) }
  | pollAgain {i : ℕ} {before : List ℕ} :
      s.waiters[i]? = some (.polling before) ∨ s.waiters[i]? = some (.sawEmpty before) →
      Step s (.poll i) { s with waiters := s.waiters.put i (.polling before) }
  | sawEmpty {i : ℕ} {before : List ℕ} : s.waiters[i]? = some (.polling before) → s.queue = [] →
      Step s (.poll i) { s with waiters := s.waiters.put i (.sawEmpty before) }
  | «return» {i : ℕ} {before : List ℕ} : s.waiters[i]? = some (.sawEmpty before) →
      ¬ 0 < s.runningCount →
      Step s (.poll i) { s with waiters := s.waiters.put i (.returned before) }

variable {s t : Machine}

theorem step_work {i : ℕ} {p : Worker} (hp : s.workers[i]? = some p) (h : s.work i p = some t) :
    Step s (.work i) t := by
  cases p with
  | waiting | exited => cases h
  | looping =>
    cases h
    split
    · next hrunning => exact .enter hp hrunning
    · next hrunning => exact .leave hp (by simpa using hrunning)
  | locking =>
    rw [work] at h
    obtain ⟨howner, h⟩ := Option.ite_none_right_eq_some.1 h
    obtain rfl := Option.some.inj h
    exact .lock hp howner
  | testing =>
    cases h
    split
    · next hpred => exact .proceed hp hpred
    · next hpred =>
      rw [not_or, Bool.not_eq_false, not_ne_iff] at hpred
      exact .doze hp hpred.1 hpred.2
  | deciding =>
    rw [work] at h
    split at h
    · next hbreak =>
      cases h
      exact .break hp hbreak.1 hbreak.2
    · split at h
      · next htop =>
        cases h
        exact .findNone hp htop
      · next htop =>
        cases h
        exact .pop hp htop
  | completed task =>
    rw [work] at h
    obtain ⟨howner, h⟩ := Option.ite_none_right_eq_some.1 h
    obtain rfl := Option.some.inj h
    exact .erase hp howner
  | dozing | popped task | counted task | executing task | executed task | uncounted task =>
    cases h
    constructor
    exact hp

theorem step_offer {k : ℕ} {woken : Option ℕ} {task : TaskBase} (hk : s.drawn[k]? = some task)
    (h : { s with drawn := s.drawn.eraseIdx k }.submit task woken = some t) :
    Step s (.offer k woken) t := by
  rw [submit] at h
  split at h
  · next hfull =>
    cases h
    exact .reject woken hk hfull
  · next hroom =>
    cases woken with
    | none =>
      rw [notifyOne] at h
      obtain ⟨-, h⟩ := Option.ite_none_left_eq_some.1 h
      obtain rfl := Option.some.inj h
      exact .accept hk hroom
    | some i =>
      rw [notifyOne] at h
      obtain ⟨hi, h⟩ := Option.ite_none_right_eq_some.1 h
      obtain rfl := Option.some.inj h
      exact .acceptWake hk hroom hi

theorem step_poll {i : ℕ} {c c' : WaitAll} (hc : s.waiters[i]? = some c) (h : s.poll c = some c') :
    Step s (.poll i) { s with waiters := s.waiters.put i c' } := by
  cases c with
  | returned before => cases h
  | polling before =>
    rw [poll] at h
    obtain ⟨-, h⟩ := Option.ite_none_right_eq_some.1 h
    obtain rfl := Option.some.inj h
    split
    · exact .pollAgain (.inl hc)
    · next hempty => exact .sawEmpty hc (List.length_eq_zero_iff.1 (by omega))
  | sawEmpty before =>
    cases h
    split
    · exact .pollAgain (.inr hc)
    · next hidle => exact .return hc hidle

theorem step_cancel {id : ℕ} (hs : step s (.cancel id) = some t) : Step s (.cancel id) t := by
  rw [step] at hs
  obtain ⟨-, hs⟩ := Option.ite_none_right_eq_some.1 hs
  by_cases hid : id ∈ s.tasks
  · simp only [TaskQueue.cancel, if_pos hid] at hs
    cases hs
    exact .cancel hid
  · simp only [TaskQueue.cancel, if_neg hid] at hs
    cases hs
    exact .cancelMiss hid

theorem step_start (hs : step s .start = some t) : Step s .start t := by
  rw [step] at hs
  split at hs
  · next hcontrol =>
    cases hs
    cases hrunning : s.running
    · exact .start hcontrol hrunning
    · have hsame : { s with running := true, control := .idle } = s := by
        rw [← hrunning, ← hcontrol]
      simpa [hsame] using Step.startAgain hcontrol hrunning
  · cases hs

theorem step_stop (hs : step s .stop = some t) : Step s .stop t := by
  rw [step] at hs
  split at hs
  · next hcontrol =>
    cases hs
    cases hrunning : s.running
    · have hsame : { s with running := false, control := .idle } = s := by
        rw [← hrunning, ← hcontrol]
      simpa [hsame] using Step.stopAgain hcontrol hrunning
    · exact .stop hcontrol hrunning
  · cases hs

theorem step_cases {a : Act} (hs : step s a = some t) : Step s a t := by
  cases a with
  | draw priority address =>
    cases hs
    exact .draw priority address
  | waitAll =>
    cases hs
    exact .waitAll
  | offer k woken =>
    rw [step] at hs
    split at hs
    · next hk =>
      obtain ⟨-, hs⟩ := Option.ite_none_right_eq_some.1 hs
      exact step_offer hk hs
    · cases hs
  | cancel id => exact step_cancel hs
  | start => exact step_start hs
  | stop => exact step_stop hs
  | spawn =>
    rw [step] at hs
    split at hs
    · next hcontrol =>
      split at hs
      · next hk =>
        cases hs
        exact .spawn hcontrol hk
      · next hk =>
        cases hs
        exact .spawnEnd hcontrol hk
    · cases hs
  | notifyAll =>
    rw [step] at hs
    split at hs
    · next hcontrol =>
      cases hs
      exact .notifyAll hcontrol
    · cases hs
  | join =>
    rw [step] at hs
    split at hs
    · next hcontrol =>
      split at hs
      · next hk =>
        cases hs
        exact .joinEnd hcontrol hk
      · next hk =>
        cases hs
        exact .join hcontrol hk
      · cases hs
    · cases hs
  | work i =>
    rw [step] at hs
    split at hs
    · next hp => exact step_work hp hs
    · cases hs
  | wake i =>
    rw [step] at hs
    obtain ⟨hi, hs⟩ := Option.ite_none_right_eq_some.1 hs
    obtain rfl := Option.some.inj hs
    exact .wake hi
  | poll i =>
    rw [step] at hs
    split at hs
    · next hc =>
      obtain ⟨c', hc', rfl⟩ := Option.map_eq_some_iff.1 hs
      exact step_poll hc hc'
    · cases hs

end Machine

end Task
end ChwellCore
