import ChwellCore.Lib.Pool
import ChwellCore.Lib.Run
import ChwellCore.Storage.AsyncStorage

/-!
# The queue of the asynchronous adapter

An `AsyncStorageAdapter` is a queue of tasks behind a mutex, workers that take tasks from it, and
callers that put tasks into it.  Both sides sleep on one condition variable: a worker while there is
nothing to do, a caller while the queue is full, if it has a limit.  The flag `stopping_` is written
under the mutex, so that a critical section is one step, the evaluation of a predicate and the
falling asleep included.  `notify_one` comes after it and wakes some one waiter, `notify_all` wakes
them all, and a waiter may wake up for no reason.  A thread that has been woken up needs the mutex
and looks at its predicate again, which is where a thread begins that has not slept yet.

A task is known by its caller.  Running a task is one step too.  With several workers that is what a
storage promises that protects itself, as `MemoryStorage` does; with one it is no assumption.

What was accepted, run and promised so far is not in the code.
-/

set_option autoImplicit false

namespace ChwellCore
namespace Storage

/-- An element of `tasks_`. -/
structure QueuedTask where
  caller : ℕ
  op : AsyncOp
deriving DecidableEq

/-- A task that has been run, the clock that it read, and what its promise got. -/
structure Execution where
  task : QueuedTask
  now : ℤ
  reply : Reply
deriving DecidableEq

/-- Where a worker is in `worker_loop`. -/
inductive WorkerAt where
  /-- It needs the mutex, to look at the predicate. -/
  | locking
  /-- It sleeps. -/
  | waiting
  /-- It has taken a task, and calls `notify_one`. -/
  | notifying (task : QueuedTask)
  /-- It runs a task. -/
  | running (task : QueuedTask)
  /-- It has left the loop. -/
  | exited
deriving DecidableEq

/-- Where a call is that returns a future. -/
inductive CallAt where
  /-- It needs the mutex, in `enqueue`. -/
  | locking (op : AsyncOp)
  /-- It sleeps, in `enqueue`. -/
  | waiting (op : AsyncOp)
  /-- It has put its task into the queue, and calls `notify_one`. -/
  | notifying (op : AsyncOp)
  /-- `enqueue` has returned `false`. -/
  | refusing (op : AsyncOp)
  /-- The call has returned, and this is what `enqueue` had returned. -/
  | done (op : AsyncOp) (enqueued : Bool)
deriving DecidableEq

/-- A worker that sleeps wakes up. -/
def WorkerAt.wake : WorkerAt → WorkerAt
  | .waiting => .locking
  | p => p

/-- A call that sleeps wakes up. -/
def CallAt.wake : CallAt → CallAt
  | .waiting op => .locking op
  | c => c

/-- The call sleeps. -/
def CallAt.isWaiting : CallAt → Bool
  | .waiting _ => true
  | _ => false

/-- Where the destructor is. -/
inductive Destructor where
  | notCalled
  /-- It has set `stopping_`. -/
  | stopping
  /-- It has called `notify_all`. -/
  | joining
  | returned
deriving DecidableEq

/-- A thread that sleeps on `queue_cv_`. -/
inductive Waiter where
  | worker (w : ℕ)
  | call (i : ℕ)
deriving DecidableEq

/-- `AsyncStorageAdapter`, the storage, the threads, and what has happened. -/
structure AsyncAdapter (σ : Type) where
  storage : σ
  tasks : List QueuedTask
  stopping : Bool
  workers : Pool WorkerAt
  calls : Pool CallAt
  destructor : Destructor
  /-- The tasks that were put into the queue, in order. -/
  accepted : List QueuedTask
  log : List Execution
  /-- The values that promises were given, and whose they are. -/
  promises : List (ℕ × Reply)

/-- A step of one of the threads. -/
inductive AdapterStep where
  /-- A call is made. -/
  | call (op : AsyncOp)
  /-- The critical section of `enqueue`, or what is left of it after a wait. -/
  | enqueue (i : ℕ)
  /-- `notify_one` at the end of `enqueue`. -/
  | callNotify (i : ℕ) (woken : Option Waiter)
  /-- A call completes its future itself. -/
  | refuse (i : ℕ)
  /-- The critical section of `worker_loop`. -/
  | take (w : ℕ)
  /-- `notify_one` in `worker_loop`. -/
  | workerNotify (w : ℕ) (woken : Option Waiter)
  /-- A task is run. -/
  | execute (w : ℕ) (now : ℤ)
  /-- A waiter wakes up for no reason. -/
  | spurious (x : Waiter)
  /-- The critical section of the destructor. -/
  | destroy
  | notifyAll
  /-- The destructor has joined all workers. -/
  | join
deriving DecidableEq

namespace AsyncAdapter

variable {σ : Type} (I : StorageInterface σ) (maxQueueSize : ℕ)

/-- The adapter after its constructor. -/
def fresh (numThreads : ℕ) (storage : σ) : AsyncAdapter σ where
  storage := storage
  tasks := []
  stopping := false
  workers := List.replicate numThreads .locking
  calls := []
  destructor := .notCalled
  accepted := []
  log := []
  promises := []

/-- A worker is at a new place. -/
def setWorker (s : AsyncAdapter σ) (w : ℕ) (p : WorkerAt) : AsyncAdapter σ :=
  { s with workers := s.workers.put w p }

/-- A call is at a new place. -/
def setCall (s : AsyncAdapter σ) (i : ℕ) (c : CallAt) : AsyncAdapter σ :=
  { s with calls := s.calls.put i c }

/-- A waiter wakes up. -/
def wake (s : AsyncAdapter σ) : Waiter → Option (AsyncAdapter σ)
  | .worker w =>
    match s.workers[w]? with
    | some .waiting => some (s.setWorker w .locking)
    | _ => none
  | .call i =>
    match s.calls[i]? with
    | some (.waiting op) => some (s.setCall i (.locking op))
    | _ => none

/-- Someone sleeps. -/
def hasWaiter (s : AsyncAdapter σ) : Bool :=
  s.workers.any (· = .waiting) || s.calls.any CallAt.isWaiting

/-- `notify_one`. -/
def notifyOne (s : AsyncAdapter σ) : Option Waiter → Option (AsyncAdapter σ)
  | some x => s.wake x
  | none => if s.hasWaiter then none else some s

/-- A task is put into the queue. -/
def push (s : AsyncAdapter σ) (task : QueuedTask) : AsyncAdapter σ :=
  { s with tasks := s.tasks ++ [task], accepted := s.accepted ++ [task] }

/-- The critical section of `enqueue`. -/
def enqueue (s : AsyncAdapter σ) (i : ℕ) (op : AsyncOp) : AsyncAdapter σ :=
  if s.stopping then s.setCall i (.refusing op)
  else if 0 < maxQueueSize ∧ ¬ s.tasks.length < maxQueueSize then s.setCall i (.waiting op)
  else (s.push ⟨i, op⟩).setCall i (.notifying op)

/-- The critical section of `worker_loop`. -/
def take (s : AsyncAdapter σ) (w : ℕ) : AsyncAdapter σ :=
  match s.tasks with
  | [] => if s.stopping then s.setWorker w .exited else s.setWorker w .waiting
  | task :: tasks => { s with tasks := tasks }.setWorker w (.notifying task)

/-- A task is run. -/
def run (s : AsyncAdapter σ) (task : QueuedTask) (now : ℤ) : AsyncAdapter σ :=
  let r := task.op.execute I now s.storage
  { s with
    storage := r.2
    log := s.log ++ [⟨task, now, r.1⟩]
    promises := s.promises ++ [(task.caller, r.1)] }

/-- One step; `none` if there is no such thread at that place. -/
def step (s : AsyncAdapter σ) : AdapterStep → Option (AsyncAdapter σ)
  | .call op => some { s with calls := s.calls.spawn (.locking op) }
  | .enqueue i =>
    match s.calls[i]? with
    | some (.locking op) => some (s.enqueue maxQueueSize i op)
    | _ => none
  | .callNotify i woken =>
    match s.calls[i]? with
    | some (.notifying op) => (s.setCall i (.done op true)).notifyOne woken
    | _ => none
  | .refuse i =>
    match s.calls[i]? with
    | some (.refusing op) =>
      some ({ s with promises := s.promises ++ [(i, op.refusal)] }.setCall i (.done op false))
    | _ => none
  | .take w =>
    match s.workers[w]? with
    | some .locking => some (s.take w)
    | _ => none
  | .workerNotify w woken =>
    match s.workers[w]? with
    | some (.notifying task) => (s.setWorker w (.running task)).notifyOne woken
    | _ => none
  | .execute w now =>
    match s.workers[w]? with
    | some (.running task) => some ((s.run I task now).setWorker w .locking)
    | _ => none
  | .spurious x => s.wake x
  | .destroy =>
    if s.destructor = .notCalled then some { s with stopping := true, destructor := .stopping }
    else none
  | .notifyAll =>
    if s.destructor = .stopping then
      some { s with
        workers := s.workers.map WorkerAt.wake
        calls := s.calls.map CallAt.wake
        destructor := .joining }
    else none
  | .join =>
    if s.destructor = .joining ∧ ∀ p ∈ s.workers, p = .exited then
      some { s with destructor := .returned }
    else none

/-- The system of all interleavings. -/
def system : System (AsyncAdapter σ) AdapterStep := System.ofPartial (step I maxQueueSize)

/-- How a waiter wakes up. -/
inductive Wake (s : AsyncAdapter σ) : Waiter → AsyncAdapter σ → Prop
  | worker {w : ℕ} : s.workers[w]? = some .waiting → Wake s (.worker w) (s.setWorker w .locking)
  | call {i : ℕ} {op : AsyncOp} : s.calls[i]? = some (.waiting op) →
      Wake s (.call i) (s.setCall i (.locking op))

/-- What `notify_one` does. -/
inductive Notify (s : AsyncAdapter σ) : Option Waiter → AsyncAdapter σ → Prop
  | one {x : Waiter} {t : AsyncAdapter σ} : Wake s x t → Notify s (some x) t
  | nobody : (∀ w : ℕ, s.workers[w]? ≠ some WorkerAt.waiting) →
      (∀ (i : ℕ) (op : AsyncOp), s.calls[i]? ≠ some (CallAt.waiting op)) → Notify s none s

/-- What a step can do. -/
inductive Step (s : AsyncAdapter σ) : AdapterStep → AsyncAdapter σ → Prop
  | call (op : AsyncOp) : Step s (.call op) { s with calls := s.calls.spawn (.locking op) }
  | refused {i : ℕ} {op : AsyncOp} : s.calls[i]? = some (.locking op) → s.stopping = true →
      Step s (.enqueue i) (s.setCall i (.refusing op))
  | blocked {i : ℕ} {op : AsyncOp} : s.calls[i]? = some (.locking op) → s.stopping = false →
      0 < maxQueueSize → maxQueueSize ≤ s.tasks.length →
      Step s (.enqueue i) (s.setCall i (.waiting op))
  | pushed {i : ℕ} {op : AsyncOp} : s.calls[i]? = some (.locking op) → s.stopping = false →
      maxQueueSize = 0 ∨ s.tasks.length < maxQueueSize →
      Step s (.enqueue i) ((s.push ⟨i, op⟩).setCall i (.notifying op))
  | callNotify {i : ℕ} {op : AsyncOp} {woken : Option Waiter} {t : AsyncAdapter σ} :
      s.calls[i]? = some (.notifying op) → Notify (s.setCall i (.done op true)) woken t →
      Step s (.callNotify i woken) t
  | refuse {i : ℕ} {op : AsyncOp} : s.calls[i]? = some (.refusing op) →
      Step s (.refuse i)
        ({ s with promises := s.promises ++ [(i, op.refusal)] }.setCall i (.done op false))
  | taken {w : ℕ} {task : QueuedTask} {tasks : List QueuedTask} :
      s.workers[w]? = some .locking → s.tasks = task :: tasks →
      Step s (.take w) ({ s with tasks := tasks }.setWorker w (.notifying task))
  | exit {w : ℕ} : s.workers[w]? = some .locking → s.tasks = [] → s.stopping = true →
      Step s (.take w) (s.setWorker w .exited)
  | sleep {w : ℕ} : s.workers[w]? = some .locking → s.tasks = [] → s.stopping = false →
      Step s (.take w) (s.setWorker w .waiting)
  | workerNotify {w : ℕ} {task : QueuedTask} {woken : Option Waiter} {t : AsyncAdapter σ} :
      s.workers[w]? = some (.notifying task) →
      Notify (s.setWorker w (.running task)) woken t → Step s (.workerNotify w woken) t
  | execute {w : ℕ} {task : QueuedTask} (now : ℤ) : s.workers[w]? = some (.running task) →
      Step s (.execute w now) ((s.run I task now).setWorker w .locking)
  | spurious {x : Waiter} {t : AsyncAdapter σ} : Wake s x t → Step s (.spurious x) t
  | destroy : s.destructor = .notCalled →
      Step s .destroy { s with stopping := true, destructor := .stopping }
  | notifyAll : s.destructor = .stopping →
      Step s .notifyAll
        { s with
          workers := s.workers.map WorkerAt.wake
          calls := s.calls.map CallAt.wake
          destructor := .joining }
  | join : s.destructor = .joining → (∀ p ∈ s.workers, p = .exited) →
      Step s .join { s with destructor := .returned }

variable {I maxQueueSize} {s t : AsyncAdapter σ}

theorem wake_cases {x : Waiter} (h : s.wake x = some t) : Wake s x t := by
  cases x with
  | worker w =>
    simp only [wake] at h
    split at h
    · next hw =>
      cases h
      exact .worker hw
    · cases h
  | call i =>
    simp only [wake] at h
    split at h
    · next hi =>
      cases h
      exact .call hi
    · cases h

theorem notifyOne_cases {woken : Option Waiter} (h : s.notifyOne woken = some t) :
    Notify s woken t := by
  cases woken with
  | some x => exact .one (wake_cases h)
  | none =>
    simp only [notifyOne] at h
    obtain ⟨hnone, h⟩ := Option.ite_none_left_eq_some.1 h
    obtain rfl := Option.some.inj h
    rw [hasWaiter, Bool.or_eq_true, not_or, List.any_eq_true, List.any_eq_true] at hnone
    refine .nobody (fun w hw ↦ hnone.1 ⟨_, List.mem_of_getElem? hw, rfl⟩) fun i op hi ↦ ?_
    exact hnone.2 ⟨_, List.mem_of_getElem? hi, rfl⟩

theorem step_cases {l : AdapterStep} (h : s.step I maxQueueSize l = some t) :
    Step I maxQueueSize s l t := by
  cases l with
  | call op =>
    cases h
    exact .call op
  | enqueue i =>
    simp only [step] at h
    split at h
    · next op hi =>
      cases h
      unfold enqueue
      split
      · next hstop => exact .refused hi hstop
      · next hstop =>
        rw [Bool.not_eq_true] at hstop
        split
        · next hfull => exact .blocked hi hstop hfull.1 (not_lt.1 hfull.2)
        · next hfull => exact .pushed hi hstop (by omega)
    · cases h
  | callNotify i woken =>
    simp only [step] at h
    split at h
    · next hi => exact .callNotify hi (notifyOne_cases h)
    · cases h
  | refuse i =>
    simp only [step] at h
    split at h
    · next hi =>
      cases h
      exact .refuse hi
    · cases h
  | take w =>
    simp only [step] at h
    split at h
    · next hw =>
      cases h
      unfold take
      split
      · next htasks =>
        split
        · next hstop => exact .exit hw htasks hstop
        · next hstop => exact .sleep hw htasks (Bool.eq_false_iff.2 hstop)
      · next htasks => exact .taken hw htasks
    · cases h
  | workerNotify w woken =>
    simp only [step] at h
    split at h
    · next hw => exact .workerNotify hw (notifyOne_cases h)
    · cases h
  | execute w now =>
    simp only [step] at h
    split at h
    · next hw =>
      cases h
      exact .execute now hw
    · cases h
  | spurious x => exact .spurious (wake_cases h)
  | destroy =>
    simp only [step] at h
    obtain ⟨hd, h⟩ := Option.ite_none_right_eq_some.1 h
    obtain rfl := Option.some.inj h
    exact .destroy hd
  | notifyAll =>
    simp only [step] at h
    obtain ⟨hd, h⟩ := Option.ite_none_right_eq_some.1 h
    obtain rfl := Option.some.inj h
    exact .notifyAll hd
  | join =>
    simp only [step] at h
    obtain ⟨hd, h⟩ := Option.ite_none_right_eq_some.1 h
    obtain rfl := Option.some.inj h
    exact .join hd.1 hd.2

end AsyncAdapter

end Storage
end ChwellCore
