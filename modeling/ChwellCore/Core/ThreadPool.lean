import ChwellCore.Lib.Pool
import ChwellCore.Lib.Progress

/-!
# The thread pool

`core::ThreadPool` has a queue of functions, a mutex, a condition variable on which its workers
sleep, and a flag.  The flag is written and the queue is used with the mutex held, and `cond_.wait`
gives the mutex up and goes to sleep in one step, so that what a worker does from taking the mutex
to giving it up (`look`) is one step.  `notify_one` in `post` comes after the mutex has been given
up, and `notify_all` in the destructor too: these are steps of their own.  `notify_one` wakes some
waiter if there is one, and a waiter may wake up for no reason.

A task is a function, empty or not; it may itself call `post`, which like every other call of `post`
can happen at any time until the destructor has returned.  A task that throws would end the process
and is left out.

What was accepted, taken out of the queue, started and finished is not in the code.
-/

set_option autoImplicit false

namespace ChwellCore
namespace Core

/-- A `std::function`, and whether it is more than an empty one. -/
structure PoolTask where
  id : ℕ
  present : Bool
deriving DecidableEq, Repr

/-- Where a worker is in `worker_loop`. -/
inductive PoolWorker where
  /-- It needs the mutex, to look into the queue. -/
  | locking
  /-- It sleeps on `cond_`. -/
  | waiting
  /-- It has taken a task out of the queue. -/
  | holding (task : PoolTask)
  /-- It is in the task. -/
  | running (task : PoolTask)
  | exited
deriving DecidableEq, Repr

/-- Where the owner of the pool is. -/
inductive PoolOwner where
  | inUse
  /-- In the destructor, with `notify_all` to come. -/
  | stopping
  /-- In the destructor, with so many workers joined. -/
  | joining (joined : ℕ)
  | gone
deriving DecidableEq, Repr

/-- `ThreadPool`, its workers, its owner, the calls of `post` that have still to call `notify_one`,
and the history. -/
structure ThreadPool where
  tasks : List PoolTask
  stopped : Bool
  workers : Pool PoolWorker
  owner : PoolOwner
  notifies : ℕ
  accepted : List PoolTask
  taken : List PoolTask
  started : List PoolTask
  finished : List PoolTask
deriving DecidableEq

/-- A step. -/
inductive PoolAct where
  /-- `post`, up to `notify_one`. -/
  | post (task : PoolTask)
  /-- `notify_one` wakes this worker. -/
  | notifyOne (woken : Option ℕ)
  /-- A worker has the mutex. -/
  | look (i : ℕ)
  /-- A worker that has a task calls it, or passes it over. -/
  | run (i : ℕ)
  /-- The task returns. -/
  | finish (i : ℕ)
  /-- A waiter wakes up for no reason. -/
  | wake (i : ℕ)
  /-- The destructor, up to `notify_all`. -/
  | destroy
  | notifyAll
  /-- The destructor joins another worker, or returns. -/
  | join
deriving DecidableEq

namespace ThreadPool

/-- The constructor. -/
def new (threadCount : ℕ) : ThreadPool :=
  ⟨[], false, List.replicate threadCount .locking, .inUse, 0, [], [], [], []⟩

def put (s : ThreadPool) (i : ℕ) (p : PoolWorker) : ThreadPool :=
  { s with workers := s.workers.put i p }

/-- What a worker that is woken up does. -/
def wakeUp : PoolWorker → PoolWorker
  | .waiting => .locking
  | p => p

/-- The critical section of `worker_loop`. -/
def look (s : ThreadPool) (i : ℕ) : ThreadPool :=
  match s.tasks with
  | [] => s.put i (if s.stopped then .exited else .waiting)
  | task :: rest => { s with tasks := rest, taken := s.taken ++ [task] }.put i (.holding task)

/-- One step; `none` if it cannot be taken. -/
def step (s : ThreadPool) : PoolAct → Option ThreadPool
  | .post task =>
    if s.owner = .gone then none
    else if s.stopped then some s
    else
      some { s with
        tasks := s.tasks ++ [task]
        notifies := s.notifies + 1
        accepted := s.accepted ++ [task] }
  | .notifyOne woken =>
    if s.notifies = 0 then none
    else
      match woken with
      | none =>
        if .waiting ∈ s.workers then none else some { s with notifies := s.notifies - 1 }
      | some i =>
        if s.workers[i]? = some .waiting then
          some ({ s with notifies := s.notifies - 1 }.put i .locking)
        else none
  | .look i => if s.workers[i]? = some .locking then some (s.look i) else none
  | .run i =>
    match s.workers[i]? with
    | some (.holding task) =>
      if task.present then some ({ s with started := s.started ++ [task] }.put i (.running task))
      else some ({ s with finished := s.finished ++ [task] }.put i .locking)
    | _ => none
  | .finish i =>
    match s.workers[i]? with
    | some (.running task) =>
      some ({ s with finished := s.finished ++ [task] }.put i .locking)
    | _ => none
  | .wake i => if s.workers[i]? = some .waiting then some (s.put i .locking) else none
  | .destroy =>
    if s.owner = .inUse then some { s with stopped := true, owner := .stopping } else none
  | .notifyAll =>
    if s.owner = .stopping then
      some { s with workers := s.workers.map wakeUp, owner := .joining 0 }
    else none
  | .join =>
    match s.owner with
    | .joining k =>
      match s.workers[k]? with
      | none => some { s with owner := .gone }
      | some .exited => some { s with owner := .joining (k + 1) }
      | some _ => none
    | _ => none

/-- The system of all interleavings. -/
def system : System ThreadPool PoolAct := System.ofPartial step

/-- The steps that are not another call from outside, nor a waking up for no reason. -/
def Internal (_ : ThreadPool) : PoolAct → Prop
  | .post _ | .wake _ | .destroy => False
  | _ => True

variable {s t : ThreadPool} {a : PoolAct}

/-- What a step can do. -/
inductive Step (s : ThreadPool) : PoolAct → ThreadPool → Prop
  | post (task : PoolTask) : s.stopped = false → Step s (.post task) { s with
      tasks := s.tasks ++ [task]
      notifies := s.notifies + 1
      accepted := s.accepted ++ [task] }
  | drop (task : PoolTask) : Step s (.post task) s
  | notifyNone : 0 < s.notifies → .waiting ∉ s.workers →
      Step s (.notifyOne none) { s with notifies := s.notifies - 1 }
  | notifySome {i : ℕ} : 0 < s.notifies → s.workers[i]? = some .waiting →
      Step s (.notifyOne (some i)) ({ s with notifies := s.notifies - 1 }.put i .locking)
  | doze {i : ℕ} : s.workers[i]? = some .locking → s.tasks = [] → s.stopped = false →
      Step s (.look i) (s.put i .waiting)
  | exit {i : ℕ} : s.workers[i]? = some .locking → s.tasks = [] → s.stopped = true →
      Step s (.look i) (s.put i .exited)
  | take {i : ℕ} {task : PoolTask} {rest : List PoolTask} : s.workers[i]? = some .locking →
      s.tasks = task :: rest →
      Step s (.look i) ({ s with tasks := rest, taken := s.taken ++ [task] }.put i (.holding task))
  | start {i : ℕ} {task : PoolTask} : s.workers[i]? = some (.holding task) → task.present = true →
      Step s (.run i) ({ s with started := s.started ++ [task] }.put i (.running task))
  | skip {i : ℕ} {task : PoolTask} : s.workers[i]? = some (.holding task) → task.present = false →
      Step s (.run i) ({ s with finished := s.finished ++ [task] }.put i .locking)
  | finish {i : ℕ} {task : PoolTask} : s.workers[i]? = some (.running task) →
      Step s (.finish i) ({ s with finished := s.finished ++ [task] }.put i .locking)
  | wake {i : ℕ} : s.workers[i]? = some .waiting → Step s (.wake i) (s.put i .locking)
  | destroy : s.owner = .inUse → Step s .destroy { s with stopped := true, owner := .stopping }
  | notifyAll : s.owner = .stopping →
      Step s .notifyAll { s with workers := s.workers.map wakeUp, owner := .joining 0 }
  | join {k : ℕ} : s.owner = .joining k → s.workers[k]? = some .exited →
      Step s .join { s with owner := .joining (k + 1) }
  | return {k : ℕ} : s.owner = .joining k → s.workers[k]? = none →
      Step s .join { s with owner := .gone }

theorem step_cases (hs : step s a = some t) : Step s a t := by
  cases a with
  | post task =>
    simp only [step] at hs
    obtain ⟨-, hs⟩ := Option.ite_none_left_eq_some.1 hs
    split at hs
    · cases hs
      exact .drop task
    · next hstop =>
      cases hs
      exact .post task (Bool.not_eq_true _ ▸ hstop)
  | notifyOne woken =>
    simp only [step] at hs
    obtain ⟨hn, hs⟩ := Option.ite_none_left_eq_some.1 hs
    split at hs
    · obtain ⟨hw, hs⟩ := Option.ite_none_left_eq_some.1 hs
      cases hs
      exact .notifyNone (Nat.pos_of_ne_zero hn) hw
    · obtain ⟨hw, hs⟩ := Option.ite_none_right_eq_some.1 hs
      cases hs
      exact .notifySome (Nat.pos_of_ne_zero hn) hw
  | look i =>
    obtain ⟨hi, hs⟩ := Option.ite_none_right_eq_some.1 hs
    cases hs
    rw [look]
    split
    · next htasks =>
      cases hstop : s.stopped
      · exact .doze hi htasks hstop
      · exact .exit hi htasks hstop
    · next htasks => exact .take hi htasks
  | run i =>
    simp only [step] at hs
    split at hs
    · next hi =>
      split at hs
      · next hpresent =>
        cases hs
        exact .start hi hpresent
      · next hpresent =>
        cases hs
        exact .skip hi (Bool.not_eq_true _ ▸ hpresent)
    · cases hs
  | finish i =>
    simp only [step] at hs
    split at hs
    · next hi =>
      cases hs
      exact .finish hi
    · cases hs
  | wake i =>
    obtain ⟨hi, hs⟩ := Option.ite_none_right_eq_some.1 hs
    cases hs
    exact .wake hi
  | destroy =>
    obtain ⟨ho, hs⟩ := Option.ite_none_right_eq_some.1 hs
    cases hs
    exact .destroy ho
  | notifyAll =>
    obtain ⟨ho, hs⟩ := Option.ite_none_right_eq_some.1 hs
    cases hs
    exact .notifyAll ho
  | join =>
    simp only [step] at hs
    split at hs
    · next ho =>
      split at hs
      · next hi =>
        cases hs
        exact .return ho hi
      · next hi =>
        cases hs
        exact .join ho hi
      · cases hs
    · cases hs

end ThreadPool

end Core
end ChwellCore
