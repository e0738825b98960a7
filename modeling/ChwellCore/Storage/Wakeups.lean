import ChwellCore.Storage.AsyncAdapter

/-!
# Lost wake-ups

With a limit on the queue, callers and workers sleep on the same condition variable, a caller until
there is room and a worker until there is a task.  Each task that is put into the queue and each one
that is taken from it wakes one of them, and it may be one who finds his predicate false and goes
back to sleep.  The wake-up is lost then: `all_asleep` is a run after which the only worker sleeps
with a task in the queue, and a caller for whom there is no room sleeps too.

The adapter cannot get stuck in a run in which `notify_one` wakes a waiter that has something to do,
whenever there is one (`never_stuck`).  The invariant says who will see to it: as long as a worker
sleeps and there is a task, another worker is awake, or a call is about to wake one, or a call is
about to put in a task and then wake one; as long as a call sleeps and there is room, some thread is
about to wake one, or another call is awake, or a worker is about to take a task.
-/

set_option autoImplicit false

namespace ChwellCore
namespace Storage
namespace AsyncAdapter

variable {σ : Type} {I : StorageInterface σ} {maxQueueSize : ℕ} {s t : AsyncAdapter σ}

/-- No thread runs, is woken up or has the mutex: all of them sleep or are gone. -/
def Quiet (s : AsyncAdapter σ) : Prop :=
  (∀ p ∈ s.workers, p = .waiting ∨ p = .exited) ∧
    ∀ c ∈ s.calls, (∃ op, c = .waiting op) ∨ ∃ op enqueued, c = .done op enqueued

/-- All threads sleep, although there is room for a caller, or a task for a worker. -/
def Stuck (maxQueueSize : ℕ) (s : AsyncAdapter σ) : Prop :=
  s.Quiet ∧ ((∃ (i : ℕ) (op : AsyncOp), s.calls[i]? = some (.waiting op) ∧
      s.tasks.length < maxQueueSize) ∨
    ∃ w : ℕ, s.workers[w]? = some .waiting ∧ s.tasks ≠ [])

/-- The waiter sleeps, and its predicate is true. -/
def Ready (maxQueueSize : ℕ) (s : AsyncAdapter σ) : Waiter → Prop
  | .worker w => s.workers[w]? = some .waiting ∧ (s.stopping = true ∨ s.tasks ≠ [])
  | .call i => (s.calls[i]?).any CallAt.isWaiting = true ∧
      (s.stopping = true ∨ s.tasks.length < maxQueueSize)

/-- If the step is a `notify_one`, it wakes a waiter whose predicate is true, if there is one. -/
def Apt (maxQueueSize : ℕ) (s : AsyncAdapter σ) : AdapterStep → Prop
  | .callNotify _ (some x) | .workerNotify _ (some x) =>
    ∀ y, s.Ready maxQueueSize y → s.Ready maxQueueSize x
  | _ => True

/-- A worker is awake. -/
def Awake (s : AsyncAdapter σ) : Prop :=
  ∃ (w : ℕ) (p : WorkerAt), s.workers[w]? = some p ∧ p ≠ .waiting ∧ p ≠ .exited

/-- A call needs the mutex. -/
def Entering (s : AsyncAdapter σ) : Prop :=
  ∃ (i : ℕ) (op : AsyncOp), s.calls[i]? = some (.locking op)

/-- A call is about to wake someone. -/
def Calling (s : AsyncAdapter σ) : Prop :=
  ∃ (i : ℕ) (op : AsyncOp), s.calls[i]? = some (.notifying op)

/-- A worker is about to wake someone. -/
def Passing (s : AsyncAdapter σ) : Prop :=
  ∃ (w : ℕ) (task : QueuedTask), s.workers[w]? = some (.notifying task)

/-- A worker needs the mutex. -/
def Looking (s : AsyncAdapter σ) : Prop := ∃ w : ℕ, s.workers[w]? = some .locking

/-- The invariant, before destruction. -/
structure Attended (maxQueueSize : ℕ) (s : AsyncAdapter σ) : Prop where
  stopping : s.stopping = false
  /-- Someone will see to it that the tasks are taken. -/
  tasks : ∀ w : ℕ, s.workers[w]? = some .waiting → s.tasks ≠ [] →
    s.Awake ∨ s.Calling ∨ s.Entering ∧ s.tasks.length < maxQueueSize
  /-- Someone will see to it that the room is used. -/
  room : ∀ (i : ℕ) (op : AsyncOp), s.calls[i]? = some (.waiting op) →
    s.tasks.length < maxQueueSize →
    s.Calling ∨ s.Passing ∨ s.Entering ∨ s.Looking ∧ s.tasks ≠ []

theorem Attended.not_stuck (h : s.Attended maxQueueSize) : ¬ s.Stuck maxQueueSize := by
  rintro ⟨⟨hworkers, hcalls⟩, hstuck⟩
  have hcall : ∀ {i : ℕ} {c : CallAt}, s.calls[i]? = some c →
      (∀ op, c ≠ .waiting op) → (∀ op enqueued, c ≠ .done op enqueued) → False := by
    intro i c hc hw hd
    rcases hcalls c (List.mem_of_getElem? hc) with ⟨op, rfl⟩ | ⟨op, b, rfl⟩
    · exact hw op rfl
    · exact hd op b rfl
  have hcalling : ¬ s.Calling := fun ⟨i, op, hi⟩ ↦ hcall hi (by simp) (by simp)
  have hentering : ¬ s.Entering := fun ⟨i, op, hi⟩ ↦ hcall hi (by simp) (by simp)
  have hawake : ¬ s.Awake := by
    rintro ⟨w, p, hp, hw, he⟩
    rcases hworkers p (List.mem_of_getElem? hp) with h | h
    · exact hw h
    · exact he h
  rcases hstuck with ⟨i, op, hi, hroom⟩ | ⟨w, hw, htasks⟩
  · rcases h.room i op hi hroom with hc | ⟨w, task, hp⟩ | he | ⟨⟨w, hl⟩, _⟩
    · exact hcalling hc
    · exact hawake ⟨w, _, hp, by simp, by simp⟩
    · exact hentering he
    · exact hawake ⟨w, _, hl, by simp, by simp⟩
  · rcases h.tasks w hw htasks with ha | hc | ⟨he, _⟩
    · exact hawake ha
    · exact hcalling hc
    · exact hentering he

/-! ## What a wake-up does -/

theorem any_isWaiting {i : ℕ} {op : AsyncOp} (h : s.calls[i]? = some (.waiting op)) :
    (s.calls[i]?).any CallAt.isWaiting = true := by
  rw [h]
  rfl

/-- The wake-up of a waiter leaves everything but its place. -/
structure Woken (s t : AsyncAdapter σ) : Prop where
  tasks : t.tasks = s.tasks
  stopping : t.stopping = s.stopping
  destructor : t.destructor = s.destructor
  worker : ∀ w : ℕ, t.workers[w]? = some .waiting → s.workers[w]? = some .waiting
  call : ∀ (i : ℕ) (op : AsyncOp), t.calls[i]? = some (.waiting op) →
    s.calls[i]? = some (.waiting op)
  awake : s.Awake → t.Awake
  calling : s.Calling → t.Calling
  passing : s.Passing → t.Passing
  entering : s.Entering → t.Entering
  looking : s.Looking → t.Looking

/-- A call that was not about to enter or to wake someone goes elsewhere than to sleep. -/
theorem woken_setCall {i : ℕ} {c c' : CallAt} (hi : s.calls[i]? = some c)
    (hc : ∀ op, CallAt.locking op ≠ c ∧ CallAt.notifying op ≠ c)
    (hc' : ∀ op, CallAt.waiting op ≠ c') : Woken s (s.setCall i c') where
  tasks := rfl
  stopping := rfl
  destructor := rfl
  worker _ hw := hw
  call _ op hi' := Pool.getElem?_of_put hi' (hc' op)
  awake := id
  calling := fun ⟨i', op, hi'⟩ ↦ ⟨i', op, Pool.getElem?_put_of_ne hi hi' (hc op).2 _⟩
  passing := id
  entering := fun ⟨i', op, hi'⟩ ↦ ⟨i', op, Pool.getElem?_put_of_ne hi hi' (hc op).1 _⟩
  looking := id

theorem Wake.woken {x : Waiter} (h : Wake s x t) : Woken s t := by
  cases h with
  | worker hw =>
    exact
      { tasks := rfl
        stopping := rfl
        destructor := rfl
        worker := fun w' hw' ↦ Pool.getElem?_of_put hw' (by simp)
        call := fun _ _ hi ↦ hi
        awake := fun ⟨w', p, hp, hne, he⟩ ↦ ⟨w', p, Pool.getElem?_put_of_ne hw hp hne _, hne, he⟩
        calling := id
        passing := fun ⟨w', task, hp⟩ ↦ ⟨w', task, Pool.getElem?_put_of_ne hw hp (by simp) _⟩
        entering := id
        looking := fun ⟨w', hp⟩ ↦ ⟨w', Pool.getElem?_put_of_ne hw hp (by simp) _⟩ }
  | call hi => exact woken_setCall hi (by simp) (by simp)

theorem Notify.woken {woken : Option Waiter} (h : Notify s woken t) : Woken s t := by
  cases h with
  | one hwake => exact hwake.woken
  | nobody => exact ⟨rfl, rfl, rfl, fun _ h ↦ h, fun _ _ h ↦ h, id, id, id, id, id⟩

/-- After an apt `notify_one`, if a worker still sleeps and there is a task, a worker is awake or a
call with room. -/
theorem Notify.tasks {woken : Option Waiter} (h : Notify s woken t) (hstop : s.stopping = false)
    (hapt : ∀ x, woken = some x → ∀ y, s.Ready maxQueueSize y → s.Ready maxQueueSize x) {w : ℕ}
    (hw : t.workers[w]? = some .waiting) (htasks : t.tasks ≠ []) :
    t.Looking ∨ t.Entering ∧ t.tasks.length < maxQueueSize := by
  have hwoken := h.woken
  have hw' := hwoken.worker w hw
  rw [hwoken.tasks] at htasks ⊢
  cases h with
  | nobody hworkers _ => exact absurd hw' (hworkers w)
  | one hwake =>
    have hready := hapt _ rfl (.worker w) ⟨hw', .inr htasks⟩
    cases hwake with
    | worker hx => exact .inl ⟨_, Pool.getElem?_put_self hx _⟩
    | call hx =>
      refine .inr ⟨⟨_, _, Pool.getElem?_put_self hx _⟩, ?_⟩
      rcases hready.2 with hstop' | hroom
      · rw [hstop] at hstop'
        cases hstop'
      · exact hroom

/-- After an apt `notify_one`, if a call still sleeps and there is room, a call is awake or a worker
with a task. -/
theorem Notify.room {woken : Option Waiter} (h : Notify s woken t) (hstop : s.stopping = false)
    (hapt : ∀ x, woken = some x → ∀ y, s.Ready maxQueueSize y → s.Ready maxQueueSize x) {i : ℕ}
    {op : AsyncOp} (hi : t.calls[i]? = some (.waiting op))
    (hroom : t.tasks.length < maxQueueSize) :
    t.Entering ∨ t.Looking ∧ t.tasks ≠ [] := by
  have hwoken := h.woken
  have hi' := hwoken.call i op hi
  rw [hwoken.tasks] at hroom ⊢
  cases h with
  | nobody _ hcalls => exact absurd hi' (hcalls i op)
  | one hwake =>
    have hready := hapt _ rfl (.call i) ⟨any_isWaiting hi', .inr hroom⟩
    cases hwake with
    | call hx => exact .inl ⟨_, _, Pool.getElem?_put_self hx _⟩
    | worker hx =>
      refine .inr ⟨⟨_, Pool.getElem?_put_self hx _⟩, ?_⟩
      rcases hready.2 with hstop' | htasks
      · rw [hstop] at hstop'
        cases hstop'
      · exact htasks

/-- Who is ready does not depend on the places of those who are awake. -/
theorem ready_setCall {i : ℕ} {c c' : CallAt} (hi : s.calls[i]? = some c)
    (hc : c.isWaiting = false) (hc' : c'.isWaiting = false) (x : Waiter) :
    (s.setCall i c').Ready maxQueueSize x ↔ s.Ready maxQueueSize x := by
  cases x with
  | worker w => exact Iff.rfl
  | call j =>
    have hany : ((s.setCall i c').calls[j]?).any CallAt.isWaiting =
        (s.calls[j]?).any CallAt.isWaiting := by
      by_cases hij : i = j
      · subst hij
        rw [hi, setCall, Pool.getElem?_put_self hi, Option.any_some, Option.any_some, hc, hc']
      · rw [setCall, Pool.put, List.getElem?_set_ne hij]
    rw [Ready, Ready, hany]
    exact Iff.rfl

theorem ready_setWorker {w : ℕ} {p p' : WorkerAt} (hw : s.workers[w]? = some p)
    (hp : p ≠ .waiting) (hp' : p' ≠ .waiting) (x : Waiter) :
    (s.setWorker w p').Ready maxQueueSize x ↔ s.Ready maxQueueSize x := by
  cases x with
  | call i => exact Iff.rfl
  | worker w' =>
    refine and_congr ⟨fun h ↦ Pool.getElem?_of_put h hp'.symm, fun h ↦ ?_⟩ Iff.rfl
    exact Pool.getElem?_put_of_ne hw h hp.symm _

/-! ## In an apt run -/

theorem Attended.of_woken (h : s.Attended maxQueueSize) (hwoken : Woken s t) :
    t.Attended maxQueueSize := by
  refine ⟨hwoken.stopping.trans h.stopping, fun w hw htasks ↦ ?_, fun i op hi hroom ↦ ?_⟩
  · rw [hwoken.tasks] at htasks ⊢
    rcases h.tasks w (hwoken.worker w hw) htasks with ha | hc | ⟨he, hroom⟩
    · exact .inl (hwoken.awake ha)
    · exact .inr (.inl (hwoken.calling hc))
    · exact .inr (.inr ⟨hwoken.entering he, hroom⟩)
  · rw [hwoken.tasks] at hroom ⊢
    rcases h.room i op (hwoken.call i op hi) hroom with hc | hp | he | ⟨hl, hne⟩
    · exact .inl (hwoken.calling hc)
    · exact .inr (.inl (hwoken.passing hp))
    · exact .inr (.inr (.inl (hwoken.entering he)))
    · exact .inr (.inr (.inr ⟨hwoken.looking hl, hne⟩))

/-- A step before destruction. -/
theorem Attended.step {l : AdapterStep} (h : s.Attended maxQueueSize)
    (hapt : s.Apt maxQueueSize l) (hstep : Step I maxQueueSize s l t)
    (hd : t.destructor = .notCalled) : t.Attended maxQueueSize := by
  cases hstep with
  | call op =>
    have hnew : { s with calls := s.calls.spawn (.locking op) }.Entering :=
      ⟨s.calls.length, op, List.getElem?_concat_length⟩
    refine ⟨h.stopping, fun w hw htasks ↦ ?_, fun _ _ _ _ ↦ .inr (.inr (.inl hnew))⟩
    rcases h.tasks w hw htasks with ha | ⟨i, op', hi⟩ | ⟨_, hroom⟩
    · exact .inl ha
    · exact .inr (.inl ⟨i, op', Pool.getElem?_spawn hi _⟩)
    · exact .inr (.inr ⟨hnew, hroom⟩)
  | refused hi hstop =>
    rw [h.stopping] at hstop
    cases hstop
  | @blocked i op hi hstop hmax hfull =>
    have hfull' : ¬ s.tasks.length < maxQueueSize := not_lt.2 hfull
    refine ⟨h.stopping, fun w hw htasks ↦ ?_, fun _ _ _ hroom ↦ absurd hroom hfull'⟩
    rcases h.tasks w hw htasks with ha | ⟨j, op', hj⟩ | ⟨_, hroom⟩
    · exact .inl ha
    · exact .inr (.inl ⟨j, op', Pool.getElem?_put_of_ne hi hj (by simp) _⟩)
    · exact absurd hroom hfull'
  | @pushed i op hi hstop hroom =>
    have hcalling : ((s.push ⟨i, op⟩).setCall i (.notifying op)).Calling :=
      ⟨i, op, Pool.getElem?_put_self hi _⟩
    exact ⟨h.stopping, fun _ _ _ ↦ .inr (.inl hcalling), fun _ _ _ _ ↦ .inl hcalling⟩
  | @callNotify i op woken _ hi hnotify =>
    have hapt' : ∀ x, woken = some x → ∀ y,
        (s.setCall i (.done op true)).Ready maxQueueSize y →
        (s.setCall i (.done op true)).Ready maxQueueSize x := by
      rintro x rfl y hy
      exact (ready_setCall hi rfl rfl x).2 (hapt y ((ready_setCall hi rfl rfl y).1 hy))
    refine ⟨hnotify.woken.stopping.trans h.stopping, fun w hw htasks ↦ ?_, fun j op' hj hroom ↦ ?_⟩
    · rcases hnotify.tasks h.stopping hapt' hw htasks with ⟨w', hw'⟩ | he
      · exact .inl ⟨w', _, hw', by simp, by simp⟩
      · exact .inr (.inr he)
    · exact .inr (.inr (hnotify.room h.stopping hapt' hj hroom))
  | @refuse i op hi =>
    have hpromised : { s with promises := s.promises ++ [(i, op.refusal)] }.Attended maxQueueSize :=
      ⟨h.stopping, h.tasks, h.room⟩
    exact hpromised.of_woken (woken_setCall hi (by simp) (by simp))
  | @taken w task tasks hw htasks =>
    have hself : ({ s with tasks := tasks }.setWorker w (.notifying task)).workers[w]? =
        some (.notifying task) := Pool.getElem?_put_self hw _
    exact ⟨h.stopping, fun _ _ _ ↦ .inl ⟨w, _, hself, by simp, by simp⟩,
      fun _ _ _ _ ↦ .inr (.inl ⟨w, task, hself⟩)⟩
  | exit hw htasks hstop =>
    rw [h.stopping] at hstop
    cases hstop
  | @sleep w hw htasks hstop =>
    refine ⟨h.stopping, fun _ _ hne ↦ absurd htasks hne, fun i op hi hroom ↦ ?_⟩
    -- The worker goes to sleep because there is no task, so it was not the one in charge.
    rcases h.room i op hi hroom with hc | ⟨w', task, hp⟩ | he | ⟨_, hne⟩
    · exact .inl hc
    · exact .inr (.inl ⟨w', task, Pool.getElem?_put_of_ne hw hp (by simp) _⟩)
    · exact .inr (.inr (.inl he))
    · exact absurd htasks hne
  | @workerNotify w task woken _ hw hnotify =>
    have hapt' : ∀ x, woken = some x → ∀ y,
        (s.setWorker w (.running task)).Ready maxQueueSize y →
        (s.setWorker w (.running task)).Ready maxQueueSize x := by
      rintro x rfl y hy
      exact (ready_setWorker hw (by simp) (by simp) x).2
        (hapt y ((ready_setWorker hw (by simp) (by simp) y).1 hy))
    have hawake : (s.setWorker w (.running task)).Awake :=
      ⟨w, _, Pool.getElem?_put_self hw _, by simp, by simp⟩
    exact ⟨hnotify.woken.stopping.trans h.stopping, fun _ _ _ ↦ .inl (hnotify.woken.awake hawake),
      fun j op' hj hroom ↦ .inr (.inr (hnotify.room h.stopping hapt' hj hroom))⟩
  | @execute w task now hw =>
    have hself : ((s.run I task now).setWorker w .locking).workers[w]? = some .locking :=
      Pool.getElem?_put_self hw _
    refine ⟨h.stopping, fun _ _ _ ↦ .inl ⟨w, _, hself, by simp, by simp⟩, fun i op hi hroom ↦ ?_⟩
    rcases h.room i op hi hroom with hc | ⟨w', task', hp⟩ | he | ⟨_, hne⟩
    · exact .inl hc
    · exact .inr (.inl ⟨w', task', Pool.getElem?_put_of_ne hw hp (by simp) _⟩)
    · exact .inr (.inr (.inl he))
    · exact .inr (.inr (.inr ⟨⟨w, hself⟩, hne⟩))
  | spurious hwake => exact h.of_woken hwake.woken
  | destroy | notifyAll | join => cases hd

/-- Destruction is not undone. -/
theorem Step.notCalled {l : AdapterStep} (hstep : Step I maxQueueSize s l t)
    (hd : t.destructor = .notCalled) : s.destructor = .notCalled := by
  cases hstep with
  | callNotify _ hnotify | workerNotify _ hnotify =>
    rw [hnotify.woken.destructor] at hd
    exact hd
  | spurious hwake =>
    rw [hwake.woken.destructor] at hd
    exact hd
  | destroy | notifyAll | join => cases hd
  | call | refused | blocked | pushed | refuse | taken | exit | sleep | execute => exact hd

/-- **The queue does not get stuck in an apt run**: if every `notify_one` wakes a waiter whose
predicate is true whenever there is one, then in no state before destruction all threads sleep
while there is room for a caller that sleeps or a task for a worker. -/
theorem never_stuck {numThreads : ℕ} {storage : σ} {ls : List AdapterStep}
    (hrun :
      ((system I maxQueueSize).guarded (Apt maxQueueSize)).Run (fresh numThreads storage) ls s)
    (hd : s.destructor = .notCalled) : ¬ s.Stuck maxQueueSize := by
  have hinv : s.destructor = .notCalled → s.Attended maxQueueSize := by
    refine hrun.invariant
      (motive := fun s ↦ s.destructor = .notCalled → s.Attended maxQueueSize) ?_ ?_
    · intro u l v hu hstep hv
      have hcases := step_cases hstep.2
      exact (hu (hcases.notCalled hv)).step hstep.1 hcases hv
    · refine fun _ ↦ ⟨rfl, fun w hw ↦ ?_, fun i op hi ↦ by cases hi⟩
      cases List.eq_of_mem_replicate (List.mem_of_getElem? hw)
  exact (hinv hd).not_stuck

instance decidableReady (s : AsyncAdapter σ) : ∀ x, Decidable (s.Ready maxQueueSize x)
  | .worker _ => instDecidableAnd
  | .call _ => instDecidableAnd

theorem forall_ready_iff {P : Prop} : (∀ y, s.Ready maxQueueSize y → P) ↔
    (∀ w < s.workers.length, s.Ready maxQueueSize (.worker w) → P) ∧
      ∀ i < s.calls.length, s.Ready maxQueueSize (.call i) → P := by
  refine ⟨fun h ↦ ⟨fun _ _ ↦ h _, fun _ _ ↦ h _⟩, fun h y hy ↦ ?_⟩
  cases y with
  | worker w => exact h.1 w (List.getElem?_eq_some_iff.1 hy.1).1 hy
  | call i =>
    obtain ⟨c, hc, _⟩ := (Option.any_eq_true _ _).1 hy.1
    exact h.2 i (List.getElem?_eq_some_iff.1 hc).1 hy

instance decidableApt (s : AsyncAdapter σ) : ∀ l, Decidable (s.Apt maxQueueSize l)
  | .callNotify _ (some _) | .workerNotify _ (some _) => decidable_of_iff' _ forall_ready_iff
  | .callNotify _ none | .workerNotify _ none | .call _ | .enqueue _ | .refuse _ | .take _
  | .execute _ _ | .spurious _ | .destroy | .notifyAll | .join => isTrue trivial

/-- A queue of one.  The first caller fills it while the worker sleeps, and the second one has to
wait; the worker is woken up, and wakes the second caller in turn. -/
def handedOn : List AdapterStep :=
  [.take 0, .call (.get []), .enqueue 0, .call (.get []), .enqueue 1,
    .callNotify 0 (some (.worker 0)), .take 0, .workerNotify 0 (some (.call 1)), .execute 0 0,
    .take 0]

theorem never_stuck_handedOn :
    ∃ s : AsyncAdapter MemoryStorage,
      ((system MemoryStorage.interface 1).guarded (Apt 1)).Run (fresh 1 ∅) handedOn s ∧
        s.workers = [.waiting] ∧ s.calls = [.done (.get []) true, .locking (.get [])] ∧
        ¬ s.Stuck 1 := by
  obtain ⟨s, hrun, hd, hworkers, hcalls⟩ : ∃ s : AsyncAdapter MemoryStorage,
      ((system MemoryStorage.interface 1).guarded (Apt 1)).Run (fresh 1 ∅) handedOn s ∧
        s.destructor = .notCalled ∧ s.workers = [.waiting] ∧
        s.calls = [.done (.get []) true, .locking (.get [])] :=
    System.Run.exists_of_any_guarded (by decide +kernel)
  exact ⟨s, hrun, hworkers, hcalls, never_stuck hrun hd⟩

/-- The same, but the first caller wakes the second one, who finds the queue full and goes back to
sleep: now everybody sleeps, and the task of the first caller is never run. -/
theorem all_asleep :
    ∃ s : AsyncAdapter MemoryStorage,
      (system MemoryStorage.interface 1).Run (fresh 1 ∅)
        [.take 0, .call (.get []), .enqueue 0, .call (.get []), .enqueue 1,
          .callNotify 0 (some (.call 1)), .enqueue 1] s ∧
        s.destructor = .notCalled ∧ s.tasks = [⟨0, .get []⟩] ∧ s.Stuck 1 := by
  obtain ⟨s, hrun, hd, htasks, hworkers, hcalls⟩ : ∃ s : AsyncAdapter MemoryStorage,
      (system MemoryStorage.interface 1).Run (fresh 1 ∅)
        [.take 0, .call (.get []), .enqueue 0, .call (.get []), .enqueue 1,
          .callNotify 0 (some (.call 1)), .enqueue 1] s ∧
        s.destructor = .notCalled ∧ s.tasks = [⟨0, .get []⟩] ∧ s.workers = [.waiting] ∧
        s.calls = [.done (.get []) true, .waiting (.get [])] :=
    System.Run.exists_of_any (by decide +kernel)
  refine ⟨s, hrun, hd, htasks, ⟨?_, ?_⟩, .inr ⟨0, ?_, ?_⟩⟩
  · rw [hworkers]
    simp
  · rw [hcalls]
    simp
  · rw [hworkers]
    rfl
  · rw [htasks]
    simp

end AsyncAdapter
end Storage
end ChwellCore
