import ChwellCore.Task.TaskQueue

/-!
# Every task is accounted for

A task that has been accepted is at every moment in one place: in the queue, with a worker that has
taken it off the queue and not come back from `execute`, or finished.  As in any bookkeeping the
places are added up: `Accounts.balance` says that the ids in them are those accepted, each once, and
a step moves an id from one place to another.  The counters count workers in certain places, and
come out right for the same reason.

Who the workers are is kept apart from what they hold (`Crew`).  `stop` joins them one after
another, and when it forgets them they have all left their loop with nothing in hand.

A task that is cancelled is not taken off the queue: `cancel` only drops its id from `tasks_`, which
no worker looks at before it runs a task.  So a task runs although it was cancelled
(`runs_although_cancelled`), unless it was cancelled when it had been started already.
-/

set_option autoImplicit false

namespace ChwellCore
namespace Task

namespace Worker

/-- The local variable `task`. -/
def task : Worker → Option TaskBase
  | popped task | counted task | executing task | executed task | uncounted task
  | completed task => some task
  | looping | locking | testing | dozing | waiting | deciding | exited => none

/-- The task a worker holds: it has been taken off the queue and not been executed to the end. -/
def held : Worker → Multiset ℕ
  | popped task | counted task | executing task => {task.id}
  | executed _ | uncounted _ | completed _
  | looping | locking | testing | dozing | waiting | deciding | exited => 0

/-- The task a worker is executing. -/
def began : Worker → Multiset ℕ
  | executing task => {task.id}
  | popped _ | counted _ | executed _ | uncounted _ | completed _
  | looping | locking | testing | dozing | waiting | deciding | exited => 0

/-- The task for which a worker is counted in `running_count_`. -/
def counts : Worker → Multiset ℕ
  | counted task | executing task | executed task => {task.id}
  | popped _ | uncounted _ | completed _
  | looping | locking | testing | dozing | waiting | deciding | exited => 0

/-- The task that a worker has executed and not counted in `completed_count_`. -/
def owes : Worker → Multiset ℕ
  | executed task | uncounted task => {task.id}
  | popped _ | counted _ | executing _ | completed _
  | looping | locking | testing | dozing | waiting | deciding | exited => 0

/-- The same tasks are in hand, in whatever way. -/
structure SameTokens (p q : Worker) : Prop where
  held : q.held = p.held
  began : q.began = p.began
  counts : q.counts = p.counts
  owes : q.owes = p.owes

theorem sameTokens_wakeUp (p : Worker) : SameTokens p (Machine.wakeUp p) := by
  cases p <;> exact ⟨rfl, rfl, rfl, rfl⟩

end Worker

namespace Machine

variable {s t : Machine} {a : Act} {i : ℕ} {p q : Worker}

/-- Worker `i` goes from `p` to `q`.  What it does with the queue and the counters is left open. -/
structure Moves (s : Machine) (i : ℕ) (p q : Worker) (t : Machine) : Prop where
  getElem? : s.workers[i]? = some p
  ne_exited : p ≠ .exited
  workers : t.workers = s.workers.put i q
  config : t.config = s.config
  running : t.running = s.running
  nextTaskId : t.nextTaskId = s.nextTaskId
  control : t.control = s.control
  drawn : t.drawn = s.drawn
  waiters : t.waiters = s.waiters
  accepted : t.accepted = s.accepted
  cancelled : t.cancelled = s.cancelled

/-- A worker moves on, and may do something to the queue, the tasks or the counters. -/
theorem moves_put {owner : Option ℕ} {queue : List Entry} {tasks : Finset ℕ}
    {runningCount completedCount : ℤ} {started finished : List ℕ}
    (hp : s.workers[i]? = some p) (hne : p ≠ .exited) : Moves s i p q
      ({ s with owner, queue, tasks, runningCount, completedCount, started, finished }.put i q) :=
  ⟨hp, hne, rfl, rfl, rfl, rfl, rfl, rfl, rfl, rfl, rfl⟩

theorem moves_of_work (hs : Step s (.work i) t) : ∃ p q, Moves s i p q t := by
  cases hs with
  | enter hp | leave hp | lock hp | proceed hp | doze hp | wait hp | «break» hp | findNone hp
  | pop hp | count hp | begin hp | finish hp | uncount hp | complete hp | erase hp =>
    exact ⟨_, _, moves_put hp (by simp)⟩

theorem moves_locking (s : Machine) (hp : s.workers[i]? = some .waiting) :
    Moves s i .waiting .locking (s.put i .locking) :=
  moves_put hp (by simp)

/-! ## The crew -/

/-- What the thread that starts and stops the workers knows about them. -/
def Fits (s : Machine) : Control → Prop
  | .idle => s.running = false → s.workers = []
  | .starting k => s.running = true ∧ s.workers.length = k
  | .stopping => s.running = false
  | .joining k => s.running = false ∧ ∀ j < k, s.workers[j]? = some .exited

/-- The workers. -/
structure Crew (s : Machine) : Prop where
  length_le : (s.workers.length : ℤ) ≤ max 0 s.config.workerThreads
  fits : s.Fits s.control

theorem Crew.moves (h : s.Crew) (hm : Moves s i p q t) : t.Crew := by
  have hlength : t.workers.length = s.workers.length := by
    rw [hm.workers, Pool.put, List.length_set]
  refine ⟨by rw [hlength, hm.config]; exact h.length_le, ?_⟩
  have hfits := h.fits
  rw [hm.control]
  cases hcontrol : s.control with
  | idle =>
    rw [hcontrol] at hfits
    intro hrunning
    have hp := hm.getElem?
    rw [hfits (hm.running.symm.trans hrunning)] at hp
    cases hp
  | starting k =>
    rw [hcontrol] at hfits
    exact ⟨hm.running.trans hfits.1, hlength.trans hfits.2⟩
  | stopping =>
    rw [hcontrol] at hfits
    exact hm.running.trans hfits
  | joining k =>
    rw [hcontrol] at hfits
    refine ⟨hm.running.trans hfits.1, fun j hj ↦ ?_⟩
    have hne : i ≠ j := by
      rintro rfl
      exact hm.ne_exited (Option.some.inj (hm.getElem?.symm.trans (hfits.2 i hj)))
    rw [hm.workers, Pool.put, List.getElem?_set_ne hne]
    exact hfits.2 j hj

/-- When the last worker has been joined, all have left their loop. -/
theorem Crew.exited (h : s.Crew) {k : ℕ} (hcontrol : s.control = .joining k)
    (hk : s.workers[k]? = none) : ∀ p ∈ s.workers, p = .exited := by
  intro p hp
  obtain ⟨j, hj⟩ := List.mem_iff_getElem?.1 hp
  have hfits := h.fits
  rw [hcontrol] at hfits
  have hlt : j < k := by
    have hj' := (List.getElem?_eq_some_iff.1 hj).1
    have hk' := List.getElem?_eq_none_iff.1 hk
    omega
  rw [hfits.2 j hlt] at hj
  exact (Option.some.inj hj).symm

theorem Crew.step (h : s.Crew) (hs : Step s a t) : t.Crew := by
  have hfits := h.fits
  cases a with
  | work i =>
    obtain ⟨p, q, hm⟩ := moves_of_work hs
    exact h.moves hm
  | draw | cancel | waitAll | poll => cases hs <;> exact ⟨h.length_le, h.fits⟩
  | offer =>
    cases hs with
    | reject | accept => exact ⟨h.length_le, h.fits⟩
    | acceptWake hk hroom hi =>
      exact Crew.moves (s := s.accept _ _) ⟨h.length_le, h.fits⟩ (moves_locking _ hi)
  | wake =>
    cases hs with
    | wake hi => exact h.moves (moves_locking s hi)
  | start =>
    cases hs with
    | start hcontrol hrunning =>
      rw [hcontrol] at hfits
      exact ⟨h.length_le, rfl, by rw [hfits hrunning]; rfl⟩
    | startAgain => exact h
  | spawn =>
    cases hs with
    | @spawn k hcontrol hk =>
      rw [hcontrol] at hfits
      have hlength : (s.workers.spawn .looping).length = k + 1 := by
        rw [Pool.spawn, List.length_append, hfits.2, List.length_singleton]
      refine ⟨?_, hfits.1, hlength⟩
      dsimp only
      rw [hlength]
      omega
    | spawnEnd hcontrol hk =>
      rw [hcontrol] at hfits
      refine ⟨h.length_le, fun hrunning ↦ ?_⟩
      exact absurd (hfits.1.symm.trans hrunning) (by simp)
  | stop =>
    cases hs with
    | stop => exact ⟨h.length_le, rfl⟩
    | stopAgain => exact h
  | notifyAll =>
    cases hs with
    | notifyAll hcontrol =>
      rw [hcontrol] at hfits
      refine ⟨?_, hfits, fun j hj ↦ absurd hj (Nat.not_lt_zero j)⟩
      dsimp only
      rw [List.length_map]
      exact h.length_le
  | join =>
    cases hs with
    | @join k hcontrol hk =>
      rw [hcontrol] at hfits
      refine ⟨h.length_le, hfits.1, fun j hj ↦ ?_⟩
      rcases Nat.lt_succ_iff_lt_or_eq.1 hj with hj | rfl
      · exact hfits.2 j hj
      · exact hk
    | joinEnd => exact ⟨le_max_left _ _, fun _ ↦ rfl⟩

/-! ## The accounts -/

/-- **The books.** -/
structure Accounts (s : Machine) : Prop where
  lt : ∀ id ∈ (s.drawn.map TaskBase.id : Multiset ℕ) + s.accepted, id < s.nextTaskId
  nodup : ((s.drawn.map TaskBase.id : Multiset ℕ) + s.accepted).Nodup
  balance : (s.queue.map (·.task.id) : Multiset ℕ) + Pool.total Worker.held s.workers + s.finished =
    s.accepted
  started : (s.started : Multiset ℕ) = Pool.total Worker.began s.workers + s.finished
  running : s.runningCount = (Pool.total Worker.counts s.workers).card
  completed : s.completedCount + (Pool.total Worker.owes s.workers).card = s.finished.length
  size : (s.queue.length : ℤ) ≤ max 0 s.config.maxQueueSize

/-- **A worker moves on**: the books are right if it accounts for what it has done. -/
theorem Accounts.moves (h : s.Accounts) (hm : Moves s i p q t)
    (hbalance : (t.queue.map (·.task.id) : Multiset ℕ) + q.held + t.finished =
      (s.queue.map (·.task.id) : Multiset ℕ) + p.held + s.finished)
    (hstarted : (t.started : Multiset ℕ) + p.began + s.finished = s.started + q.began + t.finished)
    (hrunning : t.runningCount + p.counts.card = s.runningCount + q.counts.card)
    (hcompleted : t.completedCount + q.owes.card + s.finished.length =
      s.completedCount + p.owes.card + t.finished.length)
    (hsize : t.queue.length ≤ s.queue.length) : t.Accounts := by
  have hheld := Pool.total_put Worker.held hm.getElem? q
  have hbegan := Pool.total_put Worker.began hm.getElem? q
  have hcounts := congrArg Multiset.card (Pool.total_put Worker.counts hm.getElem? q)
  have howes := congrArg Multiset.card (Pool.total_put Worker.owes hm.getElem? q)
  rw [← hm.workers] at hheld hbegan hcounts howes
  rw [Multiset.card_add, Multiset.card_add] at hcounts howes
  have hrun := h.running
  have hcompl := h.completed
  refine ⟨?_, ?_, ?_, ?_, by omega, by omega, ?_⟩
  · rw [hm.drawn, hm.accepted, hm.nextTaskId]
    exact h.lt
  · rw [hm.drawn, hm.accepted]
    exact h.nodup
  · refine add_right_cancel (b := p.held) ?_
    calc _ = (t.queue.map (·.task.id) : Multiset ℕ) + t.finished +
          (Pool.total Worker.held t.workers + p.held) := by abel
      _ = (t.queue.map (·.task.id) : Multiset ℕ) + q.held + t.finished +
          Pool.total Worker.held s.workers := by rw [hheld]; abel
      _ = (s.queue.map (·.task.id) : Multiset ℕ) + Pool.total Worker.held s.workers + s.finished +
          p.held := by rw [hbalance]; abel
      _ = t.accepted + p.held := by rw [h.balance, hm.accepted]
  · refine add_right_cancel (b := p.began + s.finished) ?_
    calc _ = (t.started : Multiset ℕ) + p.began + s.finished := by abel
      _ = s.started + q.began + t.finished := hstarted
      _ = Pool.total Worker.began s.workers + q.began + t.finished + s.finished := by
          rw [h.started]; abel
      _ = _ := by rw [← hbegan]; abel
  · rw [hm.config]
    exact (Int.ofNat_le.2 hsize).trans h.size

/-- A worker moves on with the same tasks in hand. -/
theorem Accounts.same (h : s.Accounts) (hm : Moves s i p q t) (hpq : Worker.SameTokens p q)
    (hqueue : t.queue = s.queue) (hstarted : t.started = s.started)
    (hfinished : t.finished = s.finished) (hrunning : t.runningCount = s.runningCount)
    (hcompleted : t.completedCount = s.completedCount) : t.Accounts := by
  refine h.moves hm ?_ ?_ ?_ ?_ (by rw [hqueue]) <;>
    simp only [hqueue, hstarted, hfinished, hrunning, hcompleted, hpq.held, hpq.began, hpq.counts,
      hpq.owes]

/-- Other workers with the same tasks in hand. -/
theorem Accounts.workers (h : s.Accounts) {workers : Pool Worker} {control : Control}
    (hheld : Pool.total Worker.held workers = Pool.total Worker.held s.workers)
    (hbegan : Pool.total Worker.began workers = Pool.total Worker.began s.workers)
    (hcounts : Pool.total Worker.counts workers = Pool.total Worker.counts s.workers)
    (howes : Pool.total Worker.owes workers = Pool.total Worker.owes s.workers) :
    Accounts { s with workers := workers, control := control } :=
  ⟨h.lt, h.nodup, hheld ▸ h.balance, hbegan ▸ h.started, hcounts ▸ h.running, howes ▸ h.completed,
    h.size⟩

/-- A task is taken off the queue. -/
theorem map_id_erase {queue : List Entry} {e : Entry} (he : e ∈ queue) :
    (queue.map (·.task.id) : Multiset ℕ) =
      ((queue.erase e).map (·.task.id) : Multiset ℕ) + {e.task.id} := by
  rw [← Multiset.coe_singleton, Multiset.coe_add, Multiset.coe_eq_coe]
  refine ((List.perm_cons_erase he).map _).trans ?_
  exact (List.perm_append_singleton _ _).symm

theorem Accounts.work (h : s.Accounts) (hs : Step s (.work i) t) : t.Accounts := by
  cases hs with
  | enter hp | leave hp | lock hp | proceed hp | doze hp | wait hp | «break» hp | findNone hp
  | erase hp =>
    exact h.same (moves_put hp (by simp)) ⟨rfl, rfl, rfl, rfl⟩ rfl rfl rfl rfl rfl
  | pop hp htop =>
    refine h.moves (moves_put hp (by simp)) ?_ rfl rfl rfl List.length_erase_le
    rw [map_id_erase (mem_of_top htop)]
    simp only [put, Worker.held, add_zero]
  | count hp | uncount hp =>
    refine h.moves (moves_put hp (by simp)) rfl rfl ?_ rfl le_rfl
    simp [put, Worker.counts]
  | begin hp =>
    refine h.moves (moves_put hp (by simp)) rfl ?_ rfl rfl le_rfl
    simp only [put, Worker.began, ← Multiset.coe_add, Multiset.coe_singleton, add_zero]
  | finish hp =>
    refine h.moves (moves_put hp (by simp)) ?_ ?_ rfl ?_ le_rfl
    · simp only [put, Worker.held, ← Multiset.coe_add, Multiset.coe_singleton]
      abel
    · simp only [put, Worker.began, ← Multiset.coe_add, Multiset.coe_singleton]
      abel
    · simp only [put, Worker.owes, Multiset.card_zero, Multiset.card_singleton, List.length_append,
        List.length_singleton]
      omega
  | complete hp =>
    refine h.moves (moves_put hp (by simp)) rfl rfl rfl ?_ le_rfl
    simp [put, Worker.owes]

/-- A call of `submit` brings its task to the queue. -/
theorem Accounts.accept (h : s.Accounts) {k : ℕ} {task : TaskBase} (hk : s.drawn[k]? = some task)
    (hroom : ¬ s.full) : (s.accept k task).Accounts := by
  obtain ⟨hlt, hget⟩ := List.getElem?_eq_some_iff.1 hk
  have hids : ((s.drawn.eraseIdx k).map TaskBase.id : Multiset ℕ) +
      (s.accepted ++ [task.id] : List ℕ) = (s.drawn.map TaskBase.id : Multiset ℕ) + s.accepted := by
    have hperm := (List.getElem_cons_eraseIdx_perm hlt).map TaskBase.id
    rw [hget, List.map_cons] at hperm
    rw [← Multiset.coe_eq_coe.2 hperm, ← Multiset.coe_add, Multiset.coe_singleton,
      ← Multiset.cons_coe, ← Multiset.singleton_add]
    abel
  refine ⟨?_, ?_, ?_, h.started, h.running, h.completed, ?_⟩
  · intro id hid
    exact h.lt id (hids ▸ hid)
  · show Multiset.Nodup (_ + _)
    rw [Machine.accept, hids]
    exact h.nodup
  · have hbalance := h.balance
    simp only [Machine.accept, TaskQueue.insert, List.map_append, List.map_cons, List.map_nil,
      ← Multiset.coe_add, Multiset.coe_singleton]
    rw [← hbalance]
    abel
  · have hsize := h.size
    rw [TaskQueue.full] at hroom
    simp only [Machine.accept, TaskQueue.insert, List.length_append, List.length_singleton]
    omega

theorem Accounts.step (h : s.Accounts) (hcrew : s.Crew) (hs : Step s a t) : t.Accounts := by
  cases a with
  | work i => exact h.work hs
  | cancel | start | stop | waitAll | poll =>
    cases hs <;>
      exact ⟨h.lt, h.nodup, h.balance, h.started, h.running, h.completed, h.size⟩
  | draw priority address =>
    cases hs
    have hids : ((s.drawn ++ [(⟨s.nextTaskId, priority, address⟩ : TaskBase)]).map TaskBase.id :
        Multiset ℕ) + s.accepted =
          {s.nextTaskId} + ((s.drawn.map TaskBase.id : Multiset ℕ) + s.accepted) := by
      rw [List.map_append, ← Multiset.coe_add, List.map_singleton, Multiset.coe_singleton]
      abel
    refine ⟨fun id hid ↦ ?_, ?_, h.balance, h.started, h.running, h.completed, h.size⟩
    · dsimp only at hid
      rw [hids, Multiset.mem_add, Multiset.mem_singleton] at hid
      rcases hid with rfl | hid
      · exact Nat.lt_succ_self _
      · exact (h.lt id hid).trans (Nat.lt_succ_self _)
    · dsimp only
      rw [hids, Multiset.singleton_add, Multiset.nodup_cons]
      exact ⟨fun hmem ↦ lt_irrefl _ (h.lt _ hmem), h.nodup⟩
  | offer k woken =>
    cases hs with
    | reject _ hk hfull =>
      have hsub : ((s.drawn.eraseIdx k).map TaskBase.id : Multiset ℕ) + s.accepted ≤
          (s.drawn.map TaskBase.id : Multiset ℕ) + s.accepted :=
        Multiset.add_le_add_right
          (Multiset.coe_le.2 ((List.eraseIdx_sublist _ _).map TaskBase.id).subperm)
      exact ⟨fun id hid ↦ h.lt id (Multiset.mem_of_le hsub hid), Multiset.nodup_of_le hsub h.nodup,
        h.balance, h.started, h.running, h.completed, h.size⟩
    | accept hk hroom => exact h.accept hk hroom
    | acceptWake hk hroom hi =>
      exact (h.accept hk hroom).same (moves_locking _ hi) (Worker.sameTokens_wakeUp _) rfl rfl rfl
        rfl rfl
  | wake =>
    cases hs with
    | wake hi =>
      exact h.same (moves_locking s hi) (Worker.sameTokens_wakeUp _) rfl rfl rfl rfl rfl
  | spawn =>
    cases hs with
    | spawn hcontrol hk =>
      have hspawn (f : Worker → Multiset ℕ) (hf : f .looping = 0) :
          Pool.total f (s.workers.spawn .looping) = Pool.total f s.workers := by
        rw [Pool.total_spawn, hf, add_zero]
      exact h.workers (hspawn _ rfl) (hspawn _ rfl) (hspawn _ rfl) (hspawn _ rfl)
    | spawnEnd => exact ⟨h.lt, h.nodup, h.balance, h.started, h.running, h.completed, h.size⟩
  | notifyAll =>
    cases hs
    exact h.workers (Pool.total_map_eq _ _ fun p ↦ (Worker.sameTokens_wakeUp p).held)
      (Pool.total_map_eq _ _ fun p ↦ (Worker.sameTokens_wakeUp p).began)
      (Pool.total_map_eq _ _ fun p ↦ (Worker.sameTokens_wakeUp p).counts)
      (Pool.total_map_eq _ _ fun p ↦ (Worker.sameTokens_wakeUp p).owes)
  | join =>
    cases hs with
    | join => exact ⟨h.lt, h.nodup, h.balance, h.started, h.running, h.completed, h.size⟩
    | joinEnd hcontrol hk =>
      have hnone (f : Worker → Multiset ℕ) (hf : f .exited = 0) :
          Pool.total f ([] : Pool Worker) = Pool.total f s.workers := by
        rw [Pool.total_eq_zero f fun p hp ↦ (hcrew.exited hcontrol hk p hp) ▸ hf]
        rfl
      exact h.workers (hnone _ rfl) (hnone _ rfl) (hnone _ rfl) (hnone _ rfl)

theorem config_step (hs : Step s a t) : t.config = s.config := by
  cases hs <;> rfl

/-- What holds in every run. -/
theorem accounts_run {config : Config} {acts : List Act} (hrun : system.Run (new config) acts s) :
    s.Accounts ∧ s.Crew ∧ s.config = config := by
  refine hrun.invariant (motive := fun s ↦ s.Accounts ∧ s.Crew ∧ s.config = config) ?_ ?_
  · rintro s a t ⟨haccounts, hcrew, hconfig⟩ hstep
    have hs := step_cases hstep
    exact ⟨haccounts.step hcrew hs, hcrew.step hs, (config_step hs).trans hconfig⟩
  · refine ⟨⟨fun id hid ↦ absurd hid (Multiset.notMem_zero id), Multiset.nodup_zero, rfl, rfl, rfl,
      rfl, le_max_left _ _⟩, ⟨le_max_left _ _, fun _ ↦ rfl⟩, rfl⟩

/-- Only tasks that were accepted are started, and none twice. -/
theorem Accounts.started_le (h : s.Accounts) : (s.started : Multiset ℕ) ≤ s.accepted := by
  have hbegan : Pool.total Worker.began s.workers ≤ Pool.total Worker.held s.workers := by
    refine Pool.total_le_total _ _ fun p ↦ ?_
    cases p with
    | executing => exact le_rfl
    | _ => exact Multiset.zero_le _
  rw [h.started, ← h.balance]
  exact Multiset.add_le_add_right (hbegan.trans (Multiset.le_add_left _ _))

theorem Accounts.nodup_accepted (h : s.Accounts) : (s.accepted : Multiset ℕ).Nodup :=
  (Multiset.nodup_add.1 h.nodup).2.1

theorem Accounts.count_started_le (h : s.Accounts) (id : ℕ) : s.started.count id ≤ 1 := by
  rw [← Multiset.coe_count]
  exact Multiset.nodup_iff_count_le_one.1 (Multiset.nodup_of_le h.started_le h.nodup_accepted) id

/-- **Every accepted task runs at most once and is accounted for.**  In every run: each task for
which `submit` has returned an id is in the queue once, or held by one worker, or finished, and only
one of these, and its function was started at most once; `completed_count_` is the number of
finished tasks when no worker has a task; `running_count_` is between 0 and the number of workers;
and the queue does not outgrow its bound. -/
theorem accounted {config : Config} {acts : List Act} (hrun : system.Run (new config) acts s) :
    (∀ id ∈ s.accepted,
      s.queue.countP (fun e ↦ e.task.id = id) + s.workers.countP (fun p ↦ id ∈ p.held) +
        s.finished.count id = 1 ∧ s.started.count id ≤ 1) ∧
    ((∀ p ∈ s.workers, p.task = none) → s.completedCount = s.finished.length) ∧
    (0 ≤ s.runningCount ∧ s.runningCount ≤ s.workers.length ∧
      (s.workers.length : ℤ) ≤ max 0 config.workerThreads) ∧
    (s.queue.length : ℤ) ≤ max 0 config.maxQueueSize := by
  obtain ⟨h, hcrew, rfl⟩ := accounts_run hrun
  refine ⟨fun id hid ↦ ⟨?_, h.count_started_le id⟩, fun hidle ↦ ?_, ⟨?_, ?_, hcrew.length_le⟩,
    h.size⟩
  · have hone : (s.accepted : Multiset ℕ).count id = 1 :=
      Multiset.count_eq_one_of_mem h.nodup_accepted (Multiset.mem_coe.2 hid)
    have hheld : ∀ p : Worker, p.held.Nodup := by
      intro p
      cases p <;> simp [Worker.held]
    rw [← h.balance, Multiset.count_add, Multiset.count_add, Pool.count_total _ _ hheld,
      Multiset.coe_count, Multiset.coe_count, List.count, List.countP_map] at hone
    exact hone
  · have howes : Pool.total Worker.owes s.workers = 0 := by
      refine Pool.total_eq_zero _ fun p hp ↦ ?_
      have htask := hidle p hp
      cases p <;> first | rfl | cases htask
    have hcompleted := h.completed
    rwa [howes, Multiset.card_zero, Nat.cast_zero, add_zero] at hcompleted
  · rw [h.running]
    exact Int.natCast_nonneg _
  · have hcounts : ∀ p : Worker, p.counts.card ≤ 1 := by
      intro p
      cases p <;> simp [Worker.counts]
    rw [h.running]
    exact Int.ofNat_le.2 (Pool.card_total_le _ _ hcounts)

/-- A queue with one worker. -/
def oneWorker : Config := { workerThreads := 1 }

/-- The worker starts, and a task is submitted. -/
def submitOne : List Act := [.start, .spawn, .spawn, .draw .normal 0, .offer 0 none]

/-- The worker takes the task and begins to execute it. -/
def executeOne : List Act := List.replicate 6 (.work 0)

/-- The task that the worker is executing is with the worker. -/
theorem accounted_executing :
    ∃ s, system.Run (new oneWorker) (submitOne ++ executeOne) s ∧ 1 ∈ s.accepted ∧
      1 ∈ s.started ∧ s.queue.countP (fun e ↦ e.task.id = 1) +
        s.workers.countP (fun p ↦ 1 ∈ p.held) + s.finished.count 1 = 1 := by
  obtain ⟨s, hrun, haccepted, hstarted⟩ : ∃ s,
      system.Run (new oneWorker) (submitOne ++ executeOne) s ∧ 1 ∈ s.accepted ∧ 1 ∈ s.started :=
    System.Run.exists_of_any (by decide +kernel)
  exact ⟨s, hrun, haccepted, hstarted, ((accounted hrun).1 1 haccepted).1⟩

/-! ## Cancelling -/

/-- `cancel` returns `true` only for tasks that have been started. -/
def Timely (s : Machine) : Act → Prop
  | .cancel id => id ∈ s.tasks → id ∈ s.started
  | .draw _ _ | .offer _ _ | .start | .spawn | .stop | .notifyAll | .join | .work _ | .wake _
  | .waitAll | .poll _ => True

instance (s : Machine) (a : Act) : Decidable (s.Timely a) :=
  match a with
  | .cancel _ => inferInstanceAs (Decidable (_ → _))
  | .draw _ _ | .offer _ _ | .start | .spawn | .stop | .notifyAll | .join | .work _ | .wake _
  | .waitAll | .poll _ => .isTrue trivial

theorem started_prefix_step (hs : Step s a t) : s.started <+: t.started := by
  cases hs with
  | begin => exact List.prefix_append _ _
  | _ => exact List.prefix_rfl

/-- Under the condition, what has been cancelled has been started. -/
theorem cancelled_subset {config : Config} {acts : List Act}
    (hrun : (system.guarded Timely).Run (new config) acts s) : s.cancelled ⊆ s.started := by
  refine hrun.invariant (motive := fun s ↦ s.cancelled ⊆ s.started) ?_ (List.nil_subset _)
  rintro s a t h ⟨htimely, hstep⟩
  have hs := step_cases hstep
  refine List.Subset.trans ?_ (started_prefix_step hs).subset
  cases hs with
  | cancel hid =>
    exact List.append_subset.2 ⟨h, List.cons_subset.2 ⟨htimely hid, List.nil_subset _⟩⟩
  | _ => exact h

/-- **When a cancelled task does not run.**  If `cancel` returns `true` only for tasks that have
been started already, then no task is started after `cancel` has returned `true` for it. -/
theorem not_started_after_cancel {config : Config} {acts : List Act}
    (hrun : (system.guarded Timely).Run (new config) acts s) {id : ℕ} (hid : id ∈ s.cancelled)
    {later : List Act} (hlater : system.Run s later t) :
    t.started.count id = s.started.count id := by
  have hpre : s.started <+: t.started :=
    hlater.invariant (motive := fun t ↦ s.started <+: t.started)
      (fun _ _ _ h hstep ↦ h.trans (started_prefix_step (step_cases hstep))) List.prefix_rfl
  have hstarted : 0 < s.started.count id := List.count_pos_iff.2 (cancelled_subset hrun hid)
  have hle := hpre.sublist.count_le id
  have hone := (accounts_run (hrun.of_guarded.append hlater)).1.count_started_le id
  omega

/-- The task is cancelled while it is being executed, and that is too late to matter. -/
theorem not_started_twice :
    ∃ s, (system.guarded Timely).Run (new oneWorker) (submitOne ++ executeOne ++ [.cancel 1]) s ∧
      1 ∈ s.cancelled ∧ ∀ later t, system.Run s later t → t.started.count 1 = 1 := by
  obtain ⟨s, hrun, hcancelled, hstarted⟩ : ∃ s, (system.guarded Timely).Run (new oneWorker)
      (submitOne ++ executeOne ++ [.cancel 1]) s ∧ 1 ∈ s.cancelled ∧ s.started.count 1 = 1 :=
    System.Run.exists_of_any_guarded (by decide +kernel)
  exact ⟨s, hrun, hcancelled, fun later t hlater ↦
    (not_started_after_cancel hrun hcancelled hlater).trans hstarted⟩

/-- The task is cancelled while it is in the queue, and then the worker runs it. -/
theorem runs_although_cancelled :
    ¬ ∀ (config : Config) (acts later : List Act) (s t : Machine) (id : ℕ),
      system.Run (new config) acts s → id ∈ s.cancelled → system.Run s later t →
      t.started.count id = s.started.count id := by
  intro h
  obtain ⟨s, hrun, hcancelled, hbefore, t, hfold, hafter⟩ : ∃ s,
      system.Run (new oneWorker) (submitOne ++ [.cancel 1]) s ∧ 1 ∈ s.cancelled ∧
        s.started.count 1 = 0 ∧ ∃ t ∈ executeOne.foldlM step s, t.started.count 1 = 1 :=
    System.Run.exists_of_any (by decide +kernel)
  have hsame := h oneWorker _ _ s t 1 hrun hcancelled (System.Run.of_foldlM hfold)
  omega

end Machine

end Task
end ChwellCore
