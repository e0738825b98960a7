import ChwellCore.Task.Accounting

/-!
# Waiting for tasks and for workers

`wait_all` reads `pending_count` and then `running_count`, and returns if both are 0.  Between the
two there is a gap in the world it looks at: a worker takes a task off the queue under the mutex and
increments `running_count_` afterwards, and in between the task is in neither count.  If the second
read falls into this gap, `wait_all` returns while a task has not even been started
(`returns_too_early`).  `return_iff` says that this is the only way in which it can go wrong.

`stop` waits for its workers, and has to wake up those that sleep.  It writes `running_` and calls
`notify_all` without the mutex.  A worker that has found the queue empty and `running_` still true
has the mutex, but is not a waiter yet; if both happen now, it becomes a waiter when nobody is left
to wake it up (`stop_hangs`).  `stop_wakes` says that this, too, is the only way.
-/

set_option autoImplicit false

namespace ChwellCore
namespace Task

/-- The tasks that had been accepted when `wait_all` was called. -/
def WaitAll.before : WaitAll → List ℕ
  | polling before | sawEmpty before | returned before => before

namespace Machine

variable {s t : Machine} {a : Act} {i : ℕ}

/-! ## Waiting for tasks -/

/-- What is known of the calls of `wait_all`. -/
structure Barrier (s : Machine) : Prop where
  subset : ∀ (i : ℕ) (c : WaitAll), s.waiters[i]? = some c → c.before ⊆ s.accepted
  empty : ∀ (i : ℕ) (before : List ℕ), s.waiters[i]? = some (.sawEmpty before) →
    ∀ e ∈ s.queue, e.task.id ∉ before

/-- Calls of `wait_all` do not notice a step that leaves the queue alone, or takes from it. -/
theorem Barrier.of_queue (h : s.Barrier) (hwaiters : t.waiters = s.waiters)
    (haccepted : s.accepted ⊆ t.accepted) (hqueue : t.queue ⊆ s.queue) : t.Barrier := by
  constructor
  · rw [hwaiters]
    exact fun i c hc ↦ List.Subset.trans (h.subset i c hc) haccepted
  · rw [hwaiters]
    exact fun i before hc e he ↦ h.empty i before hc e (hqueue he)

/-- A new task is none of those that somebody waits for. -/
theorem Barrier.accept (h : s.Barrier) (haccounts : s.Accounts) {k : ℕ} {task : TaskBase}
    (hk : s.drawn[k]? = some task) : (s.accept k task).Barrier := by
  refine ⟨fun i c hc ↦ List.Subset.trans (h.subset i c hc) (List.subset_append_left _ _),
    fun i before hc e he hbefore ↦ ?_⟩
  rcases List.mem_append.1 he with he | he
  · exact h.empty i before hc e he hbefore
  · rw [List.mem_singleton] at he
    subst he
    have hdrawn : task.id ∈ (s.drawn.map TaskBase.id : Multiset ℕ) :=
      Multiset.mem_coe.2 (List.mem_map_of_mem (List.mem_of_getElem? hk))
    exact Multiset.disjoint_left.1 (Multiset.nodup_add.1 haccounts.nodup).2.2 hdrawn
      (Multiset.mem_coe.2 (h.subset i _ hc hbefore))

/-- A call of `wait_all` moves on. -/
theorem Barrier.put (h : s.Barrier) {c c' : WaitAll} (hc : s.waiters[i]? = some c)
    (hbefore : c'.before = c.before)
    (hempty : ∀ before, c' = .sawEmpty before → ∀ e ∈ s.queue, e.task.id ∉ before) :
    Barrier { s with waiters := s.waiters.put i c' } := by
  constructor
  · refine Pool.forall_put (fun j c _ hj ↦ h.subset j c hj) ?_
    rw [hbefore]
    exact h.subset i c hc
  · intro j before hj
    refine Pool.forall_put (P := fun _ c ↦ ∀ before, c = .sawEmpty before → ∀ e ∈ s.queue,
      e.task.id ∉ before) (fun j c _ hj before hbefore ↦ ?_) hempty j _ hj before rfl
    exact h.empty j before (hbefore ▸ hj)

theorem Barrier.step (h : s.Barrier) (haccounts : s.Accounts) (hs : Step s a t) : t.Barrier := by
  cases hs with
  | accept hk => exact h.accept haccounts hk
  | acceptWake hk =>
    exact (h.accept haccounts hk).of_queue rfl (List.Subset.refl _) (List.Subset.refl _)
  | pop => exact h.of_queue rfl (List.Subset.refl _) List.erase_subset
  | waitAll =>
    refine ⟨Pool.forall_spawn h.subset (List.Subset.refl _), fun i before hi ↦ ?_⟩
    refine Pool.forall_spawn (P := fun _ c ↦ ∀ before, c = .sawEmpty before → ∀ e ∈ s.queue,
      e.task.id ∉ before) (fun j c hj before hbefore ↦ ?_) (fun _ heq ↦ ?_) i _ hi before rfl
    · exact h.empty j before (hbefore ▸ hj)
    · cases heq
  | pollAgain hi =>
    rcases hi with hi | hi
    · exact h.put hi rfl fun _ heq ↦ by cases heq
    · exact h.put hi rfl fun _ heq ↦ by cases heq
  | sawEmpty hi hempty =>
    refine h.put hi rfl fun _ _ e he ↦ ?_
    rw [hempty] at he
    cases he
  | «return» hi => exact h.put hi rfl fun _ heq ↦ by cases heq
  | _ => exact h.of_queue rfl (List.Subset.refl _) (List.Subset.refl _)

theorem barrier_run {config : Config} {acts : List Act} (hrun : system.Run (new config) acts s) :
    s.Barrier := by
  have hall : s.Accounts ∧ s.Crew ∧ s.Barrier := by
    refine hrun.invariant (motive := fun s ↦ s.Accounts ∧ s.Crew ∧ s.Barrier) ?_ ?_
    · rintro s a t ⟨haccounts, hcrew, hbarrier⟩ hstep
      have hs := step_cases hstep
      exact ⟨haccounts.step hcrew hs, hcrew.step hs, hbarrier.step haccounts hs⟩
    · obtain ⟨haccounts, hcrew, -⟩ := accounts_run (System.Run.nil (T := system) (s := new config))
      refine ⟨haccounts, hcrew, fun _ _ hc ↦ ?_, fun _ _ hc ↦ ?_⟩ <;> cases hc
  exact hall.2.2

/-- What it takes for `wait_all` to return. -/
theorem of_return {before : List ℕ} (hs : Step s (.poll i) t)
    (hreturned : t.waiters[i]? = some (.returned before)) :
    s.waiters[i]? = some (.sawEmpty before) ∧ ¬ 0 < s.runningCount ∧
      t = { s with waiters := s.waiters.put i (.returned before) } := by
  have hput {c c' : WaitAll} (hc : s.waiters[i]? = some c)
      (hc' : (s.waiters.put i c')[i]? = some (.returned before)) : c' = .returned before := by
    have hlt := (List.getElem?_eq_some_iff.1 hc).1
    rw [Pool.put, List.getElem?_set_self hlt] at hc'
    exact Option.some.inj hc'
  cases hs with
  | pollAgain hi => rcases hi with hi | hi <;> cases hput hi hreturned
  | sawEmpty hi => cases hput hi hreturned
  | «return» hi hrunning =>
    cases hput hi hreturned
    exact ⟨hi, hrunning, rfl⟩

/-- **When `wait_all` returns in time.**  In every run, when a call of `wait_all` returns, all tasks
that were accepted before the call and not cancelled have been executed to the end, if and only if
no worker has taken such a task off the queue and not yet incremented `running_count_`. -/
theorem return_iff {config : Config} {acts : List Act} {before : List ℕ}
    (hrun : system.Run (new config) acts s) (hstep : step s (.poll i) = some t)
    (hreturned : t.waiters[i]? = some (.returned before)) :
    (∀ id ∈ before, id ∉ t.cancelled → id ∈ t.finished) ↔
      ∀ task, .popped task ∈ s.workers → task.id ∈ before → task.id ∈ s.cancelled := by
  obtain ⟨hi, hrunning, rfl⟩ := of_return (step_cases hstep) hreturned
  obtain ⟨haccounts, -, -⟩ := accounts_run hrun
  have hbarrier := barrier_run hrun
  have hbalance := haccounts.balance
  constructor
  · -- a task in the gap has not been finished
    intro hfinished task hpopped hbefore
    by_contra hcancelled
    have hheld : task.id ∈ Pool.total Worker.held s.workers :=
      (Pool.mem_total _).2 ⟨_, hpopped, Multiset.mem_singleton_self _⟩
    have hnodup := haccounts.nodup_accepted
    rw [← hbalance, Multiset.nodup_add] at hnodup
    exact Multiset.disjoint_left.1 hnodup.2.2 (Multiset.mem_add.2 (.inr hheld))
      (Multiset.mem_coe.2 (hfinished task.id hbefore hcancelled))
  · -- and there is no other place where a task can be that is not finished
    intro hgap id hbefore hcancelled
    have haccepted : id ∈ (s.accepted : Multiset ℕ) :=
      Multiset.mem_coe.2 (hbarrier.subset i _ hi hbefore)
    rw [← hbalance, Multiset.mem_add, Multiset.mem_add] at haccepted
    rcases haccepted with (hqueue | hheld) | hfinished
    · obtain ⟨e, he, rfl⟩ := List.mem_map.1 (Multiset.mem_coe.1 hqueue)
      exact absurd hbefore (hbarrier.empty i before hi e he)
    · have hcounts : Pool.total Worker.counts s.workers = 0 := by
        have hcard := haccounts.running
        exact Multiset.card_eq_zero.1 (by omega)
      obtain ⟨p, hp, hid⟩ := (Pool.mem_total _).1 hheld
      have hnone : p.counts = 0 := by
        refine Multiset.eq_zero_of_forall_notMem fun id' hid' ↦ ?_
        have hmem := (Pool.mem_total Worker.counts).2 ⟨p, hp, hid'⟩
        rw [hcounts] at hmem
        exact Multiset.notMem_zero id' hmem
      cases p with
      | popped task =>
        rw [Multiset.mem_singleton.1 hid] at hbefore hcancelled
        exact absurd (hgap task hp hbefore) hcancelled
      | counted task | executing task => exact absurd hnone (Multiset.singleton_ne_zero _)
      | _ => exact absurd hid (Multiset.notMem_zero id)
    · exact Multiset.mem_coe.1 hfinished

/-- The worker starts, a task is submitted, and somebody waits for it.  The worker executes it to
the end before `wait_all` looks. -/
def waitForOne : List Act := submitOne ++ [.waitAll] ++ List.replicate 8 (.work 0) ++ [.poll 0]

theorem returns_in_time :
    ∃ s t, system.Run (new oneWorker) waitForOne s ∧ step s (.poll 0) = some t ∧
      t.waiters[0]? = some (.returned [1]) ∧ 1 ∈ t.finished := by
  obtain ⟨s, hrun, hworkers, t, hstep, hreturned, hcancelled⟩ : ∃ s,
      system.Run (new oneWorker) waitForOne s ∧ s.workers = [.uncounted ⟨1, .normal, 0⟩] ∧
        ∃ t ∈ step s (.poll 0), t.waiters[0]? = some (.returned [1]) ∧ t.cancelled = [] :=
    System.Run.exists_of_any (by decide +kernel)
  refine ⟨s, t, hrun, hstep, hreturned, (return_iff hrun hstep hreturned).2 ?_ 1 ?_ ?_⟩
  · intro task hpopped
    rw [hworkers, List.mem_singleton] at hpopped
    cases hpopped
  · exact List.mem_singleton_self 1
  · rw [hcancelled]
    exact List.not_mem_nil

/-- The same, but the worker has only taken the task off the queue when `wait_all` looks. -/
def waitInTheGap : List Act := submitOne ++ [.waitAll] ++ List.replicate 4 (.work 0) ++ [.poll 0]

/-- The worker has taken the task off the queue when `wait_all` looks for the first time, and has
not counted it when it looks for the second time. -/
theorem returns_too_early :
    ¬ ∀ (config : Config) (acts : List Act) (s t : Machine) (i : ℕ) (before : List ℕ),
      system.Run (new config) acts s → step s (.poll i) = some t →
      t.waiters[i]? = some (.returned before) →
      ∀ id ∈ before, id ∉ t.cancelled → id ∈ t.finished := by
  intro h
  obtain ⟨s, hrun, t, hstep, hreturned, hcancelled, hfinished⟩ : ∃ s,
      system.Run (new oneWorker) waitInTheGap s ∧ ∃ t ∈ step s (.poll 0),
        t.waiters[0]? = some (.returned [1]) ∧ 1 ∉ t.cancelled ∧ 1 ∉ t.finished :=
    System.Run.exists_of_any (by decide +kernel)
  exact hfinished
    (h oneWorker _ s t 0 [1] hrun hstep hreturned 1 (List.mem_singleton_self 1) hcancelled)

/-! ## Waiting for workers -/

/-- `stop` has called `notify_all`, and there is a worker asleep that nobody has woken up. -/
def Hung (s : Machine) : Prop :=
  s.running = false ∧ (∃ k, s.control = .joining k) ∧ .waiting ∈ s.workers

/-- `notify_all` is called when no worker stands between a predicate that was false and being a
waiter. -/
def Alert (s : Machine) : Act → Prop
  | .notifyAll => .dozing ∉ s.workers
  | .draw _ _ | .offer _ _ | .cancel _ | .start | .spawn | .stop | .join | .work _ | .wake _
  | .waitAll | .poll _ => True

instance (s : Machine) (a : Act) : Decidable (s.Alert a) :=
  match a with
  | .notifyAll => inferInstanceAs (Decidable (¬ _))
  | .draw _ _ | .offer _ _ | .cancel _ | .start | .spawn | .stop | .join | .work _ | .wake _
  | .waitAll | .poll _ => .isTrue trivial

/-- While `stop` joins its workers, none is asleep or about to be. -/
def Awake (s : Machine) : Prop :=
  (∃ k, s.control = .joining k) → .waiting ∉ s.workers ∧ .dozing ∉ s.workers

theorem Awake.moves {p q : Worker} (h : s.Awake) (hm : Moves s i p q t)
    (hq : (∃ k, s.control = .joining k) → q ≠ .waiting ∧ q ≠ .dozing) : t.Awake := by
  intro hjoining
  rw [hm.control] at hjoining
  obtain ⟨hwaiting, hdozing⟩ := h hjoining
  obtain ⟨hq₁, hq₂⟩ := hq hjoining
  rw [hm.workers]
  exact ⟨fun hmem ↦ (List.mem_or_eq_of_mem_set hmem).elim hwaiting hq₁.symm,
    fun hmem ↦ (List.mem_or_eq_of_mem_set hmem).elim hdozing hq₂.symm⟩

theorem Awake.step (h : s.Awake) (hcrew : s.Crew) (halert : s.Alert a) (hs : Step s a t) :
    t.Awake := by
  cases hs with
  | draw | reject | accept | cancel | cancelMiss | startAgain | stopAgain | waitAll | pollAgain
  | sawEmpty | «return» => exact h
  | start | spawn | spawnEnd | stop | joinEnd =>
    rintro ⟨k, hk⟩
    cases hk
  | join hcontrol => exact fun _ ↦ h ⟨_, hcontrol⟩
  | notifyAll hcontrol =>
    refine fun _ ↦ ⟨fun hmem ↦ ?_, fun hmem ↦ ?_⟩
    · obtain ⟨p, -, hp⟩ := List.mem_map.1 hmem
      cases p <;> cases hp
    · obtain ⟨p, hmem, hp⟩ := List.mem_map.1 hmem
      cases p <;> cases hp
      exact halert hmem
  | acceptWake hk hroom hi =>
    exact Awake.moves (s := s.accept _ _) h (moves_locking _ hi) fun _ ↦ ⟨by simp, by simp⟩
  | wake hi => exact h.moves (moves_locking s hi) fun _ ↦ ⟨by simp, by simp⟩
  | enter hp | leave hp | lock hp | proceed hp | «break» hp | findNone hp | pop hp | count hp
  | begin hp | finish hp | uncount hp | complete hp | erase hp =>
    exact h.moves (moves_put hp (by simp)) fun _ ↦ ⟨by simp, by simp⟩
  | doze hp hrunning =>
    refine h.moves (moves_put hp (by simp)) ?_
    rintro ⟨k, hk⟩
    have hfits := hcrew.fits
    rw [hk] at hfits
    exact absurd (hfits.1.symm.trans hrunning) (by simp)
  | wait hp =>
    refine h.moves (moves_put hp (by simp)) fun hjoining ↦ ?_
    exact absurd (List.mem_of_getElem? hp) (h hjoining).2

theorem awake_run {config : Config} {acts : List Act}
    (hrun : (system.guarded Alert).Run (new config) acts s) : s.Awake := by
  have hall : s.Awake ∧ s.Crew := by
    refine hrun.invariant (motive := fun s ↦ s.Awake ∧ s.Crew) ?_ ?_
    · rintro s a t ⟨hawake, hcrew⟩ ⟨halert, hstep⟩
      have hs := step_cases hstep
      exact ⟨hawake.step hcrew halert hs, hcrew.step hs⟩
    · refine ⟨?_, le_max_left _ _, fun _ ↦ rfl⟩
      rintro ⟨k, hk⟩
      cases hk
  exact hall.1

/-- A worker that found nothing to do goes to sleep. -/
theorem step_dozing (hi : s.workers[i]? = some .dozing) :
    step s (.work i) = some ({ s with owner := none }.put i .waiting) := by
  rw [step, hi]
  rfl

/-- **When `stop` wakes up every worker.**  If `notify_all` is called only when no worker stands
between a predicate that was false and being a waiter, then `stop` is never past its `notify_all`
while a worker sleeps that nobody has woken up.  And in every run in which it is called at another
moment, that worker goes to sleep next. -/
theorem stop_wakes (config : Config) :
    (∀ acts s, (system.guarded Alert).Run (new config) acts s → ¬ s.Hung) ∧
    ∀ acts s t, system.Run (new config) acts s → step s .notifyAll = some t → ¬ s.Alert .notifyAll →
      ∃ i u, step t (.work i) = some u ∧ u.Hung := by
  constructor
  · rintro acts s hrun ⟨-, hjoining, hwaiting⟩
    exact (awake_run hrun hjoining).1 hwaiting
  · intro acts s t hrun hstep halert
    have hs := step_cases hstep
    have hcrew := (accounts_run hrun).2.1
    rw [Alert, not_not] at halert
    cases hs with
    | notifyAll hcontrol =>
      obtain ⟨i, hi⟩ := List.mem_iff_getElem?.1 halert
      have hi' : (s.workers.map wakeUp)[i]? = some .dozing := by
        rw [List.getElem?_map, hi]
        rfl
      have hfits := hcrew.fits
      rw [hcontrol] at hfits
      refine ⟨i, _, step_dozing hi', hfits, ⟨0, rfl⟩, ?_⟩
      exact List.mem_of_getElem? (List.getElem?_set_self (List.getElem?_eq_some_iff.1 hi').1)

/-- The worker finds nothing to do, goes to sleep, and is woken up by `stop`. -/
def stopAsleep : List Act :=
  [.start, .spawn, .spawn, .work 0, .work 0, .work 0, .work 0, .stop, .notifyAll]

theorem stop_wakes_sleeper :
    ∃ s, (system.guarded Alert).Run (new oneWorker) stopAsleep s ∧ s.control = .joining 0 ∧
      ¬ s.Hung := by
  obtain ⟨s, hrun, hcontrol⟩ : ∃ s, (system.guarded Alert).Run (new oneWorker) stopAsleep s ∧
      s.control = .joining 0 :=
    System.Run.exists_of_any_guarded (by decide +kernel)
  exact ⟨s, hrun, hcontrol, (stop_wakes oneWorker).1 _ s hrun⟩

/-- The worker has found nothing to do; `stop` comes before it is asleep. -/
def stopDozing : List Act :=
  [.start, .spawn, .spawn, .work 0, .work 0, .work 0, .stop, .notifyAll, .work 0]

theorem stop_hangs :
    ¬ ∀ (config : Config) (acts : List Act) (s : Machine),
      system.Run (new config) acts s → ¬ s.Hung := by
  intro h
  obtain ⟨s, hrun, hrunning, hcontrol, hwaiting⟩ : ∃ s,
      system.Run (new oneWorker) stopDozing s ∧ s.running = false ∧ s.control = .joining 0 ∧
        .waiting ∈ s.workers :=
    System.Run.exists_of_any (by decide +kernel)
  exact h oneWorker _ s hrun ⟨hrunning, ⟨0, hcontrol⟩, hwaiting⟩

end Machine

end Task
end ChwellCore
