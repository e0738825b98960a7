import ChwellCore.Core.ThreadPool

/-!
# The thread pool drains

A task that was accepted is in the queue, with one worker, or done (`Accounts`), and it is started
once at most.  That it is started at all needs that no worker sleeps through it: as long as one
sleeps, there are no more tasks in the queue than calls of `post` that have still to call
`notify_one` and workers on their way to the queue (`Order.alert`).  A `notify_one` that finds
nobody asleep is not lost, because whoever goes to sleep after it has found the queue empty.

So a pool with at least one worker drains whatever the scheduler does: its own steps run out
(`rank`), and when none is left everything accepted has been done, and a destructor that was called
has returned (`comes_to_rest`).  `destroyed_drained` is the same about every run in which the
destructor has returned.
-/

set_option autoImplicit false

namespace ChwellCore
namespace Core

/-- The task that a worker has. -/
def PoolWorker.tasks : PoolWorker → Multiset PoolTask
  | .holding task => {task}
  | .running task => {task}
  | .locking | .waiting | .exited => 0

/-- The task that a worker has started and not finished. -/
def PoolWorker.begun : PoolWorker → Multiset PoolTask
  | .running task => {task}
  | .locking | .waiting | .holding _ | .exited => 0

/-- How much a worker has to do before it sleeps or leaves. -/
def PoolWorker.rank : PoolWorker → ℕ
  | .holding _ => 3
  | .running _ => 2
  | .locking => 1
  | .waiting | .exited => 0

namespace ThreadPool

variable {s t : ThreadPool} {a : PoolAct} {i : ℕ} {p : PoolWorker}

/-! ## Accounts -/

/-- Every accepted task is in one place, and those that are more than an empty function have been
started when they are done. -/
structure Accounts (s : ThreadPool) : Prop where
  fifo : s.accepted = s.taken ++ s.tasks
  taken : (s.taken : Multiset PoolTask) = Pool.total PoolWorker.tasks s.workers + s.finished
  started : (s.started : Multiset PoolTask) = Pool.total PoolWorker.begun s.workers +
    (s.finished.filter fun task ↦ task.present : List PoolTask)
  begun : ∀ (i : ℕ) (task : PoolTask), s.workers[i]? = some (.running task) → task.present = true

theorem total_replicate (f : PoolWorker → Multiset PoolTask) (hf : f .locking = 0) (n : ℕ) :
    Pool.total f (List.replicate n .locking) = 0 := by
  refine Pool.total_eq_zero f fun p hp ↦ ?_
  rw [List.eq_of_mem_replicate hp, hf]

theorem accounts_new (n : ℕ) : (new n).Accounts where
  fifo := rfl
  taken := by rw [new, total_replicate _ rfl]; rfl
  started := by rw [new, total_replicate _ rfl]; rfl
  begun := fun i task hi ↦ by
    have hmem := List.eq_of_mem_replicate (List.mem_of_getElem? hi)
    cases hmem

/-- A worker moves on, and what it gets or gives up is where it came from or goes to. -/
theorem Accounts.move (h : s.Accounts) (hp : s.workers[i]? = some p) {q : PoolWorker}
    {tasks taken started finished : List PoolTask} {notifies : ℕ}
    (hfifo : s.accepted = taken ++ tasks)
    (htaken : (taken : Multiset PoolTask) + p.tasks + s.finished = s.taken + q.tasks + finished)
    (hstarted : (started : Multiset PoolTask) + p.begun +
        (s.finished.filter fun task ↦ task.present : List PoolTask) =
      s.started + q.begun + (finished.filter fun task ↦ task.present : List PoolTask))
    (hq : ∀ task, q = .running task → task.present = true) :
    ({ s with
      tasks := tasks
      taken := taken
      started := started
      finished := finished
      notifies := notifies }.put i q).Accounts where
  fifo := hfifo
  taken := by
    have hput := Pool.total_put PoolWorker.tasks hp q
    simp only [put]
    refine add_right_cancel (b := p.tasks + s.finished) ?_
    rw [← add_assoc, htaken, h.taken]
    calc Pool.total PoolWorker.tasks s.workers + s.finished + q.tasks + finished
        = Pool.total PoolWorker.tasks s.workers + q.tasks + (s.finished + finished) := by abel
      _ = Pool.total PoolWorker.tasks (s.workers.put i q) + p.tasks + (s.finished + finished) := by
          rw [hput]
      _ = _ := by abel
  started := by
    have hput := Pool.total_put PoolWorker.begun hp q
    simp only [put]
    refine add_right_cancel
      (b := p.begun + (s.finished.filter fun task ↦ task.present : List PoolTask)) ?_
    rw [← add_assoc, hstarted, h.started]
    calc Pool.total PoolWorker.begun s.workers +
          (s.finished.filter fun task ↦ task.present : List PoolTask) + q.begun +
          (finished.filter fun task ↦ task.present : List PoolTask)
        = Pool.total PoolWorker.begun s.workers + q.begun +
          ((s.finished.filter fun task ↦ task.present : List PoolTask) +
            (finished.filter fun task ↦ task.present : List PoolTask)) := by abel
      _ = Pool.total PoolWorker.begun (s.workers.put i q) + p.begun +
          ((s.finished.filter fun task ↦ task.present : List PoolTask) +
            (finished.filter fun task ↦ task.present : List PoolTask)) := by rw [hput]
      _ = _ := by abel
  begun := by
    intro j task hj
    refine Pool.forall_put (P := fun _ p ↦ ∀ task, p = .running task → task.present = true)
      ?_ hq j _ hj task rfl
    rintro k _ - hk task' rfl
    exact h.begun k task' hk

theorem total_wakeUp (f : PoolWorker → Multiset PoolTask) (hf : f .locking = f .waiting)
    (workers : Pool PoolWorker) :
    Pool.total f (workers.map wakeUp) = Pool.total f workers :=
  Pool.total_map_eq f workers fun p ↦ by
    cases p with
    | waiting => exact hf
    | _ => rfl

/-- Only a sleeper is changed by a `notify_all`. -/
theorem of_getElem?_wakeUp {workers : Pool PoolWorker} {q : PoolWorker}
    (h : (workers.map wakeUp)[i]? = some q) (hq : q ≠ .locking) : workers[i]? = some q := by
  rw [List.getElem?_map] at h
  obtain ⟨p, hp, he⟩ := Option.map_eq_some_iff.1 h
  cases p with
  | waiting => exact absurd he.symm hq
  | _ => exact he ▸ hp

theorem Accounts.step (h : s.Accounts) (hs : Step s a t) : t.Accounts := by
  cases hs with
  | post task hstop =>
    refine ⟨?_, h.taken, h.started, h.begun⟩
    rw [h.fifo, List.append_assoc]
  | drop task => exact h
  | notifyNone hn hw | destroy ho | join ho hi | «return» ho hi =>
    exact ⟨h.fifo, h.taken, h.started, h.begun⟩
  | notifySome hn hi | doze hi htasks hstop | exit hi htasks hstop | wake hi =>
    exact h.move hi h.fifo rfl rfl fun _ hq ↦ by cases hq
  | @take i task rest hi htasks =>
    refine h.move hi ?_ ?_ rfl fun _ hq ↦ by cases hq
    · rw [h.fifo, htasks]
      exact (List.append_assoc _ [task] rest).symm
    · rw [← Multiset.coe_add]
      simp [PoolWorker.tasks]
  | @start i task hi hpresent =>
    refine h.move hi h.fifo rfl ?_ ?_
    · rw [← Multiset.coe_add]
      simp [PoolWorker.begun]
    · rintro task' he
      cases he
      exact hpresent
  | @skip i task hi hpresent =>
    refine h.move hi h.fifo ?_ ?_ fun _ hq ↦ by cases hq
    · rw [← Multiset.coe_add]
      simp only [PoolWorker.tasks, Multiset.coe_singleton]
      abel
    · rw [List.filter_append, List.filter_singleton, hpresent]
      simp [PoolWorker.begun]
  | @finish i task hi =>
    refine h.move hi h.fifo ?_ ?_ fun _ hq ↦ by cases hq
    · rw [← Multiset.coe_add]
      simp only [PoolWorker.tasks, Multiset.coe_singleton]
      abel
    · rw [List.filter_append, List.filter_singleton, h.begun i task hi, ← Multiset.coe_add]
      simp only [PoolWorker.begun, cond_true, Multiset.coe_singleton]
      abel
  | notifyAll ho =>
    refine ⟨h.fifo, ?_, ?_, fun j task hj ↦ h.begun j task ?_⟩
    · exact h.taken.trans (congrArg (· + _) (total_wakeUp _ rfl _).symm)
    · exact h.started.trans (congrArg (· + _) (total_wakeUp _ rfl _).symm)
    · exact of_getElem?_wakeUp hj fun he ↦ by cases he

/-! ## Who will see to a task -/

/-- How many workers are on their way to the queue. -/
def coming (s : ThreadPool) : ℕ := s.workers.count .locking

/-- The order in which a pool is used up: what holds of the owner, of the workers that have left the
loop, and of those that sleep. -/
structure Order (n : ℕ) (s : ThreadPool) : Prop where
  count : s.workers.length = n
  owner : s.stopped = true ↔ s.owner ≠ .inUse
  exited : .exited ∈ s.workers → s.stopped = true ∧ s.tasks = []
  joined : ∀ k, s.owner = .joining k → ∀ j < k, s.workers[j]? = some .exited
  gone : s.owner = .gone → ∀ p ∈ s.workers, p = .exited
  -- a worker sleeps through the end of the pool only until `notify_all`
  sleeps : .waiting ∈ s.workers → s.owner = .inUse ∨ s.owner = .stopping
  alert : .waiting ∈ s.workers → s.tasks.length ≤ s.notifies + s.coming

theorem order_new (n : ℕ) : (new n).Order n where
  count := List.length_replicate
  owner := by simp [new]
  exited := fun h ↦ by cases List.eq_of_mem_replicate h
  joined := fun k h ↦ by cases h
  gone := fun h ↦ by cases h
  sleeps := fun h ↦ by cases List.eq_of_mem_replicate h
  alert := fun h ↦ by cases List.eq_of_mem_replicate h

/-- A worker that has not left the loop moves on, and where it goes is in order. -/
theorem Order.move {n : ℕ} (h : s.Order n) (hp : s.workers[i]? = some p) (hp₀ : p ≠ .exited)
    {q : PoolWorker} {tasks taken started finished : List PoolTask} {notifies : ℕ}
    (hexit : q = .exited ∨ .exited ∈ s.workers → s.stopped = true ∧ tasks = [])
    (hsleeps : q = .waiting → s.owner = .inUse ∨ s.owner = .stopping)
    (halert : q = .waiting ∨ .waiting ∈ s.workers →
      tasks.length + (if p = .locking then 1 else 0) ≤
        notifies + s.coming + if q = .locking then 1 else 0) :
    ({ s with
      tasks := tasks
      taken := taken
      started := started
      finished := finished
      notifies := notifies }.put i q).Order n where
  count := by rw [put, Pool.put, List.length_set, h.count]
  owner := h.owner
  exited := fun hmem ↦ hexit ((Pool.mem_put hmem).imp Eq.symm id)
  joined := by
    intro k hk j hj
    have hold := h.joined k hk j hj
    exact Pool.getElem?_put_of_ne hp hold (Ne.symm hp₀) q
  gone := by
    intro hgone
    exact absurd (h.gone hgone p (List.mem_of_getElem? hp)) hp₀
  sleeps := by
    intro hmem
    rcases Pool.mem_put hmem with hq | hmem
    · exact hsleeps hq.symm
    · exact h.sleeps hmem
  alert := by
    intro hmem
    have hle := halert ((Pool.mem_put hmem).imp Eq.symm id)
    have hcount := Pool.count_put hp q .locking
    simp only [put, coming] at hle ⊢
    omega

theorem Order.step {n : ℕ} (h : s.Order n) (hs : Step s a t) : t.Order n := by
  cases hs with
  | drop task => exact h
  | post task hstop =>
    refine ⟨h.count, h.owner, fun hmem ↦ ?_, h.joined, h.gone, h.sleeps, fun hmem ↦ ?_⟩
    · exact absurd (h.exited hmem).1 (by rw [hstop]; exact Bool.false_ne_true)
    · have := h.alert hmem
      simp only [coming, List.length_append, List.length_singleton] at this ⊢
      omega
  | notifyNone hn hw =>
    exact ⟨h.count, h.owner, h.exited, h.joined, h.gone, h.sleeps, fun hmem ↦ absurd hmem hw⟩
  | @notifySome i hn hi =>
    have hmem := List.mem_of_getElem? hi
    refine h.move hi nofun ?_ nofun fun _ ↦ ?_
    · exact fun hexit ↦ h.exited (hexit.resolve_left nofun)
    · have := h.alert hmem
      simp
      omega
  | @doze i hi htasks hstop =>
    refine h.move hi nofun ?_ ?_ fun _ ↦ ?_
    · exact fun hexit ↦ h.exited (hexit.resolve_left nofun)
    · intro _
      refine .inl (Classical.not_not.1 fun hne ↦ ?_)
      rw [h.owner.2 hne] at hstop
      cases hstop
    · have hpos : 0 < s.coming := List.count_pos_iff.2 (List.mem_of_getElem? hi)
      simp [htasks]
      omega
  | @exit i hi htasks hstop =>
    refine h.move hi nofun (fun _ ↦ ⟨hstop, htasks⟩) nofun fun _ ↦ ?_
    have hpos : 0 < s.coming := List.count_pos_iff.2 (List.mem_of_getElem? hi)
    simp [htasks]
    omega
  | @take i task rest hi htasks =>
    refine h.move hi nofun ?_ nofun fun hmem ↦ ?_
    · intro hexit
      have := (h.exited (hexit.resolve_left nofun)).2
      rw [htasks] at this
      cases this
    · have := h.alert (hmem.resolve_left nofun)
      rw [htasks] at this
      simpa using this
  | @start i task hi hpresent =>
    refine h.move hi nofun (fun hexit ↦ h.exited (hexit.resolve_left nofun)) nofun fun hmem ↦ ?_
    simpa using h.alert (hmem.resolve_left nofun)
  | @skip i task hi hpresent =>
    refine h.move hi nofun (fun hexit ↦ h.exited (hexit.resolve_left nofun)) nofun fun hmem ↦ ?_
    have := h.alert (hmem.resolve_left nofun)
    simp
    omega
  | @finish i task hi =>
    refine h.move hi nofun (fun hexit ↦ h.exited (hexit.resolve_left nofun)) nofun fun hmem ↦ ?_
    have := h.alert (hmem.resolve_left nofun)
    simp
    omega
  | @wake i hi =>
    refine h.move hi nofun (fun hexit ↦ h.exited (hexit.resolve_left nofun)) nofun fun hmem ↦ ?_
    have := h.alert (hmem.resolve_left nofun)
    simp
    omega
  | destroy ho =>
    refine ⟨h.count, ⟨fun _ ↦ nofun, fun _ ↦ rfl⟩, fun hmem ↦ ⟨rfl, (h.exited hmem).2⟩,
      fun k hk ↦ (by cases hk), fun hk ↦ (by cases hk), fun _ ↦ .inr rfl, h.alert⟩
  | notifyAll ho =>
    have hnone : .waiting ∉ s.workers.map wakeUp := by
      intro hmem
      obtain ⟨p, -, he⟩ := List.mem_map.1 hmem
      cases p <;> cases he
    have hstop : s.stopped = true := h.owner.2 (by rw [ho]; nofun)
    refine ⟨by rw [List.length_map, h.count], ⟨fun _ ↦ nofun, fun _ ↦ hstop⟩, fun hmem ↦ ?_, ?_,
      fun hk ↦ (by cases hk), fun hmem ↦ absurd hmem hnone, fun hmem ↦ absurd hmem hnone⟩
    · obtain ⟨j, hj⟩ := List.mem_iff_getElem?.1 hmem
      exact h.exited (List.mem_of_getElem? (of_getElem?_wakeUp hj nofun))
    · intro k hk j hj
      cases hk
      exact absurd hj (Nat.not_lt_zero j)
  | @join k ho hi =>
    refine ⟨h.count, ⟨fun _ ↦ nofun, fun _ ↦ h.owner.2 (by rw [ho]; nofun)⟩, h.exited, ?_,
      fun hk ↦ (by cases hk), fun hmem ↦ ?_, h.alert⟩
    · intro k' hk' j hj
      cases hk'
      rcases Nat.lt_succ_iff_lt_or_eq.1 hj with hj | rfl
      · exact h.joined k ho j hj
      · exact hi
    · have := h.sleeps hmem
      rw [ho] at this
      rcases this with this | this <;> cases this
  | @«return» k ho hi =>
    have hall : ∀ p ∈ s.workers, p = .exited := by
      intro p hp
      obtain ⟨j, hj⟩ := List.mem_iff_getElem?.1 hp
      have hlen := (List.getElem?_eq_some_iff.1 hj).1
      have hle := List.getElem?_eq_none_iff.1 hi
      have := h.joined k ho j (by omega)
      exact Option.some.inj (hj.symm.trans this)
    refine ⟨h.count, ⟨fun _ ↦ nofun, fun _ ↦ h.owner.2 (by rw [ho]; nofun)⟩, h.exited,
      fun k' hk' ↦ (by cases hk'), fun _ ↦ hall, fun hmem ↦ ?_, h.alert⟩
    cases hall _ hmem

/-! ## Coming to rest -/

/-- What the owner has still to do in a pool of so many workers. -/
def ownerRank (n : ℕ) : PoolOwner → ℕ
  | .stopping => 2 * n + 2
  | .joining k => n + 1 - k
  | .inUse | .gone => 0

/-- What the pool has still to do. -/
def rank (s : ThreadPool) : ℕ :=
  3 * s.tasks.length + 2 * s.notifies + (s.workers.map PoolWorker.rank).sum +
    ownerRank s.workers.length s.owner

theorem rank_put (hp : s.workers[i]? = some p) (q : PoolWorker) :
    ((s.workers.put i q).map PoolWorker.rank).sum + p.rank =
      (s.workers.map PoolWorker.rank).sum + q.rank :=
  Pool.sum_map_put PoolWorker.rank hp q

/-- What `notify_all` adds. -/
theorem rank_wakeUp (workers : Pool PoolWorker) :
    ((workers.map wakeUp).map PoolWorker.rank).sum ≤
      (workers.map PoolWorker.rank).sum + workers.length := by
  induction workers with
  | nil => exact le_refl _
  | cons p workers ih =>
    have hp : (wakeUp p).rank ≤ p.rank + 1 := by
      cases p with
      | waiting => exact le_refl _
      | _ => exact Nat.le_succ _
    simp only [List.map_cons, List.sum_cons, List.length_cons] at ih ⊢
    omega

/-- **The steps of the pool run out.** -/
theorem Order.rank_lt {n : ℕ} (h : s.Order n) (hint : s.Internal a) (hs : Step s a t) :
    t.rank < s.rank := by
  cases hs with
  | post task hstop | drop task | wake hi | destroy ho => exact absurd hint id
  | notifyNone hn hw =>
    simp only [rank]
    omega
  | notifySome hn hi =>
    have := rank_put hi .locking
    simp only [rank, put, PoolWorker.rank, Pool.put, List.length_set] at this ⊢
    omega
  | doze hi htasks hstop =>
    have := rank_put hi .waiting
    simp only [rank, put, PoolWorker.rank, Pool.put, List.length_set] at this ⊢
    omega
  | exit hi htasks hstop =>
    have := rank_put hi .exited
    simp only [rank, put, PoolWorker.rank, Pool.put, List.length_set] at this ⊢
    omega
  | @take i task rest hi htasks =>
    have := rank_put hi (.holding task)
    simp only [rank, put, PoolWorker.rank, Pool.put, List.length_set, htasks,
      List.length_cons] at this ⊢
    omega
  | @start i task hi hpresent =>
    have := rank_put hi (.running task)
    simp only [rank, put, PoolWorker.rank, Pool.put, List.length_set] at this ⊢
    omega
  | skip hi hpresent | finish hi =>
    have := rank_put hi .locking
    simp only [rank, put, PoolWorker.rank, Pool.put, List.length_set] at this ⊢
    omega
  | notifyAll ho =>
    have := rank_wakeUp s.workers
    simp only [rank, ho, ownerRank, List.length_map]
    omega
  | join ho hi =>
    have := (List.getElem?_eq_some_iff.1 hi).1
    simp only [rank, ho, ownerRank]
    omega
  | @«return» k ho hi =>
    have hle : k ≤ s.workers.length := by
      by_contra hlt
      have := h.joined k ho s.workers.length (by omega)
      exact absurd (List.getElem?_eq_some_iff.1 this).1 (lt_irrefl _)
    simp only [rank, ho, ownerRank]
    omega

/-- The pool by itself can do nothing more. -/
def Resting (s : ThreadPool) : Prop := ∀ a, s.Internal a → step s a = none

/-- Everything that was accepted has been done, and what was more than an empty function has been
started once. -/
structure Drained (s : ThreadPool) : Prop where
  tasks : s.tasks = []
  finished : s.finished.Perm s.accepted
  started : s.started.Perm (s.accepted.filter fun task ↦ task.present)

/-- Nothing is left to do where no worker has a task and the queue is empty. -/
theorem Accounts.drained (h : s.Accounts) (htasks : s.tasks = [])
    (hidle : ∀ p ∈ s.workers, p.tasks = 0 ∧ p.begun = 0) : s.Drained := by
  have hfinished : s.finished.Perm s.accepted := by
    rw [h.fifo, htasks, List.append_nil, ← Multiset.coe_eq_coe, h.taken,
      Pool.total_eq_zero _ fun p hp ↦ (hidle p hp).1, zero_add]
  refine ⟨htasks, hfinished, ?_⟩
  have hstarted := h.started
  rw [Pool.total_eq_zero _ fun p hp ↦ (hidle p hp).2, zero_add, Multiset.coe_eq_coe] at hstarted
  exact hstarted.trans (hfinished.filter _)

/-- A pool that rests is drained, and its destructor is not under way. -/
theorem Resting.drained {n : ℕ} (hn : 0 < n) (horder : s.Order n) (haccounts : s.Accounts)
    (h : s.Resting) : s.Drained ∧ (s.owner = .inUse ∨ s.owner = .gone) := by
  have hworkers : ∀ p ∈ s.workers, p = .waiting ∨ p = .exited := by
    intro p hp
    obtain ⟨i, hi⟩ := List.mem_iff_getElem?.1 hp
    cases p with
    | waiting => exact .inl rfl
    | exited => exact .inr rfl
    | locking =>
      have := h (.look i) trivial
      simp [step, hi] at this
    | holding task =>
      have := h (.run i) trivial
      simp only [step, hi] at this
      split at this <;> cases this
    | running task =>
      have := h (.finish i) trivial
      simp [step, hi] at this
  have hidle : ∀ p ∈ s.workers, p.tasks = 0 ∧ p.begun = 0 := by
    intro p hp
    rcases hworkers p hp with rfl | rfl <;> exact ⟨rfl, rfl⟩
  have hnotifies : s.notifies = 0 := by
    by_contra hne
    by_cases hw : .waiting ∈ s.workers
    · obtain ⟨i, hi⟩ := List.mem_iff_getElem?.1 hw
      have := h (.notifyOne (some i)) trivial
      simp [step, hne, hi] at this
    · have := h (.notifyOne none) trivial
      simp [step, hne, hw] at this
  have howner : s.owner = .inUse ∨ s.owner = .gone := by
    cases ho : s.owner with
    | inUse => exact .inl rfl
    | gone => exact .inr rfl
    | stopping =>
      have := h .notifyAll trivial
      simp [step, ho] at this
    | joining k =>
      have hjoin := h .join trivial
      simp only [step, ho] at hjoin
      cases hk : s.workers[k]? with
      | none => simp [hk] at hjoin
      | some p =>
        rcases hworkers p (List.mem_of_getElem? hk) with rfl | rfl
        · rcases horder.sleeps (List.mem_of_getElem? hk) with hs | hs <;> rw [ho] at hs <;> cases hs
        · simp [hk] at hjoin
  refine ⟨haccounts.drained ?_ hidle, howner⟩
  -- some worker is there, and it has left the loop or sleeps
  obtain ⟨p, hp⟩ : ∃ p, p ∈ s.workers :=
    List.exists_mem_of_length_pos (by rw [horder.count]; exact hn)
  rcases hworkers p hp with rfl | rfl
  · have hle := horder.alert hp
    have hnone : s.coming = 0 := List.count_eq_zero.2 fun hmem ↦ by
      rcases hworkers _ hmem with he | he <;> cases he
    rw [hnotifies, hnone] at hle
    exact List.length_eq_zero_iff.1 (Nat.le_zero.1 hle)
  · exact (horder.exited hp).2

/-! ## Every run -/

variable {acts : List PoolAct} {n : ℕ}

theorem inv_run (hrun : system.Run (new n) acts s) : s.Order n ∧ s.Accounts := by
  refine hrun.invariant (motive := fun s ↦ s.Order n ∧ s.Accounts) ?_ ⟨order_new n, accounts_new n⟩
  rintro s a t ⟨horder, haccounts⟩ hstep
  exact ⟨horder.step (step_cases hstep), haccounts.step (step_cases hstep)⟩

/-- **A pool drains, whatever the scheduler does.**  From any state it has come to, its own steps
run out; where they have, everything accepted has been done and a destructor that was called has
returned; and they can be taken until they have. -/
theorem comes_to_rest (hn : 0 < n) (hrun : system.Run (new n) acts s) :
    (∀ ls t, (system.guarded Internal).Run s ls t → ls.length ≤ s.rank ∧
        (t.Resting → t.Drained ∧ (t.owner = .inUse ∨ t.owner = .gone))) ∧
      ∃ ls t, (system.guarded Internal).Run s ls t ∧ t.Resting := by
  have hdown : ∀ s a t, s.Order n ∧ s.Accounts → (system.guarded Internal).step s a t →
      (t.Order n ∧ t.Accounts) ∧ t.rank < s.rank := by
    rintro s a t ⟨horder, haccounts⟩ ⟨hint, hstep⟩
    have hs := step_cases hstep
    exact ⟨⟨horder.step hs, haccounts.step hs⟩, horder.rank_lt hint hs⟩
  constructor
  · intro ls t hinternal
    obtain ⟨⟨horder, haccounts⟩, hle⟩ := hinternal.length_add_rank_le hdown (inv_run hrun)
    exact ⟨le_trans (Nat.le_add_right _ _) hle, fun hrest ↦ hrest.drained hn horder haccounts⟩
  · obtain ⟨ls, t, hinternal, -, hrest⟩ := System.exists_run_of_progress hdown
      (fun u _ (hmoves : ¬ u.Resting) ↦ by
        rw [Resting] at hmoves
        push Not at hmoves
        obtain ⟨a, hint, hne⟩ := hmoves
        obtain ⟨t, ht⟩ := Option.ne_none_iff_exists'.1 hne
        exact ⟨a, t, hint, ht⟩) (inv_run hrun)
    exact ⟨ls, t, hinternal, hrest⟩

/-- **The destructor waits for everything that was accepted.**  In every run the tasks are taken in
the order in which they were accepted, and none is started twice; when the destructor has returned,
every one of them has been done. -/
theorem destroyed_drained (hn : 0 < n) (hrun : system.Run (new n) acts s) :
    s.taken <+: s.accepted ∧
      (s.started : Multiset PoolTask) ≤ s.accepted ∧ (s.owner = .gone → s.Drained) := by
  obtain ⟨horder, haccounts⟩ := inv_run hrun
  refine ⟨⟨_, haccounts.fifo.symm⟩, ?_, fun hgone ↦ ?_⟩
  · rw [haccounts.fifo, ← Multiset.coe_add, haccounts.taken, haccounts.started, add_assoc]
    refine add_le_add (Pool.total_le_total _ _ fun p ↦ ?_) ?_
    · cases p with
      | running task => exact le_refl _
      | _ => exact Multiset.zero_le _
    · exact (Multiset.coe_le.2 List.filter_sublist.subperm).trans (Multiset.le_add_right _ _)
  · have hall := horder.gone hgone
    refine haccounts.drained ?_ fun p hp ↦ by rw [hall p hp]; exact ⟨rfl, rfl⟩
    obtain ⟨p, hp⟩ : ∃ p, p ∈ s.workers :=
      List.exists_mem_of_length_pos (by rw [horder.count]; exact hn)
    exact (horder.exited (hall p hp ▸ hp)).2

/-! ## A shutdown -/

/-- One of two workers sleeps, and has a task by the time the destructor begins; the other task is
still in the queue. -/
def shutdown : List PoolAct :=
  [.look 0, .post ⟨0, true⟩, .notifyOne (some 0), .post ⟨1, true⟩, .look 0, .destroy]

/-- What the pool does then. -/
def windDown : List PoolAct :=
  [.notifyAll, .run 0, .look 1, .run 1, .notifyOne none, .finish 1, .finish 0, .look 0, .join,
    .look 1, .join, .join]

theorem comes_to_rest_shutdown :
    ∃ s, system.Run (new 2) shutdown s ∧ s.tasks = [⟨1, true⟩] ∧
      ∃ ls t, (system.guarded Internal).Run s ls t ∧ t.Resting := by
  obtain ⟨s, hrun, htasks⟩ : ∃ s, system.Run (new 2) shutdown s ∧ s.tasks = [⟨1, true⟩] :=
    System.Run.exists_of_any (by decide +kernel)
  exact ⟨s, hrun, htasks, (comes_to_rest (Nat.succ_pos 1) hrun).2⟩

theorem destroyed_drained_shutdown :
    ∃ s, system.Run (new 2) (shutdown ++ windDown) s ∧ s.accepted = [⟨0, true⟩, ⟨1, true⟩] ∧
      s.Drained := by
  obtain ⟨s, hrun, haccepted, hgone⟩ : ∃ s, system.Run (new 2) (shutdown ++ windDown) s ∧
      s.accepted = [⟨0, true⟩, ⟨1, true⟩] ∧ s.owner = .gone :=
    System.Run.exists_of_any (by decide +kernel)
  exact ⟨s, hrun, haccepted, (destroyed_drained (Nat.succ_pos 1) hrun).2.2 hgone⟩

end ThreadPool

end Core
end ChwellCore
