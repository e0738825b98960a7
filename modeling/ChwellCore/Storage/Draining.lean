import ChwellCore.Storage.AsyncAdapter
import Mathlib.Algebra.Order.BigOperators.Group.List
import Mathlib.Algebra.Order.Group.Nat

/-!
# The adapter drains its queue

Every task that is put into the queue is in one of three places: the queue, the hands of a worker,
or the log of what has been run.  No step loses a task or makes a second one of it
(`Inv.conserved`), and a worker leaves only when the adapter is stopping and the queue is empty,
after which it stays empty.  So when the destructor has joined the workers, of which there is one at
least, everything that was accepted has been run, once.

A call that was refused has no task.  What the promises got is what the log says, and a refusal for
each call that was refused.

With one worker the three places together are the accepted tasks *in order*, and since the storage
is what the log makes of it, running the adapter is running the calls one after another.

That the destructor returns is a matter of the workers only: once `stopping_` is set, no step of a
caller gives them more to do, each step of their own leaves less (`Work`), and while the destructor
has not returned one of them, or the destructor, can take a step.
-/

set_option autoImplicit false

namespace ChwellCore
namespace Storage

/-- A failure, or `false` for `async_exists`. -/
def Reply.Failed : Reply → Prop
  | .result r => r.ok = false
  | .flag b => b = false
  | .results rs => ∀ r ∈ rs, r.ok = false

theorem AsyncOp.failed_refusal (op : AsyncOp) : op.refusal.Failed := by
  cases op with
  | get | put | remove | contains | mput => rfl
  | mget keys =>
    intro r hr
    obtain ⟨key, _, rfl⟩ := List.mem_map.1 hr
    rfl

/-- The task in the hands of a worker. -/
def WorkerAt.held : WorkerAt → List QueuedTask
  | .notifying task | .running task => [task]
  | .locking | .waiting | .exited => []

/-- What a call has put into the queue. -/
def CallAt.accepted? : CallAt → Option AsyncOp
  | .notifying op | .done op true => some op
  | .locking _ | .waiting _ | .refusing _ | .done _ false => none

/-- What a call has completed its own future with. -/
def CallAt.refusals : CallAt → List Reply
  | .done op false => [op.refusal]
  | .locking _ | .waiting _ | .notifying _ | .refusing _ | .done _ true => []

/-- How many steps a worker is from the end of the loop, at most, apart from further tasks. -/
def WorkerAt.rank : WorkerAt → ℕ
  | .exited => 0
  | .locking => 1
  | .waiting | .running _ => 2
  | .notifying _ => 3

/-- How many steps of its own the destructor is from its end. -/
def Destructor.rank : Destructor → ℕ
  | .notCalled => 3
  | .stopping => 2
  | .joining => 1
  | .returned => 0

@[simp] theorem WorkerAt.held_wake (p : WorkerAt) : p.wake.held = p.held := by
  cases p with
  | locking | waiting | notifying task | running task | exited => rfl

@[simp] theorem CallAt.accepted?_wake (c : CallAt) : c.wake.accepted? = c.accepted? := by
  cases c with
  | locking op | waiting op | notifying op | refusing op | done op b => rfl

@[simp] theorem CallAt.refusals_wake (c : CallAt) : c.wake.refusals = c.refusals := by
  cases c with
  | locking op | waiting op | notifying op | refusing op | done op b => rfl

theorem CallAt.refusals_of_accepted {c : CallAt} {op : AsyncOp} (h : c.accepted? = some op) :
    c.refusals = [] := by
  cases c with
  | done op b =>
    cases b with
    | true => rfl
    | false => cases h
  | locking op | waiting op | notifying op | refusing op => rfl

namespace AsyncAdapter

variable {σ : Type} {I : StorageInterface σ} {maxQueueSize : ℕ} {s t : AsyncAdapter σ} {s₀ : σ}

/-- The same synchronous calls one after another, at these times. -/
def replay (I : StorageInterface σ) (s₀ : σ) (calls : List (QueuedTask × ℤ)) :
    List Execution × σ :=
  calls.foldl (fun r c ↦
    let e := c.1.op.execute I c.2 r.2
    (r.1 ++ [⟨c.1, c.2, e.1⟩], e.2)) ([], s₀)

/-- What has been run for a call. -/
def executions (s : AsyncAdapter σ) (i : ℕ) : List Execution :=
  s.log.filter fun e ↦ e.task.caller = i

/-- What the promise of a call was given. -/
def promised (s : AsyncAdapter σ) (i : ℕ) : List Reply :=
  (s.promises.filter fun p ↦ p.1 = i).map Prod.snd

/-- The invariant. -/
structure Inv (I : StorageInterface σ) (s₀ : σ) (s : AsyncAdapter σ) : Prop where
  conserved : (s.tasks : Multiset QueuedTask) +
    Pool.total (fun p ↦ (p.held : Multiset QueuedTask)) s.workers +
      (s.log.map Execution.task : Multiset QueuedTask) = s.accepted
  distinct : (s.accepted.map QueuedTask.caller).Nodup
  owned : ∀ (i : ℕ) (op : AsyncOp),
    ⟨i, op⟩ ∈ s.accepted ↔ (s.calls[i]?).bind CallAt.accepted? = some op
  exited : .exited ∈ s.workers → s.stopping = true ∧ s.tasks = []
  stopping : s.stopping = true ↔ s.destructor ≠ .notCalled
  awake : s.destructor = .joining ∨ s.destructor = .returned → .waiting ∉ s.workers
  joined : s.destructor = .returned → ∀ p ∈ s.workers, p = .exited
  promises : ∀ i : ℕ, s.promised i =
    (s.executions i).map Execution.reply ++ (s.calls[i]?).elim [] CallAt.refusals
  replayed : replay I s₀ (s.log.map fun e ↦ (e.task, e.now)) = (s.log, s.storage)

theorem inv_fresh (numThreads : ℕ) : (fresh numThreads s₀).Inv I s₀ where
  conserved := by
    rw [Pool.total_eq_zero]
    · rfl
    · intro p hp
      rw [List.eq_of_mem_replicate hp]
      rfl
  distinct := List.nodup_nil
  owned i op := iff_of_false List.not_mem_nil (by simp [fresh])
  exited h := by cases List.eq_of_mem_replicate h
  stopping := iff_of_false (by simp [fresh]) (by simp [fresh])
  awake h := by rcases h with h | h <;> cases h
  joined h := by cases h
  promises i := rfl
  replayed := rfl

section Places

/-- A worker moves on with the task that it has. -/
theorem Inv.setWorker (h : s.Inv I s₀) {w : ℕ} {p p' : WorkerAt} (hw : s.workers[w]? = some p)
    (hheld : p'.held = p.held) (hp : p ≠ .exited)
    (hexited : p' = .exited → s.stopping = true ∧ s.tasks = [])
    (hwaiting : p' = .waiting → s.stopping = false) : (s.setWorker w p').Inv I s₀ where
  conserved := by
    have hput := Pool.total_put (fun p ↦ (p.held : Multiset QueuedTask)) hw p'
    rw [hheld, add_left_inj] at hput
    show _ + Pool.total _ (s.workers.put w p') + _ = _
    rw [hput]
    exact h.conserved
  distinct := h.distinct
  owned := h.owned
  exited hmem := by
    rcases List.mem_or_eq_of_mem_set hmem with hmem | heq
    · exact h.exited hmem
    · exact hexited heq.symm
  stopping := h.stopping
  awake hd hmem := by
    rcases List.mem_or_eq_of_mem_set hmem with hmem | heq
    · exact h.awake hd hmem
    · have hstop : s.stopping = true := h.stopping.2 fun he ↦ by
        rcases hd with hd | hd <;> cases he.symm.trans hd
      rw [hwaiting heq.symm] at hstop
      cases hstop
  joined hd := absurd (h.joined hd p (List.mem_of_getElem? hw)) hp
  promises := h.promises
  replayed := h.replayed

omit I s₀ in
/-- A call that moves on is the only one for which something changes. -/
theorem forall_setCall {P : ℕ → Option CallAt → Prop} {i : ℕ} {c c' : CallAt}
    (hi : s.calls[i]? = some c) (h : ∀ j : ℕ, j ≠ i → P j s.calls[j]?) (hc' : P i (some c'))
    (j : ℕ) : P j (s.setCall i c').calls[j]? := by
  by_cases hij : i = j
  · subst hij
    rw [setCall, Pool.getElem?_put_self hi]
    exact hc'
  · rw [setCall, Pool.put, List.getElem?_set_ne hij]
    exact h j (Ne.symm hij)

/-- A call moves on, and it is neither accepted nor refused by this. -/
theorem Inv.setCall (h : s.Inv I s₀) {i : ℕ} {c c' : CallAt} (hi : s.calls[i]? = some c)
    (haccepted : c'.accepted? = c.accepted?) (hrefusals : c'.refusals = c.refusals) :
    (s.setCall i c').Inv I s₀ where
  conserved := h.conserved
  distinct := h.distinct
  owned := by
    refine forall_setCall (P := fun j o ↦ ∀ op, ⟨j, op⟩ ∈ s.accepted ↔
      o.bind CallAt.accepted? = some op) hi (fun j _ ↦ h.owned j) fun op ↦ ?_
    rw [h.owned, hi, Option.bind_some, Option.bind_some, haccepted]
  exited := h.exited
  stopping := h.stopping
  awake := h.awake
  joined := h.joined
  promises := by
    refine forall_setCall (P := fun j o ↦ s.promised j =
      (s.executions j).map Execution.reply ++ o.elim [] CallAt.refusals) hi
      (fun j _ ↦ h.promises j) ?_
    rw [h.promises i, hi, Option.elim_some, Option.elim_some, hrefusals]
  replayed := h.replayed

theorem Inv.wake (h : s.Inv I s₀) {x : Waiter} (hwake : Wake s x t) : t.Inv I s₀ := by
  cases hwake with
  | worker hw =>
    exact h.setWorker hw rfl (by simp) (fun he ↦ by cases he) (fun he ↦ by cases he)
  | call hi => exact h.setCall hi rfl rfl

theorem Inv.notify (h : s.Inv I s₀) {woken : Option Waiter} (hnotify : Notify s woken t) :
    t.Inv I s₀ := by
  cases hnotify with
  | one hwake => exact h.wake hwake
  | nobody => exact h

end Places

section Tasks

/-- A call that is not accepted has no task anywhere. -/
theorem Inv.notMem_accepted (h : s.Inv I s₀) {i : ℕ} {c : CallAt} (hi : s.calls[i]? = some c)
    (hc : c.accepted? = none) : i ∉ s.accepted.map QueuedTask.caller := by
  intro hmem
  obtain ⟨task, htask, rfl⟩ := List.mem_map.1 hmem
  have hop := (h.owned task.caller task.op).1 htask
  rw [hi, Option.bind_some, hc] at hop
  cases hop

/-- What has been run was accepted. -/
theorem Inv.task_mem_accepted (h : s.Inv I s₀) {e : Execution} (he : e ∈ s.log) :
    e.task ∈ s.accepted := by
  have hmem : e.task ∈ (s.log.map Execution.task : Multiset QueuedTask) :=
    Multiset.mem_coe.2 (List.mem_map_of_mem he)
  rw [← Multiset.mem_coe, ← h.conserved]
  exact Multiset.mem_add.2 (.inr hmem)

theorem Inv.held_mem_accepted (h : s.Inv I s₀) {w : ℕ} {p : WorkerAt}
    (hw : s.workers[w]? = some p) {task : QueuedTask} (htask : task ∈ p.held) :
    task ∈ s.accepted := by
  have hmem : task ∈ Pool.total (fun p ↦ (p.held : Multiset QueuedTask)) s.workers :=
    (Pool.mem_total _).2 ⟨p, List.mem_of_getElem? hw, Multiset.mem_coe.2 htask⟩
  rw [← Multiset.mem_coe, ← h.conserved]
  exact Multiset.mem_add.2 (.inl (Multiset.mem_add.2 (.inr hmem)))

theorem Inv.executions_eq_nil (h : s.Inv I s₀) {i : ℕ}
    (hi : i ∉ s.accepted.map QueuedTask.caller) : s.executions i = [] := by
  refine List.filter_eq_nil_iff.2 fun e he hei ↦ hi ?_
  rw [decide_eq_true_eq] at hei
  exact hei ▸ List.mem_map_of_mem (h.task_mem_accepted he)

/-- A task is put into the queue. -/
theorem Inv.push (h : s.Inv I s₀) {i : ℕ} {op : AsyncOp} (hi : s.calls[i]? = some (.locking op))
    (hstop : s.stopping = false) : ((s.push ⟨i, op⟩).setCall i (.notifying op)).Inv I s₀ where
  conserved := by
    show (↑(s.tasks ++ [QueuedTask.mk i op]) : Multiset QueuedTask) + _ + _ =
      ↑(s.accepted ++ [QueuedTask.mk i op])
    rw [← Multiset.coe_add, ← Multiset.coe_add, ← h.conserved]
    abel
  distinct := by
    show ((s.accepted ++ [QueuedTask.mk i op]).map QueuedTask.caller).Nodup
    rw [List.map_append]
    refine List.nodup_append.2 ⟨h.distinct, List.nodup_singleton _, ?_⟩
    intro j hj k hk
    rw [List.mem_singleton.1 hk]
    rintro rfl
    exact h.notMem_accepted hi rfl hj
  owned := by
    refine forall_setCall (P := fun j o ↦ ∀ op' : AsyncOp,
      (⟨j, op'⟩ : QueuedTask) ∈ s.accepted ++ [⟨i, op⟩] ↔ o.bind CallAt.accepted? = some op') hi
      (fun j hj op' ↦ ?_) fun op' ↦ ?_
    · rw [List.mem_append, List.mem_singleton, QueuedTask.mk.injEq, h.owned]
      exact or_iff_left fun he ↦ hj he.1
    · rw [List.mem_append, List.mem_singleton, QueuedTask.mk.injEq]
      constructor
      · rintro (hmem | ⟨_, rfl⟩)
        · exact absurd (List.mem_map_of_mem hmem) (h.notMem_accepted hi rfl)
        · rfl
      · intro hop
        exact .inr ⟨rfl, (Option.some.inj hop).symm⟩
  exited hmem := by
    have := (h.exited hmem).1
    rw [hstop] at this
    cases this
  stopping := h.stopping
  awake := h.awake
  joined := h.joined
  promises := by
    refine forall_setCall (P := fun j o ↦ s.promised j =
      (s.executions j).map Execution.reply ++ o.elim [] CallAt.refusals) hi
      (fun j _ ↦ h.promises j) ?_
    rw [h.promises i, hi]
    rfl
  replayed := h.replayed

/-- A worker takes a task from the queue. -/
theorem Inv.take (h : s.Inv I s₀) {w : ℕ} {task : QueuedTask} {tasks : List QueuedTask}
    (hw : s.workers[w]? = some .locking) (htasks : s.tasks = task :: tasks) :
    ({ s with tasks := tasks }.setWorker w (.notifying task)).Inv I s₀ where
  conserved := by
    have hput := Pool.total_put (fun p ↦ (p.held : Multiset QueuedTask)) hw (.notifying task)
    have hcons := h.conserved
    rw [htasks, ← Multiset.cons_coe, ← Multiset.singleton_add] at hcons
    refine Eq.trans ?_ hcons
    show (tasks : Multiset QueuedTask) + Pool.total _ (s.workers.put w _) + _ = _
    rw [(add_zero _).symm.trans hput]
    show _ + (_ + {task}) + _ = _
    abel
  distinct := h.distinct
  owned := h.owned
  exited hmem := by
    rcases List.mem_or_eq_of_mem_set hmem with hmem | heq
    · have := (h.exited hmem).2
      rw [htasks] at this
      cases this
    · cases heq
  stopping := h.stopping
  awake hd hmem := by
    rcases List.mem_or_eq_of_mem_set hmem with hmem | heq
    · exact h.awake hd hmem
    · cases heq
  joined hd := by cases h.joined hd _ (List.mem_of_getElem? hw)
  promises := h.promises
  replayed := h.replayed

theorem replay_append (I : StorageInterface σ) (s₀ : σ) (calls : List (QueuedTask × ℤ))
    (task : QueuedTask) (now : ℤ) :
    replay I s₀ (calls ++ [(task, now)]) =
      ((replay I s₀ calls).1 ++
          [⟨task, now, (task.op.execute I now (replay I s₀ calls).2).1⟩],
        (task.op.execute I now (replay I s₀ calls).2).2) := by
  rw [replay, List.foldl_append]
  rfl

omit s₀ in
theorem promised_run (s : AsyncAdapter σ) (task : QueuedTask) (now : ℤ) (i : ℕ) :
    (s.run I task now).promised i = s.promised i ++
      if task.caller = i then [(task.op.execute I now s.storage).1] else [] := by
  unfold promised AsyncAdapter.run
  rw [List.filter_append, List.map_append]
  by_cases hi : task.caller = i
  · rw [if_pos hi, List.filter_cons_of_pos (by simpa using hi)]
    rfl
  · rw [if_neg hi, List.filter_cons_of_neg (by simpa using hi)]
    rfl

omit s₀ in
theorem executions_run (s : AsyncAdapter σ) (task : QueuedTask) (now : ℤ) (i : ℕ) :
    (s.run I task now).executions i = s.executions i ++
      if task.caller = i then [⟨task, now, (task.op.execute I now s.storage).1⟩] else [] := by
  unfold executions AsyncAdapter.run
  rw [List.filter_append]
  by_cases hi : task.caller = i
  · rw [if_pos hi, List.filter_cons_of_pos (by simpa using hi)]
    rfl
  · rw [if_neg hi, List.filter_cons_of_neg (by simpa using hi)]
    rfl

/-- A worker runs a task. -/
theorem Inv.run (h : s.Inv I s₀) {w : ℕ} {task : QueuedTask}
    (hw : s.workers[w]? = some (.running task)) (now : ℤ) :
    ((s.run I task now).setWorker w .locking).Inv I s₀ where
  conserved := by
    have hput := Pool.total_put (fun p ↦ (p.held : Multiset QueuedTask)) hw .locking
    have hlog : (((s.run I task now).log.map Execution.task : List QueuedTask) :
        Multiset QueuedTask) = (s.log.map Execution.task : List QueuedTask) + {task} := by
      rw [AsyncAdapter.run, List.map_append, ← Multiset.coe_add]
      rfl
    refine Eq.trans ?_ h.conserved
    show (s.tasks : Multiset QueuedTask) + Pool.total _ (s.workers.put w .locking) +
      (((s.run I task now).log.map Execution.task : List QueuedTask) : Multiset QueuedTask) = _
    rw [hlog, ← (hput.trans (add_zero _))]
    show _ = _ + (_ + {task}) + _
    abel
  distinct := h.distinct
  owned := h.owned
  exited hmem := by
    rcases List.mem_or_eq_of_mem_set hmem with hmem | heq
    · exact h.exited hmem
    · cases heq
  stopping := h.stopping
  awake hd hmem := by
    rcases List.mem_or_eq_of_mem_set hmem with hmem | heq
    · exact h.awake hd hmem
    · cases heq
  joined hd := by cases h.joined hd _ (List.mem_of_getElem? hw)
  promises i := by
    show (s.run I task now).promised i =
      ((s.run I task now).executions i).map Execution.reply ++ (s.calls[i]?).elim [] CallAt.refusals
    rw [promised_run, executions_run, h.promises i]
    split
    · next hcaller =>
      -- The call of a task that is run has not been refused.
      have hop := (h.owned task.caller task.op).1 (h.held_mem_accepted hw List.mem_cons_self)
      obtain ⟨c, hc, hcop⟩ := Option.bind_eq_some_iff.1 hop
      rw [← hcaller, hc, Option.elim_some, CallAt.refusals_of_accepted hcop, List.map_append,
        List.append_nil, List.append_nil]
      rfl
    · rw [List.append_nil, List.append_nil]
  replayed := by
    have hreplay := replay_append I s₀ (s.log.map fun e ↦ (e.task, e.now)) task now
    rw [h.replayed] at hreplay
    refine Eq.trans (congrArg _ ?_) hreplay
    exact List.map_append

/-- A call completes its own future. -/
theorem Inv.refuse (h : s.Inv I s₀) {i : ℕ} {op : AsyncOp}
    (hi : s.calls[i]? = some (.refusing op)) :
    ({ s with promises := s.promises ++ [(i, op.refusal)] }.setCall i (.done op false)).Inv I s₀
    where
  conserved := h.conserved
  distinct := h.distinct
  owned := by
    refine forall_setCall (P := fun j o ↦ ∀ op : AsyncOp, ⟨j, op⟩ ∈ s.accepted ↔
      o.bind CallAt.accepted? = some op) hi (fun j _ ↦ h.owned j) fun op ↦ ?_
    rw [h.owned, hi]
    rfl
  exited := h.exited
  stopping := h.stopping
  awake := h.awake
  joined := h.joined
  promises := by
    refine forall_setCall (P := fun j o ↦
      ((s.promises ++ [(i, op.refusal)]).filter fun p ↦ p.1 = j).map Prod.snd =
        (s.executions j).map Execution.reply ++ o.elim [] CallAt.refusals) hi (fun j hj ↦ ?_) ?_
    · rw [List.filter_append, List.filter_cons_of_neg (by simpa using Ne.symm hj),
        List.filter_nil, List.append_nil]
      exact h.promises j
    · -- Nothing has been run for the call, and nothing been promised.
      have hnil := h.executions_eq_nil (h.notMem_accepted hi rfl)
      have hprom := h.promises i
      rw [hnil, hi] at hprom
      rw [List.filter_append, List.map_append, hnil]
      refine (congrArg (· ++ _) hprom).trans ?_
      rw [List.filter_cons_of_pos (by simp)]
      rfl
  replayed := h.replayed

/-- A call is made. -/
theorem Inv.call (h : s.Inv I s₀) (op : AsyncOp) :
    { s with calls := s.calls.spawn (.locking op) }.Inv I s₀ := by
  have hspawn : ∀ {P : ℕ → Option CallAt → Prop}, (∀ i : ℕ, P i s.calls[i]?) →
      (P s.calls.length none → P s.calls.length (some (.locking op))) →
      ∀ i : ℕ, P i (s.calls.spawn (.locking op))[i]? := by
    intro P hall hnew i
    rcases lt_trichotomy i s.calls.length with hi | rfl | hi
    · rw [Pool.spawn, List.getElem?_append_left hi]
      exact hall i
    · rw [Pool.spawn, List.getElem?_concat_length]
      refine hnew ?_
      have hlast := hall s.calls.length
      rwa [List.getElem?_eq_none le_rfl] at hlast
    · have hlast := hall i
      rw [List.getElem?_eq_none hi.le] at hlast
      rw [Pool.spawn, List.getElem?_eq_none]
      · exact hlast
      · rw [List.length_append]
        exact hi
  exact
    { conserved := h.conserved
      distinct := h.distinct
      owned := hspawn (P := fun i o ↦ ∀ op' : AsyncOp, ⟨i, op'⟩ ∈ s.accepted ↔
        o.bind CallAt.accepted? = some op') h.owned id
      exited := h.exited
      stopping := h.stopping
      awake := h.awake
      joined := h.joined
      promises := hspawn (P := fun i o ↦ s.promised i =
        (s.executions i).map Execution.reply ++ o.elim [] CallAt.refusals) h.promises id
      replayed := h.replayed }

end Tasks

section Destructor

theorem Inv.destroy (h : s.Inv I s₀) :
    { s with stopping := true, destructor := .stopping }.Inv I s₀ where
  conserved := h.conserved
  distinct := h.distinct
  owned := h.owned
  exited hmem := ⟨rfl, (h.exited hmem).2⟩
  stopping := iff_of_true rfl (by simp)
  awake hd := by rcases hd with hd | hd <;> cases hd
  joined hd := by cases hd
  promises := h.promises
  replayed := h.replayed

theorem Inv.notifyAll (h : s.Inv I s₀) (hd : s.destructor = .stopping) :
    { s with
      workers := s.workers.map WorkerAt.wake
      calls := s.calls.map CallAt.wake
      destructor := .joining }.Inv I s₀ where
  conserved := by
    refine Eq.trans ?_ h.conserved
    show _ + Pool.total _ (s.workers.map WorkerAt.wake) + _ = _
    rw [Pool.total_map_eq]
    intro p
    rw [WorkerAt.held_wake]
  distinct := h.distinct
  owned i op := by
    show _ ↔ ((s.calls.map CallAt.wake)[i]?).bind CallAt.accepted? = some op
    rw [h.owned, List.getElem?_map, Option.bind_map]
    simp only [Function.comp_def, CallAt.accepted?_wake]
  exited hmem := by
    obtain ⟨p, hp, hwake⟩ := List.mem_map.1 hmem
    cases p with
    | exited => exact h.exited hp
    | locking | waiting | notifying | running => cases hwake
  stopping := by
    refine iff_of_true (h.stopping.2 ?_) (by simp)
    rw [hd]
    simp
  awake _ hmem := by
    obtain ⟨p, _, hwake⟩ := List.mem_map.1 hmem
    cases p with
    | locking | waiting | notifying | running | exited => cases hwake
  joined hd := by cases hd
  promises i := by
    show s.promised i = (s.executions i).map Execution.reply ++
      ((s.calls.map CallAt.wake)[i]?).elim [] CallAt.refusals
    rw [h.promises, List.getElem?_map]
    cases s.calls[i]? with
    | none => rfl
    | some c => rw [Option.map_some, Option.elim_some, Option.elim_some, CallAt.refusals_wake]
  replayed := h.replayed

theorem Inv.join (h : s.Inv I s₀) (hd : s.destructor = .joining)
    (hall : ∀ p ∈ s.workers, p = .exited) : { s with destructor := .returned }.Inv I s₀ where
  conserved := h.conserved
  distinct := h.distinct
  owned := h.owned
  exited := h.exited
  stopping := by
    refine iff_of_true (h.stopping.2 ?_) (by simp)
    rw [hd]
    simp
  awake _ := h.awake (.inl hd)
  joined _ := hall
  promises := h.promises
  replayed := h.replayed

end Destructor

theorem Inv.step (h : s.Inv I s₀) {l : AdapterStep} (hstep : Step I maxQueueSize s l t) :
    t.Inv I s₀ := by
  cases hstep with
  | call op => exact h.call op
  | refused hi hstop => exact h.setCall hi rfl rfl
  | blocked hi hstop hmax hfull => exact h.setCall hi rfl rfl
  | pushed hi hstop hroom => exact h.push hi hstop
  | callNotify hi hnotify =>
    refine Inv.notify ?_ hnotify
    exact h.setCall hi rfl rfl
  | refuse hi => exact h.refuse hi
  | taken hw htasks => exact h.take hw htasks
  | exit hw htasks hstop =>
    exact h.setWorker hw rfl (by simp) (fun _ ↦ ⟨hstop, htasks⟩) fun he ↦ by cases he
  | sleep hw htasks hstop =>
    exact h.setWorker hw rfl (by simp) (fun he ↦ by cases he) fun _ ↦ hstop
  | workerNotify hw hnotify =>
    refine Inv.notify ?_ hnotify
    exact h.setWorker hw rfl (by simp) (fun he ↦ by cases he) fun he ↦ by cases he
  | execute now hw => exact h.run hw now
  | spurious hwake => exact h.wake hwake
  | destroy hd => exact h.destroy
  | notifyAll hd => exact h.notifyAll hd
  | join hd hall => exact h.join hd hall

theorem inv_run {numThreads : ℕ} {ls : List AdapterStep}
    (hrun : (system I maxQueueSize).Run (fresh numThreads s₀) ls s) : s.Inv I s₀ :=
  hrun.invariant (fun _ _ _ h hstep ↦ h.step (step_cases hstep)) (inv_fresh numThreads)

/-! ## One worker -/

/-- There is one worker, and what has been run, what it holds and what is in the queue are the
accepted tasks in order. -/
def Ordered (s : AsyncAdapter σ) : Prop :=
  ∃ p, s.workers = [p] ∧ s.log.map Execution.task ++ (p.held ++ s.tasks) = s.accepted

/-- The one worker moves on. -/
theorem eq_of_workers {p q : WorkerAt} (hs : s.workers = [p]) {w : ℕ}
    (hw : s.workers[w]? = some q) (q' : WorkerAt) : p = q ∧ s.workers.put w q' = [q'] := by
  rw [hs] at hw ⊢
  cases w with
  | zero => exact ⟨Option.some.inj hw, rfl⟩
  | succ w => cases hw

theorem Ordered.wake (h : s.Ordered) {x : Waiter} (hwake : Wake s x t) : t.Ordered := by
  obtain ⟨p, hs, hall⟩ := h
  cases hwake with
  | worker hw =>
    obtain ⟨rfl, hput⟩ := eq_of_workers hs hw .locking
    exact ⟨_, hput, hall⟩
  | call hi => exact ⟨p, hs, hall⟩

theorem Ordered.notify (h : s.Ordered) {woken : Option Waiter} (hnotify : Notify s woken t) :
    t.Ordered := by
  cases hnotify with
  | one hwake => exact h.wake hwake
  | nobody => exact h

theorem Ordered.step (h : s.Ordered) {l : AdapterStep} (hstep : Step I maxQueueSize s l t) :
    t.Ordered := by
  obtain ⟨p, hs, hall⟩ := h
  cases hstep with
  | call | refused | blocked | refuse | destroy | join => exact ⟨p, hs, hall⟩
  | @pushed i op hi hstop hroom =>
    refine ⟨p, hs, ?_⟩
    show s.log.map Execution.task ++ (p.held ++ (s.tasks ++ [⟨i, op⟩])) = s.accepted ++ [⟨i, op⟩]
    rw [← hall]
    simp only [List.append_assoc]
  | callNotify hi hnotify =>
    refine Ordered.notify ?_ hnotify
    exact ⟨p, hs, hall⟩
  | @taken w task tasks hw htasks =>
    obtain ⟨rfl, hput⟩ := eq_of_workers hs hw (.notifying task)
    refine ⟨_, hput, ?_⟩
    rw [htasks] at hall
    exact hall
  | exit hw htasks hstop =>
    obtain ⟨rfl, hput⟩ := eq_of_workers hs hw .exited
    exact ⟨_, hput, hall⟩
  | sleep hw htasks hstop =>
    obtain ⟨rfl, hput⟩ := eq_of_workers hs hw .waiting
    exact ⟨_, hput, hall⟩
  | @workerNotify w task _ _ hw hnotify =>
    obtain ⟨rfl, hput⟩ := eq_of_workers hs hw (.running task)
    refine Ordered.notify ?_ hnotify
    exact ⟨_, hput, hall⟩
  | @execute w task now hw =>
    obtain ⟨rfl, hput⟩ := eq_of_workers hs hw .locking
    refine ⟨_, hput, ?_⟩
    show (s.log ++ [_]).map Execution.task ++ ([] ++ s.tasks) = s.accepted
    rw [← hall, List.map_append, List.append_assoc]
    rfl
  | spurious hwake => exact Ordered.wake ⟨p, hs, hall⟩ hwake
  | notifyAll hd =>
    refine ⟨p.wake, ?_, ?_⟩
    · show s.workers.map WorkerAt.wake = [p.wake]
      rw [hs]
      rfl
    · rw [WorkerAt.held_wake]
      exact hall

theorem ordered_run {ls : List AdapterStep}
    (hrun : (system I maxQueueSize).Run (fresh 1 s₀) ls s) : s.Ordered :=
  hrun.invariant (fun _ _ _ h hstep ↦ h.step (step_cases hstep)) ⟨.locking, rfl, rfl⟩

/-! ## The destructor returns -/

/-- How many steps there are to take for the workers and the destructor, at most. -/
def work (s : AsyncAdapter σ) : ℕ :=
  3 * s.tasks.length + (s.workers.map WorkerAt.rank).sum + s.destructor.rank

/-- It is a step of a worker or of the destructor. -/
def isWork : AdapterStep → Bool
  | .take _ | .workerNotify _ _ | .execute _ _ | .notifyAll | .join => true
  | .call _ | .enqueue _ | .callNotify _ _ | .refuse _ | .spurious _ | .destroy => false

theorem work_setWorker {w : ℕ} {p : WorkerAt} (hw : s.workers[w]? = some p) (p' : WorkerAt) :
    (s.setWorker w p').work + p.rank = s.work + p'.rank := by
  have hput := Pool.sum_map_put WorkerAt.rank hw p'
  show 3 * s.tasks.length + ((s.workers.put w p').map WorkerAt.rank).sum + s.destructor.rank +
    p.rank = s.work + p'.rank
  rw [work]
  omega

theorem Wake.work_le {x : Waiter} (h : Wake s x t) : t.work ≤ s.work ∧ t.stopping = s.stopping := by
  cases h with
  | worker hw =>
    have hset := work_setWorker hw .locking
    rw [WorkerAt.rank, WorkerAt.rank] at hset
    exact ⟨by omega, rfl⟩
  | call hi => exact ⟨le_rfl, rfl⟩

theorem Notify.work_le {woken : Option Waiter} (h : Notify s woken t) :
    t.work ≤ s.work ∧ t.stopping = s.stopping := by
  cases h with
  | one hwake => exact hwake.work_le
  | nobody => exact ⟨le_rfl, rfl⟩

/-- Once the adapter is stopping, no step makes more work, and a step of a worker or of the
destructor leaves less. -/
theorem Step.work_le {l : AdapterStep} (hstep : Step I maxQueueSize s l t)
    (hstop : s.stopping = true) :
    t.stopping = true ∧ t.work + (if isWork l then 1 else 0) ≤ s.work := by
  cases hstep with
  | call | refused | refuse => exact ⟨hstop, le_rfl⟩
  | blocked _ hstop' | pushed _ hstop' | sleep _ _ hstop' =>
    rw [hstop] at hstop'
    cases hstop'
  | callNotify hi hnotify =>
    obtain ⟨hle, hstop'⟩ := hnotify.work_le
    exact ⟨hstop'.trans hstop, hle⟩
  | @taken w task tasks hw htasks =>
    have hset := work_setWorker (s := { s with tasks := tasks }) hw (.notifying task)
    have hlen : s.tasks.length = tasks.length + 1 := by
      rw [htasks]
      rfl
    have hwork : s.work = { s with tasks := tasks }.work + 3 := by
      simp only [work]
      omega
    rw [WorkerAt.rank, WorkerAt.rank] at hset
    refine ⟨hstop, ?_⟩
    rw [isWork, if_pos rfl]
    omega
  | @exit w hw htasks hstop' =>
    have hset := work_setWorker hw .exited
    rw [WorkerAt.rank, WorkerAt.rank] at hset
    refine ⟨hstop, ?_⟩
    rw [isWork, if_pos rfl]
    omega
  | @workerNotify w task _ _ hw hnotify =>
    have hset := work_setWorker hw (.running task)
    rw [WorkerAt.rank, WorkerAt.rank] at hset
    obtain ⟨hle, hstop'⟩ := hnotify.work_le
    refine ⟨hstop'.trans hstop, ?_⟩
    rw [isWork, if_pos rfl]
    omega
  | @execute w task now hw =>
    have hset := work_setWorker (s := s.run I task now) hw .locking
    have hwork : (s.run I task now).work = s.work := rfl
    rw [WorkerAt.rank, WorkerAt.rank, hwork] at hset
    refine ⟨hstop, ?_⟩
    rw [isWork, if_pos rfl]
    omega
  | spurious hwake =>
    obtain ⟨hle, hstop'⟩ := hwake.work_le
    exact ⟨hstop'.trans hstop, hle⟩
  | destroy hd =>
    refine ⟨rfl, ?_⟩
    simp only [work, hd, Destructor.rank, isWork, Bool.false_eq_true, if_false]
    omega
  | notifyAll hd =>
    have hsum : ((s.workers.map WorkerAt.wake).map WorkerAt.rank).sum ≤
        (s.workers.map WorkerAt.rank).sum := by
      rw [List.map_map]
      refine List.sum_le_sum fun p _ ↦ ?_
      cases p with
      | locking | waiting | notifying task | running task | exited =>
        simp [WorkerAt.wake, WorkerAt.rank]
    refine ⟨hstop, ?_⟩
    simp only [work, hd, Destructor.rank, isWork, if_true]
    omega
  | join hd hall =>
    refine ⟨hstop, ?_⟩
    simp only [work, hd, Destructor.rank, isWork, if_true]
    omega

theorem work_run {ls : List AdapterStep} (hrun : (system I maxQueueSize).Run s ls t)
    (hstop : s.stopping = true) : t.stopping = true ∧ ls.countP isWork + t.work ≤ s.work := by
  induction hrun with
  | nil => exact ⟨hstop, by simp⟩
  | snoc _ hstep ih =>
    obtain ⟨hstop', hle⟩ := ih
    obtain ⟨hstop'', hle'⟩ := (step_cases hstep).work_le hstop'
    refine ⟨hstop'', ?_⟩
    rw [List.countP_append, List.countP_singleton]
    omega

/-- Someone can be woken up, or nobody sleeps. -/
theorem exists_notifyOne (s : AsyncAdapter σ) : ∃ woken t, s.notifyOne woken = some t := by
  by_cases hwaiter : s.hasWaiter = true
  · rw [hasWaiter, Bool.or_eq_true, List.any_eq_true, List.any_eq_true] at hwaiter
    rcases hwaiter with ⟨p, hp, hwaiting⟩ | ⟨c, hc, hwaiting⟩
    · rw [decide_eq_true_eq] at hwaiting
      subst hwaiting
      obtain ⟨w, hw⟩ := List.mem_iff_getElem?.1 hp
      refine ⟨some (.worker w), s.setWorker w .locking, ?_⟩
      simp only [notifyOne, wake, hw]
    · obtain ⟨i, hi⟩ := List.mem_iff_getElem?.1 hc
      cases c with
      | waiting op =>
        refine ⟨some (.call i), s.setCall i (.locking op), ?_⟩
        simp only [notifyOne, wake, hi]
      | locking | notifying | refusing | done => cases hwaiting
  · exact ⟨none, s, if_neg hwaiter⟩

/-- While the destructor has been called and has not returned, it or a worker can take a step. -/
theorem Inv.exists_work (h : s.Inv I s₀) (maxQueueSize : ℕ) (hcalled : s.destructor ≠ .notCalled)
    (hreturned : s.destructor ≠ .returned) :
    ∃ l t, isWork l = true ∧ s.step I maxQueueSize l = some t := by
  cases hd : s.destructor with
  | notCalled => exact absurd hd hcalled
  | returned => exact absurd hd hreturned
  | stopping => exact ⟨.notifyAll, _, rfl, if_pos hd⟩
  | joining =>
    by_cases hall : ∀ p ∈ s.workers, p = .exited
    · exact ⟨.join, _, rfl, if_pos ⟨hd, hall⟩⟩
    · obtain ⟨p, hp⟩ := not_forall.1 hall
      obtain ⟨hmem, hne⟩ := Classical.not_imp.1 hp
      obtain ⟨w, hw⟩ := List.mem_iff_getElem?.1 hmem
      cases p with
      | locking => exact ⟨.take w, s.take w, rfl, by simp only [AsyncAdapter.step, hw]⟩
      | waiting => exact absurd hmem (h.awake (.inl hd))
      | notifying task =>
        obtain ⟨woken, t, ht⟩ := exists_notifyOne (s.setWorker w (.running task))
        exact ⟨.workerNotify w woken, t, rfl, by simp only [AsyncAdapter.step, hw, ht]⟩
      | running task =>
        exact ⟨.execute w 0, (s.run I task 0).setWorker w .locking, rfl,
          by simp only [AsyncAdapter.step, hw]⟩
      | exited => exact absurd rfl hne

/-! ## What the destructor leaves -/

theorem Step.length_workers {l : AdapterStep} (hstep : Step I maxQueueSize s l t) :
    t.workers.length = s.workers.length := by
  have hnotify : ∀ {u v : AsyncAdapter σ} {woken}, Notify u woken v →
      v.workers.length = u.workers.length := by
    intro u v woken h
    cases h with
    | one hwake =>
      cases hwake with
      | worker => exact List.length_set
      | call => rfl
    | nobody => rfl
  cases hstep with
  | call | refused | blocked | pushed | refuse | destroy | join => rfl
  | taken | exit | sleep | execute => exact List.length_set
  | callNotify _ h => exact (hnotify h).trans rfl
  | workerNotify _ h => exact (hnotify h).trans List.length_set
  | spurious h => exact hnotify (.one h)
  | notifyAll => exact List.length_map _

theorem length_workers {numThreads : ℕ} {ls : List AdapterStep}
    (hrun : (system I maxQueueSize).Run (fresh numThreads s₀) ls s) :
    s.workers.length = numThreads :=
  hrun.invariant (motive := fun s ↦ s.workers.length = numThreads)
    (fun _ _ _ h hstep ↦ (step_cases hstep).length_workers.trans h) List.length_replicate

/-- When all workers have left, all that was accepted has been run. -/
theorem Inv.log_perm (h : s.Inv I s₀) (hworkers : s.workers ≠ []) (hd : s.destructor = .returned) :
    (s.log.map Execution.task).Perm s.accepted := by
  have hall := h.joined hd
  obtain ⟨p, hp⟩ := List.exists_mem_of_ne_nil _ hworkers
  have htasks := (h.exited (hall p hp ▸ hp)).2
  have hconserved := h.conserved
  rw [htasks, Pool.total_eq_zero _ fun q hq ↦ by rw [hall q hq]; rfl, add_zero] at hconserved
  exact Multiset.coe_eq_coe.1 ((zero_add _).symm.trans hconserved)

/-- For no call more than one task is run. -/
theorem Inv.length_executions_le (h : s.Inv I s₀) (i : ℕ) : (s.executions i).length ≤ 1 := by
  have hle : (s.log.map Execution.task : Multiset QueuedTask) ≤ s.accepted := by
    rw [← h.conserved]
    exact Multiset.le_add_left _ _
  have hnodup : ((s.log.map Execution.task).map QueuedTask.caller).Nodup :=
    Multiset.coe_nodup.1 (Multiset.nodup_of_le (Multiset.map_le_map hle)
      (Multiset.coe_nodup.2 h.distinct))
  have hcount := List.nodup_iff_count_le_one.1 hnodup i
  rw [List.map_map, List.count, List.countP_map, List.countP_eq_length_filter] at hcount
  refine le_of_eq_of_le (congrArg List.length (List.filter_congr fun e _ ↦ ?_)) hcount
  simp only [Function.comp_apply, beq_eq_decide]

/-- The call has put its task into the queue: `enqueue` returns `true`, or has. -/
def Enqueued (s : AsyncAdapter σ) (i : ℕ) (op : AsyncOp) : Prop :=
  s.calls[i]? = some (.notifying op) ∨ s.calls[i]? = some (.done op true)

/-- `enqueue` has returned `false`. -/
def Refused (s : AsyncAdapter σ) (i : ℕ) (op : AsyncOp) : Prop :=
  s.calls[i]? = some (.refusing op) ∨ s.calls[i]? = some (.done op false)

theorem Inv.executed (h : s.Inv I s₀) (hworkers : s.workers ≠ []) {i : ℕ} {op : AsyncOp}
    (henq : s.Enqueued i op) (hd : s.destructor = .returned) :
    ∃ now reply, s.executions i = [⟨⟨i, op⟩, now, reply⟩] ∧ s.promised i = [reply] := by
  obtain ⟨c, hc, hop⟩ : ∃ c, s.calls[i]? = some c ∧ c.accepted? = some op := by
    rcases henq with hc | hc
    · exact ⟨_, hc, rfl⟩
    · exact ⟨_, hc, rfl⟩
  have hmem : ⟨i, op⟩ ∈ s.accepted := by
    rw [h.owned, hc]
    exact hop
  obtain ⟨e, he, htask⟩ := List.mem_map.1 ((h.log_perm hworkers hd).mem_iff.2 hmem)
  have hexec : e ∈ s.executions i := by
    refine List.mem_filter.2 ⟨he, ?_⟩
    rw [htask]
    exact decide_eq_true rfl
  have hone : s.executions i = [e] := by
    obtain ⟨e', hall⟩ := List.length_eq_one_iff.1
      (le_antisymm (h.length_executions_le i) (List.length_pos_of_mem hexec))
    rw [hall] at hexec
    rw [hall, List.mem_singleton.1 hexec]
  refine ⟨e.now, e.reply, ?_, ?_⟩
  · rw [hone, ← htask]
  · rw [h.promises i, hone, hc, Option.elim_some, CallAt.refusals_of_accepted hop]
    rfl

theorem Inv.not_executed (h : s.Inv I s₀) {i : ℕ} {op : AsyncOp} (hrefused : s.Refused i op) :
    s.executions i = [] ∧
      (s.calls[i]? = some (.done op false) → s.promised i = [op.refusal]) := by
  have hnil : s.executions i = [] := by
    rcases hrefused with hc | hc
    · exact h.executions_eq_nil (h.notMem_accepted hc rfl)
    · exact h.executions_eq_nil (h.notMem_accepted hc rfl)
  refine ⟨hnil, fun hc ↦ ?_⟩
  rw [h.promises i, hnil, hc]
  rfl

/-- With one worker the adapter does what the calls do one after another. -/
theorem Ordered.sequential (h : s.Ordered) (hinv : s.Inv I s₀) :
    ∃ times : List ℤ, replay I s₀ (s.accepted.zip times) = (s.log, s.storage) ∧
      (s.destructor = .returned → times.length = s.accepted.length) := by
  obtain ⟨p, hs, hall⟩ := h
  refine ⟨s.log.map Execution.now, ?_, fun hd ↦ ?_⟩
  · have hzip : s.accepted.zip (s.log.map Execution.now) =
        s.log.map fun e ↦ (e.task, e.now) := by
      rw [← hall, ← List.append_nil (s.log.map Execution.now), List.zip_append (by simp),
        List.zip_nil_right, List.append_nil, List.zip_map']
    rw [hzip]
    exact hinv.replayed
  · have hperm := hinv.log_perm (by rw [hs]; simp) hd
    rw [List.length_map, ← hperm.length_eq, List.length_map]

/-- **The adapter drains its queue.**  Whatever the callers, the workers and the destructor do in
which order: for a call whose `enqueue` returns `true` a task is run at most once, and exactly once
when the destructor has returned, with the value that its future gets; for a call whose `enqueue`
returns `false` none is ever run, and its future gets a failure; and with one worker the storage and
the replies are those of the same calls one after another, in the order in which they were
enqueued.  The destructor does return: when it has been called, there is a bound on the steps that
it and the workers still take, and as long as it has not returned one of them can. -/
theorem drains {numThreads : ℕ} (hthreads : 1 ≤ numThreads) {ls : List AdapterStep}
    (hrun : (system I maxQueueSize).Run (fresh numThreads s₀) ls s) :
    (∀ i op, s.Enqueued i op → (s.executions i).length ≤ 1 ∧
      (s.destructor = .returned →
        ∃ now reply, s.executions i = [⟨⟨i, op⟩, now, reply⟩] ∧ s.promised i = [reply])) ∧
    (∀ i op, s.Refused i op → s.executions i = [] ∧ op.refusal.Failed ∧
      (s.calls[i]? = some (.done op false) → s.promised i = [op.refusal])) ∧
    (numThreads = 1 → ∃ times : List ℤ,
      replay I s₀ (s.accepted.zip times) = (s.log, s.storage) ∧
        (s.destructor = .returned → times.length = s.accepted.length)) ∧
    (s.destructor ≠ .notCalled →
      (∀ ls' t, (system I maxQueueSize).Run s ls' t → ls'.countP isWork ≤ s.work) ∧
        (s.destructor ≠ .returned →
          ∃ l t, isWork l = true ∧ s.step I maxQueueSize l = some t)) := by
  have h := inv_run hrun
  have hworkers : s.workers ≠ [] := by
    intro hnil
    have hlen := length_workers hrun
    rw [hnil, List.length_nil] at hlen
    omega
  refine ⟨fun i op henq ↦ ⟨h.length_executions_le i, h.executed hworkers henq⟩,
    fun i op hrefused ↦ ?_, fun hone ↦ ?_, fun hd ↦ ⟨fun ls' t hrun' ↦ ?_, ?_⟩⟩
  · obtain ⟨hnil, hpromised⟩ := h.not_executed hrefused
    exact ⟨hnil, op.failed_refusal, hpromised⟩
  · subst hone
    exact (ordered_run hrun).sequential h
  · have hle := (work_run hrun' (h.stopping.2 hd)).2
    omega
  · exact h.exists_work maxQueueSize hd

/-- Two calls are enqueued, the second one while the worker has the first one in hand; the third one
comes when the destructor has been called. -/
def lastCalls : List AdapterStep :=
  [.call (.put (lit "k") (lit "v") 0), .enqueue 0, .take 0, .workerNotify 0 none,
    .call (.get (lit "k")), .enqueue 1, .callNotify 0 none, .destroy,
    .call (.contains (lit "k")), .enqueue 2, .notifyAll, .execute 0 0, .refuse 2, .take 0,
    .workerNotify 0 none, .callNotify 1 none, .execute 0 5, .take 0, .join]

theorem drains_lastCalls :
    ∃ s : AsyncAdapter MemoryStorage,
      (system MemoryStorage.interface 0).Run (fresh 1 ∅) lastCalls s ∧ s.destructor = .returned ∧
        (∃ now reply, s.executions 1 = [⟨⟨1, .get (lit "k")⟩, now, reply⟩] ∧
          s.promised 1 = [reply]) ∧
        s.executions 2 = [] ∧ s.promised 2 = [.flag false] := by
  obtain ⟨s, hrun, hd, hget, hcontains⟩ : ∃ s : AsyncAdapter MemoryStorage,
      (system MemoryStorage.interface 0).Run (fresh 1 ∅) lastCalls s ∧ s.destructor = .returned ∧
        s.calls[1]? = some (.done (.get (lit "k")) true) ∧
        s.calls[2]? = some (.done (.contains (lit "k")) false) :=
    System.Run.exists_of_any (by decide +kernel)
  obtain ⟨henqueued, hrefused, _⟩ := drains le_rfl hrun
  refine ⟨s, hrun, hd, (henqueued 1 _ (.inr hget)).2 hd, (hrefused 2 _ (.inr hcontains)).1, ?_⟩
  exact (hrefused 2 _ (.inr hcontains)).2.2 hcontains

end AsyncAdapter
end Storage
end ChwellCore
