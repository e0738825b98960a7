import ChwellCore.Task.Accounting
import Mathlib

/-!
# The order in which tasks start

`queue_` is a priority queue of pairs, of a priority and a `shared_ptr`, and it is pairs that it
compares.  Of two tasks of the same priority it takes the one whose object has the higher address,
and with `enable_priority` off all priorities are the same.  When a task was submitted is not in the
pair.

`due` is the task that is next, first come first served within a priority.  An `Agenda` follows a
run and writes down which task was due each time a worker took one.  `inOrder_iff` says for which
runs, with one worker, the tasks are started in the order of the agenda: just when each time, of all
tasks of the highest priority, the one that was submitted first has the highest address.
-/

set_option autoImplicit false

namespace ChwellCore
namespace Task

/-! ## The task on top -/

/-- What the priority queue compares. -/
def Entry.key (e : Entry) : ℤ ×ₗ ℕ := toLex (e.value, e.task.address)

theorem Entry.lt_iff {a b : Entry} : a.lt b = true ↔ a.key < b.key := by
  rw [Entry.key, Entry.key, Prod.Lex.toLex_lt_toLex]
  simp [Entry.lt]

/-- What is on top is the first of the greatest. -/
theorem top_eq_argmax (queue : List Entry) : top queue = queue.argmax Entry.key := by
  induction queue with
  | nil => rfl
  | cons e rest ih =>
    rw [List.argmax_cons, top, ih]
    cases List.argmax Entry.key rest with
    | none => rfl
    | some m =>
      simp only [Entry.lt_iff]

/-- The value under which `submit` stores a task. -/
def rank (c : Config) (task : TaskBase) : ℤ := if c.enablePriority then task.priority.toInt else 0

/-- The task that is next: of those of the highest priority, or of all if there are no priorities,
the one that was submitted first. -/
def due (c : Config) : List Entry → Option Entry
  | [] => none
  | e :: rest =>
    match due c rest with
    | none => some e
    | some m => if rank c e.task < rank c m.task then some m else some e

theorem due_eq_argmax (c : Config) (queue : List Entry) :
    due c queue = queue.argmax fun e ↦ rank c e.task := by
  induction queue with
  | nil => rfl
  | cons e rest ih =>
    rw [List.argmax_cons, due, ih]
    cases List.argmax (fun e ↦ rank c e.task) rest with
    | none => rfl
    | some m => rfl

theorem mem_of_due {c : Config} {queue : List Entry} {d : Entry} (h : due c queue = some d) :
    d ∈ queue :=
  List.argmax_mem ((due_eq_argmax c queue).symm.trans h)

/-- Of all the tasks of the highest priority, the one that is next has the highest address. -/
def Favourable (c : Config) (queue : List Entry) : Prop :=
  ∀ d ∈ due c queue, ∀ e ∈ queue, rank c e.task = rank c d.task → e.task.address ≤ d.task.address

instance (c : Config) (queue : List Entry) : Decidable (Favourable c queue) :=
  inferInstanceAs (Decidable (∀ d ∈ due c queue, ∀ e ∈ queue, _ → _))

/-- **When the task on top is the one that is next.** -/
theorem top_eq_due_iff {c : Config} {queue : List Entry}
    (hvalue : ∀ e ∈ queue, e.value = rank c e.task) :
    top queue = due c queue ↔ Favourable c queue := by
  rw [top_eq_argmax]
  rcases hdue : due c queue with _ | d
  · rw [due_eq_argmax, List.argmax_eq_none] at hdue
    rw [hdue]
    exact iff_of_true rfl nofun
  · obtain ⟨hmem, hmax, hfirst⟩ :=
      List.argmax_eq_some_iff.1 ((due_eq_argmax c queue).symm.trans hdue)
    have hkey : ∀ e ∈ queue, e.key ≤ d.key ↔
        rank c e.task < rank c d.task ∨
          rank c e.task = rank c d.task ∧ e.task.address ≤ d.task.address := by
      intro e he
      rw [Entry.key, Entry.key, Prod.Lex.toLex_le_toLex, hvalue e he, hvalue d hmem]
    constructor
    · intro htop d' hd' e he hsame
      rw [hdue, Option.mem_some_iff] at hd'
      subst hd'
      rcases (hkey e he).1 ((List.argmax_eq_some_iff.1 htop).2.1 e he) with hlt | ⟨-, hle⟩
      · exact absurd hsame hlt.ne
      · exact hle
    · intro hfav
      have hall : ∀ e ∈ queue, e.key ≤ d.key := by
        intro e he
        rcases (hmax e he).lt_or_eq with hlt | heq
        · exact (hkey e he).2 (.inl hlt)
        · exact (hkey e he).2 (.inr ⟨heq, hfav d hdue e he heq⟩)
      refine List.argmax_eq_some_iff.2 ⟨hmem, hall, fun e he hle ↦ hfirst e he ?_⟩
      rw [Entry.key, Entry.key, Prod.Lex.toLex_le_toLex, hvalue e he, hvalue d hmem] at hle
      rcases hle with hlt | ⟨heq, -⟩
      · exact hlt.le
      · exact heq.le

/-! ## Runs -/

/-- The task that a worker has taken off the queue and not begun to execute. -/
def Worker.taken : Worker → List ℕ
  | popped task | counted task => [task.id]
  | executing _ | executed _ | uncounted _ | completed _
  | looping | locking | testing | dozing | waiting | deciding | exited => []

/-- A run, with the tasks that were due when a worker took one. -/
structure Agenda where
  machine : Machine
  listed : List ℕ

namespace Agenda

/-- The task that is due when a worker takes one in this step. -/
def duty (s : Machine) : Act → Option Entry
  | .work i => if s.workers[i]? = some .deciding then due s.config s.queue else none
  | _ => none

def new (config : Config) : Agenda := ⟨.new config, []⟩

def step (s : Agenda) (a : Act) : Option Agenda :=
  (Machine.step s.machine a).map fun m ↦ ⟨m, s.listed ++ (duty s.machine a).toList.map (·.task.id)⟩

/-- The runs of a task queue. -/
def system : System Agenda Act := System.ofPartial step

/-- The tasks that have been started, and then the one that the worker is about to start, are those
that were due, in this order. -/
def InOrder (s : Agenda) : Prop :=
  s.machine.started ++ s.machine.workers.flatMap Worker.taken = s.listed

/-- When a worker takes a task, the one that is due has the highest address. -/
def Guard (s : Agenda) : Act → Prop
  | .work i => s.machine.workers[i]? = some .deciding → Favourable s.machine.config s.machine.queue
  | _ => True

instance (s : Agenda) : ∀ a, Decidable (s.Guard a)
  | .work i => inferInstanceAs (Decidable (s.machine.workers[i]? = some .deciding →
      Favourable s.machine.config s.machine.queue))
  | .draw .. | .offer .. | .cancel _ | .start | .spawn | .stop | .notifyAll | .join | .wake _
  | .waitAll | .poll _ => .isTrue trivial

end Agenda

namespace Machine

variable {s t : Machine} {a : Act} {i : ℕ} {p q : Worker}

/-- Every task is in the queue under its rank. -/
def Valued (s : Machine) : Prop := ∀ e ∈ s.queue, e.value = rank s.config e.task

theorem Valued.step (h : s.Valued) (hs : Step s a t) : t.Valued := by
  rw [Valued, config_step hs]
  cases hs with
  | accept | acceptWake =>
    intro e he
    rcases List.mem_append.1 he with he | he
    · exact h e he
    · rw [List.mem_singleton.1 he]
      rfl
  | pop => exact fun e he ↦ h e (List.mem_of_mem_erase he)
  | _ => exact h

/-- There is nobody else. -/
theorem taken_put (hone : s.workers.length ≤ 1) (hp : s.workers[i]? = some p) (q : Worker) :
    s.workers.flatMap Worker.taken = p.taken ∧
      (s.workers.put i q).flatMap Worker.taken = q.taken := by
  obtain ⟨hlt, hget⟩ := List.getElem?_eq_some_iff.1 hp
  obtain ⟨p', hp'⟩ := List.length_eq_one_iff.1 (show s.workers.length = 1 by omega)
  obtain rfl : i = 0 := by omega
  rw [hp', List.getElem?_cons_zero, Option.some_inj] at hp
  rw [hp', hp, Pool.put, List.set_cons_zero]
  exact ⟨List.flatMap_singleton _ _, List.flatMap_singleton _ _⟩

theorem taken_wakeUp (p : Worker) : (wakeUp p).taken = p.taken := by
  cases p <;> rfl

/-- What a step does to the order in which tasks are taken and started: a worker takes the task on
top, or nothing is due and the order stays as it is. -/
inductive Order (s : Machine) (a : Act) (t : Machine) : Prop
  | takes (i : ℕ) (m : Entry) (ha : a = .work i) (hp : s.workers[i]? = some .deciding)
      (htop : top s.queue = some m) (htaken : t.started ++ t.workers.flatMap Worker.taken =
        s.started ++ s.workers.flatMap Worker.taken ++ [m.task.id])
  | keeps (hdue : Agenda.duty s a = none)
      (htaken : t.started ++ t.workers.flatMap Worker.taken =
        s.started ++ s.workers.flatMap Worker.taken)

theorem duty_of_ne (hp : s.workers[i]? = some p) (hne : p ≠ .deciding) :
    Agenda.duty s (.work i) = none := by
  rw [Agenda.duty, if_neg]
  rw [hp, Option.some_inj]
  exact hne

/-- A worker that holds the same task as before. -/
theorem Order.of_put (hone : s.workers.length ≤ 1) (hp : s.workers[i]? = some p)
    (hdue : Agenda.duty s a = none) (hstarted : t.started = s.started)
    (hworkers : t.workers = s.workers.put i q) (hpq : q.taken = p.taken) : Order s a t := by
  obtain ⟨hbefore, hafter⟩ := taken_put hone hp q
  refine .keeps hdue ?_
  rw [hstarted, hworkers, hbefore, hafter, hpq]

/-- A worker does not find a task. -/
theorem duty_of_empty (hqueue : s.queue = []) : Agenda.duty s (.work i) = none := by
  rw [Agenda.duty, hqueue]
  exact ite_self _

theorem order_step (hcrew : s.Crew) (hone : s.workers.length ≤ 1) (hs : Step s a t) :
    Order s a t := by
  cases hs with
  | draw | reject | accept | cancel | cancelMiss | start | startAgain | spawnEnd | stop | stopAgain
  | join | waitAll | pollAgain | sawEmpty | «return» => exact .keeps rfl rfl
  | acceptWake _ _ hi | wake hi => exact .of_put hone hi rfl rfl rfl rfl
  | spawn =>
    refine .keeps rfl ?_
    dsimp only
    rw [Pool.spawn, List.flatMap_append]
    simp [Worker.taken]
  | notifyAll =>
    refine .keeps rfl ?_
    simp only [List.flatMap_map, taken_wakeUp]
  | joinEnd hcontrol hk =>
    refine .keeps rfl ?_
    have hnone : s.workers.flatMap Worker.taken = [] := by
      refine List.flatMap_eq_nil_iff.2 fun p hp ↦ ?_
      rw [hcrew.exited hcontrol hk p hp]
      rfl
    rw [hnone]
    rfl
  | enter hp | leave hp | lock hp | proceed hp | doze hp | wait hp | count hp | finish hp
  | uncount hp | complete hp | erase hp =>
    exact .of_put hone hp (duty_of_ne hp (by simp)) rfl rfl rfl
  | «break» hp _ hqueue => exact .of_put hone hp (duty_of_empty hqueue) rfl rfl rfl
  | findNone hp htop =>
    rw [top_eq_argmax, List.argmax_eq_none] at htop
    exact .of_put hone hp (duty_of_empty htop) rfl rfl rfl
  | @pop i m hp htop =>
    obtain ⟨hbefore, hafter⟩ := taken_put hone hp (.popped m.task)
    refine .takes i m rfl hp htop ?_
    simp only [put, hbefore, hafter, Worker.taken, List.append_nil]
  | @begin i task hp =>
    obtain ⟨hbefore, hafter⟩ := taken_put hone hp (.executing task)
    refine .keeps (duty_of_ne hp (by simp)) ?_
    simp only [put, hbefore, hafter, Worker.taken, List.append_nil]

end Machine

namespace Agenda

variable {config : Config} {acts : List Act} {s t : Agenda} {a : Act}

/-- What holds of the machine in every state of a run. -/
structure Inv (config : Config) (s : Agenda) : Prop where
  accounts : s.machine.Accounts
  crew : s.machine.Crew
  config_eq : s.machine.config = config
  valued : s.machine.Valued

theorem step_eq_some (hs : step s a = some t) :
    Machine.Step s.machine a t.machine ∧
      t.listed = s.listed ++ (duty s.machine a).toList.map (·.task.id) := by
  obtain ⟨m, hm, rfl⟩ := Option.map_eq_some_iff.1 hs
  exact ⟨Machine.step_cases hm, rfl⟩

theorem Inv.step (h : s.Inv config) (hs : step s a = some t) : t.Inv config := by
  obtain ⟨hs, -⟩ := step_eq_some hs
  exact ⟨h.accounts.step h.crew hs, h.crew.step hs, (Machine.config_step hs).trans h.config_eq,
    h.valued.step hs⟩

theorem inv_new (config : Config) : (new config).Inv config := by
  obtain ⟨haccounts, hcrew, hconfig⟩ :=
    Machine.accounts_run (System.Run.nil (T := Machine.system) (s := Machine.new config))
  exact ⟨haccounts, hcrew, hconfig, nofun⟩

/-- No two tasks in the queue have the same id. -/
theorem Inv.eq_of_id (h : s.Inv config) {d e : Entry} (hd : d ∈ s.machine.queue)
    (he : e ∈ s.machine.queue) (hid : d.task.id = e.task.id) : d = e := by
  have hnodup := h.accounts.nodup_accepted
  rw [← h.accounts.balance, Multiset.nodup_add, Multiset.nodup_add] at hnodup
  exact List.inj_on_of_nodup_map (Multiset.coe_nodup.1 hnodup.1.1) hd he hid

/-- **One step**: the order is kept just when the guard is satisfied. -/
theorem inOrder_step_iff (hone : config.workerThreads = 1) (h : s.Inv config) (horder : s.InOrder)
    (hs : step s a = some t) : t.InOrder ↔ s.Guard a := by
  obtain ⟨hstep, hlisted⟩ := step_eq_some hs
  have hlength : s.machine.workers.length ≤ 1 := by
    have hle := h.crew.length_le
    rw [h.config_eq, hone] at hle
    omega
  rw [InOrder, hlisted, ← horder]
  rcases Machine.order_step h.crew hlength hstep with ⟨i, m, rfl, hp, htop, htaken⟩ |
    ⟨hdue, htaken⟩
  · have hduty : duty s.machine (.work i) = due s.machine.config s.machine.queue := if_pos hp
    have hguard : s.Guard (.work i) ↔ Favourable s.machine.config s.machine.queue :=
      ⟨fun hg ↦ hg hp, fun hf _ ↦ hf⟩
    rw [hguard, ← top_eq_due_iff h.valued, htaken, hduty, htop, List.append_cancel_left_eq]
    rcases hdue : due s.machine.config s.machine.queue with _ | d
    · rw [due_eq_argmax, List.argmax_eq_none] at hdue
      rw [hdue] at htop
      cases htop
    · rw [Option.some_inj, Option.toList_some, List.map_singleton, List.singleton_inj]
      exact ⟨h.eq_of_id (mem_of_top htop) (mem_of_due hdue), fun heq ↦ by rw [heq]⟩
  · rw [htaken, hdue]
    refine iff_of_true (List.append_nil _).symm ?_
    rcases a with _ | _ | _ | _ | _ | _ | _ | _ | i | _ | _ | _
    case work =>
      intro hp d hd
      rw [duty, if_pos hp] at hdue
      rw [hdue] at hd
      cases hd
    all_goals trivial

/-- **When tasks are started in order.**  For every queue with one worker and every run of it,
whatever addresses the tasks are given: the tasks are started in the order in which they are due, in
every state of the run, if and only if each time that the worker looks for a task, of all tasks of
the highest priority in the queue (of all tasks, with `enable_priority` off) the one that was
submitted first has the highest address. -/
theorem inOrder_iff (hone : config.workerThreads = 1) (hrun : system.Run (new config) acts s) :
    system.Along (fun _ _ t ↦ t.InOrder) (new config) acts ↔
      (system.guarded Guard).Run (new config) acts s :=
  System.along_iff (P := fun s ↦ s.Inv config ∧ s.InOrder)
    (fun _ _ _ h hs ↦ inOrder_step_iff hone h.1 h.2 hs)
    (fun _ _ _ h hs horder ↦ ⟨h.1.step hs, horder⟩) ⟨inv_new config, rfl⟩ hrun

/-- Tasks of two priorities, of which the later ones have the lower addresses. -/
theorem inOrder_iff_downwards :
    ∃ s, (system.guarded Guard).Run (new Machine.oneWorker)
        ([.draw .normal 300, .offer 0 none, .draw .high 200, .offer 0 none, .draw .high 100,
          .offer 0 none, .start, .spawn, .spawn] ++ List.replicate 12 (.work 0)) s ∧
      s.machine.started = [2] ∧
      system.Along (fun _ _ t ↦ t.InOrder) (new Machine.oneWorker)
        ([.draw .normal 300, .offer 0 none, .draw .high 200, .offer 0 none, .draw .high 100,
          .offer 0 none, .start, .spawn, .spawn] ++ List.replicate 12 (.work 0)) := by
  obtain ⟨s, hrun, hstarted⟩ : ∃ s, (system.guarded Guard).Run (new Machine.oneWorker)
      ([.draw .normal 300, .offer 0 none, .draw .high 200, .offer 0 none, .draw .high 100,
        .offer 0 none, .start, .spawn, .spawn] ++ List.replicate 12 (.work 0)) s ∧
        s.machine.started = [2] :=
    System.Run.exists_of_any_guarded (by decide +kernel)
  exact ⟨s, hrun, hstarted, (inOrder_iff rfl hrun.of_guarded).2 hrun⟩

/-- Two tasks of the same priority: the allocator gave the second the higher address. -/
theorem not_forall_inOrder :
    ¬ ∀ (config : Config) (acts : List Act) (s : Agenda), config.workerThreads = 1 →
      system.Run (new config) acts s → s.InOrder := by
  intro h
  obtain ⟨s, hrun, hnot⟩ : ∃ s, system.Run (new Machine.oneWorker)
      ([.draw .normal 100, .offer 0 none, .draw .normal 200, .offer 0 none, .start, .spawn, .spawn]
        ++ List.replicate 6 (.work 0)) s ∧ (s.machine.started = [2] ∧ s.listed = [1]) :=
    System.Run.exists_of_any (by decide +kernel)
  have horder := h Machine.oneWorker _ s rfl hrun
  rw [InOrder, hnot.1, hnot.2] at horder
  cases List.head_eq_of_cons_eq horder

end Agenda
end Task
end ChwellCore
