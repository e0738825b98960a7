import ChwellCore.Core.TimerUsage
import Mathlib.Data.Finset.Lattice.Lemmas

/-!
# What the timer map holds

`task_map_` gets a key when a timer is added and loses it when the timer is cancelled.  A repeat
timer that runs is entered again, under the key it has.  But a timer that runs once keeps its key
when it has run: nothing takes it out but a call of `cancel_timer`, which is made too late.

`Filed` is what holds in every run: the keys are those of the timers that have been added and not
cancelled, and every task that could run belongs to one of them.  So the map is exact after an
operation if and only if no timer that runs once has run by then, and `taskMap_iff` says this of
whole runs.
-/

set_option autoImplicit false

namespace ChwellCore
namespace Core

open TimerWheel

variable {Cb : Type} {tick S layers : ℕ}

namespace TimerWheel

variable {w w' : TimerWheel Cb} {now : ℤ} {fuel x : ℕ} {P : TimerTask Cb → Prop}

/-! ## What a tick does to the map and to the callbacks that have run -/

theorem taskMap_visit {task : TimerTask Cb} (hmem : Due task → task.id ∈ w.taskMap) :
    (w.visit now task).taskMap = w.taskMap := by
  rw [visit]
  split
  · next hdue =>
    rw [taskMap_run, readd]
    split
    · rw [register, taskMap_addTaskToWheel]
      exact Finset.insert_eq_of_mem (hmem hdue)
    · rfl
  · rfl

/-- If the timers that can run have their keys, then a tick changes neither the keys nor the next
id. -/
theorem taskMap_tick (hP : Steady now P) (hall : w.AllTasks P)
    (hmem : ∀ task, P task → Due task → task.id ∈ w.taskMap) (hok : w.tick fuel now = .ok w') :
    w'.taskMap = w.taskMap ∧ w'.nextId = w.nextId := by
  refine (invariant_of_tick (motive := fun w' ↦ w'.AllTasks P ∧
    w'.taskMap = w.taskMap ∧ w'.nextId = w.nextId) ?_ ?_ ?_ hok ⟨hall, rfl, rfl⟩).2
  · rintro slot p ⟨hall, hmap, hnext⟩
    refine ⟨hall.turn hP 0 slot, ?_⟩
    rcases hahead : p.ahead 0 slot with _ | ⟨task, rest⟩
    · rw [Walk.turn_of_end hahead]
      exact ⟨hmap, hnext⟩
    · obtain ⟨f, hf⟩ := Walk.exists_turn_eq now hahead
      have htask := hall 0 slot task (Walk.mem_tasks_of_ahead hahead)
      rw [hf]
      exact ⟨(taskMap_visit fun hdue ↦ hmap ▸ hmem task htask hdue).trans hmap,
        (nextId_visit now task).trans hnext⟩
  · rintro layer w₁ ⟨hall, hmap, hnext⟩
    exact ⟨hall.cascade hP layer, (taskMap_cascade now layer).trans hmap,
      (nextId_cascade now layer).trans hnext⟩
  · rintro layer w₁ ⟨hall, hmap, hnext⟩
    exact ⟨hall.moveOn layer, hmap, hnext⟩

/-- A timer with no due task in the slot does not run. -/
theorem firings_tick_of_not_due
    (hslot : ∀ task ∈ w.tasks 0 (w.currentSlot 0), Due task → task.id ≠ x)
    (hok : w.tick fuel now = .ok w') : w'.firings x = w.firings x := by
  obtain ⟨n, -, hrest⟩ := exists_end_of_tick hok
  exact hrest (fun w' ↦ w'.firings x = w.firings x)
    (fun layer _ h ↦ (firings_cascade now layer).trans h) (fun _ _ h ↦ h)
    (firings_walked_of_not_due now hslot n).2

/-- A task that is due in the slot runs before the tick returns. -/
theorem firings_tick_of_due {task : TimerTask Cb} (htask : task ∈ w.tasks 0 (w.currentSlot 0))
    (hdue : Due task) (hcallback : task.callback.isSome) (hok : w.tick fuel now = .ok w') :
    w'.firings task.id ≠ [] := by
  obtain ⟨n, hend, hrest⟩ := exists_end_of_tick hok
  have hwalk : task ∈ (w.walked now n).ahead 0 (w.currentSlot 0) ∨
      (w.walked now n).wheel.firings task.id ≠ [] := by
    clear hrest hend
    induction n with
    | zero => exact .inl htask
    | succ n ih =>
      rw [walked_succ]
      rcases hahead : (w.walked now n).ahead 0 (w.currentSlot 0) with _ | ⟨head, rest⟩
      · rw [Walk.turn_of_end hahead]
        exact ih
      · obtain ⟨added, hvisit, -⟩ :=
          exists_tasks_visit (w := (w.walked now n).wheel) now head 0 (w.currentSlot 0)
        obtain ⟨f, hf⟩ := Walk.exists_turn_eq now hahead
        have hfirings := firings_visit (w := (w.walked now n).wheel) (x := task.id) now head
        rw [Walk.ahead_turn hahead hvisit, hf]
        rw [hahead] at ih
        rcases ih with hmem | hfired
        · rcases List.mem_cons.1 hmem with rfl | hlater
          · refine .inr (hfirings.trans_ne ?_)
            simp [hdue, hcallback]
          · exact .inl (List.mem_append_left _ hlater)
        · exact .inr (hfirings.trans_ne (List.append_ne_nil_of_left_ne_nil hfired _))
  rw [hend, or_iff_right List.not_mem_nil] at hwalk
  exact hrest (fun w' ↦ w'.firings task.id ≠ [])
    (fun layer _ h ↦ (firings_cascade now layer).trans_ne h) (fun _ _ h ↦ h) hwalk

end TimerWheel

namespace Ledger

variable {s t : Ledger Cb}

/-- The timers that have been added and not cancelled, and not run either if they run once. -/
def pending (s : Ledger Cb) : Finset ℕ :=
  (s.once ∪ s.repeating).filter fun x ↦ x ∉ s.cancelled ∧ (x ∈ s.once → s.wheel.firings x = [])

/-- A task that could run has a callback, and it belongs to a timer that has been added and not
cancelled. -/
def TaskFiled (s : Ledger Cb) (task : TimerTask Cb) : Prop :=
  task.cancelled = false → task.callback.isSome ∧ task.id ∉ s.cancelled ∧
    (task.interval = 0 ∧ task.id ∈ s.once ∨ 0 < task.interval ∧ task.id ∈ s.repeating)

theorem steady_taskFiled (now : ℤ) (s : Ledger Cb) : Steady now s.TaskFiled :=
  ⟨fun _ _ h ↦ h, fun _ h _ ↦ h⟩

/-- **What holds in every run.** -/
structure Filed (s : Ledger Cb) : Prop where
  taskMap : s.wheel.taskMap = (s.once ∪ s.repeating) \ s.cancelled
  tasks : s.wheel.AllTasks s.TaskFiled
  disjoint : Disjoint s.once s.repeating
  lt : ∀ x ∈ s.once ∪ s.repeating, x < s.wheel.nextId
  cancelled : s.cancelled ⊆ s.once ∪ s.repeating
  fresh : ∀ x, s.wheel.nextId ≤ x → s.wheel.firings x = []

/-- No timer that runs once has run, unless it has been cancelled. -/
def Unfired (s : Ledger Cb) : Prop := ∀ x ∈ s.once, x ∉ s.cancelled → s.wheel.firings x = []

theorem Filed.taskMap_eq_pending_iff (h : s.Filed) : s.wheel.taskMap = s.pending ↔ s.Unfired := by
  rw [h.taskMap, pending, Finset.ext_iff]
  simp only [Finset.mem_sdiff, Finset.mem_filter]
  constructor
  · intro hsame x hx hlive
    exact ((hsame x).1 ⟨Finset.mem_union_left _ hx, hlive⟩).2.2 hx
  · exact fun hunfired x ↦ ⟨fun ⟨hadded, hlive⟩ ↦ ⟨hadded, hlive, fun hx ↦ hunfired x hx hlive⟩,
      fun ⟨hadded, hlive, _⟩ ↦ ⟨hadded, hlive⟩⟩

/-- A task that is due belongs to a timer that has been added. -/
theorem Filed.lt_of_due (h : s.Filed) {task : TimerTask Cb} (htask : s.TaskFiled task)
    (hdue : Due task) : task.id < s.wheel.nextId := by
  obtain ⟨-, -, ⟨-, hx⟩ | ⟨-, hx⟩⟩ := htask hdue.1
  · exact h.lt _ (Finset.mem_union_left _ hx)
  · exact h.lt _ (Finset.mem_union_right _ hx)

theorem Filed.congr (h : s.Filed) (hwheel : t.wheel = s.wheel) (honce : t.once = s.once)
    (hrepeating : t.repeating = s.repeating) (hcancelled : t.cancelled = s.cancelled) :
    t.Filed ∧ (s.Unfired → t.Unfired) := by
  obtain ⟨wheel, clock, once, repeating, cancelled⟩ := s
  obtain ⟨wheel', clock', once', repeating', cancelled'⟩ := t
  cases hwheel
  cases honce
  cases hrepeating
  cases hcancelled
  exact ⟨⟨h.taskMap, h.tasks, h.disjoint, h.lt, h.cancelled, h.fresh⟩, id⟩

/-! ### The operations -/

/-- No timer that runs once is due at a tick. -/
def NoneExpires (s : Ledger Cb) : LedgerOp Cb → Prop
  | .tick _ => ∀ task ∈ s.wheel.tasks 0 (s.wheel.currentSlot 0), Due task → task.interval ≠ 0
  | _ => True

theorem filed_init (tick S layers : ℕ) (clock : ℤ) :
    (init tick S layers clock : Ledger Cb).Filed := by
  refine ⟨rfl, fun layer slot task htask ↦ ?_, Finset.disjoint_empty_left _,
    fun x hx ↦ absurd hx (Finset.notMem_empty x), Finset.empty_subset _, fun _ _ ↦ rfl⟩
  have hempty : (init tick S layers clock : Ledger Cb).wheel.tasks layer slot = [] :=
    Driven.tasks_init clock layer slot
  rw [hempty] at htask
  cases htask

/-- The new id goes to the timers that run once, or to those that repeat. -/
theorem mem_of_entered {id : ℕ} {interval delayMs : ℤ} (hdelay : 0 < delayMs)
    (hkind : (interval = 0 ∧ t.once = enter s.once ⟨id, true⟩ ∧ t.repeating = s.repeating) ∨
      interval = delayMs ∧ t.once = s.once ∧ t.repeating = enter s.repeating ⟨id, true⟩) (x : ℕ) :
    (x ∈ t.once ↔ x ∈ s.once ∨ x = id ∧ interval = 0) ∧
      (x ∈ t.repeating ↔ x ∈ s.repeating ∨ x = id ∧ 0 < interval) := by
  have henter (timers : Finset ℕ) : x ∈ enter timers ⟨id, true⟩ ↔ x ∈ timers ∨ x = id :=
    Finset.mem_insert.trans or_comm
  rcases hkind with ⟨rfl, honce, hrepeating⟩ | ⟨rfl, honce, hrepeating⟩ <;>
    rw [honce, hrepeating, henter]
  · simp
  · simp [hdelay, hdelay.ne']

/-- **A call that adds a timer** files it under a new id. -/
theorem Filed.added (h : s.Filed) {now delayMs interval : ℤ} {callback : Option Cb}
    (hwheel : t.wheel = (s.wheel.addTask now delayMs interval callback).1)
    (hcancelled : t.cancelled = s.cancelled)
    (hkind : (interval = 0 ∧
        t.once = enter s.once (s.wheel.addTask now delayMs interval callback).2 ∧
        t.repeating = s.repeating) ∨
      interval = delayMs ∧ t.once = s.once ∧
        t.repeating = enter s.repeating (s.wheel.addTask now delayMs interval callback).2) :
    t.Filed ∧ (s.Unfired → t.Unfired) := by
  rcases addTask_cases (w := s.wheel) now delayMs interval callback with
    hrejected | ⟨callback, place, hdelay, rfl, hadded⟩
  · rw [hrejected] at hwheel hkind
    rcases hkind with ⟨-, honce, hrepeating⟩ | ⟨-, honce, hrepeating⟩ <;>
      exact h.congr hwheel honce hrepeating hcancelled
  · rw [hadded] at hwheel hkind
    have hsign : interval = 0 ∨ 0 < interval := hkind.imp And.left fun hrepeat ↦ by
      rwa [hrepeat.1]
    have honce (x : ℕ) := (mem_of_entered hdelay hkind x).1
    have hrepeating (x : ℕ) := (mem_of_entered hdelay hkind x).2
    have hnew : s.wheel.nextId ∉ s.once ∪ s.repeating := fun hx ↦ lt_irrefl _ (h.lt _ hx)
    have hlive : s.wheel.nextId ∉ s.cancelled := fun hx ↦ hnew (h.cancelled hx)
    have hfirings (x : ℕ) : t.wheel.firings x = s.wheel.firings x := by
      rw [hwheel]
      rfl
    have hall : t.once ∪ t.repeating = insert s.wheel.nextId (s.once ∪ s.repeating) := by
      ext x
      rw [Finset.mem_union, honce, hrepeating, Finset.mem_insert, Finset.mem_union]
      tauto
    have hold {task : TimerTask Cb} (htask : s.TaskFiled task) : t.TaskFiled task := by
      intro hlive
      obtain ⟨hcallback, huncancelled, hof⟩ := htask hlive
      refine ⟨hcallback, hcancelled ▸ huncancelled, hof.imp ?_ ?_⟩
      · exact And.imp_right fun hx ↦ (honce _).2 (.inl hx)
      · exact And.imp_right fun hx ↦ (hrepeating _).2 (.inl hx)
    refine ⟨⟨?_, ?_, ?_, fun x hx ↦ ?_, ?_, fun x hx ↦ ?_⟩, fun hunfired x hx huncancelled ↦ ?_⟩
    · rw [hall, hcancelled, Finset.insert_sdiff_of_notMem _ hlive, ← h.taskMap, hwheel]
      rfl
    · rw [hwheel]
      refine AllTasks.push (w := { s.wheel with nextId := s.wheel.nextId + 1 })
        (steady_taskFiled now t) (fun layer slot task htask ↦ hold (h.tasks layer slot task htask))
        place fun _ ↦ ⟨rfl, hcancelled ▸ hlive, hsign.imp ?_ ?_⟩
      · exact fun h0 ↦ ⟨h0, (honce _).2 (.inr ⟨rfl, h0⟩)⟩
      · exact fun hpos ↦ ⟨hpos, (hrepeating _).2 (.inr ⟨rfl, hpos⟩)⟩
    · refine Finset.disjoint_left.2 fun x hx hx' ↦ ?_
      rcases (honce x).1 hx with hx | ⟨hid, h0⟩ <;>
        rcases (hrepeating x).1 hx' with hx' | ⟨hid', hpos⟩
      · exact Finset.disjoint_left.1 h.disjoint hx hx'
      · exact hnew (Finset.mem_union_left _ (hid' ▸ hx))
      · exact hnew (Finset.mem_union_right _ (hid ▸ hx'))
      · omega
    · rw [hwheel]
      rw [hall] at hx
      rcases Finset.mem_insert.1 hx with rfl | hx
      · exact Nat.lt_succ_self _
      · exact Nat.lt_succ_of_lt (h.lt x hx)
    · rw [hcancelled, hall]
      exact h.cancelled.trans (Finset.subset_insert _ _)
    · rw [hfirings]
      rw [hwheel] at hx
      exact h.fresh x (Nat.le_of_succ_le hx)
    · rw [hfirings]
      rw [hcancelled] at huncancelled
      rcases (honce x).1 hx with hx | ⟨rfl, -⟩
      · exact hunfired x hx huncancelled
      · exact h.fresh _ le_rfl

/-- **A call that cancels a timer** takes its key out. -/
theorem Filed.cancelTimer (h : s.Filed) {handle : TimerHandle}
    (hexec : s.exec 0 (.cancelTimer handle) = .ok t) : t.Filed ∧ (s.Unfired → t.Unfired) := by
  cases Except.ok.inj hexec
  by_cases hcancels : handle.valid = true ∧ handle.id ∈ s.wheel.taskMap
  · obtain ⟨hvalid, hmem⟩ := hcancels
    have hadded : handle.id ∈ s.once ∪ s.repeating := by
      rw [h.taskMap] at hmem
      exact (Finset.mem_sdiff.1 hmem).1
    have hcancelled : (if handle.id ∈ s.once ∪ s.repeating then enter s.cancelled handle
        else s.cancelled) = insert handle.id s.cancelled := by
      rw [if_pos hadded, enter, if_pos hvalid]
    rw [hcancelled, TimerWheel.cancelTimer, if_pos hvalid, if_pos hmem]
    refine ⟨⟨?_, fun layer slot task htask ↦ ?_, h.disjoint, h.lt, ?_, h.fresh⟩,
      fun hunfired x hx huncancelled ↦
        hunfired x hx fun hx' ↦ huncancelled (Finset.mem_insert_of_mem hx')⟩
    · dsimp only
      rw [Finset.sdiff_insert, ← h.taskMap]
      rfl
    · have hmem' : task ∈ (s.wheel.setCancelled handle.id).tasks layer slot := htask
      rw [tasks_setCancelled] at hmem'
      obtain ⟨old, hold, rfl⟩ := List.mem_map.1 hmem'
      intro hlive
      split at hlive
      · cases hlive
      · next hne =>
        rw [if_neg hne]
        obtain ⟨hcallback, huncancelled, hof⟩ := h.tasks layer slot old hold hlive
        exact ⟨hcallback, fun hx ↦ (Finset.mem_insert.1 hx).elim hne huncancelled, hof⟩
    · exact Finset.insert_subset hadded h.cancelled
  · -- the key is not there, or the handle is not valid: nothing happens
    have hwheel : (s.wheel.cancelTimer handle).1 = s.wheel := by
      rw [TimerWheel.cancelTimer]
      split
      · next hvalid => rw [if_neg fun hmem ↦ hcancels ⟨hvalid, hmem⟩]
      · rfl
    refine h.congr hwheel rfl rfl ?_
    dsimp only
    split
    · next hadded =>
      rw [enter]
      split
      · next hvalid =>
        refine Finset.insert_eq_of_mem ?_
        by_contra hlive
        refine hcancels ⟨hvalid, ?_⟩
        rw [h.taskMap]
        exact Finset.mem_sdiff.2 ⟨hadded, hlive⟩
      · rfl
    · rfl

/-- **A tick** leaves the keys as they are. -/
theorem Filed.ticked (h : s.Filed) {fuel : ℕ} {now : ℤ} {w : TimerWheel Cb}
    (hok : s.wheel.tick fuel now = .ok w) :
    Filed { s with wheel := w, clock := now } ∧
      (s.Unfired → (Unfired { s with wheel := w, clock := now } ↔ s.NoneExpires (.tick now))) := by
  have hsteady := steady_taskFiled now s
  obtain ⟨hmap, hnext⟩ := taskMap_tick hsteady h.tasks (fun task htask hdue ↦ by
    obtain ⟨-, hlive, hof⟩ := htask hdue.1
    rw [h.taskMap, Finset.mem_sdiff, Finset.mem_union]
    exact ⟨hof.imp And.right And.right, hlive⟩) hok
  refine ⟨⟨hmap.trans h.taskMap, h.tasks.tick hsteady hok, h.disjoint, ?_, h.cancelled,
    fun x hx ↦ ?_⟩, fun hunfired ↦ ⟨fun hunfired' task htask hdue honce ↦ ?_,
      fun hnone x hx hlive ↦ ?_⟩⟩
  · intro x hx
    exact (h.lt x hx).trans_eq hnext.symm
  · have hge : s.wheel.nextId ≤ x := hnext ▸ hx
    have hne {task : TimerTask Cb} (htask : s.TaskFiled task) (hdue : Due task) : task.id ≠ x :=
      ((h.lt_of_due htask hdue).trans_le hge).ne
    exact (firings_tick_of_not_due (fun task htask hdue ↦ hne (h.tasks _ _ task htask) hdue)
      hok).trans (h.fresh x hge)
  · -- a timer that runs once and is due runs before the tick returns
    obtain ⟨hcallback, hlive, ⟨-, hx⟩ | ⟨hpos, -⟩⟩ := h.tasks _ _ task htask hdue.1
    · exact firings_tick_of_due htask hdue hcallback hok (hunfired' task.id hx hlive)
    · exact hpos.ne' honce
  · refine (firings_tick_of_not_due (fun task htask hdue hid ↦ ?_) hok).trans (hunfired x hx hlive)
    obtain ⟨-, -, ⟨h0, -⟩ | ⟨-, hrepeat⟩⟩ := h.tasks _ _ task htask hdue.1
    · exact hnone task htask hdue h0
    · rw [hid] at hrepeat
      exact Finset.disjoint_left.1 h.disjoint hx hrepeat

/-! ### Runs -/

theorem Filed.step (h : s.Filed) (hunfired : s.Unfired) {op : LedgerOp Cb}
    (hstep : usage.step s op t) : t.Filed ∧ (t.Unfired ↔ s.NoneExpires op) := by
  rcases usage_cases hstep with ⟨now, delayMs, interval, callback, -, hadds⟩ |
    ⟨handle, rfl, hexec⟩ | ⟨fuel, now, rfl, -, hok, ht⟩
  · have hadded : t.Filed ∧ (s.Unfired → t.Unfired) := by
      rcases hadds with ⟨-, hinterval, ht⟩ | ⟨-, hinterval, ht⟩
      · exact h.added (by rw [ht]) (by rw [ht]) (.inl ⟨hinterval, by rw [ht], by rw [ht]⟩)
      · exact h.added (by rw [ht]) (by rw [ht]) (.inr ⟨hinterval, by rw [ht], by rw [ht]⟩)
    have hnone : s.NoneExpires op := by
      rcases hadds with ⟨rfl, -, -⟩ | ⟨rfl, -, -⟩ <;> exact trivial
    exact ⟨hadded.1, iff_of_true (hadded.2 hunfired) hnone⟩
  · obtain ⟨hfiled, hkeep⟩ := h.cancelTimer hexec
    exact ⟨hfiled, iff_of_true (hkeep hunfired) trivial⟩
  · obtain ⟨hfiled, hiff⟩ := h.ticked hok
    rw [← ht] at hfiled hiff
    exact ⟨hfiled, hiff hunfired⟩

theorem deterministic_usage : (usage : System (Ledger Cb) (LedgerOp Cb)).Deterministic :=
  fun _ _ _ _ ↦ usage_unique

/-- **When the map holds the pending timers.**  However a wheel is used: after every operation the
keys of the map are the ids of the timers that have been added and neither been cancelled nor, for
those that run once, run, if and only if no tick finds a timer due that runs once. -/
theorem taskMap_iff {clock : ℤ} {ops : List (LedgerOp Cb)}
    (hrun : usage.Run (init tick S layers clock) ops s) :
    usage.Along (fun _ _ t ↦ t.wheel.taskMap = t.pending) (init tick S layers clock) ops ↔
      (usage.guarded NoneExpires).Run (init tick S layers clock) ops s := by
  refine System.along_iff_of_deterministic deterministic_usage (P := fun s ↦ s.Filed ∧ s.Unfired)
    ?_ ?_ ⟨filed_init tick S layers clock, fun _ _ _ ↦ rfl⟩ hrun
  · rintro s op t ⟨hfiled, hunfired⟩ hstep
    obtain ⟨hfiled', hiff⟩ := hfiled.step hunfired hstep
    exact hfiled'.taskMap_eq_pending_iff.trans hiff
  · rintro s op t ⟨hfiled, hunfired⟩ hstep hexact
    obtain ⟨hfiled', -⟩ := hfiled.step hunfired hstep
    exact ⟨hfiled', hfiled'.taskMap_eq_pending_iff.1 hexact⟩

/-- A repeat timer runs, and its key stays: the map is exact all the time. -/
theorem taskMap_repeat :
    ∃ s : Ledger Unit,
      usage.Run (init 100 60 4 0) [.addRepeatTimer 0 100 (some ()), .tick 100, .tick 200] s ∧
      s.wheel.firings 1 = [200] ∧
      usage.Along (fun _ _ t ↦ t.wheel.taskMap = t.pending) (init 100 60 4 0 : Ledger Unit)
        [.addRepeatTimer 0 100 (some ()), .tick 100, .tick 200] := by
  obtain ⟨s, hguarded, hfirings⟩ : ∃ s, (usage.guarded NoneExpires).Run
      (init 100 60 4 0 : Ledger Unit) [.addRepeatTimer 0 100 (some ()), .tick 100, .tick 200] s ∧
      s.wheel.firings 1 = [200] := by
    refine ⟨_, .cons ⟨trivial, le_rfl, 0, rfl⟩ (.cons ⟨fun task htask ↦
      absurd htask List.not_mem_nil, (by decide : (0 : ℤ) ≤ 100), 1, rfl⟩
      (.single ⟨fun task htask _ ↦ ?_, (by decide : (100 : ℤ) ≤ 200), 2, rfl⟩)), rfl⟩
    rw [List.mem_singleton.1 htask]
    decide
  exact ⟨s, hguarded.of_guarded, hfirings, (taskMap_iff hguarded.of_guarded).2 hguarded⟩

/-- A timer that runs once has run, and its key is still there. -/
theorem key_left_behind :
    ∃ s : Ledger Unit,
      usage.Run (init 100 60 4 0) [.addTimer 0 100 (some ()), .tick 100, .tick 200] s ∧
      s.wheel.firings 1 = [200] ∧ s.wheel.taskMap = {1} ∧ s.pending = ∅ := by
  refine ⟨_, .cons ⟨le_rfl, 0, rfl⟩ (.cons ⟨(by decide : (0 : ℤ) ≤ 100), 1, rfl⟩
    (.single ⟨(by decide : (100 : ℤ) ≤ 200), 2, rfl⟩)), rfl, ?_, ?_⟩ <;> decide

end Ledger

end Core
end ChwellCore
