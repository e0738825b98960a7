import ChwellCore.Core.TimerDrive

/-!
# No timer is lost and none is there twice

A task is in one slot of one layer, and it moves: a cascade puts it elsewhere, perhaps back into the
slot that is being emptied; a walk along a slot counts its rounds; a repeat timer that runs is
copied to another slot.  And `tick` may be called at any time, late or much too often, so a task can
be anywhere by the time it is due.

None of this matters.  `Lives` says that a timer has exactly one task, and `Spent` that it has none
that could still run.  A timer begins its life with the first; every operation keeps it, unless it
is the walk that runs a timer for the one time it is to be run, or the call that cancels it; and
nothing brings a spent timer back (`Standing.step`).  `conserved` is what this means for callers.
-/

set_option autoImplicit false

namespace ChwellCore
namespace Core

open TimerWheel Driven

variable {Cb : Type}

namespace TimerWheel

/-- Timer `x` has one task in the whole wheel, and `cancel_timer` can find it. -/
structure Lives (S layers x : ℕ) (interval : ℤ) (w : TimerWheel Cb) : Prop where
  mem_taskMap : x ∈ w.taskMap
  heldAt : ∃ layer slot task, (layer < layers ∧ slot < S) ∧ w.HeldAt x layer slot task ∧
    task.id = x ∧ task.cancelled = false ∧ task.callback.isSome ∧ task.interval = interval

/-- Timer `x` has no task that could run. -/
def Spent (x : ℕ) (w : TimerWheel Cb) : Prop :=
  ∀ layer slot, ∀ task ∈ w.held x layer slot, task.cancelled = true

variable {tick S layers x : ℕ} {w : TimerWheel Cb}

theorem mem_held {layer slot : ℕ} {task : TimerTask Cb} :
    task ∈ w.held x layer slot ↔ task ∈ w.tasks layer slot ∧ task.id = x := by
  rw [held, List.mem_filter, decide_eq_true_eq]

/-! ## What stays in the map -/

theorem taskMap_run (now : ℤ) (task : TimerTask Cb) : (w.run now task).taskMap = w.taskMap := by
  rw [run]
  split <;> rfl

theorem taskMap_addTaskToWheel (now : ℤ) (task : TimerTask Cb) :
    (w.addTaskToWheel now task).taskMap = w.taskMap := by
  simp only [addTaskToWheel]
  split <;> rfl

theorem taskMap_subset_visit (now : ℤ) (task : TimerTask Cb) :
    w.taskMap ⊆ (w.visit now task).taskMap := by
  rw [visit]
  split
  · rw [taskMap_run, readd]
    split
    · rw [register, taskMap_addTaskToWheel]
      exact Finset.subset_insert _ _
    · exact subset_rfl
  · exact subset_rfl

theorem taskMap_subset_sweep (now : ℤ) : w.taskMap ⊆ (w.sweep now).taskMap := by
  have hfoldl (todo : List (TimerTask Cb)) (w' : TimerWheel Cb) :
      w'.taskMap ⊆ (todo.foldl (visit now) w').taskMap := by
    induction todo generalizing w' with
    | nil => exact subset_rfl
    | cons task rest ih => exact (taskMap_subset_visit now task).trans (ih _)
  exact hfoldl _ w

theorem taskMap_cascade (now : ℤ) (layer : ℕ) : (w.cascade now layer).taskMap = w.taskMap := by
  obtain ⟨wheels, hwheels⟩ := exists_wheels_cascade (w := w) now layer
  rw [hwheels]

theorem taskMap_stage (S : ℕ) (now : ℤ) (layer : ℕ) :
    (w.stage S now layer).taskMap = w.taskMap := by
  rw [stage]
  split
  · exact taskMap_cascade now layer
  · rfl

/-! ## The walk along a slot -/

section Walk

variable (htick : 1 ≤ tick) (hS : 1 ≤ S) (hlayers : 2 ≤ layers) (hw : Shaped tick S layers w)
  (now : ℤ)

include htick hS hlayers hw

/-- A repeat timer that is due is found in one other slot afterwards. -/
theorem heldAt_sweep_of_repeats {task : TimerTask Cb}
    (hheld : w.HeldAt x 0 (w.currentSlot 0) task) (hid : task.id = x) (hdue : Due task)
    (hinterval : tick ≤ task.interval) :
    (w.sweep now).HeldAt x (placeFor tick S layers w.currentSlot task.interval).layer
      (placeFor tick S layers w.currentSlot task.interval).slot
      { task with
        expireTime := now + task.interval
        roundsLeft := (placeFor tick S layers w.currentSlot task.interval).rounds } := by
  have hfilter : (w.tasks 0 (w.currentSlot 0)).filter (·.id = x) = [task] :=
    (hheld 0 (w.currentSlot 0)).trans (if_pos ⟨rfl, rfl⟩)
  obtain ⟨before, after, hsplit, hbefore, -, hafter⟩ := List.filter_eq_cons_iff.1 hfilter
  have hbefore' : ∀ t ∈ before, t.id = x → Due t → t.interval = 0 := fun t ht htx ↦
    absurd (decide_eq_true htx) (hbefore t ht)
  have hafter' : ∀ t ∈ after, t.id = x → Due t → t.interval = 0 := fun t ht htx ↦
    absurd (decide_eq_true htx) (List.filter_eq_nil_iff.1 hafter t ht)
  have hrepeat : 0 < task.interval := by omega
  have hkeep : keep task = none := by
    rw [keep, if_neg (by simp [hdue.1]), if_neg (by simp [hdue.2])]
  obtain ⟨hw₁, hcur₁⟩ := shaped_foldl_visit hw now before
  have hheld₁ := held_foldl_visit htick hS hlayers hw now hbefore'
  obtain ⟨hshaped, -⟩ := shaped_foldl_visit hw now (w.tasks 0 (w.currentSlot 0))
  have hplayer : (placeFor tick S layers w.currentSlot task.interval).layer < layers :=
    placeFor_layer_lt (by omega) _ _
  have hpslot : (placeFor tick S layers w.currentSlot task.interval).slot < S :=
    placeFor_slot_lt hS _ _
  have hne := placeFor_ne_of_tick_le htick hlayers (hw.currentSlot_lt (show 0 < layers by omega))
    hinterval
  intro layer slot
  rw [sweep, held_modifySlot hshaped (by omega) (hw.currentSlot_lt (by omega)),
    filter_filterMap_keep, hfilter, List.filterMap_cons_none hkeep, List.filterMap_nil, hsplit,
    List.foldl_append, List.foldl_cons,
    held_foldl_visit htick hS hlayers (hw₁.visit now task) now hafter', visit,
    if_pos hdue, held_of_tasks (tasks_of_wheels (wheels_run now task)),
    readd_eq hw₁ htick hS hlayers, if_pos hrepeat, held_of_tasks (tasks_register _), push,
    hcur₁, held_modifySlot hw₁ hplayer hpslot]
  split
  · next hhere =>
    rw [if_neg]
    rintro ⟨hlayer', hslot'⟩
    exact hne ⟨hlayer'.trans hhere.1.symm, hslot'.trans hhere.2.symm⟩
  · next hhere =>
    split
    · next hplace =>
      have hempty : (before.foldl (visit now) w).held x
          (placeFor tick S layers w.currentSlot task.interval).layer
          (placeFor tick S layers w.currentSlot task.interval).slot = [] := by
        rw [hheld₁, hheld, if_neg]
        rintro ⟨hlayer', hslot'⟩
        exact hne ⟨hlayer'.symm, hslot'.symm⟩
      rw [held] at hempty
      rw [List.filter_append, hempty]
      simp [hid]
    · rw [hheld₁, hheld, if_neg hhere]

theorem Spent.sweep (hspent : w.Spent x) : (w.sweep now).Spent x := by
  intro layer slot task htask
  rw [held_sweep htick hS hlayers hw now fun task' htask' hid hdue ↦ by
    have := hspent 0 _ task' (mem_held.2 ⟨htask', hid⟩)
    rw [hdue.1] at this
    cases this] at htask
  split at htask
  · obtain ⟨task', htask', hkeep⟩ := List.mem_filterMap.1 htask
    rw [keep, if_pos (hspent _ _ task' htask')] at hkeep
    cases hkeep
  · exact hspent layer slot task htask

/-- **What the walk can do to a timer**: if it has a task then it has one afterwards, unless it runs
a timer that is to run once. -/
theorem Lives.sweep {interval : ℤ} (hlives : w.Lives S layers x interval)
    (hinterval : interval = 0 ∨ tick ≤ interval) :
    ((w.sweep now).Lives S layers x interval ∧
        (interval = 0 → (w.sweep now).firings x = w.firings x)) ∨
      interval = 0 ∧ (w.sweep now).Spent x ∧ (w.sweep now).firings x = w.firings x ++ [now] := by
  obtain ⟨hmap, layer, slot, task, ⟨hlayer, hslot⟩, hheld, hid, hlive, hcallback, rfl⟩ := hlives
  have hmap' := taskMap_subset_sweep now hmap
  have hfirings := firings_sweep (w := w) (x := x) now
  -- the tasks of `x` that the walk comes to
  have honly {t : TimerTask Cb} (ht : t ∈ w.tasks 0 (w.currentSlot 0)) (htx : t.id = x) :
      (layer = 0 ∧ slot = w.currentSlot 0) ∧ t = task := by
    have hmem := mem_held.2 ⟨ht, htx⟩
    rw [hheld] at hmem
    split at hmem
    · next hhere => exact ⟨hhere, List.mem_singleton.1 hmem⟩
    · cases hmem
  by_cases hhere : layer = 0 ∧ slot = w.currentSlot 0
  · obtain ⟨rfl, rfl⟩ := hhere
    have hzero : w.held x 0 (w.currentSlot 0) = [task] := (hheld _ _).trans (if_pos ⟨rfl, rfl⟩)
    by_cases hdue : Due task
    · rcases hinterval with honce | hrepeat
      · refine .inr ⟨honce, fun layer' slot' t ht ↦ ?_, ?_⟩
        · have hkeep : keep task = none := by
            rw [keep, if_neg (by simp [hdue.1]), if_neg (by simp [hdue.2])]
          rw [held_sweep htick hS hlayers hw now fun t ht htx _ ↦ (honly ht htx).2 ▸ honce, hzero,
            List.filterMap_cons_none hkeep, hheld] at ht
          split at ht <;> cases ht
        · rw [hfirings, hzero]
          simp [hdue, hcallback]
      · refine .inl ⟨⟨hmap', _, _, _, ⟨placeFor_layer_lt (by omega) _ _, placeFor_slot_lt hS _ _⟩,
          heldAt_sweep_of_repeats htick hS hlayers hw now hheld hid hdue hrepeat, hid, hlive,
          hcallback, rfl⟩, fun honce ↦ ?_⟩
        rw [honce] at hrepeat
        omega
    · -- a round less to wait
      have hrounds : 0 < task.roundsLeft := by
        by_contra hnot
        exact hdue ⟨hlive, by omega⟩
      refine .inl ⟨⟨hmap', 0, w.currentSlot 0, { task with roundsLeft := task.roundsLeft - 1 },
        ⟨hlayer, hslot⟩, fun layer' slot' ↦ ?_, hid, hlive, hcallback, rfl⟩, fun _ ↦ ?_⟩
      · have hkeep : keep task = some { task with roundsLeft := task.roundsLeft - 1 } := by
          rw [keep, if_neg (by simp [hlive]), if_pos hrounds]
        rw [held_sweep htick hS hlayers hw now fun t ht htx hd ↦
          absurd ((honly ht htx).2 ▸ hd) hdue, hzero, List.filterMap_cons_some hkeep, hheld]
        split <;> rfl
      · rw [hfirings, hzero]
        simp [hdue]
  · -- the walk goes along another slot
    have hzero : w.held x 0 (w.currentSlot 0) = [] := (hheld _ _).trans (if_neg hhere)
    refine .inl ⟨⟨hmap', layer, slot, task, ⟨hlayer, hslot⟩, fun layer' slot' ↦ ?_, hid, hlive,
      hcallback, rfl⟩, fun _ ↦ ?_⟩
    · rw [held_sweep htick hS hlayers hw now fun t ht htx ↦ absurd (honly ht htx).1 hhere, hzero,
        ← hheld]
      split
      · next heq => rw [← heq.1, ← heq.2, hzero, List.filterMap_nil]
      · rfl
    · rw [hfirings, hzero]
      exact List.append_nil _

/-! ## The wheels above -/

/-- A cascade moves the one task of a timer, or it leaves it where it is. -/
theorem Lives.stage {interval : ℤ} (hlives : w.Lives S layers x interval) {layer : ℕ}
    (hpos : 0 < layer) (hlayer : layer < layers) :
    (w.stage S now layer).Lives S layers x interval := by
  obtain ⟨hmap, layer', slot, task, hplace, hheld, hid, hlive, hcallback, rfl⟩ := hlives
  have hmap' : x ∈ (w.stage S now layer).taskMap := by
    rw [taskMap_stage]
    exact hmap
  by_cases hmoves : Odometer.value S w.currentSlot layer = 0 ∧ layer' = layer ∧
      slot = w.currentSlot layer
  · obtain ⟨hround, rfl, rfl⟩ := hmoves
    refine ⟨hmap', _, _,
      { task with roundsLeft := (cascadePlace tick S layers w.currentSlot now task).rounds },
      cascadePlace_lt hS hlayers hw now task, fun layer slot ↦ ?_, hid, hlive, hcallback, rfl⟩
    rw [TimerWheel.stage, if_pos hround, turn, held_of_tasks (tasks_moveOn _)]
    exact heldAt_cascade htick hS hlayers hw now hpos hlayer hid hlive hheld layer slot
  · refine ⟨hmap', layer', slot, task, hplace, ?_, hid, hlive, hcallback, rfl⟩
    intro layer'' slot''
    rw [held_stage_of_nil htick hS hlayers hw now hpos hlayer fun hround ↦ ?_]
    · exact hheld layer'' slot''
    · rw [hheld, if_neg fun hhere ↦ hmoves ⟨hround, hhere⟩]

theorem Spent.stage (hspent : w.Spent x) {layer : ℕ} (hpos : 0 < layer) (hlayer : layer < layers) :
    (w.stage S now layer).Spent x := by
  rw [TimerWheel.stage]
  split
  · intro layer' slot task htask
    rw [turn, held_of_tasks (tasks_moveOn _),
      held_cascade_of_cancelled htick hS hlayers hw now hpos hlayer (hspent _ _)] at htask
    split at htask
    · cases htask
    · exact hspent layer' slot task htask
  · exact hspent

/-! ## A whole tick -/

theorem Spent.ticking (hspent : w.Spent x) {n : ℕ} (hn : n < layers) :
    (w.ticking S n now).Spent x ∧ (w.ticking S n now).firings x = w.firings x := by
  refine ⟨?_, ?_⟩
  · induction n with
    | zero =>
      intro layer slot
      rw [TimerWheel.ticking, stages, held_of_tasks (tasks_moveOn _)]
      exact hspent.sweep htick hS hlayers hw now layer slot
    | succ n ih =>
      rw [ticking_succ]
      exact (ih (by omega)).stage htick hS hlayers
        (shaped_ticking hw now _) now (Nat.succ_pos n) hn
  · have hdue : ∀ task ∈ w.held x 0 (w.currentSlot 0), ¬ Due task := by
      intro task htask hdue
      have := hspent _ _ task htask
      rw [hdue.1] at this
      cases this
    rw [firings_ticking,
      List.flatMap_eq_nil_iff.2 fun task htask ↦ if_neg fun h ↦ hdue task htask h.1,
      List.append_nil]

/-- **What a tick can do to a timer.** -/
theorem Lives.ticking {interval : ℤ} (hlives : w.Lives S layers x interval)
    (hinterval : interval = 0 ∨ tick ≤ interval) {n : ℕ} (hn : n < layers) :
    ((w.ticking S n now).Lives S layers x interval ∧
        (interval = 0 → (w.ticking S n now).firings x = w.firings x)) ∨
      interval = 0 ∧ (w.ticking S n now).Spent x ∧
        (w.ticking S n now).firings x = w.firings x ++ [now] := by
  induction n with
  | zero =>
    have hheld : ((w.sweep now).moveOn 0).held x = (w.sweep now).held x :=
      held_of_tasks (tasks_moveOn 0)
    rcases hlives.sweep htick hS hlayers hw now hinterval with
      ⟨⟨hmap, layer, slot, task, hplace, hat, htask⟩, hfirings⟩ | ⟨honce, hspent, hfirings⟩
    · refine .inl ⟨⟨hmap, layer, slot, task, hplace, fun layer' slot' ↦ ?_, htask⟩, hfirings⟩
      rw [TimerWheel.ticking, stages, hheld]
      exact hat layer' slot'
    · refine .inr ⟨honce, fun layer slot ↦ ?_, hfirings⟩
      rw [TimerWheel.ticking, stages, hheld]
      exact hspent layer slot
  | succ n ih =>
    have hshaped := shaped_ticking hw now n
    rw [ticking_succ, firings_stage]
    rcases ih (by omega) with ⟨hlives', hfirings⟩ | ⟨honce, hspent, hfirings⟩
    · exact .inl ⟨hlives'.stage htick hS hlayers hshaped now (Nat.succ_pos n) hn, hfirings⟩
    · exact .inr ⟨honce, hspent.stage htick hS hlayers hshaped now (Nat.succ_pos n) hn, hfirings⟩

end Walk

end TimerWheel

/-! ## A ledger of timers -/

/-- What is done with a wheel, and when. -/
inductive LedgerOp (Cb : Type) where
  | addTimer (now delayMs : ℤ) (callback : Option Cb)
  | addRepeatTimer (now intervalMs : ℤ) (callback : Option Cb)
  | cancelTimer (handle : TimerHandle)
  | tick (now : ℤ)

/-- A wheel, the time of the last call, and who has been added and cancelled so far. -/
structure Ledger (Cb : Type) where
  wheel : TimerWheel Cb
  clock : ℤ
  once : Finset ℕ := ∅
  repeating : Finset ℕ := ∅
  cancelled : Finset ℕ := ∅

namespace Ledger

/-- The timers, with that of a handle if a call has given one out. -/
def enter (timers : Finset ℕ) (handle : TimerHandle) : Finset ℕ :=
  if handle.valid then insert handle.id timers else timers

/-- One operation, where a tick gets so many steps.  Only a timer that has been added can be
cancelled. -/
def exec (fuel : ℕ) (s : Ledger Cb) : LedgerOp Cb → Except Halt (Ledger Cb)
  | .addTimer now delayMs callback =>
    let r := s.wheel.addTimer now delayMs callback
    .ok { s with wheel := r.1, clock := now, once := enter s.once r.2 }
  | .addRepeatTimer now intervalMs callback =>
    let r := s.wheel.addRepeatTimer now intervalMs callback
    .ok { s with wheel := r.1, clock := now, repeating := enter s.repeating r.2 }
  | .cancelTimer handle =>
    .ok { s with
      wheel := (s.wheel.cancelTimer handle).1
      cancelled :=
        if handle.id ∈ s.once ∪ s.repeating then enter s.cancelled handle else s.cancelled }
  | .tick now => (s.wheel.tick fuel now).map fun wheel ↦ { s with wheel := wheel, clock := now }

/-- The clock does not go back, and no repeat timer is shorter than a tick. -/
def Allowed (tick : ℕ) (s : Ledger Cb) : LedgerOp Cb → Prop
  | .addTimer now _ _ => s.clock ≤ now
  | .addRepeatTimer now intervalMs _ => s.clock ≤ now ∧ ¬ (0 < intervalMs ∧ intervalMs < tick)
  | .cancelTimer _ => True
  | .tick now => s.clock ≤ now

/-- The wheel under operations that return. -/
def system (tick : ℕ) : System (Ledger Cb) (LedgerOp Cb) :=
  ⟨fun s op t ↦ s.Allowed tick op ∧ ∃ fuel, s.exec fuel op = .ok t⟩

/-- A new wheel at some time. -/
def init (tick S layers : ℕ) (clock : ℤ) : Ledger Cb := { wheel := .new tick S layers, clock }

/-- The state of a timer that has been added: it is waiting, or it has run or been cancelled.  A
timer that runs once has interval 0. -/
inductive Standing (S layers x : ℕ) (interval : ℤ) (s : Ledger Cb) : Prop
  | lives (lives : s.wheel.Lives S layers x interval) (uncancelled : x ∉ s.cancelled)
    (unfired : interval = 0 → s.wheel.firings x = [])
  | spent (spent : s.wheel.Spent x) (firings : interval = 0 → (s.wheel.firings x).length ≤ 1)
    (cause : x ∈ s.cancelled ∨ interval = 0 ∧ s.wheel.firings x ≠ [])

/-- **What holds in every run.** -/
structure Account (tick S layers : ℕ) (s : Ledger Cb) : Prop where
  sound : Sound tick S layers s.wheel
  quiet : Quiet tick s.wheel
  once_lt : ∀ x ∈ s.once, x < s.wheel.nextId
  repeating_lt : ∀ x ∈ s.repeating, x < s.wheel.nextId
  cancelled_subset : s.cancelled ⊆ s.once ∪ s.repeating
  once : ∀ x ∈ s.once, s.Standing S layers x 0
  repeating : ∀ x ∈ s.repeating, ∃ interval : ℤ, tick ≤ interval ∧ s.Standing S layers x interval

/-! ### What the operations do to one timer -/

variable {tick S layers x : ℕ} {interval : ℤ} {s t : Ledger Cb}

theorem mem_enter {timers : Finset ℕ} {handle : TimerHandle} :
    x ∈ enter timers handle ↔ x ∈ timers ∨ handle.valid = true ∧ x = handle.id := by
  rw [enter]
  split
  · next hvalid => simp [hvalid, or_comm]
  · next hvalid => simp [hvalid]

/-- What is done with other timers does not matter. -/
theorem Standing.of_untouched (h : s.Standing S layers x interval)
    (hsame : Untouched tick S layers x s.wheel t.wheel)
    (hmap : x ∈ s.wheel.taskMap → x ∈ t.wheel.taskMap)
    (hcancelled : x ∈ t.cancelled ↔ x ∈ s.cancelled) : t.Standing S layers x interval := by
  cases h with
  | lives lives uncancelled unfired =>
    obtain ⟨hmem, layer, slot, task, hplace, hheld, htask⟩ := lives
    refine .lives ⟨hmap hmem, layer, slot, task, hplace, fun layer' slot' ↦ ?_, htask⟩
      (fun hx ↦ uncancelled (hcancelled.1 hx)) ?_
    · rw [hsame.held]
      exact hheld layer' slot'
    · rw [hsame.firings]
      exact unfired
  | spent spent firings cause =>
    rw [← hsame.firings] at firings cause
    rw [← hcancelled] at cause
    refine .spent (fun layer slot ↦ ?_) firings cause
    rw [hsame.held]
    exact spent layer slot

theorem firings_cancelTimer (w : TimerWheel Cb) (handle : TimerHandle) :
    (w.cancelTimer handle).1.firings x = w.firings x := by
  rw [cancelTimer]
  split
  · split <;> rfl
  · rfl

/-- A timer that is cancelled does not run any more. -/
theorem spent_cancelTimer {w : TimerWheel Cb} {handle : TimerHandle} (hvalid : handle.valid = true)
    (h : handle.id ∈ w.taskMap ∨ w.Spent handle.id) :
    (w.cancelTimer handle).1.Spent handle.id := by
  rw [cancelTimer, if_pos hvalid]
  split
  · intro layer slot task htask
    have hmem : task ∈ (w.setCancelled handle.id).held handle.id layer slot := htask
    rw [held_setCancelled] at hmem
    obtain ⟨task', htask', rfl⟩ := List.mem_map.1 hmem
    rw [if_pos (mem_held.1 htask').2]
  · next hmap => exact h.resolve_left hmap

theorem mem_taskMap_cancelTimer {w : TimerWheel Cb} {handle : TimerHandle} (hne : handle.id ≠ x)
    (hx : x ∈ w.taskMap) : x ∈ (w.cancelTimer handle).1.taskMap := by
  rw [cancelTimer]
  split
  · split
    · exact Finset.mem_erase_of_ne_of_mem hne.symm hx
    · exact hx
  · exact hx

theorem Standing.cancelTimer (h : s.Standing S layers x interval)
    (hw : Shaped tick S layers s.wheel) (hx : x ∈ s.once ∪ s.repeating) {handle : TimerHandle}
    (hstep : s.exec 0 (.cancelTimer handle) = .ok t) : t.Standing S layers x interval := by
  cases Except.ok.inj hstep
  by_cases hcancels : handle.valid = true ∧ handle.id = x
  · obtain ⟨hvalid, rfl⟩ := hcancels
    refine .spent (spent_cancelTimer hvalid ?_) ?_ (.inl ?_)
    · cases h with
      | lives lives => exact .inl lives.mem_taskMap
      | spent spent => exact .inr spent
    · dsimp only
      rw [firings_cancelTimer]
      cases h with
      | lives _ _ unfired => exact fun h0 ↦ by simp [unfired h0]
      | spent _ firings => exact firings
    · dsimp only
      rw [if_pos hx]
      exact mem_enter.2 (.inr ⟨hvalid, rfl⟩)
  · have hcancelled : x ∈ (if handle.id ∈ s.once ∪ s.repeating then enter s.cancelled handle
        else s.cancelled) ↔ x ∈ s.cancelled := by
      split
      · exact mem_enter.trans (or_iff_left fun hc ↦ hcancels ⟨hc.1, hc.2.symm⟩)
      · rfl
    by_cases hvalid : handle.valid = true
    · have hne : handle.id ≠ x := fun heq ↦ hcancels ⟨hvalid, heq⟩
      exact h.of_untouched (untouched_cancelTimer hw hne) (mem_taskMap_cancelTimer hne) hcancelled
    · have hsame : (s.wheel.cancelTimer handle).1 = s.wheel := by
        rw [TimerWheel.cancelTimer, if_neg hvalid]
      have huntouched : Untouched tick S layers x s.wheel (s.wheel.cancelTimer handle).1 := by
        rw [hsame]
        exact .refl hw
      refine h.of_untouched huntouched (fun hmap ↦ ?_) hcancelled
      dsimp only
      rwa [hsame]

section Steps

variable (htick : 1 ≤ tick) (hS : 1 ≤ S) (hlayers : 2 ≤ layers)

include htick hS hlayers

theorem Standing.ticking (h : s.Standing S layers x interval) (hw : Shaped tick S layers s.wheel)
    (hinterval : interval = 0 ∨ tick ≤ interval) (now : ℤ) {n : ℕ} (hn : n < layers) :
    Standing S layers x interval
      { s with wheel := s.wheel.ticking S n now, clock := now } := by
  cases h with
  | lives lives uncancelled unfired =>
    rcases lives.ticking htick hS hlayers hw now hinterval hn with
      ⟨lives', hfirings⟩ | ⟨honce, hspent, hfirings⟩
    · exact .lives lives' uncancelled fun h0 ↦ (hfirings h0).trans (unfired h0)
    · rw [unfired honce] at hfirings
      refine .spent hspent (fun _ ↦ ?_) (.inr ⟨honce, ?_⟩)
      · rw [hfirings]
        exact le_rfl
      · rw [hfirings]
        exact List.cons_ne_nil _ _
  | spent spent firings cause =>
    obtain ⟨hspent, hfirings⟩ := spent.ticking htick hS hlayers hw now hn
    rw [← hfirings] at firings cause
    exact .spent hspent firings cause

/-- Timers that are there already do not notice a new one. -/
theorem Standing.addTask (h : s.Standing S layers x interval) (hw : Shaped tick S layers s.wheel)
    (hx : x < s.wheel.nextId) {now delayMs interval' : ℤ} {callback : Option Cb}
    (hwheel : t.wheel = (s.wheel.addTask now delayMs interval' callback).1)
    (hcancelled : t.cancelled = s.cancelled) : t.Standing S layers x interval := by
  have hsame := untouched_addTask htick hS hlayers hw hx.ne' now delayMs interval' callback
  rw [← hwheel] at hsame
  refine h.of_untouched hsame (fun hmap ↦ ?_) (by rw [hcancelled])
  rw [hwheel, TimerWheel.addTask]
  split
  · exact hmap
  · refine Finset.mem_insert_of_mem ?_
    rwa [taskMap_addTaskToWheel]

/-- **A new timer has one task.** -/
theorem standing_new (hsound : Sound tick S layers s.wheel) {now delayMs : ℤ}
    {callback : Option Cb}
    (hvalid : (s.wheel.addTask now delayMs interval callback).2.valid = true)
    (hwheel : t.wheel = (s.wheel.addTask now delayMs interval callback).1)
    (hcancelled : s.wheel.nextId ∉ t.cancelled) :
    (s.wheel.addTask now delayMs interval callback).2.id = s.wheel.nextId ∧
      s.wheel.nextId < t.wheel.nextId ∧ t.Standing S layers s.wheel.nextId interval := by
  by_cases hok : delayMs ≤ 0 ∨ callback = none
  · rw [TimerWheel.addTask, if_pos hok] at hvalid
    cases hvalid
  obtain ⟨hdelay, hcallback⟩ := not_or.1 hok
  obtain ⟨callback, rfl⟩ := Option.ne_none_iff_exists'.1 hcallback
  have hpos : 0 < delayMs := by omega
  have hadded := added_addTask htick hS hlayers hsound now interval hpos callback
  rw [← hwheel] at hadded
  refine ⟨by rw [TimerWheel.addTask, if_neg hok], hadded.lt, .lives ⟨?_, _, _, _,
    ⟨placeFor_layer_lt (by omega) _ _, placeFor_slot_lt hS _ _⟩, hadded.held, rfl, rfl, rfl, rfl⟩
    hcancelled fun _ ↦ hadded.firings⟩
  rw [hwheel, addTask_eq hsound.shaped htick hS hlayers now interval hpos callback]
  exact Finset.mem_insert_self _ _

/-- A call that adds a timer, or that is rejected. -/
theorem Account.added (h : s.Account tick S layers) {now delayMs : ℤ} {callback : Option Cb}
    (hinterval : ¬ (0 < interval ∧ interval < tick))
    (hwheel : t.wheel = (s.wheel.addTask now delayMs interval callback).1)
    (hcancelled : t.cancelled = s.cancelled)
    (hsubset : s.once ∪ s.repeating ⊆ t.once ∪ t.repeating)
    (honce : ∀ x ∈ t.once, x ∈ s.once ∨
      ((s.wheel.addTask now delayMs interval callback).2.valid = true ∧
        x = (s.wheel.addTask now delayMs interval callback).2.id) ∧ interval = 0)
    (hrepeating : ∀ x ∈ t.repeating, x ∈ s.repeating ∨
      ((s.wheel.addTask now delayMs interval callback).2.valid = true ∧
        x = (s.wheel.addTask now delayMs interval callback).2.id) ∧ tick ≤ interval) :
    t.Account tick S layers := by
  have hsound := h.sound.addTask htick hS hlayers now delayMs interval callback
  have hgrow := (untouched_addTask htick hS hlayers h.sound.shaped
    (Nat.succ_ne_self s.wheel.nextId).symm now delayMs interval callback).nextId
  have hquiet : Quiet tick (s.wheel.addTask now delayMs interval callback).1 :=
    h.quiet.allTasks.addTask (steady_restless tick now) fun _ _ ↦ hinterval
  rw [← hwheel] at hsound hgrow hquiet
  have hold {x : ℕ} {i : ℤ} (hx : x < s.wheel.nextId) (hstanding : s.Standing S layers x i) :
      t.Standing S layers x i :=
    hstanding.addTask htick hS hlayers h.sound.shaped hx hwheel hcancelled
  -- the id of the new timer is nobody else's
  have hfresh : s.wheel.nextId ∉ t.cancelled := by
    rw [hcancelled]
    intro hmem
    rcases Finset.mem_union.1 (h.cancelled_subset hmem) with hmem | hmem
    · exact lt_irrefl _ (h.once_lt _ hmem)
    · exact lt_irrefl _ (h.repeating_lt _ hmem)
  have hnew {x : ℕ} (hx : (s.wheel.addTask now delayMs interval callback).2.valid = true ∧
      x = (s.wheel.addTask now delayMs interval callback).2.id) :
      x < t.wheel.nextId ∧ t.Standing S layers x interval := by
    obtain ⟨hid, hlt, hstanding⟩ := standing_new htick hS hlayers h.sound hx.1 hwheel hfresh
    rw [hx.2, hid]
    exact ⟨hlt, hstanding⟩
  refine ⟨hsound, hquiet, fun x hx ↦ ?_, fun x hx ↦ ?_, ?_, fun x hx ↦ ?_, fun x hx ↦ ?_⟩
  · exact (honce x hx).elim (fun hx ↦ (h.once_lt x hx).trans_le hgrow) fun hx ↦ (hnew hx.1).1
  · exact (hrepeating x hx).elim (fun hx ↦ (h.repeating_lt x hx).trans_le hgrow) fun hx ↦
      (hnew hx.1).1
  · rw [hcancelled]
    exact h.cancelled_subset.trans hsubset
  · rcases honce x hx with hx | ⟨hx, rfl⟩
    · exact hold (h.once_lt x hx) (h.once x hx)
    · exact (hnew hx).2
  · rcases hrepeating x hx with hx | ⟨hx, hlong⟩
    · obtain ⟨i, hi, hstanding⟩ := h.repeating x hx
      exact ⟨i, hi, hold (h.repeating_lt x hx) hstanding⟩
    · exact ⟨interval, hlong, (hnew hx).2⟩

omit htick hS hlayers in
theorem pos_of_valid {w : TimerWheel Cb} {now delayMs : ℤ} {callback : Option Cb}
    (hvalid : (w.addTask now delayMs interval callback).2.valid = true) : 0 < delayMs := by
  rw [TimerWheel.addTask] at hvalid
  split at hvalid
  · cases hvalid
  · next hok => exact not_le.1 fun hle ↦ hok (.inl hle)

theorem Account.step (h : s.Account tick S layers) {op : LedgerOp Cb}
    (hstep : (system tick).step s op t) : t.Account tick S layers := by
  obtain ⟨hallowed, fuel, hexec⟩ := hstep
  cases op with
  | addTimer now delayMs callback =>
    cases Except.ok.inj hexec
    refine h.added htick hS hlayers (by omega) rfl rfl ?_ (fun x hx ↦ ?_) fun x hx ↦ .inl hx
    · exact Finset.union_subset_union_left fun x hx ↦ mem_enter.2 (.inl hx)
    · exact (mem_enter.1 hx).imp_right fun hx ↦ ⟨hx, rfl⟩
  | addRepeatTimer now intervalMs callback =>
    cases Except.ok.inj hexec
    refine h.added htick hS hlayers hallowed.2 rfl rfl ?_ (fun x hx ↦ .inl hx) fun x hx ↦ ?_
    · exact Finset.union_subset_union_right fun x hx ↦ mem_enter.2 (.inl hx)
    · refine (mem_enter.1 hx).imp_right fun hx ↦ ⟨hx, ?_⟩
      have hpos := pos_of_valid hx.1
      have hlong := hallowed.2
      omega
  | cancelTimer handle =>
    have hstanding {x : ℕ} {i : ℤ} (hx : x ∈ s.once ∪ s.repeating)
        (hs : s.Standing S layers x i) : t.Standing S layers x i :=
      hs.cancelTimer h.sound.shaped hx hexec
    cases Except.ok.inj hexec
    have hnextId : (s.wheel.cancelTimer handle).1.nextId = s.wheel.nextId := by
      rw [TimerWheel.cancelTimer]
      split
      · split <;> rfl
      · rfl
    refine ⟨h.sound.cancelTimer handle, h.quiet.allTasks.cancelTimer (fun _ h ↦ h) handle,
      fun x hx ↦ (h.once_lt x hx).trans_eq hnextId.symm,
      fun x hx ↦ (h.repeating_lt x hx).trans_eq hnextId.symm, fun x hx ↦ ?_,
      fun x hx ↦ hstanding (Finset.mem_union_left _ hx) (h.once x hx), fun x hx ↦ ?_⟩
    · dsimp only at hx ⊢
      split at hx
      · next hmem =>
        rcases mem_enter.1 hx with hx | ⟨-, rfl⟩
        · exact h.cancelled_subset hx
        · exact hmem
      · exact h.cancelled_subset hx
    · obtain ⟨i, hi, hs⟩ := h.repeating x hx
      exact ⟨i, hi, hstanding (Finset.mem_union_right _ hx) hs⟩
  | tick now =>
    rw [exec] at hexec
    obtain ⟨w, hok, rfl⟩ : ∃ w, s.wheel.tick fuel now = .ok w ∧
        { s with wheel := w, clock := now } = t := by
      cases htick' : s.wheel.tick fuel now with
      | error halt =>
        rw [htick'] at hexec
        cases hexec
      | ok w =>
        rw [htick'] at hexec
        exact ⟨w, rfl, Except.ok.inj hexec⟩
    obtain ⟨-, rfl⟩ := (tick_ok_iff_ticking htick hS hlayers h.sound.shaped).1 ⟨fuel, hok⟩
    have hn : min (layers - 1) 3 < layers := by omega
    have hnextId := nextId_ticking (w := s.wheel) S (min (layers - 1) 3) now
    refine ⟨h.sound.ticking htick hS hlayers now hn,
      h.quiet.allTasks.tick (steady_restless tick now) hok,
      fun x hx ↦ (h.once_lt x hx).trans_eq hnextId.symm,
      fun x hx ↦ (h.repeating_lt x hx).trans_eq hnextId.symm, h.cancelled_subset,
      fun x hx ↦ (h.once x hx).ticking htick hS hlayers h.sound.shaped (.inl rfl) now hn,
      fun x hx ↦ ?_⟩
    obtain ⟨i, hi, hs⟩ := h.repeating x hx
    exact ⟨i, hi, hs.ticking htick hS hlayers h.sound.shaped (.inr hi) now hn⟩

theorem account_run {clock : ℤ} {ops : List (LedgerOp Cb)}
    (hrun : (system tick).Run (init tick S layers clock) ops s) : s.Account tick S layers := by
  refine hrun.invariant (motive := fun s ↦ s.Account tick S layers)
    (fun _ _ _ h hstep ↦ h.step htick hS hlayers hstep) ?_
  have hempty : Quiet tick (Driven.init tick S layers clock : Driven Cb).wheel :=
    fun layer slot task htask ↦ by
      rw [tasks_init] at htask
      cases htask
  refine ⟨sound_init hS clock, hempty, ?_, ?_, Finset.empty_subset _, ?_, ?_⟩ <;>
    exact fun x hx ↦ absurd hx (Finset.notMem_empty x)

omit htick hS hlayers in
/-- A timer that has been cancelled has no task that could run. -/
theorem Account.spent_of_cancelled (h : s.Account tick S layers) (hx : x ∈ s.cancelled) :
    s.wheel.Spent x := by
  have hspent {i : ℤ} (hs : s.Standing S layers x i) : s.wheel.Spent x := by
    cases hs with
    | lives _ uncancelled => exact absurd hx uncancelled
    | spent spent => exact spent
  rcases Finset.mem_union.1 (h.cancelled_subset hx) with hx | hx
  · exact hspent (h.once x hx)
  · obtain ⟨i, -, hs⟩ := h.repeating x hx
    exact hspent hs

/-- One operation does not run a timer that has been cancelled, and it stays cancelled. -/
theorem Account.firings_step (h : s.Account tick S layers) (hx : x ∈ s.cancelled)
    {op : LedgerOp Cb} (hstep : (system tick).step s op t) :
    t.wheel.firings x = s.wheel.firings x ∧ x ∈ t.cancelled := by
  have hlt : x < s.wheel.nextId :=
    (Finset.mem_union.1 (h.cancelled_subset hx)).elim (h.once_lt x) (h.repeating_lt x)
  obtain ⟨-, fuel, hexec⟩ := hstep
  cases op with
  | addTimer now delayMs callback =>
    cases Except.ok.inj hexec
    exact ⟨(untouched_addTask htick hS hlayers h.sound.shaped hlt.ne' _ _ _ _).firings, hx⟩
  | addRepeatTimer now intervalMs callback =>
    cases Except.ok.inj hexec
    exact ⟨(untouched_addTask htick hS hlayers h.sound.shaped hlt.ne' _ _ _ _).firings, hx⟩
  | cancelTimer handle =>
    cases Except.ok.inj hexec
    refine ⟨firings_cancelTimer _ _, ?_⟩
    dsimp only
    split
    · exact mem_enter.2 (.inl hx)
    · exact hx
  | tick now =>
    rw [exec] at hexec
    cases hok : s.wheel.tick fuel now with
    | error halt =>
      rw [hok] at hexec
      cases hexec
    | ok w =>
      rw [hok] at hexec
      cases Except.ok.inj hexec
      obtain ⟨-, rfl⟩ := (tick_ok_iff_ticking htick hS hlayers h.sound.shaped).1 ⟨fuel, hok⟩
      exact ⟨((h.spent_of_cancelled hx).ticking htick hS hlayers h.sound.shaped now
        (by omega)).2, hx⟩

theorem Account.firings_run (h : s.Account tick S layers) (hx : x ∈ s.cancelled)
    {ops : List (LedgerOp Cb)} (hrun : (system tick).Run s ops t) :
    t.wheel.firings x = s.wheel.firings x := by
  refine (hrun.invariant (motive := fun t ↦ t.Account tick S layers ∧
    t.wheel.firings x = s.wheel.firings x ∧ x ∈ t.cancelled) ?_ ⟨h, rfl, hx⟩).2.1
  rintro u op v ⟨hu, hfirings, hx⟩ hstep
  obtain ⟨hsame, hx'⟩ := hu.firings_step htick hS hlayers hx hstep
  exact ⟨hu.step htick hS hlayers hstep, hsame.trans hfirings, hx'⟩

end Steps

/-- **Timers are neither lost nor duplicated.**  However a wheel of at least two layers is used, and
at whatever times, every call returns.  A timer that runs once has run at most once, and as long as
it has neither run nor been cancelled it has one task, in one slot of one layer.  So has a repeat
timer that has not been cancelled.  And a timer that has been cancelled never runs again. -/
theorem conserved (htick : 1 ≤ tick) (hS : 2 ≤ S) (hlayers : 2 ≤ layers) {clock : ℤ}
    {ops : List (LedgerOp Cb)}
    (hrun : (system tick).Run (init tick S layers clock) ops s) :
    (∀ op, s.Allowed tick op → ∃ t, (system tick).step s op t) ∧
    (∀ x ∈ s.once, (s.wheel.firings x).length ≤ 1 ∧
      (s.wheel.firings x = [] → x ∉ s.cancelled →
        ∃ layer < layers, ∃ slot < S, ∃ task, s.wheel.HeldAt x layer slot task)) ∧
    (∀ x ∈ s.repeating, x ∉ s.cancelled →
      ∃ layer < layers, ∃ slot < S, ∃ task, s.wheel.HeldAt x layer slot task) ∧
    ∀ x ∈ s.cancelled, ∀ later t, (system tick).Run s later t →
      t.wheel.firings x = s.wheel.firings x := by
  have hS' : 1 ≤ S := by omega
  have h := account_run htick hS' hlayers hrun
  have hone {x : ℕ} {i : ℤ} (hlives : s.wheel.Lives S layers x i) :
      ∃ layer < layers, ∃ slot < S, ∃ task, s.wheel.HeldAt x layer slot task := by
    obtain ⟨-, layer, slot, task, ⟨hlayer, hslot⟩, hheld, -⟩ := hlives
    exact ⟨layer, hlayer, slot, hslot, task, hheld⟩
  refine ⟨fun op hallowed ↦ ?_, fun x hx ↦ ?_, fun x hx huncancelled ↦ ?_, fun x hx later t hlater ↦
    h.firings_run htick hS' hlayers hx hlater⟩
  · cases op with
    | addTimer | addRepeatTimer | cancelTimer => exact ⟨_, hallowed, 0, rfl⟩
    | tick now =>
      obtain ⟨fuel, hok⟩ : ∃ fuel, s.wheel.tick fuel now = .ok _ :=
        (tick_ok_iff_ticking htick hS' hlayers h.sound.shaped).2
          ⟨fun task htask hrestless ↦ h.quiet _ _ task htask hrestless.2, rfl⟩
      exact ⟨_, hallowed, fuel, by rw [exec, hok]; rfl⟩
  · cases h.once x hx with
    | lives lives _ unfired =>
      refine ⟨?_, fun _ _ ↦ hone lives⟩
      rw [unfired rfl]
      exact Nat.zero_le _
    | spent _ firings cause =>
      refine ⟨firings rfl, fun hnil huncancelled ↦ ?_⟩
      exact (cause.elim huncancelled fun hfired ↦ hfired.2 hnil).elim
  · obtain ⟨i, hi, hs⟩ := h.repeating x hx
    cases hs with
    | lives lives => exact hone lives
    | spent _ _ cause =>
      rcases cause with hcancelled | ⟨rfl, -⟩
      · exact absurd hcancelled huncancelled
      · omega

/-- Timer 1 runs once and timer 2 every millisecond; the next tick comes when both are long overdue.
Timer 2 is still there then. -/
theorem conserved_repeat :
    ∃ s, (system 1).Run (init 1 2 2 0 : Ledger Unit)
      [.addTimer 0 2 (some ()), .addRepeatTimer 0 1 (some ()), .tick 7, .tick 7] s ∧
      s.wheel.firings 2 = [7] ∧
      ∃ layer < 2, ∃ slot < 2, ∃ task, s.wheel.HeldAt 2 layer slot task := by
  obtain ⟨s, hrun, hfirings, hadded, huncancelled⟩ : ∃ s,
      (system 1).Run (init 1 2 2 0 : Ledger Unit)
        [.addTimer 0 2 (some ()), .addRepeatTimer 0 1 (some ()), .tick 7, .tick 7] s ∧
      s.wheel.firings 2 = [7] ∧ 2 ∈ s.repeating ∧ 2 ∉ s.cancelled := by
    refine ⟨_, .cons ⟨le_rfl, 0, rfl⟩ (.cons ⟨⟨le_rfl, ?_⟩, 0, rfl⟩ (.cons
      ⟨(by decide : (0 : ℤ) ≤ 7), 3, rfl⟩ (.cons ⟨le_rfl, 3, rfl⟩ .nil))), rfl, ?_, ?_⟩ <;> decide
  exact ⟨s, hrun, hfirings,
    (conserved (by decide) (by decide) (by decide) hrun).2.2.1 2 hadded huncancelled⟩

end Ledger

end Core
end ChwellCore
