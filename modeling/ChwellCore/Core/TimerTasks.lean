import ChwellCore.Core.TimerTick

/-!
# Every task in the wheel

Nothing in the wheel makes a task but the calls that add a timer.  Everything else moves tasks, and
a walk along a slot changes no more of them than their rounds and, when it adds a repeat timer
again, the time it expires at.  So what is said of every task is kept by a whole tick if it does not
depend on the first and survives the second (`Steady`), whatever the sizes of the wheels are.

`exists_end_of_tick` takes a tick apart for this: a walk to its end, then cascades and hands that
move.
-/

set_option autoImplicit false

namespace ChwellCore
namespace Core
namespace TimerWheel

variable {Cb : Type} {w : TimerWheel Cb}

/-! ## A tick in pieces -/

/-- The walk of a tick after so many turns. -/
def walked (now : ℤ) (n : ℕ) (w : TimerWheel Cb) : Walk Cb :=
  (Walk.turn now 0 (w.currentSlot 0))^[n] ⟨0, w⟩

theorem walked_succ (now : ℤ) (n : ℕ) (w : TimerWheel Cb) :
    w.walked now (n + 1) = (w.walked now n).turn now 0 (w.currentSlot 0) :=
  Function.iterate_succ_apply' _ _ _

theorem shaped_walked {t S layers : ℕ} (hw : Shaped t S layers w) (now : ℤ) (n : ℕ) :
    Shaped t S layers (w.walked now n).wheel ∧
      (w.walked now n).wheel.currentSlot = w.currentSlot :=
  Walk.shaped_iterate_turn now 0 (w.currentSlot 0) hw n

theorem Walk.mem_tasks_of_ahead {layer slot : ℕ} {p : Walk Cb} {task : TimerTask Cb}
    {rest : List (TimerTask Cb)} (hahead : p.ahead layer slot = task :: rest) :
    task ∈ p.wheel.tasks layer slot := by
  have hmem : task ∈ p.ahead layer slot := hahead ▸ List.mem_cons_self
  exact List.mem_of_mem_drop hmem

/-- A turn visits the task it is at, and changes the slot. -/
theorem Walk.exists_turn_eq {layer slot : ℕ} {p : Walk Cb} {task : TimerTask Cb}
    {rest : List (TimerTask Cb)} (now : ℤ) (hahead : p.ahead layer slot = task :: rest) :
    ∃ f, (p.turn now layer slot).wheel = (p.wheel.visit now task).modifySlot layer slot f := by
  rcases turn_cases now hahead with ⟨h, hturn⟩ | ⟨-, hrounds, hturn⟩ | ⟨-, hturn⟩ <;> rw [hturn]
  · exact ⟨_, by rw [visit, if_neg (by simp [Due, h])]⟩
  · exact ⟨_, by rw [visit, if_neg (by simp [Due]; omega)]⟩
  · exact ⟨_, rfl⟩

/-- A call that returns has come to the end of its walk. -/
theorem exists_end_of_processSlot {fuel : ℕ} {now : ℤ} {w' : TimerWheel Cb}
    (h : w.processSlot fuel now 0 (w.currentSlot 0) = .ok w') :
    ∃ n, (w.walked now n).ahead 0 (w.currentSlot 0) = [] ∧ (w.walked now n).wheel = w' := by
  obtain ⟨n, -, hn⟩ := processFrom_ok_iff.1 h
  exact ⟨n, hn⟩

theorem advance_ok_iff {layer : ℕ} {w' : TimerWheel Cb} :
    w.advance layer = .ok w' ↔ layer < w.wheels.length ∧ w.moveOn layer = w' := by
  rw [advance]
  split
  · next hlt => simp [hlt]
  · next hge => simp [hge]

theorem bind_ok_iff {α β : Type} {x : Except Halt α} {f : α → Except Halt β} {b : β} :
    (x >>= f) = .ok b ↔ ∃ a, x = .ok a ∧ f a = .ok b := by
  rcases x with halt | a
  · constructor
    · intro h
      cases h
    · rintro ⟨a, h, -⟩
      cases h
  · constructor
    · exact fun h ↦ ⟨a, rfl, h⟩
    · rintro ⟨a, h, hb⟩
      cases h
      exact hb

/-- **What a tick is made of**: a walk to its end, then cascades and hands that move on. -/
theorem exists_end_of_tick {fuel : ℕ} {now : ℤ} {w' : TimerWheel Cb}
    (h : w.tick fuel now = .ok w') :
    ∃ n, (w.walked now n).ahead 0 (w.currentSlot 0) = [] ∧
      ∀ motive : TimerWheel Cb → Prop,
        (∀ layer w, motive w → motive (w.cascade now layer)) →
        (∀ layer w, motive w → motive (w.moveOn layer)) →
        motive (w.walked now n).wheel → motive w' := by
  obtain ⟨w₁, hslot, h⟩ := bind_ok_iff.1 h
  obtain ⟨n, hend, rfl⟩ := exists_end_of_processSlot hslot
  refine ⟨n, hend, fun motive hcascade hmoveOn h₁ ↦ ?_⟩
  obtain ⟨w₂, hmove, h⟩ := bind_ok_iff.1 h
  have hadvance {layer : ℕ} {w w' : TimerWheel Cb} (hw : motive w)
      (h : w.advance layer = .ok w') : motive w' :=
    (advance_ok_iff.1 h).2 ▸ hmoveOn layer w hw
  have h₂ := hadvance h₁ hmove
  split at h
  · obtain ⟨w₃, hmove, h⟩ := bind_ok_iff.1 h
    have h₃ := hadvance (hcascade 1 _ h₂) hmove
    split at h
    · obtain ⟨w₄, hmove, h⟩ := bind_ok_iff.1 h
      have h₄ := hadvance (hcascade 2 _ h₃) hmove
      split at h
      · exact hadvance (hcascade 3 _ h₄) h
      · exact Except.ok.inj h ▸ h₄
    · exact Except.ok.inj h ▸ h₃
  · exact Except.ok.inj h ▸ h₂

/-- What every piece of a tick keeps is kept by the tick. -/
theorem invariant_of_tick {motive : TimerWheel Cb → Prop} {now : ℤ}
    (hturn : ∀ slot (p : Walk Cb), motive p.wheel → motive (p.turn now 0 slot).wheel)
    (hcascade : ∀ layer w, motive w → motive (w.cascade now layer))
    (hmoveOn : ∀ layer w, motive w → motive (w.moveOn layer)) {fuel : ℕ} {w' : TimerWheel Cb}
    (h : w.tick fuel now = .ok w') (hw : motive w) : motive w' := by
  obtain ⟨n, -, hrest⟩ := exists_end_of_tick h
  refine hrest motive hcascade hmoveOn ?_
  clear hrest
  induction n with
  | zero => exact hw
  | succ n ih =>
    rw [walked_succ]
    exact hturn _ _ ih

/-- More steps do not change what a tick comes to. -/
theorem tick_unique {fuel fuel' : ℕ} {now : ℤ} {w₁ w₂ : TimerWheel Cb}
    (h₁ : w.tick fuel now = .ok w₁) (h₂ : w.tick fuel' now = .ok w₂) : w₁ = w₂ := by
  obtain ⟨v₁, hslot₁, hrest₁⟩ := bind_ok_iff.1 h₁
  obtain ⟨v₂, hslot₂, hrest₂⟩ := bind_ok_iff.1 h₂
  obtain ⟨m, hm, rfl⟩ := exists_end_of_processSlot hslot₁
  obtain ⟨n, hn, rfl⟩ := exists_end_of_processSlot hslot₂
  have hsame : w.walked now n = w.walked now m := iterate_turn_unique hm hn
  rw [hsame] at hrest₂
  exact Except.ok.inj (hrest₁.symm.trans hrest₂)

/-! ## What runs during the walk -/

section Walked

variable {x : ℕ} (now : ℤ)

/-- A timer with no due task in the slot does not run. -/
theorem firings_walked_of_not_due
    (hslot : ∀ task ∈ w.tasks 0 (w.currentSlot 0), Due task → task.id ≠ x) (n : ℕ) :
    (∀ task ∈ (w.walked now n).ahead 0 (w.currentSlot 0), Due task → task.id ≠ x) ∧
      (w.walked now n).wheel.firings x = w.firings x := by
  induction n with
  | zero => exact ⟨hslot, rfl⟩
  | succ n ih =>
    obtain ⟨hahead', hfirings⟩ := ih
    rw [walked_succ]
    rcases hahead : (w.walked now n).ahead 0 (w.currentSlot 0) with _ | ⟨head, rest⟩
    · rw [Walk.turn_of_end hahead]
      exact ⟨hahead', hfirings⟩
    · rw [hahead] at hahead'
      obtain ⟨hhead, hrest⟩ := List.forall_mem_cons.1 hahead'
      obtain ⟨added, hvisit, hadded⟩ :=
        exists_tasks_visit (w := (w.walked now n).wheel) now head 0 (w.currentSlot 0)
      obtain ⟨f, hf⟩ := Walk.exists_turn_eq now hahead
      have hskip := firings_visit (w := (w.walked now n).wheel) (x := x) now head
      rw [if_neg fun h ↦ hhead h.2.1 h.1, List.append_nil] at hskip
      rw [Walk.ahead_turn hahead hvisit, hf]
      refine ⟨fun task htask hdue ↦ ?_, hskip.trans hfirings⟩
      rcases List.mem_append.1 htask with hlater | hnew
      · exact hrest task hlater hdue
      · -- what is added again belongs to the timer that has been run
        obtain ⟨hdue', -, rounds, rfl⟩ := hadded task hnew
        exact hhead hdue'

/-- A timer with one task that is due in the slot, and is not put there again, is still ahead or has
run once. -/
theorem firings_walked_of_single {task : TimerTask Cb} (hdue : Due task)
    (hagain : ∀ n, ((w.walked now n).wheel.visit now task).tasks 0 (w.currentSlot 0) =
      (w.walked now n).wheel.tasks 0 (w.currentSlot 0))
    (hcallback : task.callback.isSome) (hid : task.id = x)
    (hslot : (w.tasks 0 (w.currentSlot 0)).filter (·.id = x) = [task]) (n : ℕ) :
    (((w.walked now n).ahead 0 (w.currentSlot 0)).filter (·.id = x) = [task] ∧
        (w.walked now n).wheel.firings x = w.firings x) ∨
      ((w.walked now n).ahead 0 (w.currentSlot 0)).filter (·.id = x) = [] ∧
        (w.walked now n).wheel.firings x = w.firings x ++ [now] := by
  induction n with
  | zero => exact .inl ⟨hslot, rfl⟩
  | succ n ih =>
    rw [walked_succ]
    rcases hahead : (w.walked now n).ahead 0 (w.currentSlot 0) with _ | ⟨head, rest⟩
    · rw [Walk.turn_of_end hahead]
      exact ih
    · rw [hahead] at ih
      obtain ⟨added, hvisit, hadded⟩ :=
        exists_tasks_visit (w := (w.walked now n).wheel) now head 0 (w.currentSlot 0)
      obtain ⟨f, hf⟩ := Walk.exists_turn_eq now hahead
      have hfirings := firings_visit (w := (w.walked now n).wheel) (x := x) now head
      rw [Walk.ahead_turn hahead hvisit, hf, List.filter_append]
      -- another timer that is run does not add a task of `x`
      have hother (hne : head.id ≠ x) : added.filter (·.id = x) = [] ∧
          ((w.walked now n).wheel.visit now head).firings x =
            (w.walked now n).wheel.firings x := by
        rw [if_neg fun h ↦ hne h.1, List.append_nil] at hfirings
        refine ⟨List.filter_eq_nil_iff.2 fun t ht ↦ ?_, hfirings⟩
        obtain ⟨-, -, rounds, rfl⟩ := hadded t ht
        simpa using hne
      rcases ih with ⟨hfilter, hold⟩ | ⟨hfilter, hold⟩
      · by_cases hhead : head.id = x
        · rw [List.filter_cons_of_pos (by simpa using hhead), List.cons.injEq] at hfilter
          obtain ⟨rfl, hrest⟩ := hfilter
          have hnone : added = [] := by
            rw [hagain] at hvisit
            exact List.self_eq_append_right.1 hvisit
          rw [if_pos ⟨hid, hdue, hcallback⟩, hold] at hfirings
          exact .inr ⟨by rw [hrest, hnone]; rfl, hfirings⟩
        · obtain ⟨hnone, hsame⟩ := hother hhead
          rw [List.filter_cons_of_neg (by simpa using hhead)] at hfilter
          exact .inl ⟨by rw [hfilter, hnone]; rfl, hsame.trans hold⟩
      · have hhead : head.id ≠ x := by
          have := List.filter_eq_nil_iff.1 hfilter head List.mem_cons_self
          simpa using this
        obtain ⟨hnone, hsame⟩ := hother hhead
        rw [List.filter_cons_of_neg (by simpa using hhead)] at hfilter
        exact .inr ⟨by rw [hfilter, hnone]; rfl, hsame.trans hold⟩

/-- That is so of a timer that runs once. -/
theorem firings_walked_of_once {task : TimerTask Cb} (hdue : Due task) (honce : task.interval = 0)
    (hcallback : task.callback.isSome) (hid : task.id = x)
    (hslot : (w.tasks 0 (w.currentSlot 0)).filter (·.id = x) = [task]) (n : ℕ) :
    (((w.walked now n).ahead 0 (w.currentSlot 0)).filter (·.id = x) = [task] ∧
        (w.walked now n).wheel.firings x = w.firings x) ∨
      ((w.walked now n).ahead 0 (w.currentSlot 0)).filter (·.id = x) = [] ∧
        (w.walked now n).wheel.firings x = w.firings x ++ [now] := by
  refine firings_walked_of_single now hdue (fun m ↦ ?_) hcallback hid hslot n
  obtain ⟨added, hvisit, hadded⟩ :=
    exists_tasks_visit (w := (w.walked now m).wheel) now task 0 (w.currentSlot 0)
  have hnone : added = [] := List.eq_nil_iff_forall_not_mem.2 fun t ht ↦ by
    obtain ⟨-, hrepeat, -⟩ := hadded t ht
    omega
  rw [hvisit, hnone, List.append_nil]

/-- The walk gets to every task of the slot. -/
theorem exists_ahead_walked {before after : List (TimerTask Cb)} {task : TimerTask Cb}
    (hslot : w.tasks 0 (w.currentSlot 0) = before ++ task :: after) :
    ∃ rest, (w.walked now before.length).ahead 0 (w.currentSlot 0) = task :: rest := by
  -- after as many turns as have been made, so many tasks have been passed
  have hpass (n : ℕ) (hn : n ≤ before.length) :
      ∃ rest, (w.walked now n).ahead 0 (w.currentSlot 0) = before.drop n ++ task :: rest := by
    induction n with
    | zero => exact ⟨after, hslot⟩
    | succ n ih =>
      obtain ⟨rest, hrest⟩ := ih (by omega)
      rw [List.drop_eq_getElem_cons (by omega), List.cons_append] at hrest
      obtain ⟨added, hvisit, -⟩ :=
        exists_tasks_visit (w := (w.walked now n).wheel) now before[n] 0 (w.currentSlot 0)
      refine ⟨rest ++ added, ?_⟩
      rw [walked_succ, Walk.ahead_turn hrest hvisit, List.append_assoc, List.cons_append]
  obtain ⟨rest, hrest⟩ := hpass before.length le_rfl
  exact ⟨rest, by rw [hrest, List.drop_length, List.nil_append]⟩

end Walked

/-! ## What keeps the shape -/

section Shaped

variable {t S layers : ℕ}

theorem Shaped.tick (hw : Shaped t S layers w) {fuel : ℕ} {now : ℤ} {w' : TimerWheel Cb}
    (hok : w.tick fuel now = .ok w') : Shaped t S layers w' :=
  invariant_of_tick (fun _ _ h ↦ (Walk.shaped_turn h).1)
    (fun layer _ h ↦ (shaped_cascade h now layer).1) (fun layer _ h ↦ h.moveOn layer) hok hw

/-- A call that adds a timer is rejected, or it adds one. -/
theorem addTask_cases (now delayMs interval : ℤ) (callback : Option Cb) :
    w.addTask now delayMs interval callback = (w, {}) ∨
      ∃ (callback' : Cb) (place : Place), 0 < delayMs ∧ callback = some callback' ∧
        w.addTask now delayMs interval callback =
          ((({ w with nextId := w.nextId + 1 } : TimerWheel Cb).push place
            ⟨w.nextId, some callback', now + delayMs, interval, 0, false⟩).register w.nextId,
            ⟨w.nextId, true⟩) := by
  by_cases hok : delayMs ≤ 0 ∨ callback = none
  · exact .inl (by rw [TimerWheel.addTask, if_pos hok])
  · obtain ⟨hdelay, hcallback⟩ := not_or.1 hok
    obtain ⟨callback, rfl⟩ := Option.ne_none_iff_exists'.1 hcallback
    obtain ⟨place, hplace⟩ :=
      addTaskToWheel_eq_push (w := { w with nextId := w.nextId + 1 }) now
        ⟨w.nextId, some callback, now + delayMs, interval, 0, false⟩
    refine .inr ⟨callback, place, by omega, rfl, ?_⟩
    rw [TimerWheel.addTask, if_neg hok, ← hplace]

theorem Shaped.addTask (hw : Shaped t S layers w) (now delayMs interval : ℤ)
    (callback : Option Cb) :
    Shaped t S layers (w.addTask now delayMs interval callback).1 := by
  rcases addTask_cases (w := w) now delayMs interval callback with
    hsame | ⟨callback, place, -, -, hadded⟩
  · rw [hsame]
    exact hw
  · rw [hadded]
    have hw' : Shaped t S layers ({ w with nextId := w.nextId + 1 } : TimerWheel Cb) :=
      Shaped.of_wheels (w := w) rfl hw
    exact (hw'.push place _).register _

theorem Shaped.cancelTimer (hw : Shaped t S layers w) (handle : TimerHandle) :
    Shaped t S layers (w.cancelTimer handle).1 := by
  rw [TimerWheel.cancelTimer]
  split
  · split
    · exact Shaped.of_wheels (w := w.setCancelled handle.id) rfl (hw.setCancelled handle.id)
    · exact hw
  · exact hw

/-- Only a tick moves a hand. -/
theorem currentSlot_addTask (now delayMs interval : ℤ) (callback : Option Cb) :
    (w.addTask now delayMs interval callback).1.currentSlot = w.currentSlot := by
  rcases addTask_cases (w := w) now delayMs interval callback with
    hsame | ⟨callback, place, -, -, hadded⟩
  · rw [hsame]
  · rw [hadded, currentSlot_register, currentSlot_push]
    rfl

theorem currentSlot_cancelTimer (handle : TimerHandle) :
    (w.cancelTimer handle).1.currentSlot = w.currentSlot := by
  rw [TimerWheel.cancelTimer]
  split
  · split
    · exact currentSlot_setCancelled handle.id
    · rfl
  · rfl

end Shaped

/-! ## Every task -/

/-- Every task in the wheel satisfies `P`. -/
def AllTasks (P : TimerTask Cb → Prop) (w : TimerWheel Cb) : Prop :=
  ∀ layer slot, ∀ task ∈ w.tasks layer slot, P task

/-- What is asked of the interval of every task in the wheel. -/
def Everywhere (P : ℤ → Prop) (w : TimerWheel Cb) : Prop :=
  ∀ layer slot, ∀ task ∈ w.tasks layer slot, P task.interval

/-- What is said of a task does not depend on its rounds, and is true again when it is added again
at `now`. -/
structure Steady (now : ℤ) (P : TimerTask Cb → Prop) : Prop where
  rounds : ∀ task rounds, P task → P { task with roundsLeft := rounds }
  again : ∀ task, P task → 0 < task.interval → P { task with expireTime := now + task.interval }

section AllTasks

variable {P : TimerTask Cb → Prop}

theorem AllTasks.modifySlot (h : w.AllTasks P) (layer slot : ℕ)
    {f : List (TimerTask Cb) → List (TimerTask Cb)}
    (hf : ∀ task ∈ f (w.tasks layer slot), P task) : (w.modifySlot layer slot f).AllTasks P := by
  intro layer' slot'
  rcases tasks_modifySlot_eq_or (w := w) layer slot f layer' slot' with
    hsame | ⟨⟨rfl, rfl⟩, hnew⟩
  · rw [hsame]
    exact h layer' slot'
  · rw [hnew]
    exact hf

theorem AllTasks.push {now : ℤ} (hP : Steady now P) (h : w.AllTasks P) (place : Place)
    {task : TimerTask Cb} (htask : P task) : (w.push place task).AllTasks P := by
  refine h.modifySlot _ _ fun t ht ↦ ?_
  rcases List.mem_append.1 ht with hold | hnew
  · exact h _ _ t hold
  · rw [List.mem_singleton.1 hnew]
    exact hP.rounds task _ htask

theorem AllTasks.visit {now : ℤ} (hP : Steady now P) (h : w.AllTasks P) {task : TimerTask Cb}
    (htask : P task) : (w.visit now task).AllTasks P := by
  intro layer slot t ht
  obtain ⟨added, htasks, hadded⟩ := exists_tasks_visit (w := w) now task layer slot
  rw [htasks] at ht
  rcases List.mem_append.1 ht with hold | hnew
  · exact h layer slot t hold
  · obtain ⟨-, hrepeat, rounds, rfl⟩ := hadded t hnew
    exact hP.rounds _ rounds (hP.again task htask hrepeat)

theorem AllTasks.turn {now : ℤ} (hP : Steady now P) {p : Walk Cb} (h : p.wheel.AllTasks P)
    (layer slot : ℕ) : (p.turn now layer slot).wheel.AllTasks P := by
  rcases hahead : p.ahead layer slot with _ | ⟨task, rest⟩
  · rw [Walk.turn_of_end hahead]
    exact h
  have htask := h layer slot task (Walk.mem_tasks_of_ahead hahead)
  rcases Walk.turn_cases now hahead with ⟨-, hturn⟩ | ⟨-, -, hturn⟩ | ⟨-, hturn⟩ <;> rw [hturn]
  · exact h.modifySlot _ _ fun t ht ↦ h layer slot t (List.mem_of_mem_eraseIdx ht)
  · refine h.modifySlot _ _ fun t ht ↦ ?_
    rcases List.mem_or_eq_of_mem_set ht with hold | rfl
    · exact h layer slot t hold
    · exact hP.rounds task _ htask
  · have hvisit := h.visit hP htask
    exact hvisit.modifySlot _ _ fun t ht ↦ hvisit layer slot t (List.mem_of_mem_eraseIdx ht)

theorem AllTasks.cascade {now : ℤ} (hP : Steady now P) (h : w.AllTasks P) (layer : ℕ) :
    (w.cascade now layer).AllTasks P := by
  have hfoldl {w : TimerWheel Cb} (hw : w.AllTasks P) {todo : List (TimerTask Cb)}
      (htodo : ∀ task ∈ todo, P task) : (todo.foldl (cascadeTask now) w).AllTasks P := by
    induction todo generalizing w with
    | nil => exact hw
    | cons task rest ih =>
      obtain ⟨htask, hrest⟩ := List.forall_mem_cons.1 htodo
      refine ih ?_ hrest
      rw [cascadeTask]
      split
      · exact hw
      · split
        · refine hw.modifySlot _ _ fun t ht ↦ ?_
          rcases List.mem_append.1 ht with hold | hnew
          · exact hw _ _ t hold
          · rwa [List.mem_singleton.1 hnew]
        · obtain ⟨place, hplace⟩ := addTaskToWheel_eq_push (w := w) now task
          rw [hplace]
          exact hw.push hP place htask
  rw [TimerWheel.cascade]
  split
  · exact h
  · exact hfoldl (h.modifySlot _ _ fun t ht ↦ absurd ht List.not_mem_nil) (h layer _)

theorem AllTasks.moveOn (h : w.AllTasks P) (layer : ℕ) : (w.moveOn layer).AllTasks P := by
  intro layer' slot
  rw [tasks_moveOn]
  exact h layer' slot

/-- **A tick keeps what is said of every task.** -/
theorem AllTasks.tick {fuel : ℕ} {now : ℤ} {w' : TimerWheel Cb} (hP : Steady now P)
    (h : w.AllTasks P) (hok : w.tick fuel now = .ok w') : w'.AllTasks P :=
  invariant_of_tick (fun _ _ h ↦ h.turn hP _ _) (fun layer _ h ↦ h.cascade hP layer)
    (fun layer _ h ↦ h.moveOn layer) hok h

theorem AllTasks.addTask {now : ℤ} (hP : Steady now P) (h : w.AllTasks P) {delayMs interval : ℤ}
    {callback : Option Cb}
    (hnew : 0 < delayMs → callback ≠ none →
      P { id := w.nextId, callback, expireTime := now + delayMs, interval }) :
    (w.addTask now delayMs interval callback).1.AllTasks P := by
  rcases addTask_cases (w := w) now delayMs interval callback with
    hsame | ⟨callback, place, hdelay, rfl, hadded⟩
  · rw [hsame]
    exact h
  · rw [hadded]
    exact AllTasks.push (w := { w with nextId := w.nextId + 1 }) hP h place
      (hnew hdelay (Option.some_ne_none _))

theorem AllTasks.cancelTimer (h : w.AllTasks P)
    (hP : ∀ task, P task → P { task with cancelled := true }) (handle : TimerHandle) :
    (w.cancelTimer handle).1.AllTasks P := by
  rw [TimerWheel.cancelTimer]
  split
  · split
    · intro layer slot task htask
      have hmem : task ∈ (w.setCancelled handle.id).tasks layer slot := htask
      rw [tasks_setCancelled] at hmem
      obtain ⟨old, hold, rfl⟩ := List.mem_map.1 hmem
      split
      · exact hP old (h layer slot old hold)
      · exact h layer slot old hold
    · exact h
  · exact h

end AllTasks

end TimerWheel
end Core
end ChwellCore
