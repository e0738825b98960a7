import ChwellCore.Core.TimerWheel

/-!
# One tick of the timer wheel

`tick` is written out for up to four layers: it walks along a slot of wheel 0, moves wheel 0 on, and
when that has come round it cascades wheel 1 and moves it on, and so on.  `tick_ok_iff_ticking`
says the same for any number of layers: a tick is a `sweep` followed by one `stage` for each of the
next three layers that there are, and a stage turns its wheel exactly when all the hands below have
come round.  So the hands are an odometer (`currentSlot_ticked`).

The order inside a stage is `cascade` first and then `moveOn`.  A wheel is therefore cascaded at the
slot its hand *leaves*, not at the one it comes to.

Timers do not get into each other's way: `held x` is what the slots hold of timer `x`, and nothing
that is done with another timer changes it.
-/

set_option autoImplicit false

namespace ChwellCore
namespace Core
namespace TimerWheel

variable {Cb : Type} {tick S layers : ℕ} {w : TimerWheel Cb}

/-! ## Hands -/

theorem Shaped.moveOn (hw : Shaped tick S layers w) (layer : ℕ) :
    Shaped tick S layers (w.moveOn layer) := by
  refine hw.modify fun wheel h ↦ ⟨h.slots, ?_, h.tickMs, h.wheelSize, h.totalMs⟩
  rw [h.wheelSize]
  exact Nat.mod_lt _ (Nat.zero_lt_of_lt h.hand)

theorem currentSlot_moveOn (hw : Shaped tick S layers w) {layer : ℕ} (hlayer : layer < layers)
    (layer' : ℕ) :
    (w.moveOn layer).currentSlot layer' =
      if layer = layer' then (w.currentSlot layer + 1) % S else w.currentSlot layer' := by
  obtain ⟨wheel, hwheel, hshape⟩ := hw.exists_wheel hlayer
  rw [currentSlot, currentSlot, currentSlot, TimerWheel.moveOn, List.getElem?_modify]
  by_cases hl : layer = layer'
  · subst hl
    simp [hwheel, hshape.wheelSize]
  · simp [hl]

@[simp] theorem tasks_moveOn (layer : ℕ) : (w.moveOn layer).tasks = w.tasks := by
  funext layer' slot
  rw [tasks, tasks, moveOn, List.getElem?_modify]
  cases w.wheels[layer']? with
  | none => rfl
  | some wheel => by_cases hl : layer = layer' <;> simp [hl]

theorem advance_eq (hw : Shaped tick S layers w) {layer : ℕ} (hlayer : layer < layers) :
    w.advance layer = .ok (w.moveOn layer) := by
  rw [advance, if_pos (by rw [hw.length]; exact hlayer)]

/-! ## Cascading -/

/-- Where `cascade` puts a task that has not been cancelled. -/
def cascadePlace (tick S layers : ℕ) (hand : ℕ → ℕ) (now : ℤ) (task : TimerTask Cb) : Place :=
  if task.expireTime ≤ now then ⟨0, hand 0, task.roundsLeft⟩
  else placeFor tick S layers hand (task.expireTime - now)

theorem cascade_eq (hw : Shaped tick S layers w) (now : ℤ) {layer : ℕ} (hpos : 0 < layer)
    (hlayer : layer < layers) :
    w.cascade now layer = (w.tasks layer (w.currentSlot layer)).foldl (cascadeTask now)
      (w.modifySlot layer (w.currentSlot layer) fun _ ↦ []) := by
  rw [cascade, if_neg (by rw [hw.length]; omega)]

section Cascade

variable (htick : 1 ≤ tick) (hS : 1 ≤ S) (hlayers : 2 ≤ layers)

include htick hS hlayers

theorem cascadeTask_eq (hw : Shaped tick S layers w) (now : ℤ) (task : TimerTask Cb) :
    cascadeTask now w task =
      if task.cancelled then w
      else w.push (cascadePlace tick S layers w.currentSlot now task) task := by
  rw [cascadeTask, cascadePlace]
  split
  · rfl
  · split
    · next hexpired =>
      rw [if_pos (by omega)]
      rfl
    · next hexpired =>
      have hdelay : delayOf now task = task.expireTime - now := by rw [delayOf, if_neg hexpired]
      rw [if_neg (by omega), addTaskToWheel_eq hw htick hS (by omega), hdelay]

end Cascade

theorem shaped_cascadeTask (hw : Shaped tick S layers w) (now : ℤ) (task : TimerTask Cb) :
    Shaped tick S layers (cascadeTask now w task) ∧
      (cascadeTask now w task).currentSlot = w.currentSlot := by
  rw [cascadeTask]
  split
  · exact ⟨hw, rfl⟩
  · split
    · exact ⟨hw.modifySlot _ _ _, currentSlot_modifySlot _ _ _⟩
    · obtain ⟨place, hplace⟩ := addTaskToWheel_eq_push (w := w) now task
      rw [hplace]
      exact ⟨hw.push _ _, currentSlot_push _ _⟩

theorem shaped_foldl_cascadeTask (hw : Shaped tick S layers w) (now : ℤ)
    (todo : List (TimerTask Cb)) :
    Shaped tick S layers (todo.foldl (cascadeTask now) w) ∧
      (todo.foldl (cascadeTask now) w).currentSlot = w.currentSlot := by
  induction todo generalizing w with
  | nil => exact ⟨hw, rfl⟩
  | cons task rest ih =>
    obtain ⟨hshaped, hcur⟩ := shaped_cascadeTask hw now task
    obtain ⟨hshaped', hcur'⟩ := ih hshaped
    exact ⟨hshaped', hcur'.trans hcur⟩

theorem shaped_cascade (hw : Shaped tick S layers w) (now : ℤ) (layer : ℕ) :
    Shaped tick S layers (w.cascade now layer) ∧
      (w.cascade now layer).currentSlot = w.currentSlot := by
  rw [cascade]
  split
  · exact ⟨hw, rfl⟩
  · obtain ⟨hshaped, hcur⟩ := shaped_foldl_cascadeTask
      (hw.modifySlot layer (w.currentSlot layer) fun _ ↦ []) now
      (w.tasks layer (w.currentSlot layer))
    exact ⟨hshaped, hcur.trans (currentSlot_modifySlot _ _ _)⟩

/-- Cascading changes nothing but the wheels. -/
theorem exists_wheels_cascade (now : ℤ) (layer : ℕ) :
    ∃ wheels, w.cascade now layer = { w with wheels := wheels } := by
  have htask (w : TimerWheel Cb) (task : TimerTask Cb) :
      ∃ wheels, cascadeTask now w task = { w with wheels := wheels } := by
    rw [cascadeTask]
    split
    · exact ⟨w.wheels, rfl⟩
    · split
      · exact ⟨_, rfl⟩
      · obtain ⟨place, hplace⟩ := addTaskToWheel_eq_push (w := w) now task
        exact ⟨_, hplace⟩
  have hfoldl (todo : List (TimerTask Cb)) (w : TimerWheel Cb) :
      ∃ wheels, todo.foldl (cascadeTask now) w = { w with wheels := wheels } := by
    induction todo generalizing w with
    | nil => exact ⟨w.wheels, rfl⟩
    | cons task rest ih =>
      obtain ⟨wheels, hwheels⟩ := htask w task
      obtain ⟨wheels', hwheels'⟩ := ih (cascadeTask now w task)
      exact ⟨wheels', by rw [List.foldl_cons, hwheels', hwheels]⟩
  rw [cascade]
  split
  · exact ⟨w.wheels, rfl⟩
  · obtain ⟨wheels, hwheels⟩ := hfoldl _ _
    exact ⟨wheels, hwheels⟩

/-! ## Turning the wheels -/

/-- What `tick` does to a wheel above wheel 0 when the one below has come round. -/
def turn (now : ℤ) (layer : ℕ) (w : TimerWheel Cb) : TimerWheel Cb :=
  (w.cascade now layer).moveOn layer

/-- The cascades of `tick`, for `n` layers from `layer` on. -/
def carry (now : ℤ) : ℕ → ℕ → TimerWheel Cb → TimerWheel Cb
  | 0, _, w => w
  | n + 1, layer, w =>
    if w.currentSlot (layer - 1) = 0 then carry now n (layer + 1) (w.turn now layer) else w

/-- Turn the wheel of a layer if all the hands below have come round. -/
def stage (S : ℕ) (now : ℤ) (layer : ℕ) (w : TimerWheel Cb) : TimerWheel Cb :=
  if Odometer.value S w.currentSlot layer = 0 then w.turn now layer else w

/-- The stages of `n` layers from `layer` on. -/
def stages (S : ℕ) (now : ℤ) : ℕ → ℕ → TimerWheel Cb → TimerWheel Cb
  | 0, _, w => w
  | n + 1, layer, w => stages S now n (layer + 1) (w.stage S now layer)

theorem stages_add (S : ℕ) (now : ℤ) (m n layer : ℕ) :
    stages S now (m + n) layer w = stages S now n (layer + m) (stages S now m layer w) := by
  induction m generalizing layer w with
  | zero => rw [Nat.zero_add, Nat.add_zero, stages]
  | succ m ih =>
    rw [Nat.succ_add, stages, ih, stages]
    congr 1
    omega

/-- The wheels while a tick is going on: `n` layers above wheel 0 have had their stage. -/
def ticking (S n : ℕ) (now : ℤ) (w : TimerWheel Cb) : TimerWheel Cb :=
  stages S now n 1 ((w.sweep now).moveOn 0)

/-- What a tick comes to. -/
def ticked (S layers : ℕ) (now : ℤ) (w : TimerWheel Cb) : TimerWheel Cb :=
  w.ticking S (layers - 1) now

theorem ticking_succ (S n : ℕ) (now : ℤ) :
    w.ticking S (n + 1) now = (w.ticking S n now).stage S now (n + 1) := by
  rw [ticking, stages_add, ticking, stages, stages, Nat.add_comm 1 n]

theorem shaped_turn (hw : Shaped tick S layers w) (now : ℤ) (layer : ℕ) :
    Shaped tick S layers (w.turn now layer) := (shaped_cascade hw now layer).1.moveOn layer

theorem currentSlot_turn (hw : Shaped tick S layers w) (now : ℤ) {layer : ℕ}
    (hlayer : layer < layers) (layer' : ℕ) :
    (w.turn now layer).currentSlot layer' =
      if layer = layer' then (w.currentSlot layer + 1) % S else w.currentSlot layer' := by
  obtain ⟨hshaped, hcur⟩ := shaped_cascade hw now layer
  rw [turn, currentSlot_moveOn hshaped hlayer, hcur]

theorem shaped_stage (hw : Shaped tick S layers w) (now : ℤ) (layer : ℕ) :
    Shaped tick S layers (w.stage S now layer) := by
  rw [stage]
  split
  · exact shaped_turn hw now layer
  · exact hw

theorem shaped_stages (hw : Shaped tick S layers w) (now : ℤ) (n layer : ℕ) :
    Shaped tick S layers (stages S now n layer w) := by
  induction n generalizing layer w with
  | zero => exact hw
  | succ n ih => exact ih (shaped_stage hw now layer) (layer + 1)

theorem shaped_sweep (hw : Shaped tick S layers w) (now : ℤ) :
    Shaped tick S layers (w.sweep now) ∧ (w.sweep now).currentSlot = w.currentSlot := by
  obtain ⟨hshaped, hcur⟩ := shaped_foldl_visit hw now (w.tasks 0 (w.currentSlot 0))
  exact ⟨hshaped.modifySlot _ _ _, (currentSlot_modifySlot _ _ _).trans hcur⟩

theorem shaped_ticking (hw : Shaped tick S layers w) (now : ℤ) (n : ℕ) :
    Shaped tick S layers (w.ticking S n now) :=
  shaped_stages ((shaped_sweep hw now).1.moveOn 0) now n 1

/-- A stage moves no hand but its own. -/
theorem currentSlot_stage_of_ne (hw : Shaped tick S layers w) (now : ℤ) {layer layer' : ℕ}
    (hlayer : layer < layers) (hne : layer ≠ layer') :
    (w.stage S now layer).currentSlot layer' = w.currentSlot layer' := by
  rw [stage]
  split
  · rw [currentSlot_turn hw now hlayer, if_neg hne]
  · rfl

theorem advance_cascade (hw : Shaped tick S layers w) (now : ℤ) {layer : ℕ}
    (hlayer : layer < layers) : (w.cascade now layer).advance layer = .ok (w.turn now layer) :=
  advance_eq (shaped_cascade hw now layer).1 hlayer

section Turn

variable (htick : 1 ≤ tick) (hS : 1 ≤ S) (hlayers : 2 ≤ layers)

include htick hS hlayers

omit htick hlayers in
/-- Once a hand does not come round, no wheel above it turns. -/
theorem stages_of_ne_zero (now : ℤ) {n layer k : ℕ} (hk : k < layer) (hne : w.currentSlot k ≠ 0) :
    stages S now n layer w = w := by
  induction n generalizing layer with
  | zero => rfl
  | succ n ih =>
    have hvalue : ¬ Odometer.value S w.currentSlot layer = 0 := fun h ↦
      hne ((Odometer.value_eq_zero_iff (by omega)).1 h k hk)
    rw [stages, stage, if_neg hvalue]
    exact ih (by omega)

omit htick hlayers in
theorem carry_eq_stages (hw : Shaped tick S layers w) (now : ℤ) {n layer : ℕ} (hpos : 0 < layer)
    (hlayer : layer + n ≤ layers) (hzero : ∀ k < layer - 1, w.currentSlot k = 0) :
    carry now n layer w = stages S now n layer w := by
  induction n generalizing layer w with
  | zero => rfl
  | succ n ih =>
    rw [carry]
    split
    · next hcur =>
      have hvalue : Odometer.value S w.currentSlot layer = 0 := by
        refine (Odometer.value_eq_zero_iff (by omega)).2 fun k hk ↦ ?_
        rcases Nat.lt_or_ge k (layer - 1) with hlt | hge
        · exact hzero k hlt
        · have hk' : k = layer - 1 := by omega
          rw [hk', hcur]
      rw [stages, stage, if_pos hvalue]
      refine ih (shaped_turn hw now _) (Nat.succ_pos layer)
        (by omega)
        fun k hk ↦ ?_
      rw [currentSlot_turn hw now (by omega), if_neg (by omega)]
      exact (Odometer.value_eq_zero_iff (by omega)).1 hvalue k (by omega)
    · next hcur =>
      exact (stages_of_ne_zero hS now (by omega) hcur).symm

omit htick hS in
/-- What is left of a tick after `process_slot`, layer by layer: no layer above the fourth has its
turn. -/
theorem tick_of_processSlot {fuel : ℕ} {now : ℤ} {w₁ : TimerWheel Cb}
    (hok : w.processSlot fuel now 0 (w.currentSlot 0) = .ok w₁) (hw₁ : Shaped tick S layers w₁) :
    w.tick fuel now = .ok (carry now (min (layers - 1) 3) 1 (w₁.moveOn 0)) := by
  have hw₂ := hw₁.moveOn 0
  have hw₃ := shaped_turn hw₂ now 1
  obtain ⟨n, rfl⟩ : ∃ n, layers = n + 2 := ⟨layers - 2, by omega⟩
  have hmin : min (n + 2 - 1) 3 = min n 2 + 1 := by omega
  simp only [TimerWheel.tick, hok, advance_eq hw₁ (show 0 < n + 2 by omega),
    advance_cascade hw₂ now (show 1 < n + 2 by omega), hw₃.length, bind, Except.bind,
    pure, Except.pure, hmin, carry, Nat.sub_self]
  split
  · rcases n with _ | n
    · rw [if_neg (by omega), Nat.zero_min, carry]
    · have hw₄ := shaped_turn hw₃ now 2
      have hmin' : min (n + 1) 2 = min n 1 + 1 := by omega
      simp only [advance_cascade hw₃ now (show 2 < n + 1 + 2 by omega), hw₄.length,
        hmin', carry]
      generalize turn now 1 (moveOn 0 w₁) = w₃ at hw₄
      by_cases hcur₁ : w₃.currentSlot 1 = 0
      · rw [if_pos ⟨hcur₁, by omega⟩, if_pos hcur₁]
        rcases n with _ | n
        · rw [if_neg (by omega), Nat.zero_min, carry]
        · rw [advance_cascade hw₄ now (show 3 < n + 1 + 1 + 2 by omega),
            show min (n + 1) 1 = 1 by omega, carry, carry]
          by_cases hcur₂ : (w₃.turn now 2).currentSlot 2 = 0
          · rw [if_pos ⟨hcur₂, by omega⟩, if_pos hcur₂]
          · rw [if_neg fun h ↦ hcur₂ h.1, if_neg hcur₂]
      · rw [if_neg fun h ↦ hcur₁ h.1, if_neg hcur₁]
  · rfl

/-- **What a tick comes to**: it ends unless a restless timer is due. -/
theorem tick_ok_iff_ticking (hw : Shaped tick S layers w) {now : ℤ} {w' : TimerWheel Cb} :
    (∃ fuel, w.tick fuel now = .ok w') ↔
      Calm tick w ∧ w' = w.ticking S (min (layers - 1) 3) now := by
  have hsweep := (shaped_sweep hw now).1
  have hcarry : carry now (min (layers - 1) 3) 1 ((w.sweep now).moveOn 0) =
      w.ticking S (min (layers - 1) 3) now :=
    carry_eq_stages hS (hsweep.moveOn 0) now Nat.one_pos (by omega)
      fun k hk ↦ absurd hk (by omega)
  constructor
  · rintro ⟨fuel, hok⟩
    cases hslot : w.processSlot fuel now 0 (w.currentSlot 0) with
    | error halt =>
      rw [TimerWheel.tick, hslot] at hok
      cases hok
    | ok w₁ =>
      obtain ⟨hcalm, rfl⟩ := (processSlot_ok_iff hw htick hS hlayers).1 ⟨fuel, hslot⟩
      rw [tick_of_processSlot hlayers hslot hsweep, hcarry] at hok
      exact ⟨hcalm, (Except.ok.inj hok).symm⟩
  · rintro ⟨hcalm, rfl⟩
    obtain ⟨fuel, hslot⟩ := (processSlot_ok_iff hw htick hS hlayers).2 ⟨hcalm, rfl⟩
    exact ⟨fuel, by rw [tick_of_processSlot hlayers hslot hsweep, hcarry]⟩

omit htick hS hlayers in
/-- While a tick is going on, the hands below have moved and the others have not. -/
theorem currentSlot_ticking (hw : Shaped tick S layers w) (now : ℤ) {n : ℕ} (hn : n < layers)
    (layer : ℕ) :
    (w.ticking S n now).currentSlot layer =
      if layer ≤ n then Odometer.next S w.currentSlot layer else w.currentSlot layer := by
  induction n generalizing layer with
  | zero =>
    obtain ⟨hshaped, hcur⟩ := shaped_sweep hw now
    rw [ticking, stages, currentSlot_moveOn hshaped hn, hcur]
    rcases layer with _ | layer
    · rw [if_pos rfl, if_pos le_rfl, Odometer.next, Odometer.value, pow_zero, zero_add,
        if_pos rfl]
    · rw [if_neg (by omega), if_neg (by omega)]
  | succ n ih =>
    have hn' : n < layers := by omega
    have hshaped := shaped_ticking hw now n
    rw [ticking_succ]
    by_cases hlayer : n + 1 = layer
    · subst hlayer
      have hvalue : Odometer.value S (w.ticking S n now).currentSlot (n + 1) =
          if Odometer.value S w.currentSlot (n + 1) + 1 = S ^ (n + 1) then 0
          else Odometer.value S w.currentSlot (n + 1) + 1 :=
        Odometer.value_of_next (fun k hk ↦ hw.currentSlot_lt (by omega)) fun k hk ↦ by
          rw [ih hn', if_pos (by omega)]
      rw [if_pos le_rfl, Odometer.next, stage, hvalue]
      by_cases hround : Odometer.value S w.currentSlot (n + 1) + 1 = S ^ (n + 1)
      · rw [if_pos hround, if_pos hround, if_pos rfl,
          currentSlot_turn hshaped now hn, if_pos rfl, ih hn',
          if_neg (by omega)]
      · rw [if_neg hround, if_neg hround, if_neg (Nat.succ_ne_zero _), ih hn', if_neg (by omega)]
    · rw [currentSlot_stage_of_ne hshaped now hn hlayer, ih hn']
      by_cases hle : layer ≤ n
      · rw [if_pos hle, if_pos (by omega)]
      · rw [if_neg hle, if_neg (by omega)]

omit htick hS hlayers in
/-- **The hands are an odometer.** -/
theorem currentSlot_ticked (hw : Shaped tick S layers w) (now : ℤ) {layer : ℕ}
    (hlayer : layer < layers) :
    (w.ticked S layers now).currentSlot layer = Odometer.next S w.currentSlot layer := by
  rw [ticked, currentSlot_ticking hw now (by omega), if_pos (by omega)]

omit htick hlayers in
/-- When the hand of a layer moves, those below are back at their first slots. -/
theorem currentSlot_ticked_eq_zero (hw : Shaped tick S layers w) (now : ℤ) {layer : ℕ}
    (hlayer : layer < layers) (hround : Odometer.value S w.currentSlot layer + 1 = S ^ layer) :
    ∀ k < layer, (w.ticked S layers now).currentSlot k = 0 := by
  have hvalue : Odometer.value S (w.ticked S layers now).currentSlot layer = 0 := by
    rw [Odometer.value_of_next (fun k hk ↦ hw.currentSlot_lt (by omega)) fun k hk ↦
      currentSlot_ticked hw now (show k < layers by omega), if_pos hround]
  exact (Odometer.value_eq_zero_iff (by omega)).1 hvalue

end Turn

/-! ## One timer among many -/

/-- What a slot holds of timer `x`. -/
def held (x : ℕ) (w : TimerWheel Cb) (layer slot : ℕ) : List (TimerTask Cb) :=
  (w.tasks layer slot).filter (·.id = x)

/-- The times at which the callback of timer `x` has run. -/
def firings (x : ℕ) (w : TimerWheel Cb) : List ℤ := (w.fired.filter (·.id = x)).map (·.time)

/-- Timer `x` has one task, which is `task`, in this slot. -/
def HeldAt (x layer slot : ℕ) (task : TimerTask Cb) (w : TimerWheel Cb) : Prop :=
  ∀ layer' slot', w.held x layer' slot' = if layer = layer' ∧ slot = slot' then [task] else []

/-- Timer `x` has no task. -/
def Absent (x : ℕ) (w : TimerWheel Cb) : Prop := ∀ layer slot, w.held x layer slot = []

variable {x : ℕ}

theorem held_of_tasks {w' : TimerWheel Cb} (h : w'.tasks = w.tasks) : w'.held x = w.held x := by
  funext layer slot
  rw [held, held, h]

theorem held_modifySlot (hw : Shaped tick S layers w) {layer slot : ℕ} (hlayer : layer < layers)
    (hslot : slot < S) (f : List (TimerTask Cb) → List (TimerTask Cb)) (layer' slot' : ℕ) :
    (w.modifySlot layer slot f).held x layer' slot' =
      if layer = layer' ∧ slot = slot' then (f (w.tasks layer slot)).filter (·.id = x)
      else w.held x layer' slot' := by
  rw [held, held, tasks_modifySlot hw hlayer hslot]
  split <;> rfl

section Held

variable (hw : Shaped tick S layers w) {place : Place} {task : TimerTask Cb}
  (hlayer : place.layer < layers) (hslot : place.slot < S)

include hw hlayer hslot

/-- To push another timer's task changes nothing for `x`. -/
theorem held_push_of_ne (hne : task.id ≠ x) : (w.push place task).held x = w.held x := by
  funext layer slot
  rw [push, held_modifySlot hw hlayer hslot]
  split
  · next heq =>
    obtain ⟨rfl, rfl⟩ := heq
    simp [held, hne]
  · rfl

theorem heldAt_push (hw' : w.Absent x) (hid : task.id = x) :
    (w.push place task).HeldAt x place.layer place.slot
      { task with roundsLeft := place.rounds } := by
  intro layer slot
  rw [push, held_modifySlot hw hlayer hslot]
  split
  · have hempty : (w.tasks place.layer place.slot).filter (·.id = x) = [] := hw' _ _
    rw [List.filter_append, hempty]
    simp [hid]
  · exact hw' layer slot

end Held

theorem firings_run (now : ℤ) (task : TimerTask Cb) :
    (w.run now task).firings x =
      w.firings x ++ if task.id = x ∧ task.callback.isSome then [now] else [] := by
  rw [run]
  split
  · next hnone => simp [hnone]
  · next callback hsome =>
    by_cases hid : task.id = x <;> simp [firings, hsome, hid]

theorem firings_addTaskToWheel (now : ℤ) (task : TimerTask Cb) :
    (w.addTaskToWheel now task).firings x = w.firings x := by
  obtain ⟨place, hplace⟩ := addTaskToWheel_eq_push (w := w) now task
  rw [hplace]
  rfl

theorem firings_visit (now : ℤ) (task : TimerTask Cb) :
    (w.visit now task).firings x =
      w.firings x ++ if task.id = x ∧ Due task ∧ task.callback.isSome then [now] else [] := by
  have hreadd : (w.readd now task).firings x = w.firings x := by
    rw [readd]
    split
    · exact firings_addTaskToWheel now _
    · rfl
  rw [visit]
  split
  · next hdue =>
    rw [firings_run, hreadd]
    simp only [hdue, true_and]
  · next hdue => simp [hdue]

theorem firings_cascade (now : ℤ) (layer : ℕ) : (w.cascade now layer).firings x = w.firings x := by
  obtain ⟨wheels, hwheels⟩ := exists_wheels_cascade (w := w) now layer
  rw [hwheels]
  rfl

theorem firings_stage (S : ℕ) (now : ℤ) (layer : ℕ) :
    (w.stage S now layer).firings x = w.firings x := by
  rw [stage]
  split
  · exact firings_cascade now layer
  · rfl

theorem firings_stages (S : ℕ) (now : ℤ) (n layer : ℕ) :
    (stages S now n layer w).firings x = w.firings x := by
  induction n generalizing layer w with
  | zero => rfl
  | succ n ih => rw [stages, ih, firings_stage]

/-- The walk runs the due tasks of `x`, in the order in which they lie there. -/
theorem firings_foldl_visit (now : ℤ) (todo : List (TimerTask Cb)) :
    (todo.foldl (visit now) w).firings x =
      w.firings x ++ (todo.filter (·.id = x)).flatMap
        fun task ↦ if Due task ∧ task.callback.isSome then [now] else [] := by
  induction todo generalizing w with
  | nil => simp
  | cons task rest ih =>
    rw [List.foldl_cons, ih, firings_visit]
    by_cases hid : task.id = x <;> simp [hid]

theorem firings_sweep (now : ℤ) :
    (w.sweep now).firings x =
      w.firings x ++ (w.held x 0 (w.currentSlot 0)).flatMap
        fun task ↦ if Due task ∧ task.callback.isSome then [now] else [] :=
  firings_foldl_visit now _

theorem firings_ticking (S n : ℕ) (now : ℤ) :
    (w.ticking S n now).firings x =
      w.firings x ++ (w.held x 0 (w.currentSlot 0)).flatMap
        fun task ↦ if Due task ∧ task.callback.isSome then [now] else [] := by
  rw [ticking, firings_stages, ← firings_sweep]
  rfl

theorem firings_ticked (S layers : ℕ) (now : ℤ) :
    (w.ticked S layers now).firings x =
      w.firings x ++ (w.held x 0 (w.currentSlot 0)).flatMap
        fun task ↦ if Due task ∧ task.callback.isSome then [now] else [] :=
  firings_ticking S _ now

/-- What the walk leaves of a task has one round less to wait. -/
theorem eq_of_keep {task task' : TimerTask Cb} (h : keep task = some task') :
    task' = { task with roundsLeft := task.roundsLeft - 1 } := by
  rw [keep] at h
  obtain ⟨-, h⟩ := Option.ite_none_left_eq_some.1 h
  split at h <;> cases h
  rfl

/-- The walk leaves a task its id. -/
theorem filter_filterMap_keep (tasks : List (TimerTask Cb)) :
    (tasks.filterMap keep).filter (·.id = x) = (tasks.filter (·.id = x)).filterMap keep := by
  induction tasks with
  | nil => rfl
  | cons task rest ih =>
    rw [List.filterMap_cons, List.filter_cons]
    have hid {task' : TimerTask Cb} (h : keep task = some task') : task'.id = task.id := by
      rw [eq_of_keep h]
    cases hkeep : keep task with
    | none => by_cases h : task.id = x <;> simp [h, hkeep, ih]
    | some task' => by_cases h : task.id = x <;> simp [h, hkeep, hid hkeep, ih]

section Sweep

variable (htick : 1 ≤ tick) (hS : 1 ≤ S) (hlayers : 2 ≤ layers)

include htick hS hlayers

/-- A visit to another timer, or to one that is not run again, adds no task of `x`. -/
theorem held_visit (hw : Shaped tick S layers w) (now : ℤ) {task : TimerTask Cb}
    (hother : task.id = x → Due task → task.interval = 0) :
    (w.visit now task).held x = w.held x := by
  rw [visit, readd_eq hw htick hS hlayers]
  split
  · next hdue =>
    rw [held_of_tasks (tasks_of_wheels (wheels_run now task))]
    split
    · next hrepeat =>
      have hne : task.id ≠ x := fun hid ↦ by
        rw [hother hid hdue] at hrepeat
        omega
      rw [held_of_tasks (tasks_register _)]
      exact held_push_of_ne hw (placeFor_layer_lt (by omega) _ _) (placeFor_slot_lt hS _ _) hne
    · rfl
  · rfl

theorem held_foldl_visit (hw : Shaped tick S layers w) (now : ℤ) {todo : List (TimerTask Cb)}
    (hother : ∀ task ∈ todo, task.id = x → Due task → task.interval = 0) :
    (todo.foldl (visit now) w).held x = w.held x := by
  induction todo generalizing w with
  | nil => rfl
  | cons task rest ih =>
    obtain ⟨htask, hrest⟩ := List.forall_mem_cons.1 hother
    rw [List.foldl_cons, ih (hw.visit now task) hrest,
      held_visit htick hS hlayers hw now htask]

theorem held_sweep (hw : Shaped tick S layers w) (now : ℤ)
    (hother : ∀ task ∈ w.tasks 0 (w.currentSlot 0), task.id = x → Due task → task.interval = 0)
    (layer slot : ℕ) :
    (w.sweep now).held x layer slot =
      if 0 = layer ∧ w.currentSlot 0 = slot then (w.held x 0 (w.currentSlot 0)).filterMap keep
      else w.held x layer slot := by
  obtain ⟨hshaped, -⟩ := shaped_foldl_visit hw now (w.tasks 0 (w.currentSlot 0))
  rw [sweep, held_modifySlot hshaped (by omega) (hw.currentSlot_lt (by omega)),
    held_foldl_visit htick hS hlayers hw now hother, filter_filterMap_keep]
  rfl

/-- A visit to a repeat timer that is due puts a task of it in another place. -/
theorem held_visit_of_repeat (hw : Shaped tick S layers w) (now : ℤ) {task : TimerTask Cb}
    (hid : task.id = x) (hdue : Due task) (hrepeat : 0 < task.interval) (layer slot : ℕ) :
    (w.visit now task).held x layer slot =
      w.held x layer slot ++
        if (placeFor tick S layers w.currentSlot task.interval).layer = layer ∧
            (placeFor tick S layers w.currentSlot task.interval).slot = slot then
          [{ task with
            expireTime := now + task.interval
            roundsLeft := (placeFor tick S layers w.currentSlot task.interval).rounds }]
        else [] := by
  rw [visit, if_pos hdue, held_of_tasks (tasks_of_wheels (wheels_run now task)),
    readd_eq hw htick hS hlayers, if_pos hrepeat, held_of_tasks (tasks_register _), push,
    held_modifySlot hw (placeFor_layer_lt (by omega) _ _) (placeFor_slot_lt hS _ _)]
  split
  · next heq =>
    obtain ⟨rfl, rfl⟩ := heq
    rw [List.filter_append, List.filter_cons_of_pos (by simpa using hid), List.filter_nil]
    rfl
  · exact (List.append_nil _).symm

/-- **A repeat timer that is due** is left in the place for its interval. -/
theorem heldAt_sweep_of_repeat (hw : Shaped tick S layers w) (now : ℤ) {task : TimerTask Cb}
    (hdue : Due task) (hinterval : tick ≤ task.interval)
    (hheld : w.HeldAt x 0 (w.currentSlot 0) task) :
    (w.sweep now).HeldAt x (placeFor tick S layers w.currentSlot task.interval).layer
      (placeFor tick S layers w.currentSlot task.interval).slot
      { task with
        expireTime := now + task.interval
        roundsLeft := (placeFor tick S layers w.currentSlot task.interval).rounds } := by
  have hlayer : 0 < layers := by omega
  have hslot := hw.currentSlot_lt hlayer
  have hne := placeFor_ne_of_tick_le htick hlayers hslot hinterval
  have hfilter : (w.tasks 0 (w.currentSlot 0)).filter (·.id = x) = [task] := by
    simpa [held] using hheld 0 (w.currentSlot 0)
  obtain ⟨before, after, hsplit, hbefore, hid, hafter⟩ := List.filter_eq_cons_iff.1 hfilter
  -- the visits to the tasks before it and behind it change nothing
  obtain ⟨hw₁, hcur₁⟩ := shaped_foldl_visit hw now before
  have hheld₁ : (before.foldl (visit now) w).held x = w.held x :=
    held_foldl_visit htick hS hlayers hw now fun t ht hid _ ↦
      absurd (decide_eq_true hid) (hbefore t ht)
  have hheld₂ : ((w.tasks 0 (w.currentSlot 0)).foldl (visit now) w).held x =
      ((before.foldl (visit now) w).visit now task).held x := by
    rw [hsplit, List.foldl_append, List.foldl_cons]
    exact held_foldl_visit htick hS hlayers (hw₁.visit now task) now fun t ht hid _ ↦
      absurd hid (by simpa using List.filter_eq_nil_iff.1 hafter t ht)
  have hkeep : keep task = none := by
    rw [keep, if_neg (by simp [hdue.1]), if_neg (by simp [hdue.2])]
  intro layer slot
  rw [sweep, held_modifySlot (shaped_foldl_visit hw now _).1 hlayer hslot,
    filter_filterMap_keep, hfilter, List.filterMap_cons_none hkeep, List.filterMap_nil, hheld₂,
    held_visit_of_repeat htick hS hlayers hw₁ now (of_decide_eq_true hid) hdue (by omega), hcur₁,
    hheld₁, hheld]
  split
  · next heq =>
    obtain ⟨rfl, rfl⟩ := heq
    rw [if_neg hne]
  · rfl

end Sweep

section CascadeHeld

variable (htick : 1 ≤ tick) (hS : 1 ≤ S) (hlayers : 2 ≤ layers)

include htick hS hlayers

omit htick in
theorem cascadePlace_lt (hw : Shaped tick S layers w) (now : ℤ) (task : TimerTask Cb) :
    (cascadePlace tick S layers w.currentSlot now task).layer < layers ∧
      (cascadePlace tick S layers w.currentSlot now task).slot < S := by
  rw [cascadePlace]
  split
  · exact ⟨by simp only; omega, hw.currentSlot_lt (by omega)⟩
  · exact ⟨placeFor_layer_lt (by omega) _ _, placeFor_slot_lt hS _ _⟩

/-- To distribute the tasks of other timers, and cancelled ones, changes nothing for `x`. -/
theorem held_foldl_cascadeTask (hw : Shaped tick S layers w) (now : ℤ) {todo : List (TimerTask Cb)}
    (hother : ∀ task ∈ todo, task.id = x → task.cancelled = true) :
    (todo.foldl (cascadeTask now) w).held x = w.held x := by
  induction todo generalizing w with
  | nil => rfl
  | cons task rest ih =>
    obtain ⟨htask, hrest⟩ := List.forall_mem_cons.1 hother
    obtain ⟨hlayer, hslot⟩ := cascadePlace_lt hS hlayers hw now task
    rw [List.foldl_cons, cascadeTask_eq htick hS hlayers hw]
    split
    · exact ih hw hrest
    · next hlive =>
      rw [ih (hw.push _ _) hrest, held_push_of_ne hw hlayer hslot fun hid ↦ hlive (htask hid)]

/-- A cascade that finds only cancelled tasks of `x` takes them out. -/
theorem held_cascade_of_cancelled (hw : Shaped tick S layers w) (now : ℤ) {layer : ℕ}
    (hpos : 0 < layer) (hlayer : layer < layers)
    (hcancelled : ∀ task ∈ w.held x layer (w.currentSlot layer), task.cancelled = true)
    (layer' slot' : ℕ) :
    (w.cascade now layer).held x layer' slot' =
      if layer = layer' ∧ w.currentSlot layer = slot' then [] else w.held x layer' slot' := by
  rw [cascade_eq hw now hpos hlayer,
    held_foldl_cascadeTask htick hS hlayers (hw.modifySlot _ _ _) now fun task htask hid ↦
      hcancelled task (List.mem_filter.2 ⟨htask, by simpa using hid⟩),
    held_modifySlot hw hlayer (hw.currentSlot_lt hlayer)]
  rfl

theorem held_cascade_of_nil (hw : Shaped tick S layers w) (now : ℤ) {layer : ℕ} (hpos : 0 < layer)
    (hlayer : layer < layers) (hnil : w.held x layer (w.currentSlot layer) = []) :
    (w.cascade now layer).held x = w.held x := by
  funext layer' slot'
  rw [held_cascade_of_cancelled htick hS hlayers hw now hpos hlayer fun task htask ↦ by
    rw [hnil] at htask
    cases htask]
  split
  · next heq =>
    obtain ⟨rfl, rfl⟩ := heq
    exact hnil.symm
  · rfl

/-- **A cascade takes a task to its new place.** -/
theorem heldAt_cascade (hw : Shaped tick S layers w) (now : ℤ) {layer : ℕ} (hpos : 0 < layer)
    (hlayer : layer < layers) {task : TimerTask Cb} (hid : task.id = x)
    (hlive : task.cancelled = false) (hheld : w.HeldAt x layer (w.currentSlot layer) task) :
    (w.cascade now layer).HeldAt x (cascadePlace tick S layers w.currentSlot now task).layer
      (cascadePlace tick S layers w.currentSlot now task).slot
      { task with roundsLeft := (cascadePlace tick S layers w.currentSlot now task).rounds } := by
  have hfilter : (w.tasks layer (w.currentSlot layer)).filter (·.id = x) = [task] := by
    simpa [held] using hheld layer (w.currentSlot layer)
  obtain ⟨before, after, hsplit, hbefore, -, hafter⟩ := List.filter_eq_cons_iff.1 hfilter
  rw [cascade_eq hw now hpos hlayer, hsplit, List.foldl_append, List.foldl_cons]
  have hw₀ := hw.modifySlot layer (w.currentSlot layer) fun _ ↦ []
  have hcur₀ := currentSlot_modifySlot (w := w) layer (w.currentSlot layer) fun _ ↦ []
  have habsent : (w.modifySlot layer (w.currentSlot layer) fun _ ↦ []).Absent x := by
    intro layer' slot'
    rw [held_modifySlot hw hlayer (hw.currentSlot_lt hlayer)]
    split
    · rfl
    · next hne => rw [hheld, if_neg hne]
  generalize w.modifySlot layer (w.currentSlot layer) (fun _ ↦ []) = w₀ at hw₀ hcur₀ habsent ⊢
  -- the tasks before it and those behind it are other timers'
  obtain ⟨hw₁, hcur₁⟩ := shaped_foldl_cascadeTask hw₀ now before
  have habsent₁ : (before.foldl (cascadeTask now) w₀).Absent x := fun layer' slot' ↦ by
    rw [held_foldl_cascadeTask htick hS hlayers hw₀ now fun task htask hid ↦
      absurd (decide_eq_true hid) (hbefore task htask)]
    exact habsent layer' slot'
  have hafter' : ∀ task ∈ after, task.id = x → task.cancelled = true := fun task htask hid ↦
    absurd hid (by simpa using List.filter_eq_nil_iff.1 hafter task htask)
  obtain ⟨hplayer, hpslot⟩ := cascadePlace_lt hS hlayers hw now task
  intro layer' slot'
  rw [cascadeTask_eq htick hS hlayers hw₁, if_neg (by simp [hlive]), hcur₁, hcur₀,
    held_foldl_cascadeTask htick hS hlayers (hw₁.push _ _) now hafter']
  exact heldAt_push hw₁ hplayer hpslot habsent₁ hid layer' slot'

/-- A stage that finds nothing of `x` in its layer changes nothing for `x`. -/
theorem held_stage_of_nil (hw : Shaped tick S layers w) (now : ℤ) {layer : ℕ} (hpos : 0 < layer)
    (hlayer : layer < layers)
    (hnil : Odometer.value S w.currentSlot layer = 0 → w.held x layer (w.currentSlot layer) = []) :
    (w.stage S now layer).held x = w.held x := by
  rw [stage]
  split
  · next hround =>
    rw [turn, held_of_tasks (tasks_moveOn _),
      held_cascade_of_nil htick hS hlayers hw now hpos hlayer (hnil hround)]
  · rfl

theorem held_stages_of_nil (hw : Shaped tick S layers w) (now : ℤ) {n layer : ℕ} (hpos : 0 < layer)
    (hlayer : layer + n ≤ layers)
    (hnil : ∀ layer', layer ≤ layer' → layer' < layer + n → ∀ slot, w.held x layer' slot = []) :
    (stages S now n layer w).held x = w.held x := by
  induction n generalizing layer w with
  | zero => rfl
  | succ n ih =>
    have hstage := held_stage_of_nil htick hS hlayers hw now hpos (by omega)
      fun _ ↦ hnil layer le_rfl (by omega) (w.currentSlot layer)
    rw [stages, ih (shaped_stage hw now _) (Nat.succ_pos layer)
      (by omega) fun layer' hle hlt slot ↦ ?_, hstage]
    rw [hstage]
    exact hnil layer' (by omega) (by omega) slot

end CascadeHeld

/-! ## One timer through one tick -/

/-- A delay of less than a slot of some layer goes to a lower one. -/
theorem placeFor_layer_lt_of_lt (htick : 1 ≤ tick) (hand : ℕ → ℕ) {layer : ℕ} (hpos : 0 < layer)
    {delay : ℤ} (hlt : delay < (tick * S ^ layer : ℕ)) (hunit : 0 < tick * S ^ layer) :
    (placeFor tick S layers hand delay).layer < layer := by
  refine layerOf_lt hpos ?_
  rw [Nat.div_lt_iff_lt_mul htick, Nat.mul_comm]
  omega

/-- Where a task goes that is cascaded when the hands below `layer` have come round. -/
theorem cascadePlace_of_hands {hand : ℕ → ℕ} {layer : ℕ} {now : ℤ} {task : TimerTask Cb}
    (hpos : 0 < layer) (hhand : ∀ k < layer, hand k = 0) (htick : 1 ≤ tick) (hS : 1 ≤ S)
    (hsoon : task.expireTime - now < (tick * S ^ layer : ℕ)) :
    cascadePlace tick S layers hand now task = cascadePlace tick S layers (fun _ ↦ 0) now task ∧
      (cascadePlace tick S layers (fun _ ↦ 0) now task).layer < layer := by
  have hhome : ∀ hand, (placeFor tick S layers hand (task.expireTime - now)).layer < layer :=
    fun hand ↦ placeFor_layer_lt_of_lt htick hand hpos hsoon
      (Nat.mul_pos htick (Nat.pow_pos (by omega)))
  rw [cascadePlace, cascadePlace]
  split
  · exact ⟨by rw [hhand 0 hpos], hpos⟩
  · refine ⟨?_, hhome _⟩
    have hzero := hhand _ (hhome hand)
    rw [placeFor] at hzero ⊢
    dsimp only at hzero ⊢
    rw [hzero, placeFor]

section Ticked

variable (htick : 1 ≤ tick) (hS : 1 ≤ S) (hlayers : 2 ≤ layers) (hw : Shaped tick S layers w)
  (now : ℤ)

include htick hS hlayers hw

/-- The layers above `m` have their stage after `x` has had its. -/
theorem held_ticking_of_ticking {m n : ℕ} (hmn : m ≤ n) (hn : n < layers)
    (hnil : ∀ layer, m < layer → ∀ slot, (w.ticking S m now).held x layer slot = []) :
    (w.ticking S n now).held x = (w.ticking S m now).held x := by
  have hadd : w.ticking S n now = stages S now (n - m) (1 + m) (w.ticking S m now) := by
    rw [ticking, ticking, ← stages_add]
    congr 1
    omega
  rw [hadd]
  exact held_stages_of_nil htick hS hlayers (shaped_ticking hw now _) now (by omega) (by omega)
    fun layer hle _ ↦ hnil layer (by omega)

/-- The same at the end of a tick. -/
theorem held_ticked_of_ticking {m : ℕ} (hm : m < layers)
    (hnil : ∀ layer, m < layer → ∀ slot, (w.ticking S m now).held x layer slot = []) :
    (w.ticked S layers now).held x = (w.ticking S m now).held x :=
  held_ticking_of_ticking htick hS hlayers hw now (by omega) (by omega) hnil

/-- Before their stage, the tasks of `x` outside the slot that is walked along do not move. -/
theorem held_ticking_of_nil {m : ℕ} (hm : m < layers)
    (hzero : w.held x 0 (w.currentSlot 0) = [])
    (hnil : ∀ layer, 0 < layer → layer ≤ m → ∀ slot, w.held x layer slot = []) :
    (w.ticking S m now).held x = w.held x := by
  have hsweep := (shaped_sweep hw now).1
  have hheld : ((w.sweep now).moveOn 0).held x = w.held x := by
    rw [held_of_tasks (tasks_moveOn _)]
    funext layer slot
    rw [held_sweep htick hS hlayers hw now]
    · split
      · next heq =>
        obtain ⟨rfl, rfl⟩ := heq
        rw [hzero]
        rfl
      · rfl
    · intro task htask hid _
      have : task ∈ w.held x 0 (w.currentSlot 0) := List.mem_filter.2 ⟨htask, by simpa using hid⟩
      rw [hzero] at this
      cases this
  rw [ticking, held_stages_of_nil htick hS hlayers (hsweep.moveOn 0) now Nat.one_pos (by omega),
    hheld]
  intro layer hle hlt slot
  rw [hheld]
  exact hnil layer (by omega) (by omega) slot

omit htick hS hlayers in
/-- A wheel turns when the hands below it have all come round. -/
theorem value_ticking_eq_zero_iff {n : ℕ} (hn : n < layers) :
    Odometer.value S (w.ticking S n now).currentSlot (n + 1) = 0 ↔
      Odometer.value S w.currentSlot (n + 1) + 1 = S ^ (n + 1) := by
  have hmoved : ∀ k < n + 1, (w.ticking S n now).currentSlot k = Odometer.next S w.currentSlot k :=
    fun k hk ↦ by rw [currentSlot_ticking hw now hn, if_pos (by omega)]
  rw [Odometer.value_of_next (fun k hk ↦ hw.currentSlot_lt (by omega)) hmoved]
  split
  · next hround => exact ⟨fun _ ↦ hround, fun _ ↦ rfl⟩
  · next hround => exact ⟨fun h ↦ absurd h (Nat.succ_ne_zero _), fun h ↦ absurd h hround⟩

theorem absent_ticking {n : ℕ} (hn : n < layers) (habsent : w.Absent x) :
    (w.ticking S n now).Absent x ∧ (w.ticking S n now).firings x = w.firings x := by
  refine ⟨fun layer slot ↦ ?_, ?_⟩
  · rw [held_ticking_of_nil htick hS hlayers hw now hn (habsent _ _) fun layer _ _ ↦ habsent layer]
    exact habsent layer slot
  · rw [firings_ticking, habsent]
    exact List.append_nil _

variable {layer slot : ℕ} {task : TimerTask Cb} (hheld : w.HeldAt x layer slot task)

include hheld

/-- As long as the hand of its layer does not leave its slot, a task stays where it is. -/
theorem heldAt_ticked_of_stays (hlayer : layer < layers)
    (hstays : ¬
      (slot = w.currentSlot layer ∧ Odometer.value S w.currentSlot layer + 1 = S ^ layer)) :
    (w.ticked S layers now).HeldAt x layer slot task ∧
      (w.ticked S layers now).firings x = w.firings x := by
  have helse {layer' slot' : ℕ} (hne : ¬ (layer = layer' ∧ slot = slot')) :
      w.held x layer' slot' = [] := by rw [hheld, if_neg hne]
  have hzero : w.held x 0 (w.currentSlot 0) = [] := by
    refine helse fun h ↦ hstays ?_
    obtain ⟨rfl, rfl⟩ := h
    exact ⟨rfl, rfl⟩
  have hticking : (w.ticking S layer now).held x = w.held x := by
    rcases layer with _ | n
    · exact held_ticking_of_nil htick hS hlayers hw now hlayer hzero fun _ _ _ ↦ by omega
    · have hbefore : (w.ticking S n now).held x = w.held x :=
        held_ticking_of_nil htick hS hlayers hw now (by omega) hzero
          fun layer' _ hle slot' ↦ helse (by omega)
      rw [ticking_succ, held_stage_of_nil htick hS hlayers
        (shaped_ticking hw now _) now (Nat.succ_pos n) hlayer, hbefore]
      intro hround
      rw [hbefore, currentSlot_ticking hw now (by omega), if_neg (by omega)]
      rw [value_ticking_eq_zero_iff hw now (by omega)] at hround
      exact helse fun h ↦ hstays ⟨h.2, hround⟩
  refine ⟨fun layer' slot' ↦ ?_, ?_⟩
  · rw [held_ticked_of_ticking htick hS hlayers hw now hlayer, hticking]
    · exact hheld layer' slot'
    · intro layer' hlt slot'
      rw [hticking]
      exact helse (by omega)
  · rw [firings_ticked, hzero]
    exact List.append_nil _

/-- A task in wheel 0 that the walk does not come to stays where it is. -/
theorem heldAt_ticking_of_ne (hlayer : layer = 0) (hslot : slot ≠ w.currentSlot 0) {n : ℕ}
    (hn : n < layers) :
    (w.ticking S n now).HeldAt x layer slot task ∧
      (w.ticking S n now).firings x = w.firings x := by
  have hzero : w.held x 0 (w.currentSlot 0) = [] := by
    rw [hheld, if_neg fun h ↦ hslot h.2]
  refine ⟨fun layer' slot' ↦ ?_, ?_⟩
  · rw [held_ticking_of_nil htick hS hlayers hw now hn hzero]
    · exact hheld layer' slot'
    · intro layer'' hpos _ slot''
      rw [hheld, if_neg (by omega)]
  · rw [firings_ticking, hzero]
    exact List.append_nil _

/-- A due task of the slot that is walked along runs. -/
theorem absent_ticking_of_due (hlayer : layer = 0) (hslot : slot = w.currentSlot 0)
    (hinterval : task.interval = 0) (hdue : Due task) (hcallback : task.callback.isSome) {n : ℕ}
    (hn : n < layers) :
    (w.ticking S n now).Absent x ∧ (w.ticking S n now).firings x = w.firings x ++ [now] := by
  subst hlayer hslot
  have hzero : w.held x 0 (w.currentSlot 0) = [task] := by rw [hheld, if_pos ⟨rfl, rfl⟩]
  have hkeep : keep task = none := by
    rw [keep, if_neg (by simp [hdue.1]), if_neg (by simp [hdue.2])]
  have hticking : (w.ticking S 0 now).Absent x := by
    intro layer slot
    rw [ticking, stages, held_of_tasks (tasks_moveOn _), held_sweep htick hS hlayers hw now]
    · split
      · rw [hzero, List.filterMap_cons_none hkeep, List.filterMap_nil]
      · next hne => rw [hheld, if_neg hne]
    · intro task' htask' hid _
      have hmem : task' ∈ w.held x 0 (w.currentSlot 0) :=
        List.mem_filter.2 ⟨htask', by simpa using hid⟩
      rw [hzero, List.mem_singleton] at hmem
      rw [hmem, hinterval]
  refine ⟨fun layer slot ↦ ?_, ?_⟩
  · rw [held_ticking_of_ticking htick hS hlayers hw now (Nat.zero_le n) hn
      fun layer' _ ↦ hticking layer']
    exact hticking layer slot
  · rw [firings_ticking, hzero]
    simp [hdue, hcallback]

/-- A task that the hand of its layer leaves is cascaded.  The hands below have come round, so its
new place is counted from the first slots. -/
theorem heldAt_ticked_of_leaves (hpos : 0 < layer) (hlayer : layer < layers)
    (hslot : slot = w.currentSlot layer)
    (hround : Odometer.value S w.currentSlot layer + 1 = S ^ layer) (hid : task.id = x)
    (hlive : task.cancelled = false) (hsoon : task.expireTime - now < (tick * S ^ layer : ℕ)) :
    (w.ticked S layers now).HeldAt x (cascadePlace tick S layers (fun _ ↦ 0) now task).layer
        (cascadePlace tick S layers (fun _ ↦ 0) now task).slot
        { task with roundsLeft := (cascadePlace tick S layers (fun _ ↦ 0) now task).rounds } ∧
      (w.ticked S layers now).firings x = w.firings x := by
  obtain ⟨n, rfl⟩ := Nat.exists_eq_add_one_of_ne_zero hpos.ne'
  have hn : n < layers := by omega
  have helse {layer' slot' : ℕ} (hne : ¬ (n + 1 = layer' ∧ slot = slot')) :
      w.held x layer' slot' = [] := by rw [hheld, if_neg hne]
  have hzero : w.held x 0 (w.currentSlot 0) = [] := helse fun h ↦ absurd h.1 (Nat.succ_ne_zero n)
  have hshaped := shaped_ticking hw now n
  have hbefore : (w.ticking S n now).held x = w.held x :=
    held_ticking_of_nil htick hS hlayers hw now hn hzero fun layer' _ hle slot' ↦ helse (by omega)
  have hvalue := (value_ticking_eq_zero_iff hw now hn).2 hround
  have hhand : (w.ticking S n now).currentSlot (n + 1) = w.currentSlot (n + 1) := by
    rw [currentSlot_ticking hw now hn, if_neg (by omega)]
  have hheld' :
      (w.ticking S n now).HeldAt x (n + 1) ((w.ticking S n now).currentSlot (n + 1)) task := by
    intro layer' slot'
    rw [hbefore, hhand, ← hslot]
    exact hheld layer' slot'
  obtain ⟨hplace, hlt⟩ := cascadePlace_of_hands hpos
    ((Odometer.value_eq_zero_iff (by omega)).1 hvalue) htick hS hsoon
  have hturn := heldAt_cascade htick hS hlayers hshaped now hpos hlayer hid hlive hheld'
  rw [hplace] at hturn
  have hstage :
      (w.ticking S (n + 1) now).held x = ((w.ticking S n now).cascade now (n + 1)).held x := by
    rw [ticking_succ, stage, if_pos hvalue, turn, held_of_tasks (tasks_moveOn _)]
  refine ⟨fun layer' slot' ↦ ?_, ?_⟩
  · rw [held_ticked_of_ticking htick hS hlayers hw now hlayer, hstage]
    · exact hturn layer' slot'
    · intro layer' hlt' slot'
      rw [hstage, hturn, if_neg (by omega)]
  · rw [firings_ticked, hzero]
    exact List.append_nil _

end Ticked

/-! ## The other operations -/

theorem tasks_setCancelled (id layer slot : ℕ) :
    (w.setCancelled id).tasks layer slot =
      (w.tasks layer slot).map fun task ↦
        if task.id = id then { task with cancelled := true } else task := by
  rw [tasks, tasks, setCancelled, List.getElem?_map]
  cases w.wheels[layer]? with
  | none => rfl
  | some wheel =>
    rw [Option.map_some, Option.bind_some, Option.bind_some, List.getElem?_map]
    cases wheel.slots[slot]? <;> rfl

theorem currentSlot_setCancelled (id : ℕ) : (w.setCancelled id).currentSlot = w.currentSlot := by
  funext layer
  rw [currentSlot, currentSlot, setCancelled, List.getElem?_map]
  cases w.wheels[layer]? <;> rfl

theorem Shaped.setCancelled (hw : Shaped tick S layers w) (id : ℕ) :
    Shaped tick S layers (w.setCancelled id) := by
  refine ⟨by rw [TimerWheel.setCancelled, List.length_map, hw.length], fun layer wheel h ↦ ?_⟩
  rw [TimerWheel.setCancelled, List.getElem?_map] at h
  obtain ⟨old, hold, rfl⟩ := Option.map_eq_some_iff.1 h
  obtain ⟨hslots, hhand, htickMs, hsize, htotal⟩ := hw.wheel layer old hold
  exact ⟨by rw [List.length_map, hslots], hhand, htickMs, hsize, htotal⟩

theorem held_setCancelled (id layer slot : ℕ) :
    (w.setCancelled id).held x layer slot =
      (w.held x layer slot).map fun task ↦
        if task.id = id then { task with cancelled := true } else task := by
  rw [held, held, tasks_setCancelled, List.filter_map]
  congr 2
  funext task
  rw [Function.comp_apply]
  split <;> rfl

/-- To cancel another timer changes nothing for `x`. -/
theorem held_setCancelled_of_ne {id : ℕ} (hne : id ≠ x) :
    (w.setCancelled id).held x = w.held x := by
  funext layer slot
  rw [held_setCancelled]
  refine (List.map_congr_left fun task htask ↦ ?_).trans (List.map_id _)
  have hid : task.id = x := by simpa using (List.mem_filter.1 htask).2
  rw [if_neg fun h ↦ hne (h.symm.trans hid)]
  rfl

/-- What a call that adds a timer does when it is not rejected. -/
theorem addTask_eq (hw : Shaped tick S layers w) (htick : 1 ≤ tick) (hS : 1 ≤ S)
    (hlayers : 2 ≤ layers)
    (now interval : ℤ) {delayMs : ℤ} (hdelay : 0 < delayMs) (callback : Cb) :
    (w.addTask now delayMs interval (some callback)).1 =
      ((({ w with nextId := w.nextId + 1 } : TimerWheel Cb).push
        (placeFor tick S layers w.currentSlot delayMs)
        ⟨w.nextId, some callback, now + delayMs, interval, 0, false⟩).register w.nextId) := by
  have hw' : Shaped tick S layers ({ w with nextId := w.nextId + 1 } : TimerWheel Cb) :=
    Shaped.of_wheels (w := w) rfl hw
  have hdelayOf :
      delayOf now ⟨w.nextId, some callback, now + delayMs, interval, 0, false⟩ = delayMs := by
    simp only [delayOf, add_sub_cancel_left]
    rw [if_neg (by omega)]
  rw [addTask, if_neg (by simp; omega)]
  simp only
  rw [addTaskToWheel_eq hw' htick hS (by omega), hdelayOf]
  rfl

/-- Where the task of a new timer lies. -/
theorem heldAt_addTask (hw : Shaped tick S layers w) (htick : 1 ≤ tick) (hS : 1 ≤ S)
    (hlayers : 2 ≤ layers) (now interval : ℤ) {delayMs : ℤ} (hdelay : 0 < delayMs) (callback : Cb)
    (habsent : w.Absent w.nextId) :
    (w.addTask now delayMs interval (some callback)).1.HeldAt w.nextId
      (placeFor tick S layers w.currentSlot delayMs).layer
      (placeFor tick S layers w.currentSlot delayMs).slot
      ⟨w.nextId, some callback, now + delayMs, interval,
        (placeFor tick S layers w.currentSlot delayMs).rounds, false⟩ := by
  have hw' : Shaped tick S layers ({ w with nextId := w.nextId + 1 } : TimerWheel Cb) :=
    Shaped.of_wheels (w := w) rfl hw
  have hlayer : (placeFor tick S layers w.currentSlot delayMs).layer < layers :=
    placeFor_layer_lt (by omega) _ _
  intro layer slot
  rw [addTask_eq hw htick hS hlayers now interval hdelay callback, held_of_tasks (tasks_register _)]
  exact heldAt_push hw' hlayer (placeFor_slot_lt hS _ _) habsent rfl layer slot

/-! ## Ids -/

theorem nextId_addTaskToWheel (now : ℤ) (task : TimerTask Cb) :
    (w.addTaskToWheel now task).nextId = w.nextId := by
  simp only [addTaskToWheel]
  split <;> rfl

theorem nextId_visit (now : ℤ) (task : TimerTask Cb) : (w.visit now task).nextId = w.nextId := by
  have hreadd : (w.readd now task).nextId = w.nextId := by
    rw [readd]
    split
    · exact nextId_addTaskToWheel now _
    · rfl
  rw [visit]
  split
  · rw [run]
    split <;> exact hreadd
  · rfl

theorem nextId_sweep (now : ℤ) : (w.sweep now).nextId = w.nextId := by
  have hfoldl (todo : List (TimerTask Cb)) (w' : TimerWheel Cb) :
      (todo.foldl (visit now) w').nextId = w'.nextId := by
    induction todo generalizing w' with
    | nil => rfl
    | cons task rest ih => rw [List.foldl_cons, ih, nextId_visit]
  exact hfoldl _ w

theorem nextId_cascade (now : ℤ) (layer : ℕ) : (w.cascade now layer).nextId = w.nextId := by
  obtain ⟨wheels, hwheels⟩ := exists_wheels_cascade (w := w) now layer
  rw [hwheels]

theorem nextId_cancelTimer (handle : TimerHandle) :
    (w.cancelTimer handle).1.nextId = w.nextId := by
  rw [cancelTimer]
  split
  · split <;> rfl
  · rfl

theorem nextId_ticking (S n : ℕ) (now : ℤ) : (w.ticking S n now).nextId = w.nextId := by
  have hstages (n layer : ℕ) (w' : TimerWheel Cb) :
      (stages S now n layer w').nextId = w'.nextId := by
    induction n generalizing layer w' with
    | zero => rfl
    | succ n ih =>
      rw [stages, ih, stage]
      split
      · exact nextId_cascade now layer
      · rfl
  rw [ticking, hstages]
  exact nextId_sweep now

end TimerWheel
end Core
end ChwellCore
