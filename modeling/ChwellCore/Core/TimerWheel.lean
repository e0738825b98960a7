import ChwellCore.Lib.Odometer
import Mathlib.Data.Finset.Basic
import Mathlib.Data.Int.Order.Basic
import Mathlib.Data.Nat.Log

/-!
# The timer wheel

A `TimerWheel` is a row of wheels with `wheel_size` slots each.  A slot of wheel `i` stands for
`tick_ms * wheel_size ^ i` milliseconds; a timer waits in a slot of the first wheel whose whole turn
is longer than its delay.  Only wheel 0 runs callbacks.  When the hand of a wheel has come round,
the tasks of one slot of the wheel above are distributed again (`cascade`), and then that wheel
moves on.

A `TimerTask` is owned by the slot it lies in and by nothing else, and the weak pointer that
`task_map_` keeps under an id always points to a task with that id.  So the map is modelled by its
set of keys, and following a pointer is looking for the id in the slots.  `next_id_` is a number
without a bound: 64 bits of ids do not run out.  Sizes are numbers too, so what is said here is
about wheels whose `total_ms` fits an `int`.

A callback is any value of a type `Cb`, and an empty `std::function` is `none`.  What runs is
recorded in `fired`, which is not in the code; a callback does not call the wheel back.  Time is an
argument of every operation that reads the clock.

`process_slot` walks along a list to which it may itself append, and need not end: the walk gets as
many steps as it is given, and a call that is still walking then has no answer (`Halt.running`).
`processSlot_eq` says what it comes to when it ends.
-/

set_option autoImplicit false

namespace ChwellCore
namespace Core

/-- `TimerWheel::TimerTask`. -/
structure TimerTask (Cb : Type) where
  id : ℕ
  callback : Option Cb
  expireTime : ℤ
  interval : ℤ
  roundsLeft : ℕ := 0
  cancelled : Bool := false
deriving DecidableEq, Repr

/-- `TimerHandle`. -/
structure TimerHandle where
  id : ℕ := 0
  valid : Bool := false
deriving DecidableEq, Repr

/-- `TimerWheel::Wheel`. -/
structure Wheel (Cb : Type) where
  slots : List (List (TimerTask Cb))
  currentSlot : ℕ
  tickMs : ℕ
  wheelSize : ℕ
  totalMs : ℕ
deriving DecidableEq, Repr

/-- A callback that has run. -/
structure Firing (Cb : Type) where
  id : ℕ
  callback : Cb
  time : ℤ
deriving DecidableEq, Repr

/-- `TimerWheel`, and what it has run so far. -/
structure TimerWheel (Cb : Type) where
  wheels : List (Wheel Cb)
  nextId : ℕ
  taskMap : Finset ℕ
  fired : List (Firing Cb)
deriving DecidableEq

/-- Why a call has no answer: it is still running, or it reads a wheel that does not exist. -/
inductive Halt where
  | running
  | noWheel (layer : ℕ)
deriving DecidableEq, Repr

variable {Cb : Type}

/-- The constructor of `Wheel`. -/
def Wheel.new (size tick : ℕ) : Wheel Cb where
  slots := List.replicate size []
  currentSlot := 0
  tickMs := tick
  wheelSize := size
  totalMs := size * tick

namespace TimerWheel

/-- The loop of the constructor. -/
def wheelsFrom (currentTick wheelSize : ℕ) : ℕ → List (Wheel Cb)
  | 0 => []
  | layers + 1 =>
    .new wheelSize currentTick :: wheelsFrom (currentTick * wheelSize) wheelSize layers

/-- The constructor. -/
def new (tickMs wheelSize layers : ℕ) : TimerWheel Cb where
  wheels := wheelsFrom tickMs wheelSize layers
  nextId := 1
  taskMap := ∅
  fired := []

/-! ## Reading and writing slots -/

/-- The tasks of a slot. -/
def tasks (w : TimerWheel Cb) (layer slot : ℕ) : List (TimerTask Cb) :=
  ((w.wheels[layer]?).bind fun wheel ↦ wheel.slots[slot]?).getD []

/-- `wheels_[layer].current_slot`. -/
def currentSlot (w : TimerWheel Cb) (layer : ℕ) : ℕ :=
  ((w.wheels[layer]?).map (·.currentSlot)).getD 0

/-- Replace the tasks of a slot. -/
def modifySlot (w : TimerWheel Cb) (layer slot : ℕ)
    (f : List (TimerTask Cb) → List (TimerTask Cb)) : TimerWheel Cb :=
  { w with wheels := w.wheels.modify layer fun wheel ↦
      { wheel with slots := wheel.slots.modify slot f } }

/-! ## The operations -/

/-- The loop of `add_task_to_wheel`: the first layer whose turn is longer than the delay, or the
last one. -/
def layerFor (delay : ℤ) : List (Wheel Cb) → ℕ
  | [] => 0
  | wheel :: rest => if delay < wheel.totalMs ∨ rest = [] then 0 else layerFor delay rest + 1

/-- `add_task_to_wheel`. -/
def addTaskToWheel (now : ℤ) (task : TimerTask Cb) (w : TimerWheel Cb) : TimerWheel Cb :=
  let delay := if task.expireTime - now ≤ 0 then 1 else task.expireTime - now
  let layer := layerFor delay w.wheels
  match w.wheels[layer]? with
  | none => w
  | some wheel =>
    let ticks := delay.toNat / wheel.tickMs
    let slot := (wheel.currentSlot + ticks) % wheel.wheelSize
    w.modifySlot layer slot (· ++ [{ task with roundsLeft := ticks / wheel.wheelSize }])

/-- `task_map_[id] = task`. -/
def register (id : ℕ) (w : TimerWheel Cb) : TimerWheel Cb :=
  { w with taskMap := insert id w.taskMap }

/-- What `add_timer` and `add_repeat_timer` share: `interval` is `0` for a timer that runs once. -/
def addTask (now delayMs interval : ℤ) (callback : Option Cb) (w : TimerWheel Cb) :
    TimerWheel Cb × TimerHandle :=
  if delayMs ≤ 0 ∨ callback = none then (w, {})
  else
    let task : TimerTask Cb :=
      { id := w.nextId, callback, expireTime := now + delayMs, interval }
    let w := addTaskToWheel now task { w with nextId := w.nextId + 1 }
    (w.register task.id, ⟨task.id, true⟩)

/-- `add_timer`. -/
def addTimer (now delayMs : ℤ) (callback : Option Cb) (w : TimerWheel Cb) :
    TimerWheel Cb × TimerHandle :=
  addTask now delayMs 0 callback w

/-- `add_repeat_timer`. -/
def addRepeatTimer (now intervalMs : ℤ) (callback : Option Cb) (w : TimerWheel Cb) :
    TimerWheel Cb × TimerHandle :=
  addTask now intervalMs intervalMs callback w

/-- Set `cancelled` on the task with this id. -/
def setCancelled (id : ℕ) (w : TimerWheel Cb) : TimerWheel Cb :=
  { w with wheels := w.wheels.map fun wheel ↦
      { wheel with slots := wheel.slots.map fun tasks ↦ tasks.map fun task ↦
          if task.id = id then { task with cancelled := true } else task } }

/-- `cancel_timer`. -/
def cancelTimer (handle : TimerHandle) (w : TimerWheel Cb) : TimerWheel Cb × TimerHandle :=
  if handle.valid then
    if handle.id ∈ w.taskMap then
      let w := w.setCancelled handle.id
      ({ w with taskMap := w.taskMap.erase handle.id }, { handle with valid := false })
    else (w, { handle with valid := false })
  else (w, handle)

/-- The callback of a task runs. -/
def run (now : ℤ) (task : TimerTask Cb) (w : TimerWheel Cb) : TimerWheel Cb :=
  match task.callback with
  | none => w
  | some callback => { w with fired := w.fired ++ [⟨task.id, callback, now⟩] }

/-- A repeat timer that is due is added again. -/
def readd (now : ℤ) (task : TimerTask Cb) (w : TimerWheel Cb) : TimerWheel Cb :=
  if 0 < task.interval then
    (w.addTaskToWheel now { task with expireTime := now + task.interval }).register task.id
  else w

/-- The loop of `process_slot`, from the task at position `it` on. -/
def processFrom (now : ℤ) (layer slot : ℕ) : ℕ → ℕ → TimerWheel Cb → Except Halt (TimerWheel Cb)
  | 0, _, _ => .error .running
  | fuel + 1, it, w =>
    match (w.tasks layer slot)[it]? with
    | none => .ok w
    | some task =>
      if task.cancelled then
        processFrom now layer slot fuel it (w.modifySlot layer slot (·.eraseIdx it))
      else if 0 < task.roundsLeft then
        processFrom now layer slot fuel (it + 1)
          (w.modifySlot layer slot (·.set it { task with roundsLeft := task.roundsLeft - 1 }))
      else
        processFrom now layer slot fuel it
          (((w.readd now task).modifySlot layer slot (·.eraseIdx it)).run now task)

/-- `process_slot`, given so many steps. -/
def processSlot (fuel : ℕ) (now : ℤ) (layer slot : ℕ) (w : TimerWheel Cb) :
    Except Halt (TimerWheel Cb) :=
  processFrom now layer slot fuel 0 w

/-- The body of the loop of `cascade`. -/
def cascadeTask (now : ℤ) (w : TimerWheel Cb) (task : TimerTask Cb) : TimerWheel Cb :=
  if task.cancelled then w
  else if task.expireTime - now ≤ 0 then w.modifySlot 0 (w.currentSlot 0) (· ++ [task])
  else w.addTaskToWheel now task

/-- `cascade`. -/
def cascade (now : ℤ) (layer : ℕ) (w : TimerWheel Cb) : TimerWheel Cb :=
  if layer = 0 ∨ w.wheels.length ≤ layer then w
  else
    let slot := w.currentSlot layer
    (w.tasks layer slot).foldl (cascadeTask now) (w.modifySlot layer slot fun _ ↦ [])

/-- Move the hand of a wheel on by one slot. -/
def moveOn (layer : ℕ) (w : TimerWheel Cb) : TimerWheel Cb :=
  { w with wheels := w.wheels.modify layer fun wheel ↦
      { wheel with currentSlot := (wheel.currentSlot + 1) % wheel.wheelSize } }

/-- The same for a wheel that `tick` takes to exist. -/
def advance (layer : ℕ) (w : TimerWheel Cb) : Except Halt (TimerWheel Cb) :=
  if layer < w.wheels.length then .ok (w.moveOn layer) else .error (.noWheel layer)

/-- `tick`. -/
def tick (fuel : ℕ) (now : ℤ) (w : TimerWheel Cb) : Except Halt (TimerWheel Cb) := do
  let w ← w.processSlot fuel now 0 (w.currentSlot 0)
  let w ← w.advance 0
  if w.currentSlot 0 = 0 then
    let w ← (w.cascade now 1).advance 1
    if w.currentSlot 1 = 0 ∧ 2 < w.wheels.length then
      let w ← (w.cascade now 2).advance 2
      if w.currentSlot 2 = 0 ∧ 3 < w.wheels.length then
        (w.cascade now 3).advance 3
      else return w
    else return w
  else return w

/-! ## The shape of a wheel

No operation changes what the constructor has set up: how many wheels there are, their sizes and the
lengths of their ticks. -/

/-- Wheel `layer` of a wheel whose ticks take `tick` milliseconds: `S` slots, and a hand at one. -/
structure WheelShape (tick S layer : ℕ) (wheel : Wheel Cb) : Prop where
  slots : wheel.slots.length = S
  hand : wheel.currentSlot < S
  tickMs : wheel.tickMs = tick * S ^ layer
  wheelSize : wheel.wheelSize = S
  totalMs : wheel.totalMs = S * (tick * S ^ layer)

/-- What the constructor sets up. -/
structure Shaped (tick S layers : ℕ) (w : TimerWheel Cb) : Prop where
  length : w.wheels.length = layers
  wheel : ∀ layer wheel, w.wheels[layer]? = some wheel → WheelShape tick S layer wheel

variable {tick S layers : ℕ} {w : TimerWheel Cb}

theorem wheelsFrom_getElem? (tick S layers layer : ℕ) :
    (wheelsFrom tick S layers : List (Wheel Cb))[layer]? =
      if layer < layers then some (.new S (tick * S ^ layer)) else none := by
  induction layers generalizing tick layer with
  | zero => rfl
  | succ layers ih =>
    cases layer with
    | zero => simp [wheelsFrom]
    | succ layer =>
      rw [wheelsFrom, List.getElem?_cons_succ, ih, pow_succ', ← mul_assoc]
      simp only [Nat.add_lt_add_iff_right]

theorem length_wheelsFrom (tick S layers : ℕ) :
    (wheelsFrom tick S layers : List (Wheel Cb)).length = layers := by
  induction layers generalizing tick with
  | zero => rfl
  | succ layers ih => rw [wheelsFrom, List.length_cons, ih]

theorem shaped_new (hS : 0 < S) : Shaped tick S layers (new tick S layers : TimerWheel Cb) := by
  refine ⟨length_wheelsFrom _ _ _, fun layer wheel h ↦ ?_⟩
  rw [new, wheelsFrom_getElem?] at h
  obtain ⟨-, h⟩ := Option.ite_none_right_eq_some.1 h
  obtain rfl := Option.some.inj h
  exact ⟨List.length_replicate, hS, rfl, rfl, rfl⟩

/-- A change to one wheel that keeps its shape keeps the shape of the whole. -/
theorem Shaped.modify (hw : Shaped tick S layers w) {layer : ℕ} {f : Wheel Cb → Wheel Cb}
    (hf : ∀ wheel, WheelShape tick S layer wheel → WheelShape tick S layer (f wheel)) :
    Shaped tick S layers { w with wheels := w.wheels.modify layer f } := by
  refine ⟨by rw [List.length_modify, hw.length], fun layer' wheel h ↦ ?_⟩
  rw [List.getElem?_modify] at h
  obtain ⟨old, hold, rfl⟩ := Option.map_eq_some_iff.1 h
  have hshape := hw.wheel layer' old hold
  split
  · next heq =>
    subst heq
    exact hf old hshape
  · exact hshape

theorem Shaped.modifySlot (hw : Shaped tick S layers w) (layer slot : ℕ)
    (f : List (TimerTask Cb) → List (TimerTask Cb)) :
    Shaped tick S layers (w.modifySlot layer slot f) :=
  hw.modify fun _ h ↦
    ⟨by rw [List.length_modify, h.slots], h.hand, h.tickMs, h.wheelSize, h.totalMs⟩

/-- The wheel of a layer. -/
theorem Shaped.exists_wheel (hw : Shaped tick S layers w) {layer : ℕ} (hlayer : layer < layers) :
    ∃ wheel, w.wheels[layer]? = some wheel ∧ WheelShape tick S layer wheel :=
  have hlt : layer < w.wheels.length := by rw [hw.length]; exact hlayer
  ⟨_, List.getElem?_eq_getElem hlt, hw.wheel layer _ (List.getElem?_eq_getElem hlt)⟩

theorem Shaped.currentSlot_lt (hw : Shaped tick S layers w) {layer : ℕ} (hlayer : layer < layers) :
    w.currentSlot layer < S := by
  obtain ⟨wheel, hwheel, hshape⟩ := hw.exists_wheel hlayer
  rw [currentSlot, hwheel]
  exact hshape.hand

/-! ## What a change to a slot changes -/

@[simp] theorem currentSlot_modifySlot (layer slot : ℕ)
    (f : List (TimerTask Cb) → List (TimerTask Cb)) :
    (w.modifySlot layer slot f).currentSlot = w.currentSlot := by
  funext layer'
  rw [currentSlot, currentSlot, modifySlot, List.getElem?_modify]
  cases w.wheels[layer']? with
  | none => rfl
  | some wheel => by_cases hl : layer = layer' <;> simp [hl]

/-- A slot that is changed is the slot that was named, if there is one. -/
theorem tasks_modifySlot_eq_or (layer slot : ℕ) (f : List (TimerTask Cb) → List (TimerTask Cb))
    (layer' slot' : ℕ) :
    (w.modifySlot layer slot f).tasks layer' slot' = w.tasks layer' slot' ∨
      (layer = layer' ∧ slot = slot') ∧
        (w.modifySlot layer slot f).tasks layer' slot' = f (w.tasks layer' slot') := by
  rw [tasks, tasks, modifySlot, List.getElem?_modify]
  rcases hwheel : w.wheels[layer']? with _ | wheel
  · exact .inl rfl
  · by_cases hl : layer = layer'
    · rcases htasks : wheel.slots[slot']? with _ | tasks
      · simp [hl, htasks, List.getElem?_modify]
      · by_cases hs : slot = slot' <;> simp [hl, hs, htasks]
    · simp [hl]

theorem tasks_modifySlot_self {f : List (TimerTask Cb) → List (TimerTask Cb)} (hf : f [] = [])
    (layer slot : ℕ) : (w.modifySlot layer slot f).tasks layer slot = f (w.tasks layer slot) := by
  rw [tasks, tasks, modifySlot, List.getElem?_modify]
  rcases hwheel : w.wheels[layer]? with _ | wheel
  · exact hf.symm
  · rcases htasks : wheel.slots[slot]? with _ | tasks <;> simp [htasks, hf]

/-- A slot that is changed is the slot that was named, and no other. -/
theorem tasks_modifySlot (hw : Shaped tick S layers w) {layer slot : ℕ} (hlayer : layer < layers)
    (hslot : slot < S) (f : List (TimerTask Cb) → List (TimerTask Cb)) (layer' slot' : ℕ) :
    (w.modifySlot layer slot f).tasks layer' slot' =
      if layer = layer' ∧ slot = slot' then f (w.tasks layer slot) else w.tasks layer' slot' := by
  obtain ⟨wheel, hwheel, hshape⟩ := hw.exists_wheel hlayer
  rw [tasks, tasks, tasks, modifySlot, List.getElem?_modify]
  by_cases hl : layer = layer'
  · subst hl
    have hlt : slot < wheel.slots.length := by rw [hshape.slots]; exact hslot
    by_cases hs : slot = slot'
    · subst hs
      simp [hwheel, hlt]
    · simp [hwheel, hs]
  · simp [hl]

theorem modifySlot_modifySlot (layer slot : ℕ) (f g : List (TimerTask Cb) → List (TimerTask Cb)) :
    (w.modifySlot layer slot f).modifySlot layer slot g = w.modifySlot layer slot (g ∘ f) := by
  simp only [modifySlot, List.modify_modify_eq]
  congr 2
  funext wheel
  simp only [Function.comp_apply, List.modify_modify_eq]

/-- Changes to different slots can be made in either order. -/
theorem modifySlot_comm {layer slot layer' slot' : ℕ} (h : ¬ (layer = layer' ∧ slot = slot'))
    (f g : List (TimerTask Cb) → List (TimerTask Cb)) :
    (w.modifySlot layer slot f).modifySlot layer' slot' g =
      (w.modifySlot layer' slot' g).modifySlot layer slot f := by
  simp only [modifySlot]
  by_cases hl : layer = layer'
  · subst hl
    have hs : slot ≠ slot' := fun heq ↦ h ⟨rfl, heq⟩
    rw [List.modify_modify_eq, List.modify_modify_eq]
    congr 2
    funext wheel
    simp only [Function.comp_apply, List.modify_modify_ne _ _ _ hs]
  · rw [List.modify_modify_ne _ _ _ hl]

/-- To put back what a slot holds changes nothing. -/
theorem modifySlot_tasks (hw : Shaped tick S layers w) {layer slot : ℕ} (hlayer : layer < layers)
    (hslot : slot < S) : w.modifySlot layer slot (fun _ ↦ w.tasks layer slot) = w := by
  obtain ⟨wheel, hwheel, hshape⟩ := hw.exists_wheel hlayer
  have hlt : slot < wheel.slots.length := by rw [hshape.slots]; exact hslot
  have htasks : w.tasks layer slot = wheel.slots[slot] := by simp [tasks, hwheel, hlt]
  have hsame : w.wheels.modify layer (fun wheel ↦
      { wheel with slots := wheel.slots.modify slot fun _ ↦ w.tasks layer slot }) = w.wheels := by
    refine List.ext_getElem? fun i ↦ ?_
    rw [List.getElem?_modify]
    by_cases hi : layer = i
    · subst hi
      have hslots : wheel.slots.modify slot (fun _ ↦ w.tasks layer slot) = wheel.slots := by
        refine List.ext_getElem? fun j ↦ ?_
        rw [List.getElem?_modify]
        by_cases hj : slot = j
        · subst hj
          simp [hlt, htasks]
        · simp [hj]
      simp [hwheel, hslots]
    · simp [hi]
  rw [modifySlot, hsame]

theorem Shaped.of_wheels {w' : TimerWheel Cb} (h : w'.wheels = w.wheels)
    (hw : Shaped tick S layers w) : Shaped tick S layers w' :=
  ⟨by rw [h, hw.length], by rw [h]; exact hw.wheel⟩

theorem tasks_of_wheels {w' : TimerWheel Cb} (h : w'.wheels = w.wheels) : w'.tasks = w.tasks := by
  funext layer slot
  rw [tasks, tasks, h]

theorem currentSlot_of_wheels {w' : TimerWheel Cb} (h : w'.wheels = w.wheels) :
    w'.currentSlot = w.currentSlot := by
  funext layer
  rw [currentSlot, currentSlot, h]

@[simp] theorem tasks_register (id : ℕ) : (w.register id).tasks = w.tasks := rfl

@[simp] theorem currentSlot_register (id : ℕ) : (w.register id).currentSlot = w.currentSlot := rfl

theorem Shaped.register (hw : Shaped tick S layers w) (id : ℕ) :
    Shaped tick S layers (w.register id) := Shaped.of_wheels (w := w) rfl hw

/-! ## Where a task goes -/

/-- The layer for a delay: the first one whose turn is longer, or the last one. -/
def home (tick S layers : ℕ) (delay : ℤ) : ℕ := min (Nat.log S (delay.toNat / tick)) (layers - 1)

/-- The same for wheels of any size: the layer for a delay of so many ticks, with so many layers
above the first. -/
def layerOf (S : ℕ) : ℕ → ℕ → ℕ
  | 0, _ => 0
  | n + 1, ticks => if ticks < S then 0 else layerOf S n (ticks / S) + 1

theorem layerOf_le (S n ticks : ℕ) : layerOf S n ticks ≤ n := by
  induction n generalizing ticks with
  | zero => exact le_rfl
  | succ n ih =>
    rw [layerOf]
    split
    · exact Nat.zero_le _
    · exact Nat.succ_le_succ (ih _)

theorem layerOf_lt {n layer ticks : ℕ} (hpos : 0 < layer) (hlt : ticks < S ^ layer) :
    layerOf S n ticks < layer := by
  induction n generalizing ticks layer with
  | zero => exact hpos
  | succ n ih =>
    rw [layerOf]
    split
    · exact hpos
    · next hge =>
      obtain ⟨layer, rfl⟩ := Nat.exists_eq_add_one_of_ne_zero hpos.ne'
      have hpos' : 0 < layer := by
        rcases Nat.eq_zero_or_pos layer with rfl | hpos'
        · rw [Nat.zero_add, pow_one] at hlt
          exact absurd hlt hge
        · exact hpos'
      exact Nat.succ_lt_succ (ih hpos' (Nat.div_lt_of_lt_mul (by rwa [← pow_succ'])))

theorem layerOf_eq_min (hS : 2 ≤ S) (n ticks : ℕ) :
    layerOf S n ticks = min (Nat.log S ticks) n := by
  induction n generalizing ticks with
  | zero => rw [layerOf, Nat.min_zero]
  | succ n ih =>
    rw [layerOf, ih]
    split
    · next hlt => rw [Nat.log_of_lt hlt, Nat.zero_min]
    · next hge =>
      have hlog : Nat.log S ticks = Nat.log S (ticks / S) + 1 :=
        Nat.log_of_one_lt_of_le (by omega) (by omega)
      omega

theorem layerOf_eq_home (hS : 2 ≤ S) (tick layers : ℕ) (delay : ℤ) :
    layerOf S (layers - 1) (delay.toNat / tick) = home tick S layers delay :=
  layerOf_eq_min hS _ _

theorem layerFor_eq_layerOf {t : ℕ} (ht : 1 ≤ t) (hS : 1 ≤ S) {delay : ℤ} (hdelay : 0 ≤ delay)
    {wheels : List (Wheel Cb)}
    (htotal : ∀ i wheel, wheels[i]? = some wheel → wheel.totalMs = S * (t * S ^ i)) :
    layerFor delay wheels = layerOf S (wheels.length - 1) (delay.toNat / t) := by
  induction wheels generalizing t with
  | nil => rfl
  | cons wheel rest ih =>
    have hfirst : wheel.totalMs = S * t := by simpa using htotal 0 wheel rfl
    have hlt : delay < (S * t : ℕ) ↔ delay.toNat / t < S := by
      rw [Nat.div_lt_iff_lt_mul (by omega)]
      omega
    rw [layerFor, hfirst, List.length_cons, Nat.add_sub_cancel]
    rcases hrest : rest with _ | ⟨next, above⟩
    · rw [if_pos (.inr rfl), List.length_nil, layerOf]
    · have hup : ∀ i wheel, rest[i]? = some wheel → wheel.totalMs = S * (t * S * S ^ i) := by
        intro i wheel hi
        rw [htotal (i + 1) wheel hi, pow_succ', mul_assoc]
      have hup' := ih (Nat.mul_pos ht hS) hup
      rw [hrest, List.length_cons, Nat.add_sub_cancel, ← Nat.div_div_eq_div_mul] at hup'
      rw [List.length_cons, layerOf, hup']
      simp only [hlt, reduceCtorEq, or_false]

theorem layerFor_eq (hw : Shaped tick S layers w) (htick : 1 ≤ tick) (hS : 1 ≤ S) {delay : ℤ}
    (hdelay : 0 ≤ delay) :
    layerFor delay w.wheels = layerOf S (layers - 1) (delay.toNat / tick) := by
  rw [layerFor_eq_layerOf htick hS hdelay fun i wheel h ↦ (hw.wheel i wheel h).totalMs, hw.length]

theorem home_lt (tick S : ℕ) {layers : ℕ} (hlayers : 0 < layers) (delay : ℤ) :
    home tick S layers delay < layers :=
  Nat.lt_of_le_of_lt (Nat.min_le_right _ _) (by omega)

/-- The delay that `add_task_to_wheel` works with. -/
def delayOf (now : ℤ) (task : TimerTask Cb) : ℤ :=
  if task.expireTime - now ≤ 0 then 1 else task.expireTime - now

theorem delayOf_pos (now : ℤ) (task : TimerTask Cb) : 0 < delayOf now task := by
  rw [delayOf]
  split <;> omega

/-- A slot of a layer, and how many rounds a task waits in it. -/
structure Place where
  layer : ℕ
  slot : ℕ
  rounds : ℕ

/-- The place for a delay, counted from where the hand of its layer stands. -/
def placeFor (tick S layers : ℕ) (hand : ℕ → ℕ) (delay : ℤ) : Place :=
  let layer := layerOf S (layers - 1) (delay.toNat / tick)
  let ticks := delay.toNat / (tick * S ^ layer)
  ⟨layer, (hand layer + ticks) % S, ticks / S⟩

/-- The place of a delay in wheels of at least two slots. -/
theorem placeFor_eq_home (hS : 2 ≤ S) (tick layers : ℕ) (hand : ℕ → ℕ) (delay : ℤ) :
    placeFor tick S layers hand delay =
      ⟨home tick S layers delay,
        (hand (home tick S layers delay) +
          delay.toNat / (tick * S ^ home tick S layers delay)) % S,
        delay.toNat / (tick * S ^ home tick S layers delay) / S⟩ := by
  rw [placeFor, layerOf_eq_home hS]

/-- Append a task to the slot of a place. -/
def push (place : Place) (task : TimerTask Cb) (w : TimerWheel Cb) : TimerWheel Cb :=
  w.modifySlot place.layer place.slot (· ++ [{ task with roundsLeft := place.rounds }])

theorem Shaped.push (hw : Shaped tick S layers w) (place : Place) (task : TimerTask Cb) :
    Shaped tick S layers (w.push place task) := hw.modifySlot _ _ _

@[simp] theorem currentSlot_push (place : Place) (task : TimerTask Cb) :
    (w.push place task).currentSlot = w.currentSlot := currentSlot_modifySlot _ _ _

theorem placeFor_layer_lt (hlayers : 0 < layers) (hand : ℕ → ℕ) (delay : ℤ) :
    (placeFor tick S layers hand delay).layer < layers :=
  Nat.lt_of_le_of_lt (layerOf_le _ _ _) (by omega)

theorem placeFor_slot_lt (hS : 1 ≤ S) (hand : ℕ → ℕ) (delay : ℤ) :
    (placeFor tick S layers hand delay).slot < S := Nat.mod_lt _ (by omega)

theorem addTaskToWheel_eq_push (now : ℤ) (task : TimerTask Cb) :
    ∃ place : Place, addTaskToWheel now task w = w.push place task := by
  simp only [addTaskToWheel]
  split
  · refine ⟨⟨w.wheels.length, 0, 0⟩, ?_⟩
    rw [push, modifySlot, List.modify_eq_self le_rfl]
  · exact ⟨⟨_, _, _⟩, rfl⟩

/-- What a slot holds after a push. -/
theorem exists_tasks_push (place : Place) (task : TimerTask Cb) (layer slot : ℕ) :
    ∃ added, (w.push place task).tasks layer slot = w.tasks layer slot ++ added ∧
      ∀ t ∈ added, t = { task with roundsLeft := place.rounds } := by
  rcases tasks_modifySlot_eq_or (w := w) place.layer place.slot
    (· ++ [{ task with roundsLeft := place.rounds }]) layer slot with hsame | ⟨-, hnew⟩
  · exact ⟨[], by rw [push, hsame, List.append_nil], fun t ht ↦ absurd ht List.not_mem_nil⟩
  · exact ⟨_, hnew, fun t ht ↦ List.mem_singleton.1 ht⟩

/-- **Where a task goes.** -/
theorem addTaskToWheel_eq (hw : Shaped tick S layers w) (htick : 1 ≤ tick) (hS : 1 ≤ S)
    (hlayers : 0 < layers) (now : ℤ) (task : TimerTask Cb) :
    addTaskToWheel now task w =
      w.push (placeFor tick S layers w.currentSlot (delayOf now task)) task := by
  have hlt : (placeFor tick S layers w.currentSlot (delayOf now task)).layer < layers :=
    placeFor_layer_lt hlayers _ _
  obtain ⟨wheel, hwheel, hshape⟩ := hw.exists_wheel hlt
  have hlayer := layerFor_eq hw htick hS (delayOf_pos now task).le
  rw [placeFor] at hwheel hshape
  rw [delayOf] at hlayer hwheel hshape
  simp only [addTaskToWheel, push, placeFor, delayOf, hlayer, hwheel, hshape.tickMs,
    hshape.wheelSize, currentSlot, Option.map_some, Option.getD_some]

/-- A delay of less than a turn of wheel 0 has fewer ticks than there are slots. -/
theorem ticks_lt_iff (htick : 1 ≤ tick) {delay : ℤ} (hpos : 0 < delay) :
    delay.toNat / tick < S ↔ delay < (S * tick : ℕ) := by
  rw [Nat.div_lt_iff_lt_mul htick]
  omega

/-- Such a delay, and no other, goes to wheel 0. -/
theorem placeFor_layer_eq_zero_iff (htick : 1 ≤ tick) (hlayers : 2 ≤ layers) (hand : ℕ → ℕ)
    {delay : ℤ} (hpos : 0 < delay) :
    (placeFor tick S layers hand delay).layer = 0 ↔ delay < (S * tick : ℕ) := by
  obtain ⟨n, hn⟩ : ∃ n, layers - 1 = n + 1 := ⟨layers - 2, by omega⟩
  rw [← ticks_lt_iff htick hpos]
  simp only [placeFor, hn, layerOf]
  split
  · next hin => exact iff_of_true rfl hin
  · next hout => exact iff_of_false (Nat.succ_ne_zero _) hout

/-- There it goes so many slots on. -/
theorem placeFor_of_lt (htick : 1 ≤ tick) (hlayers : 2 ≤ layers) (hand : ℕ → ℕ) {delay : ℤ}
    (hpos : 0 < delay) (hlt : delay < (S * tick : ℕ)) :
    placeFor tick S layers hand delay = ⟨0, (hand 0 + delay.toNat / tick) % S, 0⟩ := by
  have hlayer := (placeFor_layer_eq_zero_iff htick hlayers hand hpos).2 hlt
  have hslots := (ticks_lt_iff htick hpos).2 hlt
  rw [placeFor] at hlayer ⊢
  dsimp only at hlayer ⊢
  rw [hlayer, pow_zero, mul_one, Nat.div_eq_of_lt hslots]

/-- A task that has at least a tick to wait does not go to the slot wheel 0 stands at. -/
theorem placeFor_ne_of_tick_le (htick : 1 ≤ tick) (hlayers : 2 ≤ layers)
    {hand : ℕ → ℕ} (hhand : hand 0 < S) {delay : ℤ} (hdelay : tick ≤ delay) :
    ¬ ((placeFor tick S layers hand delay).layer = 0 ∧
      (placeFor tick S layers hand delay).slot = hand 0) := by
  rintro ⟨hzero, hslot⟩
  have hlt := (placeFor_layer_eq_zero_iff htick hlayers hand (by omega)).1 hzero
  have hpos : 0 < delay.toNat / tick := Nat.div_pos (by omega) htick
  have hslots := (ticks_lt_iff htick (show 0 < delay by omega)).2 hlt
  rw [placeFor_of_lt htick hlayers hand (by omega) hlt] at hslot
  dsimp only at hslot
  have := (Odometer.add_mod_eq_self_iff hhand hslots).1 hslot
  omega

/-! ## What `process_slot` comes to -/

/-- The walk runs the task when it gets to it. -/
def Due (task : TimerTask Cb) : Prop := task.cancelled = false ∧ task.roundsLeft = 0

instance (task : TimerTask Cb) : Decidable (Due task) := inferInstanceAs (Decidable (_ ∧ _))

/-- A repeat timer whose interval is shorter than a tick: to run it is to append it to the slot it
is run from. -/
def Restless (tick : ℕ) (task : TimerTask Cb) : Prop := 0 < task.interval ∧ task.interval < tick

/-- What the walk leaves of a task. -/
def keep (task : TimerTask Cb) : Option (TimerTask Cb) :=
  if task.cancelled then none
  else if 0 < task.roundsLeft then some { task with roundsLeft := task.roundsLeft - 1 }
  else none

/-- What the walk does outside its slot because of a task. -/
def visit (now : ℤ) (w : TimerWheel Cb) (task : TimerTask Cb) : TimerWheel Cb :=
  if Due task then (w.readd now task).run now task else w

@[simp] theorem wheels_run (now : ℤ) (task : TimerTask Cb) :
    (w.run now task).wheels = w.wheels := by
  rw [run]
  split <;> rfl

theorem run_modifySlot (now : ℤ) (task : TimerTask Cb) (layer slot : ℕ)
    (f : List (TimerTask Cb) → List (TimerTask Cb)) :
    (w.modifySlot layer slot f).run now task = (w.run now task).modifySlot layer slot f := by
  rw [run, run]
  split <;> rfl

/-- The walk along a slot between two of its turns: where it is, and the wheel. -/
structure Walk (Cb : Type) where
  it : ℕ
  wheel : TimerWheel Cb

/-- The tasks the walk has not come to yet. -/
def Walk.ahead (layer slot : ℕ) (p : Walk Cb) : List (TimerTask Cb) :=
  (p.wheel.tasks layer slot).drop p.it

/-- One turn of the loop of `process_slot`. -/
def Walk.turn (now : ℤ) (layer slot : ℕ) (p : Walk Cb) : Walk Cb :=
  match (p.wheel.tasks layer slot)[p.it]? with
  | none => p
  | some task =>
    if task.cancelled then ⟨p.it, p.wheel.modifySlot layer slot (·.eraseIdx p.it)⟩
    else if 0 < task.roundsLeft then
      ⟨p.it + 1, p.wheel.modifySlot layer slot
        (·.set p.it { task with roundsLeft := task.roundsLeft - 1 })⟩
    else ⟨p.it, ((p.wheel.readd now task).modifySlot layer slot (·.eraseIdx p.it)).run now task⟩

section Turn

variable {now : ℤ} {layer slot : ℕ} {p : Walk Cb}

theorem Walk.getElem?_eq_head? (p : Walk Cb) (layer slot : ℕ) :
    (p.wheel.tasks layer slot)[p.it]? = (p.ahead layer slot).head? := by
  rw [ahead, List.head?_drop]

theorem Walk.turn_of_end (h : p.ahead layer slot = []) : p.turn now layer slot = p := by
  rw [turn, getElem?_eq_head?, h, List.head?_nil]

/-- **The walk is made of turns**: it returns when it has nothing ahead of it any more. -/
theorem processFrom_ok_iff {fuel it : ℕ} {w' : TimerWheel Cb} :
    processFrom now layer slot fuel it w = .ok w' ↔
      ∃ n < fuel, ((Walk.turn now layer slot)^[n] ⟨it, w⟩).ahead layer slot = [] ∧
        ((Walk.turn now layer slot)^[n] ⟨it, w⟩).wheel = w' := by
  induction fuel generalizing it w with
  | zero => simp [processFrom]
  | succ fuel ih =>
    have hhead := Walk.getElem?_eq_head? ⟨it, w⟩ layer slot
    rcases hahead : Walk.ahead layer slot ⟨it, w⟩ with _ | ⟨task, rest⟩
    · have hfix (n : ℕ) : (Walk.turn now layer slot)^[n] ⟨it, w⟩ = ⟨it, w⟩ :=
        Function.iterate_fixed (Walk.turn_of_end hahead) n
      rw [hahead, List.head?_nil] at hhead
      simp only [processFrom, hhead, hfix, hahead, true_and]
      exact ⟨fun h ↦ ⟨0, Nat.succ_pos _, Except.ok.inj h⟩, fun ⟨_, _, h⟩ ↦ congrArg _ h⟩
    · rw [hahead, List.head?_cons] at hhead
      have hstep : processFrom now layer slot (fuel + 1) it w = processFrom now layer slot fuel
          (Walk.turn now layer slot ⟨it, w⟩).it (Walk.turn now layer slot ⟨it, w⟩).wheel := by
        simp only [processFrom, Walk.turn, hhead]
        split
        · rfl
        · split <;> rfl
      rw [hstep, ih]
      constructor
      · rintro ⟨n, hn, h⟩
        exact ⟨n + 1, Nat.succ_lt_succ hn, h⟩
      · rintro ⟨n, hn, h⟩
        rcases n with _ | n
        · rw [Function.iterate_zero_apply, hahead] at h
          exact absurd h.1 (List.cons_ne_nil _ _)
        · exact ⟨n, Nat.lt_of_succ_lt_succ hn, h⟩

/-- A walk that has come to its end stays there. -/
theorem iterate_turn_of_le {m n : ℕ} (hmn : m ≤ n)
    (h : ((Walk.turn now layer slot)^[m] p).ahead layer slot = []) :
    (Walk.turn now layer slot)^[n] p = (Walk.turn now layer slot)^[m] p := by
  obtain ⟨k, rfl⟩ := Nat.exists_eq_add_of_le' hmn
  rw [Function.iterate_add_apply, Function.iterate_fixed (Walk.turn_of_end h)]

theorem iterate_turn_unique {m n : ℕ}
    (hm : ((Walk.turn now layer slot)^[m] p).ahead layer slot = [])
    (hn : ((Walk.turn now layer slot)^[n] p).ahead layer slot = []) :
    (Walk.turn now layer slot)^[n] p = (Walk.turn now layer slot)^[m] p :=
  (le_total m n).elim (fun hle ↦ iterate_turn_of_le hle hm)
    fun hle ↦ (iterate_turn_of_le hle hn).symm

/-- Where a repeat timer is added again. -/
theorem exists_tasks_visit (now : ℤ) (task : TimerTask Cb) (layer slot : ℕ) :
    ∃ added, (w.visit now task).tasks layer slot = w.tasks layer slot ++ added ∧
      ∀ t ∈ added, Due task ∧ 0 < task.interval ∧
        ∃ rounds, t = { task with expireTime := now + task.interval, roundsLeft := rounds } := by
  rw [visit]
  split
  · next hdue =>
    rw [tasks_of_wheels (wheels_run _ _), readd]
    split
    · next hrepeat =>
      obtain ⟨place, hplace⟩ :=
        addTaskToWheel_eq_push (w := w) now { task with expireTime := now + task.interval }
      rw [hplace, tasks_register]
      obtain ⟨added, hadded, hall⟩ := exists_tasks_push (w := w) place
        { task with expireTime := now + task.interval } layer slot
      exact ⟨added, hadded, fun t ht ↦ ⟨hdue, hrepeat, _, hall t ht⟩⟩
    · exact ⟨[], (List.append_nil _).symm, fun t ht ↦ absurd ht List.not_mem_nil⟩
  · exact ⟨[], (List.append_nil _).symm, fun t ht ↦ absurd ht List.not_mem_nil⟩

theorem Shaped.visit (hw : Shaped tick S layers w) (now : ℤ) (task : TimerTask Cb) :
    Shaped tick S layers (w.visit now task) := by
  rw [TimerWheel.visit]
  split
  · refine Shaped.of_wheels (wheels_run _ _) ?_
    rw [readd]
    split
    · obtain ⟨place, hplace⟩ :=
        addTaskToWheel_eq_push (w := w) now { task with expireTime := now + task.interval }
      rw [hplace]
      exact (hw.push _ _).register _
    · exact hw
  · exact hw

theorem currentSlot_visit (now : ℤ) (task : TimerTask Cb) :
    (w.visit now task).currentSlot = w.currentSlot := by
  rw [visit]
  split
  · rw [currentSlot_of_wheels (wheels_run _ _), readd]
    split
    · obtain ⟨place, hplace⟩ :=
        addTaskToWheel_eq_push (w := w) now { task with expireTime := now + task.interval }
      rw [hplace, currentSlot_register, currentSlot_push]
    · rfl
  · rfl

theorem shaped_foldl_visit (hw : Shaped tick S layers w) (now : ℤ) (todo : List (TimerTask Cb)) :
    Shaped tick S layers (todo.foldl (visit now) w) ∧
      (todo.foldl (visit now) w).currentSlot = w.currentSlot := by
  induction todo generalizing w with
  | nil => exact ⟨hw, rfl⟩
  | cons task rest ih =>
    obtain ⟨hshaped, hcur⟩ := ih (hw.visit now task)
    exact ⟨hshaped, hcur.trans (currentSlot_visit now task)⟩

/-- **What a turn of the walk is**: it drops the task it is at if that is cancelled, counts one of
its rounds, or takes it out and visits it. -/
theorem Walk.turn_cases (now : ℤ) {task : TimerTask Cb} {rest : List (TimerTask Cb)}
    (hahead : p.ahead layer slot = task :: rest) :
    (task.cancelled = true ∧
      p.turn now layer slot = ⟨p.it, p.wheel.modifySlot layer slot (·.eraseIdx p.it)⟩) ∨
    (task.cancelled = false ∧ 0 < task.roundsLeft ∧
      p.turn now layer slot = ⟨p.it + 1, p.wheel.modifySlot layer slot
        (·.set p.it { task with roundsLeft := task.roundsLeft - 1 })⟩) ∨
    (Due task ∧ p.turn now layer slot =
      ⟨p.it, (p.wheel.visit now task).modifySlot layer slot (·.eraseIdx p.it)⟩) := by
  have hhead : (p.wheel.tasks layer slot)[p.it]? = some task := by
    rw [getElem?_eq_head?, hahead, List.head?_cons]
  simp only [turn, hhead]
  split
  · next hcancelled => exact .inl ⟨hcancelled, rfl⟩
  · next hcancelled =>
    have hlive : task.cancelled = false := by simpa using hcancelled
    split
    · next hrounds => exact .inr (.inl ⟨hlive, hrounds, rfl⟩)
    · next hrounds =>
      have hdue : Due task := ⟨hlive, by omega⟩
      refine .inr (.inr ⟨hdue, ?_⟩)
      rw [run_modifySlot, visit, if_pos hdue]

/-- A turn takes one task from what is ahead, and what is added again to the slot comes behind. -/
theorem Walk.ahead_turn {task : TimerTask Cb} {rest added : List (TimerTask Cb)}
    (hahead : p.ahead layer slot = task :: rest)
    (hvisit : (p.wheel.visit now task).tasks layer slot = p.wheel.tasks layer slot ++ added) :
    (p.turn now layer slot).ahead layer slot = rest ++ added := by
  have hrest : (p.wheel.tasks layer slot).drop (p.it + 1) = rest := by
    rw [← List.tail_drop]
    exact congrArg List.tail hahead
  have hlen : p.it < (p.wheel.tasks layer slot).length := by
    by_contra hout
    rw [ahead, List.drop_eq_nil_of_le (by omega)] at hahead
    cases hahead
  have hundue (h : ¬ Due task) : added = [] := by
    rw [visit, if_neg h] at hvisit
    exact List.self_eq_append_right.1 hvisit
  have herase {w : TimerWheel Cb}
      (htasks : w.tasks layer slot = p.wheel.tasks layer slot ++ added) :
      ahead layer slot ⟨p.it, w.modifySlot layer slot (·.eraseIdx p.it)⟩ = rest ++ added := by
    rw [ahead, tasks_modifySlot_self (by rfl), htasks, List.eraseIdx_append_of_lt_length hlen,
      List.eraseIdx_eq_take_drop_succ, List.append_assoc, List.drop_left' (by simp; omega), hrest]
  rcases turn_cases now hahead with ⟨h, hturn⟩ | ⟨h, hrounds, hturn⟩ | ⟨hdue, hturn⟩
  · rw [hturn, herase]
    rw [hundue (by simp [Due, h]), List.append_nil]
  · rw [hturn, ahead, tasks_modifySlot_self (by rfl), List.drop_set_of_lt (Nat.lt_succ_self _),
      hrest, hundue (by simp [Due]; omega), List.append_nil]
  · rw [hturn, herase hvisit]

theorem Walk.shaped_turn (hw : Shaped tick S layers p.wheel) :
    Shaped tick S layers (p.turn now layer slot).wheel ∧
      (p.turn now layer slot).wheel.currentSlot = p.wheel.currentSlot := by
  rcases hahead : p.ahead layer slot with _ | ⟨task, rest⟩
  · rw [turn_of_end hahead]
    exact ⟨hw, rfl⟩
  · rcases turn_cases now hahead with ⟨-, hturn⟩ | ⟨-, -, hturn⟩ | ⟨-, hturn⟩ <;> rw [hturn]
    · exact ⟨hw.modifySlot _ _ _, currentSlot_modifySlot _ _ _⟩
    · exact ⟨hw.modifySlot _ _ _, currentSlot_modifySlot _ _ _⟩
    · exact ⟨(hw.visit now task).modifySlot _ _ _,
        (currentSlot_modifySlot _ _ _).trans (currentSlot_visit now task)⟩

theorem Walk.shaped_iterate_turn (now : ℤ) (layer slot : ℕ) (hw : Shaped tick S layers p.wheel)
    (n : ℕ) : Shaped tick S layers ((Walk.turn now layer slot)^[n] p).wheel ∧
      ((Walk.turn now layer slot)^[n] p).wheel.currentSlot = p.wheel.currentSlot := by
  induction n with
  | zero => exact ⟨hw, rfl⟩
  | succ n ih =>
    rw [Function.iterate_succ_apply']
    obtain ⟨hshaped, hcur⟩ := shaped_turn ih.1
    exact ⟨hshaped, hcur.trans ih.2⟩

end Turn

section Walk

variable (hw : Shaped tick S layers w) (htick : 1 ≤ tick) (hS : 1 ≤ S) (hlayers : 2 ≤ layers)

include hw htick hS hlayers

/-- What is added again when a timer is due. -/
theorem readd_eq (now : ℤ) (task : TimerTask Cb) :
    w.readd now task =
      if 0 < task.interval then
        (w.push (placeFor tick S layers w.currentSlot task.interval)
          { task with expireTime := now + task.interval }).register task.id
      else w := by
  rw [readd]
  split
  · next hrepeat =>
    have hdelay : delayOf now { task with expireTime := now + task.interval } = task.interval := by
      simp only [delayOf, add_sub_cancel_left]
      rw [if_neg (by omega)]
    rw [addTaskToWheel_eq hw htick hS (by omega), hdelay]
  · rfl

variable {task : TimerTask Cb} (hcalm : ¬ (Due task ∧ Restless tick task))

include hcalm

omit hS in
theorem placeFor_interval_ne (hdue : Due task) (hrepeat : 0 < task.interval) :
    ¬ ((placeFor tick S layers w.currentSlot task.interval).layer = 0 ∧
      (placeFor tick S layers w.currentSlot task.interval).slot = w.currentSlot 0) := by
  refine placeFor_ne_of_tick_le htick hlayers (hw.currentSlot_lt (by omega)) ?_
  by_contra hlt
  exact hcalm ⟨hdue, hrepeat, by omega⟩

/-- A visit to a timer that is not restless leaves the slot alone that the walk goes along. -/
theorem tasks_visit (now : ℤ) :
    (w.visit now task).tasks 0 (w.currentSlot 0) = w.tasks 0 (w.currentSlot 0) := by
  rw [visit, readd_eq hw htick hS hlayers]
  split
  · next hdue =>
    rw [tasks_of_wheels (wheels_run _ _)]
    split
    · next hrepeat =>
      rw [tasks_register, push, tasks_modifySlot hw (placeFor_layer_lt (by omega) _ _)
        (placeFor_slot_lt hS _ _),
        if_neg (placeFor_interval_ne hw htick hlayers hcalm hdue hrepeat)]
    · rfl
  · rfl

theorem visit_modifySlot (now : ℤ) (f : List (TimerTask Cb) → List (TimerTask Cb)) :
    (w.modifySlot 0 (w.currentSlot 0) f).visit now task =
      (w.visit now task).modifySlot 0 (w.currentSlot 0) f := by
  rw [visit, visit, readd_eq hw htick hS hlayers, readd_eq (hw.modifySlot _ _ _) htick hS hlayers]
  split
  · next hdue =>
    rw [← run_modifySlot]
    congr 1
    split
    · next hrepeat =>
      have hne := placeFor_interval_ne hw htick hlayers hcalm hdue hrepeat
      rw [currentSlot_modifySlot, push, push,
        modifySlot_comm fun h ↦ hne ⟨h.1.symm, h.2.symm⟩]
      rfl
    · rfl
  · rfl

end Walk

section Walk

variable (htick : 1 ≤ tick) (hS : 1 ≤ S) (hlayers : 2 ≤ layers)

include htick hS hlayers

/-- The walk comes past a timer that is not restless. -/
theorem Walk.turn_of_kept (hw : Shaped tick S layers w) (now : ℤ) {task : TimerTask Cb}
    {kept todo : List (TimerTask Cb)} (hcalm : ¬ (Due task ∧ Restless tick task)) :
    Walk.turn now 0 (w.currentSlot 0)
        ⟨kept.length, w.modifySlot 0 (w.currentSlot 0) fun _ ↦ kept ++ task :: todo⟩ =
      ⟨(kept ++ (keep task).toList).length, (w.visit now task).modifySlot 0 (w.currentSlot 0)
        fun _ ↦ kept ++ (keep task).toList ++ todo⟩ := by
  have hlayer : 0 < layers := by omega
  have hahead : Walk.ahead 0 (w.currentSlot 0)
      ⟨kept.length, w.modifySlot 0 (w.currentSlot 0) fun _ ↦ kept ++ task :: todo⟩ =
        task :: todo := by
    rw [ahead, tasks_modifySlot hw hlayer (hw.currentSlot_lt hlayer), if_pos ⟨rfl, rfl⟩]
    exact List.drop_left
  have herase : (kept ++ task :: todo).eraseIdx kept.length = kept ++ todo := by
    simp [List.eraseIdx_append_of_length_le]
  rcases turn_cases now hahead with ⟨h, hturn⟩ | ⟨h, hrounds, hturn⟩ | ⟨hdue, hturn⟩
  · have hkeep : keep task = none := by rw [keep, if_pos h]
    rw [hturn, hkeep, visit, if_neg (by simp [Due, h]), modifySlot_modifySlot]
    simp only [Function.comp_def, herase, Option.toList_none, List.append_nil]
  · have hkeep : keep task = some { task with roundsLeft := task.roundsLeft - 1 } := by
      rw [keep, if_neg (by simp [h]), if_pos hrounds]
    rw [hturn, hkeep, visit, if_neg (by simp [Due]; omega), modifySlot_modifySlot]
    simp [Function.comp_def]
  · have hkeep : keep task = none := by
      rw [keep, if_neg (by simp [hdue.1]), if_neg (by simp [hdue.2])]
    rw [hturn, hkeep, visit_modifySlot hw htick hS hlayers hcalm, modifySlot_modifySlot]
    simp only [Function.comp_def, herase, Option.toList_none, List.append_nil]

/-- The walk, when it has come past the tasks `done`. -/
theorem iterate_turn_eq (hw : Shaped tick S layers w) (now : ℤ) {done todo : List (TimerTask Cb)}
    (htasks : w.tasks 0 (w.currentSlot 0) = done ++ todo)
    (hcalm : ∀ task ∈ done, ¬ (Due task ∧ Restless tick task)) :
    (Walk.turn now 0 (w.currentSlot 0))^[done.length] ⟨0, w⟩ =
      ⟨(done.filterMap keep).length, (done.foldl (visit now) w).modifySlot 0 (w.currentSlot 0)
        fun _ ↦ done.filterMap keep ++ todo⟩ := by
  have hlayer : 0 < layers := by omega
  induction done using List.reverseRecOn generalizing todo with
  | nil =>
    rw [List.nil_append] at htasks
    simp [← htasks, modifySlot_tasks hw hlayer (hw.currentSlot_lt hlayer)]
  | append_singleton done task ih =>
    obtain ⟨hdone, htask⟩ := List.forall_mem_append.1 hcalm
    obtain ⟨hw', hcur⟩ := shaped_foldl_visit hw now done
    rw [List.append_assoc] at htasks
    rw [List.length_append, List.length_singleton, Function.iterate_succ_apply', ih htasks hdone,
      ← hcur, List.singleton_append,
      Walk.turn_of_kept htick hS hlayers hw' now (htask task (List.mem_singleton_self _)),
      List.filterMap_append, List.foldl_append]
    rfl

/-- A restless timer is appended to the slot it is run from. -/
theorem tasks_visit_of_restless (hw : Shaped tick S layers w) (now : ℤ) {task : TimerTask Cb}
    (hdue : Due task) (hrestless : Restless tick task) :
    (w.visit now task).tasks 0 (w.currentSlot 0) =
      w.tasks 0 (w.currentSlot 0) ++
        [{ task with expireTime := now + task.interval, roundsLeft := 0 }] := by
  obtain ⟨hrepeat, hshort⟩ := hrestless
  have hdiv : task.interval.toNat / tick = 0 := Nat.div_eq_of_lt (by omega)
  have hle : 1 * tick ≤ S * tick := Nat.mul_le_mul_right _ hS
  have hcur : w.currentSlot 0 % S = w.currentSlot 0 :=
    Nat.mod_eq_of_lt (hw.currentSlot_lt (by omega))
  have hplace : placeFor tick S layers w.currentSlot task.interval = ⟨0, w.currentSlot 0, 0⟩ := by
    rw [placeFor_of_lt htick hlayers _ hrepeat (by omega), hdiv, Nat.add_zero, hcur]
  rw [visit, if_pos hdue, tasks_of_wheels (wheels_run _ _), readd_eq hw htick hS hlayers,
    if_pos hrepeat, hplace, tasks_register, push,
    tasks_modifySlot hw (show 0 < layers by omega) (hw.currentSlot_lt (by omega)),
    if_pos ⟨rfl, rfl⟩]

/-- **A walk that has a restless timer ahead of it never comes to its end.** -/
theorem ahead_ne_nil_of_restless (hw : Shaped tick S layers w) (now : ℤ) {task : TimerTask Cb}
    (htask : task ∈ w.tasks 0 (w.currentSlot 0)) (hdue : Due task) (hrestless : Restless tick task)
    (n : ℕ) :
    ((Walk.turn now 0 (w.currentSlot 0))^[n] ⟨0, w⟩).ahead 0 (w.currentSlot 0) ≠ [] := by
  -- there is always one ahead: the one that is run comes behind as a new one
  have hstuck : ∃ task ∈ ((Walk.turn now 0 (w.currentSlot 0))^[n] ⟨0, w⟩).ahead 0 (w.currentSlot 0),
      Due task ∧ Restless tick task := by
    induction n with
    | zero => exact ⟨task, htask, hdue, hrestless⟩
    | succ n ih =>
      obtain ⟨task, htask, hdue, hrestless⟩ := ih
      obtain ⟨hwn, hcur⟩ := Walk.shaped_iterate_turn (p := ⟨0, w⟩) now 0 (w.currentSlot 0) hw n
      rw [Function.iterate_succ_apply']
      generalize (Walk.turn now 0 (w.currentSlot 0))^[n] ⟨0, w⟩ = p at *
      rcases hahead : p.ahead 0 (w.currentSlot 0) with _ | ⟨head, rest⟩
      · rw [hahead] at htask
        cases htask
      rw [hahead] at htask
      rcases List.mem_cons.1 htask with rfl | hlater
      · have hvisit := tasks_visit_of_restless htick hS hlayers hwn now hdue hrestless
        rw [hcur] at hvisit
        rw [Walk.ahead_turn hahead hvisit]
        exact ⟨_, List.mem_append_right _ (List.mem_singleton_self _), ⟨hdue.1, rfl⟩, hrestless⟩
      · obtain ⟨added, hvisit, -⟩ :=
          exists_tasks_visit (w := p.wheel) now head 0 (w.currentSlot 0)
        rw [Walk.ahead_turn hahead hvisit]
        exact ⟨task, List.mem_append_left _ hlater, hdue, hrestless⟩
  obtain ⟨task, htask, -⟩ := hstuck
  exact List.ne_nil_of_mem htask

end Walk

/-- No due task of the slot wheel 0 stands at is restless. -/
def Calm (tick : ℕ) (w : TimerWheel Cb) : Prop :=
  ∀ task ∈ w.tasks 0 (w.currentSlot 0), ¬ (Due task ∧ Restless tick task)

/-- The slot wheel 0 stands at, after the walk: the due tasks have run, the others are kept. -/
def sweep (now : ℤ) (w : TimerWheel Cb) : TimerWheel Cb :=
  ((w.tasks 0 (w.currentSlot 0)).foldl (visit now) w).modifySlot 0 (w.currentSlot 0)
    fun _ ↦ (w.tasks 0 (w.currentSlot 0)).filterMap keep

/-- **What `process_slot` comes to**: it ends unless a restless timer is due, and then every task of
the slot has been visited once. -/
theorem processSlot_ok_iff (hw : Shaped tick S layers w) (htick : 1 ≤ tick) (hS : 1 ≤ S)
    (hlayers : 2 ≤ layers) {now : ℤ} {w' : TimerWheel Cb} :
    (∃ fuel, w.processSlot fuel now 0 (w.currentSlot 0) = .ok w') ↔
      Calm tick w ∧ w' = w.sweep now := by
  have hends (hcalm : Calm tick w) :
      (Walk.turn now 0 (w.currentSlot 0))^[(w.tasks 0 (w.currentSlot 0)).length] ⟨0, w⟩ =
        ⟨((w.tasks 0 (w.currentSlot 0)).filterMap keep).length, w.sweep now⟩ := by
    have heq := iterate_turn_eq htick hS hlayers hw now (List.append_nil _).symm hcalm
    rw [List.append_nil] at heq
    exact heq
  have hahead : Walk.ahead 0 (w.currentSlot 0)
      ⟨((w.tasks 0 (w.currentSlot 0)).filterMap keep).length, w.sweep now⟩ = [] := by
    have hlayer : 0 < layers := by omega
    rw [Walk.ahead, sweep, tasks_modifySlot (shaped_foldl_visit hw now _).1 hlayer
      (hw.currentSlot_lt hlayer), if_pos ⟨rfl, rfl⟩, List.drop_length]
  constructor
  · rintro ⟨fuel, hok⟩
    obtain ⟨n, -, hend, rfl⟩ := processFrom_ok_iff.1 hok
    have hcalm : Calm tick w := fun task htask ⟨hdue, hrestless⟩ ↦
      ahead_ne_nil_of_restless htick hS hlayers hw now htask hdue hrestless n hend
    refine ⟨hcalm, ?_⟩
    rw [← hends hcalm] at hahead
    rw [iterate_turn_unique hahead hend, hends hcalm]
  · rintro ⟨hcalm, rfl⟩
    refine ⟨(w.tasks 0 (w.currentSlot 0)).length + 1,
      processFrom_ok_iff.2 ⟨_, Nat.lt_succ_self _, ?_, ?_⟩⟩ <;> rw [hends hcalm]
    exact hahead

end TimerWheel
end Core
end ChwellCore
