import ChwellCore.Core.TimerTasks
import ChwellCore.Lib.Run

/-!
# A timer wheel that is driven on time

`tick` is called at every multiple of `tick_ms`, and whatever else is done with the wheel is done at
some instant between two ticks.  When does the callback of a timer run?

Only wheel 0 runs callbacks, and it does so within a tick of the expiry of whatever is in it.  A
timer whose delay is longer than a turn of wheel 0 first waits in a higher wheel, in the slot that
the hand of that wheel reaches when the delay is over, give or take a slot.  But `tick` cascades a
wheel before it moves its hand: the task is taken out when the hand *leaves* the slot, and by then
it may have expired long ago.  `fireTick` is the tick at which a timer runs, and `OnCourse.run` says
that it does, whatever other timers there are and whatever is done with them.

It follows when such a timer is on time, that is, at most one tick away from its expiry
(`onTime_iff`).  What its delay has below a whole number of slots of its wheel, together with the
time that has passed since the hand of this wheel last moved, has to make up a slot: then the hand
leaves before the timer expires.  If it makes up a slot and a turn of wheel 0, then the timer is
cascaded a second time, and too late.  `runs_too_late` is a timer of two ticks that runs after five.
-/

set_option autoImplicit false

namespace ChwellCore
namespace Core

open TimerWheel

variable {Cb : Type}

/-- A wheel, and the number of the last tick: it was called at `last * tick_ms`. -/
structure Driven (Cb : Type) where
  wheel : TimerWheel Cb
  last : ℤ
deriving DecidableEq

/-- What is done with a wheel.  An offset is the time since the last tick. -/
inductive TimerOp (Cb : Type) where
  | addTimer (offset delayMs : ℤ) (callback : Option Cb)
  | addRepeatTimer (offset intervalMs : ℤ) (callback : Option Cb)
  | cancelTimer (handle : TimerHandle)
  | tick

namespace TimerOp

/-- The operation happens between two ticks. -/
def OnTheClock (tick : ℕ) : TimerOp Cb → Prop
  | addTimer offset _ _ => 0 ≤ offset ∧ offset ≤ tick
  | addRepeatTimer offset _ _ => 0 ≤ offset ∧ offset ≤ tick
  | cancelTimer _ => True
  | .tick => True

/-- The operation does not cancel timer `x`. -/
def Spares (x : ℕ) : TimerOp Cb → Prop
  | cancelTimer handle => handle.id ≠ x
  | _ => True

/-- The operation adds no repeat timer whose interval is shorter than a tick. -/
def Patient (tick : ℕ) : TimerOp Cb → Prop
  | addRepeatTimer _ intervalMs _ => ¬ (0 < intervalMs ∧ intervalMs < tick)
  | _ => True

end TimerOp

namespace Driven

/-- The time, so many milliseconds after the last tick. -/
def now (tick : ℕ) (s : Driven Cb) (offset : ℤ) : ℤ := s.last * tick + offset

/-- One operation, where a tick gets so many steps. -/
def exec (tick fuel : ℕ) (s : Driven Cb) : TimerOp Cb → Except Halt (Driven Cb)
  | .addTimer offset delayMs callback =>
    .ok { s with wheel := (s.wheel.addTimer (s.now tick offset) delayMs callback).1 }
  | .addRepeatTimer offset intervalMs callback =>
    .ok { s with wheel := (s.wheel.addRepeatTimer (s.now tick offset) intervalMs callback).1 }
  | .cancelTimer handle => .ok { s with wheel := (s.wheel.cancelTimer handle).1 }
  | .tick => (s.wheel.tick fuel (s.now tick tick)).map fun wheel ↦ ⟨wheel, s.last + 1⟩

/-- The wheel under operations that return. -/
def system (tick : ℕ) : System (Driven Cb) (TimerOp Cb) :=
  ⟨fun s op t ↦ op.OnTheClock tick ∧ ∃ fuel, s.exec tick fuel op = .ok t⟩

/-- A new wheel, last ticked at any multiple of `tick_ms`. -/
def init (tick S layers : ℕ) (last : ℤ) : Driven Cb := ⟨.new tick S layers, last⟩

/-! ## What the operations do to one timer -/

variable {tick S layers x : ℕ}

/-- What holds of every wheel that is driven: its shape, and that nothing is known of timers that
have not been added yet. -/
structure Sound (tick S layers : ℕ) (w : TimerWheel Cb) : Prop where
  shaped : Shaped tick S layers w
  fresh : ∀ x, w.nextId ≤ x → w.Absent x ∧ w.firings x = []

/-- Nothing has changed for timer `x`. -/
structure Untouched (tick S layers x : ℕ) (w w' : TimerWheel Cb) : Prop where
  shaped : Shaped tick S layers w'
  hands : w'.currentSlot = w.currentSlot
  nextId : w.nextId ≤ w'.nextId
  held : w'.held x = w.held x
  firings : w'.firings x = w.firings x

theorem Untouched.refl {w : TimerWheel Cb} (hw : Shaped tick S layers w) :
    Untouched tick S layers x w w := ⟨hw, rfl, le_rfl, rfl, rfl⟩

theorem Untouched.absent {w w' : TimerWheel Cb} (h : Untouched tick S layers x w w')
    (habsent : w.Absent x ∧ w.firings x = []) : w'.Absent x ∧ w'.firings x = [] :=
  ⟨fun layer slot ↦ by rw [h.held]; exact habsent.1 layer slot, h.firings.trans habsent.2⟩

theorem untouched_cancelTimer {w : TimerWheel Cb} (hw : Shaped tick S layers w)
    {handle : TimerHandle}
    (hne : handle.id ≠ x) : Untouched tick S layers x w (w.cancelTimer handle).1 := by
  rw [cancelTimer]
  split
  · split
    · refine ⟨Shaped.of_wheels (w := w.setCancelled handle.id) rfl (hw.setCancelled handle.id), ?_,
        le_rfl, ?_, rfl⟩
      · exact currentSlot_setCancelled handle.id
      · exact held_setCancelled_of_ne hne
    · exact .refl hw
  · exact .refl hw

section

variable (htick : 1 ≤ tick) (hS : 1 ≤ S) (hlayers : 2 ≤ layers)

include htick hS hlayers

theorem untouched_addTask {w : TimerWheel Cb} (hw : Shaped tick S layers w) (hne : w.nextId ≠ x)
    (now delayMs interval : ℤ) (callback : Option Cb) :
    Untouched tick S layers x w (w.addTask now delayMs interval callback).1 := by
  by_cases hok : delayMs ≤ 0 ∨ callback = none
  · rw [addTask, if_pos hok]
    exact .refl hw
  · obtain ⟨hdelay, hcallback⟩ := not_or.1 hok
    obtain ⟨callback, rfl⟩ := Option.ne_none_iff_exists'.1 hcallback
    have hw' : Shaped tick S layers ({ w with nextId := w.nextId + 1 } : TimerWheel Cb) :=
      Shaped.of_wheels (w := w) rfl hw
    rw [addTask_eq hw htick hS hlayers now interval (by omega) callback]
    refine ⟨(hw'.push _ _).register _, ?_, Nat.le_succ _, ?_, rfl⟩
    · rw [currentSlot_register, currentSlot_push]
      rfl
    · rw [held_of_tasks (tasks_register _)]
      exact held_push_of_ne hw' (placeFor_layer_lt (by omega) _ _) (placeFor_slot_lt hS _ _) hne

omit htick hS hlayers in
/-- A step of the clock is a tick that returns. -/
theorem step_tick {s t : Driven Cb} :
    (system tick).step s .tick t ↔
      (∃ fuel, s.wheel.tick fuel (s.now tick tick) = .ok t.wheel) ∧ t.last = s.last + 1 := by
  constructor
  · rintro ⟨-, fuel, hexec⟩
    rw [exec] at hexec
    cases hok : s.wheel.tick fuel (s.now tick tick) with
    | error halt =>
      rw [hok] at hexec
      cases hexec
    | ok w =>
      rw [hok] at hexec
      cases Except.ok.inj hexec
      exact ⟨⟨fuel, hok⟩, rfl⟩
  · rintro ⟨⟨fuel, hok⟩, hlast⟩
    refine ⟨trivial, fuel, ?_⟩
    rw [exec, hok, ← hlast]
    rfl

theorem step_tick_iff {s t : Driven Cb} (hw : Shaped tick S layers s.wheel) :
    (system tick).step s .tick t ↔
      Calm tick s.wheel ∧
        t = ⟨s.wheel.ticking S (min (layers - 1) 3) (s.now tick tick), s.last + 1⟩ := by
  rw [step_tick, tick_ok_iff_ticking htick hS hlayers hw, and_assoc]
  refine and_congr_right fun _ ↦ ⟨?_, ?_⟩
  · rintro ⟨hwheel, hlast⟩
    rw [← hwheel, ← hlast]
  · rintro rfl
    exact ⟨rfl, rfl⟩

/-- **What a step can do**: it is a tick that returns, or it adds a timer or cancels one between two
ticks. -/
theorem step_cases {s t : Driven Cb} {op : TimerOp Cb}
    (hw : Shaped tick S layers s.wheel) (hstep : (system tick).step s op t) :
    (op = .tick ∧
      t = ⟨s.wheel.ticking S (min (layers - 1) 3) (s.now tick tick), s.last + 1⟩) ∨
    (∃ (now delayMs interval : ℤ) (callback : Option Cb),
      (op.Patient tick → ¬ (0 < interval ∧ interval < tick)) ∧
      t = { s with wheel := (s.wheel.addTask now delayMs interval callback).1 }) ∨
    (∃ handle, op = .cancelTimer handle ∧
      t = { s with wheel := (s.wheel.cancelTimer handle).1 }) := by
  cases op with
  | tick => exact .inl ⟨rfl, ((step_tick_iff htick hS hlayers hw).1 hstep).2⟩
  | addTimer offset delayMs callback =>
    obtain ⟨-, fuel, hexec⟩ := hstep
    exact .inr (.inl ⟨_, _, 0, _, fun _ ↦ by omega, (Except.ok.inj hexec).symm⟩)
  | addRepeatTimer offset intervalMs callback =>
    obtain ⟨-, fuel, hexec⟩ := hstep
    exact .inr (.inl ⟨_, _, intervalMs, _, id, (Except.ok.inj hexec).symm⟩)
  | cancelTimer handle =>
    obtain ⟨-, fuel, hexec⟩ := hstep
    exact .inr (.inr ⟨handle, rfl, (Except.ok.inj hexec).symm⟩)

/-- **What nobody but a tick changes**: an operation that spares a timer keeps what a tick keeps and
what depends on nothing but the timer. -/
theorem step_of_untouched {motive : Driven Cb → Prop} {s t : Driven Cb} {op : TimerOp Cb}
    (hw : Shaped tick S layers s.wheel) (hx : x < s.wheel.nextId) (hspares : op.Spares x)
    (hstep : (system tick).step s op t)
    (hticking : motive
      ⟨s.wheel.ticking S (min (layers - 1) 3) (s.now tick tick), s.last + 1⟩)
    (huntouched : ∀ w, Untouched tick S layers x s.wheel w → motive { s with wheel := w }) :
    x < t.wheel.nextId ∧ motive t := by
  rcases step_cases htick hS hlayers hw hstep with
    ⟨-, rfl⟩ | ⟨now, delayMs, interval, callback, -, rfl⟩ | ⟨handle, rfl, rfl⟩
  · exact ⟨hx.trans_eq (nextId_ticking _ _ _).symm, hticking⟩
  · have hsame := untouched_addTask htick hS hlayers hw hx.ne' now delayMs interval callback
    exact ⟨hx.trans_le hsame.nextId, huntouched _ hsame⟩
  · have hsame := untouched_cancelTimer hw hspares
    exact ⟨hx.trans_le hsame.nextId, huntouched _ hsame⟩

omit htick hS hlayers in
theorem Sound.cancelTimer {w : TimerWheel Cb} (hw : Sound tick S layers w) (handle : TimerHandle) :
    Sound tick S layers (w.cancelTimer handle).1 := by
  rw [TimerWheel.cancelTimer]
  split
  · split
    · refine ⟨Shaped.of_wheels (w := w.setCancelled handle.id) rfl
        (hw.shaped.setCancelled handle.id),
        fun y hy ↦ ⟨fun layer slot ↦ ?_, (hw.fresh y hy).2⟩⟩
      have hheld := held_setCancelled (w := w) (x := y) handle.id layer slot
      rw [(hw.fresh y hy).1] at hheld
      exact hheld
    · exact hw
  · exact hw

theorem Sound.addTask {w : TimerWheel Cb} (hw : Sound tick S layers w) (now delayMs interval : ℤ)
    (callback : Option Cb) : Sound tick S layers (w.addTask now delayMs interval callback).1 := by
  have huntouched {y : ℕ} (hy : w.nextId ≠ y) :=
    untouched_addTask htick hS hlayers hw.shaped hy now delayMs interval callback
  have hgrow := huntouched (Nat.succ_ne_self w.nextId).symm
  refine ⟨hgrow.shaped, fun y hy ↦ ?_⟩
  by_cases hne : w.nextId = y
  · -- the id has not been given away, so the call was rejected
    subst hne
    rw [TimerWheel.addTask] at hy ⊢
    split at hy
    · next hrejected =>
      rw [if_pos hrejected]
      exact hw.fresh _ le_rfl
    · exact absurd hy (by simp [register, nextId_addTaskToWheel])
  · exact (huntouched hne).absent (hw.fresh y (hgrow.nextId.trans hy))

/-- What there is of a timer that has just been added: its task lies in the place for its delay, and
it has not run. -/
structure Added (tick S layers : ℕ) (delayMs : ℤ) (task : TimerTask Cb) (w w' : TimerWheel Cb) :
    Prop where
  sound : Sound tick S layers w'
  lt : w.nextId < w'.nextId
  hands : w'.currentSlot = w.currentSlot
  held : w'.HeldAt w.nextId (placeFor tick S layers w.currentSlot delayMs).layer
    (placeFor tick S layers w.currentSlot delayMs).slot
    { task with roundsLeft := (placeFor tick S layers w.currentSlot delayMs).rounds }
  firings : w'.firings w.nextId = []

theorem added_addTask {w : TimerWheel Cb} (hw : Sound tick S layers w) (now interval : ℤ)
    {delayMs : ℤ} (hdelay : 0 < delayMs) (callback : Cb) :
    Added tick S layers delayMs ⟨w.nextId, some callback, now + delayMs, interval, 0, false⟩ w
      (w.addTask now delayMs interval (some callback)).1 := by
  obtain ⟨habsent, hfirings⟩ := hw.fresh w.nextId le_rfl
  have heq := addTask_eq hw.shaped htick hS hlayers now interval hdelay callback
  have hsame := untouched_addTask htick hS hlayers hw.shaped (Nat.succ_ne_self w.nextId).symm now
    delayMs interval (some callback)
  refine ⟨hw.addTask htick hS hlayers now delayMs interval (some callback), ?_, hsame.hands,
    heldAt_addTask hw.shaped htick hS hlayers now interval hdelay callback habsent, ?_⟩
  · rw [heq]
    exact Nat.lt_succ_self _
  · rw [heq]
    exact hfirings

theorem Sound.ticking {w : TimerWheel Cb} (hw : Sound tick S layers w) (now : ℤ) {n : ℕ}
    (hn : n < layers) : Sound tick S layers (w.ticking S n now) := by
  refine ⟨shaped_ticking hw.shaped now _, fun y hy ↦ ?_⟩
  rw [nextId_ticking] at hy
  obtain ⟨habsent, hfirings⟩ := hw.fresh y hy
  obtain ⟨habsent', hfirings'⟩ := absent_ticking htick hS hlayers hw.shaped now hn habsent
  exact ⟨habsent', hfirings'.trans hfirings⟩

theorem Sound.step {s t : Driven Cb} {op : TimerOp Cb}
    (hsound : Sound tick S layers s.wheel) (hstep : (system tick).step s op t) :
    Sound tick S layers t.wheel := by
  rcases step_cases htick hS hlayers hsound.shaped hstep with
    ⟨-, rfl⟩ | ⟨now, delayMs, interval, callback, -, rfl⟩ | ⟨handle, -, rfl⟩
  · exact hsound.ticking htick hS hlayers _ (by omega)
  · exact hsound.addTask htick hS hlayers now delayMs interval callback
  · exact hsound.cancelTimer handle

omit htick hS hlayers in
/-- A new wheel is empty. -/
theorem tasks_init (last : ℤ) (layer slot : ℕ) :
    (init tick S layers last : Driven Cb).wheel.tasks layer slot = [] := by
  rw [init, tasks, TimerWheel.new, wheelsFrom_getElem?]
  split
  · rw [Option.bind_some, Wheel.new, List.getElem?_replicate]
    split <;> rfl
  · rfl

omit htick hlayers in
theorem sound_init (last : ℤ) :
    Sound tick S layers (init tick S layers last : Driven Cb).wheel := by
  refine ⟨shaped_new (by omega), fun x _ ↦ ⟨fun layer slot ↦ ?_, rfl⟩⟩
  rw [held, tasks_init]
  rfl

/-- **Every wheel that is driven is sound.** -/
theorem Sound.run {s t : Driven Cb} {ops : List (TimerOp Cb)}
    (hsound : Sound tick S layers s.wheel) (hrun : (system tick).Run s ops t) :
    Sound tick S layers t.wheel :=
  hrun.invariant (motive := fun s ↦ Sound tick S layers s.wheel)
    (fun _ _ _ h hstep ↦ h.step htick hS hlayers hstep) hsound

end

/-! ## Delays and layers -/

/-- A delay that fits the wheel is at least one slot of its layer, or less than a turn of wheel 0,
and less than one turn of its layer. -/
theorem home_spec (htick : 1 ≤ tick) (hS : 2 ≤ S) (hlayers : 0 < layers) {delay : ℤ}
    (hlt : delay < (tick * S ^ layers : ℕ)) :
    delay.toNat < tick * S ^ (home tick S layers delay + 1) ∧
      (0 < home tick S layers delay → tick * S ^ home tick S layers delay ≤ delay.toNat) := by
  have hunit : 0 < tick * S ^ layers := Nat.mul_pos htick (Nat.pow_pos (by omega))
  have hq : delay.toNat / tick < S ^ layers := by
    rw [Nat.div_lt_iff_lt_mul htick, Nat.mul_comm]
    omega
  have hlog := Nat.log_lt_of_lt_pow' hlayers.ne' hq
  have hhome : home tick S layers delay = Nat.log S (delay.toNat / tick) := by
    rw [home]
    omega
  rw [hhome]
  constructor
  · have := Nat.lt_pow_succ_log_self (show 1 < S by omega) (delay.toNat / tick)
    rwa [Nat.div_lt_iff_lt_mul htick, Nat.mul_comm] at this
  · intro hpos
    have hne : delay.toNat / tick ≠ 0 := fun h ↦ by
      rw [h, Nat.log_zero_right] at hpos
      omega
    calc tick * S ^ Nat.log S (delay.toNat / tick)
        ≤ tick * (delay.toNat / tick) := Nat.mul_le_mul_left _ (Nat.pow_log_le_self S hne)
      _ ≤ delay.toNat := Nat.mul_div_le _ _

/-- A delay of less than a slot of some layer goes to a lower one. -/
theorem home_lt_of_lt (htick : 1 ≤ tick) (hS : 2 ≤ S) (layers : ℕ) {layer : ℕ} (hpos : 0 < layer)
    {delay : ℤ} (hlt : delay < (tick * S ^ layer : ℕ)) : home tick S layers delay < layer := by
  rw [← layerOf_eq_home hS]
  exact placeFor_layer_lt_of_lt htick (fun _ ↦ 0) hpos hlt
    (Nat.mul_pos htick (Nat.pow_pos (by omega)))

/-- The slots that a delay covers in its layer are less than a turn. -/
theorem slots_lt (htick : 1 ≤ tick) (hS : 2 ≤ S) (hlayers : 0 < layers) {delay : ℤ}
    (hlt : delay < (tick * S ^ layers : ℕ)) :
    delay.toNat / (tick * S ^ home tick S layers delay) < S := by
  rw [Nat.div_lt_iff_lt_mul (Nat.mul_pos htick (Nat.pow_pos (by omega)))]
  calc delay.toNat < tick * S ^ (home tick S layers delay + 1) := (home_spec htick hS hlayers hlt).1
    _ = S * (tick * S ^ home tick S layers delay) := by ring

theorem home_eq_zero_iff (htick : 1 ≤ tick) (hS : 2 ≤ S) (hlayers : 2 ≤ layers) {delay : ℤ}
    (hpos : 0 < delay) : home tick S layers delay = 0 ↔ delay < (S * tick : ℕ) := by
  have hlog : home tick S layers delay = 0 ↔ Nat.log S (delay.toNat / tick) = 0 := by
    rw [home]
    omega
  have hbase : ¬ S ≤ 1 := by omega
  rw [hlog, Nat.log_eq_zero_iff, or_iff_left hbase, ticks_lt_iff htick hpos]

/-- The ticks until the hand of its layer leaves the slot of a delay, when all hands below stand at
their first slot. -/
def stepsFor (tick S layers : ℕ) (delay : ℤ) : ℕ :=
  (delay.toNat / (tick * S ^ home tick S layers delay) + 1) * S ^ home tick S layers delay

/-- That is later than the delay. -/
theorem lt_stepsFor (htick : 1 ≤ tick) (hS : 2 ≤ S) (layers : ℕ) (delay : ℤ) :
    delay < (stepsFor tick S layers delay * tick : ℕ) := by
  have hunit : 0 < tick * S ^ home tick S layers delay :=
    Nat.mul_pos htick (Nat.pow_pos (by omega))
  have hlt : delay.toNat < stepsFor tick S layers delay * tick := by
    calc delay.toNat < tick * S ^ home tick S layers delay *
          (delay.toNat / (tick * S ^ home tick S layers delay) + 1) := Nat.lt_mul_div_succ _ hunit
      _ = stepsFor tick S layers delay * tick := by rw [stepsFor]; ring
  omega

/-! ## The course of a timer -/

/-- The task of a timer that runs once. -/
def timer (x : ℕ) (c : Cb) (expire : ℤ) : TimerTask Cb := ⟨x, some c, expire, 0, 0, false⟩

/-- The tick that runs a task which the hand of `layer` leaves at tick `N`.  From a higher layer it
goes to wheel 0 if it has expired or will do so within a turn of wheel 0; otherwise it goes to
another higher layer, and the hand of that layer leaves its slot after the expiry. -/
def fireTick (tick S layers : ℕ) (expire : ℤ) (layer : ℕ) (N : ℤ) : ℤ :=
  if layer = 0 then N
  else if expire ≤ N * tick then N + 1
  else if home tick S layers (expire - N * tick) = 0 then
    N + stepsFor tick S layers (expire - N * tick)
  else N + stepsFor tick S layers (expire - N * tick) + 1

theorem le_fireTick (tick S layers : ℕ) (expire : ℤ) (layer : ℕ) (N : ℤ) :
    N ≤ fireTick tick S layers expire layer N := by
  rw [fireTick]
  split
  · exact le_rfl
  · split
    · omega
    · split <;> omega

/-- Timer `x` waits in a slot of `layer` that the hand leaves at tick `N`. -/
def Waits (S x : ℕ) (c : Cb) (expire : ℤ) (layer : ℕ) (N : ℤ) (s : Driven Cb) : Prop :=
  ∃ slot g : ℕ, s.wheel.HeldAt x layer slot (timer x c expire) ∧
    Odometer.Leaves S s.wheel.currentSlot layer slot g ∧ s.last + g = N

/-- Timer `x` is going to run at tick `F`, or has done so. -/
def OnCourse (tick S layers x : ℕ) (c : Cb) (expire F : ℤ) (s : Driven Cb) : Prop :=
  (∃ layer N, layer < layers ∧ Waits S x c expire layer N s ∧ s.wheel.firings x = [] ∧
    (0 < layer → expire < N * tick + (tick * S ^ layer : ℕ)) ∧
    fireTick tick S layers expire layer N = F) ∨
  s.wheel.Absent x ∧ s.wheel.firings x = [F * tick] ∧ F ≤ s.last

variable {c : Cb} {expire : ℤ}

theorem Waits.lt {layer : ℕ} {N : ℤ} {s : Driven Cb} (hw : Shaped tick S layers s.wheel)
    (hlayer : layer < layers) (h : Waits S x c expire layer N s) : s.last < N := by
  obtain ⟨slot, g, -, hleaves, hN⟩ := h
  have := hleaves.pos fun k hk ↦ hw.currentSlot_lt (by omega)
  omega

/-- What does not touch a timer lets it wait. -/
theorem Waits.of_untouched {layer : ℕ} {N : ℤ} {s t : Driven Cb} (h : Waits S x c expire layer N s)
    (hlast : t.last = s.last) (hsame : Untouched tick S layers x s.wheel t.wheel) :
    Waits S x c expire layer N t := by
  obtain ⟨slot, g, hheld, hleaves, hN⟩ := h
  refine ⟨slot, g, fun layer' slot' ↦ ?_, ?_, by rw [hlast, hN]⟩
  · rw [hsame.held]
    exact hheld layer' slot'
  · rw [hsame.hands]
    exact hleaves

/-- And leaves it on its course. -/
theorem OnCourse.of_untouched {F : ℤ} {s t : Driven Cb} (h : OnCourse tick S layers x c expire F s)
    (hlast : t.last = s.last) (hsame : Untouched tick S layers x s.wheel t.wheel) :
    OnCourse tick S layers x c expire F t := by
  rcases h with ⟨layer, N, hlayer, hwaits, hfirings, hbound, hF⟩ | ⟨habsent, hfirings, hF⟩
  · exact .inl ⟨layer, N, hlayer, hwaits.of_untouched hlast hsame,
      hsame.firings.trans hfirings, hbound, hF⟩
  · refine .inr ⟨fun layer slot ↦ ?_, hsame.firings.trans hfirings, by rw [hlast]; exact hF⟩
    rw [hsame.held]
    exact habsent layer slot

/-- A task that has just been put `k` slots away from hands that stand at their first slot. -/
theorem waits_of_hands {layer k : ℕ} {s : Driven Cb} (hk : k < S)
    (hhand : ∀ j ≤ layer, s.wheel.currentSlot j = 0)
    (hheld : s.wheel.HeldAt x layer ((0 + k) % S) (timer x c expire)) :
    Waits S x c expire layer (s.last + ((k + 1) * S ^ layer : ℕ)) s := by
  refine ⟨_, _, hheld, ?_, rfl⟩
  have hvalue : Odometer.value S s.wheel.currentSlot layer = 0 :=
    (Odometer.value_eq_zero_iff (by omega)).2 fun j hj ↦ hhand j hj.le
  have hleaves := Odometer.leaves_of_add (c := s.wheel.currentSlot) (L := layer) hk
    (show (k + 1) * S ^ layer + Odometer.value S s.wheel.currentSlot layer = (k + 1) * S ^ layer by
      rw [hvalue, Nat.add_zero])
  rwa [hhand layer le_rfl] at hleaves

section

variable (htick : 1 ≤ tick) (hS : 2 ≤ S) (hlayers : 2 ≤ layers)

include htick hS hlayers

/-- A task that has just been cascaded from `layer` is on its course. -/
theorem onCourse_of_cascaded {layer : ℕ} {t : Driven Cb} (hpos : 0 < layer)
    (hlayer : layer < layers)
    (hhand : ∀ k < layer, t.wheel.currentSlot k = 0) (hfirings : t.wheel.firings x = [])
    (hsoon : expire - t.last * tick < (tick * S ^ layer : ℕ))
    (hheld : t.wheel.HeldAt x (cascadePlace tick S layers (fun _ ↦ 0) (t.last * tick)
        (timer x c expire)).layer
      (cascadePlace tick S layers (fun _ ↦ 0) (t.last * tick) (timer x c expire)).slot
      ⟨x, some c, expire, 0,
        (cascadePlace tick S layers (fun _ ↦ 0) (t.last * tick) (timer x c expire)).rounds,
          false⟩) :
    OnCourse tick S layers x c expire (fireTick tick S layers expire layer t.last) t := by
  have hplace : cascadePlace tick S layers (fun _ ↦ 0) (t.last * tick) (timer x c expire) =
      if expire ≤ t.last * tick then ⟨0, 0, 0⟩
      else placeFor tick S layers (fun _ ↦ 0) (expire - t.last * tick) := rfl
  rw [hplace] at hheld
  rw [fireTick, if_neg hpos.ne']
  split at hheld
  · next hexpired =>
    have hwaits : Waits S x c expire 0 (t.last + ((0 + 1) * S ^ 0 : ℕ)) t :=
      waits_of_hands (by omega) (fun j hj ↦ hhand j (by omega)) (by
        rw [Nat.zero_add, Nat.zero_mod]
        exact hheld)
    refine .inl ⟨0, _, by omega, hwaits, hfirings, fun h ↦ absurd h (by omega), ?_⟩
    rw [if_pos hexpired, fireTick, if_pos rfl]
    simp
  · next hexpired =>
    rw [if_neg hexpired]
    generalize hdelay : expire - t.last * tick = delay at hheld hsoon ⊢
    have hfits : delay < (tick * S ^ layers : ℕ) := by
      have : tick * S ^ layer ≤ tick * S ^ layers :=
        Nat.mul_le_mul_left _ (Nat.pow_le_pow_right (by omega) hlayer.le)
      omega
    have hslots := slots_lt htick hS (by omega) hfits
    have hlt := lt_stepsFor htick hS layers delay
    have hhome := home_lt_of_lt htick hS layers hpos hsoon
    rw [placeFor_eq_home hS, Nat.div_eq_of_lt hslots] at hheld
    have hwaits : Waits S x c expire (home tick S layers delay)
        (t.last + (stepsFor tick S layers delay : ℕ)) t :=
      waits_of_hands hslots (fun j hj ↦ hhand j (by omega)) hheld
    have hlate : expire < (t.last + (stepsFor tick S layers delay : ℕ)) * tick := by
      have hmul : (t.last + (stepsFor tick S layers delay : ℕ)) * tick =
          t.last * tick + (stepsFor tick S layers delay * tick : ℕ) := by
        push_cast
        ring
      omega
    refine .inl ⟨_, _, home_lt tick S (by omega) delay, hwaits, hfirings, fun _ ↦ by omega, ?_⟩
    rw [fireTick]
    split
    · rfl
    · rw [if_pos hlate.le]

/-- A task in a slot that its hand leaves at this tick goes on its way. -/
theorem onCourse_tick_of_leaves {layer : ℕ} {s : Driven Cb} (hw : Shaped tick S layers s.wheel)
    (hlayer : layer < layers)
    (hheld : s.wheel.HeldAt x layer (s.wheel.currentSlot layer) (timer x c expire))
    (hround : Odometer.value S s.wheel.currentSlot layer + 1 = S ^ layer)
    (hfirings : s.wheel.firings x = [])
    (hbound : 0 < layer → expire < (s.last + 1) * tick + (tick * S ^ layer : ℕ)) :
    OnCourse tick S layers x c expire (fireTick tick S layers expire layer (s.last + 1))
      ⟨s.wheel.ticked S layers (s.now tick tick), s.last + 1⟩ := by
  have hnow : s.now tick tick = (s.last + 1) * tick := by rw [now]; ring
  rw [hnow]
  rcases Nat.eq_zero_or_pos layer with rfl | hpos
  · obtain ⟨habsent, hfired⟩ := absent_ticking_of_due htick (by omega) hlayers hw
      ((s.last + 1) * tick) hheld rfl rfl rfl ⟨rfl, rfl⟩ rfl (show layers - 1 < layers by omega)
    refine .inr ⟨habsent, ?_, by rw [fireTick, if_pos rfl]⟩
    refine hfired.trans ?_
    rw [hfirings, fireTick, if_pos rfl]
    rfl
  · have hsoon : expire - (s.last + 1) * tick < (tick * S ^ layer : ℕ) := by
      have := hbound hpos
      omega
    obtain ⟨hheld', hfired⟩ := heldAt_ticked_of_leaves htick (by omega) hlayers hw
      ((s.last + 1) * tick) hheld hpos hlayer rfl hround rfl rfl hsoon
    exact onCourse_of_cascaded (t := ⟨_, s.last + 1⟩) htick hS hlayers hpos hlayer
      (currentSlot_ticked_eq_zero (by omega) hw _ hlayer hround) (hfired.trans hfirings) hsoon
      hheld'

/-- **A tick keeps a timer on its course.** -/
theorem OnCourse.ticked {F : ℤ} {s : Driven Cb} (hw : Shaped tick S layers s.wheel)
    (h : OnCourse tick S layers x c expire F s) :
    OnCourse tick S layers x c expire F
      ⟨s.wheel.ticked S layers (s.now tick tick), s.last + 1⟩ := by
  rcases h with ⟨layer, N, hlayer, ⟨slot, g, hheld, hleaves, hN⟩, hfirings, hbound, hF⟩ |
    ⟨habsent, hfirings, hF⟩
  · have hhands : ∀ k ≤ layer, s.wheel.currentSlot k < S := fun k hk ↦ hw.currentSlot_lt (by omega)
    have hpos := hleaves.pos fun k hk ↦ hhands k hk.le
    obtain rfl | ⟨g, rfl⟩ : g = 1 ∨ ∃ g', g = g' + 1 + 1 := by
      rcases g with _ | _ | g
      · omega
      · exact .inl rfl
      · exact .inr ⟨g, rfl⟩
    · obtain ⟨rfl, hround⟩ := (Odometer.Leaves.one_iff hhands).1 hleaves
      obtain rfl : s.last + 1 = N := by simpa using hN
      rw [← hF]
      exact onCourse_tick_of_leaves htick hS hlayers hw hlayer hheld hround hfirings hbound
    · obtain ⟨hheld', hfired⟩ := heldAt_ticked_of_stays htick (by omega) hlayers hw
        (s.now tick tick) hheld
        hlayer fun hnow ↦ by
          obtain ⟨rfl, hround⟩ := hnow
          have := hleaves.eq_one (hhands layer le_rfl) hround
          omega
      have hleaves' := (hleaves.next (fun k hk ↦ hhands k hk.le) (Nat.succ_pos g)).congr
        fun k hk ↦ (currentSlot_ticked hw (s.now tick tick) (by omega)).symm
      refine .inl
        ⟨layer, N, hlayer, ⟨slot, g + 1, hheld', hleaves', ?_⟩, hfired.trans hfirings, hbound,
        hF⟩
      push_cast at hN ⊢
      omega
  · obtain ⟨habsent', hfirings'⟩ :=
      absent_ticking htick (by omega) hlayers hw (s.now tick tick) (n := layers - 1) (by omega)
        habsent
    exact .inr ⟨habsent', hfirings'.trans hfirings, by simp only; omega⟩

theorem OnCourse.step {F : ℤ} {s t : Driven Cb} {op : TimerOp Cb} (hlayers' : layers ≤ 4)
    (hw : Shaped tick S layers s.wheel) (hx : x < s.wheel.nextId) (hspares : op.Spares x)
    (hstep : (system tick).step s op t) (h : OnCourse tick S layers x c expire F s) :
    x < t.wheel.nextId ∧ OnCourse tick S layers x c expire F t := by
  refine step_of_untouched htick (by omega) hlayers hw hx hspares hstep ?_
    fun w hsame ↦ h.of_untouched rfl hsame
  rw [Nat.min_eq_left (show layers - 1 ≤ 3 by omega)]
  exact h.ticked htick hS hlayers hw

/-- **Nothing but cancelling it takes a timer off its course.** -/
theorem OnCourse.run {F : ℤ} {s t : Driven Cb} {ops : List (TimerOp Cb)} (hlayers' : layers ≤ 4)
    (hsound : Sound tick S layers s.wheel) (hx : x < s.wheel.nextId)
    (h : OnCourse tick S layers x c expire F s) (hspares : ∀ op ∈ ops, op.Spares x)
    (hrun : (system tick).Run s ops t) : OnCourse tick S layers x c expire F t := by
  have hall : Sound tick S layers t.wheel ∧ x < t.wheel.nextId ∧
      OnCourse tick S layers x c expire F t := by
    induction hrun with
    | nil => exact ⟨hsound, hx, h⟩
    | snoc _ hstep ih =>
      obtain ⟨hops, hop⟩ := List.forall_mem_append.1 hspares
      obtain ⟨hsound', hx', h'⟩ := ih hops
      exact ⟨hsound'.step htick (by omega) hlayers hstep,
        h'.step htick hS hlayers hlayers' hsound'.shaped hx' (hop _ (List.mem_singleton_self _))
          hstep⟩
  exact hall.2.2

end

/-! ## Ticks that return -/

/-- No timer in the wheel is restless. -/
def Quiet (tick : ℕ) (w : TimerWheel Cb) : Prop :=
  w.Everywhere fun interval ↦ ¬ (0 < interval ∧ interval < tick)

theorem Quiet.allTasks {w : TimerWheel Cb} (h : Quiet tick w) :
    w.AllTasks fun task ↦ ¬ Restless tick task := h

theorem quiet_init (last : ℤ) : Quiet tick (init tick S layers last : Driven Cb).wheel :=
  fun layer slot task htask ↦ by
    rw [tasks_init] at htask
    cases htask

theorem steady_restless (tick : ℕ) (now : ℤ) :
    Steady now fun task : TimerTask Cb ↦ ¬ Restless tick task :=
  ⟨fun _ _ h ↦ h, fun _ h _ ↦ h⟩

section

variable (htick : 1 ≤ tick) (hS : 1 ≤ S) (hlayers : 2 ≤ layers)

include htick hS hlayers

theorem Quiet.step {s t : Driven Cb} {op : TimerOp Cb}
    (hw : Shaped tick S layers s.wheel) (hquiet : Quiet tick s.wheel) (hop : op.Patient tick)
    (hstep : (system tick).step s op t) : Quiet tick t.wheel := by
  rcases step_cases htick hS hlayers hw hstep with
    ⟨rfl, -⟩ | ⟨now, delayMs, interval, callback, hinterval, rfl⟩ | ⟨handle, -, rfl⟩
  · obtain ⟨⟨fuel, hok⟩, -⟩ := step_tick.1 hstep
    exact hquiet.allTasks.tick (steady_restless tick _) hok
  · exact hquiet.allTasks.addTask (steady_restless tick now) fun _ _ ↦ hinterval hop
  · exact hquiet.allTasks.cancelTimer (fun _ h ↦ h) handle

theorem Quiet.run {s t : Driven Cb} {ops : List (TimerOp Cb)}
    (hsound : Sound tick S layers s.wheel) (hquiet : Quiet tick s.wheel)
    (hops : ∀ op ∈ ops, op.Patient tick) (hrun : (system tick).Run s ops t) :
    Quiet tick t.wheel := by
  induction hrun with
  | nil => exact hquiet
  | snoc hrun hstep ih =>
    obtain ⟨hops, hop⟩ := List.forall_mem_append.1 hops
    exact (ih hops).step htick hS hlayers
      (hsound.run htick hS hlayers hrun).shaped
      (hop _ (List.mem_singleton_self _)) hstep

/-- An operation returns, unless it is a tick that comes to a restless timer. -/
theorem exists_step {s : Driven Cb} {op : TimerOp Cb} (hw : Shaped tick S layers s.wheel)
    (hcalm : op = .tick → Calm tick s.wheel) (hclock : op.OnTheClock tick) :
    ∃ t, (system tick).step s op t := by
  cases op with
  | tick => exact ⟨_, (step_tick_iff htick hS hlayers hw).2 ⟨hcalm rfl, rfl⟩⟩
  | addTimer offset delayMs callback => exact ⟨_, hclock, 0, rfl⟩
  | addRepeatTimer offset intervalMs callback => exact ⟨_, hclock, 0, rfl⟩
  | cancelTimer handle => exact ⟨_, hclock, 0, rfl⟩

/-- **A wheel without restless timers can always be driven on**: every operation returns. -/
theorem exists_run {s : Driven Cb} (hsound : Sound tick S layers s.wheel)
    (hquiet : Quiet tick s.wheel) {ops : List (TimerOp Cb)} (hops : ∀ op ∈ ops, op.Patient tick)
    (hclock : ∀ op ∈ ops, op.OnTheClock tick) : ∃ t, (system tick).Run s ops t := by
  induction ops generalizing s with
  | nil => exact ⟨s, .nil⟩
  | cons op ops ih =>
    obtain ⟨hop, hops⟩ := List.forall_mem_cons.1 hops
    obtain ⟨honclock, hclock⟩ := List.forall_mem_cons.1 hclock
    obtain ⟨t, ht⟩ := exists_step htick hS hlayers hsound.shaped
      (fun _ task htask h ↦ hquiet _ _ task htask h.2) honclock
    obtain ⟨u, hu⟩ := ih (hsound.step htick hS hlayers ht)
      (hquiet.step htick hS hlayers hsound.shaped hop ht) hops hclock
    exact ⟨u, hu.cons ht⟩

end

/-! ## On time -/

section

variable (htick : 1 ≤ tick) (hS : 2 ≤ S) (hlayers : 2 ≤ layers)

include htick hS hlayers

/-- From a higher layer, a timer runs at most a tick away from its expiry if the hand leaves its
slot before the expiry, and not by a turn of wheel 0 or more. -/
theorem fireTick_near_iff {layer : ℕ} (hpos : 0 < layer) (expire N : ℤ) :
    expire - tick ≤ fireTick tick S layers expire layer N * tick ∧
        fireTick tick S layers expire layer N * tick ≤ expire + tick ↔
      N * tick ≤ expire ∧ expire < N * tick + (S * tick : ℕ) := by
  have hturn : 0 < S * tick := Nat.mul_pos (by omega) htick
  have hsucc (M : ℤ) : (M + 1) * tick = M * tick + tick := by ring
  have hadd (k : ℕ) : (N + k) * tick = N * tick + (k * tick : ℕ) := by
    push_cast
    ring
  rw [fireTick, if_neg hpos.ne']
  split
  · rw [hsucc]
    omega
  · next hexpired =>
    have hlt := lt_stepsFor htick hS layers (expire - N * tick)
    have hhome : home tick S layers (expire - N * tick) = 0 ↔ expire - N * tick < (S * tick : ℕ) :=
      home_eq_zero_iff htick hS hlayers (by omega)
    split
    · next hzero =>
      -- the delay is less than one turn of wheel 0, so it is counted in ticks
      have hsteps : stepsFor tick S layers (expire - N * tick) =
          (expire - N * tick).toNat / tick + 1 := by
        rw [stepsFor, hzero, pow_zero, mul_one, mul_one]
      have hle : (expire - N * tick).toNat / tick * tick ≤ (expire - N * tick).toNat :=
        Nat.div_mul_le_self _ _
      have hexpand : ((expire - N * tick).toNat / tick + 1) * tick =
          (expire - N * tick).toNat / tick * tick + tick := by ring
      rw [hadd]
      rw [hsteps, hexpand] at hlt ⊢
      have := hhome.1 hzero
      omega
    · next hzero =>
      have := mt hhome.2 hzero
      rw [hsucc, hadd]
      omega

/-- The tick at which the hand leaves the slot that a timer is put in. -/
def leaveTick (tick S layers : ℕ) (s : Driven Cb) (delayMs : ℤ) : ℤ :=
  s.last + stepsFor tick S layers delayMs -
    Odometer.value S s.wheel.currentSlot (home tick S layers delayMs)

omit htick hS hlayers in
theorem leaveTick_mul (s : Driven Cb) (delayMs : ℤ) :
    leaveTick tick S layers s delayMs * tick =
      s.last * tick + (stepsFor tick S layers delayMs * tick : ℕ) -
        (Odometer.value S s.wheel.currentSlot (home tick S layers delayMs) * tick : ℕ) := by
  rw [leaveTick]
  push_cast
  ring

/-- The state after `add_timer`. -/
def afterAdd (tick : ℕ) (s : Driven Cb) (offset delayMs : ℤ) (callback : Cb) : Driven Cb :=
  { s with wheel := (s.wheel.addTimer (s.now tick offset) delayMs (some callback)).1 }

/-- The handle that `add_timer` returns. -/
def handleOf (tick : ℕ) (s : Driven Cb) (offset delayMs : ℤ) (callback : Cb) : TimerHandle :=
  (s.wheel.addTimer (s.now tick offset) delayMs (some callback)).2

omit htick hS hlayers in
theorem handleOf_id (s : Driven Cb) (offset : ℤ) {delayMs : ℤ} (hpos : 0 < delayMs)
    (callback : Cb) :
    (s.handleOf tick offset delayMs callback).id = s.wheel.nextId := by
  rw [handleOf, addTimer, addTask, if_neg (by simp; omega)]

omit htick hS hlayers in
/-- A timer that runs once is not restless. -/
theorem Quiet.afterAdd {s : Driven Cb} (h : Quiet tick s.wheel) (offset delayMs : ℤ)
    (callback : Cb) : Quiet tick (s.afterAdd tick offset delayMs callback).wheel :=
  h.allTasks.addTask (steady_restless tick _) fun _ _ h ↦ lt_irrefl 0 h.1

/-- **A new timer is on its course.** -/
theorem onCourse_afterAdd {s : Driven Cb} (hsound : Sound tick S layers s.wheel)
    {offset delayMs : ℤ}
    (hoffset : offset ≤ tick) (hpos : 0 < delayMs) (hfits : delayMs < (tick * S ^ layers : ℕ)) :
    OnCourse tick S layers s.wheel.nextId c (s.now tick offset + delayMs)
      (fireTick tick S layers (s.now tick offset + delayMs) (home tick S layers delayMs)
        (leaveTick tick S layers s delayMs))
      (s.afterAdd tick offset delayMs c) := by
  have hw := hsound.shaped
  have hslots := slots_lt htick hS (by omega) hfits
  have hlayer := home_lt tick S (show 0 < layers by omega) delayMs
  have hvalue : Odometer.value S s.wheel.currentSlot (home tick S layers delayMs) <
      S ^ home tick S layers delayMs := Odometer.value_lt fun k hk ↦ hw.currentSlot_lt (by omega)
  have hsteps : S ^ home tick S layers delayMs ≤ stepsFor tick S layers delayMs :=
    Nat.le_mul_of_pos_left _ (Nat.succ_pos _)
  have hadded := added_addTask htick (by omega) hlayers hsound (s.now tick offset) 0 hpos c
  have hheld := hadded.held
  rw [placeFor_eq_home hS, Nat.div_eq_of_lt hslots] at hheld
  refine .inl ⟨_, _, hlayer, ⟨_, stepsFor tick S layers delayMs -
    Odometer.value S s.wheel.currentSlot (home tick S layers delayMs), hheld, ?_, ?_⟩,
    hadded.firings, fun _ ↦ ?_, rfl⟩
  · rw [afterAdd, addTimer, hadded.hands]
    exact Odometer.leaves_of_add hslots (Nat.sub_add_cancel (by omega))
  · rw [leaveTick, afterAdd]
    simp only
    omega
  · have hlt := lt_stepsFor htick hS layers delayMs
    have hphase : (Odometer.value S s.wheel.currentSlot (home tick S layers delayMs) + 1) * tick ≤
        S ^ home tick S layers delayMs * tick := Nat.mul_le_mul_right _ hvalue
    rw [Nat.add_mul, Nat.one_mul, Nat.mul_comm (S ^ _)] at hphase
    rw [leaveTick_mul, now]
    omega

end

/-- The callback of timer `x` has run once, at most one tick away from its expiry. -/
def OnTime (tick x : ℕ) (expire : ℤ) (w : TimerWheel Cb) : Prop :=
  ∃ time, w.firings x = [time] ∧ expire - tick ≤ time ∧ time ≤ expire + tick

/-- The time that has passed since the hand of a layer last moved. -/
def elapsed (tick S : ℕ) (s : Driven Cb) (layer : ℕ) (offset : ℤ) : ℤ :=
  (Odometer.value S s.wheel.currentSlot layer * tick : ℕ) + offset

/-- What a delay has below a whole number of slots of its layer, and the time since the hand of that
layer last moved, together make up a slot, but not also a turn of wheel 0. -/
def InPhase (tick S layers : ℕ) (s : Driven Cb) (offset delayMs : ℤ) : Prop :=
  let unit := tick * S ^ home tick S layers delayMs
  let sum := (delayMs.toNat % unit : ℕ) + elapsed tick S s (home tick S layers delayMs) offset
  unit ≤ sum ∧ sum < unit + (S * tick : ℕ)

instance (tick S layers : ℕ) (s : Driven Cb) (offset delayMs : ℤ) :
    Decidable (InPhase tick S layers s offset delayMs) := inferInstanceAs (Decidable (_ ∧ _))

/-- In phase means that the hand leaves the slot of a timer in time. -/
theorem inPhase_iff (tick S layers : ℕ) (s : Driven Cb) (offset : ℤ) {delayMs : ℤ}
    (hpos : 0 < delayMs) :
    InPhase tick S layers s offset delayMs ↔
      leaveTick tick S layers s delayMs * tick ≤ s.now tick offset + delayMs ∧
        s.now tick offset + delayMs < leaveTick tick S layers s delayMs * tick +
          (S * tick : ℕ) := by
  have hdiv := Nat.div_add_mod delayMs.toNat (tick * S ^ home tick S layers delayMs)
  have hsteps : stepsFor tick S layers delayMs * tick =
      tick * S ^ home tick S layers delayMs *
        (delayMs.toNat / (tick * S ^ home tick S layers delayMs)) +
      tick * S ^ home tick S layers delayMs := by
    rw [stepsFor]
    ring
  simp only [InPhase, elapsed]
  rw [leaveTick_mul, now]
  omega

/-- Once the wheel has been driven past its expiry, a timer that is on its course has run on time if
the tick it runs at is near its expiry, and not otherwise. -/
theorem OnCourse.onTime_iff_near {F : ℤ} {t : Driven Cb} (hw : Shaped tick S layers t.wheel)
    (h : OnCourse tick S layers x c expire F t) (hpast : expire < t.last * tick) :
    OnTime tick x expire t.wheel ↔ expire - tick ≤ F * tick ∧ F * tick ≤ expire + tick := by
  rcases h with ⟨layer, N, hlayer, hwaits, hfirings, -, rfl⟩ | ⟨-, hfirings, -⟩
  · have hlt := hwaits.lt hw hlayer
    have hle := le_fireTick tick S layers expire layer N
    have hmul : (t.last + 1) * tick ≤ fireTick tick S layers expire layer N * tick :=
      Int.mul_le_mul_of_nonneg_right (by omega) (by omega)
    have hsucc : (t.last + 1) * tick = t.last * tick + tick := by ring
    constructor
    · rintro ⟨time, htime, -⟩
      rw [hfirings] at htime
      cases htime
    · rintro ⟨-, hnear⟩
      omega
  · constructor
    · rintro ⟨time, htime, hnear⟩
      rw [hfirings, List.singleton_inj] at htime
      rw [htime]
      exact hnear
    · exact fun hnear ↦ ⟨_, hfirings, hnear⟩

/-- **When cascaded timers are on time.**  A wheel of 2 to 4 layers is driven by `tick` at every
multiple of `tick_ms`, and somewhere on the way a timer is added whose delay is at least one turn of
wheel 0.  However the wheel is used after that, short of cancelling this timer: every call returns,
unless some repeat timer is shorter than a tick; and once the wheel has been driven past the expiry
of the timer, its callback has run on time if and only if the timer was in phase when it was added.
-/
theorem onTime_iff (htick : 1 ≤ tick) (hS : 2 ≤ S) (hlayers : 2 ≤ layers) (hlayers' : layers ≤ 4)
    {last : ℤ} {before : List (TimerOp Cb)} {s : Driven Cb}
    (hbefore : (system tick).Run (init tick S layers last) before s) {offset delayMs : ℤ}
    (hoffset : 0 ≤ offset ∧ offset ≤ tick)
    (hdelay : (tick * S : ℕ) ≤ delayMs ∧ delayMs < (tick * S ^ layers : ℕ)) (callback : Cb)
    {after : List (TimerOp Cb)}
    (hspares : ∀ op ∈ after, op.Spares (s.handleOf tick offset delayMs callback).id) :
    ((∀ op ∈ before ++ after, op.Patient tick) → (∀ op ∈ after, op.OnTheClock tick) →
      ∃ t, (system tick).Run (s.afterAdd tick offset delayMs callback) after t) ∧
    ∀ t, (system tick).Run (s.afterAdd tick offset delayMs callback) after t →
      s.now tick offset + delayMs < t.last * tick →
      (OnTime tick (s.handleOf tick offset delayMs callback).id (s.now tick offset + delayMs)
        t.wheel ↔
        InPhase tick S layers s offset delayMs) := by
  have hturn : 0 < tick * S := Nat.mul_pos htick (by omega)
  have hpos : 0 < delayMs := by omega
  have hS' : 1 ≤ S := by omega
  have hsound := (sound_init hS' last).run htick hS' hlayers hbefore
  have hadded := added_addTask htick hS' hlayers hsound (s.now tick offset) 0 hpos callback
  rw [handleOf_id s offset hpos callback] at hspares ⊢
  refine ⟨fun hpatient hclock ↦ ?_, fun t hafter hpast ↦ ?_⟩
  · obtain ⟨hpatient, hpatient'⟩ := List.forall_mem_append.1 hpatient
    have hquiet := (quiet_init last).run htick hS' hlayers (sound_init hS' last) hpatient hbefore
    exact exists_run htick hS' hlayers hadded.sound (hquiet.afterAdd offset delayMs callback)
      hpatient' hclock
  · have hhome : 0 < home tick S layers delayMs := by
      refine Nat.pos_of_ne_zero fun h ↦ ?_
      have := (home_eq_zero_iff htick hS hlayers hpos).1 h
      rw [Nat.mul_comm] at this
      omega
    have hcourse := (onCourse_afterAdd htick hS hlayers hsound hoffset.2 hpos hdelay.2).run htick hS
      hlayers hlayers' hadded.sound hadded.lt hspares hafter
    rw [hcourse.onTime_iff_near (hadded.sound.run htick hS' hlayers hafter).shaped hpast,
      fireTick_near_iff htick hS hlayers hhome, inPhase_iff tick S layers s offset hpos]

/-- Operations that return one after another, each given so many steps. -/
theorem run_of_foldlM {tick fuel : ℕ} {s t : Driven Cb} {ops : List (TimerOp Cb)}
    (hclock : ∀ op ∈ ops, op.OnTheClock tick) (h : ops.foldlM (exec tick fuel) s = .ok t) :
    (system tick).Run s ops t := by
  induction ops generalizing s with
  | nil =>
    cases h
    exact .nil
  | cons op ops ih =>
    obtain ⟨hop, hops⟩ := List.forall_mem_cons.1 hclock
    rw [List.foldlM_cons] at h
    cases hexec : s.exec tick fuel op with
    | error halt =>
      rw [hexec] at h
      cases h
    | ok u =>
      rw [hexec] at h
      exact (ih hops h).cons ⟨hop, fuel, hexec⟩

/-- Wheels of two slots that tick every millisecond: a timer of three milliseconds that is added at
the end of the first millisecond, just before the tick, runs on time. -/
theorem onTime_threeTicks :
    ∃ t, (system 1).Run ((init 1 2 2 0 : Driven Unit).afterAdd 1 1 3 ())
      (List.replicate 6 .tick) t ∧
      OnTime 1 ((init 1 2 2 0 : Driven Unit).handleOf 1 1 3 ()).id 4 t.wheel := by
  obtain ⟨t, ht, hlast⟩ : ∃ t, (List.replicate 6 TimerOp.tick).foldlM (exec 1 2)
      ((init 1 2 2 0 : Driven Unit).afterAdd 1 1 3 ()) = .ok t ∧ t.last = 6 := ⟨_, rfl, rfl⟩
  have hrun := run_of_foldlM (fun op hop ↦ by rw [List.eq_of_mem_replicate hop]; trivial) ht
  refine ⟨t, hrun, ((onTime_iff (by decide) (by decide) (by decide) (by decide) .nil
    ⟨by decide, by decide⟩ ⟨by decide, by decide⟩ ()
    (fun op hop ↦ by rw [List.eq_of_mem_replicate hop]; trivial)).2 t hrun ?_).2 (by decide)⟩
  rw [hlast]
  decide

/-- A timer of two milliseconds, one turn of wheel 0, that is added when the wheels have just been
made expires at 2 and runs at 5: its slot of wheel 1 is cascaded at 4, when the hand leaves it. -/
theorem runs_too_late :
    ∃ t, (system 1).Run ((init 1 2 2 0 : Driven Unit).afterAdd 1 0 2 ())
      (List.replicate 6 .tick) t ∧
      2 < t.last ∧ t.wheel.firings ((init 1 2 2 0 : Driven Unit).handleOf 1 0 2 ()).id = [5] ∧
      ¬ OnTime 1 ((init 1 2 2 0 : Driven Unit).handleOf 1 0 2 ()).id 2 t.wheel := by
  obtain ⟨t, ht, hlast, hfirings⟩ : ∃ t, (List.replicate 6 TimerOp.tick).foldlM (exec 1 2)
      ((init 1 2 2 0 : Driven Unit).afterAdd 1 0 2 ()) = .ok t ∧ t.last = 6 ∧
        t.wheel.firings ((init 1 2 2 0 : Driven Unit).handleOf 1 0 2 ()).id = [5] :=
          ⟨_, rfl, rfl, rfl⟩
  refine ⟨t, run_of_foldlM (fun op hop ↦ by rw [List.eq_of_mem_replicate hop]; trivial) ht,
    by omega,
    hfirings, ?_⟩
  rintro ⟨time, htime, -, hle⟩
  rw [hfirings, List.singleton_inj] at htime
  omega

end Driven
end Core
end ChwellCore
