import ChwellCore.Core.TimerLedger

/-!
# What a tick does to the wheels

The constructor makes any number of wheels, and `cascade` looks whether the layer it is given
exists.  `tick` is written out for wheels 0 to 3.  Before it cascades wheels 2 and 3 it asks whether
they are there; before it moves wheel 1 on it does not ask, and of a wheel 4 it knows nothing.

`Traced` is a wheel with a record of what the calls of `tick` have done to the wheels: the text of
`tick` is the same, and without the record it is the same function (`wheel_tick`).  `tick_ok` says
what a call comes to, whatever is in the slots.  The first four hands are an odometer, and a wheel
above wheel 0 is cascaded at its current slot and moved on at every tick that brings the hands below
it round (`Ticked`).  From a new wheel on these are the multiples of `wheel_size ^ layer`
(`Regular`).  So everything is as it should be with two, three or four layers, and with no other
number of them (`cascading_iff`).
-/

set_option autoImplicit false

namespace ChwellCore
namespace Core

open TimerWheel

variable {Cb : Type}

/-- What `tick` does to a wheel. -/
inductive WheelEvent where
  | cascaded (layer slot : ℕ)
  | advanced (layer : ℕ)
deriving DecidableEq, Repr

/-- The wheel it does it to. -/
def WheelEvent.layer : WheelEvent → ℕ
  | cascaded layer _ => layer
  | advanced layer => layer

/-- A wheel, how often it has ticked, and what the ticks have done. -/
structure Traced (Cb : Type) where
  wheel : TimerWheel Cb
  ticks : ℕ := 0
  trace : List WheelEvent := []
deriving DecidableEq

namespace Traced

/-- `cascade`.  A layer that does not exist is not cascaded. -/
def cascade (now : ℤ) (layer : ℕ) (s : Traced Cb) : Traced Cb :=
  { s with
    wheel := s.wheel.cascade now layer
    trace := s.trace ++
      if layer = 0 ∨ s.wheel.wheels.length ≤ layer then []
      else [.cascaded layer (s.wheel.currentSlot layer)] }

/-- Move a wheel on that `tick` takes to exist. -/
def advance (layer : ℕ) (s : Traced Cb) : Except Halt (Traced Cb) := do
  let wheel ← s.wheel.advance layer
  return { s with wheel := wheel, trace := s.trace ++ [.advanced layer] }

/-- `tick`. -/
def tick (fuel : ℕ) (now : ℤ) (s : Traced Cb) : Except Halt (Traced Cb) := do
  let wheel ← s.wheel.processSlot fuel now 0 (s.wheel.currentSlot 0)
  let s ← advance 0 { s with wheel := wheel }
  if s.wheel.currentSlot 0 = 0 then
    let s ← (s.cascade now 1).advance 1
    if s.wheel.currentSlot 1 = 0 ∧ 2 < s.wheel.wheels.length then
      let s ← (s.cascade now 2).advance 2
      if s.wheel.currentSlot 2 = 0 ∧ 3 < s.wheel.wheels.length then
        (s.cascade now 3).advance 3
      else return s
    else return s
  else return s

/-- One operation, where a tick gets so many steps. -/
def exec (fuel : ℕ) (s : Traced Cb) : LedgerOp Cb → Except Halt (Traced Cb)
  | .addTimer now delayMs callback =>
    .ok { s with wheel := (s.wheel.addTimer now delayMs callback).1 }
  | .addRepeatTimer now intervalMs callback =>
    .ok { s with wheel := (s.wheel.addRepeatTimer now intervalMs callback).1 }
  | .cancelTimer handle => .ok { s with wheel := (s.wheel.cancelTimer handle).1 }
  | .tick now => (s.tick fuel now).map fun t ↦ { t with ticks := t.ticks + 1 }

/-- The wheel under any operations that return, at any times. -/
def system : System (Traced Cb) (LedgerOp Cb) := ⟨fun s op t ↦ ∃ fuel, s.exec fuel op = .ok t⟩

/-- A new wheel. -/
def init (tick S layers : ℕ) : Traced Cb := { wheel := .new tick S layers }

/-- What has been done to the wheel of a layer. -/
def events (i : ℕ) (s : Traced Cb) : List WheelEvent := s.trace.filter (·.layer = i)

/-- What has to be done to the wheel of layer `i` in the first `n` ticks: in each `S ^ i` of them it
is once cascaded, at its current slot, and once moved on to the next. -/
def dueEvents (S i n : ℕ) : List WheelEvent :=
  (List.range (n / S ^ i)).flatMap fun k ↦ [.cascaded i (k % S), .advanced i]

/-- What is asked of a wheel in the middle of a run: its next tick reads no wheel that does not
exist, and every wheel above wheel 0 has been cascaded and moved on as often as it should. -/
structure Cascading (S layers : ℕ) (s : Traced Cb) : Prop where
  inside : ∀ fuel now layer, s.wheel.tick fuel now ≠ .error (.noWheel layer)
  turns : ∀ i, 1 ≤ i → i < layers → s.events i = dueEvents S i s.ticks

/-! ## Without the record -/

variable {tick S layers : ℕ} {s t : Traced Cb}

theorem map_bind_eq {x : Except Halt (Traced Cb)} {x' : Except Halt (TimerWheel Cb)}
    {f : Traced Cb → Except Halt (Traced Cb)} {f' : TimerWheel Cb → Except Halt (TimerWheel Cb)}
    (hx : x.map (·.wheel) = x') (hf : ∀ s, (f s).map (·.wheel) = f' s.wheel) :
    (x >>= f).map (·.wheel) = x' >>= f' := by
  subst hx
  rcases x with halt | s
  · rfl
  · exact hf s

theorem wheel_advance (layer : ℕ) (s : Traced Cb) :
    (s.advance layer).map (·.wheel) = s.wheel.advance layer := by
  rw [advance]
  rcases s.wheel.advance layer with halt | wheel <;> rfl

/-- **The record changes nothing.** -/
theorem wheel_tick (fuel : ℕ) (now : ℤ) (s : Traced Cb) :
    (s.tick fuel now).map (·.wheel) = s.wheel.tick fuel now := by
  rw [Traced.tick, TimerWheel.tick]
  rcases s.wheel.processSlot fuel now 0 (s.wheel.currentSlot 0) with halt | wheel
  · rfl
  show (advance 0 { s with wheel := wheel } >>= _).map _ = wheel.advance 0 >>= _
  refine map_bind_eq (wheel_advance 0 { s with wheel := wheel }) fun s ↦ ?_
  split
  · refine map_bind_eq (wheel_advance 1 (s.cascade now 1)) fun s ↦ ?_
    split
    · refine map_bind_eq (wheel_advance 2 (s.cascade now 2)) fun s ↦ ?_
      split
      · exact wheel_advance 3 (s.cascade now 3)
      · rfl
    · rfl
  · rfl

/-! ## What a tick comes to -/

/-- What `tick` does to a wheel above wheel 0 when the one below has come round. -/
def turn (now : ℤ) (layer : ℕ) (s : Traced Cb) : Traced Cb :=
  { s with
    wheel := s.wheel.turn now layer
    trace := s.trace ++ [.cascaded layer (s.wheel.currentSlot layer), .advanced layer] }

/-- The cascades of `tick`, for `n` layers from `layer` on. -/
def carry (now : ℤ) : ℕ → ℕ → Traced Cb → Traced Cb
  | 0, _, s => s
  | n + 1, layer, s =>
    if s.wheel.currentSlot (layer - 1) = 0 then carry now n (layer + 1) (s.turn now layer) else s

/-- What they add to the record, when the hands show `hand` before the tick and `after` after it. -/
def carried (hand after : ℕ → ℕ) : ℕ → ℕ → List WheelEvent
  | 0, _ => []
  | n + 1, layer =>
    if after (layer - 1) = 0 then
      .cascaded layer (hand layer) :: .advanced layer :: carried hand after n (layer + 1)
    else []

theorem advance_ok_iff {layer : ℕ} :
    s.advance layer = .ok t ↔ layer < s.wheel.wheels.length ∧
      { s with wheel := s.wheel.moveOn layer, trace := s.trace ++ [.advanced layer] } = t := by
  rw [advance, bind_ok_iff]
  constructor
  · rintro ⟨wheel, hadvance, hok⟩
    obtain ⟨hlt, rfl⟩ := TimerWheel.advance_ok_iff.1 hadvance
    exact ⟨hlt, Except.ok.inj hok⟩
  · rintro ⟨hlt, rfl⟩
    exact ⟨_, TimerWheel.advance_ok_iff.2 ⟨hlt, rfl⟩, rfl⟩

theorem turn_ok_iff (hw : Shaped tick S layers s.wheel) {now : ℤ} {layer : ℕ} (hpos : 0 < layer) :
    (s.cascade now layer).advance layer = .ok t ↔ layer < layers ∧ s.turn now layer = t := by
  have hlen : (s.cascade now layer).wheel.wheels.length = layers :=
    (shaped_cascade hw now layer).1.length
  rw [advance_ok_iff, hlen]
  refine and_congr_right fun hlt ↦ ?_
  have hexists : ¬ (layer = 0 ∨ s.wheel.wheels.length ≤ layer) := by
    rw [hw.length]
    omega
  rw [turn, cascade, if_neg hexists, List.append_assoc]
  rfl

theorem shaped_wheel_turn (hw : Shaped tick S layers s.wheel) (now : ℤ) (layer : ℕ) :
    Shaped tick S layers (s.turn now layer).wheel := shaped_turn hw now layer

theorem carry_of_round {now : ℤ} {n layer : ℕ} (hn : 0 < n)
    (hround : s.wheel.currentSlot (layer - 1) = 0) :
    s.carry now n layer = (s.turn now layer).carry now (n - 1) (layer + 1) := by
  obtain ⟨n, rfl⟩ := Nat.exists_eq_add_one_of_ne_zero hn.ne'
  rw [carry, if_pos hround, Nat.add_sub_cancel]

theorem carry_of_not {now : ℤ} {n layer : ℕ}
    (h : ¬ (s.wheel.currentSlot (layer - 1) = 0 ∧ 0 < n)) : s.carry now n layer = s := by
  rcases n with _ | n
  · rfl
  · rw [carry, if_neg fun hround ↦ h ⟨hround, Nat.succ_pos n⟩]

/-- **What a tick comes to** when it returns: the walk along a slot of wheel 0, which moves no hand,
and then a cascade for every further layer of the first four that it brings round.  With one layer
it does not return when it brings wheel 0 round. -/
theorem tick_ok (hw : Shaped tick S layers s.wheel) {fuel : ℕ} {now : ℤ}
    (h : s.tick fuel now = .ok t) :
    ∃ w, Shaped tick S layers w ∧ w.currentSlot = s.wheel.currentSlot ∧
      t = carry now (min (layers - 1) 3) 1
        { s with wheel := w.moveOn 0, trace := s.trace ++ [.advanced 0] } ∧
      (layers = 1 → (w.moveOn 0).currentSlot 0 ≠ 0) := by
  obtain ⟨w, hslot, h⟩ := bind_ok_iff.1 h
  obtain ⟨k, -, rfl⟩ := exists_end_of_processSlot hslot
  obtain ⟨hw₀, hcur⟩ := shaped_walked hw now k
  obtain ⟨s₁, hadvance, h⟩ := bind_ok_iff.1 h
  obtain ⟨-, hs₁⟩ := advance_ok_iff.1 hadvance
  have hw₁ : Shaped tick S layers s₁.wheel := hs₁ ▸ hw₀.moveOn 0
  suffices hcarry : t = carry now (min (layers - 1) 3) 1 s₁ ∧
      (layers = 1 → s₁.wheel.currentSlot 0 ≠ 0) by
    obtain rfl := hs₁
    exact ⟨_, hw₀, hcur, hcarry⟩
  split at h
  · next hround =>
    obtain ⟨s₂, hturn, h⟩ := bind_ok_iff.1 h
    obtain ⟨hlayers, rfl⟩ := (turn_ok_iff hw₁ Nat.one_pos).1 hturn
    have hw₂ := shaped_wheel_turn hw₁ now 1
    refine ⟨?_, fun hone ↦ by omega⟩
    rw [carry_of_round (by omega) hround]
    generalize turn now 1 s₁ = s₂ at h hw₂ ⊢
    split at h
    · next hround =>
      obtain ⟨hround, -⟩ := hround
      obtain ⟨s₃, hturn, h⟩ := bind_ok_iff.1 h
      obtain ⟨hlayers, rfl⟩ := (turn_ok_iff hw₂ Nat.two_pos).1 hturn
      have hw₃ := shaped_wheel_turn hw₂ now 2
      rw [carry_of_round (by omega) hround]
      generalize turn now 2 s₂ = s₃ at h hw₃ ⊢
      split at h
      · next hround =>
        obtain ⟨hlayers, rfl⟩ := (turn_ok_iff hw₃ (Nat.succ_pos 2)).1 h
        rw [carry_of_round (by omega) hround.1, carry_of_not (by omega)]
      · next hround =>
        obtain rfl := Except.ok.inj h
        rw [hw₃.length] at hround
        exact (carry_of_not fun h ↦ hround ⟨h.1, by omega⟩).symm
    · next hround =>
      obtain rfl := Except.ok.inj h
      rw [hw₂.length] at hround
      exact (carry_of_not fun h ↦ hround ⟨h.1, by omega⟩).symm
  · next hround =>
    obtain rfl := Except.ok.inj h
    exact ⟨(carry_of_not fun h ↦ hround h.1).symm, fun _ ↦ hround⟩

/-- **The cascades of a tick** turn the wheels that the odometer turns, one after the other, until
one of them does not come round. -/
theorem carry_spec (hS : 0 < S) {hand : ℕ → ℕ} (hlt : ∀ k < layers, hand k < S) (now : ℤ)
    {n layer : ℕ} (hpos : 0 < layer) (hle : layer + n ≤ layers)
    (hround : ∀ k < layer - 1, Odometer.next S hand k = 0) (hw : Shaped tick S layers s.wheel)
    (hcur : ∀ k, s.wheel.currentSlot k = if k < layer then Odometer.next S hand k else hand k) :
    Shaped tick S layers (s.carry now n layer).wheel ∧
      (∀ k < layer + n, (s.carry now n layer).wheel.currentSlot k = Odometer.next S hand k) ∧
      (s.carry now n layer).trace = s.trace ++ carried hand (Odometer.next S hand) n layer := by
  induction n generalizing s layer with
  | zero =>
    refine ⟨hw, fun k hk ↦ ?_, (List.append_nil _).symm⟩
    rw [Nat.add_zero] at hk
    rw [carry, hcur, if_pos hk]
  | succ n ih =>
    have hbelow : s.wheel.currentSlot (layer - 1) = Odometer.next S hand (layer - 1) := by
      rw [hcur, if_pos (by omega)]
    rw [carry, carried, hbelow]
    split
    · next hzero =>
      have hall : ∀ k < layer, Odometer.next S hand k = 0 := fun k hk ↦ by
        rcases Nat.lt_or_ge k (layer - 1) with hbelow | habove
        · exact hround k hbelow
        · rwa [show k = layer - 1 by omega]
      have hlast : Odometer.value S hand layer + 1 = S ^ layer :=
        (Odometer.value_add_one_iff hS fun k hk ↦ hlt k (by omega)).2 hall
      have hself : s.wheel.currentSlot layer = hand layer := by
        rw [hcur, if_neg (Nat.lt_irrefl layer)]
      have hcur' : ∀ k, (s.turn now layer).wheel.currentSlot k =
          if k < layer + 1 then Odometer.next S hand k else hand k := fun k ↦ by
        rw [turn, currentSlot_turn hw now (by omega), hself, hcur]
        rcases Nat.lt_trichotomy k layer with hk | rfl | hk
        · rw [if_neg (by omega), if_pos hk, if_pos (by omega)]
        · rw [if_pos rfl, if_pos (Nat.lt_succ_self k), Odometer.next, if_pos hlast]
        · rw [if_neg (by omega), if_neg (by omega), if_neg (by omega)]
      obtain ⟨hshaped, hhands, htrace⟩ :=
        ih (Nat.succ_pos layer) (by omega) hall (shaped_wheel_turn hw now layer) hcur'
      refine ⟨hshaped, fun k hk ↦ hhands k (by omega), ?_⟩
      rw [htrace, turn, hself, List.append_assoc]
      rfl
    · next hne =>
      refine ⟨hw, fun k hk ↦ ?_, (List.append_nil _).symm⟩
      rw [hcur]
      split
      · rfl
      · next habove =>
        -- a hand above one that has not come round stays where it is
        have hstay : ¬ (Odometer.value S hand k + 1 = S ^ k) := fun h ↦
          hne ((Odometer.value_add_one_iff hS fun j hj ↦ hlt j (by omega)).1 h _ (by omega))
        rw [Odometer.next, if_neg hstay]

theorem filter_turn (layer slot i : ℕ) (rest : List WheelEvent) :
    (.cascaded layer slot :: .advanced layer :: rest).filter (·.layer = i) =
      (if layer = i then [.cascaded layer slot, .advanced layer] else []) ++
        rest.filter (·.layer = i) := by
  by_cases hi : layer = i <;> simp [WheelEvent.layer, hi]

/-- What the cascades record of one layer. -/
theorem filter_carried (hand after : ℕ → ℕ) {n layer : ℕ} (hpos : 0 < layer) (i : ℕ) :
    (carried hand after n layer).filter (·.layer = i) =
      if layer ≤ i ∧ i < layer + n ∧ ∀ k < i, layer - 1 ≤ k → after k = 0 then
        [.cascaded i (hand i), .advanced i]
      else [] := by
  induction n generalizing layer with
  | zero => rw [carried, if_neg (by omega), List.filter_nil]
  | succ n ih =>
    rw [carried]
    split
    · next hzero =>
      rw [filter_turn, ih (Nat.succ_pos layer)]
      by_cases hi : layer = i
      · subst hi
        have hall : ∀ k < layer, layer - 1 ≤ k → after k = 0 := fun k hk hle ↦ by
          rwa [show k = layer - 1 by omega]
        rw [if_pos rfl, if_neg (by omega), List.append_nil, if_pos ⟨le_rfl, by omega, hall⟩]
      · rw [if_neg hi, List.nil_append]
        refine if_congr ?_ rfl rfl
        constructor
        · rintro ⟨hle, hlt, hall⟩
          refine ⟨by omega, by omega, fun k hk hbelow ↦ ?_⟩
          rcases Nat.lt_or_ge k layer with hlow | hhigh
          · rwa [show k = layer - 1 by omega]
          · exact hall k hk (by omega)
        · rintro ⟨hle, hlt, hall⟩
          exact ⟨by omega, by omega, fun k hk hbelow ↦ hall k hk (by omega)⟩
    · next hne =>
      rw [if_neg fun h ↦ hne (h.2.2 _ (by omega) le_rfl), List.filter_nil]

theorem ticks_carry (now : ℤ) (n layer : ℕ) (s : Traced Cb) :
    (s.carry now n layer).ticks = s.ticks := by
  induction n generalizing s layer with
  | zero => rfl
  | succ n ih =>
    rw [carry]
    split
    · exact ih _ _
    · rfl

/-- What a tick does to the hands and puts on record. -/
structure Ticked (tick S layers : ℕ) (s t : Traced Cb) : Prop where
  shaped : Shaped tick S layers t.wheel
  ticks : t.ticks = s.ticks
  hands : ∀ k < min layers 4, t.wheel.currentSlot k = Odometer.next S s.wheel.currentSlot k
  turns : ∀ i, 1 ≤ i → t.events i = s.events i ++
    if i < min layers 4 ∧ ∀ k < i, Odometer.next S s.wheel.currentSlot k = 0 then
      [.cascaded i (s.wheel.currentSlot i), .advanced i]
    else []
  alone : layers = 1 → Odometer.next S s.wheel.currentSlot 0 ≠ 0

/-- Wheel 0 moves on at every tick. -/
theorem currentSlot_moveOn_zero {w : TimerWheel Cb} (hw : Shaped tick S layers w)
    (hlayers : 1 ≤ layers) (k : ℕ) :
    (w.moveOn 0).currentSlot k =
      if k < 1 then Odometer.next S w.currentSlot k else w.currentSlot k := by
  rw [currentSlot_moveOn hw (by omega)]
  rcases k with _ | k
  · rw [if_pos rfl, if_pos Nat.one_pos, Odometer.next, Odometer.value, pow_zero, zero_add,
      if_pos rfl]
  · rw [if_neg (by omega), if_neg (by omega)]

theorem ticked_of_tick (hS : 0 < S) (hlayers : 1 ≤ layers) (hs : Shaped tick S layers s.wheel)
    {fuel : ℕ} {now : ℤ} (hok : s.tick fuel now = .ok t) : s.Ticked tick S layers t := by
  obtain ⟨w, hw, hcur, ht, halone⟩ := tick_ok hs hok
  have hmoved := currentSlot_moveOn_zero hw hlayers
  rw [hcur] at hmoved
  have hmin : 1 + min (layers - 1) 3 = min layers 4 := by omega
  obtain ⟨hshaped, hhands, htrace⟩ :=
    carry_spec hS (fun k hk ↦ hs.currentSlot_lt hk) now
      (s := { s with wheel := w.moveOn 0, trace := s.trace ++ [.advanced 0] })
      (n := min (layers - 1) 3) Nat.one_pos (by omega) (fun k hk ↦ absurd hk (by omega))
      (hw.moveOn 0) hmoved
  rw [← ht] at hshaped hhands htrace
  rw [hmin] at hhands
  refine ⟨hshaped, ht ▸ ticks_carry .., hhands, fun i hi ↦ ?_, fun hone ↦ ?_⟩
  · have hzero : [WheelEvent.advanced 0].filter (·.layer = i) = [] := by
      simp [WheelEvent.layer, Nat.ne_of_lt hi]
    rw [events, htrace, List.filter_append, List.filter_append, hzero, List.append_nil, ← events,
      filter_carried _ _ Nat.one_pos, hmin]
    congr 1
    exact if_congr (by simp [hi]) rfl rfl
  · have hmoves := halone hone
    rwa [hmoved, if_pos Nat.one_pos] at hmoves

/-! ## Any number of ticks -/

/-- What holds of a wheel in every run.  Of its hands the first four are an odometer that shows how
often it has ticked.  A wheel that is alone does not come round. -/
structure Regular (tick S layers : ℕ) (s : Traced Cb) : Prop where
  shaped : Shaped tick S layers s.wheel
  hands : ∀ i ≤ min layers 4, Odometer.value S s.wheel.currentSlot i = s.ticks % S ^ i
  turns : ∀ i, 1 ≤ i → s.events i = if i < min layers 4 then dueEvents S i s.ticks else []
  alone : layers = 1 → s.ticks < S

theorem dueEvents_succ (S i n : ℕ) :
    dueEvents S i (n + 1) = dueEvents S i n ++
      if S ^ i ∣ n + 1 then [.cascaded i (n / S ^ i % S), .advanced i] else [] := by
  rw [dueEvents, dueEvents, Nat.succ_div]
  split
  · rw [List.range_succ, List.flatMap_append, List.flatMap_singleton]
  · rw [Nat.add_zero, List.append_nil]

theorem regular_init (hS : 0 < S) : (init tick S layers : Traced Cb).Regular tick S layers := by
  have hzero : (init tick S layers : Traced Cb).wheel.currentSlot = fun _ ↦ 0 := by
    funext layer
    rw [init, new, currentSlot, wheelsFrom_getElem?]
    split <;> rfl
  refine ⟨shaped_new hS, fun i _ ↦ ?_, fun i _ ↦ ?_, fun _ ↦ hS⟩
  · rw [hzero, (Odometer.value_eq_zero_iff hS).2 fun _ _ ↦ rfl]
    exact (Nat.zero_mod _).symm
  · have hdue : dueEvents S i 0 = [] := by rw [dueEvents, Nat.zero_div, List.range_zero]; rfl
    show [] = if _ then dueEvents S i 0 else []
    rw [hdue, ite_self]

/-- What does not move the hands keeps it. -/
theorem Regular.of_hands (h : s.Regular tick S layers) {w : TimerWheel Cb}
    (hw : Shaped tick S layers w) (hcur : w.currentSlot = s.wheel.currentSlot) :
    Regular tick S layers { s with wheel := w } :=
  ⟨hw, fun i hi ↦ by rw [← h.hands i hi, ← hcur], h.turns, h.alone⟩

/-- **A tick turns the wheels that are due.** -/
theorem Regular.ticked (hS : 0 < S) (h : s.Regular tick S layers)
    (ht : s.Ticked tick S layers t) : Regular tick S layers { t with ticks := t.ticks + 1 } := by
  have hlt : ∀ k < layers, s.wheel.currentSlot k < S := fun k hk ↦ h.shaped.currentSlot_lt hk
  refine ⟨ht.shaped, fun i hi ↦ ?_, fun i hi ↦ ?_, fun hone ↦ ?_⟩
  · show Odometer.value S t.wheel.currentSlot i = (t.ticks + 1) % S ^ i
    rw [Odometer.value_congr fun k hk ↦ ht.hands k (by omega), ht.ticks]
    exact Odometer.value_next_eq_mod hS (fun k hk ↦ hlt k (by omega)) (h.hands i hi)
  · show t.events i = if i < min layers 4 then dueEvents S i (t.ticks + 1) else []
    rw [ht.turns i hi, h.turns i hi, ht.ticks]
    by_cases hin : i < min layers 4
    · have hdue : (∀ k < i, Odometer.next S s.wheel.currentSlot k = 0) ↔ S ^ i ∣ s.ticks + 1 := by
        rw [← Odometer.value_add_one_iff_dvd hS (h.hands i hin.le),
          Odometer.value_add_one_iff hS fun k hk ↦ hlt k (by omega)]
      rw [if_pos hin, if_pos hin, dueEvents_succ,
        Odometer.hand_eq hS (h.hands i hin.le) (h.hands (i + 1) hin)]
      congr 1
      exact if_congr (by rw [hdue, and_iff_right hin]) rfl rfl
    · rw [if_neg hin, if_neg hin, if_neg fun hcond ↦ hin hcond.1, List.append_nil]
  · show t.ticks + 1 < S
    have hlow := h.alone hone
    have hhand := Odometer.hand_eq hS (h.hands 0 (by omega)) (h.hands 1 (by omega))
    have hnext := ht.alone hone
    rw [pow_zero, Nat.div_one, Nat.mod_eq_of_lt hlow] at hhand
    rw [Odometer.next, Odometer.value, pow_zero, zero_add, if_pos rfl, hhand] at hnext
    rw [ht.ticks]
    by_contra hover
    rw [show s.ticks + 1 = S by omega, Nat.mod_self] at hnext
    exact hnext rfl

theorem Regular.step (hS : 0 < S) (hlayers : 1 ≤ layers) {op : LedgerOp Cb}
    (h : s.Regular tick S layers) (hstep : system.step s op t) : t.Regular tick S layers := by
  obtain ⟨fuel, hexec⟩ := hstep
  cases op with
  | addTimer now delayMs callback =>
    obtain rfl := Except.ok.inj hexec
    exact h.of_hands (h.shaped.addTask now delayMs 0 callback) (currentSlot_addTask ..)
  | addRepeatTimer now intervalMs callback =>
    obtain rfl := Except.ok.inj hexec
    exact h.of_hands (h.shaped.addTask now intervalMs intervalMs callback) (currentSlot_addTask ..)
  | cancelTimer handle =>
    obtain rfl := Except.ok.inj hexec
    exact h.of_hands (h.shaped.cancelTimer handle) (currentSlot_cancelTimer handle)
  | tick now =>
    rw [exec] at hexec
    rcases hok : s.tick fuel now with halt | u
    · rw [hok] at hexec
      cases hexec
    · rw [hok] at hexec
      obtain rfl := Except.ok.inj hexec
      exact h.ticked hS (ticked_of_tick hS hlayers h.shaped hok)

theorem regular_run (hS : 0 < S) (hlayers : 1 ≤ layers) {ops : List (LedgerOp Cb)}
    (hrun : system.Run (init tick S layers) ops s) : s.Regular tick S layers :=
  hrun.invariant (fun _ _ _ h hstep ↦ h.step hS hlayers hstep) (regular_init hS)

/-! ## Wheels that do not exist -/

variable {w : TimerWheel Cb} {fuel : ℕ} {now : ℤ}

/-- The walk along a slot reads no other wheel. -/
theorem running_of_processFrom {layer slot it : ℕ} {halt : Halt}
    (h : processFrom now layer slot fuel it w = .error halt) : halt = .running := by
  induction fuel generalizing it w with
  | zero =>
    cases h
    rfl
  | succ fuel ih =>
    rw [processFrom] at h
    split at h
    · cases h
    · split at h
      · exact ih h
      · split at h <;> exact ih h

theorem tick_ne_noWheel (hlayers : 2 ≤ layers) (hw : Shaped tick S layers w) (layer : ℕ) :
    w.tick fuel now ≠ .error (.noWheel layer) := by
  intro h
  rcases hslot : w.processSlot fuel now 0 (w.currentSlot 0) with halt | w₁
  · obtain rfl := running_of_processFrom hslot
    rw [TimerWheel.tick, hslot] at h
    cases h
  · obtain ⟨k, -, rfl⟩ := exists_end_of_processSlot hslot
    rw [tick_of_processSlot hlayers hslot (shaped_walked hw now k).1] at h
    cases h

/-- A wheel that is alone reads a second one when it comes round. -/
theorem tick_of_alone {w₁ : TimerWheel Cb}
    (hok : w.processSlot fuel now 0 (w.currentSlot 0) = .ok w₁) (hw₁ : Shaped tick S 1 w₁) :
    w.tick fuel now = if (w₁.moveOn 0).currentSlot 0 = 0 then .error (.noWheel 1)
      else .ok (w₁.moveOn 0) := by
  have hlen : ((w₁.moveOn 0).cascade now 1).wheels.length = 1 :=
    (shaped_cascade (hw₁.moveOn 0) now 1).1.length
  have hnone : ((w₁.moveOn 0).cascade now 1).advance 1 = .error (.noWheel 1) := by
    rw [TimerWheel.advance, hlen, if_neg (Nat.lt_irrefl 1)]
  simp only [TimerWheel.tick, hok, advance_eq hw₁ Nat.one_pos, hnone, bind, Except.bind, pure,
    Except.pure]

/-- A wheel without timers has nothing to walk along. -/
theorem exists_tick_of_idle (hlayers : 1 ≤ layers) (hw : Shaped tick S layers s.wheel)
    (hidle : s.wheel.AllTasks fun _ ↦ False)
    (hinside : ∀ layer, s.wheel.tick 1 now ≠ .error (.noWheel layer)) :
    ∃ t, s.tick 1 now = .ok t := by
  have hslot : s.wheel.processSlot 1 now 0 (s.wheel.currentSlot 0) = .ok s.wheel := by
    rw [processSlot, processFrom, List.eq_nil_iff_forall_not_mem.2 (hidle 0 _)]
    rfl
  have herase := wheel_tick 1 now s
  rcases hok : s.tick 1 now with halt | t
  · rw [hok] at herase
    rcases Nat.lt_or_eq_of_le hlayers with htwo | rfl
    · rw [tick_of_processSlot htwo hslot hw] at herase
      cases herase
    · have halone := tick_of_alone hslot hw
      split at halone
      · exact absurd halone (hinside 1)
      · rw [halone] at herase
        cases herase
  · exact ⟨t, rfl⟩

/-- Where no tick reads a wheel that does not exist, a wheel without timers ticks for ever. -/
theorem exists_run_of_ticks (hS : 1 ≤ S) (hlayers : 1 ≤ layers)
    (h : ∀ ops s, system.Run (init tick S layers : Traced Cb) ops s → s.Cascading S layers)
    (n : ℕ) : ∃ ops s, system.Run (init tick S layers : Traced Cb) ops s ∧ s.ticks = n ∧
      s.wheel.AllTasks fun _ ↦ False := by
  induction n with
  | zero =>
    refine ⟨[], _, .nil, rfl, fun layer slot task htask ↦ ?_⟩
    have hempty : (init tick S layers : Traced Cb).wheel.tasks layer slot = [] :=
      Driven.tasks_init 0 layer slot
    rw [hempty] at htask
    cases htask
  | succ n ih =>
    obtain ⟨ops, s, hrun, rfl, hidle⟩ := ih
    have hregular := regular_run hS hlayers hrun
    obtain ⟨t, ht⟩ := exists_tick_of_idle hlayers hregular.shaped hidle ((h ops s hrun).inside 1 0)
    have hsteady : Steady 0 fun _ : TimerTask Cb ↦ False := ⟨fun _ _ h ↦ h, fun _ h _ ↦ h⟩
    have hwheel : s.wheel.tick 1 0 = .ok t.wheel := by
      rw [← wheel_tick, ht]
      rfl
    refine ⟨ops ++ [.tick 0], { t with ticks := t.ticks + 1 }, .snoc hrun ⟨1, ?_⟩,
      congrArg (· + 1) (ticked_of_tick hS hlayers hregular.shaped ht).ticks,
      hidle.tick hsteady hwheel⟩
    rw [exec, ht]
    rfl

/-- **From two to four layers**, and with no other number of them, every tick of every run stays
within the wheels there are, and cascades the wheel of layer `i` and moves it on once in every
`wheel_size ^ i` ticks. -/
theorem cascading_iff (hS : 1 ≤ S) (hlayers : 1 ≤ layers) :
    (∀ ops s, system.Run (init tick S layers : Traced Cb) ops s → s.Cascading S layers) ↔
      2 ≤ layers ∧ layers ≤ 4 := by
  constructor
  · intro h
    constructor
    · by_contra hfew
      obtain ⟨ops, s, hrun, hticks, -⟩ := exists_run_of_ticks hS hlayers h S
      have hlow := (regular_run hS hlayers hrun).alone (by omega)
      omega
    · by_contra hmany
      obtain ⟨ops, s, hrun, hticks, -⟩ := exists_run_of_ticks hS hlayers h (S ^ 4)
      have hdue := (h ops s hrun).turns 4 (by omega) (by omega)
      rw [(regular_run hS hlayers hrun).turns 4 (by omega), if_neg (by omega), hticks, dueEvents,
        Nat.div_self (Nat.pow_pos hS)] at hdue
      cases hdue
  · rintro ⟨htwo, hfour⟩ ops s hrun
    have hregular := regular_run hS hlayers hrun
    refine ⟨fun fuel now ↦ tick_ne_noWheel htwo hregular.shaped, fun i hi hlt ↦ ?_⟩
    rw [hregular.turns i hi, if_pos (by omega)]

/-- The sizes the constructor takes by default. -/
theorem cascading_default :
    (∀ ops s, system.Run (init 100 60 4 : Traced Unit) ops s → s.Cascading 60 4) ↔
      2 ≤ 4 ∧ 4 ≤ 4 := cascading_iff (by decide) (by decide)

theorem exists_run_of_any (fuel : ℕ) {P : Traced Cb → Prop} [DecidablePred P]
    {ops : List (LedgerOp Cb)}
    (h : (ops.foldlM (fun s op ↦ (exec fuel s op).toOption) s).any (fun t ↦ decide (P t)) = true) :
    ∃ t, system.Run s ops t ∧ P t := by
  obtain ⟨t, hrun, ht⟩ := System.Run.exists_of_any h
  refine ⟨t, hrun.mono fun s op t hstep ↦ ?_, ht⟩
  cases hexec : exec fuel s op with
  | error halt => simp [System.ofPartial, hexec, Except.toOption] at hstep
  | ok u =>
    obtain rfl : u = t := by simpa [System.ofPartial, hexec, Except.toOption] using hstep
    exact ⟨fuel, hexec⟩

/-- A single wheel of two slots, which reads a second wheel at its second tick, and five wheels of
two slots, of which the last does not move in the sixteen ticks in which it should move on once. -/
theorem not_cascading :
    (∃ s, system.Run (init 1 2 1 : Traced Unit) [.tick 0] s ∧
      s.wheel.tick 1 0 = .error (.noWheel 1)) ∧
    ∃ s, system.Run (init 1 2 5 : Traced Unit) (List.replicate 16 (.tick 0)) s ∧
      s.events 4 = [] ∧ dueEvents 2 4 s.ticks = [.cascaded 4 0, .advanced 4] :=
  ⟨exists_run_of_any 1 (by decide +kernel), exists_run_of_any 1 (by decide +kernel)⟩

end Traced
end Core
end ChwellCore
