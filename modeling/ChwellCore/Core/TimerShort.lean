import ChwellCore.Core.TimerDrive

/-!
# Timers of less than a turn

A delay of less than one turn of wheel 0 is counted in ticks, and its timer never leaves wheel 0: it
waits in the slot that the hand comes to when the delay is over, and the walk of that tick runs it
(`passes_cases`).  So it would always be on time, if only that tick came.

It does not come if a tick before it never returns.  `Passes` says which wheels are passed through
while operations are carried out, those inside a tick that does not return included; and
`runsOnce_iff` says that a short timer runs, once and on time, if and only if no restless timer
keeps one of the ticks before from its end.
-/

set_option autoImplicit false

namespace ChwellCore
namespace Core

open TimerWheel

variable {Cb : Type}

namespace TimerOp

/-- The number of ticks among the operations. -/
def ticks : List (TimerOp Cb) → ℕ
  | [] => 0
  | .tick :: ops => ticks ops + 1
  | _ :: ops => ticks ops

theorem ticks_cons (op : TimerOp Cb) (ops : List (TimerOp Cb)) :
    ticks (op :: ops) = ticks ops + ticks [op] := by
  cases op <;> rfl

end TimerOp

namespace Driven

variable {tick S layers x : ℕ} {c : Cb} {expire F : ℤ}

/-- The wheels that are passed through while operations are carried out: between two operations, and
inside a tick as far as its walk has got. -/
inductive Passes (tick : ℕ) : Driven Cb → List (TimerOp Cb) → TimerWheel Cb → Prop
  | here (s : Driven Cb) (ops : List (TimerOp Cb)) : Passes tick s ops s.wheel
  | walking (s : Driven Cb) (ops : List (TimerOp Cb)) (n : ℕ) :
    Passes tick s (.tick :: ops) (s.wheel.walked (s.now tick tick) n).wheel
  | later {s t : Driven Cb} {op : TimerOp Cb} {ops : List (TimerOp Cb)} {w : TimerWheel Cb} :
    (system tick).step s op t → Passes tick t ops w → Passes tick s (op :: ops) w

/-- The callback of timer `x` runs once while the operations are carried out, at a tick that is at
most `tick_ms` away from its expiry. -/
def RunsOnce (tick x : ℕ) (expire : ℤ) (s : Driven Cb) (ops : List (TimerOp Cb)) : Prop :=
  ∃ N : ℤ, (expire - tick ≤ N * tick ∧ N * tick ≤ expire + tick) ∧
    (∃ w, Passes tick s ops w ∧ w.firings x = [N * tick]) ∧
    ∀ w, Passes tick s ops w → w.firings x = [] ∨ w.firings x = [N * tick]

/-- No restless timer is due at one of the first `k` ticks. -/
def Undisturbed (tick k : ℕ) (s : Driven Cb) (ops : List (TimerOp Cb)) : Prop :=
  ∀ before after t, ops = before ++ .tick :: after → TimerOp.ticks before < k →
    (system tick).Run s before t → Calm tick t.wheel

theorem now_tick (s : Driven Cb) : s.now tick tick = (s.last + 1) * tick := by
  rw [now]
  ring

/-- An operation can do only one thing. -/
theorem deterministic_system (tick : ℕ) : (system tick : System (Driven Cb) _).Deterministic := by
  rintro s op t t' ⟨-, fuel, hexec⟩ ⟨-, fuel', hexec'⟩
  cases op with
  | addTimer | addRepeatTimer | cancelTimer => exact Except.ok.inj (hexec.symm.trans hexec')
  | tick =>
    obtain ⟨⟨fuel, hok⟩, hlast⟩ := step_tick.1 ⟨trivial, fuel, hexec⟩
    obtain ⟨⟨fuel', hok'⟩, hlast'⟩ := step_tick.1 ⟨trivial, fuel', hexec'⟩
    rcases t with ⟨w, last⟩
    rcases t' with ⟨w', last'⟩
    rw [Driven.mk.injEq]
    exact ⟨tick_unique hok hok', hlast.trans hlast'.symm⟩

/-- The clock goes by ticks. -/
theorem last_of_step {s t : Driven Cb} {op : TimerOp Cb} (h : (system tick).step s op t) :
    t.last = s.last + TimerOp.ticks [op] := by
  cases op with
  | tick => exact (step_tick.1 h).2
  | addTimer | addRepeatTimer | cancelTimer =>
    obtain ⟨-, fuel, hexec⟩ := h
    cases Except.ok.inj hexec
    exact (add_zero _).symm

theorem Undisturbed.tail {k : ℕ} {s t : Driven Cb} {op : TimerOp Cb} {ops : List (TimerOp Cb)}
    (h : Undisturbed tick k s (op :: ops)) (hstep : (system tick).step s op t) :
    Undisturbed tick (k - TimerOp.ticks [op]) t ops := by
  intro before after u hops hlt hrun
  refine h (op :: before) after u (by rw [hops]; rfl) ?_ (hrun.cons hstep)
  rw [TimerOp.ticks_cons]
  omega

/-- A run passes through the wheel it leads to. -/
theorem passes_of_run {s t : Driven Cb} {ops : List (TimerOp Cb)} (h : (system tick).Run s ops t) :
    Passes tick s ops t.wheel := by
  induction ops generalizing s with
  | nil =>
    obtain rfl := h.unique (deterministic_system tick) .nil
    exact .here s []
  | cons op ops ih =>
    obtain ⟨u, hstep, hrest⟩ := h.first
    exact .later hstep (ih hrest)

/-! ## Waiting in wheel 0 -/

/-- Timer `x` waits in wheel 0 for tick `F`, or has run at it. -/
def Short (tick S x : ℕ) (c : Cb) (expire F : ℤ) (s : Driven Cb) : Prop :=
  Waits S x c expire 0 F s ∧ s.wheel.firings x = [] ∨
    s.wheel.Absent x ∧ s.wheel.firings x = [F * tick] ∧ F ≤ s.last

theorem Short.waits {s : Driven Cb} (h : Short tick S x c expire F s) (hlt : s.last < F) :
    Waits S x c expire 0 F s ∧ s.wheel.firings x = [] := by
  rcases h with hwaits | ⟨-, -, hF⟩
  · exact hwaits
  · omega

theorem Short.firings_eq {s : Driven Cb} (hw : Shaped tick S layers s.wheel) (hlayers : 0 < layers)
    (h : Short tick S x c expire F s) (hle : F ≤ s.last) : s.wheel.firings x = [F * tick] := by
  rcases h with ⟨hwaits, -⟩ | ⟨-, hfirings, -⟩
  · have := hwaits.lt hw hlayers
    omega
  · exact hfirings

theorem Short.of_untouched {s t : Driven Cb} (h : Short tick S x c expire F s)
    (hlast : t.last = s.last) (hsame : Untouched tick S layers x s.wheel t.wheel) :
    Short tick S x c expire F t := by
  rcases h with ⟨hwaits, hfirings⟩ | ⟨habsent, hfirings, hF⟩
  · exact .inl ⟨hwaits.of_untouched hlast hsame, hsame.firings.trans hfirings⟩
  · refine .inr ⟨fun layer slot ↦ ?_, hsame.firings.trans hfirings, by rw [hlast]; exact hF⟩
    rw [hsame.held]
    exact habsent layer slot

/-- The slot that a timer waits in is the one of the next tick just when this tick is its own. -/
theorem Waits.heldAt_zero {s : Driven Cb} (hw : Shaped tick S layers s.wheel)
    (hlayers : 2 ≤ layers) (h : Waits S x c expire 0 F s) :
    ∃ slot, s.wheel.HeldAt x 0 slot (timer x c expire) ∧
      (slot = s.wheel.currentSlot 0 ∧ F = s.last + 1 ∨
        slot ≠ s.wheel.currentSlot 0 ∧ s.last + 1 < F) := by
  obtain ⟨slot, g, hheld, hleaves, hF⟩ := h
  have hhand : s.wheel.currentSlot 0 < S := hw.currentSlot_lt (by omega)
  have hhands : ∀ k ≤ 0, s.wheel.currentSlot k < S := fun k hk ↦ by
    rwa [Nat.le_zero.1 hk]
  have hpos := hleaves.pos fun k hk ↦ absurd hk (Nat.not_lt_zero k)
  refine ⟨slot, hheld, ?_⟩
  by_cases hslot : slot = s.wheel.currentSlot 0
  · subst hslot
    have hg := hleaves.eq_one hhand rfl
    exact .inl ⟨rfl, by omega⟩
  · have hg : g ≠ 1 := fun hg ↦ by
      subst hg
      exact hslot ((Odometer.Leaves.one_iff hhands).1 hleaves).1
    exact .inr ⟨hslot, by omega⟩

section

variable (htick : 1 ≤ tick) (hS : 1 ≤ S) (hlayers : 2 ≤ layers)

include htick hS hlayers

/-- Before its tick, a timer waits on. -/
theorem Waits.ticking {s : Driven Cb} (hw : Shaped tick S layers s.wheel)
    (h : Waits S x c expire 0 F s) (hlt : s.last + 1 < F) (now : ℤ) {n : ℕ} (hn : n < layers) :
    Waits S x c expire 0 F ⟨s.wheel.ticking S n now, s.last + 1⟩ ∧
      (s.wheel.ticking S n now).firings x = s.wheel.firings x := by
  have hhand : s.wheel.currentSlot 0 < S := hw.currentSlot_lt (by omega)
  obtain ⟨slot, g, hheld, hleaves, hF⟩ := h
  have hslot : slot ≠ s.wheel.currentSlot 0 := fun hslot ↦ by
    subst hslot
    have := hleaves.eq_one hhand rfl
    omega
  obtain ⟨g, rfl⟩ : ∃ g', g = g' + 1 + 1 := ⟨g - 2, by omega⟩
  obtain ⟨hheld', hfirings⟩ := heldAt_ticking_of_ne htick hS hlayers hw now hheld rfl hslot hn
  have hmoved : ∀ k ≤ 0, Odometer.next S s.wheel.currentSlot k =
      (s.wheel.ticking S n now).currentSlot k := fun k hk ↦ by
    rw [currentSlot_ticking hw now hn, if_pos (by omega)]
  have hleaves' := hleaves.next (fun k hk ↦ absurd hk (Nat.not_lt_zero k)) (Nat.succ_pos g)
  refine ⟨⟨slot, g + 1, hheld', hleaves'.congr hmoved, ?_⟩, hfirings⟩
  push_cast at hF ⊢
  omega

theorem Short.ticking {s : Driven Cb} (hw : Shaped tick S layers s.wheel)
    (h : Short tick S x c expire F s) {n : ℕ} (hn : n < layers) :
    Short tick S x c expire F ⟨s.wheel.ticking S n (s.now tick tick), s.last + 1⟩ := by
  rcases h with ⟨hwaits, hfirings⟩ | ⟨habsent, hfirings, hF⟩
  · obtain ⟨slot, hheld, ⟨hslot, rfl⟩ | ⟨-, hlt⟩⟩ := hwaits.heldAt_zero hw hlayers
    · obtain ⟨habsent, hfired⟩ := absent_ticking_of_due htick hS hlayers hw (s.now tick tick) hheld
        rfl hslot rfl ⟨rfl, rfl⟩ rfl hn
      refine .inr ⟨habsent, hfired.trans ?_, le_rfl⟩
      rw [hfirings, now_tick]
      rfl
    · obtain ⟨hwaits', hsame⟩ := hwaits.ticking htick hS hlayers hw hlt (s.now tick tick) hn
      exact .inl ⟨hwaits', hsame.trans hfirings⟩
  · obtain ⟨habsent', hsame⟩ :=
      absent_ticking htick hS hlayers hw (s.now tick tick) hn habsent
    exact .inr ⟨habsent', hsame.trans hfirings, by simp only; omega⟩

theorem Short.step {s t : Driven Cb} {op : TimerOp Cb} (hw : Shaped tick S layers s.wheel)
    (hx : x < s.wheel.nextId) (hspares : op.Spares x) (hstep : (system tick).step s op t)
    (h : Short tick S x c expire F s) :
    x < t.wheel.nextId ∧ Short tick S x c expire F t :=
  step_of_untouched htick hS hlayers hw hx hspares hstep
    (h.ticking htick hS hlayers hw (by omega)) fun _ hsame ↦ h.of_untouched rfl hsame

/-- A timer whose delay is less than a turn of wheel 0 waits for the tick at which so many whole
ticks have passed. -/
theorem short_afterAdd {s : Driven Cb} (hsound : Sound tick S layers s.wheel) (offset : ℤ)
    {delayMs : ℤ} (hpos : 0 < delayMs) (hlt : delayMs < (S * tick : ℕ)) :
    Sound tick S layers (s.afterAdd tick offset delayMs c).wheel ∧
      s.wheel.nextId < (s.afterAdd tick offset delayMs c).wheel.nextId ∧
      Short tick S s.wheel.nextId c (s.now tick offset + delayMs)
        (s.last + 1 + (delayMs.toNat / tick : ℕ)) (s.afterAdd tick offset delayMs c) := by
  have hadded := added_addTask htick hS hlayers hsound (s.now tick offset) 0 hpos c
  have hheld := hadded.held
  rw [placeFor_of_lt htick hlayers _ hpos hlt] at hheld
  refine ⟨hadded.sound, hadded.lt,
    .inl ⟨⟨_, delayMs.toNat / tick + 1, hheld, ?_, ?_⟩, hadded.firings⟩⟩
  · rw [afterAdd, addTimer, hadded.hands]
    exact Odometer.leaves_of_add ((ticks_lt_iff htick hpos).2 hlt) (by simp [Odometer.value])
  · rw [afterAdd]
    push_cast
    ring

end

/-! ## Inside a tick -/

/-- A timer with no task in a slot owns none of the tasks there. -/
theorem id_ne_of_held_eq_nil {w : TimerWheel Cb} {layer slot : ℕ} (h : w.held x layer slot = []) :
    ∀ task ∈ w.tasks layer slot, task.id ≠ x := fun task htask ↦ by
  simpa using List.filter_eq_nil_iff.1 h task htask

/-- The walk of an earlier tick does not run a timer that waits. -/
theorem Waits.firings_walked {s : Driven Cb} (hw : Shaped tick S layers s.wheel)
    (hlayers : 2 ≤ layers) (h : Waits S x c expire 0 F s) (hlt : s.last + 1 < F) (now : ℤ) (n : ℕ) :
    (s.wheel.walked now n).wheel.firings x = s.wheel.firings x := by
  obtain ⟨slot, hheld, ⟨-, hF⟩ | ⟨hslot, -⟩⟩ := h.heldAt_zero hw hlayers
  · omega
  · have hnil : s.wheel.held x 0 (s.wheel.currentSlot 0) = [] := by
      rw [hheld, if_neg fun h ↦ hslot h.2]
    exact (firings_walked_of_not_due now (fun task htask _ ↦ id_ne_of_held_eq_nil hnil task htask)
      n).2

/-- The walk of its own tick runs it when it comes to it. -/
theorem Waits.exists_firings_walked {s : Driven Cb} (hw : Shaped tick S layers s.wheel)
    (hlayers : 2 ≤ layers) (h : Waits S x c expire 0 (s.last + 1) s)
    (hfirings : s.wheel.firings x = []) (now : ℤ) :
    (∃ n, (s.wheel.walked now n).wheel.firings x = [now]) ∧
      ∀ n, (s.wheel.walked now n).wheel.firings x = [] ∨
        (s.wheel.walked now n).wheel.firings x = [now] := by
  obtain ⟨slot, hheld, ⟨hslot, -⟩ | ⟨-, hlt⟩⟩ := h.heldAt_zero hw hlayers
  · subst hslot
    have hslot : (s.wheel.tasks 0 (s.wheel.currentSlot 0)).filter (·.id = x) =
        [timer x c expire] := by
      have := hheld 0 (s.wheel.currentSlot 0)
      rwa [if_pos ⟨rfl, rfl⟩] at this
    have hwalked (n : ℕ) := firings_walked_of_once (x := x) now ⟨rfl, rfl⟩ rfl rfl rfl hslot n
    simp only [hfirings, List.nil_append] at hwalked
    refine ⟨?_, fun n ↦ (hwalked n).imp And.right And.right⟩
    obtain ⟨before, after, hsplit, -⟩ := List.filter_eq_cons_iff.1 hslot
    obtain ⟨rest, hahead⟩ := exists_ahead_walked now hsplit
    obtain ⟨f, hturn⟩ := Walk.exists_turn_eq now hahead
    refine ⟨before.length + 1, ?_⟩
    rw [walked_succ, hturn]
    -- this turn visits the task, and nothing else runs it before
    have hvisit := firings_visit (w := (s.wheel.walked now before.length).wheel) (x := x) now
      (timer x c expire)
    rw [if_pos ⟨rfl, ⟨rfl, rfl⟩, rfl⟩] at hvisit
    refine hvisit.trans ?_
    rcases hwalked before.length with ⟨-, hnone⟩ | ⟨hgone, -⟩
    · rw [hnone, List.nil_append]
    · rw [hahead, List.filter_cons_of_pos (by simp [timer])] at hgone
      cases hgone
  · omega

/-- A timer that has run has no more tasks for a walk to come to. -/
theorem firings_walked_of_absent {w : TimerWheel Cb} (h : w.Absent x) (now : ℤ) (n : ℕ) :
    (w.walked now n).wheel.firings x = w.firings x :=
  (firings_walked_of_not_due now (fun task htask _ ↦ id_ne_of_held_eq_nil (h _ _) task htask) n).2

theorem Short.firings_walked {s : Driven Cb} (hw : Shaped tick S layers s.wheel)
    (hlayers : 2 ≤ layers) (h : Short tick S x c expire F s) (n : ℕ) :
    (s.wheel.walked (s.now tick tick) n).wheel.firings x = [] ∨
      (s.wheel.walked (s.now tick tick) n).wheel.firings x = [F * tick] := by
  rcases h with ⟨hwaits, hfirings⟩ | ⟨habsent, hfirings, -⟩
  · obtain ⟨slot, hheld, ⟨-, rfl⟩ | ⟨-, hlt⟩⟩ := hwaits.heldAt_zero hw hlayers
    · rw [now_tick]
      exact (hwaits.exists_firings_walked hw hlayers hfirings _).2 n
    · exact .inl ((hwaits.firings_walked hw hlayers hlt _ n).trans hfirings)
  · exact .inr ((firings_walked_of_absent habsent _ n).trans hfirings)

/-! ## Whatever is passed through -/

section

variable (htick : 1 ≤ tick) (hS : 1 ≤ S) (hlayers : 2 ≤ layers)

include htick hS hlayers

/-- **At no point has a short timer run more than once, or at another tick.** -/
theorem Short.passes {s : Driven Cb} {ops : List (TimerOp Cb)} {w : TimerWheel Cb}
    (hsound : Sound tick S layers s.wheel) (hx : x < s.wheel.nextId)
    (h : Short tick S x c expire F s) (hspares : ∀ op ∈ ops, op.Spares x)
    (hpasses : Passes tick s ops w) : w.firings x = [] ∨ w.firings x = [F * tick] := by
  induction hpasses with
  | here s ops => exact h.imp And.right fun h ↦ h.2.1
  | walking s ops n => exact h.firings_walked hsound.shaped hlayers n
  | later hstep _ ih =>
    obtain ⟨hop, hops⟩ := List.forall_mem_cons.1 hspares
    obtain ⟨hx', h'⟩ := h.step htick hS hlayers hsound.shaped hx hop hstep
    exact ih (hsound.step htick hS hlayers hstep) hx' h' hops

/-- **A short timer runs**, if the ticks before its own return. -/
theorem Short.exists_passes {k : ℕ} {s : Driven Cb} {ops : List (TimerOp Cb)}
    (hsound : Sound tick S layers s.wheel) (hx : x < s.wheel.nextId)
    (h : Short tick S x c expire F s) (hspares : ∀ op ∈ ops, op.Spares x)
    (hclock : ∀ op ∈ ops, op.OnTheClock tick) (hticks : F ≤ s.last + TimerOp.ticks ops)
    (hk : F ≤ s.last + 1 + k) (hcalm : Undisturbed tick k s ops) :
    ∃ w, Passes tick s ops w ∧ w.firings x = [F * tick] := by
  rcases lt_or_ge s.last F with hF | hF
  swap
  · exact ⟨_, .here s ops, h.firings_eq hsound.shaped (by omega) hF⟩
  induction ops generalizing s k with
  | nil =>
    simp only [TimerOp.ticks] at hticks
    omega
  | cons op ops ih =>
    obtain ⟨hop, hops⟩ := List.forall_mem_cons.1 hspares
    obtain ⟨honclock, hclock⟩ := List.forall_mem_cons.1 hclock
    obtain ⟨hwaits, hfirings⟩ := h.waits hF
    by_cases hown : op = .tick ∧ F = s.last + 1
    · obtain ⟨rfl, rfl⟩ := hown
      obtain ⟨⟨n, hn⟩, -⟩ := hwaits.exists_firings_walked hsound.shaped hlayers hfirings
        (s.now tick tick)
      exact ⟨_, .walking s ops n, by rw [hn, now_tick]⟩
    · obtain ⟨t, hstep⟩ := exists_step htick hS hlayers hsound.shaped
        (fun hop ↦ hcalm [] ops s (by rw [hop]; rfl)
          (by simp only [hop, true_and] at hown; simp only [TimerOp.ticks]; omega) .nil) honclock
      have hlast := last_of_step hstep
      obtain ⟨hx', h'⟩ := h.step htick hS hlayers hsound.shaped hx hop hstep
      have hsound' := hsound.step htick hS hlayers hstep
      rw [TimerOp.ticks_cons] at hticks
      rcases lt_or_ge t.last F with hF' | hF'
      · obtain ⟨w, hpasses, hw⟩ := ih hsound' hx' h' hops hclock
          (by push_cast at hticks; omega) (by omega) (hcalm.tail hstep) hF'
        exact ⟨w, .later hstep hpasses, hw⟩
      · exact ⟨_, .later hstep (.here t ops), h'.firings_eq hsound'.shaped (by omega) hF'⟩

/-- **A short timer does not run** if a tick before its own comes to a restless timer. -/
theorem Short.firings_of_restless {s u : Driven Cb} {ops before after : List (TimerOp Cb)}
    {w : TimerWheel Cb} (hsound : Sound tick S layers s.wheel) (hx : x < s.wheel.nextId)
    (h : Short tick S x c expire F s) (hspares : ∀ op ∈ ops, op.Spares x)
    (hops : ops = before ++ .tick :: after) (hlt : s.last + 1 + TimerOp.ticks before < F)
    (hrun : (system tick).Run s before u) (hrestless : ¬ Calm tick u.wheel)
    (hpasses : Passes tick s ops w) : w.firings x = [] := by
  induction hpasses generalizing before with
  | here s ops => exact (h.waits (by omega)).2
  | walking s ops n =>
    obtain ⟨hwaits, hfirings⟩ := h.waits (by omega)
    exact (hwaits.firings_walked hsound.shaped hlayers (by omega) _ n).trans hfirings
  | @later s t op ops w hstep _ ih =>
    obtain ⟨hop, hspares⟩ := List.forall_mem_cons.1 hspares
    obtain ⟨hx', h'⟩ := h.step htick hS hlayers hsound.shaped hx hop hstep
    have hlast := last_of_step hstep
    rcases before with _ | ⟨op', before⟩
    · obtain ⟨rfl, -⟩ := List.cons.inj hops
      obtain rfl := hrun.unique (deterministic_system tick) .nil
      exact absurd ((step_tick_iff htick hS hlayers hsound.shaped).1 hstep).1 hrestless
    · obtain ⟨rfl, hrest⟩ := List.cons.inj hops
      obtain ⟨t', hstep', hrun⟩ := hrun.first
      obtain rfl := deterministic_system tick _ _ _ _ hstep hstep'
      rw [TimerOp.ticks_cons] at hlt
      exact ih (hsound.step htick hS hlayers hstep) hx' h' hspares hrest
        (by push_cast at hlt; omega) hrun

/-- Where no restless timer has been added, none is in the way. -/
theorem undisturbed_of_patient {s : Driven Cb} {ops : List (TimerOp Cb)}
    (hsound : Sound tick S layers s.wheel) (hquiet : Quiet tick s.wheel)
    (hops : ∀ op ∈ ops, op.Patient tick) (k : ℕ) : Undisturbed tick k s ops := by
  rintro before after t rfl - hrun task htask h
  have hquiet' := hquiet.run htick hS hlayers hsound
    (fun op hop ↦ hops op (List.mem_append_left _ hop)) hrun
  exact hquiet' _ _ task htask h.2

end

/-- **When a short timer runs once and on time.**  A wheel of at least two layers is driven by
`tick` at every multiple of `tick_ms`, and somewhere on the way a timer is added whose delay is less
than one turn of wheel 0.  However the wheel is used after that, short of cancelling this timer: its
callback runs exactly once, at a tick at most `tick_ms` away from its expiry, if and only if none of
the ticks before comes to a restless timer. -/
theorem runsOnce_iff (htick : 1 ≤ tick) (hS : 1 ≤ S) (hlayers : 2 ≤ layers) {last : ℤ}
    {before : List (TimerOp Cb)} {s : Driven Cb}
    (hbefore : (system tick).Run (init tick S layers last) before s) {offset delayMs : ℤ}
    (hoffset : 0 ≤ offset ∧ offset ≤ tick) (hdelay : 0 < delayMs ∧ delayMs < (tick * S : ℕ))
    (callback : Cb) {after : List (TimerOp Cb)}
    (hspares : ∀ op ∈ after, op.Spares (s.handleOf tick offset delayMs callback).id)
    (hclock : ∀ op ∈ after, op.OnTheClock tick)
    (hticks : delayMs.toNat / tick < TimerOp.ticks after) :
    RunsOnce tick (s.handleOf tick offset delayMs callback).id (s.now tick offset + delayMs)
        (s.afterAdd tick offset delayMs callback) after ↔
      Undisturbed tick (delayMs.toNat / tick) (s.afterAdd tick offset delayMs callback) after := by
  obtain ⟨hpos, hlt⟩ := hdelay
  rw [Nat.mul_comm] at hlt
  rw [handleOf_id s offset hpos callback] at hspares ⊢
  have hsound := (sound_init hS last).run htick hS hlayers hbefore
  obtain ⟨hsound', hid, hshort⟩ :=
    short_afterAdd (c := callback) htick hS hlayers hsound offset hpos hlt
  have hlast : (s.afterAdd tick offset delayMs callback).last = s.last := rfl
  constructor
  · rintro ⟨N, -, ⟨w, hpasses, hw⟩, -⟩ early late u hops hlt hrun
    by_contra hrestless
    have hnone := hshort.firings_of_restless htick hS hlayers hsound' hid hspares hops (by omega)
      hrun hrestless hpasses
    rw [hnone] at hw
    cases hw
  · intro hcalm
    refine ⟨s.last + 1 + (delayMs.toNat / tick : ℕ), ?_,
      hshort.exists_passes htick hS hlayers hsound' hid hspares hclock (by omega) (by omega) hcalm,
      fun w hpasses ↦ hshort.passes htick hS hlayers hsound' hid hspares hpasses⟩
    -- the tick comes when the whole ticks of the delay are over
    have hdiv := Nat.div_add_mod delayMs.toNat tick
    have hmod := Nat.mod_lt delayMs.toNat htick
    have htime : (s.last + 1 + (delayMs.toNat / tick : ℕ)) * tick =
        s.last * tick + tick + (tick * (delayMs.toNat / tick) : ℕ) := by
      push_cast
      ring
    rw [htime, now]
    omega

/-- A wheel of the default sizes with a repeat timer of one tick: a timer of 150 milliseconds that
is added in the first tick runs once and on time. -/
theorem runsOnce_beside_repeat :
    ∃ s : Driven Unit,
      (system 100).Run (init 100 60 4 0) [.addRepeatTimer 0 100 (some ())] s ∧
      RunsOnce 100 (s.handleOf 100 30 150 ()).id 180 (s.afterAdd 100 30 150 ())
        (List.replicate 2 .tick) := by
  have hrun : (system 100).Run (init 100 60 4 0 : Driven Unit)
      [.addRepeatTimer 0 100 (some ())] _ := .single ⟨⟨le_rfl, by decide⟩, 0, rfl⟩
  have hpatient : ∀ op ∈ [(.addRepeatTimer 0 100 (some ()) : TimerOp Unit)], op.Patient 100 :=
    List.forall_mem_singleton.2 fun h ↦ lt_irrefl _ h.2
  have hsound : Sound 100 60 4 (init 100 60 4 0 : Driven Unit).wheel := sound_init (by decide) 0
  have hquiet := (quiet_init 0).run (by decide) (by decide) (by decide) hsound hpatient hrun
  have hticks {P : TimerOp Unit → Prop} (h : P .tick) : ∀ op ∈ List.replicate 2 .tick, P op :=
    fun op hop ↦ by rwa [List.eq_of_mem_replicate hop]
  refine ⟨_, hrun, (runsOnce_iff (by decide) (by decide) (by decide) hrun ⟨by decide, by decide⟩
    ⟨by decide, by decide⟩ () (hticks trivial) (hticks trivial) (by decide)).2 ?_⟩
  exact undisturbed_of_patient (by decide) (by decide) (by decide)
    ((hsound.run (by decide) (by decide) (by decide) hrun).addTask (by decide) (by decide)
      (by decide) _ _ _ _) (hquiet.afterAdd 30 150 ()) (hticks trivial) _

/-- If a repeat timer of 50 milliseconds is added after such a timer, the first tick does not
return, and the second never comes. -/
theorem short_timer_lost :
    ¬ RunsOnce 100 ((init 100 60 4 0 : Driven Unit).handleOf 100 0 150 ()).id 150
      ((init 100 60 4 0 : Driven Unit).afterAdd 100 0 150 ())
      [.addRepeatTimer 0 50 (some ()), .tick, .tick] := by
  rintro ⟨N, -, ⟨w, hpasses, hw⟩, -⟩
  have hempty : Sound 100 60 4 (init 100 60 4 0 : Driven Unit).wheel := sound_init (by decide) 0
  obtain ⟨hsound, hid, hshort⟩ := short_afterAdd (c := ()) (by decide) (by decide) (by decide)
    hempty 0 (show (0 : ℤ) < 150 by decide) (by decide)
  have hrun : (system 100).Run ((init 100 60 4 0 : Driven Unit).afterAdd 100 0 150 ())
      [.addRepeatTimer 0 50 (some ())] _ := .single ⟨⟨le_rfl, by decide⟩, 0, rfl⟩
  have hspares : ∀ op ∈ [(.addRepeatTimer 0 50 (some ()) : TimerOp Unit), .tick, .tick],
      op.Spares (init 100 60 4 0 : Driven Unit).wheel.nextId :=
    List.forall_mem_cons.2 ⟨trivial, List.forall_mem_cons.2 ⟨trivial,
      List.forall_mem_singleton.2 trivial⟩⟩
  have hnone := hshort.firings_of_restless (by decide) (by decide) (by decide) hsound hid hspares
    rfl (by decide) hrun (fun hcalm ↦ hcalm ⟨2, some (), 50, 50, 0, false⟩
      (List.mem_singleton_self _) ⟨⟨rfl, rfl⟩, by decide, by decide⟩) hpasses
  exact List.cons_ne_nil _ _ (hw.symm.trans hnone)

end Driven

end Core
end ChwellCore
