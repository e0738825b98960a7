import ChwellCore.Core.TimerLedger

/-!
# A timer wheel as callers may use it

A caller may add a repeat timer with any interval, also one that is shorter than a tick, and call
`tick` at whatever times.  `Ledger.usage` is that: its only rule is that the clock does not go back.

Then a tick need not return.  A repeat timer whose interval is shorter than a tick is appended to
the slot it is run from, and the walk comes to it again, and again (`ahead_ne_nil_of_restless`).
`tick_ends_iff` says that nothing else keeps a tick from its end, and that otherwise the walk comes
to each task of the slot once.
-/

set_option autoImplicit false

namespace ChwellCore
namespace Core

open TimerWheel

variable {Cb : Type} {tick S layers : ℕ}

namespace TimerWheel

variable {w : TimerWheel Cb}

/-- The tasks that the walk of a tick has come to after so many turns, in this order. -/
def visited (now : ℤ) (n : ℕ) (w : TimerWheel Cb) : List (TimerTask Cb) :=
  (List.range n).filterMap fun k ↦ ((w.walked now k).ahead 0 (w.currentSlot 0)).head?

/-- Unless one of them is restless, what the walk is at next is what lies next in the slot. -/
theorem head?_ahead_walked (hw : Shaped tick S layers w) (htick : 1 ≤ tick) (hS : 1 ≤ S)
    (hlayers : 2 ≤ layers) (now : ℤ) (hcalm : Calm tick w) (k : ℕ) :
    ((w.walked now k).ahead 0 (w.currentSlot 0)).head? = (w.tasks 0 (w.currentSlot 0))[k]? := by
  have hlayer : 0 < layers := by omega
  -- after as many turns as there are tasks before `k`
  have hahead (k : ℕ) (hk : k ≤ (w.tasks 0 (w.currentSlot 0)).length) :
      (w.walked now k).ahead 0 (w.currentSlot 0) = (w.tasks 0 (w.currentSlot 0)).drop k := by
    have heq := iterate_turn_eq htick hS hlayers hw now
      (List.take_append_drop k (w.tasks 0 (w.currentSlot 0))).symm
      fun task htask ↦ hcalm task (List.mem_of_mem_take htask)
    rw [List.length_take_of_le hk] at heq
    rw [walked, heq, Walk.ahead, tasks_modifySlot (shaped_foldl_visit hw now _).1 hlayer
      (hw.currentSlot_lt hlayer), if_pos ⟨rfl, rfl⟩, List.drop_left]
  rcases le_total k (w.tasks 0 (w.currentSlot 0)).length with hle | hge
  · rw [hahead k hle, List.head?_drop]
  · have hend := hahead _ le_rfl
    rw [List.drop_length] at hend
    rw [walked, iterate_turn_of_le hge hend, List.getElem?_eq_none_iff.2 hge]
    exact congrArg List.head? hend

theorem visited_eq_take (hw : Shaped tick S layers w) (htick : 1 ≤ tick) (hS : 1 ≤ S)
    (hlayers : 2 ≤ layers) (now : ℤ) (hcalm : Calm tick w) (n : ℕ) :
    w.visited now n = (w.tasks 0 (w.currentSlot 0)).take n := by
  induction n with
  | zero => rfl
  | succ n ih =>
    rw [visited] at ih ⊢
    rw [List.range_succ, List.filterMap_append, ih, List.take_add_one, List.filterMap_cons,
      List.filterMap_nil, head?_ahead_walked hw htick hS hlayers now hcalm]
    rcases (w.tasks 0 (w.currentSlot 0))[n]? with _ | task <;> rfl

end TimerWheel

namespace Ledger

/-- The clock does not go back. -/
def InOrder (s : Ledger Cb) : LedgerOp Cb → Prop
  | .addTimer now _ _ => s.clock ≤ now
  | .addRepeatTimer now _ _ => s.clock ≤ now
  | .cancelTimer _ => True
  | .tick now => s.clock ≤ now

/-- The wheel under any operations that return. -/
def usage : System (Ledger Cb) (LedgerOp Cb) :=
  ⟨fun s op t ↦ s.InOrder op ∧ ∃ fuel, s.exec fuel op = .ok t⟩

variable {s t : Ledger Cb}

/-- A tick of the ledger is a tick of the wheel. -/
theorem exec_tick_iff {fuel : ℕ} {now : ℤ} :
    s.exec fuel (.tick now) = .ok t ↔
      s.wheel.tick fuel now = .ok t.wheel ∧ t = { s with wheel := t.wheel, clock := now } := by
  rw [exec]
  rcases s.wheel.tick fuel now with halt | w
  · simp [Except.map]
  · constructor
    · intro h
      cases Except.ok.inj h
      exact ⟨rfl, rfl⟩
    · rintro ⟨hok, ht⟩
      cases Except.ok.inj hok
      rw [ht]
      rfl

/-- **What a step can do**: it adds a timer or cancels one, or it is a tick that returns. -/
theorem usage_cases {op : LedgerOp Cb} (h : usage.step s op t) :
    (∃ now delayMs interval callback, s.clock ≤ now ∧
      (op = .addTimer now delayMs callback ∧ interval = 0 ∧
        t = { s with
          wheel := (s.wheel.addTask now delayMs interval callback).1
          clock := now
          once := enter s.once (s.wheel.addTask now delayMs interval callback).2 } ∨
      op = .addRepeatTimer now delayMs callback ∧ interval = delayMs ∧
        t = { s with
          wheel := (s.wheel.addTask now delayMs interval callback).1
          clock := now
          repeating := enter s.repeating (s.wheel.addTask now delayMs interval callback).2 })) ∨
    (∃ handle, op = .cancelTimer handle ∧ s.exec 0 (.cancelTimer handle) = .ok t) ∨
    (∃ fuel now, op = .tick now ∧ s.clock ≤ now ∧ s.wheel.tick fuel now = .ok t.wheel ∧
      t = { s with wheel := t.wheel, clock := now }) := by
  obtain ⟨horder, fuel, hexec⟩ := h
  cases op with
  | addTimer now delayMs callback =>
    exact .inl ⟨now, delayMs, 0, callback, horder, .inl ⟨rfl, rfl, (Except.ok.inj hexec).symm⟩⟩
  | addRepeatTimer now intervalMs callback =>
    exact .inl ⟨now, intervalMs, intervalMs, callback, horder,
      .inr ⟨rfl, rfl, (Except.ok.inj hexec).symm⟩⟩
  | cancelTimer handle => exact .inr (.inl ⟨handle, rfl, hexec⟩)
  | tick now =>
    obtain ⟨hok, ht⟩ := exec_tick_iff.1 hexec
    exact .inr (.inr ⟨fuel, now, rfl, horder, hok, ht⟩)

/-- An operation can do only one thing. -/
theorem usage_unique {op : LedgerOp Cb} {t' : Ledger Cb} (h : usage.step s op t)
    (h' : usage.step s op t') : t = t' := by
  obtain ⟨-, fuel, hexec⟩ := h
  obtain ⟨-, fuel', hexec'⟩ := h'
  cases op with
  | addTimer | addRepeatTimer | cancelTimer => exact Except.ok.inj (hexec.symm.trans hexec')
  | tick now =>
    obtain ⟨hok, ht⟩ := exec_tick_iff.1 hexec
    obtain ⟨hok', ht'⟩ := exec_tick_iff.1 hexec'
    rw [ht, ht', tick_unique hok hok']

theorem shaped_step {op : LedgerOp Cb} (hw : Shaped tick S layers s.wheel)
    (h : usage.step s op t) : Shaped tick S layers t.wheel := by
  rcases usage_cases h with ⟨now, delayMs, interval, callback, -, ⟨-, -, rfl⟩ | ⟨-, -, rfl⟩⟩ |
    ⟨handle, -, hexec⟩ | ⟨fuel, now, -, -, hok, -⟩
  · exact hw.addTask now delayMs interval callback
  · exact hw.addTask now delayMs interval callback
  · cases Except.ok.inj hexec
    exact hw.cancelTimer handle
  · exact hw.tick hok

/-- However a wheel is used, it keeps its shape. -/
theorem shaped_usage (hS : 1 ≤ S) {clock : ℤ} {ops : List (LedgerOp Cb)}
    (hrun : usage.Run (init tick S layers clock) ops s) : Shaped tick S layers s.wheel :=
  hrun.invariant (motive := fun s ↦ Shaped tick S layers s.wheel)
    (fun _ _ _ hw hstep ↦ shaped_step hw hstep) (shaped_new hS)

/-- **When a tick ends.**  However a wheel of at least two layers is used, and whenever its next
tick comes: this tick returns, and its walk comes to tasks of the slot only, in their order and to
none of them twice, if and only if no repeat timer whose interval is shorter than a tick is due in
the slot. -/
theorem tick_ends_iff (htick : 1 ≤ tick) (hS : 1 ≤ S) (hlayers : 2 ≤ layers) {clock : ℤ}
    {ops : List (LedgerOp Cb)} (hrun : usage.Run (init tick S layers clock) ops s) (now : ℤ) :
    ((∃ fuel w, s.wheel.tick fuel now = .ok w) ∧
      ∀ n, s.wheel.visited now n <+: s.wheel.tasks 0 (s.wheel.currentSlot 0)) ↔
      Calm tick s.wheel := by
  have hw := shaped_usage hS hrun
  constructor
  · rintro ⟨⟨fuel, w, hok⟩, -⟩
    exact ((tick_ok_iff_ticking htick hS hlayers hw).1 ⟨fuel, hok⟩).1
  · intro hcalm
    obtain ⟨fuel, hok⟩ := (tick_ok_iff_ticking htick hS hlayers hw).2 ⟨hcalm, rfl⟩
    refine ⟨⟨fuel, _, hok⟩, fun n ↦ ?_⟩
    rw [visited_eq_take hw htick hS hlayers now hcalm]
    exact List.take_prefix n _

/-- A wheel of the default sizes with one repeat timer of 100 milliseconds: the tick that runs it
returns. -/
theorem tick_ends_repeat :
    ∃ s : Ledger Unit,
      usage.Run (init 100 60 4 0) [.addRepeatTimer 0 100 (some ()), .tick 100] s ∧
      ∃ fuel w, s.wheel.tick fuel 200 = .ok w := by
  have hrun : usage.Run (init 100 60 4 0 : Ledger Unit)
      [.addRepeatTimer 0 100 (some ()), .tick 100] _ :=
    .cons ⟨le_rfl, 0, rfl⟩ (.single ⟨(by decide : (0 : ℤ) ≤ 100), 1, rfl⟩)
  refine ⟨_, hrun,
    ((tick_ends_iff (by decide) (by decide) (by decide) hrun 200).2 fun task htask h ↦ ?_).1⟩
  obtain rfl : task = ⟨1, some (), 100, 100, 0, false⟩ := List.mem_singleton.1 htask
  exact lt_irrefl 100 h.2.2

/-- The same with 50 milliseconds: no number of steps is enough for the first tick. -/
theorem restless_never_ends :
    ∃ s : Ledger Unit, usage.Run (init 100 60 4 0) [.addRepeatTimer 0 50 (some ())] s ∧
      ∀ fuel w, s.wheel.tick fuel 100 ≠ .ok w := by
  have hrun : usage.Run (init 100 60 4 0 : Ledger Unit) [.addRepeatTimer 0 50 (some ())] _ :=
    .single ⟨le_rfl, 0, rfl⟩
  refine ⟨_, hrun, fun fuel w hok ↦ ?_⟩
  have hcalm := ((tick_ok_iff_ticking (by decide) (by decide) (by decide)
    (shaped_usage (by decide) hrun)).1 ⟨fuel, hok⟩).1
  exact hcalm ⟨1, some (), 50, 50, 0, false⟩ (List.mem_singleton_self _)
    ⟨⟨rfl, rfl⟩, by decide, by decide⟩

end Ledger

end Core
end ChwellCore
