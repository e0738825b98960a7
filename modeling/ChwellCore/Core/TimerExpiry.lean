import ChwellCore.Core.TimerUsage
import Mathlib.Data.Set.Insert
import Mathlib.Order.Bounds.Basic

/-!
# The next expiry

`get_next_expire_time` looks for the timer that expires next.  It scans the slots of wheel 0 from
the hand on, and the first slot that holds a timer is the last one it looks at.  The other wheels it
does not look at.

So what it finds is the least time in one slot (`scanSlots_isLeast`), and `-1` if wheel 0 is empty
(`scanSlots_eq`).  `getNextExpireTime_iff` says when that is the least time of all.
-/

set_option autoImplicit false

namespace ChwellCore
namespace Core

open TimerWheel

variable {Cb : Type} {tick S layers : ℕ}

namespace TimerWheel

variable {w : TimerWheel Cb}

/-- The inner loop of `get_next_expire_time`, along the tasks of a slot. -/
def scanTasks (minExpire : ℤ) : List (TimerTask Cb) → ℤ
  | [] => minExpire
  | task :: rest =>
    if task.cancelled then scanTasks minExpire rest
    else if minExpire < 0 ∨ task.expireTime < minExpire then scanTasks task.expireTime rest
    else scanTasks minExpire rest

/-- Its outer loop, with so many slots left, from slot `i` behind the hand on. -/
def scanSlots (wheelSize : ℕ) (w : TimerWheel Cb) : ℕ → ℕ → ℤ → ℤ
  | 0, _, minExpire => minExpire
  | left + 1, i, minExpire =>
    let minExpire := scanTasks minExpire (w.tasks 0 ((w.currentSlot 0 + i) % wheelSize))
    if 0 ≤ minExpire then minExpire else scanSlots wheelSize w left (i + 1) minExpire

/-- `get_next_expire_time`. -/
def getNextExpireTime (w : TimerWheel Cb) : Except Halt ℤ :=
  match w.wheels[0]? with
  | none => .error (.noWheel 0)
  | some wheel => .ok (scanSlots wheel.wheelSize w wheel.wheelSize 0 (-1))

/-- The times at which the tasks of a slot expire that have not been cancelled. -/
def liveTimes (tasks : List (TimerTask Cb)) : Set ℤ :=
  {e | ∃ task ∈ tasks, task.cancelled = false ∧ task.expireTime = e}

/-- The same for all slots of all layers. -/
def pendingTimes (w : TimerWheel Cb) : Set ℤ :=
  {e | ∃ layer slot, e ∈ liveTimes (w.tasks layer slot)}

/-- What `get_next_expire_time` is for: the time of the timer that expires next, and `-1` if there
is none. -/
structure NextExpiry (w : TimerWheel Cb) (time : ℤ) : Prop where
  none_iff : time = -1 ↔ w.pendingTimes = ∅
  isLeast : w.pendingTimes.Nonempty → IsLeast w.pendingTimes time

/-- There is no timer, or one that expires next lies in wheel 0, and the hand comes to no other
timer before the slot that it lies in. -/
def NearestFirst (S : ℕ) (w : TimerWheel Cb) : Prop :=
  w.pendingTimes = ∅ ∨
    ∃ i < S, (∃ e ∈ liveTimes (w.tasks 0 ((w.currentSlot 0 + i) % S)), IsLeast w.pendingTimes e) ∧
      ∀ j < i, liveTimes (w.tasks 0 ((w.currentSlot 0 + j) % S)) = ∅

/-! ## What the loops come to -/

section Scan

variable {task : TimerTask Cb} {rest tasks : List (TimerTask Cb)}

theorem liveTimes_cons_of_cancelled (h : task.cancelled = true) :
    liveTimes (task :: rest) = liveTimes rest := by
  ext e
  simp [liveTimes, h]

theorem liveTimes_cons_of_live (h : task.cancelled = false) :
    liveTimes (task :: rest) = insert task.expireTime (liveTimes rest) := by
  ext e
  simp only [liveTimes, Set.mem_ofPred_eq, List.mem_cons, Set.mem_insert_iff, exists_eq_or_imp, h,
    true_and]
  exact or_congr_left eq_comm

theorem scanTasks_of_empty {m : ℤ} (h : liveTimes tasks = ∅) : scanTasks m tasks = m := by
  induction tasks with
  | nil => rfl
  | cons task rest ih =>
    rcases hlive : task.cancelled with _ | _
    · rw [liveTimes_cons_of_live hlive] at h
      exact absurd h (Set.insert_nonempty _ _).ne_empty
    · rw [liveTimes_cons_of_cancelled hlive] at h
      rw [scanTasks, if_pos hlive, ih h]

/-- A time that is not less than another does not count. -/
theorem isLeast_insert_of_le {times : Set ℤ} {a b e : ℤ} (h : IsLeast (insert a times) e)
    (hle : a ≤ b) : IsLeast (insert b (insert a times)) e :=
  ⟨Set.mem_insert_of_mem _ h.1, fun _ he ↦ (Set.mem_insert_iff.1 he).elim
    (fun heq ↦ heq ▸ (h.2 (Set.mem_insert _ _)).trans hle) fun he ↦ h.2 he⟩

/-- Once a time has been found, the loop finds the least of it and of those that follow. -/
theorem scanTasks_isLeast_insert (hpos : ∀ task ∈ tasks, 0 ≤ task.expireTime) {m : ℤ} (hm : 0 ≤ m) :
    IsLeast (insert m (liveTimes tasks)) (scanTasks m tasks) := by
  induction tasks generalizing m with
  | nil => simp [scanTasks, liveTimes]
  | cons task rest ih =>
    obtain ⟨htask, hrest⟩ := List.forall_mem_cons.1 hpos
    rcases hlive : task.cancelled with _ | _
    · rw [liveTimes_cons_of_live hlive, scanTasks, if_neg (by simp [hlive])]
      split
      · next hless =>
        have hlt : task.expireTime < m := hless.resolve_left hm.not_gt
        exact isLeast_insert_of_le (ih hrest htask) hlt.le
      · next hmore =>
        have hge : m ≤ task.expireTime := not_lt.1 fun h ↦ hmore (.inr h)
        rw [Set.insert_comm]
        exact isLeast_insert_of_le (ih hrest hm) hge
    · rw [liveTimes_cons_of_cancelled hlive, scanTasks, if_pos hlive]
      exact ih hrest hm

theorem scanTasks_isLeast (hpos : ∀ task ∈ tasks, 0 ≤ task.expireTime) {m : ℤ} (hm : m < 0)
    (hlive : (liveTimes tasks).Nonempty) : IsLeast (liveTimes tasks) (scanTasks m tasks) := by
  induction tasks with
  | nil => exact absurd hlive (by simp [liveTimes])
  | cons task rest ih =>
    obtain ⟨htask, hrest⟩ := List.forall_mem_cons.1 hpos
    rcases hcancelled : task.cancelled with _ | _
    · rw [liveTimes_cons_of_live hcancelled, scanTasks, if_neg (by simp [hcancelled]),
        if_pos (.inl hm)]
      exact scanTasks_isLeast_insert hrest htask
    · rw [liveTimes_cons_of_cancelled hcancelled] at hlive ⊢
      rw [scanTasks, if_pos hcancelled]
      exact ih hrest hlive

/-- Slots without a timer are passed over. -/
theorem scanSlots_of_empty {m : ℤ} (hm : m < 0) {k i : ℕ}
    (hempty : ∀ j < k, liveTimes (w.tasks 0 ((w.currentSlot 0 + (i + j)) % S)) = ∅) (left : ℕ) :
    scanSlots S w (k + left) i m = scanSlots S w left (i + k) m := by
  induction k generalizing i with
  | zero => rw [Nat.zero_add, Nat.add_zero]
  | succ k ih =>
    have hfirst := scanTasks_of_empty (m := m) (hempty 0 (Nat.succ_pos k))
    rw [Nat.add_zero] at hfirst
    rw [Nat.succ_add, scanSlots, hfirst, if_neg (not_le.2 hm), ih, Nat.add_assoc, Nat.add_comm 1 k]
    intro j hj
    have := hempty (j + 1) (by omega)
    rwa [show i + 1 + j = i + (j + 1) by omega]

/-- **What the scan finds**: the least time of the first slot that holds a timer. -/
theorem scanSlots_isLeast (hpos : w.AllTasks fun task ↦ 0 < task.expireTime) {k : ℕ} (hk : k < S)
    (hempty : ∀ j < k, liveTimes (w.tasks 0 ((w.currentSlot 0 + j) % S)) = ∅)
    (hlive : (liveTimes (w.tasks 0 ((w.currentSlot 0 + k) % S))).Nonempty) :
    IsLeast (liveTimes (w.tasks 0 ((w.currentSlot 0 + k) % S))) (scanSlots S w S 0 (-1)) := by
  obtain ⟨left, hleft⟩ : ∃ left, S = k + (left + 1) := ⟨S - k - 1, by omega⟩
  have hpass := scanSlots_of_empty (S := S) (w := w) (m := -1) (by decide) (k := k) (i := 0)
    (by simpa using hempty) (left + 1)
  rw [← hleft, Nat.zero_add] at hpass
  have hfirst := scanTasks_isLeast (fun task htask ↦ (hpos 0 _ task htask).le)
    (show (-1 : ℤ) < 0 by decide) hlive
  obtain ⟨task, htask, -, heq⟩ := hfirst.1
  have hnonneg := (hpos 0 _ task htask).le
  rw [heq] at hnonneg
  rw [hpass, scanSlots, if_pos hnonneg]
  exact hfirst

theorem scanSlots_eq (hempty : ∀ j < S, liveTimes (w.tasks 0 ((w.currentSlot 0 + j) % S)) = ∅) :
    scanSlots S w S 0 (-1) = -1 := by
  have hpass := scanSlots_of_empty (S := S) (w := w) (m := -1) (by decide) (k := S) (i := 0)
    (by simpa using hempty) 0
  rw [Nat.add_zero] at hpass
  rw [hpass, scanSlots]

end Scan

/-- **When the scan finds the next expiry.** -/
theorem nextExpiry_iff (hpos : w.AllTasks fun task ↦ 0 < task.expireTime) :
    w.NextExpiry (scanSlots S w S 0 (-1)) ↔ w.NearestFirst S := by
  have hnotMem {e : ℤ} (he : e ∈ w.pendingTimes) : e ≠ -1 := by
    obtain ⟨layer, slot, task, htask, -, rfl⟩ := he
    have := hpos layer slot task htask
    omega
  by_cases hempty : ∀ j < S, liveTimes (w.tasks 0 ((w.currentSlot 0 + j) % S)) = ∅
  · -- wheel 0 is empty
    rw [scanSlots_eq hempty]
    constructor
    · exact fun h ↦ .inl (h.none_iff.1 rfl)
    · rintro (hnone | ⟨i, hi, ⟨e, he, -⟩, -⟩)
      · exact ⟨iff_of_true rfl hnone, fun h ↦ absurd hnone h.ne_empty⟩
      · rw [hempty i hi] at he
        cases he
  · obtain ⟨k, hk, hlive, hfirst⟩ : ∃ k < S,
        (liveTimes (w.tasks 0 ((w.currentSlot 0 + k) % S))).Nonempty ∧
        ∀ j < k, liveTimes (w.tasks 0 ((w.currentSlot 0 + j) % S)) = ∅ := by
      simp only [not_forall] at hempty
      obtain ⟨hlt, hne⟩ := Nat.find_spec hempty
      refine ⟨Nat.find hempty, hlt, Set.nonempty_iff_ne_empty.2 hne, fun j hj ↦ ?_⟩
      by_contra hne'
      exact Nat.find_min hempty hj ⟨hj.trans hlt, hne'⟩
    have hleast := scanSlots_isLeast hpos hk hfirst hlive
    have hmem : scanSlots S w S 0 (-1) ∈ w.pendingTimes := ⟨0, _, hleast.1⟩
    have hsome : w.pendingTimes ≠ ∅ := Set.nonempty_iff_ne_empty.1 ⟨_, hmem⟩
    constructor
    · exact fun h ↦ .inr ⟨k, hk, ⟨_, hleast.1, h.isLeast ⟨_, hmem⟩⟩, hfirst⟩
    · rintro (hnone | ⟨i, hi, ⟨e, he, hmin⟩, hbefore⟩)
      · exact absurd hnone hsome
      · -- both are the first slot that holds a timer
        obtain rfl : i = k := by
          rcases lt_trichotomy i k with hlt | heq | hgt
          · rw [hfirst i hlt] at he
            cases he
          · exact heq
          · exact absurd (hbefore k hgt) hlive.ne_empty
        have heq : e = scanSlots S w S 0 (-1) := le_antisymm (hmin.2 hmem) (hleast.2 he)
        exact ⟨iff_of_false (hnotMem hmem) hsome, fun _ ↦ heq ▸ hmin⟩

end TimerWheel

namespace Ledger

variable {s t : Ledger Cb}

/-- On a clock that has started at its origin, every timer expires after it. -/
theorem positive_usage {clock : ℤ} (hclock : 0 ≤ clock) {ops : List (LedgerOp Cb)}
    (hrun : usage.Run (init tick S layers clock) ops s) :
    0 ≤ s.clock ∧ s.wheel.AllTasks fun task ↦ 0 < task.expireTime := by
  have hsteady {now : ℤ} (hnow : 0 ≤ now) :
      Steady now fun task : TimerTask Cb ↦ 0 < task.expireTime :=
    ⟨fun _ _ h ↦ h, fun task _ hrepeat ↦ by simp only; omega⟩
  refine hrun.invariant (motive := fun s : Ledger Cb ↦
    0 ≤ s.clock ∧ s.wheel.AllTasks fun task ↦ 0 < task.expireTime) ?_ ⟨hclock, ?_⟩
  · rintro s op t ⟨hclock, hpos⟩ hstep
    have hadd {now delayMs interval : ℤ} {callback : Option Cb} (hle : s.clock ≤ now) :
        (s.wheel.addTask now delayMs interval callback).1.AllTasks
          fun task ↦ 0 < task.expireTime :=
      hpos.addTask (hsteady (hclock.trans hle)) fun hdelay _ ↦ by simp only; omega
    rcases usage_cases hstep with
      ⟨now, delayMs, interval, callback, hle, ⟨-, -, rfl⟩ | ⟨-, -, rfl⟩⟩ | ⟨handle, -, hexec⟩ |
      ⟨fuel, now, -, hle, hok, ht⟩
    · exact ⟨hclock.trans hle, hadd hle⟩
    · exact ⟨hclock.trans hle, hadd hle⟩
    · cases Except.ok.inj hexec
      exact ⟨hclock, hpos.cancelTimer (fun _ h ↦ h) handle⟩
    · rw [ht]
      exact ⟨hclock.trans hle, hpos.tick (hsteady (hclock.trans hle)) hok⟩
  · intro layer slot task htask
    have hempty : (init tick S layers clock : Ledger Cb).wheel.tasks layer slot = [] :=
      Driven.tasks_init clock layer slot
    rw [hempty] at htask
    cases htask

/-- **When the next expiry is the next expiry.**  However a wheel is used, on a clock that counts
from its start: what `get_next_expire_time` returns is the least time at which a timer of any layer
expires, and `-1` just when there is none, if and only if there is none or one that expires next
lies in wheel 0, with no other timer in the slots before its own. -/
theorem getNextExpireTime_iff (hS : 1 ≤ S) (hlayers : 1 ≤ layers) {clock : ℤ} (hclock : 0 ≤ clock)
    {ops : List (LedgerOp Cb)} (hrun : usage.Run (init tick S layers clock) ops s) :
    (∃ time, s.wheel.getNextExpireTime = .ok time ∧ s.wheel.NextExpiry time) ↔
      s.wheel.NearestFirst S := by
  have hlayer : 0 < layers := hlayers
  obtain ⟨wheel, hwheel, hshape⟩ := (shaped_usage hS hrun).exists_wheel hlayer
  have hresult : s.wheel.getNextExpireTime = .ok (scanSlots S s.wheel S 0 (-1)) := by
    simp only [getNextExpireTime, hwheel, hshape.wheelSize]
  rw [← nextExpiry_iff (positive_usage hclock hrun).2, hresult]
  constructor
  · rintro ⟨time, htime, h⟩
    cases Except.ok.inj htime
    exact h
  · exact fun h ↦ ⟨_, rfl, h⟩

/-- One timer of 100 milliseconds in a wheel of the default sizes is found. -/
theorem getNextExpireTime_near :
    ∃ s : Ledger Unit, usage.Run (init 100 60 4 0) [.addTimer 0 100 (some ())] s ∧
      ∃ time, s.wheel.getNextExpireTime = .ok time ∧ s.wheel.NextExpiry time := by
  obtain ⟨s, hrun, hs⟩ : ∃ s : Ledger Unit,
      usage.Run (init 100 60 4 0) [.addTimer 0 100 (some ())] s ∧
      s.wheel = ((init 100 60 4 0 : Ledger Unit).wheel.addTask 0 100 0 (some ())).1 :=
    ⟨_, .single ⟨le_rfl, 0, rfl⟩, rfl⟩
  have hsteady : Steady 0 fun task : TimerTask Unit ↦ task.interval = 0 ∧ task.expireTime = 100 :=
    ⟨fun _ _ h ↦ h, fun _ h hrepeat ↦ absurd h.1 hrepeat.ne'⟩
  have honly : s.wheel.AllTasks fun task ↦ task.interval = 0 ∧ task.expireTime = 100 := by
    rw [hs]
    refine AllTasks.addTask hsteady (fun layer slot task htask ↦ ?_) fun _ _ ↦ ⟨rfl, rfl⟩
    have hempty : (init 100 60 4 0 : Ledger Unit).wheel.tasks layer slot = [] :=
      Driven.tasks_init 0 layer slot
    rw [hempty] at htask
    cases htask
  have hhere : 100 ∈ liveTimes (s.wheel.tasks 0 1) := by
    rw [hs]
    exact ⟨_, List.mem_singleton_self _, rfl, rfl⟩
  refine ⟨s, hrun, (getNextExpireTime_iff (by decide) (by decide) le_rfl hrun).2 (.inr
    ⟨1, by decide, ⟨100, ?_, ⟨0, 1, hhere⟩, ?_⟩, fun j hj ↦ ?_⟩)⟩
  · rw [hs] at hhere ⊢
    exact hhere
  · rintro e ⟨layer, slot, task, htask, -, rfl⟩
    exact (honly layer slot task htask).2.ge
  · obtain rfl : j = 0 := by omega
    rw [hs]
    exact Set.eq_empty_of_forall_notMem fun e ⟨task, htask, _⟩ ↦ absurd htask List.not_mem_nil

/-- One of 6000 milliseconds, a turn of wheel 0, is not. -/
theorem next_expiry_missed :
    ∃ s : Ledger Unit, usage.Run (init 100 60 4 0) [.addTimer 0 6000 (some ())] s ∧
      6000 ∈ s.wheel.pendingTimes ∧ s.wheel.getNextExpireTime = .ok (-1) :=
  ⟨_, .single ⟨le_rfl, 0, rfl⟩, ⟨1, 1, _, List.mem_singleton_self _, rfl, rfl⟩, rfl⟩

end Ledger

end Core
end ChwellCore
