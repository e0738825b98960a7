import ChwellCore.Core.TimerShort

/-!
# The rate of a repeat timer

When a repeat timer runs, its next expiry is one interval later, but wheel 0 counts the interval in
whole ticks and leaves out the rest.  So a timer that stays in wheel 0 runs every
`interval / tick_ms` ticks, which is too often unless the interval is a multiple of `tick_ms`.  A
timer whose interval is at least one turn of wheel 0 waits in a higher wheel, and a cascade counts
from the expiry, so that it is never early.

`Paced` is what keeps a timer from running too often: its task does not lie in wheel 0 in a slot
that the hand comes to before the expiry.  `keepsRate_iff` says for which intervals that is so,
whatever other timers there are and whatever is done with them.
-/

set_option autoImplicit false

namespace ChwellCore
namespace Core

open TimerWheel

variable {Cb : Type}

/-! ## Times that are apart -/

/-- Times in order, each at least `gap` after the one before. -/
def Spaced (gap : ℤ) (times : List ℤ) : Prop := times.Pairwise fun t t' ↦ t + gap ≤ t'

/-- In every span of time, there is one for each whole interval in it and at most one more. -/
def KeepsRate (interval : ℤ) (times : List ℤ) : Prop :=
  ∀ start span : ℤ, 0 ≤ span →
    (times.filter fun t ↦ start ≤ t ∧ t ≤ start + span).length ≤ span / interval + 1

section

variable {gap : ℤ} {times : List ℤ}

theorem Spaced.snoc (h : Spaced gap times) {t : ℤ} (ht : ∀ t' ∈ times, t' + gap ≤ t) :
    Spaced gap (times ++ [t]) :=
  List.pairwise_append.2 ⟨h, List.pairwise_singleton _ _,
    fun t' ht' _ hlast ↦ List.mem_singleton.1 hlast ▸ ht t' ht'⟩

/-- The gaps between some times fit between the first and the last of them. -/
theorem Spaced.length_mul_le (h : Spaced gap times) (hgap : 0 ≤ gap) (start stop : ℤ)
    (hle : start ≤ stop) (hwithin : ∀ t ∈ times, start ≤ t ∧ t ≤ stop) :
    times.length * gap ≤ stop - start + gap := by
  induction times generalizing start with
  | nil =>
    rw [List.length_nil, Nat.cast_zero, zero_mul]
    omega
  | cons t rest ih =>
    obtain ⟨hfirst, hrest⟩ := List.pairwise_cons.1 h
    obtain ⟨ht, hwithin⟩ := List.forall_mem_cons.1 hwithin
    have hsucc : ((t :: rest).length : ℤ) * gap = rest.length * gap + gap := by
      rw [List.length_cons]
      push_cast
      ring
    rw [hsucc]
    rcases rest with _ | ⟨t', rest⟩
    · rw [List.length_nil, Nat.cast_zero, zero_mul]
      omega
    · have hnext := hfirst t' List.mem_cons_self
      have hin := hwithin t' List.mem_cons_self
      have := ih hrest (t + gap) (by omega) fun u hu ↦ ⟨hfirst u hu, (hwithin u hu).2⟩
      omega

theorem Spaced.keepsRate (h : Spaced gap times) (hgap : 0 < gap) : KeepsRate gap times := by
  intro start span hspan
  have hfilter : Spaced gap (times.filter fun t ↦ start ≤ t ∧ t ≤ start + span) := h.filter _
  have hle := hfilter.length_mul_le hgap.le start (start + span) (by omega) fun t ht ↦ by
    simpa using (List.mem_filter.1 ht).2
  rw [← sub_le_iff_le_add, Int.le_ediv_iff_mul_le hgap, sub_mul, one_mul]
  omega

/-- Two times that are too close to each other. -/
theorem not_keepsRate {t t' : ℤ} (hle : t ≤ t') (hlt : t' < t + gap) : ¬ KeepsRate gap [t, t'] := by
  intro h
  have hspan := h t (gap - 1) (by omega)
  rw [List.filter_cons_of_pos (by simp; omega), List.filter_cons_of_pos (by simp; omega),
    Int.ediv_eq_zero_of_lt (by omega) (by omega)] at hspan
  simp at hspan

end

namespace TimerWheel

variable {tick S layers x layer slot : ℕ} {interval last : ℤ} {times : List ℤ}
  {task : TimerTask Cb} {w : TimerWheel Cb}

/-! ## A repeat timer that keeps its pace -/

/-- After the runs so far, the task of a repeat timer lies where its next run comes no less than an
interval later: it expires so late, and in wheel 0 the hand comes to its slot no earlier. -/
structure OnPace (tick S : ℕ) (interval last : ℤ) (times : List ℤ) (hand layer slot : ℕ)
    (task : TimerTask Cb) : Prop where
  repeats : task.interval = interval
  callback : task.callback.isSome
  after : ∀ t ∈ times, t + interval ≤ task.expireTime
  arrives : layer = 0 → times ≠ [] →
    ∃ k < S, slot = (hand + k) % S ∧ task.expireTime ≤ (last + 1 + k) * tick

/-- Up to tick `last`, timer `x` has run at most once in an interval, and it is going on so. -/
def Paced (tick S x : ℕ) (interval last : ℤ) (w : TimerWheel Cb) : Prop :=
  Spaced interval (w.firings x) ∧
    (w.Absent x ∨ ∃ layer slot task, w.HeldAt x layer slot task ∧
      OnPace tick S interval last (w.firings x) (w.currentSlot 0) layer slot task)

/-- What has no influence on timer `x` lets it keep its pace. -/
theorem Paced.congr {w' : TimerWheel Cb} (h : Paced tick S x interval last w)
    (hheld : w'.held x = w.held x) (hfirings : w'.firings x = w.firings x)
    (hhand : w'.currentSlot 0 = w.currentSlot 0) : Paced tick S x interval last w' := by
  rw [Paced, hfirings, hhand]
  refine ⟨h.1, h.2.imp (fun habsent layer slot ↦ ?_) ?_⟩
  · rw [hheld]
    exact habsent layer slot
  · rintro ⟨layer, slot, task, hat, hpace⟩
    refine ⟨layer, slot, task, fun layer' slot' ↦ ?_, hpace⟩
    rw [hheld]
    exact hat layer' slot'

/-- What is said of the task of a timer does not depend on its rounds, nor on whether it is
cancelled. -/
theorem OnPace.congr {task' : TimerTask Cb} {hand : ℕ}
    (h : OnPace tick S interval last times hand layer slot task)
    (hinterval : task'.interval = task.interval) (hcallback : task'.callback = task.callback)
    (hexpire : task'.expireTime = task.expireTime) :
    OnPace tick S interval last times hand layer slot task' := by
  obtain ⟨hrepeats, hsome, hafter, harrives⟩ := h
  refine ⟨hinterval.trans hrepeats, hcallback ▸ hsome, ?_, ?_⟩ <;> rwa [hexpire]

theorem HeldAt.id_eq (h : w.HeldAt x layer slot task) : task.id = x := by
  have hmem : task ∈ w.held x layer slot := by
    rw [h, if_pos ⟨rfl, rfl⟩]
    exact List.mem_singleton_self _
  simpa using (List.mem_filter.1 hmem).2

/-- While the hand is on its way, a task stays on pace. -/
theorem OnPace.pass {hand : ℕ} (h : OnPace tick S interval last times hand layer slot task)
    (hhand : hand < S) (hne : ¬ (layer = 0 ∧ slot = hand)) :
    OnPace tick S interval (last + 1) times ((hand + 1) % S) layer slot task := by
  refine ⟨h.repeats, h.callback, h.after, fun hzero htimes ↦ ?_⟩
  obtain ⟨k, hk, rfl, hexpire⟩ := h.arrives hzero htimes
  rcases k with _ | k
  · rw [Nat.add_zero, Nat.mod_eq_of_lt hhand] at hne
    exact absurd ⟨hzero, rfl⟩ hne
  · refine ⟨k, by omega, by rw [Nat.mod_add_mod, Nat.add_right_comm, Nat.add_assoc], ?_⟩
    rw [add_assoc _ _ (k : ℤ), add_comm 1 (k : ℤ)]
    exact_mod_cast hexpire

/-- When the hand comes to its slot, the task has expired. -/
theorem OnPace.expired {hand : ℕ} (h : OnPace tick S interval last times hand 0 hand task)
    (hhand : hand < S) (htimes : times ≠ []) : task.expireTime ≤ (last + 1) * tick := by
  obtain ⟨k, hk, hslot, hexpire⟩ := h.arrives rfl htimes
  obtain rfl := (Odometer.add_mod_eq_self_iff hhand hk).1 hslot.symm
  simpa using hexpire

/-- So it may wait for another round. -/
theorem OnPace.stay {hand : ℕ} (h : OnPace tick S interval last times hand 0 hand task)
    (hhand : hand < S) :
    OnPace tick S interval (last + 1) times ((hand + 1) % S) 0 hand task := by
  refine ⟨h.repeats, h.callback, h.after, fun _ htimes ↦ ⟨S - 1, by omega, ?_, ?_⟩⟩
  · rw [Nat.mod_add_mod, show hand + 1 + (S - 1) = hand + S by omega, Nat.add_mod_right,
      Nat.mod_eq_of_lt hhand]
  · refine (h.expired hhand htimes).trans (Int.mul_le_mul_of_nonneg_right ?_ (by omega))
    omega

/-- And if it runs, an interval has passed since the run before. -/
theorem OnPace.due {hand : ℕ} (h : OnPace tick S interval last times hand 0 hand task)
    (hhand : hand < S) : ∀ t ∈ times, t + interval ≤ (last + 1) * tick := fun t ht ↦
  (h.after t ht).trans (h.expired hhand (List.ne_nil_of_mem ht))

/-- In wheel 0, the place for an interval is one slot nearer when the hand has moved. -/
theorem placeFor_of_lt_moved (htick : 1 ≤ tick) (hlayers : 2 ≤ layers) (hand : ℕ → ℕ)
    (hinterval : tick ≤ interval) (hlt : interval < (S * tick : ℕ)) :
    placeFor tick S layers hand interval =
      ⟨0, ((hand 0 + 1) % S + (interval.toNat / tick - 1)) % S, 0⟩ := by
  have hpos := Nat.div_pos (show tick ≤ interval.toNat by omega) htick
  rw [placeFor_of_lt htick hlayers hand (by omega) hlt, Nat.mod_add_mod]
  congr 2
  omega

/-- **It is put where it is on pace again** if wheel 0 leaves out nothing of its interval. -/
theorem OnPace.again {hand : ℕ → ℕ} (h : OnPace tick S interval last times (hand 0) 0 (hand 0) task)
    (hhand : hand 0 < S) (htick : 1 ≤ tick) (hlayers : 2 ≤ layers) (hinterval : tick ≤ interval)
    (hrate : (tick : ℤ) ∣ interval ∨ (tick * S : ℕ) ≤ interval) :
    OnPace tick S interval (last + 1) (times ++ [(last + 1) * tick]) ((hand 0 + 1) % S)
      (placeFor tick S layers hand interval).layer (placeFor tick S layers hand interval).slot
      { task with
        expireTime := (last + 1) * tick + interval
        roundsLeft := (placeFor tick S layers hand interval).rounds } := by
  refine ⟨h.repeats, h.callback, fun t ht ↦ ?_, fun hzero _ ↦ ?_⟩
  · rcases List.mem_append.1 ht with hold | hnew
    · have := h.due hhand t hold
      simp only
      omega
    · rw [List.mem_singleton.1 hnew]
  · have hlt := (placeFor_layer_eq_zero_iff htick hlayers hand (by omega)).1 hzero
    have hdvd : tick ∣ interval.toNat := by
      rw [Nat.mul_comm] at hrate
      rw [← Int.natCast_dvd_natCast, Int.toNat_of_nonneg (by omega)]
      exact hrate.resolve_right (by omega)
    have hslots := (ticks_lt_iff htick (show 0 < interval by omega)).2 hlt
    have hwhole := Nat.div_mul_cancel hdvd
    have hpos := Nat.div_pos (show tick ≤ interval.toNat by omega) htick
    rw [placeFor_of_lt_moved htick hlayers hand hinterval hlt]
    refine ⟨interval.toNat / tick - 1, by omega, rfl, ?_⟩
    have htime : (last + 1 + 1 + (interval.toNat / tick - 1 : ℕ)) * tick =
        (last + 1) * tick + (interval.toNat / tick * tick : ℕ) := by
      rw [Nat.cast_sub hpos]
      push_cast
      ring
    rw [htime]
    simp only
    omega

/-- Where a cascade puts a task, the hand does not come before it expires. -/
theorem OnPace.cascade {hand : ℕ → ℕ} (htick : 1 ≤ tick) (hlayers : 2 ≤ layers)
    (hhand : hand 0 < S) (h : OnPace tick S interval last times (hand 0) layer slot task) :
    OnPace tick S interval last times (hand 0)
      (cascadePlace tick S layers hand (last * tick) task).layer
      (cascadePlace tick S layers hand (last * tick) task).slot
      { task with roundsLeft := (cascadePlace tick S layers hand (last * tick) task).rounds } := by
  refine ⟨h.repeats, h.callback, h.after, ?_⟩
  rw [cascadePlace]
  split
  · next hexpired =>
    refine fun _ _ ↦ ⟨0, by omega, (Nat.mod_eq_of_lt hhand).symm, hexpired.trans ?_⟩
    exact Int.mul_le_mul_of_nonneg_right (by omega) (by omega)
  · next hexpired =>
    intro hzero _
    have hlt := (placeFor_layer_eq_zero_iff htick hlayers hand (by omega)).1 hzero
    rw [placeFor_of_lt htick hlayers hand (by omega) hlt]
    generalize hdelay : task.expireTime - last * tick = delay at hlt hexpired ⊢
    have hslots := (ticks_lt_iff htick (show 0 < delay by omega)).2 hlt
    have hover := Nat.lt_mul_div_succ delay.toNat htick
    have htime : (last + 1 + (delay.toNat / tick : ℕ)) * tick =
        last * tick + (tick * (delay.toNat / tick + 1) : ℕ) := by
      push_cast
      ring
    have hexpire : task.expireTime ≤ (last + 1 + (delay.toNat / tick : ℕ)) * tick := by omega
    exact ⟨delay.toNat / tick, hslots, rfl, hexpire⟩

theorem Paced.setCancelled (h : Paced tick S x interval last w) :
    Paced tick S x interval last (w.setCancelled x) := by
  obtain ⟨hspaced, hplaced⟩ := h
  refine ⟨hspaced, hplaced.imp (fun habsent layer slot ↦ ?_) ?_⟩
  · rw [held_setCancelled, habsent, List.map_nil]
  · rintro ⟨layer, slot, task, hat, hpace⟩
    refine ⟨layer, slot, { task with cancelled := true }, fun layer' slot' ↦ ?_, ?_⟩
    · rw [held_setCancelled, hat]
      split
      · rw [List.map_singleton, if_pos hat.id_eq]
      · rfl
    · rw [currentSlot_setCancelled]
      exact hpace.congr rfl rfl rfl

theorem Paced.cancelTimer (h : Paced tick S x interval last w) (handle : TimerHandle)
    (hid : handle.id = x) : Paced tick S x interval last (w.cancelTimer handle).1 := by
  subst hid
  rw [TimerWheel.cancelTimer]
  split
  · split
    · exact h.setCancelled.congr rfl rfl rfl
    · exact h
  · exact h

/-! ## Pace and ticks -/

section

variable (htick : 1 ≤ tick) (hS : 1 ≤ S) (hlayers : 2 ≤ layers) (hw : Shaped tick S layers w)

include htick hS hlayers hw

/-- A walk that finds no due task of `x` only counts rounds. -/
theorem held_ticking_zero (now : ℤ) (hnot : ∀ task ∈ w.held x 0 (w.currentSlot 0), ¬ Due task) :
    (∀ layer slot, (w.ticking S 0 now).held x layer slot =
      if 0 = layer ∧ w.currentSlot 0 = slot then (w.held x 0 (w.currentSlot 0)).filterMap keep
      else w.held x layer slot) ∧
      (w.ticking S 0 now).firings x = w.firings x := by
  constructor
  · intro layer slot
    rw [ticking, stages, held_of_tasks (tasks_moveOn _),
      held_sweep htick hS hlayers hw now fun task htask hid hdue ↦
        absurd hdue (hnot task (List.mem_filter.2 ⟨htask, by simpa using hid⟩))]
  · have hnone : ((w.held x 0 (w.currentSlot 0)).flatMap fun task ↦
        if Due task ∧ task.callback.isSome then [now] else []) = [] :=
      List.flatMap_eq_nil_iff.2 fun task htask ↦ if_neg fun h ↦ hnot task htask h.1
    rw [firings_ticking, hnone, List.append_nil]

/-- A walk that finds a due repeat timer runs it and puts it in the place for its interval. -/
theorem heldAt_ticking_zero_of_repeat (now : ℤ) (hheld : w.HeldAt x 0 (w.currentSlot 0) task)
    (hdue : Due task) (hinterval : tick ≤ task.interval) (hcallback : task.callback.isSome) :
    (w.ticking S 0 now).HeldAt x (placeFor tick S layers w.currentSlot task.interval).layer
        (placeFor tick S layers w.currentSlot task.interval).slot
        { task with
          expireTime := now + task.interval
          roundsLeft := (placeFor tick S layers w.currentSlot task.interval).rounds } ∧
      (w.ticking S 0 now).firings x = w.firings x ++ [now] := by
  constructor
  · intro layer slot
    rw [ticking, stages, held_of_tasks (tasks_moveOn _)]
    exact heldAt_sweep_of_repeat htick hS hlayers hw now hdue hinterval hheld layer slot
  · have hzero : w.held x 0 (w.currentSlot 0) = [task] := by rw [hheld, if_pos ⟨rfl, rfl⟩]
    rw [firings_ticking, hzero, List.flatMap_singleton, if_pos ⟨hdue, hcallback⟩]

/-- **The walk and the hand of wheel 0 keep the pace.** -/
theorem Paced.ticking_zero (hinterval : tick ≤ interval)
    (hrate : (tick : ℤ) ∣ interval ∨ (tick * S : ℕ) ≤ interval)
    (h : Paced tick S x interval last w) :
    Paced tick S x interval (last + 1) (w.ticking S 0 ((last + 1) * tick)) := by
  have hlayer : 0 < layers := by omega
  have hslot := hw.currentSlot_lt hlayer
  have hhand : (w.ticking S 0 ((last + 1) * tick)).currentSlot 0 =
      (w.currentSlot 0 + 1) % S := by
    rw [currentSlot_ticking hw _ hlayer, if_pos le_rfl]
    rfl
  obtain ⟨hspaced, habsent | ⟨layer, slot, task, hat, hpace⟩⟩ := h
  · obtain ⟨habsent', hfirings⟩ :=
      absent_ticking htick hS hlayers hw ((last + 1) * tick) hlayer habsent
    exact ⟨by rwa [hfirings], .inl habsent'⟩
  by_cases hrun : (layer = 0 ∧ slot = w.currentSlot 0) ∧ Due task
  · obtain ⟨⟨rfl, rfl⟩, hdue⟩ := hrun
    obtain rfl := hpace.repeats
    obtain ⟨hat', hfirings⟩ := heldAt_ticking_zero_of_repeat htick hS hlayers hw
      ((last + 1) * tick) hat hdue hinterval hpace.callback
    refine ⟨by rw [hfirings]; exact hspaced.snoc (hpace.due hslot), .inr ⟨_, _, _, hat', ?_⟩⟩
    rw [hhand, hfirings]
    exact hpace.again hslot htick hlayers hinterval hrate
  · have hnot : ∀ t ∈ w.held x 0 (w.currentSlot 0), ¬ Due t := by
      rw [hat]
      split
      · next hcur => exact fun t ht hdue ↦ hrun ⟨hcur, List.mem_singleton.1 ht ▸ hdue⟩
      · exact fun t ht ↦ absurd ht List.not_mem_nil
    obtain ⟨hheld, hfirings⟩ := held_ticking_zero htick hS hlayers hw ((last + 1) * tick) hnot
    refine ⟨by rwa [hfirings], ?_⟩
    by_cases hcur : layer = 0 ∧ slot = w.currentSlot 0
    · obtain ⟨rfl, rfl⟩ := hcur
      have hzero : w.held x 0 (w.currentSlot 0) = [task] := by rw [hat, if_pos ⟨rfl, rfl⟩]
      rcases hkeep : keep task with _ | task'
      · refine .inl fun layer slot ↦ ?_
        rw [hheld, hzero, List.filterMap_cons_none hkeep, List.filterMap_nil]
        split
        · rfl
        · next hne => rw [hat, if_neg hne]
      · refine .inr ⟨0, w.currentSlot 0, task', fun layer slot ↦ ?_, ?_⟩
        · rw [hheld, hzero, List.filterMap_cons_some hkeep, List.filterMap_nil]
          split
          · rfl
          · next hne => rw [hat, if_neg hne]
        · rw [hhand, hfirings, eq_of_keep hkeep]
          exact (hpace.stay hslot).congr rfl rfl rfl
    · refine .inr ⟨layer, slot, task, fun layer' slot' ↦ ?_, ?_⟩
      · rw [hheld, hat, if_neg hcur, List.filterMap_nil]
        split
        · next heq =>
          obtain ⟨rfl, rfl⟩ := heq
          rw [if_neg hcur]
        · exact hat layer' slot'
      · rw [hhand, hfirings]
        exact hpace.pass hslot hcur

/-- A stage of the tick takes a task that is on pace nowhere else than to places that are. -/
theorem Paced.stage {layer : ℕ} (hpos : 0 < layer) (hlayer : layer < layers)
    (h : Paced tick S x interval last w) :
    Paced tick S x interval last (w.stage S (last * tick) layer) := by
  have hhand := currentSlot_stage_of_ne hw (last * tick) hlayer hpos.ne'
  have hfirings := firings_stage (w := w) (x := x) S (last * tick) layer
  obtain ⟨hspaced, hplaced⟩ := h
  -- only a task in the slot that is cascaded moves
  by_cases hmoves : Odometer.value S w.currentSlot layer = 0 ∧
      w.held x layer (w.currentSlot layer) ≠ []
  swap
  · exact Paced.congr ⟨hspaced, hplaced⟩ (held_stage_of_nil htick hS hlayers hw (last * tick) hpos
      hlayer fun hround ↦ of_not_not fun hne ↦ hmoves ⟨hround, hne⟩) hfirings hhand
  obtain ⟨hround, hne⟩ := hmoves
  have hstage : (w.stage S (last * tick) layer).held x =
      (w.cascade (last * tick) layer).held x := by
    rw [TimerWheel.stage, if_pos hround, turn, held_of_tasks (tasks_moveOn _)]
  refine ⟨by rwa [hfirings], ?_⟩
  rw [hfirings, hhand]
  obtain habsent | ⟨layer', slot, task, hat, hpace⟩ := hplaced
  · exact absurd (habsent _ _) hne
  obtain ⟨rfl, rfl⟩ : layer' = layer ∧ slot = w.currentSlot layer := by
    by_contra h
    exact hne (by rw [hat, if_neg h])
  by_cases hlive : task.cancelled = false
  · have hat' := heldAt_cascade htick hS hlayers hw (last * tick) hpos hlayer hat.id_eq hlive hat
    refine .inr ⟨_, _, _, fun layer slot ↦ ?_,
      hpace.cascade htick hlayers (hw.currentSlot_lt (by omega))⟩
    rw [hstage]
    exact hat' layer slot
  · have hcancelled : ∀ t ∈ w.held x layer' (w.currentSlot layer'), t.cancelled = true := by
      rw [hat, if_pos ⟨rfl, rfl⟩]
      exact List.forall_mem_singleton.2 (by simpa using hlive)
    refine .inl fun layer slot ↦ ?_
    rw [hstage, held_cascade_of_cancelled htick hS hlayers hw (last * tick) hpos hlayer hcancelled]
    split
    · rfl
    · next hne' => rw [hat, if_neg hne']

/-- **A tick keeps the pace.** -/
theorem Paced.ticking (hinterval : tick ≤ interval)
    (hrate : (tick : ℤ) ∣ interval ∨ (tick * S : ℕ) ≤ interval)
    (h : Paced tick S x interval last w) {n : ℕ} (hn : n < layers) :
    Paced tick S x interval (last + 1) (w.ticking S n ((last + 1) * tick)) := by
  induction n with
  | zero => exact h.ticking_zero htick hS hlayers hw hinterval hrate
  | succ n ih =>
    rw [ticking_succ]
    exact (ih (by omega)).stage htick hS hlayers (shaped_ticking hw _ n) (Nat.succ_pos n) hn

/-- A repeat timer that stays in wheel 0, through a tick that runs it. -/
theorem heldAt_ticking_of_repeat (now : ℤ) (hheld : w.HeldAt x 0 (w.currentSlot 0) task)
    (hdue : Due task) (hcallback : task.callback.isSome) (hinterval : tick ≤ task.interval)
    (hlt : task.interval < (S * tick : ℕ)) {n : ℕ} (hn : n < layers) :
    (w.ticking S n now).HeldAt x 0
        (((w.ticking S n now).currentSlot 0 + (task.interval.toNat / tick - 1)) % S)
        { task with expireTime := now + task.interval } ∧
      (w.ticking S n now).firings x = w.firings x ++ [now] := by
  obtain ⟨hat, hfirings⟩ := heldAt_ticking_zero_of_repeat htick hS hlayers hw now hheld hdue
    hinterval hcallback
  rw [placeFor_of_lt_moved htick hlayers w.currentSlot hinterval hlt] at hat
  have hhand : (w.ticking S n now).currentSlot 0 = (w.currentSlot 0 + 1) % S := by
    rw [currentSlot_ticking hw now hn, if_pos (Nat.zero_le n)]
    rfl
  have hsame : (w.ticking S n now).held x = (w.ticking S 0 now).held x :=
    held_ticking_of_ticking htick hS hlayers hw now (Nat.zero_le n) hn fun layer hpos slot ↦ by
      rw [hat, if_neg (by simp only; omega)]
  refine ⟨fun layer slot ↦ ?_, ?_⟩
  · rw [hsame, hhand, hat]
    congr 3
    exact hdue.2.symm
  · rw [firings_ticking] at hfirings ⊢
    exact hfirings

/-- Nor does it run too early inside a tick. -/
theorem Paced.walked (hinterval : tick ≤ interval) (h : Paced tick S x interval last w) (n : ℕ) :
    Spaced interval ((w.walked ((last + 1) * tick) n).wheel.firings x) := by
  have hslot := hw.currentSlot_lt (show 0 < layers by omega)
  obtain ⟨hspaced, hplaced⟩ := h
  by_cases hrun : ∃ task ∈ w.held x 0 (w.currentSlot 0), Due task
  · obtain ⟨task, htask, hdue⟩ := hrun
    obtain habsent | ⟨layer, slot, task', hat, hpace⟩ := hplaced
    · rw [habsent] at htask
      cases htask
    obtain ⟨rfl, rfl⟩ : layer = 0 ∧ slot = w.currentSlot 0 := by
      by_contra h
      rw [hat, if_neg h] at htask
      cases htask
    have hzero : w.held x 0 (w.currentSlot 0) = [task'] := by rw [hat, if_pos ⟨rfl, rfl⟩]
    rw [hzero, List.mem_singleton] at htask
    subst htask
    obtain rfl := hpace.repeats
    -- the task is put in another slot when it has run
    have hagain (m : ℕ) : ((w.walked ((last + 1) * tick) m).wheel.visit ((last + 1) * tick)
        task).tasks 0 (w.currentSlot 0) =
          (w.walked ((last + 1) * tick) m).wheel.tasks 0 (w.currentSlot 0) := by
      obtain ⟨hw', hcur⟩ := shaped_walked hw ((last + 1) * tick) m
      have hvisit := tasks_visit hw' htick hS hlayers
        (fun h : Due task ∧ Restless tick task ↦ absurd h.2.2 (by omega)) ((last + 1) * tick)
      rwa [hcur] at hvisit
    rcases firings_walked_of_single ((last + 1) * tick) hdue hagain hpace.callback hat.id_eq
      hzero n with ⟨-, hfirings⟩ | ⟨-, hfirings⟩
    · rwa [hfirings]
    · rw [hfirings]
      exact hspaced.snoc (hpace.due hslot)
  · have hnot : ∀ task ∈ w.tasks 0 (w.currentSlot 0), Due task → task.id ≠ x :=
      fun task htask hdue hid ↦ hrun ⟨task, List.mem_filter.2 ⟨htask, by simpa using hid⟩, hdue⟩
    rw [(firings_walked_of_not_due ((last + 1) * tick) hnot n).2]
    exact hspaced

end

end TimerWheel

namespace Driven

variable {tick S layers x : ℕ} {interval : ℤ}

/-- The state after `add_repeat_timer`. -/
def afterAddRepeat (tick : ℕ) (s : Driven Cb) (offset intervalMs : ℤ) (callback : Cb) :
    Driven Cb :=
  { s with wheel := (s.wheel.addRepeatTimer (s.now tick offset) intervalMs (some callback)).1 }

/-- The handle that `add_repeat_timer` returns. -/
def repeatHandleOf (tick : ℕ) (s : Driven Cb) (offset intervalMs : ℤ) (callback : Cb) :
    TimerHandle :=
  (s.wheel.addRepeatTimer (s.now tick offset) intervalMs (some callback)).2

theorem repeatHandleOf_id (s : Driven Cb) (offset : ℤ) {intervalMs : ℤ} (hpos : 0 < intervalMs)
    (callback : Cb) :
    (s.repeatHandleOf tick offset intervalMs callback).id = s.wheel.nextId := by
  rw [repeatHandleOf, addRepeatTimer, addTask, if_neg (by simp; omega)]

/-- However a wheel is driven, other timers and cancelled ones included: a repeat timer of so many
milliseconds never runs more than once in so many milliseconds. -/
def AlwaysKeepsRate (tick S layers : ℕ) (intervalMs : ℤ) (callback : Cb) : Prop :=
  ∀ (last : ℤ) (before after : List (TimerOp Cb)) (s : Driven Cb) (offset : ℤ)
    (w : TimerWheel Cb), (system tick).Run (init tick S layers last) before s →
    0 ≤ offset ∧ offset ≤ tick →
    Passes tick (s.afterAddRepeat tick offset intervalMs callback) after w →
    KeepsRate intervalMs (w.firings (s.repeatHandleOf tick offset intervalMs callback).id)

section

variable (htick : 1 ≤ tick) (hS : 1 ≤ S) (hlayers : 2 ≤ layers)

include htick hS hlayers

theorem paced_step (hinterval : tick ≤ interval)
    (hrate : (tick : ℤ) ∣ interval ∨ (tick * S : ℕ) ≤ interval) {s t : Driven Cb}
    {op : TimerOp Cb} (hw : Shaped tick S layers s.wheel) (hx : x < s.wheel.nextId)
    (h : Paced tick S x interval s.last s.wheel) (hstep : (system tick).step s op t) :
    x < t.wheel.nextId ∧ Paced tick S x interval t.last t.wheel := by
  rcases step_cases htick hS hlayers hw hstep with
    ⟨-, rfl⟩ | ⟨now, delayMs, interval', callback, -, rfl⟩ | ⟨handle, -, rfl⟩
  · rw [now_tick]
    exact ⟨hx.trans_eq (nextId_ticking _ _ _).symm,
      h.ticking htick hS hlayers hw hinterval hrate (by omega)⟩
  · have hsame := untouched_addTask htick hS hlayers hw hx.ne' now delayMs interval' callback
    exact ⟨hx.trans_le hsame.nextId, h.congr hsame.held hsame.firings (congrFun hsame.hands 0)⟩
  · refine ⟨hx.trans_eq (nextId_cancelTimer handle).symm, ?_⟩
    by_cases hid : handle.id = x
    · exact h.cancelTimer handle hid
    · have hsame := untouched_cancelTimer hw hid
      exact h.congr hsame.held hsame.firings (congrFun hsame.hands 0)

/-- **At no point has a timer that keeps its pace run too often.** -/
theorem spaced_passes (hinterval : tick ≤ interval)
    (hrate : (tick : ℤ) ∣ interval ∨ (tick * S : ℕ) ≤ interval) {s : Driven Cb}
    {ops : List (TimerOp Cb)} {w : TimerWheel Cb} (hsound : Sound tick S layers s.wheel)
    (hx : x < s.wheel.nextId) (h : Paced tick S x interval s.last s.wheel)
    (hpasses : Passes tick s ops w) : Spaced interval (w.firings x) := by
  induction hpasses with
  | here s ops => exact h.1
  | walking s ops n =>
    rw [now_tick]
    exact h.walked htick hS hlayers hsound.shaped hinterval n
  | later hstep _ ih =>
    obtain ⟨hx', h'⟩ := paced_step htick hS hlayers hinterval hrate hsound.shaped hx h hstep
    exact ih (hsound.step htick hS hlayers hstep) hx' h'

/-- A repeat timer in wheel 0 runs when the hand comes to its slot, and lies in wheel 0 again. -/
theorem exists_run_fires {s : Driven Cb} (hsound : Sound tick S layers s.wheel)
    (hquiet : Quiet tick s.wheel) {task : TimerTask Cb} {k : ℕ} (hk : k < S)
    (hheld : s.wheel.HeldAt x 0 ((s.wheel.currentSlot 0 + k) % S) task) (hdue : Due task)
    (hcallback : task.callback.isSome) (hinterval : tick ≤ task.interval)
    (hlt : task.interval < (S * tick : ℕ)) :
    ∃ t, (system tick).Run s (List.replicate (k + 1) .tick) t ∧ Sound tick S layers t.wheel ∧
      Quiet tick t.wheel ∧ t.last = s.last + (k + 1 : ℕ) ∧
      t.wheel.firings x = s.wheel.firings x ++ [t.last * tick] ∧
      t.wheel.HeldAt x 0 ((t.wheel.currentSlot 0 + (task.interval.toNat / tick - 1)) % S)
        { task with expireTime := t.last * tick + task.interval } := by
  have hpatient : (.tick : TimerOp Cb).Patient tick := trivial
  have hn : min (layers - 1) 3 < layers := by omega
  induction k generalizing s with
  | zero =>
    have hw := hsound.shaped
    have hstep := (step_tick_iff htick hS hlayers hw).2
      ⟨fun task htask h ↦ hquiet _ _ task htask h.2, rfl⟩
    rw [Nat.add_zero, Nat.mod_eq_of_lt (hw.currentSlot_lt (by omega))] at hheld
    obtain ⟨hat, hfirings⟩ := heldAt_ticking_of_repeat htick hS hlayers hw (s.now tick tick) hheld
      hdue hcallback hinterval hlt hn
    refine ⟨_, .single hstep, hsound.step htick hS hlayers hstep,
      hquiet.step htick hS hlayers hw hpatient hstep, rfl, ?_, ?_⟩ <;> rw [← now_tick]
    · exact hfirings
    · exact hat
  | succ k ih =>
    have hw := hsound.shaped
    have hslot : s.wheel.currentSlot 0 < S := hw.currentSlot_lt (by omega)
    have hstep := (step_tick_iff htick hS hlayers hw).2
      ⟨fun task htask h ↦ hquiet _ _ task htask h.2, rfl⟩
    have hne : (s.wheel.currentSlot 0 + (k + 1)) % S ≠ s.wheel.currentSlot 0 := fun h ↦
      absurd ((Odometer.add_mod_eq_self_iff hslot hk).1 h) (Nat.succ_ne_zero k)
    obtain ⟨hat, hfirings⟩ :=
      heldAt_ticking_of_ne htick hS hlayers hw (s.now tick tick) hheld rfl hne hn
    have hnearer : (s.wheel.currentSlot 0 + (k + 1)) % S =
        ((s.wheel.ticking S (min (layers - 1) 3) (s.now tick tick)).currentSlot 0 + k) % S := by
      rw [currentSlot_ticking hw _ hn, if_pos (Nat.zero_le _)]
      change _ = ((s.wheel.currentSlot 0 + 1) % S + k) % S
      rw [Nat.mod_add_mod, Nat.add_right_comm, Nat.add_assoc]
    rw [hnearer] at hat
    obtain ⟨t, hrun, hsound', hquiet', hlast, hfirings', hat'⟩ :=
      ih (hsound.step htick hS hlayers hstep) (hquiet.step htick hS hlayers hw hpatient hstep)
        (by omega) hat
    refine ⟨t, hrun.cons hstep, hsound', hquiet', ?_, hfirings'.trans ?_, hat'⟩
    · rw [hlast]
      push_cast
      ring
    · rw [hfirings]

/-- A repeat timer that stays in wheel 0 runs again after so many whole ticks. -/
theorem exists_run_twice {s : Driven Cb} (hsound : Sound tick S layers s.wheel)
    (hquiet : Quiet tick s.wheel) (offset : ℤ) (hinterval : tick ≤ interval)
    (hlt : interval < (S * tick : ℕ)) (callback : Cb) :
    ∃ (ops : List (TimerOp Cb)) (t : Driven Cb) (time : ℤ),
      (system tick).Run (s.afterAddRepeat tick offset interval callback) ops t ∧
      t.wheel.firings s.wheel.nextId = [time, time + (interval.toNat / tick * tick : ℕ)] := by
  have hpos := Nat.div_pos (show tick ≤ interval.toNat by omega) htick
  have hslots := (ticks_lt_iff htick (show 0 < interval by omega)).2 hlt
  have hadded := added_addTask htick hS hlayers hsound (s.now tick offset) interval
    (show 0 < interval by omega) callback
  have hheld := hadded.held
  rw [placeFor_of_lt htick hlayers _ (by omega) hlt, ← hadded.hands] at hheld
  have hquiet' : Quiet tick (s.afterAddRepeat tick offset interval callback).wheel :=
    hquiet.allTasks.addTask (steady_restless tick _) fun _ _ h ↦ absurd h.2 (by simp only; omega)
  obtain ⟨t, hrun, hsound₁, hquiet₁, -, hfirings₁, hheld₁⟩ := exists_run_fires htick hS hlayers
    hadded.sound hquiet' hslots hheld ⟨rfl, rfl⟩ rfl hinterval hlt
  obtain ⟨u, hrun', -, -, hlast, hfirings₂, -⟩ := exists_run_fires htick hS hlayers hsound₁ hquiet₁
    (by simp only; omega) hheld₁ ⟨rfl, rfl⟩ rfl hinterval hlt
  refine ⟨_, u, t.last * tick, hrun.append hrun', ?_⟩
  have hnone : (s.afterAddRepeat tick offset interval callback).wheel.firings s.wheel.nextId = [] :=
    hadded.firings
  rw [hfirings₂, hfirings₁, hnone, hlast, Nat.sub_add_cancel hpos]
  push_cast
  rw [add_mul]
  rfl

end

/-- **When a repeat timer keeps its rate.**  In a wheel of at least two layers that is driven by
`tick` at every multiple of `tick_ms`, a repeat timer whose interval is no less than a tick always
keeps its rate if and only if its interval is a whole number of ticks or no less than one turn of
wheel 0. -/
theorem alwaysKeepsRate_iff (htick : 1 ≤ tick) (hS : 1 ≤ S) (hlayers : 2 ≤ layers)
    (hinterval : tick ≤ interval) (callback : Cb) :
    AlwaysKeepsRate tick S layers interval callback ↔
      (tick : ℤ) ∣ interval ∨ (tick * S : ℕ) ≤ interval := by
  have hpos : 0 < interval := by omega
  constructor
  · intro h
    by_contra hnot
    obtain ⟨hdvd, hlt⟩ := not_or.1 hnot
    rw [Nat.mul_comm] at hlt
    obtain ⟨ops, t, time, hrun, hfirings⟩ := exists_run_twice htick hS hlayers (sound_init hS 0)
      (quiet_init 0) 0 hinterval (by omega) callback
    have hrate := h 0 [] ops _ 0 _ .nil ⟨le_rfl, by omega⟩ (passes_of_run hrun)
    rw [repeatHandleOf_id _ _ hpos, hfirings] at hrate
    have hle := Nat.div_mul_le_self interval.toNat tick
    have hne : interval.toNat / tick * tick ≠ interval.toNat := fun heq ↦ hdvd (by
      rw [← Int.toNat_of_nonneg hpos.le, Int.natCast_dvd_natCast]
      exact ⟨_, (Nat.mul_comm _ _).trans heq |>.symm⟩)
    exact not_keepsRate (by omega) (by omega) hrate
  · intro hrate last before after s offset w hbefore _ hpasses
    have hsound := (sound_init hS last).run htick hS hlayers hbefore
    have hadded := added_addTask htick hS hlayers hsound (s.now tick offset) interval hpos callback
    have hpaced : Paced tick S s.wheel.nextId interval s.last
        (s.afterAddRepeat tick offset interval callback).wheel := by
      rw [afterAddRepeat, addRepeatTimer, Paced, hadded.firings]
      exact ⟨.nil, .inr ⟨_, _, _, hadded.held, rfl, rfl, fun t ht ↦ absurd ht List.not_mem_nil,
        fun _ hne ↦ absurd rfl hne⟩⟩
    rw [repeatHandleOf_id s offset hpos]
    exact (spaced_passes htick hS hlayers hinterval hrate hadded.sound hadded.lt hpaced
      hpasses).keepsRate hpos

/-- In a wheel of the default sizes, a repeat timer of one second keeps its rate. -/
theorem alwaysKeepsRate_second : AlwaysKeepsRate 100 60 4 1000 () :=
  (alwaysKeepsRate_iff (by decide) (by decide) (by decide) (by decide) ()).2 (.inl (by decide))

/-- A repeat timer of 150 milliseconds runs every 100 milliseconds. -/
theorem runs_too_often :
    ∃ t, (system 100).Run ((init 100 60 4 0 : Driven Unit).afterAddRepeat 100 0 150 ())
        (List.replicate 3 .tick) t ∧
      t.wheel.firings ((init 100 60 4 0 : Driven Unit).repeatHandleOf 100 0 150 ()).id =
        [200, 300] ∧
      ¬ KeepsRate 150 [200, 300] := by
  obtain ⟨t, ht, hfirings⟩ : ∃ t, (List.replicate 3 TimerOp.tick).foldlM (exec 100 2)
      ((init 100 60 4 0 : Driven Unit).afterAddRepeat 100 0 150 ()) = .ok t ∧
        t.wheel.firings ((init 100 60 4 0 : Driven Unit).repeatHandleOf 100 0 150 ()).id =
          [200, 300] := ⟨_, rfl, rfl⟩
  exact ⟨t, run_of_foldlM (fun op hop ↦ by rw [List.eq_of_mem_replicate hop]; trivial) ht, hfirings,
    not_keepsRate (by decide) (by decide)⟩

end Driven

end Core
end ChwellCore
