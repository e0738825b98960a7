import ChwellCore.Slg.Troops

/-!
# The arithmetic of a march

`create_troop` takes any four `int`s for the soldiers, and `move_troop` any two for the destination.
What is then computed from them is a chain of sums, differences and two divisions, and nobody has
looked at the numbers before.  The code is careful in two places: it adds one to the number of
soldiers before it divides by it, and it multiplies the distance in 64 bits.  `marchSafe_iff` says
for which numbers that is enough.  On a map, a troop is safe that has less than 107374183 riders, a
total that is an `int`, and no negative number of anything (`marchable_of_nonneg`).
-/

set_option autoImplicit false

namespace ChwellCore
namespace Slg

namespace Troop

/-- The members of a troop that a march is computed from are `int`s. -/
def Ints (troop : Troop) : Prop :=
  (InInt troop.infantry ∧ InInt troop.cavalry ∧ InInt troop.archer ∧ InInt troop.siege) ∧
    InInt troop.fromX ∧ InInt troop.fromY

instance (troop : Troop) : Decidable troop.Ints := inferInstanceAs (Decidable ((_ ∧ _) ∧ _))

/-- `total_soldiers() + 1`, as a number. -/
def divisor (troop : Troop) : ℤ :=
  troop.infantry + troop.cavalry + troop.archer + troop.siege + 1

/-- The soldiers can be counted, and the riders do not make the troop too fast or too slow. -/
structure Rideable (troop : Troop) : Prop where
  riders : troop.cavalry ≤ 107374182
  sum₂ : troop.infantry + troop.cavalry ≤ 2147483647
  sum₃ : InInt (troop.infantry + troop.cavalry + troop.archer)
  sum₄ : InInt (troop.infantry + troop.cavalry + troop.archer + troop.siege)
  divisor_le : troop.divisor ≤ 2147483647
  divisor_ne : troop.divisor ≠ 0
  slow : troop.divisor < 0 → troop.cavalry < 5 * -troop.divisor
  fast : troop.divisor = 1 → troop.cavalry ≤ 107374177

theorem totalSoldiers_eq_some {troop : Troop} {n : ℤ} :
    troop.totalSoldiers = some n ↔
      n = troop.infantry + troop.cavalry + troop.archer + troop.siege ∧
        InInt (troop.infantry + troop.cavalry) ∧
        InInt (troop.infantry + troop.cavalry + troop.archer) ∧
        InInt (troop.infantry + troop.cavalry + troop.archer + troop.siege) := by
  simp only [totalSoldiers, Option.bind_eq_bind, Option.bind_eq_some_iff, checked_eq_some, InInt]
  constructor
  · rintro ⟨_, ⟨rfl, h₂⟩, _, ⟨rfl, h₃⟩, rfl, h₄⟩
    exact ⟨rfl, h₂, h₃, h₄⟩
  · rintro ⟨rfl, h₂, h₃, h₄⟩
    exact ⟨_, ⟨rfl, h₂⟩, _, ⟨rfl, h₃⟩, rfl, h₄⟩

/-- The bonus for `c` riders out of `t - 1` soldiers leaves the speed an `int` from 1 on. -/
theorem speed_mem_iff {c t : ℤ} (hc : 0 < c) (hle : c ≤ 107374182) (ht : t ≠ 0) :
    (1 ≤ 100 + (20 * c).tdiv t ∧ 100 + (20 * c).tdiv t ≤ 2147483647) ↔
      (t < 0 → c < 5 * -t) ∧ (t = 1 → c ≤ 107374177) := by
  rcases Int.lt_or_gt_of_ne ht with hneg | hpos
  · obtain ⟨n, rfl⟩ : ∃ n, t = -n := ⟨-t, (neg_neg t).symm⟩
    have hn : 0 < n := by omega
    rw [Int.tdiv_neg, Int.tdiv_eq_ediv_of_nonneg (by omega)]
    have hnonneg : 0 ≤ 20 * c / n := Int.ediv_nonneg (by omega) hn.le
    have hlt : 20 * c / n < 100 ↔ 20 * c < 100 * n := Int.ediv_lt_iff_lt_mul hn
    omega
  · rw [Int.tdiv_eq_ediv_of_nonneg (by omega)]
    have hnonneg : 0 ≤ 20 * c / t := Int.ediv_nonneg (by omega) hpos.le
    rcases eq_or_ne t 1 with rfl | hne
    · rw [Int.ediv_one]
      omega
    · have hlt : 20 * c / t < 2147483548 := by
        have ht2 : 2 ≤ t := by omega
        exact (Int.ediv_lt_iff_lt_mul hpos).2 (by omega)
      omega

/-- **When `march_speed` is defined and at least 1**, for a troop with riders. -/
theorem marchSpeed_iff {troop : Troop} (h : troop.Ints) (hc : 0 < troop.cavalry) :
    (∃ speed, troop.marchSpeed = some speed ∧ 1 ≤ speed) ↔ troop.Rideable := by
  obtain ⟨⟨hi, -, -, -⟩, -⟩ := h
  rw [InInt] at hi
  have hspeed := fun hle ht ↦ speed_mem_iff (c := troop.cavalry) (t := troop.divisor) hc hle ht
  simp only [marchSpeed, if_pos hc, Option.bind_eq_bind, Option.bind_eq_some_iff, checked_eq_some,
    totalSoldiers_eq_some, quot, Option.ite_none_left_eq_some, Option.some_inj]
  constructor
  · rintro ⟨_, ⟨_, ⟨rfl, hbonus⟩, _, ⟨rfl, h₂, h₃, h₄⟩, _, ⟨rfl, hdiv⟩, _, ⟨hquot, rfl⟩, rfl, -,
      hle⟩, hpos⟩
    have hne : troop.divisor ≠ 0 := fun h0 ↦ hquot (.inl h0)
    obtain ⟨hslow, hfast⟩ := (hspeed (by omega) hne).1 ⟨hpos, hle⟩
    exact ⟨by omega, h₂.2, h₃, h₄, hdiv.2, hne, hslow, hfast⟩
  · rintro ⟨hriders, h₂, h₃, h₄, hdiv, hne, hslow, hfast⟩
    obtain ⟨hpos, hle⟩ := (hspeed hriders hne).2 ⟨hslow, hfast⟩
    have h₂' : InInt (troop.infantry + troop.cavalry) := ⟨by omega, h₂⟩
    have hdiv' : -2147483648 ≤ troop.divisor := by
      rw [divisor]
      have := h₄.1
      omega
    refine ⟨_, ⟨_, ⟨rfl, by omega, by omega⟩, _, ⟨rfl, h₂', h₃, h₄⟩, _, ⟨rfl, hdiv', hdiv⟩, _,
      ⟨?_, rfl⟩, rfl, by rw [← divisor]; omega, hle⟩, hpos⟩
    rintro (h0 | ⟨hmin, -⟩)
    · exact hne h0
    · omega

end Troop

theorem calculateDistance_eq_some {x1 y1 x2 y2 d : ℤ} :
    calculateDistance x1 y1 x2 y2 = some d ↔
      d = max |x2 - x1| |y2 - y1| ∧ |x2 - x1| ≤ 2147483647 ∧ |y2 - y1| ≤ 2147483647 := by
  simp only [calculateDistance, Option.bind_eq_bind, Option.bind_eq_some_iff, checked_eq_some,
    Option.some_inj]
  constructor
  · rintro ⟨_, ⟨rfl, -⟩, _, ⟨rfl, -, hx⟩, _, ⟨rfl, -⟩, _, ⟨rfl, -, hy⟩, rfl⟩
    exact ⟨rfl, hx, hy⟩
  · rintro ⟨rfl, hx, hy⟩
    have hx' := abs_le.1 hx
    have hy' := abs_le.1 hy
    have hx0 := abs_nonneg (x2 - x1)
    have hy0 := abs_nonneg (y2 - y1)
    exact ⟨_, ⟨rfl, by omega, by omega⟩, _, ⟨rfl, by omega, hx⟩, _, ⟨rfl, by omega, by omega⟩, _,
      ⟨rfl, by omega, hy⟩, rfl⟩

/-- A march at a speed of at least 1 takes some time, and less than 25 days. -/
theorem exists_marchTime {fromX fromY toX toY d speed : ℤ}
    (hd : calculateDistance fromX fromY toX toY = some d) (hspeed : 1 ≤ speed) :
    ∃ time, calculateMarchTime fromX fromY toX toY speed = some time ∧ 0 ≤ time ∧
      time ≤ 2147483647000 := by
  obtain ⟨hmax, hx, hy⟩ := calculateDistance_eq_some.1 hd
  have hd0 : 0 ≤ d := hmax ▸ le_max_of_le_left (abs_nonneg _)
  have hdle : d ≤ 2147483647 := hmax ▸ max_le hx hy
  have hscaled : checked64 (d * 1000) = some (d * 1000) :=
    checked64_eq_some.2 ⟨rfl, by omega, by omega⟩
  refine ⟨(d * 1000).tdiv speed, ?_, ?_, ?_⟩
  · rw [calculateMarchTime, hd]
    simp only [Option.bind_eq_bind, Option.bind_some, hscaled]
    rw [if_neg (by omega)]
  · exact Int.tdiv_nonneg (by omega) (by omega)
  · rw [Int.tdiv_eq_ediv_of_nonneg (by omega)]
    have hle := Int.ediv_le_self speed (show 0 ≤ d * 1000 by omega)
    omega

namespace SlgMapManager

variable {m : SlgMapManager} {id : UInt64} {troop : Troop} {toX toY now : ℤ}

/-- `move_troop` sends off the troop `id`, and all that it computes on the way is defined: the
speed, which is at least 1, the distance, and the times, of which the second is not before the
first. -/
def MarchSafe (m : SlgMapManager) (id : UInt64) (troop : Troop) (toX toY now : ℤ) : Prop :=
  ∃ speed distance time troop' m',
    (troop.marchSpeed = some speed ∧ 1 ≤ speed) ∧
      calculateDistance troop.fromX troop.fromY toX toY = some distance ∧
      calculateMarchTime troop.fromX troop.fromY toX toY speed = some time ∧
      m.moveTroop id toX toY now = some (true, m') ∧ m'.troops.lookup id = some troop' ∧
      troop'.startTime = now ∧ troop'.startTime ≤ troop'.arriveTime

/-- The destination is not too far off, and the riders, if there are any, can be allowed for. -/
def Marchable (troop : Troop) (toX toY : ℤ) : Prop :=
  (|toX - troop.fromX| ≤ 2147483647 ∧ |toY - troop.fromY| ≤ 2147483647) ∧
    (0 < troop.cavalry → troop.Rideable)

theorem moveTroop_of_sendOff {troop' : Troop} (hid : m.troops.lookup id = some troop)
    (hidle : troop.state = .idle) (hsend : sendOff troop toX toY now = some troop') :
    m.moveTroop id toX toY now =
      some (true, { m with troops := m.troops.insert id troop' }) := by
  rw [moveTroop, hid]
  simp only [hidle, ne_eq, not_true_eq_false, if_false, hsend]
  rfl

/-- **When the arithmetic of a march is safe.**  For every manager and every troop that `move_troop`
would send off, of any numbers of soldiers, from anywhere to anywhere, at any time that the clock
can show in milliseconds. -/
theorem marchSafe_iff (hid : m.troops.lookup id = some troop) (hidle : troop.state = .idle)
    (hints : troop.Ints) (hnow : |now| ≤ 9223372036854) :
    m.MarchSafe id troop toX toY now ↔ Marchable troop toX toY := by
  have hnow' := abs_le.1 hnow
  constructor
  · rintro ⟨speed, d, time, troop', m', hspeed, hd, -⟩
    exact ⟨(calculateDistance_eq_some.1 hd).2,
      fun hc ↦ (Troop.marchSpeed_iff hints hc).1 ⟨speed, hspeed⟩⟩
  · rintro ⟨hfar, hriders⟩
    obtain ⟨speed, hspeed, hpos⟩ : ∃ speed, troop.marchSpeed = some speed ∧ 1 ≤ speed := by
      by_cases hc : 0 < troop.cavalry
      · exact (Troop.marchSpeed_iff hints hc).2 (hriders hc)
      · exact ⟨100, if_neg hc, by decide⟩
    have hd := calculateDistance_eq_some.2 ⟨rfl, hfar⟩
    obtain ⟨time, htime, h0, hle⟩ := exists_marchTime hd hpos
    have harrive : checked64 (now + time) = some (now + time) :=
      checked64_eq_some.2 ⟨rfl, by omega, by omega⟩
    have hsend : sendOff troop toX toY now = some
        { troop with
          toX, toY, state := .marching, startTime := now, arriveTime := now + time } := by
      simp only [sendOff, hspeed, htime, harrive, Option.bind_eq_bind, Option.bind_some]
    exact ⟨speed, _, time, _, _, ⟨hspeed, hpos⟩, hd, htime, moveTroop_of_sendOff hid hidle hsend,
      (UnorderedMap.lookup_insert_ite _ _ _ _).trans (if_pos rfl), rfl,
      Int.le_add_of_nonneg_right h0⟩

/-- A troop of seventeen. -/
theorem marchSafe_iff_seventeen :
    ∃ m, (((new ⟨8, 8⟩ true).bind init).bind (·.createTroop 7 0 0 10 5 2 0)).map Prod.snd = some m ∧
      (m.MarchSafe 1 (.fresh 1 7 0 0 10 5 2 0) 7 3 1000 ↔
        Marchable (.fresh 1 7 0 0 10 5 2 0) 7 3) := by
  obtain ⟨m, hm, hid⟩ : ∃ m ∈ (((new ⟨8, 8⟩ true).bind init).bind
      (·.createTroop 7 0 0 10 5 2 0)).map Prod.snd,
      m.troops.lookup 1 = some (.fresh 1 7 0 0 10 5 2 0) := by
    decide +kernel
  exact ⟨m, hm, marchSafe_iff hid rfl (by decide) (by decide)⟩

/-- A troop of riders only, of one more than a twentieth of what an `int` holds. -/
theorem not_forall_marchSafe :
    ¬ ∀ (m : SlgMapManager) (id : UInt64) (troop : Troop) (toX toY now : ℤ),
      m.troops.lookup id = some troop → troop.state = .idle → troop.Ints → InInt toX → InInt toY →
        |now| ≤ 9223372036854 → m.MarchSafe id troop toX toY now := by
  intro h
  obtain ⟨m, -, hid⟩ : ∃ m ∈ (((new ⟨8, 8⟩ true).bind init).bind
      (·.createTroop 7 0 0 0 107374183 0 0)).map Prod.snd,
      m.troops.lookup 1 = some (.fresh 1 7 0 0 0 107374183 0 0) := by
    decide +kernel
  obtain ⟨_, _, _, _, _, ⟨hspeed, -⟩, -⟩ :=
    h m 1 _ 1 1 1000 hid rfl (by decide) (by decide) (by decide) (by decide)
  have hnone : (Troop.fresh 1 7 0 0 0 107374183 0 0).marchSpeed = none := by decide
  rw [hnone] at hspeed
  cases hspeed

/-- No troop that can be counted is too large if it has less than 107374183 riders. -/
theorem rideable_of_nonneg {troop : Troop} (hi : 0 ≤ troop.infantry) (hc : 0 < troop.cavalry)
    (ha : 0 ≤ troop.archer) (hs : 0 ≤ troop.siege) (hriders : troop.cavalry ≤ 107374182)
    (hcount : troop.divisor ≤ 2147483647) : troop.Rideable := by
  have hcount' := hcount
  rw [Troop.divisor] at hcount'
  refine ⟨hriders, by omega, ⟨by omega, by omega⟩, ⟨by omega, by omega⟩, hcount, ?_, ?_, ?_⟩ <;>
    rw [Troop.divisor] <;> omega

/-- On a map, the march of a troop that can be counted is safe. -/
theorem marchable_of_nonneg {troop : Troop} (hi : 0 ≤ troop.infantry) (ha : 0 ≤ troop.archer)
    (hs : 0 ≤ troop.siege) (hriders : troop.cavalry ≤ 107374182)
    (hcount : troop.divisor ≤ 2147483647) (hconfig : InInt m.config.width ∧ InInt m.config.height)
    (hfrom : m.isValidPos troop.fromX troop.fromY) (hto : m.isValidPos toX toY) :
    Marchable troop toX toY := by
  obtain ⟨⟨-, hw⟩, -, hh⟩ := hconfig
  simp only [isValidPos] at hfrom hto
  exact ⟨⟨abs_le.2 ⟨by omega, by omega⟩, abs_le.2 ⟨by omega, by omega⟩⟩,
    fun hc ↦ rideable_of_nonneg hi hc ha hs hriders hcount⟩

end SlgMapManager
end Slg
end ChwellCore
