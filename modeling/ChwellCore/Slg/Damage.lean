import ChwellCore.Core.Bytes
import Mathlib.Algebra.Order.Floor.Ring
import Mathlib.Data.Rat.Floor
import Mathlib.Tactic.Linarith
import Mathlib.Tactic.NormNum
import Mathlib.Tactic.Ring

/-!
# The damage of one blow

`calculate_damage` adds the base damage, a part for the force and a part for the skill, multiplies
by a random factor between 0.8 and 1.2, and then by 0.3 if the blow is dodged and by the multiplier
of `BattleFormula` if it is a critical hit.  After each of the four stages the fraction is dropped.
Doubles are exact rationals here, and the `int`s are integers: attributes for which a product in the
source overflows, such as a force from 71582789 on, are not what this module is about.

`critical_multiplier` returns a percentage, 150 with the comment that it means one and a half times
the damage, and `calculate_damage` multiplies by it as it stands.  `within_iff` says when the damage
stays within what the formula allows: unless a critical hit is drawn, or nothing is left to multiply
when it is.
-/

set_option autoImplicit false

namespace ChwellCore
namespace Slg

/-- `General`, as its constructor leaves it. -/
structure General where
  generalId : UInt64 := 0
  name : Bytes := []
  rarity : ℤ := 1
  level : ℤ := 1
  force : ℤ := 50
  intelligence : ℤ := 50
  command : ℤ := 50
  charm : ℤ := 50
  speed : ℤ := 50
  skillId : ℤ := 0
  skillLevel : ℤ := 1

structure BattleConfig where
  maxRounds : ℤ := 8
  useSkills : Bool := true
  baseDamage : ℤ := 100
  forceRatio : ℚ := 2
  intelRatio : ℚ := 3 / 2

/-- What the generators yield in the course of one action: `rng_()` for the target, for the use of
the skill and for the factor, and `rand()` for the dodge and for the critical hit. -/
structure Draws where
  target : ℕ
  skill : ℕ
  factor : ℕ
  dodge : ℕ
  critical : ℕ

/-- `static_cast<int>` of a `double`: the fraction is dropped. -/
def toInt (x : ℚ) : ℤ := if 0 ≤ x then ⌊x⌋ else ⌈x⌉

namespace BattleFormula

def checkCritical (attackerForce defenderSpeed : ℤ) (rand : ℕ) : Bool :=
  let total := attackerForce + defenderSpeed
  if total ≤ 0 then false
  else (rand % 100 : ℕ) < (attackerForce * 30).tdiv total

def criticalMultiplier : ℤ := 150

def checkDodge (defenderSpeed attackerForce : ℤ) (rand : ℕ) : Bool :=
  let total := defenderSpeed + attackerForce
  if total ≤ 0 then false
  else (rand % 100 : ℕ) < (defenderSpeed * 20).tdiv total

end BattleFormula

namespace BattleSystem

variable (config : BattleConfig)

def calculateSkillDamage (attacker : General) (_skillId skillLevel : ℤ) : ℤ :=
  let baseSkillPower : ℤ := 50
  toInt ((attacker.intelligence * skillLevel : ℤ) * config.intelRatio * baseSkillPower / 100)

/-- `force_damage` in `calculate_damage`. -/
def forceDamage (attacker defender : General) : ℤ :=
  toInt ((attacker.force - defender.command.tdiv 2 : ℤ) * config.forceRatio)

/-- `intel_damage` in `calculate_damage`. -/
def intelDamage (attacker : General) (useSkill : Bool) : ℤ :=
  if useSkill then calculateSkillDamage config attacker attacker.skillId attacker.skillLevel else 0

/-- `random_factor` in `calculate_damage`. -/
def randomFactor (draw : ℕ) : ℚ := 8 / 10 + (draw % 41 : ℕ) / 100

def calculateDamage (attacker defender : General) (useSkill : Bool) (d : Draws) : ℤ :=
  let base := config.baseDamage
  let force := forceDamage config attacker defender
  let intel := intelDamage config attacker useSkill
  let total := toInt ((base + force + intel : ℤ) * randomFactor d.factor)
  let total := if BattleFormula.checkDodge defender.speed attacker.force d.dodge then
    toInt (total * (3 / 10)) else total
  let total := if BattleFormula.checkCritical attacker.force defender.speed d.critical then
    total * BattleFormula.criticalMultiplier else total
  max 1 total

end BattleSystem

/-! ## Dropping the fraction -/

/-- To be at least a positive number the fraction is not needed. -/
theorem le_toInt_iff {n : ℤ} (hn : 0 < n) (x : ℚ) : n ≤ toInt x ↔ (n : ℚ) ≤ x := by
  rw [toInt]
  split
  · exact Int.le_floor
  · next hx =>
    have hneg : x < 0 := lt_of_not_ge hx
    have hceil : ⌈x⌉ ≤ 0 := Int.ceil_le.2 (by exact_mod_cast hneg.le)
    have hpos : (0 : ℚ) < n := by exact_mod_cast hn
    refine iff_of_false (by omega) (by linarith)

/-- What is left is less than one away from it. -/
theorem lt_toInt_add_one (x : ℚ) : x < toInt x + 1 := by
  rw [toInt]
  split
  · exact Int.lt_floor_add_one x
  · linarith [Int.le_ceil x]

theorem toInt_le_max (x : ℚ) : (toInt x : ℚ) ≤ max 0 x := by
  rw [toInt]
  split
  · exact le_max_of_le_right (Int.floor_le x)
  · next hx =>
    refine le_max_of_le_left ?_
    have hceil : ⌈x⌉ ≤ 0 := Int.ceil_le.2 (by exact_mod_cast (lt_of_not_ge hx).le)
    exact_mod_cast hceil

namespace BattleSystem

variable (config : BattleConfig) (attacker defender : General) (useSkill : Bool) (d : Draws)

/-! ## The stages -/

theorem randomFactor_bounds (draw : ℕ) :
    8 / 10 ≤ randomFactor draw ∧ randomFactor draw ≤ 6 / 5 := by
  have hlt : draw % 41 ≤ 40 := Nat.le_of_lt_succ (Nat.mod_lt _ (by norm_num))
  have hcast : ((draw % 41 : ℕ) : ℚ) ≤ 40 := by exact_mod_cast hlt
  have hnonneg : (0 : ℚ) ≤ (draw % 41 : ℕ) := Nat.cast_nonneg _
  rw [randomFactor]
  constructor <;> linarith

/-- The sum of the three parts. -/
def raw : ℤ :=
  config.baseDamage + forceDamage config attacker defender + intelDamage config attacker useSkill

/-- A dodge is drawn. -/
def Dodged : Prop := BattleFormula.checkDodge defender.speed attacker.force d.dodge = true

/-- A critical hit is drawn. -/
def Critical : Prop := BattleFormula.checkCritical attacker.force defender.speed d.critical = true

instance : Decidable (Dodged attacker defender d) := inferInstanceAs (Decidable (_ = _))

instance : Decidable (Critical attacker defender d) := inferInstanceAs (Decidable (_ = _))

/-- The damage before the critical hit. -/
def dealt : ℤ :=
  let total := toInt (raw config attacker defender useSkill * randomFactor d.factor)
  if Dodged attacker defender d then toInt (total * (3 / 10)) else total

theorem calculateDamage_eq : calculateDamage config attacker defender useSkill d =
    max 1 (if Critical attacker defender d then dealt config attacker defender useSkill d * 150
      else dealt config attacker defender useSkill d) := rfl

/-- Every blow does some damage. -/
theorem one_le_calculateDamage : 1 ≤ calculateDamage config attacker defender useSkill d :=
  le_max_left _ _

/-- From how much on, in hundredths, a blow is felt before the critical hit. -/
def threshold : ℤ := if Dodged attacker defender d then 400 else 100

theorem one_le_dealt_iff :
    1 ≤ dealt config attacker defender useSkill d ↔
      threshold attacker defender d ≤
        raw config attacker defender useSkill * (80 + (d.factor % 41 : ℕ)) := by
  -- the first stage, in hundredths
  have hstage : ∀ n : ℤ, 0 < n →
      (n ≤ toInt (raw config attacker defender useSkill * randomFactor d.factor) ↔
        n * 100 ≤ raw config attacker defender useSkill * (80 + (d.factor % 41 : ℕ))) := by
    intro n hn
    rw [le_toInt_iff hn, randomFactor]
    generalize d.factor % 41 = k
    rw [← @Int.cast_le ℚ]
    push_cast
    constructor <;> intro h <;> linarith
  rw [dealt, threshold]
  split
  · -- of four, the dodge leaves one
    rw [le_toInt_iff one_pos, ← show (4 : ℤ) * 100 = 400 from rfl, ← hstage 4 (by norm_num),
      Int.cast_one]
    generalize toInt (raw config attacker defender useSkill * randomFactor d.factor) = total
    constructor
    · intro h
      have hlt : (3 : ℚ) < total := by linarith
      exact_mod_cast hlt
    · intro h
      have hle : (4 : ℚ) ≤ total := by exact_mod_cast h
      linarith
  · exact hstage 1 one_pos

/-- Before the critical hit the damage stays within the random factor. -/
theorem dealt_le :
    (dealt config attacker defender useSkill d : ℚ) ≤
      max (0 : ℚ) (6 / 5 * raw config attacker defender useSkill) := by
  obtain ⟨hlow, hhigh⟩ := randomFactor_bounds d.factor
  have hfactor : raw config attacker defender useSkill * randomFactor d.factor ≤
      max (0 : ℚ) (6 / 5 * (raw config attacker defender useSkill : ℚ)) := by
    rcases le_total 0 (raw config attacker defender useSkill : ℚ) with hraw | hraw
    · exact le_max_of_le_right (by nlinarith)
    · exact le_max_of_le_left (by nlinarith)
  have hstage : (toInt (raw config attacker defender useSkill * randomFactor d.factor) : ℚ) ≤
      max (0 : ℚ) (6 / 5 * raw config attacker defender useSkill) :=
    (toInt_le_max _).trans (max_le (le_max_left _ _) hfactor)
  rw [dealt]
  split
  · refine (toInt_le_max _).trans (max_le (le_max_left _ _) ?_)
    have hnonneg : (0 : ℚ) ≤ max (0 : ℚ) (6 / 5 * raw config attacker defender useSkill) :=
      le_max_left _ _
    linarith
  · exact hstage

/-- A blow that is felt has kept more than a tenth of what the three parts add up to. -/
theorem raw_lt_dealt (h : 1 ≤ dealt config attacker defender useSkill d) :
    (raw config attacker defender useSkill : ℚ) <
      10 * dealt config attacker defender useSkill d := by
  obtain ⟨hlow, -⟩ := randomFactor_bounds d.factor
  have hcast : (1 : ℚ) ≤ dealt config attacker defender useSkill d := by exact_mod_cast h
  rcases le_or_gt (raw config attacker defender useSkill : ℚ) 0 with hraw | hraw
  · linarith
  have hkept : 8 / 10 * (raw config attacker defender useSkill : ℚ) ≤
      raw config attacker defender useSkill * randomFactor d.factor := by nlinarith
  have hstage := lt_toInt_add_one (raw config attacker defender useSkill * randomFactor d.factor)
  rw [dealt] at hcast ⊢
  split
  · next hdodged =>
    rw [if_pos hdodged] at hcast
    have hrest := lt_toInt_add_one
      (toInt (raw config attacker defender useSkill * randomFactor d.factor) * (3 / 10))
    linarith
  · next hdodged =>
    rw [if_neg hdodged] at hcast
    linarith

/-! ## What the formula allows -/

/-- The damage is at least 1, and at most what the largest factor and a critical hit of one and a
half times the damage make of the three parts. -/
def Within : Prop :=
  1 ≤ calculateDamage config attacker defender useSkill d ∧
    (calculateDamage config attacker defender useSkill d : ℚ) ≤
      max (1 : ℚ) (6 / 5 * (3 / 2) * raw config attacker defender useSkill)

/-- **When the damage stays within the formula.**  For every configuration, attacker, defender and
skill flag and all draws: the damage is between 1 and what the formula allows if and only if no
critical hit is drawn, or the three parts with the random factor add up to less than 1, or to less
than 4 if a dodge is drawn as well. -/
theorem within_iff :
    Within config attacker defender useSkill d ↔
      ¬ Critical attacker defender d ∨
        raw config attacker defender useSkill * (80 + (d.factor % 41 : ℕ)) <
          threshold attacker defender d := by
  rw [← not_le, ← one_le_dealt_iff, Within, calculateDamage_eq]
  refine (and_iff_right (le_max_left _ _)).trans ?_
  by_cases hcritical : Critical attacker defender d
  · rw [if_pos hcritical, Int.cast_max, Int.cast_one]
    by_cases hfelt : 1 ≤ dealt config attacker defender useSkill d
    · refine iff_of_false (fun h ↦ ?_) (by tauto)
      -- one hundred and fifty times the damage
      have hraw := raw_lt_dealt config attacker defender useSkill d hfelt
      have hcast : (1 : ℚ) ≤ dealt config attacker defender useSkill d := by exact_mod_cast hfelt
      rcases le_max_iff.1 ((le_max_right _ _).trans h) with hone | hbound
      · push_cast at hone
        linarith
      · push_cast at hbound
        linarith
    · refine iff_of_true (max_le (le_max_left _ _) (le_max_of_le_left ?_)) (.inr hfelt)
      have hle : dealt config attacker defender useSkill d * 150 ≤ 1 := by omega
      exact_mod_cast hle
  · refine iff_of_true ?_ (.inl hcritical)
    rw [if_neg hcritical, Int.cast_max, Int.cast_one]
    refine max_le (le_max_left _ _) ((dealt_le config attacker defender useSkill d).trans ?_)
    rcases le_total 0 (raw config attacker defender useSkill : ℚ) with hraw | hraw
    · exact max_le_max zero_le_one (by linarith)
    · exact max_le (le_max_of_le_left zero_le_one) (le_max_of_le_left (by linarith))

/-- Two generals as the constructor leaves them.  The three parts add up to 150, of which the
critical hit makes 22500. -/
theorem not_forall_within :
    ¬ ∀ (config : BattleConfig) (attacker defender : General) (useSkill : Bool) (d : Draws),
      Within config attacker defender useSkill d := by
  intro h
  have hdamage : calculateDamage {} {} {} false ⟨0, 99, 20, 99, 0⟩ = 22500 := by decide +kernel
  have hraw : raw {} {} {} false = 150 := by decide +kernel
  have hbound := (h {} {} {} false ⟨0, 99, 20, 99, 0⟩).2
  rw [hdamage, hraw] at hbound
  norm_num at hbound

end BattleSystem
end Slg
end ChwellCore
