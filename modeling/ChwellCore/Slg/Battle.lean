import ChwellCore.Core.Decimal
import ChwellCore.Lib.Attrition
import ChwellCore.Slg.Damage

/-!
# A battle

`BattleSystem::execute` lets the generals of the attacker act one after another, then those of the
defender, and so on for a number of rounds.  Each action takes its damage, or what is left, from the
other side, and the loops end as soon as one side has nothing left.

The two loops are one function here, `actions`, with the side as a parameter, and the two counters
are a function of the side.  A general picks its target by an index that is a random number modulo
the size of the other list, or modulo 1 if that list is empty; `none` stands for an index that is
out of range.  `isSome_execute_iff` says when that does not happen.

As far as the counters are concerned a battle is an attrition (`rounds_run`), and that the report
balances is a property of those (`execute_balances`).  Counters, losses and supplies are integers
here; a product that overflows an `int` in the source, such as the food that is lost, is left out,
as it is in `ChwellCore.Slg.Damage`.
-/

set_option autoImplicit false

namespace ChwellCore
namespace Slg

inductive Side where
  | attacker
  | defender
deriving DecidableEq

def Side.other : Side → Side
  | .attacker => .defender
  | .defender => .attacker

theorem Side.forall_iff (side : Side) {p : Side → Prop} : (∀ s, p s) ↔ p side.other ∧ p side := by
  refine ⟨fun h ↦ ⟨h _, h _⟩, fun h s ↦ ?_⟩
  cases side <;> cases s
  exacts [h.2, h.1, h.1, h.2]

/-- The arguments of `execute` that there are for each side. -/
structure Army where
  id : UInt64
  name : Bytes
  generals : List General
  troops : ℤ

/-- `BattleRound::Action`. -/
structure Action where
  attackerId : UInt64
  targetId : UInt64
  damage : ℤ
  skillId : ℤ
  isSkill : Bool
  desc : Bytes

structure BattleRound where
  round : ℤ
  attackerActions : List Action
  defenderActions : List Action
  attackerRemaining : ℤ
  defenderRemaining : ℤ

/-- `BattleReport::Result`. -/
inductive BattleResult where
  | attackerWin
  | defenderWin
  | draw
deriving DecidableEq

structure BattleReport where
  reportId : UInt64
  timestamp : Int64
  attackerId : UInt64
  attackerName : Bytes
  attackerGenerals : List General
  attackerInitial : ℤ
  attackerFinal : ℤ
  defenderId : UInt64
  defenderName : Bytes
  defenderGenerals : List General
  defenderInitial : ℤ
  defenderFinal : ℤ
  result : BattleResult
  rounds : List BattleRound
  foodLoss : ℤ
  woodLoss : ℤ
  stoneLoss : ℤ
  ironLoss : ℤ

namespace BattleRound

/-- The actions of a round, and whose they are. -/
def events (br : BattleRound) : List (Side × Action) :=
  br.attackerActions.map (.attacker, ·) ++ br.defenderActions.map (.defender, ·)

/-- What a side has left at the end of the round. -/
def remaining (br : BattleRound) : Side → ℤ
  | .attacker => br.attackerRemaining
  | .defender => br.defenderRemaining

end BattleRound

namespace BattleReport

def initial (r : BattleReport) : Side → ℤ
  | .attacker => r.attackerInitial
  | .defender => r.defenderInitial

def final (r : BattleReport) : Side → ℤ
  | .attacker => r.attackerFinal
  | .defender => r.defenderFinal

/-- All actions of the battle, in order. -/
def events (r : BattleReport) : List (Side × Action) := r.rounds.flatMap BattleRound.events

end BattleReport

namespace BattleSystem

/-- The bytes of a literal of the source. -/
def utf8 (s : String) : Bytes := s.toUTF8.data.toList

def generateActionDesc (attacker defender : General) (damage : ℤ) (isSkill : Bool) : Bytes :=
  attacker.name ++
    if isSkill then
      utf8 " 发动技能，对 " ++ defender.name ++ utf8 " 造成 " ++ toDec damage ++ utf8 " 点伤害！"
    else
      utf8 " 攻击 " ++ defender.name ++ utf8 "，造成 " ++ toDec damage ++ utf8 " 点伤害。"

/-- `target_idx`.  The size of the list is cast to an `int`. -/
def targetIdx (draw size : ℕ) : ℕ := draw % (max 1 ((size : ℤ).bmod (2 ^ 32))).toNat

variable (config : BattleConfig) (draws : ℕ → Draws)

/-- What one general does to its target, when so many are left on the other side. -/
def act (general target : General) (d : Draws) (remaining : ℤ) : Action :=
  let useSkill := config.useSkills && decide (d.skill % 100 < 30)
  let damage := calculateDamage config general target useSkill d
  let actualDamage := min damage remaining
  { attackerId := general.generalId, targetId := target.generalId, damage := actualDamage,
    skillId := if useSkill then general.skillId else 0, isSkill := useSkill,
    desc := generateActionDesc general target actualDamage useSkill }

/-- The action loop of one side, and the counters behind it.  `n` is the number of the next action
of the battle. -/
def actions (side : Side) (targets : List General) :
    List General → ℕ → (Side → ℤ) → Option (List Action × (Side → ℤ))
  | [], _, remaining => some ([], remaining)
  | general :: rest, n, remaining =>
    if remaining side.other ≤ 0 ∨ remaining side ≤ 0 then some ([], remaining)
    else do
      let target ← targets[targetIdx (draws n).target targets.length]?
      let action := act config general target (draws n) (remaining side.other)
      let remaining :=
        Function.update remaining side.other (remaining side.other - action.damage)
      let more ← actions side targets rest (n + 1) remaining
      some (action :: more.1, more.2)

variable (army : Side → Army)

/-- The part of the defender in a round. -/
def defence (n : ℕ) (remaining : Side → ℤ) : Option (List Action × (Side → ℤ)) :=
  if 0 < remaining .defender then
    actions config draws .defender (army .attacker).generals (army .defender).generals n remaining
  else some ([], remaining)

/-- The body of the loop over the rounds. -/
def battleRound (round : ℤ) (n : ℕ) (remaining : Side → ℤ) :
    Option (BattleRound × (Side → ℤ)) := do
  let a ← actions config draws .attacker (army .defender).generals (army .attacker).generals n
    remaining
  let d ← defence config draws army (n + a.1.length) a.2
  some (⟨round, a.1, d.1, d.2 .attacker, d.2 .defender⟩, d.2)

/-- The loop over the rounds, with the number of rounds that may still come. -/
def rounds : ℕ → ℤ → ℕ → (Side → ℤ) → Option (List BattleRound × (Side → ℤ))
  | 0, _, _, remaining => some ([], remaining)
  | left + 1, round, n, remaining => do
    let br ← battleRound config draws army round n remaining
    if br.2 .attacker ≤ 0 ∨ br.2 .defender ≤ 0 then some ([br.1], br.2)
    else do
      let more ← rounds left (round + 1)
        (n + br.1.attackerActions.length + br.1.defenderActions.length) br.2
      some (br.1 :: more.1, more.2)

def resultOf (attackerRemaining defenderRemaining : ℤ) : BattleResult :=
  if attackerRemaining > defenderRemaining then .attackerWin
  else if defenderRemaining > attackerRemaining then .defenderWin
  else .draw

/-- What `execute` makes of the outcome of the loop. -/
def report (now : ℤ) (rounds : List BattleRound) (remaining : Side → ℤ) : BattleReport :=
  let attackerLoss := (army .attacker).troops - remaining .attacker
  { reportId := .ofInt now, timestamp := (UInt64.ofInt now).toInt64,
    attackerId := (army .attacker).id, attackerName := (army .attacker).name,
    attackerGenerals := (army .attacker).generals, attackerInitial := (army .attacker).troops,
    attackerFinal := remaining .attacker,
    defenderId := (army .defender).id, defenderName := (army .defender).name,
    defenderGenerals := (army .defender).generals, defenderInitial := (army .defender).troops,
    defenderFinal := remaining .defender,
    result := resultOf (remaining .attacker) (remaining .defender), rounds,
    foodLoss := attackerLoss * 10, woodLoss := attackerLoss * 5, stoneLoss := attackerLoss * 3,
    ironLoss := attackerLoss * 2 }

/-- `execute`, at time `now`. -/
def execute (now : ℤ) : Option BattleReport := do
  let r ← rounds config draws army config.maxRounds.toNat 1 0 fun side ↦ (army side).troops
  some (report army now r.1 r.2)

variable {config} {draws} {army}

/-! ## A battle is an attrition -/

/-- An action is a blow at the other side. -/
def duel : System (Side → ℤ) (Side × Action) :=
  Attrition.system (fun e ↦ e.1.other) (fun e ↦ e.2.damage)

theorem going_iff (side : Side) (remaining : Side → ℤ) :
    (∀ s, 0 < remaining s) ↔ ¬ (remaining side.other ≤ 0 ∨ remaining side ≤ 0) := by
  rw [side.forall_iff, not_or, not_le, not_le]

/-- One action, if neither side is at zero. -/
theorem act_step {side : Side} {remaining : Side → ℤ} (h : ∀ s, 0 < remaining s)
    (general target : General) (d : Draws) :
    duel.step remaining (side, act config general target d (remaining side.other))
      (Function.update remaining side.other (remaining side.other -
        (act config general target d (remaining side.other)).damage)) :=
  ⟨h, ⟨le_min (one_le_calculateDamage ..) (h side.other), min_le_right _ _⟩, rfl⟩

theorem actions_run {side : Side} {targets generals : List General} {n : ℕ}
    {remaining : Side → ℤ} {r : List Action × (Side → ℤ)}
    (h : actions config draws side targets generals n remaining = some r) :
    duel.Run remaining (r.1.map (side, ·)) r.2 := by
  induction generals generalizing n remaining r with
  | nil =>
    cases h
    exact .nil
  | cons general rest ih =>
    rw [actions] at h
    split at h
    · cases h
      exact .nil
    · next hgoing =>
      obtain ⟨target, -, h⟩ := Option.bind_eq_some_iff.1 h
      obtain ⟨more, hmore, h⟩ := Option.bind_eq_some_iff.1 h
      cases h
      have hpos := (going_iff side remaining).2 hgoing
      exact .cons (act_step hpos general target (draws n)) (ih hmore)

theorem battleRound_run {round : ℤ} {n : ℕ} {remaining : Side → ℤ} {r : BattleRound × (Side → ℤ)}
    (h : battleRound config draws army round n remaining = some r) :
    duel.Run remaining r.1.events r.2 ∧ r.1.remaining = r.2 := by
  obtain ⟨a, ha, h⟩ := Option.bind_eq_some_iff.1 h
  obtain ⟨d, hd, h⟩ := Option.bind_eq_some_iff.1 h
  cases h
  refine ⟨(actions_run ha).append ?_, funext fun s ↦ by cases s <;> rfl⟩
  rw [defence] at hd
  split at hd
  · exact actions_run hd
  · cases hd
    exact .nil

/-- The whole battle, and each part of it up to the end of a round. -/
theorem rounds_run {left : ℕ} {round : ℤ} {n : ℕ} {remaining : Side → ℤ}
    {r : List BattleRound × (Side → ℤ)}
    (h : rounds config draws army left round n remaining = some r) :
    duel.Run remaining (r.1.flatMap BattleRound.events) r.2 ∧
      ∀ brs br rest, r.1 = brs ++ br :: rest →
        duel.Run remaining ((brs ++ [br]).flatMap BattleRound.events) br.remaining := by
  induction left generalizing round n remaining r with
  | zero =>
    cases h
    exact ⟨.nil, fun brs br rest hr ↦ by simp at hr⟩
  | succ left ih =>
    rw [rounds] at h
    obtain ⟨br, hbr, h⟩ := Option.bind_eq_some_iff.1 h
    obtain ⟨hrun, hremaining⟩ := battleRound_run hbr
    split at h
    · cases h
      refine ⟨by simpa using hrun, fun brs br' rest hr ↦ ?_⟩
      obtain ⟨rfl, rfl, rfl⟩ : brs = [] ∧ br' = br.1 ∧ rest = [] := by
        rcases brs with _ | ⟨_, _⟩ <;> simp_all
      rw [hremaining]
      simpa using hrun
    · obtain ⟨more, hmore, h⟩ := Option.bind_eq_some_iff.1 h
      cases h
      obtain ⟨hall, hpart⟩ := ih hmore
      refine ⟨by simpa using hrun.append hall, fun brs br' rest hr ↦ ?_⟩
      rcases brs with _ | ⟨first, brs⟩
      · obtain ⟨rfl, -⟩ := List.cons.inj hr
        rw [hremaining]
        simpa using hrun
      · obtain ⟨rfl, hrest⟩ := List.cons.inj hr
        simpa using hrun.append (hpart brs br' rest hrest)

theorem length_rounds_le {left : ℕ} {round : ℤ} {n : ℕ} {remaining : Side → ℤ}
    {r : List BattleRound × (Side → ℤ)}
    (h : rounds config draws army left round n remaining = some r) : r.1.length ≤ left := by
  induction left generalizing round n remaining r with
  | zero =>
    cases h
    exact le_rfl
  | succ left ih =>
    rw [rounds] at h
    obtain ⟨br, -, h⟩ := Option.bind_eq_some_iff.1 h
    split at h
    · cases h
      exact Nat.succ_le_succ (Nat.zero_le left)
    · obtain ⟨more, hmore, h⟩ := Option.bind_eq_some_iff.1 h
      cases h
      exact Nat.succ_le_succ (ih hmore)

/-! ## The targets -/

theorem targetIdx_lt (draw : ℕ) {size : ℕ} (h : 0 < size) : targetIdx draw size < size := by
  have hle : (size : ℤ).bmod (2 ^ 32) ≤ size := by
    rw [Int.bmod_def]
    split <;> omega
  have hpos : 0 < (max 1 ((size : ℤ).bmod (2 ^ 32))).toNat := by omega
  have hlt := Nat.mod_lt draw hpos
  rw [targetIdx]
  omega

theorem isSome_bind_iff {α β : Type} {x : Option α} {f : α → Option β} :
    (x.bind f).isSome = true ↔ ∃ a, x = some a ∧ (f a).isSome = true := by
  rw [Option.isSome_bind, Option.any_eq_true]

theorem isSome_bind_iff_left {α β : Type} {x : Option α} {f : α → Option β}
    (h : ∀ a, x = some a → (f a).isSome = true) : (x.bind f).isSome = true ↔ x.isSome = true := by
  rw [isSome_bind_iff, Option.isSome_iff_exists]
  exact exists_congr fun a ↦ and_iff_left_of_imp (h a)

theorem isSome_target_iff (draw : ℕ) (targets : List General) :
    (targets[targetIdx draw targets.length]?).isSome = true ↔ targets ≠ [] := by
  rw [← Option.ne_none_iff_isSome, Ne, List.getElem?_eq_none_iff, not_le]
  constructor
  · rintro hlt rfl
    exact absurd hlt (Nat.not_lt_zero _)
  · intro hne
    exact targetIdx_lt draw (List.length_pos_iff.2 hne)

/-- The loop gets by without an index out of range, unless it comes to an action without a target.
-/
theorem isSome_actions_iff (side : Side) (targets generals : List General) (n : ℕ)
    (remaining : Side → ℤ) :
    (actions config draws side targets generals n remaining).isSome = true ↔
      ((∀ s, 0 < remaining s) → generals ≠ [] → targets ≠ []) := by
  induction generals generalizing n remaining with
  | nil => exact iff_of_true rfl fun _ h ↦ absurd rfl h
  | cons general rest ih =>
    rw [actions]
    split
    · next hover =>
      exact iff_of_true rfl fun hgoing ↦ absurd hover ((going_iff side remaining).1 hgoing)
    · next hgoing =>
      rw [forall_prop_of_true ((going_iff side remaining).2 hgoing),
        forall_prop_of_true (List.cons_ne_nil _ _), ← isSome_target_iff (draws n).target targets]
      refine isSome_bind_iff_left fun target htarget ↦ ?_
      have hne : targets ≠ [] := by
        rw [← isSome_target_iff (draws n).target targets, htarget]
        rfl
      obtain ⟨more, hmore⟩ := Option.isSome_iff_exists.1 ((ih _ _).2 fun _ _ ↦ hne)
      exact isSome_bind_iff.2 ⟨more, hmore, rfl⟩

theorem isSome_defence_iff (n : ℕ) (remaining : Side → ℤ) :
    (defence config draws army n remaining).isSome = true ↔
      ((∀ s, 0 < remaining s) → (army .defender).generals ≠ [] →
        (army .attacker).generals ≠ []) := by
  rw [defence]
  split
  · exact isSome_actions_iff ..
  · next hover => exact iff_of_true rfl fun hgoing ↦ absurd (hgoing .defender) hover

theorem isSome_battleRound_iff (round : ℤ) (n : ℕ) (remaining : Side → ℤ) :
    (battleRound config draws army round n remaining).isSome = true ↔
      ((∀ s, 0 < remaining s) →
        ((army .attacker).generals = [] ↔ (army .defender).generals = [])) := by
  refine isSome_bind_iff.trans ⟨?_, fun h ↦ ?_⟩
  · rintro ⟨a, ha, hd⟩ hgoing
    refine ⟨fun hnil ↦ ?_, fun hnil ↦ ?_⟩
    · -- nobody has attacked, so the defender still stands as it did
      rw [hnil] at ha
      cases ha
      obtain ⟨d, hd, -⟩ := isSome_bind_iff.1 hd
      by_contra hne
      exact (isSome_defence_iff ..).1 (Option.isSome_iff_exists.2 ⟨d, hd⟩) hgoing hne hnil
    · by_contra hne
      exact (isSome_actions_iff ..).1 (Option.isSome_iff_exists.2 ⟨a, ha⟩) hgoing hne hnil
  · obtain ⟨a, ha⟩ := Option.isSome_iff_exists.1
      ((isSome_actions_iff .attacker (army .defender).generals (army .attacker).generals n
        remaining).2 fun hgoing hne hnil ↦ hne ((h hgoing).2 hnil))
    have hle : ∀ s, a.2 s ≤ remaining s := Attrition.run_le (actions_run ha)
    obtain ⟨d, hd⟩ := Option.isSome_iff_exists.1 ((isSome_defence_iff (n + a.1.length) a.2).2
      fun hgoing hne hnil ↦ hne ((h fun s ↦ (hgoing s).trans_le (hle s)).1 hnil))
    exact ⟨a, ha, isSome_bind_iff.2 ⟨d, hd, rfl⟩⟩

theorem isSome_rounds_iff (left : ℕ) (round : ℤ) (n : ℕ) (remaining : Side → ℤ) :
    (rounds config draws army left round n remaining).isSome = true ↔
      (0 < left → (∀ s, 0 < remaining s) →
        ((army .attacker).generals = [] ↔ (army .defender).generals = [])) := by
  induction left generalizing round n remaining with
  | zero => exact iff_of_true rfl fun h ↦ absurd h (Nat.lt_irrefl 0)
  | succ left ih =>
    rw [rounds, forall_prop_of_true (Nat.succ_pos left),
      ← isSome_battleRound_iff round n remaining]
    refine isSome_bind_iff_left fun br hbr ↦ ?_
    split
    · rfl
    · have hle : ∀ s, br.2 s ≤ remaining s := Attrition.run_le (battleRound_run hbr).1
      obtain ⟨more, hmore⟩ := Option.isSome_iff_exists.1 ((ih (round + 1)
        (n + br.1.attackerActions.length + br.1.defenderActions.length) br.2).2
        fun _ hgoing ↦ (isSome_battleRound_iff round n remaining).1
          (Option.isSome_iff_exists.2 ⟨br, hbr⟩) fun s ↦ (hgoing s).trans_le (hle s))
      exact isSome_bind_iff.2 ⟨more, hmore, rfl⟩

theorem isSome_execute (now : ℤ) :
    (execute config draws army now).isSome = true ↔
      (0 < config.maxRounds → (∀ s, 0 < (army s).troops) →
        ((army .attacker).generals = [] ↔ (army .defender).generals = [])) := by
  refine (isSome_bind_iff_left fun _ _ ↦ rfl).trans ?_
  rw [isSome_rounds_iff, Int.lt_toNat, Nat.cast_zero]

/-- **When the targets exist.**  For all lists of generals, all numbers of troops, all
configurations and all draws: `execute` gets by without an index out of range if and only if there
is no round, or a side has no troops to begin with, or both lists of generals are empty, or
neither. -/
theorem isSome_execute_iff (config : BattleConfig) (draws : ℕ → Draws) (army : Side → Army)
    (now : ℤ) :
    (execute config draws army now).isSome = true ↔
      (config.maxRounds ≤ 0 ∨ (∃ s, (army s).troops ≤ 0) ∨
        ((army .attacker).generals = [] ↔ (army .defender).generals = [])) := by
  rw [isSome_execute, ← not_lt, ← imp_iff_not_or, ← not_forall_not, ← imp_iff_not_or]
  simp only [not_le]

/-- One general, and nobody to attack. -/
theorem not_forall_isSome_execute :
    ¬ ∀ (config : BattleConfig) (draws : ℕ → Draws) (army : Side → Army) (now : ℤ),
      (execute config draws army now).isSome = true := by
  intro h
  have hempty := (isSome_execute 0).1 (h {} (fun _ ↦ ⟨0, 0, 0, 0, 0⟩)
    (fun s ↦ if s = .attacker then ⟨1, [], [{}], 1000⟩ else ⟨2, [], [], 1000⟩) 0)
  have hnil := (hempty (by decide) (by intro s; cases s <;> decide)).2 rfl
  exact List.cons_ne_nil _ _ hnil

/-! ## The report -/

/-- What the actions have taken from one side. -/
def lost (side : Side) (es : List (Side × Action)) : ℤ :=
  Attrition.taken (fun e ↦ e.1.other) (fun e ↦ e.2.damage) side es

/-- What is expected of the report of a battle.  The count of a side, at any moment, is what it had
initially less what the actions before that moment have taken from it. -/
structure Balances (config : BattleConfig) (army : Side → Army) (r : BattleReport) : Prop where
  initial_eq : ∀ side, r.initial side = (army side).troops
  final_eq : ∀ side, r.final side = r.initial side - lost side r.events
  final_range : ∀ side, 0 ≤ r.final side ∧ r.final side ≤ r.initial side
  /-- At the end of each round the counts are written down. -/
  running : ∀ brs br rest, r.rounds = brs ++ br :: rest → ∀ side,
    br.remaining side = r.initial side - lost side ((brs ++ [br]).flatMap BattleRound.events)
  decreasing : ∀ side, (r.initial side :: r.rounds.map (·.remaining side)).IsChain (· ≥ ·)
  damage : ∀ e ∈ r.events, 1 ≤ e.2.damage
  /-- At the time of an action neither side is at zero. -/
  alive : ∀ es e rest, r.events = es ++ e :: rest → ∀ side, 0 < r.initial side - lost side es
  length_le : (r.rounds.length : ℤ) ≤ max 0 config.maxRounds
  attackerWin : r.result = .attackerWin ↔ r.final .defender < r.final .attacker
  defenderWin : r.result = .defenderWin ↔ r.final .attacker < r.final .defender
  draw : r.result = .draw ↔ r.final .attacker = r.final .defender

theorem rounds_isChain {left : ℕ} {round : ℤ} {n : ℕ} {remaining : Side → ℤ}
    {r : List BattleRound × (Side → ℤ)}
    (h : rounds config draws army left round n remaining = some r) (side : Side) :
    (remaining side :: r.1.map (·.remaining side)).IsChain (· ≥ ·) := by
  induction left generalizing round n remaining r with
  | zero =>
    cases h
    exact .singleton _
  | succ left ih =>
    rw [rounds] at h
    obtain ⟨br, hbr, h⟩ := Option.bind_eq_some_iff.1 h
    obtain ⟨hrun, hremaining⟩ := battleRound_run hbr
    have hle : br.2 side ≤ remaining side := Attrition.run_le hrun side
    split at h
    · cases h
      rw [List.map_cons, hremaining]
      exact .cons_cons hle (.singleton _)
    · obtain ⟨more, hmore, h⟩ := Option.bind_eq_some_iff.1 h
      cases h
      rw [List.map_cons, hremaining]
      exact .cons_cons hle (ih hmore)

theorem resultOf_iff (a d : ℤ) :
    (resultOf a d = .attackerWin ↔ d < a) ∧ (resultOf a d = .defenderWin ↔ a < d) ∧
      (resultOf a d = .draw ↔ a = d) := by
  rw [resultOf]
  split
  · next h => exact ⟨by simpa using h, by simpa using h.le, by simpa using h.ne'⟩
  · split
    · next h => exact ⟨by simpa using h.le, by simpa using h, by simpa using h.ne⟩
    · next hle hge =>
      have heq : a = d := le_antisymm (not_lt.1 hle) (not_lt.1 hge)
      subst heq
      simp

/-- Whatever is reported, balances. -/
theorem balances_of_execute {now : ℤ} {r : BattleReport}
    (htroops : ∀ side, 0 ≤ (army side).troops) (h : execute config draws army now = some r) :
    Balances config army r := by
  obtain ⟨⟨brs, final⟩, hrounds, hr⟩ := Option.bind_eq_some_iff.1 h
  cases hr
  have hinitial : (report army now brs final).initial = fun side ↦ (army side).troops :=
    funext fun side ↦ by cases side <;> rfl
  have hfinal : (report army now brs final).final = final :=
    funext fun side ↦ by cases side <;> rfl
  obtain ⟨hrun, hpart⟩ := rounds_run hrounds
  have hblow : ∀ es e rest, (report army now brs final).events = es ++ e :: rest →
      (∀ side, 0 < (army side).troops - lost side es) ∧ 1 ≤ e.2.damage := by
    intro es e rest hsplit
    rw [BattleReport.events, report] at hsplit
    rw [hsplit] at hrun
    exact Attrition.run_blow hrun
  obtain ⟨hattacker, hdefender, hdraw⟩ := resultOf_iff (final .attacker) (final .defender)
  refine ⟨fun side ↦ congrFun hinitial side, fun side ↦ ?_, fun side ↦ ?_, ?_, ?_, ?_, ?_, ?_,
    hattacker, hdefender, hdraw⟩
  · rw [hinitial, hfinal]
    exact Attrition.run_balance hrun side
  · rw [hinitial, hfinal]
    exact ⟨Attrition.run_nonneg hrun htroops side, Attrition.run_le hrun side⟩
  · intro brs' br rest hsplit side
    rw [hinitial]
    exact Attrition.run_balance (hpart brs' br rest hsplit) side
  · intro side
    rw [hinitial]
    exact rounds_isChain hrounds side
  · intro e he
    obtain ⟨es, rest, hsplit⟩ := List.append_of_mem he
    exact (hblow es e rest hsplit).2
  · intro es e rest hsplit
    rw [hinitial]
    exact (hblow es e rest hsplit).1
  · have hle : brs.length ≤ config.maxRounds.toNat := length_rounds_le hrounds
    show (brs.length : ℤ) ≤ max 0 config.maxRounds
    omega

/-- **Battle reports balance.**  For all non-empty lists of generals, all numbers of troops that are
not negative, all configurations and all draws, `execute` yields a report, and in it each side ends
with what it had less what the recorded actions have taken from it, within its bounds, at the end
of each round as at the end of the battle; every action takes something, and none is taken for or
against a side that is at zero; there are no more rounds than configured; and the result is a win
for the side with more troops left. -/
theorem execute_balances (config : BattleConfig) (draws : ℕ → Draws) (army : Side → Army) (now : ℤ)
    (hgenerals : ∀ side, (army side).generals ≠ [])
    (htroops : ∀ side, 0 ≤ (army side).troops) :
    ∃ r, execute config draws army now = some r ∧ Balances config army r := by
  have hsome : (execute config draws army now).isSome = true :=
    (isSome_execute now).2 fun _ _ ↦ iff_of_false (hgenerals .attacker) (hgenerals .defender)
  obtain ⟨r, hr⟩ := Option.isSome_iff_exists.1 hsome
  exact ⟨r, hr, balances_of_execute htroops hr⟩

/-- One general on each side, and ten troops against a hundred thousand. -/
theorem execute_balances_few :
    ∃ r, execute {} (fun _ ↦ ⟨0, 99, 20, 99, 99⟩)
        (fun s ↦ if s = .attacker then ⟨1, [], [{}], 10⟩ else ⟨2, [], [{}], 100000⟩) 0 = some r ∧
      Balances {} (fun s ↦ if s = .attacker then ⟨1, [], [{}], 10⟩ else ⟨2, [], [{}], 100000⟩) r :=
  execute_balances _ _ _ _ (fun s ↦ by cases s <;> exact List.cons_ne_nil _ _)
    (fun s ↦ by cases s <;> decide)

end BattleSystem
end Slg
end ChwellCore
