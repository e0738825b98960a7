import ChwellCore.Slg.MarchArithmetic
import ChwellCore.Slg.Stranded
import Mathlib.Algebra.Order.Ring.Abs

/-!
# Where a march is called back

`update_troops` works out where a troop is from where it set out, where it goes, and two times; the
position it had before is not among these.  `cancel_troop` changes where the troop goes to where it
set out, and leaves the rest.  From then on the way between the two has no length, so the next
`update_troops` puts the troop where it set out from, at any time.

A troop whose march has not yet taken it to another cell is there already, and `cancel_stays_iff`
says that this is the only case in which `cancel_troop` does not move it.
-/

set_option autoImplicit false

namespace ChwellCore
namespace Slg

namespace SlgMapManager

variable {scale : ℤ → ℤ → ℤ → Option ℤ} {config : SlgMapConfig} {m₀ m m₁ : SlgMapManager}
  {ops : List Op} {troop troop' : Troop} {id : UInt64} {t : ℤ}

/-! ## `update_troops` twice at the same time -/

/-- Where a troop is now does not matter to where it will be. -/
theorem interpolate_again (h : interpolate scale troop t = some troop') :
    interpolate scale troop' t = some troop' := by
  have h' := h
  obtain ⟨elapsed, helapsed, h⟩ := Option.bind_eq_some_iff.1 h
  obtain ⟨total, htotal, h⟩ := Option.bind_eq_some_iff.1 h
  split at h
  · next hpos =>
    obtain ⟨diffX, hdiffX, h⟩ := Option.bind_eq_some_iff.1 h
    obtain ⟨dx, hdx, h⟩ := Option.bind_eq_some_iff.1 h
    obtain ⟨x, hx, h⟩ := Option.bind_eq_some_iff.1 h
    obtain ⟨diffY, hdiffY, h⟩ := Option.bind_eq_some_iff.1 h
    obtain ⟨dy, hdy, h⟩ := Option.bind_eq_some_iff.1 h
    obtain ⟨y, hy, h⟩ := Option.bind_eq_some_iff.1 h
    obtain rfl := Option.some.inj h
    simp only [interpolate, Option.bind_eq_bind, helapsed, htotal, Option.bind_some, if_pos hpos,
      hdiffX, hdx, hx, hdiffY, hdy, hy]
  · obtain rfl := Option.some.inj h
    exact h'

/-- A march changes nothing about a troop but where it is. -/
theorem exists_eq_of_interpolate (h : interpolate scale troop t = some troop') :
    ∃ x y, troop' = { troop with currentX := x, currentY := y } := by
  rcases interpolate_cases h with ⟨-, rfl⟩ | ⟨-, dx, dy, -, -, rfl⟩
  · exact ⟨_, _, rfl⟩
  · exact ⟨_, _, rfl⟩

/-- What `update_troops` has updated, it can update again. -/
theorem canUpdate_again (hm : m.Tidy) (hupdate : m.updateTroops scale t = some m₁)
    (hid : m₁.troops.lookup id = some troop') : CanUpdate scale m₁ t troop' := by
  have hstep : troopStep scale m (.update t) = some m₁ := hupdate
  have hspec := troopStep_spec hm hstep
  rcases hold : m.troops.lookup id with _ | troop
  · obtain ⟨_, _, _, _, _, _, _, ho, -⟩ := hspec.new id troop' hold hid
    cases ho
  · obtain ⟨_, hid', hchange⟩ := hspec.old id troop hold
    obtain rfl := Option.some.inj (hid'.symm.trans hid)
    rcases hchange with - | - | - | - | - | ⟨_, hnot⟩ | ⟨_, _, -, -, harrive⟩ |
      ⟨_, _, -, ht, hmarch⟩
    · exact fun hmoving ↦ absurd hmoving hnot
    · intro hmoving
      rcases arrive_cases harrive with rfl | ⟨-, rfl | rfl⟩ <;> exact hmoving.elim nofun nofun
    · obtain ⟨x, y, hsame⟩ := exists_eq_of_interpolate hmarch
      refine fun _ ↦ ⟨fun hle ↦ ?_, fun _ ↦ ⟨_, interpolate_again hmarch⟩⟩
      rw [hsame] at hle
      exact absurd ht (Int.not_lt.2 hle)

/-! ## The troop that is called back -/

/-- A part of an offset is nothing while the part is small. -/
theorem tdiv_eq_zero_iff {diff elapsed total : ℤ} (h0 : 0 ≤ elapsed) (hpos : 0 < total) :
    (diff * elapsed).tdiv total = 0 ↔ |diff| * elapsed < total := by
  have hprod : |diff * elapsed| = |diff| * elapsed := by rw [abs_mul, abs_of_nonneg h0]
  rw [← hprod]
  constructor
  · intro h
    have hmod := Int.tmod_add_mul_tdiv (diff * elapsed) total
    rw [h, mul_zero, add_zero] at hmod
    rw [← hmod]
    exact abs_lt.2 ⟨Int.lt_tmod_of_pos _ hpos, Int.tmod_lt_of_pos _ hpos⟩
  · intro h
    rcases le_total 0 (diff * elapsed) with hsign | hsign
    · rw [abs_of_nonneg hsign] at h
      exact Int.tdiv_eq_zero_of_lt hsign h
    · rw [abs_of_nonpos hsign] at h
      rw [← neg_eq_zero, ← Int.neg_tdiv]
      exact Int.tdiv_eq_zero_of_lt (by omega) h

/-- On its way back a troop is where it set out from, at all times. -/
theorem interpolate_turnBack (hints : troop.Ints) (hpos : troop.startTime < troop.arriveTime)
    (hmarch : interpolate exactScale troop t = some troop') :
    interpolate exactScale (turnBack troop') t =
      some { turnBack troop' with currentX := troop'.fromX, currentY := troop'.fromY } := by
  obtain ⟨-, ⟨hx, hx'⟩, hy, hy'⟩ := hints
  obtain ⟨elapsed, helapsed, h⟩ := Option.bind_eq_some_iff.1 hmarch
  obtain ⟨total, htotal, -⟩ := Option.bind_eq_some_iff.1 h
  have hpos' : 0 < total := by
    obtain ⟨rfl, -⟩ := checked64_eq_some.1 htotal
    omega
  have hzero : exactScale 0 elapsed total = some 0 := by
    rw [exactScale, zero_mul, Int.zero_tdiv]
    rfl
  have hback : ∀ x y,
      interpolate exactScale (turnBack { troop with currentX := x, currentY := y }) t =
        some { turnBack { troop with currentX := x, currentY := y } with
          currentX := troop.fromX, currentY := troop.fromY } := by
    intro x y
    simp only [interpolate, turnBack, Option.bind_eq_bind, helapsed, htotal, Option.bind_some,
      if_pos hpos', sub_self, checked_of_mem (show -2147483648 ≤ (0 : ℤ) by decide) (by decide),
      hzero, add_zero, checked_of_mem hx hx', checked_of_mem hy hy']
  obtain ⟨x, y, rfl⟩ := exists_eq_of_interpolate hmarch
  exact hback x y

/-! ## Teleporting -/

/-- `cancel_troop` and another `update_troops` at the same time leave the troop where it is. -/
def Stays (m : SlgMapManager) (id : UInt64) (t : ℤ) : Prop :=
  ∃ m' troop troop', (m.cancelTroop id).2.updateTroops exactScale t = some m' ∧
    m.troops.lookup id = some troop ∧ m'.troops.lookup id = some troop' ∧
    troop'.currentX = troop.currentX ∧ troop'.currentY = troop.currentY

/-- The march has not left the cell from which the troop set out. -/
def NotYetOff (troop : Troop) (t : ℤ) : Prop :=
  |troop.toX - troop.fromX| * (t - troop.startTime) < troop.arriveTime - troop.startTime ∧
    |troop.toY - troop.fromY| * (t - troop.startTime) < troop.arriveTime - troop.startTime

instance (troop : Troop) (t : ℤ) : Decidable (NotYetOff troop t) :=
  inferInstanceAs (Decidable (_ ∧ _))

theorem tidy_watched_run {cb : Bool} (hinit : (new config cb).bind init = some m₀)
    (hrun : (system scale).Run m₀ ops m) : m.Tidy ∧ m.Watched := by
  obtain ⟨-, -, hnone⟩ := of_init hinit
  refine hrun.invariant (motive := fun m ↦ m.Tidy ∧ m.Watched) ?_ ⟨hnone.tidy, hnone.watched⟩
  rintro s o s' ⟨htidy, hwatched⟩ hstep
  rcases step_cases hstep with hsame | ⟨o', -, hstep⟩
  · exact ⟨htidy.of_sameTroops hsame, hwatched.of_aoi_eq hsame.aoi⟩
  · exact ⟨(troopStep_spec htidy hstep).tidy, hwatched.troopStep hstep⟩

/-- **One troop that is called back** is where it set out from at the next `update_troops`. -/
theorem update_cancel (hm : m.Tidy) (hw : m.Watched) (hid : m.troops.lookup id = some troop)
    (hstate : troop.state = .marching) (hints : troop.Ints) (hstart : troop.startTime ≤ t)
    (ht : t < troop.arriveTime) (hupdate : m.updateTroops exactScale t = some m₁) :
    ∃ m₂ troop₁ troop₂, interpolate exactScale troop t = some troop₁ ∧
      m₁.troops.lookup id = some troop₁ ∧
      (m₁.cancelTroop id).2.updateTroops exactScale t = some m₂ ∧
      m₂.troops.lookup id = some troop₂ ∧
      troop₂.currentX = troop.fromX ∧ troop₂.currentY = troop.fromY := by
  have hstep : troopStep exactScale m (.update t) = some m₁ := hupdate
  have hspec := troopStep_spec hm hstep
  obtain ⟨troop₁, hid₁, hchange⟩ := hspec.old id troop hid
  have hmarch : interpolate exactScale troop t = some troop₁ := by
    rcases hchange with - | - | - | - | - | ⟨_, hnot⟩ | ⟨_, _, -, hle, -⟩ | ⟨_, _, -, -, hmarch⟩
    · exact absurd (.inl hstate) hnot
    · exact absurd ht (Int.not_lt.2 hle)
    · exact hmarch
  have hback := interpolate_turnBack hints (hstart.trans_lt ht) hmarch
  obtain ⟨x, y, rfl⟩ := exists_eq_of_interpolate hmarch
  -- the manager after `cancel_troop`
  obtain ⟨mc, hmc⟩ : ∃ mc, mc = (m₁.cancelTroop id).2 := ⟨_, rfl⟩
  have hcancel : mc = { m₁ with
      troops := m₁.troops.insert id (turnBack { troop with currentX := x, currentY := y }) } := by
    rw [hmc, cancelTroop, hid₁]
    simp only [hstate, ne_eq, not_true_eq_false, if_false]
  have htidy : mc.Tidy := hmc ▸ (@cancelTroop_spec exactScale m₁ hspec.tidy id).tidy
  have hwatched : mc.Watched := by
    rw [hcancel]
    exact (hw.troopStep hstep).of_aoi_eq rfl
  have hlookup : ∀ j, mc.troops.lookup j = if j = id then
      some (turnBack { troop with currentX := x, currentY := y }) else m₁.troops.lookup j := by
    intro j
    rw [hcancel]
    exact UnorderedMap.lookup_insert_ite _ _ _ _
  obtain ⟨m₂, hupdate₂⟩ : ∃ m₂, mc.updateTroops exactScale t = some m₂ := by
    refine exists_updateTroops htidy hwatched fun j other hj hmoving ↦ ?_
    rw [hlookup] at hj
    split at hj
    · obtain rfl := Option.some.inj hj
      exact ⟨fun hle ↦ absurd ht (Int.not_lt.2 hle), fun _ ↦ ⟨_, hback⟩⟩
    · have hcan := canUpdate_again hm hupdate hj hmoving
      have harrive : mc.arrive other = m₁.arrive other :=
        arrive_congr (by rw [hcancel]) (by rw [hcancel])
      rwa [harrive]
  have hstep₂ : troopStep exactScale mc (.update t) = some m₂ := hupdate₂
  obtain ⟨troop₂, hid₂, hchange₂⟩ := (troopStep_spec htidy hstep₂).old id _
    ((hlookup id).trans (if_pos rfl))
  refine ⟨m₂, _, troop₂, hmarch, hid₁, hmc ▸ hupdate₂, hid₂, ?_⟩
  rcases hchange₂ with - | - | - | - | - | ⟨_, hnot⟩ | ⟨_, _, -, hle, -⟩ | ⟨_, _, -, -, hmarch₂⟩
  · exact absurd (.inr rfl) hnot
  · exact absurd ht (Int.not_lt.2 hle)
  · rw [hback, Option.some_inj] at hmarch₂
    rw [← hmarch₂]
    exact ⟨rfl, rfl⟩

/-- **When a march is called back without a jump.**  In every state that any operations come to from
an initialised map, for every troop that marches and every time of its march: after an
`update_troops` at that time, `cancel_troop` and another `update_troops` at the same time leave the
troop where it is if and only if it has not left the cell where it set out. -/
theorem cancel_stays_iff {cb : Bool} (hinit : (new config cb).bind init = some m₀)
    (hrun : (system exactScale).Run m₀ ops m) (hid : m.troops.lookup id = some troop)
    (hstate : troop.state = .marching) (hints : troop.Ints) (hstart : troop.startTime ≤ t)
    (ht : t < troop.arriveTime) (hupdate : m.updateTroops exactScale t = some m₁) :
    m₁.Stays id t ↔ NotYetOff troop t := by
  obtain ⟨htidy, hwatched⟩ := tidy_watched_run hinit hrun
  obtain ⟨m₂, troop₁, troop₂, hmarch, hid₁, hupdate₂, hid₂, hx, hy⟩ :=
    update_cancel htidy hwatched hid hstate hints hstart ht hupdate
  have hstays : m₁.Stays id t ↔ troop.fromX = troop₁.currentX ∧ troop.fromY = troop₁.currentY := by
    constructor
    · rintro ⟨_, _, _, hu, hi, hi', hx', hy'⟩
      obtain rfl := Option.some.inj (hu.symm.trans hupdate₂)
      obtain rfl := Option.some.inj (hi.symm.trans hid₁)
      obtain rfl := Option.some.inj (hi'.symm.trans hid₂)
      exact ⟨hx.symm.trans hx', hy.symm.trans hy'⟩
    · rintro ⟨hx', hy'⟩
      exact ⟨m₂, troop₁, troop₂, hupdate₂, hid₁, hid₂, hx.trans hx', hy.trans hy'⟩
  rw [hstays]
  rcases interpolate_cases hmarch with ⟨hle, -⟩ | ⟨hpos, dx, dy, hdx, hdy, rfl⟩
  · omega
  · obtain ⟨rfl, -⟩ := checked_eq_some.1 hdx
    obtain ⟨rfl, -⟩ := checked_eq_some.1 hdy
    have h0 : 0 ≤ t - troop.startTime := by omega
    rw [NotYetOff, ← tdiv_eq_zero_iff h0 hpos, ← tdiv_eq_zero_iff h0 hpos]
    simp only [left_eq_add]

/-- A troop that is called back after 5 of 66 milliseconds, on the first of eight cells. -/
theorem cancel_stays_iff_first_cell :
    ∃ m₀ m m₁ troop, (new ⟨8, 8⟩ true).bind init = some m₀ ∧
      (system exactScale).Run m₀
        [.troop (.create 7 0 0 10 5 0 0), .troop (.move 1 7 7 1000)] m ∧
      m.troops.lookup 1 = some troop ∧ m.updateTroops exactScale 1005 = some m₁ ∧
      (m₁.Stays 1 1005 ↔ NotYetOff troop 1005) ∧ NotYetOff troop 1005 := by
  obtain ⟨m₀, hinit, hany⟩ : ∃ m₀ ∈ (new ⟨8, 8⟩ true).bind init,
      ([Op.troop (.create 7 0 0 10 5 0 0), .troop (.move 1 7 7 1000)].foldlM (step exactScale)
        m₀).any (fun m ↦ decide ((∃ troop ∈ m.troops.lookup 1, troop.state = .marching ∧
          troop.Ints ∧ troop.startTime = 1000 ∧ troop.arriveTime = 1066 ∧ NotYetOff troop 1005) ∧
          (m.updateTroops exactScale 1005).isSome)) = true := by
    decide +kernel
  obtain ⟨m, hrun, ⟨troop, hid, hstate, hints, hstart, harrive, hoff⟩, hsome⟩ :=
    System.Run.exists_of_any hany
  obtain ⟨m₁, hupdate⟩ := Option.isSome_iff_exists.1 hsome
  exact ⟨m₀, m, m₁, troop, hinit, hrun, hid, hupdate,
    cancel_stays_iff hinit hrun hid hstate hints (by omega) (by omega) hupdate, hoff⟩

/-- A troop that is called back half way, from the cell (3, 3), and is at (0, 0) at once. -/
theorem not_forall_stays :
    ¬ ∀ (config : SlgMapConfig) (cb : Bool) (m₀ m m₁ : SlgMapManager) (ops : List Op) (id : UInt64)
      (troop : Troop) (t : ℤ), (new config cb).bind init = some m₀ →
        (system exactScale).Run m₀ ops m → m.troops.lookup id = some troop →
          troop.state = .marching → troop.Ints → troop.startTime ≤ t → t < troop.arriveTime →
            m.updateTroops exactScale t = some m₁ → m₁.Stays id t := by
  intro h
  obtain ⟨m₀, hinit, hany⟩ : ∃ m₀ ∈ (new ⟨8, 8⟩ true).bind init,
      ([Op.troop (.create 7 0 0 10 5 0 0), .troop (.move 1 7 7 1000)].foldlM (step exactScale)
        m₀).any (fun m ↦ decide ((∃ troop ∈ m.troops.lookup 1, troop.state = .marching ∧
          troop.Ints ∧ troop.startTime = 1000 ∧ troop.arriveTime = 1066) ∧
          ∃ m₁ ∈ m.updateTroops exactScale 1030,
            (∃ troop ∈ m₁.troops.lookup 1, troop.currentX = 3) ∧
            ∃ m₂ ∈ (m₁.cancelTroop 1).2.updateTroops exactScale 1030,
              ∃ troop ∈ m₂.troops.lookup 1, troop.currentX = 0)) = true := by
    decide +kernel
  obtain ⟨m, hrun, ⟨troop, hid, hstate, hints, hstart, harrive⟩, m₁, hupdate,
    ⟨troop₁, hid₁, hx₁⟩, m₂, hupdate₂, troop₂, hid₂, hx₂⟩ := System.Run.exists_of_any hany
  obtain ⟨_, _, _, hu, hi, hi', hx, -⟩ :=
    h _ _ m₀ m m₁ _ 1 troop 1030 hinit hrun hid hstate hints (by omega) (by omega) hupdate
  obtain rfl := Option.some.inj (hu.symm.trans hupdate₂)
  obtain rfl := Option.some.inj (hi.symm.trans hid₁)
  obtain rfl := Option.some.inj (hi'.symm.trans hid₂)
  omega

end SlgMapManager
end Slg
end ChwellCore
