import ChwellCore.Slg.Watchers

/-!
# Marching and arriving

`move_troop` takes any two integers for the destination of a troop, and `update_troops` uses them
for an index when the march ends.  `cells_in_bounds_iff` says when that is a cell of the map, and
the right one: exactly if no troop was sent off the map.

Where a troop is in each of its states is `Troop.Ok`.  A march is computed in exact rationals here
(`exactScale`), which is what `double`s stand for.
-/

set_option autoImplicit false

namespace ChwellCore
namespace Slg

open CellGrid

namespace SlgMapManager

variable {scale : ℤ → ℤ → ℤ → Option ℤ} {config : SlgMapConfig} {m₀ m m' : SlgMapManager}
  {ops : List TroopOp} {troop troop' : Troop} {x y : ℤ}

/-! ## The cell of the destination -/

/-- The index computed for `(x, y)` is within bounds, and is that of the cell at `(x, y)`. -/
def HitsCell (m : SlgMapManager) (x y : ℤ) : Prop :=
  ∃ i : ℕ, m.cellIndex x y = some (i : ℤ) ∧ (i : ℤ) ≤ m.config.width * m.config.height - 1 ∧
    ∃ cell, m.cells[i]? = some cell ∧ cell.x = x ∧ cell.y = y

/-- Whenever `update_troops` is called now, all indices that it uses into `cells_` are within bounds
and are those of the destinations. -/
def InBounds (m : SlgMapManager) : Prop :=
  ∀ t id troop, m.troops.lookup id = some troop → troop.state = .marching →
    troop.arriveTime ≤ t → m.HitsCell troop.toX troop.toY

/-- A `move_troop` that is accepted names a destination on the map. -/
def OnMap (m : SlgMapManager) : TroopOp → Prop
  | .move id x y _ => ∀ troop ∈ m.troops.lookup id, troop.state = .idle → m.isValidPos x y
  | _ => True

instance (m : SlgMapManager) : ∀ o, Decidable (m.OnMap o)
  | .move id x y _ =>
    inferInstanceAs (Decidable (∀ troop ∈ m.troops.lookup id, troop.state = .idle →
      m.isValidPos x y))
  | .create .. | .cancel _ | .update _ => .isTrue trivial

theorem hitsCell_iff (hm : m.Placed) (hw : 1 ≤ m.config.width) (hh : 1 ≤ m.config.height) :
    m.HitsCell x y ↔ m.isValidPos x y := by
  constructor
  · rintro ⟨i, -, -, cell, hcell, rfl, rfl⟩
    exact (hm.placed hw hh i cell hcell).1
  · intro hpos
    obtain ⟨cell, hcell⟩ := hm.exists_cellAt hpos
    obtain ⟨i, hidx, hget⟩ := cellAt_eq_some hcell
    obtain ⟨-, hx, hy⟩ := (hm.cellAt_iff hpos).1 hcell
    have hlt := (List.getElem?_eq_some_iff.1 hget).1
    have hlength := hm.length_cells
    exact ⟨i, hidx, by omega, cell, hget, hx, hy⟩

theorem Placed.of_frame (hm : m.Placed) (hframe : Frame m m') : m'.Placed := by
  refine ⟨hm.toSized.of_frame hframe, ?_⟩
  simp only [isValidPos, hframe.config, hframe.cells]
  exact hm.placed

/-- Whoever marches does so to a cell of the map. -/
theorem inBounds_iff (hm : m.Placed) (hw : 1 ≤ m.config.width) (hh : 1 ≤ m.config.height) :
    m.InBounds ↔ ∀ id troop, m.troops.lookup id = some troop → troop.state = .marching →
      m.isValidPos troop.toX troop.toY := by
  constructor
  · intro h id troop hid hstate
    exact (hitsCell_iff hm hw hh).1 (h _ id troop hid hstate le_rfl)
  · intro h t id troop hid hstate _
    exact (hitsCell_iff hm hw hh).2 (h id troop hid hstate)

/-- A change that leaves a troop marching, which was not before, is one that sent it off. -/
theorem Change.marching {id : UInt64} {o : TroopOp} (h : Change scale m id troop o troop')
    (hstate : troop'.state = .marching) :
    (troop.state = .marching ∧ troop'.toX = troop.toX ∧ troop'.toY = troop.toY) ∨
      troop.state = .idle ∧ ∃ x y now, o = .move id x y now ∧ troop'.toX = x ∧ troop'.toY = y := by
  rcases h with _ | _ | ⟨x, y, now, _, hidle, hsend⟩ | _ | - | _ | ⟨t, _, -, -, harrive⟩ |
    ⟨t, _, -, -, hinterpolate⟩
  · exact .inl ⟨hstate, rfl, rfl⟩
  · exact .inl ⟨hstate, rfl, rfl⟩
  · obtain ⟨speed, marchTime, -, -, -, rfl⟩ := sendOff_eq_some hsend
    exact .inr ⟨hidle, x, y, now, rfl, rfl, rfl⟩
  · exact .inl ⟨hstate, rfl, rfl⟩
  · cases hstate
  · exact .inl ⟨hstate, rfl, rfl⟩
  · rcases arrive_cases harrive with rfl | ⟨-, rfl | rfl⟩ <;> cases hstate
  · rcases interpolate_cases hinterpolate with ⟨-, rfl⟩ | ⟨-, dx, dy, -, -, rfl⟩ <;>
      exact .inl ⟨hstate, rfl, rfl⟩

/-- **One step**: the indices stay in bounds just when no troop is sent off the map. -/
theorem inBounds_step_iff (hm : m.Placed) (hw : 1 ≤ m.config.width) (hh : 1 ≤ m.config.height)
    (htidy : m.Tidy) (hin : m.InBounds) {o : TroopOp} (hstep : troopStep scale m o = some m') :
    m'.InBounds ↔ m.OnMap o := by
  have hspec := troopStep_spec htidy hstep
  have hconfig := hspec.frame.config
  rw [inBounds_iff (hm.of_frame hspec.frame) (hconfig ▸ hw) (hconfig ▸ hh)]
  rw [inBounds_iff hm hw hh] at hin
  simp only [isValidPos_congr hconfig]
  constructor
  · intro h
    rcases o with _ | ⟨id, x, y, now⟩ | _ | _
    · trivial
    · intro troop hid hidle
      obtain ⟨troop', hid', hchange⟩ := hspec.old id troop hid
      rcases hchange with - | ⟨_, _, _, _, hnot⟩ | ⟨_, _, _, _, -, hsend⟩
      · exact absurd hidle (hnot rfl)
      · obtain ⟨speed, marchTime, -, -, -, rfl⟩ := sendOff_eq_some hsend
        exact h id _ hid' rfl
    · trivial
    · trivial
  · intro hg id troop' hid' hstate
    rcases hid : m.troops.lookup id with _ | troop
    · obtain ⟨_, _, _, _, _, _, _, -, rfl⟩ := hspec.new id troop' hid hid'
      cases hstate
    · obtain ⟨troop'', hid'', hchange⟩ := hspec.old id troop hid
      obtain rfl := Option.some.inj (hid''.symm.trans hid')
      rcases hchange.marching hstate with ⟨hm', hx, hy⟩ | ⟨hidle, x, y, now, rfl, hx, hy⟩
      · rw [hx, hy]
        exact hin id troop hid hm'
      · rw [hx, hy]
        exact hg troop hid hidle

/-- **When the cells are accessed in bounds.**  For every size of at least one cell and every run
after `init`: in all states that it comes to, the indices that `update_troops` uses are within
bounds and those of the destinations, if and only if every `move_troop` of the run that is accepted
names a destination on the map. -/
theorem cells_in_bounds_iff (hw : 1 ≤ config.width) (hh : 1 ≤ config.height) {cb : Bool}
    (hinit : (new config cb).bind init = some m₀) (hrun : (troopSystem scale).Run m₀ ops m) :
    (troopSystem scale).Along (fun _ _ m' ↦ m'.InBounds) m₀ ops ↔
      ((troopSystem scale).guarded OnMap).Run m₀ ops m := by
  obtain ⟨hconfig, hplaced, hnone⟩ := of_init hinit
  refine System.along_iff
    (P := fun m ↦ Frame m₀ m ∧ m.Tidy ∧ m.InBounds) ?_ ?_ ⟨.refl m₀, hnone.tidy, ?_⟩ hrun
  · rintro s o s' ⟨hframe, htidy, hin⟩ hstep
    have hcs : s.config = config := hframe.config.trans hconfig
    exact inBounds_step_iff (hplaced.of_frame hframe) (hcs ▸ hw) (hcs ▸ hh) htidy hin hstep
  · rintro s o s' ⟨hframe, htidy, -⟩ hstep hin'
    have hspec := troopStep_spec htidy hstep
    exact ⟨hframe.trans hspec.frame, hspec.tidy, hin'⟩
  · exact fun t id troop hid ↦ absurd hid (hnone.not_stored id troop)

/-- A march to the corner of a small map. -/
theorem cells_in_bounds_corner :
    ∃ m₀ m, (new ⟨8, 8⟩ true).bind init = some m₀ ∧
      (troopSystem fun d e t ↦ checked ((d * e).tdiv t)).Run m₀
        [.create 7 0 0 10 5 0 0, .move 1 7 7 1000, .update 2000] m ∧
      (troopSystem fun d e t ↦ checked ((d * e).tdiv t)).Along (fun _ _ m' ↦ m'.InBounds) m₀
        [.create 7 0 0 10 5 0 0, .move 1 7 7 1000, .update 2000] := by
  obtain ⟨m₀, hinit, hany⟩ : ∃ m₀ ∈ (new ⟨8, 8⟩ true).bind init,
      ([TroopOp.create 7 0 0 10 5 0 0, .move 1 7 7 1000, .update 2000].foldlM
        (fun (s : SlgMapManager) o ↦
          if s.OnMap o then troopStep (fun d e t ↦ checked ((d * e).tdiv t)) s o else none) m₀).any
        (fun _ ↦ decide True) = true := by
    decide +kernel
  obtain ⟨m, hrun, -⟩ := System.Run.exists_of_any_guarded hany
  exact ⟨m₀, m, hinit, hrun.of_guarded,
    (cells_in_bounds_iff (by decide) (by decide) hinit hrun.of_guarded).2 hrun⟩

/-- A march off the map: the index of its destination is past the end of the cells. -/
theorem cells_out_of_bounds :
    ¬ ∀ (scale : ℤ → ℤ → ℤ → Option ℤ) (config : SlgMapConfig) (cb : Bool)
      (m₀ m : SlgMapManager) (ops : List TroopOp), 1 ≤ config.width → 1 ≤ config.height →
        (new config cb).bind init = some m₀ → (troopSystem scale).Run m₀ ops m → m.InBounds := by
  intro h
  obtain ⟨m₀, hinit, hany⟩ : ∃ m₀ ∈ (new ⟨8, 8⟩ true).bind init,
      ([TroopOp.create 7 0 0 10 5 0 0, .move 1 9 9 1000].foldlM
        (troopStep fun _ _ _ ↦ none) m₀).any (fun m ↦ decide (m.config = ⟨8, 8⟩ ∧
          ∃ troop ∈ m.troops.lookup 1, troop.state = .marching ∧
            m.cellIndex troop.toX troop.toY = some 81)) = true := by
    decide +kernel
  obtain ⟨m, hrun, hconfig, troop, hid, hstate, hidx⟩ := System.Run.exists_of_any hany
  obtain ⟨i, hi, hle, -⟩ :=
    h _ ⟨8, 8⟩ true m₀ m _ (by decide) (by decide) hinit hrun _ 1 troop hid hstate le_rfl
  rw [hidx, Option.some_inj] at hi
  rw [hconfig] at hle
  simp only at hle
  omega

end SlgMapManager

/-! ## Where a troop is in each state -/

/-- `c` is on the way from `a` to `b`. -/
def Between (a b c : ℤ) : Prop := min a b ≤ c ∧ c ≤ max a b

/-- Where a troop is in each of its states. -/
structure Troop.Ok (troop : Troop) : Prop where
  idle : troop.state = .idle → troop.currentX = troop.fromX ∧ troop.currentY = troop.fromY
  marching : troop.state = .marching →
    Between troop.fromX troop.toX troop.currentX ∧ Between troop.fromY troop.toY troop.currentY
  returning : troop.state = .returning → troop.toX = troop.fromX ∧ troop.toY = troop.fromY
  arrived : troop.state = .gathering ∨ troop.state = .battle →
    troop.currentX = troop.toX ∧ troop.currentY = troop.toY

/-- `static_cast<int>(diff * progress)` with the progress as a fraction. -/
def exactScale (diff elapsed total : ℤ) : Option ℤ := checked ((diff * elapsed).tdiv total)

/-- A part of an offset is an offset on the way. -/
theorem tdiv_between (diff : ℤ) {elapsed total : ℤ} (h0 : 0 ≤ elapsed) (hlt : elapsed < total) :
    Between 0 diff ((diff * elapsed).tdiv total) := by
  have hpos : 0 < total := by omega
  have hnonneg : ∀ d : ℤ, 0 ≤ d → 0 ≤ (d * elapsed).tdiv total ∧ (d * elapsed).tdiv total ≤ d := by
    intro d hd
    have hmul : 0 ≤ d * elapsed := mul_nonneg hd h0
    rw [Int.tdiv_eq_ediv_of_nonneg hmul]
    refine ⟨Int.ediv_nonneg hmul hpos.le, Int.ediv_le_of_le_mul hpos ?_⟩
    exact mul_le_mul_of_nonneg_left hlt.le hd
  rcases le_total 0 diff with hd | hd
  · obtain ⟨h1, h2⟩ := hnonneg diff hd
    exact ⟨by omega, by omega⟩
  · obtain ⟨h1, h2⟩ := hnonneg (-diff) (by omega)
    rw [neg_mul, Int.neg_tdiv] at h1 h2
    exact ⟨by omega, by omega⟩

theorem between_exactScale {a b elapsed total d : ℤ} (h0 : 0 ≤ elapsed) (hlt : elapsed < total)
    (h : exactScale (b - a) elapsed total = some d) : Between a b (a + d) := by
  obtain ⟨rfl, -⟩ := checked_eq_some.1 h
  obtain ⟨h1, h2⟩ := tdiv_between (b - a) h0 hlt
  exact ⟨by omega, by omega⟩

namespace SlgMapManager

variable {m₀ m m' : SlgMapManager} {ops : List TroopOp} {troop troop' : Troop} {x y : ℤ}

/-- The coordinates given are on the map, and `update_troops` is not called with a time before one
at which a troop under way set out. -/
def Apt (m : SlgMapManager) : TroopOp → Prop
  | .create _ x y _ _ _ _ => m.isValidPos x y
  | .move _ x y _ => m.isValidPos x y
  | .cancel _ => True
  | .update t => ∀ id troop, m.troops.lookup id = some troop → troop.Moving → troop.startTime ≤ t

instance (m : SlgMapManager) : ∀ o, Decidable (m.Apt o)
  | .create _ x y .. | .move _ x y _ => inferInstanceAs (Decidable (m.isValidPos x y))
  | .cancel _ => .isTrue trivial
  | .update t => inferInstanceAs (Decidable (∀ id troop, m.troops.lookup id = some troop →
      troop.Moving → troop.startTime ≤ t))

theorem Change.ok {id : UInt64} {o : TroopOp} (h : Change exactScale m id troop o troop')
    (hid : m.troops.lookup id = some troop) (hg : m.Apt o) (hok : troop.Ok) : troop'.Ok := by
  rcases h with _ | _ | ⟨x, y, now, _, hidle, hsend⟩ | _ | hmarching | _ |
    ⟨t, _, -, -, harrive⟩ | ⟨t, _, hmoving, ht, hinterpolate⟩
  · exact hok
  · exact hok
  · obtain ⟨speed, marchTime, -, -, -, rfl⟩ := sendOff_eq_some hsend
    obtain ⟨hx, hy⟩ := hok.idle hidle
    refine ⟨nofun, fun _ ↦ ?_, nofun, nofun⟩
    simp only [Between, hx, hy]
    omega
  · exact hok
  · exact ⟨nofun, nofun, fun _ ↦ ⟨rfl, rfl⟩, nofun⟩
  · exact hok
  · rcases arrive_cases harrive with rfl | ⟨-, rfl | rfl⟩
    · exact ⟨fun _ ↦ ⟨rfl, rfl⟩, nofun, nofun, nofun⟩
    · exact ⟨nofun, nofun, nofun, fun _ ↦ ⟨rfl, rfl⟩⟩
    · exact ⟨nofun, nofun, nofun, fun _ ↦ ⟨rfl, rfl⟩⟩
  · rcases interpolate_cases hinterpolate with ⟨-, rfl⟩ | ⟨hpos, dx, dy, hdx, hdy, rfl⟩
    · exact hok
    · have hstart := hg id troop hid hmoving
      refine ⟨fun hidle ↦ ?_, fun _ ↦ ?_, hok.returning, fun harrived ↦ ?_⟩
      · rcases hmoving with hm | hm <;> rw [hm] at hidle <;> cases hidle
      · exact ⟨between_exactScale (by omega) (by omega) hdx,
          between_exactScale (by omega) (by omega) hdy⟩
      · rcases harrived with ha | ha <;> rcases hmoving with hm | hm <;> rw [hm] at ha <;> cases ha

/-! ## `update_troops` is defined -/

/-- A march takes less than 25 days. -/
theorem calculateMarchTime_le {fromX fromY toX toY speed time : ℤ}
    (h : calculateMarchTime fromX fromY toX toY speed = some time) :
    -2147483647000 ≤ time ∧ time ≤ 2147483647000 := by
  obtain ⟨distance, hdistance, h⟩ := Option.bind_eq_some_iff.1 h
  obtain ⟨scaled, hscaled, h⟩ := Option.bind_eq_some_iff.1 h
  obtain ⟨-, h⟩ := Option.ite_none_left_eq_some.1 h
  obtain ⟨rfl, -⟩ := checked64_eq_some.1 hscaled
  obtain ⟨_, -, hdistance⟩ := Option.bind_eq_some_iff.1 hdistance
  obtain ⟨dx, hdx, hdistance⟩ := Option.bind_eq_some_iff.1 hdistance
  obtain ⟨_, -, hdistance⟩ := Option.bind_eq_some_iff.1 hdistance
  obtain ⟨dy, hdy, hdistance⟩ := Option.bind_eq_some_iff.1 hdistance
  obtain ⟨rfl, -, hdx⟩ := checked_eq_some.1 hdx
  obtain ⟨rfl, -, hdy⟩ := checked_eq_some.1 hdy
  have hnonneg : 0 ≤ distance := by
    rw [← Option.some.inj hdistance]
    exact le_max_of_le_left (abs_nonneg _)
  have hle : distance ≤ 2147483647 := by
    rw [← Option.some.inj hdistance]
    exact max_le hdx hdy
  have habs := Int.natAbs_tdiv_le_natAbs (distance * 1000) speed
  obtain rfl := Option.some.inj h
  omega

/-- `interpolate` is defined for a march between two cells of the map. -/
theorem exists_interpolate {config : SlgMapConfig} {t : ℤ}
    (harea : config.width * config.height ≤ 2147483647)
    (hfrom : InGrid config.width config.height (troop.fromX, troop.fromY))
    (hto : InGrid config.width config.height (troop.toX, troop.toY))
    (hspan : checked64 (troop.arriveTime - troop.startTime) =
      some (troop.arriveTime - troop.startTime))
    (hstart : troop.startTime ≤ t) (ht : t < troop.arriveTime) :
    ∃ troop', interpolate exactScale troop t = some troop' := by
  obtain ⟨hfx, hfxw, hfy, hfyh⟩ := hfrom
  obtain ⟨htx, htxw, hty, htyh⟩ := hto
  simp only at hfx hfxw hfy hfyh htx htxw hty htyh
  have hw : config.width ≤ 2147483647 := by nlinarith
  have hh : config.height ≤ 2147483647 := by nlinarith
  obtain ⟨-, -, hfits⟩ := checked64_eq_some.1 hspan
  have helapsed : checked64 (t - troop.startTime) = some (t - troop.startTime) :=
    checked64_eq_some.2 ⟨rfl, by omega, by omega⟩
  obtain ⟨hx1, hx2⟩ := tdiv_between (troop.toX - troop.fromX)
    (show 0 ≤ t - troop.startTime by omega)
    (show t - troop.startTime < troop.arriveTime - troop.startTime by omega)
  obtain ⟨hy1, hy2⟩ := tdiv_between (troop.toY - troop.fromY)
    (show 0 ≤ t - troop.startTime by omega)
    (show t - troop.startTime < troop.arriveTime - troop.startTime by omega)
  rw [interpolate, helapsed, hspan]
  simp only [Option.bind_eq_bind, Option.bind_some]
  rw [if_pos (by omega), checked_of_mem (by omega) (by omega),
    checked_of_mem (by omega) (by omega)]
  simp only [Option.bind_some, exactScale]
  rw [checked_of_mem (by omega) (by omega), checked_of_mem (by omega) (by omega)]
  simp only [Option.bind_some]
  rw [checked_of_mem (by omega) (by omega), checked_of_mem (by omega) (by omega)]
  exact ⟨_, rfl⟩

end SlgMapManager

/-- A troop where it should be, on a map of the given size. -/
structure Troop.Sound (config : SlgMapConfig) (troop : Troop) : Prop extends Troop.Ok troop where
  from_onMap : InGrid config.width config.height (troop.fromX, troop.fromY)
  to_onMap : troop.Moving → InGrid config.width config.height (troop.toX, troop.toY)
  span : troop.Moving → checked64 (troop.arriveTime - troop.startTime) =
    some (troop.arriveTime - troop.startTime)

namespace SlgMapManager

variable {m₀ m m' : SlgMapManager} {ops : List TroopOp} {troop troop' : Troop} {t : ℤ}

theorem not_moving_reach (troop : Troop) {state : TroopState} (h : state ≠ .marching)
    (h' : state ≠ .returning) : ¬ (troop.reach state).Moving := fun hm ↦ hm.elim h h'

theorem Change.sound {id : UInt64} {o : TroopOp} (h : Change exactScale m id troop o troop')
    (hid : m.troops.lookup id = some troop) (hg : m.Apt o) (hs : troop.Sound m.config) :
    troop'.Sound m.config := by
  have hok := h.ok hid hg hs.toOk
  rcases h with _ | _ | ⟨x, y, now, _, -, hsend⟩ | _ | hmarching | _ |
    ⟨t, _, hmoving, -, harrive⟩ | ⟨t, _, hmoving, -, hinterpolate⟩
  · exact hs
  · exact hs
  · obtain ⟨speed, marchTime, -, hmarch, -, rfl⟩ := sendOff_eq_some hsend
    refine ⟨hok, hs.from_onMap, fun _ ↦ hg, fun _ ↦ ?_⟩
    have hle := calculateMarchTime_le hmarch
    show checked64 (now + marchTime - now) = some (now + marchTime - now)
    exact checked64_eq_some.2 ⟨rfl, by omega, by omega⟩
  · exact hs
  · exact ⟨hok, hs.from_onMap, fun _ ↦ hs.from_onMap, fun _ ↦ hs.span (.inl hmarching)⟩
  · exact hs
  · rcases arrive_cases harrive with rfl | ⟨-, rfl | rfl⟩
    · have hnot : ¬ troop.halt.Moving := not_moving_reach troop nofun nofun
      exact ⟨hok, hs.to_onMap hmoving, fun hm ↦ absurd hm hnot, fun hm ↦ absurd hm hnot⟩
    · have hnot : ¬ (troop.reach .gathering).Moving := not_moving_reach troop nofun nofun
      exact ⟨hok, hs.from_onMap, fun hm ↦ absurd hm hnot, fun hm ↦ absurd hm hnot⟩
    · have hnot : ¬ (troop.reach .battle).Moving := not_moving_reach troop nofun nofun
      exact ⟨hok, hs.from_onMap, fun hm ↦ absurd hm hnot, fun hm ↦ absurd hm hnot⟩
  · rcases interpolate_cases hinterpolate with ⟨-, rfl⟩ | ⟨-, dx, dy, -, -, rfl⟩
    · exact hs
    · exact ⟨hok, hs.from_onMap, fun _ ↦ hs.to_onMap hmoving, fun _ ↦ hs.span hmoving⟩

theorem sound_run (h₀ : m₀.NoTroops)
    (hrun : ((troopSystem exactScale).guarded Apt).Run m₀ ops m) :
    ∀ id troop, m.troops.lookup id = some troop → troop.Sound m.config := by
  have hconfig : m.config = m₀.config := (tidy_run h₀.tidy hrun.of_guarded).1.config
  rw [hconfig]
  refine forall_troop_run ?_ ?_ h₀ hrun
  · intro m ownerId x y i c a s hframe hg id
    have hnot : ¬ (Troop.fresh id ownerId x y i c a s).Moving := nofun
    rw [← hframe.config]
    exact ⟨⟨fun _ ↦ ⟨rfl, rfl⟩, nofun, nofun, nofun⟩, hg, fun hm ↦ absurd hm hnot,
      fun hm ↦ absurd hm hnot⟩
  · intro m id troop o troop' hframe hg hid hs hchange
    rw [← hframe.config] at hs ⊢
    exact hchange.sound hid hg hs

theorem watched_run {scale : ℤ → ℤ → ℤ → Option ℤ} (hw : m.Watched)
    (hrun : (troopSystem scale).Run m ops m') : m'.Watched :=
  hrun.invariant (fun _ _ _ hw hstep ↦ hw.troopStep hstep) hw

/-- **An `update_troops` in time is defined.** -/
theorem exists_update_of_apt (h₀ : m₀.NoTroops) (hs : m₀.Sized)
    (hrun : ((troopSystem exactScale).guarded Apt).Run m₀ ops m) (hapt : m.Apt (.update t)) :
    ∃ m', m.updateTroops exactScale t = some m' := by
  obtain ⟨hframe, htidy⟩ := tidy_run h₀.tidy hrun.of_guarded
  refine exists_updateTroops htidy (watched_run h₀.watched hrun.of_guarded) ?_
  intro id troop hid hmoving
  have hsound := sound_run h₀ hrun id troop hid
  refine ⟨fun _ ↦ ?_, fun ht ↦ ?_⟩
  · obtain ⟨cell, hcell⟩ := (hs.of_frame hframe).exists_cellAt (hsound.to_onMap hmoving)
    exact arrive_isSome hcell
  · exact exists_interpolate (hs.of_frame hframe).area_le hsound.from_onMap
      (hsound.to_onMap hmoving) (hsound.span hmoving) (hapt id troop hid hmoving) ht

/-! ## A troop that was called back -/

/-- The operation is not an `update_troops` at time `t` or later. -/
def TroopOp.Before (t : ℤ) : TroopOp → Prop
  | .update t' => t' < t
  | _ => True

instance (t : ℤ) : ∀ o : TroopOp, Decidable (o.Before t)
  | .update t' => inferInstanceAs (Decidable (t' < t))
  | .create .. | .move .. | .cancel _ => .isTrue trivial

/-- The troop `id` is on its way back to where `troop` set out from, and arrives when that would
have. -/
def GoesHome (troop : Troop) (id : UInt64) (m : SlgMapManager) : Prop :=
  ∃ back, m.troops.lookup id = some back ∧ back.state = .returning ∧ back.toX = troop.fromX ∧
    back.toY = troop.fromY ∧ back.arriveTime = troop.arriveTime

variable {scale : ℤ → ℤ → ℤ → Option ℤ} {id : UInt64}

/-- A troop on its way back is only somewhere else, until it has arrived. -/
theorem Change.of_returning {o : TroopOp} (h : Change scale m id troop o troop')
    (hstate : troop.state = .returning) :
    (∀ t, o = .update t → t < troop.arriveTime) ∧
        (∃ x y, troop' = { troop with currentX := x, currentY := y }) ∨
      ∃ t, o = .update t ∧ troop.arriveTime ≤ t ∧ troop' = troop.halt := by
  have hmoving : troop.Moving := .inr hstate
  rcases h with _ | _ | ⟨_, _, _, _, hidle, _⟩ | _ | hmarching | ⟨_, hnot⟩ |
    ⟨t, _, _, ht, harrive⟩ | ⟨t, _, _, ht, hinterpolate⟩
  · exact .inl ⟨nofun, _, _, rfl⟩
  · exact .inl ⟨nofun, _, _, rfl⟩
  · exact absurd (hstate.symm.trans hidle) nofun
  · exact .inl ⟨nofun, _, _, rfl⟩
  · exact absurd (hstate.symm.trans hmarching) nofun
  · exact absurd hmoving hnot
  · rw [arrive_of_returning hstate] at harrive
    exact .inr ⟨t, rfl, ht, (Option.some.inj harrive).symm⟩
  · refine .inl ⟨fun t' ho ↦ ?_, ?_⟩
    · cases ho
      exact ht
    · rcases interpolate_cases hinterpolate with ⟨-, rfl⟩ | ⟨-, dx, dy, -, -, rfl⟩
      · exact ⟨_, _, rfl⟩
      · exact ⟨_, _, rfl⟩

theorem GoesHome.step (hm : m.Tidy) (h : GoesHome troop id m) {o : TroopOp}
    (ho : o.Before troop.arriveTime) (hstep : troopStep scale m o = some m') :
    GoesHome troop id m' := by
  obtain ⟨back, hid, hstate, hx, hy, harrive⟩ := h
  obtain ⟨back', hid', hchange⟩ := (troopStep_spec hm hstep).old id back hid
  rcases hchange.of_returning hstate with ⟨-, x, y, rfl⟩ | ⟨t, rfl, ht, -⟩
  · exact ⟨_, hid', hstate, hx, hy, harrive⟩
  · exact absurd (harrive ▸ ht) (Int.not_le.2 ho)

theorem goesHome_cancel (hm : m.Tidy) (hid : m.troops.lookup id = some troop)
    (hstate : troop.state = .marching) : GoesHome troop id (m.cancelTroop id).2 := by
  obtain ⟨back, hid', hchange⟩ := (@cancelTroop_spec exactScale m hm id).old id troop hid
  rcases hchange with _ | _ | _ | ⟨_, hnot⟩ | _
  · exact absurd hstate (hnot rfl)
  · exact ⟨_, hid', rfl, rfl, rfl, rfl⟩

/-- A troop on its way back is where it was going to after an `update_troops` that is not too
early. -/
theorem update_of_returning (hm : m.Tidy) (hid : m.troops.lookup id = some troop)
    (hstate : troop.state = .returning) (ht : troop.arriveTime ≤ t)
    (hupdate : m.updateTroops scale t = some m') : m'.troops.lookup id = some troop.halt := by
  have hstep : troopStep scale m (.update t) = some m' := hupdate
  obtain ⟨troop', hid', hchange⟩ := (troopStep_spec hm hstep).old id troop hid
  rcases hchange.of_returning hstate with ⟨hlt, -⟩ | ⟨_, -, -, rfl⟩
  · exact absurd ht (Int.not_le.2 (hlt t rfl))
  · exact hid'

/-- It is at home after the first `update_troops` that is not too early. -/
theorem GoesHome.update (hm : m.Tidy) (h : GoesHome troop id m) (ht : troop.arriveTime ≤ t)
    (hupdate : m.updateTroops scale t = some m') :
    ∃ back, m'.troops.lookup id = some back ∧ back.state = .idle ∧
      (back.currentX = troop.fromX ∧ back.currentY = troop.fromY) ∧
      back.fromX = troop.fromX ∧ back.fromY = troop.fromY := by
  obtain ⟨back, hid, hstate, hx, hy, harrive⟩ := h
  exact ⟨back.halt, update_of_returning hm hid hstate (harrive ▸ ht) hupdate, rfl, ⟨hx, hy⟩, hx, hy⟩

/-- What does not change about a troop does not change in a run. -/
theorem same_run (hm : m.Tidy) (hrun : (troopSystem scale).Run m ops m')
    (hid : m.troops.lookup id = some troop) :
    ∃ troop', m'.troops.lookup id = some troop' ∧ Troop.Same troop troop' := by
  refine (hrun.invariant (motive := fun s ↦ s.Tidy ∧
    ∃ troop', s.troops.lookup id = some troop' ∧ Troop.Same troop troop') ?_
    ⟨hm, troop, hid, .refl troop⟩).2
  rintro s o s' ⟨hs, troop', hid', hsame⟩ hstep
  have hspec := troopStep_spec hs hstep
  obtain ⟨troop'', hid'', hchange⟩ := hspec.old id troop' hid'
  exact ⟨hspec.tidy, troop'', hid'', hsame.trans hchange.same⟩

/-- **The troop state machine.**  With progress in exact rationals, for every run from an
initialised map without troops, with coordinates on the map and no `update_troops` before a troop
under way set out: every troop is where its state says; its id, owner and soldiers never change; and
a troop that is called back while marching is idle where it set out from after the first
`update_troops` at or after its time of arrival, which is defined. -/
theorem troop_state_machine (h₀ : m₀.NoTroops) (hs : m₀.Sized)
    (hrun : ((troopSystem exactScale).guarded Apt).Run m₀ ops m) :
    (∀ id troop, m.troops.lookup id = some troop → troop.Ok) ∧
      (∀ ops' m', ((troopSystem exactScale).guarded Apt).Run m ops' m' →
        ∀ id troop, m.troops.lookup id = some troop →
          ∃ troop', m'.troops.lookup id = some troop' ∧ Troop.Same troop troop') ∧
      ∀ id troop, m.troops.lookup id = some troop → troop.state = .marching →
        ∀ ops' m', ((troopSystem exactScale).guarded fun m o ↦
            m.Apt o ∧ o.Before troop.arriveTime).Run (m.cancelTroop id).2 ops' m' →
          ∀ t, troop.arriveTime ≤ t → m'.Apt (.update t) →
            ∃ m'' back, m'.updateTroops exactScale t = some m'' ∧
              m''.troops.lookup id = some back ∧ back.state = .idle ∧
              (back.currentX = troop.fromX ∧ back.currentY = troop.fromY) ∧
              back.fromX = troop.fromX ∧ back.fromY = troop.fromY := by
  have htidy := (tidy_run h₀.tidy hrun.of_guarded).2
  refine ⟨fun id troop hid ↦ (sound_run h₀ hrun id troop hid).toOk,
    fun ops' m' hrun' id troop hid ↦ same_run htidy hrun'.of_guarded hid,
    fun id troop hid hstate ops' m' hrun' t ht hapt ↦ ?_⟩
  have hcancel : ((troopSystem exactScale).guarded Apt).step m (.cancel id) (m.cancelTroop id).2 :=
    ⟨trivial, rfl⟩
  have hrun₁ := hrun.snoc hcancel
  have hrun₂ : ((troopSystem exactScale).guarded Apt).Run (m.cancelTroop id).2 ops' m' := by
    refine hrun'.mono ?_
    rintro s o s' ⟨⟨hapt, -⟩, hstep⟩
    exact ⟨hapt, hstep⟩
  obtain ⟨m'', hupdate⟩ := exists_update_of_apt h₀ hs (hrun₁.append hrun₂) hapt
  -- it goes home until then
  have hhome : m'.Tidy ∧ GoesHome troop id m' := by
    refine hrun'.invariant (motive := fun s ↦ s.Tidy ∧ GoesHome troop id s) ?_
      ⟨(@cancelTroop_spec exactScale m htidy id).tidy, goesHome_cancel htidy hid hstate⟩
    rintro s o s' ⟨hs, hhome⟩ ⟨⟨-, ho⟩, hstep⟩
    exact ⟨(troopStep_spec hs hstep).tidy, hhome.step hs ho hstep⟩
  obtain ⟨back, hback⟩ := hhome.2.update hhome.1 ht hupdate
  exact ⟨m'', back, hupdate, hback⟩

/-- A troop that is called back half way. -/
theorem troop_state_machine_called_back :
    ∃ m₀ m m' m'' troop back, (new ⟨8, 8⟩ true).bind init = some m₀ ∧
      ((troopSystem exactScale).guarded Apt).Run m₀
        [.create 7 0 0 10 5 0 0, .move 1 7 7 1000, .update 1030] m ∧
      m.troops.lookup 1 = some troop ∧ troop.Ok ∧ troop.state = .marching ∧
      ((troopSystem exactScale).guarded fun m o ↦ m.Apt o ∧ o.Before 1066).Run (m.cancelTroop 1).2
        [.update 1050] m' ∧
      m'.updateTroops exactScale 1066 = some m'' ∧ m''.troops.lookup 1 = some back ∧
      back.state = .idle ∧ (back.currentX = 0 ∧ back.currentY = 0) ∧
      back.fromX = 0 ∧ back.fromY = 0 := by
  obtain ⟨m₀, hinit, hany⟩ : ∃ m₀ ∈ (new ⟨8, 8⟩ true).bind init,
      ([TroopOp.create 7 0 0 10 5 0 0, .move 1 7 7 1000, .update 1030].foldlM
        (fun (s : SlgMapManager) o ↦ if s.Apt o then troopStep exactScale s o else none) m₀).any
          (fun m ↦ decide ((∃ troop ∈ m.troops.lookup 1, troop.state = .marching ∧
              troop.arriveTime = 1066 ∧ troop.fromX = 0 ∧ troop.fromY = 0) ∧
            ∃ m' ∈ [TroopOp.update 1050].foldlM
                (fun (s : SlgMapManager) o ↦
                  if s.Apt o ∧ o.Before 1066 then troopStep exactScale s o else none)
                (m.cancelTroop 1).2,
              m'.Apt (.update 1066))) = true := by
    decide +kernel
  obtain ⟨m, hrun, ⟨troop, hid, hstate, harrive, hx, hy⟩, m', hfold, hapt⟩ :=
    System.Run.exists_of_any_guarded hany
  have hrun' : ((troopSystem exactScale).guarded fun m o ↦ m.Apt o ∧ o.Before 1066).Run
      (m.cancelTroop 1).2 [.update 1050] m' := .of_foldlM_guarded hfold
  obtain ⟨-, hplaced, hnone⟩ := of_init hinit
  obtain ⟨hok, -, hhome⟩ := troop_state_machine hnone hplaced.toSized hrun
  have hhome := hhome 1 troop hid hstate
  rw [harrive, hx, hy] at hhome
  obtain ⟨m'', back, hback⟩ := hhome _ m' hrun' 1066 le_rfl hapt
  exact ⟨m₀, m, m', m'', troop, back, hinit, hrun, hid, hok 1 troop hid, hstate, hrun', hback⟩

end SlgMapManager
end Slg
end ChwellCore
