import ChwellCore.Slg.Troops

/-!
# Where the watchers see a troop

The position of a troop is kept twice, in the table of troops and in the `GridAoi` of the manager.
`create_troop` enters both and an arrival changes both, but while a troop is on its way only its own
position is brought up to date.  `aoi_follows_iff` says when the two agree.

The grid has the default configuration, so none of its calls comes to undefined behaviour
(`Watched`); `exists_updateTroops` takes from this when a call of `update_troops` is defined.
-/

set_option autoImplicit false

namespace ChwellCore
namespace Slg

open Aoi (GridAoi Entity)

namespace SlgMapManager

variable {scale : ℤ → ℤ → ℤ → Option ℤ} {m₀ m m' : SlgMapManager} {ops : List TroopOp}
  {troop troop' : Troop} {t : ℤ}

/-! ## The calls of the grid are defined -/

/-- The grid is indexed, and what is in view of a position can always be computed. -/
def Watched (m : SlgMapManager) : Prop :=
  ∃ w h, m.aoi.Indexed w h ∧ m.aoi.ViewsFit w h

theorem watched_of_exec (op : GridAoi.Op) {o : GridAoi.Outcome} (hm : m.Watched)
    (ho : m.aoi.exec op = some o) (haoi : m'.aoi = o.aoi) : m'.Watched := by
  obtain ⟨w, h, hi, hv⟩ := hm
  obtain ⟨hi', hconfig, -⟩ := GridAoi.exec_indexed hi ho
  refine ⟨w, h, haoi ▸ hi', ?_⟩
  rw [GridAoi.ViewsFit, haoi, hconfig]
  exact hv

theorem Watched.of_aoi_eq (hm : m.Watched) (haoi : m'.aoi = m.aoi) : m'.Watched := by
  rw [Watched, haoi]
  exact hm

theorem NoTroops.watched (h : m.NoTroops) : m.Watched := by
  obtain ⟨cb, hnew⟩ := h.aoi_new
  obtain ⟨hi, haoi, -⟩ := GridAoi.new_eq_some ⟨by decide, by decide, by decide⟩ hnew
  have hconfig : m.aoi.config = ⟨1000, 1000, 50, 1⟩ := by rw [haoi]
  have hv := hi.dims.getGridsInView_eq (by rw [hconfig]; decide) (by rw [hconfig]; decide)
    (by rw [hconfig]; decide)
  exact ⟨_, _, hi, hv⟩

theorem NoTroops.entities_eq (h : m.NoTroops) : m.aoi.entities = ∅ := by
  obtain ⟨cb, hnew⟩ := h.aoi_new
  obtain ⟨-, haoi, -⟩ := GridAoi.new_eq_some ⟨by decide, by decide, by decide⟩ hnew
  rw [haoi]

theorem Watched.updateTroop (hm : m.Watched) {id : UInt64}
    (h : updateTroop scale t m id = some m') : m'.Watched := by
  rw [SlgMapManager.updateTroop] at h
  split at h
  · obtain rfl := Option.some.inj h
    exact hm
  · split at h
    · split at h
      · obtain ⟨troop', -, h⟩ := Option.bind_eq_some_iff.1 h
        obtain ⟨updated, hupdated, h⟩ := Option.bind_eq_some_iff.1 h
        obtain rfl := Option.some.inj h
        exact watched_of_exec (.update _ _ _) hm hupdated rfl
      · obtain ⟨troop', -, h⟩ := Option.bind_eq_some_iff.1 h
        obtain rfl := Option.some.inj h
        exact hm.of_aoi_eq rfl
    · obtain rfl := Option.some.inj h
      exact hm

theorem aoi_moveTroop {id : UInt64} {x y now : ℤ} {b : Bool}
    (h : m.moveTroop id x y now = some (b, m')) : m'.aoi = m.aoi := by
  rw [moveTroop] at h
  split at h
  · obtain ⟨-, rfl⟩ := Prod.mk.inj (Option.some.inj h)
    rfl
  · split at h
    · obtain ⟨-, rfl⟩ := Prod.mk.inj (Option.some.inj h)
      rfl
    · obtain ⟨troop', -, h⟩ := Option.bind_eq_some_iff.1 h
      obtain ⟨-, rfl⟩ := Prod.mk.inj (Option.some.inj h)
      rfl

theorem aoi_cancelTroop (m : SlgMapManager) (id : UInt64) : (m.cancelTroop id).2.aoi = m.aoi := by
  rw [cancelTroop]
  split
  · rfl
  · split <;> rfl

theorem Watched.troopStep (hm : m.Watched) {o : TroopOp} (h : troopStep scale m o = some m') :
    m'.Watched := by
  rcases o with ⟨ownerId, x, y, i, c, a, s⟩ | ⟨id, x, y, now⟩ | id | t
  · obtain ⟨⟨id, _⟩, hcreate, rfl⟩ := Option.map_eq_some_iff.1 h
    obtain ⟨-, hcreate⟩ := Option.ite_none_right_eq_some.1 hcreate
    obtain ⟨added, hadded, hcreate⟩ := Option.bind_eq_some_iff.1 hcreate
    obtain ⟨-, rfl⟩ := Prod.mk.inj (Option.some.inj hcreate)
    exact watched_of_exec (.add _) hm hadded rfl
  · obtain ⟨⟨b, _⟩, hmove, rfl⟩ := Option.map_eq_some_iff.1 h
    exact hm.of_aoi_eq (aoi_moveTroop hmove)
  · obtain rfl := Option.some.inj h
    exact hm.of_aoi_eq (aoi_cancelTroop m id)
  · exact Loop.invariant (P := Watched) (fun id _ s s' hs hstep ↦ hs.updateTroop hstep) hm h

/-- What `update_troops` asks of a troop that is on its way. -/
def CanUpdate (scale : ℤ → ℤ → ℤ → Option ℤ) (m : SlgMapManager) (t : ℤ) (troop : Troop) : Prop :=
  troop.Moving →
    (troop.arriveTime ≤ t → ∃ troop', m.arrive troop = some troop') ∧
      (t < troop.arriveTime → ∃ troop', interpolate scale troop t = some troop')

/-- **`update_troops` is defined** where each troop can arrive or march. -/
theorem exists_updateTroops (hm : m.Tidy) (hw : m.Watched)
    (hcan : ∀ id troop, m.troops.lookup id = some troop → CanUpdate scale m t troop) :
    ∃ m', m.updateTroops scale t = some m' := by
  refine Loop.exists_end (P := fun s ↦ Frame m s ∧ s.Tidy ∧ s.Watched)
    (f := fun id (s : SlgMapManager) ↦ s.troops.lookup id)
    (C := fun _ r ↦ ∀ troop, r = some troop → CanUpdate scale m t troop) ?_ m.troops.keys_nodup
    ⟨.refl m, hm, hw⟩ fun id _ ↦ hcan id
  rintro id - s ⟨hframe, htidy, hwatched⟩ hcan
  have hsome : ∃ s', updateTroop scale t s id = some s' := by
    rw [updateTroop]
    rcases hid : s.troops.lookup id with _ | troop
    · exact ⟨s, rfl⟩
    · simp only
      split
      · next hmoving =>
        obtain ⟨harrive, hmarch⟩ := hcan troop hid hmoving
        split
        · next ht =>
          obtain ⟨troop', htroop'⟩ := harrive ht
          obtain ⟨w, h, hi, hv⟩ := hwatched
          obtain ⟨o, ho⟩ := hi.exec_isSome hv
            (.update troop'.troopId troop'.currentX troop'.currentY)
          have ho : s.aoi.updateEntity troop'.troopId troop'.currentX troop'.currentY = some o := ho
          rw [arrive_congr hframe.config hframe.cells, htroop']
          simp only [Option.bind_eq_bind, Option.bind_some, ho]
          exact ⟨_, rfl⟩
        · next ht =>
          obtain ⟨troop', htroop'⟩ := hmarch (Int.not_le.1 ht)
          rw [htroop']
          exact ⟨_, rfl⟩
      · exact ⟨s, rfl⟩
  obtain ⟨s', hs'⟩ := hsome
  obtain ⟨hframe', htidy', -, hother⟩ := updateTroop_spec htidy hs'
  exact ⟨s', hs', ⟨hframe.trans hframe', htidy', hwatched.updateTroop hs'⟩, fun j hj ↦
    congrArg Prod.fst (hother j hj)⟩

/-! ## The two positions of a troop -/

/-- The grid has every troop where it is. -/
def AoiFollows (m : SlgMapManager) : Prop :=
  ∀ id troop, m.troops.lookup id = some troop →
    ∃ e, m.aoi.entities.lookup id = some e ∧ e.x = troop.currentX ∧ e.y = troop.currentY

/-- The grid has no other entities than troops. -/
def OnlyTroops (m : SlgMapManager) : Prop :=
  ∀ id, m.troops.lookup id = none → m.aoi.entities.lookup id = none

end SlgMapManager

/-- A troop under way is already where its march has come to at time `t`. -/
def Troop.AtPlace (scale : ℤ → ℤ → ℤ → Option ℤ) (t : ℤ) (troop : Troop) : Prop :=
  0 < troop.arriveTime - troop.startTime →
    (∀ dx ∈ scale (troop.toX - troop.fromX) (t - troop.startTime)
        (troop.arriveTime - troop.startTime), troop.fromX + dx = troop.currentX) ∧
      ∀ dy ∈ scale (troop.toY - troop.fromY) (t - troop.startTime)
        (troop.arriveTime - troop.startTime), troop.fromY + dy = troop.currentY

instance (scale : ℤ → ℤ → ℤ → Option ℤ) (t : ℤ) (troop : Troop) :
    Decidable (troop.AtPlace scale t) := by
  unfold Troop.AtPlace
  infer_instance

namespace SlgMapManager

variable {scale : ℤ → ℤ → ℤ → Option ℤ} {m₀ m m' : SlgMapManager} {ops : List TroopOp}
  {troop troop' : Troop} {t : ℤ}

/-- When `update_troops` is called, every troop that is under way is already where its march has
come to. -/
def MarchesStandStill (scale : ℤ → ℤ → ℤ → Option ℤ) (m : SlgMapManager) : TroopOp → Prop
  | .update t => ∀ id troop, m.troops.lookup id = some troop → troop.Moving →
      t < troop.arriveTime → troop.AtPlace scale t
  | _ => True

instance (m : SlgMapManager) : ∀ o, Decidable (m.MarchesStandStill scale o)
  | .update t => inferInstanceAs (Decidable (∀ id troop, m.troops.lookup id = some troop →
      troop.Moving → t < troop.arriveTime → troop.AtPlace scale t))
  | .create .. | .move .. | .cancel _ => .isTrue trivial

/-- A march moves a troop unless it is at its place. -/
theorem interpolate_stays_iff (h : interpolate scale troop t = some troop') :
    (troop'.currentX = troop.currentX ∧ troop'.currentY = troop.currentY) ↔
      troop.AtPlace scale t := by
  rw [Troop.AtPlace]
  rcases interpolate_cases h with ⟨hle, rfl⟩ | ⟨hpos, dx, dy, hdx, hdy, rfl⟩
  · exact iff_of_true ⟨rfl, rfl⟩ fun hpos ↦ absurd hpos (Int.not_lt.2 hle)
  · simp only [hdx, hdy, Option.mem_def, Option.some.injEq, forall_eq', hpos, forall_const]

/-- One call of `update_troops`. -/
theorem aoiFollows_update_iff (hm : m.Tidy) (hfollows : m.AoiFollows)
    (h : m.updateTroops scale t = some m') :
    m'.AoiFollows ↔ m.MarchesStandStill scale (.update t) := by
  obtain ⟨-, -, hall⟩ := updateTroops_spec hm h
  constructor
  · intro hfollows' id troop hid hmoving ht
    obtain ⟨e, he, hx, hy⟩ := hfollows id troop hid
    have hupdated := hall id
    have hfollow := hfollows' id
    simp only [troopAndEntity, hid, he] at hupdated
    generalize m'.troops.lookup id = r, m'.aoi.entities.lookup id = e' at hupdated hfollow
    rcases hupdated with _ | ⟨_, _, hnot⟩ | ⟨_, _, _, _, hle, _⟩ |
      ⟨_, troop', _, _, _, hinterpolate⟩
    · exact absurd hmoving hnot
    · omega
    · obtain ⟨e'', he'', hx', hy'⟩ := hfollow troop' rfl
      obtain rfl := Option.some.inj he''
      exact (interpolate_stays_iff hinterpolate).1 ⟨hx'.symm.trans hx, hy'.symm.trans hy⟩
  · intro hg id troop' hid'
    have hupdated := hall id
    rcases hid : m.troops.lookup id with _ | troop
    · simp only [troopAndEntity, hid, hid'] at hupdated
      cases hupdated
    · obtain ⟨e, he, hx, hy⟩ := hfollows id troop hid
      simp only [troopAndEntity, hid, hid', he] at hupdated
      generalize m'.aoi.entities.lookup id = e' at hupdated ⊢
      rcases hupdated with _ | _ | _ | ⟨_, _, _, hmoving, ht, hinterpolate⟩
      · exact ⟨e, rfl, hx, hy⟩
      · exact ⟨follow troop' e, rfl, rfl, rfl⟩
      · obtain ⟨hx', hy'⟩ := (interpolate_stays_iff hinterpolate).2 (hg id troop hid hmoving ht)
        exact ⟨e, rfl, hx.trans hx'.symm, hy.trans hy'.symm⟩

/-- Neither a troop that is sent off nor one that turns back is anywhere else for that. -/
theorem Change.current_eq {id : UInt64} {o : TroopOp} (h : Change scale m id troop o troop')
    (ho : ∀ t, o ≠ .update t) :
    troop'.currentX = troop.currentX ∧ troop'.currentY = troop.currentY := by
  rcases h with _ | _ | ⟨x, y, now, _, -, hsend⟩ | _ | - | t | t | t
  · exact ⟨rfl, rfl⟩
  · exact ⟨rfl, rfl⟩
  · obtain ⟨speed, marchTime, -, -, -, rfl⟩ := sendOff_eq_some hsend
    exact ⟨rfl, rfl⟩
  · exact ⟨rfl, rfl⟩
  · exact ⟨rfl, rfl⟩
  all_goals exact absurd rfl (ho t)

/-- The other operations keep the two positions together. -/
theorem AoiFollows.of_aoi_eq {o : TroopOp} (hm : m.Tidy) (hfollows : m.AoiFollows)
    (ho : ∀ t, o ≠ .update t) (hc : ∀ n x y i c a s, o ≠ .create n x y i c a s)
    (h : troopStep scale m o = some m') (haoi : m'.aoi = m.aoi) : m'.AoiFollows := by
  have hspec := troopStep_spec hm h
  intro id troop' hid'
  rw [haoi]
  rcases hid : m.troops.lookup id with _ | troop
  · obtain ⟨n, x, y, i, c, a, s, rfl, -⟩ := hspec.new id troop' hid hid'
    exact absurd rfl (hc n x y i c a s)
  · obtain ⟨troop'', hid'', hchange⟩ := hspec.old id troop hid
    obtain rfl := Option.some.inj (hid''.symm.trans hid')
    obtain ⟨hx, hy⟩ := hchange.current_eq ho
    rw [hx, hy]
    exact hfollows id troop hid

/-- `create_troop` enters both. -/
theorem aoiFollows_create (hm : m.Tidy) (hfollows : m.AoiFollows) (honly : m.OnlyTroops)
    {ownerId id : UInt64} {x y i c a s : ℤ}
    (h : m.createTroop ownerId x y i c a s = some (id, m')) : m'.AoiFollows ∧ m'.OnlyTroops := by
  obtain ⟨-, h⟩ := Option.ite_none_right_eq_some.1 h
  obtain ⟨added, hadded, h⟩ := Option.bind_eq_some_iff.1 h
  obtain ⟨rfl, rfl⟩ := Prod.mk.inj (Option.some.inj h)
  have hlook := GridAoi.lookup_addEntity hadded hm.numbered.ne_zero
    (honly _ hm.numbered.lookup_next)
  simp only at hlook
  constructor
  · intro j troop hj
    rw [hlook]
    rw [UnorderedMap.lookup_insert_ite] at hj
    split at hj
    · next heq =>
      cases hj
      rw [if_pos heq]
      exact ⟨_, rfl, rfl, rfl⟩
    · next heq =>
      rw [if_neg heq]
      exact hfollows j troop hj
  · intro j hj
    rw [hlook]
    rw [UnorderedMap.lookup_insert_ite] at hj
    split at hj
    · cases hj
    · next heq =>
      rw [if_neg heq]
      exact honly j hj

theorem OnlyTroops.step (hm : m.Tidy) (hfollows : m.AoiFollows) (honly : m.OnlyTroops)
    {o : TroopOp} (h : troopStep scale m o = some m') : m'.OnlyTroops := by
  have hspec := troopStep_spec hm h
  have hnone : ∀ id, m'.troops.lookup id = none → m.troops.lookup id = none := by
    intro id hid'
    rcases hid : m.troops.lookup id with _ | troop
    · rfl
    · obtain ⟨troop', hsome, -⟩ := hspec.old id troop hid
      rw [hid'] at hsome
      cases hsome
  rcases o with ⟨ownerId, x, y, i, c, a, s⟩ | ⟨id, x, y, now⟩ | id | t
  · obtain ⟨⟨id, _⟩, hcreate, rfl⟩ := Option.map_eq_some_iff.1 h
    exact (aoiFollows_create hm hfollows honly hcreate).2
  · obtain ⟨⟨b, _⟩, hmove, rfl⟩ := Option.map_eq_some_iff.1 h
    intro j hj
    rw [aoi_moveTroop hmove]
    exact honly j (hnone j hj)
  · obtain rfl := Option.some.inj h
    intro j hj
    rw [aoi_cancelTroop]
    exact honly j (hnone j hj)
  · obtain ⟨-, -, hall⟩ := updateTroops_spec hm h
    intro j hj
    have hupdated := hall j
    simp only [troopAndEntity, hnone j hj, honly j (hnone j hj), hj] at hupdated
    generalize m'.aoi.entities.lookup j = e at hupdated ⊢
    cases hupdated
    rfl

/-- **One step**: the grid goes on following the troops just when no march moves one. -/
theorem aoiFollows_step_iff (hm : m.Tidy) (hfollows : m.AoiFollows) (honly : m.OnlyTroops)
    {o : TroopOp} (h : troopStep scale m o = some m') :
    m'.AoiFollows ↔ m.MarchesStandStill scale o := by
  rcases o with ⟨ownerId, x, y, i, c, a, s⟩ | ⟨id, x, y, now⟩ | id | t
  · obtain ⟨⟨id, _⟩, hcreate, rfl⟩ := Option.map_eq_some_iff.1 h
    exact iff_of_true (aoiFollows_create hm hfollows honly hcreate).1 trivial
  · have h' := h
    obtain ⟨⟨b, _⟩, hmove, rfl⟩ := Option.map_eq_some_iff.1 h'
    exact iff_of_true (hfollows.of_aoi_eq hm (by simp) (by simp) h (aoi_moveTroop hmove)) trivial
  · have h' := h
    obtain rfl := Option.some.inj h'
    exact iff_of_true (hfollows.of_aoi_eq hm (by simp) (by simp) h (aoi_cancelTroop m id)) trivial
  · exact aoiFollows_update_iff hm hfollows h

/-- **When the grid follows the troops.**  For every run from a manager that has not created a troop
yet: in all states that it comes to the grid has every troop where it is, if and only if no
`update_troops` of the run finds a troop on its way that is not already where its march has come
to. -/
theorem aoi_follows_iff (h₀ : m₀.NoTroops) (hrun : (troopSystem scale).Run m₀ ops m) :
    (troopSystem scale).Along (fun _ _ m' ↦ m'.AoiFollows) m₀ ops ↔
      ((troopSystem scale).guarded (MarchesStandStill scale)).Run m₀ ops m := by
  refine System.along_iff (P := fun m ↦ m.Tidy ∧ m.AoiFollows ∧ m.OnlyTroops) ?_ ?_
    ⟨h₀.tidy, ?_, ?_⟩ hrun
  · rintro s o s' ⟨hm, hfollows, honly⟩ hstep
    exact aoiFollows_step_iff hm hfollows honly hstep
  · rintro s o s' ⟨hm, hfollows, honly⟩ hstep hfollows'
    exact ⟨(troopStep_spec hm hstep).tidy, hfollows', honly.step hm hfollows hstep⟩
  · exact fun id troop hid ↦ absurd hid (h₀.not_stored id troop)
  · intro id _
    rw [h₀.entities_eq, AList.lookup_empty]

/-- A march that is only looked at when it has ended. -/
theorem aoi_follows_arrival :
    ∃ m₀ m, (new ⟨8, 8⟩ true).bind init = some m₀ ∧
      (troopSystem fun d e t ↦ checked ((d * e).tdiv t)).Run m₀
        [.create 7 0 0 10 5 0 0, .move 1 7 7 1000, .update 2000] m ∧
      (troopSystem fun d e t ↦ checked ((d * e).tdiv t)).Along
        (fun _ _ m' ↦ m'.AoiFollows) m₀
        [.create 7 0 0 10 5 0 0, .move 1 7 7 1000, .update 2000] := by
  obtain ⟨m₀, hinit, hany⟩ : ∃ m₀ ∈ (new ⟨8, 8⟩ true).bind init,
      ([TroopOp.create 7 0 0 10 5 0 0, .move 1 7 7 1000, .update 2000].foldlM
        (fun (s : SlgMapManager) o ↦
          if s.MarchesStandStill (fun d e t ↦ checked ((d * e).tdiv t)) o then
            troopStep (fun d e t ↦ checked ((d * e).tdiv t)) s o
          else none) m₀).any (fun _ ↦ decide True) = true := by
    decide +kernel
  obtain ⟨m, hrun, -⟩ := System.Run.exists_of_any_guarded hany
  obtain ⟨-, -, h₀⟩ := of_init hinit
  exact ⟨m₀, m, hinit, hrun.of_guarded, (aoi_follows_iff h₀ hrun.of_guarded).2 hrun⟩

/-- In the middle of a march the grid still has the troop where it set out from. -/
theorem aoi_left_behind :
    ¬ ∀ (scale : ℤ → ℤ → ℤ → Option ℤ) (m₀ m : SlgMapManager) (ops : List TroopOp),
      m₀.NoTroops → (troopSystem scale).Run m₀ ops m → m.AoiFollows := by
  intro hall
  obtain ⟨m₀, hinit, hany⟩ : ∃ m₀ ∈ (new ⟨8, 8⟩ true).bind init,
      ([TroopOp.create 7 0 0 10 5 0 0, .move 1 7 0 1000, .update 1050].foldlM
        (troopStep fun d e t ↦ checked ((d * e).tdiv t)) m₀).any (fun m ↦ decide (
          (m.troops.lookup 1).map Troop.currentX = some 5 ∧
            (m.aoi.entities.lookup 1).map Entity.x = some 0)) = true := by
    decide +kernel
  obtain ⟨m, hrun, htroop, hentity⟩ := System.Run.exists_of_any hany
  obtain ⟨-, -, h₀⟩ := of_init hinit
  obtain ⟨troop, hid, hx⟩ := Option.map_eq_some_iff.1 htroop
  obtain ⟨e, he, hex, -⟩ := hall _ m₀ m _ h₀ hrun 1 troop hid
  rw [he, Option.map_some, Option.some_inj] at hentity
  omega

end SlgMapManager
end Slg
end ChwellCore
