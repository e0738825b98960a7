import ChwellCore.Aoi.GridIndex
import ChwellCore.Slg.Cells

/-!
# What happens to a troop

The four operations on troops change one troop at a time, or all of them, each by itself.  `Change`
is what an operation can make of a troop, and `troopStep_spec` says that it is what happens to every
stored troop; a new one only comes from `create_troop`.  So a property of single troops that every
`Change` keeps holds of all troops in every state of a run (`forall_troop_run`).

`update_troops` also tells the `GridAoi` where a troop has arrived.  What a call of it does to a
troop and to the entity with its id is `Updated`.
-/

set_option autoImplicit false

namespace ChwellCore

open Aoi (GridAoi Entity)

namespace Aoi.GridAoi

variable {s t : GridAoi}

theorem entities_modifyBucket {idx : ℤ} {f : UnorderedSet UInt64 → UnorderedSet UInt64}
    (h : s.modifyBucket idx f = some t) : t.entities = s.entities := by
  obtain ⟨b, -, h⟩ := Option.bind_eq_some_iff.1 h
  rw [← Option.some.inj h]

/-- `update_entity` puts an entity that there is at the new position. -/
theorem lookup_updateEntity {id : UInt64} {x y : ℤ} {o : Outcome}
    (h : s.updateEntity id x y = some o) (k : UInt64) :
    o.aoi.entities.lookup k =
      if k = id then (s.entities.lookup id).map fun e ↦ { e with x := x, y := y }
      else s.entities.lookup k := by
  rw [updateEntity] at h
  rcases he : s.entities.lookup id with _ | e <;> simp only [he] at h
  · rw [← Option.some.inj h]
    split
    · next hk => rw [hk]; exact he
    · rfl
  · obtain ⟨oldGrid, -, h⟩ := Option.bind_eq_some_iff.1 h
    obtain ⟨newGrid, -, h⟩ := Option.bind_eq_some_iff.1 h
    split at h
    · obtain ⟨events, -, h⟩ := Option.bind_eq_some_iff.1 h
      rw [← Option.some.inj h]
      exact UnorderedMap.lookup_insert_ite _ _ _ _
    · obtain ⟨old, -, h⟩ := Option.bind_eq_some_iff.1 h
      obtain ⟨new, -, h⟩ := Option.bind_eq_some_iff.1 h
      obtain ⟨oldIdx, -, h⟩ := Option.bind_eq_some_iff.1 h
      obtain ⟨newIdx, -, h⟩ := Option.bind_eq_some_iff.1 h
      obtain ⟨s₁, hs₁, h⟩ := Option.bind_eq_some_iff.1 h
      obtain ⟨s₂, hs₂, h⟩ := Option.bind_eq_some_iff.1 h
      obtain ⟨events, -, h⟩ := Option.bind_eq_some_iff.1 h
      rw [← Option.some.inj h]
      show s₂.entities.lookup k = _
      rw [entities_modifyBucket hs₂, entities_modifyBucket hs₁]
      exact UnorderedMap.lookup_insert_ite _ _ _ _

/-- `add_entity` of a new id that is not zero. -/
theorem lookup_addEntity {e : Entity} {o : Outcome} (h : s.addEntity e = some o) (h0 : e.id ≠ 0)
    (hnew : s.entities.lookup e.id = none) (k : UInt64) :
    o.aoi.entities.lookup k = if k = e.id then some e else s.entities.lookup k := by
  rw [addEntity, if_neg h0, hnew] at h
  obtain ⟨grid, -, h⟩ := Option.bind_eq_some_iff.1 h
  obtain ⟨idx, -, h⟩ := Option.bind_eq_some_iff.1 h
  obtain ⟨s', hs', h⟩ := Option.bind_eq_some_iff.1 h
  obtain ⟨events, -, h⟩ := Option.bind_eq_some_iff.1 h
  rw [← Option.some.inj h]
  exact UnorderedMap.lookup_insert_ite _ _ _ _

end Aoi.GridAoi

namespace Slg

theorem checked64_eq_some {n k : ℤ} :
    checked64 n = some k ↔ k = n ∧ -9223372036854775808 ≤ n ∧ n ≤ 9223372036854775807 := by
  rw [checked64, Option.ite_none_right_eq_some, Option.some_inj, and_comm, eq_comm]

/-! ## One troop -/

namespace Troop

variable {troop troop' : Troop}

/-- A new troop. -/
def fresh (id ownerId : UInt64) (fromX fromY infantry cavalry archer siege : ℤ) : Troop :=
  { troopId := id, ownerId, fromX, fromY
    currentX := fromX, currentY := fromY
    infantry, cavalry, archer, siege
    state := .idle }

/-- What does not change about a troop. -/
structure Same (troop troop' : Troop) : Prop where
  troopId : troop'.troopId = troop.troopId
  ownerId : troop'.ownerId = troop.ownerId
  infantry : troop'.infantry = troop.infantry
  cavalry : troop'.cavalry = troop.cavalry
  archer : troop'.archer = troop.archer
  siege : troop'.siege = troop.siege

theorem Same.refl (troop : Troop) : Same troop troop := ⟨rfl, rfl, rfl, rfl, rfl, rfl⟩

theorem Same.trans {troop'' : Troop} (h : Same troop troop') (h' : Same troop' troop'') :
    Same troop troop'' :=
  ⟨h'.troopId.trans h.troopId, h'.ownerId.trans h.ownerId, h'.infantry.trans h.infantry,
    h'.cavalry.trans h.cavalry, h'.archer.trans h.archer, h'.siege.trans h.siege⟩

/-- The troop is where it was going to, and in a state. -/
def reach (troop : Troop) (state : TroopState) : Troop :=
  { troop with currentX := troop.toX, currentY := troop.toY, state := state }

/-- The troop stays where it was going to. -/
def halt (troop : Troop) : Troop :=
  { troop.reach .idle with fromX := troop.toX, fromY := troop.toY }

end Troop

namespace SlgMapManager

variable {scale : ℤ → ℤ → ℤ → Option ℤ} {m m' : SlgMapManager} {troop troop' : Troop}

/-- **How a troop arrives**: it stays where it is, or gathers or fights there. -/
theorem arrive_cases (h : m.arrive troop = some troop') :
    troop' = troop.halt ∨
      troop.state ≠ .returning ∧
        (troop' = troop.reach .gathering ∨ troop' = troop.reach .battle) := by
  rw [arrive] at h
  simp only at h
  split at h
  · exact .inl (Option.some.inj h).symm
  · next hstate =>
    obtain ⟨cell, -, h⟩ := Option.bind_eq_some_iff.1 h
    split at h
    · exact .inr ⟨hstate, .inl (Option.some.inj h).symm⟩
    · split at h
      · exact .inr ⟨hstate, .inr (Option.some.inj h).symm⟩
      · exact .inl (Option.some.inj h).symm

theorem arrive_of_returning (hstate : troop.state = .returning) :
    m.arrive troop = some troop.halt := by
  rw [arrive]
  exact if_pos hstate

theorem arrive_isSome {cell : GridCell} (hcell : m.cellAt troop.toX troop.toY = some cell) :
    ∃ troop', m.arrive troop = some troop' := by
  rw [arrive]
  simp only [hcell, Option.bind_eq_bind, Option.bind_some]
  split
  · exact ⟨_, rfl⟩
  · split
    · exact ⟨_, rfl⟩
    · split <;> exact ⟨_, rfl⟩

/-- Only the cells matter to an arrival. -/
theorem arrive_congr (hconfig : m'.config = m.config) (hcells : m'.cells = m.cells) :
    m'.arrive troop = m.arrive troop := by
  simp only [arrive, cellAt, cellIndex, hconfig, hcells]

/-- **How a troop marches**: it is nowhere else, or at two scaled offsets from where it set out. -/
theorem interpolate_cases {t : ℤ} (h : interpolate scale troop t = some troop') :
    troop.arriveTime - troop.startTime ≤ 0 ∧ troop' = troop ∨
      0 < troop.arriveTime - troop.startTime ∧
        ∃ dx dy, scale (troop.toX - troop.fromX) (t - troop.startTime)
            (troop.arriveTime - troop.startTime) = some dx ∧
          scale (troop.toY - troop.fromY) (t - troop.startTime)
            (troop.arriveTime - troop.startTime) = some dy ∧
          troop' = { troop with currentX := troop.fromX + dx, currentY := troop.fromY + dy } := by
  obtain ⟨elapsed, helapsed, h⟩ := Option.bind_eq_some_iff.1 h
  obtain ⟨total, htotal, h⟩ := Option.bind_eq_some_iff.1 h
  obtain ⟨rfl, -⟩ : elapsed = _ ∧ _ := checked64_eq_some.1 helapsed
  obtain ⟨rfl, -⟩ : total = _ ∧ _ := checked64_eq_some.1 htotal
  split at h
  · next hpos =>
    obtain ⟨diffX, hdiffX, h⟩ := Option.bind_eq_some_iff.1 h
    obtain ⟨dx, hdx, h⟩ := Option.bind_eq_some_iff.1 h
    obtain ⟨x, hx, h⟩ := Option.bind_eq_some_iff.1 h
    obtain ⟨diffY, hdiffY, h⟩ := Option.bind_eq_some_iff.1 h
    obtain ⟨dy, hdy, h⟩ := Option.bind_eq_some_iff.1 h
    obtain ⟨y, hy, h⟩ := Option.bind_eq_some_iff.1 h
    obtain ⟨rfl, -⟩ := checked_eq_some.1 hdiffX
    obtain ⟨rfl, -⟩ := checked_eq_some.1 hx
    obtain ⟨rfl, -⟩ := checked_eq_some.1 hdiffY
    obtain ⟨rfl, -⟩ := checked_eq_some.1 hy
    exact .inr ⟨hpos, dx, dy, hdx, hdy, (Option.some.inj h).symm⟩
  · next hpos => exact .inl ⟨Int.not_lt.1 hpos, (Option.some.inj h).symm⟩

theorem sendOff_eq_some {toX toY now : ℤ} (h : sendOff troop toX toY now = some troop') :
    ∃ speed marchTime, troop.marchSpeed = some speed ∧
      calculateMarchTime troop.fromX troop.fromY toX toY speed = some marchTime ∧
      checked64 (now + marchTime) = some (now + marchTime) ∧
      troop' =
        { troop with
          toX, toY, state := .marching, startTime := now, arriveTime := now + marchTime } := by
  obtain ⟨speed, hspeed, h⟩ := Option.bind_eq_some_iff.1 h
  obtain ⟨marchTime, hmarch, h⟩ := Option.bind_eq_some_iff.1 h
  obtain ⟨arriveTime, harrive, h⟩ := Option.bind_eq_some_iff.1 h
  obtain ⟨rfl, hfits⟩ := checked64_eq_some.1 harrive
  exact ⟨speed, marchTime, hspeed, hmarch, harrive, (Option.some.inj h).symm⟩

/-! ## What an operation makes of a troop -/

/-- What an operation on troops makes of the stored troop `id`. -/
inductive Change (scale : ℤ → ℤ → ℤ → Option ℤ) (m : SlgMapManager) (id : UInt64)
    (troop : Troop) : TroopOp → Troop → Prop
  | create (ownerId : UInt64) (x y i c a s : ℤ) :
      Change scale m id troop (.create ownerId x y i c a s) troop
  | notSent (id' : UInt64) (x y now : ℤ) (h : id' = id → troop.state ≠ .idle) :
      Change scale m id troop (.move id' x y now) troop
  | sent (x y now : ℤ) (troop' : Troop) (hstate : troop.state = .idle)
      (hsend : sendOff troop x y now = some troop') :
      Change scale m id troop (.move id x y now) troop'
  | notTurned (id' : UInt64) (h : id' = id → troop.state ≠ .marching) :
      Change scale m id troop (.cancel id') troop
  | turned (hstate : troop.state = .marching) :
      Change scale m id troop (.cancel id) (turnBack troop)
  | stays (t : ℤ) (h : ¬ troop.Moving) : Change scale m id troop (.update t) troop
  | arrives (t : ℤ) (troop' : Troop) (hmoving : troop.Moving) (ht : troop.arriveTime ≤ t)
      (harrive : m.arrive troop = some troop') : Change scale m id troop (.update t) troop'
  | marches (t : ℤ) (troop' : Troop) (hmoving : troop.Moving) (ht : t < troop.arriveTime)
      (hinterpolate : interpolate scale troop t = some troop') :
      Change scale m id troop (.update t) troop'

theorem Change.same {id : UInt64} {o : TroopOp} (h : Change scale m id troop o troop') :
    Troop.Same troop troop' := by
  rcases h with _ | _ | ⟨x, y, now, _, -, hsend⟩ | _ | - | _ | ⟨t, _, -, -, harrive⟩ |
    ⟨t, _, -, -, hinterpolate⟩
  · exact .refl _
  · exact .refl _
  · obtain ⟨speed, marchTime, -, -, -, rfl⟩ := sendOff_eq_some hsend
    exact ⟨rfl, rfl, rfl, rfl, rfl, rfl⟩
  · exact .refl _
  · exact ⟨rfl, rfl, rfl, rfl, rfl, rfl⟩
  · exact .refl _
  · rcases arrive_cases harrive with rfl | ⟨-, rfl | rfl⟩ <;> exact ⟨rfl, rfl, rfl, rfl, rfl, rfl⟩
  · rcases interpolate_cases hinterpolate with ⟨-, rfl⟩ | ⟨-, dx, dy, -, -, rfl⟩
    · exact .refl _
    · exact ⟨rfl, rfl, rfl, rfl, rfl, rfl⟩

/-- Every troop is stored under its id, and the ids are numbers. -/
structure Tidy (m : SlgMapManager) : Prop where
  numbered : Numbered m.troops m.nextTroopId
  keyed : ∀ id troop, m.troops.lookup id = some troop → troop.troopId = id

/-- The other parts of the manager. -/
structure Frame (m m' : SlgMapManager) : Prop where
  config : m'.config = m.config
  cells : m'.cells = m.cells
  cities : m'.cities = m.cities
  nextCityId : m'.nextCityId = m.nextCityId

theorem Frame.refl (m : SlgMapManager) : Frame m m := ⟨rfl, rfl, rfl, rfl⟩

theorem Frame.trans {m'' : SlgMapManager} (h : Frame m m') (h' : Frame m' m'') : Frame m m'' :=
  ⟨h'.config.trans h.config, h'.cells.trans h.cells, h'.cities.trans h.cities,
    h'.nextCityId.trans h.nextCityId⟩

theorem Sized.of_frame (hs : m.Sized) (hframe : Frame m m') : m'.Sized := by
  refine ⟨?_, ?_⟩
  · rw [hframe.config]
    exact hs.area_le
  · rw [hframe.config, hframe.cells]
    exact hs.length_cells

theorem Tidy.replace (hm : m.Tidy) {id : UInt64} (hid : m.troops.lookup id = some troop)
    (hsame : Troop.Same troop troop') (aoi : GridAoi) :
    Tidy { m with troops := m.troops.insert id troop', aoi := aoi } := by
  refine ⟨hm.numbered.replace hid troop', fun j other hj ↦ ?_⟩
  rw [UnorderedMap.lookup_insert_ite] at hj
  split at hj
  · next heq =>
    cases hj
    rw [hsame.troopId, heq]
    exact hm.keyed id troop hid
  · exact hm.keyed j other hj

/-! ## What `update_troops` does -/

/-- An entity where its troop is now. -/
def follow (troop : Troop) (e : Entity) : Entity :=
  { e with x := troop.currentX, y := troop.currentY }

/-- What `update_troops` does to the troop with an id, if there is one, and to the entity with that
id. -/
inductive Updated (scale : ℤ → ℤ → ℤ → Option ℤ) (m : SlgMapManager) (t : ℤ) :
    Option Troop × Option Entity → Option Troop × Option Entity → Prop
  | absent (e : Option Entity) : Updated scale m t (none, e) (none, e)
  | stays (troop : Troop) (e : Option Entity) (h : ¬ troop.Moving) :
      Updated scale m t (some troop, e) (some troop, e)
  | arrives (troop troop' : Troop) (e : Option Entity) (hmoving : troop.Moving)
      (ht : troop.arriveTime ≤ t) (harrive : m.arrive troop = some troop') :
      Updated scale m t (some troop, e) (some troop', e.map (follow troop'))
  | marches (troop troop' : Troop) (e : Option Entity) (hmoving : troop.Moving)
      (ht : t < troop.arriveTime) (hinterpolate : interpolate scale troop t = some troop') :
      Updated scale m t (some troop, e) (some troop', e)

/-- A troop and the entity with its id. -/
def troopAndEntity (id : UInt64) (m : SlgMapManager) : Option Troop × Option Entity :=
  (m.troops.lookup id, m.aoi.entities.lookup id)

/-- Only the troops, their counter and the grid change. -/
theorem frame_mk (m : SlgMapManager) (troops : UnorderedMap UInt64 Troop) (next : UInt64)
    (aoi : GridAoi) : Frame m { m with troops := troops, nextTroopId := next, aoi := aoi } :=
  ⟨rfl, rfl, rfl, rfl⟩

/-- **One round of the loop.** -/
theorem updateTroop_spec {s s' : SlgMapManager} {t : ℤ} {id : UInt64} (hs : s.Tidy)
    (h : updateTroop scale t s id = some s') :
    Frame s s' ∧ s'.Tidy ∧ Updated scale s t (troopAndEntity id s) (troopAndEntity id s') ∧
      ∀ j, j ≠ id → troopAndEntity j s' = troopAndEntity j s := by
  rw [updateTroop] at h
  rcases hid : s.troops.lookup id with _ | troop <;> simp only [hid] at h
  · obtain rfl := Option.some.inj h
    refine ⟨.refl s, hs, ?_, fun _ _ ↦ rfl⟩
    rw [troopAndEntity, hid]
    exact .absent _
  · split at h
    · next hmoving =>
      split at h
      · next ht =>
        obtain ⟨troop', harrive, h⟩ := Option.bind_eq_some_iff.1 h
        obtain ⟨updated, hupdated, h⟩ := Option.bind_eq_some_iff.1 h
        obtain rfl := Option.some.inj h
        have hchange : Change scale s id troop (.update t) troop' :=
          .arrives t troop' hmoving ht harrive
        have hsame := hchange.same
        rw [hsame.troopId, hs.keyed id troop hid] at hupdated
        refine ⟨frame_mk _ _ _ _, hs.replace hid hsame _, ?_, fun j hj ↦ ?_⟩
        · simp only [troopAndEntity, UnorderedMap.lookup_insert_ite, if_true, hid,
            Aoi.GridAoi.lookup_updateEntity hupdated]
          exact .arrives troop troop' _ hmoving ht harrive
        · simp only [troopAndEntity, UnorderedMap.lookup_insert_ite, if_neg hj,
            Aoi.GridAoi.lookup_updateEntity hupdated]
      · next ht =>
        obtain ⟨troop', hinterpolate, h⟩ := Option.bind_eq_some_iff.1 h
        obtain rfl := Option.some.inj h
        have hchange : Change scale s id troop (.update t) troop' :=
          .marches t troop' hmoving (Int.not_le.1 ht) hinterpolate
        have hsame := hchange.same
        refine ⟨frame_mk _ _ _ _, hs.replace hid hsame s.aoi, ?_, fun j hj ↦ ?_⟩
        · simp only [troopAndEntity, UnorderedMap.lookup_insert_ite, if_true, hid]
          exact .marches troop troop' _ hmoving (Int.not_le.1 ht) hinterpolate
        · simp only [troopAndEntity, UnorderedMap.lookup_insert_ite, if_neg hj]
    · next hmoving =>
      obtain rfl := Option.some.inj h
      refine ⟨.refl s, hs, ?_, fun _ _ ↦ rfl⟩
      rw [troopAndEntity, hid]
      exact .stays troop _ hmoving

theorem Updated.congr {t : ℤ} {a b : Option Troop × Option Entity} (hconfig : m'.config = m.config)
    (hcells : m'.cells = m.cells) (h : Updated scale m' t a b) : Updated scale m t a b := by
  rcases h with e | ⟨troop, e, hmoving⟩ | ⟨troop, troop', e, hmoving, ht, harrive⟩ |
    ⟨troop, troop', e, hmoving, ht, hinterpolate⟩
  · exact .absent e
  · exact .stays troop e hmoving
  · exact .arrives troop troop' e hmoving ht (arrive_congr hconfig hcells ▸ harrive)
  · exact .marches troop troop' e hmoving ht hinterpolate

/-- **What a call of `update_troops` does**, to each troop and its entity by itself. -/
theorem updateTroops_spec (hm : m.Tidy) {t : ℤ} (h : m.updateTroops scale t = some m') :
    Frame m m' ∧ m'.Tidy ∧
      ∀ id, Updated scale m t (troopAndEntity id m) (troopAndEntity id m') := by
  have hstep : ∀ id ∈ m.troops.keys, ∀ s s' : SlgMapManager, (Frame m s ∧ s.Tidy) →
      updateTroop scale t s id = some s' →
        (Frame m s' ∧ s'.Tidy) ∧
          Updated scale m t (troopAndEntity id s) (troopAndEntity id s') ∧
          ∀ j, j ≠ id → troopAndEntity j s' = troopAndEntity j s := by
    rintro id - s s' ⟨hframe, hs⟩ hs'
    obtain ⟨hframe', htidy, hupdated, hother⟩ := updateTroop_spec hs hs'
    exact ⟨⟨hframe.trans hframe', htidy⟩, hupdated.congr hframe.config hframe.cells, hother⟩
  obtain ⟨⟨hframe, htidy⟩, hall, hnone⟩ := Loop.each (f := troopAndEntity)
    (R := fun _ a b ↦ Updated scale m t a b) hstep m.troops.keys_nodup ⟨.refl m, hm⟩ h
  refine ⟨hframe, htidy, fun id ↦ ?_⟩
  by_cases hid : id ∈ m.troops.keys
  · exact hall id hid
  · rw [hnone id hid, troopAndEntity, AList.lookup_eq_none.2 hid]
    exact .absent _

/-! ## What a step does -/

/-- What a step does to the troops: each stored troop undergoes a `Change`, and a troop that was not
there is one that `create_troop` made. -/
structure StepSpec (scale : ℤ → ℤ → ℤ → Option ℤ) (m : SlgMapManager) (o : TroopOp)
    (m' : SlgMapManager) : Prop where
  frame : Frame m m'
  tidy : m'.Tidy
  old : ∀ id troop, m.troops.lookup id = some troop →
    ∃ troop', m'.troops.lookup id = some troop' ∧ Change scale m id troop o troop'
  new : ∀ id troop', m.troops.lookup id = none → m'.troops.lookup id = some troop' →
    ∃ ownerId x y i c a s, o = .create ownerId x y i c a s ∧
      troop' = .fresh id ownerId x y i c a s

theorem StepSpec.refl {o : TroopOp} (hm : m.Tidy)
    (h : ∀ id troop, m.troops.lookup id = some troop → Change scale m id troop o troop) :
    StepSpec scale m o m := by
  refine ⟨.refl m, hm, fun id troop hid ↦ ⟨troop, hid, h id troop hid⟩,
    fun id troop' hnone hid ↦ ?_⟩
  rw [hnone] at hid
  cases hid

theorem StepSpec.replace {o : TroopOp} {id : UInt64} (hm : m.Tidy)
    (hid : m.troops.lookup id = some troop) (hchange : Change scale m id troop o troop')
    (hother : ∀ j, j ≠ id → ∀ other, Change scale m j other o other) :
    StepSpec scale m o { m with troops := m.troops.insert id troop' } := by
  refine ⟨⟨rfl, rfl, rfl, rfl⟩, hm.replace hid hchange.same m.aoi, fun j other hj ↦ ?_,
    fun j other hnone hj ↦ ?_⟩
  · rw [UnorderedMap.lookup_insert_ite]
    by_cases heq : j = id
    · rw [if_pos heq]
      rw [heq, hid, Option.some_inj] at hj
      exact ⟨troop', rfl, by rwa [heq, ← hj]⟩
    · rw [if_neg heq]
      exact ⟨other, hj, hother j heq other⟩
  · rw [UnorderedMap.lookup_insert_ite] at hj
    split at hj
    · next heq =>
      rw [heq, hid] at hnone
      cases hnone
    · rw [hnone] at hj
      cases hj

theorem createTroop_spec (hm : m.Tidy) {ownerId id : UInt64} {x y i c a s : ℤ}
    (h : m.createTroop ownerId x y i c a s = some (id, m')) :
    StepSpec scale m (.create ownerId x y i c a s) m' := by
  obtain ⟨hroom, h⟩ := Option.ite_none_right_eq_some.1 h
  obtain ⟨added, -, h⟩ := Option.bind_eq_some_iff.1 h
  obtain ⟨rfl, rfl⟩ := Prod.mk.inj (Option.some.inj h)
  refine ⟨frame_mk _ _ _ _, ⟨hm.numbered.insert hroom _, fun j other hj ↦ ?_⟩,
    fun id troop hid ↦ ⟨troop, ?_, .create _ _ _ _ _ _ _⟩, fun id troop' hnone hid ↦ ?_⟩
  · rw [UnorderedMap.lookup_insert_ite] at hj
    split at hj
    · next heq =>
      cases hj
      exact heq.symm
    · exact hm.keyed j other hj
  · rw [UnorderedMap.lookup_insert_ite, if_neg (hm.numbered.ne_next hid)]
    exact hid
  · rw [UnorderedMap.lookup_insert_ite] at hid
    split at hid
    · next heq =>
      cases hid
      exact ⟨ownerId, x, y, i, c, a, s, rfl, by rw [heq]; rfl⟩
    · rw [hnone] at hid
      cases hid

theorem moveTroop_spec (hm : m.Tidy) {id : UInt64} {x y now : ℤ} {b : Bool}
    (h : m.moveTroop id x y now = some (b, m')) : StepSpec scale m (.move id x y now) m' := by
  rw [moveTroop] at h
  rcases hid : m.troops.lookup id with _ | troop <;> simp only [hid] at h
  · obtain ⟨-, rfl⟩ := Prod.mk.inj (Option.some.inj h)
    refine .refl hm fun j other hj ↦ .notSent id x y now fun heq ↦ ?_
    rw [← heq, hid] at hj
    cases hj
  · split at h
    · next hstate =>
      obtain ⟨-, rfl⟩ := Prod.mk.inj (Option.some.inj h)
      refine .refl hm fun j other hj ↦ .notSent id x y now fun heq ↦ ?_
      rw [← heq, hid, Option.some_inj] at hj
      rwa [← hj]
    · next hstate =>
      obtain ⟨troop', hsend, h⟩ := Option.bind_eq_some_iff.1 h
      obtain ⟨-, rfl⟩ := Prod.mk.inj (Option.some.inj h)
      exact .replace hm hid (.sent x y now troop' (not_not.1 hstate) hsend) fun j hj other ↦
        .notSent id x y now fun heq ↦ absurd heq.symm hj

theorem cancelTroop_spec (hm : m.Tidy) (id : UInt64) :
    StepSpec scale m (.cancel id) (m.cancelTroop id).2 := by
  rw [cancelTroop]
  rcases hid : m.troops.lookup id with _ | troop
  · refine .refl hm fun j other hj ↦ .notTurned id fun heq ↦ ?_
    rw [← heq, hid] at hj
    cases hj
  · simp only
    split
    · next hstate =>
      refine .refl hm fun j other hj ↦ .notTurned id fun heq ↦ ?_
      rw [← heq, hid, Option.some_inj] at hj
      rwa [← hj]
    · next hstate =>
      exact .replace hm hid (.turned (not_not.1 hstate)) fun j hj other ↦
        .notTurned id fun heq ↦ absurd heq.symm hj

/-- **What a step does to the troops.** -/
theorem troopStep_spec (hm : m.Tidy) {o : TroopOp} (h : troopStep scale m o = some m') :
    StepSpec scale m o m' := by
  rcases o with ⟨ownerId, x, y, i, c, a, s⟩ | ⟨id, x, y, now⟩ | id | t
  · obtain ⟨⟨id, _⟩, hcreate, rfl⟩ := Option.map_eq_some_iff.1 h
    exact createTroop_spec hm hcreate
  · obtain ⟨⟨b, _⟩, hmove, rfl⟩ := Option.map_eq_some_iff.1 h
    exact moveTroop_spec hm hmove
  · obtain rfl := Option.some.inj h
    exact cancelTroop_spec hm id
  · obtain ⟨hframe, htidy, hall⟩ := updateTroops_spec hm h
    refine ⟨hframe, htidy, fun id troop hid ↦ ?_, fun id troop' hnone hid ↦ ?_⟩
    · have hupdated := hall id
      simp only [troopAndEntity, hid] at hupdated
      generalize m'.troops.lookup id = r, m'.aoi.entities.lookup id = e at hupdated
      rcases hupdated with _ | ⟨_, _, hmoving⟩ | ⟨_, troop', _, hmoving, ht, harrive⟩ |
        ⟨_, troop', _, hmoving, ht, hinterpolate⟩
      · exact ⟨troop, rfl, .stays t hmoving⟩
      · exact ⟨troop', rfl, .arrives t troop' hmoving ht harrive⟩
      · exact ⟨troop', rfl, .marches t troop' hmoving ht hinterpolate⟩
    · have hupdated := hall id
      simp only [troopAndEntity, hnone, hid] at hupdated
      cases hupdated

/-! ## Runs -/

/-- No troop has been created yet. -/
structure NoTroops (m : SlgMapManager) : Prop where
  troops_eq : m.troops = ∅
  next_eq : m.nextTroopId = 1
  aoi_new : ∃ hasCallback, GridAoi.new ⟨1000, 1000, 50, 1⟩ hasCallback = some m.aoi

/-- No troop is stored. -/
theorem NoTroops.not_stored (h : m.NoTroops) (id : UInt64) (troop : Troop) :
    m.troops.lookup id ≠ some troop := by
  rw [h.troops_eq, AList.lookup_empty]
  exact nofun

theorem NoTroops.tidy (h : m.NoTroops) : m.Tidy := by
  refine ⟨?_, fun id troop hid ↦ absurd hid (h.not_stored id troop)⟩
  rw [h.troops_eq, h.next_eq]
  exact .empty

/-- A manager as its constructor and `init` leave it. -/
theorem of_init {config : SlgMapConfig} {cb : Bool} (hinit : (new config cb).bind init = some m) :
    m.config = config ∧ m.Placed ∧ m.NoTroops := by
  obtain ⟨m₀, hnew, hinit⟩ := Option.bind_eq_some_iff.1 hinit
  have hsame : SameTroops m₀ m := sameTroops_mapStep (o := .init) hinit
  obtain ⟨aoi, haoi, rfl⟩ := Option.map_eq_some_iff.1 hnew
  refine ⟨hsame.config, placed_of_init hinit, hsame.troops, hsame.nextTroopId, cb, ?_⟩
  rw [hsame.aoi]
  exact haoi

variable {m₀ : SlgMapManager} {ops : List TroopOp}

theorem tidy_run (hm : m.Tidy) (hrun : (troopSystem scale).Run m ops m') :
    Frame m m' ∧ m'.Tidy := by
  refine hrun.invariant (motive := fun m' ↦ Frame m m' ∧ m'.Tidy) ?_ ⟨.refl m, hm⟩
  rintro s o s' ⟨hframe, hs⟩ hstep
  have hspec := troopStep_spec hs hstep
  exact ⟨hframe.trans hspec.frame, hspec.tidy⟩

/-- **What every change keeps holds of all troops** in every state of a run that satisfies a
guard. -/
theorem forall_troop_run {I : Troop → Prop} {g : SlgMapManager → TroopOp → Prop}
    (hfresh : ∀ m ownerId x y i c a s, Frame m₀ m → g m (.create ownerId x y i c a s) →
      ∀ id, I (.fresh id ownerId x y i c a s))
    (hchange : ∀ m id troop o troop', Frame m₀ m → g m o → m.troops.lookup id = some troop →
      I troop → Change scale m id troop o troop' → I troop')
    (h₀ : m₀.NoTroops) (hrun : ((troopSystem scale).guarded g).Run m₀ ops m) :
    ∀ id troop, m.troops.lookup id = some troop → I troop := by
  refine (hrun.invariant (motive := fun m ↦ (Frame m₀ m ∧ m.Tidy) ∧
    ∀ id troop, m.troops.lookup id = some troop → I troop) ?_ ⟨⟨.refl m₀, h₀.tidy⟩, ?_⟩).2
  · rintro s o s' ⟨⟨hframe, hs⟩, hall⟩ ⟨hg, hstep⟩
    have hspec := troopStep_spec hs hstep
    refine ⟨⟨hframe.trans hspec.frame, hspec.tidy⟩, fun id troop' hid ↦ ?_⟩
    rcases hold : s.troops.lookup id with _ | troop
    · obtain ⟨ownerId, x, y, i, c, a, n, rfl, rfl⟩ := hspec.new id troop' hold hid
      exact hfresh s ownerId x y i c a n hframe hg id
    · obtain ⟨troop'', hid', hch⟩ := hspec.old id troop hold
      obtain rfl := Option.some.inj (hid'.symm.trans hid)
      exact hchange s id troop o _ hframe hg hold (hall id troop hold) hch
  · exact fun id troop hid ↦ absurd hid (h₀.not_stored id troop)

end SlgMapManager
end Slg
end ChwellCore
