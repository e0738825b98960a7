import ChwellCore.Slg.March

/-!
# Which troops can be made idle again

Two operations end a march: `cancel_troop` turns the troop back, and `update_troops` ends the way
back or the march itself.  A march to a resource or to a cell of somebody else ends in `GATHERING`
or in `BATTLE`, and no operation looks at a troop in these states (`lookup_of_engaged`).
`idle_again` says that these are the only troops that cannot be made idle.
-/

set_option autoImplicit false

namespace ChwellCore
namespace Slg

open CellGrid

/-- The troop gathers or fights. -/
def Troop.Engaged (troop : Troop) : Prop := troop.state = .gathering ∨ troop.state = .battle

/-- A march ends on the map, at a time that is an `int64_t`. -/
structure Troop.Bound (config : SlgMapConfig) (troop : Troop) : Prop where
  to_onMap : troop.state = .marching → InGrid config.width config.height (troop.toX, troop.toY)
  arriveTime_le : troop.Moving → troop.arriveTime ≤ 9223372036854775807

namespace SlgMapManager

variable {scale : ℤ → ℤ → ℤ → Option ℤ} {config : SlgMapConfig} {m₀ m m' : SlgMapManager}
  {ops : List Op} {troop troop' : Troop} {id : UInt64}

/-! ## Troops that gather or fight -/

/-- No operation on troops does anything about a troop that gathers or fights. -/
theorem Change.eq_of_engaged {o : TroopOp} (h : Change scale m id troop o troop')
    (he : troop.Engaged) : troop' = troop := by
  have hnot : ¬ troop.Moving := by
    rintro (hm | hm) <;> rcases he with he | he <;> rw [hm] at he <;> cases he
  rcases h with _ | _ | ⟨_, _, _, _, hidle, _⟩ | _ | hmarching | _ | ⟨_, _, hmoving, _, _⟩ |
    ⟨_, _, hmoving, _, _⟩
  · rfl
  · rfl
  · rcases he with he | he <;> rw [hidle] at he <;> cases he
  · rfl
  · exact absurd (.inl hmarching) hnot
  · rfl
  · exact absurd hmoving hnot
  · exact absurd hmoving hnot

theorem Tidy.of_sameTroops (hm : m.Tidy) (h : SameTroops m m') : m'.Tidy := by
  refine ⟨?_, ?_⟩
  · rw [h.troops, h.nextTroopId]
    exact hm.numbered
  · rw [h.troops]
    exact hm.keyed

/-- An operation on the map or on a cell does nothing about the troops. -/
theorem step_cases {o : Op} (h : step scale m o = some m') :
    SameTroops m m' ∨ ∃ o', o = .troop o' ∧ troopStep scale m o' = some m' := by
  rcases o with o | o | o
  · exact .inl (sameTroops_mapStep h)
  · exact .inl (sameTroops_cellStep h)
  · exact .inr ⟨o, rfl, h⟩

/-- **A troop that gathers or fights does so for ever**, whatever is called. -/
theorem lookup_of_engaged (hm : m.Tidy) (hid : m.troops.lookup id = some troop)
    (he : troop.Engaged) (hrun : (system scale).Run m ops m') :
    m'.troops.lookup id = some troop := by
  refine (hrun.invariant (motive := fun s ↦ s.Tidy ∧ s.troops.lookup id = some troop) ?_
    ⟨hm, hid⟩).2
  rintro s o s' ⟨hs, hid⟩ hstep
  rcases step_cases hstep with hsame | ⟨o', -, hstep⟩
  · exact ⟨hs.of_sameTroops hsame, by rw [hsame.troops]; exact hid⟩
  · have hspec := troopStep_spec hs hstep
    obtain ⟨troop', hid', hchange⟩ := hspec.old id troop hid
    rw [hchange.eq_of_engaged he] at hid'
    exact ⟨hspec.tidy, hid'⟩

/-! ## Troops that can be made idle -/

/-- What is true in every state of a run with destinations on the map. -/
structure Orderly (m : SlgMapManager) : Prop where
  sized : m.Sized
  tidy : m.Tidy
  watched : m.Watched
  bound : ∀ id troop, m.troops.lookup id = some troop → troop.Bound m.config

/-- `OnMap`, for all operations. -/
def SentOnMap (m : SlgMapManager) : Op → Prop
  | .troop o => m.OnMap o
  | _ => True

instance (m : SlgMapManager) : ∀ o, Decidable (m.SentOnMap o)
  | .troop o => inferInstanceAs (Decidable (m.OnMap o))
  | .map _ | .cell _ => .isTrue trivial

theorem bound_fresh (config : SlgMapConfig) (id ownerId : UInt64) (x y i c a s : ℤ) :
    (Troop.fresh id ownerId x y i c a s).Bound config :=
  ⟨nofun, fun hm ↦ hm.elim nofun nofun⟩

theorem Change.bound {o : TroopOp} (h : Change scale m id troop o troop')
    (hid : m.troops.lookup id = some troop) (hg : m.OnMap o) (hb : troop.Bound m.config) :
    troop'.Bound m.config := by
  refine ⟨fun hstate ↦ ?_, fun hmoving ↦ ?_⟩
  · rcases h.marching hstate with ⟨hm, hx, hy⟩ | ⟨hidle, x, y, now, rfl, hx, hy⟩
    · rw [hx, hy]
      exact hb.to_onMap hm
    · rw [hx, hy]
      exact hg troop hid hidle
  · rcases h with _ | _ | ⟨_, _, _, _, _, hsend⟩ | _ | hmarching | _ | ⟨_, _, _, _, harrive⟩ |
      ⟨_, _, hm, _, hinterpolate⟩
    · exact hb.arriveTime_le hmoving
    · exact hb.arriveTime_le hmoving
    · obtain ⟨speed, marchTime, -, -, hfits, rfl⟩ := sendOff_eq_some hsend
      exact (checked64_eq_some.1 hfits).2.2
    · exact hb.arriveTime_le hmoving
    · exact hb.arriveTime_le (.inl hmarching)
    · exact hb.arriveTime_le hmoving
    · rcases arrive_cases harrive with rfl | ⟨-, rfl | rfl⟩ <;>
        exact hmoving.elim nofun nofun
    · rcases interpolate_cases hinterpolate with ⟨-, rfl⟩ | ⟨-, dx, dy, -, -, rfl⟩ <;>
        exact hb.arriveTime_le hm

theorem Orderly.troopStep (hm : m.Orderly) {o : TroopOp} (hg : m.OnMap o)
    (h : troopStep scale m o = some m') : m'.Orderly := by
  have hspec := troopStep_spec hm.tidy h
  refine ⟨hm.sized.of_frame hspec.frame, hspec.tidy, hm.watched.troopStep h,
    fun id troop' hid' ↦ ?_⟩
  rw [hspec.frame.config]
  rcases hid : m.troops.lookup id with _ | troop
  · obtain ⟨_, _, _, _, _, _, _, -, rfl⟩ := hspec.new id troop' hid hid'
    exact bound_fresh _ _ _ _ _ _ _ _ _
  · obtain ⟨troop'', hid'', hchange⟩ := hspec.old id troop hid
    obtain rfl := Option.some.inj (hid''.symm.trans hid')
    exact hchange.bound hid hg (hm.bound id troop hid)

theorem Orderly.step (hm : m.Orderly) {o : Op} (hg : m.SentOnMap o)
    (h : step scale m o = some m') : m'.Orderly := by
  rcases step_cases h with hsame | ⟨o', rfl, hstep⟩
  · refine ⟨hsame.sized hm.sized, hm.tidy.of_sameTroops hsame, hm.watched.of_aoi_eq hsame.aoi, ?_⟩
    rw [hsame.troops, hsame.config]
    exact hm.bound
  · exact hm.troopStep hg hstep

theorem orderly_run {cb : Bool} (hinit : (new config cb).bind init = some m₀)
    (hrun : ((system scale).guarded SentOnMap).Run m₀ ops m) : m.Orderly := by
  obtain ⟨-, hplaced, hnone⟩ := of_init hinit
  refine hrun.invariant ?_ ⟨hplaced.toSized, hnone.tidy, hnone.watched, fun id troop hid ↦
    absurd hid (hnone.not_stored id troop)⟩
  rintro s o s' hs ⟨hg, hstep⟩
  exact hs.step hg hstep

variable (scale) in
/-- At the last time there is, every march ends. -/
theorem Orderly.exists_update (hm : m.Orderly) :
    ∃ m', m.updateTroops scale 9223372036854775807 = some m' := by
  refine exists_updateTroops hm.tidy hm.watched fun id troop hid hmoving ↦
    ⟨fun _ ↦ ?_, fun ht ↦ ?_⟩
  · have hb := hm.bound id troop hid
    rcases hmoving with hstate | hstate
    · obtain ⟨cell, hcell⟩ := hm.sized.exists_cellAt (hb.to_onMap hstate)
      exact arrive_isSome hcell
    · exact ⟨_, arrive_of_returning hstate⟩
  · exact absurd ((hm.bound id troop hid).arriveTime_le hmoving) (Int.not_le.2 ht)

/-- A troop on its way back can be made idle. -/
theorem Orderly.idle_of_returning (hm : m.Orderly) (hid : m.troops.lookup id = some troop)
    (hstate : troop.state = .returning) :
    ∃ m' back, (system scale).Run m [.troop (.update 9223372036854775807)] m' ∧
      m'.troops.lookup id = some back ∧ back.state = .idle := by
  obtain ⟨m', hupdate⟩ := hm.exists_update scale
  have hle := (hm.bound id troop hid).arriveTime_le (.inr hstate)
  exact ⟨m', troop.halt, .single (T := system scale) hupdate,
    update_of_returning hm.tidy hid hstate hle hupdate, rfl⟩

/-- **Which troops are stranded.**  In every state that any operations of the manager come to from
an initialised map, with `move_troop` called for destinations on the map only: a troop that neither
gathers nor fights is idle after `cancel_troop` and one `update_troops`, or the second of them, or
at once; and one that gathers or fights is never changed any more, whatever is called. -/
theorem idle_again {cb : Bool} (hinit : (new config cb).bind init = some m₀)
    (hrun : ((system scale).guarded SentOnMap).Run m₀ ops m)
    (hid : m.troops.lookup id = some troop) :
    (¬ troop.Engaged → ∃ ops' m' troop',
        ops' <:+ [.troop (.cancel id), .troop (.update 9223372036854775807)] ∧
          (system scale).Run m ops' m' ∧ m'.troops.lookup id = some troop' ∧
          troop'.state = .idle) ∧
      (troop.Engaged → ∀ ops' m', (system scale).Run m ops' m' →
        m'.troops.lookup id = some troop) := by
  have hm := orderly_run hinit hrun
  refine ⟨fun hnot ↦ ?_, fun he ops' m' hrun' ↦ lookup_of_engaged hm.tidy hid he hrun'⟩
  rcases hstate : troop.state with - | - | - | - | -
  · exact ⟨[], m, troop, List.nil_suffix, .nil, hid, hstate⟩
  · have hcancel : step scale m (.troop (.cancel id)) = some (m.cancelTroop id).2 := rfl
    have hg : m.SentOnMap (.troop (.cancel id)) := trivial
    have hm' := hm.step hg hcancel
    obtain ⟨back, hback, hreturning, -⟩ := goesHome_cancel hm.tidy hid hstate
    obtain ⟨m', back', hrun', hidle⟩ := hm'.idle_of_returning hback hreturning
    exact ⟨_, m', back', List.suffix_rfl, .cons (T := system scale) hcancel hrun', hidle⟩
  · exact absurd (.inl hstate) hnot
  · exact absurd (.inr hstate) hnot
  · obtain ⟨m', back', hrun', hidle⟩ := hm.idle_of_returning hid hstate
    exact ⟨_, m', back', List.suffix_cons _ _, hrun', hidle⟩

/-- A troop on its march, and one that has come to a resource. -/
theorem idle_again_two :
    ∃ m₀ m marcher gatherer, (new ⟨8, 8⟩ true).bind init = some m₀ ∧
      ((system fun d e t ↦ checked ((d * e).tdiv t)).guarded SentOnMap).Run m₀
        [.cell (.updateCell 2 0 { x := 2, resourceType := 1 }), .troop (.create 7 0 0 10 5 0 0),
          .troop (.create 7 1 1 10 5 0 0), .troop (.move 1 7 7 1000), .troop (.move 2 2 0 1000),
          .troop (.update 1020)] m ∧
      (m.troops.lookup 1 = some marcher ∧ marcher.state = .marching ∧ ∃ ops' m' troop',
        ops' <:+ [.troop (.cancel 1), .troop (.update 9223372036854775807)] ∧
          (system fun d e t ↦ checked ((d * e).tdiv t)).Run m ops' m' ∧
          m'.troops.lookup 1 = some troop' ∧ troop'.state = .idle) ∧
      m.troops.lookup 2 = some gatherer ∧ gatherer.state = .gathering ∧
        ∀ ops' m', (system fun d e t ↦ checked ((d * e).tdiv t)).Run m ops' m' →
          m'.troops.lookup 2 = some gatherer := by
  obtain ⟨m₀, hinit, hany⟩ : ∃ m₀ ∈ (new ⟨8, 8⟩ true).bind init,
      ([Op.cell (.updateCell 2 0 { x := 2, resourceType := 1 }), .troop (.create 7 0 0 10 5 0 0),
          .troop (.create 7 1 1 10 5 0 0), .troop (.move 1 7 7 1000), .troop (.move 2 2 0 1000),
          .troop (.update 1020)].foldlM
        (fun (s : SlgMapManager) o ↦
          if s.SentOnMap o then step (fun d e t ↦ checked ((d * e).tdiv t)) s o else none) m₀).any
        (fun m ↦ decide ((∃ troop ∈ m.troops.lookup 1, troop.state = .marching) ∧
          ∃ troop ∈ m.troops.lookup 2, troop.state = .gathering)) = true := by
    decide +kernel
  obtain ⟨m, hrun, ⟨marcher, hid, hstate⟩, gatherer, hid', hstate'⟩ :=
    System.Run.exists_of_any_guarded hany
  have hnot : ¬ marcher.Engaged := by
    rintro (he | he) <;> rw [hstate] at he <;> cases he
  exact ⟨m₀, m, marcher, gatherer, hinit, hrun, ⟨hid, hstate, (idle_again hinit hrun hid).1 hnot⟩,
    hid', hstate', (idle_again hinit hrun hid').2 (.inl hstate')⟩

/-- A troop that has come to a resource is not idle any more. -/
theorem stranded_at_resource :
    ¬ ∀ (scale : ℤ → ℤ → ℤ → Option ℤ) (config : SlgMapConfig) (cb : Bool)
      (m₀ m : SlgMapManager) (ops : List Op), (new config cb).bind init = some m₀ →
        ((system scale).guarded SentOnMap).Run m₀ ops m →
          ∀ id troop, m.troops.lookup id = some troop →
            ∃ ops' m' troop', (system scale).Run m ops' m' ∧
              m'.troops.lookup id = some troop' ∧ troop'.state = .idle := by
  intro hall
  obtain ⟨m₀, hinit, hany⟩ : ∃ m₀ ∈ (new ⟨8, 8⟩ true).bind init,
      ([Op.cell (.updateCell 2 0 { x := 2, resourceType := 1 }), .troop (.create 7 0 0 10 5 0 0),
          .troop (.move 1 2 0 1000), .troop (.update 2000)].foldlM
        (fun (s : SlgMapManager) o ↦
          if s.SentOnMap o then step (fun _ _ _ ↦ none) s o else none) m₀).any
        (fun m ↦ decide (∃ troop ∈ m.troops.lookup 1, troop.state = .gathering)) = true := by
    decide +kernel
  obtain ⟨m, hrun, troop, hid, hstate⟩ := System.Run.exists_of_any_guarded hany
  obtain ⟨ops', m', troop', hrun', hid', hidle⟩ := hall _ _ _ m₀ m _ hinit hrun 1 troop hid
  have hsame := lookup_of_engaged (orderly_run hinit hrun).tidy hid (.inl hstate) hrun'
  rw [hsame, Option.some_inj] at hid'
  rw [← hid', hstate] at hidle
  cases hidle

end SlgMapManager
end Slg
end ChwellCore
