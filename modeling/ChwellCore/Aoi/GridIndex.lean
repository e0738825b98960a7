import ChwellCore.Aoi.Grid
import Mathlib.Data.List.Induction

/-!
# The index of the grid

Three tables of `GridAoi` say where an entity is: its coordinates, the set of ids in each cell, and
the cached cell of its id.  `Indexed` is the invariant that they say the same, over a grid of `w`
columns and `h` rows (`Dims`).

* `Indexed.change` is the one place where the invariant is established again: every call changes the
  entry of one id, and all that has to be checked are the sets that gain or lose it.
* `exec_effect` says what an operation can do, events included, and everything about runs is derived
  from it.
* `Indexed.idsIn_spec` and `Indexed.notify_spec` read off what a loop over cells comes across; a
  query is the case of a window.
* `indexExact_iff` says that the index and the queries are exact in every run if and only if the
  configuration fits into `int`s (`Config.Fits`).  What usually breaks it is the view range: the
  bounds of a window are clamped to the grid after they were added up, not before.
-/

set_option autoImplicit false

namespace ChwellCore
namespace Aoi

open CellGrid

/-! ## What a configuration computes -/

/-- The configuration makes a grid of `w` columns and `h` rows. -/
structure Dims (c : Config) (w h : ℤ) : Prop where
  one_le_gridSize : 1 ≤ c.gridSize
  xCount : c.gridXCount = some w
  yCount : c.gridYCount = some h
  one_le_w : 1 ≤ w
  one_le_h : 1 ≤ h
  area_le : w * h ≤ 2147483647

namespace Config

/-- The cell of a position, in a grid of `w` columns and `h` rows. -/
def cell (c : Config) (w h x y : ℤ) : ℤ × ℤ :=
  (max 0 (min (x.tdiv c.gridSize) (w - 1)), max 0 (min (y.tdiv c.gridSize) (h - 1)))

/-- The cells in view of a position. -/
def view (c : Config) (w h x y : ℤ) : Rect := window w h c.viewRange (c.cell w h x y)

end Config

namespace Dims

variable {c : Config} {w h : ℤ} (hd : Dims c w h)

include hd

theorem w_le : w ≤ 2147483647 := by
  have h1 := hd.area_le
  have h2 := hd.one_le_w
  have h3 := hd.one_le_h
  nlinarith

theorem h_le : h ≤ 2147483647 := by
  have h1 := hd.area_le
  have h2 := hd.one_le_w
  have h3 := hd.one_le_h
  nlinarith

theorem cell_inGrid (x y : ℤ) : InGrid w h (c.cell w h x y) := by
  have hw := hd.one_le_w
  have hh := hd.one_le_h
  simp only [InGrid, Config.cell]
  omega

theorem clampCell_eq (pos : ℤ) {count : Option ℤ} {n : ℤ} (hc : count = some n) (h1 : 1 ≤ n)
    (h2 : n ≤ 2147483647) :
    c.clampCell pos count = some (max 0 (min (pos.tdiv c.gridSize) (n - 1))) := by
  rw [Config.clampCell, quot_of_pos hd.one_le_gridSize, hc]
  simp only [Option.bind_eq_bind, Option.bind_some]
  rw [checked_of_mem (by omega) (by omega), Option.bind_some]

theorem posToGrid_eq (x y : ℤ) : c.posToGrid x y = some (c.cell w h x y) := by
  rw [Config.posToGrid, hd.clampCell_eq x hd.xCount hd.one_le_w hd.w_le,
    hd.clampCell_eq y hd.yCount hd.one_le_h hd.h_le]
  rfl

theorem gridIndex_eq {p : ℤ × ℤ} (hp : InGrid w h p) :
    c.gridIndex p.1 p.2 = some (rowMajor w p) := by
  have h0 := rowMajor_nonneg hp
  have hlt := rowMajor_lt hp
  have harea := hd.area_le
  have hrow : 0 ≤ p.2 * w := mul_nonneg hp.2.2.1 (by have := hd.one_le_w; omega)
  have hcol := hp.1
  rw [rowMajor] at h0 hlt ⊢
  rw [Config.gridIndex, hd.xCount]
  simp only [Option.bind_eq_bind, Option.bind_some]
  rw [checked_of_mem (by omega) (by omega), Option.bind_some,
    checked_of_mem (by omega) (by omega)]

/-- Where the cells in view are computed at all, they are those near the cell of the position. -/
theorem getGridsInView_eq_some {x y : ℤ} {r : Rect} (hr : c.getGridsInView x y = some r) :
    r = c.view w h x y ∧ (c.cell w h x y).1 + c.viewRange ≤ 2147483647 ∧
      (c.cell w h x y).2 + c.viewRange ≤ 2147483647 := by
  rw [Config.getGridsInView, hd.posToGrid_eq, hd.xCount, hd.yCount] at hr
  simp only [Option.bind_eq_bind, Option.bind_some, Option.bind_eq_some_iff, checked_eq_some]
    at hr
  obtain ⟨_, ⟨rfl, -⟩, _, ⟨rfl, -⟩, _, ⟨rfl, -⟩, _, ⟨rfl, -, hx⟩, _, ⟨rfl, -⟩, _, ⟨rfl, -, hy⟩,
    he⟩ := hr
  cases he
  exact ⟨rfl, hx, hy⟩

/-- They are computed if the view does not reach too far behind the last cell. -/
theorem getGridsInView_eq (hv : 0 ≤ c.viewRange) (hx : w - 1 + c.viewRange ≤ 2147483647)
    (hy : h - 1 + c.viewRange ≤ 2147483647) (x y : ℤ) :
    c.getGridsInView x y = some (c.view w h x y) := by
  obtain ⟨h1, h2, h3, h4⟩ := hd.cell_inGrid x y
  have hw := hd.w_le
  have hh := hd.h_le
  rw [Config.getGridsInView, hd.posToGrid_eq, hd.xCount, hd.yCount]
  simp only [Option.bind_eq_bind, Option.bind_some]
  rw [checked_of_mem (by omega) (by omega), Option.bind_some,
    checked_of_mem (by omega) (by omega), Option.bind_some,
    checked_of_mem (by omega) (by omega), Option.bind_some,
    checked_of_mem (by omega) (by omega), Option.bind_some,
    checked_of_mem (by omega) (by omega), Option.bind_some,
    checked_of_mem (by omega) (by omega), Option.bind_some]
  rfl

end Dims

/-! ## The invariant -/

namespace GridAoi

/-- The cell of an entity. -/
def cellOf (s : GridAoi) (w h : ℤ) (e : Entity) : ℤ × ℤ := s.config.cell w h e.x e.y

/-- The three tables agree on where each entity is. -/
structure Indexed (s : GridAoi) (w h : ℤ) : Prop where
  dims : Dims s.config w h
  length_grids : s.grids.length = (w * h).toNat
  keyed : ∀ id e, s.entities.lookup id = some e → e.id = id
  cached : ∀ id, s.entityToGrid.lookup id =
    (s.entities.lookup id).map fun e ↦ rowMajor w (s.cellOf w h e)
  bucketed : ∀ idx b, s.bucket idx = some b → ∀ id,
    id ∈ b ↔ ∃ e, s.entities.lookup id = some e ∧ rowMajor w (s.cellOf w h e) = idx

theorem bucket_eq_some_iff {s : GridAoi} {idx : ℤ} {b : UnorderedSet UInt64} :
    s.bucket idx = some b ↔ 0 ≤ idx ∧ s.grids[idx.toNat]? = some b := by
  rw [bucket]
  split
  · next h =>
    refine ⟨fun he ↦ ?_, fun he ↦ ?_⟩
    · cases he
    · omega
  · next h => exact ⟨fun he ↦ ⟨by omega, he⟩, fun he ↦ he.2⟩

/-- What is in the cells after one of them was changed. -/
theorem bucket_set {s : GridAoi} {idx : ℤ} {b : UnorderedSet UInt64} (hb : s.bucket idx = some b)
    (b' : UnorderedSet UInt64) (j : ℤ) :
    bucket { s with grids := s.grids.set idx.toNat b' } j =
      if j = idx then some b' else s.bucket j := by
  obtain ⟨h0, hget⟩ := bucket_eq_some_iff.1 hb
  have hlt : idx.toNat < s.grids.length := (List.getElem?_eq_some_iff.1 hget).1
  by_cases hneg : j < 0
  · rw [bucket, if_pos hneg, if_neg (by omega), bucket, if_pos hneg]
  · rw [bucket, if_neg hneg]
    split
    · next he =>
      subst he
      exact List.getElem?_set_self hlt
    · next hne =>
      rw [bucket, if_neg hneg]
      exact List.getElem?_set_ne (by omega)

theorem modifyBucket_eq {s : GridAoi} {idx : ℤ} {b : UnorderedSet UInt64}
    (hb : s.bucket idx = some b) (f : UnorderedSet UInt64 → UnorderedSet UInt64) :
    s.modifyBucket idx f = some { s with grids := s.grids.set idx.toNat (f b) } := by
  rw [modifyBucket, hb]
  rfl

namespace Indexed

variable {s : GridAoi} {w h : ℤ} (hi : s.Indexed w h)

include hi

theorem exists_bucket {p : ℤ × ℤ} (hp : InGrid w h p) : ∃ b, s.bucket (rowMajor w p) = some b := by
  have h0 := rowMajor_nonneg hp
  have hlt := rowMajor_lt hp
  have hlen : (rowMajor w p).toNat < s.grids.length := by
    rw [hi.length_grids]
    omega
  exact ⟨_, bucket_eq_some_iff.2 ⟨h0, List.getElem?_eq_getElem hlen⟩⟩

theorem cellOf_inGrid (e : Entity) : InGrid w h (s.cellOf w h e) := hi.dims.cell_inGrid e.x e.y

/-- The ids in a cell are those of the entities there. -/
theorem idsAt_spec {p : ℤ × ℤ} (hp : InGrid w h p) :
    ∃ ids, s.idsAt p = some ids ∧ ids.Nodup ∧
      ∀ id, id ∈ ids ↔ ∃ e, s.entities.lookup id = some e ∧ s.cellOf w h e = p := by
  obtain ⟨b, hb⟩ := hi.exists_bucket hp
  refine ⟨b.toList, ?_, b.nodup, fun id ↦ ?_⟩
  · rw [idsAt, hi.dims.gridIndex_eq hp]
    simp only [Option.bind_eq_bind, Option.bind_some, hb]
  · have hmem := hi.bucketed _ b hb id
    rw [UnorderedSet.mem_def] at hmem
    rw [hmem]
    refine exists_congr fun e ↦ and_congr_right fun _ ↦ ?_
    exact rowMajor_inj (hi.cellOf_inGrid e) hp

/-- **The ids in a list of cells** are those of the entities there, each once. -/
theorem idsIn_spec {cells : List (ℤ × ℤ)} (hcells : ∀ p ∈ cells, InGrid w h p)
    (hnodup : cells.Nodup) :
    ∃ ids, s.idsIn cells = some ids ∧ ids.Nodup ∧
      ∀ id, id ∈ ids ↔ ∃ e, s.entities.lookup id = some e ∧ s.cellOf w h e ∈ cells := by
  induction cells with
  | nil => exact ⟨[], rfl, .nil, by simp⟩
  | cons p ps ih =>
    rw [List.forall_mem_cons] at hcells
    obtain ⟨hp, hps⟩ := List.nodup_cons.1 hnodup
    obtain ⟨ids, hids, hn, hmem⟩ := hi.idsAt_spec hcells.1
    obtain ⟨rest, hrest, hn', hmem'⟩ := ih hcells.2 hps
    refine ⟨ids ++ rest, ?_, ?_, fun id ↦ ?_⟩
    · rw [idsIn, hids, hrest]
      rfl
    · -- an entity is in one cell, so it is not found in two
      refine List.nodup_append'.2 ⟨hn, hn', fun id h1 h2 ↦ ?_⟩
      obtain ⟨e, he, hcell⟩ := (hmem id).1 h1
      obtain ⟨e', he', hcell'⟩ := (hmem' id).1 h2
      rw [he, Option.some.injEq] at he'
      rw [← he', hcell] at hcell'
      exact hp hcell'
    · rw [List.mem_append, hmem, hmem', ← exists_or]
      refine exists_congr fun e ↦ ?_
      rw [List.mem_cons, and_or_left]

/-- **Whom a loop over cells notifies**: everyone in the cells but the entity itself, once. -/
theorem notify_spec (id : UInt64) {cells : List (ℤ × ℤ)} (hcells : ∀ p ∈ cells, InGrid w h p)
    (hnodup : cells.Nodup) (f : UInt64 → List AoiEvent) :
    ∃ others : List UInt64, s.notify id cells f = some (others.flatMap f) ∧ others.Nodup ∧
      ∀ o, o ∈ others ↔
        o ≠ id ∧ ∃ e, s.entities.lookup o = some e ∧ s.cellOf w h e ∈ cells := by
  obtain ⟨ids, hids, hn, hmem⟩ := hi.idsIn_spec hcells hnodup
  refine ⟨ids.filter fun o ↦ decide (o ≠ id), ?_, hn.filter _, fun o ↦ ?_⟩
  · rw [notify, hids]
    rfl
  · rw [List.mem_filter, hmem, decide_eq_true_eq, and_comm]

end Indexed

/-! ## What a call changes -/

/-- From `s` to `s'` the entry of `id` becomes `v`, and the others stay. -/
structure Changed (s s' : GridAoi) (id : UInt64) (v : Option Entity) : Prop where
  config : s'.config = s.config
  hasCallback : s'.hasCallback = s.hasCallback
  lookup : ∀ k, s'.entities.lookup k = if k = id then v else s.entities.lookup k

/-- **The invariant after a change of one entry**: it is enough that the cache has the new cell and
that the sets of ids differ by `id`, which is in the set of the new cell and in no other. -/
theorem Indexed.change {s s' : GridAoi} {w h : ℤ} (hi : s.Indexed w h) {id : UInt64}
    {v : Option Entity} (hc : Changed s s' id v) (hkey : ∀ e, v = some e → e.id = id)
    (hlen : s'.grids.length = s.grids.length)
    (hcache : ∀ k, s'.entityToGrid.lookup k =
      if k = id then v.map fun e ↦ rowMajor w (s.cellOf w h e) else s.entityToGrid.lookup k)
    (hbucket : ∀ idx b', s'.bucket idx = some b' → ∃ b, s.bucket idx = some b ∧
      ∀ k, k ∈ b' ↔
        if k = id then ∃ e, v = some e ∧ rowMajor w (s.cellOf w h e) = idx else k ∈ b) :
    s'.Indexed w h := by
  have hcell : ∀ e, s'.cellOf w h e = s.cellOf w h e := by
    intro e
    rw [cellOf, cellOf, hc.config]
  refine ⟨?_, ?_, fun k e ↦ ?_, fun k ↦ ?_, fun idx b' hb' k ↦ ?_⟩
  · rw [hc.config]
    exact hi.dims
  · rw [hlen, hi.length_grids]
  · rw [hc.lookup]
    split
    · next hk =>
      rw [hk]
      exact hkey e
    · exact hi.keyed k e
  · simp only [hcell, hc.lookup, hcache]
    split
    · rfl
    · exact hi.cached k
  · obtain ⟨b, hb, hmem⟩ := hbucket idx b' hb'
    simp only [hcell, hc.lookup, hmem]
    split
    · rfl
    · exact hi.bucketed idx b hb k

section Calls

variable {s : GridAoi} {w h : ℤ}

section Buckets

variable {id : UInt64} {v : Option Entity} {idx : ℤ} {b : UnorderedSet UInt64}

/-- The set of the new cell gets the id. -/
theorem mem_insert_change {e : Entity} (he : rowMajor w (s.cellOf w h e) = idx) (k : UInt64) :
    k ∈ b.insert id ↔
      if k = id then ∃ e', some e = some e' ∧ rowMajor w (s.cellOf w h e') = idx else k ∈ b := by
  rw [UnorderedSet.mem_insert]
  split
  · next hk => simp [hk, he]
  · next hk => simp [hk]

/-- The set of the old cell loses it. -/
theorem mem_erase_change (hv : ∀ e, v = some e → rowMajor w (s.cellOf w h e) ≠ idx) (k : UInt64) :
    k ∈ b.erase id ↔
      if k = id then ∃ e, v = some e ∧ rowMajor w (s.cellOf w h e) = idx else k ∈ b := by
  rw [UnorderedSet.mem_erase]
  split
  · next hk => exact iff_of_false (fun hmem ↦ hmem.1 hk) fun ⟨e, he, hidx⟩ ↦ hv e he hidx
  · next hk => simp [hk]

/-- The set of any other cell had not got it and does not get it. -/
theorem Indexed.mem_change (hi : s.Indexed w h) (hb : s.bucket idx = some b)
    (hold : ∀ e, s.entities.lookup id = some e → rowMajor w (s.cellOf w h e) ≠ idx)
    (hv : ∀ e, v = some e → rowMajor w (s.cellOf w h e) ≠ idx) (k : UInt64) :
    k ∈ b ↔ if k = id then ∃ e, v = some e ∧ rowMajor w (s.cellOf w h e) = idx else k ∈ b := by
  split
  · next hk =>
    refine iff_of_false (fun hmem ↦ ?_) fun ⟨e, he, hidx⟩ ↦ hv e he hidx
    obtain ⟨e, he, hidx⟩ := (hi.bucketed idx b hb k).1 hmem
    exact hold e (hk ▸ he) hidx
  · rfl

end Buckets

/-- **`add_entity`** of an id that is not there. -/
theorem addEntity_spec (hi : s.Indexed w h) {e : Entity} (h0 : e.id ≠ 0)
    (hnew : s.entities.lookup e.id = none) :
    ∃ s', s'.Indexed w h ∧ Changed s s' e.id (some e) ∧
      s.addEntity e = (s'.addEvents e).map fun events ↦ ⟨s', true, events⟩ := by
  obtain ⟨b, hb⟩ := hi.exists_bucket (hi.cellOf_inGrid e)
  let idx := rowMajor w (s.cellOf w h e)
  let s' : GridAoi :=
    { s with
      grids := s.grids.set idx.toNat (b.insert e.id)
      entities := s.entities.insert e.id e
      entityToGrid := s.entityToGrid.insert e.id idx }
  have hc : Changed s s' e.id (some e) := ⟨rfl, rfl, fun k ↦ UnorderedMap.lookup_insert_ite _ _ k _⟩
  refine ⟨s', hi.change hc ?_ ?_ ?_ ?_, hc, ?_⟩
  · rintro _ ⟨⟩
    rfl
  · exact List.length_set
  · exact fun k ↦ UnorderedMap.lookup_insert_ite _ _ k _
  · intro j b' hb'
    have hset : s'.bucket j = if j = idx then some (b.insert e.id) else s.bucket j :=
      bucket_set hb (b.insert e.id) j
    rw [hset] at hb'
    split at hb'
    · next hj =>
      cases hb'
      exact ⟨b, hj ▸ hb, mem_insert_change hj.symm⟩
    · next hj =>
      refine ⟨b', hb', hi.mem_change hb' (fun e' he' ↦ ?_) ?_⟩
      · -- the new id was nowhere before
        rw [hnew] at he'
        cases he'
      · rintro _ ⟨⟩
        exact Ne.symm hj
  · have hgrid := hi.dims.posToGrid_eq e.x e.y
    have hidx := hi.dims.gridIndex_eq (hi.cellOf_inGrid e)
    rw [addEntity, if_neg h0, hnew, Option.isSome_none, if_neg Bool.false_ne_true, hgrid]
    simp only [Option.bind_eq_bind, Option.bind_some]
    rw [show s.config.cell w h e.x e.y = s.cellOf w h e from rfl, hidx, Option.bind_some,
      modifyBucket_eq hb, Option.bind_some, Option.map_eq_bind]
    rfl

/-- **`remove_entity`** of an id that is there. -/
theorem removeEntity_spec (hi : s.Indexed w h) {id : UInt64} {e : Entity}
    (he : s.entities.lookup id = some e) :
    ∃ s', s'.Indexed w h ∧ Changed s s' id none ∧
      s.removeEntity id = (s.removeEvents id e).map fun events ↦ ⟨s', true, events⟩ := by
  obtain ⟨b, hb⟩ := hi.exists_bucket (hi.cellOf_inGrid e)
  let idx := rowMajor w (s.cellOf w h e)
  let s' : GridAoi :=
    { s with
      grids := s.grids.set idx.toNat (b.erase id)
      entities := s.entities.erase id
      entityToGrid := s.entityToGrid.erase id }
  have hc : Changed s s' id none := ⟨rfl, rfl, fun k ↦ UnorderedMap.lookup_erase_ite _ _ k⟩
  have hcached : s.entityToGrid.lookup id = some idx := by
    rw [hi.cached, he, Option.map_some]
  refine ⟨s', hi.change hc ?_ ?_ ?_ ?_, hc, ?_⟩
  · rintro _ ⟨⟩
  · exact List.length_set
  · exact fun k ↦ UnorderedMap.lookup_erase_ite _ _ k
  · intro j b' hb'
    have hset : s'.bucket j = if j = idx then some (b.erase id) else s.bucket j :=
      bucket_set hb (b.erase id) j
    rw [hset] at hb'
    split at hb'
    · next hj =>
      cases hb'
      exact ⟨b, hj ▸ hb, mem_erase_change fun _ hnone ↦ by cases hnone⟩
    · next hj =>
      refine ⟨b', hb', hi.mem_change hb' (fun e' he' ↦ ?_) fun _ hnone ↦ by cases hnone⟩
      -- the id was in one cell only
      rw [he] at he'
      cases he'
      exact Ne.symm hj
  · have hdrop : s.dropFromGrid id =
        some { s with
          grids := s.grids.set idx.toNat (b.erase id)
          entityToGrid := s.entityToGrid.erase id } := by
      have hmod : s.modifyBucket idx (·.erase id) = _ := modifyBucket_eq hb _
      rw [dropFromGrid, hcached]
      simp only [hmod, Option.bind_eq_bind, Option.bind_some]
      rfl
    rw [removeEntity, he]
    simp only [hdrop, Option.bind_eq_bind, Option.bind_some, Option.map_eq_bind]
    rfl

/-- **`update_entity`** within a cell. -/
theorem updateEntity_same (hi : s.Indexed w h) {id : UInt64} {e : Entity} {x y : ℤ}
    (he : s.entities.lookup id = some e)
    (hcell : s.cellOf w h e = s.cellOf w h { e with x := x, y := y }) :
    ∃ s', s'.Indexed w h ∧ Changed s s' id (some { e with x := x, y := y }) ∧
      s.updateEntity id x y =
        (s'.moveEvents id e.x e.y x y (s.cellOf w h e)).map fun events ↦ ⟨s', true, events⟩ := by
  let s' : GridAoi :=
    { s with entities := s.entities.insert id { e with x := x, y := y } }
  have hc : Changed s s' id (some { e with x := x, y := y }) :=
    ⟨rfl, rfl, fun k ↦ UnorderedMap.lookup_insert_ite _ _ k _⟩
  refine ⟨s', hi.change hc ?_ rfl ?_ ?_, hc, ?_⟩
  · rintro _ ⟨⟩
    exact hi.keyed id e he
  · intro k
    split
    · next hk => rw [hk, Option.map_some, ← hcell, hi.cached, he, Option.map_some]
    · rfl
  · intro j b hb
    refine ⟨b, hb, fun k ↦ ?_⟩
    split
    · next hk =>
      have hmem := hi.bucketed j b hb k
      rw [hk, he] at hmem
      rw [hk, hmem]
      simp [← hcell]
    · rfl
  · have hold := hi.dims.posToGrid_eq e.x e.y
    have hnew := hi.dims.posToGrid_eq x y
    have hcell' : s.config.cell w h e.x e.y = s.config.cell w h x y := hcell
    rw [updateEntity, he]
    simp only [hold, hnew, Option.bind_eq_bind, Option.bind_some, Option.map_eq_bind]
    rw [if_pos hcell']
    rfl

/-- The grid after an entity has gone from the cell `oldIdx`, where the ids `b` were, to the cell
`newIdx`, where the ids `d` were. -/
def crossed (s : GridAoi) (id : UInt64) (e : Entity) (oldIdx newIdx : ℤ)
    (b d : UnorderedSet UInt64) : GridAoi :=
  { s with
    entities := s.entities.insert id e
    grids := (s.grids.set oldIdx.toNat (b.erase id)).set newIdx.toNat (d.insert id)
    entityToGrid := s.entityToGrid.insert id newIdx }

/-- The two cells change, and no other. -/
theorem bucket_crossed (id : UInt64) (e : Entity) {oldIdx newIdx : ℤ} {b d : UnorderedSet UInt64}
    (hne : newIdx ≠ oldIdx) (hb : s.bucket oldIdx = some b) (hd : s.bucket newIdx = some d)
    (j : ℤ) : (s.crossed id e oldIdx newIdx b d).bucket j =
      if j = newIdx then some (d.insert id)
      else if j = oldIdx then some (b.erase id) else s.bucket j := by
  let s₁ : GridAoi := { s with grids := s.grids.set oldIdx.toNat (b.erase id) }
  have hb₁ : ∀ j, s₁.bucket j = if j = oldIdx then some (b.erase id) else s.bucket j :=
    fun j ↦ bucket_set hb (b.erase id) j
  have hd₁ : s₁.bucket newIdx = some d := by
    rw [hb₁, if_neg hne]
    exact hd
  have hset : (s.crossed id e oldIdx newIdx b d).bucket j =
      if j = newIdx then some (d.insert id) else s₁.bucket j :=
    bucket_set hd₁ (d.insert id) j
  rw [hset, hb₁]

/-- The calls that `update_entity` makes when the cell changes. -/
theorem updateEntity_eq_crossed (hi : s.Indexed w h) {s' : GridAoi} {id : UInt64} {e e' : Entity}
    (he : s.entities.lookup id = some e) (he' : e' = { e with x := e'.x, y := e'.y })
    (hcell : s.cellOf w h e ≠ s.cellOf w h e')
    (hne : rowMajor w (s.cellOf w h e') ≠ rowMajor w (s.cellOf w h e)) {b d : UnorderedSet UInt64}
    (hb : s.bucket (rowMajor w (s.cellOf w h e)) = some b)
    (hd : s.bucket (rowMajor w (s.cellOf w h e')) = some d)
    (hs' : s' = s.crossed id e' (rowMajor w (s.cellOf w h e)) (rowMajor w (s.cellOf w h e')) b d) :
    s.updateEntity id e'.x e'.y =
      (s.config.getGridsInView e.x e.y).bind fun old ↦
        (s.config.getGridsInView e'.x e'.y).bind fun new ↦
          (s'.crossEvents id e.x e.y e'.x e'.y old new).map fun events ↦ ⟨s', true, events⟩ := by
  let s₀ : GridAoi := { s with entities := s.entities.insert id e' }
  let s₁ : GridAoi :=
    { s₀ with grids := s.grids.set (rowMajor w (s.cellOf w h e)).toNat (b.erase id) }
  have hd₁ : s₁.bucket (rowMajor w (s.cellOf w h e')) = some d := by
    refine (bucket_set (s := s₀) hb (b.erase id) _).trans ?_
    rw [if_neg hne]
    exact hd
  have hmod : s₀.modifyBucket (rowMajor w (s.cellOf w h e)) (·.erase id) = some s₁ :=
    modifyBucket_eq (s := s₀) hb _
  have hmod' : s₁.modifyBucket (rowMajor w (s.cellOf w h e')) (·.insert id) = _ :=
    modifyBucket_eq hd₁ _
  have hold := hi.dims.posToGrid_eq e.x e.y
  have hnew := hi.dims.posToGrid_eq e'.x e'.y
  have hidx := hi.dims.gridIndex_eq (hi.cellOf_inGrid e)
  have hidx' := hi.dims.gridIndex_eq (hi.cellOf_inGrid e')
  have hcell' : ¬ s.config.cell w h e.x e.y = s.config.cell w h e'.x e'.y := hcell
  rw [updateEntity, he]
  simp only [hold, hnew, Option.bind_eq_bind, Option.bind_some, Option.map_eq_bind]
  rw [if_neg hcell', hs', ← he']
  refine Option.bind_congr fun old _ ↦ Option.bind_congr fun new _ ↦ ?_
  refine (congrArg (Option.bind · _) hidx).trans ?_
  refine (congrArg (Option.bind · _) hidx').trans ?_
  refine (congrArg (Option.bind · _) hmod).trans ?_
  refine (congrArg (Option.bind · _) hmod').trans ?_
  rfl

/-- **`update_entity`** from one cell to another. -/
theorem updateEntity_cross (hi : s.Indexed w h) {id : UInt64} {e : Entity} {x y : ℤ}
    (he : s.entities.lookup id = some e)
    (hcell : s.cellOf w h e ≠ s.cellOf w h { e with x := x, y := y }) :
    ∃ s', s'.Indexed w h ∧ Changed s s' id (some { e with x := x, y := y }) ∧
      s.updateEntity id x y =
        (s.config.getGridsInView e.x e.y).bind fun old ↦
          (s.config.getGridsInView x y).bind fun new ↦
            (s'.crossEvents id e.x e.y x y old new).map fun events ↦ ⟨s', true, events⟩ := by
  obtain ⟨e', he'⟩ : ∃ e', e' = { e with x := x, y := y } := ⟨_, rfl⟩
  have hne : rowMajor w (s.cellOf w h e') ≠ rowMajor w (s.cellOf w h e) := by
    intro hsame
    rw [← he'] at hcell
    exact hcell ((rowMajor_inj (hi.cellOf_inGrid e) (hi.cellOf_inGrid e')).1 hsame.symm)
  obtain ⟨b, hb⟩ := hi.exists_bucket (hi.cellOf_inGrid e)
  obtain ⟨d, hd⟩ := hi.exists_bucket (hi.cellOf_inGrid e')
  obtain ⟨s', hs'⟩ : ∃ s', s' = s.crossed id e' (rowMajor w (s.cellOf w h e))
      (rowMajor w (s.cellOf w h e')) b d := ⟨_, rfl⟩
  have hbucket := bucket_crossed id e' hne hb hd
  rw [← hs'] at hbucket
  have hc : Changed s s' id (some e') := by
    rw [hs']
    exact ⟨rfl, rfl, fun k ↦ UnorderedMap.lookup_insert_ite _ _ k _⟩
  have heq := updateEntity_eq_crossed hi he (by rw [he']) (he' ▸ hcell) hne hb hd hs'
  rw [← he']
  refine ⟨s', hi.change hc ?_ ?_ ?_ ?_, hc, ?_⟩
  · rintro _ ⟨⟩
    rw [he']
    exact hi.keyed id e he
  · rw [hs']
    exact List.length_set.trans List.length_set
  · rw [hs']
    exact fun k ↦ UnorderedMap.lookup_insert_ite _ _ k _
  · intro j b' hb'
    rw [hbucket] at hb'
    split at hb'
    · next hj =>
      cases hb'
      exact ⟨d, hj ▸ hd, mem_insert_change hj.symm⟩
    · next hj =>
      have hnew : ∀ e'', some e' = some e'' → rowMajor w (s.cellOf w h e'') ≠ j := by
        rintro _ ⟨⟩
        exact Ne.symm hj
      split at hb'
      · next hj' =>
        cases hb'
        exact ⟨b, hj' ▸ hb, mem_erase_change hnew⟩
      · next hj' =>
        refine ⟨b', hb', hi.mem_change hb' (fun e'' he'' ↦ ?_) hnew⟩
        rw [he] at he''
        cases he''
        exact Ne.symm hj'
  · rw [he'] at heq
    exact heq

end Calls

/-- What an operation can do to a grid of `w` columns and `h` rows. -/
inductive Effect (s : GridAoi) (w h : ℤ) : Op → Option Outcome → Prop
  /-- The id is 0, is taken, or is not there. -/
  | refused (op : Op) : Effect s w h op (some s.refused)
  | added {e : Entity} {s' : GridAoi} (hid : e.id ≠ 0)
      (hnew : s.entities.lookup e.id = none) (hi : s'.Indexed w h)
      (hc : Changed s s' e.id (some e)) :
      Effect s w h (.add e) ((s'.addEvents e).map fun events ↦ ⟨s', true, events⟩)
  | removed {id : UInt64} {e : Entity} {s' : GridAoi} (he : s.entities.lookup id = some e)
      (hi : s'.Indexed w h) (hc : Changed s s' id none) :
      Effect s w h (.remove id) ((s.removeEvents id e).map fun events ↦ ⟨s', true, events⟩)
  | moved {id : UInt64} {e : Entity} {s' : GridAoi} {x y : ℤ}
      (he : s.entities.lookup id = some e)
      (hcell : s.cellOf w h e = s.cellOf w h { e with x := x, y := y }) (hi : s'.Indexed w h)
      (hc : Changed s s' id (some { e with x := x, y := y })) :
      Effect s w h (.update id x y)
        ((s'.moveEvents id e.x e.y x y (s.cellOf w h e)).map fun events ↦ ⟨s', true, events⟩)
  | crossed {id : UInt64} {e : Entity} {s' : GridAoi} {x y : ℤ}
      (he : s.entities.lookup id = some e)
      (hcell : s.cellOf w h e ≠ s.cellOf w h { e with x := x, y := y }) (hi : s'.Indexed w h)
      (hc : Changed s s' id (some { e with x := x, y := y })) :
      Effect s w h (.update id x y)
        ((s.config.getGridsInView e.x e.y).bind fun old ↦
          (s.config.getGridsInView x y).bind fun new ↦
            (s'.crossEvents id e.x e.y x y old new).map fun events ↦ ⟨s', true, events⟩)

section Runs

variable {s : GridAoi} {w h : ℤ}

/-- **An operation does one of these.** -/
theorem exec_effect (hi : s.Indexed w h) (op : Op) : Effect s w h op (s.exec op) := by
  cases op with
  | add e =>
    rw [exec]
    by_cases h0 : e.id = 0
    · rw [addEntity, if_pos h0]
      exact .refused _
    · rcases hnew : s.entities.lookup e.id with _ | e'
      · obtain ⟨s', hi', hc, hcall⟩ := addEntity_spec hi h0 hnew
        rw [hcall]
        exact .added h0 hnew hi' hc
      · rw [addEntity, if_neg h0, hnew, Option.isSome_some, if_pos rfl]
        exact .refused _
  | remove id =>
    rw [exec]
    rcases he : s.entities.lookup id with _ | e
    · rw [removeEntity, he]
      exact .refused _
    · obtain ⟨s', hi', hc, hcall⟩ := removeEntity_spec hi he
      rw [hcall]
      exact .removed he hi' hc
  | update id x y =>
    rw [exec]
    rcases he : s.entities.lookup id with _ | e
    · rw [updateEntity, he]
      exact .refused _
    · by_cases hcell : s.cellOf w h e = s.cellOf w h { e with x := x, y := y }
      · obtain ⟨s', hi', hc, hcall⟩ := updateEntity_same hi he hcell
        rw [hcall]
        exact .moved he hcell hi' hc
      · obtain ⟨s', hi', hc, hcall⟩ := updateEntity_cross hi he hcell
        rw [hcall]
        exact .crossed he hcell hi' hc

/-- **One operation keeps the invariant**, where it is defined. -/
theorem exec_indexed (hi : s.Indexed w h) {op : Op} {o : Outcome} (ho : s.exec op = some o) :
    o.aoi.Indexed w h ∧ o.aoi.config = s.config ∧ o.aoi.hasCallback = s.hasCallback := by
  have heff := exec_effect hi op
  generalize s.exec op = r at heff ho
  cases heff with
  | refused =>
    cases ho
    exact ⟨hi, rfl, rfl⟩
  | added _ _ hi' hc =>
    obtain ⟨events, -, rfl⟩ := Option.map_eq_some_iff.1 ho
    exact ⟨hi', hc.config, hc.hasCallback⟩
  | removed _ hi' hc =>
    obtain ⟨events, -, rfl⟩ := Option.map_eq_some_iff.1 ho
    exact ⟨hi', hc.config, hc.hasCallback⟩
  | moved _ _ hi' hc =>
    obtain ⟨events, -, rfl⟩ := Option.map_eq_some_iff.1 ho
    exact ⟨hi', hc.config, hc.hasCallback⟩
  | crossed _ _ hi' hc =>
    obtain ⟨old, -, ho⟩ := Option.bind_eq_some_iff.1 ho
    obtain ⟨new, -, ho⟩ := Option.bind_eq_some_iff.1 ho
    obtain ⟨events, -, rfl⟩ := Option.map_eq_some_iff.1 ho
    exact ⟨hi', hc.config, hc.hasCallback⟩

theorem run_append_singleton (s : GridAoi) (ops : List Op) (op : Op) :
    s.run (ops ++ [op]) = (s.run ops).bind fun t ↦ (t.exec op).map Outcome.aoi := by
  simp [run, List.foldlM_append, List.foldlM_cons]

/-- **A run keeps the invariant**, where it is defined. -/
theorem run_indexed (hi : s.Indexed w h) {ops : List Op} {t : GridAoi} (ht : s.run ops = some t) :
    t.Indexed w h ∧ t.config = s.config := by
  induction ops using List.reverseRecOn generalizing t with
  | nil =>
    cases ht
    exact ⟨hi, rfl⟩
  | append_singleton ops op ih =>
    rw [run_append_singleton] at ht
    obtain ⟨u, hu, ht⟩ := Option.bind_eq_some_iff.1 ht
    obtain ⟨o, ho, rfl⟩ := Option.map_eq_some_iff.1 ht
    obtain ⟨hiu, hcu⟩ := ih hu
    obtain ⟨hio, hco, -⟩ := exec_indexed hiu ho
    exact ⟨hio, hco.trans hcu⟩

theorem hasCallback_run (hi : s.Indexed w h) {ops : List Op} {t : GridAoi}
    (ht : s.run ops = some t) : t.hasCallback = s.hasCallback := by
  induction ops using List.reverseRecOn generalizing t with
  | nil =>
    cases ht
    rfl
  | append_singleton ops op ih =>
    rw [run_append_singleton] at ht
    obtain ⟨u, hu, ht⟩ := Option.bind_eq_some_iff.1 ht
    obtain ⟨o, ho, rfl⟩ := Option.map_eq_some_iff.1 ht
    rw [(exec_indexed (run_indexed hi hu).1 ho).2.2, ih hu]

/-! ## No call comes to undefined behaviour where the view fits -/

theorem Indexed.inGrid_view {x y : ℤ} {p : ℤ × ℤ} (hp : p ∈ (s.config.view w h x y).cells) :
    InGrid w h p :=
  (contains_window.1 (Rect.mem_cells.1 hp)).1

/-- The windows of all positions can be computed. -/
def ViewsFit (s : GridAoi) (w h : ℤ) : Prop :=
  ∀ x y, s.config.getGridsInView x y = some (s.config.view w h x y)

theorem Indexed.notify_isSome (hi : s.Indexed w h) (id : UInt64) {cells : List (ℤ × ℤ)}
    (hcells : ∀ p ∈ cells, InGrid w h p) (hnodup : cells.Nodup) (f : UInt64 → List AoiEvent) :
    ∃ events, s.notify id cells f = some events := by
  obtain ⟨others, he, -⟩ := hi.notify_spec id hcells hnodup f
  exact ⟨_, he⟩

theorem Indexed.addEvents_isSome (hi : s.Indexed w h) (hv : s.ViewsFit w h) (e : Entity) :
    ∃ events, s.addEvents e = some events := by
  rw [addEvents]
  split
  · rw [hv, Option.bind_eq_bind, Option.bind_some]
    exact hi.notify_isSome _ (fun p hp ↦ inGrid_view hp) (Rect.nodup_cells _) _
  · exact ⟨[], rfl⟩

theorem Indexed.removeEvents_isSome (hi : s.Indexed w h) (hv : s.ViewsFit w h) (id : UInt64)
    (e : Entity) : ∃ events, s.removeEvents id e = some events := by
  rw [removeEvents]
  split
  · rw [hv, Option.bind_eq_bind, Option.bind_some]
    exact hi.notify_isSome _ (fun p hp ↦ inGrid_view hp) (Rect.nodup_cells _) _
  · exact ⟨[], rfl⟩

theorem Indexed.moveEvents_isSome (hi : s.Indexed w h) (id : UInt64) (ox oy x y : ℤ)
    (e : Entity) : ∃ events, s.moveEvents id ox oy x y (s.cellOf w h e) = some events := by
  rw [moveEvents]
  split
  · refine hi.notify_isSome _ (fun p hp ↦ ?_) (List.nodup_singleton _) _
    rw [List.mem_singleton.1 hp]
    exact hi.cellOf_inGrid e
  · exact ⟨[], rfl⟩

theorem mem_cells_overlap {a b : Rect} {p : ℤ × ℤ} :
    p ∈ (overlap a b).cells ↔ p ∈ a.cells ∧ p ∈ b.cells := by
  simp only [Rect.mem_cells, Rect.Contains, overlap]
  omega

/-- The entities other than `id` whose cells satisfy `P`, each once. -/
structure ListsOthers (s : GridAoi) (w h : ℤ) (id : UInt64) (P : ℤ × ℤ → Prop)
    (others : List UInt64) : Prop where
  nodup : others.Nodup
  mem_iff : ∀ o, o ∈ others ↔ o ≠ id ∧ ∃ e, s.entities.lookup o = some e ∧ P (s.cellOf w h e)

/-- **Whom the three loops notify.** -/
theorem Indexed.crossLoops_spec (hi : s.Indexed w h) (id : UInt64) (ox oy x y : ℤ) :
    ∃ left entered moved,
      s.ListsOthers w h id (fun p ↦ p ∈ (s.config.view w h ox oy).cells ∧
        ¬ p ∈ (s.config.view w h x y).cells) left ∧
      s.ListsOthers w h id (fun p ↦ p ∈ (s.config.view w h x y).cells ∧
        ¬ p ∈ (s.config.view w h ox oy).cells) entered ∧
      s.ListsOthers w h id (fun p ↦ p ∈ (s.config.view w h ox oy).cells ∧
        p ∈ (s.config.view w h x y).cells) moved ∧
      s.crossLoops id ox oy x y (s.config.view w h ox oy) (s.config.view w h x y) =
        some (left.flatMap (bothLeave id) ++ entered.flatMap (s.bothEnter id x y) ++
          List.flatMap (fun other ↦ [⟨.move, other, id, ox, oy, x, y⟩]) moved) := by
  obtain ⟨left, hleft, hn, hmem⟩ := hi.notify_spec id
    (fun p hp ↦ inGrid_view (List.mem_of_mem_filter hp))
    ((s.config.view w h ox oy).nodup_cells.filter fun p ↦
      decide (¬ (s.config.view w h x y).Contains p)) (bothLeave id)
  obtain ⟨entered, hentered, hn', hmem'⟩ := hi.notify_spec id
    (fun p hp ↦ inGrid_view (List.mem_of_mem_filter hp))
    ((s.config.view w h x y).nodup_cells.filter fun p ↦
      decide (¬ (s.config.view w h ox oy).Contains p)) (s.bothEnter id x y)
  obtain ⟨moved, hmoved, hn'', hmem''⟩ := hi.notify_spec id
    (fun p hp ↦ inGrid_view (mem_cells_overlap.1 hp).1)
    (overlap (s.config.view w h ox oy) (s.config.view w h x y)).nodup_cells
    (fun other ↦ [⟨.move, other, id, ox, oy, x, y⟩])
  refine ⟨left, entered, moved, ⟨hn, fun o ↦ ?_⟩, ⟨hn', fun o ↦ ?_⟩, ⟨hn'', fun o ↦ ?_⟩, ?_⟩
  · simp only [hmem, List.mem_filter, decide_eq_true_eq, Rect.mem_cells]
  · simp only [hmem', List.mem_filter, decide_eq_true_eq, Rect.mem_cells]
  · simp only [hmem'', mem_cells_overlap]
  · rw [crossLoops, hleft, hentered]
    simp only [Option.bind_eq_bind, Option.bind_some, hmoved]

theorem Indexed.crossEvents_isSome (hi : s.Indexed w h) (id : UInt64) (ox oy x y : ℤ) :
    ∃ events, s.crossEvents id ox oy x y (s.config.view w h ox oy) (s.config.view w h x y) =
      some events := by
  rw [crossEvents]
  split
  · obtain ⟨left, entered, moved, -, -, -, hloops⟩ := hi.crossLoops_spec id ox oy x y
    exact ⟨_, hloops⟩
  · exact ⟨[], rfl⟩

/-- **Every operation is defined** where the views fit. -/
theorem Indexed.exec_isSome (hi : s.Indexed w h) (hv : s.ViewsFit w h) (op : Op) :
    ∃ o, s.exec op = some o := by
  have heff := exec_effect hi op
  generalize s.exec op = r at heff
  cases heff with
  | refused => exact ⟨_, rfl⟩
  | @added e s' _ _ hi' hc =>
    have hv' : s'.ViewsFit w h := by
      rw [ViewsFit, hc.config]
      exact hv
    obtain ⟨events, he⟩ := hi'.addEvents_isSome hv' e
    exact ⟨_, by rw [he, Option.map_some]⟩
  | @removed id e s' _ _ _ =>
    obtain ⟨events, he⟩ := hi.removeEvents_isSome hv id e
    exact ⟨_, by rw [he, Option.map_some]⟩
  | @moved id e s' x y _ _ hi' hc =>
    obtain ⟨events, he⟩ := hi'.moveEvents_isSome id e.x e.y x y e
    rw [cellOf, hc.config] at he
    exact ⟨_, by rw [cellOf, he, Option.map_some]⟩
  | @crossed id e s' x y _ _ hi' hc =>
    obtain ⟨events, he⟩ := hi'.crossEvents_isSome id e.x e.y x y
    rw [hc.config] at he
    rw [hv, hv, Option.bind_some, Option.bind_some, he, Option.map_some]
    exact ⟨_, rfl⟩

theorem Indexed.run_isSome (hi : s.Indexed w h) (hv : s.ViewsFit w h) (ops : List Op) :
    ∃ t, s.run ops = some t := by
  induction ops using List.reverseRecOn with
  | nil => exact ⟨s, rfl⟩
  | append_singleton ops op ih =>
    obtain ⟨t, ht⟩ := ih
    obtain ⟨hit, hct⟩ := run_indexed hi ht
    have hvt : t.ViewsFit w h := by
      rw [ViewsFit, hct]
      exact hv
    obtain ⟨o, ho⟩ := hit.exec_isSome hvt op
    rw [run_append_singleton, ht, Option.bind_some, ho]
    exact ⟨_, rfl⟩

end Runs
end GridAoi

/-! ## Which configurations fit -/

namespace Config

/-- The columns of the grid. -/
def columns (c : Config) : ℤ := (c.mapWidth + c.gridSize - 1) / c.gridSize

/-- The rows of the grid. -/
def rows (c : Config) : ℤ := (c.mapHeight + c.gridSize - 1) / c.gridSize

/-- The configuration describes a map. -/
structure WellFormed (c : Config) : Prop where
  one_le_gridSize : 1 ≤ c.gridSize
  one_le_mapWidth : 1 ≤ c.mapWidth
  one_le_mapHeight : 1 ≤ c.mapHeight

/-- None of the sums and products over the configuration overflows an `int`. -/
structure Fits (c : Config) : Prop where
  width : c.mapWidth + c.gridSize ≤ 2147483647
  height : c.mapHeight + c.gridSize ≤ 2147483647
  area : c.columns * c.rows ≤ 2147483647
  right : c.columns - 1 + c.viewRange ≤ 2147483647
  bottom : c.rows - 1 + c.viewRange ≤ 2147483647

theorem cellCount_eq_some {c : Config} {length n : ℤ} (hs : 1 ≤ c.gridSize) (hl : 1 ≤ length) :
    c.cellCount length = some n ↔
      length + c.gridSize ≤ 2147483647 ∧ n = (length + c.gridSize - 1) / c.gridSize := by
  have hdiv : (length + c.gridSize - 1).tdiv c.gridSize =
      (length + c.gridSize - 1) / c.gridSize := Int.tdiv_eq_ediv_of_nonneg (by omega)
  rw [cellCount]
  simp only [Option.bind_eq_bind, Option.bind_eq_some_iff, checked_eq_some, quot_of_pos hs]
  constructor
  · rintro ⟨_, ⟨rfl, -, hle⟩, _, ⟨rfl, -, -⟩, he⟩
    rw [Option.some.injEq, hdiv] at he
    exact ⟨hle, he.symm⟩
  · rintro ⟨hle, rfl⟩
    exact ⟨_, ⟨rfl, by omega, hle⟩, _, ⟨rfl, by omega, by omega⟩, by rw [hdiv]⟩

theorem one_le_cellCount {c : Config} {length : ℤ} (hs : 1 ≤ c.gridSize) (hl : 1 ≤ length) :
    1 ≤ (length + c.gridSize - 1) / c.gridSize := by
  rw [Int.le_ediv_iff_mul_le (by omega)]
  omega

/-- The last column is that of the right border of the map. -/
theorem tdiv_last {c : Config} {length : ℤ} (hs : 1 ≤ c.gridSize) (hl : 1 ≤ length) :
    (length - 1).tdiv c.gridSize = (length + c.gridSize - 1) / c.gridSize - 1 := by
  rw [Int.tdiv_eq_ediv_of_nonneg (by omega),
    show length + c.gridSize - 1 = (length - 1) + 1 * c.gridSize by omega,
    Int.add_mul_ediv_right _ _ (by omega)]
  omega

end Config

namespace GridAoi

/-- An empty grid is indexed. -/
theorem indexed_empty {c : Config} {cb : Bool} {w h : ℤ} (hd : Dims c w h) :
    Indexed ⟨c, ∅, List.replicate (w * h).toNat ∅, ∅, cb⟩ w h := by
  refine ⟨hd, List.length_replicate, fun id e he ↦ ?_, fun id ↦ rfl, fun idx b hb id ↦ ?_⟩
  · rw [AList.lookup_empty] at he
    cases he
  · obtain ⟨-, hget⟩ := bucket_eq_some_iff.1 hb
    rw [List.getElem?_replicate] at hget
    obtain ⟨-, hget⟩ := Option.ite_none_right_eq_some.1 hget
    obtain rfl := Option.some.inj hget
    simp [AList.lookup_empty]

/-- The grid that the constructor makes, where it makes one. -/
theorem new_eq_some {c : Config} {cb : Bool} {s : GridAoi} (hwf : c.WellFormed)
    (h : new c cb = some s) :
    s.Indexed c.columns c.rows ∧
      s = ⟨c, ∅, List.replicate (c.columns * c.rows).toNat ∅, ∅, cb⟩ ∧
      c.mapWidth + c.gridSize ≤ 2147483647 ∧ c.mapHeight + c.gridSize ≤ 2147483647 ∧
        c.columns * c.rows ≤ 2147483647 := by
  obtain ⟨hs, hw, hh⟩ := hwf
  rw [new] at h
  simp only [Option.bind_eq_bind, Option.bind_eq_some_iff, checked_eq_some] at h
  obtain ⟨w, hw', ht, hh', n, ⟨rfl, -, hn⟩, h⟩ := h
  obtain ⟨hwle, rfl⟩ := (Config.cellCount_eq_some hs hw).1 hw'
  obtain ⟨hhle, rfl⟩ := (Config.cellCount_eq_some hs hh).1 hh'
  have hd : Dims c c.columns c.rows := ⟨hs, hw', hh', Config.one_le_cellCount hs hw,
    Config.one_le_cellCount hs hh, hn⟩
  obtain ⟨-, h⟩ := Option.ite_none_left_eq_some.1 h
  obtain rfl := Option.some.inj h
  exact ⟨indexed_empty hd, rfl, hwle, hhle, hn⟩

theorem new_of_fits {c : Config} (cb : Bool) (hwf : c.WellFormed) (hfit : c.Fits) :
    ∃ s, new c cb = some s := by
  obtain ⟨hs, hw, hh⟩ := hwf
  have hw' : c.gridXCount = some c.columns :=
    (Config.cellCount_eq_some hs hw).2 ⟨hfit.width, rfl⟩
  have hh' : c.gridYCount = some c.rows :=
    (Config.cellCount_eq_some hs hh).2 ⟨hfit.height, rfl⟩
  have hw1 : 1 ≤ c.columns := Config.one_le_cellCount hs hw
  have hh1 : 1 ≤ c.rows := Config.one_le_cellCount hs hh
  have hpos : 0 ≤ c.columns * c.rows := mul_nonneg (by omega) (by omega)
  rw [new, hw', hh']
  simp only [Option.bind_eq_bind, Option.bind_some]
  rw [checked_of_mem (by omega) hfit.area, Option.bind_some, if_neg (by omega)]
  exact ⟨_, rfl⟩

/-! ## The index is exact -/

/-- What the index and the queries promise. -/
structure IndexExact (s : GridAoi) : Prop where
  /-- A stored id is in one cell, that of its coordinates, which is also the cached one. -/
  placed : ∀ id e, s.entities.lookup id = some e → e.id = id ∧ ∃ grid idx,
    s.config.posToGrid e.x e.y = some grid ∧ s.config.gridIndex grid.1 grid.2 = some idx ∧
      s.entityToGrid.lookup id = some idx ∧ (∃ b, s.bucket idx = some b) ∧
        ∀ j b, s.bucket j = some b → (id ∈ b ↔ j = idx)
  /-- The cells hold stored ids only. -/
  stored : ∀ j b, s.bucket j = some b → ∀ id ∈ b, ∃ e, s.entities.lookup id = some e
  /-- A query returns the entities in the cells within the view range, each once. -/
  query : ∀ x y, ∃ grid ids entities, s.config.posToGrid x y = some grid ∧
    s.getEntityIdsInView x y = some ids ∧ s.getEntitiesInView x y = some entities ∧
      ids.Nodup ∧ entities.map Entity.id = ids ∧
        (∀ e ∈ entities, s.entities.lookup e.id = some e) ∧
        ∀ id, id ∈ ids ↔ ∃ e grid', s.entities.lookup id = some e ∧
          s.config.posToGrid e.x e.y = some grid' ∧ Near s.config.viewRange grid grid'

section Exact

variable {s : GridAoi} {w h : ℤ}

/-- The ids in view. -/
theorem Indexed.getEntityIdsInView_spec (hi : s.Indexed w h) (hv : s.ViewsFit w h) (x y : ℤ) :
    ∃ ids, s.getEntityIdsInView x y = some ids ∧ ids.Nodup ∧
      ∀ id, id ∈ ids ↔ ∃ e, s.entities.lookup id = some e ∧
        Near s.config.viewRange (s.config.cell w h x y) (s.cellOf w h e) := by
  obtain ⟨ids, hids, hn, hmem⟩ := hi.idsIn_spec (fun p hp ↦ inGrid_view hp)
    (s.config.view w h x y).nodup_cells
  refine ⟨ids, ?_, hn, fun id ↦ ?_⟩
  · rw [getEntityIdsInView, hv, Option.bind_eq_bind, Option.bind_some, hids]
  · rw [hmem]
    refine exists_congr fun e ↦ and_congr_right fun _ ↦ ?_
    rw [Rect.mem_cells, Config.view, contains_window]
    exact and_iff_right (hi.cellOf_inGrid e)

/-- Looking up ids that are all stored gives their entities, in the same order. -/
theorem Indexed.filterMap_lookup (hi : s.Indexed w h) {ids : List UInt64}
    (hids : ∀ id ∈ ids, ∃ e, s.entities.lookup id = some e) :
    (ids.filterMap s.entities.lookup).map Entity.id = ids ∧
      ∀ e ∈ ids.filterMap s.entities.lookup, s.entities.lookup e.id = some e := by
  constructor
  · induction ids with
    | nil => rfl
    | cons id ids ih =>
      rw [List.forall_mem_cons] at hids
      obtain ⟨⟨e, he⟩, hrest⟩ := hids
      rw [List.filterMap_cons, he]
      simp only [List.map_cons, ih hrest, hi.keyed id e he]
  · intro e he
    obtain ⟨id, -, hid⟩ := List.mem_filterMap.1 he
    rw [hi.keyed id e hid, hid]

theorem Indexed.indexExact (hi : s.Indexed w h) (hv : s.ViewsFit w h) : s.IndexExact := by
  refine ⟨fun id e he ↦ ⟨hi.keyed id e he, s.cellOf w h e, rowMajor w (s.cellOf w h e),
    hi.dims.posToGrid_eq e.x e.y, hi.dims.gridIndex_eq (hi.cellOf_inGrid e), ?_,
    hi.exists_bucket (hi.cellOf_inGrid e), fun j b hb ↦ ?_⟩, fun j b hb id hmem ↦ ?_,
    fun x y ↦ ?_⟩
  · rw [hi.cached, he, Option.map_some]
  · rw [hi.bucketed j b hb id, he]
    simp only [Option.some.injEq, exists_eq_left']
    exact eq_comm
  · obtain ⟨e, he, -⟩ := (hi.bucketed j b hb id).1 hmem
    exact ⟨e, he⟩
  · obtain ⟨ids, hids, hn, hmem⟩ := hi.getEntityIdsInView_spec hv x y
    have hstored : ∀ id ∈ ids, ∃ e, s.entities.lookup id = some e := by
      intro id hid
      obtain ⟨e, he, -⟩ := (hmem id).1 hid
      exact ⟨e, he⟩
    obtain ⟨hmap, hlook⟩ := hi.filterMap_lookup hstored
    refine ⟨s.config.cell w h x y, ids, ids.filterMap s.entities.lookup,
      hi.dims.posToGrid_eq x y, hids, ?_, hn, hmap, hlook, fun id ↦ ?_⟩
    · rw [getEntitiesInView, hids, Option.bind_eq_bind, Option.bind_some]
    · rw [hmem]
      refine exists_congr fun e ↦ ?_
      simp only [hi.dims.posToGrid_eq, Option.some.injEq]
      constructor
      · rintro ⟨he, hnear⟩
        exact ⟨_, he, rfl, hnear⟩
      · rintro ⟨_, he, rfl, hnear⟩
        exact ⟨he, hnear⟩

end Exact

/-- **When the index is exact.**  For every configuration of a map with a view range that is not
negative: the constructor and all calls of every run are defined and leave an exact index and exact
queries, exactly when no sum or product over the configuration overflows. -/
theorem indexExact_iff {c : Config} (hwf : c.WellFormed) (hv : 0 ≤ c.viewRange) (cb : Bool) :
    (∃ s₀, new c cb = some s₀ ∧ ∀ ops, ∃ s, s₀.run ops = some s ∧ s.IndexExact) ↔ c.Fits := by
  constructor
  · rintro ⟨s₀, hnew, hrun⟩
    obtain ⟨hi, rfl, hwidth, hheight, harea⟩ := new_eq_some hwf hnew
    -- the query at the lower right corner of the map looks past the last column and the last row
    obtain ⟨s, hs, hexact⟩ := hrun []
    cases hs
    obtain ⟨grid, ids, -, -, hids, -⟩ := hexact.query (c.mapWidth - 1) (c.mapHeight - 1)
    obtain ⟨view, hview, -⟩ := Option.bind_eq_some_iff.1 hids
    obtain ⟨-, hright, hbottom⟩ := hi.dims.getGridsInView_eq_some hview
    have hw := hi.dims.one_le_w
    have hh := hi.dims.one_le_h
    have hx : (c.mapWidth - 1).tdiv c.gridSize = c.columns - 1 :=
      Config.tdiv_last hwf.one_le_gridSize hwf.one_le_mapWidth
    have hy : (c.mapHeight - 1).tdiv c.gridSize = c.rows - 1 :=
      Config.tdiv_last hwf.one_le_gridSize hwf.one_le_mapHeight
    simp only [Config.cell, hx, hy] at hright hbottom
    exact ⟨hwidth, hheight, harea, by omega, by omega⟩
  · intro hfit
    obtain ⟨s₀, hnew⟩ := new_of_fits cb hwf hfit
    obtain ⟨hi, rfl, -⟩ := new_eq_some hwf hnew
    have hviews : ViewsFit ⟨c, ∅, List.replicate (c.columns * c.rows).toNat ∅, ∅, cb⟩ c.columns
        c.rows := hi.dims.getGridsInView_eq hv hfit.right hfit.bottom
    refine ⟨_, hnew, fun ops ↦ ?_⟩
    obtain ⟨s, hs⟩ := hi.run_isSome hviews ops
    obtain ⟨his, hcs⟩ := run_indexed hi hs
    refine ⟨s, hs, his.indexExact ?_⟩
    rw [ViewsFit, hcs]
    exact hviews

/-- The default configuration. -/
theorem indexExact_default :
    Config.WellFormed ⟨1000, 1000, 50, 1⟩ ∧ Config.Fits ⟨1000, 1000, 50, 1⟩ ∧
      ∃ s₀, new ⟨1000, 1000, 50, 1⟩ true = some s₀ ∧
        ∀ ops, ∃ s, s₀.run ops = some s ∧ s.IndexExact := by
  have hwf : Config.WellFormed ⟨1000, 1000, 50, 1⟩ := ⟨by decide, by decide, by decide⟩
  have hfit : Config.Fits ⟨1000, 1000, 50, 1⟩ :=
    ⟨by decide, by decide, by decide, by decide, by decide⟩
  exact ⟨hwf, hfit, (indexExact_iff hwf (by decide) true).2 hfit⟩

/-- A view range without bound, `INT_MAX`, makes `center_gx + view_range` overflow for every cell
but those of the first column and the first row. -/
theorem query_overflows_unbounded_view :
    ¬ ∀ (c : Config) (cb : Bool), c.WellFormed → 0 ≤ c.viewRange →
      ∃ s₀, new c cb = some s₀ ∧ ∀ ops, ∃ s, s₀.run ops = some s ∧ s.IndexExact := by
  intro hall
  have hwf : Config.WellFormed ⟨1000, 1000, 50, 2147483647⟩ := ⟨by decide, by decide, by decide⟩
  obtain ⟨s₀, hnew, hrun⟩ := hall ⟨1000, 1000, 50, 2147483647⟩ false hwf (by decide)
  obtain ⟨hi, rfl, -⟩ := new_eq_some hwf hnew
  obtain ⟨s, hs, hexact⟩ := hrun [.add ⟨1, 60, 60, .player, 0⟩]
  obtain ⟨-, hc⟩ := run_indexed hi hs
  obtain ⟨grid, ids, -, -, hids, -⟩ := hexact.query 60 60
  rw [getEntityIdsInView, hc] at hids
  obtain ⟨view, hview, -⟩ := Option.bind_eq_some_iff.1 hids
  have hnone : Config.getGridsInView ⟨1000, 1000, 50, 2147483647⟩ 60 60 = none := by decide
  rw [hnone] at hview
  cases hview

end GridAoi
end Aoi
end ChwellCore
