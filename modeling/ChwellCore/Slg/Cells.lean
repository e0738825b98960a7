import Mathlib.Data.List.GetD
import ChwellCore.Slg.Map

/-!
# The cells of the map

`init` puts every cell where its coordinates say, and from then on a cell at a valid position is
found under its index: that is `Placed`.  An operation may change what a cell holds, but where the
cell is it does not change, unless `update_cell` is given a cell with other coordinates.

A size may be zero or negative.  Where both are negative there are cells, but no valid position,
and `init` leaves all of them as their constructor made them.
-/

set_option autoImplicit false

namespace ChwellCore
namespace Slg

open CellGrid

namespace SlgMapManager

variable {m m' : SlgMapManager} {x y : ℤ}

/-- `cells_` has one cell for each position, row by row. -/
structure Sized (m : SlgMapManager) : Prop where
  area_le : m.config.width * m.config.height ≤ 2147483647
  length_cells : (m.cells.length : ℤ) = m.config.width * m.config.height

/-- A cell is at the index of its own coordinates. -/
structure Placed (m : SlgMapManager) : Prop extends Sized m where
  placed : 1 ≤ m.config.width → 1 ≤ m.config.height →
    ∀ (i : ℕ) (cell : GridCell), m.cells[i]? = some cell →
      m.isValidPos cell.x cell.y ∧ rowMajor m.config.width (cell.x, cell.y) = i

theorem inGrid_of_isValidPos (hpos : m.isValidPos x y) :
    InGrid m.config.width m.config.height (x, y) := hpos

/-- Only the size of the map matters to a position. -/
theorem isValidPos_congr (hconfig : m'.config = m.config) :
    m'.isValidPos x y ↔ m.isValidPos x y := by
  rw [isValidPos, hconfig]
  rfl

theorem size_of_isValidPos (hpos : m.isValidPos x y) :
    1 ≤ m.config.width ∧ 1 ≤ m.config.height := by
  obtain ⟨hx, hxw, hy, hyh⟩ := hpos
  omega

/-! ## The index of a position -/

/-- Two valid positions with one index are the same. -/
theorem isValidPos_inj {x' y' : ℤ} (hpos : m.isValidPos x y) (hpos' : m.isValidPos x' y')
    (h : rowMajor m.config.width (x, y) = rowMajor m.config.width (x', y')) : x = x' ∧ y = y' := by
  have hp := (rowMajor_inj (inGrid_of_isValidPos hpos) (inGrid_of_isValidPos hpos')).1 h
  exact ⟨congrArg Prod.fst hp, congrArg Prod.snd hp⟩

/-- The index of a valid position does not overflow. -/
theorem cellIndex_of_isValidPos (harea : m.config.width * m.config.height ≤ 2147483647)
    (hpos : m.isValidPos x y) : m.cellIndex x y = some (rowMajor m.config.width (x, y)) := by
  have hlt := rowMajor_lt (inGrid_of_isValidPos hpos)
  obtain ⟨hx, hxw, hy, hyh⟩ := hpos
  have hrow : 0 ≤ y * m.config.width := mul_nonneg hy (by omega)
  rw [rowMajor] at hlt ⊢
  simp only at hlt ⊢
  rw [cellIndex, checked_of_mem (by omega) (by omega)]
  exact checked_of_mem (by omega) (by omega)

theorem cellAt_of_isValidPos (harea : m.config.width * m.config.height ≤ 2147483647)
    (hpos : m.isValidPos x y) :
    m.cellAt x y = m.cells[(rowMajor m.config.width (x, y)).toNat]? := by
  rw [cellAt, cellIndex_of_isValidPos harea hpos]
  exact if_neg (Int.not_lt.2 (rowMajor_nonneg (inGrid_of_isValidPos hpos)))

/-- What is read at an index that is not negative. -/
theorem cellAt_eq_some {cell : GridCell} (h : m.cellAt x y = some cell) :
    ∃ i : ℕ, m.cellIndex x y = some (i : ℤ) ∧ m.cells[i]? = some cell := by
  obtain ⟨idx, hidx, hcell⟩ := Option.bind_eq_some_iff.1 h
  obtain ⟨hneg, hcell⟩ := Option.ite_none_left_eq_some.1 hcell
  refine ⟨idx.toNat, ?_, hcell⟩
  rw [Int.toNat_of_nonneg (Int.not_lt.1 hneg)]
  exact hidx

theorem modifyCell_eq_some {f : GridCell → GridCell} (h : m.modifyCell x y f = some m') :
    ∃ (i : ℕ) (cell : GridCell), m.cellIndex x y = some (i : ℤ) ∧ m.cells[i]? = some cell ∧
      m' = { m with cells := m.cells.set i (f cell) } := by
  obtain ⟨idx, hidx, h⟩ := Option.bind_eq_some_iff.1 h
  obtain ⟨cell, hcell, h⟩ := Option.bind_eq_some_iff.1 h
  obtain ⟨i, hi, hget⟩ := cellAt_eq_some hcell
  obtain rfl := Option.some.inj (hidx.symm.trans hi)
  exact ⟨i, cell, hi, hget, (Option.some.inj h).symm⟩

namespace Sized

variable (hs : m.Sized)

include hs

theorem lt_length (hpos : m.isValidPos x y) :
    (rowMajor m.config.width (x, y)).toNat < m.cells.length := by
  have hlt := rowMajor_lt (inGrid_of_isValidPos hpos)
  have hnonneg := rowMajor_nonneg (inGrid_of_isValidPos hpos)
  have hlength := hs.length_cells
  omega

/-- There is a cell at a valid position. -/
theorem exists_cellAt (hpos : m.isValidPos x y) : ∃ cell, m.cellAt x y = some cell := by
  rw [cellAt_of_isValidPos hs.area_le hpos]
  exact ⟨_, List.getElem?_eq_getElem (hs.lt_length hpos)⟩

end Sized

/-- The cell at a valid position is the one that has its coordinates. -/
theorem Placed.cellAt_iff (hm : m.Placed) (hpos : m.isValidPos x y) {cell : GridCell} :
    m.cellAt x y = some cell ↔ cell ∈ m.cells ∧ cell.x = x ∧ cell.y = y := by
  obtain ⟨hw, hh⟩ := size_of_isValidPos hpos
  rw [cellAt_of_isValidPos hm.area_le hpos]
  have hnonneg := rowMajor_nonneg (inGrid_of_isValidPos hpos)
  constructor
  · intro hget
    obtain ⟨hvalid, hidx⟩ := hm.placed hw hh _ _ hget
    obtain ⟨hx, hy⟩ := isValidPos_inj hvalid hpos (by omega)
    exact ⟨List.mem_of_getElem? hget, hx, hy⟩
  · rintro ⟨hmem, rfl, rfl⟩
    obtain ⟨i, hi⟩ := List.mem_iff_getElem?.1 hmem
    obtain ⟨-, hidx⟩ := hm.placed hw hh i cell hi
    rw [hidx, Int.toNat_natCast]
    exact hi

/-- What `get_cell` answers. -/
theorem Placed.getCell_iff (hm : m.Placed) {cell : GridCell} :
    m.getCell x y = some (some cell) ↔
      m.isValidPos x y ∧ cell ∈ m.cells ∧ cell.x = x ∧ cell.y = y := by
  rw [getCell]
  split
  · next hpos =>
    rw [Option.map_eq_some_iff, ← hm.cellAt_iff hpos]
    simp only [Option.some_inj, exists_eq_right, hpos, true_and]
  · next hpos => simp [hpos]

/-! ## What `init` makes -/

theorem length_resize (cells : List GridCell) (count : ℕ) :
    (resize cells count).length = count := by
  rw [resize, List.length_append, List.length_take, List.length_replicate]
  omega

theorem mem_resize {cells : List GridCell} {count : ℕ} {cell : GridCell}
    (h : cell ∈ resize cells count) : cell ∈ cells ∨ cell = {} := by
  rcases List.mem_append.1 h with hmem | hmem
  · exact .inl (List.mem_of_mem_take hmem)
  · exact .inr (List.eq_of_mem_replicate hmem)

/-- The loops of `init` come to the valid positions. -/
theorem mem_cells_iff {config : SlgMapConfig} {p : ℤ × ℤ} :
    p ∈ (⟨0, 0, config.width - 1, config.height - 1⟩ : Rect).cells ↔
      InGrid config.width config.height p := by
  rw [Rect.mem_cells, Rect.Contains, InGrid]
  simp only
  omega

/-- The cell at the position `p`, if it is on the map. -/
def atPos (config : SlgMapConfig) (p : ℤ × ℤ) (cells : List GridCell) : Option GridCell :=
  if InGrid config.width config.height p then cells[(rowMajor config.width p).toNat]? else none

/-- To change the cell at one position is to leave alone those at the others. -/
theorem atPos_set {config : SlgMapConfig} {cells : List GridCell} {p : ℤ × ℤ}
    (hp : InGrid config.width config.height p) {i : ℕ} (hi : rowMajor config.width p = i)
    {cell : GridCell} (hcell : cells[i]? = some cell) (cell' : GridCell) :
    atPos config p (cells.set i cell') = some cell' ∧
      ∀ q, q ≠ p → atPos config q (cells.set i cell') = atPos config q cells := by
  constructor
  · rw [atPos, if_pos hp, hi, Int.toNat_natCast,
      List.getElem?_set_self (List.getElem?_eq_some_iff.1 hcell).1]
  · intro q hne
    rw [atPos, atPos]
    by_cases hq : InGrid config.width config.height q
    · rw [if_pos hq, if_pos hq, List.getElem?_set_ne]
      intro heq
      refine hne ((rowMajor_inj hq hp).1 ?_)
      rw [hi, heq]
      exact (Int.toNat_of_nonneg (rowMajor_nonneg hq)).symm
    · rw [if_neg hq, if_neg hq]

theorem resetCells_spec (harea : m.config.width * m.config.height ≤ 2147483647)
    (h : m.resetCells = some m') :
    m' = { m with cells := m'.cells } ∧ m'.cells.length = m.cells.length ∧
      (∀ p, InGrid m.config.width m.config.height p →
        atPos m.config p m'.cells = (atPos m.config p m.cells).map (resetCell p)) ∧
      (¬ (1 ≤ m.config.width ∧ 1 ≤ m.config.height) → m' = m) := by
  have hstep : ∀ p ∈ (⟨0, 0, m.config.width - 1, m.config.height - 1⟩ : Rect).cells,
      ∀ s s' : SlgMapManager, (s = { m with cells := s.cells } ∧ s.cells.length = m.cells.length) →
        s.modifyCell p.1 p.2 (resetCell p) = some s' →
          (s' = { m with cells := s'.cells } ∧ s'.cells.length = m.cells.length) ∧
            atPos m.config p s'.cells = (atPos m.config p s.cells).map (resetCell p) ∧
            ∀ q, q ≠ p → atPos m.config q s'.cells = atPos m.config q s.cells := by
    rintro p hp s s' ⟨hs, hlen⟩ hstep
    have hp := mem_cells_iff.1 hp
    have hconfig : s.config = m.config := by rw [hs]
    obtain ⟨i, cell, hi, hget, rfl⟩ := modifyCell_eq_some hstep
    have hpos : s.isValidPos p.1 p.2 := (isValidPos_congr hconfig).2 hp
    rw [cellIndex_of_isValidPos (by rw [hconfig]; exact harea) hpos, Option.some_inj,
      hconfig] at hi
    obtain ⟨hself, hother⟩ := atPos_set hp hi hget (resetCell p cell)
    refine ⟨⟨by rw [hs], by rw [List.length_set, hlen]⟩, ?_, hother⟩
    rw [hself, atPos, if_pos hp, hi, Int.toNat_natCast, hget]
    rfl
  obtain ⟨⟨hframe, hlen⟩, hall, -⟩ := Loop.each
    (f := fun p (s : SlgMapManager) ↦ atPos m.config p s.cells)
    (R := fun p a b ↦ b = a.map (resetCell p)) hstep (Rect.nodup_cells _) ⟨rfl, rfl⟩ h
  refine ⟨hframe, hlen, fun p hp ↦ hall p (mem_cells_iff.2 hp), fun hsize ↦ ?_⟩
  have hnil : (⟨0, 0, m.config.width - 1, m.config.height - 1⟩ : Rect).cells = [] := by
    refine List.eq_nil_iff_forall_not_mem.2 fun p hp ↦ hsize ?_
    exact size_of_isValidPos (x := p.1) (y := p.2) (mem_cells_iff.1 hp)
  rw [resetCells, hnil] at h
  exact (Option.some.inj h).symm

/-- Every index is that of a position, where there are positions at all. -/
theorem Sized.exists_isValidPos (hs : m.Sized) (hw : 1 ≤ m.config.width) {i : ℕ}
    (hi : i < m.cells.length) :
    ∃ x y, m.isValidPos x y ∧ rowMajor m.config.width (x, y) = i := by
  have hlength := hs.length_cells
  refine ⟨(i : ℤ) % m.config.width, (i : ℤ) / m.config.width,
    ⟨Int.emod_nonneg _ (by omega), Int.emod_lt_of_pos _ (by omega),
      Int.ediv_nonneg (by omega) (by omega), Int.ediv_lt_of_lt_mul (by omega) ?_⟩,
    Int.ediv_mul_add_emod _ _⟩
  rw [mul_comm]
  omega

/-- **What `init` does.**  The cells are as many as the size says.  Each is one that was there or a
new one; and where there are positions at all, each is set to one of its own and to plain. -/
theorem init_spec (h : m.init = some m') :
    m' = { m with cells := m'.cells } ∧ m'.Sized ∧
      ∀ (i : ℕ) (cell' : GridCell), m'.cells[i]? = some cell' →
        ∃ cell, (cell ∈ m.cells ∨ cell = {}) ∧
          (¬ (1 ≤ m.config.width ∧ 1 ≤ m.config.height) ∧ cell' = cell ∨
            ∃ x y, m.isValidPos x y ∧ rowMajor m.config.width (x, y) = i ∧
              cell' = resetCell (x, y) cell) := by
  obtain ⟨count, hcount, h⟩ := Option.bind_eq_some_iff.1 h
  obtain ⟨rfl, -, harea⟩ := checked_eq_some.1 hcount
  obtain ⟨hneg, h⟩ := Option.ite_none_left_eq_some.1 h
  generalize hcells : resize m.cells (m.config.width * m.config.height).toNat = cells at h
  have hlength : (cells.length : ℤ) = m.config.width * m.config.height := by
    rw [← hcells, length_resize]
    omega
  obtain ⟨hframe, hlen, hall, hnone⟩ := resetCells_spec (m := { m with cells := cells }) harea h
  have hconfig : m'.config = m.config := by rw [hframe]
  have hs' : m'.Sized := ⟨by rw [hconfig]; exact harea, by rw [hconfig, hlen]; exact hlength⟩
  have hold : ∀ cell ∈ cells, cell ∈ m.cells ∨ cell = {} := fun cell hcell ↦
    mem_resize (hcells ▸ hcell)
  refine ⟨hframe, hs', fun i cell' hi ↦ ?_⟩
  by_cases hsize : 1 ≤ m.config.width ∧ 1 ≤ m.config.height
  · obtain ⟨x, y, hpos, hidx⟩ := hs'.exists_isValidPos (by rw [hconfig]; exact hsize.1)
      (List.getElem?_eq_some_iff.1 hi).1
    have hpos : InGrid m.config.width m.config.height (x, y) := hconfig ▸ hpos
    rw [hconfig] at hidx
    have hupd := hall (x, y) hpos
    rw [atPos, atPos, if_pos hpos, if_pos hpos, hidx, Int.toNat_natCast, hi] at hupd
    obtain ⟨cell, hcell, rfl⟩ := Option.map_eq_some_iff.1 hupd.symm
    exact ⟨cell, hold cell (List.mem_of_getElem? hcell), .inr ⟨x, y, hpos, hidx, rfl⟩⟩
  · rw [hnone hsize] at hi
    exact ⟨cell', hold cell' (List.mem_of_getElem? hi), .inl ⟨hsize, rfl⟩⟩

theorem placed_of_init (h : m.init = some m') : m'.Placed := by
  obtain ⟨hframe, hsized, hcells⟩ := init_spec h
  have hconfig : m'.config = m.config := by rw [hframe]
  refine ⟨hsized, fun hw hh i cell' hi ↦ ?_⟩
  rw [hconfig] at hw hh
  obtain ⟨cell, -, ⟨hsize, -⟩ | ⟨x, y, hpos, hidx, rfl⟩⟩ := hcells i cell' hi
  · exact absurd ⟨hw, hh⟩ hsize
  · rw [isValidPos_congr hconfig, hconfig]
    exact ⟨hpos, hidx⟩

/-! ## What the operations on the map leave alone -/

/-- The operations on cells and cities leave the troops alone, and the number of cells. -/
structure SameTroops (m m' : SlgMapManager) : Prop where
  config : m'.config = m.config
  troops : m'.troops = m.troops
  nextTroopId : m'.nextTroopId = m.nextTroopId
  aoi : m'.aoi = m.aoi
  sized : m.Sized → m'.Sized

theorem SameTroops.refl (m : SlgMapManager) : SameTroops m m := ⟨rfl, rfl, rfl, rfl, id⟩

theorem SameTroops.trans {m'' : SlgMapManager} (h : SameTroops m m') (h' : SameTroops m' m'') :
    SameTroops m m'' :=
  ⟨h'.config.trans h.config, h'.troops.trans h.troops, h'.nextTroopId.trans h.nextTroopId,
    h'.aoi.trans h.aoi, fun hs ↦ h'.sized (h.sized hs)⟩

theorem sameTroops_modifyCell {f : GridCell → GridCell} (h : m.modifyCell x y f = some m') :
    SameTroops m m' := by
  obtain ⟨i, cell, -, -, rfl⟩ := modifyCell_eq_some h
  exact ⟨rfl, rfl, rfl, rfl, fun hs ↦ ⟨hs.area_le, by rw [List.length_set]; exact hs.length_cells⟩⟩

theorem sameTroops_addCity {city : City} (h : m.addCity city = some m') : SameTroops m m' := by
  obtain ⟨-, h⟩ := Option.ite_none_right_eq_some.1 h
  obtain rfl := Option.some.inj h
  exact ⟨rfl, rfl, rfl, rfl, fun hs ↦ ⟨hs.area_le, hs.length_cells⟩⟩

theorem sameTroops_resourceRound {rand : ℕ → ℕ} (h : resourceRound rand m = some m') :
    SameTroops m m' := by
  obtain ⟨x, -, h⟩ := Option.bind_eq_some_iff.1 h
  obtain ⟨y, -, h⟩ := Option.bind_eq_some_iff.1 h
  obtain ⟨cell, -, h⟩ := Option.bind_eq_some_iff.1 h
  split at h
  · exact sameTroops_modifyCell h
  · obtain rfl := Option.some.inj h
    exact .refl m

theorem sameTroops_buildCity {p : ℤ × ℤ} {r : ℕ} (h : m.buildCity p r = some m') :
    SameTroops m m' := by
  obtain ⟨m₁, hmodify, h⟩ := Option.bind_eq_some_iff.1 h
  exact (sameTroops_modifyCell hmodify).trans (sameTroops_addCity h)

theorem sameTroops_citiesFrom {count : ℤ} {rand : ℕ → ℕ → ℕ} {attempts i : ℕ} {created : ℤ}
    (h : citiesFrom count rand attempts i created m = some m') : SameTroops m m' := by
  induction attempts generalizing i created m with
  | zero =>
    obtain rfl := Option.some.inj h
    exact .refl m
  | succ attempts ih =>
    rw [citiesFrom] at h
    split at h
    · obtain ⟨free, -, h⟩ := Option.bind_eq_some_iff.1 h
      split at h
      · obtain ⟨m₁, hbuild, h⟩ := Option.bind_eq_some_iff.1 h
        exact (sameTroops_buildCity hbuild).trans (ih h)
      · exact ih h
    · obtain rfl := Option.some.inj h
      exact .refl m

theorem sameTroops_mapStep {o : MapOp} (h : m.mapStep o = some m') : SameTroops m m' := by
  rcases o with - | rand | ⟨count, rand⟩ | ⟨count, rand⟩ | ⟨x, y, name, ownerId⟩
  · obtain ⟨hframe, hsized, -⟩ := init_spec h
    exact ⟨by rw [hframe], by rw [hframe], by rw [hframe], by rw [hframe], fun _ ↦ hsized⟩
  · obtain rfl := Option.some.inj h
    refine ⟨rfl, rfl, rfl, rfl, fun hs ↦ ⟨hs.area_le, ?_⟩⟩
    show ((List.mapIdx _ m.cells).length : ℤ) = _
    rw [List.length_mapIdx]
    exact hs.length_cells
  · exact Loop.invariant (P := fun s ↦ SameTroops m s)
      (fun i _ s s' hs hstep ↦ hs.trans (sameTroops_resourceRound hstep)) (.refl m) h
  · obtain ⟨_, -, h⟩ := Option.bind_eq_some_iff.1 h
    obtain ⟨_, -, h⟩ := Option.bind_eq_some_iff.1 h
    split at h
    · obtain rfl := Option.some.inj h
      exact .refl m
    · obtain ⟨maxAttempts, -, h⟩ := Option.bind_eq_some_iff.1 h
      exact sameTroops_citiesFrom h
  · obtain ⟨⟨b, _⟩, hcreate, rfl⟩ := Option.map_eq_some_iff.1 h
    rw [createCity] at hcreate
    split at hcreate
    · obtain ⟨cell, -, hcreate⟩ := Option.bind_eq_some_iff.1 hcreate
      split at hcreate
      · obtain ⟨-, rfl⟩ := Prod.mk.inj (Option.some.inj hcreate)
        exact .refl m
      · obtain ⟨m₁, hmodify, hcreate⟩ := Option.bind_eq_some_iff.1 hcreate
        obtain ⟨m₂, hadd, hpair⟩ := Option.map_eq_some_iff.1 hcreate
        obtain ⟨-, rfl⟩ := Prod.mk.inj hpair
        exact (sameTroops_modifyCell hmodify).trans (sameTroops_addCity hadd)
    · obtain ⟨-, rfl⟩ := Prod.mk.inj (Option.some.inj hcreate)
      exact .refl m

/-- An operation on a cell changes it or nothing. -/
theorem sameTroops_onCell {r : Option (Bool × SlgMapManager)}
    (hr : r = some (false, m) ∨ ∃ f, r = (m.modifyCell x y f).map (true, ·))
    (h : r.map Prod.snd = some m') : SameTroops m m' := by
  rcases hr with rfl | ⟨f, rfl⟩
  · obtain rfl := Option.some.inj h
    exact .refl m
  · rw [Option.map_map] at h
    obtain ⟨m₁, hmodify, rfl⟩ := Option.map_eq_some_iff.1 h
    exact sameTroops_modifyCell hmodify

theorem sameTroops_cellStep {o : CellOp} (h : m.cellStep o = some m') : SameTroops m m' := by
  rcases o with ⟨x, y, cell⟩ | ⟨x, y, ownerId, allianceId⟩ | ⟨x, y, type, level⟩ | ⟨x, y⟩ | city
  · refine sameTroops_onCell (x := x) (y := y) ?_ h
    rw [updateCell]
    split
    · exact .inr ⟨_, rfl⟩
    · exact .inl rfl
  · refine sameTroops_onCell (x := x) (y := y) ?_ h
    rw [updateCellOwner]
    split
    · exact .inr ⟨_, rfl⟩
    · exact .inl rfl
  · rw [cellStep, addBuilding] at h
    split at h
    · obtain ⟨⟨b, _⟩, hadd, rfl⟩ := Option.map_eq_some_iff.1 h
      obtain ⟨cell, -, hadd⟩ := Option.bind_eq_some_iff.1 hadd
      refine sameTroops_onCell (x := x) (y := y) ?_ (congrArg (Option.map Prod.snd) hadd)
      split
      · exact .inl rfl
      · exact .inr ⟨_, rfl⟩
    · obtain rfl := Option.some.inj h
      exact .refl m
  · refine sameTroops_onCell (x := x) (y := y) ?_ h
    rw [removeBuilding]
    split
    · exact .inr ⟨_, rfl⟩
    · exact .inl rfl
  · obtain rfl := Option.some.inj h
    rw [updateCity]
    split
    · exact .refl m
    · exact ⟨rfl, rfl, rfl, rfl, fun hs ↦ ⟨hs.area_le, hs.length_cells⟩⟩

end SlgMapManager
end Slg
end ChwellCore
