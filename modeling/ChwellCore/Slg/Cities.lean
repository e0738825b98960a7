import ChwellCore.Slg.Cells

/-!
# Cities and the cells they stand on

That a city stands somewhere is kept twice, in the table of cities and in the cell.  `create_city`
writes both in the same way.  `generate_cities` gives the cell an owner that the city has not, and
`init` and `generate_terrain` change the cells without a look at the table.  `cities_agree_iff` says
which runs of these operations keep the two in agreement.
-/

set_option autoImplicit false

namespace ChwellCore
namespace Slg

namespace SlgMapManager

variable {config : SlgMapConfig} {m₀ m m' : SlgMapManager} {ops : List MapOp} {x y : ℤ}

/-! ## Changing one cell -/

/-- Changing a cell leaves the others what they are. -/
theorem mem_modifyCell {f : GridCell → GridCell} (h : m.modifyCell x y f = some m') :
    ∃ cell, m.cellAt x y = some cell ∧ m' = { m with cells := m'.cells } ∧ f cell ∈ m'.cells ∧
      (∀ c ∈ m'.cells, c = f cell ∨ c ∈ m.cells) ∧ ∀ c ∈ m.cells, c ≠ cell → c ∈ m'.cells := by
  obtain ⟨i, cell, hi, hget, rfl⟩ := modifyCell_eq_some h
  have hlt := (List.getElem?_eq_some_iff.1 hget).1
  refine ⟨cell, ?_, rfl, List.mem_set hlt _, fun c hc ↦ (List.mem_or_eq_of_mem_set hc).symm,
    fun c hc hne ↦ ?_⟩
  · rw [cellAt, hi]
    exact hget
  · obtain ⟨j, hj⟩ := List.mem_iff_getElem?.1 hc
    refine List.mem_iff_getElem?.2 ⟨j, ?_⟩
    rw [List.getElem?_set_ne, hj]
    rintro rfl
    exact hne (Option.some.inj (hj.symm.trans hget))

theorem Placed.modifyCell (hm : m.Placed) {f : GridCell → GridCell}
    (hf : ∀ cell, (f cell).x = cell.x ∧ (f cell).y = cell.y)
    (h : m.modifyCell x y f = some m') : m'.Placed := by
  obtain ⟨i, cell, -, hget, rfl⟩ := modifyCell_eq_some h
  refine ⟨⟨hm.area_le, by rw [List.length_set]; exact hm.length_cells⟩, fun hw hh j c hj ↦ ?_⟩
  rw [List.getElem?_set] at hj
  split at hj
  · next heq =>
    obtain ⟨-, hj⟩ := Option.ite_none_right_eq_some.1 hj
    obtain rfl := Option.some.inj hj
    rw [(hf cell).1, (hf cell).2, ← heq]
    exact hm.placed hw hh i cell hget
  · exact hm.placed hw hh j c hj

/-- Only one cell is at a valid position. -/
theorem Placed.eq_of_coords (hm : m.Placed) (hpos : m.isValidPos x y) {c c' : GridCell}
    (hc : c ∈ m.cells) (hx : c.x = x) (hy : c.y = y) (hc' : c' ∈ m.cells) (hx' : c'.x = x)
    (hy' : c'.y = y) : c = c' := by
  have h := (hm.cellAt_iff hpos).2 ⟨hc, hx, hy⟩
  have h' := (hm.cellAt_iff hpos).2 ⟨hc', hx', hy'⟩
  exact Option.some.inj (h.symm.trans h')

end SlgMapManager

/-- The city stands on the cell. -/
def City.StandsOn (city : City) (cell : GridCell) : Prop := cell.x = city.x ∧ cell.y = city.y

instance (city : City) (cell : GridCell) : Decidable (city.StandsOn cell) :=
  inferInstanceAs (Decidable (_ ∧ _))

/-- The cell with a city of this owner on it. -/
def GridCell.withCity (ownerId : UInt64) (cell : GridCell) : GridCell :=
  { cell with terrain := .city, ownerId := ownerId }

namespace SlgMapManager

variable {config : SlgMapConfig} {m₀ m m' : SlgMapManager} {ops : List MapOp} {x y : ℤ}
  {city : City} {cell : GridCell} {ownerId : UInt64}

/-! ## Agreement -/

/-- **Cities and cells agree.** -/
structure Agree (m : SlgMapManager) : Prop where
  terrain_iff : ∀ cell ∈ m.cells,
    cell.terrain = .city ↔ ∃! id, ∃ city ∈ m.cities.lookup id, city.StandsOn cell
  unshared : ∀ id id' city city', m.cities.lookup id = some city →
    m.cities.lookup id' = some city' → city.x = city'.x → city.y = city'.y → id = id'
  owner_eq : ∀ cell ∈ m.cells, cell.terrain = .city → ∀ id, ∀ city ∈ m.cities.lookup id,
    city.StandsOn cell → cell.ownerId = city.ownerId
  territory : ∀ playerId ≠ 0, ∀ cell, cell ∈ m.getPlayerTerritory playerId ↔
    cell ∈ m.cells ∧ ∃ id, ∃ city ∈ m.cities.lookup id,
      city.StandsOn cell ∧ city.ownerId = playerId

/-- What is true as long as cities only come from `create_city`. -/
structure Books (m : SlgMapManager) : Prop extends Placed m where
  numbered : Numbered m.cities m.nextCityId
  city_cell : ∀ id city, m.cities.lookup id = some city → m.isValidPos city.x city.y ∧
    ∃ cell ∈ m.cells, city.StandsOn cell ∧ cell.terrain = .city ∧ cell.ownerId = city.ownerId
  cell_city : ∀ cell ∈ m.cells, cell.terrain = .city →
    ∃ id city, m.cities.lookup id = some city ∧ city.StandsOn cell
  unshared : ∀ id id' city city', m.cities.lookup id = some city →
    m.cities.lookup id' = some city' → city.x = city'.x → city.y = city'.y → id = id'
  unowned : ∀ cell ∈ m.cells, cell.terrain ≠ .city → cell.ownerId = 0

/-- The cell that a stored city stands on. -/
theorem Books.of_standsOn (hm : m.Books) {id : UInt64} (hid : m.cities.lookup id = some city)
    (hcell : cell ∈ m.cells) (hstands : city.StandsOn cell) :
    cell.terrain = .city ∧ cell.ownerId = city.ownerId := by
  obtain ⟨hpos, cell', hcell', ⟨hx, hy⟩, hcity, howner⟩ := hm.city_cell id city hid
  rw [hm.eq_of_coords hpos hcell hstands.1 hstands.2 hcell' hx hy]
  exact ⟨hcity, howner⟩

/-- No other stored city stands where one does. -/
theorem Books.existsUnique (hm : m.Books) {id : UInt64} (hid : m.cities.lookup id = some city)
    (hstands : city.StandsOn cell) :
    ∃! id, ∃ city ∈ m.cities.lookup id, city.StandsOn cell := by
  refine ⟨id, ⟨city, hid, hstands⟩, ?_⟩
  rintro id' ⟨city', hid', hstands'⟩
  exact hm.unshared id' id city' city hid' hid (hstands'.1.symm.trans hstands.1)
    (hstands'.2.symm.trans hstands.2)

theorem Books.agree (hm : m.Books) : m.Agree := by
  refine ⟨fun cell hcell ↦ ⟨fun hterrain ↦ ?_, ?_⟩, hm.unshared,
    fun cell hcell _ id city hid hstands ↦ (hm.of_standsOn hid hcell hstands).2,
    fun playerId hne cell ↦ ?_⟩
  · obtain ⟨id, city, hid, hstands⟩ := hm.cell_city cell hcell hterrain
    exact hm.existsUnique hid hstands
  · rintro ⟨id, ⟨city, hid, hstands⟩, -⟩
    exact (hm.of_standsOn hid hcell hstands).1
  · rw [getPlayerTerritory, List.mem_filter, decide_eq_true_eq]
    constructor
    · rintro ⟨hcell, rfl⟩
      have hterrain : cell.terrain = .city := by
        by_contra hnot
        exact hne (hm.unowned cell hcell hnot)
      obtain ⟨id, city, hid, hstands⟩ := hm.cell_city cell hcell hterrain
      exact ⟨hcell, id, city, hid, hstands, (hm.of_standsOn hid hcell hstands).2.symm⟩
    · rintro ⟨hcell, id, city, hid, hstands, rfl⟩
      exact ⟨hcell, (hm.of_standsOn hid hcell hstands).2⟩

/-- What `get_city_at` answers, in whatever order the cities are stored. -/
theorem Books.getCityAt_iff (hm : m.Books) :
    m.getCityAt x y = some city ↔
      ∃ id, m.cities.lookup id = some city ∧ city.x = x ∧ city.y = y := by
  have hmem : ∀ city, city ∈ m.cityList ↔ ∃ id, m.cities.lookup id = some city := by
    intro city
    simp only [cityList, List.mem_map, Sigma.exists, exists_eq_right,
      UnorderedMap.lookup_eq_some_iff]
  constructor
  · intro h
    obtain ⟨id, hid⟩ := (hmem city).1 (List.mem_of_find?_eq_some h)
    have hcoords := List.find?_some h
    rw [decide_eq_true_eq] at hcoords
    exact ⟨id, hid, hcoords⟩
  · rintro ⟨id, hid, rfl, rfl⟩
    rcases hfind : m.getCityAt city.x city.y with _ | city'
    · have hnone := List.find?_eq_none.1 hfind city ((hmem city).2 ⟨id, hid⟩)
      exact absurd (decide_eq_true ⟨rfl, rfl⟩) hnone
    · obtain ⟨id', hid'⟩ := (hmem city').1 (List.mem_of_find?_eq_some hfind)
      have hcoords := List.find?_some hfind
      rw [decide_eq_true_eq] at hcoords
      obtain rfl := hm.unshared id' id city' city hid' hid hcoords.1 hcoords.2
      exact hid'.symm.trans hid

/-! ## Where there are no cities -/

theorem cityList_eq_nil_iff : m.cityList = [] ↔ ∀ id, m.cities.lookup id = none := by
  rw [cityList, List.map_eq_nil_iff, List.eq_nil_iff_forall_not_mem]
  constructor
  · intro h id
    rw [Option.eq_none_iff_forall_not_mem]
    exact fun city hid ↦ h ⟨id, city⟩ (AList.mem_lookup_iff.1 hid)
  · rintro h ⟨id, city⟩ hmem
    have hid := AList.mem_lookup_iff.2 hmem
    rw [h id] at hid
    cases hid

theorem exists_of_cityList_ne_nil (h : m.cityList ≠ []) :
    ∃ id city, m.cities.lookup id = some city := by
  obtain ⟨id, hid⟩ := not_forall.1 (mt cityList_eq_nil_iff.2 h)
  obtain ⟨city, hid⟩ := Option.ne_none_iff_exists'.1 hid
  exact ⟨id, city, hid⟩

/-- No cell is a city or has an owner. -/
def Unsettled (m : SlgMapManager) : Prop :=
  ∀ cell ∈ m.cells, cell.terrain ≠ .city ∧ cell.ownerId = 0

theorem Books.unsettled (hm : m.Books) (hnone : m.cityList = []) : m.Unsettled := by
  intro cell hcell
  have hterrain : cell.terrain ≠ .city := by
    intro hcity
    obtain ⟨id, city, hid, -⟩ := hm.cell_city cell hcell hcity
    rw [cityList_eq_nil_iff.1 hnone id] at hid
    cases hid
  exact ⟨hterrain, hm.unowned cell hcell hterrain⟩

theorem books_of_unsettled (hplaced : m.Placed) (hnumbered : Numbered m.cities m.nextCityId)
    (hnone : m.cityList = []) (hfree : m.Unsettled) : m.Books := by
  have hlookup := cityList_eq_nil_iff.1 hnone
  refine ⟨hplaced, hnumbered, fun id city hid ↦ ?_, fun cell hcell hcity ↦ ?_,
    fun id id' city city' hid ↦ ?_, fun cell hcell _ ↦ (hfree cell hcell).2⟩
  · rw [hlookup id] at hid
    cases hid
  · exact absurd hcity (hfree cell hcell).1
  · rw [hlookup id] at hid
    cases hid

/-- Where there is a city, not all cells may be without one. -/
theorem not_agree_of_stored (hm : m.Books) (hm' : m'.Placed) (hconfig : m'.config = m.config)
    (hcities : m'.cities = m.cities) (hsome : m.cityList ≠ [])
    (hfree : ∀ cell ∈ m'.cells, cell.terrain ≠ .city) : ¬ m'.Agree := by
  intro hagree
  obtain ⟨id, city, hid⟩ := exists_of_cityList_ne_nil hsome
  obtain ⟨hpos, -⟩ := hm.city_cell id city hid
  have hpos' := (isValidPos_congr hconfig).2 hpos
  obtain ⟨cell, hcell⟩ := hm'.exists_cellAt hpos'
  obtain ⟨hmem, hstands⟩ := (hm'.cellAt_iff hpos').1 hcell
  refine hfree cell hmem ((hagree.terrain_iff cell hmem).2 ?_)
  rw [hcities]
  exact hm.existsUnique hid hstands

/-- `init` makes every cell of the map a plain. -/
theorem terrain_of_init (hw : 1 ≤ m.config.width ∧ 1 ≤ m.config.height) (h : m.init = some m') :
    ∀ cell ∈ m'.cells, cell.terrain ≠ .city := by
  obtain ⟨-, -, hcells⟩ := init_spec h
  intro cell hcell
  obtain ⟨i, hi⟩ := List.mem_iff_getElem?.1 hcell
  obtain ⟨cell₀, -, ⟨hnot, -⟩ | ⟨x, y, -, -, rfl⟩⟩ := hcells i cell hi
  · exact absurd hw hnot
  · exact nofun

theorem unsettled_init (hm : m.Unsettled) (h : m.init = some m') : m'.Unsettled := by
  obtain ⟨-, -, hcells⟩ := init_spec h
  intro cell hcell
  obtain ⟨i, hi⟩ := List.mem_iff_getElem?.1 hcell
  obtain ⟨cell₀, hold, hcase⟩ := hcells i cell hi
  have hfree : cell₀.terrain ≠ .city ∧ cell₀.ownerId = 0 := by
    rcases hold with hmem | rfl
    · exact hm cell₀ hmem
    · exact ⟨nofun, rfl⟩
  rcases hcase with ⟨-, rfl⟩ | ⟨x, y, -, -, rfl⟩
  · exact hfree
  · exact ⟨nofun, hfree.2⟩

theorem terrainOf_ne_city (r : ℕ) : terrainOf r ≠ .city := by
  rw [terrainOf]
  split_ifs <;> exact nofun

theorem mem_generateTerrain {rand : ℕ → ℕ} (hcell : cell ∈ (m.generateTerrain rand).cells) :
    ∃ cell₀ ∈ m.cells, ∃ r, cell = { cell₀ with terrain := terrainOf r } := by
  obtain ⟨i, hi, rfl⟩ := List.mem_mapIdx.1 hcell
  exact ⟨m.cells[i], List.getElem_mem hi, rand i, rfl⟩

theorem placed_generateTerrain (hm : m.Placed) (rand : ℕ → ℕ) :
    (m.generateTerrain rand).Placed := by
  refine ⟨⟨hm.area_le, ?_⟩, fun hw hh i cell hi ↦ ?_⟩
  · show ((List.mapIdx _ m.cells).length : ℤ) = _
    rw [List.length_mapIdx]
    exact hm.length_cells
  · have hi : (m.cells.mapIdx fun i cell ↦ { cell with terrain := terrainOf (rand i) })[i]? =
        some cell := hi
    rw [List.getElem?_mapIdx] at hi
    obtain ⟨cell₀, hget, rfl⟩ := Option.map_eq_some_iff.1 hi
    exact hm.placed hw hh i cell₀ hget

/-! ## A new city -/

/-- What it means that a city is built on a cell: the cell gets an owner, and the city is entered
under the next id. -/
structure Founded (m : SlgMapManager) (ownerId : UInt64) (city : City) (cell : GridCell)
    (m' : SlgMapManager) : Prop where
  free : m.cellAt city.x city.y = some cell
  config : m'.config = m.config
  placed : m'.Placed
  numbered : Numbered m'.cities m'.nextCityId
  lookup : ∀ id,
    m'.cities.lookup id = if id = m.nextCityId then some city else m.cities.lookup id
  mem : cell.withCity ownerId ∈ m'.cells
  cases : ∀ c ∈ m'.cells, c = cell.withCity ownerId ∨ c ∈ m.cells
  other : ∀ c ∈ m.cells, c ≠ cell → c ∈ m'.cells

theorem founded_addCity (ownerId : UInt64) {m₁ : SlgMapManager} (hm : m.Placed)
    (hnumbered : Numbered m.cities m.nextCityId) (hid : city.cityId = m.nextCityId)
    (hmodify : m.modifyCell city.x city.y (GridCell.withCity ownerId) = some m₁)
    (hadd : m₁.addCity city = some m') : ∃ cell, m.Founded ownerId city cell m' := by
  have hplaced := hm.modifyCell (f := GridCell.withCity ownerId) (fun _ ↦ ⟨rfl, rfl⟩) hmodify
  obtain ⟨cell, hcell, hframe, hmem, hcases, hother⟩ := mem_modifyCell hmodify
  have hcities : m₁.cities = m.cities := by rw [hframe]
  have hnext : m₁.nextCityId = m.nextCityId := by rw [hframe]
  obtain ⟨hroom, hadd⟩ := Option.ite_none_right_eq_some.1 hadd
  obtain rfl := Option.some.inj hadd
  refine ⟨cell, hcell, by rw [hframe], ⟨⟨hplaced.area_le, hplaced.length_cells⟩, hplaced.placed⟩,
    ?_, fun id ↦ ?_, hmem, hcases, hother⟩
  · simp only [hcities, hnext, hid] at hroom ⊢
    exact hnumbered.insert hroom city
  · simp only [hcities, hid, UnorderedMap.lookup_insert_ite]

namespace Founded

variable (h : m.Founded ownerId city cell m')

include h

theorem old {id : UInt64} {city' : City} (hnumbered : Numbered m.cities m.nextCityId)
    (hid : m.cities.lookup id = some city') : m'.cities.lookup id = some city' := by
  rw [h.lookup, if_neg (hnumbered.ne_next hid)]
  exact hid

/-- The books are kept if the cell was free and gets the owner of the city. -/
theorem books (hm : m.Books) (hpos : m.isValidPos city.x city.y) (hcell : cell.terrain ≠ .city)
    (howner : ownerId = city.ownerId) : m'.Books := by
  obtain ⟨hmem, hx, hy⟩ := (hm.cellAt_iff hpos).1 h.free
  -- no other city stands there
  have halone : ∀ id city', m.cities.lookup id = some city' → city'.x = city.x →
      city'.y = city.y → False := by
    intro id city' hid hx' hy'
    have hstands : city'.StandsOn cell := ⟨hx.trans hx'.symm, hy.trans hy'.symm⟩
    exact hcell (hm.of_standsOn hid hmem hstands).1
  refine ⟨h.placed, h.numbered, fun id city' hid ↦ ?_, fun c hc hcity ↦ ?_,
    fun id id' city₁ city₂ hid hid' hx' hy' ↦ ?_, fun c hc hnot ↦ ?_⟩
  · rw [isValidPos_congr h.config]
    rw [h.lookup] at hid
    split at hid
    · obtain rfl := Option.some.inj hid
      exact ⟨hpos, _, h.mem, ⟨hx, hy⟩, rfl, howner⟩
    · obtain ⟨hpos', c, hc, hstands, hcity, howner'⟩ := hm.city_cell id city' hid
      refine ⟨hpos', c, h.other c hc ?_, hstands, hcity, howner'⟩
      rintro rfl
      exact hcell hcity
  · rcases h.cases c hc with rfl | hc
    · exact ⟨m.nextCityId, city, by rw [h.lookup, if_pos rfl], hx, hy⟩
    · obtain ⟨id, city', hid, hstands⟩ := hm.cell_city c hc hcity
      exact ⟨id, city', h.old hm.numbered hid, hstands⟩
  · rw [h.lookup] at hid hid'
    split at hid <;> split at hid'
    · next heq heq' => rw [heq, heq']
    · obtain rfl := Option.some.inj hid
      exact (halone id' city₂ hid' hx'.symm hy'.symm).elim
    · obtain rfl := Option.some.inj hid'
      exact (halone id city₁ hid hx' hy').elim
    · exact hm.unshared id id' city₁ city₂ hid hid' hx' hy'
  · rcases h.cases c hc with rfl | hc
    · exact absurd rfl hnot
    · exact hm.unowned c hc hnot

end Founded

theorem Books.createCity (hm : m.Books) {name : Bytes} {b : Bool}
    (h : m.createCity x y name ownerId = some (b, m')) : m'.Books := by
  rw [SlgMapManager.createCity] at h
  split at h
  · next hpos =>
    obtain ⟨cell, hcell, h⟩ := Option.bind_eq_some_iff.1 h
    split at h
    · obtain ⟨-, rfl⟩ := Prod.mk.inj (Option.some.inj h)
      exact hm
    · next hplain =>
      obtain ⟨m₁, hmodify, h⟩ := Option.bind_eq_some_iff.1 h
      obtain ⟨m₂, hadd, hpair⟩ := Option.map_eq_some_iff.1 h
      obtain ⟨-, rfl⟩ := Prod.mk.inj hpair
      obtain ⟨cell', hfounded⟩ := founded_addCity ownerId hm.toPlaced hm.numbered rfl
        hmodify hadd
      obtain rfl := Option.some.inj (hcell.symm.trans hfounded.free)
      refine hfounded.books hm hpos ?_ rfl
      rw [not_not.1 hplain]
      decide
  · obtain ⟨-, rfl⟩ := Prod.mk.inj (Option.some.inj h)
    exact hm

theorem Books.resourceRound (hm : m.Books) {rand : ℕ → ℕ}
    (h : resourceRound rand m = some m') : m'.Books := by
  obtain ⟨x, -, h⟩ := Option.bind_eq_some_iff.1 h
  obtain ⟨y, -, h⟩ := Option.bind_eq_some_iff.1 h
  obtain ⟨cell, hcell, h⟩ := Option.bind_eq_some_iff.1 h
  split at h
  · next hfree =>
    have hplaced := hm.modifyCell (f := fun cell ↦ { cell with
      terrain := .resource
      resourceType := (rand 2 % 4 : ℕ) + 1
      resourceAmount := 10000 + (rand 3 % 90000 : ℕ)
      resourceGatherRate := 100 + (rand 4 % 200 : ℕ) }) (fun _ ↦ ⟨rfl, rfl⟩) h
    obtain ⟨cell', hcell', hframe, -, hcases, hother⟩ := mem_modifyCell h
    obtain rfl := Option.some.inj (hcell.symm.trans hcell')
    have hconfig : m'.config = m.config := by rw [hframe]
    have hcities : m'.cities = m.cities := by rw [hframe]
    have hnext : m'.nextCityId = m.nextCityId := by rw [hframe]
    have hplain : cell.terrain ≠ .city := by
      rw [hfree.1]
      decide
    have hmem : cell ∈ m.cells := by
      obtain ⟨i, -, hi⟩ := cellAt_eq_some hcell
      exact List.mem_of_getElem? hi
    refine ⟨hplaced, hcities ▸ hnext ▸ hm.numbered, fun id city hid ↦ ?_, fun c hc hcity ↦ ?_,
      hcities ▸ hm.unshared, fun c hc hnot ↦ ?_⟩
    · rw [hcities] at hid
      obtain ⟨hpos, c, hc, hstands, hcity, howner⟩ := hm.city_cell id city hid
      refine ⟨(isValidPos_congr hconfig).2 hpos, c, hother c hc ?_, hstands, hcity, howner⟩
      rintro rfl
      exact hplain hcity
    · rw [hcities]
      rcases hcases c hc with rfl | hc
      · cases hcity
      · exact hm.cell_city c hc hcity
    · rcases hcases c hc with rfl | hc
      · exact hm.unowned cell hmem hplain
      · exact hm.unowned c hc hnot
  · obtain rfl := Option.some.inj h
    exact hm

/-! ## Cities that are generated -/

/-- A stored city stands on a cell that has another owner than the city. -/
structure Disowned (m : SlgMapManager) : Prop extends Placed m where
  numbered : Numbered m.cities m.nextCityId
  exists_city : ∃ id city, m.cities.lookup id = some city ∧ ∃ cell ∈ m.cells,
    city.StandsOn cell ∧ cell.terrain = .city ∧ cell.ownerId ≠ city.ownerId

theorem Disowned.not_agree (hm : m.Disowned) : ¬ m.Agree := by
  obtain ⟨id, city, hid, cell, hcell, hstands, hcity, hne⟩ := hm.exists_city
  exact fun h ↦ hne (h.owner_eq cell hcell hcity id city hid hstands)

/-- A place that is free has a cell that is a plain. -/
theorem cellAt_of_siteFree {p : ℤ × ℤ} (h : m.siteFree p = some true) :
    ∃ cell, m.cellAt p.1 p.2 = some cell ∧ cell.terrain = .plain := by
  obtain ⟨cell, hcell, h⟩ := Option.bind_eq_some_iff.1 h
  obtain ⟨close, -, h⟩ := Option.bind_eq_some_iff.1 h
  have hfree := Option.some.inj h
  rw [Bool.and_eq_true, decide_eq_true_eq] at hfree
  exact ⟨cell, hcell, hfree.2⟩

/-- **What `generate_cities` builds**: a city that nobody owns, on a cell whose owner is the number
of the city. -/
theorem founded_buildCity (hm : m.Placed) (hnumbered : Numbered m.cities m.nextCityId) {p : ℤ × ℤ}
    {r : ℕ} (hfree : m.siteFree p = some true) (h : m.buildCity p r = some m') :
    ∃ city cell, m.Founded m.nextCityId city cell m' ∧ city.x = p.1 ∧ city.y = p.2 ∧
      city.ownerId = 0 ∧ cell.terrain = .plain := by
  obtain ⟨m₁, hmodify, hadd⟩ := Option.bind_eq_some_iff.1 h
  obtain ⟨cell, hfounded⟩ := founded_addCity m.nextCityId hm hnumbered rfl hmodify hadd
  obtain ⟨cell', hcell', hplain⟩ := cellAt_of_siteFree hfree
  obtain rfl := Option.some.inj (hfounded.free.symm.trans hcell')
  exact ⟨_, cell, hfounded, rfl, rfl, rfl, hplain⟩

theorem Disowned.buildCity (hm : m.Disowned) {p : ℤ × ℤ} {r : ℕ}
    (hfree : m.siteFree p = some true) (h : m.buildCity p r = some m') : m'.Disowned := by
  obtain ⟨city, cell, hfounded, -, -, -, hplain⟩ :=
    founded_buildCity hm.toPlaced hm.numbered hfree h
  obtain ⟨id, city', hid, c, hc, hstands, hcity, hne⟩ := hm.exists_city
  refine ⟨hfounded.placed, hfounded.numbered, id, city', hfounded.old hm.numbered hid, c,
    hfounded.other c hc ?_, hstands, hcity, hne⟩
  rintro rfl
  rw [hplain] at hcity
  cases hcity

theorem disowned_buildCity (hm : m.Placed) (hnumbered : Numbered m.cities m.nextCityId) {p : ℤ × ℤ}
    {r : ℕ} (hpos : m.isValidPos p.1 p.2) (hfree : m.siteFree p = some true)
    (h : m.buildCity p r = some m') : m'.Disowned := by
  obtain ⟨city, cell, hfounded, hx, hy, howner, -⟩ := founded_buildCity hm hnumbered hfree h
  rw [← hx, ← hy] at hpos
  obtain ⟨-, hcx, hcy⟩ := (hm.cellAt_iff hpos).1 hfounded.free
  refine ⟨hfounded.placed, hfounded.numbered, m.nextCityId, city, ?_, _, hfounded.mem, ⟨hcx, hcy⟩,
    rfl, ?_⟩
  · rw [hfounded.lookup, if_pos rfl]
  · rw [howner]
    exact hnumbered.ne_zero

theorem Disowned.citiesFrom (hm : m.Disowned) {count : ℤ} {rand : ℕ → ℕ → ℕ} {attempts i : ℕ}
    {created : ℤ} (h : citiesFrom count rand attempts i created m = some m') : m'.Disowned := by
  induction attempts generalizing i created m with
  | zero =>
    obtain rfl := Option.some.inj h
    exact hm
  | succ attempts ih =>
    rw [SlgMapManager.citiesFrom] at h
    split at h
    · obtain ⟨free, hfree, h⟩ := Option.bind_eq_some_iff.1 h
      split at h
      · next heq =>
        obtain ⟨m₁, hbuild, h⟩ := Option.bind_eq_some_iff.1 h
        exact ih (hm.buildCity (heq ▸ hfree) hbuild) h
      · exact ih hm h
    · obtain rfl := Option.some.inj h
      exact hm

/-- Where the two ranges are positive, the margin is not negative. -/
theorem margin_nonneg (hx : 0 < xRange config) (hy : 0 < yRange config) : 0 ≤ margin config := by
  rw [xRange] at hx
  rw [yRange] at hy
  by_contra hneg
  have hmin : min config.width config.height < 0 := by
    by_contra hmin
    have hquot := Int.tdiv_nonneg (Int.not_lt.1 hmin) (show (0 : ℤ) ≤ 4 by decide)
    rw [margin] at hneg
    omega
  -- a quarter of the smaller size, twice, is more than that size
  have hmargin : min config.width config.height ≤ 2 * margin config := by
    have hquot : (min config.width config.height).tdiv 4 =
        -(-min config.width config.height / 4) := by
      rw [← Int.tdiv_eq_ediv_of_nonneg (by omega), Int.neg_tdiv, neg_neg]
    rw [margin]
    omega
  omega

/-- The places of `generate_cities` are on the map. -/
theorem isValidPos_site (hx : 0 < xRange m.config) (hy : 0 < yRange m.config) (rand : ℕ → ℕ) :
    m.isValidPos (site m.config rand).1 (site m.config rand).2 := by
  have hmargin := margin_nonneg hx hy
  have hmod : ∀ (r : ℕ) (n : ℤ), 0 < n → 0 ≤ (r : ℤ).tmod n ∧ (r : ℤ).tmod n < n := by
    intro r n hn
    rw [Int.tmod_eq_emod_of_nonneg (Int.natCast_nonneg r)]
    exact ⟨Int.emod_nonneg _ hn.ne', Int.emod_lt_of_pos _ hn⟩
  obtain ⟨hx0, hxlt⟩ := hmod (rand 0) _ hx
  obtain ⟨hy0, hylt⟩ := hmod (rand 1) _ hy
  simp only [site, isValidPos, xRange, yRange] at *
  exact ⟨by omega, by omega, by omega, by omega⟩

/-- Once one place is free, a city is built. -/
theorem disowned_citiesFrom (hm : m.Placed) (hnumbered : Numbered m.cities m.nextCityId)
    (hx : 0 < xRange m.config) (hy : 0 < yRange m.config) {count : ℤ} {rand : ℕ → ℕ → ℕ}
    {attempts i : ℕ} {created : ℤ} (hcount : created < count)
    (hfree : ∃ j, i ≤ j ∧ j < i + attempts ∧ m.siteFree (site m.config (rand j)) = some true)
    (h : citiesFrom count rand attempts i created m = some m') : m'.Disowned := by
  induction attempts generalizing i with
  | zero =>
    obtain ⟨j, hle, hlt, -⟩ := hfree
    omega
  | succ attempts ih =>
    rw [SlgMapManager.citiesFrom, if_pos hcount] at h
    obtain ⟨free, hsite, h⟩ := Option.bind_eq_some_iff.1 h
    split at h
    · next heq =>
      obtain ⟨m₁, hbuild, h⟩ := Option.bind_eq_some_iff.1 h
      have hpos := isValidPos_site hx hy (rand i)
      exact (disowned_buildCity hm hnumbered hpos (heq ▸ hsite) hbuild).citiesFrom h
    · next hnot =>
      obtain ⟨j, hle, hlt, hfree⟩ := hfree
      have hne : j ≠ i := by
        rintro rfl
        rw [hsite, Option.some_inj] at hfree
        exact hnot hfree
      exact ih ⟨j, by omega, by omega, hfree⟩ h

/-- As long as no place is free, nothing is built. -/
theorem citiesFrom_eq {count : ℤ} {rand : ℕ → ℕ → ℕ} {attempts i : ℕ} {created : ℤ}
    (hnone : ∀ j, i ≤ j → j < i + attempts → m.siteFree (site m.config (rand j)) ≠ some true)
    (h : citiesFrom count rand attempts i created m = some m') : m' = m := by
  induction attempts generalizing i with
  | zero => exact (Option.some.inj h).symm
  | succ attempts ih =>
    rw [SlgMapManager.citiesFrom] at h
    split at h
    · obtain ⟨free, hsite, h⟩ := Option.bind_eq_some_iff.1 h
      split at h
      · next heq => exact absurd (heq ▸ hsite) (hnone i le_rfl (by omega))
      · exact ih (fun j hle hlt ↦ hnone j (by omega) (by omega)) h
    · exact (Option.some.inj h).symm

/-- `generate_cities` builds nothing: there is no room for it, or no place that it comes to is
free. -/
def BuildsNone (m : SlgMapManager) (count : ℤ) (rand : ℕ → ℕ → ℕ) : Prop :=
  xRange m.config ≤ 0 ∨ yRange m.config ≤ 0 ∨
    ∀ j < (count * 100).toNat, m.siteFree (site m.config (rand j)) ≠ some true

instance (m : SlgMapManager) (count : ℤ) (rand : ℕ → ℕ → ℕ) :
    Decidable (m.BuildsNone count rand) := by
  unfold BuildsNone
  infer_instance

theorem generateCities_spec (hm : m.Placed) (hnumbered : Numbered m.cities m.nextCityId) {count : ℤ}
    {rand : ℕ → ℕ → ℕ} (h : m.generateCities count rand = some m') :
    (m.BuildsNone count rand → m' = m) ∧ (¬ m.BuildsNone count rand → m'.Disowned) := by
  obtain ⟨_, -, h⟩ := Option.bind_eq_some_iff.1 h
  obtain ⟨_, -, h⟩ := Option.bind_eq_some_iff.1 h
  split at h
  · next hrange =>
    refine ⟨fun _ ↦ (Option.some.inj h).symm, fun hnot ↦ absurd ?_ hnot⟩
    exact hrange.imp_right .inl
  · next hrange =>
    obtain ⟨hx, hy⟩ := not_or.1 hrange
    obtain ⟨maxAttempts, hmax, h⟩ := Option.bind_eq_some_iff.1 h
    obtain ⟨rfl, -⟩ := checked_eq_some.1 hmax
    constructor
    · intro hnone
      have hnone := (hnone.resolve_left hx).resolve_left hy
      exact citiesFrom_eq (fun j _ hlt ↦ hnone j (by omega)) h
    · intro hsome
      simp only [BuildsNone, not_or, not_forall, not_not] at hsome
      obtain ⟨-, -, j, hj, hfree⟩ := hsome
      exact disowned_citiesFrom hm hnumbered (Int.not_le.1 hx) (Int.not_le.1 hy) (by omega)
        ⟨j, by omega, by omega, hfree⟩ h

/-! ## Runs -/

/-- The operation does not come between the stored cities and their cells. -/
def Undisturbed (m : SlgMapManager) : MapOp → Prop
  | .init => m.cityList = []
  | .generateTerrain _ => m.cityList = []
  | .generateCities count rand => m.BuildsNone count rand
  | _ => True

instance (m : SlgMapManager) : ∀ o, Decidable (m.Undisturbed o)
  | .init | .generateTerrain _ => inferInstanceAs (Decidable (m.cityList = []))
  | .generateCities count rand => inferInstanceAs (Decidable (m.BuildsNone count rand))
  | .generateResources .. | .createCity .. => .isTrue trivial

/-- **One step** keeps the books, or else cities and cells do not agree after it. -/
theorem mapStep_books (hm : m.Books) {o : MapOp} (h : m.mapStep o = some m') :
    (m.Undisturbed o → m'.Books) ∧ (¬ m.Undisturbed o → ¬ m'.Agree) := by
  rcases o with - | rand | ⟨count, rand⟩ | ⟨count, rand⟩ | ⟨x, y, name, ownerId⟩
  · obtain ⟨hframe, -, -⟩ := init_spec h
    have hcities : m'.cities = m.cities := by rw [hframe]
    have hconfig : m'.config = m.config := by rw [hframe]
    have hnext : m'.nextCityId = m.nextCityId := by rw [hframe]
    constructor
    · intro hnone
      refine books_of_unsettled (placed_of_init h) (hcities ▸ hnext ▸ hm.numbered) ?_
        (unsettled_init (hm.unsettled hnone) h)
      rw [cityList, hcities]
      exact hnone
    · intro hsome
      obtain ⟨id, city, hid⟩ := exists_of_cityList_ne_nil hsome
      have hsize := size_of_isValidPos (hm.city_cell id city hid).1
      exact not_agree_of_stored hm (placed_of_init h) hconfig hcities hsome
        (terrain_of_init hsize h)
  · obtain rfl := Option.some.inj h
    have hplaced := placed_generateTerrain hm.toPlaced rand
    constructor
    · intro hnone
      refine books_of_unsettled hplaced hm.numbered hnone fun cell hcell ↦ ?_
      obtain ⟨cell₀, hmem, r, rfl⟩ := mem_generateTerrain hcell
      exact ⟨terrainOf_ne_city r, (hm.unsettled hnone cell₀ hmem).2⟩
    · intro hsome
      refine not_agree_of_stored hm hplaced rfl rfl hsome fun cell hcell ↦ ?_
      obtain ⟨cell₀, -, r, rfl⟩ := mem_generateTerrain hcell
      exact terrainOf_ne_city r
  · refine ⟨fun _ ↦ ?_, fun hnot ↦ absurd trivial hnot⟩
    exact Loop.invariant (P := Books) (fun i _ s s' hs hstep ↦ hs.resourceRound hstep) hm h
  · obtain ⟨hnone, hsome⟩ := generateCities_spec hm.toPlaced hm.numbered h
    refine ⟨fun hg ↦ ?_, fun hg ↦ (hsome hg).not_agree⟩
    rw [hnone hg]
    exact hm
  · refine ⟨fun _ ↦ ?_, fun hnot ↦ absurd trivial hnot⟩
    obtain ⟨⟨b, _⟩, hcreate, rfl⟩ := Option.map_eq_some_iff.1 h
    exact hm.createCity hcreate

theorem books_of_init {cb : Bool} (hinit : (new config cb).bind init = some m) : m.Books := by
  obtain ⟨m₁, hnew, hinit⟩ := Option.bind_eq_some_iff.1 hinit
  obtain ⟨aoi, -, rfl⟩ := Option.map_eq_some_iff.1 hnew
  obtain ⟨hframe, -, -⟩ := init_spec hinit
  refine books_of_unsettled (placed_of_init hinit) ?_ ?_ (unsettled_init ?_ hinit)
  · rw [hframe]
    exact .empty
  · rw [cityList, hframe]
    rfl
  · exact fun cell hcell ↦ absurd hcell List.not_mem_nil

/-- **When cities and cells agree.**  For every map and every run after `init`, with any random
numbers: cities and cells agree in all states that the run comes to if and only if `init` and
`generate_terrain` are only called while no city is stored and no `generate_cities` builds one. -/
theorem cities_agree_iff {cb : Bool} (hinit : (new config cb).bind init = some m₀)
    (hrun : mapSystem.Run m₀ ops m) :
    mapSystem.Along (fun _ _ m' ↦ m'.Agree) m₀ ops ↔
      (mapSystem.guarded Undisturbed).Run m₀ ops m := by
  refine System.along_iff (P := Books) ?_ ?_ (books_of_init hinit) hrun
  · intro s o s' hs hstep
    obtain ⟨hbooks, hnot⟩ := mapStep_books hs hstep
    exact ⟨fun hagree ↦ by_contra fun hg ↦ hnot hg hagree, fun hg ↦ (hbooks hg).agree⟩
  · intro s o s' hs hstep hagree
    obtain ⟨hbooks, hnot⟩ := mapStep_books hs hstep
    exact hbooks (by_contra fun hg ↦ hnot hg hagree)

/-- Two cities, and a third one that finds no place. -/
theorem agree_with_two_cities :
    ∃ m₀ m, (new ⟨8, 8⟩ true).bind init = some m₀ ∧
      mapSystem.Run m₀
        [.generateTerrain fun i ↦ i, .createCity 3 4 (lit "A") 7, .generateCities 1 fun _ i ↦ i,
          .generateResources 2 fun i j ↦ i + j, .createCity 5 4 (lit "B") 8] m ∧
      m.cityList.length = 2 ∧
      mapSystem.Along (fun _ _ m' ↦ m'.Agree) m₀
        [.generateTerrain fun i ↦ i, .createCity 3 4 (lit "A") 7, .generateCities 1 fun _ i ↦ i,
          .generateResources 2 fun i j ↦ i + j, .createCity 5 4 (lit "B") 8] := by
  obtain ⟨m₀, hinit, hany⟩ : ∃ m₀ ∈ (new ⟨8, 8⟩ true).bind init,
      ([MapOp.generateTerrain fun i ↦ i, .createCity 3 4 (lit "A") 7,
          .generateCities 1 fun _ i ↦ i, .generateResources 2 fun i j ↦ i + j,
          .createCity 5 4 (lit "B") 8].foldlM
        (fun (s : SlgMapManager) o ↦ if s.Undisturbed o then mapStep s o else none) m₀).any
        (fun m ↦ decide (m.cityList.length = 2)) = true := by
    decide +kernel
  obtain ⟨m, hrun, htwo⟩ := System.Run.exists_of_any_guarded hany
  exact ⟨m₀, m, hinit, hrun.of_guarded, htwo, (cities_agree_iff hinit hrun.of_guarded).2 hrun⟩

/-- A generated city is not in the territory of its owner. -/
theorem generated_city_disowned :
    ¬ ∀ (config : SlgMapConfig) (cb : Bool) (m₀ m : SlgMapManager) (ops : List MapOp),
      (new config cb).bind init = some m₀ → mapSystem.Run m₀ ops m → m.Agree := by
  intro hall
  obtain ⟨m₀, hinit, hany⟩ : ∃ m₀ ∈ (new ⟨8, 8⟩ true).bind init,
      ([MapOp.generateCities 1 fun _ _ ↦ 0].foldlM mapStep m₀).any (fun m ↦ decide (
        ∃ city ∈ m.cities.lookup 1, city.ownerId = 0 ∧ ∃ cell ∈ m.cells,
          city.StandsOn cell ∧ cell.terrain = .city ∧ cell.ownerId = 1)) = true := by
    decide +kernel
  obtain ⟨m, hrun, city, hid, hzero, cell, hcell, hstands, hcity, hone⟩ :=
    System.Run.exists_of_any hany
  have howner := (hall _ _ m₀ m _ hinit hrun).owner_eq cell hcell hcity 1 city hid hstands
  rw [hone, hzero] at howner
  cases howner

end SlgMapManager
end Slg
end ChwellCore
