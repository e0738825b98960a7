import ChwellCore.Aoi.Grid
import ChwellCore.Core.Decimal
import ChwellCore.Lib.Run
import ChwellCore.Lib.Table

/-!
# The strategy map

`SlgMapManager` keeps the cells of a map in one array, row by row, and two tables, of cities and of
troops.  A troop marches from one cell to another; `update_troops` is called from time to time and
moves all of them.  Where the troops are is also told to a `GridAoi`.

An `int` or `int64_t` that overflows is undefined behaviour, as is an index outside `cells_` and a
division by zero, and a function that may come to any of them returns an `Option`.  So does one that
enters a city or a troop: the tables only ever grow, and a table has no room for `2 ^ 63` entries.

Three things come from outside: `rand()`, whose values are arguments; the clock that `move_troop`
reads; and the product `(to - from) * progress` of `update_troops`, converted to `int`, which is
computed in `double`s and is a parameter here (`scale`).  The callbacks are called under the mutex,
so they cannot call the manager back, and are left out.
-/

set_option autoImplicit false

namespace ChwellCore
namespace Slg

open Aoi (GridAoi)

/-! ## Cells, cities and troops -/

/-- `TerrainType`. -/
inductive TerrainType
  | plain | forest | mountain | water | city | resource | camp
deriving DecidableEq, Repr

/-- `GridCell`, with the values of its constructor. -/
structure GridCell where
  x : ℤ := 0
  y : ℤ := 0
  terrain : TerrainType := .plain
  ownerId : UInt64 := 0
  allianceId : UInt64 := 0
  buildingType : ℤ := 0
  buildingLevel : ℤ := 0
  resourceType : ℤ := 0
  resourceAmount : ℤ := 0
  resourceGatherRate : ℤ := 0
deriving DecidableEq, Repr

namespace GridCell

/-- `has_building`. -/
def hasBuilding (cell : GridCell) : Bool := decide (0 < cell.buildingType)

/-- `has_resource`. -/
def hasResource (cell : GridCell) : Bool := decide (0 < cell.resourceType)

/-- `has_owner`. -/
def hasOwner (cell : GridCell) : Bool := decide (0 < cell.ownerId)

end GridCell

/-- `City`. -/
structure City where
  cityId : UInt64 := 0
  ownerId : UInt64 := 0
  allianceId : UInt64 := 0
  x : ℤ := 0
  y : ℤ := 0
  name : Bytes := []
  level : ℤ := 1
deriving DecidableEq, Repr

/-- `Troop::State`. -/
inductive TroopState
  | idle | marching | gathering | battle | returning
deriving DecidableEq, Repr

/-- `Troop`. -/
structure Troop where
  troopId : UInt64 := 0
  ownerId : UInt64 := 0
  fromX : ℤ := 0
  fromY : ℤ := 0
  toX : ℤ := 0
  toY : ℤ := 0
  currentX : ℤ := 0
  currentY : ℤ := 0
  state : TroopState := .idle
  startTime : ℤ := 0
  arriveTime : ℤ := 0
  infantry : ℤ := 0
  cavalry : ℤ := 0
  archer : ℤ := 0
  siege : ℤ := 0
deriving DecidableEq, Repr

/-- The value of an `int64_t` expression, unless it overflows. -/
def checked64 (n : ℤ) : Option ℤ :=
  if -9223372036854775808 ≤ n ∧ n ≤ 9223372036854775807 then some n else none

namespace Troop

/-- `total_soldiers`. -/
def totalSoldiers (troop : Troop) : Option ℤ := do
  let sum ← checked (troop.infantry + troop.cavalry)
  let sum ← checked (sum + troop.archer)
  checked (sum + troop.siege)

/-- `march_speed`. -/
def marchSpeed (troop : Troop) : Option ℤ :=
  if 0 < troop.cavalry then do
    let bonus ← checked (20 * troop.cavalry)
    let divisor ← checked ((← troop.totalSoldiers) + 1)
    checked (100 + (← quot bonus divisor))
  else some 100

/-- The troop is on its way: `update_troops` does something about it. -/
def Moving (troop : Troop) : Prop := troop.state = .marching ∨ troop.state = .returning

instance (troop : Troop) : Decidable troop.Moving := inferInstanceAs (Decidable (_ ∨ _))

end Troop

/-- `SlgMapConfig` as far as the manager reads it. -/
structure SlgMapConfig where
  width : ℤ
  height : ℤ
deriving DecidableEq, Repr

/-- `SlgMapManager`. -/
structure SlgMapManager where
  config : SlgMapConfig
  cells : List GridCell
  cities : UnorderedMap UInt64 City
  troops : UnorderedMap UInt64 Troop
  nextCityId : UInt64
  nextTroopId : UInt64
  aoi : GridAoi

/-- `calculate_distance`. -/
def calculateDistance (x1 y1 x2 y2 : ℤ) : Option ℤ := do
  let dx ← checked (x2 - x1)
  let dx ← checked |dx|
  let dy ← checked (y2 - y1)
  let dy ← checked |dy|
  some (max dx dy)

/-- `calculate_march_time`. -/
def calculateMarchTime (fromX fromY toX toY speed : ℤ) : Option ℤ := do
  let distance ← calculateDistance fromX fromY toX toY
  let scaled ← checked64 (distance * 1000)
  if speed = 0 then none else some (scaled.tdiv speed)

namespace SlgMapManager

/-- The constructor.  `aoi_` has the default configuration; it may be given a callback. -/
def new (config : SlgMapConfig) (hasCallback : Bool) : Option SlgMapManager :=
  (GridAoi.new ⟨1000, 1000, 50, 1⟩ hasCallback).map fun aoi ↦ ⟨config, [], ∅, ∅, 1, 1, aoi⟩

/-! ## Access to the cells -/

/-- `cell_index`. -/
def cellIndex (m : SlgMapManager) (x y : ℤ) : Option ℤ := do
  let row ← checked (y * m.config.width)
  checked (row + x)

/-- `is_valid_pos`. -/
def isValidPos (m : SlgMapManager) (x y : ℤ) : Prop :=
  0 ≤ x ∧ x < m.config.width ∧ 0 ≤ y ∧ y < m.config.height

instance (m : SlgMapManager) (x y : ℤ) : Decidable (m.isValidPos x y) :=
  inferInstanceAs (Decidable (_ ∧ _ ∧ _ ∧ _))

/-- `cells_[cell_index(x, y)]`. -/
def cellAt (m : SlgMapManager) (x y : ℤ) : Option GridCell := do
  let idx ← m.cellIndex x y
  if idx < 0 then none else m.cells[idx.toNat]?

/-- Change `cells_[cell_index(x, y)]` by `f`. -/
def modifyCell (m : SlgMapManager) (x y : ℤ) (f : GridCell → GridCell) :
    Option SlgMapManager := do
  let idx ← m.cellIndex x y
  let cell ← m.cellAt x y
  some { m with cells := m.cells.set idx.toNat (f cell) }

/-! ## Making the map -/

/-- What the loops of `init` do to the cell at `p`. -/
def resetCell (p : ℤ × ℤ) (cell : GridCell) : GridCell :=
  { cell with x := p.1, y := p.2, terrain := .plain }

/-- The loops of `init`. -/
def resetCells (m : SlgMapManager) : Option SlgMapManager :=
  (⟨0, 0, m.config.width - 1, m.config.height - 1⟩ : CellGrid.Rect).cells.foldlM
    (fun (m : SlgMapManager) p ↦ m.modifyCell p.1 p.2 (resetCell p)) m

/-- `cells_.resize(count)`. -/
def resize (cells : List GridCell) (count : ℕ) : List GridCell :=
  cells.take count ++ List.replicate (count - cells.length) ({} : GridCell)

/-- `init`.  A negative product asks `resize` for more cells than a vector can have. -/
def init (m : SlgMapManager) : Option SlgMapManager := do
  let count ← checked (m.config.width * m.config.height)
  if count < 0 then none else resetCells { m with cells := resize m.cells count.toNat }

/-- The terrain for a random number. -/
def terrainOf (r : ℕ) : TerrainType :=
  if r % 100 < 60 then .plain
  else if r % 100 < 75 then .forest
  else if r % 100 < 85 then .mountain
  else if r % 100 < 95 then .water
  else .plain

/-- `generate_terrain`, where `rand()` returns `rand i` for the `i`-th cell. -/
def generateTerrain (m : SlgMapManager) (rand : ℕ → ℕ) : SlgMapManager :=
  { m with cells := m.cells.mapIdx fun i cell ↦ { cell with terrain := terrainOf (rand i) } }

/-- `rand() % n`. -/
def randMod (r : ℕ) (n : ℤ) : Option ℤ := if n = 0 then none else some ((r : ℤ).tmod n)

/-- One round of `generate_resources`, with the values of `rand()` in it. -/
def resourceRound (rand : ℕ → ℕ) (m : SlgMapManager) : Option SlgMapManager := do
  let x ← randMod (rand 0) m.config.width
  let y ← randMod (rand 1) m.config.height
  let cell ← m.cellAt x y
  if cell.terrain = .plain ∧ ¬ cell.hasResource ∧ ¬ cell.hasBuilding then
    m.modifyCell x y fun cell ↦
      { cell with
        terrain := .resource
        resourceType := (rand 2 % 4 : ℕ) + 1
        resourceAmount := 10000 + (rand 3 % 90000 : ℕ)
        resourceGatherRate := 100 + (rand 4 % 200 : ℕ) }
  else some m

/-- `generate_resources`, where `rand i` are the values of `rand()` in round `i`. -/
def generateResources (m : SlgMapManager) (count : ℤ) (rand : ℕ → ℕ → ℕ) :
    Option SlgMapManager :=
  (List.range count.toNat).foldlM (fun m i ↦ resourceRound (rand i) m) m

/-- Enter a city under its id, which was the next one. -/
def addCity (m : SlgMapManager) (city : City) : Option SlgMapManager :=
  if m.cities.entries.length < 2 ^ 63 then
    some { m with
      cities := m.cities.insert city.cityId city
      nextCityId := m.nextCityId + 1 }
  else none

/-- The loop of `generate_cities` that looks for a city near `(x, y)`. -/
def tooClose (x y : ℤ) : List City → Option Bool
  | [] => some false
  | city :: rest => do
    let dx ← checked (city.x - x)
    let dx ← checked |dx|
    let dy ← checked (city.y - y)
    let dy ← checked |dy|
    if dx < 20 ∧ dy < 20 then some true else tooClose x y rest

/-- The stored cities, as a loop comes to them. -/
def cityList (m : SlgMapManager) : List City := m.cities.entries.map Sigma.snd

/-- `margin` in `generate_cities`. -/
def margin (config : SlgMapConfig) : ℤ := min 50 ((min config.width config.height).tdiv 4)

/-- `x_range` in `generate_cities`. -/
def xRange (config : SlgMapConfig) : ℤ := config.width - 2 * margin config

/-- `y_range` in `generate_cities`. -/
def yRange (config : SlgMapConfig) : ℤ := config.height - 2 * margin config

/-- The place of an attempt of `generate_cities`, with the values of `rand()` in it. -/
def site (config : SlgMapConfig) (rand : ℕ → ℕ) : ℤ × ℤ :=
  (margin config + (rand 0 : ℤ).tmod (xRange config),
    margin config + (rand 1 : ℤ).tmod (yRange config))

/-- A city can be built at a place: no other is too close, and the cell is a plain. -/
def siteFree (m : SlgMapManager) (p : ℤ × ℤ) : Option Bool := do
  let cell ← m.cellAt p.1 p.2
  let close ← tooClose p.1 p.2 m.cityList
  some (!close && decide (cell.terrain = .plain))

/-- The city that an attempt of `generate_cities` builds at a place. -/
def buildCity (m : SlgMapManager) (p : ℤ × ℤ) (r : ℕ) : Option SlgMapManager := do
  let city : City :=
    { cityId := m.nextCityId
      x := p.1
      y := p.2
      name := lit "City_" ++ toDec m.nextCityId.toNat
      level := 1 + (r % 5 : ℕ) }
  let m ← m.modifyCell p.1 p.2 fun cell ↦
    { cell with terrain := .city, ownerId := city.cityId }
  m.addCity city

/-- The loop of `generate_cities`, from attempt `i` on, when `created` cities have been built. -/
def citiesFrom (count : ℤ) (rand : ℕ → ℕ → ℕ) :
    ℕ → ℕ → ℤ → SlgMapManager → Option SlgMapManager
  | 0, _, _, m => some m
  | attempts + 1, i, created, m =>
    if created < count then do
      let p := site m.config (rand i)
      if ← m.siteFree p then
        citiesFrom count rand attempts (i + 1) (created + 1) (← m.buildCity p (rand i 2))
      else citiesFrom count rand attempts (i + 1) created m
    else some m

/-- `generate_cities`, where `rand i` are the values of `rand()` in attempt `i`. -/
def generateCities (m : SlgMapManager) (count : ℤ) (rand : ℕ → ℕ → ℕ) : Option SlgMapManager := do
  let _ ← checked (xRange m.config)
  let _ ← checked (yRange m.config)
  if xRange m.config ≤ 0 ∨ yRange m.config ≤ 0 then some m
  else do
    let maxAttempts ← checked (count * 100)
    citiesFrom count rand maxAttempts.toNat 0 0 m

/-! ## Operations on cells and cities -/

/-- `get_cell`. -/
def getCell (m : SlgMapManager) (x y : ℤ) : Option (Option GridCell) :=
  if m.isValidPos x y then (m.cellAt x y).map some else some none

/-- `update_cell`. -/
def updateCell (m : SlgMapManager) (x y : ℤ) (cell : GridCell) : Option (Bool × SlgMapManager) :=
  if m.isValidPos x y then (m.modifyCell x y fun _ ↦ cell).map (true, ·) else some (false, m)

/-- `update_cell_owner`. -/
def updateCellOwner (m : SlgMapManager) (x y : ℤ) (ownerId allianceId : UInt64) :
    Option (Bool × SlgMapManager) :=
  if m.isValidPos x y then
    (m.modifyCell x y fun cell ↦ { cell with ownerId := ownerId, allianceId := allianceId }).map
      (true, ·)
  else some (false, m)

/-- `add_building`. -/
def addBuilding (m : SlgMapManager) (x y type level : ℤ) : Option (Bool × SlgMapManager) :=
  if m.isValidPos x y then do
    let cell ← m.cellAt x y
    if cell.hasBuilding then some (false, m)
    else
      (m.modifyCell x y fun cell ↦
        { cell with buildingType := type, buildingLevel := level }).map (true, ·)
  else some (false, m)

/-- `remove_building`. -/
def removeBuilding (m : SlgMapManager) (x y : ℤ) : Option (Bool × SlgMapManager) :=
  if m.isValidPos x y then
    (m.modifyCell x y fun cell ↦ { cell with buildingType := 0, buildingLevel := 0 }).map (true, ·)
  else some (false, m)

/-- `create_city`. -/
def createCity (m : SlgMapManager) (x y : ℤ) (name : Bytes) (ownerId : UInt64) :
    Option (Bool × SlgMapManager) :=
  if m.isValidPos x y then do
    let cell ← m.cellAt x y
    if cell.terrain ≠ .plain then some (false, m)
    else do
      let city : City := { cityId := m.nextCityId, ownerId, x, y, name, level := 1 }
      let m ← m.modifyCell x y fun cell ↦ { cell with terrain := .city, ownerId := ownerId }
      (m.addCity city).map (true, ·)
  else some (false, m)

/-- `get_city_at`. -/
def getCityAt (m : SlgMapManager) (x y : ℤ) : Option City :=
  m.cityList.find? fun city ↦ decide (city.x = x ∧ city.y = y)

/-- `update_city`. -/
def updateCity (m : SlgMapManager) (city : City) : Bool × SlgMapManager :=
  match m.cities.lookup city.cityId with
  | none => (false, m)
  | some _ => (true, { m with cities := m.cities.insert city.cityId city })

/-- `get_player_territory`. -/
def getPlayerTerritory (m : SlgMapManager) (playerId : UInt64) : List GridCell :=
  m.cells.filter fun cell ↦ decide (cell.ownerId = playerId)

/-! ## Operations on troops -/

/-- `create_troop`: the id it returns and the manager afterwards. -/
def createTroop (m : SlgMapManager) (ownerId : UInt64)
    (fromX fromY infantry cavalry archer siege : ℤ) : Option (UInt64 × SlgMapManager) := do
  let id := m.nextTroopId
  let troop : Troop :=
    { troopId := id, ownerId, fromX, fromY
      currentX := fromX, currentY := fromY
      infantry, cavalry, archer, siege
      state := .idle }
  if m.troops.entries.length < 2 ^ 63 then do
    let added ← m.aoi.addEntity ⟨id, fromX, fromY, .other, 0⟩
    some (id,
      { m with
        troops := m.troops.insert id troop
        nextTroopId := id + 1
        aoi := added.aoi })
  else none

/-- What `move_troop` makes of a troop that it sends off at time `now`. -/
def sendOff (troop : Troop) (toX toY now : ℤ) : Option Troop := do
  let speed ← troop.marchSpeed
  let marchTime ← calculateMarchTime troop.fromX troop.fromY toX toY speed
  let arriveTime ← checked64 (now + marchTime)
  some { troop with toX, toY, state := .marching, startTime := now, arriveTime }

/-- `move_troop` at time `now`. -/
def moveTroop (m : SlgMapManager) (troopId : UInt64) (toX toY now : ℤ) :
    Option (Bool × SlgMapManager) :=
  match m.troops.lookup troopId with
  | none => some (false, m)
  | some troop =>
    if troop.state ≠ .idle then some (false, m)
    else do
      let troop ← sendOff troop toX toY now
      some (true, { m with troops := m.troops.insert troopId troop })

/-- What `cancel_troop` makes of a troop. -/
def turnBack (troop : Troop) : Troop :=
  { troop with toX := troop.fromX, toY := troop.fromY, state := .returning }

/-- `cancel_troop`. -/
def cancelTroop (m : SlgMapManager) (troopId : UInt64) : Bool × SlgMapManager :=
  match m.troops.lookup troopId with
  | none => (false, m)
  | some troop =>
    if troop.state ≠ .marching then (false, m)
    else (true, { m with troops := m.troops.insert troopId (turnBack troop) })

/-- A troop that has arrived where it was going to. -/
def arrive (m : SlgMapManager) (troop : Troop) : Option Troop :=
  let troop := { troop with currentX := troop.toX, currentY := troop.toY }
  let halted := { troop with state := .idle, fromX := troop.toX, fromY := troop.toY }
  if troop.state = .returning then some halted
  else do
    let cell ← m.cellAt troop.toX troop.toY
    if cell.hasResource then some { troop with state := .gathering }
    else if cell.hasOwner ∧ cell.ownerId ≠ troop.ownerId then some { troop with state := .battle }
    else some halted

section Update

variable (scale : ℤ → ℤ → ℤ → Option ℤ)

/-- A troop that is still under way at time `currentTime`. -/
def interpolate (troop : Troop) (currentTime : ℤ) : Option Troop := do
  let elapsed ← checked64 (currentTime - troop.startTime)
  let total ← checked64 (troop.arriveTime - troop.startTime)
  if 0 < total then do
    let dx ← scale (← checked (troop.toX - troop.fromX)) elapsed total
    let currentX ← checked (troop.fromX + dx)
    let dy ← scale (← checked (troop.toY - troop.fromY)) elapsed total
    let currentY ← checked (troop.fromY + dy)
    some { troop with currentX, currentY }
  else some troop

/-- The body of the loop of `update_troops`, for the troop `id`. -/
def updateTroop (currentTime : ℤ) (m : SlgMapManager) (id : UInt64) : Option SlgMapManager :=
  match m.troops.lookup id with
  | none => some m
  | some troop =>
    if troop.Moving then
      if troop.arriveTime ≤ currentTime then do
        let troop ← m.arrive troop
        let updated ← m.aoi.updateEntity troop.troopId troop.currentX troop.currentY
        some { m with troops := m.troops.insert id troop, aoi := updated.aoi }
      else do
        let troop ← interpolate scale troop currentTime
        some { m with troops := m.troops.insert id troop }
    else some m

/-- `update_troops`. -/
def updateTroops (m : SlgMapManager) (currentTime : ℤ) : Option SlgMapManager :=
  m.troops.keys.foldlM (updateTroop scale currentTime) m

/-! ## Runs -/

/-- The operations that make the map. -/
inductive MapOp
  | init
  | generateTerrain (rand : ℕ → ℕ)
  | generateResources (count : ℤ) (rand : ℕ → ℕ → ℕ)
  | generateCities (count : ℤ) (rand : ℕ → ℕ → ℕ)
  | createCity (x y : ℤ) (name : Bytes) (ownerId : UInt64)

/-- The other operations on cells and cities. -/
inductive CellOp
  | updateCell (x y : ℤ) (cell : GridCell)
  | updateCellOwner (x y : ℤ) (ownerId allianceId : UInt64)
  | addBuilding (x y type level : ℤ)
  | removeBuilding (x y : ℤ)
  | updateCity (city : City)

/-- The operations on troops, with the clock that `move_troop` reads. -/
inductive TroopOp
  | create (ownerId : UInt64) (fromX fromY infantry cavalry archer siege : ℤ)
  | move (troopId : UInt64) (toX toY now : ℤ)
  | cancel (troopId : UInt64)
  | update (currentTime : ℤ)

/-- The operations that change the manager. -/
inductive Op
  | map (o : MapOp)
  | cell (o : CellOp)
  | troop (o : TroopOp)

def mapStep (m : SlgMapManager) : MapOp → Option SlgMapManager
  | .init => m.init
  | .generateTerrain rand => some (m.generateTerrain rand)
  | .generateResources count rand => m.generateResources count rand
  | .generateCities count rand => m.generateCities count rand
  | .createCity x y name ownerId => (m.createCity x y name ownerId).map Prod.snd

def cellStep (m : SlgMapManager) : CellOp → Option SlgMapManager
  | .updateCell x y cell => (m.updateCell x y cell).map Prod.snd
  | .updateCellOwner x y ownerId allianceId =>
    (m.updateCellOwner x y ownerId allianceId).map Prod.snd
  | .addBuilding x y type level => (m.addBuilding x y type level).map Prod.snd
  | .removeBuilding x y => (m.removeBuilding x y).map Prod.snd
  | .updateCity city => some (m.updateCity city).2

def troopStep (m : SlgMapManager) : TroopOp → Option SlgMapManager
  | .create ownerId fromX fromY infantry cavalry archer siege =>
    (m.createTroop ownerId fromX fromY infantry cavalry archer siege).map Prod.snd
  | .move troopId toX toY now => (m.moveTroop troopId toX toY now).map Prod.snd
  | .cancel troopId => some (m.cancelTroop troopId).2
  | .update currentTime => m.updateTroops scale currentTime

def step (m : SlgMapManager) : Op → Option SlgMapManager
  | .map o => m.mapStep o
  | .cell o => m.cellStep o
  | .troop o => m.troopStep scale o

/-- Runs of the operations on troops. -/
def troopSystem : System SlgMapManager TroopOp := System.ofPartial (troopStep scale)

/-- Runs of the operations that make the map. -/
def mapSystem : System SlgMapManager MapOp := System.ofPartial mapStep

/-- Runs of all operations. -/
def system : System SlgMapManager Op := System.ofPartial (step scale)

end Update

end SlgMapManager
end Slg
end ChwellCore
