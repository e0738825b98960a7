import ChwellCore.Core.Ints
import ChwellCore.Lib.CellGrid
import ChwellCore.Lib.UnorderedMap

/-!
# The grid of the area of interest

`GridAoi` cuts the map into square cells and keeps, besides the table of entities, the set of ids in
each cell and the cell of each id.  What is in view of a position are the entities in the cells
around its own.  A position outside the map belongs to the nearest cell of the border: division of
`int`s truncates towards zero and the quotient is clamped.

All of it is computed in `int`.  An `int` that overflows is undefined behaviour, and so is an index
outside `grids_`; a function that may come to either returns an `Option`, and `none` says that it
does.  Coordinates may be any integers here, as nothing is ever added to one.

A call triggers its events through a callback while it holds the mutex, so a callback cannot call
the grid back, and the events of a call are a list that it returns.
-/

set_option autoImplicit false

namespace ChwellCore
namespace Aoi

open CellGrid

/-! ## Entities, events, configuration -/

/-- `EntityType`. -/
inductive EntityType
  | player | npc | monster | item | building | other
deriving DecidableEq, Repr

/-- `Entity`.  The pointer `user_data` is only ever copied. -/
structure Entity where
  id : UInt64
  x : ℤ
  y : ℤ
  type : EntityType
  userData : ℕ
deriving DecidableEq, Repr

/-- `EventType`. -/
inductive EventType
  | enter | leave | move
deriving DecidableEq, Repr

/-- `AoiEvent`, with its coordinates zero by default. -/
structure AoiEvent where
  type : EventType
  watcherId : UInt64
  targetId : UInt64
  oldX : ℤ := 0
  oldY : ℤ := 0
  newX : ℤ := 0
  newY : ℤ := 0
deriving DecidableEq, Repr

/-- `GridAoi::Config`. -/
structure Config where
  mapWidth : ℤ
  mapHeight : ℤ
  gridSize : ℤ
  viewRange : ℤ
deriving DecidableEq, Repr

namespace Config

/-- The cells needed for `length`: `(length + grid_size - 1) / grid_size`. -/
def cellCount (c : Config) (length : ℤ) : Option ℤ := do
  let sum ← checked (length + c.gridSize)
  let sum ← checked (sum - 1)
  quot sum c.gridSize

/-- `grid_x_count`. -/
def gridXCount (c : Config) : Option ℤ := c.cellCount c.mapWidth

/-- `grid_y_count`. -/
def gridYCount (c : Config) : Option ℤ := c.cellCount c.mapHeight

/-- `grid_index`. -/
def gridIndex (c : Config) (gridX gridY : ℤ) : Option ℤ := do
  let row ← checked (gridY * (← c.gridXCount))
  checked (row + gridX)

/-- One coordinate of `pos_to_grid`. -/
def clampCell (c : Config) (pos : ℤ) (count : Option ℤ) : Option ℤ := do
  let q ← quot pos c.gridSize
  let last ← checked ((← count) - 1)
  some (max 0 (min q last))

/-- `pos_to_grid`. -/
def posToGrid (c : Config) (x y : ℤ) : Option (ℤ × ℤ) := do
  let gridX ← c.clampCell x c.gridXCount
  let gridY ← c.clampCell y c.gridYCount
  some (gridX, gridY)

/-- `get_grids_in_view`. -/
def getGridsInView (c : Config) (x y : ℤ) : Option Rect := do
  let center ← c.posToGrid x y
  let left ← checked (center.1 - c.viewRange)
  let top ← checked (center.2 - c.viewRange)
  let lastX ← checked ((← c.gridXCount) - 1)
  let right ← checked (center.1 + c.viewRange)
  let lastY ← checked ((← c.gridYCount) - 1)
  let bottom ← checked (center.2 + c.viewRange)
  some ⟨max 0 left, max 0 top, min lastX right, min lastY bottom⟩

end Config

/-! ## The grid -/

/-- `GridAoi`; of `callback_` only whether it is set. -/
structure GridAoi where
  config : Config
  entities : UnorderedMap UInt64 Entity
  grids : List (UnorderedSet UInt64)
  entityToGrid : UnorderedMap UInt64 ℤ
  hasCallback : Bool

namespace GridAoi

/-- The constructor, followed by `set_callback` if there is to be a callback.  A negative product
asks `resize` for more elements than a vector can have. -/
def new (config : Config) (hasCallback : Bool) : Option GridAoi := do
  let gridCount ← checked ((← config.gridXCount) * (← config.gridYCount))
  if gridCount < 0 then none
  else some ⟨config, ∅, List.replicate gridCount.toNat ∅, ∅, hasCallback⟩

/-- `grids_[idx]`. -/
def bucket (s : GridAoi) (idx : ℤ) : Option (UnorderedSet UInt64) :=
  if idx < 0 then none else s.grids[idx.toNat]?

/-- Change `grids_[idx]` by `f`. -/
def modifyBucket (s : GridAoi) (idx : ℤ) (f : UnorderedSet UInt64 → UnorderedSet UInt64) :
    Option GridAoi := do
  let b ← s.bucket idx
  some { s with grids := s.grids.set idx.toNat (f b) }

/-- The ids in a cell. -/
def idsAt (s : GridAoi) (p : ℤ × ℤ) : Option (List UInt64) := do
  let idx ← s.config.gridIndex p.1 p.2
  let b ← s.bucket idx
  some b.toList

/-- The ids in a list of cells, as the nested loops come across them. -/
def idsIn (s : GridAoi) : List (ℤ × ℤ) → Option (List UInt64)
  | [] => some []
  | p :: ps => do
    let ids ← s.idsAt p
    let rest ← s.idsIn ps
    some (ids ++ rest)

/-- `get_entity_ids_in_view_locked`, and so `get_entity_ids_in_view(x, y)`. -/
def getEntityIdsInView (s : GridAoi) (x y : ℤ) : Option (List UInt64) := do
  let view ← s.config.getGridsInView x y
  s.idsIn view.cells

/-- `get_entities_in_view_locked`, and so `get_entities_in_view(x, y)`. -/
def getEntitiesInView (s : GridAoi) (x y : ℤ) : Option (List Entity) := do
  let ids ← s.getEntityIdsInView x y
  some (ids.filterMap s.entities.lookup)

/-- What a call does: the grid afterwards, what it returns, and the events it triggers. -/
structure Outcome where
  aoi : GridAoi
  result : Bool
  events : List AoiEvent

/-- A call that returns false. -/
def refused (s : GridAoi) : Outcome := ⟨s, false, []⟩

/-- The loop that triggers events for the entities other than `id` in a list of cells. -/
def notify (s : GridAoi) (id : UInt64) (cells : List (ℤ × ℤ))
    (events : UInt64 → List AoiEvent) : Option (List AoiEvent) := do
  let ids ← s.idsIn cells
  some ((ids.filter fun other ↦ decide (other ≠ id)).flatMap events)

/-- The events of `add_entity`, once the entity is in its cell. -/
def addEvents (s : GridAoi) (entity : Entity) : Option (List AoiEvent) :=
  if s.hasCallback then do
    let view ← s.config.getGridsInView entity.x entity.y
    s.notify entity.id view.cells fun other ↦
      [⟨.enter, other, entity.id, 0, 0, entity.x, entity.y⟩]
  else some []

/-- `add_entity`. -/
def addEntity (s : GridAoi) (entity : Entity) : Option Outcome :=
  if entity.id = 0 then some s.refused
  else if (s.entities.lookup entity.id).isSome then some s.refused
  else do
    let grid ← s.config.posToGrid entity.x entity.y
    let idx ← s.config.gridIndex grid.1 grid.2
    let s' ← s.modifyBucket idx (·.insert entity.id)
    let s' := { s' with
      entities := s.entities.insert entity.id entity
      entityToGrid := s.entityToGrid.insert entity.id idx }
    let events ← s'.addEvents entity
    some ⟨s', true, events⟩

/-- The events of `remove_entity`, while the entity is still in its cell. -/
def removeEvents (s : GridAoi) (entityId : UInt64) (entity : Entity) : Option (List AoiEvent) :=
  if s.hasCallback then do
    let view ← s.config.getGridsInView entity.x entity.y
    s.notify entityId view.cells fun other ↦ [⟨.leave, other, entityId, 0, 0, 0, 0⟩]
  else some []

/-- The part of `remove_entity` that takes the id out of its cell. -/
def dropFromGrid (s : GridAoi) (entityId : UInt64) : Option GridAoi :=
  match s.entityToGrid.lookup entityId with
  | none => some s
  | some idx => do
    let s' ← s.modifyBucket idx (·.erase entityId)
    some { s' with entityToGrid := s.entityToGrid.erase entityId }

/-- `remove_entity`. -/
def removeEntity (s : GridAoi) (entityId : UInt64) : Option Outcome :=
  match s.entities.lookup entityId with
  | none => some s.refused
  | some entity => do
    let events ← s.removeEvents entityId entity
    let s' ← s.dropFromGrid entityId
    some ⟨{ s' with entities := s.entities.erase entityId }, true, events⟩

/-- The events of `update_entity` when the entity stays in the cell `grid`. -/
def moveEvents (s : GridAoi) (entityId : UInt64) (oldX oldY newX newY : ℤ) (grid : ℤ × ℤ) :
    Option (List AoiEvent) :=
  if s.hasCallback then
    s.notify entityId [grid] fun other ↦ [⟨.move, other, entityId, oldX, oldY, newX, newY⟩]
  else some []

/-- The two events for an entity `other` that is no longer in view. -/
def bothLeave (entityId other : UInt64) : List AoiEvent :=
  [⟨.leave, other, entityId, 0, 0, 0, 0⟩, ⟨.leave, entityId, other, 0, 0, 0, 0⟩]

/-- The two events for an entity `other` that has come into view. -/
def bothEnter (s : GridAoi) (entityId : UInt64) (newX newY : ℤ) (other : UInt64) :
    List AoiEvent :=
  ⟨.enter, other, entityId, 0, 0, newX, newY⟩ ::
    match s.entities.lookup other with
    | none => []
    | some o => [⟨.enter, entityId, other, 0, 0, o.x, o.y⟩]

/-- The block of cells in view before and after. -/
def overlap (old new : Rect) : Rect :=
  ⟨max old.minX new.minX, max old.minY new.minY, min old.maxX new.maxX, min old.maxY new.maxY⟩

/-- The three loops of `update_entity` over the cells in view before and after the entity came to
another cell: watchers that lose sight of it, watchers that get sight of it, both with the event for
the opposite direction, and those that keep it in view. -/
def crossLoops (s : GridAoi) (entityId : UInt64) (oldX oldY newX newY : ℤ) (old new : Rect) :
    Option (List AoiEvent) := do
  let left ← s.notify entityId (old.cells.filter fun p ↦ decide (¬ new.Contains p))
    (bothLeave entityId)
  let entered ← s.notify entityId (new.cells.filter fun p ↦ decide (¬ old.Contains p))
    (s.bothEnter entityId newX newY)
  let moved ← s.notify entityId (overlap old new).cells fun other ↦
    [⟨.move, other, entityId, oldX, oldY, newX, newY⟩]
  some (left ++ entered ++ moved)

/-- The events of `update_entity` when the entity has come to another cell. -/
def crossEvents (s : GridAoi) (entityId : UInt64) (oldX oldY newX newY : ℤ) (old new : Rect) :
    Option (List AoiEvent) :=
  if s.hasCallback then s.crossLoops entityId oldX oldY newX newY old new else some []

/-- `update_entity`. -/
def updateEntity (s : GridAoi) (entityId : UInt64) (newX newY : ℤ) : Option Outcome :=
  match s.entities.lookup entityId with
  | none => some s.refused
  | some entity => do
    let oldGrid ← s.config.posToGrid entity.x entity.y
    let newGrid ← s.config.posToGrid newX newY
    let s' := { s with
      entities := s.entities.insert entityId { entity with x := newX, y := newY } }
    if oldGrid = newGrid then do
      let events ← s'.moveEvents entityId entity.x entity.y newX newY oldGrid
      some ⟨s', true, events⟩
    else do
      let old ← s.config.getGridsInView entity.x entity.y
      let new ← s.config.getGridsInView newX newY
      let oldIdx ← s.config.gridIndex oldGrid.1 oldGrid.2
      let newIdx ← s.config.gridIndex newGrid.1 newGrid.2
      let s' ← s'.modifyBucket oldIdx (·.erase entityId)
      let s' ← s'.modifyBucket newIdx (·.insert entityId)
      let s' := { s' with entityToGrid := s.entityToGrid.insert entityId newIdx }
      let events ← s'.crossEvents entityId entity.x entity.y newX newY old new
      some ⟨s', true, events⟩

/-- The operations that change a grid. -/
inductive Op
  | add (entity : Entity)
  | remove (entityId : UInt64)
  | update (entityId : UInt64) (newX newY : ℤ)
deriving DecidableEq, Repr

/-- One operation. -/
def exec (s : GridAoi) : Op → Option Outcome
  | .add e => s.addEntity e
  | .remove id => s.removeEntity id
  | .update id x y => s.updateEntity id x y

/-- The grid after the operations `ops`. -/
def run (s : GridAoi) (ops : List Op) : Option GridAoi :=
  ops.foldlM (fun s op ↦ (s.exec op).map Outcome.aoi) s

end GridAoi

end Aoi
end ChwellCore
