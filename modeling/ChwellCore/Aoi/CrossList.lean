import ChwellCore.Aoi.Grid
import ChwellCore.Lib.LinkedList
import Mathlib.Algebra.Order.Group.Int
import Mathlib.Data.List.Sort

/-!
# The cross list of the area of interest

`CrossListAoi` has no cells.  Its nodes are threaded on two doubly linked lists, one sorted by `x`
and one by `y`, and what is in view of a position is found by walking along the first up to the
first node that is too far to the right.

A node is moved by unlinking it, changing its coordinates and linking it in again, and at no time
are its pointers cleared.  A node that is linked into an *empty* list is not even given new ones: it
only becomes the head, and comes out right because of the pointers it happens to have.  So the
pointers of a node that is in no list matter.  `LinkedBut` says which they may be: if no other node
is in the list, they are null.  That holds of a new node, and it holds of a node just unlinked,
whose pointers are its former neighbours.

`Linked` and `LinkedBut`, all nodes in a list and all nodes but one, are the two states an axis can
be in while a call runs, and each part of a call leads from one to the other.

Memory is explicit.  A pointer is an address, and to follow a pointer to a node that is not, or no
longer, allocated is undefined behaviour: the functions return an `Option`, and `none` says that
they come to it, or that a loop does not end.  Addresses are not reused, so that a dangling pointer
never happens to be valid again.
-/

set_option autoImplicit false

namespace ChwellCore
namespace Aoi

/-! ## Nodes -/

/-- The two lists a node is on. -/
inductive Axis
  | x | y
deriving DecidableEq, Repr

/-- What a pointer that is not null points to. -/
abbrev Addr := ℕ

/-- The coordinate the list of an axis is sorted by. -/
def Entity.coord (e : Entity) : Axis → ℤ
  | .x => e.x
  | .y => e.y

/-- `CrossListAoi::Node`, with null pointers by default. -/
structure Node where
  entity : Entity
  prevX : Option Addr := none
  nextX : Option Addr := none
  prevY : Option Addr := none
  nextY : Option Addr := none
deriving DecidableEq, Repr

namespace Node

/-- `prev_x` or `prev_y`. -/
def prev (n : Node) : Axis → Option Addr
  | .x => n.prevX
  | .y => n.prevY

/-- `next_x` or `next_y`. -/
def next (n : Node) : Axis → Option Addr
  | .x => n.nextX
  | .y => n.nextY

/-- Assign `prev_x` or `prev_y`. -/
def setPrev (axis : Axis) (v : Option Addr) (n : Node) : Node :=
  match axis with
  | .x => { n with prevX := v }
  | .y => { n with prevY := v }

/-- Assign `next_x` or `next_y`. -/
def setNext (axis : Axis) (v : Option Addr) (n : Node) : Node :=
  match axis with
  | .x => { n with nextX := v }
  | .y => { n with nextY := v }

section

variable (axis axis' : Axis) (v : Option Addr) (n : Node)

@[simp] theorem entity_setPrev : (n.setPrev axis v).entity = n.entity := by
  rcases axis with _ | _ <;> rfl

@[simp] theorem entity_setNext : (n.setNext axis v).entity = n.entity := by
  rcases axis with _ | _ <;> rfl

@[simp] theorem prev_setPrev :
    (n.setPrev axis v).prev axis' = if axis' = axis then v else n.prev axis' := by
  rcases axis with _ | _ <;> rcases axis' with _ | _ <;> rfl

@[simp] theorem next_setPrev : (n.setPrev axis v).next axis' = n.next axis' := by
  rcases axis with _ | _ <;> rcases axis' with _ | _ <;> rfl

@[simp] theorem prev_setNext : (n.setNext axis v).prev axis' = n.prev axis' := by
  rcases axis with _ | _ <;> rcases axis' with _ | _ <;> rfl

@[simp] theorem next_setNext :
    (n.setNext axis v).next axis' = if axis' = axis then v else n.next axis' := by
  rcases axis with _ | _ <;> rcases axis' with _ | _ <;> rfl

end

/-- Assign the coordinates of the entity. -/
def setPos (newX newY : ℤ) (n : Node) : Node :=
  { n with entity := { n.entity with x := newX, y := newY } }

end Node

/-! ## The two lists -/

/-- `CrossListAoi::Config`. -/
structure CrossListAoi.Config where
  mapWidth : ℤ := 1000
  mapHeight : ℤ := 1000
  viewRange : ℤ := 100
deriving DecidableEq, Repr

/-- `CrossListAoi`, with the memory its nodes are in.  `callback_` is never called. -/
structure CrossListAoi where
  config : CrossListAoi.Config
  nodes : UnorderedMap UInt64 Addr
  headX : Option Addr
  headY : Option Addr
  /-- The allocated nodes. -/
  memory : UnorderedMap Addr Node
  /-- The address of the next node to be allocated. -/
  fresh : Addr

namespace CrossListAoi

/-- The constructor. -/
def new (config : Config) : CrossListAoi := ⟨config, ∅, none, none, ∅, 0⟩

/-- `head_x_` or `head_y_`. -/
def head (s : CrossListAoi) : Axis → Option Addr
  | .x => s.headX
  | .y => s.headY

/-- Assign `head_x_` or `head_y_`. -/
def setHead (s : CrossListAoi) (axis : Axis) (v : Option Addr) : CrossListAoi :=
  match axis with
  | .x => { s with headX := v }
  | .y => { s with headY := v }

/-- `make_unique`, and the assignment of the entity. -/
def alloc (s : CrossListAoi) (entity : Entity) : CrossListAoi × Addr :=
  ({ s with memory := s.memory.insert s.fresh { entity }, fresh := s.fresh + 1 }, s.fresh)

/-- Assign to a field of the node at `a`. -/
def modify (s : CrossListAoi) (a : Addr) (f : Node → Node) : Option CrossListAoi := do
  let node ← s.memory.lookup a
  some { s with memory := s.memory.insert a (f node) }

/-- `if (p) p->next = v; else head = v;` -/
def setAfter (s : CrossListAoi) (axis : Axis) (p v : Option Addr) : Option CrossListAoi :=
  match p with
  | some a => s.modify a (Node.setNext axis v)
  | none => some (s.setHead axis v)

/-- `if (c) c->prev = v;` -/
def setBefore (s : CrossListAoi) (axis : Axis) (c v : Option Addr) : Option CrossListAoi :=
  match c with
  | some a => s.modify a (Node.setPrev axis v)
  | none => some s

/-- The loop that looks for the place of a node with the coordinate `v`, from `curr` on, with the
node before.  It follows at most `fuel` pointers. -/
def findPlace (s : CrossListAoi) (axis : Axis) (v : ℤ) :
    ℕ → Option Addr → Option Addr → Option (Option Addr × Option Addr)
  | _, prev, none => some (prev, none)
  | 0, _, some _ => none
  | fuel + 1, prev, some curr => do
    let node ← s.memory.lookup curr
    if node.entity.coord axis < v then s.findPlace axis v fuel (some curr) (node.next axis)
    else some (prev, some curr)

/-- The assignments of `insert_to_x_list` or `insert_to_y_list` that follow the loop. -/
def linkNode (axis : Axis) (s : CrossListAoi) (a : Addr) (prev curr : Option Addr) :
    Option CrossListAoi := do
  let s ← s.modify a (Node.setPrev axis prev)
  let s ← s.modify a (Node.setNext axis curr)
  let s ← s.setAfter axis prev (some a)
  s.setBefore axis curr (some a)

/-- `insert_to_x_list` or `insert_to_y_list`.  A walk that goes on for longer than there are nodes
does not end. -/
def insertToList (axis : Axis) (s : CrossListAoi) (a : Addr) : Option CrossListAoi :=
  if s.head axis = none then some (s.setHead axis (some a))
  else do
    let node ← s.memory.lookup a
    let place ← s.findPlace axis (node.entity.coord axis) s.memory.entries.length none
      (s.head axis)
    linkNode axis s a place.1 place.2

/-- `insert_to_x_list`. -/
def insertToXList : CrossListAoi → Addr → Option CrossListAoi := insertToList .x

/-- `insert_to_y_list`. -/
def insertToYList : CrossListAoi → Addr → Option CrossListAoi := insertToList .y

/-- One half of `remove_from_lists`. -/
def removeFromList (axis : Axis) (s : CrossListAoi) (a : Addr) : Option CrossListAoi := do
  let node ← s.memory.lookup a
  let s ← s.setAfter axis (node.prev axis) (node.next axis)
  let node ← s.memory.lookup a
  s.setBefore axis (node.next axis) (node.prev axis)

/-- `remove_from_lists`. -/
def removeFromLists (s : CrossListAoi) (a : Addr) : Option CrossListAoi := do
  let s ← removeFromList .x s a
  removeFromList .y s a

/-- `add_entity`. -/
def addEntity (s : CrossListAoi) (entity : Entity) : Option (CrossListAoi × Bool) :=
  if entity.id = 0 then some (s, false)
  else if (s.nodes.lookup entity.id).isSome then some (s, false)
  else do
    let (s, node) := s.alloc entity
    let s ← s.insertToXList node
    let s ← s.insertToYList node
    some ({ s with nodes := s.nodes.insert entity.id node }, true)

/-- `remove_entity`. -/
def removeEntity (s : CrossListAoi) (entityId : UInt64) : Option (CrossListAoi × Bool) :=
  match s.nodes.lookup entityId with
  | none => some (s, false)
  | some node => do
    let s ← s.removeFromLists node
    some ({ s with nodes := s.nodes.erase entityId, memory := s.memory.erase node }, true)

/-- `update_entity`. -/
def updateEntity (s : CrossListAoi) (entityId : UInt64) (newX newY : ℤ) :
    Option (CrossListAoi × Bool) :=
  match s.nodes.lookup entityId with
  | none => some (s, false)
  | some node => do
    let s ← s.removeFromLists node
    let s ← s.modify node (Node.setPos newX newY)
    let s ← s.insertToXList node
    let s ← s.insertToYList node
    some (s, true)

/-- The loop of `get_entities_in_view`, from `curr` on.  It follows at most `fuel` pointers. -/
def scan (s : CrossListAoi) (minX maxX minY maxY : ℤ) : ℕ → Option Addr → Option (List Entity)
  | _, none => some []
  | 0, some _ => none
  | fuel + 1, some curr => do
    let node ← s.memory.lookup curr
    if maxX < node.entity.x then some []
    else do
      let rest ← s.scan minX maxX minY maxY fuel node.nextX
      if minX ≤ node.entity.x ∧ minY ≤ node.entity.y ∧ node.entity.y ≤ maxY then
        some (node.entity :: rest)
      else some rest

/-- `get_entities_in_view(x, y)`. -/
def getEntitiesInView (s : CrossListAoi) (x y : ℤ) : Option (List Entity) := do
  let minX ← checked (x - s.config.viewRange)
  let maxX ← checked (x + s.config.viewRange)
  let minY ← checked (y - s.config.viewRange)
  let maxY ← checked (y + s.config.viewRange)
  s.scan minX maxX minY maxY s.memory.entries.length s.headX

/-- `get_entities_in_view(watcher_id)`. -/
def getEntitiesInViewOf (s : CrossListAoi) (watcherId : UInt64) : Option (List Entity) :=
  match s.nodes.lookup watcherId with
  | none => some []
  | some a => do
    let node ← s.memory.lookup a
    s.getEntitiesInView node.entity.x node.entity.y

/-- The operations that change the lists. -/
inductive Op
  | add (entity : Entity)
  | remove (entityId : UInt64)
  | update (entityId : UInt64) (newX newY : ℤ)
deriving DecidableEq, Repr

/-- One operation. -/
def exec (s : CrossListAoi) : Op → Option (CrossListAoi × Bool)
  | .add e => s.addEntity e
  | .remove id => s.removeEntity id
  | .update id x y => s.updateEntity id x y

/-- The lists after the operations `ops`. -/
def run (s : CrossListAoi) (ops : List Op) : Option CrossListAoi :=
  ops.foldlM (fun s op ↦ (s.exec op).map Prod.fst) s

/-! ## What is in memory -/

/-- The pointers of one axis. -/
def links (s : CrossListAoi) (axis : Axis) : LinkedList Addr where
  head := s.head axis
  prev a := (s.memory.lookup a).bind (·.prev axis)
  next a := (s.memory.lookup a).bind (·.next axis)

/-- The entity of the node at an address. -/
def entityAt (s : CrossListAoi) (a : Addr) : Option Entity := (s.memory.lookup a).map Node.entity

/-- The coordinate of the node at an address. -/
def coord (s : CrossListAoi) (axis : Axis) (a : Addr) : ℤ :=
  ((s.entityAt a).map (·.coord axis)).getD 0

/-- Only pointers are changed. -/
structure SameNodes (s s' : CrossListAoi) : Prop where
  entityAt : ∀ a, s'.entityAt a = s.entityAt a
  config : s'.config = s.config
  nodes : s'.nodes = s.nodes
  fresh : s'.fresh = s.fresh

/-- Only the pointers of one axis are changed, and they are now `d`. -/
structure Relinked (axis : Axis) (d : LinkedList Addr) (s s' : CrossListAoi) : Prop extends
    SameNodes s s' where
  links : s'.links axis = d
  other : ∀ axis', axis' ≠ axis → s'.links axis' = s.links axis'

section Writes

variable {s s' s'' : CrossListAoi} {axis : Axis} {a : Addr}

theorem SameNodes.trans (h : SameNodes s s') (h' : SameNodes s' s'') : SameNodes s s'' where
  entityAt a := (h'.entityAt a).trans (h.entityAt a)
  config := h'.config.trans h.config
  nodes := h'.nodes.trans h.nodes
  fresh := h'.fresh.trans h.fresh

theorem Relinked.trans {d d' : LinkedList Addr} (h : Relinked axis d s s')
    (h' : Relinked axis d' s' s'') : Relinked axis d' s s'' where
  toSameNodes := h.toSameNodes.trans h'.toSameNodes
  links := h'.links
  other axis' hne := (h'.other axis' hne).trans (h.other axis' hne)

/-- The coordinate of a node is that of its entity. -/
theorem coord_congr (h : s'.entityAt a = s.entityAt a) : s'.coord axis a = s.coord axis a := by
  rw [coord, h, coord]

theorem Relinked.coord {d : LinkedList Addr} (h : Relinked axis d s s') (axis' : Axis)
    (a : Addr) : s'.coord axis' a = s.coord axis' a :=
  coord_congr (h.entityAt a)

theorem exists_lookup (ha : (s.entityAt a).isSome) : ∃ n, s.memory.lookup a = some n := by
  rw [entityAt, Option.isSome_map] at ha
  exact Option.isSome_iff_exists.1 ha

theorem coord_eq {n : Node} (hn : s.memory.lookup a = some n) :
    s.coord axis a = n.entity.coord axis := by
  simp [coord, entityAt, hn]

theorem setHead_relinked (s : CrossListAoi) (axis : Axis) (v : Option Addr) :
    Relinked axis { s.links axis with head := v } s (s.setHead axis v) := by
  refine ⟨⟨fun a ↦ ?_, ?_, ?_, ?_⟩, ?_, fun axis' hne ↦ ?_⟩ <;> rcases axis with _ | _
  all_goals first | rfl | (rcases axis' with _ | _ <;> first | rfl | exact absurd rfl hne)

theorem entityAt_insert (n : Node) (b : Addr) :
    ({ s with memory := s.memory.insert a n } : CrossListAoi).entityAt b =
      if b = a then some n.entity else s.entityAt b := by
  rw [entityAt, UnorderedMap.lookup_insert_ite]
  split <;> rfl

theorem links_insert (n : Node) :
    ({ s with memory := s.memory.insert a n } : CrossListAoi).links axis =
      ⟨s.head axis, Function.update (s.links axis).prev a (n.prev axis),
        Function.update (s.links axis).next a (n.next axis)⟩ := by
  refine LinkedList.ext (by rcases axis with _ | _ <;> rfl) ?_ ?_ <;>
  · funext b
    simp only [links, UnorderedMap.lookup_insert_ite, Function.update_apply]
    split <;> rfl

/-- The pointers of an axis after an assignment that leaves the pointers of this axis. -/
theorem links_insert_of_eq {n n' : Node} (hn : s.memory.lookup a = some n)
    (hprev : n'.prev axis = n.prev axis) (hnext : n'.next axis = n.next axis) :
    ({ s with memory := s.memory.insert a n' } : CrossListAoi).links axis = s.links axis := by
  have hp : n'.prev axis = (s.links axis).prev a := by simp [links, hn, hprev]
  have hq : n'.next axis = (s.links axis).next a := by simp [links, hn, hnext]
  rw [links_insert, hp, hq, Function.update_eq_self, Function.update_eq_self]
  rfl

/-- An assignment to a node that keeps its entity, and its pointers but those of one axis. -/
theorem modify_relinked {f : Node → Node} {n : Node} (hn : s.memory.lookup a = some n)
    (hentity : (f n).entity = n.entity)
    (hother : ∀ axis', axis' ≠ axis →
      (f n).prev axis' = n.prev axis' ∧ (f n).next axis' = n.next axis') :
    ∃ s', s.modify a f = some s' ∧
      Relinked axis ⟨s.head axis, Function.update (s.links axis).prev a ((f n).prev axis),
        Function.update (s.links axis).next a ((f n).next axis)⟩ s s' := by
  refine ⟨{ s with memory := s.memory.insert a (f n) }, by simp [modify, hn], ?_⟩
  refine ⟨⟨fun b ↦ ?_, rfl, rfl, rfl⟩, links_insert (f n), fun axis' hne ↦ ?_⟩
  · rw [entityAt_insert]
    split
    · next hb => rw [hb, hentity, entityAt, hn, Option.map_some]
    · rfl
  · obtain ⟨hprev, hnext⟩ := hother axis' hne
    exact links_insert_of_eq hn hprev hnext

variable (axis)

theorem modify_setPrev (ha : (s.entityAt a).isSome) (v : Option Addr) :
    ∃ s', s.modify a (Node.setPrev axis v) = some s' ∧
      Relinked axis ((s.links axis).setPrev a v) s s' := by
  obtain ⟨n, hn⟩ := exists_lookup ha
  have hq : (s.links axis).next a = n.next axis := by simp [links, hn]
  obtain ⟨s', hs', h⟩ := modify_relinked hn (Node.entity_setPrev axis v n) fun axis' hne ↦
    ⟨by rw [Node.prev_setPrev, if_neg hne], Node.next_setPrev axis axis' v n⟩
  rw [Node.prev_setPrev, if_pos rfl, Node.next_setPrev, ← hq, Function.update_eq_self] at h
  exact ⟨s', hs', h⟩

theorem modify_setNext (ha : (s.entityAt a).isSome) (v : Option Addr) :
    ∃ s', s.modify a (Node.setNext axis v) = some s' ∧
      Relinked axis ((s.links axis).setNext a v) s s' := by
  obtain ⟨n, hn⟩ := exists_lookup ha
  have hp : (s.links axis).prev a = n.prev axis := by simp [links, hn]
  obtain ⟨s', hs', h⟩ := modify_relinked hn (Node.entity_setNext axis v n) fun axis' hne ↦
    ⟨Node.prev_setNext axis axis' v n, by rw [Node.next_setNext, if_neg hne]⟩
  rw [Node.next_setNext, if_pos rfl, Node.prev_setNext, ← hp, Function.update_eq_self] at h
  exact ⟨s', hs', h⟩

theorem setAfter_relinked {p : Option Addr} (hp : ∀ b, p = some b → (s.entityAt b).isSome)
    (v : Option Addr) : ∃ s', s.setAfter axis p v = some s' ∧
      Relinked axis ((s.links axis).setAfter p v) s s' := by
  rcases p with _ | b
  · exact ⟨_, rfl, setHead_relinked s axis v⟩
  · exact modify_setNext axis (hp b rfl) v

theorem setBefore_relinked {c : Option Addr} (hc : ∀ b, c = some b → (s.entityAt b).isSome)
    (v : Option Addr) : ∃ s', s.setBefore axis c v = some s' ∧
      Relinked axis ((s.links axis).setBefore c v) s s' := by
  rcases c with _ | b
  · exact ⟨_, rfl, ⟨fun _ ↦ rfl, rfl, rfl, rfl⟩, rfl, fun _ _ ↦ rfl⟩
  · exact modify_setPrev axis (hc b rfl) v

theorem linkNode_relinked {p c : Option Addr} (ha : (s.entityAt a).isSome)
    (hp : ∀ b, p = some b → (s.entityAt b).isSome)
    (hc : ∀ b, c = some b → (s.entityAt b).isSome) :
    ∃ s', linkNode axis s a p c = some s' ∧
      Relinked axis ((s.links axis).linkBetween a p c) s s' := by
  obtain ⟨s₁, h₁, hr₁⟩ := modify_setPrev axis ha p
  rw [← hr₁.entityAt] at ha
  obtain ⟨s₂, h₂, hr₂⟩ := modify_setNext axis ha c
  have hr := hr₁.trans hr₂
  obtain ⟨s₃, h₃, hr₃⟩ := setAfter_relinked axis
    (fun b hb ↦ (hr.entityAt b).symm ▸ hp b hb) (some a)
  have hr := hr.trans hr₃
  obtain ⟨s₄, h₄, hr₄⟩ := setBefore_relinked axis
    (fun b hb ↦ (hr.entityAt b).symm ▸ hc b hb) (some a)
  refine ⟨s₄, ?_, ?_⟩
  · simp only [linkNode, h₁, h₂, h₃, h₄, Option.bind_eq_bind, Option.bind_some]
  · have hr := hr.trans hr₄
    rw [hr₃.links, hr₂.links, hr₁.links] at hr
    exact hr

end Writes

/-! ## The state of an axis -/

/-- The list of an axis has the nodes `l`.  They are those that satisfy `p`, and they are sorted. -/
structure Threads (s : CrossListAoi) (axis : Axis) (p : Addr → Prop) (l : List Addr) : Prop where
  isList : (s.links axis).IsList l
  mem : ∀ a, a ∈ l ↔ p a
  sorted : l.Pairwise fun a b ↦ s.coord axis a ≤ s.coord axis b

/-- All nodes are in the list of the axis. -/
def Linked (s : CrossListAoi) (axis : Axis) : Prop :=
  ∃ l, s.Threads axis (fun b ↦ (s.entityAt b).isSome) l

/-- All nodes but `a` are in the list of the axis, and if there are none, `a` has null pointers. -/
def LinkedBut (s : CrossListAoi) (axis : Axis) (a : Addr) : Prop :=
  ∃ l, s.Threads axis (fun b ↦ b ≠ a ∧ (s.entityAt b).isSome) l ∧
    (l = [] → (s.links axis).prev a = none ∧ (s.links axis).next a = none)

section Axis

variable {s : CrossListAoi} {axis : Axis} {a : Addr}

/-- There are enough steps for a walk. -/
theorem length_le_memory {l : List Addr} (hl : l.Nodup) (hlive : ∀ b ∈ l, (s.entityAt b).isSome) :
    l.length ≤ s.memory.entries.length := by
  have hsub : l ⊆ s.memory.keys := by
    intro b hb
    obtain ⟨n, hn⟩ := exists_lookup (hlive b hb)
    exact AList.lookup_isSome.1 (by rw [hn]; rfl)
  have hle := (List.subperm_of_subset hl hsub).length_le
  rwa [AList.keys, List.keys, List.length_map] at hle

/-- **The walk.**  From the nodes `r` on, it passes those with a smaller coordinate. -/
theorem findPlace_eq {v : ℤ} {l r : List Addr} (h : (s.links axis).IsList (l ++ r))
    (hlive : ∀ b ∈ r, (s.entityAt b).isSome) {fuel : ℕ} (hfuel : r.length ≤ fuel) :
    s.findPlace axis v fuel l.getLast? r.head? =
      some ((l ++ r.takeWhile fun b ↦ decide (¬ v ≤ s.coord axis b)).getLast?,
        (r.dropWhile fun b ↦ decide (¬ v ≤ s.coord axis b)).head?) := by
  induction r generalizing l fuel with
  | nil =>
    rw [List.head?_nil, findPlace, List.takeWhile_nil, List.dropWhile_nil, List.append_nil]
    rfl
  | cons b r ih =>
    obtain ⟨fuel, rfl⟩ := Nat.exists_eq_add_of_le' (Nat.le_trans (Nat.le_add_left 1 _) hfuel)
    obtain ⟨n, hn⟩ := exists_lookup (hlive b List.mem_cons_self)
    have hnext : n.next axis = r.head? := by
      rw [← h.node.2]
      simp [links, hn]
    rw [List.head?_cons, findPlace, hn, Option.bind_eq_bind, Option.bind_some, hnext,
      ← coord_eq hn]
    split
    · next hlt =>
      have hrec := ih (l := l ++ [b]) (by simpa using h)
        (fun c hc ↦ hlive c (List.mem_cons_of_mem b hc)) (Nat.le_of_succ_le_succ hfuel)
      rw [List.getLast?_concat, List.append_assoc] at hrec
      rw [hrec, List.takeWhile_cons_of_pos (by simpa using hlt),
        List.dropWhile_cons_of_pos (by simpa using hlt)]
      rfl
    · next hlt =>
      rw [List.takeWhile_cons_of_neg (by simpa using hlt),
        List.dropWhile_cons_of_neg (by simpa using hlt), List.append_nil]
      rfl

theorem Linked.congr (h : s.Linked axis) {s' : CrossListAoi} (hlinks : s'.links axis = s.links axis)
    (hentity : ∀ b, s'.entityAt b = s.entityAt b) : s'.Linked axis := by
  obtain ⟨l, hl⟩ := h
  refine ⟨l, hlinks ▸ hl.isList, fun b ↦ ?_, ?_⟩
  · rw [hentity, hl.mem]
  · simpa only [coord_congr (hentity _)] using hl.sorted

/-- A node that is not in a list may be changed, but for null pointers. -/
theorem LinkedBut.congr (h : s.LinkedBut axis a) {s' : CrossListAoi}
    (hhead : s'.head axis = s.head axis)
    (hlinks : ∀ b, b ≠ a → (s'.links axis).prev b = (s.links axis).prev b ∧
      (s'.links axis).next b = (s.links axis).next b)
    (hnull : (s.links axis).prev a = none ∧ (s.links axis).next a = none →
      (s'.links axis).prev a = none ∧ (s'.links axis).next a = none)
    (hentity : ∀ b, b ≠ a → s'.entityAt b = s.entityAt b) : s'.LinkedBut axis a := by
  obtain ⟨l, hl, hnull'⟩ := h
  have hne : ∀ b ∈ l, b ≠ a := fun b hb ↦ ((hl.mem b).1 hb).1
  refine ⟨l, ⟨?_, fun b ↦ ?_, ?_⟩, fun hnil ↦ hnull (hnull' hnil)⟩
  · exact hl.isList.congr hhead (fun b hb ↦ (hlinks b (hne b hb)).1)
      fun b hb ↦ (hlinks b (hne b hb)).2
  · rw [hl.mem]
    exact and_congr_right fun hb ↦ by rw [hentity b hb]
  · refine hl.sorted.imp_of_mem fun hb hc hle ↦ ?_
    rwa [coord_congr (hentity _ (hne _ hb)), coord_congr (hentity _ (hne _ hc))]

/-- The entity of a node that is not in a list may be changed. -/
theorem LinkedBut.congr_entity (h : s.LinkedBut axis a) {s' : CrossListAoi}
    (hlinks : s'.links axis = s.links axis)
    (hentity : ∀ b, b ≠ a → s'.entityAt b = s.entityAt b) : s'.LinkedBut axis a := by
  refine h.congr (congrArg LinkedList.head hlinks) (fun b _ ↦ ?_) (fun hnull ↦ ?_) hentity
  · rw [hlinks]
    exact ⟨rfl, rfl⟩
  · rwa [hlinks]

/-- **A node is put into a list.** -/
theorem insertToList_linked (h : s.LinkedBut axis a) (ha : (s.entityAt a).isSome) :
    ∃ s' d, insertToList axis s a = some s' ∧ Relinked axis d s s' ∧ s'.Linked axis := by
  obtain ⟨l, hl, hnull⟩ := h
  have hal : a ∉ l := fun hmem ↦ ((hl.mem a).1 hmem).1 rfl
  have hlive : ∀ b ∈ l, (s.entityAt b).isSome := fun b hb ↦ ((hl.mem b).1 hb).2
  rw [insertToList]
  split
  · next hhead =>
    obtain rfl : l = [] := List.head?_eq_none_iff.1 (hl.isList.head.symm.trans hhead)
    obtain ⟨hp, hq⟩ := hnull rfl
    have hr := setHead_relinked s axis (some a)
    refine ⟨_, _, rfl, hr, [a], ?_, fun b ↦ ?_, List.pairwise_singleton _ _⟩
    · rw [hr.links]
      exact .singleton hp hq
    · rw [hr.entityAt, List.mem_singleton]
      refine ⟨fun hb ↦ hb ▸ ha, fun hb ↦ ?_⟩
      by_contra hne
      exact List.not_mem_nil ((hl.mem b).2 ⟨hne, hb⟩)
  · next hhead =>
    obtain ⟨n, hn⟩ := exists_lookup ha
    let r : Addr → Addr → Prop := fun b c ↦ s.coord axis b ≤ s.coord axis c
    have : Std.Total r := ⟨fun b c ↦ Int.le_total _ _⟩
    have : IsTrans Addr r := ⟨fun b c d ↦ Int.le_trans⟩
    have hplace := findPlace_eq (v := s.coord axis a) (l := []) hl.isList hlive
      (length_le_memory hl.isList.nodup hlive)
    rw [List.getLast?_nil, List.nil_append, ← show s.head axis = l.head? from hl.isList.head]
      at hplace
    have hsplit := List.takeWhile_append_dropWhile (p := fun b ↦ decide (¬ r a b)) (l := l)
    obtain ⟨s', hs', hr⟩ := linkNode_relinked axis ha
      (fun b hb ↦ hlive b (List.takeWhile_subset _ (List.mem_of_getLast? hb)))
      fun b hb ↦ hlive b ((List.dropWhile_suffix _).subset (List.mem_of_mem_head? hb))
    refine ⟨s', _, ?_, hr, l.orderedInsert r a, ?_, fun b ↦ ?_, ?_⟩
    · rw [hn, Option.bind_eq_bind, Option.bind_some, ← coord_eq hn, Option.bind_eq_bind, hplace,
        Option.bind_some]
      exact hs'
    · rw [hr.links, List.orderedInsert_eq_take_drop]
      exact .linkBetween (hsplit.symm ▸ hl.isList) (hsplit.symm ▸ hal)
    · rw [List.mem_orderedInsert, hl.mem, hr.entityAt]
      by_cases hb : b = a
      · simp [hb, ha]
      · simp [hb]
    · simpa only [hr.coord] using hl.sorted.orderedInsert a l

/-- **A node is taken out of a list.** -/
theorem removeFromList_linkedBut (h : s.Linked axis) (ha : (s.entityAt a).isSome) :
    ∃ s' d, removeFromList axis s a = some s' ∧ Relinked axis d s s' ∧ s'.LinkedBut axis a := by
  obtain ⟨l, hl⟩ := h
  obtain ⟨n, hn⟩ := exists_lookup ha
  obtain ⟨left, right, rfl⟩ := List.append_of_mem ((hl.mem a).2 ha)
  obtain ⟨hlist, hp', hq'⟩ := hl.isList.unlink
  obtain ⟨hp, hq⟩ := hl.isList.node
  have hprev : n.prev axis = (s.links axis).prev a := by simp [links, hn]
  have hnext : n.next axis = (s.links axis).next a := by simp [links, hn]
  obtain ⟨s₁, h₁, hr₁⟩ := setAfter_relinked axis (p := n.prev axis) (fun b hb ↦ by
    rw [hprev, hp] at hb
    exact (hl.mem b).1 (List.mem_append_left _ (List.mem_of_getLast? hb))) (n.next axis)
  obtain ⟨n₁, hn₁⟩ := exists_lookup (hr₁.entityAt a ▸ ha)
  have hprev₁ : n₁.prev axis = (s₁.links axis).prev a := by simp [links, hn₁]
  have hnext₁ : n₁.next axis = (s₁.links axis).next a := by simp [links, hn₁]
  have hq₁ : (s₁.links axis).next a = right.head? := by
    rw [hr₁.links, hprev, hnext, ← hq', LinkedList.unlink, LinkedList.setBefore_next]
  obtain ⟨s₂, h₂, hr₂⟩ := setBefore_relinked axis (c := n₁.next axis) (fun b hb ↦ by
    rw [hnext₁, hq₁] at hb
    rw [hr₁.entityAt]
    exact (hl.mem b).1 (List.mem_append_right _
      (List.mem_cons_of_mem a (List.mem_of_mem_head? hb)))) (n₁.prev axis)
  have hr := hr₁.trans hr₂
  have hlinks : s₂.links axis = (s.links axis).unlink a := by
    rw [hr₂.links, hprev₁, hnext₁, hr₁.links, hprev, hnext, LinkedList.unlink]
  obtain ⟨hnot, -⟩ := List.nodup_cons.1 (List.nodup_middle.1 hl.isList.nodup)
  refine ⟨s₂, _, ?_, hr, left ++ right, ⟨hlinks ▸ hlist, fun b ↦ ?_, ?_⟩, fun hnil ↦ ?_⟩
  · simp only [removeFromList, hn, h₁, hn₁, h₂, Option.bind_eq_bind, Option.bind_some]
  · rw [hr.entityAt, ← hl.mem, List.mem_append, List.mem_append, List.mem_cons]
    by_cases hb : b = a
    · simpa [hb] using hnot
    · simp [hb]
  · simp only [hr.coord]
    exact hl.sorted.sublist ((List.sublist_cons_self a right).append_left left)
  · obtain ⟨rfl, rfl⟩ := List.append_eq_nil_iff.1 hnil
    rw [hlinks]
    exact ⟨hp', hq'⟩

/-- **A node is put into both lists.** -/
theorem insertToLists_linked (h : ∀ axis, s.LinkedBut axis a) (ha : (s.entityAt a).isSome) :
    ∃ s₁ s', s.insertToXList a = some s₁ ∧ s₁.insertToYList a = some s' ∧ SameNodes s s' ∧
      ∀ axis, s'.Linked axis := by
  obtain ⟨s₁, d₁, h₁, hr₁, hx⟩ := insertToList_linked (h .x) ha
  have hy : s₁.LinkedBut .y a := (h .y).congr_entity (hr₁.other .y Axis.noConfusion)
    fun b _ ↦ hr₁.entityAt b
  obtain ⟨s₂, d₂, h₂, hr₂, hy⟩ := insertToList_linked hy (hr₁.entityAt a ▸ ha)
  refine ⟨s₁, s₂, h₁, h₂, hr₁.toSameNodes.trans hr₂.toSameNodes, fun axis ↦ ?_⟩
  rcases axis with _ | _
  · exact hx.congr (hr₂.other .x Axis.noConfusion) hr₂.entityAt
  · exact hy

/-- **A node is taken out of both lists.** -/
theorem removeFromLists_linkedBut (h : ∀ axis, s.Linked axis) (ha : (s.entityAt a).isSome) :
    ∃ s', s.removeFromLists a = some s' ∧ SameNodes s s' ∧ ∀ axis, s'.LinkedBut axis a := by
  obtain ⟨s₁, d₁, h₁, hr₁, hx⟩ := removeFromList_linkedBut (h .x) ha
  have hy : s₁.Linked .y := (h .y).congr (hr₁.other .y Axis.noConfusion) hr₁.entityAt
  obtain ⟨s₂, d₂, h₂, hr₂, hy⟩ := removeFromList_linkedBut hy (hr₁.entityAt a ▸ ha)
  refine ⟨s₂, ?_, hr₁.toSameNodes.trans hr₂.toSameNodes, fun axis ↦ ?_⟩
  · rw [removeFromLists, h₁, Option.bind_eq_bind, Option.bind_some, h₂]
  · rcases axis with _ | _
    · exact hx.congr_entity (hr₂.other .x Axis.noConfusion) fun b _ ↦ hr₂.entityAt b
    · exact hy

/-- All nodes but one that does not exist. -/
theorem Linked.linkedBut (h : s.Linked axis) (ha : s.memory.lookup a = none) :
    s.LinkedBut axis a := by
  obtain ⟨l, hl⟩ := h
  refine ⟨l, ⟨hl.isList, fun b ↦ ?_, hl.sorted⟩, fun _ ↦ by simp [links, ha]⟩
  rw [hl.mem]
  refine ⟨fun hb ↦ ⟨?_, hb⟩, And.right⟩
  rintro rfl
  simp [entityAt, ha] at hb

/-- All nodes but one that does not exist are all nodes. -/
theorem LinkedBut.linked (h : s.LinkedBut axis a) (ha : s.memory.lookup a = none) :
    s.Linked axis := by
  obtain ⟨l, hl, -⟩ := h
  refine ⟨l, hl.isList, fun b ↦ ?_, hl.sorted⟩
  rw [hl.mem]
  refine ⟨And.right, fun hb ↦ ⟨?_, hb⟩⟩
  rintro rfl
  simp [entityAt, ha] at hb

end Axis

/-! ## Runs -/

/-- The table of nodes and the two lists have the nodes in memory, each under the id of its
entity. -/
structure WellFormed (s : CrossListAoi) : Prop where
  linked : ∀ axis, s.Linked axis
  stored : ∀ id a, s.nodes.lookup id = some a ↔ (s.entityAt a).map Entity.id = some id
  fresh : ∀ a, (s.entityAt a).isSome → a < s.fresh

theorem new_wellFormed (config : Config) : (new config).WellFormed := by
  have hnone : ∀ a, (new config).entityAt a = none := fun a ↦ rfl
  refine ⟨fun axis ↦ ⟨[], ⟨?_, .nil, trivial⟩, fun a ↦ ?_, .nil⟩, fun id a ↦ ?_, fun a ha ↦ ?_⟩
  · rcases axis with _ | _ <;> rfl
  · rw [hnone]
    simp
  · rw [hnone]
    simp [new]
  · rw [hnone] at ha
    cases ha

section Calls

variable {s : CrossListAoi} {a : Addr}

theorem WellFormed.live (h : s.WellFormed) {id : UInt64}
    (ha : s.nodes.lookup id = some a) : (s.entityAt a).isSome := by
  have hid := (h.stored id a).1 ha
  rw [← Option.isSome_map, hid]
  rfl

theorem WellFormed.lookup_fresh (h : s.WellFormed) : s.memory.lookup s.fresh = none := by
  rcases hn : s.memory.lookup s.fresh with _ | n
  · rfl
  · have := h.fresh s.fresh (by rw [entityAt, hn]; rfl)
    exact absurd this (Nat.lt_irrefl _)

theorem entityAt_alloc (s : CrossListAoi) (e : Entity) (b : Addr) :
    (s.alloc e).1.entityAt b = if b = s.fresh then some e else s.entityAt b :=
  entityAt_insert (s := s) { entity := e } b

theorem alloc_linkedBut (h : s.WellFormed) (e : Entity) (axis : Axis) :
    (s.alloc e).1.LinkedBut axis s.fresh := by
  have hdead := h.lookup_fresh
  have hlinks : (s.alloc e).1.links axis = s.links axis := by
    have hp : (s.links axis).prev s.fresh = none := by simp [links, hdead]
    have hq : (s.links axis).next s.fresh = none := by simp [links, hdead]
    have hnull : Node.prev { entity := e } axis = none ∧ Node.next { entity := e } axis = none := by
      rcases axis with _ | _ <;> exact ⟨rfl, rfl⟩
    refine (links_insert (s := s) { entity := e }).trans ?_
    rw [hnull.1, hnull.2, ← hp, Function.update_eq_self, hp, ← hq, Function.update_eq_self]
    rfl
  refine ((h.linked axis).linkedBut hdead).congr_entity hlinks fun b hb ↦ ?_
  rw [entityAt_alloc, if_neg hb]

/-- `add_entity` is defined, and keeps the lists well formed. -/
theorem addEntity_wellFormed (h : s.WellFormed) (e : Entity) :
    ∃ r, s.addEntity e = some r ∧ r.1.WellFormed ∧ r.1.config = s.config := by
  rw [addEntity]
  split
  · exact ⟨_, rfl, h, rfl⟩
  split
  · exact ⟨_, rfl, h, rfl⟩
  · next hnew =>
    obtain ⟨s₁, s', h₁, h', hsame, hlinked⟩ := insertToLists_linked (alloc_linkedBut h e)
      (by rw [entityAt_alloc, if_pos rfl]; rfl)
    have hentity : ∀ b, s'.entityAt b = if b = s.fresh then some e else s.entityAt b :=
      fun b ↦ (hsame.entityAt b).trans (entityAt_alloc s e b)
    refine ⟨({ s' with nodes := s'.nodes.insert e.id s.fresh }, true), ?_,
      ⟨fun axis ↦ (hlinked axis).congr rfl fun _ ↦ rfl, fun id a ↦ ?_, fun a ha ↦ ?_⟩,
      hsame.config⟩
    · show ((s.alloc e).1.insertToXList s.fresh).bind _ = _
      rw [h₁, Option.bind_some, h']
      rfl
    · have hid : (s'.entityAt a).map Entity.id =
          if a = s.fresh then some e.id else (s.entityAt a).map Entity.id := by
        rw [hentity, apply_ite (Option.map Entity.id), Option.map_some]
      show (s'.nodes.insert e.id s.fresh).lookup id = some a ↔ (s'.entityAt a).map Entity.id = _
      rw [hid, hsame.nodes]
      refine UnorderedMap.inverse_insert h.stored (Option.not_isSome_iff_eq_none.1 hnew) ?_ id a
      rw [entityAt, h.lookup_fresh]
      rfl
    · replace ha : (s'.entityAt a).isSome := ha
      show a < s'.fresh
      rw [hsame.fresh]
      rw [hentity] at ha
      split at ha
      · next hfresh => exact hfresh ▸ Nat.lt_succ_self _
      · exact Nat.lt_succ_of_lt (h.fresh a ha)

/-- `remove_entity` is defined, and keeps the lists well formed. -/
theorem removeEntity_wellFormed (h : s.WellFormed) (entityId : UInt64) :
    ∃ r, s.removeEntity entityId = some r ∧ r.1.WellFormed ∧ r.1.config = s.config := by
  rw [removeEntity]
  split
  · exact ⟨_, rfl, h, rfl⟩
  · next a ha =>
    obtain ⟨s₁, h₁, hsame, hbut⟩ := removeFromLists_linkedBut h.linked (h.live ha)
    let s' : CrossListAoi :=
      { s₁ with nodes := s₁.nodes.erase entityId, memory := s₁.memory.erase a }
    have hmem : ∀ b, s'.memory.lookup b = if b = a then none else s₁.memory.lookup b :=
      UnorderedMap.lookup_erase_ite s₁.memory a
    have hentity : ∀ b, s'.entityAt b = if b = a then none else s.entityAt b := by
      intro b
      rw [← hsame.entityAt, entityAt, hmem]
      split <;> rfl
    refine ⟨(s', true), by rw [h₁]; rfl, ⟨fun axis ↦ ?_, fun id b ↦ ?_, fun b hb ↦ ?_⟩,
      hsame.config⟩
    · have hdead : s'.memory.lookup a = none := by rw [hmem, if_pos rfl]
      refine LinkedBut.linked ((hbut axis).congr ?_ (fun b hb ↦ ?_) (fun _ ↦ ?_) fun b hb ↦ ?_)
        hdead
      · rcases axis with _ | _ <;> rfl
      · simp [links, hmem, hb]
      · simp [links, hmem]
      · rw [hentity, if_neg hb, hsame.entityAt]
    · have hid : (s'.entityAt b).map Entity.id =
          if b = a then none else (s.entityAt b).map Entity.id := by
        rw [hentity, apply_ite (Option.map Entity.id), Option.map_none]
      show (s₁.nodes.erase entityId).lookup id = some b ↔ (s'.entityAt b).map Entity.id = _
      rw [hid, hsame.nodes]
      exact UnorderedMap.inverse_erase h.stored ha id b
    · replace hb : (s'.entityAt b).isSome := hb
      rw [hentity] at hb
      split at hb
      · cases hb
      · exact hsame.fresh ▸ h.fresh b hb

/-- A node that is in no list gets another position. -/
theorem modify_setPos (hbut : ∀ axis, s.LinkedBut axis a) (ha : (s.entityAt a).isSome)
    (newX newY : ℤ) :
    ∃ s', s.modify a (Node.setPos newX newY) = some s' ∧ (∀ axis, s'.LinkedBut axis a) ∧
      (∀ b, (s'.entityAt b).map Entity.id = (s.entityAt b).map Entity.id) ∧
      s'.config = s.config ∧ s'.nodes = s.nodes ∧ s'.fresh = s.fresh := by
  obtain ⟨n, hn⟩ := exists_lookup ha
  have hentity := entityAt_insert (s := s) (a := a) (n.setPos newX newY)
  refine ⟨{ s with memory := s.memory.insert a (n.setPos newX newY) }, ?_, fun axis ↦ ?_,
    fun b ↦ ?_, rfl, rfl, rfl⟩
  · simp only [modify, hn, Option.bind_eq_bind, Option.bind_some]
  · refine (hbut axis).congr_entity (links_insert_of_eq hn ?_ ?_) fun b hb ↦ ?_
    · rcases axis with _ | _ <;> rfl
    · rcases axis with _ | _ <;> rfl
    · rw [hentity, if_neg hb]
  · rw [hentity]
    split
    · next hb => rw [hb, entityAt, hn]; rfl
    · rfl

/-- `update_entity` is defined, and keeps the lists well formed. -/
theorem updateEntity_wellFormed (h : s.WellFormed) (entityId : UInt64) (newX newY : ℤ) :
    ∃ r, s.updateEntity entityId newX newY = some r ∧ r.1.WellFormed ∧ r.1.config = s.config := by
  rw [updateEntity]
  split
  · exact ⟨_, rfl, h, rfl⟩
  · next a ha =>
    obtain ⟨s₁, h₁, hsame₁, hbut⟩ := removeFromLists_linkedBut h.linked (h.live ha)
    obtain ⟨s₂, h₂, hbut₂, hid₂, hconfig, hnodes, hfresh⟩ :=
      modify_setPos hbut (hsame₁.entityAt a ▸ h.live ha) newX newY
    have hid : ∀ b, (s₂.entityAt b).map Entity.id = (s.entityAt b).map Entity.id :=
      fun b ↦ (hid₂ b).trans (congrArg _ (hsame₁.entityAt b))
    have hlive : (s₂.entityAt a).isSome := by
      rw [← Option.isSome_map (f := Entity.id), hid, Option.isSome_map]
      exact h.live ha
    obtain ⟨s₃, s', h₃, h', hsame', hlinked⟩ := insertToLists_linked hbut₂ hlive
    have hid' : ∀ b, (s'.entityAt b).map Entity.id = (s.entityAt b).map Entity.id :=
      fun b ↦ (congrArg _ (hsame'.entityAt b)).trans (hid b)
    refine ⟨(s', true), ?_, ⟨hlinked, fun id b ↦ ?_, fun b hb ↦ ?_⟩,
      hsame'.config.trans (hconfig.trans hsame₁.config)⟩
    · simp only [h₁, h₂, h₃, h', Option.bind_eq_bind, Option.bind_some]
    · rw [hid', ← h.stored, hsame'.nodes, hnodes, hsame₁.nodes]
    · rw [← Option.isSome_map (f := Entity.id), hid', Option.isSome_map] at hb
      rw [hsame'.fresh, hfresh, hsame₁.fresh]
      exact h.fresh b hb

/-- **One call** is defined, and keeps the lists well formed. -/
theorem exec_wellFormed (h : s.WellFormed) (op : Op) :
    ∃ r, s.exec op = some r ∧ r.1.WellFormed ∧ r.1.config = s.config := by
  cases op with
  | add e => exact addEntity_wellFormed h e
  | remove id => exact removeEntity_wellFormed h id
  | update id x y => exact updateEntity_wellFormed h id x y

/-- **Every run** is defined, and keeps the lists well formed. -/
theorem run_wellFormed (h : s.WellFormed) (ops : List Op) :
    ∃ s', s.run ops = some s' ∧ s'.WellFormed ∧ s'.config = s.config := by
  induction ops generalizing s with
  | nil => exact ⟨s, rfl, h, rfl⟩
  | cons op ops ih =>
    obtain ⟨r, hr, hwf, hconfig⟩ := exec_wellFormed h op
    obtain ⟨s', hs', hwf', hconfig'⟩ := ih hwf
    refine ⟨s', ?_, hwf', hconfig'.trans hconfig⟩
    rw [run, List.foldlM_cons, hr]
    exact hs'

end Calls

/-! ## The query -/

/-- The stored entities. -/
def entities (s : CrossListAoi) : List Entity := s.nodes.entries.filterMap fun e ↦ s.entityAt e.2

/-- Both coordinates of an entity are within the view range of a position. -/
def Config.InView (c : Config) (x y : ℤ) (e : Entity) : Prop :=
  |e.x - x| ≤ c.viewRange ∧ |e.y - y| ≤ c.viewRange

instance (c : Config) (x y : ℤ) : DecidablePred (c.InView x y) :=
  fun _ ↦ inferInstanceAs (Decidable (_ ∧ _))

theorem inView_iff {c : Config} {x y : ℤ} {e : Entity} :
    c.InView x y e ↔ (x - c.viewRange ≤ e.x ∧ e.x ≤ x + c.viewRange) ∧
      y - c.viewRange ≤ e.y ∧ e.y ≤ y + c.viewRange := by
  rw [Config.InView, abs_sub_le_iff, abs_sub_le_iff]
  omega

section Query

variable {s : CrossListAoi}

/-- **The loop of the query.**  It leaves out the nodes beyond the first that is too far to the
right, and these are too far to the right as well. -/
theorem scan_eq (minX maxX minY maxY : ℤ) {l r : List Addr}
    (h : (s.links .x).IsList (l ++ r)) (hlive : ∀ b ∈ r, (s.entityAt b).isSome)
    (hsorted : r.Pairwise fun a b ↦ s.coord .x a ≤ s.coord .x b) {fuel : ℕ}
    (hfuel : r.length ≤ fuel) :
    s.scan minX maxX minY maxY fuel r.head? = some ((r.filterMap s.entityAt).filter fun e ↦
      decide ((minX ≤ e.x ∧ e.x ≤ maxX) ∧ minY ≤ e.y ∧ e.y ≤ maxY)) := by
  induction r generalizing l fuel with
  | nil =>
    rw [List.head?_nil, scan]
    rfl
  | cons b r ih =>
    obtain ⟨fuel, rfl⟩ := Nat.exists_eq_add_of_le' (Nat.le_trans (Nat.le_add_left 1 _) hfuel)
    obtain ⟨n, hn⟩ := exists_lookup (hlive b List.mem_cons_self)
    obtain ⟨hfirst, hrest⟩ := List.pairwise_cons.1 hsorted
    have hentity : s.entityAt b = some n.entity := by rw [entityAt, hn, Option.map_some]
    have hnext : n.nextX = r.head? := by
      rw [← h.node.2]
      simp [links, hn, Node.next]
    have hrec := ih (l := l ++ [b]) (by simpa using h)
      (fun c hc ↦ hlive c (List.mem_cons_of_mem b hc)) hrest (Nat.le_of_succ_le_succ hfuel)
    rw [List.head?_cons, scan, hn, Option.bind_eq_bind, Option.bind_some, hnext, hrec,
      List.filterMap_cons_some hentity]
    split
    · next hfar =>
      have hall : ∀ e ∈ n.entity :: r.filterMap s.entityAt, maxX < e.x := by
        intro e he
        rcases List.mem_cons.1 he with rfl | he
        · exact hfar
        · obtain ⟨c, hc, hce⟩ := List.mem_filterMap.1 he
          have hle := hfirst c hc
          rw [coord, coord, hentity, hce] at hle
          exact Int.lt_of_lt_of_le hfar hle
      refine congrArg some (List.filter_eq_nil_iff.2 fun e he hin ↦ ?_).symm
      exact absurd (of_decide_eq_true hin).1.2 (Int.not_le.2 (hall e he))
    · next hnear =>
      rw [Option.bind_eq_bind, Option.bind_some, List.filter_cons]
      have hle := Int.not_lt.1 hnear
      simp only [hle, and_true, decide_eq_true_eq]
      split <;> rfl

/-- The list of an axis has the stored nodes. -/
theorem WellFormed.perm_nodes (h : s.WellFormed) {axis : Axis} {l : List Addr}
    (hl : s.Threads axis (fun b ↦ (s.entityAt b).isSome) l) :
    l.Perm (s.nodes.entries.map Sigma.snd) := by
  have hnodup : (s.nodes.entries.map Sigma.snd).Nodup := by
    refine List.Nodup.map_on ?_ s.nodes.nodupKeys.nodup
    rintro ⟨id, a⟩ he ⟨id', a'⟩ he' rfl
    have hid := (h.stored id a).1 (UnorderedMap.lookup_eq_some_iff.2 he)
    have hid' := (h.stored id' a).1 (UnorderedMap.lookup_eq_some_iff.2 he')
    rw [Option.some.inj (hid.symm.trans hid')]
  refine (List.perm_ext_iff_of_nodup hl.isList.nodup hnodup).2 fun a ↦ ?_
  rw [hl.mem, List.mem_map]
  constructor
  · intro ha
    obtain ⟨e, he⟩ := Option.isSome_iff_exists.1 ha
    have hid : s.nodes.lookup e.id = some a := (h.stored e.id a).2 (by rw [he]; rfl)
    exact ⟨⟨e.id, a⟩, UnorderedMap.lookup_eq_some_iff.1 hid, rfl⟩
  · rintro ⟨⟨id, a⟩, he, rfl⟩
    exact h.live (UnorderedMap.lookup_eq_some_iff.2 he)

/-- **The query is exact**, when nothing overflows. -/
theorem getEntitiesInView_perm (h : s.WellFormed) {x y : ℤ}
    (hfits : ∀ n ∈ [x - s.config.viewRange, x + s.config.viewRange, y - s.config.viewRange,
      y + s.config.viewRange], (checked n).isSome) :
    ∃ r, s.getEntitiesInView x y = some r ∧
      r.Perm (s.entities.filter fun e ↦ s.config.InView x y e) := by
  obtain ⟨l, hl⟩ := h.linked .x
  have hlive : ∀ b ∈ l, (s.entityAt b).isSome := fun b ↦ (hl.mem b).1
  have hchecked : ∀ n ∈ [x - s.config.viewRange, x + s.config.viewRange, y - s.config.viewRange,
      y + s.config.viewRange], checked n = some n := by
    intro n hn
    obtain ⟨m, hm⟩ := Option.isSome_iff_exists.1 (hfits n hn)
    rw [hm, (checked_eq_some.1 hm).1]
  have hscan := scan_eq (x - s.config.viewRange) (x + s.config.viewRange) (y - s.config.viewRange)
    (y + s.config.viewRange) (l := []) hl.isList hlive hl.sorted
    (length_le_memory hl.isList.nodup hlive)
  have hhead : s.headX = l.head? := hl.isList.head
  simp only [← inView_iff, ← hhead] at hscan
  refine ⟨(l.filterMap s.entityAt).filter fun e ↦ s.config.InView x y e, ?_, ?_⟩
  · rw [getEntitiesInView, hchecked _ (by simp), hchecked _ (by simp), hchecked _ (by simp),
      hchecked _ (by simp)]
    exact hscan
  · have hperm := ((h.perm_nodes hl).filterMap s.entityAt).filter fun e ↦ s.config.InView x y e
    rwa [List.filterMap_map] at hperm

end Query

/-- **The cross list is well formed and its query exact.**  Every run is defined.  At its end each
stored node is in memory, under the id of its entity; the list of each axis is a doubly linked list
of the stored nodes, each once, sorted by the coordinate; and the query at a position, unless it
overflows, returns the stored entities with both coordinates within the view range. -/
theorem run_exact (config : Config) (ops : List Op) :
    ∃ s, (new config).run ops = some s ∧
      (∀ id a, s.nodes.lookup id = some a → ∃ e, s.entityAt a = some e ∧ e.id = id) ∧
      (∀ axis, ∃ l, (s.links axis).IsList l ∧
        (∀ a, a ∈ l ↔ ∃ id, s.nodes.lookup id = some a) ∧
        l.Pairwise fun a b ↦ s.coord axis a ≤ s.coord axis b) ∧
      ∀ x y, (∀ n ∈ [x - config.viewRange, x + config.viewRange, y - config.viewRange,
          y + config.viewRange], (checked n).isSome) →
        ∃ r, s.getEntitiesInView x y = some r ∧
          r.Perm (s.entities.filter fun e ↦ config.InView x y e) := by
  obtain ⟨s, hs, hwf, rfl⟩ := run_wellFormed (new_wellFormed config) ops
  refine ⟨s, hs, fun id a ha ↦ ?_, fun axis ↦ ?_, fun x y ↦ getEntitiesInView_perm hwf⟩
  · exact Option.map_eq_some_iff.1 ((hwf.stored id a).1 ha)
  · obtain ⟨l, hl⟩ := hwf.linked axis
    refine ⟨l, hl.isList, fun a ↦ ?_, hl.sorted⟩
    rw [(hwf.perm_nodes hl).mem_iff, List.mem_map]
    constructor
    · rintro ⟨⟨id, a⟩, he, rfl⟩
      exact ⟨id, UnorderedMap.lookup_eq_some_iff.2 he⟩
    · rintro ⟨id, hid⟩
      exact ⟨⟨id, a⟩, UnorderedMap.lookup_eq_some_iff.1 hid, rfl⟩

/-- The only node is moved, so that each list is empty when it is put in again, and then overtaken.
-/
theorem run_exact_moved :
    ∃ s, (new {}).run [.add ⟨1, 5, 5, .player, 0⟩, .update 1 50 60, .add ⟨2, 0, 300, .npc, 0⟩,
        .add ⟨3, 200, 0, .npc, 0⟩] = some s ∧
      s.getEntitiesInView 0 0 = some [⟨1, 50, 60, .player, 0⟩] ∧
      [⟨1, 50, 60, .player, 0⟩].Perm (s.entities.filter fun e ↦ Config.InView {} 0 0 e) := by
  obtain ⟨s, hs, -, -, hquery⟩ := run_exact {} [.add ⟨1, 5, 5, .player, 0⟩, .update 1 50 60,
    .add ⟨2, 0, 300, .npc, 0⟩, .add ⟨3, 200, 0, .npc, 0⟩]
  obtain ⟨r, hr, hperm⟩ := hquery 0 0 (by decide)
  obtain rfl := Option.some.inj hs
  obtain rfl := Option.some.inj hr
  exact ⟨_, rfl, rfl, hperm⟩

end CrossListAoi
end Aoi
end ChwellCore
