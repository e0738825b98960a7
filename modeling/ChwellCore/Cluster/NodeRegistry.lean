import ChwellCore.Lib.UnorderedMap
import ChwellCore.LoadBalance.ConsistentHash

/-!
# The node registry

`NodeRegistry` keeps the nodes of a cluster twice: in the table `nodes_`, and as instances of a
consistent-hash balancer in which a node type is a service.  `find_nodes_by_type` reads the table,
`select_node_by_hash` asks the balancer for an id and looks it up.  For the empty type, which stands
for any, the balancer is asked for the group `__all__`.

The two are not changed together.  Only the loader puts a node into `__all__`; `register_node` does
not, and `unregister_node` takes a node out of the group of its type and leaves it in `__all__`.  A
node registered again under another type stays in the group of the old one.

`run_eq` splits a run into the table and the calls that the balancer received since it was last
cleared, neither of which depends on how `std::sort` orders equal hashes.  `select_cases` says what
a selection can be: nothing when the group is empty, else the answer of `find_node` for an id of the
group.  As every id of the group is the answer for some key under some sort, `agrees_iff` follows:
the selection agrees with the table exactly where the group does (`InStep`).
-/

set_option autoImplicit false

namespace ChwellCore
namespace Cluster

open LoadBalance

/-- `NodeInfo`. -/
structure NodeInfo where
  nodeId : Bytes
  listenAddr : Bytes
  listenPort : UInt16
  nodeType : Bytes
  online : Bool
deriving DecidableEq, Repr

/-- `NodeRegistry`. -/
structure NodeRegistry where
  nodes : UnorderedMap Bytes NodeInfo
  chBalancer : ConsistentHashLoadBalancer

/-- A key of an entry of the node list.  What `as<std::string>()` accepts is up to the YAML library;
where it does not accept a value it throws. -/
inductive YamlField
  | missing
  | text (s : Bytes)
  | notText
deriving DecidableEq, Repr

/-- One entry of the node list.  `as<unsigned short>(0)` does not throw: a value that is no port
reads as 0. -/
structure YamlEntry where
  id : YamlField
  host : YamlField
  port : Option UInt16
  type : YamlField
deriving DecidableEq, Repr

/-- The text under a key, empty by default, or `none` if reading it throws. -/
def YamlField.read : YamlField → Option Bytes
  | missing => some []
  | text s => some s
  | notText => none

/-- The `NodeInfo` of an entry, or `none` if reading one of its keys throws. -/
def YamlEntry.info (n : YamlEntry) : Option NodeInfo := do
  let nodeId ← n.id.read
  let listenAddr ← n.host.read
  let nodeType ← n.type.read
  some ⟨nodeId, listenAddr, n.port.getD 0, nodeType, true⟩

/-- The group of all nodes, as the loader fills it. -/
def allGroup : Bytes := lit "__all__"

namespace NodeRegistry

/-- A registry as its constructor makes it; a balancer has 160 virtual nodes an instance unless it
is told otherwise. -/
def fresh : NodeRegistry := ⟨∅, .fresh 160⟩

section Operations

variable (sort : List VirtualNode → List VirtualNode)

/-- `register_node`. -/
def registerNode (r : NodeRegistry) (nodeId listenAddr : Bytes) (listenPort : UInt16)
    (nodeType : Bytes) : NodeRegistry where
  nodes := r.nodes.insert nodeId ⟨nodeId, listenAddr, listenPort, nodeType, true⟩
  chBalancer := r.chBalancer.addInstanceOnce sort nodeType nodeId

/-- `unregister_node`. -/
def unregisterNode (r : NodeRegistry) (nodeId : Bytes) : NodeRegistry :=
  match r.nodes.lookup nodeId with
  | none => r
  | some info =>
    { nodes := r.nodes.insert nodeId { info with online := false }
      chBalancer := r.chBalancer.removeInstance info.nodeType nodeId }

/-- What the loop of `load_from_yaml_node` does with an entry it accepts. -/
def addLoaded (r : NodeRegistry) (info : NodeInfo) : NodeRegistry where
  nodes := r.nodes.insert info.nodeId info
  chBalancer := (r.chBalancer.addInstanceOnce sort info.nodeType info.nodeId).addInstanceOnce sort
    allGroup info.nodeId

/-- The loop of `load_from_yaml_node`.  An exception leaves what was loaded before it. -/
def loadEntries (r : NodeRegistry) : List YamlEntry → NodeRegistry × Bool
  | [] => (r, !r.nodes.entries.isEmpty)
  | n :: rest =>
    match n.info with
    | none => (r, false)
    | some info =>
      if info.nodeId ≠ [] ∧ info.listenPort ≠ 0 then loadEntries (addLoaded sort r info) rest
      else loadEntries r rest

/-- `load_from_yaml_node`, and with it `load_from_yaml_file` and `load_from_yaml_string`: `none`
where the text does not parse or has no key `nodes`. -/
def loadFromYamlNode (r : NodeRegistry) : Option (List YamlEntry) → NodeRegistry × Bool
  | none => (r, false)
  | some entries => loadEntries sort ⟨∅, r.chBalancer.clear⟩ entries

/-- `find_node`. -/
def findNode (r : NodeRegistry) (nodeId : Bytes) : Option NodeInfo :=
  match r.nodes.lookup nodeId with
  | none => none
  | some info => if info.online then some info else none

/-- `find_nodes_by_type`. -/
def findNodesByType (r : NodeRegistry) (nodeType : Bytes) : List NodeInfo :=
  (r.nodes.entries.map Sigma.snd).filter fun info ↦
    info.online && (nodeType.isEmpty || decide (info.nodeType = nodeType))

/-- `get_all_nodes`. -/
def getAllNodes (r : NodeRegistry) : List NodeInfo := r.findNodesByType []

/-- The group that `select_node_by_hash` asks for. -/
def serviceGroup (nodeType : Bytes) : Bytes := if nodeType.isEmpty then allGroup else nodeType

/-- `select_node_by_hash`: the node put out, or `none` when it returns false. -/
def selectNodeByHash (r : NodeRegistry) (key nodeType : Bytes) : Option NodeInfo :=
  match r.chBalancer.selectInstance (serviceGroup nodeType) key with
  | none => none
  | some selectedId =>
    match r.nodes.lookup selectedId with
    | none => none
    | some info => if !info.online then none else some info

/-! ## Runs -/

/-- The operations that change a registry. -/
inductive Op
  | register (nodeId listenAddr : Bytes) (listenPort : UInt16) (nodeType : Bytes)
  | unregister (nodeId : Bytes)
  | load (root : Option (List YamlEntry))

/-- The registry after one operation. -/
def applyOp (r : NodeRegistry) : Op → NodeRegistry
  | .register i a p t => registerNode sort r i a p t
  | .unregister i => unregisterNode r i
  | .load root => (loadFromYamlNode sort r root).1

/-- The registry after the operations `ops`. -/
def run (ops : List Op) : NodeRegistry := ops.foldl (applyOp sort) fresh

end Operations

/-- What is promised of a selection: it succeeds where the table has a node of the type, and then
with one of these nodes. -/
def Agrees (r : NodeRegistry) (key nodeType : Bytes) : Prop :=
  ((r.selectNodeByHash key nodeType).isSome ↔ r.findNodesByType nodeType ≠ []) ∧
    ∀ out, r.selectNodeByHash key nodeType = some out → out ∈ r.findNodesByType nodeType

/-- The ids that the balancer lists for a group, one for each virtual node. -/
def enrolled (r : NodeRegistry) (group : Bytes) : List Bytes :=
  (r.chBalancer.instances group).map VirtualNode.instanceId

/-- The node `nodeId` is online, and of the type asked for. -/
def Serves (r : NodeRegistry) (nodeType nodeId : Bytes) : Prop :=
  ∃ info, r.findNode nodeId = some info ∧ (nodeType = [] ∨ info.nodeType = nodeType)

/-- The group asked for a type is in step with the table: all ids in it are online nodes of the
type, and there is one, or there is no such node and none of the ids is online. -/
def InStep (r : NodeRegistry) (nodeType : Bytes) : Prop :=
  (r.enrolled (serviceGroup nodeType) ≠ [] ∧
      ∀ i ∈ r.enrolled (serviceGroup nodeType), r.Serves nodeType i) ∨
    (r.findNodesByType nodeType = [] ∧
      ∀ i ∈ r.enrolled (serviceGroup nodeType), r.findNode i = none)

/-! ## The table and the calls -/

theorem clear_runUnbounded (sort : List VirtualNode → List VirtualNode) (v : ℤ)
    (calls : List ConsistentHashLoadBalancer.Op) :
    (ConsistentHashLoadBalancer.runUnbounded sort v calls).clear =
      ConsistentHashLoadBalancer.runUnbounded sort v [] := by
  show ConsistentHashLoadBalancer.mk _ _ _ = ConsistentHashLoadBalancer.mk _ _ _
  rw [ConsistentHashLoadBalancer.virtualNodes_runUnbounded]

/-- The registry with a given table, whose balancer received the calls `calls`. -/
def ofCalls (nodes : UnorderedMap Bytes NodeInfo) (calls : List ConsistentHashLoadBalancer.Op)
    (sort : List VirtualNode → List VirtualNode) : NodeRegistry :=
  ⟨nodes, .runUnbounded sort 160 calls⟩

theorem loadEntries_eq (entries : List YamlEntry) (nodes : UnorderedMap Bytes NodeInfo)
    (calls : List ConsistentHashLoadBalancer.Op) :
    ∃ nodes' calls', ∀ sort,
      (loadEntries sort (ofCalls nodes calls sort) entries).1 = ofCalls nodes' calls' sort := by
  induction entries generalizing nodes calls with
  | nil => exact ⟨nodes, calls, fun _ ↦ rfl⟩
  | cons n rest ih =>
    rcases hinfo : n.info with _ | info
    · exact ⟨nodes, calls, fun sort ↦ by rw [loadEntries, hinfo]⟩
    · by_cases hok : info.nodeId ≠ [] ∧ info.listenPort ≠ 0
      · obtain ⟨nodes', calls', h⟩ := ih (nodes.insert info.nodeId info)
          (calls ++ [.add info.nodeType info.nodeId 1] ++ [.add allGroup info.nodeId 1])
        refine ⟨nodes', calls', fun sort ↦ ?_⟩
        rw [loadEntries, hinfo, ← h sort]
        simp only [if_pos hok, ofCalls, ConsistentHashLoadBalancer.runUnbounded_append_singleton]
        rfl
      · obtain ⟨nodes', calls', h⟩ := ih nodes calls
        refine ⟨nodes', calls', fun sort ↦ ?_⟩
        rw [loadEntries, hinfo, ← h sort]
        simp only [if_neg hok]

/-- **Neither the table nor the calls to the balancer depend on the sort.** -/
theorem run_eq (ops : List Op) :
    ∃ nodes calls, ∀ sort, run sort ops = ofCalls nodes calls sort := by
  induction ops using List.reverseRecOn with
  | nil => exact ⟨∅, [], fun _ ↦ rfl⟩
  | append_singleton ops op ih =>
    obtain ⟨nodes, calls, h⟩ := ih
    have hrun : ∀ sort, run sort (ops ++ [op]) = applyOp sort (ofCalls nodes calls sort) op := by
      intro sort
      rw [run, List.foldl_append, List.foldl_cons, List.foldl_nil, ← h sort, run]
    cases op with
    | register i a p t =>
      refine ⟨nodes.insert i ⟨i, a, p, t, true⟩, calls ++ [.add t i 1], fun sort ↦ ?_⟩
      rw [hrun, applyOp, registerNode]
      simp only [ofCalls, ConsistentHashLoadBalancer.runUnbounded_append_singleton]
      rfl
    | unregister i =>
      rcases hi : nodes.lookup i with _ | info
      · refine ⟨nodes, calls, fun sort ↦ ?_⟩
        rw [hrun, applyOp, unregisterNode]
        simp only [ofCalls, hi]
      · refine ⟨nodes.insert i { info with online := false }, calls ++ [.remove info.nodeType i],
          fun sort ↦ ?_⟩
        rw [hrun, applyOp, unregisterNode]
        simp only [ofCalls, hi, ConsistentHashLoadBalancer.runUnbounded_append_singleton]
        rfl
    | load root =>
      rcases root with _ | entries
      · exact ⟨nodes, calls, fun sort ↦ hrun sort⟩
      · obtain ⟨nodes', calls', hload⟩ := loadEntries_eq entries ∅ []
        refine ⟨nodes', calls', fun sort ↦ ?_⟩
        rw [hrun, applyOp, loadFromYamlNode, ← hload sort]
        simp only [ofCalls, clear_runUnbounded]

/-- No product overflows in a registry: an instance is always added with the weight of 1. -/
theorem addInstance_run (ops : List Op) (sort : List VirtualNode → List VirtualNode)
    (group nodeId : Bytes) :
    (run sort ops).chBalancer.addInstance sort group nodeId 1 =
      some ((run sort ops).chBalancer.addInstanceOnce sort group nodeId) := by
  obtain ⟨nodes, calls, hrun⟩ := run_eq ops
  refine ConsistentHashLoadBalancer.addInstance_eq_some.2 ⟨?_, rfl⟩
  rw [hrun, ofCalls, ConsistentHashLoadBalancer.virtualNodes_runUnbounded]
  exact ⟨by decide, by decide⟩

/-! ## What is found and what is selected -/

theorem findNode_eq_some_iff {r : NodeRegistry} {i : Bytes} {info : NodeInfo} :
    r.findNode i = some info ↔ r.nodes.lookup i = some info ∧ info.online = true := by
  rw [findNode]
  rcases r.nodes.lookup i with _ | info'
  · simp
  · simp only [Option.some.injEq]
    split
    · next h =>
      rw [Option.some.injEq]
      exact ⟨fun he ↦ ⟨he, he ▸ h⟩, fun he ↦ he.1⟩
    · next h =>
      refine ⟨fun he ↦ ?_, fun he ↦ absurd ?_ h⟩
      · cases he
      · rw [he.1]
        exact he.2

theorem mem_findNodesByType {r : NodeRegistry} {t : Bytes} {info : NodeInfo} :
    info ∈ r.findNodesByType t ↔
      ∃ i, r.findNode i = some info ∧ (t = [] ∨ info.nodeType = t) := by
  simp only [findNodesByType, List.mem_filter, List.mem_map, Bool.and_eq_true, Bool.or_eq_true,
    List.isEmpty_iff, decide_eq_true_eq, findNode_eq_some_iff, UnorderedMap.lookup_eq_some_iff]
  constructor
  · rintro ⟨⟨⟨i, info'⟩, hmem, rfl⟩, hon, ht⟩
    exact ⟨i, ⟨hmem, hon⟩, ht⟩
  · rintro ⟨i, ⟨hmem, hon⟩, ht⟩
    exact ⟨⟨⟨i, info⟩, hmem, rfl⟩, hon, ht⟩

/-- The node behind the id that the balancer selected is looked up as `find_node` does it. -/
theorem selectNodeByHash_of_selectInstance {r : NodeRegistry} {key t i : Bytes}
    (h : r.chBalancer.selectInstance (serviceGroup t) key = some i) :
    r.selectNodeByHash key t = r.findNode i := by
  rw [selectNodeByHash, h, findNode]
  simp only
  rcases r.nodes.lookup i with _ | info
  · rfl
  · simp only
    rcases info.online <;> rfl

section Calls

variable {nodes : UnorderedMap Bytes NodeInfo} {calls : List ConsistentHashLoadBalancer.Op}
  {sort : List VirtualNode → List VirtualNode}

theorem enrolled_ofCalls (hsort : ConsistentHashLoadBalancer.IsSort sort) (g : Bytes) :
    (ofCalls nodes calls sort).enrolled g =
      (ConsistentHashLoadBalancer.liveNodes 160 g calls).map VirtualNode.instanceId := by
  have hholds := ConsistentHashLoadBalancer.runUnbounded_holds hsort 160 calls g
  rw [enrolled, ofCalls, hholds.instances_eq]

/-- **What a selection can be.** -/
theorem select_cases (hsort : ConsistentHashLoadBalancer.IsSort sort) (key t : Bytes) :
    ((ofCalls nodes calls sort).enrolled (serviceGroup t) = [] ∧
        (ofCalls nodes calls sort).selectNodeByHash key t = none) ∨
      ∃ i ∈ (ofCalls nodes calls sort).enrolled (serviceGroup t),
        (ofCalls nodes calls sort).selectNodeByHash key t =
          (ofCalls nodes calls sort).findNode i := by
  rw [enrolled_ofCalls hsort]
  rcases ConsistentHashLoadBalancer.selectInstance_runUnbounded hsort 160 calls (serviceGroup t)
      key with
    ⟨hlive, hsel⟩ | ⟨n, -, hn, hsel⟩
  · refine .inl ⟨by rw [hlive, List.map_nil], ?_⟩
    rw [selectNodeByHash, ofCalls, hsel]
  · exact .inr ⟨n.instanceId, List.mem_map_of_mem hn.1, selectNodeByHash_of_selectInstance hsel⟩

/-- Every id of the group is selected for some key under some sort. -/
theorem exists_select (hsort : ConsistentHashLoadBalancer.IsSort sort) {t i : Bytes}
    (hi : i ∈ (ofCalls nodes calls sort).enrolled (serviceGroup t)) :
    ∃ sort', ConsistentHashLoadBalancer.IsSort sort' ∧ ∃ key,
      (ofCalls nodes calls sort').selectNodeByHash key t =
        (ofCalls nodes calls sort').findNode i := by
  rw [enrolled_ofCalls hsort] at hi
  obtain ⟨n, hn, rfl⟩ := List.mem_map.1 hi
  obtain ⟨sort', hsort', key, hsel⟩ := ConsistentHashLoadBalancer.exists_selectInstance_eq hn
  exact ⟨sort', hsort', key, selectNodeByHash_of_selectInstance hsel⟩

end Calls

/-- Where the group is in step, the selection agrees with the table. -/
theorem InStep.agrees {nodes : UnorderedMap Bytes NodeInfo}
    {calls : List ConsistentHashLoadBalancer.Op} {sort : List VirtualNode → List VirtualNode}
    (hsort : ConsistentHashLoadBalancer.IsSort sort) {t : Bytes}
    (h : (ofCalls nodes calls sort).InStep t) (key : Bytes) :
    (ofCalls nodes calls sort).Agrees key t := by
  rcases h with ⟨hne, hserve⟩ | ⟨hnil, hoff⟩
  · rcases select_cases hsort key t with ⟨he, -⟩ | ⟨i, hi, hsel⟩
    · exact absurd he hne
    · obtain ⟨info, hinfo, ht⟩ := hserve i hi
      have hmem := mem_findNodesByType.2 ⟨i, hinfo, ht⟩
      rw [hinfo] at hsel
      refine ⟨by simp [hsel, List.ne_nil_of_mem hmem], fun out hout ↦ ?_⟩
      rw [hsel] at hout
      cases hout
      exact hmem
  · have hnone : (ofCalls nodes calls sort).selectNodeByHash key t = none := by
      rcases select_cases hsort key t with ⟨-, hsel⟩ | ⟨i, hi, hsel⟩
      · exact hsel
      · rw [hsel, hoff i hi]
    refine ⟨by simp [hnone, hnil], fun out hout ↦ ?_⟩
    rw [hnone] at hout
    cases hout

/-- **When node selection agrees with the registry.**  After every run and for every type, the
selection agrees with the table for all keys and under every sort that `std::sort` may be, exactly
when the group that is asked for the type is in step with the table. -/
theorem agrees_iff (ops : List Op) (nodeType : Bytes) :
    (∀ sort, ConsistentHashLoadBalancer.IsSort sort →
        ∀ key, (run sort ops).Agrees key nodeType) ↔
      ∀ sort, ConsistentHashLoadBalancer.IsSort sort → (run sort ops).InStep nodeType := by
  obtain ⟨nodes, calls, hrun⟩ := run_eq ops
  simp only [hrun]
  refine ⟨fun h sort hsort ↦ ?_, fun h sort hsort key ↦ (h sort hsort).agrees hsort key⟩
  by_cases hnil : (ofCalls nodes calls sort).findNodesByType nodeType = []
  · refine .inr ⟨hnil, fun i hi ↦ ?_⟩
    obtain ⟨sort', hsort', key, hsel⟩ := exists_select hsort hi
    have hagree := (h sort' hsort' key).1
    rw [hsel] at hagree
    by_contra hsome
    exact hagree.1 (Option.isSome_iff_ne_none.2 hsome) hnil
  · refine .inl ⟨fun he ↦ ?_, fun i hi ↦ ?_⟩
    · rcases select_cases hsort [] nodeType with ⟨-, hsel⟩ | ⟨i, hi, -⟩
      · have hagree := (h sort hsort []).1.2 hnil
        rw [hsel] at hagree
        cases hagree
      · rw [he] at hi
        exact absurd hi List.not_mem_nil
    · obtain ⟨sort', hsort', key, hsel⟩ := exists_select hsort hi
      obtain ⟨hsome, hout⟩ := h sort' hsort' key
      rw [hsel] at hsome hout
      obtain ⟨info, hinfo⟩ := Option.isSome_iff_exists.1 (hsome.2 hnil)
      obtain ⟨j, hj, ht⟩ := mem_findNodesByType.1 (hout info hinfo)
      exact ⟨info, hinfo, ht⟩

/-- A node that was registered is online, and no key selects it when any type will do. -/
theorem registered_not_selected :
    ¬ ∀ sort, ConsistentHashLoadBalancer.IsSort sort →
      ∀ (ops : List Op) (key nodeType : Bytes), (run sort ops).Agrees key nodeType := by
  intro h
  have hagree := (h ConsistentHashLoadBalancer.stableSort
    ConsistentHashLoadBalancer.stableSort_isSort
    [.register (lit "node1") (lit "127.0.0.1") 9001 (lit "game")] (lit "k1") []).1
  have hfind : (run ConsistentHashLoadBalancer.stableSort
      [.register (lit "node1") (lit "127.0.0.1") 9001 (lit "game")]).findNodesByType [] =
        [⟨lit "node1", lit "127.0.0.1", 9001, lit "game", true⟩] := rfl
  have hselect : (run ConsistentHashLoadBalancer.stableSort
      [.register (lit "node1") (lit "127.0.0.1") 9001 (lit "game")]).selectNodeByHash (lit "k1")
        [] = none := rfl
  rw [hfind, hselect] at hagree
  exact absurd (hagree.2 (List.cons_ne_nil _ _)) (by decide)

end NodeRegistry
end Cluster
end ChwellCore
