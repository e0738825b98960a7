import ChwellCore.Core.Decimal
import ChwellCore.Core.Ints
import ChwellCore.Lib.HashRing
import Mathlib.Data.Finset.Dedup
import Mathlib.Data.Finset.Basic
import Mathlib.Tactic.Common

/-!
# Consistent hashing

`ConsistentHashLoadBalancer` spreads keys over the instances of a service.  Each instance owns
`virtual_nodes * weight` points on a ring of 32-bit hashes, and a key belongs to the owner of the
first point at or after its own hash.  The product is computed in `int`, and no weight is refused:
where it overflows there is nothing that could be said, and the model has `none`.

The ring of a service is a vector sorted by hash.  `add_instance` appends the new points and sorts
again with `std::sort`, whose order among equal hashes is not specified: `sort` is therefore an
argument of the model, and all that is known of it is `IsSort`.  `remove_instance` filters.

* `liveNodes` says what the ring should hold: the points of the instances added and not removed
  since.  `runUnbounded_holds` shows that it holds exactly these, sorted, if the products are
  computed in `ℤ`, and `run_eq_some_iff_unbounded` that a run is that run if none of them overflows.
* `selectInstance_eq_successor` turns the bisection and the wrap-around of `select_instance` into
  `HashRing.successor`.
* `run_minimal_disruption` assembles what consistent hashing promises, and says of which runs.

The comparator of the sort looks at nothing but the hash.  Where two instances own points with the
same hash, which of them is found first is decided by the order in which they were added, and
`agree_iff` says that this is the only way two balancers with the same members can disagree.
-/

set_option autoImplicit false

namespace ChwellCore
namespace LoadBalance

/-- `ConsistentHashLoadBalancer::VirtualNode`. -/
structure VirtualNode where
  serviceId : Bytes
  instanceId : Bytes
  nodeId : Bytes
  hashValue : UInt32
deriving DecidableEq, Repr

/-- `ConsistentHashLoadBalancer`.  Neither table is ever iterated, so a table is a function. -/
structure ConsistentHashLoadBalancer where
  virtualNodes : ℤ
  serviceInstances : Bytes → Option (List VirtualNode)
  serviceRing : Bytes → Option (List VirtualNode)

namespace ConsistentHashLoadBalancer

/-- `hash`: FNV-1a in 32 bits. -/
def hash (key : Bytes) : UInt32 :=
  key.foldl (fun h c ↦ (h ^^^ c.toUInt32) * 16777619) 2166136261

/-- `get_virtual_node_id`. -/
def getVirtualNodeId (instanceId : Bytes) (index : ℕ) : Bytes :=
  instanceId ++ lit "#" ++ toDec index

/-- A fresh balancer. -/
def fresh (virtualNodes : ℤ) : ConsistentHashLoadBalancer :=
  ⟨virtualNodes, fun _ ↦ none, fun _ ↦ none⟩

/-- The virtual nodes that the loop of `add_instance` makes.  A count that is not positive makes
none. -/
def makeNodes (serviceId instanceId : Bytes) (nodeCount : ℤ) : List VirtualNode :=
  (List.range nodeCount.toNat).map fun i ↦
    let virtualId := getVirtualNodeId instanceId i
    ⟨serviceId, instanceId, virtualId, hash virtualId⟩

/-- The virtual nodes of an instance: `virtual_nodes * weight`, whether that is an `int` or not. -/
def vnodes (virtualNodes : ℤ) (serviceId instanceId : Bytes) (weight : ℤ) : List VirtualNode :=
  makeNodes serviceId instanceId (virtualNodes * weight)

/-- What is known of `std::sort` with the comparator on hashes. -/
structure IsSort (sort : List VirtualNode → List VirtualNode) : Prop where
  /-- It permutes. -/
  perm : ∀ l, (sort l).Perm l
  /-- It sorts by hash. -/
  sorted : ∀ l, (sort l).Pairwise fun a b ↦ a.hashValue ≤ b.hashValue

/-- The ring of a service. -/
def ring (b : ConsistentHashLoadBalancer) (s : Bytes) :
    List VirtualNode := (b.serviceRing s).getD []

/-- The virtual nodes of a service in the order they were added. -/
def instances (b : ConsistentHashLoadBalancer) (s : Bytes) : List VirtualNode :=
  (b.serviceInstances s).getD []

section AddInstance

variable (sort : List VirtualNode → List VirtualNode)

/-- The loop of `add_instance`, and the sort.  `service_instances_[service_id]` is touched only in
the loop, but the final `std::sort` creates the ring of the service even when there is nothing to
add. -/
def addNodes (b : ConsistentHashLoadBalancer) (serviceId instanceId : Bytes) (nodeCount : ℤ) :
    ConsistentHashLoadBalancer :=
  let new := makeNodes serviceId instanceId nodeCount
  { b with
    serviceInstances :=
      if new.isEmpty then b.serviceInstances
      else Function.update b.serviceInstances serviceId (some (b.instances serviceId ++ new))
    serviceRing := Function.update b.serviceRing serviceId (some (sort (b.ring serviceId ++ new))) }

/-- `add_instance`, unless `node_count` overflows. -/
def addInstance (b : ConsistentHashLoadBalancer) (serviceId instanceId : Bytes) (weight : ℤ) :
    Option ConsistentHashLoadBalancer :=
  (checked (b.virtualNodes * weight)).map (addNodes sort b serviceId instanceId)

/-- `add_instance` without a weight, which is 1 then: the product is `virtual_nodes_` itself. -/
def addInstanceOnce (b : ConsistentHashLoadBalancer) (serviceId instanceId : Bytes) :
    ConsistentHashLoadBalancer :=
  addNodes sort b serviceId instanceId (b.virtualNodes * 1)

end AddInstance

/-- `remove_instance`. -/
def removeInstance (b : ConsistentHashLoadBalancer) (serviceId instanceId : Bytes) :
    ConsistentHashLoadBalancer :=
  match b.serviceInstances serviceId with
  | none => b
  | some instances =>
    let keep := fun n : VirtualNode ↦ decide (n.instanceId ≠ instanceId)
    { b with
      serviceInstances :=
        Function.update b.serviceInstances serviceId (some (instances.filter keep))
      serviceRing :=
        match b.serviceRing serviceId with
        | none => b.serviceRing
        | some ring => Function.update b.serviceRing serviceId (some (ring.filter keep)) }

/-- `select_instance`: the instance chosen, or `none` when it returns false. -/
def selectInstance (b : ConsistentHashLoadBalancer) (serviceId key : Bytes) : Option Bytes :=
  match b.serviceRing serviceId with
  | none => none
  | some ring =>
    if ring.isEmpty then none
    else
      let h := hash key
      let pos := HashRing.lowerBound (fun n : VirtualNode ↦ decide (n.hashValue < h)) ring
      -- past the last node the ring wraps around
      let pos := if pos = ring.length then 0 else pos
      (ring[pos]?).map VirtualNode.instanceId

/-- `clear`. -/
def clear (b : ConsistentHashLoadBalancer) : ConsistentHashLoadBalancer :=
  { b with serviceInstances := fun _ ↦ none, serviceRing := fun _ ↦ none }

/-! ## Runs -/

/-- The operations that change a balancer. -/
inductive Op where
  | add (serviceId instanceId : Bytes) (weight : ℤ)
  | remove (serviceId instanceId : Bytes)

section Run

variable (sort : List VirtualNode → List VirtualNode)

/-- The balancer after one operation. -/
def applyOp (b : ConsistentHashLoadBalancer) : Op → Option ConsistentHashLoadBalancer
  | .add s i w => addInstance sort b s i w
  | .remove s i => some (removeInstance b s i)

/-- The balancer after the operations `ops`, starting from a fresh one. -/
def run (virtualNodes : ℤ) (ops : List Op) : Option ConsistentHashLoadBalancer :=
  ops.foldlM (applyOp sort) (fresh virtualNodes)

/-- The balancer after one operation, if products did not overflow. -/
def applyUnbounded (b : ConsistentHashLoadBalancer) : Op → ConsistentHashLoadBalancer
  | .add s i w => addNodes sort b s i (b.virtualNodes * w)
  | .remove s i => removeInstance b s i

/-- The balancer after the operations `ops`, if products did not overflow. -/
def runUnbounded (virtualNodes : ℤ) (ops : List Op) : ConsistentHashLoadBalancer :=
  ops.foldl (applyUnbounded sort) (fresh virtualNodes)

end Run

/-- The members of the service `s` after one more operation. -/
def memberStep (s : Bytes) (members : List (Bytes × ℤ)) : Op → List (Bytes × ℤ)
  | .add s' i w => if s' = s then members ++ [(i, w)] else members
  | .remove s' i => if s' = s then members.filter fun m ↦ decide (m.1 ≠ i) else members

/-- The instances of `s`, with their weights, added and not removed since. -/
def members (s : Bytes) (ops : List Op) : List (Bytes × ℤ) := ops.foldl (memberStep s) []

/-- The virtual nodes of the instances of `s` added and not removed since. -/
def liveNodes (virtualNodes : ℤ) (s : Bytes) (ops : List Op) : List VirtualNode :=
  (members s ops).flatMap fun m ↦ vnodes virtualNodes s m.1 m.2

@[simp] theorem runUnbounded_append_singleton (sort : List VirtualNode → List VirtualNode) (v : ℤ)
    (ops : List Op) (op : Op) :
    runUnbounded sort v (ops ++ [op]) = applyUnbounded sort (runUnbounded sort v ops) op := by
  simp [runUnbounded]

@[simp] theorem members_append_singleton (s : Bytes) (ops : List Op) (op : Op) :
    members s (ops ++ [op]) = memberStep s (members s ops) op := by
  simp [members]

theorem instanceId_of_mem_vnodes {v w : ℤ} {s i : Bytes} {n : VirtualNode}
    (h : n ∈ vnodes v s i w) : n.instanceId = i := by
  obtain ⟨k, -, rfl⟩ := List.mem_map.1 h
  rfl

theorem hash_nodeId_of_mem_vnodes {v w : ℤ} {s i : Bytes} {n : VirtualNode}
    (h : n ∈ vnodes v s i w) : hash n.nodeId = n.hashValue := by
  obtain ⟨k, -, rfl⟩ := List.mem_map.1 h
  rfl

theorem liveNodes_add (v : ℤ) (s i : Bytes) (w : ℤ) (ops : List Op) :
    liveNodes v s (ops ++ [.add s i w]) = liveNodes v s ops ++ vnodes v s i w := by
  simp [liveNodes, memberStep]

theorem liveNodes_remove (v : ℤ) (s i : Bytes) (ops : List Op) :
    liveNodes v s (ops ++ [.remove s i]) =
      (liveNodes v s ops).filter fun n ↦ decide (n.instanceId ≠ i) := by
  simp only [liveNodes, members_append_singleton, memberStep, if_true]
  induction members s ops with
  | nil => rfl
  | cons m ms ih =>
    rw [List.flatMap_cons, List.filter_append, ← ih, List.filter_cons]
    by_cases hm : m.1 = i
    · have hnil : (vnodes v s m.1 m.2).filter (fun n ↦ decide (n.instanceId ≠ i)) = [] := by
        refine List.filter_eq_nil_iff.2 fun n hn ↦ ?_
        simp [instanceId_of_mem_vnodes hn, hm]
      rw [hnil, if_neg (by simp [hm]), List.nil_append]
    · have hall : (vnodes v s m.1 m.2).filter (fun n ↦ decide (n.instanceId ≠ i)) =
          vnodes v s m.1 m.2 := by
        refine List.filter_eq_self.2 fun n hn ↦ ?_
        simp [instanceId_of_mem_vnodes hn, hm]
      rw [hall, if_pos (by simp [hm]), List.flatMap_cons]

theorem liveNodes_add_of_ne {s s' : Bytes} (h : s' ≠ s) (v : ℤ) (i : Bytes) (w : ℤ)
    (ops : List Op) : liveNodes v s (ops ++ [.add s' i w]) = liveNodes v s ops := by
  simp [liveNodes, memberStep, h]

theorem liveNodes_remove_of_ne {s s' : Bytes} (h : s' ≠ s) (v : ℤ) (i : Bytes) (ops : List Op) :
    liveNodes v s (ops ++ [.remove s' i]) = liveNodes v s ops := by
  simp [liveNodes, memberStep, h]

/-! ## What the tables hold -/

/-- The tables of a balancer agree with the list `live` of virtual nodes of the service `s`. -/
structure Holds (b : ConsistentHashLoadBalancer) (s : Bytes) (live : List VirtualNode) : Prop where
  /-- The ring holds exactly these nodes. -/
  ring_perm : (b.ring s).Perm live
  /-- The ring is sorted. -/
  ring_sorted : (b.ring s).Pairwise fun a b ↦ a.hashValue ≤ b.hashValue
  /-- The other table holds them in the order they were added. -/
  instances_eq : b.instances s = live

section Tables

variable {sort : List VirtualNode → List VirtualNode}

theorem ring_addNodes (b : ConsistentHashLoadBalancer) (s i : Bytes) (c : ℤ) (s' : Bytes) :
    (addNodes sort b s i c).ring s' =
      if s' = s then sort (b.ring s ++ makeNodes s i c) else b.ring s' := by
  simp only [addNodes, ring, Function.update_apply]
  split <;> rfl

theorem instances_addNodes (b : ConsistentHashLoadBalancer) (s i : Bytes) (c : ℤ) (s' : Bytes) :
    (addNodes sort b s i c).instances s' =
      if s' = s then b.instances s ++ makeNodes s i c else b.instances s' := by
  simp only [addNodes, instances]
  split
  · next hnil =>
    rw [List.isEmpty_iff.1 hnil, List.append_nil]
    split
    · next he => rw [he]
    · rfl
  · rw [Function.update_apply]
    split <;> rfl

theorem ring_removeInstance_of_ne {s s' : Bytes} (h : s' ≠ s) (b : ConsistentHashLoadBalancer)
    (i : Bytes) : (removeInstance b s i).ring s' = b.ring s' := by
  simp only [removeInstance]
  split
  · rfl
  · rcases hr : b.serviceRing s with _ | r
    · simp [ring]
    · simp [ring, Function.update_of_ne h]

theorem instances_removeInstance_of_ne {s s' : Bytes} (h : s' ≠ s)
    (b : ConsistentHashLoadBalancer) (i : Bytes) :
    (removeInstance b s i).instances s' = b.instances s' := by
  simp only [removeInstance]
  split
  · rfl
  · simp only [instances, Function.update_of_ne h]

theorem instances_removeInstance (b : ConsistentHashLoadBalancer) (s i : Bytes) :
    (removeInstance b s i).instances s =
      (b.instances s).filter fun n ↦ decide (n.instanceId ≠ i) := by
  simp only [removeInstance]
  split
  · next hn => simp [instances, hn]
  · next l hl => simp [instances, hl]

/-- The early return of `remove_instance` skips the ring, which is then empty as well. -/
theorem Holds.ring_removeInstance {b : ConsistentHashLoadBalancer} {s : Bytes}
    {live : List VirtualNode} (h : Holds b s live) (i : Bytes) :
    (removeInstance b s i).ring s = (b.ring s).filter fun n ↦ decide (n.instanceId ≠ i) := by
  simp only [removeInstance]
  split
  · next hn =>
    have hlive : live = [] := by rw [← h.instances_eq, instances, hn, Option.getD_none]
    have hring : b.ring s = [] := by
      have hperm := h.ring_perm
      rw [hlive] at hperm
      exact hperm.eq_nil
    rw [hring, List.filter_nil]
  · rcases hr : b.serviceRing s with _ | r
    · simp [ring, hr]
    · simp [ring, hr]

/-- **One operation keeps the tables right**, for every service. -/
theorem Holds.applyUnbounded (hsort : IsSort sort) {b : ConsistentHashLoadBalancer} {ops : List Op}
    {s : Bytes} (h : Holds b s (liveNodes b.virtualNodes s ops)) (op : Op) :
    Holds (applyUnbounded sort b op) s (liveNodes b.virtualNodes s (ops ++ [op])) := by
  cases op with
  | add s' i w =>
    by_cases hs : s' = s
    · subst hs
      rw [liveNodes_add]
      refine ⟨?_, ?_, ?_⟩
      · rw [ConsistentHashLoadBalancer.applyUnbounded, ring_addNodes, if_pos rfl]
        exact (hsort.perm _).trans (h.ring_perm.append_right _)
      · rw [ConsistentHashLoadBalancer.applyUnbounded, ring_addNodes, if_pos rfl]
        exact hsort.sorted _
      · rw [ConsistentHashLoadBalancer.applyUnbounded, instances_addNodes, if_pos rfl,
          h.instances_eq, vnodes]
    · rw [liveNodes_add_of_ne hs]
      have hs' : s ≠ s' := Ne.symm hs
      refine ⟨?_, ?_, ?_⟩
      · rw [ConsistentHashLoadBalancer.applyUnbounded, ring_addNodes, if_neg hs']
        exact h.ring_perm
      · rw [ConsistentHashLoadBalancer.applyUnbounded, ring_addNodes, if_neg hs']
        exact h.ring_sorted
      · rw [ConsistentHashLoadBalancer.applyUnbounded, instances_addNodes, if_neg hs',
          h.instances_eq]
  | remove s' i =>
    by_cases hs : s' = s
    · subst hs
      rw [liveNodes_remove]
      refine ⟨?_, ?_, ?_⟩
      · rw [ConsistentHashLoadBalancer.applyUnbounded, h.ring_removeInstance]
        exact h.ring_perm.filter _
      · rw [ConsistentHashLoadBalancer.applyUnbounded, h.ring_removeInstance]
        exact h.ring_sorted.filter _
      · rw [ConsistentHashLoadBalancer.applyUnbounded, instances_removeInstance, h.instances_eq]
    · rw [liveNodes_remove_of_ne hs]
      have hs' : s ≠ s' := Ne.symm hs
      refine ⟨?_, ?_, ?_⟩
      · rw [ConsistentHashLoadBalancer.applyUnbounded, ring_removeInstance_of_ne hs']
        exact h.ring_perm
      · rw [ConsistentHashLoadBalancer.applyUnbounded, ring_removeInstance_of_ne hs']
        exact h.ring_sorted
      · rw [ConsistentHashLoadBalancer.applyUnbounded, instances_removeInstance_of_ne hs',
          h.instances_eq]

theorem virtualNodes_applyUnbounded (b : ConsistentHashLoadBalancer) (op : Op) :
    (ConsistentHashLoadBalancer.applyUnbounded sort b op).virtualNodes = b.virtualNodes := by
  cases op with
  | add s i w => rfl
  | remove s i =>
    simp only [ConsistentHashLoadBalancer.applyUnbounded, removeInstance]
    split <;> rfl

@[simp] theorem virtualNodes_runUnbounded (v : ℤ) (ops : List Op) :
    (runUnbounded sort v ops).virtualNodes = v := by
  induction ops using List.reverseRecOn with
  | nil => rfl
  | append_singleton ops op ih =>
    rw [runUnbounded_append_singleton, virtualNodes_applyUnbounded, ih]

/-- **After every run the tables of every service hold its live virtual nodes**, the ring sorted. -/
theorem runUnbounded_holds (hsort : IsSort sort) (v : ℤ) (ops : List Op) (s : Bytes) :
    Holds (runUnbounded sort v ops) s (liveNodes v s ops) := by
  induction ops using List.reverseRecOn with
  | nil => exact ⟨.nil, .nil, rfl⟩
  | append_singleton ops op ih =>
    have h : Holds (runUnbounded sort v ops) s
        (liveNodes (runUnbounded sort v ops).virtualNodes s ops) := by
      rwa [virtualNodes_runUnbounded]
    have happ := h.applyUnbounded hsort op
    rwa [virtualNodes_runUnbounded, ← runUnbounded_append_singleton] at happ

end Tables

/-! ## What `select_instance` computes -/

section Select

variable {sort : List VirtualNode → List VirtualNode}

/-- The bisection and the wrap-around together find the successor of the key's hash. -/
theorem selectInstance_eq_successor {b : ConsistentHashLoadBalancer} {s : Bytes}
    (hsorted : (b.ring s).Pairwise fun a b ↦ a.hashValue ≤ b.hashValue) (key : Bytes) :
    b.selectInstance s key =
      (HashRing.successor VirtualNode.hashValue (hash key) (b.ring s)).map
        VirtualNode.instanceId := by
  rw [selectInstance]
  rcases hr : b.serviceRing s with _ | r
  · simp [ring, hr, HashRing.successor]
  · have hring : b.ring s = r := by simp [ring, hr]
    rw [hring] at hsorted ⊢
    rcases List.eq_nil_or_concat r with rfl | ⟨r', n', hne⟩
    · rfl
    · have hpart : r.Pairwise fun a b ↦
          decide (b.hashValue < hash key) = true → decide (a.hashValue < hash key) = true := by
        refine hsorted.imp fun {a b} hab hb ↦ ?_
        rw [decide_eq_true_eq] at hb ⊢
        exact lt_of_le_of_lt hab hb
      have hidx := HashRing.lowerBound_eq_findIdx hpart
      have hget := HashRing.getElem?_lowerBound hpart
      have hfind : (r.find? fun a ↦ !decide (a.hashValue < hash key)) =
          r.find? fun n ↦ decide (hash key ≤ n.hashValue) := by
        congr 1
        funext a
        rw [← decide_not, decide_eq_decide, not_lt]
      rw [hfind] at hget
      have hempty : r.isEmpty = false := by rw [hne]; simp
      simp only [hempty, Bool.false_eq_true, if_false, HashRing.successor]
      split
      · next hpos =>
        rw [hpos, List.getElem?_length] at hget
        rw [← hget, Option.none_or, ← List.head?_eq_getElem?]
      · next hpos =>
        have hlt : HashRing.lowerBound (fun n : VirtualNode ↦ decide (n.hashValue < hash key)) r <
            r.length := by
          have hle : (r.findIdx fun a ↦ !decide (a.hashValue < hash key)) ≤ r.length :=
            List.findIdx_le_length
          omega
        rw [← hget, List.getElem?_eq_getElem hlt, Option.some_or]

/-- No two virtual nodes of different instances have the same hash. -/
def NoSharedHash (nodes : List VirtualNode) : Prop :=
  ∀ n ∈ nodes, ∀ m ∈ nodes, n.hashValue = m.hashValue → n.instanceId = m.instanceId

/-- **What a run selects**: nothing when the service has no live node, and otherwise the owner of a
live node responsible for the hash of the key. -/
theorem selectInstance_runUnbounded (hsort : IsSort sort) (v : ℤ) (ops : List Op) (s key : Bytes) :
    (liveNodes v s ops = [] ∧ (runUnbounded sort v ops).selectInstance s key = none) ∨
      ∃ n, HashRing.successor VirtualNode.hashValue (hash key) ((runUnbounded sort v ops).ring s) =
          some n ∧
        HashRing.IsSuccessor VirtualNode.hashValue (liveNodes v s ops) (hash key) n ∧
        (runUnbounded sort v ops).selectInstance s key = some n.instanceId := by
  have h := runUnbounded_holds hsort v ops s
  have hsel := selectInstance_eq_successor h.ring_sorted key
  rcases hn : HashRing.successor VirtualNode.hashValue (hash key) ((runUnbounded sort v ops).ring s)
    with _ | n
  · rw [hn] at hsel
    have hring := HashRing.successor_eq_none_iff.1 hn
    have hperm := h.ring_perm
    rw [hring] at hperm
    exact .inl ⟨hperm.nil_eq.symm, hsel⟩
  · rw [hn] at hsel
    have hsucc := HashRing.isSuccessor_of_successor_eq_some h.ring_sorted hn
    exact .inr ⟨n, rfl, hsucc.congr fun m ↦ h.ring_perm.mem_iff, hsel⟩

theorem selectInstance_congr {b b' : ConsistentHashLoadBalancer} {s : Bytes}
    (hb : (b.ring s).Pairwise fun a b ↦ a.hashValue ≤ b.hashValue) (h : b'.ring s = b.ring s)
    (key : Bytes) : b'.selectInstance s key = b.selectInstance s key := by
  rw [selectInstance_eq_successor hb, selectInstance_eq_successor (h ▸ hb), h]

/-- Removing an instance moves only the keys that it had. -/
theorem selectInstance_remove (hsort : IsSort sort) (v : ℤ) (ops : List Op) (s i s' key : Bytes)
    (h : ¬ (s' = s ∧ (runUnbounded sort v ops).selectInstance s' key = some i)) :
    (removeInstance (runUnbounded sort v ops) s i).selectInstance s' key =
      (runUnbounded sort v ops).selectInstance s' key := by
  have hs := runUnbounded_holds hsort v ops s'
  by_cases he : s' = s
  · subst he
    have hring := hs.ring_removeInstance i
    have hsorted : ((removeInstance (runUnbounded sort v ops) s' i).ring s').Pairwise
        fun a b ↦ a.hashValue ≤ b.hashValue := by
      rw [hring]
      exact hs.ring_sorted.filter _
    rw [selectInstance_eq_successor hsorted, hring]
    rcases selectInstance_runUnbounded hsort v ops s' key with ⟨hlive, hsel⟩ | ⟨n, hn, -, hsel⟩
    · have hnil : (runUnbounded sort v ops).ring s' = [] := by
        have hperm := hs.ring_perm
        rw [hlive] at hperm
        exact hperm.eq_nil
      rw [hsel, hnil]
      rfl
    · have hni : n.instanceId ≠ i := fun hi ↦ h ⟨rfl, by rw [hsel, hi]⟩
      rw [hsel, HashRing.successor_filter hn (by simpa using hni), Option.map_some]
  · exact selectInstance_congr hs.ring_sorted (ring_removeInstance_of_ne he _ i) key

/-- Adding an instance moves keys only to it, as long as it shares no hash with another. -/
theorem selectInstance_add (hsort : IsSort sort) (v : ℤ) (ops : List Op) (s i : Bytes) (w : ℤ)
    (s' key : Bytes) (h : s' = s → NoSharedHash (liveNodes v s (ops ++ [.add s i w]))) :
    (runUnbounded sort v (ops ++ [.add s i w])).selectInstance s' key =
        (runUnbounded sort v ops).selectInstance s' key ∨
      s' = s ∧ (runUnbounded sort v (ops ++ [.add s i w])).selectInstance s' key = some i := by
  by_cases he : s' = s
  · subst he
    have hlive := liveNodes_add v s' i w ops
    rcases selectInstance_runUnbounded hsort v (ops ++ [.add s' i w]) s' key with
      ⟨hnil, hsel⟩ | ⟨n, -, hn, hsel⟩
    · -- nothing was added, and there was nothing before
      rcases selectInstance_runUnbounded hsort v ops s' key with ⟨-, hsel'⟩ | ⟨m, -, hm, -⟩
      · exact .inl (by rw [hsel, hsel'])
      · rw [hlive] at hnil
        have hmem := hm.1
        rw [(List.append_eq_nil_iff.1 hnil).1] at hmem
        exact absurd hmem List.not_mem_nil
    · by_cases hni : n.instanceId = i
      · exact .inr ⟨rfl, by rw [hsel, hni]⟩
      · -- an old node is responsible, so it already was before
        have hold : n ∈ liveNodes v s' ops := by
          have hmem := hn.1
          rw [hlive] at hmem
          exact (List.mem_append.1 hmem).resolve_right fun hnew ↦
            hni (instanceId_of_mem_vnodes hnew)
        have hsub : ∀ m ∈ liveNodes v s' ops, m ∈ liveNodes v s' (ops ++ [.add s' i w]) := by
          intro m hm
          rw [hlive]
          exact List.mem_append_left _ hm
        have hn' := hn.of_subset hsub hold
        rcases selectInstance_runUnbounded hsort v ops s' key with ⟨hnil, -⟩ | ⟨m, -, hm, hsel'⟩
        · rw [hnil] at hold
          exact absurd hold List.not_mem_nil
        · have hown := h rfl n hn.1 m (hsub m hm.1) (hn'.key_eq hm)
          exact .inl (by rw [hsel, hsel', hown])
  · refine .inl (selectInstance_congr (runUnbounded_holds hsort v ops s').ring_sorted ?_ key)
    rw [runUnbounded_append_singleton, applyUnbounded, ring_addNodes, if_neg he]

/-! ## Products that fit -/

/-- What consistent hashing promises of the balancer that the operations `ops` have led to: the ring
of every service is sorted and holds exactly the virtual nodes of the instances added and not
removed since; a key goes to the owner of a node of least hash from its own on, or of least hash of
all when there is none; removing an instance moves only its own keys; and adding one moves keys only
to it, provided that no two instances of the service share a hash. -/
structure MovesFew (sort : List VirtualNode → List VirtualNode) (v : ℤ) (ops : List Op)
    (b : ConsistentHashLoadBalancer) : Prop where
  ring_sorted : ∀ s, (b.ring s).Pairwise fun a b ↦ a.hashValue ≤ b.hashValue
  ring_perm : ∀ s, (b.ring s).Perm (liveNodes v s ops)
  selects : ∀ s key, (liveNodes v s ops = [] ∧ b.selectInstance s key = none) ∨
    ∃ n, HashRing.IsSuccessor VirtualNode.hashValue (liveNodes v s ops) (hash key) n ∧
      b.selectInstance s key = some n.instanceId
  removes : ∀ s i s' key, ¬ (s' = s ∧ b.selectInstance s' key = some i) →
    (removeInstance b s i).selectInstance s' key = b.selectInstance s' key
  adds : ∀ s i w b', addInstance sort b s i w = some b' →
    ∀ s' key, (s' = s → NoSharedHash (liveNodes v s (ops ++ [.add s i w]))) →
      b'.selectInstance s' key = b.selectInstance s' key ∨
        s' = s ∧ b'.selectInstance s' key = some i

theorem addInstance_eq_some {b b' : ConsistentHashLoadBalancer} {s i : Bytes} {w : ℤ} :
    addInstance sort b s i w = some b' ↔
      InInt (b.virtualNodes * w) ∧ b' = addNodes sort b s i (b.virtualNodes * w) := by
  simp only [addInstance, Option.map_eq_some_iff, checked_eq_some, InInt]
  constructor
  · rintro ⟨_, ⟨rfl, hfits⟩, rfl⟩
    exact ⟨hfits, rfl⟩
  · rintro ⟨hfits, rfl⟩
    exact ⟨_, ⟨rfl, hfits⟩, rfl⟩

theorem runUnbounded_movesFew (hsort : IsSort sort) (v : ℤ) (ops : List Op) :
    MovesFew sort v ops (runUnbounded sort v ops) where
  ring_sorted s := (runUnbounded_holds hsort v ops s).ring_sorted
  ring_perm s := (runUnbounded_holds hsort v ops s).ring_perm
  selects s key := by
    rcases selectInstance_runUnbounded hsort v ops s key with hnone | ⟨n, -, hn, hsel⟩
    · exact .inl hnone
    · exact .inr ⟨n, hn, hsel⟩
  removes := selectInstance_remove hsort v ops
  adds s i w b' hadd s' key hshare := by
    obtain ⟨-, rfl⟩ := addInstance_eq_some.1 hadd
    have hmoves := selectInstance_add hsort v ops s i w s' key hshare
    rwa [runUnbounded_append_singleton, applyUnbounded] at hmoves

/-- The product that the operation computes is an `int`. -/
def Op.Fits (v : ℤ) : Op → Prop
  | .add _ _ w => InInt (v * w)
  | .remove _ _ => True

/-- All products of a run are `int`s. -/
def CountsFit (v : ℤ) (ops : List Op) : Prop := ∀ op ∈ ops, op.Fits v

theorem run_append_singleton (sort : List VirtualNode → List VirtualNode) (v : ℤ) (ops : List Op)
    (op : Op) : run sort v (ops ++ [op]) = (run sort v ops).bind fun b ↦ applyOp sort b op := by
  simp [run]

theorem countsFit_append_singleton {v : ℤ} {ops : List Op} {op : Op} :
    CountsFit v (ops ++ [op]) ↔ CountsFit v ops ∧ op.Fits v := by
  simp [CountsFit, or_imp, forall_and]

/-- A run without overflow is the one in `ℤ`. -/
theorem run_eq_some_iff_unbounded {v : ℤ} {ops : List Op} {b : ConsistentHashLoadBalancer} :
    run sort v ops = some b ↔ CountsFit v ops ∧ b = runUnbounded sort v ops := by
  induction ops using List.reverseRecOn generalizing b with
  | nil =>
    have hnil : run sort v [] = some (fresh v) := rfl
    rw [hnil, Option.some_inj, eq_comm]
    exact (and_iff_right fun op hop ↦ absurd hop List.not_mem_nil).symm
  | append_singleton ops op ih =>
    rw [run_append_singleton, Option.bind_eq_some_iff, countsFit_append_singleton,
      runUnbounded_append_singleton]
    have hop : applyOp sort (runUnbounded sort v ops) op = some b ↔
        op.Fits v ∧ b = applyUnbounded sort (runUnbounded sort v ops) op := by
      cases op with
      | add s i w =>
        rw [applyOp, addInstance_eq_some, virtualNodes_runUnbounded, applyUnbounded,
          virtualNodes_runUnbounded, Op.Fits]
      | remove s i => rw [applyOp, Option.some_inj, eq_comm, Op.Fits, true_and, applyUnbounded]
    constructor
    · rintro ⟨b', hb', hb⟩
      obtain ⟨hfits, rfl⟩ := ih.1 hb'
      obtain ⟨hfit, rfl⟩ := hop.1 hb
      exact ⟨⟨hfits, hfit⟩, rfl⟩
    · rintro ⟨⟨hfits, hfit⟩, hb⟩
      exact ⟨_, ih.2 ⟨hfits, rfl⟩, hop.2 ⟨hfit, hb⟩⟩

/-- **When consistent hashing moves as few keys as possible.**  After every run, with any weights,
the balancer is as promised if and only if no product of the number of virtual nodes and a weight
overflowed on the way. -/
theorem run_minimal_disruption (hsort : IsSort sort) (v : ℤ) (ops : List Op) :
    (∃ b, run sort v ops = some b ∧ MovesFew sort v ops b) ↔ CountsFit v ops := by
  constructor
  · rintro ⟨b, hb, -⟩
    exact (run_eq_some_iff_unbounded.1 hb).1
  · intro hfits
    exact ⟨_, run_eq_some_iff_unbounded.2 ⟨hfits, rfl⟩, runUnbounded_movesFew hsort v ops⟩

end Select

/-! ## Stable sorting -/

/-- A stable sort by hash. -/
def stableSort (l : List VirtualNode) : List VirtualNode :=
  l.insertionSort fun a b ↦ a.hashValue ≤ b.hashValue

instance : Std.Total fun a b : VirtualNode ↦ a.hashValue ≤ b.hashValue :=
  ⟨fun a b ↦ le_total a.hashValue b.hashValue⟩

instance : IsTrans VirtualNode fun a b ↦ a.hashValue ≤ b.hashValue :=
  ⟨fun _ _ _ ↦ le_trans⟩

theorem stableSort_isSort : IsSort stableSort where
  perm l := List.perm_insertionSort _ l
  sorted l := List.pairwise_insertionSort _ l

theorem minimal_disruption_add_b :
    IsSort stableSort ∧
      CountsFit 160 [.add (lit "svc") (lit "a") 1, .add (lit "svc") (lit "b") 3] ∧
      ∃ b,
        run stableSort 160 [.add (lit "svc") (lit "a") 1, .add (lit "svc") (lit "b") 3] = some b ∧
        MovesFew stableSort 160 [.add (lit "svc") (lit "a") 1, .add (lit "svc") (lit "b") 3] b := by
  have hfits : CountsFit 160 [.add (lit "svc") (lit "a") 1, .add (lit "svc") (lit "b") 3] := by
    intro op hop
    rcases List.mem_pair.1 hop with rfl | rfl <;> exact ⟨by decide, by decide⟩
  exact ⟨stableSort_isSort, hfits, (run_minimal_disruption stableSort_isSort 160 _).2 hfits⟩

/-- 160 virtual nodes for a weight of 13421773 are more than an `int` can count. -/
theorem weight_overflows :
    ¬ ∀ sort, IsSort sort → ∀ (v : ℤ) (ops : List Op),
      ∃ b, run sort v ops = some b ∧ MovesFew sort v ops b := by
  intro h
  obtain ⟨b, hb, -⟩ := h stableSort stableSort_isSort 160 [.add (lit "svc") (lit "a") 13421773]
  have hnone : run stableSort 160 [.add (lit "svc") (lit "a") 13421773] = none := rfl
  rw [hnone] at hb
  cases hb

/-- A stable sort keeps the order of the nodes of one hash. -/
theorem filter_stableSort (l : List VirtualNode) (x : UInt32) :
    (stableSort l).filter (fun n ↦ decide (n.hashValue = x)) =
      l.filter fun n ↦ decide (n.hashValue = x) := by
  have hpair : (l.filter fun n ↦ decide (n.hashValue = x)).Pairwise
      fun a b ↦ a.hashValue ≤ b.hashValue := by
    refine List.pairwise_of_forall_mem_list fun a ha b hb ↦ ?_
    rw [List.mem_filter, decide_eq_true_eq] at ha hb
    rw [ha.2, hb.2]
  have hsub : (l.filter fun n ↦ decide (n.hashValue = x)).Sublist (stableSort l) :=
    List.sublist_insertionSort hpair List.filter_sublist
  have hsub' := hsub.filter fun n ↦ decide (n.hashValue = x)
  rw [List.filter_filter] at hsub'
  simp only [Bool.and_self] at hsub'
  refine (hsub'.eq_of_length ?_).symm
  exact ((stableSort_isSort.perm l).filter _).length_eq.symm

/-! ## Two balancers with the same members -/

/-- No two virtual nodes of different members of the service have the same hash. -/
def MembersShareNoHash (v : ℤ) (s : Bytes) (members : Finset (Bytes × ℤ)) : Prop :=
  ∀ m ∈ members, ∀ m' ∈ members, ∀ n ∈ vnodes v s m.1 m.2, ∀ n' ∈ vnodes v s m'.1 m'.2,
    n.hashValue = n'.hashValue → m.1 = m'.1

theorem mem_liveNodes_iff {v : ℤ} {s : Bytes} {ops : List Op} {n : VirtualNode} :
    n ∈ liveNodes v s ops ↔ ∃ m ∈ (members s ops).toFinset, n ∈ vnodes v s m.1 m.2 := by
  simp [liveNodes]

theorem MembersShareNoHash.noSharedHash {v : ℤ} {s : Bytes} {ops : List Op}
    (h : MembersShareNoHash v s (members s ops).toFinset) : NoSharedHash (liveNodes v s ops) := by
  intro n hn n' hn' he
  obtain ⟨m, hm, hnm⟩ := mem_liveNodes_iff.1 hn
  obtain ⟨m', hm', hnm'⟩ := mem_liveNodes_iff.1 hn'
  rw [instanceId_of_mem_vnodes hnm, instanceId_of_mem_vnodes hnm']
  exact h m hm m' hm' n hnm n' hnm' he

/-- Balancers whose services have the same members agree if these share no hash. -/
theorem selectInstance_eq_of_members_eq {sort : List VirtualNode → List VirtualNode}
    (hsort : IsSort sort) {v : ℤ} {s : Bytes} {ops ops' : List Op}
    (hsame : (members s ops).toFinset = (members s ops').toFinset)
    (hshare : MembersShareNoHash v s (members s ops).toFinset) (key : Bytes) :
    (runUnbounded sort v ops).selectInstance s key =
      (runUnbounded sort v ops').selectInstance s key := by
  have hmem : ∀ n, n ∈ liveNodes v s ops ↔ n ∈ liveNodes v s ops' := by
    intro n
    rw [mem_liveNodes_iff, mem_liveNodes_iff, hsame]
  rcases selectInstance_runUnbounded hsort v ops s key with ⟨hnil, hsel⟩ | ⟨n, -, hn, hsel⟩ <;>
    rcases selectInstance_runUnbounded hsort v ops' s key with ⟨hnil', hsel'⟩ | ⟨n', -, hn', hsel'⟩
  · rw [hsel, hsel']
  · have hmem' := (hmem n').2 hn'.1
    rw [hnil] at hmem'
    exact absurd hmem' List.not_mem_nil
  · have hmem' := (hmem n).1 hn.1
    rw [hnil'] at hmem'
    exact absurd hmem' List.not_mem_nil
  · have hkey := (hn.congr hmem).key_eq hn'
    have hown := hshare.noSharedHash n hn.1 n' ((hmem n').2 hn'.1) hkey
    rw [hsel, hsel', hown]

/-- With a stable sort, the nodes of one hash stay in the order in which they were added. -/
theorem filter_ring_adds (v : ℤ) (s : Bytes) (ms : List (Bytes × ℤ)) (x : UInt32) :
    ((runUnbounded stableSort v (ms.map fun m ↦ .add s m.1 m.2)).ring s).filter
        (fun n ↦ decide (n.hashValue = x)) =
      (ms.flatMap fun m ↦ vnodes v s m.1 m.2).filter fun n ↦ decide (n.hashValue = x) := by
  induction ms using List.reverseRecOn with
  | nil => rfl
  | append_singleton ms m ih =>
    rw [List.map_append, List.map_singleton, runUnbounded_append_singleton, applyUnbounded,
      ring_addNodes, if_pos rfl, filter_stableSort, List.filter_append, ih, List.flatMap_append,
      List.filter_append]
    simp [vnodes]

theorem members_adds (s : Bytes) (ms : List (Bytes × ℤ)) :
    members s (ms.map fun m ↦ .add s m.1 m.2) = ms := by
  induction ms using List.reverseRecOn with
  | nil => rfl
  | append_singleton ms m ih =>
    rw [List.map_append, List.map_singleton, members_append_singleton, ih]
    simp [memberStep]

/-- With a stable sort, the member added first owns every hash it has a node at. -/
theorem selectInstance_added_first {v : ℤ} {s : Bytes} {m : Bytes × ℤ} {n : VirtualNode}
    (hn : n ∈ vnodes v s m.1 m.2) (ms : List (Bytes × ℤ)) {key : Bytes}
    (hkey : hash key = n.hashValue) :
    (runUnbounded stableSort v ((m :: ms).map fun m ↦ .add s m.1 m.2)).selectInstance s key =
      some m.1 := by
  have hlive : n ∈ liveNodes v s ((m :: ms).map fun m ↦ .add s m.1 m.2) := by
    rw [liveNodes, members_adds, List.flatMap_cons]
    exact List.mem_append_left _ hn
  rcases selectInstance_runUnbounded stableSort_isSort v ((m :: ms).map fun m ↦ .add s m.1 m.2) s
    key with ⟨hnil, -⟩ | ⟨a, hsucc, ha, hsel⟩
  · rw [hnil] at hlive
    exact absurd hlive List.not_mem_nil
  · -- the answer has the hash of the key, since `n` does
    have hax : a.hashValue = hash key := by
      obtain ⟨-, ⟨hle, hmin⟩ | ⟨hlt, -⟩⟩ := ha
      · exact le_antisymm (hkey ▸ hmin n hlive (le_of_eq hkey)) hle
      · exact absurd (hlt n hlive) (by rw [hkey]; exact lt_irrefl _)
    -- so it is the first node of that hash, which the first member added
    rw [HashRing.successor] at hsucc
    have hfirst : ((runUnbounded stableSort v ((m :: ms).map fun m ↦ .add s m.1 m.2)).ring s).find?
        (fun n ↦ decide (n.hashValue = hash key)) = some a := by
      rcases hf : ((runUnbounded stableSort v ((m :: ms).map fun m ↦ .add s m.1 m.2)).ring s).find?
          (fun n ↦ decide (hash key ≤ n.hashValue)) with _ | b
      · have hring :=
          runUnbounded_holds stableSort_isSort v ((m :: ms).map fun m ↦ .add s m.1 m.2) s
        have hna := List.find?_eq_none.1 hf a (hring.ring_perm.mem_iff.2 ha.1)
        simp [hax] at hna
      · rw [hf, Option.some_or] at hsucc
        cases hsucc
        obtain ⟨-, as, bs, hsplit, has⟩ := List.find?_eq_some_iff_append.1 hf
        refine List.find?_eq_some_iff_append.2 ⟨by simpa using hax, as, bs, hsplit, fun c hc ↦ ?_⟩
        have := has c hc
        simp only [Bool.not_eq_true', decide_eq_false_iff_not, not_le] at this ⊢
        exact ne_of_lt this
    rw [← List.head?_filter, filter_ring_adds, List.flatMap_cons, List.filter_append] at hfirst
    have hmem : n ∈ (vnodes v s m.1 m.2).filter (fun n ↦ decide (n.hashValue = hash key)) :=
      List.mem_filter.2 ⟨hn, by simp [hkey]⟩
    rcases hhead : (vnodes v s m.1 m.2).filter (fun n ↦ decide (n.hashValue = hash key)) with
      _ | ⟨c, cs⟩
    · rw [hhead] at hmem
      exact absurd hmem List.not_mem_nil
    · rw [hhead, List.cons_append, List.head?_cons, Option.some_inj] at hfirst
      have hc : c ∈ vnodes v s m.1 m.2 :=
        List.mem_of_mem_filter (hhead ▸ List.mem_cons_self)
      rw [hsel, ← hfirst, instanceId_of_mem_vnodes hc]

theorem members_cons_erase {s : Bytes} {ms : Finset (Bytes × ℤ)} {m : Bytes × ℤ} (hm : m ∈ ms) :
    (members s ((m :: (ms.erase m).toList).map fun m ↦ .add s m.1 m.2)).toFinset = ms := by
  rw [members_adds, List.toFinset_cons, Finset.toList_toFinset, Finset.insert_erase hm]

/-- All products of a run are `int`s, but for those of the given members of the service. -/
def OthersFit (v : ℤ) (s : Bytes) (ms : Finset (Bytes × ℤ)) (ops : List Op) : Prop :=
  ∀ op ∈ ops, op.Fits v ∨ ∃ m ∈ ms, op = .add s m.1 m.2

/-- Two balancers, both of which there are, choose alike. -/
def ChooseAlike (b b' : Option ConsistentHashLoadBalancer) (s key : Bytes) : Prop :=
  ∃ c c', b = some c ∧ b' = some c' ∧ c.selectInstance s key = c'.selectInstance s key

theorem othersFit_adds (v : ℤ) (s : Bytes) {ms : Finset (Bytes × ℤ)} {m : Bytes × ℤ} (hm : m ∈ ms) :
    OthersFit v s ms ((m :: (ms.erase m).toList).map fun m ↦ .add s m.1 m.2) := by
  intro op hop
  obtain ⟨m', hm', rfl⟩ := List.mem_map.1 hop
  refine .inr ⟨m', ?_, rfl⟩
  rcases List.mem_cons.1 hm' with rfl | hm'
  · exact hm
  · exact Finset.mem_of_mem_erase (Finset.mem_toList.1 hm')

theorem OthersFit.countsFit {v : ℤ} {s : Bytes} {ms : Finset (Bytes × ℤ)} {ops : List Op}
    (h : OthersFit v s ms ops) (hms : ∀ m ∈ ms, InInt (v * m.2)) : CountsFit v ops := by
  intro op hop
  rcases h op hop with hfit | ⟨m, hm, rfl⟩
  · exact hfit
  · exact hms m hm

theorem ChooseAlike.unbounded {sort : List VirtualNode → List VirtualNode} {v : ℤ} {s key : Bytes}
    {ops ops' : List Op} (h : ChooseAlike (run sort v ops) (run sort v ops') s key) :
    (runUnbounded sort v ops).selectInstance s key =
      (runUnbounded sort v ops').selectInstance s key := by
  obtain ⟨c, c', hc, hc', hsame⟩ := h
  obtain ⟨-, rfl⟩ := run_eq_some_iff_unbounded.1 hc
  obtain ⟨-, rfl⟩ := run_eq_some_iff_unbounded.1 hc'
  exact hsame

/-- **When two balancers with the same members agree.**  For every set of members of a service, all
pairs of histories that end in it lead to the same choice for every key, under every sort that
`std::sort` may be, exactly when the product of the number of virtual nodes and the weight is an
`int` for every member, and no two different members have virtual nodes of the same hash.  What is
added besides the members has to have a product that is an `int`. -/
theorem agree_iff (v : ℤ) (s : Bytes) (ms : Finset (Bytes × ℤ)) :
    (∀ sort, IsSort sort → ∀ ops ops', OthersFit v s ms ops → OthersFit v s ms ops' →
        (members s ops).toFinset = ms → (members s ops').toFinset = ms → ∀ key,
          ChooseAlike (run sort v ops) (run sort v ops') s key) ↔
      (∀ m ∈ ms, InInt (v * m.2)) ∧ MembersShareNoHash v s ms := by
  constructor
  · intro hagree
    have hadds := fun {m : Bytes × ℤ} (hm : m ∈ ms) {m' : Bytes × ℤ} (hm' : m' ∈ ms) ↦
      hagree stableSort stableSort_isSort _ _ (othersFit_adds v s hm) (othersFit_adds v s hm')
        (members_cons_erase hm) (members_cons_erase hm')
    refine ⟨fun m hm ↦ ?_, fun m hm m' hm' n hn n' hn' he ↦ ?_⟩
    · obtain ⟨c, c', hc, -, -⟩ := hadds hm hm []
      exact (run_eq_some_iff_unbounded.1 hc).1 (.add s m.1 m.2) List.mem_cons_self
    · have hsame := (hadds hm hm' n.nodeId).unbounded
      have hhash := hash_nodeId_of_mem_vnodes hn
      rw [selectInstance_added_first hn _ hhash,
        selectInstance_added_first hn' _ (hhash.trans he)] at hsame
      exact Option.some_inj.1 hsame
  · rintro ⟨hfits, hshare⟩ sort hsort ops ops' hops hops' rfl hsame key
    exact ⟨_, _, run_eq_some_iff_unbounded.2 ⟨hops.countsFit hfits, rfl⟩,
      run_eq_some_iff_unbounded.2 ⟨hops'.countsFit hfits, rfl⟩,
      selectInstance_eq_of_members_eq hsort hsame.symm hshare key⟩

/-- `node129599` and `node732382` have the same FNV-1a hash, so all their virtual nodes collide, and
the one added first gets all the keys. -/
theorem added_first_wins_collision :
    ¬ ∀ sort, IsSort sort → ∀ (v : ℤ), 1 ≤ v → ∀ (s : Bytes) (ops ops' : List Op),
      CountsFit v ops → CountsFit v ops' →
      (members s ops).toFinset = (members s ops').toFinset → ∀ key,
        ChooseAlike (run sort v ops) (run sort v ops') s key := by
  intro h
  have hfits : ∀ i i', CountsFit 1 [.add (lit "svc") i 1, .add (lit "svc") i' 1] := by
    intro i i' op hop
    rcases List.mem_pair.1 hop with rfl | rfl <;> exact ⟨by decide, by decide⟩
  have hkey := (h stableSort stableSort_isSort 1 (le_refl 1) (lit "svc")
    [.add (lit "svc") (lit "node129599") 1, .add (lit "svc") (lit "node732382") 1]
    [.add (lit "svc") (lit "node732382") 1, .add (lit "svc") (lit "node129599") 1]
    (hfits _ _) (hfits _ _) (by decide) (lit "k1")).unbounded
  exact absurd hkey (by decide +kernel)

/-! ## Every instance of a ring can be selected

Which of several nodes with one hash comes first is up to the sort, and a sort may well prefer one
instance to all others. -/

/-- By hash, and among equal hashes the instance `i` first. -/
def Favours (i : Bytes) (a b : VirtualNode) : Prop :=
  a.hashValue < b.hashValue ∨ a.hashValue = b.hashValue ∧ (b.instanceId = i → a.instanceId = i)

instance (i : Bytes) : DecidableRel (Favours i) := fun _ _ ↦
  inferInstanceAs (Decidable (_ ∨ _ ∧ (_ → _)))

instance (i : Bytes) : Std.Total (Favours i) where
  total a b := by
    rcases lt_trichotomy a.hashValue b.hashValue with h | h | h
    · exact .inl (.inl h)
    · by_cases ha : a.instanceId = i
      · exact .inl (.inr ⟨h, fun _ ↦ ha⟩)
      · exact .inr (.inr ⟨h.symm, fun hi ↦ absurd hi ha⟩)
    · exact .inr (.inl h)

instance (i : Bytes) : IsTrans VirtualNode (Favours i) where
  trans a b c := by
    rintro (hab | ⟨hab, hi⟩) (hbc | ⟨hbc, hi'⟩)
    · exact .inl (lt_trans hab hbc)
    · exact .inl (hbc ▸ hab)
    · exact .inl (hab ▸ hbc)
    · exact .inr ⟨hab.trans hbc, fun hc ↦ hi (hi' hc)⟩

theorem Favours.le {i : Bytes} {a b : VirtualNode} (h : Favours i a b) :
    a.hashValue ≤ b.hashValue :=
  h.elim le_of_lt fun h ↦ le_of_eq h.1

/-- A sort that puts the instance `i` first among equal hashes. -/
def favourSort (i : Bytes) (l : List VirtualNode) : List VirtualNode :=
  l.insertionSort (Favours i)

theorem favourSort_isSort (i : Bytes) : IsSort (favourSort i) where
  perm l := List.perm_insertionSort _ l
  sorted l := (List.pairwise_insertionSort (Favours i) l).imp Favours.le

theorem ring_favourSort (i : Bytes) (v : ℤ) (ops : List Op) (s : Bytes) :
    ((runUnbounded (favourSort i) v ops).ring s).Pairwise (Favours i) := by
  induction ops using List.reverseRecOn with
  | nil => exact .nil
  | append_singleton ops op ih =>
    rw [runUnbounded_append_singleton]
    cases op with
    | add s' j w =>
      rw [applyUnbounded, ring_addNodes]
      split
      · exact List.pairwise_insertionSort _ _
      · exact ih
    | remove s' j =>
      by_cases hs : s = s'
      · subst hs
        rw [applyUnbounded, (runUnbounded_holds (favourSort_isSort i) v ops s).ring_removeInstance]
        exact ih.filter _
      · rw [applyUnbounded, ring_removeInstance_of_ne hs]
        exact ih

/-- **No instance of a ring is out of reach**: some sort and some key select it. -/
theorem exists_selectInstance_eq {v : ℤ} {s : Bytes} {ops : List Op} {n : VirtualNode}
    (hn : n ∈ liveNodes v s ops) :
    ∃ sort, IsSort sort ∧
      ∃ key, (runUnbounded sort v ops).selectInstance s key = some n.instanceId := by
  have hsort := favourSort_isSort n.instanceId
  have hring := runUnbounded_holds hsort v ops s
  have hnr := hring.ring_perm.mem_iff.2 hn
  have hhash : hash n.nodeId = n.hashValue := by
    obtain ⟨m, -, hm⟩ := List.mem_flatMap.1 hn
    exact hash_nodeId_of_mem_vnodes hm
  refine ⟨favourSort n.instanceId, hsort, n.nodeId, ?_⟩
  rw [selectInstance_eq_successor hring.ring_sorted, hhash, HashRing.successor]
  rcases hf : ((runUnbounded (favourSort n.instanceId) v ops).ring s).find?
      (fun m ↦ decide (n.hashValue ≤ m.hashValue)) with _ | a
  · exact absurd (List.find?_eq_none.1 hf n hnr) (by simp)
  · -- `n` is not before the first node of its hash, and the sort favours its instance
    obtain ⟨ha, as, bs, hsplit, has⟩ := List.find?_eq_some_iff_append.1 hf
    have hpair := ring_favourSort n.instanceId v ops s
    rw [hsplit] at hnr hpair
    rw [hf, Option.some_or, Option.map_some]
    rcases List.mem_append.1 hnr with hmem | hmem
    · have := has n hmem
      simp at this
    · rcases List.mem_cons.1 hmem with rfl | hmem
      · rfl
      · have hfav := List.rel_of_pairwise_cons (List.pairwise_append.1 hpair).2.1 hmem
        rcases hfav with hlt | ⟨-, hi⟩
        · exact absurd (of_decide_eq_true ha) (not_le.2 hlt)
        · rw [hi rfl]

end ConsistentHashLoadBalancer
end LoadBalance
end ChwellCore
