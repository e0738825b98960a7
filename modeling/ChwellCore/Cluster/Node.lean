import ChwellCore.Discovery.ServiceIndex
import ChwellCore.Lib.Pool
import ChwellCore.Lib.Run

/-!
# Nodes that beat

A `Node` registers itself with the service discovery when it starts and has a thread that sends a
heartbeat from time to time; if the heartbeat finds that the entry is gone, the thread registers the
node again.  `stop` takes the node down in three steps: it clears `running_`, waits for the thread,
and takes the entry out.

A `NodeGroup` is any number of nodes around one `MemoryServiceDiscovery`, with a clock that only
goes forward.  `start` and `stop` of one node are called by one thread.  A step is one of the calls
that the discovery serialises with its mutex, or one access to `running_`; the steps of all nodes,
the cleanup of the discovery and the passing of time interleave freely, and how long `wait_for`
waits is left open.
-/

set_option autoImplicit false

namespace ChwellCore
namespace Cluster

open Discovery (MemoryServiceDiscovery ServiceInstance)

/-- What a `Node` is constructed with. -/
structure NodeConfig where
  nodeId : Bytes
  nodeType : Bytes
  listenAddr : Bytes
  listenPort : UInt16
deriving DecidableEq, Repr

/-- The `ServiceInstance` that a node fills in. -/
def NodeConfig.instance (c : NodeConfig) : ServiceInstance :=
  { serviceId := c.nodeType
    instanceId := c.nodeId
    host := c.listenAddr
    port := c.listenPort
    metadata := [(lit "node_type", c.nodeType)]
    registerTime := 0
    heartbeatTime := 0
    isAlive := true }

/-- An entry is that of a node. -/
def NodeConfig.Owns (c : NodeConfig) (inst : ServiceInstance) : Prop :=
  inst.serviceId = c.nodeType ∧ inst.instanceId = c.nodeId ∧ inst.host = c.listenAddr ∧
    inst.port = c.listenPort ∧ inst.metadata = [(lit "node_type", c.nodeType)]

/-- `heartbeat_thread_`. -/
inductive HeartbeatThread where
  | absent
  /-- It waits, or is about to look at `running_`. -/
  | waiting
  /-- It is about to send a heartbeat. -/
  | beating
  /-- Its heartbeat has failed, and it is about to register the node. -/
  | registering
  /-- Out of its loop and not joined yet. -/
  | finished
deriving DecidableEq, Repr

/-- The thread that calls `start` and `stop`. -/
inductive NodeOwner where
  | idle
  /-- In `start`: the node has been registered, and `running_` is not set yet. -/
  | starting
  /-- In `stop`, waiting for the heartbeat thread. -/
  | joining
  /-- In `stop`, about to take the entry out. -/
  | deregistering
deriving DecidableEq, Repr

/-- `Node`, with the two threads that use it. -/
structure Node where
  config : NodeConfig
  running : Bool
  thread : HeartbeatThread
  owner : NodeOwner
deriving DecidableEq, Repr

/-- Any number of nodes and what they share. -/
structure NodeGroup where
  nodes : Pool Node
  discovery : MemoryServiceDiscovery
  now : ℤ

/-- A step.  A number names a node. -/
inductive NodeAct where
  /-- `start`, up to the registration. -/
  | start (i : ℕ)
  /-- `start` sets `running_` and begins the thread. -/
  | launch (i : ℕ)
  /-- The heartbeat thread looks at `running_`. -/
  | wake (i : ℕ)
  | beat (i : ℕ)
  | register (i : ℕ)
  /-- `stop`, up to `join`. -/
  | stop (i : ℕ)
  | join (i : ℕ)
  | deregister (i : ℕ)
  /-- `cleanup_expired_instances`. -/
  | cleanup
  /-- Time passes. -/
  | tick (ms : ℕ)
deriving DecidableEq, Repr

namespace NodeGroup

/-- Some nodes that have been constructed, and an empty discovery. -/
def init (configs : List NodeConfig) (heartbeatTimeoutMs now : ℤ) : NodeGroup :=
  ⟨configs.map fun c ↦ ⟨c, false, .absent, .idle⟩, .fresh heartbeatTimeoutMs, now⟩

def put (s : NodeGroup) (i : ℕ) (node : Node) : NodeGroup := { s with nodes := s.nodes.put i node }

/-- `register_service` for a node, and whether it succeeded. -/
def registered (s : NodeGroup) (c : NodeConfig) : Bool × MemoryServiceDiscovery :=
  let r := s.discovery.registerService c.instance s.now
  (r.1, r.2.2)

/-- `start`, up to the registration. -/
def startNode (s : NodeGroup) (i : ℕ) (node : Node) : NodeGroup :=
  if node.running then s
  else
    let r := s.registered node.config
    if r.1 then { s with discovery := r.2 }.put i { node with owner := .starting }
    else { s with discovery := r.2 }

/-- The heartbeat of node `i`. -/
def beatNode (s : NodeGroup) (i : ℕ) (node : Node) : NodeGroup :=
  let r := s.discovery.heartbeat node.config.nodeId s.now
  { s with discovery := r.2 }.put i { node with thread := if r.1 then .waiting else .registering }

/-- One step; `none` if it cannot be taken. -/
def step (s : NodeGroup) : NodeAct → Option NodeGroup
  | .start i =>
    match s.nodes[i]? with
    | some node => if node.owner = .idle then some (s.startNode i node) else none
    | none => none
  | .launch i =>
    match s.nodes[i]? with
    | some node =>
      if node.owner = .starting then
        some (s.put i { node with running := true, thread := .waiting, owner := .idle })
      else none
    | none => none
  | .wake i =>
    match s.nodes[i]? with
    | some node =>
      if node.thread = .waiting then
        some (s.put i { node with thread := if node.running then .beating else .finished })
      else none
    | none => none
  | .beat i =>
    match s.nodes[i]? with
    | some node => if node.thread = .beating then some (s.beatNode i node) else none
    | none => none
  | .register i =>
    match s.nodes[i]? with
    | some node =>
      if node.thread = .registering then
        some ({ s with discovery := (s.registered node.config).2 }.put i
          { node with thread := .waiting })
      else none
    | none => none
  | .stop i =>
    match s.nodes[i]? with
    | some node =>
      if node.owner = .idle then
        some (if node.running then s.put i { node with running := false, owner := .joining } else s)
      else none
    | none => none
  | .join i =>
    match s.nodes[i]? with
    | some node =>
      if node.owner = .joining ∧ node.thread = .finished then
        some (s.put i { node with thread := .absent, owner := .deregistering })
      else none
    | none => none
  | .deregister i =>
    match s.nodes[i]? with
    | some node =>
      if node.owner = .deregistering then
        some ({ s with discovery := (s.discovery.deregisterService node.config.nodeId).2 }.put i
          { node with owner := .idle })
      else none
    | none => none
  | .cleanup => some { s with discovery := s.discovery.cleanupExpiredInstances s.now }
  | .tick ms => some { s with now := s.now + ms }

/-- The system of all interleavings. -/
def system : System NodeGroup NodeAct := System.ofPartial step

/-- What a step can do. -/
inductive Step (s : NodeGroup) : NodeAct → NodeGroup → Prop
  | start {i : ℕ} {node : Node} : s.nodes[i]? = some node → node.owner = .idle →
      node.running = false → (s.registered node.config).1 = true →
      Step s (.start i) ({ s with discovery := (s.registered node.config).2 }.put i
        { node with owner := .starting })
  | startAgain (i : ℕ) : Step s (.start i) s
  | startFailed {i : ℕ} {node : Node} : s.nodes[i]? = some node →
      (s.registered node.config).1 = false →
      Step s (.start i) { s with discovery := (s.registered node.config).2 }
  | launch {i : ℕ} {node : Node} : s.nodes[i]? = some node → node.owner = .starting →
      Step s (.launch i)
        (s.put i { node with running := true, thread := .waiting, owner := .idle })
  | wake {i : ℕ} {node : Node} : s.nodes[i]? = some node → node.thread = .waiting →
      Step s (.wake i)
        (s.put i { node with thread := if node.running then .beating else .finished })
  | beat {i : ℕ} {node : Node} : s.nodes[i]? = some node → node.thread = .beating →
      Step s (.beat i) (s.beatNode i node)
  | register {i : ℕ} {node : Node} : s.nodes[i]? = some node → node.thread = .registering →
      Step s (.register i) ({ s with discovery := (s.registered node.config).2 }.put i
        { node with thread := .waiting })
  | stop {i : ℕ} {node : Node} : s.nodes[i]? = some node → node.owner = .idle →
      node.running = true →
      Step s (.stop i) (s.put i { node with running := false, owner := .joining })
  | stopAgain (i : ℕ) : Step s (.stop i) s
  | join {i : ℕ} {node : Node} : s.nodes[i]? = some node → node.owner = .joining →
      node.thread = .finished →
      Step s (.join i) (s.put i { node with thread := .absent, owner := .deregistering })
  | deregister {i : ℕ} {node : Node} : s.nodes[i]? = some node → node.owner = .deregistering →
      Step s (.deregister i)
        ({ s with discovery := (s.discovery.deregisterService node.config.nodeId).2 }.put i
          { node with owner := .idle })
  | cleanup : Step s .cleanup { s with discovery := s.discovery.cleanupExpiredInstances s.now }
  | tick (ms : ℕ) : Step s (.tick ms) { s with now := s.now + ms }

variable {s t : NodeGroup} {a : NodeAct}

theorem step_cases (hs : step s a = some t) : Step s a t := by
  cases a with
  | start i =>
    simp only [step] at hs
    split at hs
    · next node hi =>
      obtain ⟨hidle, hs⟩ := Option.ite_none_right_eq_some.1 hs
      obtain rfl := Option.some.inj hs
      rw [startNode]
      by_cases hrun : node.running = true
      · rw [if_pos hrun]
        exact .startAgain i
      · rw [if_neg hrun]
        rw [Bool.not_eq_true] at hrun
        cases hreg : (s.registered node.config).1
        · simp only [hreg]
          exact .startFailed hi hreg
        · simp only [hreg]
          exact .start hi hidle hrun hreg
    · cases hs
  | launch i | wake i | beat i | register i | deregister i =>
    simp only [step] at hs
    split at hs
    · next node hi =>
      obtain ⟨hat, hs⟩ := Option.ite_none_right_eq_some.1 hs
      cases hs
      constructor
      · exact hi
      · exact hat
    · cases hs
  | stop i =>
    simp only [step] at hs
    split at hs
    · next node hi =>
      obtain ⟨hidle, hs⟩ := Option.ite_none_right_eq_some.1 hs
      obtain rfl := Option.some.inj hs
      cases hrun : node.running
      · exact .stopAgain i
      · exact .stop hi hidle hrun
    · cases hs
  | join i =>
    simp only [step] at hs
    split at hs
    · next node hi =>
      obtain ⟨⟨hjoin, hfin⟩, hs⟩ := Option.ite_none_right_eq_some.1 hs
      cases hs
      exact .join hi hjoin hfin
    · cases hs
  | cleanup =>
    cases hs
    exact .cleanup
  | tick ms =>
    cases hs
    exact .tick ms

end NodeGroup

end Cluster
end ChwellCore
