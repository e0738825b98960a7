import ChwellCore.Discovery.ServiceDiscovery
import ChwellCore.Lib.Run
import Mathlib.Algebra.Ring.Int.Defs

/-!
# Load balancers over the service registry

Three balancers share one shape.  Each keeps `instances_`, a vector of instances that it fetches
from the registry when it is empty, and `select_instance` picks one of the vector: the next in turn,
a random one, or the one whose smoothed weight is largest.

Nothing but `update_instances` ever empties the vector, and the service that was asked for is not
part of it.  Once a balancer has answered for one service it answers for every other service out of
the same vector, and it goes on handing out instances that have left the registry.
`select_mem_discoverServices` states when the answer is nevertheless right: when the vector is
empty, or when everything in it is still what the registry lists for the service at that moment.

The registry answers in the order of a hash table.  A balancer is therefore given *some* permutation
of `discoverServices`, and nothing below depends on which.
-/

set_option autoImplicit false

namespace ChwellCore
namespace LoadBalance

open Discovery

/-- The vector a balancer works on: its own, or what it has just fetched if it had none. -/
def refill (cached fetched : List ServiceInstance) : List ServiceInstance :=
  if cached.isEmpty then fetched else cached

/-- `RoundRobinLoadBalancer`. -/
structure RoundRobinLoadBalancer where
  instances : List ServiceInstance
  currentIndex : UInt64

/-- `RoundRobinLoadBalancer::select_instance`, with what the registry would answer. -/
def RoundRobinLoadBalancer.selectInstance (lb : RoundRobinLoadBalancer)
    (fetched : List ServiceInstance) : Option ServiceInstance × RoundRobinLoadBalancer :=
  let instances := refill lb.instances fetched
  if instances.isEmpty then (none, { lb with instances := instances })
  else
    let index := lb.currentIndex.toNat % instances.length
    (instances[index]?, ⟨instances, lb.currentIndex + 1⟩)

/-- `RandomLoadBalancer`, without its random number generator. -/
structure RandomLoadBalancer where
  instances : List ServiceInstance

/-- `RandomLoadBalancer::select_instance`, with what the registry would answer and the number
drawn. -/
def RandomLoadBalancer.selectInstance (lb : RandomLoadBalancer) (fetched : List ServiceInstance)
    (draw : ℕ) : Option ServiceInstance × RandomLoadBalancer :=
  let instances := refill lb.instances fetched
  if instances.isEmpty then (none, ⟨instances⟩) else (instances[draw]?, ⟨instances⟩)

/-- `WeightedRoundRobinLoadBalancer`. -/
structure WeightedRoundRobinLoadBalancer where
  instances : List ServiceInstance
  weights : UnorderedMap Bytes ℤ
  currentWeights : UnorderedMap Bytes ℤ

namespace WeightedRoundRobinLoadBalancer

/-- `get_weight`. -/
def getWeight (lb : WeightedRoundRobinLoadBalancer) (instanceId : Bytes) : ℤ :=
  (lb.weights.lookup instanceId).getD 1

/-- `set_weight`. -/
def setWeight (lb : WeightedRoundRobinLoadBalancer) (instanceId : Bytes) (weight : ℤ) :
    WeightedRoundRobinLoadBalancer :=
  { lb with weights := lb.weights.insert instanceId weight }

/-- `std::stable_sort` by instance id. -/
def sortById (l : List ServiceInstance) : List ServiceInstance :=
  l.mergeSort fun a b ↦ decide (a.instanceId ≤ b.instanceId)

/-- The first loop of `select_instance`: an instance without a current weight gets weight 0. -/
def initWeights (currentWeights : UnorderedMap Bytes ℤ) (instances : List ServiceInstance) :
    UnorderedMap Bytes ℤ :=
  instances.foldl (fun cw inst ↦
    if (cw.lookup inst.instanceId).isSome then cw else cw.insert inst.instanceId 0) currentWeights

/-- What the second loop of `select_instance` carries. -/
structure Sweep where
  currentWeights : UnorderedMap Bytes ℤ
  bestIndex : ℕ
  maxCurrentWeight : ℤ

/-- One turn of the second loop: raise a current weight, and remember the first largest. -/
def sweepStep (lb : WeightedRoundRobinLoadBalancer) (st : Sweep) (entry : ServiceInstance × ℕ) :
    Sweep :=
  let id := entry.1.instanceId
  let cur := (st.currentWeights.lookup id).getD 0 + lb.getWeight id
  let cw := st.currentWeights.insert id cur
  if st.maxCurrentWeight < cur then ⟨cw, entry.2, cur⟩ else ⟨cw, st.bestIndex, st.maxCurrentWeight⟩

/-- The second loop of `select_instance`, starting from the least `int`. -/
def sweep (lb : WeightedRoundRobinLoadBalancer) (currentWeights : UnorderedMap Bytes ℤ)
    (instances : List ServiceInstance) : Sweep :=
  instances.zipIdx.foldl (sweepStep lb) ⟨currentWeights, 0, -2 ^ 31⟩

/-- `WeightedRoundRobinLoadBalancer::select_instance`, with what the registry would answer. -/
def selectInstance (lb : WeightedRoundRobinLoadBalancer) (fetched : List ServiceInstance) :
    Option ServiceInstance × WeightedRoundRobinLoadBalancer :=
  let instances := refill lb.instances (sortById fetched)
  if instances.isEmpty then (none, { lb with instances := instances })
  else if instances.length = 1 then (instances[0]?, { lb with instances := instances })
  else
    let totalWeight := (instances.map fun inst ↦ lb.getWeight inst.instanceId).sum
    let cw := initWeights lb.currentWeights instances
    if totalWeight ≤ 0 then (none, { lb with instances := instances, currentWeights := cw })
    else
      let st := lb.sweep cw instances
      let best := instances[st.bestIndex]?
      let bestId := (best.map ServiceInstance.instanceId).getD []
      let rest := (st.currentWeights.lookup bestId).getD 0 - totalWeight
      (best, { lb with
        instances := instances, currentWeights := st.currentWeights.insert bestId rest })

end WeightedRoundRobinLoadBalancer

/-! ## The three balancers as one -/

/-- A balancer of one of the three kinds. -/
inductive Balancer where
  | roundRobin (lb : RoundRobinLoadBalancer)
  | random (lb : RandomLoadBalancer)
  | weighted (lb : WeightedRoundRobinLoadBalancer)

namespace Balancer

/-- The vector `instances_` of a balancer. -/
def instances : Balancer → List ServiceInstance
  | .roundRobin lb => lb.instances
  | .random lb => lb.instances
  | .weighted lb => lb.instances

/-- `select_instance` of any of the three may answer `out` and leave the balancer `b'`. -/
def Select (b : Balancer) (fetched : List ServiceInstance) (out : Option ServiceInstance)
    (b' : Balancer) : Prop :=
  match b with
  | .roundRobin lb =>
    out = (lb.selectInstance fetched).1 ∧ b' = .roundRobin (lb.selectInstance fetched).2
  | .random lb => ∃ draw < max 1 (refill lb.instances fetched).length,
      out = (lb.selectInstance fetched draw).1 ∧ b' = .random (lb.selectInstance fetched draw).2
  | .weighted lb =>
    out = (lb.selectInstance fetched).1 ∧ b' = .weighted (lb.selectInstance fetched).2

/-- `set_weight`, which only the weighted balancer ever reads. -/
def setWeight (b : Balancer) (instanceId : Bytes) (weight : ℤ) : Balancer :=
  match b with
  | .weighted lb => .weighted (lb.setWeight instanceId weight)
  | b => b

theorem mem_of_mem_refill {cached fetched : List ServiceInstance} {out : ServiceInstance}
    (h : out ∈ refill cached fetched) : cached = [] ∧ out ∈ fetched ∨ out ∈ cached := by
  rw [refill] at h
  split at h
  · next he => exact .inl ⟨List.isEmpty_iff.1 he, h⟩
  · exact .inr h

theorem mem_sortById {l : List ServiceInstance} {out : ServiceInstance} :
    out ∈ WeightedRoundRobinLoadBalancer.sortById l ↔ out ∈ l :=
  List.mem_mergeSort

/-- **What a balancer answers** comes out of its vector, or out of what it has just fetched when the
vector was empty. -/
theorem Select.mem {b b' : Balancer} {fetched : List ServiceInstance} {out : ServiceInstance}
    (h : b.Select fetched (some out) b') :
    b.instances = [] ∧ out ∈ fetched ∨ out ∈ b.instances := by
  cases b with
  | roundRobin lb =>
    obtain ⟨hout, -⟩ := h
    simp only [RoundRobinLoadBalancer.selectInstance] at hout
    split at hout
    · cases hout
    · exact mem_of_mem_refill (List.mem_of_getElem? hout.symm)
  | random lb =>
    obtain ⟨draw, -, hout, -⟩ := h
    simp only [RandomLoadBalancer.selectInstance] at hout
    split at hout
    · cases hout
    · exact mem_of_mem_refill (List.mem_of_getElem? hout.symm)
  | weighted lb =>
    obtain ⟨hout, -⟩ := h
    have hmem : out ∈ refill lb.instances (WeightedRoundRobinLoadBalancer.sortById fetched) := by
      simp only [WeightedRoundRobinLoadBalancer.selectInstance] at hout
      split at hout
      · cases hout
      · split at hout
        · exact List.mem_of_getElem? hout.symm
        · split at hout
          · cases hout
          · exact List.mem_of_getElem? hout.symm
    exact (mem_of_mem_refill hmem).imp_left fun h ↦ ⟨h.1, mem_sortById.1 h.2⟩

end Balancer

/-! ## Runs -/

/-- A registry and a balancer that fetches from it. -/
structure World where
  registry : MemoryServiceDiscovery
  balancer : Balancer

/-- What can happen: an operation of the registry, a weight that is set, or a selection for a
service together with its answer. -/
inductive Event where
  | register (inst : ServiceInstance) (now : ℤ)
  | deregister (instanceId : Bytes)
  | heartbeat (instanceId : Bytes) (now : ℤ)
  | cleanup (now : ℤ)
  | setWeight (instanceId : Bytes) (weight : ℤ)
  | select (serviceId : Bytes) (out : Option ServiceInstance)

namespace World

/-- One step. -/
def Step (w : World) (e : Event) (w' : World) : Prop :=
  match e with
  | .register inst now => w' = { w with registry := (w.registry.registerService inst now).2.2 }
  | .deregister id => w' = { w with registry := (w.registry.deregisterService id).2 }
  | .heartbeat id now => w' = { w with registry := (w.registry.heartbeat id now).2 }
  | .cleanup now => w' = { w with registry := w.registry.cleanupExpiredInstances now }
  | .setWeight id weight => w' = { w with balancer := w.balancer.setWeight id weight }
  | .select s out => ∃ fetched, fetched.Perm (w.registry.discoverServices s) ∧
      w.balancer.Select fetched out w'.balancer ∧ w'.registry = w.registry

/-- The steps of a registry and a balancer. -/
def system : System World Event := ⟨Step⟩

/-- A world whose registry is empty and whose balancer has not fetched anything yet. -/
def Initial (w : World) : Prop := (∃ t, w.registry = .fresh t) ∧ w.balancer.instances = []

/-- A selection for `s` finds the vector empty, or holding only what the registry lists for `s` at
that moment.  Other steps are not restricted. -/
def CacheFresh (w : World) : Event → Prop
  | .select s _ =>
    w.balancer.instances = [] ∨ ∀ inst ∈ w.balancer.instances, inst ∈ w.registry.discoverServices s
  | _ => True

/-- Every step keeps the index of the registry right. -/
theorem indexed_step {w w' : World} {e : Event} (h : w.registry.Indexed) (hstep : Step w e w') :
    w'.registry.Indexed := by
  cases e with
  | register inst now => rw [show w' = _ from hstep]; exact h.registerService inst now
  | deregister id => rw [show w' = _ from hstep]; exact h.deregisterService id
  | heartbeat id now => rw [show w' = _ from hstep]; exact h.heartbeat id now
  | cleanup now => rw [show w' = _ from hstep]; exact h.cleanupExpiredInstances now
  | setWeight id weight => rw [show w' = _ from hstep]; exact h
  | select s out =>
    obtain ⟨_, -, -, hreg⟩ := hstep
    rwa [hreg]

theorem indexed_of_run {w₀ w : World} {es : List Event} (h₀ : Initial w₀)
    (hrun : system.Run w₀ es w) : w.registry.Indexed := by
  refine hrun.invariant (fun s e t ↦ indexed_step) ?_
  obtain ⟨⟨t, ht⟩, -⟩ := h₀
  rw [ht]
  exact MemoryServiceDiscovery.indexed_fresh t

/-- **When a balancer routes to the service asked for.**  In every run of registry operations and
selections, a selection for `s` that finds the balancer's vector empty, or holding only what the
registry lists for `s` at that moment, answers with one of the instances the registry lists for `s`,
and so with an instance of `s`. -/
theorem select_mem_discoverServices {w₀ w w' : World} {es : List Event} (h₀ : Initial w₀)
    (hrun : (system.guarded CacheFresh).Run w₀ es w) {s : Bytes} {out : ServiceInstance}
    (hsel : (system.guarded CacheFresh).step w (.select s (some out)) w') :
    out ∈ w.registry.discoverServices s ∧ out.serviceId = s := by
  have hindexed := indexed_of_run h₀ hrun.of_guarded
  obtain ⟨hfresh, fetched, hperm, hselect, -⟩ := hsel
  have hmem : out ∈ w.registry.discoverServices s := by
    rcases hselect.mem with ⟨-, hout⟩ | hout
    · exact hperm.mem_iff.1 hout
    · rcases hfresh with hnil | hall
      · rw [hnil] at hout
        exact absurd hout List.not_mem_nil
      · exact hall out hout
  exact ⟨hmem, hindexed.serviceId_of_mem_discoverServices hmem⟩

/-- The condition is needed: a random balancer whose vector holds an instance that the registry does
not list for `s` may answer with it. -/
theorem random_select_stale {w : World} {lb : RandomLoadBalancer} {s : Bytes}
    (hb : w.balancer = .random lb) (hstale : ¬ CacheFresh w (.select s none)) :
    ∃ out w', Step w (.select s (some out)) w' ∧ out ∉ w.registry.discoverServices s := by
  simp only [CacheFresh, hb, Balancer.instances, not_or, not_forall] at hstale
  obtain ⟨hne, inst, hinst, hnot⟩ := hstale
  obtain ⟨draw, hdraw, hget⟩ := List.mem_iff_getElem.1 hinst
  have hrefill : refill lb.instances (w.registry.discoverServices s) = lb.instances := by
    simp [refill, hne]
  have hsel : lb.selectInstance (w.registry.discoverServices s) draw = (some inst, lb) := by
    simp only [RandomLoadBalancer.selectInstance, hrefill]
    rw [if_neg (by simpa using hne), List.getElem?_eq_getElem hdraw, hget]
  refine ⟨inst, { w with balancer := .random lb }, ⟨_, .refl _, ?_, rfl⟩, hnot⟩
  rw [hb]
  refine ⟨draw, by rw [hrefill]; omega, ?_, ?_⟩
  · rw [hsel]
  · rw [hsel]

/-! ## Two services behind one balancer -/

/-- An instance as a server would register it. -/
def server (serviceId instanceId : String) : ServiceInstance :=
  ⟨lit serviceId, lit instanceId, lit "127.0.0.1", 9000, [], 0, 0, true⟩

/-- The registry with one server of each of two services. -/
def twoServices : MemoryServiceDiscovery :=
  ((MemoryServiceDiscovery.fresh 30000).registerService (server "game" "g1") 0).2.2
    |>.registerService (server "chat" "c1") 0 |>.2.2

/-- A balancer of the first kind that has not fetched anything. -/
def freshRoundRobin : Balancer := .roundRobin ⟨[], 0⟩

theorem run_twoServices :
    (system.guarded CacheFresh).Run ⟨.fresh 30000, freshRoundRobin⟩
      [.register (server "game" "g1") 0, .register (server "chat" "c1") 0]
      ⟨twoServices, freshRoundRobin⟩ := by
  have hgame : (system.guarded CacheFresh).step ⟨.fresh 30000, freshRoundRobin⟩
      (.register (server "game" "g1") 0)
      ⟨((MemoryServiceDiscovery.fresh 30000).registerService (server "game" "g1") 0).2.2,
        freshRoundRobin⟩ := ⟨trivial, rfl⟩
  exact .cons hgame (.single ⟨trivial, rfl⟩)

theorem step_select_game :
    (system.guarded CacheFresh).step ⟨twoServices, freshRoundRobin⟩
      (.select (lit "game") (some (server "game" "g1")))
      ⟨twoServices, .roundRobin ⟨[server "game" "g1"], 1⟩⟩ :=
  ⟨.inl rfl, twoServices.discoverServices (lit "game"), .refl _, ⟨by decide, by congr 1⟩, rfl⟩

theorem select_game_mem :
    Initial ⟨.fresh 30000, freshRoundRobin⟩ ∧
      server "game" "g1" ∈ twoServices.discoverServices (lit "game") ∧
        (server "game" "g1").serviceId = lit "game" :=
  ⟨⟨⟨30000, rfl⟩, rfl⟩,
    select_mem_discoverServices ⟨⟨30000, rfl⟩, rfl⟩ run_twoServices step_select_game⟩

/-- After a selection for one service, a selection for another answers with the first one's
server. -/
theorem chat_routed_to_game :
    ¬ ∀ (es : List Event) (w w' : World) (s : Bytes) (out : ServiceInstance),
      system.Run ⟨.fresh 30000, freshRoundRobin⟩ es w → system.step w (.select s (some out)) w' →
        out ∈ w.registry.discoverServices s := by
  intro h
  have hchat : system.step ⟨twoServices, .roundRobin ⟨[server "game" "g1"], 1⟩⟩
      (.select (lit "chat") (some (server "game" "g1")))
      ⟨twoServices, .roundRobin ⟨[server "game" "g1"], 2⟩⟩ :=
    ⟨twoServices.discoverServices (lit "chat"), .refl _, ⟨by decide, by congr 1⟩, rfl⟩
  have hmem := h _ _ _ _ _ (run_twoServices.of_guarded.snoc step_select_game.2) hchat
  exact absurd hmem (by decide)

end World
end LoadBalance
end ChwellCore
