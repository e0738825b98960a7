import ChwellCore.Core.Bytes
import ChwellCore.Lib.UnorderedMap

/-!
# The service registry

`MemoryServiceDiscovery` keeps two tables: `instances_`, from instance ids to instances, and
`service_index_`, from service ids to the ids of their instances.  `discover_services` walks the
second and looks up each id in the first.

The two tables are written separately, so that they agree is an invariant: `Indexed` says that the
index of a service lists exactly the stored instances of that service, and every operation keeps it.
The background thread only calls `cleanup_expired_instances` from time to time, which is one of the
operations.

An `unordered_set` of ids is a list here, and so is the answer of `discover_services`; neither has
an order that a caller may rely on.
-/

set_option autoImplicit false

namespace ChwellCore
namespace Discovery

/-- `ServiceInstance`. -/
structure ServiceInstance where
  serviceId : Bytes
  instanceId : Bytes
  host : Bytes
  port : UInt16
  metadata : List (Bytes × Bytes)
  registerTime : ℤ
  heartbeatTime : ℤ
  isAlive : Bool
deriving DecidableEq, Repr

/-- `MemoryServiceDiscovery`.  A listener is known by a number. -/
structure MemoryServiceDiscovery where
  instances : UnorderedMap Bytes ServiceInstance
  serviceIndex : UnorderedMap Bytes (List Bytes)
  listeners : UnorderedMap Bytes (List ℕ)
  heartbeatTimeoutMs : ℤ

namespace MemoryServiceDiscovery

/-- An empty registry. -/
def fresh (heartbeatTimeoutMs : ℤ) : MemoryServiceDiscovery := ⟨∅, ∅, ∅, heartbeatTimeoutMs⟩

/-- The ids listed for a service. -/
def indexOf (d : MemoryServiceDiscovery) (serviceId : Bytes) : List Bytes :=
  (d.serviceIndex.lookup serviceId).getD []

/-- `register_service` at time `now`: whether it succeeded, the listeners it notified with the
instance it stored, and the registry afterwards. -/
def registerService (d : MemoryServiceDiscovery) (inst : ServiceInstance) (now : ℤ) :
    Bool × List (ℕ × ServiceInstance) × MemoryServiceDiscovery :=
  if inst.instanceId = [] then (false, [], d)
  else if (d.instances.lookup inst.instanceId).isSome then (false, [], d)
  else
    let new := { inst with registerTime := now, heartbeatTime := now, isAlive := true }
    let ids := d.indexOf new.serviceId
    let ids := if inst.instanceId ∈ ids then ids else ids ++ [inst.instanceId]
    let notified := ((d.listeners.lookup new.serviceId).getD []).map fun l ↦ (l, new)
    (true, notified,
      { d with
        instances := d.instances.insert inst.instanceId new
        serviceIndex := d.serviceIndex.insert new.serviceId ids })

/-- Erase `instanceId` from the index of `serviceId`, and the index itself when it becomes empty. -/
def eraseFromIndex (index : UnorderedMap Bytes (List Bytes)) (serviceId instanceId : Bytes) :
    UnorderedMap Bytes (List Bytes) :=
  match index.lookup serviceId with
  | none => index
  | some ids =>
    let rest := ids.filter fun i ↦ decide (i ≠ instanceId)
    if rest.isEmpty then index.erase serviceId else index.insert serviceId rest

/-- `deregister_service`. -/
def deregisterService (d : MemoryServiceDiscovery) (instanceId : Bytes) :
    Bool × MemoryServiceDiscovery :=
  match d.instances.lookup instanceId with
  | none => (false, d)
  | some inst =>
    (true,
      { d with
        instances := d.instances.erase instanceId
        serviceIndex := eraseFromIndex d.serviceIndex inst.serviceId instanceId })

/-- `heartbeat` at time `now`. -/
def heartbeat (d : MemoryServiceDiscovery) (instanceId : Bytes) (now : ℤ) :
    Bool × MemoryServiceDiscovery :=
  match d.instances.lookup instanceId with
  | none => (false, d)
  | some inst =>
    (true,
      { d with
        instances :=
          d.instances.insert instanceId { inst with heartbeatTime := now, isAlive := true } })

/-- `discover_services`. -/
def discoverServices (d : MemoryServiceDiscovery) (serviceId : Bytes) : List ServiceInstance :=
  ((d.serviceIndex.lookup serviceId).getD []).filterMap fun instanceId ↦
    (d.instances.lookup instanceId).filter ServiceInstance.isAlive

/-- `get_service_instance`. -/
def getServiceInstance (d : MemoryServiceDiscovery) (instanceId : Bytes) : Option ServiceInstance :=
  d.instances.lookup instanceId

/-- The instances `cleanup_expired_instances` finds expired at time `now`. -/
def expiredInstances (d : MemoryServiceDiscovery) (now : ℤ) : List Bytes :=
  d.instances.entries.filterMap fun e ↦
    if e.2.isAlive && decide (d.heartbeatTimeoutMs < now - e.2.heartbeatTime) then some e.1
    else none

/-- `cleanup_expired_instances` at time `now`.  The body of its second loop is that of
`deregister_service`. -/
def cleanupExpiredInstances (d : MemoryServiceDiscovery) (now : ℤ) : MemoryServiceDiscovery :=
  (d.expiredInstances now).foldl (fun d id ↦ (d.deregisterService id).2) d

/-! ## The index agrees with the instances -/

/-- The index of every service lists exactly the stored instances of that service. -/
def Indexed (d : MemoryServiceDiscovery) : Prop :=
  ∀ s id, id ∈ d.indexOf s ↔ ∃ inst, d.instances.lookup id = some inst ∧ inst.serviceId = s

theorem indexed_fresh (t : ℤ) : Indexed (fresh t) := by
  intro s id
  simp [fresh, indexOf]

theorem mem_eraseFromIndex {index : UnorderedMap Bytes (List Bytes)} {s s' id id' : Bytes} :
    id' ∈ ((eraseFromIndex index s id).lookup s').getD [] ↔
      id' ∈ (index.lookup s').getD [] ∧ ¬ (s' = s ∧ id' = id) := by
  rw [eraseFromIndex]
  rcases h : index.lookup s with _ | ids
  · by_cases hs : s' = s
    · subst hs
      simp [h]
    · simp [hs]
  · by_cases hs : s' = s
    · subst hs
      simp only [h, Option.getD_some, true_and]
      split
      · next hnil =>
        rw [UnorderedMap.lookup_erase_ite, if_pos rfl, Option.getD_none]
        have hall := List.filter_eq_nil_iff.1 (List.isEmpty_iff.1 hnil)
        constructor
        · intro hmem
          exact absurd hmem List.not_mem_nil
        · rintro ⟨hmem, hne⟩
          exact absurd (by simpa using hne) (hall id' hmem)
      · rw [UnorderedMap.lookup_insert_ite, if_pos rfl, Option.getD_some, List.mem_filter,
          decide_eq_true_eq]
    · simp only [hs, false_and, not_false_eq_true, and_true]
      split
      · rw [UnorderedMap.lookup_erase_ite, if_neg hs]
      · rw [UnorderedMap.lookup_insert_ite, if_neg hs]

theorem indexOf_insert (d : MemoryServiceDiscovery) (insts : UnorderedMap Bytes ServiceInstance)
    (s : Bytes) (ids : List Bytes) (s' : Bytes) :
    indexOf { d with instances := insts, serviceIndex := d.serviceIndex.insert s ids } s' =
      if s' = s then ids else d.indexOf s' := by
  simp only [indexOf, UnorderedMap.lookup_insert_ite]
  split <;> rfl

/-- `register_service` keeps the index right: the new id was not in use. -/
theorem Indexed.registerService {d : MemoryServiceDiscovery} (h : Indexed d)
    (inst : ServiceInstance) (now : ℤ) : Indexed (d.registerService inst now).2.2 := by
  rw [MemoryServiceDiscovery.registerService]
  split
  · exact h
  · split
    · exact h
    · next hnew =>
      rw [Option.not_isSome_iff_eq_none] at hnew
      have hfree : ∀ s, inst.instanceId ∉ d.indexOf s := by
        intro s hmem
        obtain ⟨_, hi, -⟩ := (h s inst.instanceId).1 hmem
        rw [hnew] at hi
        cases hi
      simp only [if_neg (hfree _)]
      intro s id
      rw [indexOf_insert]
      simp only [UnorderedMap.lookup_insert_ite]
      by_cases hid : id = inst.instanceId
      · subst hid
        by_cases hs : s = inst.serviceId
        · subst hs
          simp
        · simp only [if_true, if_neg hs]
          refine ⟨fun hmem ↦ absurd hmem (hfree s), ?_⟩
          rintro ⟨_, hi, hs'⟩
          cases hi
          exact absurd hs'.symm hs
      · rw [if_neg hid, ← h s id]
        by_cases hs : s = inst.serviceId
        · subst hs
          simp [hid]
        · rw [if_neg hs]

theorem Indexed.deregisterService {d : MemoryServiceDiscovery} (h : Indexed d) (id : Bytes) :
    Indexed (d.deregisterService id).2 := by
  rw [MemoryServiceDiscovery.deregisterService]
  rcases hi : d.instances.lookup id with _ | inst
  · exact h
  · intro s id'
    simp only [indexOf, mem_eraseFromIndex, UnorderedMap.lookup_erase_ite]
    have hh := h s id'
    simp only [indexOf] at hh
    rw [hh]
    by_cases hid : id' = id
    · subst hid
      simp only [if_true, and_true]
      refine ⟨?_, fun ⟨_, he, _⟩ ↦ by cases he⟩
      rintro ⟨⟨inst', hi', hs⟩, hne⟩
      rw [hi, Option.some_inj] at hi'
      exact absurd (hi' ▸ hs).symm hne
    · simp [hid]

theorem Indexed.heartbeat {d : MemoryServiceDiscovery} (h : Indexed d) (id : Bytes) (now : ℤ) :
    Indexed (d.heartbeat id now).2 := by
  rw [MemoryServiceDiscovery.heartbeat]
  rcases hi : d.instances.lookup id with _ | inst
  · exact h
  · intro s id'
    have hh := h s id'
    simp only [indexOf, UnorderedMap.lookup_insert_ite] at hh ⊢
    rw [hh]
    by_cases hid : id' = id
    · subst hid
      simp [hi]
    · simp [hid]

theorem Indexed.cleanupExpiredInstances {d : MemoryServiceDiscovery} (h : Indexed d) (now : ℤ) :
    Indexed (d.cleanupExpiredInstances now) := by
  rw [MemoryServiceDiscovery.cleanupExpiredInstances]
  generalize d.expiredInstances now = ids
  induction ids generalizing d with
  | nil => exact h
  | cons id ids ih => exact ih (h.deregisterService id)

/-- **Discovery answers with instances of the service asked for.** -/
theorem Indexed.serviceId_of_mem_discoverServices {d : MemoryServiceDiscovery} (h : Indexed d)
    {s : Bytes} {inst : ServiceInstance} (hmem : inst ∈ d.discoverServices s) :
    inst.serviceId = s := by
  obtain ⟨id, hid, hlook⟩ := List.mem_filterMap.1 hmem
  obtain ⟨inst', hi, hs⟩ := (h s id).1 hid
  rw [hi, Option.filter_some] at hlook
  obtain ⟨-, hlook⟩ := Option.ite_none_right_eq_some.1 hlook
  obtain rfl := Option.some.inj hlook
  exact hs

end MemoryServiceDiscovery
end Discovery
end ChwellCore
