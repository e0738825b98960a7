import Mathlib.Data.List.Induction
import ChwellCore.Discovery.ServiceDiscovery

/-!
# The service index is exact

That the index of a service lists the stored instances of the service is `Indexed`.  A caller sees
more than that: `get_all_services` reads off the *keys* of `service_index_`, so there must be no
empty set in it; `discover_services` skips what is not alive, so everything stored must be; and it
answers with each instance once only if no id is listed twice.  `Exact` is all of this together, and
`exact_run` says that it holds after every run.

The operations take the time as an argument, so a run may read any clock, also one that goes back.
-/

set_option autoImplicit false

namespace ChwellCore
namespace Discovery
namespace MemoryServiceDiscovery

/-- `get_all_services`. -/
def getAllServices (d : MemoryServiceDiscovery) : List Bytes := d.serviceIndex.keys

/-- `is_alive`. -/
def isAlive (d : MemoryServiceDiscovery) (instanceId : Bytes) : Bool :=
  (d.instances.lookup instanceId).any ServiceInstance.isAlive

/-- The operations that change the two tables, each with the time it reads. -/
inductive Op
  | register (inst : ServiceInstance) (now : ℤ)
  | deregister (instanceId : Bytes)
  | heartbeat (instanceId : Bytes) (now : ℤ)
  | cleanup (now : ℤ)

/-- The registry after one operation. -/
def applyOp (d : MemoryServiceDiscovery) : Op → MemoryServiceDiscovery
  | .register inst now => (d.registerService inst now).2.2
  | .deregister id => (d.deregisterService id).2
  | .heartbeat id now => (d.heartbeat id now).2
  | .cleanup now => d.cleanupExpiredInstances now

/-- The registry after the operations `ops`. -/
def run (heartbeatTimeoutMs : ℤ) (ops : List Op) : MemoryServiceDiscovery :=
  ops.foldl applyOp (fresh heartbeatTimeoutMs)

/-- `inst` is stored, and it is an instance of the service `s`. -/
def Serves (d : MemoryServiceDiscovery) (s : Bytes) (inst : ServiceInstance) : Prop :=
  ∃ id, d.instances.lookup id = some inst ∧ inst.serviceId = s

/-- What the two tables are between operations. -/
structure Exact (d : MemoryServiceDiscovery) : Prop where
  indexed : Indexed d
  nodup : ∀ s, (d.indexOf s).Nodup
  ne_nil : ∀ s, d.serviceIndex.lookup s ≠ some []
  key_eq : ∀ id inst, d.instances.lookup id = some inst → inst.instanceId = id
  alive : ∀ id inst, d.instances.lookup id = some inst → inst.isAlive = true

/-! ## What an operation does to the tables -/

/-- **What `register_service` does**: nothing, or it stores an instance under an id that was free
and lists the id. -/
theorem registerService_cases {d : MemoryServiceDiscovery} (h : Indexed d) (inst : ServiceInstance)
    (now : ℤ) :
    (d.registerService inst now).2.2 = d ∨
      d.instances.lookup inst.instanceId = none ∧ inst.instanceId ∉ d.indexOf inst.serviceId ∧
        (d.registerService inst now).2.2 =
          { d with
            instances := d.instances.insert inst.instanceId
              { inst with registerTime := now, heartbeatTime := now, isAlive := true }
            serviceIndex := d.serviceIndex.insert inst.serviceId
              (d.indexOf inst.serviceId ++ [inst.instanceId]) } := by
  rw [registerService]
  split
  · exact .inl rfl
  · split
    · exact .inl rfl
    · next hnew =>
      rw [Option.not_isSome_iff_eq_none] at hnew
      have hfree : inst.instanceId ∉ d.indexOf inst.serviceId := by
        intro hmem
        obtain ⟨_, hi, -⟩ := (h _ _).1 hmem
        rw [hnew] at hi
        cases hi
      exact .inr ⟨hnew, hfree, by simp only [if_neg hfree]⟩

/-- The index without an id: each service has what was left of it, and none is left empty. -/
theorem lookup_eraseFromIndex {index : UnorderedMap Bytes (List Bytes)} {s s' id : Bytes}
    {ids : List Bytes} (h : (eraseFromIndex index s id).lookup s' = some ids) :
    ∃ ids', index.lookup s' = some ids' ∧
      (ids = ids' ∨ ids ≠ [] ∧ ids = ids'.filter fun i ↦ decide (i ≠ id)) := by
  rw [eraseFromIndex] at h
  rcases hs : index.lookup s with _ | rest
  · rw [hs] at h
    exact ⟨ids, h, .inl rfl⟩
  · simp only [hs] at h
    split at h
    · rw [UnorderedMap.lookup_erase_ite] at h
      obtain ⟨-, h⟩ := Option.ite_none_left_eq_some.1 h
      exact ⟨ids, h, .inl rfl⟩
    · next hne =>
      rw [UnorderedMap.lookup_insert_ite] at h
      split at h
      · next hss =>
        rw [Option.some_inj] at h
        rw [List.isEmpty_iff, h] at hne
        exact ⟨rest, by rw [hss, hs], .inr ⟨hne, h.symm⟩⟩
      · exact ⟨ids, h, .inl rfl⟩

theorem nodup_indexOf_iff {d : MemoryServiceDiscovery} {s : Bytes} :
    (d.indexOf s).Nodup ↔ ∀ ids, d.serviceIndex.lookup s = some ids → ids.Nodup := by
  rw [indexOf]
  rcases d.serviceIndex.lookup s with _ | ids <;> simp

theorem lookup_deregisterService (d : MemoryServiceDiscovery) (id id' : Bytes) :
    (d.deregisterService id).2.instances.lookup id' =
      if id' = id then none else d.instances.lookup id' := by
  rw [deregisterService]
  rcases hi : d.instances.lookup id with _ | inst
  · show d.instances.lookup id' = _
    split
    · next hid => rw [hid, hi]
    · rfl
  · exact UnorderedMap.lookup_erase_ite _ _ _

theorem timeout_deregisterService (d : MemoryServiceDiscovery) (id : Bytes) :
    (d.deregisterService id).2.heartbeatTimeoutMs = d.heartbeatTimeoutMs := by
  rw [deregisterService]
  rcases d.instances.lookup id with _ | inst <;> rfl

theorem lookup_heartbeat (d : MemoryServiceDiscovery) (id id' : Bytes) (now : ℤ) :
    (d.heartbeat id now).2.instances.lookup id' =
      if id' = id then
        (d.instances.lookup id).map fun inst ↦ { inst with heartbeatTime := now, isAlive := true }
      else d.instances.lookup id' := by
  rw [heartbeat]
  rcases hi : d.instances.lookup id with _ | inst
  · show d.instances.lookup id' = _
    split
    · next hid => rw [hid, hi, Option.map_none]
    · rfl
  · exact UnorderedMap.lookup_insert_ite _ _ _ _

theorem heartbeat_fst (d : MemoryServiceDiscovery) (id : Bytes) (now : ℤ) :
    (d.heartbeat id now).1 = (d.instances.lookup id).isSome := by
  rw [heartbeat]
  rcases d.instances.lookup id with _ | inst <;> rfl

theorem mem_expiredInstances {d : MemoryServiceDiscovery} {now : ℤ} {id : Bytes} :
    id ∈ d.expiredInstances now ↔
      ∃ inst, d.instances.lookup id = some inst ∧ inst.isAlive = true ∧
        d.heartbeatTimeoutMs < now - inst.heartbeatTime := by
  simp only [expiredInstances, List.mem_filterMap, Option.ite_none_right_eq_some,
    Bool.and_eq_true, decide_eq_true_eq, Option.some.injEq, UnorderedMap.lookup_eq_some_iff]
  constructor
  · rintro ⟨⟨_, inst⟩, hmem, hexp, rfl⟩
    exact ⟨inst, hmem, hexp⟩
  · rintro ⟨inst, hmem, hexp⟩
    exact ⟨⟨id, inst⟩, hmem, hexp, rfl⟩

theorem lookup_foldl_deregister (ids : List Bytes) (d : MemoryServiceDiscovery) (id : Bytes) :
    (ids.foldl (fun d id ↦ (d.deregisterService id).2) d).instances.lookup id =
      if id ∈ ids then none else d.instances.lookup id := by
  induction ids generalizing d with
  | nil => rfl
  | cons i ids ih =>
    rw [List.foldl_cons, ih, lookup_deregisterService]
    by_cases hid : id = i <;> by_cases hmem : id ∈ ids <;> simp [hid, hmem]

/-! ## The invariant -/

theorem exact_fresh (timeout : ℤ) : Exact (fresh timeout) where
  indexed := indexed_fresh timeout
  nodup _ := List.nodup_nil
  ne_nil _ h := Option.some_ne_none _ h.symm
  key_eq _ _ h := absurd h.symm (Option.some_ne_none _)
  alive _ _ h := absurd h.symm (Option.some_ne_none _)

theorem Exact.registerService {d : MemoryServiceDiscovery} (h : Exact d) (inst : ServiceInstance)
    (now : ℤ) : Exact (d.registerService inst now).2.2 := by
  have hindexed := h.indexed.registerService inst now
  rcases registerService_cases h.indexed inst now with heq | ⟨hnew, hfree, heq⟩
  · rwa [heq]
  · rw [heq] at hindexed ⊢
    refine ⟨hindexed, fun s ↦ ?_, fun s ↦ ?_, fun id i hi ↦ ?_, fun id i hi ↦ ?_⟩
    · rw [indexOf_insert]
      split
      · refine List.Nodup.append (h.nodup _) (List.nodup_singleton _) ?_
        rwa [List.disjoint_singleton]
      · exact h.nodup s
    · simp only [UnorderedMap.lookup_insert_ite]
      split
      · simp
      · exact h.ne_nil s
    · rw [UnorderedMap.lookup_insert_ite] at hi
      split at hi
      · next hid =>
        cases hi
        exact hid.symm
      · exact h.key_eq id i hi
    · rw [UnorderedMap.lookup_insert_ite] at hi
      split at hi
      · cases hi
        rfl
      · exact h.alive id i hi

theorem Exact.deregisterService {d : MemoryServiceDiscovery} (h : Exact d) (id : Bytes) :
    Exact (d.deregisterService id).2 := by
  have hstored : ∀ id' i, (d.deregisterService id).2.instances.lookup id' = some i →
      d.instances.lookup id' = some i := by
    intro id' i hi
    rw [lookup_deregisterService] at hi
    obtain ⟨-, hi⟩ := Option.ite_none_left_eq_some.1 hi
    exact hi
  have hlisted : ∀ s ids, (d.deregisterService id).2.serviceIndex.lookup s = some ids →
      ∃ ids', d.serviceIndex.lookup s = some ids' ∧
        (ids = ids' ∨ ids ≠ [] ∧ ids = ids'.filter fun i ↦ decide (i ≠ id)) := by
    intro s ids hs
    rw [MemoryServiceDiscovery.deregisterService] at hs
    rcases hi : d.instances.lookup id with _ | inst <;> rw [hi] at hs
    · exact ⟨ids, hs, .inl rfl⟩
    · exact lookup_eraseFromIndex hs
  refine ⟨h.indexed.deregisterService id, fun s ↦ nodup_indexOf_iff.2 fun ids hs ↦ ?_,
    fun s hs ↦ ?_, fun id' i hi ↦ h.key_eq id' i (hstored id' i hi),
    fun id' i hi ↦ h.alive id' i (hstored id' i hi)⟩
  · obtain ⟨ids', hs', rfl | ⟨-, rfl⟩⟩ := hlisted s ids hs
    · exact nodup_indexOf_iff.1 (h.nodup s) ids hs'
    · exact (nodup_indexOf_iff.1 (h.nodup s) ids' hs').filter _
  · obtain ⟨ids', hs', rfl | ⟨hne, -⟩⟩ := hlisted s [] hs
    · exact h.ne_nil s hs'
    · exact hne rfl

theorem Exact.heartbeat {d : MemoryServiceDiscovery} (h : Exact d) (id : Bytes) (now : ℤ) :
    Exact (d.heartbeat id now).2 := by
  have hindexed := h.indexed.heartbeat id now
  rw [MemoryServiceDiscovery.heartbeat] at hindexed ⊢
  rcases hi : d.instances.lookup id with _ | inst
  · exact h
  · rw [hi] at hindexed
    refine ⟨hindexed, h.nodup, h.ne_nil, fun id' i hi' ↦ ?_, fun id' i hi' ↦ ?_⟩
    · rw [UnorderedMap.lookup_insert_ite] at hi'
      split at hi'
      · next hid =>
        cases hi'
        rw [hid]
        exact h.key_eq id inst hi
      · exact h.key_eq id' i hi'
    · rw [UnorderedMap.lookup_insert_ite] at hi'
      split at hi'
      · cases hi'
        rfl
      · exact h.alive id' i hi'

theorem Exact.cleanupExpiredInstances {d : MemoryServiceDiscovery} (h : Exact d) (now : ℤ) :
    Exact (d.cleanupExpiredInstances now) := by
  rw [MemoryServiceDiscovery.cleanupExpiredInstances]
  generalize d.expiredInstances now = ids
  induction ids generalizing d with
  | nil => exact h
  | cons id ids ih => exact ih (h.deregisterService id)

theorem Exact.applyOp {d : MemoryServiceDiscovery} (h : Exact d) (op : Op) :
    Exact (d.applyOp op) := by
  rcases op with ⟨inst, now⟩ | id | ⟨id, now⟩ | now
  · exact h.registerService inst now
  · exact h.deregisterService id
  · exact h.heartbeat id now
  · exact h.cleanupExpiredInstances now

/-- **The two tables agree after every run.** -/
theorem exact_run (timeout : ℤ) (ops : List Op) : Exact (run timeout ops) := by
  rw [run]
  induction ops using List.reverseRecOn with
  | nil => exact exact_fresh timeout
  | append_singleton ops op ih =>
    rw [List.foldl_append]
    exact ih.applyOp op

theorem timeout_registerService (d : MemoryServiceDiscovery) (inst : ServiceInstance) (now : ℤ) :
    (d.registerService inst now).2.2.heartbeatTimeoutMs = d.heartbeatTimeoutMs := by
  rw [registerService]
  split
  · rfl
  · split <;> rfl

theorem timeout_heartbeat (d : MemoryServiceDiscovery) (id : Bytes) (now : ℤ) :
    (d.heartbeat id now).2.heartbeatTimeoutMs = d.heartbeatTimeoutMs := by
  rw [heartbeat]
  rcases d.instances.lookup id with _ | inst <;> rfl

theorem timeout_cleanupExpiredInstances (d : MemoryServiceDiscovery) (now : ℤ) :
    (d.cleanupExpiredInstances now).heartbeatTimeoutMs = d.heartbeatTimeoutMs := by
  rw [cleanupExpiredInstances]
  generalize d.expiredInstances now = ids
  induction ids generalizing d with
  | nil => rfl
  | cons id ids ih => rw [List.foldl_cons, ih, timeout_deregisterService]

theorem timeout_run (timeout : ℤ) (ops : List Op) :
    (run timeout ops).heartbeatTimeoutMs = timeout := by
  rw [run]
  induction ops using List.reverseRecOn with
  | nil => rfl
  | append_singleton ops op ih =>
    rw [List.foldl_append, List.foldl_cons, List.foldl_nil]
    refine Eq.trans ?_ ih
    rcases op with ⟨inst, now⟩ | id | ⟨id, now⟩ | now
    · exact timeout_registerService _ inst now
    · exact timeout_deregisterService _ id
    · exact timeout_heartbeat _ id now
    · exact timeout_cleanupExpiredInstances _ now

/-! ## What a caller sees -/

namespace Exact

variable {d : MemoryServiceDiscovery} (h : Exact d)

include h

/-- `discover_services` returns the stored instances of the service. -/
theorem mem_discoverServices {s : Bytes} {inst : ServiceInstance} :
    inst ∈ d.discoverServices s ↔ d.Serves s inst := by
  rw [discoverServices, List.mem_filterMap]
  constructor
  · rintro ⟨id, hid, hlook⟩
    rw [Option.filter_eq_some_iff] at hlook
    obtain ⟨inst', hinst', hs⟩ := (h.indexed s id).1 hid
    obtain rfl := Option.some.inj (hinst'.symm.trans hlook.1)
    exact ⟨id, hinst', hs⟩
  · rintro ⟨id, hlook, hs⟩
    refine ⟨id, (h.indexed s id).2 ⟨inst, hlook, hs⟩, ?_⟩
    rw [hlook, Option.filter_some, if_pos (h.alive id inst hlook)]

/-- And it returns each of them once: an instance tells the id that it is stored under. -/
theorem nodup_discoverServices (s : Bytes) : (d.discoverServices s).Nodup := by
  refine (h.nodup s).filterMap fun id id' inst hid hid' ↦ ?_
  rw [Option.mem_def, Option.filter_eq_some_iff] at hid hid'
  rw [← h.key_eq id inst hid.1, ← h.key_eq id' inst hid'.1]

/-- `get_all_services` lists the services that have an instance. -/
theorem mem_getAllServices {s : Bytes} : s ∈ d.getAllServices ↔ ∃ inst, d.Serves s inst := by
  rw [getAllServices, ← AList.mem_keys, ← AList.lookup_isSome]
  constructor
  · intro hs
    obtain ⟨ids, hids⟩ := Option.isSome_iff_exists.1 hs
    obtain ⟨id, hid⟩ := List.exists_mem_of_ne_nil ids fun hnil ↦ h.ne_nil s (hnil ▸ hids)
    obtain ⟨inst, hinst⟩ := (h.indexed s id).1 (by rwa [indexOf, hids])
    exact ⟨inst, id, hinst⟩
  · rintro ⟨inst, id, hinst⟩
    have hid := (h.indexed s id).2 ⟨inst, hinst⟩
    rw [indexOf] at hid
    rcases hs : d.serviceIndex.lookup s with _ | ids
    · rw [hs] at hid
      exact absurd hid List.not_mem_nil
    · rfl

/-- What `cleanup_expired_instances` leaves: what has not expired, as it was. -/
theorem lookup_cleanupExpiredInstances {now : ℤ} {id : Bytes} {inst : ServiceInstance} :
    (d.cleanupExpiredInstances now).instances.lookup id = some inst ↔
      d.instances.lookup id = some inst ∧ now - inst.heartbeatTime ≤ d.heartbeatTimeoutMs := by
  rw [MemoryServiceDiscovery.cleanupExpiredInstances, lookup_foldl_deregister]
  constructor
  · intro hlook
    obtain ⟨hmem, hlook⟩ := Option.ite_none_left_eq_some.1 hlook
    refine ⟨hlook, Int.not_lt.1 fun hexp ↦ hmem ?_⟩
    exact mem_expiredInstances.2 ⟨inst, hlook, h.alive id inst hlook, hexp⟩
  · rintro ⟨hlook, htime⟩
    rw [if_neg, hlook]
    intro hmem
    obtain ⟨inst', hlook', -, hexp⟩ := mem_expiredInstances.1 hmem
    obtain rfl := Option.some.inj (hlook.symm.trans hlook')
    exact absurd hexp (Int.not_lt.2 htime)

end Exact

/-- **The discovery index is exact.**  After every run at any times, the index of a service is the
set of ids of its stored instances, and none is empty; discovery returns each stored instance of a
service once, and nothing else; the services listed are those with a stored instance; and a cleanup
leaves exactly what has not expired, unchanged. -/
theorem discovery_exact (heartbeatTimeoutMs : ℤ) (ops : List Op) :
    (∀ s, ((run heartbeatTimeoutMs ops).indexOf s).Nodup ∧
        (∀ id, id ∈ (run heartbeatTimeoutMs ops).indexOf s ↔
          ∃ inst, (run heartbeatTimeoutMs ops).instances.lookup id = some inst ∧
            inst.instanceId = id ∧ inst.serviceId = s) ∧
        (run heartbeatTimeoutMs ops).serviceIndex.lookup s ≠ some []) ∧
      (∀ s, ((run heartbeatTimeoutMs ops).discoverServices s).Nodup ∧
        ∀ inst, inst ∈ (run heartbeatTimeoutMs ops).discoverServices s ↔
          (run heartbeatTimeoutMs ops).Serves s inst) ∧
      ((run heartbeatTimeoutMs ops).getAllServices.Nodup ∧
        ∀ s, s ∈ (run heartbeatTimeoutMs ops).getAllServices ↔
          ∃ inst, (run heartbeatTimeoutMs ops).Serves s inst) ∧
      ∀ now id inst,
        (run heartbeatTimeoutMs (ops ++ [.cleanup now])).instances.lookup id = some inst ↔
          (run heartbeatTimeoutMs ops).instances.lookup id = some inst ∧
            now - inst.heartbeatTime ≤ heartbeatTimeoutMs := by
  have h := exact_run heartbeatTimeoutMs ops
  refine ⟨fun s ↦ ⟨h.nodup s, fun id ↦ ?_, h.ne_nil s⟩,
    fun s ↦ ⟨h.nodup_discoverServices s, fun inst ↦ h.mem_discoverServices⟩,
    ⟨(run heartbeatTimeoutMs ops).serviceIndex.keys_nodup, fun s ↦ h.mem_getAllServices⟩,
    fun now id inst ↦ ?_⟩
  · rw [h.indexed s id]
    refine exists_congr fun inst ↦ ⟨fun ⟨hlook, hs⟩ ↦ ⟨hlook, h.key_eq id inst hlook, hs⟩, ?_⟩
    rintro ⟨hlook, -, hs⟩
    exact ⟨hlook, hs⟩
  · have hrun : run heartbeatTimeoutMs (ops ++ [.cleanup now]) =
        (run heartbeatTimeoutMs ops).cleanupExpiredInstances now := by
      rw [run, List.foldl_append]
      rfl
    rw [hrun, h.lookup_cleanupExpiredInstances, timeout_run]

end MemoryServiceDiscovery
end Discovery
end ChwellCore
