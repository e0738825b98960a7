import ChwellCore.Lib.SmoothWeights
import ChwellCore.LoadBalance.LoadBalancer

/-!
# Weighted round robin is exact

A call of `WeightedRoundRobinLoadBalancer::select_instance` is a round of smooth weighted round
robin: its candidates are the ids of the instances and its current weights are those in
`current_weights_`, where an id that has none counts as zero (`selectInstance_round`).  With
instances and weights fixed a sequence of calls is therefore a run of rounds, and over a period each
instance is picked just as often as its weight says (`select_exact`).

The search for the largest current weight starts from the least `int`.  That is below all of them,
because none is as low as minus the sum of the weights.
-/

set_option autoImplicit false

namespace ChwellCore
namespace LoadBalance

open Discovery SmoothWeights

namespace WeightedRoundRobinLoadBalancer

variable {lb : WeightedRoundRobinLoadBalancer} {insts : List ServiceInstance}
  {cw : UnorderedMap Bytes ℤ}

/-- `update_instances`. -/
def updateInstances (lb : WeightedRoundRobinLoadBalancer) (instances : List ServiceInstance) :
    WeightedRoundRobinLoadBalancer :=
  { lb with instances := instances, currentWeights := ∅ }

/-! ## One call -/

/-- The current weight of an instance, which is zero until it gets one. -/
def current (currentWeights : UnorderedMap Bytes ℤ) (instanceId : Bytes) : ℤ :=
  (currentWeights.lookup instanceId).getD 0

theorem current_insert (cw : UnorderedMap Bytes ℤ) (k id : Bytes) (x : ℤ) :
    current (cw.insert k x) id = if id = k then x else current cw id := by
  rw [current, UnorderedMap.lookup_insert_ite]
  split <;> rfl

/-- The first loop gives out zeros. -/
theorem current_initWeights (cw : UnorderedMap Bytes ℤ) (insts : List ServiceInstance)
    (id : Bytes) : current (initWeights cw insts) id = current cw id := by
  induction insts generalizing cw with
  | nil => rfl
  | cons inst insts ih =>
    rw [initWeights, List.foldl_cons]
    refine (ih _).trans ?_
    rcases hlook : cw.lookup inst.instanceId with _ | x
    · rw [Option.isSome_none, if_neg Bool.false_ne_true, current_insert]
      split
      · next heq => rw [heq, current, hlook, Option.getD_none]
      · rfl
    · rw [Option.isSome_some, if_pos rfl]

/-- What the second loop has done when it comes to the end of these instances. -/
structure Swept (lb : WeightedRoundRobinLoadBalancer) (cw : UnorderedMap Bytes ℤ)
    (insts : List ServiceInstance) (st : Sweep) : Prop where
  raised : ∀ id, current st.currentWeights id =
    current cw id + if id ∈ insts.map ServiceInstance.instanceId then lb.getWeight id else 0
  best : insts = [] ∧ st.maxCurrentWeight = -2 ^ 31 ∨ ∃ inst, insts[st.bestIndex]? = some inst ∧
    st.maxCurrentWeight = current cw inst.instanceId + lb.getWeight inst.instanceId
  le_max : ∀ inst ∈ insts,
    current cw inst.instanceId + lb.getWeight inst.instanceId ≤ st.maxCurrentWeight

theorem sweep_append (lb : WeightedRoundRobinLoadBalancer) (cw : UnorderedMap Bytes ℤ)
    (insts : List ServiceInstance) (inst : ServiceInstance) :
    lb.sweep cw (insts ++ [inst]) = lb.sweepStep (lb.sweep cw insts) (inst, insts.length) := by
  rw [sweep, List.zipIdx_append, List.foldl_append]
  simp only [Nat.zero_add, List.zipIdx_singleton, List.foldl_cons, List.foldl_nil]
  rfl

theorem sweepStep_eq {st : Sweep} {inst : ServiceInstance} {cur : ℤ}
    (hcur : current st.currentWeights inst.instanceId + lb.getWeight inst.instanceId = cur)
    (n : ℕ) : lb.sweepStep st (inst, n) =
      if st.maxCurrentWeight < cur then ⟨st.currentWeights.insert inst.instanceId cur, n, cur⟩
      else ⟨st.currentWeights.insert inst.instanceId cur, st.bestIndex, st.maxCurrentWeight⟩ := by
  rw [← hcur]
  rfl

/-- **The second loop** raises all current weights and finds a largest one. -/
theorem swept_sweep (hids : (insts.map ServiceInstance.instanceId).Nodup)
    (hlow : ∀ inst ∈ insts,
      -2 ^ 31 < current cw inst.instanceId + lb.getWeight inst.instanceId) :
    Swept lb cw insts (lb.sweep cw insts) := by
  induction insts using List.reverseRecOn with
  | nil => exact ⟨fun id ↦ by simp [sweep], .inl ⟨rfl, rfl⟩, fun _ h ↦ absurd h List.not_mem_nil⟩
  | append_singleton insts inst ih =>
    rw [List.map_append, List.map_singleton, List.nodup_append] at hids
    obtain ⟨hids, -, hnew⟩ := hids
    have hswept := ih hids fun i hi ↦ hlow i (List.mem_append_left _ hi)
    have hnotMem : inst.instanceId ∉ insts.map ServiceInstance.instanceId := fun hmem ↦
      hnew _ hmem _ (List.mem_singleton_self _) rfl
    rw [sweep_append]
    generalize lb.sweep cw insts = st at hswept ⊢
    have hcur : current st.currentWeights inst.instanceId = current cw inst.instanceId := by
      rw [hswept.raised, if_neg hnotMem, add_zero]
    have hraised : ∀ id, current (st.currentWeights.insert inst.instanceId
        (current cw inst.instanceId + lb.getWeight inst.instanceId)) id =
          current cw id +
            if id ∈ (insts ++ [inst]).map ServiceInstance.instanceId then lb.getWeight id
            else 0 := by
      intro id
      simp only [current_insert, List.map_append, List.map_singleton, List.mem_append,
        List.mem_singleton]
      by_cases heq : id = inst.instanceId
      · rw [if_pos heq, if_pos (.inr heq), heq]
      · rw [if_neg heq, hswept.raised]
        simp only [heq, or_false]
    rw [sweepStep_eq (congrArg (· + lb.getWeight inst.instanceId) hcur)]
    split
    · next hlt =>
      refine ⟨hraised, .inr ⟨inst, List.getElem?_concat_length, rfl⟩, fun i hi ↦ ?_⟩
      rcases List.mem_append.1 hi with hi | hi
      · exact (hswept.le_max i hi).trans hlt.le
      · rw [List.mem_singleton.1 hi]
    · next hle =>
      refine ⟨hraised, .inr ?_, fun i hi ↦ ?_⟩
      · rcases hswept.best with ⟨rfl, hmax⟩ | ⟨best, hget, hmax⟩
        · rw [hmax] at hle
          exact absurd (hlow inst List.mem_cons_self) hle
        · refine ⟨best, ?_, hmax⟩
          rw [List.getElem?_append_left (List.getElem?_eq_some_iff.1 hget).1]
          exact hget
      · rcases List.mem_append.1 hi with hi | hi
        · exact hswept.le_max i hi
        · rw [List.mem_singleton.1 hi]
          exact Int.not_lt.1 hle

/-- The ids of the instances. -/
def ids (insts : List ServiceInstance) : Finset Bytes :=
  (insts.map ServiceInstance.instanceId).toFinset

theorem mem_ids {id : Bytes} : id ∈ ids insts ↔ ∃ inst ∈ insts, inst.instanceId = id := by
  rw [ids, List.mem_toFinset, List.mem_map]

theorem sum_ids (hids : (insts.map ServiceInstance.instanceId).Nodup) (f : Bytes → ℤ) :
    ∑ id ∈ ids insts, f id = (insts.map fun inst ↦ f inst.instanceId).sum := by
  rw [ids, List.sum_toFinset f hids, List.map_map]
  rfl

/-- `total_weight`. -/
def totalWeight (lb : WeightedRoundRobinLoadBalancer) (insts : List ServiceInstance) : ℤ :=
  (insts.map fun inst ↦ lb.getWeight inst.instanceId).sum

/-- At least two instances with ids of their own, and weights that are not negative and have a sum
that is positive and an `int`. -/
structure Weighted (lb : WeightedRoundRobinLoadBalancer) (insts : List ServiceInstance) :
    Prop where
  two_le : 2 ≤ insts.length
  nodup : (insts.map ServiceInstance.instanceId).Nodup
  nonneg : ∀ inst ∈ insts, 0 ≤ lb.getWeight inst.instanceId
  pos : 0 < lb.totalWeight insts
  fits : lb.totalWeight insts ≤ 2147483647

theorem Weighted.nonneg_ids (h : lb.Weighted insts) : ∀ id ∈ ids insts, 0 ≤ lb.getWeight id := by
  intro id hid
  obtain ⟨inst, hinst, rfl⟩ := mem_ids.1 hid
  exact h.nonneg inst hinst

theorem Weighted.sum_eq (h : lb.Weighted insts) :
    ∑ id ∈ ids insts, lb.getWeight id = lb.totalWeight insts :=
  sum_ids h.nodup lb.getWeight

/-- **A call is a round.** -/
theorem selectInstance_round (h : lb.Weighted insts) {fetched : List ServiceInstance}
    (hinsts : refill lb.instances (sortById fetched) = insts)
    (hc : Balanced (ids insts) lb.getWeight (current lb.currentWeights)) :
    ∃ inst ∈ insts, (lb.selectInstance fetched).1 = some inst ∧
      (lb.selectInstance fetched).2.instances = insts ∧
      (lb.selectInstance fetched).2.weights = lb.weights ∧
      Round (ids insts) lb.getWeight (current lb.currentWeights) inst.instanceId
        (current (lb.selectInstance fetched).2.currentWeights) := by
  have htwo := h.two_le
  obtain ⟨st, hst, hswept⟩ : ∃ st, lb.sweep (initWeights lb.currentWeights insts) insts = st ∧
      Swept lb (initWeights lb.currentWeights insts) insts st := by
    refine ⟨_, rfl, swept_sweep h.nodup fun inst hinst ↦ ?_⟩
    have hlt := hc.lt _ (mem_ids.2 ⟨inst, hinst, rfl⟩)
    rw [h.sum_eq] at hlt
    have hnonneg := h.nonneg inst hinst
    have hfits := h.fits
    rw [current_initWeights]
    omega
  rcases hswept.best with ⟨rfl, -⟩ | ⟨inst, hget, hmax⟩
  · cases htwo
  have hinst := List.mem_of_getElem? hget
  have hselect : lb.selectInstance fetched = (some inst, { lb with
      instances := insts
      currentWeights := st.currentWeights.insert inst.instanceId
        (current st.currentWeights inst.instanceId - lb.totalWeight insts) }) := by
    have hempty : insts.isEmpty = false := by
      rw [List.isEmpty_eq_false_iff]
      rintro rfl
      cases htwo
    have hpos : ¬ (insts.map fun inst ↦ lb.getWeight inst.instanceId).sum ≤ 0 :=
      Int.not_le.2 h.pos
    rw [selectInstance, hinsts]
    dsimp only
    rw [hempty, if_neg Bool.false_ne_true, if_neg (by omega), if_neg hpos, hst, hget]
    rfl
  rw [hselect]
  refine ⟨inst, hinst, rfl, rfl, rfl, mem_ids.2 ⟨inst, hinst, rfl⟩, fun id hid ↦ ?_,
    fun id hid ↦ ?_⟩
  · obtain ⟨inst', hinst', rfl⟩ := mem_ids.1 hid
    have hle := hswept.le_max inst' hinst'
    rw [hmax, current_initWeights, current_initWeights] at hle
    exact hle
  · have hmem : ∀ id ∈ ids insts, id ∈ insts.map ServiceInstance.instanceId := fun _ ↦
      List.mem_toFinset.1
    rw [current_insert, h.sum_eq]
    split
    · next heq => rw [hswept.raised, if_pos (hmem _ (heq ▸ hid)), current_initWeights, heq]
    · rw [hswept.raised, if_pos (hmem id hid), current_initWeights, sub_zero]

/-! ## Calls one after another -/

/-- What holds of a balancer after any calls: it has the same instances, at the latest when the
registry is asked again, and the same weights, and its current weights are balanced. -/
structure Steady (lb : WeightedRoundRobinLoadBalancer) (insts fetched : List ServiceInstance)
    (lb' : WeightedRoundRobinLoadBalancer) : Prop where
  refill_eq : refill lb'.instances (sortById fetched) = insts
  weights_eq : lb'.weights = lb.weights
  balanced : Balanced (ids insts) lb.getWeight (current lb'.currentWeights)

/-- **One more call.** -/
theorem Steady.call {fetched : List ServiceInstance} {lb' : WeightedRoundRobinLoadBalancer}
    (h : lb.Weighted insts) (hs : lb.Steady insts fetched lb') :
    ∃ inst ∈ insts, (lb'.selectInstance fetched).1 = some inst ∧
      Round (ids insts) lb.getWeight (current lb'.currentWeights) inst.instanceId
        (current (lb'.selectInstance fetched).2.currentWeights) ∧
      ∀ fetched', lb.Steady insts fetched' (lb'.selectInstance fetched).2 := by
  have hget : lb'.getWeight = lb.getWeight := by
    funext id
    rw [getWeight, hs.weights_eq]
    rfl
  have h' : lb'.Weighted insts := by
    refine ⟨h.two_le, h.nodup, ?_, ?_, ?_⟩
    · rw [hget]
      exact h.nonneg
    · rw [totalWeight, hget]
      exact h.pos
    · rw [totalWeight, hget]
      exact h.fits
  obtain ⟨inst, hinst, hpick, hinstances, hweights, hround⟩ :=
    selectInstance_round h' hs.refill_eq (hget ▸ hs.balanced)
  rw [hget] at hround
  refine ⟨inst, hinst, hpick, hround, fun fetched' ↦ ⟨?_, hweights.trans hs.weights_eq,
    hs.balanced.round h.nonneg_ids (h.sum_eq ▸ h.pos) hround⟩⟩
  rw [hinstances, refill, if_neg]
  rw [List.isEmpty_iff]
  rintro rfl
  cases hinst

/-- The balancer after `n` calls, where the registry would answer `fetched i` in call `i`. -/
def after (lb : WeightedRoundRobinLoadBalancer) (fetched : ℕ → List ServiceInstance) :
    ℕ → WeightedRoundRobinLoadBalancer
  | 0 => lb
  | n + 1 => ((after lb fetched n).selectInstance (fetched n)).2

/-- What call `n` picks, counted from zero. -/
def picked (lb : WeightedRoundRobinLoadBalancer) (fetched : ℕ → List ServiceInstance) (n : ℕ) :
    Option ServiceInstance :=
  ((lb.after fetched n).selectInstance (fetched n)).1

/-- The id of what call `n` picks. -/
def pickedId (lb : WeightedRoundRobinLoadBalancer) (fetched : ℕ → List ServiceInstance) (n : ℕ) :
    Bytes :=
  ((lb.picked fetched n).map ServiceInstance.instanceId).getD []

section Calls

variable {fetched : ℕ → List ServiceInstance} (h : lb.Weighted insts)
  (hinsts : refill lb.instances (sortById (fetched 0)) = insts) (hempty : lb.currentWeights = ∅)

include h hinsts hempty

theorem steady_after (n : ℕ) : lb.Steady insts (fetched n) (lb.after fetched n) := by
  induction n with
  | zero =>
    refine ⟨hinsts, rfl, balanced_of_zero (h.sum_eq ▸ h.pos) fun id _ ↦ ?_⟩
    rw [after, hempty]
    rfl
  | succ n ih =>
    obtain ⟨inst, -, -, -, hsteady⟩ := ih.call h
    exact hsteady (fetched (n + 1))

/-- Calls are rounds. -/
theorem run_after (k n : ℕ) :
    (rounds (ids insts) lb.getWeight).Run (current (lb.after fetched k).currentWeights)
      ((List.range n).map fun j ↦ lb.pickedId fetched (k + j))
      (current (lb.after fetched (k + n)).currentWeights) := by
  induction n with
  | zero => exact .nil
  | succ n ih =>
    rw [List.range_succ, List.map_append, List.map_singleton]
    obtain ⟨inst, -, hpick, hround, -⟩ := (steady_after h hinsts hempty (k + n)).call h
    have hid : lb.pickedId fetched (k + n) = inst.instanceId := by
      rw [pickedId, picked, hpick]
      rfl
    rw [hid]
    exact ih.snoc hround

/-- How often an id is picked is how often the instance with that id is. -/
theorem count_pickedId (k n : ℕ) {inst : ServiceInstance} (hinst : inst ∈ insts) :
    ((List.range n).map fun j ↦ lb.pickedId fetched (k + j)).count inst.instanceId =
      (List.range n).countP fun j ↦ decide (lb.picked fetched (k + j) = some inst) := by
  rw [List.count_eq_countP, List.countP_map]
  refine List.countP_congr fun j _ ↦ ?_
  obtain ⟨inst', hinst', hpick, -⟩ := (steady_after h hinsts hempty (k + j)).call h
  have hid : lb.pickedId fetched (k + j) = inst'.instanceId := by
    rw [pickedId, picked, hpick]
    rfl
  have hpick : lb.picked fetched (k + j) = some inst' := hpick
  rw [Function.comp_apply, hid, hpick, beq_iff_eq, decide_eq_true_eq, Option.some_inj]
  constructor
  · exact List.inj_on_of_nodup_map h.nodup hinst' hinst
  · exact congrArg _

/-- The current weights are all zero after every period. -/
theorem current_period (k : ℕ) : ∀ id ∈ ids insts,
    current (lb.after fetched (k * (lb.totalWeight insts).toNat)).currentWeights id = 0 := by
  have hpos := h.pos
  induction k with
  | zero =>
    intro id _
    rw [Nat.zero_mul, after, hempty]
    rfl
  | succ k ih =>
    rw [Nat.succ_mul]
    intro id hid
    refine (count_eq h.nonneg_ids (h.sum_eq ▸ hpos) ih (run_after h hinsts hempty _ _) ?_ id hid).2
    rw [List.length_map, List.length_range, h.sum_eq]
    omega

end Calls

/-- **Smooth weighted round robin is exact.**  For instances and weights as in `Weighted`, no
current weights at first, and whatever the registry would answer later: before every call the
current weights have sum zero and each is greater than minus the sum of the weights; every call
picks one of the instances; and over every period, which has as many calls as the sum of the
weights, each instance is picked just as often as its weight says, and the current weights are all
zero at its ends. -/
theorem select_exact (h : lb.Weighted insts) {fetched : ℕ → List ServiceInstance}
    (hinsts : refill lb.instances (sortById (fetched 0)) = insts) (hempty : lb.currentWeights = ∅) :
    (∀ n, (insts.map fun inst ↦
          current (lb.after fetched n).currentWeights inst.instanceId).sum = 0 ∧
        (∀ inst ∈ insts, -lb.totalWeight insts <
          current (lb.after fetched n).currentWeights inst.instanceId) ∧
        ∃ inst ∈ insts, lb.picked fetched n = some inst) ∧
      ∀ k, ∀ inst ∈ insts,
        ((List.range (lb.totalWeight insts).toNat).countP fun j ↦
            decide (lb.picked fetched (k * (lb.totalWeight insts).toNat + j) = some inst) : ℤ) =
          lb.getWeight inst.instanceId ∧
        current (lb.after fetched (k * (lb.totalWeight insts).toNat)).currentWeights
          inst.instanceId = 0 := by
  have hpos := h.pos
  constructor
  · intro n
    have hsteady := steady_after h hinsts hempty n
    obtain ⟨inst, hinst, hpick, -⟩ := hsteady.call h
    refine ⟨?_, fun inst hinst ↦ ?_, inst, hinst, hpick⟩
    · rw [← sum_ids h.nodup]
      exact hsteady.balanced.sum_eq_zero
    · rw [← h.sum_eq]
      exact hsteady.balanced.lt _ (mem_ids.2 ⟨inst, hinst, rfl⟩)
  · intro k inst hinst
    have hid : inst.instanceId ∈ ids insts := mem_ids.2 ⟨inst, hinst, rfl⟩
    have hzero := current_period h hinsts hempty k
    refine ⟨?_, hzero _ hid⟩
    rw [← count_pickedId h hinsts hempty _ _ hinst]
    have hrun := run_after h hinsts hempty (k * (lb.totalWeight insts).toNat)
      (lb.totalWeight insts).toNat
    refine (count_eq h.nonneg_ids (h.sum_eq ▸ hpos) hzero hrun ?_ _ hid).1
    rw [List.length_map, List.length_range, h.sum_eq]
    omega

/-- Three servers. -/
def threeServers : List ServiceInstance :=
  [World.server "game" "a", World.server "game" "b", World.server "game" "c"]

/-- A balancer for them, where `a` has weight 3 and `c` none. -/
def threeWeights : WeightedRoundRobinLoadBalancer :=
  ((⟨[], ∅, ∅⟩ : WeightedRoundRobinLoadBalancer).setWeight (lit "a") 3).setWeight (lit "c") 0
    |>.updateInstances threeServers

theorem select_exact_three :
    (∃ inst ∈ threeServers, threeWeights.picked (fun _ ↦ []) 0 = some inst) ∧
      ∀ k, ∀ inst ∈ threeServers,
        ((List.range (threeWeights.totalWeight threeServers).toNat).countP fun j ↦ decide
            (threeWeights.picked (fun _ ↦ [])
              (k * (threeWeights.totalWeight threeServers).toNat + j) = some inst) : ℤ) =
          threeWeights.getWeight inst.instanceId ∧
        current (threeWeights.after (fun _ ↦ [])
          (k * (threeWeights.totalWeight threeServers).toNat)).currentWeights
            inst.instanceId = 0 := by
  have hexact := @select_exact threeWeights threeServers
    ⟨by decide, by decide, by decide, by decide, by decide⟩ (fun _ ↦ []) rfl rfl
  exact ⟨(hexact.1 0).2.2, hexact.2⟩

example : (List.range 4).map (threeWeights.pickedId fun _ ↦ []) =
    [lit "a", lit "a", lit "b", lit "a"] := by decide

end WeightedRoundRobinLoadBalancer
end LoadBalance
end ChwellCore
