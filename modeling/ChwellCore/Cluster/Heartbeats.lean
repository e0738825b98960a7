import ChwellCore.Cluster.Node

/-!
# What heartbeats do for a node

An entry belongs to a node that is up (`listed_up`), so a node that has been stopped is not found
any more.  The way back is not as short: a running node can be missing, because the cleanup takes
out what has not been heard of for long enough.  If no two nodes have the same id, that is the only
way in which a running node is not found (`always_found_iff`), and by the third step of its
heartbeat thread it is found again (`found_again`).
-/

set_option autoImplicit false

namespace ChwellCore
namespace Cluster

open Discovery (MemoryServiceDiscovery ServiceInstance)

/-! ## What a node can be doing -/

namespace Node

/-- The node may have an entry. -/
def Up (p : Node) : Prop := p.running = true ∨ p.owner ≠ .idle

/-- The node should have an entry: it has been registered, and has not been told to stop. -/
def Serving (p : Node) : Prop := p.running = true ∨ p.owner = .starting

instance (p : Node) : Decidable p.Up := inferInstanceAs (Decidable (_ ∨ _))

instance (p : Node) : Decidable p.Serving := inferInstanceAs (Decidable (_ ∨ _))

/-- What one of the two threads does when the other is where it is.  A node that has registered
itself has an id. -/
def Tidy (p : Node) : Prop :=
  match p.owner with
  | .idle =>
    p.running = false ∧ p.thread = .absent ∨
      p.running = true ∧ p.thread ≠ .absent ∧ p.thread ≠ .finished ∧ p.config.nodeId ≠ []
  | .starting => p.running = false ∧ p.thread = .absent ∧ p.config.nodeId ≠ []
  | .joining => p.running = false ∧ p.thread ≠ .absent
  | .deregistering => p.running = false ∧ p.thread = .absent

variable {p : Node}

theorem Tidy.up_of_thread (h : p.Tidy) (hthread : p.thread ≠ .absent) : p.Up := by
  rw [Tidy] at h
  rw [Up]
  cases howner : p.owner with
  | idle =>
    rw [howner] at h
    exact .inl (h.resolve_left fun h ↦ hthread h.2).1
  | _ => exact .inr (by simp)

theorem Tidy.nodeId_ne_nil (h : p.Tidy) (hs : p.Serving) : p.config.nodeId ≠ [] := by
  rw [Tidy] at h
  rcases hs with hrun | howner
  · cases howner : p.owner <;> simp_all
  · rw [howner] at h
    exact h.2.2

end Node

/-! ## What the discovery stores -/

namespace NodeGroup

variable {s t : NodeGroup} {a : NodeAct} {acts : List NodeAct} {configs : List NodeConfig}
  {timeout now : ℤ}

/-- **What it does to register a node.** -/
theorem registered_cases (s : NodeGroup) (c : NodeConfig) :
    ((s.registered c).1 = false ∧ (s.registered c).2 = s.discovery ∧
        (c.nodeId = [] ∨ (s.discovery.instances.lookup c.nodeId).isSome)) ∨
      ((s.registered c).1 = true ∧ c.nodeId ≠ [] ∧ s.discovery.instances.lookup c.nodeId = none ∧
        ∃ inst, c.Owns inst ∧ ∀ id, (s.registered c).2.instances.lookup id =
          if id = c.nodeId then some inst else s.discovery.instances.lookup id) := by
  simp only [registered, MemoryServiceDiscovery.registerService]
  by_cases hid : c.nodeId = []
  · exact .inl ⟨by simp [NodeConfig.instance, hid], by simp [NodeConfig.instance, hid], .inl hid⟩
  · by_cases hfree : (s.discovery.instances.lookup c.nodeId).isSome
    · exact .inl ⟨by simp [NodeConfig.instance, hid, hfree],
        by simp [NodeConfig.instance, hid, hfree], .inr hfree⟩
    · refine .inr ⟨by simp [NodeConfig.instance, hid, hfree], hid,
        Option.not_isSome_iff_eq_none.1 hfree,
        { c.instance with registerTime := s.now, heartbeatTime := s.now, isAlive := true },
        ⟨rfl, rfl, rfl, rfl, rfl⟩, fun id ↦ ?_⟩
      simp only [NodeConfig.instance, hid, hfree, if_false, Bool.false_eq_true]
      exact UnorderedMap.lookup_insert_ite _ _ _ _

/-- What holds between steps.  Every entry is that of a node that is up. -/
structure Sound (configs : List NodeConfig) (s : NodeGroup) : Prop where
  configs : s.nodes.map Node.config = configs
  exact : s.discovery.Exact
  tidy : ∀ (i : ℕ) (p : Node), s.nodes[i]? = some p → p.Tidy
  owned : ∀ id inst, s.discovery.instances.lookup id = some inst →
    ∃ p ∈ s.nodes, p.Up ∧ p.config.Owns inst

theorem sound_init (configs : List NodeConfig) (timeout now : ℤ) :
    Sound configs (init configs timeout now) where
  configs := by simp [init, Function.comp_def]
  exact := MemoryServiceDiscovery.exact_fresh timeout
  tidy i p hp := by
    obtain ⟨c, -, rfl⟩ := List.mem_map.1 (List.mem_of_getElem? hp)
    exact .inl ⟨rfl, rfl⟩
  owned id inst hlook := absurd hlook.symm (Option.some_ne_none _)

theorem registered_of_failed {c : NodeConfig} (h : (s.registered c).1 = false) :
    (s.registered c).2 = s.discovery := by
  rcases registered_cases s c with ⟨-, hsame, -⟩ | ⟨htrue, -⟩
  · exact hsame
  · rw [h] at htrue
    cases htrue

theorem nodeId_ne_nil_of_registered {c : NodeConfig} (h : (s.registered c).1 = true) :
    c.nodeId ≠ [] := by
  rcases registered_cases s c with ⟨hfalse, -⟩ | ⟨-, hid, -⟩
  · rw [h] at hfalse
    cases hfalse
  · exact hid

/-- An entry that is there after a registration was there before, or is that of the node. -/
theorem of_lookup_registered {c : NodeConfig} {id : Bytes} {inst : ServiceInstance}
    (h : (s.registered c).2.instances.lookup id = some inst) :
    s.discovery.instances.lookup id = some inst ∨ c.Owns inst := by
  rcases registered_cases s c with ⟨-, hsame, -⟩ | ⟨-, -, -, new, hown, hlookup⟩
  · exact .inl (hsame ▸ h)
  · rw [hlookup] at h
    split at h
    · exact .inr (Option.some.inj h ▸ hown)
    · exact .inl h

theorem Sound.exact_registered (h : Sound configs s) (c : NodeConfig) :
    (s.registered c).2.Exact :=
  h.exact.registerService c.instance s.now

/-- A node moves on and keeps its configuration.  An entry that is its own then, or that was there
before and was not its own when it goes down, has an owner. -/
theorem Sound.put (h : Sound configs s) {i : ℕ} {p q : Node} (hi : s.nodes[i]? = some p)
    (hconfig : q.config = p.config) (htidy : q.Tidy) {d : MemoryServiceDiscovery} (hexact : d.Exact)
    (howned : ∀ id inst, d.instances.lookup id = some inst →
      (∃ old, s.discovery.instances.lookup id = some old ∧
        (∀ c : NodeConfig, c.Owns old → c.Owns inst) ∧ (p.config.Owns old → p.Up → q.Up)) ∨
      q.Up ∧ q.config.Owns inst) :
    Sound configs ({ s with discovery := d }.put i q) where
  configs := (Pool.map_put hi hconfig).trans h.configs
  exact := hexact
  tidy := Pool.forall_put (fun j p _ ↦ h.tidy j p) htidy
  owned id inst hlook := by
    rcases howned id inst hlook with ⟨old, hold, hkeep, hup⟩ | ⟨hq, hown⟩
    · obtain ⟨r, hr, hrup, hrown⟩ := h.owned id old hold
      obtain ⟨r, hr, hrup, hrown⟩ := Pool.exists_mem_put (P := fun r ↦ r.Up ∧ r.config.Owns old) hi
        (fun hp ↦ ⟨hup hp.2 hp.1, hconfig ▸ hp.2⟩) ⟨r, hr, hrup, hrown⟩
      exact ⟨r, hr, hrup, hkeep _ hrown⟩
    · exact ⟨q, List.mem_of_getElem? (Pool.getElem?_put_self hi q), hq, hown⟩

theorem sound_step (h : Sound configs s) (hs : step s a = some t) : Sound configs t := by
  cases step_cases hs with
  | @start i p hi hidle hrun hreg =>
    refine h.put hi (by rfl) ?_ (h.exact_registered p.config) fun k inst hlook ↦ ?_
    · have htidy := h.tidy i p hi
      rw [Node.Tidy, hidle] at htidy
      rcases htidy with ⟨-, hthread⟩ | ⟨hrun', -⟩
      · exact ⟨hrun, hthread, nodeId_ne_nil_of_registered hreg⟩
      · rw [hrun] at hrun'
        cases hrun'
    · rcases of_lookup_registered hlook with hold | hown
      · exact .inl ⟨inst, hold, fun _ ↦ id, fun _ _ ↦ .inr (by simp)⟩
      · exact .inr ⟨.inr (by simp), hown⟩
  | startAgain => exact h
  | @startFailed i p hi hreg =>
    rw [registered_of_failed hreg]
    exact h
  | @launch i p hi howner =>
    have htidy := h.tidy i p hi
    rw [Node.Tidy, howner] at htidy
    refine h.put hi (by rfl) ?_ h.exact fun k inst hlook ↦ ?_
    · exact .inr ⟨rfl, by simp, by simp, htidy.2.2⟩
    · exact .inl ⟨inst, hlook, fun _ ↦ id, fun _ _ ↦ .inl rfl⟩
  | @wake i p hi hthread =>
    have htidy := h.tidy i p hi
    refine h.put hi (by rfl) ?_ h.exact fun k inst hlook ↦ ?_
    · simp only [Node.Tidy, hthread] at htidy ⊢
      cases howner : p.owner <;> cases hrun : p.running <;> simp_all
    · exact .inl ⟨inst, hlook, fun _ ↦ id, fun _ ↦ id⟩
  | @beat i p hi hthread =>
    have htidy := h.tidy i p hi
    refine h.put hi (by rfl) ?_ (h.exact.heartbeat _ _) fun k inst hlook ↦ ?_
    · simp only [Node.Tidy, hthread] at htidy ⊢
      cases howner : p.owner <;> simp_all <;> split <;> simp
    · rw [MemoryServiceDiscovery.lookup_heartbeat] at hlook
      split at hlook
      · next hid =>
        obtain ⟨old, hold, rfl⟩ := Option.map_eq_some_iff.1 hlook
        exact .inl ⟨old, hid ▸ hold, fun _ ↦ id, fun _ ↦ id⟩
      · exact .inl ⟨inst, hlook, fun _ ↦ id, fun _ ↦ id⟩
  | @register i p hi hthread =>
    have htidy := h.tidy i p hi
    have hup := htidy.up_of_thread (by rw [hthread]; simp)
    refine h.put hi (by rfl) ?_ (h.exact_registered p.config) fun k inst hlook ↦ ?_
    · simp only [Node.Tidy, hthread] at htidy ⊢
      cases howner : p.owner <;> simp_all
    · rcases of_lookup_registered hlook with hold | hown
      · exact .inl ⟨inst, hold, fun _ ↦ id, fun _ ↦ id⟩
      · exact .inr ⟨hup, hown⟩
  | @stop i p hi hidle hrun =>
    have htidy := h.tidy i p hi
    refine h.put hi (by rfl) ?_ h.exact fun k inst hlook ↦ ?_
    · simp only [Node.Tidy, hidle, hrun] at htidy
      exact ⟨rfl, (htidy.resolve_left fun h ↦ absurd h.1.symm Bool.false_ne_true).2.1⟩
    · exact .inl ⟨inst, hlook, fun _ ↦ id, fun _ _ ↦ .inr (by simp)⟩
  | stopAgain => exact h
  | @join i p hi hjoin hfin =>
    have htidy := h.tidy i p hi
    refine h.put hi (by rfl) ?_ h.exact fun k inst hlook ↦ ?_
    · rw [Node.Tidy, hjoin] at htidy
      exact ⟨htidy.1, rfl⟩
    · exact .inl ⟨inst, hlook, fun _ ↦ id, fun _ _ ↦ .inr (by simp)⟩
  | @deregister i p hi howner =>
    have htidy := h.tidy i p hi
    refine h.put hi (by rfl) ?_ (h.exact.deregisterService _) fun k inst hlook ↦ ?_
    · rw [Node.Tidy, howner] at htidy
      exact .inl htidy
    · rw [MemoryServiceDiscovery.lookup_deregisterService] at hlook
      obtain ⟨hid, hold⟩ := Option.ite_none_left_eq_some.1 hlook
      exact .inl ⟨inst, hold, fun _ ↦ id, fun hown _ ↦
        absurd ((h.exact.key_eq k inst hold).symm.trans hown.2.1) hid⟩
  | cleanup =>
    exact ⟨h.configs, h.exact.cleanupExpiredInstances _, h.tidy, fun k inst hlook ↦
      h.owned k inst (h.exact.lookup_cleanupExpiredInstances.1 hlook).1⟩
  | tick => exact ⟨h.configs, h.exact, h.tidy, h.owned⟩

theorem sound_run (hrun : system.Run (init configs timeout now) acts s) : Sound configs s :=
  hrun.invariant (fun _ _ _ ↦ sound_step) (sound_init configs timeout now)

/-! ## A node that is down is not found -/

/-- No two nodes have the same id. -/
def Distinct (configs : List NodeConfig) : Prop := (configs.map NodeConfig.nodeId).Nodup

instance (configs : List NodeConfig) : Decidable (Distinct configs) :=
  inferInstanceAs (Decidable (List.Nodup _))

theorem Sound.eq_of_nodeId (h : Sound configs s) (hd : Distinct configs) {i j : ℕ} {p q : Node}
    (hi : s.nodes[i]? = some p) (hj : s.nodes[j]? = some q)
    (hid : p.config.nodeId = q.config.nodeId) : i = j := by
  rw [Distinct, ← h.configs, List.map_map] at hd
  have hp : (s.nodes.map (NodeConfig.nodeId ∘ Node.config))[i]? = some p.config.nodeId := by
    simp [hi]
  have hq : (s.nodes.map (NodeConfig.nodeId ∘ Node.config))[j]? = some p.config.nodeId := by
    simp [hj, hid]
  obtain ⟨hlt, hget⟩ := List.getElem?_eq_some_iff.1 hp
  obtain ⟨hlt', hget'⟩ := List.getElem?_eq_some_iff.1 hq
  exact hd.getElem_inj_iff.1 (hget.trans hget'.symm)

/-- **What is found is up.**  In every run, each instance that `discover_services` returns is that
of a node of the type asked for that has been started and not stopped; and a node that is down is
not found under its id, unless another node has the same one. -/
theorem listed_up (hrun : system.Run (init configs timeout now) acts s) :
    (∀ nodeType, ∀ inst ∈ s.discovery.discoverServices nodeType,
      ∃ p ∈ s.nodes, p.Up ∧ p.config.nodeType = nodeType ∧ p.config.Owns inst) ∧
      (Distinct configs → ∀ p ∈ s.nodes, ¬ p.Up →
        ∀ nodeType, ∀ inst ∈ s.discovery.discoverServices nodeType,
          inst.instanceId ≠ p.config.nodeId) := by
  have h := sound_run hrun
  have hfound : ∀ nodeType, ∀ inst ∈ s.discovery.discoverServices nodeType,
      ∃ p ∈ s.nodes, p.Up ∧ p.config.nodeType = nodeType ∧ p.config.Owns inst := by
    intro nodeType inst hmem
    obtain ⟨id, hlook, hservice⟩ := h.exact.mem_discoverServices.1 hmem
    obtain ⟨p, hp, hup, hown⟩ := h.owned id inst hlook
    exact ⟨p, hp, hup, hown.1.symm.trans hservice, hown⟩
  refine ⟨hfound, fun hd p hp hdown nodeType inst hmem hid ↦ ?_⟩
  obtain ⟨q, hq, hup, -, hown⟩ := hfound nodeType inst hmem
  obtain ⟨i, hi⟩ := List.mem_iff_getElem?.1 hp
  obtain ⟨j, hj⟩ := List.mem_iff_getElem?.1 hq
  obtain rfl := h.eq_of_nodeId hd hi hj (hid.symm.trans hown.2.1)
  obtain rfl := Option.some.inj (hi.symm.trans hj)
  exact hdown hup

/-! ## When a running node is found -/

/-- `discover_services` returns the entry of the node. -/
def Found (s : NodeGroup) (p : Node) : Prop :=
  ∃ inst ∈ s.discovery.discoverServices p.config.nodeType, p.config.Owns inst

/-- Every node is found that should be. -/
def AllFound (s : NodeGroup) : Prop :=
  ∀ (i : ℕ) (p : Node), s.nodes[i]? = some p → p.Serving → s.Found p

/-- A cleanup finds no node overdue that should have an entry. -/
def InTime (s : NodeGroup) (a : NodeAct) : Prop :=
  a = .cleanup → ∀ (i : ℕ) (p : Node), s.nodes[i]? = some p → p.Serving →
    ∀ inst ∈ s.discovery.instances.lookup p.config.nodeId,
      s.now - inst.heartbeatTime ≤ s.discovery.heartbeatTimeoutMs

instance (s : NodeGroup) (a : NodeAct) : Decidable (s.InTime a) :=
  inferInstanceAs (Decidable (_ → ∀ i p, s.nodes[i]? = some p → _))

/-- A node is found if something is stored under its id. -/
theorem Sound.found_iff (h : Sound configs s) (hd : Distinct configs) {i : ℕ} {p : Node}
    (hi : s.nodes[i]? = some p) :
    s.Found p ↔ (s.discovery.instances.lookup p.config.nodeId).isSome := by
  constructor
  · rintro ⟨inst, hmem, hown⟩
    obtain ⟨id, hlook, -⟩ := h.exact.mem_discoverServices.1 hmem
    obtain rfl : id = p.config.nodeId := (h.exact.key_eq id inst hlook).symm.trans hown.2.1
    rw [hlook]
    rfl
  · intro hsome
    obtain ⟨inst, hlook⟩ := Option.isSome_iff_exists.1 hsome
    obtain ⟨q, hq, -, hown⟩ := h.owned _ inst hlook
    obtain ⟨j, hj⟩ := List.mem_iff_getElem?.1 hq
    have hid : p.config.nodeId = q.config.nodeId :=
      (h.exact.key_eq _ inst hlook).symm.trans hown.2.1
    obtain rfl := h.eq_of_nodeId hd hi hj hid
    obtain rfl := Option.some.inj (hi.symm.trans hj)
    exact ⟨inst, h.exact.mem_discoverServices.2 ⟨_, hlook, hown.1⟩, hown⟩

/-- The same, said of what is stored. -/
theorem Sound.allFound_iff (h : Sound configs s) (hd : Distinct configs) :
    s.AllFound ↔ ∀ (i : ℕ) (p : Node), s.nodes[i]? = some p → p.Serving →
      (s.discovery.instances.lookup p.config.nodeId).isSome :=
  forall_congr' fun _ ↦ forall_congr' fun _ ↦ forall_congr' fun hi ↦
    imp_congr_right fun _ ↦ h.found_iff hd hi

theorem isSome_lookup_registered {c : NodeConfig} {id : Bytes}
    (h : (s.discovery.instances.lookup id).isSome) :
    ((s.registered c).2.instances.lookup id).isSome := by
  rcases registered_cases s c with ⟨-, hsame, -⟩ | ⟨-, -, -, inst, -, hlookup⟩
  · rw [hsame]
    exact h
  · rw [hlookup]
    split
    · rfl
    · exact h

/-- After it has tried to register itself, a node has an entry under its id. -/
theorem isSome_lookup_registered_self {c : NodeConfig} (hid : c.nodeId ≠ []) :
    ((s.registered c).2.instances.lookup c.nodeId).isSome := by
  rcases registered_cases s c with ⟨-, hsame, hnil | hsome⟩ | ⟨-, -, -, inst, -, hlookup⟩
  · exact absurd hnil hid
  · rw [hsame]
    exact hsome
  · rw [hlookup, if_pos rfl]
    rfl

/-- **What keeps the nodes found**: any step but a cleanup that finds one overdue. -/
theorem Sound.allFound_step (h : Sound configs s) (hd : Distinct configs) (hall : s.AllFound)
    (hs : step s a = some t) : t.AllFound ↔ s.InTime a := by
  have ht := sound_step h hs
  rw [ht.allFound_iff hd]
  rw [h.allFound_iff hd] at hall
  cases step_cases hs with
  | @start i p hi hidle hrun hreg =>
    refine iff_of_true (Pool.forall_put (fun j r _ hj hr ↦ ?_) fun _ ↦ ?_) nofun
    · exact isSome_lookup_registered (hall j r hj hr)
    · exact isSome_lookup_registered_self (nodeId_ne_nil_of_registered hreg)
  | startAgain => exact iff_of_true hall nofun
  | @startFailed i p hi hreg =>
    refine iff_of_true (fun j r hj hr ↦ ?_) nofun
    exact isSome_lookup_registered (hall j r hj hr)
  | @launch i p hi howner =>
    exact iff_of_true (Pool.forall_put (fun j r _ ↦ hall j r) fun _ ↦ hall i p hi (.inr howner))
      nofun
  | @wake i p hi hthread =>
    exact iff_of_true (Pool.forall_put (fun j r _ ↦ hall j r) fun hq ↦ hall i p hi hq) nofun
  | @beat i p hi hthread =>
    have hkeep : ∀ id, (s.discovery.instances.lookup id).isSome →
        ((s.discovery.heartbeat p.config.nodeId s.now).2.instances.lookup id).isSome := by
      intro id hsome
      rw [MemoryServiceDiscovery.lookup_heartbeat]
      split
      · next hid => rwa [Option.isSome_map, ← hid]
      · exact hsome
    exact iff_of_true (Pool.forall_put (fun j r _ hj hr ↦ hkeep _ (hall j r hj hr))
      fun hq ↦ hkeep _ (hall i p hi hq)) nofun
  | @register i p hi hthread =>
    exact iff_of_true
      (Pool.forall_put (fun j r _ hj hr ↦ isSome_lookup_registered (hall j r hj hr))
        fun hq ↦ isSome_lookup_registered (hall i p hi hq)) nofun
  | @stop i p hi hidle hrun =>
    exact iff_of_true (Pool.forall_put (fun j r _ ↦ hall j r)
      fun hq ↦ by simp [Node.Serving] at hq) nofun
  | stopAgain => exact iff_of_true hall nofun
  | @join i p hi hjoin hfin =>
    exact iff_of_true (Pool.forall_put (fun j r _ ↦ hall j r)
      fun hq ↦ hall i p hi (hq.imp_right fun h ↦ by cases h)) nofun
  | @deregister i p hi howner =>
    refine iff_of_true (Pool.forall_put (fun j r hne hj hr ↦ ?_) fun hq ↦ ?_) nofun
    · show (AList.lookup _ (s.discovery.deregisterService _).2.instances).isSome
      rw [MemoryServiceDiscovery.lookup_deregisterService, if_neg]
      · exact hall j r hj hr
      · exact fun hid ↦ hne (h.eq_of_nodeId hd hj hi hid)
    · have htidy := h.tidy i p hi
      rw [Node.Tidy, howner] at htidy
      simp [Node.Serving, htidy.1] at hq
  | cleanup =>
    simp only [InTime, true_implies]
    refine forall_congr' fun i ↦ forall_congr' fun p ↦ forall_congr' fun hi ↦
      forall_congr' fun hp ↦ ?_
    obtain ⟨inst, hlook⟩ := Option.isSome_iff_exists.1 (hall i p hi hp)
    rw [hlook, Option.isSome_iff_exists]
    simp only [h.exact.lookup_cleanupExpiredInstances, hlook, Option.mem_def, Option.some_inj]
    constructor
    · rintro ⟨_, rfl, htime⟩ _ rfl
      exact htime
    · exact fun htime ↦ ⟨inst, rfl, htime inst rfl⟩
  | tick => exact iff_of_true hall nofun

/-- **When every running node is found.**  If no two nodes have the same id, then in every run every
node that should have an entry is found after each step just if no cleanup comes when one of these
nodes is overdue. -/
theorem always_found_iff (hd : Distinct configs)
    (hrun : system.Run (init configs timeout now) acts s) :
    system.Along (fun _ _ t ↦ t.AllFound) (init configs timeout now) acts ↔
      (system.guarded InTime).Run (init configs timeout now) acts s := by
  refine System.along_iff (P := fun s ↦ Sound configs s ∧ s.AllFound)
    (fun s a t h hs ↦ h.1.allFound_step hd h.2 hs) (fun s a t h hs hall ↦ ⟨sound_step h.1 hs, hall⟩)
    ⟨sound_init configs timeout now, fun i p hi hp ↦ ?_⟩ hrun
  obtain ⟨c, -, rfl⟩ := List.mem_map.1 (List.mem_of_getElem? hi)
  rcases hp with hrun | howner
  · cases hrun
  · cases howner

/-! ## A node that is missing comes back -/

/-- The steps of the heartbeat thread of node `i`. -/
def ByThread (i : ℕ) : NodeAct → Bool
  | .wake j | .beat j | .register j => j = i
  | _ => false

/-- How many steps a heartbeat thread takes at most until it has registered its node. -/
def stepsToRegister : HeartbeatThread → ℕ
  | .waiting => 3
  | .beating => 2
  | _ => 1

/-- Where a running node has no entry before and after a step, its thread is one step nearer to
registering it if the step was its own, and where it was if not. -/
theorem Sound.missing_step (h : Sound configs s) {i : ℕ} {p : Node} (hi : s.nodes[i]? = some p)
    (hrun : p.running = true) (hbefore : s.discovery.instances.lookup p.config.nodeId = none)
    (hafter : t.discovery.instances.lookup p.config.nodeId = none) (hstop : a ≠ .stop i)
    (hs : step s a = some t) :
    ∃ q, t.nodes[i]? = some q ∧ q.config = p.config ∧ q.running = true ∧
      stepsToRegister q.thread + (if ByThread i a then 1 else 0) ≤ stepsToRegister p.thread := by
  -- a step of another node
  have hother : ∀ {j : ℕ} {d : MemoryServiceDiscovery} (q : Node), j ≠ i → ByThread i a = false →
      ∃ q', ({ s with discovery := d }.put j q).nodes[i]? = some q' ∧ q'.config = p.config ∧
        q'.running = true ∧
          stepsToRegister q'.thread + (if ByThread i a then 1 else 0) ≤ stepsToRegister p.thread :=
    fun q hne hthread ↦ ⟨p, (List.getElem?_set_ne hne).trans hi, rfl, hrun, by simp [hthread]⟩
  have hsame : ∀ {j : ℕ} {r : Node}, s.nodes[j]? = some r → j = i → r = p := by
    rintro j r hj rfl
    exact Option.some.inj (hj.symm.trans hi)
  -- what the owner does to a node that runs
  have hidle : p.owner = .idle := by
    have htidy := h.tidy i p hi
    rw [Node.Tidy, hrun] at htidy
    cases howner : p.owner <;> simp_all
  cases step_cases hs with
  | @start j r hj _ hrun' _ =>
    by_cases hji : j = i
    · obtain rfl := hsame hj hji
      rw [hrun] at hrun'
      cases hrun'
    · exact hother _ hji rfl
  | startAgain | startFailed | stopAgain | cleanup | tick =>
    exact ⟨p, hi, rfl, hrun, by simp [ByThread]⟩
  | @launch j r hj howner | @deregister j r hj howner | @join j r hj howner _ =>
    by_cases hji : j = i
    · obtain rfl := hsame hj hji
      rw [hidle] at howner
      cases howner
    · exact hother _ hji rfl
  | @stop j r hj _ _ =>
    exact hother _ (fun hji ↦ hstop (hji ▸ rfl)) rfl
  | @wake j r hj hthread =>
    by_cases hji : j = i
    · obtain rfl := hsame hj hji
      subst hji
      refine ⟨_, Pool.getElem?_put_self hi _, rfl, hrun, ?_⟩
      simp [ByThread, stepsToRegister, hthread, hrun]
    · exact hother _ hji (by simp [ByThread, hji])
  | @beat j r hj hthread =>
    by_cases hji : j = i
    · obtain rfl := hsame hj hji
      subst hji
      refine ⟨_, Pool.getElem?_put_self hi _, rfl, hrun, ?_⟩
      simp [ByThread, stepsToRegister, hthread, MemoryServiceDiscovery.heartbeat_fst, hbefore]
    · exact hother _ hji (by simp [ByThread, hji])
  | @register j r hj hthread =>
    by_cases hji : j = i
    · obtain rfl := hsame hj hji
      have hid : r.config.nodeId ≠ [] := (h.tidy i r hi).nodeId_ne_nil (.inl hrun)
      have hsome := isSome_lookup_registered_self (s := s) hid
      change (s.registered r.config).2.instances.lookup r.config.nodeId = none at hafter
      rw [hafter] at hsome
      cases hsome
    · exact hother _ hji (by simp [ByThread, hji])

/-- **A node that runs is found again.**  If no two nodes have the same id, then from wherever a run
has led, while a node is running and is not stopped, it is found at one time at least until its
heartbeat thread has taken three steps. -/
theorem found_again (hd : Distinct configs) (hrun : system.Run (init configs timeout now) acts s)
    {i : ℕ} {p : Node} (hi : s.nodes[i]? = some p) (hp : p.running = true) {more : List NodeAct}
    (hmore : system.Run s more t) (hstop : .stop i ∉ more) (hthree : 3 ≤ more.countP (ByThread i)) :
    ∃ as bs u, more = as ++ bs ∧ system.Run s as u ∧
      ∃ q, u.nodes[i]? = some q ∧ q.config = p.config ∧ u.Found q := by
  by_contra hnever
  push Not at hnever
  -- as long as it is not found, each step of the thread counts
  have hcount : ∀ {as : List NodeAct} {u : NodeGroup}, system.Run s as u → as <+: more →
      Sound configs u ∧ ∃ q, u.nodes[i]? = some q ∧ q.config = p.config ∧ q.running = true ∧
        u.discovery.instances.lookup p.config.nodeId = none ∧
          stepsToRegister q.thread + as.countP (ByThread i) ≤ stepsToRegister p.thread := by
    -- where the node is not found, nothing is stored under its id
    have hmissing : ∀ {as : List NodeAct} {u : NodeGroup} {q : Node}, system.Run s as u →
        as <+: more → Sound configs u → u.nodes[i]? = some q → q.config = p.config →
          u.discovery.instances.lookup p.config.nodeId = none := by
      rintro as u q has ⟨bs, rfl⟩ hu hq hconfig
      have hnot := hnever as bs u rfl has q hq hconfig
      rwa [hu.found_iff hd hq, Option.not_isSome_iff_eq_none, hconfig] at hnot
    intro as u has
    induction has with
    | nil =>
      intro hpre
      have hs := sound_run hrun
      exact ⟨hs, p, hi, rfl, hp, hmissing .nil hpre hs hi rfl, by simp⟩
    | @snoc as u v a has hstep ih =>
      intro hpre
      have hpre' : as <+: more := (List.prefix_append as [a]).trans hpre
      obtain ⟨hu, q, hq, hconfig, hqrun, hnone, hle⟩ := ih hpre'
      have hv := sound_step hu hstep
      have hne : a ≠ .stop i := by
        rintro rfl
        exact hstop (hpre.subset (by simp))
      -- the node is still at its place, so that it is known to be missing there
      obtain ⟨r, hr, hrconfig⟩ : ∃ r, v.nodes[i]? = some r ∧ r.config = p.config := by
        have hmap : (v.nodes.map Node.config)[i]? = some p.config := by
          rw [hv.configs, ← hu.configs, List.getElem?_map, hq, Option.map_some, hconfig]
        rw [List.getElem?_map] at hmap
        exact Option.map_eq_some_iff.1 hmap
      have hnone' := hmissing (has.snoc hstep) hpre hv hr hrconfig
      rw [← hconfig] at hnone hnone'
      obtain ⟨q', hq', hconfig', hqrun', hle'⟩ :=
        hu.missing_step hq hqrun hnone hnone' hne hstep
      refine ⟨hv, q', hq', hconfig'.trans hconfig, hqrun', hconfig ▸ hnone', ?_⟩
      rw [List.countP_append, List.countP_singleton]
      omega
  obtain ⟨-, q, -, -, -, -, hle⟩ := hcount hmore (List.prefix_refl more)
  have hp3 : stepsToRegister p.thread ≤ 3 := by cases p.thread <;> simp [stepsToRegister]
  have hq1 : 1 ≤ stepsToRegister q.thread := by cases q.thread <;> simp [stepsToRegister]
  omega

/-! ## Two nodes -/

/-- A gateway and a game server. -/
def pair : List NodeConfig :=
  [⟨lit "gw-1", lit "gateway", lit "10.0.0.1", 9000⟩,
    ⟨lit "game-1", lit "game", lit "10.0.0.2", 9001⟩]

/-- Both start, and the first sends a heartbeat.  The second is too late, and then the first is
stopped. -/
def session : List NodeAct :=
  [.start 0, .launch 0, .start 1, .launch 1, .tick 80, .wake 0, .beat 0, .tick 80, .cleanup,
    .stop 0, .wake 0, .join 0, .deregister 0]

theorem listed_up_session :
    ∃ s, system.Run (init pair 100 0) session s ∧
      ∀ inst ∈ s.discovery.discoverServices (lit "gateway"), inst.instanceId ≠ lit "gw-1" := by
  obtain ⟨s, hrun, p, hp, hid, hdown⟩ : ∃ s, system.Run (init pair 100 0) session s ∧
      ∃ p ∈ s.nodes, p.config.nodeId = lit "gw-1" ∧ ¬ p.Up :=
    System.Run.exists_of_any (by decide +kernel)
  refine ⟨s, hrun, fun inst hmem ↦ ?_⟩
  rw [← hid]
  exact (listed_up hrun).2 (by decide +kernel) p hp hdown _ inst hmem

/-- One of them starts, and its heartbeat comes in time for the cleanup. -/
def prompt : List NodeAct := [.start 0, .launch 0, .tick 80, .wake 0, .beat 0, .tick 80, .cleanup]

theorem always_found_iff_prompt :
    system.Along (fun _ _ t ↦ t.AllFound) (init pair 100 0) prompt := by
  obtain ⟨s, hrun, -⟩ :
      ∃ s, (system.guarded InTime).Run (init pair 100 0) prompt s ∧ True :=
    System.Run.exists_of_any_guarded (by decide +kernel)
  exact (always_found_iff (by decide +kernel) hrun.of_guarded).2 hrun

/-- The second node is missing after the first cleanup. -/
def backAgain : List NodeAct := [.wake 1, .beat 1, .stop 0, .register 1]

theorem found_again_session :
    ∃ s, system.Run (init pair 100 0) (session.take 9) s ∧
      s.discovery.instances.lookup (lit "game-1") = none ∧
      ∃ as bs u, backAgain = as ++ bs ∧ system.Run s as u ∧
        ∃ q, u.nodes[1]? = some q ∧ q.config.nodeId = lit "game-1" ∧ u.Found q := by
  obtain ⟨s, hrun, hnone, hmore, p, hi, hp, hid⟩ :
      ∃ s, system.Run (init pair 100 0) (session.take 9) s ∧
        s.discovery.instances.lookup (lit "game-1") = none ∧ (backAgain.foldlM step s).isSome ∧
          ∃ p ∈ s.nodes[1]?, p.running = true ∧ p.config.nodeId = lit "game-1" :=
    System.Run.exists_of_any (by decide +kernel)
  obtain ⟨t, ht⟩ := Option.isSome_iff_exists.1 hmore
  obtain ⟨as, bs, u, hall, has, q, hq, hconfig, hfound⟩ :=
    found_again (by decide +kernel) hrun hi hp (.of_foldlM ht) (by decide) (by decide)
  exact ⟨s, hrun, hnone, as, bs, u, hall, has, q, hq, hconfig ▸ hid, hfound⟩

end NodeGroup

end Cluster
end ChwellCore
