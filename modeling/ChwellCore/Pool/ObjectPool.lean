import Mathlib.Algebra.Order.Ring.Int
import Mathlib.Data.List.Perm.Basic
import ChwellCore.Lib.Run

/-!
# The object pool

`ObjectPool` keeps objects that nobody uses on a stack.  `acquire` and `acquire_raw` take one off it
or have a new one made, and `release` puts it back, or destroys it when the stack is full; the
deleter of what `acquire` returns calls `release`.  Two counters follow.

An object is known by a number: `made` counts the objects that the factory has made.  Where the
objects are that are not on the stack is not the pool's business, but what the counters mean is said
in terms of it: `borrowed` are the objects out, and `left` those that are gone for good.

The configuration is of any size, so the constructor may make more objects than `max_size` allows;
it is then that `release` finds the stack full.
-/

set_option autoImplicit false

namespace ChwellCore

/-- `ObjectPoolConfig` as far as the pool reads it, and whether the factory has a `destroy`. -/
structure ObjectPoolConfig where
  initialSize : ℤ
  maxSize : ℤ
  hasDestroy : Bool
deriving DecidableEq, Repr

/-- `ObjectPool`.  The top of the stack comes first; `destroyed` are the calls of the `destroy`
callback. -/
structure ObjectPool where
  pool : List ℕ
  createdCount : ℤ
  borrowedCount : ℤ
  made : ℕ
  borrowed : List ℕ
  left : List ℕ
  destroyed : List ℕ
deriving DecidableEq, Repr

namespace ObjectPool

/-- The factory makes an object, and it is pushed. -/
def createAndPush (p : ObjectPool) : ObjectPool :=
  { p with pool := p.made :: p.pool, createdCount := p.createdCount + 1, made := p.made + 1 }

/-- The loop of the constructor, from its `i`-th round on.  `create` tells whether a call of the
factory returns an object. -/
def fill (create : ℕ → Bool) : ℕ → ℕ → ObjectPool → ObjectPool
  | 0, _, p => p
  | rounds + 1, i, p => fill create rounds (i + 1) (if create i then p.createAndPush else p)

/-- The constructor. -/
def new (config : ObjectPoolConfig) (create : ℕ → Bool) : ObjectPool :=
  fill create config.initialSize.toNat 0 ⟨[], 0, 0, 0, [], [], []⟩

section Operations

variable (config : ObjectPoolConfig)

/-- The common body of `acquire` and `acquire_raw`: the object that is returned, if it is not null,
and the pool afterwards. -/
def take (create : Bool) (p : ObjectPool) : Option ℕ × ObjectPool :=
  match p.pool with
  | obj :: rest =>
    (some obj,
      { p with
        pool := rest
        borrowedCount := p.borrowedCount + 1
        borrowed := obj :: p.borrowed })
  | [] =>
    if p.createdCount < config.maxSize ∧ create = true then
      (some p.made,
        { p with
          createdCount := p.createdCount + 1
          made := p.made + 1
          borrowedCount := p.borrowedCount + 1
          borrowed := p.made :: p.borrowed })
    else (none, p)

/-- `acquire`. -/
def acquire (create : Bool) (p : ObjectPool) : Option ℕ × ObjectPool := take config create p

/-- `acquire_raw`. -/
def acquireRaw (create : Bool) (p : ObjectPool) : Option ℕ × ObjectPool := take config create p

/-- An object is destroyed: the callback is called, if there is one. -/
def discard (obj : ℕ) (p : ObjectPool) : ObjectPool :=
  { p with
    createdCount := p.createdCount - 1
    left := p.left ++ [obj]
    destroyed := if config.hasDestroy then p.destroyed ++ [obj] else p.destroyed }

/-- `release` of an object that is out. -/
def release (obj : ℕ) (p : ObjectPool) : ObjectPool :=
  let p := { p with borrowedCount := p.borrowedCount - 1, borrowed := p.borrowed.erase obj }
  if (p.pool.length : ℤ) < config.maxSize then { p with pool := obj :: p.pool }
  else discard config obj p

/-- The loop of `expand`, from its `i`-th round on. -/
def expandFrom (create : ℕ → Bool) : ℕ → ℕ → ObjectPool → ObjectPool
  | 0, _, p => p
  | rounds + 1, i, p =>
    if p.createdCount < config.maxSize then
      expandFrom create rounds (i + 1) (if create i then p.createAndPush else p)
    else p

/-- `expand`. -/
def expand (count : ℤ) (create : ℕ → Bool) (p : ObjectPool) : ObjectPool :=
  expandFrom config create count.toNat 0 p

/-- The loop of `shrink`, with the objects on the stack as the rounds that it may take. -/
def shrinkFrom (targetSize : ℤ) : List ℕ → ObjectPool → ObjectPool
  | [], p => p
  | obj :: rest, p =>
    if targetSize < p.pool.length then
      shrinkFrom targetSize rest (discard config obj { p with pool := rest })
    else p

/-- `shrink`. -/
def shrink (targetSize : ℤ) (p : ObjectPool) : ObjectPool :=
  shrinkFrom config targetSize p.pool p

/-- The destructor: what its loop calls `destroy` for. -/
def destructor (p : ObjectPool) : List ℕ := if config.hasDestroy then p.pool else []

/-- `available_count`. -/
def availableCount (p : ObjectPool) : ℤ := p.pool.length

/-- The operations. -/
inductive Op
  | acquire (create : Bool)
  | acquireRaw (create : Bool)
  | release (obj : ℕ)
  | expand (count : ℤ) (create : ℕ → Bool)
  | shrink (targetSize : ℤ)

/-- One operation; `none` for a `release` of an object that is not out, and for a `shrink` to a
negative size, which would go on when the stack is empty. -/
def applyOp (p : ObjectPool) : Op → Option ObjectPool
  | .acquire create => some (p.acquire config create).2
  | .acquireRaw create => some (p.acquireRaw config create).2
  | .release obj => if obj ∈ p.borrowed then some (p.release config obj) else none
  | .expand count create => some (p.expand config count create)
  | .shrink targetSize => if 0 ≤ targetSize then some (p.shrink config targetSize) else none

def system : System ObjectPool Op := System.ofPartial (applyOp config)

end Operations

/-! ## The books -/

/-- What the counters count: every object made is on the stack, out or gone, and in one of these
only. -/
structure Ok (config : ObjectPoolConfig) (p : ObjectPool) : Prop where
  created_eq : p.createdCount = p.pool.length + p.borrowedCount
  borrowed_eq : p.borrowedCount = p.borrowed.length
  created_le : p.createdCount ≤ max (max config.initialSize config.maxSize) 0
  perm : (p.pool ++ p.borrowed ++ p.left).Perm (List.range p.made)
  destroyed_eq : p.destroyed = if config.hasDestroy then p.left else []

variable {config : ObjectPoolConfig} {p p' : ObjectPool} {obj : ℕ}

/-- A new object, on the stack or out. -/
theorem perm_create {pool pool' borrowed borrowed' left : List ℕ} {made : ℕ}
    (hperm : (pool ++ borrowed ++ left).Perm (List.range made))
    (hnew : (pool' ++ borrowed').Perm (made :: (pool ++ borrowed))) :
    (pool' ++ borrowed' ++ left).Perm (List.range (made + 1)) := by
  rw [List.range_succ]
  refine (hnew.append_right left).trans ((hperm.cons made).trans ?_)
  exact (List.perm_append_singleton _ _).symm

theorem Ok.createAndPush (h : Ok config p)
    (hlt : p.createdCount < max (max config.initialSize config.maxSize) 0) :
    Ok config p.createAndPush where
  created_eq := by
    have hcreated := h.created_eq
    simp only [ObjectPool.createAndPush, List.length_cons]
    omega
  borrowed_eq := h.borrowed_eq
  created_le := hlt
  perm := perm_create h.perm (List.Perm.refl _)
  destroyed_eq := h.destroyed_eq

/-- The constructor makes as many objects as it has rounds, at most. -/
theorem Ok.fill (create : ℕ → Bool) (rounds i : ℕ) (h : Ok config p)
    (hle : p.createdCount + rounds ≤ max config.initialSize 0) :
    Ok config (fill create rounds i p) := by
  induction rounds generalizing i p with
  | zero => exact h
  | succ rounds ih =>
    rw [ObjectPool.fill]
    split
    · refine ih (i + 1) (h.createAndPush (by omega)) ?_
      simp only [ObjectPool.createAndPush]
      omega
    · exact ih (i + 1) h (by omega)

theorem ok_new (config : ObjectPoolConfig) (create : ℕ → Bool) : Ok config (new config create) := by
  refine Ok.fill create _ 0 ⟨rfl, rfl, le_max_right _ _, .nil, ?_⟩ ?_
  · split <;> rfl
  · simp only
    omega

theorem Ok.take (create : Bool) (h : Ok config p) : Ok config (take config create p).2 := by
  rw [ObjectPool.take]
  have hcreated := h.created_eq
  have hborrowed := h.borrowed_eq
  have hperm := h.perm
  split
  · next obj rest hpool =>
    rw [hpool] at hcreated hperm
    refine ⟨?_, ?_, h.created_le, List.Perm.trans ?_ hperm, h.destroyed_eq⟩
    · simp only [List.length_cons] at hcreated ⊢
      omega
    · simp only [List.length_cons]
      omega
    · exact List.perm_middle.append_right _
  · next hpool =>
    rw [hpool] at hcreated hperm
    split
    · next hmake =>
      have hlt := hmake.1
      refine ⟨?_, ?_, ?_, perm_create hperm ?_, h.destroyed_eq⟩
      · simp only [hpool, List.length_nil] at hcreated ⊢
        omega
      · simp only [List.length_cons]
        omega
      · simp only
        omega
      · rw [hpool]
        exact List.Perm.refl _
    · exact h

/-- An object that is neither on the stack nor out any more is destroyed. -/
theorem ok_discard (hcreated : p.createdCount = p.pool.length + p.borrowedCount + 1)
    (hborrowed : p.borrowedCount = p.borrowed.length)
    (hle : p.createdCount ≤ max (max config.initialSize config.maxSize) 0)
    (hperm : (obj :: (p.pool ++ p.borrowed ++ p.left)).Perm (List.range p.made))
    (hdestroyed : p.destroyed = if config.hasDestroy then p.left else []) :
    Ok config (discard config obj p) where
  created_eq := by
    simp only [discard]
    omega
  borrowed_eq := hborrowed
  created_le := by
    simp only [discard]
    omega
  perm := by
    simp only [discard, ← List.append_assoc]
    exact (List.perm_append_singleton obj _).trans hperm
  destroyed_eq := by
    simp only [discard, hdestroyed]
    split <;> rfl

theorem Ok.release (h : Ok config p) (hobj : obj ∈ p.borrowed) :
    Ok config (release config obj p) := by
  have hcreated := h.created_eq
  have hborrowed := h.borrowed_eq
  have hlength : (p.borrowed.erase obj).length + 1 = p.borrowed.length := by
    rw [List.length_erase_of_mem hobj]
    exact Nat.succ_pred (List.ne_nil_of_mem hobj |> List.length_pos_iff.2).ne'
  have hperm : (obj :: (p.pool ++ p.borrowed.erase obj ++ p.left)).Perm (List.range p.made) := by
    refine List.Perm.trans ?_ h.perm
    refine ((List.perm_middle.symm.trans ?_).append_right p.left)
    exact (List.perm_cons_erase hobj).symm.append_left p.pool
  rw [ObjectPool.release]
  simp only
  split
  · refine ⟨?_, ?_, h.created_le, hperm, h.destroyed_eq⟩
    · simp only [List.length_cons]
      omega
    · simp only
      omega
  · refine ok_discard ?_ ?_ h.created_le hperm h.destroyed_eq
    · simp only
      omega
    · simp only
      omega

theorem Ok.expandFrom (create : ℕ → Bool) (rounds i : ℕ) (h : Ok config p) :
    Ok config (expandFrom config create rounds i p) := by
  induction rounds generalizing i p with
  | zero => exact h
  | succ rounds ih =>
    rw [ObjectPool.expandFrom]
    split
    · split
      · exact ih (i + 1) (h.createAndPush (by omega))
      · exact ih (i + 1) h
    · exact h

theorem Ok.shrinkFrom (targetSize : ℤ) (stack : List ℕ) (h : Ok config p)
    (hstack : p.pool = stack) : Ok config (shrinkFrom config targetSize stack p) := by
  induction stack generalizing p with
  | nil => exact h
  | cons obj rest ih =>
    have hcreated := h.created_eq
    have hperm := h.perm
    rw [hstack] at hcreated hperm
    rw [ObjectPool.shrinkFrom]
    split
    · refine ih (ok_discard ?_ h.borrowed_eq h.created_le hperm h.destroyed_eq) rfl
      simp only [List.length_cons] at hcreated ⊢
      omega
    · exact h

theorem Ok.step {op : Op} (h : Ok config p) (hstep : applyOp config p op = some p') :
    Ok config p' := by
  rcases op with create | create | obj | ⟨count, create⟩ | targetSize
  · obtain rfl := Option.some.inj hstep
    exact h.take create
  · obtain rfl := Option.some.inj hstep
    exact h.take create
  · obtain ⟨hobj, hp'⟩ := Option.ite_none_right_eq_some.1 hstep
    obtain rfl := Option.some.inj hp'
    exact h.release hobj
  · obtain rfl := Option.some.inj hstep
    exact h.expandFrom create _ 0
  · obtain ⟨-, hp'⟩ := Option.ite_none_right_eq_some.1 hstep
    obtain rfl := Option.some.inj hp'
    exact h.shrinkFrom targetSize _ rfl

theorem ok_run {create : ℕ → Bool} {ops : List Op}
    (hrun : (system config).Run (new config create) ops p) : Ok config p :=
  hrun.invariant (fun _ _ _ h hstep ↦ h.step hstep) (ok_new config create)

/-! ## What the books say -/

theorem Ok.nodup (h : Ok config p) : (p.pool ++ p.borrowed ++ p.left).Nodup :=
  h.perm.nodup_iff.2 List.nodup_range

/-- The callback was called once for every object that is neither on the stack nor out, and for no
other. -/
theorem Ok.count_destroyed (h : Ok config p) (hdestroy : config.hasDestroy = true) (obj : ℕ) :
    p.destroyed.count obj =
      if obj < p.made ∧ obj ∉ p.pool ∧ obj ∉ p.borrowed then 1 else 0 := by
  rw [h.destroyed_eq, if_pos hdestroy]
  have hcount := h.perm.count_eq obj
  rw [List.count_append, List.count_append, List.nodup_range.count] at hcount
  simp only [List.mem_range] at hcount
  simp only [← List.count_pos_iff]
  split at hcount <;> split <;> omega

/-- And the destructor calls it for what is on the stack then. -/
theorem Ok.count_destructor (h : Ok config p) (hdestroy : config.hasDestroy = true) (obj : ℕ) :
    (p.destroyed ++ p.destructor config).count obj =
      if obj < p.made ∧ obj ∉ p.borrowed then 1 else 0 := by
  rw [List.count_append, h.destroyed_eq, destructor, if_pos hdestroy, if_pos hdestroy]
  have hcount := h.perm.count_eq obj
  rw [List.count_append, List.count_append, List.nodup_range.count] at hcount
  simp only [List.mem_range] at hcount
  simp only [← List.count_pos_iff]
  split at hcount <;> split <;> omega

/-- When nothing is returned. -/
theorem take_eq_none_iff {create : Bool} :
    (take config create p).1 = none ↔
      p.pool = [] ∧ (config.maxSize ≤ p.createdCount ∨ create = false) := by
  rw [take]
  rcases p.pool with _ | ⟨obj, rest⟩
  · simp only [true_and]
    split
    · next hmake =>
      refine iff_of_false (Option.some_ne_none _) ?_
      rintro (hle | hcreate)
      · exact absurd hmake.1 (Int.not_lt.2 hle)
      · exact absurd hmake.2 (by simp [hcreate])
    · next hmake =>
      refine iff_of_true rfl ?_
      rw [not_and_or, Bool.not_eq_true] at hmake
      exact hmake.imp_left Int.not_lt.1
  · simp

/-- **The object pool keeps its books.**  After every run, with every configuration and whatever the
factory returns: the objects created are those available and those borrowed, what is borrowed is
what is out, no more are created than the larger of the initial and the maximal size, no object is
on the stack and out, and none twice; nothing is acquired only if the stack is empty and the
maximum is reached or the factory returned null; and every object that left for good was destroyed
once, and no other, which the destructor goes on to do with what is on the stack. -/
theorem accounting {create : ℕ → Bool} {ops : List Op}
    (hrun : (system config).Run (new config create) ops p) :
    p.createdCount = p.availableCount + p.borrowedCount ∧
      p.borrowedCount = p.borrowed.length ∧
      p.createdCount ≤ max (max config.initialSize config.maxSize) 0 ∧
      (p.pool ++ p.borrowed).Nodup ∧
      (∀ create, (p.acquire config create).1 = none →
        p.pool = [] ∧ (config.maxSize ≤ p.createdCount ∨ create = false)) ∧
      (∀ create, (p.acquireRaw config create).1 = none →
        p.pool = [] ∧ (config.maxSize ≤ p.createdCount ∨ create = false)) ∧
      (config.hasDestroy = true → ∀ obj, p.destroyed.count obj =
        if obj < p.made ∧ obj ∉ p.pool ∧ obj ∉ p.borrowed then 1 else 0) ∧
      (config.hasDestroy = true → ∀ obj, (p.destroyed ++ p.destructor config).count obj =
        if obj < p.made ∧ obj ∉ p.borrowed then 1 else 0) := by
  have h := ok_run hrun
  exact ⟨h.created_eq, h.borrowed_eq, h.created_le, (List.nodup_append.1 h.nodup).1,
    fun _ ↦ take_eq_none_iff.1, fun _ ↦ take_eq_none_iff.1, h.count_destroyed, h.count_destructor⟩

/-- Two objects to begin with where one is allowed, and the stack is full when the second comes
back. -/
theorem accounting_overfull :
    ∃ p, (system ⟨2, 1, true⟩).Run (new ⟨2, 1, true⟩ fun _ ↦ true)
        [.acquire true, .acquireRaw true, .acquire true, .release 0, .release 1, .shrink 0] p ∧
      p.destroyed = [1, 0] ∧
      ∀ obj, p.destroyed.count obj =
        if obj < p.made ∧ obj ∉ p.pool ∧ obj ∉ p.borrowed then 1 else 0 := by
  obtain ⟨p, hrun, hdestroyed⟩ :
      ∃ p, (system ⟨2, 1, true⟩).Run (new ⟨2, 1, true⟩ fun _ ↦ true)
        [.acquire true, .acquireRaw true, .acquire true, .release 0, .release 1, .shrink 0] p ∧
        p.destroyed = [1, 0] :=
    System.Run.exists_of_any (by decide +kernel)
  obtain ⟨-, -, -, -, -, -, hcount, -⟩ := accounting hrun
  exact ⟨p, hrun, hdestroyed, hcount rfl⟩

end ObjectPool
end ChwellCore
