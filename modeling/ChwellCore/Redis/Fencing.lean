import ChwellCore.Redis.LockRecovery

/-!
# Fencing tokens

`fencing_token` is what a holder of the lock hands to the storage it writes to, so that the storage
can refuse a writer whose lock has passed to somebody else: the later holder has the larger token.
The token is a counter of the `DistributedLock` object, and each object starts its own.

`ordered_iff` says what that is worth.  The token of an acquisition is the number of acquisitions
that the same instance has made (`Numbered`), and for the tokens of all the holders to increase, the
`k`-th acquisition needs a token of at least `k`, which is more than any instance can offer that has
not made all of them.  So the holders are ordered exactly in the runs in which one instance makes
all the acquisitions, and makes fewer of them than a `uint64_t` can count.

Nothing here depends on how good the random numbers of `generate_token` are, so they may repeat.
-/

set_option autoImplicit false

namespace ChwellCore
namespace Redis

/-- Forget which numbers have been drawn, so that they may be drawn again. -/
def World.forget {ι F : Type} (w : World ι F) : World ι F := { w with drawn := fun _ ↦ none }

/-- The instances at work, and the acquisitions so far: whose they were, and the `fencing_token` it
reported right after. -/
structure Succession (ι F : Type) where
  world : World ι F
  acquisitions : List (ι × UInt64)

namespace Succession

variable {ι F : Type} [DecidableEq ι] [Double F] (key : Bytes) (ttl : ι → Int32)

/-- One step, in which any number may be drawn for a token; a `try_lock` that returns `true` is an
acquisition. -/
def step (s : Succession ι F) (a : Act ι) : Option (Succession ι F) :=
  match World.step key ttl s.world.forget a with
  | none => none
  | some w =>
    match s.world.tryLockResult key a with
    | some (i, true) => some ⟨w, s.acquisitions ++ [(i, (w.locks i).fencingToken)]⟩
    | _ => some ⟨w, s.acquisitions⟩

/-- The system of all interleavings. -/
def system : System (Succession ι F) (Act ι) := System.ofPartial (step key ttl)

/-- Nobody has acquired the lock. -/
def init (now : ℤ) : Succession ι F := ⟨.init now, []⟩

end Succession

/-! ## Histories in which each instance counts its own acquisitions -/

/-- Each token is the number of acquisitions that its instance has made. -/
inductive Numbered {ι : Type} [DecidableEq ι] : List (ι × UInt64) → Prop
  | nil : Numbered []
  | snoc {h : List (ι × UInt64)} (i : ι) : Numbered h →
      Numbered (h ++ [(i, UInt64.ofNat ((h.map Prod.fst).count i + 1))])

namespace Numbered

variable {ι : Type} [DecidableEq ι] {h : List (ι × UInt64)}

/-- No token is larger than the number of acquisitions. -/
theorem token_le (hn : Numbered h) : ∀ p ∈ h, p.2.toNat ≤ h.length := by
  induction hn with
  | nil => simp
  | @snoc h i _ ih =>
    intro p hp
    rw [List.length_append, List.length_singleton]
    rcases List.mem_append.1 hp with hp | hp
    · exact (ih p hp).trans (Nat.le_succ _)
    · rw [List.mem_singleton.1 hp, UInt64.toNat_ofNat']
      have hcount : (h.map Prod.fst).count i ≤ h.length :=
        List.count_le_length.trans (List.length_map _).le
      exact (Nat.mod_le _ _).trans (Nat.succ_le_succ hcount)

/-- The number of acquisitions of the only instance. -/
theorem count_of_same {i : ι} (hsame : ∀ p ∈ h, p.1 = i) : (h.map Prod.fst).count i = h.length := by
  rw [List.count_eq_length.2, List.length_map]
  intro j hj
  obtain ⟨p, hp, rfl⟩ := List.mem_map.1 hj
  exact (hsame p hp).symm

/-- The last token of the only instance is the number of acquisitions. -/
theorem exists_token_eq (hn : Numbered h) (hne : h ≠ []) (hlen : h.length < UInt64.size)
    (hsame : ∀ p ∈ h, ∀ q ∈ h, p.1 = q.1) : ∃ p ∈ h, p.2.toNat = h.length := by
  cases hn with
  | nil => exact absurd rfl hne
  | @snoc h i _ =>
    have hi := fun p (hp : p ∈ h) ↦
      hsame p (List.mem_append_left _ hp) _ (List.mem_append_right _ (List.mem_singleton_self _))
    rw [List.length_append, List.length_singleton] at hlen ⊢
    refine ⟨_, List.mem_append_right _ (List.mem_singleton_self _), ?_⟩
    rw [count_of_same hi, UInt64.toNat_ofNat', Nat.mod_eq_of_lt hlen]

/-- The tokens of a history increase exactly if one instance has made all of it, and has not come
to the end of its counter. -/
theorem pairwise_iff (hn : Numbered h) :
    h.Pairwise (fun p q ↦ p.2 < q.2) ↔
      (∀ p ∈ h, ∀ q ∈ h, p.1 = q.1) ∧ h.length < UInt64.size := by
  induction hn with
  | nil => simp [UInt64.size]
  | @snoc h i hn ih =>
    rw [List.pairwise_append, ih, List.length_append, List.length_singleton]
    simp only [List.pairwise_singleton, List.mem_singleton, forall_eq, true_and,
      UInt64.lt_iff_toNat_lt, UInt64.toNat_ofNat']
    constructor
    · rintro ⟨⟨hsame, hlen⟩, hlt⟩
      rcases List.eq_nil_or_concat h with rfl | ⟨h', x, hx⟩
      · simp [UInt64.size]
      · have hne : h ≠ [] := by
          rw [hx]
          simp
        obtain ⟨p, hp, hlast⟩ := hn.exists_token_eq hne hlen hsame
        have hp := hlt p hp
        rw [hlast] at hp
        -- the instance has to have made everything so far
        have hcount : (h.map Prod.fst).count i = (h.map Prod.fst).length := by
          have hle := Nat.mod_le ((h.map Prod.fst).count i + 1) (2 ^ 64)
          have hle' : (h.map Prod.fst).count i ≤ (h.map Prod.fst).length := List.count_le_length
          rw [List.length_map] at hle' ⊢
          omega
        have hall := fun p (hp : p ∈ h) ↦
          (List.count_eq_length.1 hcount p.1 (List.mem_map_of_mem hp)).symm
        have hsize : ((h.map Prod.fst).count i + 1) % 2 ^ 64 < UInt64.size :=
          Nat.mod_lt _ (by decide)
        refine ⟨fun p hp q hq ↦ ?_, by omega⟩
        rw [List.mem_append, List.mem_singleton] at hp hq
        rw [hp.elim (hall p) (congrArg Prod.fst), hq.elim (hall q) (congrArg Prod.fst)]
    · rintro ⟨hsame, hlen⟩
      have hi := fun p (hp : p ∈ h) ↦
        hsame p (List.mem_append_left _ hp) _ (List.mem_append_right _ (List.mem_singleton_self _))
      refine ⟨⟨fun p hp q hq ↦ (hi p hp).trans (hi q hq).symm, by omega⟩, fun p hp ↦ ?_⟩
      rw [count_of_same hi, Nat.mod_eq_of_lt hlen]
      exact Nat.lt_succ_of_le (hn.token_le p hp)

end Numbered

/-! ## The counters of the instances -/

namespace World

variable {ι F : Type} [DecidableEq ι] [Double F] {key : Bytes} {ttl : ι → Int32} {w w' : World ι F}
  {a : Act ι}

omit [DecidableEq ι] in
/-- A `try_lock` returns in a step of its instance. -/
theorem actor_of_tryLockResult {j : ι} {ok : Bool} (h : w.tryLockResult key a = some (j, ok)) :
    a.actor = some j := by
  cases a with
  | tryLock i n | lease i =>
    rw [tryLockResult] at h
    split at h <;> cases h
    rfl
  | tick | unlock i | unlockGet i | unlockDel i | renewCheck i | renewGet i | renewExpire i =>
    cases h

/-- Only the end of a `try_lock` counts, and an instance that is gone stays where it is. -/
theorem fencingToken_of_not_lease (hs : World.step key ttl w a = some w') (ha : ∀ i, a ≠ .lease i)
    (j : ι) : (w'.locks j).fencingToken = (w.locks j).fencingToken ∧
      ((w.locks j).caller = .terminated → (w'.locks j).caller = .terminated) := by
  by_cases hact : a.actor = some j
  · have hm := step_moves hs hact
    generalize w.locks j = l at hm ⊢
    generalize w'.locks j = l' at hm ⊢
    cases hm with
    | lease i => exact absurd rfl (ha i)
    | unlock _ hc =>
      rw [DistributedLock.beginUnlock]
      split <;> exact ⟨rfl, fun h ↦ by rw [hc] at h; cases h⟩
    | refused _ _ hc | stored _ _ hc | joined _ hc | joinedLate _ hc | deleted _ hc =>
      exact ⟨rfl, fun h ↦ by rw [hc] at h; cases h⟩
    | checked | matched | lost | renewed => exact ⟨rfl, id⟩
  · rw [(step_frame hs).locks j hact]
    exact ⟨rfl, id⟩

/-- What a step does to the counter of an instance that is still there afterwards. -/
theorem fencingToken_step (hs : World.step key ttl w a = some w') (j : ι)
    (hj : (w'.locks j).caller ≠ .terminated) :
    (w.locks j).caller ≠ .terminated ∧ (w'.locks j).fencingToken =
      if w.tryLockResult key a = some (j, true) then (w.locks j).fencingToken + 1
      else (w.locks j).fencingToken := by
  by_cases hret : w.tryLockResult key a = some (j, true)
  · rw [if_pos hret]
    cases a with
    | lease i =>
      cases actor_of_tryLockResult hret
      simp only [World.step] at hs
      split at hs <;> cases hs
      next hcaller =>
      refine ⟨by rw [hcaller]; exact Caller.noConfusion, ?_⟩
      rw [put_locks_self, DistributedLock.acquire]
      split <;> rfl
    | tryLock i n =>
      rw [tryLockResult] at hret
      split at hret <;> cases hret
    | tick | unlock i | unlockGet i | unlockDel i | renewCheck i | renewGet i | renewExpire i =>
      cases hret
  · rw [if_neg hret]
    by_cases ha : a = .lease j
    · -- the thread of an earlier lock is still there
      subst ha
      simp only [World.step] at hs
      split at hs <;> cases hs
      rw [put_locks_self, DistributedLock.acquire] at hj
      split at hj
      · next habs => exact absurd (if_pos habs) hret
      · exact absurd rfl hj
    · by_cases hlease : ∃ i, a = .lease i
      · obtain ⟨i, rfl⟩ := hlease
        rw [(step_frame hs).locks j fun h ↦ ha (congrArg _ (Option.some.inj h))] at hj ⊢
        exact ⟨hj, rfl⟩
      · obtain ⟨htoken, hgone⟩ := fencingToken_of_not_lease hs (not_exists.1 hlease) j
        exact ⟨fun h ↦ hj (hgone h), htoken⟩

/-- An instance whose `try_lock` has returned is there. -/
theorem caller_of_acquired (hs : World.step key ttl w a = some w') {i : ι}
    (hret : w.tryLockResult key a = some (i, true)) : (w'.locks i).caller ≠ .terminated := by
  cases a with
  | lease j =>
    rw [tryLockResult] at hret
    split at hret <;> cases hret
    next habs =>
    simp only [World.step] at hs
    split at hs <;> cases hs
    rw [put_locks_self, DistributedLock.acquire, if_pos habs]
    exact Caller.noConfusion
  | tryLock j n =>
    rw [tryLockResult] at hret
    split at hret <;> cases hret
  | tick | unlock j | unlockGet j | unlockDel j | renewCheck j | renewGet j | renewExpire j =>
    cases hret

end World

namespace Succession

variable {ι F : Type} [DecidableEq ι] [Double F] {key : Bytes} {ttl : ι → Int32}
  {s s' : Succession ι F} {a : Act ι}

/-- The counters agree with the history. -/
structure Inv (s : Succession ι F) : Prop where
  numbered : Numbered s.acquisitions
  counter : ∀ i, (s.world.locks i).caller ≠ .terminated →
    (s.world.locks i).fencingToken = UInt64.ofNat ((s.acquisitions.map Prod.fst).count i)

/-- What a step does, in terms of the instances. -/
theorem step_cases (hs : Succession.step key ttl s a = some s') :
    ∃ w, World.step key ttl s.world.forget a = some w ∧
      ((∃ i, s.world.tryLockResult key a = some (i, true) ∧
        s' = ⟨w, s.acquisitions ++ [(i, (w.locks i).fencingToken)]⟩) ∨
      (∀ i, s.world.tryLockResult key a ≠ some (i, true)) ∧ s' = ⟨w, s.acquisitions⟩) := by
  rw [step] at hs
  split at hs
  · cases hs
  · next w hw =>
    split at hs
    · next i hret =>
      cases hs
      exact ⟨w, hw, .inl ⟨i, hret, rfl⟩⟩
    · next hret =>
      cases hs
      exact ⟨w, hw, .inr ⟨hret, rfl⟩⟩

theorem Inv.step (h : s.Inv) (hs : Succession.step key ttl s a = some s') : s'.Inv := by
  obtain ⟨w, hw, ⟨i, hret, rfl⟩ | ⟨hret, rfl⟩⟩ := step_cases hs
  · -- an acquisition: its token is the next number of its instance
    have htoken : (w.locks i).fencingToken =
        UInt64.ofNat ((s.acquisitions.map Prod.fst).count i + 1) := by
      obtain ⟨hlive, htoken⟩ := World.fencingToken_step hw i (World.caller_of_acquired hw hret)
      have hcounter := h.counter i hlive
      rw [htoken.trans (if_pos hret), UInt64.ofNat_add, ← hcounter]
      rfl
    refine ⟨?_, fun j hj ↦ ?_⟩
    · rw [htoken]
      exact h.numbered.snoc i
    · obtain ⟨hlive, hj⟩ := World.fencingToken_step hw j hj
      rw [List.map_append, List.count_append, List.map_singleton]
      by_cases hji : j = i
      · subst hji
        rw [List.count_singleton_self]
        exact htoken
      · have hret' : s.world.tryLockResult key a ≠ some (j, true) := by
          rw [hret]
          simpa using Ne.symm hji
        rw [List.count_eq_zero_of_not_mem (l := [i]) (by simpa using hji), Nat.add_zero]
        exact (hj.trans (if_neg hret')).trans (h.counter j hlive)
  · refine ⟨h.numbered, fun j hj ↦ ?_⟩
    obtain ⟨hlive, hj⟩ := World.fencingToken_step hw j hj
    exact (hj.trans (if_neg (hret j))).trans (h.counter j hlive)

theorem inv_run {now : ℤ} {as : List (Act ι)} (hrun : (system key ttl).Run (init now) as s) :
    s.Inv :=
  hrun.invariant (motive := Inv) (fun _ _ _ h hs ↦ h.step hs) ⟨.nil, fun _ _ ↦ rfl⟩

/-- **When fencing tokens order the holders**: in a run, every acquisition reports a smaller token
than every later one if and only if all the acquisitions are made by one instance, and there are
fewer of them than the counter can hold. -/
theorem ordered_iff {now : ℤ} {as : List (Act ι)} (hrun : (system key ttl).Run (init now) as s) :
    s.acquisitions.Pairwise (fun p q ↦ p.2 < q.2) ↔
      (∀ p ∈ s.acquisitions, ∀ q ∈ s.acquisitions, p.1 = q.1) ∧
        s.acquisitions.length < UInt64.size :=
  (inv_run hrun).numbered.pairwise_iff

/-- Instance `i` takes the lock, with the number `n` in its token, and gives it back. -/
def lockUnlock (i : ℕ) (n : UInt64) : List (Act ℕ) :=
  [.tryLock i n, .lease i, .unlock i, .renewCheck i, .unlockGet i, .unlockDel i]

/-- One instance, twice. -/
theorem ordered_iff_same_instance :
    ∃ s : Succession ℕ ℤ, (system (lit "lock") fun _ ↦ 30).Run (init 0)
        (lockUnlock 0 10 ++ lockUnlock 0 11) s ∧ s.acquisitions = [(0, 1), (0, 2)] ∧
      s.acquisitions.Pairwise (fun p q ↦ p.2 < q.2) := by
  obtain ⟨s, hrun, hacq⟩ : ∃ s : Succession ℕ ℤ, (system (lit "lock") fun _ ↦ 30).Run (init 0)
      (lockUnlock 0 10 ++ lockUnlock 0 11) s ∧ s.acquisitions = [(0, 1), (0, 2)] :=
    System.Run.exists_of_any (by decide +kernel)
  refine ⟨s, hrun, hacq, (ordered_iff hrun).2 ?_⟩
  rw [hacq]
  decide

/-- Two instances, one after the other: the second holder has the token of the first. -/
theorem second_instance_reports_same_token :
    ∃ s : Succession ℕ ℤ, (system (lit "lock") fun _ ↦ 30).Run (init 0)
        (lockUnlock 0 10 ++ lockUnlock 1 11) s ∧ s.acquisitions = [(0, 1), (1, 1)] ∧
      ¬ s.acquisitions.Pairwise (fun p q ↦ p.2 < q.2) := by
  obtain ⟨s, hrun, hacq⟩ : ∃ s : Succession ℕ ℤ, (system (lit "lock") fun _ ↦ 30).Run (init 0)
      (lockUnlock 0 10 ++ lockUnlock 1 11) s ∧ s.acquisitions = [(0, 1), (1, 1)] :=
    System.Run.exists_of_any (by decide +kernel)
  refine ⟨s, hrun, hacq, ?_⟩
  rw [hacq]
  decide

end Succession

end Redis
end ChwellCore
