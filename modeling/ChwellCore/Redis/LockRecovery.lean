import ChwellCore.Redis.DistributedLock

/-!
# What becomes of a lock whose holder dies

The instances of `ChwellCore.Redis.DistributedLock`, any of which may stop for ever between two of
its steps.  The time to live is there for this case: when it has run out, the next `try_lock` should
find the key free.

It does not.  `SETNX` is a command that does not look at deadlines, so it finds the entry of the
dead instance for as long as nothing else removes it (`dead_lock_stays`).  What removes it is a
`DEL`, or a `GET` that comes when the deadline has passed, and no `try_lock` issues either of them.
An instance that dies between `SETNX` and `EXPIRE` leaves an entry that not even a `GET` removes.

`recovers_iff` says when `try_lock` returns `true`, in every state that can be reached: if since the
last `try_lock` on the key one of those two commands has taken the entry away, and if the instance
has joined the renew thread of its last lock.
-/

set_option autoImplicit false

namespace ChwellCore
namespace Redis

variable {ι F : Type}

/-! ## One step, as the key sees it -/

namespace Act

/-- The instance that takes the step. -/
def actor : Act ι → Option ι
  | .tick => none
  | .tryLock i _ | .lease i | .unlock i | .unlockGet i | .unlockDel i | .renewCheck i | .renewGet i
  | .renewExpire i => some i

/-- Whether the step is a command on the key. -/
def isCommand : Act ι → Bool
  | .tryLock _ _ | .lease _ | .unlockGet _ | .unlockDel _ | .renewGet _ | .renewExpire _ => true
  | .tick | .unlock _ | .renewCheck _ => false

/-- What the step does to the entry of the key. -/
def onKey (ttl : ι → Int32) (now : ℤ) (s : Slot F) : Act ι → Slot F
  | .tryLock _ n => if s.data.isNone then { s with data := some (generateToken n) } else s
  | .lease i | .renewExpire i =>
    if s.data.isSome then { s with expires := some (now + (ttl i).toInt) } else s
  | .unlockGet _ | .renewGet _ => checkExpire now s
  | .unlockDel _ => .empty
  | .tick | .unlock _ | .renewCheck _ => s

end Act

namespace World

variable [DecidableEq ι] [Double F] {key : Bytes} {ttl : ι → Int32} {w w' : World ι F} {a : Act ι}

omit [Double F] in
@[simp] theorem put_locks_self (w : World ι F) (i : ι) (l : DistributedLock) (c : RedisClient F) :
    (w.put i l c).locks i = l := by
  simp only [put, Function.update_self]

omit [Double F] in
theorem put_locks_of_ne (w : World ι F) {i j : ι} (h : j ≠ i) (l : DistributedLock)
    (c : RedisClient F) : (w.put i l c).locks j = w.locks j := by
  simp only [put, Function.update_of_ne h]

omit [DecidableEq ι] in
theorem expire_onKey (w : World ι F) (seconds : Int32) :
    (RedisClient.expire w.now key seconds w.redis).2 key =
      if (w.redis key).data.isSome then
        { w.redis key with expires := some (w.now + seconds.toInt) }
      else w.redis key := by
  rw [RedisClient.expire_eq]
  split
  · exact Function.update_self key _ _
  · rfl

omit [DecidableEq ι] in
theorem setnx_onKey (w : World ι F) (value : Bytes) :
    (RedisClient.setnx w.now key value w.redis).2 key =
      if (w.redis key).data.isNone then { w.redis key with data := some value }
      else w.redis key := by
  rw [RedisClient.setnx_eq]
  split
  · exact Function.update_self key _ _
  · rfl

/-- What a step does besides to the instance that takes it. -/
structure Frame (key : Bytes) (ttl : ι → Int32) (w : World ι F) (a : Act ι) (w' : World ι F) :
    Prop where
  onKey : w'.redis key = a.onKey ttl w.now (w.redis key)
  locks : ∀ j, a.actor ≠ some j → w'.locks j = w.locks j
  now : w.now ≤ w'.now

omit [Double F] in
theorem frame_put {i : ι} {l : DistributedLock} {c : RedisClient F} {drawn : UInt64 → Option ι}
    (hact : a.actor = some i) (hkey : c key = a.onKey ttl w.now (w.redis key)) :
    Frame key ttl w a (({ w with drawn } : World ι F).put i l c) where
  onKey := hkey
  locks _ hj := put_locks_of_ne _ (fun hji ↦ hj (hact.trans (congrArg some hji.symm))) l c
  now := le_refl w.now

theorem step_frame (hs : step key ttl w a = some w') : Frame key ttl w a w' := by
  cases a with
  | tick =>
    cases hs
    exact ⟨rfl, fun _ _ ↦ rfl, (lt_add_one w.now).le⟩
  | tryLock i n =>
    simp only [step] at hs
    obtain ⟨-, hs⟩ := Option.ite_none_right_eq_some.1 hs
    split at hs <;> cases hs <;> exact frame_put rfl (setnx_onKey w _)
  | lease i | renewExpire i =>
    simp only [step] at hs
    split at hs <;> cases hs
    exact frame_put rfl (expire_onKey w _)
  | unlock i | renewCheck i =>
    simp only [step] at hs
    split at hs <;> cases hs
    exact frame_put rfl rfl
  | unlockGet i | renewGet i =>
    simp only [step] at hs
    obtain ⟨-, hs⟩ := Option.ite_none_right_eq_some.1 hs
    split at hs <;> cases hs <;> exact frame_put rfl (get_slot w)
  | unlockDel i =>
    simp only [step] at hs
    split at hs <;> cases hs
    refine frame_put rfl ?_
    rw [RedisClient.del_eq]
    exact Function.update_self key _ _

/-- What a step makes of the instance that takes it. -/
inductive Moves (l : DistributedLock) : Act ι → DistributedLock → Prop
  | refused (i : ι) (n : UInt64) : l.caller = .idle → Moves l (.tryLock i n) l
  | stored (i : ι) (n : UInt64) : l.caller = .idle →
      Moves l (.tryLock i n) { l with caller := .leasing (generateToken n) }
  | lease (i : ι) (token : Bytes) (lease : ℤ) : l.caller = .leasing token →
      Moves l (.lease i) (l.acquire token lease)
  | unlock (i : ι) : l.caller = .idle → Moves l (.unlock i) l.beginUnlock
  | joined (i : ι) : l.caller = .unlocking →
      Moves l (.unlockGet i) { l with renewer := .absent, caller := .deleting }
  | joinedLate (i : ι) : l.caller = .unlocking →
      Moves l (.unlockGet i) { l.endUnlock with renewer := .absent }
  | deleted (i : ι) : l.caller = .deleting → Moves l (.unlockDel i) l.endUnlock
  | checked (i : ι) (next : Renewer) : l.renewer = .waiting → next ≠ .absent →
      Moves l (.renewCheck i) { l with renewer := next }
  | matched (i : ι) : l.renewer = .checked → Moves l (.renewGet i) { l with renewer := .matched }
  | lost (i : ι) : l.renewer = .checked →
      Moves l (.renewGet i) { l with locked := false, renewer := .finished }
  | renewed (i : ι) (lease : ℤ) : l.renewer = .matched →
      Moves l (.renewExpire i) { l with renewer := .waiting, lease }

theorem step_moves (hs : step key ttl w a = some w') {i : ι} (hact : a.actor = some i) :
    Moves (w.locks i) a (w'.locks i) := by
  rcases a with _ | ⟨j, n⟩ | j | j | j | j | j | j | j <;> cases hact
  case tryLock =>
    obtain ⟨⟨hidle, -⟩, hs⟩ := Option.ite_none_right_eq_some.1 hs
    split at hs <;> cases hs <;> rw [put_locks_self]
    · exact .stored i n hidle
    · exact .refused i n hidle
  case lease =>
    simp only [step] at hs
    split at hs <;> cases hs
    next token hcaller =>
    rw [put_locks_self]
    exact .lease i token _ hcaller
  case unlock =>
    obtain ⟨hidle, hs⟩ := Option.ite_none_right_eq_some.1 hs
    obtain rfl := Option.some.inj hs
    rw [put_locks_self]
    exact .unlock i hidle
  case unlockGet =>
    obtain ⟨⟨hcaller, -⟩, hs⟩ := Option.ite_none_right_eq_some.1 hs
    split at hs <;> cases hs <;> rw [put_locks_self]
    · exact .joined i hcaller
    · exact .joinedLate i hcaller
  case unlockDel =>
    obtain ⟨hcaller, hs⟩ := Option.ite_none_right_eq_some.1 hs
    obtain rfl := Option.some.inj hs
    rw [put_locks_self]
    exact .deleted i hcaller
  case renewCheck =>
    obtain ⟨hwaiting, hs⟩ := Option.ite_none_right_eq_some.1 hs
    obtain rfl := Option.some.inj hs
    rw [put_locks_self]
    refine .checked i _ hwaiting ?_
    split <;> exact Renewer.noConfusion
  case renewGet =>
    obtain ⟨hchecked, hs⟩ := Option.ite_none_right_eq_some.1 hs
    split at hs <;> cases hs <;> rw [put_locks_self]
    · exact .matched i hchecked
    · exact .lost i hchecked
  case renewExpire =>
    obtain ⟨hmatched, hs⟩ := Option.ite_none_right_eq_some.1 hs
    obtain rfl := Option.some.inj hs
    rw [put_locks_self]
    exact .renewed i _ hmatched

/-- An instance between `SETNX` and `EXPIRE` stays there until its own next step, and gets no renew
thread before. -/
theorem step_leasing (hs : step key ttl w a = some w') {i : ι} {t : Bytes}
    (hcaller : (w.locks i).caller = .leasing t) (ha : a ≠ .lease i) :
    (w'.locks i).caller = .leasing t ∧
      ((w.locks i).renewer = .absent → (w'.locks i).renewer = .absent) := by
  by_cases hact : a.actor = some i
  · have hm := step_moves hs hact
    generalize w.locks i = l at hcaller hm ⊢
    generalize w'.locks i = l' at hm ⊢
    cases hm with
    | refused _ _ hc | stored _ _ hc | unlock _ hc | joined _ hc | joinedLate _ hc | deleted _ hc =>
      rw [hcaller] at hc
      cases hc
    | lease j => exact absurd (congrArg Act.lease (Option.some.inj hact)) ha
    | checked _ _ hr | matched _ hr | lost _ hr | renewed _ _ hr =>
      exact ⟨hcaller, fun habsent ↦ by rw [habsent] at hr; cases hr⟩
  · rw [(step_frame hs).locks i hact]
    exact ⟨hcaller, id⟩

/-- `try_lock` up to `SETNX`. -/
theorem step_tryLock {i : ι} {n : UInt64} (hs : step key ttl w (.tryLock i n) = some w') :
    w'.locks i = if (w.redis key).data.isNone then
        { w.locks i with caller := .leasing (generateToken n) } else w.locks i := by
  simp only [step] at hs
  obtain ⟨-, hs⟩ := Option.ite_none_right_eq_some.1 hs
  rw [RedisClient.setnx_eq] at hs
  split
  · next hnone =>
    simp only [hnone, if_true] at hs
    cases hs
    rw [put_locks_self]
  · next hsome =>
    simp only [hsome] at hs
    cases hs
    rw [put_locks_self]

end World

/-! ## Whose entry it is -/

namespace DistributedLock

variable {l : DistributedLock} {t : Bytes}

/-- The token that the instance takes for the one under the key. -/
def ownToken (l : DistributedLock) : Option Bytes :=
  match l.caller with
  | .leasing t => some t
  | .idle | .unlocking | .deleting | .terminated => if l.locked then some l.lockToken else none

/-- The instance takes the entry with this token for its own. -/
def Owns (l : DistributedLock) (t : Bytes) : Prop := l.ownToken = some t

instance : Decidable (l.Owns t) := inferInstanceAs (Decidable (_ = _))

theorem owns_of_leasing (h : l.caller = .leasing t) : l.Owns t := by
  rw [Owns, ownToken, h]

/-- Outside `try_lock` it is the token of the last lock. -/
theorem owns_iff (h : ∀ t', l.caller ≠ .leasing t') :
    l.Owns t ↔ l.locked = true ∧ l.lockToken = t := by
  have hlast : (if l.locked = true then some l.lockToken else none) = some t ↔
      l.locked = true ∧ l.lockToken = t := by
    by_cases hlocked : l.locked = true <;> simp [hlocked]
  rw [Owns, ownToken]
  split
  · next t' ht => exact absurd ht (h t')
  all_goals exact hlast

theorem Owns.token_eq (h : l.Owns t) {token : Bytes} (hcaller : l.caller = .leasing token) :
    token = t := by
  rw [Owns, ownToken, hcaller] at h
  exact Option.some_inj.1 h

theorem owns_acquire (t : Bytes) (lease : ℤ) (l : DistributedLock) :
    (l.acquire t lease).Owns t := by
  rw [acquire]
  split <;> rfl

theorem Owns.beginUnlock (h : l.Owns t) (hidle : l.caller = .idle) : l.beginUnlock.Owns t := by
  obtain ⟨hlocked, htoken⟩ := (owns_iff fun _ ↦ by rw [hidle]; exact Caller.noConfusion).1 h
  rw [DistributedLock.beginUnlock, if_pos hlocked]
  exact (owns_iff fun _ ↦ Caller.noConfusion).2 ⟨hlocked, htoken⟩

end DistributedLock

namespace World

open DistributedLock (Owns)

variable [DecidableEq ι] [Double F] {key : Bytes} {ttl : ι → Int32} {w w' : World ι F} {a : Act ι}
  {i : ι} {t : Bytes}

omit [DecidableEq ι] in
/-- A string that is still there after a `GET` is what it answers. -/
theorem get_of_data (h : (checkExpire w.now (w.redis key)).data = some t) :
    (RedisClient.get w.now key w.redis).1 = t := by
  rw [RedisClient.get_eq, h]
  rfl

theorem owns_tryLock {n : UInt64} (hs : step key ttl w (.tryLock i n) = some w')
    (howns : (w.locks i).Owns t) (hdata : (w'.redis key).data = some t) : (w'.locks i).Owns t := by
  rw [(step_frame hs).onKey, Act.onKey] at hdata
  rw [step_tryLock hs]
  split
  · next hnone =>
    -- the entry is the one that this very step has stored
    rw [if_pos hnone, Option.some_inj] at hdata
    exact DistributedLock.owns_of_leasing (congrArg Caller.leasing hdata)
  · exact howns

theorem owns_unlockGet (hs : step key ttl w (.unlockGet i) = some w')
    (howns : (w.locks i).Owns t) (hdata : (w'.redis key).data = some t) : (w'.locks i).Owns t := by
  rw [(step_frame hs).onKey] at hdata
  simp only [step] at hs
  obtain ⟨henabled, hs⟩ := Option.ite_none_right_eq_some.1 hs
  have hlocked := (DistributedLock.owns_iff
    fun _ ↦ by rw [henabled.1]; exact Caller.noConfusion).1 howns
  split at hs
  · cases hs
    rw [put_locks_self]
    exact (DistributedLock.owns_iff fun _ ↦ Caller.noConfusion).2 hlocked
  · next hother => exact absurd ((get_of_data hdata).trans hlocked.2.symm) hother

theorem owns_renewGet (hs : step key ttl w (.renewGet i) = some w')
    (howns : (w.locks i).Owns t) (hdata : (w'.redis key).data = some t) : (w'.locks i).Owns t := by
  rw [(step_frame hs).onKey] at hdata
  simp only [step] at hs
  obtain ⟨-, hs⟩ := Option.ite_none_right_eq_some.1 hs
  split at hs
  · cases hs
    rw [put_locks_self]
    exact howns
  · next hother =>
    cases hs
    rw [put_locks_self]
    by_cases hleasing : ∃ t', (w.locks i).caller = .leasing t'
    · obtain ⟨t', ht'⟩ := hleasing
      cases howns.token_eq ht'
      exact DistributedLock.owns_of_leasing ht'
    · push Not at hleasing
      have hlocked := (DistributedLock.owns_iff hleasing).1 howns
      exact absurd ((get_of_data hdata).trans hlocked.2.symm) hother

/-- An instance gives up an entry only when it is gone. -/
theorem owns_step (hs : step key ttl w a = some w') (howns : (w.locks i).Owns t)
    (hdata : (w'.redis key).data = some t) : (w'.locks i).Owns t := by
  by_cases hact : a.actor = some i
  · cases a with
    | tick => cases hact
    | tryLock j n =>
      cases hact
      exact owns_tryLock hs howns hdata
    | lease j =>
      cases hact
      simp only [step] at hs
      split at hs
      · next token hcaller =>
        cases hs
        rw [put_locks_self, howns.token_eq hcaller]
        exact DistributedLock.owns_acquire t _ _
      · cases hs
    | unlock j =>
      cases hact
      simp only [step] at hs
      obtain ⟨hidle, hs⟩ := Option.ite_none_right_eq_some.1 hs
      obtain rfl := Option.some.inj hs
      rw [put_locks_self]
      exact howns.beginUnlock hidle
    | unlockGet j =>
      cases hact
      exact owns_unlockGet hs howns hdata
    | unlockDel j =>
      rw [(step_frame hs).onKey] at hdata
      cases hdata
    | renewGet j =>
      cases hact
      exact owns_renewGet hs howns hdata
    | renewCheck j | renewExpire j =>
      cases hact
      simp only [step] at hs
      split at hs <;> cases hs
      rw [put_locks_self]
      exact howns
  · rw [(step_frame hs).locks i hact]
    exact howns

/-- The entry is that of some instance, and has a deadline unless that instance has still to set
it. -/
def Owned (key : Bytes) (w : World ι F) : Prop :=
  ∀ t, (w.redis key).data = some t → ∃ i, (w.locks i).Owns t ∧
    ((w.redis key).expires = none → (w.locks i).caller = .leasing t)

omit [DecidableEq ι] [Double F] in
/-- A `GET` removes an entry or leaves it alone. -/
theorem checkExpire_eq_or (now : ℤ) (s : Slot F) :
    checkExpire now s = .empty ∨ checkExpire now s = s := by
  by_cases hexp : s.Expired now
  · exact .inl (checkExpire_of_expired hexp)
  · exact .inr (checkExpire_of_not_expired hexp)

omit [DecidableEq ι] [Double F] in
/-- Only a `SETNX` on a key that is not there stores a string. -/
theorem data_of_onKey {now : ℤ} {s : Slot F} (h : (a.onKey ttl now s).data = some t) :
    s.data = some t ∨
      s.data.isNone = true ∧ ∃ i n, a = .tryLock i n ∧ generateToken n = t := by
  cases a with
  | tryLock i n =>
    rw [Act.onKey] at h
    split at h
    · next hnone => exact .inr ⟨hnone, i, n, rfl, Option.some_inj.1 h⟩
    · exact .inl h
  | lease i | renewExpire i =>
    rw [Act.onKey] at h
    split at h <;> exact .inl h
  | unlockGet i | renewGet i =>
    rw [Act.onKey] at h
    rcases checkExpire_eq_or now s with heq | heq <;> rw [heq] at h
    · cases h
    · exact .inl h
  | unlockDel i => cases h
  | tick | unlock i | renewCheck i => exact .inl h

omit [DecidableEq ι] [Double F] in
/-- No command takes the deadline from a string and leaves the string. -/
theorem expires_of_onKey {now : ℤ} {s : Slot F} (hs : s.data = some t)
    (h : (a.onKey ttl now s).data = some t) (hnone : (a.onKey ttl now s).expires = none) :
    s.expires = none ∧ ∀ i, a ≠ .lease i := by
  have hsome : s.data.isSome = true := by rw [hs]; rfl
  cases a with
  | tryLock i n =>
    rw [Act.onKey, if_neg (by rw [hs]; exact Bool.false_ne_true)] at hnone
    exact ⟨hnone, fun _ he ↦ by cases he⟩
  | lease i | renewExpire i =>
    rw [Act.onKey, if_pos hsome] at hnone
    cases hnone
  | unlockGet i | renewGet i =>
    rw [Act.onKey] at h hnone
    rcases checkExpire_eq_or now s with heq | heq <;> rw [heq] at h hnone
    · cases h
    · exact ⟨hnone, fun _ he ↦ by cases he⟩
  | unlockDel i => cases h
  | tick | unlock i | renewCheck i => exact ⟨hnone, fun _ he ↦ by cases he⟩

theorem Owned.step (h : w.Owned key) (hs : step key ttl w a = some w') : w'.Owned key := by
  intro t hdata
  have hdata' := hdata
  rw [(step_frame hs).onKey] at hdata'
  rcases data_of_onKey hdata' with hold | ⟨hnone, i, n, rfl, rfl⟩
  · obtain ⟨i, howns, hcaller⟩ := h t hold
    refine ⟨i, owns_step hs howns hdata, fun hexp ↦ ?_⟩
    rw [(step_frame hs).onKey] at hexp
    obtain ⟨hexp, hlease⟩ := expires_of_onKey hold hdata' hexp
    exact (step_leasing hs (hcaller hexp) (hlease i)).1
  · have hcaller : (w'.locks i).caller = .leasing (generateToken n) := by
      rw [step_tryLock hs, if_pos hnone]
    exact ⟨i, DistributedLock.owns_of_leasing hcaller, fun _ ↦ hcaller⟩

end World

/-! ## Instances that may die -/

/-- A step of an instance or of the clock, or the end of an instance. -/
inductive Event (ι : Type) where
  | act (a : Act ι)
  | die (i : ι)

/-- The event is a `try_lock` up to `SETNX`. -/
def Event.IsTryLock (e : Event ι) : Prop := ∃ i n, e = .act (.tryLock i n)

/-- The world, the instances that take no more steps, and the time of the last command on the
key. -/
structure Fleet (ι F : Type) where
  world : World ι F
  dead : ι → Bool
  lastCommand : Option ℤ

namespace Fleet

def init (now : ℤ) : Fleet ι F := ⟨.init now, fun _ ↦ false, none⟩

/-- The instance can still take steps: it has not died, nor has `std::terminate` ended it. -/
def Live (s : Fleet ι F) (i : ι) : Prop :=
  s.dead i = false ∧ (s.world.locks i).caller ≠ .terminated

variable [DecidableEq ι] [Double F] (key : Bytes) (ttl : ι → Int32)

/-- One event; `none` if the thread is not there. -/
def step (s : Fleet ι F) : Event ι → Option (Fleet ι F)
  | .act a =>
    if a.actor.any s.dead then none
    else (World.step key ttl s.world a).map fun w ↦
      ⟨w, s.dead, if a.isCommand then some s.world.now else s.lastCommand⟩
  | .die i => some { s with dead := Function.update s.dead i true }

/-- All interleavings, with a death at any point. -/
def system : System (Fleet ι F) (Event ι) := System.ofPartial (step key ttl)

/-- The instance holds the key: what is stored is the token it takes for its own. -/
def HoldsKey (s : Fleet ι F) (i : ι) : Prop :=
  ∃ t, (s.world.redis key).data = some t ∧ (s.world.locks i).Owns t

/-- No live instance holds the key, and every time to live has passed since the last command. -/
structure Abandoned (s : Fleet ι F) : Prop where
  no_holder : ∀ i, s.Live i → ¬ s.HoldsKey key i
  quiet : ∀ last, s.lastCommand = some last → ∀ i, last + (ttl i).toInt ≤ s.world.now

/-- The instance can call `try_lock`, and its generator may draw this number. -/
structure Ready (s : Fleet ι F) (i : ι) (n : UInt64) : Prop where
  live : s.Live i
  idle : (s.world.locks i).caller = .idle
  undrawn : s.world.drawn n = none

/-- The `try_lock` that the instance calls now returns `true`, whatever the others do before it
comes to its second command. -/
def TryLockReturns (s : Fleet ι F) (i : ι) (n : UInt64) : Prop :=
  ∃ s', step key ttl s (.act (.tryLock i n)) = some s' ∧
    s.world.tryLockResult key (.tryLock i n) = none ∧
    ∀ es s'', (system key ttl).Run s' es s'' → (∀ e ∈ es, e ≠ .die i ∧ e ≠ .act (.lease i)) →
      (step key ttl s'' (.act (.lease i))).isSome = true ∧
        s''.world.tryLockResult key (.lease i) = some (i, true)

/-- The event takes the entry away: a `DEL`, or a `GET` that finds its deadline past. -/
def Clears (s : Fleet ι F) : Event ι → Prop
  | .act (.unlockDel _) => True
  | .act (.unlockGet _) | .act (.renewGet _) => (s.world.redis key).Expired s.world.now
  | .act .tick | .act (.tryLock _ _) | .act (.lease _) | .act (.unlock _) | .act (.renewCheck _)
  | .act (.renewExpire _) | .die _ => False

/-- There was no `try_lock`, or there has been none since an event that cleared the key. -/
def Cleared (now : ℤ) (es : List (Event ι)) : Prop :=
  (∀ e ∈ es, ¬ e.IsTryLock) ∨
    (system key ttl).Since Event.IsTryLock (Clears key) (init now : Fleet ι F) es

/-- The entry is that of an instance that takes no more steps, and its deadline has passed, or the
instance has ended before it set one. -/
def LeftBehind (s : Fleet ι F) : Prop :=
  ∃ i t, ¬ s.Live i ∧ (s.world.redis key).data = some t ∧ (s.world.locks i).Owns t ∧
    ((s.world.redis key).Expired s.world.now ∨
      (s.world.redis key).expires = none ∧ (s.world.locks i).caller = .leasing t)

variable {key} {ttl} {s s' : Fleet ι F} {e : Event ι}

/-- What an event can be. -/
theorem step_cases (hs : step key ttl s e = some s') :
    (∃ a, e = .act a ∧ World.step key ttl s.world a = some s'.world ∧
      (∀ i, a.actor = some i → s.dead i = false) ∧ s'.dead = s.dead ∧
      s'.lastCommand = if a.isCommand then some s.world.now else s.lastCommand) ∨
    ∃ i, e = .die i ∧ s' = { s with dead := Function.update s.dead i true } := by
  cases e with
  | act a =>
    rw [step] at hs
    obtain ⟨halive, hs⟩ := Option.ite_none_left_eq_some.1 hs
    obtain ⟨w, hw, rfl⟩ := Option.map_eq_some_iff.1 hs
    refine .inl ⟨a, rfl, hw, fun i hi ↦ ?_, rfl, rfl⟩
    rw [hi, Option.any_some, Bool.not_eq_true] at halive
    exact halive
  | die i =>
    cases hs
    exact .inr ⟨i, rfl, rfl⟩

/-- The invariant: the entry is that of some instance, and the last command on the key is not too
old for its deadline. -/
structure Inv (key : Bytes) (ttl : ι → Int32) (s : Fleet ι F) : Prop where
  owned : s.world.Owned key
  last_le : ∀ last, s.lastCommand = some last → last ≤ s.world.now
  deadline : ∀ d, (s.world.redis key).expires = some d →
    ∃ last i, s.lastCommand = some last ∧ d ≤ last + (ttl i).toInt

omit [DecidableEq ι] [Double F] in
/-- A deadline that a step has not set was there before. -/
theorem expires_onKey {now d : ℤ} {k : Slot F} {a : Act ι}
    (h : (a.onKey ttl now k).expires = some d) :
    k.expires = some d ∨ a.isCommand = true ∧ ∃ i, d = now + (ttl i).toInt := by
  cases a with
  | tryLock i n =>
    rw [Act.onKey] at h
    split at h <;> exact .inl h
  | lease i | renewExpire i =>
    rw [Act.onKey] at h
    split at h
    · exact .inr ⟨rfl, i, (Option.some_inj.1 h).symm⟩
    · exact .inl h
  | unlockGet i | renewGet i =>
    rw [Act.onKey] at h
    rcases World.checkExpire_eq_or now k with heq | heq <;> rw [heq] at h
    · cases h
    · exact .inl h
  | unlockDel i => cases h
  | tick | unlock i | renewCheck i => exact .inl h

theorem Inv.step (h : s.Inv key ttl) (hs : step key ttl s e = some s') : s'.Inv key ttl := by
  obtain ⟨a, rfl, hw, -, -, hlast⟩ | ⟨i, rfl, rfl⟩ := step_cases hs
  · have hnow := (World.step_frame hw).now
    refine ⟨h.owned.step hw, fun last hl ↦ ?_, fun d hd ↦ ?_⟩
    · rw [hlast] at hl
      split at hl
      · cases hl
        exact hnow
      · exact (h.last_le last hl).trans hnow
    · rw [(World.step_frame hw).onKey] at hd
      rcases expires_onKey hd with hold | ⟨hcommand, i, rfl⟩
      · obtain ⟨last, i, hl, hle⟩ := h.deadline d hold
        rw [hlast]
        split
        · -- a later command only moves the deadline's bound on
          have := h.last_le last hl
          exact ⟨_, i, rfl, by omega⟩
        · exact ⟨last, i, hl, hle⟩
      · rw [hlast, if_pos hcommand]
        exact ⟨_, i, rfl, le_refl _⟩
  · exact ⟨h.owned, h.last_le, h.deadline⟩

omit [DecidableEq ι] [Double F] in
theorem inv_init (now : ℤ) : (init now : Fleet ι F).Inv key ttl := by
  refine ⟨?_, ?_, ?_⟩ <;> intro _ h <;> cases h

theorem inv_run {now : ℤ} {es : List (Event ι)} (hrun : (system key ttl).Run (init now) es s) :
    s.Inv key ttl :=
  hrun.invariant (motive := fun s ↦ s.Inv key ttl) (fun _ _ _ h hs ↦ h.step hs) (inv_init now)

omit [DecidableEq ι] [Double F] in
/-- What is stored under an abandoned key was left behind by an instance that takes no more
steps. -/
theorem Inv.leftBehind (h : s.Inv key ttl) (hab : s.Abandoned key ttl)
    (hdata : (s.world.redis key).data ≠ none) : s.LeftBehind key := by
  obtain ⟨t, ht⟩ := Option.ne_none_iff_exists'.1 hdata
  obtain ⟨i, howns, hcaller⟩ := h.owned t ht
  refine ⟨i, t, fun hlive ↦ hab.no_holder i hlive ⟨t, ht, howns⟩, ht, howns, ?_⟩
  rcases hexp : (s.world.redis key).expires with _ | d
  · exact .inr ⟨rfl, hcaller hexp⟩
  · obtain ⟨last, j, hlast, hle⟩ := h.deadline d hexp
    exact .inl ⟨d, hexp, hle.trans (hab.quiet last hlast j)⟩

/-! ## When the key is free -/

/-- After a `SETNX` there is an entry, a new one or an old one. -/
theorem data_tryLock (hs : step key ttl s e = some s') (he : e.IsTryLock) :
    (s'.world.redis key).data ≠ none := by
  obtain ⟨i, n, rfl⟩ := he
  obtain ⟨a, he, hw, -⟩ | ⟨i, he, -⟩ := step_cases hs
  · cases he
    rw [(World.step_frame hw).onKey, Act.onKey]
    split
    · exact Option.some_ne_none _
    · next hsome =>
      rw [Option.isNone_iff_eq_none] at hsome
      exact hsome
  · cases he

/-- Without a `SETNX` the key is free after an event if it was before, or if the event cleared
it. -/
theorem data_step (hs : step key ttl s e = some s') (he : ¬ e.IsTryLock) :
    (s'.world.redis key).data = none ↔ (s.world.redis key).data = none ∨ s.Clears key e := by
  obtain ⟨a, rfl, hw, -⟩ | ⟨i, rfl, rfl⟩ := step_cases hs
  · rw [(World.step_frame hw).onKey]
    cases a with
    | tryLock i n => exact absurd ⟨i, n, rfl⟩ he
    | lease i | renewExpire i =>
      refine Iff.trans ?_ (or_iff_left id).symm
      rw [Act.onKey]
      split <;> rfl
    | unlockGet i | renewGet i =>
      rw [Act.onKey, Clears]
      by_cases hexp : (s.world.redis key).Expired s.world.now
      · rw [checkExpire_of_expired hexp]
        exact iff_of_true rfl (.inr hexp)
      · rw [checkExpire_of_not_expired hexp]
        exact (or_iff_left hexp).symm
    | unlockDel i => exact iff_of_true rfl (.inr trivial)
    | tick | unlock i | renewCheck i => exact (or_iff_left id).symm
  · exact (or_iff_left id).symm

/-- The key is free when its last entry has been cleared. -/
theorem cleared_iff {now : ℤ} {es : List (Event ι)}
    (hrun : (system key ttl).Run (init now) es s) :
    Cleared (F := F) key ttl now es ↔ (s.world.redis key).data = none := by
  induction hrun with
  | nil => exact iff_of_true (.inl fun _ h ↦ absurd h List.not_mem_nil) rfl
  | @snoc es s s' e hrun hlast ih =>
    have hnone : (∀ e' ∈ es ++ [e], ¬ e'.IsTryLock) ↔
        (∀ e' ∈ es, ¬ e'.IsTryLock) ∧ ¬ e.IsTryLock := by
      rw [List.forall_mem_append, List.forall_mem_singleton]
    have hsince := System.since_snoc (P := Event.IsTryLock) (Q := Clears key) (l := e) hrun
    rw [Cleared, hnone, system, hsince]
    by_cases he : e.IsTryLock
    · refine iff_of_false ?_ (data_tryLock hlast he)
      obtain ⟨i, n, rfl⟩ := he
      rintro (⟨-, h⟩ | h | ⟨-, h⟩)
      · exact h ⟨i, n, rfl⟩
      · exact h
      · exact h ⟨i, n, rfl⟩
    · rw [data_step hlast he, ← ih, Cleared, system, and_iff_left he, and_iff_left he, or_assoc,
        or_comm (a := Clears key _ e)]

/-! ## When `try_lock` returns `true` -/

/-- The instance is between `SETNX` and `EXPIRE`, and nothing keeps it from returning `true`. -/
structure Pending (s : Fleet ι F) (i : ι) : Prop where
  live : s.dead i = false
  leasing : ∃ t, (s.world.locks i).caller = .leasing t
  joined : (s.world.locks i).renewer = .absent

theorem Pending.step {i : ι} (h : s.Pending i) (hs : step key ttl s e = some s')
    (he : e ≠ .die i ∧ e ≠ .act (.lease i)) : s'.Pending i := by
  obtain ⟨a, rfl, hw, -, hdead, -⟩ | ⟨j, rfl, rfl⟩ := step_cases hs
  · obtain ⟨t, ht⟩ := h.leasing
    obtain ⟨hcaller, hrenewer⟩ := World.step_leasing hw ht fun ha ↦ he.2 (congrArg Event.act ha)
    exact ⟨by rw [hdead]; exact h.live, ⟨t, hcaller⟩, hrenewer h.joined⟩
  · have hij : i ≠ j := fun hij ↦ he.1 (congrArg Event.die hij.symm)
    exact ⟨(Function.update_of_ne hij _ _).trans h.live, h.leasing, h.joined⟩

theorem Pending.run {i : ι} {es : List (Event ι)} (h : s.Pending i)
    (hrun : (system key ttl).Run s es s') (hes : ∀ e ∈ es, e ≠ .die i ∧ e ≠ .act (.lease i)) :
    s'.Pending i := by
  induction hrun with
  | nil => exact h
  | snoc _ hlast ih =>
    have hlast' := hes _ (List.mem_append_right _ (List.mem_singleton_self _))
    exact (ih fun e he ↦ hes e (List.mem_append_left _ he)).step hlast hlast'

theorem Pending.returns {i : ι} (h : s.Pending i) :
    (Fleet.step key ttl s (.act (.lease i))).isSome = true ∧
      s.world.tryLockResult key (.lease i) = some (i, true) := by
  obtain ⟨t, ht⟩ := h.leasing
  refine ⟨?_, if_pos h.joined⟩
  simp [Fleet.step, Act.actor, h.live, World.step, ht]

theorem exists_step_tryLock (key : Bytes) (ttl : ι → Int32) {i : ι} {n : UInt64}
    (h : s.Ready i n) : ∃ s', step key ttl s (.act (.tryLock i n)) = some s' := by
  rw [← Option.isSome_iff_exists]
  simp only [step, Act.actor, Option.any_some, h.live.1, Bool.false_eq_true, if_false,
    Option.isSome_map, World.step, h.idle, h.undrawn, and_self, if_true]
  split <;> rfl

omit [DecidableEq ι] in
theorem tryLockResult_tryLock {w : World ι F} {i : ι} {n : UInt64} :
    w.tryLockResult key (.tryLock i n) = none ↔ (w.redis key).data = none := by
  rw [World.tryLockResult, RedisClient.setnx_eq]
  rcases (w.redis key).data with _ | v
  · simp
  · simp

/-- `try_lock` returns `true` if the key is free, unless the assignment of the new renew thread
ends the process. -/
theorem tryLockReturns_iff {i : ι} {n : UInt64} (h : s.Ready i n) :
    s.TryLockReturns key ttl i n ↔
      (s.world.redis key).data = none ∧ (s.world.locks i).renewer = .absent := by
  obtain ⟨s', hs⟩ := exists_step_tryLock key ttl h
  obtain ⟨a, he, hw, -, hdead, -⟩ | ⟨j, he, -⟩ := step_cases hs
  · cases he
    have hlock (hdata : (s.world.redis key).data = none) : s'.world.locks i =
        { s.world.locks i with caller := .leasing (generateToken n) } := by
      rw [World.step_tryLock hw, hdata, Option.isNone_none, if_pos rfl]
    constructor
    · rintro ⟨s'', hs'', hres, hrest⟩
      have hdata := tryLockResult_tryLock.1 hres
      cases hs.symm.trans hs''
      have hjoined := (hrest [] s' .nil fun _ he ↦ by cases he).2
      rw [World.tryLockResult, hlock hdata] at hjoined
      refine ⟨hdata, ?_⟩
      by_contra hunjoined
      rw [if_neg hunjoined] at hjoined
      cases hjoined
    · rintro ⟨hdata, hjoined⟩
      have hpending : s'.Pending i := by
        refine ⟨?_, ⟨_, by rw [hlock hdata]⟩, ?_⟩
        · rw [hdead]
          exact h.live.1
        · rw [hlock hdata]
          exact hjoined
      exact ⟨s', hs, tryLockResult_tryLock.2 hdata, fun es s'' hrun hes ↦
        (hpending.run hrun hes).returns⟩
  · cases he

/-- **Recovery**: in every state that can be reached, the next `try_lock` returns `true` exactly if
the key has been cleared since the last one and the instance has joined its renew thread.  If no
live instance holds the key and the time to live has passed, what is not cleared is the entry of an
instance that takes no more steps, past its deadline or without one. -/
theorem recovers_iff {now : ℤ} {es : List (Event ι)} {i : ι} {n : UInt64}
    (hrun : (system key ttl).Run (init now) es s) (hready : s.Ready i n) :
    (s.TryLockReturns key ttl i n ↔
      Cleared (F := F) key ttl now es ∧ (s.world.locks i).renewer = .absent) ∧
    (s.Abandoned key ttl → ¬ Cleared (F := F) key ttl now es → s.LeftBehind key) := by
  rw [cleared_iff hrun]
  exact ⟨tryLockReturns_iff hready, (inv_run hrun).leftBehind⟩

instance (s : Fleet ι F) (i : ι) : Decidable (s.Live i) := inferInstanceAs (Decidable (_ ∧ _))

instance (s : Fleet ι F) (i : ι) : Decidable (s.HoldsKey key i) :=
  decidable_of_iff ((s.world.redis key).data.any fun t ↦ decide ((s.world.locks i).Owns t)) (by
    simp only [Option.any_eq_true, decide_eq_true_eq]
    rfl)

instance [Fintype ι] (s : Fleet ι F) : Decidable (s.Abandoned key ttl) :=
  decidable_of_iff ((∀ i, s.Live i → ¬ s.HoldsKey key i) ∧
    ∀ last ∈ s.lastCommand, ∀ i, last + (ttl i).toInt ≤ s.world.now)
    ⟨fun h ↦ ⟨h.1, h.2⟩, fun h ↦ ⟨h.1, h.2⟩⟩

instance (s : Fleet ι F) (i : ι) (n : UInt64) : Decidable (s.Ready i n) :=
  decidable_of_iff (s.Live i ∧ (s.world.locks i).caller = .idle ∧ s.world.drawn n = none)
    ⟨fun h ↦ ⟨h.1, h.2.1, h.2.2⟩, fun h ↦ ⟨h.1, h.2, h.3⟩⟩

/-- Instance 0 takes the lock for a second and dies, while instance 1 waits in `unlock`, with a lock
that it has lost, for the end of its renew thread.  The `GET` of this `unlock` comes when the second
is over. -/
def clearedInTime : List (Event (Fin 3)) :=
  [.act (.tryLock 1 10), .act (.lease 1), .act (.renewCheck 1), .act (.unlock 1), .act .tick,
    .act (.renewGet 1), .act (.tryLock 0 11), .act (.lease 0), .die 0, .act .tick,
    .act (.unlockGet 1), .act .tick]

theorem recovers_clearedInTime :
    ∃ s : Fleet (Fin 3) ℤ, (system (lit "lock") fun _ ↦ 1).Run (init 0) clearedInTime s ∧
      s.Abandoned (lit "lock") (fun _ ↦ 1) ∧ s.Ready 2 12 ∧
      s.TryLockReturns (lit "lock") (fun _ ↦ 1) 2 12 := by
  obtain ⟨s, hrun, hab, hready, hdata, hjoined⟩ : ∃ s : Fleet (Fin 3) ℤ,
      (system (lit "lock") fun _ ↦ 1).Run (init 0) clearedInTime s ∧
      s.Abandoned (lit "lock") (fun _ ↦ 1) ∧ s.Ready 2 12 ∧
      (s.world.redis (lit "lock")).data = none ∧ (s.world.locks 2).renewer = .absent :=
    System.Run.exists_of_any (by decide +kernel)
  exact ⟨s, hrun, hab, hready, (recovers_iff hrun hready).1.2 ⟨(cleared_iff hrun).2 hdata, hjoined⟩⟩

/-- Instance 0 takes the lock for a second and dies, and the second goes by. -/
def deadHolder : List (Event (Fin 2)) :=
  [.act (.tryLock 0 10), .act (.lease 0), .die 0, .act .tick]

/-- Nobody holds the lock then, but the `try_lock` of instance 1 returns `false`. -/
theorem dead_lock_stays :
    ∃ s : Fleet (Fin 2) ℤ, (system (lit "lock") fun _ ↦ 1).Run (init 0) deadHolder s ∧
      s.Abandoned (lit "lock") (fun _ ↦ 1) ∧ s.Ready 1 11 ∧
      s.world.tryLockResult (lit "lock") (.tryLock 1 11) = some (1, false) ∧
      ¬ s.TryLockReturns (lit "lock") (fun _ ↦ 1) 1 11 := by
  obtain ⟨s, hrun, hab, hready, hfalse⟩ : ∃ s : Fleet (Fin 2) ℤ,
      (system (lit "lock") fun _ ↦ 1).Run (init 0) deadHolder s ∧
      s.Abandoned (lit "lock") (fun _ ↦ 1) ∧ s.Ready 1 11 ∧
      s.world.tryLockResult (lit "lock") (.tryLock 1 11) = some (1, false) :=
    System.Run.exists_of_any (by decide +kernel)
  refine ⟨s, hrun, hab, hready, hfalse, ?_⟩
  rintro ⟨-, -, hnone, -⟩
  rw [hfalse] at hnone
  cases hnone

end Fleet

end Redis
end ChwellCore
