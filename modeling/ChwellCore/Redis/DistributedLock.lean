import ChwellCore.Lib.Run
import ChwellCore.Redis.Expiry

/-!
# The distributed lock

Any number of `DistributedLock` instances share one key of one `RedisClient`.  Each has a thread
that calls `try_lock` and `unlock` and, while it is locked, a thread that renews the lease.  A step
of the system is one command on the store together with the local code up to the next one, or a call
of `unlock`, or the renew thread's look at its two flags, or a second of the clock; the steps of all
the threads interleave freely.  `std::thread` adds one thing: to assign to a thread that has not
been joined ends the process, which is what happens to an instance that takes the lock again after
its renew thread has given up.

None of the three operations is one command.  `try_lock` is `SETNX` and then `EXPIRE`, and that is
safe: a key without a deadline does not go away by itself.  The other two ask for the value before
they act on the key, `unlock` with `GET` and `DEL` and the renew loop with `GET` and `EXPIRE`, and
by the time they act the key may have passed to somebody else.  `stale_del_breaks_exclusion` is such
a run: two instances hold the lock at once.

`exclusive` says that this is all that can go wrong.  In a run in which every `DEL` and every
`EXPIRE` after a `GET` still finds the instance's own token under the key (`InHands`), no `try_lock`
returns `true` while another instance holds the lock.
-/

set_option autoImplicit false

namespace ChwellCore
namespace Redis

/-- Where the thread that calls `try_lock` and `unlock` is. -/
inductive Caller where
  | idle
  /-- In `try_lock`, when `SETNX` has stored the token. -/
  | leasing (token : Bytes)
  /-- In `unlock`, waiting for the renew thread to end. -/
  | unlocking
  /-- In `unlock`, when `GET` has answered with the token. -/
  | deleting
  /-- In `std::terminate`. -/
  | terminated
deriving DecidableEq

/-- Where the renew thread is. -/
inductive Renewer where
  /-- There is none. -/
  | absent
  | waiting
  /-- Both flags were still set. -/
  | checked
  /-- `GET` has answered with the token. -/
  | matched
  /-- Out of the loop and not joined yet. -/
  | finished
deriving DecidableEq

/-- `DistributedLock`, and where its two threads are.  The last two fields are not in the code:
whether `try_lock` has returned `true` and `unlock` has not been called since, and the time of the
last `EXPIRE` plus the time to live. -/
structure DistributedLock where
  lockToken : Bytes
  locked : Bool
  renewRunning : Bool
  fencingToken : UInt64
  caller : Caller
  renewer : Renewer
  held : Bool
  lease : ℤ
deriving DecidableEq

namespace DistributedLock

/-- The constructor. -/
def fresh : DistributedLock := ⟨[], false, false, 0, .idle, .absent, false, 0⟩

/-- The rest of `try_lock` after `EXPIRE`. -/
def acquire (token : Bytes) (lease : ℤ) (l : DistributedLock) : DistributedLock :=
  let l := { l with lockToken := token, locked := true, fencingToken := l.fencingToken + 1,
                    renewRunning := true }
  if l.renewer = .absent then
    { l with caller := .idle, renewer := .waiting, held := true, lease := lease }
  else
    -- `renew_thread_` still holds the thread of an earlier lock
    { l with caller := .terminated, renewer := .absent, held := false }

/-- `unlock` up to the joining of the renew thread. -/
def beginUnlock (l : DistributedLock) : DistributedLock :=
  if l.locked then { l with caller := .unlocking, renewRunning := false, held := false }
  else { l with held := false }

/-- The end of `unlock`. -/
def endUnlock (l : DistributedLock) : DistributedLock :=
  { l with locked := false, lockToken := [], caller := .idle }

end DistributedLock

/-- `generate_token`, for the number that was drawn. -/
def generateToken (n : UInt64) : Bytes := natToDec n.toNat

/-- The clock, the store, the instances, and for each number that has been drawn the instance that
drew it. -/
structure World (ι F : Type) where
  now : ℤ
  redis : RedisClient F
  locks : ι → DistributedLock
  drawn : UInt64 → Option ι

/-- One step of one thread, or of the clock. -/
inductive Act (ι : Type) where
  | tick
  /-- `try_lock` up to `SETNX`, with the number drawn for the token. -/
  | tryLock (i : ι) (n : UInt64)
  /-- `EXPIRE` and the rest of `try_lock`. -/
  | lease (i : ι)
  /-- The call of `unlock`. -/
  | unlock (i : ι)
  | unlockGet (i : ι)
  | unlockDel (i : ι)
  /-- The renew thread wakes up and looks at its flags. -/
  | renewCheck (i : ι)
  | renewGet (i : ι)
  | renewExpire (i : ι)

namespace World

variable {ι F : Type}

/-- A store without keys, and instances that have not been used. -/
def init (now : ℤ) : World ι F := ⟨now, .fresh, fun _ ↦ .fresh, fun _ ↦ none⟩

/-- The instance holds the lock: it has acquired it and not called `unlock`, and its lease has not
run out. -/
def Holds (w : World ι F) (i : ι) : Prop := (w.locks i).held = true ∧ w.now < (w.locks i).lease

/-- The instance drew this token. -/
def Drew (w : World ι F) (i : ι) (token : Bytes) : Prop :=
  ∃ n, token = generateToken n ∧ w.drawn n = some i

variable [DecidableEq ι] [Double F]

/-- Replace an instance and the store. -/
def put (w : World ι F) (i : ι) (l : DistributedLock) (c : RedisClient F) : World ι F :=
  { w with locks := Function.update w.locks i l, redis := c }

variable (key : Bytes) (ttl : ι → Int32)

/-- One step; `none` if the thread is not there. -/
def step (w : World ι F) : Act ι → Option (World ι F)
  | .tick => some { w with now := w.now + 1 }
  | .tryLock i n =>
    let l := w.locks i
    if l.caller = .idle ∧ w.drawn n = none then
      let token := generateToken n
      let r := RedisClient.setnx w.now key token w.redis
      let w := { w with drawn := Function.update w.drawn n (some i) }
      if r.1 then some (w.put i { l with caller := .leasing token } r.2) else some (w.put i l r.2)
    else none
  | .lease i =>
    let l := w.locks i
    match l.caller with
    | .leasing token =>
      some (w.put i (l.acquire token (w.now + (ttl i).toInt))
        (RedisClient.expire w.now key (ttl i) w.redis).2)
    | _ => none
  | .unlock i =>
    let l := w.locks i
    if l.caller = .idle then some (w.put i l.beginUnlock w.redis) else none
  | .unlockGet i =>
    let l := w.locks i
    if l.caller = .unlocking ∧ (l.renewer = .absent ∨ l.renewer = .finished) then
      let l := { l with renewer := .absent }
      let r := RedisClient.get w.now key w.redis
      if r.1 = l.lockToken then some (w.put i { l with caller := .deleting } r.2)
      else some (w.put i l.endUnlock r.2)
    else none
  | .unlockDel i =>
    let l := w.locks i
    if l.caller = .deleting then some (w.put i l.endUnlock (RedisClient.del w.now key w.redis).2)
    else none
  | .renewCheck i =>
    let l := w.locks i
    if l.renewer = .waiting then
      let next : Renewer := if l.renewRunning && l.locked then .checked else .finished
      some (w.put i { l with renewer := next } w.redis)
    else none
  | .renewGet i =>
    let l := w.locks i
    if l.renewer = .checked then
      let r := RedisClient.get w.now key w.redis
      if r.1 = l.lockToken then some (w.put i { l with renewer := .matched } r.2)
      else some (w.put i { l with locked := false, renewer := .finished } r.2)
    else none
  | .renewExpire i =>
    let l := w.locks i
    if l.renewer = .matched then
      some (w.put i { l with renewer := .waiting, lease := w.now + (ttl i).toInt }
        (RedisClient.expire w.now key (ttl i) w.redis).2)
    else none

/-- The system of all interleavings. -/
def system : System (World ι F) (Act ι) := System.ofPartial (step key ttl)

/-- What a `try_lock` returns in this step, and whose it is. -/
def tryLockResult (w : World ι F) : Act ι → Option (ι × Bool)
  | .tryLock i n =>
    if (RedisClient.setnx w.now key (generateToken n) w.redis).1 then none else some (i, false)
  | .lease i => if (w.locks i).renewer = .absent then some (i, true) else none
  | _ => none

/-- The key has not passed to somebody else since the `GET` that the step relies on. -/
def InHands (w : World ι F) : Act ι → Prop
  | .unlockDel i => (w.redis key).data = none ∨ (w.redis key).data = some (w.locks i).lockToken
  | .renewExpire i => (w.redis key).data = some (w.locks i).lockToken
  | _ => True

/-! ## The invariant -/

section Invariant

variable {drew : Bytes → Prop} {now : ℤ} {s s' : Slot F} {l : DistributedLock}

/-- What an instance that has drawn the tokens `drew` can rely on at time `now`, when the key holds
`s`. -/
structure LockInv (drew : Bytes → Prop) (now : ℤ) (s : Slot F) (l : DistributedLock) : Prop where
  token : l.lockToken = [] ∨ drew l.lockToken
  held_token : l.held = true → l.lockToken ≠ []
  not_held : l.caller = .unlocking ∨ l.caller = .deleting → l.held = false
  leasing : ∀ t, l.caller = .leasing t →
    (drew t ∧ t ≠ l.lockToken) ∧ s.data = some t ∧ s.expires = none
  holds : l.held = true → now < l.lease →
    s.data = some l.lockToken ∧ ∃ deadline, s.expires = some deadline ∧ l.lease ≤ deadline

/-- The instance is about to set its lease, or has one that has not run out. -/
def Stake (now : ℤ) (l : DistributedLock) : Prop :=
  (∃ t, l.caller = .leasing t) ∨ (l.held = true ∧ now < l.lease)

omit [Double F] in
/-- The token of an instance with a stake is what is stored under the key. -/
theorem LockInv.data_of_stake (h : LockInv drew now s l) (hstake : Stake now l) :
    ∃ t, drew t ∧ s.data = some t := by
  rcases hstake with ⟨t, ht⟩ | ⟨hheld, hlease⟩
  · exact ⟨t, (h.leasing t ht).1.1, (h.leasing t ht).2.1⟩
  · exact ⟨_, h.token.resolve_left (h.held_token hheld), (h.holds hheld hlease).1⟩

omit [Double F] in
/-- A key in which an instance has a stake does not expire. -/
theorem LockInv.not_expired_of_stake (h : LockInv drew now s l) (hstake : Stake now l) :
    ¬ s.Expired now := by
  rintro ⟨deadline, hexp, hle⟩
  rcases hstake with ⟨t, ht⟩ | ⟨hheld, hlease⟩
  · rw [(h.leasing t ht).2.2] at hexp
    cases hexp
  · obtain ⟨-, deadline', hexp', hle'⟩ := h.holds hheld hlease
    rw [hexp, Option.some_inj] at hexp'
    omega

omit [Double F] in
/-- An instance without a stake does not mind what happens to the key. -/
theorem LockInv.frame (h : LockInv drew now s l) (hs : Stake now l → s' = s) :
    LockInv drew now s' l where
  token := h.token
  held_token := h.held_token
  not_held := h.not_held
  leasing t ht := by
    rw [hs (.inl ⟨t, ht⟩)]
    exact h.leasing t ht
  holds hheld hlease := by
    rw [hs (.inr ⟨hheld, hlease⟩)]
    exact h.holds hheld hlease

omit [Double F] in
theorem LockInv.mono {drew' : Bytes → Prop} (h : LockInv drew now s l)
    (hd : ∀ t, drew t → drew' t) :
    LockInv drew' now s l :=
  ⟨h.token.imp_right (hd _), h.held_token, h.not_held,
    fun t ht ↦ ⟨(h.leasing t ht).1.imp_left (hd t), (h.leasing t ht).2⟩, h.holds⟩

omit [Double F] in
theorem LockInv.of_not_held (ht : l.lockToken = [] ∨ drew l.lockToken) (hheld : l.held = false)
    (hcaller : ∀ t, l.caller ≠ .leasing t) : LockInv drew now s l where
  token := ht
  held_token h := by rw [hheld] at h; cases h
  not_held _ := hheld
  leasing t h := absurd h (hcaller t)
  holds h := by rw [hheld] at h; cases h

end Invariant

/-- The invariant of the system. -/
structure Inv (w : World ι F) : Prop where
  anchored : (w.redis key).Anchored
  locks : ∀ i, LockInv (w.Drew i) w.now (w.redis key) (w.locks i)

theorem generateToken_injective {m n : UInt64} (h : generateToken m = generateToken n) : m = n := by
  have hval := congrArg digitsVal h
  rw [generateToken, generateToken, digitsVal_natToDec, digitsVal_natToDec] at hval
  exact UInt64.toNat_inj.1 hval

omit [DecidableEq ι] [Double F] in
theorem Drew.ne_nil {w : World ι F} {i : ι} {t : Bytes} (h : w.Drew i t) : t ≠ [] := by
  obtain ⟨n, rfl, -⟩ := h
  exact natToDec_ne_nil _

omit [DecidableEq ι] [Double F] in
/-- No two instances draw the same token. -/
theorem Drew.unique {w : World ι F} {i j : ι} {t : Bytes} (hi : w.Drew i t) (hj : w.Drew j t) :
    i = j := by
  obtain ⟨m, rfl, hm⟩ := hi
  obtain ⟨n, hn, hj⟩ := hj
  rw [← generateToken_injective hn, hm, Option.some_inj] at hj
  exact hj

variable {key} {ttl}

omit [DecidableEq ι] [Double F] in
/-- If the token of one instance is stored under the key, no other instance has a stake in it. -/
theorem Inv.no_other_stake {w : World ι F} (h : w.Inv key) {i j : ι} (hij : j ≠ i) {t : Bytes}
    (ht : t = [] ∨ w.Drew i t) (hdata : (w.redis key).data = some t) :
    ¬ Stake w.now (w.locks j) := by
  intro hstake
  obtain ⟨t', ht', hdata'⟩ := (h.locks j).data_of_stake hstake
  rw [hdata, Option.some_inj] at hdata'
  subst hdata'
  rcases ht with rfl | ht
  · exact ht'.ne_nil rfl
  · exact hij (ht'.unique ht)

omit [Double F] in
/-- A step of one instance keeps the invariant if it keeps it for that instance, and touches the key
only if no other instance has a stake in it. -/
theorem Inv.put {w : World ι F} (h : w.Inv key) {i : ι} {l : DistributedLock} {c : RedisClient F}
    (hanch : (c key).Anchored) (hi : LockInv (w.Drew i) w.now (c key) l)
    (hj : ∀ j, j ≠ i → Stake w.now (w.locks j) → c key = w.redis key) : (w.put i l c).Inv key := by
  refine ⟨hanch, fun j ↦ ?_⟩
  show LockInv (w.Drew j) w.now (c key) (Function.update w.locks i l j)
  by_cases hji : j = i
  · subst hji
    rwa [Function.update_self]
  · rw [Function.update_of_ne hji]
    exact (h.locks j).frame (hj j hji)

omit [DecidableEq ι] in
theorem get_slot (w : World ι F) :
    (RedisClient.get w.now key w.redis).2 key = checkExpire w.now (w.redis key) := by
  rw [RedisClient.get_eq]
  exact Function.update_self key _ _

omit [DecidableEq ι] in
/-- A `GET` leaves a key alone in which somebody has a stake. -/
theorem Inv.get {w : World ι F} (h : w.Inv key) (i : ι) (hstake : Stake w.now (w.locks i)) :
    (RedisClient.get w.now key w.redis).2 key = w.redis key := by
  rw [get_slot]
  exact checkExpire_of_not_expired ((h.locks i).not_expired_of_stake hstake)

omit [DecidableEq ι] in
theorem Inv.anchored_get {w : World ι F} (h : w.Inv key) :
    ((RedisClient.get w.now key w.redis).2 key).Anchored := by
  rw [get_slot]
  exact anchored_checkExpire h.anchored w.now

omit [DecidableEq ι] in
/-- An `EXPIRE` on a key with a string. -/
theorem expire_slot {w : World ι F} {t : Bytes} (hdata : (w.redis key).data = some t)
    (seconds : Int32) :
    (RedisClient.expire w.now key seconds w.redis).2 key =
      { w.redis key with expires := some (w.now + seconds.toInt) } := by
  rw [RedisClient.expire_eq, if_pos (by rw [hdata]; rfl)]
  exact Function.update_self key _ _

omit [DecidableEq ι] [Double F] in
theorem Inv.tick {w : World ι F} (h : w.Inv key) :
    ({ w with now := w.now + 1 } : World ι F).Inv key where
  anchored := h.anchored
  locks i :=
    { h.locks i with holds := fun hheld hlease ↦
      (h.locks i).holds hheld (lt_trans (lt_add_one _) hlease) }

theorem Inv.tryLock {w w' : World ι F} (h : w.Inv key) {i : ι} {n : UInt64}
    (hs : step key ttl w (.tryLock i n) = some w') : w'.Inv key := by
  simp only [step] at hs
  obtain ⟨henabled, hs⟩ := Option.ite_none_right_eq_some.1 hs
  obtain ⟨hidle, hfresh⟩ := henabled
  -- the number is new, so nobody loses a token
  have hdraw : ({ w with drawn := Function.update w.drawn n (some i) } : World ι F).Inv key := by
    refine ⟨h.anchored, fun j ↦ (h.locks j).mono ?_⟩
    rintro t ⟨m, rfl, hm⟩
    refine ⟨m, rfl, ?_⟩
    have hmn : m ≠ n := fun he ↦ by rw [he, hfresh] at hm; cases hm
    exact (Function.update_of_ne hmn _ _).trans hm
  rw [RedisClient.setnx_eq] at hs
  by_cases hnone : (w.redis key).data.isNone = true
  · simp only [hnone, if_true, Option.some.injEq] at hs
    subst hs
    have hdata := Option.isNone_iff_eq_none.1 hnone
    have hno : ∀ j, ¬ Stake w.now (w.locks j) := by
      intro j hstake
      obtain ⟨t, -, ht⟩ := (h.locks j).data_of_stake hstake
      rw [hdata] at ht
      cases ht
    have hexp : (w.redis key).expires = none := by
      rcases he : (w.redis key).expires with _ | deadline
      · rfl
      · have := h.anchored (by rw [he]; rfl)
        rw [hdata] at this
        cases this
    refine hdraw.put ?_ ?_ fun j _ hstake ↦ absurd hstake (hno j)
    · rw [Function.update_self]
      exact fun _ ↦ rfl
    · rw [Function.update_self]
      refine ⟨(hdraw.locks i).token, (h.locks i).held_token, fun hc ↦ ?_, fun t ht ↦ ?_,
        fun hheld hlease ↦ ?_⟩
      · rcases hc with hc | hc <;> cases hc
      · cases ht
        refine ⟨⟨⟨n, rfl, Function.update_self n _ _⟩, fun he ↦ ?_⟩, rfl, hexp⟩
        rcases (h.locks i).token with hnil | ⟨m, hm, hdrawn⟩
        · exact natToDec_ne_nil _ (he.trans hnil)
        · rw [← generateToken_injective (he.trans hm), hfresh] at hdrawn
          cases hdrawn
      · exact absurd (.inr ⟨hheld, hlease⟩) (hno i)
  · simp only [hnone, Bool.false_eq_true, if_false, Option.some.injEq] at hs
    subst hs
    exact hdraw.put h.anchored (hdraw.locks i) fun _ _ _ ↦ rfl

theorem Inv.lease {w w' : World ι F} (h : w.Inv key) {i : ι}
    (hs : step key ttl w (.lease i) = some w') : w'.Inv key := by
  simp only [step] at hs
  split at hs
  · next token hcaller =>
    simp only [Option.some.injEq] at hs
    subst hs
    obtain ⟨⟨hdrew, -⟩, hdata, -⟩ := (h.locks i).leasing token hcaller
    refine h.put ?_ ?_ fun j hji hstake ↦ absurd hstake (h.no_other_stake hji (.inr hdrew) hdata)
    · rw [expire_slot hdata]
      exact fun _ ↦ by rw [hdata]; rfl
    · rw [expire_slot hdata, DistributedLock.acquire]
      split
      · refine ⟨.inr hdrew, fun _ ↦ hdrew.ne_nil, fun hc ↦ ?_, fun t ht ↦ ?_, fun _ _ ↦ ?_⟩
        · rcases hc with hc | hc <;> cases hc
        · cases ht
        · exact ⟨hdata, _, rfl, le_refl _⟩
      · exact .of_not_held (.inr hdrew) rfl fun t ht ↦ by cases ht
  · cases hs

theorem Inv.unlock {w w' : World ι F} (h : w.Inv key) {i : ι}
    (hs : step key ttl w (.unlock i) = some w') : w'.Inv key := by
  simp only [step] at hs
  obtain ⟨hidle, hs⟩ := Option.ite_none_right_eq_some.1 hs
  simp only [Option.some.injEq] at hs
  subst hs
  refine h.put h.anchored ?_ fun _ _ _ ↦ rfl
  rw [DistributedLock.beginUnlock]
  split
  · exact .of_not_held (h.locks i).token rfl fun t ht ↦ by cases ht
  · exact .of_not_held (h.locks i).token rfl fun t ht ↦ by rw [hidle] at ht; cases ht

theorem Inv.unlockGet {w w' : World ι F} (h : w.Inv key) {i : ι}
    (hs : step key ttl w (.unlockGet i) = some w') : w'.Inv key := by
  simp only [step] at hs
  obtain ⟨henabled, hs⟩ := Option.ite_none_right_eq_some.1 hs
  have hheld := (h.locks i).not_held (.inl henabled.1)
  have hframe : ∀ j, j ≠ i → Stake w.now (w.locks j) →
      (RedisClient.get w.now key w.redis).2 key = w.redis key := fun j _ ↦ h.get j
  split at hs
  · cases hs
    exact h.put h.anchored_get (.of_not_held (h.locks i).token hheld fun t ht ↦ by cases ht)
      hframe
  · cases hs
    exact h.put h.anchored_get (.of_not_held (.inl rfl) hheld fun t ht ↦ by cases ht) hframe

theorem Inv.unlockDel {w w' : World ι F} (h : w.Inv key) {i : ι} (hg : w.InHands key (.unlockDel i))
    (hs : step key ttl w (.unlockDel i) = some w') : w'.Inv key := by
  simp only [step] at hs
  obtain ⟨hdeleting, hs⟩ := Option.ite_none_right_eq_some.1 hs
  have hheld := (h.locks i).not_held (.inr hdeleting)
  cases hs
  have hslot : (RedisClient.del w.now key w.redis).2 key = .empty := by
    rw [RedisClient.del_eq]
    exact Function.update_self key _ _
  refine h.put ?_ ?_ fun j hji hstake ↦ ?_
  · rw [hslot]
    exact anchored_empty
  · exact .of_not_held (.inl rfl) hheld fun t ht ↦ by cases ht
  · rcases hg with hnone | hown
    · obtain ⟨t, -, ht⟩ := (h.locks j).data_of_stake hstake
      rw [hnone] at ht
      cases ht
    · exact absurd hstake (h.no_other_stake hji (h.locks i).token hown)

theorem Inv.renewCheck {w w' : World ι F} (h : w.Inv key) {i : ι}
    (hs : step key ttl w (.renewCheck i) = some w') : w'.Inv key := by
  simp only [step] at hs
  obtain ⟨-, hs⟩ := Option.ite_none_right_eq_some.1 hs
  obtain rfl := Option.some.inj hs
  have hi := h.locks i
  exact h.put h.anchored ⟨hi.token, hi.held_token, hi.not_held, hi.leasing, hi.holds⟩
    fun _ _ _ ↦ rfl

theorem Inv.renewGet {w w' : World ι F} (h : w.Inv key) {i : ι}
    (hs : step key ttl w (.renewGet i) = some w') : w'.Inv key := by
  simp only [step] at hs
  obtain ⟨-, hs⟩ := Option.ite_none_right_eq_some.1 hs
  have hi := (h.locks i).frame (h.get i)
  split at hs <;> cases hs
  all_goals
    exact h.put h.anchored_get ⟨hi.token, hi.held_token, hi.not_held, hi.leasing, hi.holds⟩
      fun j _ ↦ h.get j

theorem Inv.renewExpire {w w' : World ι F} (h : w.Inv key) {i : ι}
    (hg : w.InHands key (.renewExpire i))
    (hs : step key ttl w (.renewExpire i) = some w') : w'.Inv key := by
  simp only [step] at hs
  obtain ⟨-, hs⟩ := Option.ite_none_right_eq_some.1 hs
  obtain rfl := Option.some.inj hs
  have hi := h.locks i
  have hslot := expire_slot hg (ttl i)
  refine h.put ?_ ?_ fun j hji hstake ↦ absurd hstake (h.no_other_stake hji hi.token hg)
  · rw [hslot]
    exact fun _ ↦ by rw [hg]; rfl
  · rw [hslot]
    refine ⟨hi.token, hi.held_token, hi.not_held, fun t ht ↦ ?_, fun _ _ ↦
      ⟨hg, _, rfl, le_refl _⟩⟩
    -- the token of a pending `try_lock` is not the one that the loop has found
    obtain ⟨⟨-, hne⟩, hdata, -⟩ := hi.leasing t ht
    rw [InHands, hdata, Option.some_inj] at hg
    exact absurd hg hne

/-- Every step that finds the key in the hands it relies on keeps the invariant. -/
theorem Inv.step {w w' : World ι F} (h : w.Inv key) {a : Act ι} (hg : w.InHands key a)
    (hs : World.step key ttl w a = some w') : w'.Inv key := by
  cases a with
  | tick =>
    cases hs
    exact h.tick
  | tryLock i n => exact h.tryLock hs
  | lease i => exact h.lease hs
  | unlock i => exact h.unlock hs
  | unlockGet i => exact h.unlockGet hs
  | unlockDel i => exact h.unlockDel hg hs
  | renewCheck i => exact h.renewCheck hs
  | renewGet i => exact h.renewGet hs
  | renewExpire i => exact h.renewExpire hg hs

omit [DecidableEq ι] [Double F] in
theorem inv_init (now : ℤ) : (init now : World ι F).Inv key :=
  ⟨anchored_empty, fun _ ↦ .of_not_held (.inl rfl) rfl fun _ ht ↦ by cases ht⟩

theorem inv_run {now : ℤ} {as : List (Act ι)} {w : World ι F}
    (hrun : ((system key ttl).guarded (InHands key)).Run (init now) as w) : w.Inv key :=
  hrun.invariant (motive := fun w ↦ w.Inv key) (fun _ _ _ h hs ↦ h.step hs.1 hs.2) (inv_init now)

/-! ## Mutual exclusion -/

/-- **Mutual exclusion**: in every run in which each `DEL` and each renewing `EXPIRE` still finds
the token of its own instance under the key, no `try_lock` returns `true` while another instance
holds the lock. -/
theorem exclusive {now : ℤ} {as : List (Act ι)} {w w' : World ι F} {a : Act ι} {j : ι}
    (hrun : ((system key ttl).guarded (InHands key)).Run (init now) as w)
    (hstep : World.step key ttl w a = some w') (hret : w.tryLockResult key a = some (j, true)) :
    ∀ i, w.Holds i → i = j := by
  intro i hi
  have h := inv_run hrun
  cases a with
  | lease k =>
    simp only [tryLockResult] at hret
    obtain ⟨-, hret⟩ := Option.ite_none_right_eq_some.1 hret
    cases hret
    simp only [World.step] at hstep
    split at hstep
    · next token hcaller =>
      obtain ⟨⟨hdrew, -⟩, hdata, -⟩ := (h.locks j).leasing token hcaller
      by_contra hik
      exact h.no_other_stake hik (.inr hdrew) hdata (.inr hi)
    · cases hstep
  | tryLock k n =>
    simp only [tryLockResult] at hret
    split at hret <;> cases hret
  | tick | unlock k | unlockGet k | unlockDel k | renewCheck k | renewGet k | renewExpire k =>
      cases hret

/-! ## Two runs -/

instance (w : World ι F) (i : ι) : Decidable (w.Holds i) := inferInstanceAs (Decidable (_ ∧ _))

instance (w : World ι F) (a : Act ι) : Decidable (w.InHands key a) :=
  match a with
  | .unlockDel _ => inferInstanceAs (Decidable (_ ∨ _))
  | .renewExpire _ => inferInstanceAs (Decidable (_ = _))
  | .tick | .tryLock _ _ | .lease _ | .unlock _ | .unlockGet _ | .renewCheck _ | .renewGet _ =>
    .isTrue trivial

/-- Instance 0 takes the lock for a second and gives it back, and instance 1 stores its token. -/
def handOver : List (Act ℕ) :=
  [.tryLock 0 10, .lease 0, .unlock 0, .renewCheck 0, .unlockGet 0, .unlockDel 0, .tryLock 1 11]

theorem exclusive_handOver :
    ∃ w w' : World ℕ ℤ,
      ((system (lit "lock") fun _ ↦ 1).guarded (InHands (lit "lock"))).Run (init 0) handOver w ∧
      World.step (lit "lock") (fun _ ↦ 1) w (.lease 1) = some w' ∧
      w.tryLockResult (lit "lock") (.lease 1) = some (1, true) ∧ ∀ i, w.Holds i → i = 1 := by
  obtain ⟨w, hrun, hsome, hret⟩ : ∃ w : World ℕ ℤ,
      ((system (lit "lock") fun _ ↦ 1).guarded (InHands (lit "lock"))).Run (init 0) handOver w ∧
      (World.step (lit "lock") (fun _ ↦ 1) w (.lease 1)).isSome = true ∧
      w.tryLockResult (lit "lock") (.lease 1) = some (1, true) :=
    System.Run.exists_of_any_guarded (by decide +kernel)
  obtain ⟨w', hstep⟩ := Option.isSome_iff_exists.1 hsome
  exact ⟨w, w', hrun, hstep, hret, exclusive hrun hstep hret⟩

/-- Four instances with a time to live of one second.  Instance 0 loses its lease while it waits in
`unlock` for its renew thread, whose `GET` removes the key.  Instance 1 takes the lock, and its
`unlock` finds its own token; then its lease runs out, the `GET` of instance 0 removes the key,
instance 2 takes the lock, and the `DEL` of instance 1 removes the key of instance 2. -/
def staleDel : List (Act ℕ) :=
  [.tryLock 0 10, .lease 0, .renewCheck 0, .unlock 0, .tick, .renewGet 0,
    .tryLock 1 11, .lease 1, .unlock 1, .renewCheck 1, .unlockGet 1, .tick, .unlockGet 0,
    .tryLock 2 12, .lease 2, .unlockDel 1, .tryLock 3 13]

/-- After these steps the `try_lock` of instance 3 returns `true` while instance 2 holds the lock.
-/
theorem stale_del_breaks_exclusion :
    ∃ w w' : World ℕ ℤ, (system (lit "lock") fun _ ↦ 1).Run (init 0) staleDel w ∧
      World.step (lit "lock") (fun _ ↦ 1) w (.lease 3) = some w' ∧
      w.tryLockResult (lit "lock") (.lease 3) = some (3, true) ∧ w.Holds 2 := by
  obtain ⟨w, hrun, hsome, hlast⟩ : ∃ w : World ℕ ℤ,
      (system (lit "lock") fun _ ↦ 1).Run (init 0) staleDel w ∧
      (World.step (lit "lock") (fun _ ↦ 1) w (.lease 3)).isSome = true ∧
      w.tryLockResult (lit "lock") (.lease 3) = some (3, true) ∧ w.Holds 2 :=
    System.Run.exists_of_any (by decide +kernel)
  obtain ⟨w', hstep⟩ := Option.isSome_iff_exists.1 hsome
  exact ⟨w, w', hrun, hstep, hlast⟩

end World

end Redis
end ChwellCore
