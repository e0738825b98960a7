import ChwellCore.Redis.Client

/-!
# Lazy expiry

A key whose deadline has passed stays in the tables until some branch of `execute` runs
`check_expire` on it.  Expiry is *transparent* for a command when nobody can tell this from a store
that had dropped all the expired keys beforehand: the reply is the same, and so is what can be
observed of the store afterwards (`Transparent`).

Two of the thirty-two branches on a key begin with `check_expire`, `GET` and `EXISTS`.  Every other
branch works on whatever it finds, and `KeyCommand.Unseen` says for each of them which leftovers of
an expired key it does not notice.  `transparent_iff` is the exact answer: in every reachable state,
expiry is transparent for a command if and only if its key has not expired, or the command is one of
the two, or it does not notice.  For `SET`, `SETNX`, `EXPIRE`, `TTL`, `INCR`, `HSET`, `LPUSH`,
`RPUSH` and `SADD` it always does.
-/

set_option autoImplicit false

namespace ChwellCore
namespace Redis

section Observe

variable {F : Type}

/-- The deadline of the key has passed at time `t`. -/
def Slot.Expired (t : ℤ) (s : Slot F) : Prop := ∃ deadline, s.expires = some deadline ∧ deadline ≤ t

theorem checkExpire_of_expired {t : ℤ} {s : Slot F} (h : s.Expired t) :
    checkExpire t s = .empty := by
  obtain ⟨deadline, hs, hle⟩ := h
  rw [checkExpire, hs]
  exact if_pos hle

theorem checkExpire_of_not_expired {t : ℤ} {s : Slot F} (h : ¬ s.Expired t) :
    checkExpire t s = s := by
  rw [checkExpire]
  split
  · next deadline hs => exact if_neg fun hle ↦ h ⟨deadline, hs, hle⟩
  · rfl

theorem not_expired_empty (t : ℤ) : ¬ (Slot.empty : Slot F).Expired t := by
  rintro ⟨_, h, _⟩
  cases h

@[simp] theorem checkExpire_empty (t : ℤ) : checkExpire t (.empty : Slot F) = .empty := rfl

theorem checkExpire_checkExpire (t : ℤ) (s : Slot F) :
    checkExpire t (checkExpire t s) = checkExpire t s := by
  by_cases h : s.Expired t
  · rw [checkExpire_of_expired h, checkExpire_empty]
  · rw [checkExpire_of_not_expired h, checkExpire_of_not_expired h]

/-- What commands can find out about a key.  An empty hash table or set is the same as none.  For a
list or a sorted set it is not: `LRANGE` and `ZRANGE` convert their bounds only if there is one. -/
def Slot.view (s : Slot F) : Slot F :=
  { s with hash := some (s.hash.getD ∅), set := some (s.set.getD []) }

/-- The store without the keys that have expired at time `t`. -/
def purge (t : ℤ) (c : RedisClient F) : RedisClient F := fun k ↦ checkExpire t (c k)

/-- What can be observed of a store at time `t`, if expired keys cannot be. -/
def observe (t : ℤ) (c : RedisClient F) : RedisClient F := fun k ↦ (purge t c k).view

end Observe

variable {F : Type} [Double F]

/-! ## What a command does not notice -/

/-- At time `t` nobody can tell whether the key of the command was dropped at its deadline. -/
def KeyCommand.Transparent (t : ℤ) (cmd : KeyCommand) (s : Slot F) : Prop :=
  (cmd.exec t s).1 = (cmd.exec t (checkExpire t s)).1 ∧
    (checkExpire t (cmd.exec t s).2).view = (checkExpire t (cmd.exec t (checkExpire t s)).2).view

/-- The command does not notice what an expired key has left behind. -/
def KeyCommand.Unseen (cmd : KeyCommand) (s : Slot F) : Prop :=
  match cmd with
  | .get | .exists => True
  | .set _ | .setnx _ | .expire _ | .ttl | .incr | .hset _ _ | .lpush _ | .rpush _ | .sadd _ =>
      False
  | .setex secs _ =>
    ∃ n, stoll secs = .ok n ∧
      (0 < n → s.hash.getD ∅ = ∅ ∧ s.list = none ∧ s.set.getD [] = [] ∧ s.zset = none)
  | .incrby inc =>
    ∃ e, stoll inc = .error e ∧ ∀ v, s.data = some v → ∀ e', stoll v = .error e' → e' = e
  | .hget f | .hexists f | .hdel f => s.hash.bind (AList.lookup f) = none
  | .hgetall | .hlen => s.hash.getD ∅ = ∅
  | .lpop | .rpop | .llen => s.list.getD [] = []
  | .lrange i j => ∀ l, s.list = some l → ∃ a b, stoll i = .ok a ∧ stoll j = .ok b ∧
      slice l a b = []
  | .srem m | .sismember m => m ∉ s.set.getD []
  | .smembers | .scard => s.set.getD [] = []
  | .zadd score _ => ∃ e, Double.stod (F := F) score = .error e
  | .zrange i j => ∀ z, s.zset = some z → ∃ a b, stoll i = .ok a ∧ stoll j = .ok b ∧
      slice z a b = []
  | .zrem m | .zscore m | .zrank m => m ∉ (s.zset.getD []).map Prod.snd
  | .zcard => s.zset.getD [] = []

/-- The commands that leave the deadline alone. -/
def KeyCommand.keepsDeadline : KeyCommand → Bool
  | .setex _ _ | .get | .exists | .expire _ => false
  | _ => true

theorem KeyCommand.exec_expires {cmd : KeyCommand} (h : cmd.keepsDeadline = true) (t : ℤ)
    (s : Slot F) :
    (cmd.exec t s).2.expires = s.expires := by
  refine exec_frame .expires ?_ t s
  cases cmd with
  | setex secs v | get | «exists» | expire secs => cases h
  | _ => rfl

/-- A command that leaves the deadline of an expired key alone changes nothing that can be observed,
so it has to do the same on a key that does not exist. -/
theorem KeyCommand.transparent_of_keepsDeadline {t : ℤ} {cmd : KeyCommand} {s : Slot F}
    (h : s.Expired t) (hk : cmd.keepsDeadline = true) :
    cmd.Transparent t s ↔ (cmd.exec t s).1 = (cmd.exec t (.empty : Slot F)).1 ∧
      (cmd.exec t (.empty : Slot F)).2.view = Slot.empty.view := by
  have hstale : (cmd.exec t s).2.Expired t := by
    rw [Slot.Expired, exec_expires hk]
    exact h
  have hfresh : ¬ (cmd.exec t (.empty : Slot F)).2.Expired t := by
    rw [Slot.Expired, exec_expires hk]
    exact not_expired_empty t
  rw [KeyCommand.Transparent, checkExpire_of_expired h, checkExpire_of_expired hstale,
    checkExpire_of_not_expired hfresh]
  exact and_congr_right fun _ ↦ eq_comm

/-- A command that would make a missing key visible is not transparent. -/
theorem KeyCommand.not_transparent_of_visible {t : ℤ} {cmd : KeyCommand} {s : Slot F}
    (h : s.Expired t) (hk : cmd.keepsDeadline = true)
    (hvis : (cmd.exec t (.empty : Slot F)).2.view ≠ Slot.empty.view) : ¬ cmd.Transparent t s := by
  rw [transparent_of_keepsDeadline h hk]
  exact fun hboth ↦ hvis hboth.2

/-- A command that leaves a missing key as it is has only its reply to show. -/
theorem KeyCommand.transparent_of_invisible {t : ℤ} {cmd : KeyCommand} {s : Slot F}
    (h : s.Expired t) (hk : cmd.keepsDeadline = true)
    (hinv : (cmd.exec t (.empty : Slot F)).2.view = Slot.empty.view) :
    cmd.Transparent t s ↔ (cmd.exec t s).1 = (cmd.exec t (.empty : Slot F)).1 := by
  rw [transparent_of_keepsDeadline h hk]
  exact and_iff_left hinv

theorem rangeReply_eq_nil {α : Type} {l : List α} {f : α → Bytes} {i j : Bytes} :
    rangeReply l f i j = .ok (.array []) ↔
      ∃ a b, stoll i = .ok a ∧ stoll j = .ok b ∧ slice l a b = [] := by
  rw [rangeReply]
  cases stoll i with
  | error e => simp
  | ok a =>
    cases stoll j with
    | error e => simp
    | ok b => simp

theorem entries_eq_nil {m : UnorderedMap Bytes Bytes} : m.entries = [] ↔ m = ∅ :=
  ⟨fun h ↦ AList.ext h, fun h ↦ congrArg AList.entries h⟩

/-! ### The four that touch the deadline -/

theorem transparent_setex {t : ℤ} {s : Slot F} {secs v : Bytes} (h : s.Expired t) :
    (KeyCommand.setex secs v).Transparent t s ↔ (KeyCommand.setex secs v).Unseen s := by
  rw [KeyCommand.Transparent, checkExpire_of_expired h]
  simp only [KeyCommand.exec, KeyCommand.Unseen]
  cases stoll secs with
  | error e =>
    -- the value has been stored, on the expired key where nobody sees it
    have hstale : ({ s with data := some v } : Slot F).Expired t := h
    rw [checkExpire_of_expired hstale]
    simp [checkExpire, Slot.empty, Slot.view]
  | ok n =>
    simp only [true_and, Except.ok.injEq, exists_eq_left']
    by_cases hn : 0 < n
    · have hlive : ¬ t + n ≤ t := by omega
      simp [checkExpire, hlive, Slot.empty, Slot.view, hn]
    · have hdead : t + n ≤ t := by omega
      simp [checkExpire, hdead, hn]

theorem not_transparent_expire {t : ℤ} {s : Slot F} {secs : Bytes} (h : s.Expired t)
    (ha : s.data.isSome = true) : ¬ (KeyCommand.expire secs).Transparent t s := by
  rw [KeyCommand.Transparent, checkExpire_of_expired h]
  simp only [KeyCommand.exec, ha]
  cases stoll secs <;> simp [Slot.empty]

/-! ### The strings -/

theorem transparent_incrby {t : ℤ} {s : Slot F} {inc : Bytes} (h : s.Expired t)
    (ha : s.data.isSome = true) :
    (KeyCommand.incrby inc).Transparent t s ↔ (KeyCommand.incrby inc).Unseen s := by
  obtain ⟨v, hv⟩ := Option.isSome_iff_exists.1 ha
  rw [KeyCommand.transparent_of_keepsDeadline h rfl]
  simp only [KeyCommand.exec, KeyCommand.Unseen, Slot.empty, hv, Option.elim_some, Option.elim_none]
  cases stoll inc with
  | ok n => simp [Slot.view]
  | error e => cases hval : stoll v <;> simp [hval]

theorem not_transparent_ttl {t : ℤ} {s : Slot F} (h : s.Expired t) (ha : s.data.isSome = true) :
    ¬ KeyCommand.ttl.Transparent t s := by
  obtain ⟨deadline, hexp, -⟩ := id h
  obtain ⟨v, hv⟩ := Option.isSome_iff_exists.1 ha
  rw [KeyCommand.transparent_of_invisible h rfl rfl]
  simp only [KeyCommand.exec, Slot.empty, hv, hexp, Option.isNone_some, Option.isNone_none]
  simp
  omega

/-! ### The containers -/

theorem transparent_hash {t : ℤ} {s : Slot F} (h : s.Expired t) (f : Bytes) :
    ((KeyCommand.hget f).Transparent t s ↔ (KeyCommand.hget f).Unseen s) ∧
    ((KeyCommand.hexists f).Transparent t s ↔ (KeyCommand.hexists f).Unseen s) ∧
    ((KeyCommand.hdel f).Transparent t s ↔ (KeyCommand.hdel f).Unseen s) := by
  refine ⟨?_, ?_, ?_⟩ <;>
    rw [KeyCommand.transparent_of_invisible h rfl rfl] <;>
    simp only [KeyCommand.exec, KeyCommand.Unseen, Slot.empty, Option.bind_none] <;>
    cases s.hash.bind (AList.lookup f) <;> simp [boolReply]

theorem transparent_range {t : ℤ} {s : Slot F} (h : s.Expired t) (i j : Bytes) :
    ((KeyCommand.lrange i j).Transparent t s ↔ (KeyCommand.lrange i j).Unseen s) ∧
    ((KeyCommand.zrange i j).Transparent t s ↔ (KeyCommand.zrange i j).Unseen s) := by
  constructor
  · rw [KeyCommand.transparent_of_invisible h rfl rfl]
    simp only [KeyCommand.exec, KeyCommand.Unseen, Slot.empty]
    cases s.list with
    | none => simp
    | some l => simpa using rangeReply_eq_nil
  · rw [KeyCommand.transparent_of_invisible h rfl rfl]
    simp only [KeyCommand.exec, KeyCommand.Unseen, Slot.empty]
    cases s.zset with
    | none => simp
    | some z => simpa using rangeReply_eq_nil

theorem transparent_list {t : ℤ} {s : Slot F} (h : s.Expired t) :
    (KeyCommand.lpop.Transparent t s ↔ KeyCommand.lpop.Unseen s) ∧
    (KeyCommand.rpop.Transparent t s ↔ KeyCommand.rpop.Unseen s) ∧
    (KeyCommand.llen.Transparent t s ↔ KeyCommand.llen.Unseen s) := by
  refine ⟨?_, ?_, ?_⟩ <;>
    rw [KeyCommand.transparent_of_invisible h rfl rfl] <;>
    simp only [KeyCommand.exec, KeyCommand.Unseen, Slot.empty]
  · rcases s.list with _ | _ | ⟨v, l⟩ <;> simp
  · rcases s.list with _ | _ | ⟨v, l⟩ <;> simp [List.getLast?_cons]
  · simp

theorem transparent_set {t : ℤ} {s : Slot F} (h : s.Expired t) (m : Bytes) :
    ((KeyCommand.srem m).Transparent t s ↔ (KeyCommand.srem m).Unseen s) ∧
    ((KeyCommand.sismember m).Transparent t s ↔ (KeyCommand.sismember m).Unseen s) := by
  refine ⟨?_, ?_⟩ <;>
    rw [KeyCommand.transparent_of_invisible h rfl rfl] <;>
    simp [KeyCommand.exec, KeyCommand.Unseen, Slot.empty, boolReply]

theorem transparent_zadd {t : ℤ} {s : Slot F} (h : s.Expired t) (score m : Bytes) :
    (KeyCommand.zadd score m).Transparent t s ↔ (KeyCommand.zadd score m).Unseen s := by
  rw [KeyCommand.transparent_of_keepsDeadline h rfl]
  simp only [KeyCommand.exec, KeyCommand.Unseen]
  cases Double.stod (F := F) score with
  | error e => simp
  | ok x => simp [Slot.empty, Slot.view]

theorem transparent_zset {t : ℤ} {s : Slot F} (h : s.Expired t) (m : Bytes) :
    ((KeyCommand.zrem m).Transparent t s ↔ (KeyCommand.zrem m).Unseen s) ∧
    ((KeyCommand.zscore m).Transparent t s ↔ (KeyCommand.zscore m).Unseen s) ∧
    ((KeyCommand.zrank m).Transparent t s ↔ (KeyCommand.zrank m).Unseen s) := by
  have hfind (z : List (F × Bytes)) : m ∉ z.map Prod.snd ↔ (z.find? fun p ↦ p.2 == m) = none := by
    rw [List.find?_eq_none]
    simp only [List.mem_map, not_exists, not_and, beq_iff_eq]
  have hidx (z : List (F × Bytes)) : m ∉ z.map Prod.snd ↔ (z.findIdx? fun p ↦ p.2 == m) = none := by
    rw [List.findIdx?_eq_none_iff]
    simp only [List.mem_map, not_exists, not_and, beq_eq_false_iff_ne, ne_eq]
  refine ⟨?_, ?_, ?_⟩ <;>
    rw [KeyCommand.transparent_of_invisible h rfl rfl] <;>
    simp only [KeyCommand.exec, KeyCommand.Unseen, Slot.empty]
  · simp [boolReply]
  · rw [hfind]
    cases (s.zset.getD []).find? fun p ↦ p.2 == m <;> simp
  · rw [hidx]
    cases (s.zset.getD []).findIdx? fun p ↦ p.2 == m <;> simp

/-- **An expired key and a command**: nobody can tell, exactly if the command does not notice. -/
theorem KeyCommand.transparent_iff_unseen {t : ℤ} {cmd : KeyCommand} {s : Slot F} (h : s.Expired t)
    (ha : s.Anchored) : cmd.Transparent t s ↔ cmd.Unseen s := by
  have hd : s.data.isSome = true := ha (by rw [h.choose_spec.1]; rfl)
  cases cmd with
  | get | «exists» =>
    rw [KeyCommand.Transparent]
    simp [KeyCommand.exec, KeyCommand.Unseen, checkExpire_of_expired h]
  | setex secs v => exact transparent_setex h
  | expire secs => exact iff_false_intro (not_transparent_expire h hd)
  | ttl => exact iff_false_intro (not_transparent_ttl h hd)
  | incrby inc => exact transparent_incrby h hd
  | set v | setnx v | incr | hset f v | lpush v | rpush v | sadd m =>
    refine iff_false_intro (not_transparent_of_visible h rfl ?_)
    simp [KeyCommand.exec, Slot.empty, Slot.view, setInsert, ← entries_eq_nil]
  | hget f => exact (transparent_hash h f).1
  | hexists f => exact (transparent_hash h f).2.1
  | hdel f => exact (transparent_hash h f).2.2
  | hgetall | hlen =>
    rw [transparent_of_invisible h rfl rfl]
    simp [KeyCommand.exec, KeyCommand.Unseen, Slot.empty, ← entries_eq_nil,
      ← List.eq_nil_iff_forall_not_mem]
  | lpop => exact (transparent_list h).1
  | rpop => exact (transparent_list h).2.1
  | llen => exact (transparent_list h).2.2
  | lrange i j => exact (transparent_range h i j).1
  | zrange i j => exact (transparent_range h i j).2
  | srem m => exact (transparent_set h m).1
  | sismember m => exact (transparent_set h m).2
  | smembers | scard | zcard =>
    rw [transparent_of_invisible h rfl rfl]
    simp [KeyCommand.exec, KeyCommand.Unseen, Slot.empty]
  | zadd score m => exact transparent_zadd h score m
  | zrem m => exact (transparent_zset h m).1
  | zscore m => exact (transparent_zset h m).2.1
  | zrank m => exact (transparent_zset h m).2.2

theorem KeyCommand.transparent_of_not_expired {t : ℤ} {cmd : KeyCommand} {s : Slot F}
    (h : ¬ s.Expired t) : cmd.Transparent t s := by
  rw [KeyCommand.Transparent, checkExpire_of_not_expired h]
  exact ⟨rfl, rfl⟩

/-! ## The whole store -/

/-- At time `t` nobody can tell whether all expired keys were dropped before the command. -/
def Transparent (t : ℤ) (args : List Bytes) (c : RedisClient F) : Prop :=
  (execute t args c).1 = (execute t args (purge t c)).1 ∧
    observe t (execute t args c).2 = observe t (execute t args (purge t c)).2

/-- The command does not notice what expired keys have left behind: its key has not expired, or it
does not notice; a `DEL` counts the keys it finds, so none of its keys may have expired. -/
def Command.Unseen (t : ℤ) (cmd : Command) (c : RedisClient F) : Prop :=
  match cmd with
  | .keyed k cmd => (c k).Expired t → cmd.Unseen (c k)
  | .del ks => ∀ k ∈ ks, ¬ (c k).Expired t
  | .ping | .empty | .unsupported _ => True

omit [Double F] in
theorem observe_update_eq {t : ℤ} {c : RedisClient F} {k : Bytes} {s s' : Slot F} :
    observe t (Function.update c k s) = observe t (Function.update (purge t c) k s') ↔
      (checkExpire t s).view = (checkExpire t s').view := by
  constructor
  · intro h
    simpa [observe, purge] using congrFun h k
  · intro h
    funext j
    by_cases hj : j = k
    · subst hj
      simpa [observe, purge] using h
    · simp [observe, purge, hj, checkExpire_checkExpire]

omit [Double F] in
/-- `DEL` counts the keys it is given that have a string, each of them once. -/
theorem delKeys_count (ks : List Bytes) (c : RedisClient F) :
    (delKeys ks c).1 = (ks.toFinset.filter fun k ↦ (c k).data.isSome = true).card := by
  induction ks generalizing c with
  | nil => rfl
  | cons k ks ih =>
    have hrest : (ks.toFinset.filter fun j ↦ (Function.update c k .empty j).data.isSome = true) =
        (ks.toFinset.filter fun j ↦ (c j).data.isSome = true).erase k := by
      ext j
      by_cases hj : j = k
      · subst hj
        rw [Finset.mem_filter, Function.update_self]
        simp [Slot.empty]
      · simp [hj]
    rw [delKeys, ih, hrest, List.toFinset_cons, Finset.filter_insert]
    by_cases hk : (c k).data.isSome = true
    · rw [if_pos hk, if_pos hk, ← Finset.card_erase_add_one (Finset.mem_insert_self k _),
        Finset.erase_insert_eq_erase]
      omega
    · rw [if_neg hk, if_neg hk, Finset.erase_eq_of_notMem (by simp [hk])]
      omega

omit [Double F] in
/-- Dropping the expired keys first makes the count of `DEL` smaller if it names one of them. -/
theorem delKeys_purge_count {t : ℤ} {c : RedisClient F} (ha : ∀ k, (c k).Anchored)
    (ks : List Bytes) :
    (delKeys ks c).1 = (delKeys ks (purge t c)).1 ↔ ∀ k ∈ ks, ¬ (c k).Expired t := by
  rw [delKeys_count, delKeys_count, Nat.cast_inj]
  have hsub : (ks.toFinset.filter fun k ↦ (purge t c k).data.isSome = true) ⊆
      ks.toFinset.filter fun k ↦ (c k).data.isSome = true := by
    intro k hk
    rw [Finset.mem_filter] at hk ⊢
    refine ⟨hk.1, ?_⟩
    by_cases hexp : (c k).Expired t
    · rw [purge, checkExpire_of_expired hexp] at hk
      cases hk.2
    · rw [purge, checkExpire_of_not_expired hexp] at hk
      exact hk.2
  constructor
  · intro hcard k hk hexp
    have heq := Finset.eq_of_subset_of_card_le hsub hcard.le
    have hmem : k ∈ ks.toFinset.filter fun k ↦ (c k).data.isSome = true :=
      Finset.mem_filter.2 ⟨List.mem_toFinset.2 hk, ha k (by rw [hexp.choose_spec.1]; rfl)⟩
    rw [← heq, Finset.mem_filter, purge, checkExpire_of_expired hexp] at hmem
    cases hmem.2
  · intro hlive
    congr 1
    refine Finset.filter_congr fun k hk ↦ ?_
    rw [purge, checkExpire_of_not_expired (hlive k (List.mem_toFinset.1 hk))]

omit [Double F] in
theorem observe_purge (t : ℤ) (c : RedisClient F) : observe t (purge t c) = observe t c := by
  funext k
  rw [observe, observe, purge, purge, checkExpire_checkExpire]

/-- **When expiry is transparent**: in every reachable state, at every time and for every command,
the reply and the observable state are those of a store without the expired keys if and only if the
command does not notice what expired keys have left behind. -/
theorem transparent_iff {c : RedisClient F} (h : Reachable c) (t : ℤ) (args : List Bytes) :
    Transparent t args c ↔ (dispatch args).Unseen t c := by
  rw [Transparent, execute, execute]
  cases dispatch args with
  | keyed k cmd =>
    simp only [Command.exec, Command.Unseen]
    rw [observe_update_eq]
    by_cases hexp : (c k).Expired t
    · rw [imp_iff_right hexp]
      exact KeyCommand.transparent_iff_unseen hexp (h.anchored k)
    · exact iff_of_true (KeyCommand.transparent_of_not_expired hexp) fun he ↦ absurd he hexp
  | del ks =>
    simp only [Command.exec, Command.Unseen, Except.ok.injEq, RedisReply.integer.injEq]
    rw [delKeys_purge_count h.anchored]
    refine and_iff_left ?_
    funext k
    simp only [observe, purge, delKeys_apply]
    split
    · rfl
    · rw [checkExpire_checkExpire]
  | ping | empty | unsupported cmd => simp [Command.exec, Command.Unseen, observe_purge]

/-! ## A key that has been gone for four seconds -/

/-- Scores that are whole numbers. -/
instance instDoubleInt : Double ℤ where
  lt a b := a < b
  stod := stoll
  toString n := toDec n ++ lit ".000000"

/-- `SET lock a` and `EXPIRE lock 1`, both at time 0. -/
def leasedLock : RedisClient ℤ :=
  (execute 0 [lit "EXPIRE", lit "lock", lit "1"]
    (execute 0 [lit "SET", lit "lock", lit "a"] .fresh).2).2

theorem reachable_leasedLock : Reachable leasedLock := .execute _ _ (.execute _ _ .fresh)

theorem expired_leasedLock : (leasedLock (lit "lock")).Expired 5 := ⟨1, rfl, by decide⟩

/-- `SETNX lock b` at time 5 still finds the key that expired at time 1. -/
theorem setnx_sees_expired :
    Reachable leasedLock ∧ (leasedLock (lit "lock")).Expired 5 ∧
    (execute 5 [lit "SETNX", lit "lock", lit "b"] leasedLock).1 = .ok (.integer 0) ∧
    (execute 5 [lit "SETNX", lit "lock", lit "b"] (purge 5 leasedLock)).1 = .ok (.integer 1) ∧
    ¬ Transparent 5 [lit "SETNX", lit "lock", lit "b"] leasedLock := by
  refine ⟨reachable_leasedLock, expired_leasedLock, rfl, rfl, ?_⟩
  intro h
  have hreply : (.ok (.integer 0) : Except StdError RedisReply) = .ok (.integer 1) := h.1
  cases hreply

/-- `GET lock` at time 5 does not. -/
theorem get_misses_expired : Transparent 5 [lit "GET", lit "lock"] leasedLock :=
  (transparent_iff reachable_leasedLock 5 [lit "GET", lit "lock"]).2 fun _ ↦ trivial

end Redis
end ChwellCore
