import ChwellCore.Core.Decimal
import ChwellCore.Lib.UnorderedMap
import Mathlib.Data.List.Sort
import Mathlib.Logic.Function.Basic

/-!
# The in-memory Redis client

`RedisClient` simulates a Redis server with six hash tables, `data_`, `expires_`, `hashes_`,
`lists_`, `sets_` and `zsets_`, all of them keyed by the Redis key.  None of the six is ever
iterated, and every command but `DEL` works on one key, so the state is kept the other way round: a
`Slot` is what the six tables hold for one key, and the client is a function from keys to slots.  A
missing entry of a table is `none`, which is not the same as an entry that holds an empty container.

`execute` takes the command as a vector of strings.  `dispatch` is its chain of comparisons, from
the strings to a `Command`; a known command with too few arguments falls through to the last branch,
as in the source.  `KeyCommand.exec` is the bodies of the branches.  A conversion may throw half way
through a body, so a result is an `Except` next to the slot as it was left.

The clock is read in whole seconds.  Scores are doubles; what the code asks of them is in `Double`.
Sums of 64-bit numbers are not reduced: their overflow is undefined in the source.
-/

set_option autoImplicit false

namespace ChwellCore
namespace Redis

/-- What the sorted sets ask of a `double`: the order, `std::stod` and `std::to_string`. -/
class Double (F : Type) where
  lt : F → F → Bool
  stod : Bytes → Except StdError F
  toString : F → Bytes

/-- `RedisReply`: the six reply types, each with the field that goes with it.  The elements of an
array are always strings. -/
inductive RedisReply where
  | string (str : Bytes)
  | integer (n : ℤ)
  | array (elements : List Bytes)
  | nil
  | error (msg : Bytes)
  | status (str : Bytes)
deriving DecidableEq, Repr

/-- What the six tables hold for one key. -/
@[ext] structure Slot (F : Type) where
  data : Option Bytes
  expires : Option ℤ
  hash : Option (UnorderedMap Bytes Bytes)
  list : Option (List Bytes)
  set : Option (List Bytes)
  zset : Option (List (F × Bytes))

/-- A key that no table knows. -/
def Slot.empty {F : Type} : Slot F := ⟨none, none, none, none, none, none⟩

/-- `RedisClient`. -/
abbrev RedisClient (F : Type) := Bytes → Slot F

/-- A fresh client, and a client after `disconnect`. -/
def RedisClient.fresh {F : Type} : RedisClient F := fun _ ↦ .empty

/-- The commands that work on one key, without the key. -/
inductive KeyCommand where
  | set (value : Bytes)
  | setex (seconds value : Bytes)
  | setnx (value : Bytes)
  | get
  | exists
  | expire (seconds : Bytes)
  | ttl
  | incr
  | incrby (increment : Bytes)
  | hset (field value : Bytes)
  | hget (field : Bytes)
  | hgetall
  | hexists (field : Bytes)
  | hdel (field : Bytes)
  | hlen
  | lpush (value : Bytes)
  | rpush (value : Bytes)
  | lpop
  | rpop
  | lrange (start stop : Bytes)
  | sadd (member : Bytes)
  | srem (member : Bytes)
  | sismember (member : Bytes)
  | smembers
  | scard
  | zadd (score member : Bytes)
  | zrange (start stop : Bytes)
  | zrem (member : Bytes)
  | zscore (member : Bytes)
  | zrank (member : Bytes)
  | zcard
  | llen

/-- A command as the chain of comparisons of `execute` sees it. -/
inductive Command where
  | keyed (key : Bytes) (cmd : KeyCommand)
  | del (keys : List Bytes)
  | ping
  | empty
  | unsupported (cmd : Bytes)

/-- `std::toupper` in the C locale. -/
def toUpper (c : UInt8) : UInt8 := if 97 ≤ c ∧ c ≤ 122 then c - 32 else c

/-- The chain of comparisons of `execute`, for a command name in upper case and its arguments. -/
def dispatchUpper (cmd : Bytes) (args : List Bytes) : Command :=
  match args with
  | key :: a :: b :: _ =>
    if cmd = lit "SETEX" then .keyed key (.setex a b)
    else if cmd = lit "HSET" then .keyed key (.hset a b)
    else if cmd = lit "LRANGE" then .keyed key (.lrange a b)
    else if cmd = lit "ZADD" then .keyed key (.zadd a b)
    else if cmd = lit "ZRANGE" then .keyed key (.zrange a b)
    else dispatchTwo cmd key a args
  | [key, a] => dispatchTwo cmd key a args
  | [key] => dispatchOne cmd key args
  | [] => if cmd = lit "PING" then .ping else .unsupported cmd
where
  /-- The branches that ask for at least two arguments. -/
  dispatchTwo (cmd key a : Bytes) (args : List Bytes) : Command :=
    if cmd = lit "SET" then .keyed key (.set a)
    else if cmd = lit "SETNX" then .keyed key (.setnx a)
    else if cmd = lit "EXPIRE" then .keyed key (.expire a)
    else if cmd = lit "INCRBY" then .keyed key (.incrby a)
    else if cmd = lit "HGET" then .keyed key (.hget a)
    else if cmd = lit "HEXISTS" then .keyed key (.hexists a)
    else if cmd = lit "HDEL" then .keyed key (.hdel a)
    else if cmd = lit "LPUSH" then .keyed key (.lpush a)
    else if cmd = lit "RPUSH" then .keyed key (.rpush a)
    else if cmd = lit "SADD" then .keyed key (.sadd a)
    else if cmd = lit "SREM" then .keyed key (.srem a)
    else if cmd = lit "SISMEMBER" then .keyed key (.sismember a)
    else if cmd = lit "ZREM" then .keyed key (.zrem a)
    else if cmd = lit "ZSCORE" then .keyed key (.zscore a)
    else if cmd = lit "ZRANK" then .keyed key (.zrank a)
    else dispatchOne cmd key args
  /-- The branches that ask for at least one argument. -/
  dispatchOne (cmd key : Bytes) (args : List Bytes) : Command :=
    if cmd = lit "GET" then .keyed key .get
    else if cmd = lit "DEL" then .del args
    else if cmd = lit "EXISTS" then .keyed key .exists
    else if cmd = lit "TTL" then .keyed key .ttl
    else if cmd = lit "INCR" then .keyed key .incr
    else if cmd = lit "HGETALL" then .keyed key .hgetall
    else if cmd = lit "HLEN" then .keyed key .hlen
    else if cmd = lit "LPOP" then .keyed key .lpop
    else if cmd = lit "RPOP" then .keyed key .rpop
    else if cmd = lit "SMEMBERS" then .keyed key .smembers
    else if cmd = lit "SCARD" then .keyed key .scard
    else if cmd = lit "ZCARD" then .keyed key .zcard
    else if cmd = lit "LLEN" then .keyed key .llen
    else if cmd = lit "PING" then .ping
    else .unsupported cmd

/-- The command that `execute` finds in its arguments. -/
def dispatch : List Bytes → Command
  | [] => .empty
  | cmd :: args => dispatchUpper (cmd.map toUpper) args

/-! ## The bodies of the branches -/

/-- The elements of `l` that the loops of `LRANGE` and `ZRANGE` visit. -/
def slice {α : Type} (l : List α) (start stop : ℤ) : List α :=
  let len : ℤ := l.length
  let start := if start < 0 then len + start else start
  let stop := if stop < 0 then len + stop else stop
  let start := max 0 start
  let stop := min (len - 1) stop
  (l.drop start.toNat).take (stop + 1 - start).toNat

/-- The two conversions of `LRANGE` and `ZRANGE`, and the reply built from the elements visited. -/
def rangeReply {α : Type} (l : List α) (f : α → Bytes) (start stop : Bytes) :
    Except StdError RedisReply :=
  match stoll start with
  | .error e => .error e
  | .ok i =>
    match stoll stop with
    | .error e => .error e
    | .ok j => .ok (.array ((slice l i j).map f))

/-- A `std::set` holds its members sorted. -/
def setInsert (s : List Bytes) (m : Bytes) : List Bytes :=
  if m ∈ s then s else s.orderedInsert (· ≤ ·) m

/-- `check_expire`. -/
def checkExpire {F : Type} (now : ℤ) (s : Slot F) : Slot F :=
  match s.expires with
  | some deadline => if deadline ≤ now then .empty else s
  | none => s

/-- The reply to a question that has the answer 1 or 0. -/
def boolReply (b : Bool) : RedisReply := .integer (if b then 1 else 0)

section Exec

variable {F : Type} [Double F]

/-- The order of `std::pair<double, std::string>`. -/
def pairLe (a b : F × Bytes) : Bool :=
  Double.lt a.1 b.1 || (!Double.lt b.1 a.1 && decide (a.2 ≤ b.2))

/-- The body of `ZADD`: an existing member gets its new score in place, and the vector is sorted
only when a member is added. -/
def zsetAdd (z : List (F × Bytes)) (score : F) (m : Bytes) : Bool × List (F × Bytes) :=
  if (z.map Prod.snd).contains m then
    (false, (z.takeWhile fun p ↦ p.2 != m) ++
      match z.dropWhile fun p ↦ p.2 != m with
      | [] => []
      | _ :: rest => (score, m) :: rest)
  else (true, (z ++ [(score, m)]).mergeSort pairLe)

/-- The body of the branch of a command on one key: the reply, and what the key holds afterwards. -/
def KeyCommand.exec (now : ℤ) (cmd : KeyCommand) (s : Slot F) :
    Except StdError RedisReply × Slot F :=
  match cmd with
  | .set v => (.ok (.status (lit "OK")), { s with data := some v })
  | .setex secs v =>
    -- the value is stored before the seconds are converted
    let s := { s with data := some v }
    match stoll secs with
    | .error e => (.error e, s)
    | .ok n => (.ok (.status (lit "OK")), { s with expires := some (now + n) })
  | .setnx v =>
    if s.data.isNone then (.ok (.integer 1), { s with data := some v }) else (.ok (.integer 0), s)
  | .get =>
    let s := checkExpire now s
    match s.data with
    | some v => (.ok (.string v), s)
    | none => (.ok .nil, s)
  | .exists =>
    let s := checkExpire now s
    (.ok (boolReply s.data.isSome), s)
  | .expire secs =>
    if s.data.isSome then
      match stoll secs with
      | .error e => (.error e, s)
      | .ok n => (.ok (.integer 1), { s with expires := some (now + n) })
    else (.ok (.integer 0), s)
  | .ttl =>
    if s.data.isNone then (.ok (.integer (-2)), s)
    else
      match s.expires with
      | none => (.ok (.integer (-1)), s)
      | some deadline => (.ok (.integer (max 0 (deadline - now))), s)
  | .incr =>
    match s.data.elim (.ok 0) stoll with
    | .error e => (.error e, s)
    | .ok val => (.ok (.integer (val + 1)), { s with data := some (toDec (val + 1)) })
  | .incrby inc =>
    match s.data.elim (.ok 0) stoll with
    | .error e => (.error e, s)
    | .ok val =>
      match stoll inc with
      | .error e => (.error e, s)
      | .ok n => (.ok (.integer (val + n)), { s with data := some (toDec (val + n)) })
  | .hset f v => (.ok (.integer 1), { s with hash := some ((s.hash.getD ∅).insert f v) })
  | .hget f =>
    match s.hash.bind (AList.lookup f) with
    | some v => (.ok (.string v), s)
    | none => (.ok .nil, s)
  | .hgetall =>
    (.ok (.array ((s.hash.getD ∅).entries.flatMap fun e ↦ [e.1, e.2])), s)
  | .hexists f => (.ok (boolReply (s.hash.bind (AList.lookup f)).isSome), s)
  | .hdel f =>
    (.ok (boolReply (s.hash.bind (AList.lookup f)).isSome),
      { s with hash := s.hash.map (AList.erase f) })
  | .hlen => (.ok (.integer ((s.hash.getD ∅).entries.length)), s)
  | .lpush v =>
    let l := v :: s.list.getD []
    (.ok (.integer l.length), { s with list := some l })
  | .rpush v =>
    let l := s.list.getD [] ++ [v]
    (.ok (.integer l.length), { s with list := some l })
  | .lpop =>
    match s.list with
    | some (v :: l) => (.ok (.string v), { s with list := some l })
    | _ => (.ok .nil, s)
  | .rpop =>
    match s.list.bind List.getLast? with
    | some v => (.ok (.string v), { s with list := s.list.map List.dropLast })
    | none => (.ok .nil, s)
  | .lrange i j =>
    match s.list with
    | none => (.ok (.array []), s)
    | some l => (rangeReply l id i j, s)
  | .sadd m =>
    -- `sets_[key]` makes an empty set for a key that has none, here and in the next two branches
    let set := s.set.getD []
    (.ok (boolReply (!set.contains m)), { s with set := some (setInsert set m) })
  | .srem m =>
    let set := s.set.getD []
    (.ok (boolReply (set.contains m)), { s with set := some (set.filter (· != m)) })
  | .sismember m =>
    let set := s.set.getD []
    (.ok (boolReply (set.contains m)), { s with set := some set })
  | .smembers => (.ok (.array (s.set.getD [])), s)
  | .scard => (.ok (.integer (s.set.getD []).length), s)
  | .zadd score m =>
    match Double.stod (F := F) score with
    | .error e => (.error e, s)
    | .ok x =>
      let r := zsetAdd (s.zset.getD []) x m
      (.ok (boolReply r.1), { s with zset := some r.2 })
  | .zrange i j =>
    match s.zset with
    | none => (.ok (.array []), s)
    | some z => (rangeReply z Prod.snd i j, s)
  | .zrem m =>
    let z := s.zset.getD []
    (.ok (boolReply ((z.map Prod.snd).contains m)),
      { s with zset := s.zset.map fun z ↦ z.eraseP fun p ↦ p.2 == m })
  | .zscore m =>
    match (s.zset.getD []).find? fun p ↦ p.2 == m with
    | some p => (.ok (.string (Double.toString p.1)), s)
    | none => (.ok .nil, s)
  | .zrank m =>
    match (s.zset.getD []).findIdx? fun p ↦ p.2 == m with
    | some i => (.ok (.integer i), s)
    | none => (.ok (.integer (-1)), s)
  | .zcard => (.ok (.integer (s.zset.getD []).length), s)
  | .llen => (.ok (.integer (s.list.getD []).length), s)

/-- The loop of `DEL`: how many of the keys had a string, and the client without the keys. -/
def delKeys : List Bytes → RedisClient F → ℤ × RedisClient F
  | [], c => (0, c)
  | k :: ks, c =>
    let r := delKeys ks (Function.update c k .empty)
    ((if (c k).data.isSome then 1 else 0) + r.1, r.2)

/-- One command. -/
def Command.exec (now : ℤ) (cmd : Command) (c : RedisClient F) :
    Except StdError RedisReply × RedisClient F :=
  match cmd with
  | .keyed k cmd =>
    let r := cmd.exec now (c k)
    (r.1, Function.update c k r.2)
  | .del ks => (.ok (.integer (delKeys ks c).1), (delKeys ks c).2)
  | .ping => (.ok (.status (lit "PONG")), c)
  | .empty => (.ok (.error (lit "empty command")), c)
  | .unsupported cmd => (.ok (.error (lit "unsupported command: " ++ cmd)), c)

/-- `RedisClient::execute` at time `now`. -/
def execute (now : ℤ) (args : List Bytes) (c : RedisClient F) :
    Except StdError RedisReply × RedisClient F :=
  (dispatch args).exec now c

/-- A client after any sequence of commands, each at its own time. -/
inductive Reachable : RedisClient F → Prop
  | fresh : Reachable .fresh
  | execute {c : RedisClient F} (now : ℤ) (args : List Bytes) :
      Reachable c → Reachable (execute now args c).2

/-- Commands one after another, each with its time. -/
def executeAll (history : List (ℤ × List Bytes)) (c : RedisClient F) : RedisClient F :=
  history.foldl (fun c e ↦ (execute e.1 e.2 c).2) c

theorem executeAll_append_singleton (history : List (ℤ × List Bytes)) (e : ℤ × List Bytes)
    (c : RedisClient F) :
    executeAll (history ++ [e]) c = (execute e.1 e.2 (executeAll history c)).2 := by
  rw [executeAll, List.foldl_append]
  rfl

/-! ## What a command may change -/

/-- The six tables. -/
inductive Table where
  | data | expires | hashes | lists | sets | zsets
deriving DecidableEq

/-- The table has the same entry for two keys. -/
def Table.Same (s s' : Slot F) : Table → Prop
  | .data => s.data = s'.data
  | .expires => s.expires = s'.expires
  | .hashes => s.hash = s'.hash
  | .lists => s.list = s'.list
  | .sets => s.set = s'.set
  | .zsets => s.zset = s'.zset

/-- The tables in which a command may change the entry of its key. -/
def KeyCommand.writes (cmd : KeyCommand) (tb : Table) : Bool :=
  match cmd with
  | .set _ | .setnx _ | .incr | .incrby _ => tb = .data
  | .setex _ _ => tb = .data ∨ tb = .expires
  | .expire _ => tb = .expires
  -- the key may turn out to have expired
  | .get | .exists => true
  | .hset _ _ | .hdel _ => tb = .hashes
  | .lpush _ | .rpush _ | .lpop | .rpop => tb = .lists
  | .sadd _ | .srem _ | .sismember _ => tb = .sets
  | .zadd _ _ | .zrem _ => tb = .zsets
  | .ttl | .hget _ | .hgetall | .hexists _ | .hlen | .lrange _ _ | .smembers | .scard
  | .zrange _ _ | .zscore _ | .zrank _ | .zcard | .llen => false

/-- **A command changes no other table.** -/
theorem KeyCommand.exec_frame {cmd : KeyCommand} (tb : Table) (h : cmd.writes tb = false) (now : ℤ)
    (s : Slot F) : tb.Same (cmd.exec now s).2 s := by
  cases cmd with
  | get | «exists» => cases h
  | hgetall | hexists f | hlen | smembers | scard | zcard | llen => cases tb <;> rfl
  | hget f | lrange i j | zrange i j | zscore m | zrank m =>
    simp only [exec]
    split <;> cases tb <;> rfl
  | ttl =>
    simp only [exec]
    split
    · cases tb <;> rfl
    · split <;> cases tb <;> rfl
  | set v | hset f v | hdel f | lpush v | rpush v | sadd m | srem m | sismember m | zrem m =>
    cases tb <;> first | rfl | cases h
  | setex secs v | setnx v | incr | lpop | rpop | zadd score m =>
    simp only [exec]
    split <;> cases tb <;> first | rfl | cases h
  | expire secs =>
    simp only [exec]
    split
    · split <;> cases tb <;> first | rfl | cases h
    · cases tb <;> rfl
  | incrby inc =>
    simp only [exec]
    split
    · cases tb <;> rfl
    · split <;> cases tb <;> first | rfl | cases h

/-! ## A key with a deadline has a string -/

/-- No operation gives a deadline to a key without a string, or takes the string away and leaves the
deadline. -/
def Slot.Anchored (s : Slot F) : Prop := s.expires.isSome = true → s.data.isSome = true

omit [Double F] in
theorem anchored_empty : (Slot.empty : Slot F).Anchored := fun h ↦ by cases h

omit [Double F] in
theorem Slot.Anchored.of_eq {s s' : Slot F} (h : s.Anchored) (hdata : s'.data = s.data)
    (hexpires : s'.expires = s.expires) : s'.Anchored := by
  rw [Slot.Anchored, hdata, hexpires]
  exact h

omit [Double F] in
theorem anchored_checkExpire {s : Slot F} (h : s.Anchored) (now : ℤ) :
    (checkExpire now s).Anchored := by
  rw [checkExpire]
  split
  · split
    · exact anchored_empty
    · exact h
  · exact h

theorem KeyCommand.anchored_exec {s : Slot F} (h : s.Anchored) (now : ℤ) (cmd : KeyCommand) :
    (cmd.exec now s).2.Anchored := by
  cases cmd with
  | set v => exact fun _ ↦ rfl
  | setex secs v =>
    simp only [KeyCommand.exec]
    split <;> exact fun _ ↦ rfl
  | setnx v =>
    simp only [KeyCommand.exec]
    split
    · exact fun _ ↦ rfl
    · exact h
  | get =>
    simp only [KeyCommand.exec]
    split <;> exact anchored_checkExpire h now
  | «exists» => exact anchored_checkExpire h now
  | expire secs =>
    simp only [KeyCommand.exec]
    split
    · next hd =>
      split
      · exact h
      · exact fun _ ↦ hd
    · exact h
  | incr =>
    simp only [KeyCommand.exec]
    split
    · exact h
    · exact fun _ ↦ rfl
  | incrby inc =>
    simp only [KeyCommand.exec]
    split
    · exact h
    · split
      · exact h
      · exact fun _ ↦ rfl
  | _ => exact h.of_eq (exec_frame .data rfl now s) (exec_frame .expires rfl now s)

omit [Double F] in
theorem delKeys_apply (ks : List Bytes) (c : RedisClient F) (k : Bytes) :
    (delKeys ks c).2 k = if k ∈ ks then .empty else c k := by
  induction ks generalizing c with
  | nil => rfl
  | cons k' ks ih =>
    rw [delKeys, ih]
    by_cases hk : k ∈ ks
    · rw [if_pos hk, if_pos (List.mem_cons_of_mem _ hk)]
    · rw [if_neg hk, Function.update_apply]
      simp [hk]

theorem anchored_execute {c : RedisClient F} (h : ∀ k, (c k).Anchored) (now : ℤ)
    (args : List Bytes) (k : Bytes) : ((execute now args c).2 k).Anchored := by
  rw [execute]
  cases dispatch args with
  | keyed k' cmd =>
    simp only [Command.exec, Function.update_apply]
    split
    · exact cmd.anchored_exec (h k') now
    · exact h k
  | del ks =>
    simp only [Command.exec, delKeys_apply]
    split
    · exact anchored_empty
    · exact h k
  | ping => exact h k
  | empty => exact h k
  | unsupported cmd => exact h k

/-- **In every reachable state a key with a deadline has a string.** -/
theorem Reachable.anchored {c : RedisClient F} (h : Reachable c) (k : Bytes) : (c k).Anchored := by
  induction h generalizing k with
  | fresh => exact anchored_empty
  | execute now args _ ih => exact anchored_execute ih now args k

/-! ## The methods that wrap a command -/

/-- `RedisClient::setnx`. -/
def RedisClient.setnx (now : ℤ) (key value : Bytes) (c : RedisClient F) : Bool × RedisClient F :=
  let r := execute now [lit "SETNX", key, value] c
  match r.1 with
  | .ok (.integer n) => (n == 1, r.2)
  | _ => (false, r.2)

/-- `RedisClient::get`. -/
def RedisClient.get (now : ℤ) (key : Bytes) (c : RedisClient F) : Bytes × RedisClient F :=
  let r := execute now [lit "GET", key] c
  match r.1 with
  | .ok (.string v) => (v, r.2)
  | _ => ([], r.2)

/-- `RedisClient::del`. -/
def RedisClient.del (now : ℤ) (key : Bytes) (c : RedisClient F) : ℤ × RedisClient F :=
  let r := execute now [lit "DEL", key] c
  match r.1 with
  | .ok (.integer n) => (n, r.2)
  | _ => (0, r.2)

/-- `RedisClient::expire`.  Of the four it is the one whose command converts an argument, and so
could throw. -/
def RedisClient.expire (now : ℤ) (key : Bytes) (seconds : Int32) (c : RedisClient F) :
    Except StdError Bool × RedisClient F :=
  let r := execute now [lit "EXPIRE", key, toDec seconds.toInt] c
  match r.1 with
  | .error e => (.error e, r.2)
  | .ok (.integer n) => (.ok (n == 1), r.2)
  | .ok _ => (.ok false, r.2)

theorem RedisClient.setnx_eq (now : ℤ) (key value : Bytes) (c : RedisClient F) :
    setnx now key value c =
      if (c key).data.isNone then (true, Function.update c key { c key with data := some value })
      else (false, c) := by
  have hdis : dispatch [lit "SETNX", key, value] = .keyed key (.setnx value) := rfl
  simp only [setnx, execute, hdis, Command.exec, KeyCommand.exec]
  by_cases h : (c key).data.isNone = true
  · simp [h]
  · simp [h]

theorem RedisClient.get_eq (now : ℤ) (key : Bytes) (c : RedisClient F) :
    get now key c = ((checkExpire now (c key)).data.getD [],
      Function.update c key (checkExpire now (c key))) := by
  have hdis : dispatch [lit "GET", key] = .keyed key .get := rfl
  simp only [get, execute, hdis, Command.exec, KeyCommand.exec]
  cases (checkExpire now (c key)).data <;> rfl

theorem RedisClient.del_eq (now : ℤ) (key : Bytes) (c : RedisClient F) :
    del now key c = (if (c key).data.isSome then 1 else 0, Function.update c key .empty) := by
  have hdis : dispatch [lit "DEL", key] = .del [key] := rfl
  simp only [del, execute, hdis, Command.exec, delKeys, add_zero]

/-- The seconds are written by `std::to_string`, so they are read back and nothing is thrown. -/
theorem RedisClient.expire_eq (now : ℤ) (key : Bytes) (seconds : Int32) (c : RedisClient F) :
    expire now key seconds c =
      if (c key).data.isSome then
        (.ok true, Function.update c key { c key with expires := some (now + seconds.toInt) })
      else (.ok false, c) := by
  have hdis : dispatch [lit "EXPIRE", key, toDec seconds.toInt] =
      .keyed key (.expire (toDec seconds.toInt)) := rfl
  have hstoll : stoll (toDec seconds.toInt) = .ok seconds.toInt :=
    stoll_toDec (by have := seconds.le_toInt; omega) (by have := seconds.toInt_lt; omega)
  simp only [expire, execute, hdis, Command.exec, KeyCommand.exec, hstoll]
  by_cases h : (c key).data.isSome = true
  · simp [h]
  · simp [h]

end Exec

end Redis
end ChwellCore
