import ChwellCore.Redis.Expiry

/-!
# The loops of `LRANGE` and `ZRANGE`

Both commands compute two bounds in `int64_t` and read the elements between them, one by one.
`rangeQuery` is that code with each step of it that could go wrong: a sum that does not fit into
`int64_t` and an element outside the container both make it `none`.  `redisSlice` says which
elements Redis promises: the ones at the positions between the bounds, in order.

`rangeQuery_eq_slice` has the code never going wrong, on every container of the standard library and
for all bounds, and `slice_eq_redisSlice` has it reading the promised elements.  `ranges_exact` is
both for the two commands and the methods that wrap them.
-/

set_option autoImplicit false

namespace ChwellCore
namespace Redis

variable {α : Type}

/-! ## The code -/

/-- The value of an `int64_t` expression: none if it overflows. -/
def int64 (n : ℤ) : Option ℤ := if -2 ^ 63 ≤ n ∧ n < 2 ^ 63 then some n else none

theorem int64_eq_some {n : ℤ} (hlo : -2 ^ 63 ≤ n) (hhi : n < 2 ^ 63) : int64 n = some n :=
  if_pos ⟨hlo, hhi⟩

/-- `lst[i]`: none if there is no such element. -/
def access (l : List α) (i : ℤ) : Option α := if 0 ≤ i then l[i.toNat]? else none

/-- The loop from `i` to `stop`. -/
def rangeLoop (l : List α) (i stop : ℤ) : Option (List α) :=
  if i ≤ stop then
    match access l i, int64 (i + 1) with
    | some x, some _ => (rangeLoop l (i + 1) stop).map (x :: ·)
    | _, _ => none
  else some []
termination_by (stop + 1 - i).toNat

/-- The bounds of `LRANGE` and `ZRANGE`, and the loop. -/
def rangeQuery (l : List α) (start stop : ℤ) : Option (List α) := do
  let len ← int64 l.length
  let start ← (if start < 0 then int64 (len + start) else some start)
  let stop ← (if stop < 0 then int64 (len + stop) else some stop)
  let start := max 0 start
  let last ← int64 (len - 1)
  let stop := min last stop
  rangeLoop l start stop

/-- What Redis promises: the elements at the positions between `start` and `stop`, where a negative
bound counts from the end. -/
def redisSlice (l : List α) (start stop : ℤ) : List α :=
  let n : ℤ := l.length
  let s := if start < 0 then start + n else start
  let e := if stop < 0 then stop + n else stop
  (l.zipIdx.filter fun p ↦ max 0 s ≤ p.2 ∧ p.2 ≤ min (n - 1) e).map Prod.fst

/-! ## Nothing goes wrong -/

theorem access_eq {l : List α} {i : ℤ} (hi : 0 ≤ i) (hlt : i.toNat < l.length) :
    access l i = some l[i.toNat] := by
  rw [access, if_pos hi, List.getElem?_eq_getElem hlt]

/-- **The loop**: between two positions of the container it reads what is there. -/
theorem rangeLoop_eq {l : List α} {i stop : ℤ} (hi : 0 ≤ i) (hstop : stop < l.length)
    (hsize : l.length < 2 ^ 63) :
    rangeLoop l i stop = some ((l.drop i.toNat).take (stop + 1 - i).toNat) := by
  fun_induction rangeLoop l i stop with
  | case1 i hle x y hy hx ih =>
    have hlt : i.toNat < l.length := by omega
    have hnext : (i + 1).toNat = i.toNat + 1 := by omega
    have hcount : (stop + 1 - i).toNat = (stop + 1 - (i + 1)).toNat + 1 := by omega
    obtain rfl : l[i.toNat] = x := Option.some.inj ((access_eq hi hlt).symm.trans hx)
    rw [ih (by omega), hcount, List.drop_eq_getElem_cons hlt, List.take_succ_cons, hnext]
    rfl
  | case2 i hle hbad =>
    have hlt : i.toNat < l.length := by omega
    exact (hbad _ _ (access_eq hi hlt) (int64_eq_some (by omega) (by omega))).elim
  | case3 i hgt =>
    have hcount : (stop + 1 - i).toNat = 0 := by omega
    rw [hcount, List.take_zero]

theorem int64_bound {n : ℕ} (hsize : n < 2 ^ 63) {i : ℤ} (hlo : -2 ^ 63 ≤ i) (hhi : i < 2 ^ 63) :
    (if i < 0 then int64 (n + i) else some i) = some (if i < 0 then n + i else i) := by
  split
  · exact int64_eq_some (by omega) (by omega)
  · rfl

/-- **The code never goes wrong**, and it reads what `slice` says. -/
theorem rangeQuery_eq_slice {l : List α} (hsize : l.length < 2 ^ 63) (start stop : Int64) :
    rangeQuery l start.toInt stop.toInt = some (slice l start.toInt stop.toInt) := by
  have hlen : int64 l.length = some (l.length : ℤ) := int64_eq_some (by omega) (by omega)
  have hlast : int64 ((l.length : ℤ) - 1) = some ((l.length : ℤ) - 1) :=
    int64_eq_some (by omega) (by omega)
  have hstart := int64_bound hsize start.le_toInt start.toInt_lt
  have hstop := int64_bound hsize stop.le_toInt stop.toInt_lt
  simp only [rangeQuery, slice, hlen, hlast, hstart, hstop, Option.bind_eq_bind, Option.bind_some]
  exact rangeLoop_eq (le_max_left _ _) (by omega) hsize

/-! ## It reads what Redis promises -/

/-- The elements at the positions from `a` up to `b`, where the positions begin with `k`. -/
theorem filter_zipIdx (l : List α) (k a b : ℕ) :
    ((l.zipIdx k).filter fun p ↦ a ≤ p.2 ∧ p.2 < b).map Prod.fst =
      (l.drop (a - k)).take (b - max a k) := by
  induction l generalizing k with
  | nil => simp
  | cons x l ih =>
    rw [List.zipIdx_cons, List.filter_cons]
    rcases lt_or_ge k a with hlt | hge
    · have hskip : a - k = a - (k + 1) + 1 := by omega
      rw [if_neg (by simp; omega), ih, max_eq_left (by omega), max_eq_left hlt.le, hskip,
        List.drop_succ_cons]
    have hzero : a - k = 0 := by omega
    have hzero' : a - (k + 1) = 0 := by omega
    rw [hzero, List.drop_zero, max_eq_right hge]
    rcases lt_or_ge k b with hlt | hge'
    · have hcount : b - k = b - (k + 1) + 1 := by omega
      rw [if_pos (by simp; omega), List.map_cons, ih, max_eq_right (by omega), hzero',
        List.drop_zero, hcount, List.take_succ_cons]
    · have hnone : b - max a (k + 1) = 0 := by omega
      have hnone' : b - k = 0 := by omega
      rw [if_neg (by simp; omega), ih, hnone, hnone', List.take_zero, List.take_zero]

theorem slice_eq_redisSlice (l : List α) (start stop : ℤ) :
    slice l start stop = redisSlice l start stop := by
  simp only [slice, redisSlice, add_comm (l.length : ℤ)]
  generalize (if start < 0 then start + (l.length : ℤ) else start) = s
  generalize (if stop < 0 then stop + (l.length : ℤ) else stop) = e
  have hpos (p : α × ℕ) :
      decide ((max 0 s).toNat ≤ p.2 ∧ p.2 < (min ((l.length : ℤ) - 1) e + 1).toNat) =
        decide (max 0 s ≤ p.2 ∧ (p.2 : ℤ) ≤ min ((l.length : ℤ) - 1) e) :=
    decide_eq_decide.2 (by omega)
  have hcount : (min ((l.length : ℤ) - 1) e + 1 - max 0 s).toNat =
      (min ((l.length : ℤ) - 1) e + 1).toNat - max (max 0 s).toNat 0 := by omega
  have h := filter_zipIdx l 0 (max 0 s).toNat (min ((l.length : ℤ) - 1) e + 1).toNat
  simp only [hpos, Nat.sub_zero] at h
  rw [hcount, h]

/-! ## The commands -/

variable {F : Type} [Double F]

/-- The containers of a key are no longer than the standard library lets them become: `max_size` of
a deque or a vector is below 2⁶³. -/
def Slot.Sized (s : Slot F) : Prop :=
  (s.list.getD []).length < 2 ^ 63 ∧ (s.zset.getD []).length < 2 ^ 63

/-- The body of `lrange` and `zrange`: the strings of the array that a command replies. -/
def RedisClient.elements (now : ℤ) (args : List Bytes) (c : RedisClient F) :
    Except StdError (List Bytes) × RedisClient F :=
  let r := execute now args c
  match r.1 with
  | .error e => (.error e, r.2)
  | .ok (.array elements) => (.ok elements, r.2)
  | .ok _ => (.ok [], r.2)

/-- `RedisClient::lrange`. -/
def RedisClient.lrange (now : ℤ) (key : Bytes) (start stop : Int64) :
    RedisClient F → Except StdError (List Bytes) × RedisClient F :=
  elements now [lit "LRANGE", key, toDec start.toInt, toDec stop.toInt]

/-- `RedisClient::zrange`. -/
def RedisClient.zrange (now : ℤ) (key : Bytes) (start stop : Int64) :
    RedisClient F → Except StdError (List Bytes) × RedisClient F :=
  elements now [lit "ZRANGE", key, toDec start.toInt, toDec stop.toInt]

omit [Double F] in
@[simp] theorem slice_nil (start stop : ℤ) : slice ([] : List α) start stop = [] := by
  simp [slice]

theorem rangeReply_eq {i j : Bytes} {start stop : ℤ} (hi : stoll i = .ok start)
    (hj : stoll j = .ok stop) (l : List α) (f : α → Bytes) :
    rangeReply l f i j = .ok (.array ((slice l start stop).map f)) := by
  rw [rangeReply, hi]
  simp only [hj]

theorem execute_lrange {i j : Bytes} {start stop : ℤ} (hi : stoll i = .ok start)
    (hj : stoll j = .ok stop) (t : ℤ) (key : Bytes) (c : RedisClient F) :
    execute t [lit "LRANGE", key, i, j] c =
      (.ok (.array (slice ((c key).list.getD []) start stop)), c) := by
  have hdis : dispatch [lit "LRANGE", key, i, j] = .keyed key (.lrange i j) := rfl
  simp only [execute, hdis, Command.exec, KeyCommand.exec]
  cases hl : (c key).list with
  | none => simp
  | some l => simp [rangeReply_eq hi hj]

theorem execute_zrange {i j : Bytes} {start stop : ℤ} (hi : stoll i = .ok start)
    (hj : stoll j = .ok stop) (t : ℤ) (key : Bytes) (c : RedisClient F) :
    execute t [lit "ZRANGE", key, i, j] c =
      (.ok (.array ((slice ((c key).zset.getD []) start stop).map Prod.snd)), c) := by
  have hdis : dispatch [lit "ZRANGE", key, i, j] = .keyed key (.zrange i j) := rfl
  simp only [execute, hdis, Command.exec, KeyCommand.exec]
  cases hz : (c key).zset with
  | none => simp
  | some z => simp [rangeReply_eq hi hj]

theorem lrange_eq (t : ℤ) (key : Bytes) (start stop : Int64) (c : RedisClient F) :
    RedisClient.lrange t key start stop c =
      (.ok (slice ((c key).list.getD []) start.toInt stop.toInt), c) := by
  have hi := stoll_toDec start.le_toInt start.toInt_lt
  have hj := stoll_toDec stop.le_toInt stop.toInt_lt
  rw [RedisClient.lrange, RedisClient.elements, execute_lrange hi hj]

theorem zrange_eq (t : ℤ) (key : Bytes) (start stop : Int64) (c : RedisClient F) :
    RedisClient.zrange t key start stop c =
      (.ok ((slice ((c key).zset.getD []) start.toInt stop.toInt).map Prod.snd), c) := by
  have hi := stoll_toDec start.le_toInt start.toInt_lt
  have hj := stoll_toDec stop.le_toInt stop.toInt_lt
  rw [RedisClient.zrange, RedisClient.elements, execute_zrange hi hj]

/-- **Range queries are the slices of Redis**, for all containers and all bounds: no step of the
code goes wrong, and it is the promised elements that the commands and the methods return. -/
theorem ranges_exact {c : RedisClient F} {key : Bytes} (hsize : (c key).Sized)
    {l : List Bytes} (hl : (c key).list.getD [] = l) {z : List (F × Bytes)}
    (hz : (c key).zset.getD [] = z) {i j : Bytes} {start stop : Int64}
    (hi : stoll i = .ok start.toInt) (hj : stoll j = .ok stop.toInt) (t : ℤ) :
    rangeQuery l start.toInt stop.toInt = some (redisSlice l start.toInt stop.toInt) ∧
      (execute t [lit "LRANGE", key, i, j] c).1 =
        .ok (.array (redisSlice l start.toInt stop.toInt)) ∧
      (RedisClient.lrange t key start stop c).1 = .ok (redisSlice l start.toInt stop.toInt) ∧
      rangeQuery z start.toInt stop.toInt = some (redisSlice z start.toInt stop.toInt) ∧
      (execute t [lit "ZRANGE", key, i, j] c).1 =
        .ok (.array ((redisSlice z start.toInt stop.toInt).map Prod.snd)) ∧
      (RedisClient.zrange t key start stop c).1 =
        .ok ((redisSlice z start.toInt stop.toInt).map Prod.snd) := by
  subst hl hz
  rw [rangeQuery_eq_slice hsize.1, rangeQuery_eq_slice hsize.2, execute_lrange hi hj,
    execute_zrange hi hj, lrange_eq, zrange_eq, slice_eq_redisSlice, slice_eq_redisSlice]
  exact ⟨rfl, rfl, rfl, rfl, rfl, rfl⟩

/-! ## A queue of three -/

/-- After `RPUSH queue a`, `RPUSH queue b` and `RPUSH queue c`. -/
def queue : RedisClient ℤ :=
  executeAll ([lit "a", lit "b", lit "c"].map fun v ↦ (0, [lit "RPUSH", lit "queue", v])) .fresh

/-- From the last but one to the largest bound there is. -/
theorem ranges_exact_queue :
    rangeQuery [lit "a", lit "b", lit "c"] (-2) (2 ^ 63 - 1) = some [lit "b", lit "c"] ∧
      (execute 0 [lit "LRANGE", lit "queue", lit "-2", lit "9223372036854775807"] queue).1 =
        .ok (.array [lit "b", lit "c"]) := by
  have hsize : (queue (lit "queue")).Sized := ⟨by decide, by decide⟩
  have hi : stoll (lit "-2") = .ok (-2 : Int64).toInt := rfl
  have hj : stoll (lit "9223372036854775807") = .ok Int64.maxValue.toInt := rfl
  have h := ranges_exact hsize (l := [lit "a", lit "b", lit "c"]) (z := []) rfl rfl hi hj 0
  exact ⟨h.1, h.2.1⟩

end Redis
end ChwellCore
