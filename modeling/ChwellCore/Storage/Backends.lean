import ChwellCore.Lib.Run
import ChwellCore.Storage.MemoryStorage
import Mathlib.Data.List.Infix
import Mathlib.Data.List.TakeWhile

/-!
# One storage for another

`MysqlStorage` and `MongodbStorage` are the same interface over a table of keys, values and times.
What the servers do with a statement is what their manuals say.  Two things depend on the server:
how MySQL compares strings, which is the business of the collation of the column (`Collation`), and
how MongoDB searches for a regular expression (`Regex`).  Of both only what every one of them does
is assumed.  The C driver of MongoDB takes keys, values and patterns as C strings.

Upper layers are promised that it does not matter which of the three they use.  It does:

* an entry whose time is *now* is there for `MemoryStorage` and `MongodbStorage`, and not for
  `MysqlStorage`;
* `MemoryStorage::remove` fails if there is nothing to remove, and the others do not;
* `MongodbStorage::keys` lists what has expired, `MysqlStorage::keys` stops at the first key that is
  longer than its buffer;
* MongoDB stores a string up to its first zero byte, and MySQL takes two keys for the same if the
  collation does;
* what has been erased because it had expired is gone, and does not come back with the clock set
  back.

`interchangeable` says that there is nothing else: in a run whose calls stay clear of these, all
answers are the same.
-/

set_option autoImplicit false

namespace ChwellCore
namespace Storage

/-! ## MySQL -/

/-- A token of a pattern of `LIKE`. -/
inductive LikeToken where
  | literal (c : UInt8)
  /-- `_`. -/
  | one
  /-- `%`. -/
  | many
deriving DecidableEq

/-- The tokens of a pattern; a backslash takes the meaning of the character that follows. -/
def likeTokens : Bytes → List LikeToken
  | [] => []
  | [c] => if c = 37 then [.many] else if c = 95 then [.one] else [.literal c]
  | c :: d :: rest =>
    if c = 92 then .literal d :: likeTokens rest
    else if c = 37 then .many :: likeTokens (d :: rest)
    else if c = 95 then .one :: likeTokens (d :: rest)
    else .literal c :: likeTokens (d :: rest)

/-- How MySQL compares strings. -/
structure Collation where
  /-- `a = b`. -/
  equal : Bytes → Bytes → Bool
  /-- `b LIKE` a pattern of these tokens. -/
  like : List LikeToken → Bytes → Bool
  equal_self : ∀ b, equal b b = true
  like_prefix : ∀ {p b : Bytes}, p <+: b → like (p.map .literal ++ [.many]) b = true

namespace Collation

/-- Whether a string matches a pattern, when characters are compared as `fold` leaves them. -/
def likeFold (fold : UInt8 → UInt8) : List LikeToken → Bytes → Bool
  | [], b => b.isEmpty
  | .literal _ :: _, [] => false
  | .literal c :: ts, d :: b => fold c == fold d && likeFold fold ts b
  | .one :: _, [] => false
  | .one :: ts, _ :: b => likeFold fold ts b
  | .many :: ts, b => b.tails.any (likeFold fold ts)

/-- A collation that compares character by character, as `fold` leaves them. -/
def ofFold (fold : UInt8 → UInt8) : Collation where
  equal a b := a.map fold == b.map fold
  like := likeFold fold
  equal_self b := beq_self_eq_true _
  like_prefix := by
    intro p b h
    induction p generalizing b with
    | nil => exact List.any_eq_true.2 ⟨[], (List.mem_tails _ _).2 List.nil_suffix, rfl⟩
    | cons c p ih =>
      obtain ⟨r, rfl⟩ := h
      show (fold c == fold c && likeFold fold (p.map .literal ++ [.many]) (p ++ r)) = true
      rw [beq_self_eq_true, Bool.true_and]
      exact ih (List.prefix_append p r)

/-- Letters are the same in upper and lower case, as in the default collations of `utf8mb4`. -/
def caseless : Collation := ofFold fun c ↦ if 65 ≤ c ∧ c ≤ 90 then c + 32 else c

end Collation

/-- `expire_at=0 OR expire_at>UNIX_TIMESTAMP()`. -/
def Entry.visible (now : ℤ) (e : Entry) : Bool := e.expireAt = 0 || e.expireAt > now

theorem Entry.expired_iff {now : ℤ} {e : Entry} :
    e.expired now = true ↔ e.expireAt > 0 ∧ e.expireAt < now := by
  simp only [expired, Bool.and_eq_true, decide_eq_true_eq]

theorem Entry.expired_eq_false {now : ℤ} {e : Entry} (h : e.visible now = true) :
    e.expired now = false := by
  simp only [visible, Bool.or_eq_true, decide_eq_true_eq] at h
  simp only [expired, Bool.and_eq_false_iff, decide_eq_false_iff_not]
  omega

/-- What MySQL does not show has expired, if its time is not now. -/
theorem Entry.expired_eq_true {now : ℤ} {e : Entry} (hnonneg : 0 ≤ e.expireAt)
    (hnow : e.expireAt ≠ now) (h : e.visible now = false) : e.expired now = true := by
  simp only [visible, Bool.or_eq_false_iff, decide_eq_false_iff_not] at h
  simp only [expired, Bool.and_eq_true, decide_eq_true_eq]
  omega

/-- The table of `MysqlStorage`. -/
abbrev MysqlStorage := UnorderedMap Bytes Entry

namespace MysqlStorage

variable (C : Collation)

/-- `k=? AND (expire_at=0 OR expire_at>UNIX_TIMESTAMP())`. -/
def selects (now : ℤ) (key : Bytes) (row : (_ : Bytes) × Entry) : Bool :=
  C.equal row.1 key && row.2.visible now

/-- The row that a `SELECT` finds. -/
def select (now : ℤ) (key : Bytes) (s : MysqlStorage) : Option Entry :=
  (s.entries.find? (selects C now key)).map Sigma.snd

/-- `get`. -/
def get (now : ℤ) (key : Bytes) (s : MysqlStorage) : StorageResult :=
  match select C now key s with
  | none => .failure (lit "key not found")
  | some e => .success e.value

/-- `put`: `REPLACE` deletes the rows with the same key before it inserts. -/
def put (key value : Bytes) (expireAt : ℤ) (s : MysqlStorage) : StorageResult × MysqlStorage :=
  (.success [],
    (UnorderedMap.filter (fun k _ ↦ !C.equal k key) s).insert key ⟨value, expireAt⟩)

/-- `remove`: `DELETE` succeeds, whether there is such a row or not. -/
def remove (key : Bytes) (s : MysqlStorage) : StorageResult × MysqlStorage :=
  (.success [], UnorderedMap.filter (fun k _ ↦ !C.equal k key) s)

/-- `exists`. -/
def contains (now : ℤ) (key : Bytes) (s : MysqlStorage) : Bool := (select C now key s).isSome

/-- The pattern that `keys` passes to `LIKE`. -/
def likePattern (pre : Bytes) : Bytes :=
  (pre.flatMap fun c ↦ if c = 37 ∨ c = 95 ∨ c = 92 then [92, c] else [c]) ++ [37]

/-- `keys`: a fetch into a buffer of 512 bytes that is too small ends the loop. -/
def keys (now : ℤ) (pre : Bytes) (s : MysqlStorage) : List Bytes :=
  let rows := s.entries.filter fun row ↦
    row.2.visible now && (pre.isEmpty || C.like (likeTokens (likePattern pre)) row.1)
  (rows.map Sigma.fst).takeWhile fun k ↦ k.length ≤ 512

/-- The pattern says what it is meant to say. -/
theorem likeTokens_likePattern (pre : Bytes) :
    likeTokens (likePattern pre) = pre.map .literal ++ [.many] := by
  induction pre with
  | nil => rfl
  | cons c pre ih =>
    obtain ⟨d, rest, hrest⟩ : ∃ d rest, likePattern pre = d :: rest := by
      cases h : likePattern pre with
      | nil => simp [likePattern] at h
      | cons d rest => exact ⟨d, rest, rfl⟩
    by_cases hc : c = 37 ∨ c = 95 ∨ c = 92
    · have hpat : likePattern (c :: pre) = 92 :: c :: likePattern pre := by
        simp only [likePattern, List.flatMap_cons, if_pos hc, List.cons_append, List.nil_append]
      rw [hpat, likeTokens, if_pos rfl, ih, List.map_cons, List.cons_append]
    · have hpat : likePattern (c :: pre) = c :: likePattern pre := by
        simp only [likePattern, List.flatMap_cons, if_neg hc, List.cons_append, List.nil_append]
      rw [not_or, not_or] at hc
      rw [hpat, hrest, likeTokens, if_neg hc.2.2, if_neg hc.1, if_neg hc.2.1, ← hrest, ih,
        List.map_cons, List.cons_append]

section Told

variable {C} {key : Bytes} {s : MysqlStorage}
  (h : ∀ k e, s.lookup k = some e → C.equal k key = true → k = key)

include h

theorem select_eq (now : ℤ) :
    select C now key s = (s.lookup key).filter fun e ↦ e.visible now := by
  rw [select]
  rcases hfind : s.entries.find? (selects C now key) with _ | row
  · rcases he : s.lookup key with _ | e
    · rfl
    · have hrow := List.find?_eq_none.1 hfind ⟨key, e⟩ (UnorderedMap.lookup_eq_some_iff.1 he)
      rw [selects, C.equal_self, Bool.true_and] at hrow
      rw [Option.filter_some, if_neg hrow]
      rfl
  · have hsome := List.find?_some hfind
    rw [selects, Bool.and_eq_true] at hsome
    have hrow : s.lookup row.1 = some row.2 :=
      UnorderedMap.lookup_eq_some_iff.2 (List.mem_of_find?_eq_some hfind)
    rw [← h row.1 row.2 hrow hsome.1, hrow, Option.filter_some, if_pos hsome.2]
    rfl

theorem lookup_remove (k : Bytes) :
    (remove C key s).2.lookup k = if k = key then none else s.lookup k := by
  rw [remove, UnorderedMap.lookup_filter]
  rcases he : s.lookup k with _ | e
  · simp
  · rw [Option.filter_some]
    by_cases hk : k = key
    · rw [hk, C.equal_self]
      simp
    · rw [if_neg hk, if_pos]
      rw [Bool.not_eq_true', Bool.eq_false_iff]
      exact fun heq ↦ hk (h k e he heq)

theorem lookup_put (value : Bytes) (expireAt : ℤ) (k : Bytes) :
    (put C key value expireAt s).2.lookup k =
      if k = key then some ⟨value, expireAt⟩ else s.lookup k := by
  rw [put, UnorderedMap.lookup_insert_ite]
  split
  · rfl
  · next hk => exact (lookup_remove h k).trans (if_neg hk)

/-- A table with no more than MySQL's still has no more when both are put the same entry. -/
theorem lookup_put_of_le {m : UnorderedMap Bytes Entry}
    (hm : ∀ k e, m.lookup k = some e → s.lookup k = some e) (value : Bytes) (expireAt : ℤ)
    (k : Bytes) (e : Entry) (he : (m.insert key ⟨value, expireAt⟩).lookup k = some e) :
    (put C key value expireAt s).2.lookup k = some e := by
  rw [UnorderedMap.lookup_insert_ite] at he
  rw [lookup_put h]
  split at he
  · next hk => rw [if_pos hk, he]
  · next hk => rw [if_neg hk, hm k e he]

theorem lookup_remove_of_le {m : UnorderedMap Bytes Entry}
    (hm : ∀ k e, m.lookup k = some e → s.lookup k = some e) (k : Bytes) (e : Entry)
    (he : (m.erase key).lookup k = some e) : (remove C key s).2.lookup k = some e := by
  rw [UnorderedMap.lookup_erase_ite] at he
  rw [lookup_remove h]
  obtain ⟨hk, he⟩ := Option.ite_none_left_eq_some.1 he
  rw [if_neg hk, hm k e he]

end Told

/-- What `keys` lists when the collation tells the prefix and the buffer is large enough. -/
theorem mem_keys {C : Collation} {now : ℤ} {pre key : Bytes} {s : MysqlStorage}
    (hlike : ∀ k e, s.lookup k = some e → C.like (pre.map .literal ++ [.many]) k = true →
      pre <+: k)
    (hshort : ∀ k e, s.lookup k = some e → pre <+: k → e.visible now = true → k.length ≤ 512) :
    key ∈ keys C now pre s ↔
      ((s.lookup key).filter fun e ↦ e.visible now).isSome ∧ pre <+: key := by
  have hrow : ∀ row ∈ s.entries, (pre.isEmpty || C.like (likeTokens (likePattern pre)) row.1) = true
      ↔ pre <+: row.1 := by
    intro row hrow
    rw [Bool.or_eq_true, List.isEmpty_iff, likeTokens_likePattern]
    constructor
    · rintro (rfl | h)
      · exact List.nil_prefix
      · exact hlike row.1 row.2 (UnorderedMap.lookup_eq_some_iff.2 hrow) h
    · exact fun h ↦ .inr (C.like_prefix h)
  rw [keys, List.takeWhile_eq_self_iff.2]
  · rw [List.mem_map]
    constructor
    · rintro ⟨row, hmem, rfl⟩
      obtain ⟨hmem, hsel⟩ := List.mem_filter.1 hmem
      rw [Bool.and_eq_true] at hsel
      have he : s.lookup row.1 = some row.2 := UnorderedMap.lookup_eq_some_iff.2 hmem
      rw [he, Option.filter_some, if_pos hsel.1]
      exact ⟨rfl, (hrow row hmem).1 hsel.2⟩
    · rintro ⟨hsome, hpre⟩
      rcases he : s.lookup key with _ | e
      · rw [he] at hsome
        cases hsome
      · rw [he, Option.filter_some] at hsome
        split at hsome
        · next hvis =>
          have hmem := UnorderedMap.lookup_eq_some_iff.1 he
          refine ⟨⟨key, e⟩, List.mem_filter.2 ⟨hmem, ?_⟩, rfl⟩
          rw [Bool.and_eq_true]
          exact ⟨hvis, (hrow ⟨key, e⟩ hmem).2 hpre⟩
        · cases hsome
  · intro k hk
    obtain ⟨row, hmem, rfl⟩ := List.mem_map.1 hk
    obtain ⟨hmem, hsel⟩ := List.mem_filter.1 hmem
    rw [Bool.and_eq_true] at hsel
    rw [decide_eq_true_eq]
    exact hshort row.1 row.2 (UnorderedMap.lookup_eq_some_iff.2 hmem) ((hrow row hmem).1 hsel.2)
      hsel.1

end MysqlStorage

/-! ## MongoDB -/

/-- A token of a regular expression: a character that stands for itself, or one that does not. -/
inductive RegexToken where
  | literal (c : UInt8)
  | special (c : UInt8)
deriving DecidableEq

/-- The characters that have a meaning in a regular expression: `\ ^ $ . [ | ( ) ? * + {`. -/
def regexSpecial : Bytes := [92, 94, 36, 46, 91, 124, 40, 41, 63, 42, 43, 123]

/-- A letter or a digit, which has a meaning after a backslash. -/
def isAlnum (c : UInt8) : Bool :=
  (48 ≤ c && c ≤ 57) || (65 ≤ c && c ≤ 90) || (97 ≤ c && c ≤ 122)

/-- The tokens of a regular expression. -/
def regexTokens : Bytes → List RegexToken
  | [] => []
  | [c] => [if c ∈ regexSpecial then .special c else .literal c]
  | c :: d :: rest =>
    if c = 92 then (if isAlnum d then .special d else .literal d) :: regexTokens rest
    else (if c ∈ regexSpecial then .special c else .literal c) :: regexTokens (d :: rest)

theorem regexTokens_cons {c : UInt8} (hc : c ≠ 92) (rest : Bytes) :
    regexTokens (c :: rest) =
      (if c ∈ regexSpecial then .special c else .literal c) :: regexTokens rest := by
  cases rest with
  | nil => rfl
  | cons d rest => rw [regexTokens, if_neg hc]

/-- How MongoDB searches a string for a regular expression. -/
structure Regex where
  search : List RegexToken → Bytes → Bool
  /-- `^` and characters that stand for themselves are found where the string begins with them. -/
  search_start : ∀ p b : Bytes, search (.special 94 :: p.map .literal) b = p.isPrefixOf b

/-- A search that knows no more than `^` and characters that stand for themselves. -/
def Regex.plain : Regex where
  search
    | .special c :: ts, b => c == 94 && ts.isPrefixOf (b.map .literal)
    | _, _ => false
  search_start p b := by
    show ((94 : UInt8) == 94 && (p.map RegexToken.literal).isPrefixOf (b.map .literal)) = _
    rw [beq_self_eq_true, Bool.true_and, Bool.eq_iff_iff, List.isPrefixOf_iff_prefix,
      List.isPrefixOf_iff_prefix]
    exact List.prefix_map_iff_of_injective fun _ _ h ↦ RegexToken.literal.inj h

/-- What is left of a string that is passed as a C string. -/
def cString (b : Bytes) : Bytes := b.takeWhile (· ≠ 0)

theorem cString_eq_self {b : Bytes} (h : 0 ∉ b) : cString b = b := by
  refine List.takeWhile_eq_self_iff.2 fun c hc ↦ ?_
  rw [decide_eq_true_eq]
  rintro rfl
  exact h hc

/-- The collection of `MongodbStorage`. -/
abbrev MongodbStorage := UnorderedMap Bytes Entry

namespace MongodbStorage

/-- `remove`: `delete_one` succeeds, whether there is such a document or not. -/
def remove (key : Bytes) (s : MongodbStorage) : StorageResult × MongodbStorage :=
  (.success [], s.erase (cString key))

/-- `get`. -/
def get (now : ℤ) (key : Bytes) (s : MongodbStorage) : StorageResult × MongodbStorage :=
  match s.lookup (cString key) with
  | none => (.failure (lit "key not found"), s)
  | some e =>
    if e.expireAt > 0 ∧ e.expireAt < now then (.failure (lit "key expired"), (remove key s).2)
    else (.success e.value, s)

/-- `put`. -/
def put (key value : Bytes) (expireAt : ℤ) (s : MongodbStorage) : StorageResult × MongodbStorage :=
  (.success [], s.insert (cString key) ⟨cString value, expireAt⟩)

/-- `exists`. -/
def contains (now : ℤ) (key : Bytes) (s : MongodbStorage) : Bool :=
  match s.lookup (cString key) with
  | none => false
  | some e => if e.expireAt > 0 ∧ e.expireAt < now then false else true

/-- The characters that `keys` puts a backslash before: `. * + ? ( ) [ ] { } ^ $ | \`. -/
def keysEscaped : Bytes := [46, 42, 43, 63, 40, 41, 91, 93, 123, 125, 94, 36, 124, 92]

/-- The regular expression that `keys` passes. -/
def keysPattern (pre : Bytes) : Bytes :=
  94 :: pre.flatMap fun c ↦ if c ∈ keysEscaped then [92, c] else [c]

/-- `keys`. -/
def keys (R : Regex) (pre : Bytes) (s : MongodbStorage) : List Bytes :=
  if pre.isEmpty then AList.keys s
  else (AList.keys s).filter (R.search (regexTokens (cString (keysPattern pre))))

/-- `get` leaves what is there, or erases it. -/
theorem lookup_of_get {now : ℤ} {key k : Bytes} {s : MongodbStorage} {e : Entry}
    (h : (get now key s).2.lookup k = some e) : s.lookup k = some e := by
  rw [get] at h
  split at h
  · exact h
  · split at h
    · have he := (UnorderedMap.lookup_erase_ite s (cString key) k).symm.trans h
      obtain ⟨-, he⟩ := Option.ite_none_left_eq_some.1 he
      exact he
    · exact h

/-- The regular expression says what it is meant to say. -/
theorem regexTokens_keysPattern (pre : Bytes) :
    regexTokens (keysPattern pre) = .special 94 :: pre.map .literal := by
  rw [keysPattern, regexTokens_cons (by decide), if_pos (by decide)]
  congr 1
  induction pre with
  | nil => rfl
  | cons c pre ih =>
    rw [List.flatMap_cons, List.map_cons, ← ih]
    by_cases hc : c ∈ keysEscaped
    · have halnum : ∀ c ∈ keysEscaped, (!isAlnum c) = true := List.all_eq_true.1 rfl
      have hescape := halnum c hc
      rw [Bool.not_eq_true'] at hescape
      rw [if_pos hc, List.cons_append, List.singleton_append, regexTokens, if_pos rfl, hescape]
      rfl
    · have hspecial : ∀ c ∈ regexSpecial, decide (c ∈ keysEscaped) = true :=
        List.all_eq_true.1 rfl
      have hne : c ≠ 92 := by
        rintro rfl
        exact hc (by decide)
      rw [if_neg hc, List.singleton_append, regexTokens_cons hne,
        if_neg fun h ↦ hc (of_decide_eq_true (hspecial c h))]

theorem zero_notMem_keysPattern {pre : Bytes} (h : 0 ∉ pre) : 0 ∉ keysPattern pre := by
  rw [keysPattern, List.mem_cons, List.mem_flatMap]
  rintro (h94 | ⟨c, hc, h0⟩)
  · cases h94
  · have hc0 : (0 : UInt8) = c := by
      split at h0
      · rcases List.mem_cons.1 h0 with h92 | h0
        · cases h92
        · exact List.mem_singleton.1 h0
      · exact List.mem_singleton.1 h0
    exact h (hc0 ▸ hc)

end MongodbStorage

/-! ## The three side by side -/

/-- A call on the interface. -/
inductive Op where
  | put (key value : Bytes) (expireAt : ℕ)
  | remove (key : Bytes)
  | get (key : Bytes)
  | contains (key : Bytes)
  | keys (pre : Bytes)

/-- What the caller learns from it: all but the text of an error. -/
inductive Answer where
  | result (ok : Bool) (value : Bytes)
  | flag (b : Bool)
  | keys (ks : List Bytes)

/-- The same flag, the same value, or the same set of keys. -/
def Answer.Same : Answer → Answer → Prop
  | .result ok v, .result ok' v' => ok = ok' ∧ v = v'
  | .flag b, .flag b' => b = b'
  | .keys ks, .keys ks' => ∀ k, k ∈ ks ↔ k ∈ ks'
  | _, _ => False

/-- What the caller learns from a `StorageResult`. -/
def StorageResult.answer (r : StorageResult) : Answer := .result r.ok r.value

/-- What a caller of `get` learns who is shown this entry, or none. -/
def Answer.found : Option Entry → Answer
  | none => .result false []
  | some e => .result true e.value

theorem Answer.same_found (o : Option Entry) : (found o).Same (found o) := by
  cases o with
  | none | some e => exact ⟨rfl, rfl⟩

/-- One call on a `MemoryStorage`. -/
def MemoryStorage.call (now : ℤ) (s : MemoryStorage) : Op → Answer × MemoryStorage
  | .put key value expireAt => (put key value expireAt s).map StorageResult.answer id
  | .remove key => (remove key s).map StorageResult.answer id
  | .get key => (get now key s).map StorageResult.answer id
  | .contains key => (contains now key s).map .flag id
  | .keys pre => (keys now pre s).map .keys id

/-- One call on a `MysqlStorage`. -/
def MysqlStorage.call (C : Collation) (now : ℤ) (s : MysqlStorage) : Op → Answer × MysqlStorage
  | .put key value expireAt => (put C key value expireAt s).map StorageResult.answer id
  | .remove key => (remove C key s).map StorageResult.answer id
  | .get key => ((get C now key s).answer, s)
  | .contains key => (.flag (contains C now key s), s)
  | .keys pre => (.keys (keys C now pre s), s)

/-- One call on a `MongodbStorage`. -/
def MongodbStorage.call (R : Regex) (now : ℤ) (s : MongodbStorage) : Op → Answer × MongodbStorage
  | .put key value expireAt => (put key value expireAt s).map StorageResult.answer id
  | .remove key => (remove key s).map StorageResult.answer id
  | .get key => (get now key s).map StorageResult.answer id
  | .contains key => (.flag (contains now key s), s)
  | .keys pre => (.keys (keys R pre s), s)

/-- The three storages under the same calls, and what they have answered. -/
structure Backends where
  memory : MemoryStorage
  mysql : MysqlStorage
  mongodb : MongodbStorage
  answers : List (Answer × Answer × Answer)

namespace Backends

variable (C : Collation) (R : Regex)

/-- Three empty storages. -/
def empty : Backends := ⟨∅, ∅, ∅, []⟩

/-- One call at a time, on each of the three. -/
def step (s : Backends) (l : ℤ × Op) : Backends :=
  let r := s.memory.call l.1 l.2
  let r' := s.mysql.call C l.1 l.2
  let r'' := s.mongodb.call R l.1 l.2
  ⟨r.2, r'.2, r''.2, s.answers ++ [(r.1, r'.1, r''.1)]⟩

/-- The system of all sequences of calls at any times. -/
def system : System Backends (ℤ × Op) := System.ofPartial fun s l ↦ some (s.step C R l)

/-- The three answers are the same. -/
def Agree (a : Answer × Answer × Answer) : Prop := a.1.Same a.2.1 ∧ a.1.Same a.2.2

theorem agree_of_found {a b c : Answer} {o : Option Entry} (ha : a = .found o) (hb : b = .found o)
    (hc : c = .found o) : Agree (a, b, c) := by
  rw [ha, hb, hc]
  exact ⟨Answer.same_found o, Answer.same_found o⟩

/-- MySQL does not take the key for another one that it has stored. -/
def Told (s : Backends) (key : Bytes) : Prop :=
  ∀ k e, s.mysql.lookup k = some e → C.equal k key = true → k = key

/-- Whether the key has expired is not a matter of this very second, and if it has not, none of the
storages has erased it. -/
def Settled (s : Backends) (now : ℤ) (key : Bytes) : Prop :=
  ∀ e, s.mysql.lookup key = some e → e.expireAt ≠ now ∧
    (e.visible now = true → s.memory.lookup key = some e ∧ s.mongodb.lookup key = some e)

/-- The call stays clear of what the storages do differently. -/
def Clear (s : Backends) : ℤ × Op → Prop
  | (_, .put key value _) => 0 ∉ key ∧ 0 ∉ value ∧ s.Told C key
  | (_, .remove key) => 0 ∉ key ∧ s.Told C key ∧ (s.memory.lookup key).isSome
  | (now, .get key) => 0 ∉ key ∧ s.Told C key ∧ s.Settled now key
  | (now, .contains key) => 0 ∉ key ∧ s.Told C key ∧ s.Settled now key
  | (now, .keys pre) =>
    0 ∉ pre ∧
      (∀ k e, s.mysql.lookup k = some e → C.like (pre.map .literal ++ [.many]) k = true →
        pre <+: k) ∧
      ∀ k e, s.mysql.lookup k = some e → pre <+: k →
        s.Settled now k ∧ (e.visible now = true → k.length ≤ 512) ∧
          (e.visible now = false → s.mongodb.lookup k = none)

/-! ## What each of them shows -/

section View

variable (now : ℤ) (key : Bytes)

theorem memory_get (m : MemoryStorage) : (m.get now key).1.answer =
    .found ((m.lookup key).filter fun e ↦ !e.expired now) := by
  show (MemoryStorage.find key (MemoryStorage.pruneExpired now m)).answer = _
  rw [MemoryStorage.find, MemoryStorage.lookup_pruneExpired]
  split
  · next h => rw [h]; rfl
  · next e h => rw [h]; rfl

theorem memory_contains (m : MemoryStorage) : (m.contains now key).1 =
    ((m.lookup key).filter fun e ↦ !e.expired now).isSome := by
  show ((MemoryStorage.pruneExpired now m).lookup key).isSome = _
  rw [MemoryStorage.lookup_pruneExpired]

theorem memory_mem_keys (m : MemoryStorage) (pre : Bytes) : key ∈ (m.keys now pre).1 ↔
    ((m.lookup key).filter fun e ↦ !e.expired now).isSome ∧ pre <+: key := by
  rw [MemoryStorage.keys, List.mem_filter, List.isPrefixOf_iff_prefix, ← AList.mem_keys,
    ← AList.lookup_isSome, MemoryStorage.lookup_pruneExpired]

/-- MongoDB looks at the time itself. -/
theorem filter_not_expired (e : Entry) : (some e).filter (fun e ↦ !e.expired now) =
    if e.expireAt > 0 ∧ e.expireAt < now then none else some e := by
  rw [Option.filter_some]
  by_cases hexp : e.expired now = true
  · rw [if_pos (Entry.expired_iff.1 hexp), if_neg (by simp [hexp])]
  · rw [if_neg fun he ↦ hexp (Entry.expired_iff.2 he), if_pos (by simpa using hexp)]

theorem mongodb_get {key : Bytes} (hkey : 0 ∉ key) (m : MongodbStorage) : (m.get now key).1.answer =
    .found ((m.lookup key).filter fun e ↦ !e.expired now) := by
  rw [MongodbStorage.get, cString_eq_self hkey]
  split
  · next h => rw [h]; rfl
  · next e h =>
    rw [h, filter_not_expired]
    split <;> rfl

theorem mongodb_contains {key : Bytes} (hkey : 0 ∉ key) (m : MongodbStorage) :
    m.contains now key = ((m.lookup key).filter fun e ↦ !e.expired now).isSome := by
  rw [MongodbStorage.contains, cString_eq_self hkey]
  split
  · next h => rw [h]; rfl
  · next e h =>
    rw [h, filter_not_expired]
    split <;> rfl

/-- What `keys` of MongoDB lists is not asked whether it has expired. -/
theorem mongodb_mem_keys {pre : Bytes} (hpre : 0 ∉ pre) (m : MongodbStorage) :
    key ∈ m.keys R pre ↔ (m.lookup key).isSome ∧ pre <+: key := by
  rw [AList.lookup_isSome, AList.mem_keys, MongodbStorage.keys]
  split
  · next hempty =>
    rw [List.isEmpty_iff.1 hempty]
    exact ⟨fun h ↦ ⟨h, List.nil_prefix⟩, fun h ↦ h.1⟩
  · rw [List.mem_filter, cString_eq_self (MongodbStorage.zero_notMem_keysPattern hpre),
      MongodbStorage.regexTokens_keysPattern, R.search_start, List.isPrefixOf_iff_prefix]

end View

/-! ## In a clear run -/

/-- The invariant: what is in memory or in MongoDB is in MySQL. -/
structure Inv (s : Backends) : Prop where
  memory : ∀ k e, s.memory.lookup k = some e → s.mysql.lookup k = some e
  mongodb : ∀ k e, s.mongodb.lookup k = some e → s.mysql.lookup k = some e
  nonneg : ∀ k e, s.mysql.lookup k = some e → 0 ≤ e.expireAt
  agree : ∀ a ∈ s.answers, Agree a

/-- A table with no more than the other shows the same under a settled key. -/
theorem view_eq {m m' : UnorderedMap Bytes Entry} {now : ℤ} {key : Bytes}
    (hle : ∀ k e, m.lookup k = some e → m'.lookup k = some e)
    (h : ∀ e, m'.lookup key = some e → 0 ≤ e.expireAt ∧ e.expireAt ≠ now ∧
      (e.visible now = true → m.lookup key = some e)) :
    ((m.lookup key).filter fun e ↦ !e.expired now) =
      (m'.lookup key).filter fun e ↦ e.visible now := by
  rcases he' : m'.lookup key with _ | e'
  · rcases he : m.lookup key with _ | e
    · rfl
    · have := hle key e he
      rw [he'] at this
      cases this
  · obtain ⟨hnonneg, hnow, hhas⟩ := h e' he'
    rcases hvis : e'.visible now with _ | _
    · have hexp := Entry.expired_eq_true hnonneg hnow hvis
      rw [Option.filter_some, if_neg (by simp [hvis])]
      rcases he : m.lookup key with _ | e
      · rfl
      · have hee := hle key e he
        rw [he', Option.some_inj] at hee
        rw [Option.filter_some, ← hee, hexp]
        rfl
    · rw [hhas hvis, Option.filter_some, Option.filter_some, Entry.expired_eq_false hvis, hvis]
      rfl

section Clear

variable {C} {R} {s : Backends} {now : ℤ} (h : s.Inv)

include h

theorem Inv.memory_view {key : Bytes} (hsettled : s.Settled now key) :
    ((s.memory.lookup key).filter fun e ↦ !e.expired now) =
      (s.mysql.lookup key).filter fun e ↦ e.visible now :=
  view_eq h.memory fun e he ↦ ⟨h.nonneg key e he, (hsettled e he).1,
    fun hvis ↦ ((hsettled e he).2 hvis).1⟩

theorem Inv.mongodb_view {key : Bytes} (hsettled : s.Settled now key) :
    ((s.mongodb.lookup key).filter fun e ↦ !e.expired now) =
      (s.mysql.lookup key).filter fun e ↦ e.visible now :=
  view_eq h.mongodb fun e he ↦ ⟨h.nonneg key e he, (hsettled e he).1,
    fun hvis ↦ ((hsettled e he).2 hvis).2⟩

/-- The answers to a clear call are the same. -/
theorem Inv.agree_call {l : ℤ × Op} (hclear : s.Clear C l) :
    Agree ((s.memory.call l.1 l.2).1, (s.mysql.call C l.1 l.2).1,
      (s.mongodb.call R l.1 l.2).1) := by
  obtain ⟨now, op⟩ := l
  cases op with
  | put key value expireAt => exact ⟨⟨rfl, rfl⟩, ⟨rfl, rfl⟩⟩
  | remove key =>
    obtain ⟨hkey, htold, hmem⟩ := hclear
    obtain ⟨e, he⟩ := Option.isSome_iff_exists.1 hmem
    have hmemory : (s.memory.call now (.remove key)).1 = .result true [] := by
      rw [MemoryStorage.call, MemoryStorage.remove, he]
      rfl
    rw [Agree, hmemory]
    exact ⟨⟨rfl, rfl⟩, ⟨rfl, rfl⟩⟩
  | get key =>
    obtain ⟨hkey, htold, hsettled⟩ := hclear
    have hmysql : (s.mysql.call C now (.get key)).1 =
        .found ((s.mysql.lookup key).filter fun e ↦ e.visible now) := by
      show (MysqlStorage.get C now key s.mysql).answer = _
      rw [MysqlStorage.get, MysqlStorage.select_eq htold]
      split
      · next hnone => rw [hnone]; rfl
      · next e hsome => rw [hsome]; rfl
    have hmemory := memory_get now key s.memory
    have hmongodb := mongodb_get now hkey s.mongodb
    rw [h.memory_view hsettled] at hmemory
    rw [h.mongodb_view hsettled] at hmongodb
    exact agree_of_found hmemory hmysql hmongodb
  | contains key =>
    obtain ⟨hkey, htold, hsettled⟩ := hclear
    have hmysql : MysqlStorage.contains C now key s.mysql = _ :=
      congrArg Option.isSome (MysqlStorage.select_eq htold now)
    have hmemory := memory_contains now key s.memory
    have hmongodb := mongodb_contains now hkey s.mongodb
    rw [h.memory_view hsettled] at hmemory
    rw [h.mongodb_view hsettled] at hmongodb
    exact ⟨hmemory.trans hmysql.symm, hmemory.trans hmongodb.symm⟩
  | keys pre =>
    obtain ⟨hpre, hlike, hrows⟩ := hclear
    have hmysql : ∀ k, k ∈ MysqlStorage.keys C now pre s.mysql ↔ _ := fun k ↦
      MysqlStorage.mem_keys hlike fun k e he hk ↦ (hrows k e he hk).2.1
    have hsettled : ∀ k, pre <+: k → s.Settled now k :=
      fun k hk e he ↦ (hrows k e he hk).1 e he
    refine ⟨fun k ↦ ?_, fun k ↦ ?_⟩
    · refine (memory_mem_keys now k s.memory pre).trans (Iff.trans ?_ (hmysql k).symm)
      exact and_congr_left fun hk ↦ by rw [h.memory_view (hsettled k hk)]
    · refine (memory_mem_keys now k s.memory pre).trans
        (Iff.trans ?_ (mongodb_mem_keys R k hpre s.mongodb).symm)
      refine and_congr_left fun hk ↦ ?_
      rw [h.memory_view (hsettled k hk), ← h.mongodb_view (hsettled k hk)]
      rcases he : s.mongodb.lookup k with _ | e
      · rfl
      · -- What MongoDB still has under this prefix has not expired.
        have he' := h.mongodb k e he
        have hvis : e.visible now = true := by
          by_contra hvis
          have hnone := (hrows k e he' hk).2.2 (Bool.eq_false_iff.2 hvis)
          rw [he] at hnone
          cases hnone
        rw [Option.filter_some, Entry.expired_eq_false hvis]
        rfl

/-- What is left of a table where entries have been erased was there before. -/
theorem Inv.memory_prune (now : ℤ) (k : Bytes) (e : Entry)
    (he : (MemoryStorage.pruneExpired now s.memory).lookup k = some e) :
    s.mysql.lookup k = some e := by
  rw [MemoryStorage.lookup_pruneExpired] at he
  exact h.memory k e (Option.filter_eq_some_iff.1 he).1

theorem Inv.put {key value : Bytes} (hkey : 0 ∉ key) (hvalue : 0 ∉ value) (htold : s.Told C key)
    (expireAt : ℕ)
    (hagree : ∀ a ∈ (s.step C R (now, .put key value expireAt)).answers, Agree a) :
    (s.step C R (now, .put key value expireAt)).Inv where
  memory := MysqlStorage.lookup_put_of_le htold h.memory value expireAt
  mongodb k e he := by
    refine MysqlStorage.lookup_put_of_le htold h.mongodb value expireAt k e ?_
    rw [← he]
    show _ = (s.mongodb.insert (cString key) ⟨cString value, expireAt⟩).lookup k
    rw [cString_eq_self hkey, cString_eq_self hvalue]
  nonneg k e he := by
    have he' := (MysqlStorage.lookup_put htold value expireAt k).symm.trans he
    split at he'
    · cases he'
      exact Int.natCast_nonneg expireAt
    · exact h.nonneg k e he'
  agree := hagree

theorem Inv.remove {key : Bytes} (hkey : 0 ∉ key) (htold : s.Told C key)
    (hmem : (s.memory.lookup key).isSome)
    (hagree : ∀ a ∈ (s.step C R (now, .remove key)).answers, Agree a) :
    (s.step C R (now, .remove key)).Inv where
  memory k e he := by
    obtain ⟨e₀, he₀⟩ := Option.isSome_iff_exists.1 hmem
    refine MysqlStorage.lookup_remove_of_le htold h.memory k e ?_
    rw [← he]
    show _ = (MemoryStorage.remove key s.memory).2.lookup k
    rw [MemoryStorage.remove, he₀]
  mongodb k e he := by
    refine MysqlStorage.lookup_remove_of_le htold h.mongodb k e ?_
    rw [← he]
    show _ = (s.mongodb.erase (cString key)).lookup k
    rw [cString_eq_self hkey]
  nonneg k e he := by
    have he' := (MysqlStorage.lookup_remove htold k).symm.trans he
    obtain ⟨-, he'⟩ := Option.ite_none_left_eq_some.1 he'
    exact h.nonneg k e he'
  agree := hagree

theorem Inv.step {l : ℤ × Op} (hclear : s.Clear C l) : (s.step C R l).Inv := by
  have hagree : ∀ a ∈ (s.step C R l).answers, Agree a := by
    intro a ha
    rcases List.mem_append.1 ha with ha | ha
    · exact h.agree a ha
    · rw [List.mem_singleton.1 ha]
      exact h.agree_call hclear
  obtain ⟨now, op⟩ := l
  cases op with
  | put key value expireAt =>
    obtain ⟨hkey, hvalue, htold⟩ := hclear
    exact h.put hkey hvalue htold expireAt hagree
  | remove key =>
    obtain ⟨hkey, htold, hmem⟩ := hclear
    exact h.remove hkey htold hmem hagree
  | get key =>
    exact ⟨h.memory_prune now, fun k e he ↦ h.mongodb k e (MongodbStorage.lookup_of_get he),
      h.nonneg, hagree⟩
  | contains key => exact ⟨h.memory_prune now, h.mongodb, h.nonneg, hagree⟩
  | keys pre => exact ⟨h.memory_prune now, h.mongodb, h.nonneg, hagree⟩

end Clear

theorem inv_empty : empty.Inv where
  memory _ _ he := by cases he
  mongodb _ _ he := by cases he
  nonneg _ _ he := by cases he
  agree _ ha := by cases ha

/-- **The storages are interchangeable in a clear run**: in every sequence of calls at any times, of
which each one stays clear of what they do differently, all answers of the three are the same. -/
theorem interchangeable {s : Backends} {ls : List (ℤ × Op)}
    (hrun : ((system C R).guarded fun s l ↦ s.Clear C l).Run empty ls s) :
    s.answers.length = ls.length ∧ ∀ a ∈ s.answers, Agree a := by
  constructor
  · induction hrun with
    | nil => rfl
    | snoc _ hstep ih =>
      cases hstep.2
      rw [step, List.length_append, List.length_append, ih]
      rfl
  · refine Inv.agree (hrun.invariant (fun t l u h hstep ↦ ?_) inv_empty)
    cases hstep.2
    exact h.step hstep.1

instance decidableSettled (s : Backends) (now : ℤ) (key : Bytes) : Decidable (s.Settled now key) :=
  inferInstanceAs (Decidable (∀ e ∈ s.mysql.lookup key, _))

instance decidableTold (s : Backends) (key : Bytes) : Decidable (s.Told C key) :=
  UnorderedMap.decidableForall (P := fun k _ ↦ C.equal k key = true → k = key) s.mysql

instance decidableClear (s : Backends) : ∀ l, Decidable (s.Clear C l)
  | (_, .put key value _) => inferInstanceAs (Decidable (0 ∉ key ∧ 0 ∉ value ∧ s.Told C key))
  | (_, .remove key) =>
    inferInstanceAs (Decidable (0 ∉ key ∧ s.Told C key ∧ (s.memory.lookup key).isSome))
  | (now, .get key) => inferInstanceAs (Decidable (0 ∉ key ∧ s.Told C key ∧ s.Settled now key))
  | (now, .contains key) =>
    inferInstanceAs (Decidable (0 ∉ key ∧ s.Told C key ∧ s.Settled now key))
  | (_, .keys _) => instDecidableAnd

/-- A key that has not expired, one that has, and one that is removed; the prefix of the keys has a
wildcard of `LIKE` in it. -/
def clearCalls : List (ℤ × Op) :=
  [(0, .put (lit "a_1") (lit "x") 0), (0, .put (lit "a_2") (lit "y") 10),
    (0, .put (lit "ab") (lit "z") 20), (5, .get (lit "a_2")), (15, .get (lit "a_2")),
    (15, .contains (lit "ab")), (15, .keys (lit "a_")), (16, .remove (lit "ab")),
    (16, .keys [])]

theorem interchangeable_clearCalls :
    ∃ s, ((system .caseless .plain).guarded fun s l ↦ s.Clear .caseless l).Run empty clearCalls s ∧
      s.answers.length = 9 ∧ ∀ a ∈ s.answers, Agree a := by
  obtain ⟨s, hrun, -⟩ : ∃ s, ((system .caseless .plain).guarded fun s l ↦
      s.Clear .caseless l).Run empty clearCalls s ∧ True :=
    System.Run.exists_of_any_guarded (by decide +kernel)
  exact ⟨s, hrun, interchangeable _ _ hrun⟩

/-- An entry is asked for in the second in which it expires, and a key is removed that was never
put: MySQL does not show the entry that the others do, and removing fails in memory only. -/
theorem backends_disagree :
    ∃ s, (system .caseless .plain).Run empty
        [(0, .put (lit "k") (lit "v") 10), (10, .get (lit "k")), (10, .remove (lit "m"))] s ∧
      s.answers = [(.result true [], .result true [], .result true []),
        (.result true (lit "v"), .result false [], .result true (lit "v")),
        (.result false [], .result true [], .result true [])] ∧
      ∃ a ∈ s.answers, ¬ Agree a := by
  refine ⟨_, ((System.Run.single rfl).snoc rfl).snoc rfl, rfl, _, .tail _ (.head _), ?_⟩
  rintro ⟨⟨hok, _⟩, _⟩
  cases hok

end Backends

end Storage
end ChwellCore
