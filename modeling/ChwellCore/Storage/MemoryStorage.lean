import ChwellCore.Core.Bytes
import ChwellCore.Lib.UnorderedMap

/-!
# The storage interface, and the storage in memory

A `StorageInterface` is a table of values under string keys, each with a time at which it expires.
Its methods may throw, so that a call of one is an `Outcome`; the clock that a method may read is an
argument.

`MemoryStorage` keeps the table in a hash table.  A value expires when the clock has passed its
`expire_at`, and `get`, `exists`, `keys` and `mget` begin by erasing everything that has expired,
whatever its key.  `put`, `mput` and `remove` do not.
-/

set_option autoImplicit false

namespace ChwellCore
namespace Storage

/-- `StorageResult`. -/
structure StorageResult where
  ok : Bool := false
  errorMsg : Bytes := []
  value : Bytes := []
deriving DecidableEq, Repr

/-- `StorageResult::success`. -/
def StorageResult.success (v : Bytes) : StorageResult := { ok := true, value := v }

/-- `StorageResult::failure`. -/
def StorageResult.failure (msg : Bytes) : StorageResult := { errorMsg := msg }

/-- `StorageDocument`. -/
structure StorageDocument where
  key : Bytes
  value : Bytes
  expireAt : ℤ := 0
deriving DecidableEq, Repr

/-- How a call ends: it returns, or it throws a `std::exception` with its `what()`, or something
else. -/
inductive Outcome (α : Type) where
  | returns (a : α)
  | throwsStd (what : Bytes)
  | throwsOther

/-- `StorageInterface`: its methods, over the clock and what is stored.  `contains` is `exists`. -/
structure StorageInterface (σ : Type) where
  get : ℤ → Bytes → σ → Outcome StorageResult × σ
  put : ℤ → Bytes → Bytes → ℤ → σ → Outcome StorageResult × σ
  remove : ℤ → Bytes → σ → Outcome StorageResult × σ
  contains : ℤ → Bytes → σ → Outcome Bool × σ
  mget : ℤ → List Bytes → σ → Outcome (List StorageResult) × σ
  mput : ℤ → List StorageDocument → σ → Outcome StorageResult × σ

/-- `MemoryStorage::Entry`. -/
structure Entry where
  value : Bytes
  expireAt : ℤ
deriving DecidableEq, Repr

/-- The time of the entry has passed. -/
def Entry.expired (now : ℤ) (e : Entry) : Bool := e.expireAt > 0 && e.expireAt < now

/-- `MemoryStorage`. -/
abbrev MemoryStorage := UnorderedMap Bytes Entry

namespace MemoryStorage

/-- `prune_expired`. -/
def pruneExpired (now : ℤ) (s : MemoryStorage) : MemoryStorage :=
  UnorderedMap.filter (fun _ e ↦ !e.expired now) s

/-- What is stored under the key. -/
def find (key : Bytes) (s : MemoryStorage) : StorageResult :=
  match s.lookup key with
  | none => .failure (lit "key not found")
  | some e => .success e.value

/-- `get`. -/
def get (now : ℤ) (key : Bytes) (s : MemoryStorage) : StorageResult × MemoryStorage :=
  let s := pruneExpired now s
  (find key s, s)

/-- `put`. -/
def put (key value : Bytes) (expireAt : ℤ) (s : MemoryStorage) : StorageResult × MemoryStorage :=
  (.success [], s.insert key ⟨value, expireAt⟩)

/-- `remove`. -/
def remove (key : Bytes) (s : MemoryStorage) : StorageResult × MemoryStorage :=
  match s.lookup key with
  | none => (.failure (lit "key not found"), s)
  | some _ => (.success [], s.erase key)

/-- `exists`. -/
def contains (now : ℤ) (key : Bytes) (s : MemoryStorage) : Bool × MemoryStorage :=
  let s := pruneExpired now s
  ((s.lookup key).isSome, s)

/-- `keys`. -/
def keys (now : ℤ) (pre : Bytes) (s : MemoryStorage) : List Bytes × MemoryStorage :=
  let s := pruneExpired now s
  ((AList.keys s).filter fun k ↦ pre.isPrefixOf k, s)

/-- `mget`. -/
def mget (now : ℤ) (keys : List Bytes) (s : MemoryStorage) : List StorageResult × MemoryStorage :=
  let s := pruneExpired now s
  (keys.map fun k ↦ find k s, s)

/-- `mput`. -/
def mput (docs : List StorageDocument) (s : MemoryStorage) : StorageResult × MemoryStorage :=
  (.success [], docs.foldl (fun s doc ↦ s.insert doc.key ⟨doc.value, doc.expireAt⟩) s)

/-- As a storage whose methods do not throw. -/
def interface : StorageInterface MemoryStorage where
  get now key s := (get now key s).map .returns id
  put _ key value expireAt s := (put key value expireAt s).map .returns id
  remove _ key s := (remove key s).map .returns id
  contains now key s := (contains now key s).map .returns id
  mget now keys s := (mget now keys s).map .returns id
  mput _ docs s := (mput docs s).map .returns id

theorem lookup_pruneExpired (now : ℤ) (key : Bytes) (s : MemoryStorage) :
    (pruneExpired now s).lookup key = (s.lookup key).filter fun e ↦ !e.expired now :=
  UnorderedMap.lookup_filter _ s key

theorem find_congr {key : Bytes} {s s' : MemoryStorage} (h : s.lookup key = s'.lookup key) :
    find key s = find key s' := by
  rw [find, find, h]

/-! ## Entries that do not expire -/

/-- No entry has a time at which it expires. -/
def Lasting (s : MemoryStorage) : Prop := ∀ k e, s.lookup k = some e → e.expireAt = 0

variable {s : MemoryStorage}

theorem lasting_empty : Lasting ∅ := fun k e h ↦ by
  rw [AList.lookup_empty] at h
  cases h

theorem Lasting.lookup_pruneExpired (h : Lasting s) (now : ℤ) (key : Bytes) :
    (pruneExpired now s).lookup key = s.lookup key := by
  rw [MemoryStorage.lookup_pruneExpired]
  rcases he : s.lookup key with _ | e
  · rfl
  · rw [Option.filter_some, Entry.expired, h key e he]
    rfl

theorem Lasting.pruneExpired (h : Lasting s) (now : ℤ) : Lasting (pruneExpired now s) :=
  fun k e he ↦ h k e ((h.lookup_pruneExpired now k).symm.trans he)

theorem mem_keys {now : ℤ} {pre key : Bytes} (h : Lasting s) :
    key ∈ (keys now pre s).1 ↔ (s.lookup key).isSome ∧ pre <+: key := by
  rw [keys, List.mem_filter, List.isPrefixOf_iff_prefix, ← AList.mem_keys, ← AList.lookup_isSome,
    h.lookup_pruneExpired]

end MemoryStorage

end Storage
end ChwellCore
