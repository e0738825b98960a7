import ChwellCore.Storage.MemoryStorage
import Mathlib.Data.Multiset.Basic

/-!
# Repositories

A `Repository<T>` keeps entities of one type in a table of its own, and all the tables share one
`StorageInterface`: the entity with a given id is stored under `<table name>:<id>`, and `find_all`
asks for all the keys that begin with `<table name>:`.  The table name may be any string, and so may
the id, and neither is escaped.

So the entity `x` of table `a:b` is at the same time the entity `b:x` of table `a`.  `isolated_iff`
says that this is all there is to it: two repositories on one `MemoryStorage` answer as if the other
one were not there if and only if neither of the two names, with the colon behind it, is a prefix of
the other.

How a `Document` is written down and read back depends on the build, with YAML or without; nothing
here depends on either.
-/

set_option autoImplicit false

namespace ChwellCore
namespace Storage

/-- `Document`, as far as a repository uses it. -/
structure DocumentFormat (D : Type) where
  setString : Bytes → Bytes → D → D
  toString : D → Bytes
  fromString : Bytes → Option D

/-- `Entity`, for a class `T` that is derived from it. -/
structure Entity (T D : Type) where
  tableName : T → Bytes
  id : T → Bytes
  toDocument : T → D
  /-- `from_document`, on an object that is overwritten. -/
  fromDocument : D → T → T
  /-- The default constructor. -/
  fresh : T

/-- `Repository<T>`, over a `MemoryStorage`. -/
structure Repository (T D : Type) where
  format : DocumentFormat D
  entity : Entity T D
  tableName : Bytes

namespace Repository

variable {T D : Type} (r : Repository T D)

/-- What the keys of the repository begin with. -/
def keyPrefix : Bytes := r.tableName ++ lit ":"

/-- `make_key`. -/
def makeKey (id : Bytes) : Bytes := r.keyPrefix ++ id

/-- `extract_id`. -/
def extractId (key : Bytes) : Bytes :=
  if r.keyPrefix.isPrefixOf key then key.drop r.keyPrefix.length else key

/-- `save`. -/
def save (e : T) (s : MemoryStorage) : StorageResult × MemoryStorage :=
  if r.entity.tableName e ≠ r.tableName then
    (.failure (lit "ORM Repository: entity.table_name() does not match repository table_name"), s)
  else
    let doc := r.format.setString (lit "id") (r.entity.id e) (r.entity.toDocument e)
    MemoryStorage.put (r.makeKey (r.entity.id e)) (r.format.toString doc) 0 s

/-- What `find` makes of the answer of the storage. -/
def parse (out : T) (a : StorageResult) : Option T :=
  if a.ok then (r.format.fromString a.value).map fun doc ↦ r.entity.fromDocument doc out else none

/-- `find`, into an object. -/
def find (now : ℤ) (id : Bytes) (out : T) (s : MemoryStorage) : Option T × MemoryStorage :=
  let a := MemoryStorage.get now (r.makeKey id) s
  (r.parse out a.1, a.2)

/-- `remove`. -/
def remove (id : Bytes) (s : MemoryStorage) : StorageResult × MemoryStorage :=
  MemoryStorage.remove (r.makeKey id) s

/-- `exists`. -/
def contains (now : ℤ) (id : Bytes) (s : MemoryStorage) : Bool × MemoryStorage :=
  MemoryStorage.contains now (r.makeKey id) s

/-- The branch of `find_all` for a storage whose `mget` gives too many answers or too few. -/
def findEach (now : ℤ) : List Bytes → MemoryStorage → List T × MemoryStorage
  | [], s => ([], s)
  | k :: ks, s =>
    let a := r.find now (r.extractId k) r.entity.fresh s
    let rest := findEach now ks a.2
    (a.1.toList ++ rest.1, rest.2)

/-- `find_all`; `now` is read by `keys`, and `now'` by what follows. -/
def findAll (now now' : ℤ) (s : MemoryStorage) : List T × MemoryStorage :=
  let ks := MemoryStorage.keys now r.keyPrefix s
  if ks.1.isEmpty then ([], ks.2)
  else
    let as := MemoryStorage.mget now' ks.1 ks.2
    if as.1.length ≠ ks.1.length then r.findEach now' ks.1 as.2
    else (as.1.filterMap (r.parse r.entity.fresh), as.2)

end Repository

/-- An operation on a repository, with what it reads off the clock. -/
inductive RepositoryOp (T : Type) where
  | save (e : T)
  | find (now : ℤ) (id : Bytes) (out : T)
  | contains (now : ℤ) (id : Bytes)
  | remove (id : Bytes)
  | findAll (now now' : ℤ)

/-- What it answers.  The entities of a table come in no particular order. -/
inductive RepositoryAnswer (T : Type) where
  | result (r : StorageResult)
  | found (e : Option T)
  | flag (b : Bool)
  | all (es : Multiset T)

namespace Repository

variable {T T' D D' : Type}

/-- An operation. -/
def run (r : Repository T D) (s : MemoryStorage) :
    RepositoryOp T → RepositoryAnswer T × MemoryStorage
  | .save e =>
    let a := r.save e s
    (.result a.1, a.2)
  | .find now id out =>
    let a := r.find now id out s
    (.found a.1, a.2)
  | .contains now id =>
    let a := r.contains now id s
    (.flag a.1, a.2)
  | .remove id =>
    let a := r.remove id s
    (.result a.1, a.2)
  | .findAll now now' =>
    let a := r.findAll now now' s
    (.all a.1, a.2)

/-- What the first of two repositories answers in a sequence of operations on both. -/
def answers (r : Repository T D) (r' : Repository T' D') (s : MemoryStorage) :
    List (RepositoryOp T ⊕ RepositoryOp T') → List (RepositoryAnswer T)
  | [] => []
  | .inl op :: ops => (r.run s op).1 :: answers r r' (r.run s op).2 ops
  | .inr op :: ops => answers r r' (r'.run s op).2 ops

/-- The first repository answers as if the operations of the second had never happened. -/
def Isolated (r : Repository T D) (r' : Repository T' D') : Prop :=
  ∀ ops, answers r r' ∅ ops = answers r r' ∅ (ops.filter Sum.isLeft)

/-! ## What a repository sees of the storage -/

variable {r : Repository T D} {r' : Repository T' D'} {s s' : MemoryStorage} {key : Bytes}

/-- Two storages that a repository cannot tell apart. -/
structure Same (r : Repository T D) (s s' : MemoryStorage) : Prop where
  lasting : MemoryStorage.Lasting s
  lasting' : MemoryStorage.Lasting s'
  lookup : ∀ id, s.lookup (r.makeKey id) = s'.lookup (r.makeKey id)

theorem prefix_makeKey (r : Repository T D) (id : Bytes) : r.keyPrefix <+: r.makeKey id :=
  List.prefix_append _ _

/-- What an operation writes: the key, and what is under it afterwards. -/
def write (r : Repository T D) : RepositoryOp T → Option (Bytes × Option Entry)
  | .save e =>
    if r.entity.tableName e ≠ r.tableName then none
    else
      let doc := r.format.setString (lit "id") (r.entity.id e) (r.entity.toDocument e)
      some (r.makeKey (r.entity.id e), some ⟨r.format.toString doc, 0⟩)
  | .remove id => some (r.makeKey id, none)
  | .find _ _ _ | .contains _ _ | .findAll _ _ => none

/-- An operation writes under keys of the repository only. -/
theorem prefix_of_write {op : RepositoryOp T} {e : Option Entry} (h : r.write op = some (key, e)) :
    r.keyPrefix <+: key := by
  cases op with
  | save e =>
    rw [write] at h
    split at h <;> cases h
    exact r.prefix_makeKey _
  | remove id =>
    cases h
    exact r.prefix_makeKey _
  | find | contains | findAll => cases h

/-- `find_all` on a `MemoryStorage`, which gives an answer for each key. -/
theorem findAll_eq (r : Repository T D) (now now' : ℤ) (s : MemoryStorage) :
    (r.findAll now now' s).1 = ((MemoryStorage.keys now r.keyPrefix s).1.map fun k ↦
      MemoryStorage.find k (MemoryStorage.mget now' (MemoryStorage.keys now r.keyPrefix s).1
        (MemoryStorage.keys now r.keyPrefix s).2).2).filterMap (r.parse r.entity.fresh) := by
  rw [findAll]
  dsimp only
  split
  · next hnil => rw [List.isEmpty_iff.1 hnil]; rfl
  · rw [if_neg (by rw [MemoryStorage.mget, List.length_map]; exact fun h ↦ h rfl)]
    rfl

theorem findAll_lookup (hs : s.Lasting) (now now' : ℤ) (key : Bytes) :
    (r.findAll now now' s).2.lookup key = s.lookup key := by
  have hkeys : (MemoryStorage.keys now r.keyPrefix s).2.lookup key = s.lookup key :=
    hs.lookup_pruneExpired now key
  rw [findAll]
  dsimp only
  split
  · exact hkeys
  · rw [if_neg (by rw [MemoryStorage.mget, List.length_map]; exact fun h ↦ h rfl)]
    exact ((hs.pruneExpired now).lookup_pruneExpired now' key).trans hkeys

/-- What an operation does to the storage. -/
theorem run_lookup (hs : s.Lasting) (op : RepositoryOp T) (key : Bytes) :
    (r.run s op).2.lookup key = match r.write op with
      | none => s.lookup key
      | some (k, e) => if key = k then e else s.lookup key := by
  cases op with
  | save e =>
    rw [run, write, save]
    split
    · rfl
    · exact UnorderedMap.lookup_insert_ite s _ key _
  | find now id out => exact hs.lookup_pruneExpired now key
  | contains now id => exact hs.lookup_pruneExpired now key
  | remove id =>
    rw [run, write, remove, MemoryStorage.remove]
    dsimp only
    split
    · next hnone =>
      split
      · next hkey => rw [hkey]; exact hnone
      · rfl
    · exact UnorderedMap.lookup_erase_ite s _ key
  | findAll now now' => exact findAll_lookup hs now now' key

/-- What is written does not expire. -/
theorem expireAt_of_write {op : RepositoryOp T} {e : Entry} (h : r.write op = some (key, some e)) :
    e.expireAt = 0 := by
  cases op with
  | save e =>
    rw [write] at h
    split at h <;> cases h
    rfl
  | remove | find | contains | findAll => cases h

theorem run_lasting (hs : s.Lasting) (op : RepositoryOp T) : (r.run s op).2.Lasting := by
  intro k e he
  rw [run_lookup hs] at he
  split at he
  · exact hs k e he
  · next hwrite =>
    split at he
    · subst he
      exact expireAt_of_write hwrite
    · exact hs k e he

theorem contains_fst (hs : s.Lasting) (now : ℤ) (id : Bytes) :
    (r.contains now id s).1 = (s.lookup (r.makeKey id)).isSome := by
  rw [contains, MemoryStorage.contains, hs.lookup_pruneExpired]

/-- The keys of the repository are the same in both storages. -/
theorem Same.keys_perm (h : Same r s s') (now : ℤ) :
    (MemoryStorage.keys now r.keyPrefix s).1.Perm (MemoryStorage.keys now r.keyPrefix s').1 := by
  refine (List.perm_ext_iff_of_nodup ?_ ?_).2 fun key ↦ ?_
  · exact (AList.keys_nodup _).filter _
  · exact (AList.keys_nodup _).filter _
  · rw [MemoryStorage.mem_keys h.lasting, MemoryStorage.mem_keys h.lasting']
    refine and_congr_left ?_
    rintro ⟨id, rfl⟩
    rw [show r.keyPrefix ++ id = r.makeKey id from rfl, h.lookup id]

theorem Same.findAll (h : Same r s s') (now now' : ℤ) :
    (r.findAll now now' s).1.Perm (r.findAll now now' s').1 := by
  rw [findAll_eq, findAll_eq]
  refine (((h.keys_perm now).map _).trans
    (.of_eq (List.map_congr_left fun key hkey ↦ ?_))).filterMap _
  obtain ⟨-, id, rfl⟩ := (MemoryStorage.mem_keys h.lasting').1 hkey
  have hlookup : ∀ s : MemoryStorage, s.Lasting → ((s.pruneExpired now).pruneExpired now').lookup
      (r.makeKey id) = s.lookup (r.makeKey id) := fun s hs ↦
    ((hs.pruneExpired now).lookup_pruneExpired now' _).trans (hs.lookup_pruneExpired now _)
  exact MemoryStorage.find_congr
    ((hlookup s h.lasting).trans ((h.lookup id).trans (hlookup s' h.lasting').symm))

/-- A repository answers alike on storages that it cannot tell apart, and cannot tell them apart
afterwards. -/
theorem Same.run (h : Same r s s') (op : RepositoryOp T) :
    (r.run s op).1 = (r.run s' op).1 ∧ Same r (r.run s op).2 (r.run s' op).2 := by
  refine ⟨?_, run_lasting h.lasting op, run_lasting h.lasting' op, fun id ↦ ?_⟩
  · cases op with
    | save e =>
      rw [Repository.run, Repository.run, save, save]
      split <;> rfl
    | find now id out =>
      have hfind : MemoryStorage.find (r.makeKey id) (s.pruneExpired now) =
          MemoryStorage.find (r.makeKey id) (s'.pruneExpired now) := by
        refine MemoryStorage.find_congr ?_
        rw [h.lasting.lookup_pruneExpired, h.lasting'.lookup_pruneExpired, h.lookup]
      exact congrArg (fun a ↦ RepositoryAnswer.found (r.parse out a)) hfind
    | contains now id =>
      rw [Repository.run, Repository.run, contains_fst h.lasting, contains_fst h.lasting',
        h.lookup]
    | remove id =>
      rw [Repository.run, Repository.run, remove, remove, MemoryStorage.remove,
        MemoryStorage.remove, h.lookup id]
      dsimp only
      split <;> rfl
    | findAll now now' =>
      exact congrArg RepositoryAnswer.all (Multiset.coe_eq_coe.2 (h.findAll now now'))
  · rw [run_lookup h.lasting, run_lookup h.lasting', h.lookup]

/-- An operation of another repository whose keys are others. -/
theorem Same.other (h : Same r s s') (op : RepositoryOp T')
    (hdisj : ∀ key, r.keyPrefix <+: key → ¬ r'.keyPrefix <+: key) :
    Same r (r'.run s op).2 s' := by
  refine ⟨run_lasting h.lasting op, h.lasting', fun id ↦ ?_⟩
  rw [run_lookup h.lasting, ← h.lookup]
  split
  · rfl
  · next hwrite =>
    refine if_neg ?_
    rintro rfl
    exact hdisj _ (r.prefix_makeKey id) (prefix_of_write hwrite)

theorem Same.answers (hdisj : ∀ key, r.keyPrefix <+: key → ¬ r'.keyPrefix <+: key)
    (ops : List (RepositoryOp T ⊕ RepositoryOp T')) {s s' : MemoryStorage} (h : Same r s s') :
    answers r r' s ops = answers r r' s' (ops.filter Sum.isLeft) := by
  induction ops generalizing s s' with
  | nil => rfl
  | cons op ops ih =>
    cases op with
    | inl op =>
      obtain ⟨hanswer, hsame⟩ := h.run op
      show _ :: _ = _ :: _
      rw [hanswer, ih hsame]
    | inr op => exact ih (h.other op hdisj)

/-- What one repository saves is there for another whose keys may begin so. -/
theorem not_isolated (hpre : r.keyPrefix <+: r'.keyPrefix)
    (hr' : ∃ e, r'.entity.tableName e = r'.tableName) : ¬ Isolated r r' := by
  obtain ⟨rest, hrest⟩ := hpre
  obtain ⟨e, he⟩ := hr'
  intro hiso
  have hkey : r'.makeKey (r'.entity.id e) = r.makeKey (rest ++ r'.entity.id e) := by
    rw [makeKey, ← hrest, List.append_assoc, makeKey]
  -- the second one saves its entity, and the first one is asked for it
  have hboth : [RepositoryAnswer.flag _] = [RepositoryAnswer.flag _] :=
    hiso [.inr (.save e), .inl (.contains 0 (rest ++ r'.entity.id e))]
  have hflag := RepositoryAnswer.flag.inj (List.head_eq_of_cons_eq hboth)
  rw [contains_fst (run_lasting MemoryStorage.lasting_empty _),
    contains_fst MemoryStorage.lasting_empty, run_lookup MemoryStorage.lasting_empty, write,
    if_neg (not_not.2 he), ← hkey, AList.lookup_empty] at hflag
  simp at hflag

/-- **When repositories do not see each other**: two repositories on one storage, each with an
entity to save, answer as if the other were not there if and only if neither name, with its colon,
is a prefix of the other. -/
theorem isolated_iff (r : Repository T D) (r' : Repository T' D')
    (hr : ∃ e, r.entity.tableName e = r.tableName)
    (hr' : ∃ e, r'.entity.tableName e = r'.tableName) :
    (Isolated r r' ∧ Isolated r' r) ↔
      ¬ r.tableName ++ lit ":" <+: r'.tableName ++ lit ":" ∧
        ¬ r'.tableName ++ lit ":" <+: r.tableName ++ lit ":" := by
  constructor
  · rintro ⟨hiso, hiso'⟩
    exact ⟨fun hpre ↦ not_isolated hpre hr' hiso, fun hpre ↦ not_isolated hpre hr hiso'⟩
  · rintro ⟨hpre, hpre'⟩
    have hdisj : ∀ key, r.keyPrefix <+: key → ¬ r'.keyPrefix <+: key := fun key h h' ↦
      (List.prefix_or_prefix_of_prefix h h').elim hpre hpre'
    have hempty : ∀ {T D : Type} (r : Repository T D), Same r ∅ ∅ := fun r ↦
      ⟨MemoryStorage.lasting_empty, MemoryStorage.lasting_empty, fun _ ↦ rfl⟩
    exact ⟨fun ops ↦ (hempty r).answers hdisj ops,
      fun ops ↦ (hempty r').answers (fun key h h' ↦ hdisj key h' h) ops⟩

/-- An entity that is only an id, in a table with the given name. -/
def named (tableName : Bytes) : Repository Bytes Bytes where
  format := ⟨fun _ value _ ↦ value, id, some⟩
  entity := ⟨fun _ ↦ tableName, id, id, fun doc _ ↦ doc, []⟩
  tableName := tableName

theorem isolated_iff_users_rooms :
    Isolated (named (lit "users")) (named (lit "rooms")) ∧
      Isolated (named (lit "rooms")) (named (lit "users")) :=
  (isolated_iff (named (lit "users")) (named (lit "rooms")) ⟨[], rfl⟩ ⟨[], rfl⟩).2 (by decide)

/-- The user `1` of guild table `guild:users` is also in table `guild`. -/
theorem guild_sees_guild_users :
    lit "guild" ≠ lit "guild:users" ∧
      answers (named (lit "guild")) (named (lit "guild:users")) ∅
          [.inr (.save (lit "1")), .inl (.findAll 0 0)] = [.all {lit "1"}] ∧
      answers (named (lit "guild")) (named (lit "guild:users")) ∅ [.inl (.findAll 0 0)] =
        [.all 0] ∧
      ¬ Isolated (named (lit "guild")) (named (lit "guild:users")) := by
  refine ⟨by decide, rfl, rfl, not_isolated ⟨lit "users:", rfl⟩ ⟨[], rfl⟩⟩

end Repository

end Storage
end ChwellCore
