import ChwellCore.Lib.Run
import ChwellCore.Storage.MemoryStorage
import Mathlib.Data.List.Induction

/-!
# What the storage in memory is asked

`MemoryStorage` has five ways to read, each of which erases what has expired first, and three ways
to write, none of which does.  So its table holds more than it shows: an entry stays in it until the
first reading after its time has passed.

`Read` says what a reader may rely on nevertheless.  What is shown of a key is the last that was
written under it, unless that was removed or its time has passed, and all five ways to read show the
same.  `reads_agree` has it for every run on a clock that is not set back.  `mput` and `mget` are
written for the storage in memory, and do what the `StorageInterface` does where they are not:
`defaultMput_eq` and `defaultMget_eq`.
-/

set_option autoImplicit false

namespace ChwellCore
namespace Storage

/-! ## The defaults of the interface -/

namespace StorageInterface

variable {σ : Type} (I : StorageInterface σ)

/-- `put` of a `StorageDocument`. -/
def putDocument (now : ℤ) (doc : StorageDocument) : σ → Outcome StorageResult × σ :=
  I.put now doc.key doc.value doc.expireAt

/-- `mget`, where it is not overridden, while the clock shows `now`. -/
def defaultMget (now : ℤ) : List Bytes → σ → Outcome (List StorageResult) × σ
  | [], s => (.returns [], s)
  | k :: ks, s =>
    match I.get now k s with
    | (.throwsStd what, s) => (.throwsStd what, s)
    | (.throwsOther, s) => (.throwsOther, s)
    | (.returns r, s) =>
      match defaultMget now ks s with
      | (.returns rs, s) => (.returns (r :: rs), s)
      | thrown => thrown

/-- `mput`, where it is not overridden. -/
def defaultMput (now : ℤ) : List StorageDocument → σ → Outcome StorageResult × σ
  | [], s => (.returns (.success []), s)
  | doc :: docs, s =>
    match I.putDocument now doc s with
    | (.returns r, s) => if r.ok then defaultMput now docs s else (.returns r, s)
    | thrown => thrown

end StorageInterface

namespace MemoryStorage

/-! ## Calls -/

/-- A call of a method. -/
inductive Call where
  | get (key : Bytes)
  | put (key value : Bytes) (expireAt : ℤ)
  | remove (key : Bytes)
  | contains (key : Bytes)
  | keys (pre : Bytes)
  | mget (ks : List Bytes)
  | mput (docs : List StorageDocument)

/-- What a call leaves stored, if the clock shows `now`. -/
def Call.exec (now : ℤ) (c : Call) (s : MemoryStorage) : MemoryStorage :=
  match c with
  | .get key => (MemoryStorage.get now key s).2
  | .put key value expireAt => (MemoryStorage.put key value expireAt s).2
  | .remove key => (MemoryStorage.remove key s).2
  | .contains key => (MemoryStorage.contains now key s).2
  | .keys pre => (MemoryStorage.keys now pre s).2
  | .mget ks => (MemoryStorage.mget now ks s).2
  | .mput docs => (MemoryStorage.mput docs s).2

/-- A storage, and the last reading of the clock. -/
structure Timed where
  storage : MemoryStorage
  clock : ℤ

/-- One call at a time, if the clock has not been set back. -/
def Timed.step (t : Timed) (c : ℤ × Call) : Option Timed :=
  if t.clock ≤ c.1 then some ⟨c.2.exec c.1 t.storage, c.1⟩ else none

/-- The storage under any calls. -/
def system : System Timed (ℤ × Call) := .ofPartial Timed.step

/-- What is written under a key: an entry, or none if it is removed. -/
structure Write where
  key : Bytes
  entry : Option Entry

/-- What a call writes, in order. -/
def Call.writes : Call → List Write
  | .put key value expireAt => [⟨key, some ⟨value, expireAt⟩⟩]
  | .remove key => [⟨key, none⟩]
  | .mput docs => docs.map fun doc ↦ ⟨doc.key, some ⟨doc.value, doc.expireAt⟩⟩
  | .get _ | .contains _ | .keys _ | .mget _ => []

/-- The last of the writes under a key. -/
def lastOf (key : Bytes) (ws : List Write) : Option Write :=
  (ws.filter fun w ↦ w.key = key).getLast?

/-- What the calls wrote last under a key, unless they removed it last. -/
def lastWrite (key : Bytes) (calls : List (ℤ × Call)) : Option Entry :=
  (lastOf key (calls.flatMap fun c ↦ c.2.writes)).bind Write.entry

/-- At `now`, the last write under the key has been neither removed nor has its time passed. -/
def Live (now : ℤ) (key : Bytes) (calls : List (ℤ × Call)) : Prop :=
  ∃ e, lastWrite key calls = some e ∧ (e.expireAt ≤ 0 ∨ now ≤ e.expireAt)

/-! ## Time -/

theorem Entry.expired_eq_false_iff {now : ℤ} {e : Entry} :
    e.expired now = false ↔ e.expireAt ≤ 0 ∨ now ≤ e.expireAt := by
  rw [Entry.expired, Bool.and_eq_false_iff, decide_eq_false_iff_not, decide_eq_false_iff_not]
  omega

/-- What has expired stays so. -/
theorem Entry.expired_mono {t now : ℤ} {e : Entry} (hle : t ≤ now) (h : e.expired t = true) :
    e.expired now = true := by
  rw [Entry.expired, Bool.and_eq_true, decide_eq_true_eq, decide_eq_true_eq] at h ⊢
  omega

/-- What is not expired of what is stored. -/
def shown (now : ℤ) (o : Option Entry) : Option Entry := o.filter fun e ↦ !e.expired now

theorem shown_shown {t now : ℤ} (hle : t ≤ now) (o : Option Entry) :
    shown now (shown t o) = shown now o := by
  rcases o with _ | e
  · rfl
  rw [shown, shown, Option.filter_some]
  rcases ht : e.expired t with _ | _
  · rfl
  · rw [shown, Option.filter_some, Entry.expired_mono hle ht]
    rfl

theorem shown_eq_some_iff {now : ℤ} {o : Option Entry} {e : Entry} :
    shown now o = some e ↔ o = some e ∧ (e.expireAt ≤ 0 ∨ now ≤ e.expireAt) := by
  rw [shown, Option.filter_eq_some_iff, Bool.not_eq_true', Entry.expired_eq_false_iff]

theorem live_iff {now : ℤ} {key : Bytes} {calls : List (ℤ × Call)} :
    Live now key calls ↔ (shown now (lastWrite key calls)).isSome = true := by
  rw [Option.isSome_iff_exists]
  exact exists_congr fun e ↦ shown_eq_some_iff.symm

/-! ## Writes -/

theorem lastOf_append (key : Bytes) (ws ws' : List Write) :
    lastOf key (ws ++ ws') = (lastOf key ws').or (lastOf key ws) := by
  rw [lastOf, List.filter_append, List.getLast?_append]
  rfl

/-- Writes, made one after another. -/
def writeAll (ws : List Write) (s : MemoryStorage) : MemoryStorage :=
  ws.foldl (fun s w ↦
    match w.entry with
    | none => s.erase w.key
    | some e => s.insert w.key e) s

theorem lookup_writeAll (ws : List Write) (s : MemoryStorage) (key : Bytes) :
    (writeAll ws s).lookup key = (lastOf key ws).elim (s.lookup key) Write.entry := by
  induction ws using List.reverseRecOn with
  | nil => rfl
  | append_singleton ws w ih =>
    rw [writeAll, List.foldl_append, List.foldl_cons, List.foldl_nil, lastOf_append]
    change (match w.entry with
      | none => (writeAll ws s).erase w.key
      | some e => (writeAll ws s).insert w.key e).lookup key = _
    by_cases hkey : w.key = key
    · have hlast : lastOf key [w] = some w := by
        rw [lastOf, List.filter_singleton, decide_eq_true hkey]
        rfl
      rw [hlast, Option.some_or, Option.elim_some]
      rcases w.entry with _ | e
      · rw [UnorderedMap.lookup_erase_ite, if_pos hkey.symm]
      · rw [UnorderedMap.lookup_insert_ite, if_pos hkey.symm]
    · have hlast : lastOf key [w] = none := by
        rw [lastOf, List.filter_singleton, decide_eq_false hkey]
        rfl
      rw [hlast, Option.none_or, ← ih]
      rcases w.entry with _ | e
      · exact (UnorderedMap.lookup_erase_ite _ _ _).trans (if_neg (Ne.symm hkey))
      · exact (UnorderedMap.lookup_insert_ite _ _ _ _).trans (if_neg (Ne.symm hkey))

theorem shown_lookup_pruneExpired {t now : ℤ} (hle : t ≤ now) (key : Bytes) (s : MemoryStorage) :
    shown now ((pruneExpired t s).lookup key) = shown now (s.lookup key) := by
  rw [lookup_pruneExpired]
  exact shown_shown hle _

/-- A call makes its writes, and nothing else that is shown afterwards. -/
theorem Call.shown_lookup_exec {t now : ℤ} (hle : t ≤ now) (c : Call) (key : Bytes)
    (s : MemoryStorage) :
    shown now ((c.exec t s).lookup key) = shown now ((writeAll c.writes s).lookup key) := by
  match c with
  | .get _ | .contains _ | .keys _ | .mget _ => exact shown_lookup_pruneExpired hle key s
  | .put .. => rfl
  | .mput docs =>
    rw [Call.exec, MemoryStorage.mput, Call.writes, writeAll, List.foldl_map]
  | .remove k =>
    rw [Call.exec, MemoryStorage.remove]
    split
    · next hnone =>
      -- there is nothing to erase
      have herase : (s.erase k).lookup key = s.lookup key := by
        rw [UnorderedMap.lookup_erase_ite]
        split
        · next hkey => rw [hkey, hnone]
        · rfl
      rw [← herase]
      rfl
    · rfl

/-! ## Runs -/

/-- **What is stored is what was written last**, as far as it has not expired. -/
theorem shown_lookup_run {start : ℤ} {calls : List (ℤ × Call)} {t : Timed}
    (hrun : system.Run ⟨∅, start⟩ calls t) {now : ℤ} (hnow : t.clock ≤ now) (key : Bytes) :
    shown now (t.storage.lookup key) = shown now (lastWrite key calls) := by
  induction hrun generalizing now with
  | nil => rfl
  | @snoc calls t u c _ hstep ih =>
    obtain ⟨hclock, hu⟩ := Option.ite_none_right_eq_some.1 hstep
    obtain rfl := Option.some.inj hu
    rw [c.2.shown_lookup_exec hnow, lookup_writeAll, lastWrite, List.flatMap_append,
      List.flatMap_singleton, lastOf_append]
    rcases lastOf key c.2.writes with _ | w
    · rw [Option.elim_none, Option.none_or]
      exact ih (Int.le_trans hclock hnow)
    · rfl

/-- What a reader at `now` may rely on after these calls. -/
structure Read (now : ℤ) (calls : List (ℤ × Call)) (s : MemoryStorage) : Prop where
  /-- `get` answers just if the last write lives. -/
  get_ok : ∀ key, (MemoryStorage.get now key s).1.ok = true ↔ Live now key calls
  /-- So does `exists`. -/
  contains : ∀ key, (MemoryStorage.contains now key s).1 = true ↔ Live now key calls
  /-- So does `keys` of everything. -/
  mem_keys : ∀ key, key ∈ (MemoryStorage.keys now [] s).1 ↔ Live now key calls
  /-- What `get` answers is what was written last. -/
  get_value : ∀ key e, lastWrite key calls = some e → Live now key calls →
    (MemoryStorage.get now key s).1 = .success e.value
  /-- `keys` of a prefix. -/
  keys : ∀ pre, (MemoryStorage.keys now pre s).1.Nodup ∧
    (MemoryStorage.keys now pre s).1 =
      (MemoryStorage.keys now [] s).1.filter fun key ↦ pre.isPrefixOf key
  /-- `mget` is `get` for each key, and the default of the interface. -/
  mget : ∀ ks, (MemoryStorage.mget now ks s).1 = ks.map (fun k ↦ (MemoryStorage.get now k s).1) ∧
    (interface.mget now ks s).1 = (interface.defaultMget now ks s).1
  /-- `mput` is `put` for each document, the default of the interface. -/
  mput : ∀ docs, interface.mput now docs s = interface.defaultMput now docs s

section Read

variable {now : ℤ} {calls : List (ℤ × Call)} {s : MemoryStorage}

theorem find_ok_iff (key : Bytes) : (find key s).ok = true ↔ (s.lookup key).isSome = true := by
  rw [find]
  rcases s.lookup key with _ | e <;> exact Iff.rfl

/-- `get` of each key prunes what is pruned already. -/
theorem pruneExpired_pruneExpired (now : ℤ) (key : Bytes) (s : MemoryStorage) :
    (pruneExpired now (pruneExpired now s)).lookup key = (pruneExpired now s).lookup key := by
  rw [lookup_pruneExpired, lookup_pruneExpired]
  exact shown_shown (Int.le_refl now) _

theorem defaultMget_eq (now : ℤ) (ks : List Bytes) (s : MemoryStorage) :
    (interface.defaultMget now ks s).1 =
      .returns (ks.map fun k ↦ (MemoryStorage.get now k s).1) := by
  induction ks generalizing s with
  | nil => rfl
  | cons k ks ih =>
    have hrest : ks.map (fun k' ↦ (MemoryStorage.get now k' (MemoryStorage.get now k s).2).1) =
        ks.map fun k' ↦ (MemoryStorage.get now k' s).1 :=
      List.map_congr_left fun k' _ ↦ find_congr (pruneExpired_pruneExpired now k' s)
    have hget : interface.get now k s =
        (.returns (MemoryStorage.get now k s).1, (MemoryStorage.get now k s).2) := rfl
    have hdefault := ih (MemoryStorage.get now k s).2
    rw [StorageInterface.defaultMget, hget, List.map_cons]
    rw [hrest] at hdefault
    dsimp only
    generalize interface.defaultMget now ks (MemoryStorage.get now k s).2 = r at hdefault
    obtain ⟨r₁, r₂⟩ := r
    dsimp only at hdefault
    rw [hdefault]

theorem defaultMput_eq (now : ℤ) (docs : List StorageDocument) (s : MemoryStorage) :
    interface.defaultMput now docs s = interface.mput now docs s := by
  induction docs generalizing s with
  | nil => rfl
  | cons doc docs ih =>
    have hput : interface.putDocument now doc s =
        (.returns (.success []), s.insert doc.key ⟨doc.value, doc.expireAt⟩) := rfl
    rw [StorageInterface.defaultMput, hput]
    exact ih _

/-- **All ways to read agree.**  After every run of calls on a clock that is not set back, and at
every time from then on. -/
theorem reads_agree {start : ℤ} {t : Timed} (hrun : system.Run ⟨∅, start⟩ calls t)
    (hnow : t.clock ≤ now) : Read now calls t.storage := by
  have hlookup (key : Bytes) :
      (pruneExpired now t.storage).lookup key = shown now (lastWrite key calls) := by
    rw [lookup_pruneExpired]
    exact shown_lookup_run hrun hnow key
  have hstored (key : Bytes) :
      ((pruneExpired now t.storage).lookup key).isSome = true ↔ Live now key calls := by
    rw [hlookup, live_iff]
  have hall : (MemoryStorage.keys now [] t.storage).1 =
      AList.keys (pruneExpired now t.storage) :=
    List.filter_eq_self.2 fun _ _ ↦ rfl
  refine ⟨fun key ↦ ?_, hstored, fun key ↦ ?_, fun key e he hlive ↦ ?_, fun pre ↦ ⟨?_, ?_⟩,
    fun ks ↦ ⟨rfl, ?_⟩, fun docs ↦ (defaultMput_eq now docs t.storage).symm⟩
  · rw [MemoryStorage.get, find_ok_iff, hstored]
  · rw [hall, ← AList.mem_keys, ← AList.lookup_isSome, hstored]
  · obtain ⟨e', he', hexp⟩ := hlive
    obtain rfl := Option.some.inj (he.symm.trans he')
    rw [MemoryStorage.get, find, hlookup, shown_eq_some_iff.2 ⟨he, hexp⟩]
  · exact (AList.nodupKeys (pruneExpired now t.storage)).filter _
  · rw [hall]
    rfl
  · rw [defaultMget_eq]
    rfl

end Read

/-- A key is overwritten by an entry that expires sooner. -/
def overwritten : List (ℤ × Call) :=
  [(1, .put (lit "a") (lit "x") 9), (2, .mput [⟨lit "a", lit "y", 5⟩]), (3, .remove (lit "b"))]

/-- It is read in the second in which it expires, and in the next. -/
theorem reads_agree_overwritten :
    ∃ t, system.Run ⟨∅, 0⟩ overwritten t ∧ Read 5 overwritten t.storage ∧
      (MemoryStorage.get 5 (lit "a") t.storage).1 = .success (lit "y") ∧
      (MemoryStorage.get 6 (lit "a") t.storage).1.ok = false := by
  obtain ⟨t, hrun, hclock, hfive, hsix⟩ : ∃ t, system.Run ⟨∅, 0⟩ overwritten t ∧ t.clock = 3 ∧
      (MemoryStorage.get 5 (lit "a") t.storage).1 = .success (lit "y") ∧
      (MemoryStorage.get 6 (lit "a") t.storage).1.ok = false :=
    System.Run.exists_of_any (by decide +kernel)
  exact ⟨t, hrun, reads_agree hrun (by rw [hclock]; decide), hfive, hsix⟩

end MemoryStorage
end Storage
end ChwellCore
