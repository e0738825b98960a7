import ChwellCore.Storage.Fields
import ChwellCore.Storage.Repository

/-!
# Repositories as tables of entities

What a repository is for is a table of entities, each under its id: to save one puts it there, to
find one gives what was saved last, and to find all gives each of them once.  `Table.run` says this
without a word about keys, documents or the storage.

`answers_table_iff` says when a repository is such a table.  Whatever is done to it, and whatever a
repository with other keys does on the same storage in between, its answers are those of the table
if and only if the class of its entities is `Faithful`: what is saved of an entity is read as the
same entity, into whatever object.  Everything else, the keys, the table name, the way a document
is written down, is none of the user's business.

The class `Player` of the tests is faithful in the build without YAML, with any bytes in its strings
and any level.
-/

set_option autoImplicit false

namespace ChwellCore
namespace Storage

/-- A table of entities, each under its id. -/
abbrev Table (T : Type) := UnorderedMap Bytes T

namespace Table

variable {T T' D : Type}

/-- An operation on a table. -/
def run (r : Repository T D) (t : Table T) : RepositoryOp T → RepositoryAnswer T × Table T
  | .save e =>
    if r.entity.tableName e ≠ r.tableName then
      (.result (.failure
        (lit "ORM Repository: entity.table_name() does not match repository table_name")), t)
    else (.result (.success []), t.insert (r.entity.id e) e)
  | .find _ id _ => (.found (t.lookup id), t)
  | .contains _ id => (.flag (t.lookup id).isSome, t)
  | .remove id =>
    match t.lookup id with
    | none => (.result (.failure (lit "key not found")), t)
    | some _ => (.result (.success []), t.erase id)
  | .findAll _ _ => (.all t.values, t)

/-- What a table answers in a sequence of operations, some of which are for another one. -/
def answers (r : Repository T D) (t : Table T) :
    List (RepositoryOp T ⊕ RepositoryOp T') → List (RepositoryAnswer T)
  | [] => []
  | .inl op :: ops => (run r t op).1 :: answers r (run r t op).2 ops
  | .inr _ :: ops => answers r t ops

end Table

namespace Repository

variable {T T' D D' : Type} {r : Repository T D} {r' : Repository T' D'} {s : MemoryStorage}
  {t : Table T}

/-- The document that is saved of an entity. -/
def document (r : Repository T D) (e : T) : D :=
  r.format.setString (lit "id") (r.entity.id e) (r.entity.toDocument e)

/-- An entity of the repository is read as it was saved, into any object. -/
def Faithful (r : Repository T D) : Prop :=
  ∀ e, r.entity.tableName e = r.tableName → ∀ out,
    (r.format.fromString (r.format.toString (r.document e))).map
      (fun doc ↦ r.entity.fromDocument doc out) = some e

/-- How the table of a repository is kept in the storage. -/
structure Holds (r : Repository T D) (s : MemoryStorage) (t : Table T) : Prop where
  lasting : s.Lasting
  lookup : ∀ id, s.lookup (r.makeKey id) =
    (t.lookup id).map fun e ↦ ⟨r.format.toString (r.document e), 0⟩
  tableName : ∀ id e, t.lookup id = some e → r.entity.tableName e = r.tableName

theorem makeKey_injective (r : Repository T D) : Function.Injective r.makeKey :=
  fun _ _ h ↦ List.append_cancel_left h

theorem holds_empty (r : Repository T D) : Holds r ∅ ∅ where
  lasting := MemoryStorage.lasting_empty
  lookup _ := rfl
  tableName id e h := by cases h

/-- An entry that is saved, or removed. -/
theorem Holds.tableName_insert (h : Holds r s t) {e : T} (he : r.entity.tableName e = r.tableName)
    {id : Bytes} {e' : T} (hlook : (t.insert (r.entity.id e) e).lookup id = some e') :
    r.entity.tableName e' = r.tableName := by
  rw [UnorderedMap.lookup_insert_ite] at hlook
  split at hlook
  · rw [← Option.some.inj hlook]
    exact he
  · exact h.tableName id e' hlook

theorem Holds.tableName_erase (h : Holds r s t) {id id' : Bytes} {e : T}
    (hlook : (t.erase id').lookup id = some e) : r.entity.tableName e = r.tableName := by
  rw [UnorderedMap.lookup_erase_ite] at hlook
  exact h.tableName id e (Option.ite_none_left_eq_some.1 hlook).2

/-- What `find` makes of what is stored under the key of an id. -/
theorem Holds.parse_find (h : Holds r s t) (hr : r.Faithful) {s' : MemoryStorage} {id : Bytes}
    (hs' : s'.lookup (r.makeKey id) = s.lookup (r.makeKey id)) (out : T) :
    r.parse out (MemoryStorage.find (r.makeKey id) s') = t.lookup id := by
  have hlook := hs'.trans (h.lookup id)
  rw [MemoryStorage.find, hlook]
  rcases he : t.lookup id with _ | e
  · rfl
  · exact hr e (h.tableName id e he) out

/-- The keys of the repository are those of the ids in the table. -/
theorem Holds.keys_perm (h : Holds r s t) (now : ℤ) :
    (MemoryStorage.keys now r.keyPrefix s).1.Perm (t.keys.map r.makeKey) := by
  refine (List.perm_ext_iff_of_nodup ((AList.keys_nodup _).filter _)
    (t.keys_nodup.map r.makeKey_injective)).2 fun key ↦ ?_
  refine (MemoryStorage.mem_keys h.lasting).trans (Iff.trans ?_ List.mem_map.symm)
  constructor
  · rintro ⟨hsome, id, rfl⟩
    refine ⟨id, ?_, rfl⟩
    rw [show r.keyPrefix ++ id = r.makeKey id from rfl, h.lookup, Option.isSome_map] at hsome
    exact AList.mem_keys.1 (AList.lookup_isSome.1 hsome)
  · rintro ⟨id, hid, rfl⟩
    refine ⟨?_, r.prefix_makeKey id⟩
    rw [h.lookup, Option.isSome_map]
    exact AList.lookup_isSome.2 (AList.mem_keys.2 hid)

theorem Holds.findAll (h : Holds r s t) (hr : r.Faithful) (now now' : ℤ) :
    (r.findAll now now' s).1.Perm t.values := by
  have hfind : ∀ id ∈ t.keys, (r.parse r.entity.fresh ∘ fun id ↦ MemoryStorage.find (r.makeKey id)
      ((s.pruneExpired now).pruneExpired now')) id = t.lookup id := by
    intro id _
    refine h.parse_find hr ?_ r.entity.fresh
    exact ((h.lasting.pruneExpired now).lookup_pruneExpired now' _).trans
      (h.lasting.lookup_pruneExpired now _)
  rw [findAll_eq, ← UnorderedMap.filterMap_lookup_keys, ← List.filterMap_congr hfind,
    ← List.filterMap_map]
  refine (((h.keys_perm now).map _).trans (.of_eq ?_)).filterMap _
  rw [List.map_map]
  rfl

/-- An operation of the repository answers as on the table, and goes on holding it. -/
theorem Holds.run (h : Holds r s t) (hr : r.Faithful) (op : RepositoryOp T) :
    (r.run s op).1 = (Table.run r t op).1 ∧ Holds r (r.run s op).2 (Table.run r t op).2 := by
  have hlasting := run_lasting (r := r) h.lasting op
  have hlookup := fun id ↦ run_lookup (r := r) h.lasting op (r.makeKey id)
  cases op with
  | save e =>
    rw [write] at hlookup
    by_cases he : r.entity.tableName e = r.tableName
    · rw [Repository.run, save, if_neg (not_not.2 he)] at hlasting hlookup ⊢
      rw [Table.run, if_neg (not_not.2 he)]
      refine ⟨rfl, hlasting, fun id ↦ (hlookup id).trans ?_, fun id e' ↦ h.tableName_insert he⟩
      rw [if_neg (not_not.2 he), UnorderedMap.lookup_insert_ite, h.lookup]
      simp only [r.makeKey_injective.eq_iff]
      split <;> rfl
    · rw [Repository.run, save, Table.run, if_pos he, if_pos he]
      exact ⟨rfl, h⟩
  | find now id out =>
    refine ⟨?_, hlasting, fun id' ↦ (hlookup id').trans (h.lookup id'), h.tableName⟩
    exact congrArg RepositoryAnswer.found
      (h.parse_find hr (h.lasting.lookup_pruneExpired now _) out)
  | contains now id =>
    refine ⟨?_, hlasting, fun id' ↦ (hlookup id').trans (h.lookup id'), h.tableName⟩
    rw [Repository.run, Table.run, contains_fst h.lasting, h.lookup, Option.isSome_map]
  | remove id =>
    rw [write] at hlookup
    rw [Repository.run, remove, MemoryStorage.remove] at hlasting hlookup ⊢
    rw [Table.run]
    have hid := h.lookup id
    rcases he : t.lookup id with _ | e
    · rw [he] at hid
      rw [hid]
      exact ⟨rfl, h⟩
    · rw [he] at hid
      rw [hid] at hlasting hlookup ⊢
      refine ⟨rfl, hlasting, fun id' ↦ (hlookup id').trans ?_, fun id' e' ↦ h.tableName_erase⟩
      rw [UnorderedMap.lookup_erase_ite, h.lookup]
      simp only [r.makeKey_injective.eq_iff]
      split <;> rfl
  | findAll now now' =>
    refine ⟨?_, hlasting, fun id' ↦ (hlookup id').trans (h.lookup id'), h.tableName⟩
    exact congrArg RepositoryAnswer.all (Multiset.coe_eq_coe.2 (h.findAll hr now now'))

/-- An operation of another repository whose keys are others. -/
theorem Holds.other (h : Holds r s t) (op : RepositoryOp T')
    (hdisj : ∀ key, r.keyPrefix <+: key → ¬ r'.keyPrefix <+: key) : Holds r (r'.run s op).2 t := by
  refine ⟨run_lasting h.lasting op, fun id ↦ ?_, h.tableName⟩
  rw [run_lookup h.lasting, ← h.lookup]
  split
  · rfl
  · next hwrite =>
    refine if_neg ?_
    rintro rfl
    exact hdisj _ (r.prefix_makeKey id) (prefix_of_write hwrite)

theorem Holds.answers (hr : r.Faithful)
    (hdisj : ∀ key, r.keyPrefix <+: key → ¬ r'.keyPrefix <+: key)
    (ops : List (RepositoryOp T ⊕ RepositoryOp T')) {s : MemoryStorage} {t : Table T}
    (h : Holds r s t) : Repository.answers r r' s ops = Table.answers r t ops := by
  induction ops generalizing s t with
  | nil => rfl
  | cons op ops ih =>
    cases op with
    | inl op =>
      obtain ⟨hanswer, hholds⟩ := h.run hr op
      show _ :: _ = _ :: _
      rw [hanswer, ih hholds]
    | inr op => exact ih (h.other op hdisj)

/-- **When a repository is a table of entities**: beside another repository, neither of whose keys
may be one of its own, whatever is done to both, it answers as the table does if and only if its
entities are read as they were saved. -/
theorem answers_table_iff (r : Repository T D) (r' : Repository T' D')
    (hpre : ¬ r.keyPrefix <+: r'.keyPrefix) (hpre' : ¬ r'.keyPrefix <+: r.keyPrefix) :
    (∀ ops, answers r r' ∅ ops = Table.answers r ∅ ops) ↔ r.Faithful := by
  constructor
  · intro h e he out
    -- the entity is saved and looked for
    have hboth := h [.inl (.save e), .inl (.find 0 (r.entity.id e) out)]
    have hanswers := (List.cons.inj (List.cons.inj hboth).2).1
    have hfound := RepositoryAnswer.found.inj hanswers
    have hlook : ((Table.run r ∅ (.save e)).2).lookup (r.entity.id e) = some e := by
      rw [Table.run, if_neg (not_not.2 he), AList.lookup_insert]
    rw [hlook] at hfound
    rw [← hfound]
    have hstored : ((r.run ∅ (.save e)).2).lookup (r.makeKey (r.entity.id e)) =
        some ⟨r.format.toString (r.document e), 0⟩ := by
      rw [run_lookup MemoryStorage.lasting_empty, write, if_neg (not_not.2 he)]
      exact if_pos rfl
    have hlasting := run_lasting (r := r) MemoryStorage.lasting_empty (.save e)
    have hprune := hlasting.lookup_pruneExpired 0 (r.makeKey (r.entity.id e))
    rw [find, MemoryStorage.get, MemoryStorage.find, hprune.trans hstored]
    rfl
  · intro hr ops
    refine (holds_empty r).answers hr (fun key h h' ↦ ?_) ops
    exact (List.prefix_or_prefix_of_prefix h h').elim hpre hpre'

/-! ## Documents, in the build without YAML -/

/-- `Document`, as the repository uses it. -/
def documentFormat : DocumentFormat Document where
  setString := Document.setString
  toString := Document.toString
  fromString data :=
    let a := Document.fromString data ⟨∅⟩
    if a.1 then some a.2 else none

/-- A class whose documents are built by writes is faithful if it is read from the document that is
written, as it is before it is written down. -/
theorem faithful_documentFormat {E : Entity T Document} {writes : T → List (Bytes × Field)}
    (hdoc : ∀ e, E.toDocument e = .ofWrites (writes e))
    (hnames : ∀ e, ∀ w ∈ writes e, w.1 ≠ [])
    (hread : ∀ e out,
      E.fromDocument (.ofWrites (writes e ++ [(lit "id", .string (E.id e))])) out = e)
    (tableName : Bytes) : Faithful ⟨documentFormat, E, tableName⟩ := by
  intro e _ out
  have hdocument : document ⟨documentFormat, E, tableName⟩ e =
      .ofWrites (writes e ++ [(lit "id", .string (E.id e))]) := by
    rw [Document.ofWrites_concat, ← hdoc]
    rfl
  have hnames' : ∀ w ∈ writes e ++ [(lit "id", Field.string (E.id e))], w.1 ≠ [] := by
    intro w hw
    rcases List.mem_append.1 hw with hw | hw
    · exact hnames e w hw
    · rw [List.mem_singleton.1 hw]
      exact List.cons_ne_nil _ _
  have hparse : documentFormat.fromString (documentFormat.toString
      (.ofWrites (writes e ++ [(lit "id", .string (E.id e))]))) =
        some (.ofWrites (writes e ++ [(lit "id", .string (E.id e))])) := by
    dsimp only [documentFormat]
    rw [Document.fromString_toString fun k hk ↦ Document.ne_nil_of_mem_ofWrites hnames' hk]
    rfl
  rw [hdocument, hparse]
  exact congrArg some (hread e out)

end Repository

/-! ## The players of the tests -/

/-- `Player`. -/
structure Player where
  id : Bytes := []
  name : Bytes := []
  level : Int32 := 0
deriving DecidableEq

namespace Player

/-- `to_document`, as a sequence of writes. -/
def writes (p : Player) : List (Bytes × Field) :=
  [(lit "id", .string p.id), (lit "name", .string p.name), (lit "level", .int p.level)]

/-- `from_document`. -/
def fromDocument (doc : Document) (_ : Player) : Player where
  id := doc.getString (lit "id") []
  name := doc.getString (lit "name") []
  level := doc.getInt (lit "level") 0

/-- The class. -/
def entity : Entity Player Document where
  tableName _ := lit "players"
  id := id
  toDocument p := .ofWrites p.writes
  fromDocument := fromDocument
  fresh := {}

theorem fromDocument_ofWrites (p out : Player) :
    fromDocument (.ofWrites (p.writes ++ [(lit "id", .string p.id)])) out = p := by
  have hid : Field.last (p.writes ++ [(lit "id", .string p.id)]) (lit "id") =
      some (.string p.id) := rfl
  have hname : Field.last (p.writes ++ [(lit "id", .string p.id)]) (lit "name") =
      some (.string p.name) := rfl
  have hlevel : Field.last (p.writes ++ [(lit "id", .string p.id)]) (lit "level") =
      some (.int p.level) := rfl
  have hgetLevel := Field.int.inj (Document.get_of_last hlevel (.int 0))
  rw [Field.number, Int32.toInt32_toInt64] at hgetLevel
  rw [fromDocument, Field.string.inj (Document.get_of_last hid (.string [])),
    Field.string.inj (Document.get_of_last hname (.string [])), hgetLevel]
  rfl

/-- `Repository<Player>`. -/
def repository : Repository Player Document := ⟨Repository.documentFormat, entity, lit "players"⟩

theorem faithful_repository : repository.Faithful := by
  refine Repository.faithful_documentFormat (fun p ↦ rfl) (fun p w hw ↦ ?_)
    fromDocument_ofWrites _
  have hnames : p.writes.map Prod.fst = [lit "id", lit "name", lit "level"] := rfl
  have hmem : w.1 ∈ p.writes.map Prod.fst := List.mem_map_of_mem hw
  rw [hnames] at hmem
  generalize w.1 = name at hmem
  revert name
  decide

/-- The player of the test. -/
def alice : Player := ⟨lit "p001", lit "alice", 10⟩

/-- The test, with a room that is saved on the same storage in between. -/
theorem answers_table_crudFlow :
    Repository.answers repository (Repository.named (lit "rooms")) ∅
        [.inl (.save alice), .inr (.save (lit "p001")), .inl (.contains 0 (lit "p001")),
          .inl (.save { alice with level := 15 }), .inl (.find 0 (lit "p001") {}),
          .inl (.findAll 0 0), .inl (.remove (lit "p001")), .inl (.contains 0 (lit "p001"))] =
      [.result (.success []), .flag true, .result (.success []),
        .found (some { alice with level := 15 }), .all {{ alice with level := 15 }},
        .result (.success []), .flag false] :=
  (Repository.answers_table_iff repository (Repository.named (lit "rooms")) (by decide)
    (by decide)).2 faithful_repository _

end Player

end Storage
end ChwellCore
