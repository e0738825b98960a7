import Mathlib.Data.List.AList
import Mathlib.Tactic.Common

/-!
# Hash tables

A hash table is an association list without repeated keys: Mathlib's `AList`, with one value type.
The order of the entries stands for the order in which the table happens to be iterated, which is
nobody's promise, so a statement about an iterated table should not depend on it.

What is added here to Mathlib's lemmas is a lookup lemma for each operation in the form of an `if`,
which is what a proof about a table that is changed at one key and read at another needs, and
loops over a table: `filter`, which erases entries while it iterates, `map`, which changes them all,
and `insertAll`, which puts in the entries of a list.  A table whose values are the addresses of its
keys is kept together with the way back; `inverse_insert_iff` and `inverse_erase` are what one entry
more or less means for the two.

A hash set is the same without values: a list without repeated elements, in the order in which the
set happens to be iterated.
-/

set_option autoImplicit false

universe u v

/-- A hash table from `κ` to `ν`. -/
abbrev UnorderedMap (κ : Type u) (ν : Type v) := AList fun _ : κ ↦ ν

namespace UnorderedMap

variable {κ : Type u} {ν : Type v} [DecidableEq κ]

theorem lookup_insert_ite (m : UnorderedMap κ ν) (k k' : κ) (x : ν) :
    (m.insert k x).lookup k' = if k' = k then some x else m.lookup k' := by
  split
  · next h => rw [h, AList.lookup_insert]
  · next h => rw [AList.lookup_insert_ne h]

theorem lookup_erase_ite (m : UnorderedMap κ ν) (k k' : κ) :
    (m.erase k).lookup k' = if k' = k then none else m.lookup k' := by
  split
  · next h => rw [h, AList.lookup_erase]
  · next h => rw [AList.lookup_erase_ne h]

/-- Keep the entries that satisfy `p`. -/
def filter (p : κ → ν → Bool) (m : UnorderedMap κ ν) : UnorderedMap κ ν :=
  ⟨m.entries.filter fun e ↦ p e.1 e.2,
    (List.nodupKeys_iff_pairwise.1 m.nodupKeys).filter _ |> List.nodupKeys_iff_pairwise.2⟩

theorem lookup_eq_some_iff {m : UnorderedMap κ ν} {k : κ} {x : ν} :
    m.lookup k = some x ↔ ⟨k, x⟩ ∈ m.entries :=
  AList.mem_lookup_iff

/-- What is asked of every entry can be checked. -/
instance decidableForall {P : κ → ν → Prop} [∀ k x, Decidable (P k x)] (m : UnorderedMap κ ν) :
    Decidable (∀ k x, m.lookup k = some x → P k x) :=
  decidable_of_iff (∀ e ∈ m.entries, P e.1 e.2)
    ⟨fun h k x hx ↦ h ⟨k, x⟩ (lookup_eq_some_iff.1 hx),
      fun h e he ↦ h e.1 e.2 (lookup_eq_some_iff.2 he)⟩

theorem lookup_filter (p : κ → ν → Bool) (m : UnorderedMap κ ν) (k : κ) :
    (m.filter p).lookup k = (m.lookup k).filter (p k) := by
  rcases h : m.lookup k with _ | x
  · rcases h' : (m.filter p).lookup k with _ | y
    · rfl
    · have hmem := lookup_eq_some_iff.1 h'
      have := lookup_eq_some_iff.2 (List.mem_of_mem_filter hmem)
      rw [h] at this
      cases this
  · have hmem := lookup_eq_some_iff.1 h
    rw [Option.filter_some]
    split
    · next hp => exact lookup_eq_some_iff.2 (List.mem_filter.2 ⟨hmem, hp⟩)
    · next hp =>
      rcases h' : (m.filter p).lookup k with _ | y
      · rfl
      · have hmem' := lookup_eq_some_iff.1 h'
        have hy := lookup_eq_some_iff.2 (List.mem_of_mem_filter hmem')
        rw [h, Option.some_inj] at hy
        have := (List.mem_filter.1 hmem').2
        rw [← hy] at this
        exact absurd this hp

/-- The entries before an entry was erased. -/
theorem entries_perm_erase {m : UnorderedMap κ ν} {k : κ} {x : ν} (h : m.lookup k = some x) :
    m.entries.Perm (⟨k, x⟩ :: (m.erase k).entries) := by
  have hnot : k ∉ m.erase k := by
    rw [AList.mem_erase]
    exact fun hk ↦ hk.1 rfl
  rw [← AList.entries_insert_of_notMem hnot]
  refine List.lookup_ext m.nodupKeys (AList.nodupKeys _) fun k' y ↦ ?_
  show y ∈ m.lookup k' ↔ y ∈ ((m.erase k).insert k x).lookup k'
  rw [lookup_insert_ite, lookup_erase_ite]
  split
  · next hk => rw [hk, h]
  · rfl

/-- Apply `f` to every value. -/
def map (f : ν → ν) (m : UnorderedMap κ ν) : UnorderedMap κ ν :=
  ⟨m.entries.map (Sigma.map id fun _ ↦ f), m.nodupKeys.map₂ (fun _ ↦ f) m.entries⟩

theorem lookup_map (f : ν → ν) (m : UnorderedMap κ ν) (k : κ) :
    (m.map f).lookup k = (m.lookup k).map f :=
  List.dlookup_map₂ k

section Inverse

variable {α : Type v} [DecidableEq α] {m : UnorderedMap κ α} {f : α → Option κ}
  (h : ∀ k a, m.lookup k = some a ↔ f a = some k)

include h

/-- A table and the way back from its values to their keys: they go on being inverse when an entry
is inserted just when neither its key nor its value has another entry. -/
theorem inverse_insert_iff {k₀ : κ} {a₀ : α} :
    (∀ k a, (m.insert k₀ a₀).lookup k = some a ↔ (if a = a₀ then some k₀ else f a) = some k) ↔
      (∀ a, m.lookup k₀ = some a → a = a₀) ∧ ∀ k, f a₀ = some k → k = k₀ := by
  constructor
  · intro h'
    refine ⟨fun a ha ↦ ?_, fun k hk ↦ ?_⟩
    · by_contra hne
      have hlook : (m.insert k₀ a₀).lookup k₀ = some a := by
        rw [h', if_neg hne]
        exact (h k₀ a).1 ha
      rw [lookup_insert_ite, if_pos rfl] at hlook
      exact hne (Option.some.inj hlook).symm
    · by_contra hne
      have hlook : (m.insert k₀ a₀).lookup k = some a₀ := by
        rw [lookup_insert_ite, if_neg hne]
        exact (h k a₀).2 hk
      rw [h', if_pos rfl] at hlook
      exact hne (Option.some.inj hlook).symm
  · rintro ⟨hkey, hvalue⟩ k a
    rw [lookup_insert_ite]
    by_cases hk : k = k₀ <;> by_cases ha : a = a₀
    · rw [if_pos hk, if_pos ha, hk, ha]
      exact iff_of_true rfl rfl
    · -- the key has no other value
      rw [if_pos hk, if_neg ha, hk]
      exact iff_of_false (fun he ↦ ha (Option.some.inj he).symm)
        fun hf ↦ ha (hkey a ((h k₀ a).2 hf))
    · -- the value has no other key
      rw [if_neg hk, if_pos ha, ha]
      exact iff_of_false (fun hlook ↦ hk (hvalue k ((h k a₀).1 hlook)))
        fun he ↦ hk (Option.some.inj he).symm
    · rw [if_neg hk, if_neg ha]
      exact h k a

/-- In particular when the key and the value are new. -/
theorem inverse_insert {k₀ : κ} {a₀ : α} (hk : m.lookup k₀ = none) (ha : f a₀ = none) (k : κ)
    (a : α) : (m.insert k₀ a₀).lookup k = some a ↔
      (if a = a₀ then some k₀ else f a) = some k := by
  refine (inverse_insert_iff h).2 ⟨fun a ha' ↦ ?_, fun k hk' ↦ ?_⟩ k a
  · rw [hk] at ha'
    cases ha'
  · rw [ha] at hk'
    cases hk'

/-- They go on being inverse when an entry is erased. -/
theorem inverse_erase {k₀ : κ} {a₀ : α} (hk : m.lookup k₀ = some a₀) (k : κ) (a : α) :
    (m.erase k₀).lookup k = some a ↔ (if a = a₀ then none else f a) = some k := by
  rw [lookup_erase_ite]
  split
  · next hkk =>
    rw [hkk]
    refine iff_of_false (by simp) fun hf ↦ ?_
    obtain ⟨haa, hf⟩ := Option.ite_none_left_eq_some.1 hf
    exact haa (Option.some.inj (((h k₀ a).2 hf).symm.trans hk))
  · next hkk =>
    rw [h]
    split
    · next haa =>
      rw [haa, (h k₀ a₀).1 hk]
      exact iff_of_false (fun he ↦ hkk (Option.some.inj he).symm) (by simp)
    · rfl

end Inverse

/-- A list taken apart by keys, and put together again for the keys in `ks`. -/
theorem flatMap_filter_perm {α : Type v} (f : α → κ) (l : List α) {ks : List κ} (hks : ks.Nodup) :
    (ks.flatMap fun k ↦ l.filter fun x ↦ f x = k).Perm (l.filter fun x ↦ f x ∈ ks) := by
  induction ks with
  | nil => simp
  | cons k ks ih =>
    obtain ⟨hk, hks⟩ := List.nodup_cons.1 hks
    rw [List.flatMap_cons]
    refine ((ih hks).append_left _).trans ?_
    refine .trans (.of_eq ?_) (List.filter_append_perm (fun x ↦ f x = k) _)
    rw [List.filter_filter, List.filter_filter]
    congr 1 <;> refine List.filter_congr fun x _ ↦ ?_
    · simp +contextual
    · by_cases hx : f x = k
      · simp [hx, hk]
      · simp [hx]

/-- The entries as pairs, in the order in which they are iterated. -/
def pairs (m : UnorderedMap κ ν) : List (κ × ν) := m.entries.map fun e ↦ (e.1, e.2)

/-- The values, in the order in which they are iterated. -/
def values (m : UnorderedMap κ ν) : List ν := m.entries.map Sigma.snd

theorem filterMap_lookup_keys (m : UnorderedMap κ ν) : m.keys.filterMap m.lookup = m.values := by
  have hlookup : ∀ e ∈ m.entries, m.lookup e.1 = some e.2 := fun e he ↦ lookup_eq_some_iff.2 he
  rw [AList.keys, List.keys, List.filterMap_map, values, ← List.filterMap_eq_map]
  exact List.filterMap_congr hlookup

/-- Insert one entry after another. -/
def insertAll (m : UnorderedMap κ ν) (l : List (κ × ν)) : UnorderedMap κ ν :=
  l.foldl (fun m p ↦ m.insert p.1 p.2) m

theorem lookup_insertAll_of_notMem (m : UnorderedMap κ ν) {l : List (κ × ν)} {k : κ}
    (h : k ∉ l.map Prod.fst) : (m.insertAll l).lookup k = m.lookup k := by
  induction l generalizing m with
  | nil => rfl
  | cons p l ih =>
    rw [List.map_cons, List.mem_cons, not_or] at h
    show (insertAll (m.insert p.1 p.2) l).lookup k = _
    rw [ih _ h.2, AList.lookup_insert_ne h.1]

theorem lookup_insertAll_of_mem (m : UnorderedMap κ ν) {l : List (κ × ν)}
    (hl : (l.map Prod.fst).Nodup) {k : κ} {x : ν} (h : (k, x) ∈ l) :
    (m.insertAll l).lookup k = some x := by
  induction l generalizing m with
  | nil => cases h
  | cons p l ih =>
    obtain ⟨hp, hl⟩ := List.nodup_cons.1 hl
    show (insertAll (m.insert p.1 p.2) l).lookup k = _
    rcases List.mem_cons.1 h with rfl | h
    · rw [lookup_insertAll_of_notMem _ hp, AList.lookup_insert]
    · exact ih _ hl h

/-- A table is rebuilt from its entries. -/
theorem lookup_insertAll_pairs (m : UnorderedMap κ ν) (k : κ) :
    ((∅ : UnorderedMap κ ν).insertAll m.pairs).lookup k = m.lookup k := by
  have hkeys : m.pairs.map Prod.fst = m.keys := by
    rw [pairs, List.map_map]
    rfl
  rcases h : m.lookup k with _ | x
  · rw [lookup_insertAll_of_notMem, AList.lookup_empty]
    rw [hkeys]
    exact AList.lookup_eq_none.1 h
  · refine lookup_insertAll_of_mem _ (hkeys ▸ m.nodupKeys) ?_
    exact List.mem_map.2 ⟨⟨k, x⟩, lookup_eq_some_iff.1 h, rfl⟩

end UnorderedMap

/-- A hash set over `α`. -/
structure UnorderedSet (α : Type u) where
  /-- The elements as they are iterated. -/
  toList : List α
  nodup : toList.Nodup
deriving DecidableEq

namespace UnorderedSet

variable {α : Type u}

instance : Membership α (UnorderedSet α) := ⟨fun s a ↦ a ∈ s.toList⟩

instance : EmptyCollection (UnorderedSet α) := ⟨⟨[], .nil⟩⟩

theorem mem_def {s : UnorderedSet α} {a : α} : a ∈ s ↔ a ∈ s.toList := Iff.rfl

@[simp] theorem notMem_empty (a : α) : ¬ a ∈ (∅ : UnorderedSet α) := List.not_mem_nil

variable [DecidableEq α]

/-- Put `a` into the set, if it is not there. -/
def insert (s : UnorderedSet α) (a : α) : UnorderedSet α := ⟨s.toList.insert a, s.nodup.insert⟩

/-- Take `a` out of the set. -/
def erase (s : UnorderedSet α) (a : α) : UnorderedSet α := ⟨s.toList.erase a, s.nodup.erase a⟩

@[simp] theorem mem_insert {s : UnorderedSet α} {a b : α} : b ∈ s.insert a ↔ b = a ∨ b ∈ s :=
  List.mem_insert_iff

@[simp] theorem mem_erase {s : UnorderedSet α} {a b : α} : b ∈ s.erase a ↔ b ≠ a ∧ b ∈ s :=
  s.nodup.mem_erase_iff

/-- A loop over a set comes to each element once. -/
theorem filterMap_ite_eq {β : Type v} {s : UnorderedSet α} {a : α} (h : a ∈ s) (b : β) :
    s.toList.filterMap (fun x ↦ if x = a then some b else none) = [b] := by
  obtain ⟨l, r, hs⟩ := List.append_of_mem (mem_def.1 h)
  have hnodup := s.nodup
  rw [hs] at hnodup
  have hnot : a ∉ l ++ r := (List.nodup_cons.1 (List.nodup_middle.1 hnodup)).1
  have hnil : ∀ t : List α, a ∉ t → t.filterMap (fun x ↦ if x = a then some b else none) = [] := by
    intro t ht
    refine List.filterMap_eq_nil_iff.2 fun x hx ↦ if_neg ?_
    rintro rfl
    exact ht hx
  rw [hs, List.filterMap_append, hnil l fun hl ↦ hnot (List.mem_append_left r hl),
    List.nil_append, List.filterMap_cons]
  simp only [if_true, hnil r fun hr ↦ hnot (List.mem_append_right l hr)]

end UnorderedSet
