import ChwellCore.Core.Bytes
import ChwellCore.Lib.Run
import ChwellCore.Lib.UnorderedMap

/-!
# The snapshots of a room

`create_snapshot` puts a snapshot under its frame into an `unordered_map`, and while that has more
than ten entries it erases the one at `begin()`.  A table begins where it likes, so the order in
which it is iterated after an insertion is part of the step, and the loop erases from its front.

For a room that makes its snapshots in the order of their frames, `createSnapshot_iff` says what it
takes to keep the latest ten: of the entries of a full table, the oldest has to be the first one
iterated.  `newestFirst_loses` is a table that begins with the entry inserted last, and so erases
the snapshot it was asked to keep.
-/

set_option autoImplicit false

namespace ChwellCore
namespace Sync

/-- `FrameSnapshot`. -/
structure FrameSnapshot where
  frameId : UInt32
  snapshotData : Bytes
deriving DecidableEq

/-- `FrameSyncRoom::snapshots_`.  The second field is not in the code: it records what was created,
the latest first. -/
structure Snapshots where
  table : UnorderedMap UInt32 FrameSnapshot
  created : List FrameSnapshot

namespace Snapshots

/-- A new room. -/
def fresh : Snapshots := ⟨∅, []⟩

/-- `get_snapshot`. -/
def getSnapshot (s : Snapshots) (frameId : UInt32) : Option FrameSnapshot := s.table.lookup frameId

/-- The loop of `create_snapshot`, which erases the first entry iterated. -/
def evict (m : UnorderedMap UInt32 FrameSnapshot) : List UInt32 → UnorderedMap UInt32 FrameSnapshot
  | [] => m
  | begin :: order => if m.keys.length > 10 then evict (m.erase begin) order else m

/-- `create_snapshot`, where the table has the order `order` after the insertion. -/
def createSnapshot (s : Snapshots) (snapshot : FrameSnapshot) (order : List UInt32) : Snapshots :=
  ⟨evict (s.table.insert snapshot.frameId snapshot) order, snapshot :: s.created⟩

/-- A call of `create_snapshot`, and an order of the table. -/
structure Call where
  snapshot : FrameSnapshot
  order : List UInt32

/-- The frame of the call is later than those before, and the order is one of the table. -/
def Call.Ok (s : Snapshots) (c : Call) : Prop :=
  (∀ old ∈ s.created, old.frameId < c.snapshot.frameId) ∧
    c.order.Perm (s.table.insert c.snapshot.frameId c.snapshot).keys

instance (s : Snapshots) (c : Call) : Decidable (c.Ok s) := inferInstanceAs (Decidable (_ ∧ _))

/-- One call. -/
def step (s : Snapshots) (c : Call) : Option Snapshots :=
  if c.Ok s then some (s.createSnapshot c.snapshot c.order) else none

/-- The system of all runs. -/
def system : System Snapshots Call := System.ofPartial step

/-- The snapshots kept are those with the largest frames, ten of them or all: one that was created
is there exactly if fewer than ten have a larger frame. -/
def Latest (s : Snapshots) : Prop :=
  ∀ f x, s.getSnapshot f = some x ↔ x.frameId = f ∧ x ∈ s.created ∧
    (s.created.filter fun y ↦ x.frameId < y.frameId).length < 10

/-- If the table is full, its oldest entry comes first. -/
def OldestFirst (s : Snapshots) (c : Call) : Prop :=
  10 ≤ s.table.keys.length → ∀ begin ∈ c.order.head?, ∀ f ∈ c.order, begin ≤ f

instance (s : Snapshots) (c : Call) : Decidable (OldestFirst s c) :=
  decidable_of_iff (10 ≤ s.table.keys.length →
    c.order.head?.all (fun begin ↦ c.order.all fun f ↦ begin ≤ f) = true)
    (by simp only [OldestFirst, Option.all_eq_true, List.all_eq_true, decide_eq_true_eq,
      Option.mem_def])

/-! ## The latest ten -/

variable {s t : Snapshots} {c : Call}

/-- Snapshots in the order in which a room makes them, the latest first. -/
def Descending (l : List FrameSnapshot) : Prop := l.Pairwise fun x y ↦ y.frameId < x.frameId

/-- Among the first `n` are those with fewer than `n` before them. -/
theorem mem_take_iff {l : List FrameSnapshot} (hl : Descending l) {x : FrameSnapshot} {n : ℕ} :
    x ∈ l.take n ↔ x ∈ l ∧ (l.filter fun y ↦ x.frameId < y.frameId).length < n := by
  induction l generalizing n with
  | nil => simp
  | cons y l ih =>
    obtain ⟨hy, hl⟩ := List.pairwise_cons.1 hl
    rcases n with _ | n
    · simp
    · rw [List.take_succ_cons, List.mem_cons, List.mem_cons, ih hl]
      by_cases hx : x ∈ l
      · -- `y` is later than `x`
        have hne : x ≠ y := fun h ↦ lt_irrefl _ (h ▸ hy x hx)
        simp [hx, hne, hy x hx]
      · -- nothing is later than `y`
        have hnone : (l.filter fun z ↦ y.frameId < z.frameId) = [] :=
          List.filter_eq_nil_iff.2 fun z hz ↦ by simpa using le_of_lt (hy z hz)
        simp only [hx, false_and, or_false]
        refine ⟨fun h ↦ ⟨h, ?_⟩, fun h ↦ h.1⟩
        rw [h, List.filter_cons, if_neg (by simp), hnone]
        exact n.succ_pos

/-- What is kept is a piece of what was created. -/
theorem latest_iff (hs : Descending s.created) :
    s.Latest ↔ ∀ f x, s.getSnapshot f = some x ↔ x.frameId = f ∧ x ∈ s.created.take 10 := by
  simp only [Latest, mem_take_iff hs]

/-- What holds of a room as long as it keeps the latest ten. -/
structure Inv (s : Snapshots) : Prop where
  descending : Descending s.created
  length : s.table.keys.length = min 10 s.created.length
  latest : s.Latest

theorem inv_fresh : fresh.Inv := by
  refine ⟨.nil, rfl, fun f x ↦ ?_⟩
  simp [getSnapshot, fresh]

/-- What a call does. -/
theorem step_eq (h : step s c = some t) :
    c.Ok s ∧ t = s.createSnapshot c.snapshot c.order := by
  rw [step] at h
  obtain ⟨hok, h⟩ := Option.ite_none_right_eq_some.1 h
  exact ⟨hok, (Option.some.inj h).symm⟩

/-- Of at most eleven entries at most one is erased. -/
theorem evict_eq {m : UnorderedMap UInt32 FrameSnapshot} {begin : UInt32} {order : List UInt32}
    (horder : (begin :: order).Perm m.keys) (hm : m.keys.length ≤ 11) :
    evict m (begin :: order) = if m.keys.length = 11 then m.erase begin else m := by
  rw [evict]
  by_cases h : m.keys.length = 11
  · have hmem : begin ∈ m.keys := horder.subset List.mem_cons_self
    have hlen : (m.erase begin).keys.length = 10 := by
      rw [AList.keys_erase, List.length_erase_of_mem hmem, h]
    rw [if_pos (by omega), if_pos h]
    cases order with
    | nil => rfl
    | cons => rw [evict, if_neg (by omega)]
  · rw [if_neg (by omega), if_neg h]

theorem insert_keys_length (hs : s.Inv) (hc : c.Ok s) :
    (s.table.insert c.snapshot.frameId c.snapshot).keys.length = s.table.keys.length + 1 := by
  rw [AList.keys_insert, List.length_cons, List.erase_of_not_mem fun hmem ↦ ?_]
  obtain ⟨x, hx⟩ := Option.isSome_iff_exists.1 (AList.lookup_isSome.2 (AList.mem_keys.2 hmem))
  obtain ⟨hf, hcreated, -⟩ := (hs.latest _ _).1 hx
  exact lt_irrefl _ (hf ▸ hc.1 x hcreated)

/-- After the insertion and before the loop the table has the latest eleven. -/
theorem lookup_insert_iff (hs : s.Inv) (hc : c.Ok s) (f : UInt32) (x : FrameSnapshot) :
    (s.table.insert c.snapshot.frameId c.snapshot).lookup f = some x ↔
      x.frameId = f ∧ x ∈ (c.snapshot :: s.created).take 11 := by
  rw [UnorderedMap.lookup_insert_ite, List.take_succ_cons, List.mem_cons]
  have hlook := (latest_iff hs.descending).1 hs.latest f x
  rw [getSnapshot] at hlook
  by_cases hf : f = c.snapshot.frameId
  · rw [if_pos hf, Option.some_inj, hf]
    refine ⟨fun h ↦ ⟨by rw [← h], .inl h.symm⟩, ?_⟩
    rintro ⟨hx, h | h⟩
    · exact h.symm
    · exact absurd (hx ▸ hc.1 x (List.mem_of_mem_take h)) (lt_irrefl _)
  · rw [if_neg hf, hlook]
    refine and_congr_right fun hx ↦ ⟨.inr, ?_⟩
    rintro (h | h)
    · exact absurd (by rw [← hx, h]) hf
    · exact h

/-- To erase one entry leaves all but the oldest just if it was the oldest. -/
theorem lookup_erase_iff {m : UnorderedMap UInt32 FrameSnapshot} {kept : List FrameSnapshot}
    {last : FrameSnapshot} {begin : UInt32} (hdesc : Descending (kept ++ [last]))
    (hm : ∀ f x, m.lookup f = some x ↔ x.frameId = f ∧ x ∈ kept ++ [last]) (hbegin : begin ∈ m) :
    (∀ f x, (m.erase begin).lookup f = some x ↔ x.frameId = f ∧ x ∈ kept) ↔
      ∀ f ∈ m, begin ≤ f := by
  have hlast : ∀ x ∈ kept, last.frameId < x.frameId := fun x hx ↦
    (List.pairwise_append.1 hdesc).2.2 x hx last (List.mem_singleton_self last)
  have hmem : ∀ f ∈ m, f = last.frameId ∨ last.frameId < f := by
    intro f hf
    obtain ⟨x, hx⟩ := Option.isSome_iff_exists.1 (AList.lookup_isSome.2 hf)
    obtain ⟨rfl, hkept⟩ := (hm f x).1 hx
    rcases List.mem_append.1 hkept with hx | hx
    · exact .inr (hlast x hx)
    · exact .inl (by rw [List.mem_singleton.1 hx])
  have hlook : m.lookup last.frameId = some last := (hm _ _).2 ⟨rfl, by simp⟩
  trans begin = last.frameId
  · constructor
    · intro h
      by_contra hne
      have hstays : (m.erase begin).lookup last.frameId = some last := by
        rw [AList.lookup_erase_ne (Ne.symm hne), hlook]
      exact lt_irrefl _ (hlast last ((h _ _).1 hstays).2)
    · rintro rfl f x
      rw [UnorderedMap.lookup_erase_ite]
      split
      · next hf =>
        refine iff_of_false (by simp) fun h ↦ ?_
        exact absurd (h.1 ▸ hf ▸ hlast x h.2) (lt_irrefl _)
      · next hf =>
        rw [hm, List.mem_append, List.mem_singleton]
        refine and_congr_right fun hx ↦ ⟨fun h ↦ h.resolve_right ?_, .inl⟩
        rintro rfl
        exact hf hx.symm
  · constructor
    · rintro rfl f hf
      exact (hmem f hf).elim (fun h ↦ h ▸ le_rfl) le_of_lt
    · intro h
      refine (hmem begin hbegin).resolve_right fun hlt ↦ ?_
      exact absurd (h _ (AList.lookup_isSome.1 (by rw [hlook]; rfl))) (not_le_of_gt hlt)

/-- There is a first entry to erase. -/
theorem exists_order_eq (hs : s.Inv) (hc : c.Ok s) : ∃ begin order, c.order = begin :: order := by
  refine List.exists_cons_of_length_pos ?_
  rw [hc.2.length_eq, insert_keys_length hs hc]
  exact Nat.succ_pos _

theorem createSnapshot_keys_length (hs : s.Inv) (hc : c.Ok s) :
    (s.createSnapshot c.snapshot c.order).table.keys.length = min 10 (s.created.length + 1) := by
  have hlen := hs.length
  have hlen' := insert_keys_length hs hc
  obtain ⟨begin, order, horder⟩ := exists_order_eq hs hc
  have hperm := horder ▸ hc.2
  rw [createSnapshot, horder]
  show (evict _ _).keys.length = _
  rw [evict_eq hperm (by omega)]
  split
  · rw [AList.keys_erase, List.length_erase_of_mem (hperm.subset List.mem_cons_self)]
    omega
  · omega

/-- **One call**: it leaves the latest ten just if it does not erase an entry for an older one. -/
theorem latest_iff_oldestFirst (hs : s.Inv) (hc : c.Ok s) :
    (s.createSnapshot c.snapshot c.order).Latest ↔ OldestFirst s c := by
  have hdesc : Descending (c.snapshot :: s.created) :=
    List.pairwise_cons.2 ⟨fun x hx ↦ hc.1 x hx, hs.descending⟩
  have hlen := hs.length
  have hlen' := insert_keys_length hs hc
  have hlook := lookup_insert_iff hs hc
  rw [latest_iff hdesc]
  obtain ⟨begin, order, horder⟩ := exists_order_eq hs hc
  have hperm := horder ▸ hc.2
  simp only [getSnapshot, createSnapshot, horder, evict_eq hperm (by omega), OldestFirst]
  by_cases hfull : 10 ≤ s.created.length
  · -- one of eleven is erased
    obtain ⟨last, hlast⟩ : ∃ last, (c.snapshot :: s.created).take 11 =
        (c.snapshot :: s.created).take 10 ++ [last] := by
      rw [List.take_add_one, List.getElem?_eq_getElem (Nat.lt_succ_of_le hfull)]
      exact ⟨_, rfl⟩
    rw [hlast] at hlook
    have hmem := fun f ↦ (hperm.mem_iff (a := f)).trans AList.mem_keys.symm
    rw [if_pos (by omega), lookup_erase_iff (hlast ▸ hdesc.sublist (List.take_sublist _ _)) hlook
      ((hmem begin).1 List.mem_cons_self)]
    simp only [hmem, List.head?_cons, Option.mem_some_iff, forall_eq']
    exact ⟨fun h _ ↦ h, fun h ↦ h (by omega)⟩
  · rw [if_neg (by omega)]
    refine iff_of_true (fun f x ↦ ?_) fun h ↦ by omega
    rw [hlook, List.take_of_length_le, List.take_of_length_le] <;> rw [List.length_cons] <;> omega

/-- The snapshot just made can be had, and the latest ten are kept. -/
def Keeps (_ : Snapshots) (c : Call) (t : Snapshots) : Prop :=
  t.getSnapshot c.snapshot.frameId = some c.snapshot ∧ t.Latest

theorem keeps_iff (hs : s.Inv) (h : step s c = some t) : Keeps s c t ↔ OldestFirst s c := by
  obtain ⟨hc, rfl⟩ := step_eq h
  rw [← latest_iff_oldestFirst hs hc, Keeps, and_iff_right_iff_imp]
  intro hlatest
  refine (hlatest _ _).2 ⟨rfl, List.mem_cons_self, ?_⟩
  -- no snapshot has a larger frame
  rw [List.filter_eq_nil_iff.2]
  · exact Nat.zero_lt_succ 9
  · intro y hy
    rcases List.mem_cons.1 hy with rfl | hy
    · simp
    · simpa using le_of_lt (hc.1 y hy)

theorem inv_step (hs : s.Inv) (h : step s c = some t) (hkeeps : Keeps s c t) : t.Inv := by
  obtain ⟨hc, rfl⟩ := step_eq h
  exact ⟨List.pairwise_cons.2 ⟨fun x hx ↦ hc.1 x hx, hs.descending⟩,
    createSnapshot_keys_length hs hc, hkeeps.2⟩

/-- **The latest snapshots are kept** throughout a run just if, whenever the table is full, its
oldest entry is the first one iterated. -/
theorem createSnapshot_iff {calls : List Call} (hrun : system.Run fresh calls s) :
    system.Along Keeps fresh calls ↔ (system.guarded OldestFirst).Run fresh calls s :=
  System.along_iff (P := Inv) (fun _ _ _ ↦ keeps_iff) (fun _ _ _ ↦ inv_step) inv_fresh hrun

/-! ## Two tables -/

/-- Snapshots of the frames 0 to 10, with a table that has the order `order n` after the insertion
for frame `n`. -/
def eleven (order : ℕ → List ℕ) : List Call :=
  (List.range 11).map fun n ↦ ⟨⟨UInt32.ofNat n, []⟩, (order n).map UInt32.ofNat⟩

theorem createSnapshot_iff_oldestFirst :
    ∃ s, system.Run fresh (eleven fun n ↦ List.range (n + 1)) s ∧
      system.Along Keeps fresh (eleven fun n ↦ List.range (n + 1)) := by
  obtain ⟨s, hrun, -⟩ : ∃ s, (system.guarded OldestFirst).Run fresh
      (eleven fun n ↦ List.range (n + 1)) s ∧ s.created ≠ [] :=
    System.Run.exists_of_any_guarded (by decide +kernel)
  exact ⟨s, hrun.of_guarded, (createSnapshot_iff hrun.of_guarded).2 hrun⟩

/-- The table begins with the entry inserted last, and the eleventh snapshot is gone at once. -/
theorem newestFirst_loses :
    ∃ s, system.Run fresh (eleven fun n ↦ (List.range (n + 1)).reverse) s ∧
      s.getSnapshot 10 = none ∧ ⟨10, []⟩ ∈ s.created ∧ ¬ s.Latest := by
  obtain ⟨s, hrun, hnone, hmem, hlate⟩ : ∃ s, system.Run fresh
      (eleven fun n ↦ (List.range (n + 1)).reverse) s ∧ s.getSnapshot 10 = none ∧
        ⟨10, []⟩ ∈ s.created ∧ (s.created.filter fun y ↦ 10 < y.frameId).length < 10 :=
    System.Run.exists_of_any (by decide +kernel)
  refine ⟨s, hrun, hnone, hmem, fun h ↦ ?_⟩
  rw [(h 10 ⟨10, []⟩).2 ⟨rfl, hmem, hlate⟩] at hnone
  cases hnone

end Snapshots
end Sync
end ChwellCore
