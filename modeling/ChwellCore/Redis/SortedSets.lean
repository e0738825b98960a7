import ChwellCore.Redis.Expiry
import Mathlib.Data.List.Induction

/-!
# Sorted sets

A sorted set is a vector of scores with members.  `ZADD` sorts it when it appends a new member, and
`ZREM` takes a member out, so that after either it is sorted again.  But a member that is there
already gets its new score where it stands.

`InPlace` says that it belongs there still: among the other members, it comes after the same ones
with its new score as with the old one.  `zsets_sorted_iff` has it for whole runs that all the sets
are sorted all the time if and only if every new score is `InPlace`.  What `ZRANGE`, `ZRANK` and
`ZSCORE` say of a set follows: which member is where in the vector, and the score that the member
was given last, is never wrong (`lastScore_eq`).

Scores are exact numbers here: their order is linear.
-/

set_option autoImplicit false

namespace ChwellCore
namespace Redis

/-- Scores that are compared as exact numbers. -/
class ExactDouble (F : Type) [LinearOrder F] [Double F] : Prop where
  lt_eq : ∀ a b : F, Double.lt a b = decide (a < b)

section Order

variable {F : Type} [LinearOrder F] [Double F] [ExactDouble F]

theorem pairLe_iff {a b : F × Bytes} :
    pairLe a b = true ↔ a.1 < b.1 ∨ a.1 = b.1 ∧ a.2 ≤ b.2 := by
  rw [pairLe, ExactDouble.lt_eq, ExactDouble.lt_eq, Bool.or_eq_true, Bool.and_eq_true,
    Bool.not_eq_true', decide_eq_true_eq, decide_eq_false_iff_not, decide_eq_true_eq, not_lt]
  constructor
  · rintro (hlt | ⟨hle, hmem⟩)
    · exact .inl hlt
    · exact hle.lt_or_eq.imp_right fun heq ↦ ⟨heq, hmem⟩
  · rintro (hlt | ⟨heq, hmem⟩)
    · exact .inl hlt
    · exact .inr ⟨heq.le, hmem⟩

theorem pairLe_trans (a b c : F × Bytes) (hab : pairLe a b = true) (hbc : pairLe b c = true) :
    pairLe a c = true := by
  rw [pairLe_iff] at hab hbc ⊢
  rcases hab with hab | ⟨hab, hab'⟩ <;> rcases hbc with hbc | ⟨hbc, hbc'⟩
  · exact .inl (hab.trans hbc)
  · exact .inl (hbc ▸ hab)
  · exact .inl (hab ▸ hbc)
  · exact .inr ⟨hab.trans hbc, Std.le_trans hab' hbc'⟩

theorem pairLe_total (a b : F × Bytes) : (pairLe a b || pairLe b a) = true := by
  rw [Bool.or_eq_true, pairLe_iff, pairLe_iff]
  rcases lt_trichotomy a.1 b.1 with hlt | heq | hlt
  · exact .inl (.inl hlt)
  · exact (Std.le_total (a := a.2) (b := b.2)).imp (fun h ↦ .inr ⟨heq, h⟩) fun h ↦
      .inr ⟨heq.symm, h⟩
  · exact .inr (.inl hlt)

theorem pairLe_antisymm {a b : F × Bytes} (hab : pairLe a b = true) (hba : pairLe b a = true) :
    a = b := by
  rw [pairLe_iff] at hab hba
  rcases hab with hab | ⟨hab, hab'⟩ <;> rcases hba with hba | ⟨hba, hba'⟩
  · exact absurd hba hab.asymm
  · exact absurd hba.symm hab.ne
  · exact absurd hab.symm hba.ne
  · exact Prod.ext hab (Std.le_antisymm hab' hba')

/-- Of two entries with different members, one comes first. -/
theorem pairLe_iff_not {a b : F × Bytes} (h : b.2 ≠ a.2) :
    pairLe a b = true ↔ ¬ pairLe b a = true := by
  constructor
  · exact fun hab hba ↦ h (congrArg Prod.snd (pairLe_antisymm hba hab))
  · exact (Bool.or_eq_true _ _ ▸ pairLe_total a b).resolve_right

end Order

/-! ## One vector -/

/-- Sorted by score and member. -/
def Ascending {F : Type} [LinearOrder F] (z : List (F × Bytes)) : Prop :=
  z.Pairwise fun a b ↦ a.1 < b.1 ∨ a.1 = b.1 ∧ a.2 ≤ b.2

section Vector

variable {F : Type} [Double F] {z : List (F × Bytes)} {x : F} {m : Bytes}

/-- Among the other members, `m` comes after the same ones with the score `x` as with its old
score. -/
def InPlace (z : List (F × Bytes)) (x : F) (m : Bytes) : Prop :=
  ∀ y, (y, m) ∈ z → ∀ p ∈ z, p.2 ≠ m → (pairLe p (y, m) = true ↔ pairLe p (x, m) = true)

omit [Double F] in
/-- The first place of a member. -/
theorem exists_first (h : m ∈ z.map Prod.snd) :
    ∃ a y b, z = a ++ (y, m) :: b ∧ ∀ p ∈ a, p.2 ≠ m := by
  obtain ⟨p, hp, hm⟩ := List.mem_map.1 h
  have hsome : (z.find? fun p ↦ p.2 == m).isSome = true :=
    List.find?_isSome.2 ⟨p, hp, beq_iff_eq.2 hm⟩
  obtain ⟨q, hq⟩ := Option.isSome_iff_exists.1 hsome
  obtain ⟨hqm, a, b, hz, ha⟩ := List.find?_eq_some_iff_append.1 hq
  obtain ⟨y, m'⟩ := q
  obtain rfl : m' = m := beq_iff_eq.1 hqm
  refine ⟨a, y, b, hz, fun p hp hpm ↦ ?_⟩
  have hnot := ha p hp
  rw [hpm, beq_self_eq_true] at hnot
  cases hnot

omit [Double F] in
/-- It is not there again. -/
theorem ne_of_nodup {a b : List (F × Bytes)} {y : F}
    (h : ((a ++ (y, m) :: b).map Prod.snd).Nodup) : ∀ p ∈ b, p.2 ≠ m := by
  intro p hp hpm
  rw [List.map_append, List.map_cons] at h
  exact (List.nodup_cons.1 (List.nodup_middle.1 h)).1
    (List.mem_append_right _ (List.mem_map.2 ⟨p, hp, hpm⟩))

/-- A new score for a member that is there. -/
theorem zsetAdd_append {a b : List (F × Bytes)} {y : F} (ha : ∀ p ∈ a, p.2 ≠ m) (x : F) :
    zsetAdd (a ++ (y, m) :: b) x m = (false, a ++ (x, m) :: b) := by
  have hmem : ((a ++ (y, m) :: b).map Prod.snd).contains m = true := by
    rw [List.contains_iff_mem]
    exact List.mem_map.2 ⟨(y, m), List.mem_append_right _ List.mem_cons_self, rfl⟩
  have hskip : ∀ p ∈ a, (p.2 != m) = true := fun p hp ↦ bne_iff_ne.2 (ha p hp)
  have htake : ((y, m) :: b).takeWhile (fun p ↦ p.2 != m) = [] := by simp
  have hdrop : ((y, m) :: b).dropWhile (fun p ↦ p.2 != m) = (y, m) :: b := by simp
  rw [zsetAdd, if_pos hmem, List.takeWhile_append_of_pos hskip, List.dropWhile_append_of_pos hskip,
    htake, hdrop, List.append_nil]

/-- A new member. -/
theorem zsetAdd_of_notMem (h : m ∉ z.map Prod.snd) (x : F) :
    zsetAdd z x m = (true, (z ++ [(x, m)]).mergeSort pairLe) := by
  rw [zsetAdd, if_neg (by rwa [List.contains_iff_mem])]

/-- No member is there twice. -/
theorem nodup_zsetAdd (h : (z.map Prod.snd).Nodup) (x : F) (m : Bytes) :
    ((zsetAdd z x m).2.map Prod.snd).Nodup := by
  by_cases hm : m ∈ z.map Prod.snd
  · obtain ⟨a, y, b, rfl, ha⟩ := exists_first hm
    rw [zsetAdd_append ha]
    simpa only [List.map_append, List.map_cons] using h
  · rw [zsetAdd_of_notMem hm, ((List.mergeSort_perm _ _).map Prod.snd).nodup_iff, List.map_append]
    exact List.concat_eq_append ▸ h.concat hm

/-- The scores that are there afterwards. -/
theorem mem_zsetAdd (h : (z.map Prod.snd).Nodup) {p : F × Bytes} :
    p ∈ (zsetAdd z x m).2 ↔ p = (x, m) ∨ p ∈ z ∧ p.2 ≠ m := by
  by_cases hm : m ∈ z.map Prod.snd
  · obtain ⟨a, y, b, rfl, ha⟩ := exists_first hm
    have hb := ne_of_nodup h
    rw [zsetAdd_append ha]
    simp only [List.mem_append, List.mem_cons]
    constructor
    · rintro (hp | rfl | hp)
      · exact .inr ⟨.inl hp, ha p hp⟩
      · exact .inl rfl
      · exact .inr ⟨.inr (.inr hp), hb p hp⟩
    · rintro (rfl | ⟨hp | rfl | hp, hne⟩)
      · exact .inr (.inl rfl)
      · exact .inl hp
      · exact absurd rfl hne
      · exact .inr (.inr hp)
  · rw [zsetAdd_of_notMem hm, List.mem_mergeSort, List.mem_append, List.mem_singleton, or_comm]
    refine or_congr_right (and_iff_left_of_imp fun hp hpm ↦ ?_).symm
    exact hm (List.mem_map.2 ⟨p, hp, hpm⟩)

end Vector

section Sorted

variable {F : Type} [LinearOrder F] [Double F] [ExactDouble F] {z : List (F × Bytes)} {x : F}
  {m : Bytes}

theorem ascending_iff : Ascending z ↔ z.Pairwise fun a b ↦ pairLe a b = true := by
  simp only [Ascending, pairLe_iff]

/-- A vector with a member between others is sorted. -/
theorem ascending_append_iff {a b : List (F × Bytes)} (hb : ∀ p ∈ b, p.2 ≠ m) :
    Ascending (a ++ (x, m) :: b) ↔
      ((∀ p ∈ a, pairLe p (x, m) = true) ∧ ∀ p ∈ b, ¬ pairLe p (x, m) = true) ∧
        Ascending (a ++ b) := by
  have hbehind : (∀ p ∈ b, pairLe (x, m) p = true) ↔ ∀ p ∈ b, ¬ pairLe p (x, m) = true :=
    forall₂_congr fun p hp ↦ pairLe_iff_not (hb p hp)
  rw [ascending_iff, ascending_iff, List.pairwise_append, List.pairwise_append, List.pairwise_cons,
    hbehind]
  simp only [List.forall_mem_cons, forall_and]
  tauto

/-- What it is to be in place, where the old score was. -/
theorem inPlace_append_iff {a b : List (F × Bytes)} {y : F} (ha : ∀ p ∈ a, p.2 ≠ m)
    (hb : ∀ p ∈ b, p.2 ≠ m) (hz : Ascending (a ++ (y, m) :: b)) :
    InPlace (a ++ (y, m) :: b) x m ↔
      (∀ p ∈ a, pairLe p (x, m) = true) ∧ ∀ p ∈ b, ¬ pairLe p (x, m) = true := by
  obtain ⟨⟨hay, hby⟩, -⟩ := (ascending_append_iff hb).1 hz
  constructor
  · intro h
    have h := h y (List.mem_append_right _ List.mem_cons_self)
    refine ⟨fun p hp ↦ ?_, fun p hp ↦ ?_⟩
    · exact (h p (List.mem_append_left _ hp) (ha p hp)).1 (hay p hp)
    · have hmem := List.mem_append_right a (List.mem_cons_of_mem (y, m) hp)
      exact mt (h p hmem (hb p hp)).2 (hby p hp)
  · rintro ⟨hax, hbx⟩ y' hy' p hp hpm
    have hy : y' = y := by
      rcases List.mem_append.1 hy' with hy' | hy'
      · exact absurd rfl (ha _ hy')
      · rcases List.mem_cons.1 hy' with hy' | hy'
        · exact congrArg Prod.fst hy'
        · exact absurd rfl (hb _ hy')
    rw [hy]
    rcases List.mem_append.1 hp with hp | hp
    · exact iff_of_true (hay p hp) (hax p hp)
    rcases List.mem_cons.1 hp with rfl | hp
    · exact absurd rfl hpm
    · exact iff_of_false (hby p hp) (hbx p hp)

/-- **A vector stays sorted if and only if the new score is in place.** -/
theorem ascending_zsetAdd_iff (hz : Ascending z) (hnodup : (z.map Prod.snd).Nodup) :
    Ascending (zsetAdd z x m).2 ↔ InPlace z x m := by
  by_cases hm : m ∈ z.map Prod.snd
  · obtain ⟨a, y, b, rfl, ha⟩ := exists_first hm
    have hb := ne_of_nodup hnodup
    rw [zsetAdd_append ha, inPlace_append_iff ha hb hz, ascending_append_iff hb]
    exact and_iff_left ((ascending_append_iff hb).1 hz).2
  · rw [zsetAdd_of_notMem hm, ascending_iff]
    refine iff_of_true (List.pairwise_mergeSort pairLe_trans pairLe_total _) fun y hy ↦ ?_
    exact absurd (List.mem_map.2 ⟨(y, m), hy, rfl⟩) hm

end Sorted

/-! ## Commands -/

section Commands

variable {F : Type} [Double F]

/-- What a client has under a key as a sorted set. -/
def zsetOf (c : RedisClient F) (key : Bytes) : List (F × Bytes) := (c key).zset.getD []

/-- Every command but `ZADD` leaves a part of the sorted set of its key. -/
theorem KeyCommand.sublist_exec {cmd : KeyCommand} (h : ∀ score m, cmd ≠ .zadd score m) (t : ℤ)
    (s : Slot F) : ((cmd.exec t s).2.zset.getD []).Sublist (s.zset.getD []) := by
  have hexp : ((checkExpire t s).zset.getD []).Sublist (s.zset.getD []) := by
    by_cases hs : s.Expired t
    · rw [checkExpire_of_expired hs]
      exact List.nil_sublist _
    · rw [checkExpire_of_not_expired hs]
  have hkeep {s' : Slot F} (hsame : s'.zset = s.zset) :
      (s'.zset.getD []).Sublist (s.zset.getD []) := by rw [hsame]
  cases cmd with
  | get =>
    simp only [exec]
    split <;> exact hexp
  | «exists» => exact hexp
  | zadd score m => exact absurd rfl (h score m)
  | zrem m =>
    simp only [exec]
    rcases s.zset with _ | z
    · exact List.Sublist.refl _
    · exact List.eraseP_sublist
  | _ => exact hkeep (exec_frame .zsets rfl t s)

/-- The score that a command gives to a member of the sorted set of a key. -/
def scored (key m : Bytes) (args : List Bytes) : Option F :=
  match dispatch args with
  | .keyed k (.zadd score m') =>
    if k = key ∧ m' = m then (Double.stod (F := F) score).toOption else none
  | _ => none

theorem zsetOf_execute_of_scored {t : ℤ} {args : List Bytes} {c : RedisClient F} {key m : Bytes}
    {x : F} (h : scored key m args = some x) :
    zsetOf (execute t args c).2 key = (zsetAdd (zsetOf c key) x m).2 := by
  rw [scored] at h
  split at h
  · next k score m' hdis =>
    split at h
    · next hkm =>
      obtain ⟨rfl, rfl⟩ := hkm
      simp only [execute, hdis, Command.exec, zsetOf, Function.update_self, KeyCommand.exec]
      cases hscore : Double.stod (F := F) score with
      | error e =>
        rw [hscore] at h
        cases h
      | ok y =>
        rw [hscore] at h
        obtain rfl : y = x := Option.some.inj h
        rfl
    · cases h
  · cases h

/-- A command that gives no score leaves a part of each sorted set. -/
theorem zsetOf_execute_of_not_scored (t : ℤ) {args : List Bytes} (c : RedisClient F) {key : Bytes}
    (h : ∀ m, scored (F := F) key m args = none) :
    (zsetOf (execute t args c).2 key).Sublist (zsetOf c key) := by
  rw [execute]
  cases hdis : dispatch args with
  | keyed k cmd =>
    simp only [Command.exec, zsetOf, Function.update_apply]
    split
    · next hk =>
      subst hk
      by_cases hz : ∃ score m, cmd = .zadd score m
      · obtain ⟨score, m, rfl⟩ := hz
        have hnone := h m
        rw [scored, hdis] at hnone
        simp only [and_self, if_true] at hnone
        rw [KeyCommand.exec]
        cases hscore : Double.stod (F := F) score with
        | error e => exact List.Sublist.refl _
        | ok x =>
          rw [hscore] at hnone
          cases hnone
      · exact KeyCommand.sublist_exec (fun score m heq ↦ hz ⟨score, m, heq⟩) t _
    · exact List.Sublist.refl _
  | del ks =>
    simp only [Command.exec, zsetOf, delKeys_apply]
    split
    · exact List.nil_sublist _
    · exact List.Sublist.refl _
  | ping | empty | unsupported cmd => exact List.Sublist.refl _

/-- **One command and a sorted set**: it gives a score to a member, or it leaves a part. -/
theorem scored_or_sublist (t : ℤ) (args : List Bytes) (c : RedisClient F) (key : Bytes) :
    (∃ m x, scored key m args = some x ∧
        zsetOf (execute t args c).2 key = (zsetAdd (zsetOf c key) x m).2) ∨
      (∀ m, scored (F := F) key m args = none) ∧
        (zsetOf (execute t args c).2 key).Sublist (zsetOf c key) := by
  by_cases h : ∃ m x, scored (F := F) key m args = some x
  · obtain ⟨m, x, hx⟩ := h
    exact .inl ⟨m, x, hx, zsetOf_execute_of_scored hx⟩
  · have hnone (m : Bytes) : scored (F := F) key m args = none :=
      Option.eq_none_iff_forall_ne_some.2 fun x hx ↦ h ⟨m, x, hx⟩
    exact .inr ⟨hnone, zsetOf_execute_of_not_scored t c hnone⟩

/-- A command gives a score to one member at most. -/
theorem eq_of_scored {key m m' : Bytes} {args : List Bytes} {x y : F}
    (h : scored key m args = some x) (h' : scored key m' args = some y) : m = m' ∧ x = y := by
  rw [scored] at h h'
  split at h
  · next hdis =>
    simp only [hdis] at h'
    obtain ⟨hkm, h⟩ := Option.ite_none_right_eq_some.1 h
    obtain ⟨hkm', h'⟩ := Option.ite_none_right_eq_some.1 h'
    exact ⟨hkm.2.symm.trans hkm'.2, Option.some.inj (h.symm.trans h')⟩
  · cases h

/-! ## Runs -/

/-- The score that a member was given last. -/
def lastScore (key m : Bytes) (history : List (ℤ × List Bytes)) : Option F :=
  history.foldl (fun last e ↦ (scored key m e.2).or last) none

theorem lastScore_append_singleton (key m : Bytes) (history : List (ℤ × List Bytes))
    (e : ℤ × List Bytes) :
    lastScore (F := F) key m (history ++ [e]) =
      (scored key m e.2).or (lastScore key m history) := by
  rw [lastScore, List.foldl_append]
  rfl

/-- In every run, no member is in a sorted set twice. -/
theorem nodup_zsetOf (history : List (ℤ × List Bytes)) (key : Bytes) :
    ((zsetOf (executeAll history (.fresh : RedisClient F)) key).map Prod.snd).Nodup := by
  induction history using List.reverseRecOn with
  | nil => exact List.nodup_nil
  | append_singleton history e ih =>
    rw [executeAll_append_singleton]
    rcases scored_or_sublist e.1 e.2 (executeAll history (.fresh : RedisClient F)) key with
      ⟨m, x, -, hadd⟩ | ⟨-, hsub⟩
    · rw [hadd]
      exact nodup_zsetAdd ih x m
    · exact ih.sublist (hsub.map _)

/-- In every run, a member has the score that it was given last. -/
theorem lastScore_eq {history : List (ℤ × List Bytes)} {key m : Bytes} {x : F}
    (h : (x, m) ∈ zsetOf (executeAll history .fresh) key) : lastScore key m history = some x := by
  induction history using List.reverseRecOn with
  | nil => cases h
  | append_singleton history e ih =>
    rw [executeAll_append_singleton] at h
    rw [lastScore_append_singleton]
    rcases scored_or_sublist e.1 e.2 (executeAll history (.fresh : RedisClient F)) key with
      ⟨m', y, hy, hadd⟩ | ⟨hnone, hsub⟩
    · rw [hadd, mem_zsetAdd (nodup_zsetOf history key)] at h
      rcases h with heq | ⟨hmem, hne⟩
      · obtain ⟨rfl, rfl⟩ := Prod.mk.inj heq
        rw [hy, Option.some_or]
      · have hother : scored (F := F) key m e.2 = none :=
          Option.eq_none_iff_forall_ne_some.2 fun z hz ↦ hne (eq_of_scored hz hy).1
        rw [hother, Option.none_or]
        exact ih hmem
    · rw [hnone, Option.none_or]
      exact ih (hsub.subset h)

end Commands

section Runs

variable {F : Type} [LinearOrder F] [Double F]

/-- What a client says of the sorted set of a key at time `t`: it lists the members in the order of
the vector, and of each it knows the place there and the score. -/
def Answers (c : RedisClient F) (key : Bytes) (t : ℤ) : Prop :=
  let z := zsetOf c key
  (execute t [lit "ZRANGE", key, lit "0", lit "-1"] c).1 = .ok (.array (z.map Prod.snd)) ∧
    (∀ (i : ℕ) x m, z[i]? = some (x, m) →
      (execute t [lit "ZRANK", key, m] c).1 = .ok (.integer i) ∧
        (execute t [lit "ZSCORE", key, m] c).1 = .ok (.string (Double.toString x))) ∧
    ∀ m, m ∉ z.map Prod.snd →
      (execute t [lit "ZRANK", key, m] c).1 = .ok (.integer (-1)) ∧
        (execute t [lit "ZSCORE", key, m] c).1 = .ok .nil

/-- After these commands every sorted set is sorted and has no member twice, the members have the
scores that they were given last, and the client answers accordingly. -/
def Orderly (history : List (ℤ × List Bytes)) : Prop :=
  ∀ key, let z : List (F × Bytes) := zsetOf (executeAll history .fresh) key
    Ascending z ∧ (z.map Prod.snd).Nodup ∧ (∀ x m, (x, m) ∈ z → lastScore key m history = some x) ∧
      ∀ t, Answers (executeAll history (.fresh : RedisClient F)) key t

/-- A command that gives a score to a member leaves it in place. -/
def Keeps (c : RedisClient F) (args : List Bytes) : Prop :=
  ∀ key m x, scored key m args = some x → InPlace (zsetOf c key) x m

theorem slice_all {α : Type} (l : List α) : slice l 0 (-1) = l := by
  simp only [slice]
  rw [if_neg (lt_irrefl (0 : ℤ)), if_pos (by decide : (-1 : ℤ) < 0), max_self, ← sub_eq_add_neg,
    min_self, sub_add_cancel, sub_zero, Int.toNat_natCast, Int.toNat_zero, List.drop_zero,
    List.take_length]

omit [LinearOrder F] [Double F] in
/-- The first place of a member is its only one. -/
theorem member_ne_of_lt {z : List (F × Bytes)} (hnodup : (z.map Prod.snd).Nodup) {i : ℕ}
    (hi : i < z.length) {j : ℕ} (hj : j < i) : (z[j].2 == z[i].2) = false := by
  have hpairs : z.Pairwise fun p q ↦ p.2 ≠ q.2 := List.pairwise_map.1 hnodup
  exact beq_eq_false_iff_ne.2 (List.pairwise_iff_getElem.1 hpairs j i (hj.trans hi) hi hj)

omit [LinearOrder F] in
/-- Whatever is in the vectors, the client answers according to them. -/
theorem answers (c : RedisClient F) (key : Bytes) (t : ℤ)
    (hnodup : ((zsetOf c key).map Prod.snd).Nodup) : Answers c key t := by
  have hrange : dispatch [lit "ZRANGE", key, lit "0", lit "-1"] =
      .keyed key (.zrange (lit "0") (lit "-1")) := rfl
  have hrank (m : Bytes) : dispatch [lit "ZRANK", key, m] = .keyed key (.zrank m) := rfl
  have hscore (m : Bytes) : dispatch [lit "ZSCORE", key, m] = .keyed key (.zscore m) := rfl
  have hzero : stoll (lit "0") = .ok 0 := by decide
  have hlast : stoll (lit "-1") = .ok (-1) := by decide
  refine ⟨?_, fun i x m hi ↦ ?_, fun m hm ↦ ?_⟩
  · simp only [execute, hrange, Command.exec, KeyCommand.exec, zsetOf]
    cases (c key).zset with
    | none => rfl
    | some z => simp only [rangeReply, hzero, hlast, slice_all, Option.getD_some]
  · obtain ⟨hlt, hget⟩ := List.getElem?_eq_some_iff.1 hi
    have hbefore (j : ℕ) (hj : j < i) := member_ne_of_lt hnodup hlt hj
    rw [hget] at hbefore
    have hidx : (zsetOf c key).findIdx? (fun p ↦ p.2 == m) = some i := by
      rw [List.findIdx?_eq_some_iff_getElem]
      exact ⟨hlt, by rw [hget, beq_self_eq_true], fun j hj ↦ by rw [hbefore j hj]; decide⟩
    have hfind : (zsetOf c key).find? (fun p ↦ p.2 == m) = some (x, m) := by
      rw [List.find?_eq_some_iff_getElem]
      exact ⟨beq_self_eq_true m, i, hlt, hget, fun j hj ↦ by rw [hbefore j hj]; rfl⟩
    rw [zsetOf] at hidx hfind
    simp only [execute, hrank, hscore, Command.exec, KeyCommand.exec, hidx, hfind, and_self]
  · have hne (p : F × Bytes) (hp : p ∈ zsetOf c key) : ¬ (p.2 == m) = true := fun heq ↦
      hm (List.mem_map.2 ⟨p, hp, beq_iff_eq.1 heq⟩)
    have hidx : (zsetOf c key).findIdx? (fun p ↦ p.2 == m) = none :=
      List.findIdx?_eq_none_iff.2 fun p hp ↦ Bool.eq_false_iff.2 (hne p hp)
    have hfind : (zsetOf c key).find? (fun p ↦ p.2 == m) = none := List.find?_eq_none.2 hne
    rw [zsetOf] at hidx hfind
    simp only [execute, hrank, hscore, Command.exec, KeyCommand.exec, hidx, hfind, and_self]

theorem orderly_iff {history : List (ℤ × List Bytes)} :
    Orderly (F := F) history ↔
      ∀ key, Ascending (zsetOf (executeAll history (.fresh : RedisClient F)) key) := by
  constructor
  · exact fun h key ↦ (h key).1
  · exact fun h key ↦ ⟨h key, nodup_zsetOf history key, fun _ _ ↦ lastScore_eq, fun t ↦
      answers _ key t (nodup_zsetOf history key)⟩

variable [ExactDouble F]

/-- One command keeps the sorted sets sorted if and only if the score that it gives is in place. -/
theorem ascending_execute_iff {c : RedisClient F} (t : ℤ) {args : List Bytes}
    (hasc : ∀ key, Ascending (zsetOf c key)) (hnodup : ∀ key, ((zsetOf c key).map Prod.snd).Nodup) :
    (∀ key, Ascending (zsetOf (execute t args c).2 key)) ↔ Keeps c args := by
  constructor
  · intro h key m x hx
    rw [← ascending_zsetAdd_iff (hasc key) (hnodup key), ← zsetOf_execute_of_scored hx]
    exact h key
  · intro h key
    rcases scored_or_sublist t args c key with ⟨m, x, hx, hadd⟩ | ⟨-, hsub⟩
    · rw [hadd, ascending_zsetAdd_iff (hasc key) (hnodup key)]
      exact h key m x hx
    · exact (hasc key).sublist hsub

/-- **When the sorted sets are sorted**: they are sorted all the time in a run, and the client
answers accordingly, if and only if every score that a member is given is in place. -/
theorem zsets_sorted_iff (history : List (ℤ × List Bytes)) :
    (∀ before after, history = before ++ after → Orderly (F := F) before) ↔
      ∀ before e after, history = before ++ e :: after →
        Keeps (executeAll before (.fresh : RedisClient F)) e.2 := by
  simp only [orderly_iff]
  constructor
  · rintro h before e after rfl
    have hnow := h before (e :: after) rfl
    have hnext := h (before ++ [e]) after (by simp)
    rw [executeAll_append_singleton] at hnext
    exact (ascending_execute_iff e.1 hnow (nodup_zsetOf before)).1 hnext
  · intro h before
    induction before using List.reverseRecOn with
    | nil => exact fun _ _ _ ↦ List.Pairwise.nil
    | append_singleton before e ih =>
      rintro after rfl
      have hnow := ih (e :: after) (by simp)
      rw [executeAll_append_singleton]
      exact (ascending_execute_iff e.1 hnow (nodup_zsetOf before)).2 (h before e after (by simp))

end Runs

/-! ## A member that moves up -/

instance : ExactDouble ℤ := ⟨fun _ _ ↦ rfl⟩

/-- A member of the ladder gets a score. -/
def scoredTo (score m : Bytes) : ℤ × List Bytes := (0, [lit "ZADD", lit "ladder", score, m])

/-- Two players with 10 and 20 points. -/
def ladder : List (ℤ × List Bytes) :=
  [scoredTo (lit "10") (lit "ann"), scoredTo (lit "20") (lit "bob")]

theorem zsetOf_first :
    zsetOf (executeAll [scoredTo (lit "10") (lit "ann")] (.fresh : RedisClient ℤ)) (lit "ladder") =
      [(10, lit "ann")] := by
  refine (zsetOf_execute_of_scored (m := lit "ann") (x := 10) rfl).trans ?_
  exact (congrArg Prod.snd (zsetAdd_of_notMem (by decide) (10 : ℤ))).trans
    (List.mergeSort_singleton _)

theorem zsetOf_ladder :
    zsetOf (executeAll ladder (.fresh : RedisClient ℤ)) (lit "ladder") =
      [(10, lit "ann"), (20, lit "bob")] := by
  refine (zsetOf_execute_of_scored (m := lit "bob") (x := 20) rfl).trans ?_
  refine (congrArg (fun z ↦ (zsetAdd z (20 : ℤ) (lit "bob")).2) zsetOf_first).trans ?_
  refine (congrArg Prod.snd (zsetAdd_of_notMem (by decide) (20 : ℤ))).trans ?_
  exact List.mergeSort_of_pairwise (by decide)

/-- **A score that passes another**: with 30 points ann is still in front of bob with 20. -/
theorem not_orderly_overtaking :
    ¬ Orderly (F := ℤ) (ladder ++ [scoredTo (lit "30") (lit "ann")]) := by
  intro h
  have hasc := orderly_iff.1 h (lit "ladder")
  rw [executeAll_append_singleton,
    zsetOf_execute_of_scored (m := lit "ann") (x := 30) rfl, zsetOf_ladder, ascending_iff] at hasc
  exact absurd hasc (by decide)

theorem keeps_scoredTo (score : Bytes) {c : RedisClient ℤ} {m : Bytes} {x : ℤ}
    (hscore : stoll score = .ok x) (h : InPlace (zsetOf c (lit "ladder")) x m) :
    Keeps c (scoredTo score m).2 := by
  have hdis : dispatch (scoredTo score m).2 = .keyed (lit "ladder") (.zadd score m) := rfl
  have hstod : Double.stod (F := ℤ) score = .ok x := hscore
  intro key m' y hy
  simp only [scored, hdis, hstod] at hy
  split at hy
  · next heq =>
    obtain ⟨rfl, rfl⟩ := heq
    obtain rfl : x = y := Option.some.inj hy
    exact h
  · cases hy

/-- With 15 points she stays behind him. -/
theorem orderly_not_overtaking :
    Orderly (F := ℤ) (ladder ++ [scoredTo (lit "15") (lit "ann")]) := by
  refine (zsets_sorted_iff _).2 ?_ _ [] (List.append_nil _).symm
  intro before e after heq
  rcases before with _ | ⟨a, _ | ⟨b, _ | ⟨c, before⟩⟩⟩ <;>
    simp only [ladder, List.cons_append, List.nil_append, List.cons.injEq] at heq
  · obtain ⟨rfl, -⟩ := heq
    exact keeps_scoredTo (lit "10") (x := 10) rfl fun y hy ↦ absurd hy List.not_mem_nil
  · obtain ⟨rfl, rfl, -⟩ := heq
    refine keeps_scoredTo (lit "20") (x := 20) rfl ?_
    rw [zsetOf_first]
    exact fun y hy ↦ absurd (Prod.mk.inj (List.mem_singleton.1 hy)).2 (by decide)
  · obtain ⟨rfl, rfl, rfl, -⟩ := heq
    refine keeps_scoredTo (lit "15") (x := 15) rfl ?_
    rw [← ladder, zsetOf_ladder]
    intro y hy p hp hne
    simp only [List.mem_cons, Prod.mk.injEq, List.not_mem_nil, or_false] at hy hp
    rcases hy with ⟨rfl, -⟩ | ⟨-, hm⟩
    · rcases hp with rfl | rfl
      · exact absurd rfl hne
      · decide
    · exact absurd hm (by decide)
  · exact absurd heq.2.2.2 (by simp)

end Redis
end ChwellCore
