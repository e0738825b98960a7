import Mathlib.Data.List.Basic
import Mathlib.Tactic.Common

/-!
# Searching a string for a string

`find pat l` is the first place at which `pat` stands in `l`.  Two things are said about it: that
nothing is found in what does not have the first element of the pattern, and that what is found
stays the first when more follows.
-/

set_option autoImplicit false

universe u

namespace Search

variable {α : Type u} [DecidableEq α] {pat l m : List α} {c : α} {i : ℕ}

/-- The first place at which the pattern stands. -/
def find (pat : List α) : List α → Option ℕ
  | [] => if pat.isEmpty then some 0 else none
  | x :: l => if pat.isPrefixOf (x :: l) then some 0 else (find pat l).map (· + 1)

/-- The first place, from `pos` on. -/
def findFrom (pat : List α) (pos : ℕ) (l : List α) : Option ℕ :=
  (find pat (l.drop pos)).map (· + pos)

theorem find_of_start (h : pat <+: l) : find pat l = some 0 := by
  rcases l with _ | ⟨x, l⟩
  · rw [List.prefix_nil] at h
    rw [h]
    rfl
  · rw [find, if_pos (List.isPrefixOf_iff_prefix.2 h)]

theorem find_cons_of_not_start {x : α} (h : ¬ pat <+: x :: l) :
    find pat (x :: l) = (find pat l).map (· + 1) := by
  rw [find, if_neg fun hp ↦ h (List.isPrefixOf_iff_prefix.1 hp)]

/-- The pattern stands where it is found. -/
theorem prefix_of_find (h : find pat l = some i) : pat <+: l.drop i := by
  induction l generalizing i with
  | nil =>
    rw [find, Option.ite_none_right_eq_some] at h
    rw [List.isEmpty_iff.1 h.1]
    exact List.nil_prefix
  | cons x l ih =>
    by_cases hp : pat <+: x :: l
    · rw [find_of_start hp] at h
      obtain rfl := Option.some.inj h
      exact hp
    · rw [find_cons_of_not_start hp, Option.map_eq_some_iff] at h
      obtain ⟨j, hj, rfl⟩ := h
      exact ih hj

theorem add_length_le_of_find (hpat : pat ≠ []) (h : find pat l = some i) :
    i + pat.length ≤ l.length := by
  have hle := (prefix_of_find h).length_le
  have hpos := List.length_pos_iff.2 hpat
  rw [List.length_drop] at hle
  omega

/-- A pattern that stands somewhere is found. -/
theorem exists_find (h : pat <+: l.drop i) : ∃ j, find pat l = some j := by
  induction l generalizing i with
  | nil =>
    rw [List.drop_nil] at h
    exact ⟨0, find_of_start h⟩
  | cons x l ih =>
    by_cases hp : pat <+: x :: l
    · exact ⟨0, find_of_start hp⟩
    · rcases i with _ | i
      · exact absurd h hp
      · obtain ⟨j, hj⟩ := ih h
        exact ⟨j + 1, by rw [find_cons_of_not_start hp, hj, Option.map_some]⟩

/-- What is found stays the first when more follows. -/
theorem find_append (hpat : pat ≠ []) (h : find pat l = some i) (rest : List α) :
    find pat (l ++ rest) = some i := by
  induction l generalizing i with
  | nil =>
    rw [find, Option.ite_none_right_eq_some, List.isEmpty_iff] at h
    exact absurd h.1 hpat
  | cons x l ih =>
    by_cases hp : pat <+: x :: l
    · rw [find_of_start hp] at h
      rw [find_of_start (hp.trans (List.prefix_append _ _)), h]
    · have hfound := h
      rw [find_cons_of_not_start hp, Option.map_eq_some_iff] at h
      obtain ⟨j, hj, rfl⟩ := h
      have hnot : ¬ pat <+: x :: (l ++ rest) := by
        intro hlong
        have hlen := add_length_le_of_find hpat hfound
        exact hp (List.prefix_of_prefix_length_le hlong (List.prefix_append _ rest) (by omega))
      rw [List.cons_append, find_cons_of_not_start hnot, ih hj, Option.map_some]

/-- Nothing is found where the first element of the pattern is not. -/
theorem find_append_of_notMem (h : c ∉ m) (l : List α) :
    find (c :: pat) (m ++ l) = (find (c :: pat) l).map (· + m.length) := by
  induction m with
  | nil => exact (Option.map_id' ..).symm
  | cons x m ih =>
    rw [List.mem_cons, not_or] at h
    have hnot : ¬ c :: pat <+: x :: (m ++ l) := fun hp ↦ h.1 (List.cons_prefix_cons.1 hp).1
    rw [List.cons_append, find_cons_of_not_start hnot, ih h.2, Option.map_map]
    rfl

/-- The pattern behind what does not have its first element. -/
theorem find_append_append (h : c ∉ m) (rest : List α) :
    find (c :: pat) (m ++ (c :: pat ++ rest)) = some m.length := by
  rw [find_append_of_notMem h, find_of_start (List.prefix_append _ _), Option.map_some,
    Nat.zero_add]

theorem findFrom_append_left (pos : ℕ) (left : List α) (hpos : pos = left.length) :
    findFrom pat pos (left ++ l) = (find pat l).map (· + pos) := by
  rw [findFrom, hpos, List.drop_left]

theorem le_of_findFrom {pos : ℕ} (h : findFrom pat pos l = some i) : pos ≤ i := by
  obtain ⟨j, -, rfl⟩ := Option.map_eq_some_iff.1 h
  exact Nat.le_add_left pos j

/-- What stands behind the first place at or after `pos` is not looked at. -/
theorem findFrom_append {pos : ℕ} (hpat : pat ≠ []) (hle : pos ≤ i) (h : pat <+: l.drop i)
    (rest : List α) : findFrom pat pos (l ++ rest) = findFrom pat pos l := by
  have hat : pat <+: (l.drop pos).drop (i - pos) := by
    rw [List.drop_drop, Nat.add_sub_cancel' hle]
    exact h
  obtain ⟨j, hj⟩ := exists_find hat
  have hlen := add_length_le_of_find hpat hj
  have hpos := List.length_pos_iff.2 hpat
  rw [List.length_drop] at hlen
  rw [findFrom, findFrom, List.drop_append_of_le_length (by omega), hj, find_append hpat hj]

end Search
