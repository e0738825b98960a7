import Mathlib.Data.List.DropRight
import Mathlib.Tactic.Common

/-!
# Trimming

`List.trim p` takes the elements that satisfy `p` off both ends of a list.  What it does to a list
that is put together from pieces is said piece by piece: elements with `p` at an end do not count
(`trim_append_left`, `trim_append_right`), and an element without `p` keeps what stands between it
and the other end (`rdropWhile_append_cons`).
-/

set_option autoImplicit false

universe u

namespace Trim

variable {α : Type u} {p : α → Bool} {l ws : List α} {c : α}

/-- Take the elements with `p` off both ends. -/
def trim (p : α → Bool) (l : List α) : List α := (l.dropWhile p).rdropWhile p

theorem rdropWhile_append_of_all (h : ∀ x ∈ ws, p x = true) (l : List α) :
    (l ++ ws).rdropWhile p = l.rdropWhile p := by
  rw [List.rdropWhile, List.reverse_append, List.dropWhile_append_of_pos, List.rdropWhile]
  exact fun x hx ↦ h x (List.mem_reverse.1 hx)

/-- An element without `p` keeps what stands in front of it. -/
theorem rdropWhile_append_cons (h : p c = false) (l r : List α) :
    (l ++ c :: r).rdropWhile p = l ++ c :: r.rdropWhile p := by
  have hsplit : (l ++ c :: r).reverse = r.reverse ++ c :: l.reverse := by simp
  rw [List.rdropWhile, hsplit, List.dropWhile_append]
  split
  · next hnil =>
    rw [List.dropWhile_cons_of_neg (by simp [h]), List.rdropWhile, List.isEmpty_iff.1 hnil]
    simp
  · rw [List.rdropWhile]
    simp

theorem trim_append_left (h : ∀ x ∈ ws, p x = true) (l : List α) :
    trim p (ws ++ l) = trim p l := by
  rw [trim, List.dropWhile_append_of_pos h, trim]

theorem trim_append_right (h : ∀ x ∈ ws, p x = true) (l : List α) :
    trim p (l ++ ws) = trim p l := by
  rw [trim, List.dropWhile_append, trim]
  split
  · next hnil =>
    rw [List.isEmpty_iff.1 hnil, ← List.append_nil ws, List.dropWhile_append_of_pos h]
    rfl
  · exact rdropWhile_append_of_all h _

/-- What was taken off the right end is taken off anyway. -/
theorem trim_rdropWhile (l : List α) : trim p (l.rdropWhile p) = trim p l := by
  conv_rhs => rw [← List.rdropWhile_append_rtakeWhile (p := p) (l := l)]
  exact (trim_append_right (fun x hx ↦ List.mem_rtakeWhile_imp hx) _).symm

theorem trim_cons (h : p c = false) (l : List α) : trim p (c :: l) = c :: l.rdropWhile p := by
  rw [trim, List.dropWhile_cons_of_neg (by simp [h])]
  exact rdropWhile_append_cons h [] l

theorem trim_eq_nil (h : ∀ x ∈ l, p x = true) : trim p l = [] := by
  rw [← List.nil_append l, trim_append_right h]
  rfl

/-- The ends of a list that is trimmed do not satisfy `p`. -/
theorem head_of_trim (h : trim p (c :: l) = c :: l) : p c = false := by
  by_contra hc
  rw [Bool.not_eq_false] at hc
  have hlen := congrArg List.length h
  rw [trim, List.dropWhile_cons_of_pos hc] at hlen
  have hle := (List.rdropWhile_prefix p (l := l.dropWhile p)).length_le
  have hle' := (List.dropWhile_suffix p (l := l)).length_le
  rw [List.length_cons] at hlen
  omega

end Trim
