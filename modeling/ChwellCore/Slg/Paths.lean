import ChwellCore.Lib.Descent
import ChwellCore.Slg.Map

/-!
# Paths on the map

`find_path` looks at nothing but the two ends: it goes along the x axis until it is in the right
column, and then along the y axis.  The signs of the two directions are worked out once, before the
loop, so that the loop ends at all rests on the cell never going past the destination.

Every step of it comes one closer in the sum of the two distances, so it is a `Descent`, and what
there is to say about the path follows from that (`findPath_spec`).
-/

set_option autoImplicit false

namespace ChwellCore
namespace Slg

/-- `dx` and `dy` in `find_path`. -/
def direction (a b : ℤ) : ℤ := if b > a then 1 else if b < a then -1 else 0

/-- The loop of `find_path` and what follows it; `none` if it has not ended after so many rounds. -/
def walk (toX toY dx dy : ℤ) (fuel : ℕ) (x y : ℤ) : Option (List (ℤ × ℤ)) :=
  if x ≠ toX ∨ y ≠ toY then
    match fuel with
    | 0 => none
    | fuel + 1 =>
      if x ≠ toX then (walk toX toY dx dy fuel (x + dx) y).map ((x, y) :: ·)
      else (walk toX toY dx dy fuel x (y + dy)).map ((x, y) :: ·)
  else some [(toX, toY)]

/-- `find_path`. -/
def SlgMapManager.findPath (m : SlgMapManager) (fuel : ℕ) (fromX fromY toX toY : ℤ) :
    Option (List (ℤ × ℤ)) :=
  if ¬ m.isValidPos fromX fromY ∨ ¬ m.isValidPos toX toY then some []
  else walk toX toY (direction fromX toX) (direction fromY toY) fuel fromX fromY

/-! ## The walk -/

/-- The cells are one apart, along one of the axes. -/
def Adjacent (p q : ℤ × ℤ) : Prop :=
  ((q.1 - p.1).natAbs = 1 ∧ q.2 = p.2) ∨ (q.1 = p.1 ∧ (q.2 - p.2).natAbs = 1)

/-- The sum of the distances along the two axes. -/
def manhattan (q p : ℤ × ℤ) : ℕ := (q.1 - p.1).natAbs + (q.2 - p.2).natAbs

theorem manhattan_le_of_adjacent (q : ℤ × ℤ) {p p' : ℤ × ℤ} (h : Adjacent p p') :
    manhattan q p ≤ manhattan q p' + 1 := by
  rw [Adjacent] at h
  simp only [manhattan]
  omega

/-- Where the x axis is done with, the direction along it does not matter any more. -/
theorem direction_step {a b : ℤ} (h : a ≠ b) :
    (b - a).natAbs = (b - (a + direction a b)).natAbs + 1 ∧ (direction a b).natAbs = 1 ∧
      (a + direction a b ≠ b → direction (a + direction a b) b = direction a b) := by
  simp only [direction]
  grind

@[simp] theorem walk_self (toX toY dx dy : ℤ) (fuel : ℕ) :
    walk toX toY dx dy fuel toX toY = some [(toX, toY)] := by
  rw [walk.eq_def, if_neg (by simp)]

/-- **The loop ends**, after as many rounds as the ends are apart, and comes one closer in each. -/
theorem exists_walk {toX toY dx dy : ℤ} {fuel : ℕ} {x y : ℤ}
    (hx : x ≠ toX → dx = direction x toX) (hy : y ≠ toY → dy = direction y toY)
    (hfuel : manhattan (toX, toY) (x, y) ≤ fuel) :
    ∃ path, (∀ more, walk toX toY dx dy (fuel + more) x y = some path) ∧
      Descent Adjacent (manhattan (toX, toY)) (toX, toY) (x, y) path := by
  induction fuel generalizing x y with
  | zero =>
    obtain ⟨rfl, rfl⟩ : x = toX ∧ y = toY := by
      simp only [manhattan] at hfuel
      omega
    exact ⟨_, fun more ↦ walk_self _ _ _ _ _, .done⟩
  | succ fuel ih =>
    by_cases hxe : x = toX
    · subst hxe
      by_cases hye : y = toY
      · subst hye
        exact ⟨_, fun more ↦ walk_self _ _ _ _ _, .done⟩
      · obtain ⟨hcloser, hone, hsame⟩ := direction_step hye
        obtain rfl := hy hye
        have hgap : manhattan (x, toY) (x, y) =
            manhattan (x, toY) (x, y + direction y toY) + 1 := by
          simp only [manhattan]
          omega
        obtain ⟨path, hpath, hdescent⟩ := ih hx (fun h ↦ (hsame h).symm) (by omega)
        have hadj : Adjacent (x, y) (x, y + direction y toY) :=
          .inr ⟨rfl, by rwa [add_sub_cancel_left]⟩
        refine ⟨(x, y) :: path, fun more ↦ ?_, .step hadj hgap hdescent⟩
        rw [Nat.succ_add, walk, if_pos (.inr hye), if_neg (not_not_intro rfl), hpath]
        rfl
    · obtain ⟨hcloser, hone, hsame⟩ := direction_step hxe
      obtain rfl := hx hxe
      have hgap : manhattan (toX, toY) (x, y) =
          manhattan (toX, toY) (x + direction x toX, y) + 1 := by
        simp only [manhattan]
        omega
      obtain ⟨path, hpath, hdescent⟩ := ih (fun h ↦ (hsame h).symm) hy (by omega)
      have hadj : Adjacent (x, y) (x + direction x toX, y) :=
        .inl ⟨by rwa [add_sub_cancel_left], rfl⟩
      refine ⟨(x, y) :: path, fun more ↦ ?_, .step hadj hgap hdescent⟩
      rw [Nat.succ_add, walk, if_pos (.inl hxe), if_pos hxe, hpath]
      rfl

namespace SlgMapManager

variable {m : SlgMapManager}

/-- A cell between two cells of the map is one of the map. -/
theorem isValidPos_of_closer {q p p' : ℤ × ℤ} (hq : m.isValidPos q.1 q.2)
    (hp : m.isValidPos p.1 p.2) (hadj : Adjacent p p')
    (hcloser : manhattan q p = manhattan q p' + 1) : m.isValidPos p'.1 p'.2 := by
  simp only [isValidPos] at *
  simp only [Adjacent, manhattan] at hadj hcloser
  omega

/-- What a path from `p` to `q` is. -/
structure IsPath (m : SlgMapManager) (p q : ℤ × ℤ) (path : List (ℤ × ℤ)) : Prop where
  starts : path.head? = some p
  ends : path.getLast? = some q
  steps : path.IsChain Adjacent
  inside : ∀ r ∈ path, m.isValidPos r.1 r.2
  nodup : path.Nodup
  length : path.length = (q.1 - p.1).natAbs + (q.2 - p.2).natAbs + 1

theorem isPath_of_descent {p q : ℤ × ℤ} {path : List (ℤ × ℤ)} (hp : m.isValidPos p.1 p.2)
    (hq : m.isValidPos q.1 q.2) (h : Descent Adjacent (manhattan q) q p path) :
    m.IsPath p q path where
  starts := h.head?_eq
  ends := h.getLast?_eq
  steps := h.isChain
  inside := h.forall_mem (P := fun r ↦ m.isValidPos r.1 r.2)
    (fun _ _ hr ↦ isValidPos_of_closer hq hr) hp
  nodup := h.nodup
  length := by
    have hself : manhattan q q = 0 := by simp [manhattan]
    have hlength := h.length_eq
    rw [hself] at hlength
    exact hlength

/-- **`find_path` ends, and finds a path.**  It returns the empty path just when one of the ends is
not on the map. -/
theorem findPath_spec (m : SlgMapManager) (fromX fromY toX toY : ℤ) :
    ∃ path,
      (∀ fuel, (toX - fromX).natAbs + (toY - fromY).natAbs ≤ fuel →
        m.findPath fuel fromX fromY toX toY = some path) ∧
      (path = [] ↔ ¬ m.isValidPos fromX fromY ∨ ¬ m.isValidPos toX toY) ∧
      (m.isValidPos fromX fromY → m.isValidPos toX toY →
        m.IsPath (fromX, fromY) (toX, toY) path) := by
  simp only [findPath]
  by_cases hvalid : ¬ m.isValidPos fromX fromY ∨ ¬ m.isValidPos toX toY
  · refine ⟨[], fun _ _ ↦ if_pos hvalid, iff_of_true rfl hvalid, fun hfrom hto ↦ ?_⟩
    rcases hvalid with hnot | hnot
    · exact absurd hfrom hnot
    · exact absurd hto hnot
  · obtain ⟨path, hpath, hdescent⟩ :=
      @exists_walk toX toY (direction fromX toX) (direction fromY toY) _ fromX fromY (fun _ ↦ rfl)
        (fun _ ↦ rfl) le_rfl
    refine ⟨path, fun fuel hfuel ↦ ?_, iff_of_false ?_ hvalid, fun hfrom hto ↦ ?_⟩
    · obtain ⟨more, rfl⟩ := Nat.exists_eq_add_of_le hfuel
      rw [if_neg hvalid]
      exact hpath more
    · rintro rfl
      exact absurd hdescent.head?_eq nofun
    · exact isPath_of_descent hfrom hto hdescent

/-- No way from one cell to another is shorter. -/
theorem IsPath.length_le {p q : ℤ × ℤ} {path path' : List (ℤ × ℤ)} (h : m.IsPath p q path)
    (hsteps : path'.IsChain Adjacent) (hstarts : path'.head? = some p)
    (hends : path'.getLast? = some q) : path.length ≤ path'.length := by
  have hself : manhattan q q = 0 := by simp [manhattan]
  have hle := dist_le_length (fun _ _ h ↦ manhattan_le_of_adjacent q h) hsteps hstarts hends
  rw [hself] at hle
  exact h.length.trans_le hle

end SlgMapManager
end Slg
end ChwellCore
