import Mathlib.Algebra.BigOperators.Ring.Finset
import Mathlib.Algebra.Order.BigOperators.Group.Finset
import Mathlib.Tactic.Linarith
import Mathlib.Tactic.Ring
import ChwellCore.Lib.Run

/-!
# Smooth weighted round robin

Each of finitely many candidates has a weight and a *current* weight.  In a round every current
weight grows by the weight, a candidate whose current weight is then largest is picked, and its
current weight is reduced by the sum of all weights.  Which of several largest ones is picked is
left open.

The current weights always have sum zero, and none falls as low as minus the sum of the weights
(`Balanced`).  What a candidate's current weight is after some rounds tells how often it was picked
(`current_eq`), and so the two facts leave no choice after as many rounds as the weights add up to:
then every candidate was picked just as often as its weight says (`count_eq`).
-/

set_option autoImplicit false

universe u

namespace SmoothWeights

variable {ι : Type u} {s : Finset ι} {w c c' : ι → ℤ} {b : ι} {bs : List ι}

/-- The current weights of candidates with these weights. -/
structure Balanced (s : Finset ι) (w c : ι → ℤ) : Prop where
  sum_eq_zero : ∑ i ∈ s, c i = 0
  lt : ∀ i ∈ s, -∑ j ∈ s, w j < c i

theorem balanced_of_zero (hpos : 0 < ∑ i ∈ s, w i) (hc : ∀ i ∈ s, c i = 0) : Balanced s w c := by
  refine ⟨Finset.sum_eq_zero hc, fun i hi ↦ ?_⟩
  rw [hc i hi]
  omega

variable [DecidableEq ι]

/-- A round in which `b` is picked leads from the current weights `c` to `c'`. -/
structure Round (s : Finset ι) (w c : ι → ℤ) (b : ι) (c' : ι → ℤ) : Prop where
  mem : b ∈ s
  largest : ∀ i ∈ s, c i + w i ≤ c b + w b
  next : ∀ i ∈ s, c' i = c i + w i - if i = b then ∑ j ∈ s, w j else 0

/-- Rounds, labelled by what is picked. -/
def rounds (s : Finset ι) (w : ι → ℤ) : System (ι → ℤ) ι := ⟨Round s w⟩

/-- The sum of the current weights does not change in a round. -/
theorem Round.sum_eq (h : Round s w c b c') : ∑ i ∈ s, c' i = ∑ i ∈ s, c i := by
  rw [Finset.sum_congr rfl h.next, Finset.sum_sub_distrib, Finset.sum_add_distrib,
    Finset.sum_ite_eq' s b, if_pos h.mem]
  omega

/-- What is picked has a positive current weight before it is reduced. -/
theorem Round.pos (h : Round s w c b c') (hpos : 0 < ∑ i ∈ s, w i) (hsum : ∑ i ∈ s, c i = 0) :
    0 < c b + w b := by
  by_contra hnot
  have hle : ∑ i ∈ s, (c i + w i) ≤ 0 :=
    Finset.sum_nonpos fun i hi ↦ (h.largest i hi).trans (Int.not_lt.1 hnot)
  rw [Finset.sum_add_distrib, hsum] at hle
  omega

/-- **One round** keeps the current weights balanced. -/
theorem Balanced.round (hw : ∀ i ∈ s, 0 ≤ w i) (hpos : 0 < ∑ i ∈ s, w i) (hc : Balanced s w c)
    (h : Round s w c b c') : Balanced s w c' := by
  refine ⟨h.sum_eq.trans hc.sum_eq_zero, fun i hi ↦ ?_⟩
  have hnext := h.next i hi
  split at hnext
  · next heq =>
    have hbest := h.pos hpos hc.sum_eq_zero
    rw [heq] at hnext ⊢
    omega
  · have hlt := hc.lt i hi
    have hnonneg := hw i hi
    omega

theorem Balanced.run (hw : ∀ i ∈ s, 0 ≤ w i) (hpos : 0 < ∑ i ∈ s, w i) (hc : Balanced s w c)
    (hrun : (rounds s w).Run c bs c') : Balanced s w c' :=
  hrun.invariant (fun _ _ _ hc h ↦ hc.round hw hpos h) hc

/-- **How often a candidate was picked** shows in its current weight. -/
theorem current_eq [BEq ι] [LawfulBEq ι] (hrun : (rounds s w).Run c bs c') :
    ∀ i ∈ s, c' i = c i + bs.length * w i - bs.count i * ∑ j ∈ s, w j := by
  induction hrun with
  | nil => simp
  | @snoc bs t u b _ hlast ih =>
    intro i hi
    have hround : Round s w t b u := hlast
    rw [hround.next i hi, ih i hi, List.length_append, List.length_singleton, List.count_append,
      List.count_singleton]
    by_cases heq : i = b
    · rw [if_pos heq, if_pos (beq_iff_eq.2 heq.symm)]
      push_cast
      ring
    · rw [if_neg heq, if_neg (mt (fun h ↦ (beq_iff_eq.1 h).symm) heq)]
      push_cast
      ring

/-- **A period is exact.**  After as many rounds as the weights add up to, starting with current
weights that are all zero, every candidate was picked as often as its weight says, and the current
weights are all zero again. -/
theorem count_eq [BEq ι] [LawfulBEq ι] (hw : ∀ i ∈ s, 0 ≤ w i) (hpos : 0 < ∑ i ∈ s, w i)
    (hc : ∀ i ∈ s, c i = 0) (hrun : (rounds s w).Run c bs c')
    (hlen : (bs.length : ℤ) = ∑ i ∈ s, w i) :
    ∀ i ∈ s, (bs.count i : ℤ) = w i ∧ c' i = 0 := by
  have hbalanced := (balanced_of_zero hpos hc).run hw hpos hrun
  have heq : ∀ i ∈ s, c' i = (∑ j ∈ s, w j) * (w i - bs.count i) := by
    intro i hi
    rw [current_eq hrun i hi, hc i hi, hlen]
    ring
  -- nobody was picked too often, and so nobody too seldom
  have hle : ∀ i ∈ s, 0 ≤ w i - bs.count i := by
    intro i hi
    have hlt := hbalanced.lt i hi
    rw [heq i hi] at hlt
    by_contra hneg
    nlinarith
  have hsum : ∑ i ∈ s, (w i - bs.count i) = 0 := by
    have hzero := hbalanced.sum_eq_zero
    rw [Finset.sum_congr rfl heq, ← Finset.mul_sum] at hzero
    exact (mul_eq_zero.1 hzero).resolve_left hpos.ne'
  intro i hi
  have hzero := (Finset.sum_eq_zero_iff_of_nonneg hle).1 hsum i hi
  refine ⟨by omega, ?_⟩
  rw [heq i hi, hzero, mul_zero]

end SmoothWeights
