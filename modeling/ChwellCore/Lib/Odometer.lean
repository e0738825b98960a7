import Mathlib.Algebra.Order.Ring.Nat
import Mathlib.Tactic.Ring

/-!
# Odometers

A row of hands that all go round the same number `S` of positions, where a hand moves on when the
one below it has come round.  `value S c L` is what the hands below `L` show, read as a number, and
`next S c` is the row after one more step.  Nothing here says how many hands there are: hand `L`
only ever depends on those below it.

What a program that hangs its work on the positions of the hands needs to know is *when* a hand will
leave a position.  `Leaves S c L s g` says that hand `L` leaves position `s` at the `g`-th step from
now; `Leaves.next` counts it down and `Leaves.one_iff` says what the row looks like just before.
Hands that all started at their first positions show how many steps there have been: hand `L` moves
at every step that is a multiple of `S ^ L` (`value_add_one_iff_dvd`).
-/

set_option autoImplicit false

namespace Odometer

variable (S : ℕ) (c : ℕ → ℕ)

/-- What the hands below `L` show. -/
def value : ℕ → ℕ
  | 0 => 0
  | L + 1 => value L + c L * S ^ L

/-- Where a hand is after one more step. -/
def next (L : ℕ) : ℕ := if value S c L + 1 = S ^ L then (c L + 1) % S else c L

/-- Hand `L` leaves position `s` at the `g`-th step from now. -/
def Leaves (L s g : ℕ) : Prop := ∃ k < S, s = (c L + k) % S ∧ g + value S c L = (k + 1) * S ^ L

variable {S c} {L s g : ℕ}

/-- Only the hands below count. -/
theorem value_congr {c' : ℕ → ℕ} (h : ∀ k < L, c k = c' k) : value S c L = value S c' L := by
  induction L with
  | zero => rfl
  | succ L ih => rw [value, value, ih fun k hk ↦ h k (by omega), h L (by omega)]

/-- The hands show nothing when they all stand at their first position. -/
theorem value_eq_zero_iff (hS : 0 < S) : value S c L = 0 ↔ ∀ k < L, c k = 0 := by
  induction L with
  | zero => exact ⟨fun _ k hk ↦ absurd hk (Nat.not_lt_zero k), fun _ ↦ rfl⟩
  | succ L ih =>
    have htop : c L * S ^ L = 0 ↔ c L = 0 := by
      rw [Nat.mul_eq_zero, or_iff_left (Nat.pow_pos hS).ne']
    rw [value, Nat.add_eq_zero_iff, ih, htop]
    constructor
    · rintro ⟨hlow, hL⟩ k hk
      rcases Nat.lt_succ_iff_lt_or_eq.1 hk with hlt | rfl
      · exact hlow k hlt
      · exact hL
    · exact fun h ↦ ⟨fun k hk ↦ h k (by omega), h L (by omega)⟩

theorem value_lt (hc : ∀ k < L, c k < S) : value S c L < S ^ L := by
  induction L with
  | zero => exact Nat.one_pos
  | succ L ih =>
    have hlow := ih fun k hk ↦ hc k (by omega)
    calc value S c L + c L * S ^ L < S ^ L + c L * S ^ L := by omega
      _ = (c L + 1) * S ^ L := by ring
      _ ≤ S * S ^ L := Nat.mul_le_mul_right _ (hc L (by omega))
      _ = S ^ (L + 1) := by ring

/-- **One step adds one**, or brings the hands below `L` back to their first position. -/
theorem value_next (hc : ∀ k < L, c k < S) :
    value S (next S c) L = if value S c L + 1 = S ^ L then 0 else value S c L + 1 := by
  induction L with
  | zero => rfl
  | succ L ih =>
    have hlow := value_lt fun k hk ↦ hc k (Nat.lt_succ_of_lt hk)
    have hL := hc L (by omega)
    have hle : (c L + 1) * S ^ L ≤ S * S ^ L := Nat.mul_le_mul_right _ hL
    have hpow : S ^ (L + 1) = S * S ^ L := by ring
    have hsucc : (c L + 1) * S ^ L = c L * S ^ L + S ^ L := by ring
    rw [value, value, ih fun k hk ↦ hc k (by omega), next, hpow]
    split
    · next hwrap =>
      rcases Nat.lt_or_ge (c L + 1) S with hlt | hge
      · have : (c L + 1 + 1) * S ^ L ≤ S * S ^ L := Nat.mul_le_mul_right _ hlt
        have hsucc' : (c L + 1 + 1) * S ^ L = (c L + 1) * S ^ L + S ^ L := by ring
        have hpos : 0 < S ^ L := by omega
        rw [Nat.mod_eq_of_lt hlt, if_neg (by omega)]
        omega
      · have heq : c L + 1 = S := by omega
        rw [heq] at hsucc ⊢
        rw [Nat.mod_self, if_pos (by omega)]
        omega
    · rw [if_neg (by omega)]
      omega

theorem value_of_next {c' : ℕ → ℕ} (hc : ∀ k < L, c k < S) (h : ∀ k < L, c' k = next S c k) :
    value S c' L = if value S c L + 1 = S ^ L then 0 else value S c L + 1 := by
  rw [← value_next hc, value_congr h]

/-- **A hand moves** when those below it come round. -/
theorem value_add_one_iff (hS : 0 < S) (hc : ∀ k < L, c k < S) :
    value S c L + 1 = S ^ L ↔ ∀ k < L, next S c k = 0 := by
  rw [← value_eq_zero_iff hS, value_next hc]
  split
  · next hround => exact iff_of_true hround rfl
  · next hround => exact iff_of_false hround (Nat.succ_ne_zero _)

/-! ## Steps from the first positions

Hands that started at their first positions show the number of their steps. -/

theorem value_add_one_iff_dvd {n : ℕ} (hS : 0 < S) (h : value S c L = n % S ^ L) :
    value S c L + 1 = S ^ L ↔ S ^ L ∣ n + 1 := by
  have hlt := Nat.mod_lt n (Nat.pow_pos (n := L) hS)
  rw [Nat.dvd_iff_mod_eq_zero, ← Nat.mod_add_mod, ← h]
  rw [← h] at hlt
  constructor
  · intro hround
    rw [hround, Nat.mod_self]
  · intro hzero
    by_contra hround
    rw [Nat.mod_eq_of_lt (by omega)] at hzero
    exact Nat.succ_ne_zero _ hzero

theorem value_next_eq_mod {n : ℕ} (hS : 0 < S) (hc : ∀ k < L, c k < S)
    (h : value S c L = n % S ^ L) : value S (next S c) L = (n + 1) % S ^ L := by
  have hlt := Nat.mod_lt n (Nat.pow_pos (n := L) hS)
  rw [value_next hc, ← Nat.mod_add_mod, ← h]
  rw [← h] at hlt
  split
  · next hround => rw [hround, Nat.mod_self]
  · next hround => rw [Nat.mod_eq_of_lt (by omega)]

/-- Where a hand stands after so many steps. -/
theorem hand_eq {n : ℕ} (hS : 0 < S) (h : value S c L = n % S ^ L)
    (hsucc : value S c (L + 1) = n % S ^ (L + 1)) : c L = n / S ^ L % S := by
  rw [value, h, Nat.pow_succ, Nat.mod_mul] at hsucc
  have hmul : c L * S ^ L = S ^ L * (n / S ^ L % S) := Nat.add_left_cancel hsucc
  rw [Nat.mul_comm] at hmul
  exact Nat.eq_of_mul_eq_mul_left (Nat.pow_pos hS) hmul

/-- A hand that will pass `k` more positions before it leaves. -/
theorem leaves_of_add {k : ℕ} (hk : k < S) (hg : g + value S c L = (k + 1) * S ^ L) :
    Leaves S c L ((c L + k) % S) g := ⟨k, hk, rfl, hg⟩

theorem Leaves.congr {c' : ℕ → ℕ} (h : ∀ k ≤ L, c k = c' k) (hleaves : Leaves S c L s g) :
    Leaves S c' L s g := by
  obtain ⟨k, hk, hs, hg⟩ := hleaves
  refine ⟨k, hk, ?_, ?_⟩
  · rw [← h L le_rfl, hs]
  · rw [← value_congr fun j hj ↦ h j (Nat.le_of_lt hj), hg]

theorem Leaves.pos (hc : ∀ k < L, c k < S) (h : Leaves S c L s g) : 0 < g := by
  obtain ⟨k, -, -, hg⟩ := h
  have hlow := value_lt hc
  have : 1 * S ^ L ≤ (k + 1) * S ^ L := Nat.mul_le_mul_right _ (by omega)
  omega

/-- A hand is about to leave a position when it stands there and the hands below are at their last
one. -/
theorem Leaves.one_iff (hc : ∀ k ≤ L, c k < S) :
    Leaves S c L s 1 ↔ s = c L ∧ value S c L + 1 = S ^ L := by
  constructor
  · rintro ⟨k, -, hs, hg⟩
    have hlow := value_lt fun k hk ↦ hc k (Nat.le_of_lt hk)
    rcases k with _ | k
    · refine ⟨?_, by omega⟩
      rw [hs, Nat.add_zero, Nat.mod_eq_of_lt (hc L le_rfl)]
    · have : 2 * S ^ L ≤ (k + 1 + 1) * S ^ L := Nat.mul_le_mul_right _ (by omega)
      omega
  · rintro ⟨hs, hg⟩
    refine ⟨0, Nat.zero_lt_of_lt (hc L le_rfl), ?_, by omega⟩
    rw [Nat.add_zero, Nat.mod_eq_of_lt (hc L le_rfl), hs]

/-- A hand is back at its position only after a whole turn. -/
theorem add_mod_eq_self_iff {a k : ℕ} (ha : a < S) (hk : k < S) : (a + k) % S = a ↔ k = 0 := by
  constructor
  · intro h
    rcases Nat.lt_or_ge (a + k) S with hin | hover
    · rw [Nat.mod_eq_of_lt hin] at h
      omega
    · rw [Nat.mod_eq_sub_mod hover, Nat.mod_eq_of_lt (by omega)] at h
      omega
  · rintro rfl
    rw [Nat.add_zero, Nat.mod_eq_of_lt ha]

/-- A hand that stands at a position, with the hands below at their last one, leaves it now. -/
theorem Leaves.eq_one (hc : c L < S) (h : Leaves S c L (c L) g) (hlast : value S c L + 1 = S ^ L) :
    g = 1 := by
  obtain ⟨k, hk, hs, hg⟩ := h
  obtain rfl := (add_mod_eq_self_iff hc hk).1 hs.symm
  omega

/-- **The countdown**: until it leaves, a hand is one step closer to leaving after each step. -/
theorem Leaves.next (hc : ∀ k < L, c k < S) (hg : 0 < g) (h : Leaves S c L s (g + 1)) :
    Leaves S (Odometer.next S c) L s g := by
  obtain ⟨k, hk, hs, hsum⟩ := h
  have hval := value_next hc
  have hsucc : (k + 1) * S ^ L = k * S ^ L + S ^ L := by ring
  split at hval
  · next hwrap =>
    rcases k with _ | k
    · omega
    · refine ⟨k, by omega, ?_, by omega⟩
      rw [Odometer.next, if_pos hwrap, Nat.mod_add_mod, hs]
      congr 1
      omega
  · next hwrap =>
    refine ⟨k, hk, ?_, by omega⟩
    rw [Odometer.next, if_neg hwrap, hs]

end Odometer
