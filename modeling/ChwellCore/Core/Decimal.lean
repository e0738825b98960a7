import ChwellCore.Core.Bytes
import Mathlib.Data.List.TakeWhile
import Mathlib.Data.Nat.Digits.Lemmas

/-!
# Decimal numbers

`std::to_string` and `std::stoll`.  The latter skips white space, reads an optional sign and then as
many digits as there are, ignores whatever follows, and throws if there is no digit or if the number
does not fit in 64 bits.  `stoll_toDec` says that it reads back what the former wrote.

`std::atoi` reads in the same way and never throws: without a digit it is 0, and what it is for a
number that does not fit in an `int` is undefined in the source.
-/

set_option autoImplicit false

namespace ChwellCore

/-- The exceptions that the conversions of the standard library throw. -/
inductive StdError where
  | invalidArgument
  | outOfRange
deriving DecidableEq, Repr

/-- `std::to_string` of a number that is not negative. -/
def natToDec (n : ℕ) : Bytes :=
  if n = 0 then [48] else ((Nat.digits 10 n).map fun d ↦ UInt8.ofNat (48 + d)).reverse

/-- `std::to_string`. -/
def toDec (n : ℤ) : Bytes := if n < 0 then 45 :: natToDec n.natAbs else natToDec n.natAbs

/-- `isspace`. -/
def isSpace (c : UInt8) : Bool := c == 32 || (9 ≤ c && c ≤ 13)

/-- `isdigit`. -/
def isDigit (c : UInt8) : Bool := 48 ≤ c && c ≤ 57

/-- The number whose decimal digits, most significant first, are `ds`. -/
def digitsVal (ds : Bytes) : ℕ := ds.foldl (fun n d ↦ n * 10 + (d.toNat - 48)) 0

/-- Read digits with a given sign. -/
def stollDigits (neg : Bool) (s : Bytes) : Except StdError ℤ :=
  let ds := s.takeWhile isDigit
  if ds.isEmpty then .error .invalidArgument
  else
    let v : ℤ := if neg then -(digitsVal ds : ℤ) else (digitsVal ds : ℤ)
    if v < -2 ^ 63 ∨ 2 ^ 63 ≤ v then .error .outOfRange else .ok v

/-- `std::stoll`. -/
def stoll (s : Bytes) : Except StdError ℤ :=
  match s.dropWhile isSpace with
  | [] => .error .invalidArgument
  | c :: rest =>
    if c = 45 then stollDigits true rest
    else if c = 43 then stollDigits false rest
    else stollDigits false (c :: rest)

/-- `std::atoi`. -/
def atoi (s : Bytes) : ℤ :=
  match s.dropWhile isSpace with
  | [] => 0
  | c :: rest =>
    if c = 45 then -(digitsVal (rest.takeWhile isDigit) : ℤ)
    else if c = 43 then digitsVal (rest.takeWhile isDigit)
    else digitsVal ((c :: rest).takeWhile isDigit)

/-! ## Reading back what was written -/

theorem digit_toNat {d : ℕ} (h : d < 10) : (UInt8.ofNat (48 + d)).toNat = 48 + d := by
  rw [UInt8.toNat_ofNat']
  omega

theorem isDigit_digit {d : ℕ} (h : d < 10) : isDigit (UInt8.ofNat (48 + d)) = true := by
  simp only [isDigit, Bool.and_eq_true, decide_eq_true_eq, UInt8.le_iff_toNat_le, digit_toNat h]
  exact ⟨Nat.le_add_right 48 d, by show 48 + d ≤ 57; omega⟩

theorem isDigit_of_mem_natToDec {n : ℕ} {c : UInt8} (h : c ∈ natToDec n) : isDigit c = true := by
  rw [natToDec] at h
  split at h
  · rw [List.mem_singleton] at h
    rw [h]
    rfl
  · rw [List.mem_reverse, List.mem_map] at h
    obtain ⟨d, hd, rfl⟩ := h
    exact isDigit_digit (Nat.digits_lt_base (by decide) hd)

theorem natToDec_ne_nil (n : ℕ) : natToDec n ≠ [] := by
  rw [natToDec]
  split
  · simp
  · next h => simp [Nat.digits_ne_nil_iff_ne_zero.2 h]

theorem digitsVal_natToDec (n : ℕ) : digitsVal (natToDec n) = n := by
  rw [natToDec]
  split
  · next h => rw [h]; rfl
  · rw [digitsVal, List.foldl_reverse, List.foldr_map]
    conv_rhs => rw [← Nat.ofDigits_digits 10 n]
    have hlt : ∀ d ∈ Nat.digits 10 n, d < 10 := fun d hd ↦ Nat.digits_lt_base (by decide) hd
    revert hlt
    generalize Nat.digits 10 n = ds
    intro hlt
    induction ds with
    | nil => rfl
    | cons d ds ih =>
      rw [List.foldr_cons, ih fun e he ↦ hlt e (List.mem_cons_of_mem d he),
        digit_toNat (hlt d List.mem_cons_self), Nat.ofDigits_cons]
      simp
      omega

theorem stollDigits_natToDec (neg : Bool) (n : ℕ) :
    stollDigits neg (natToDec n) =
      let v : ℤ := if neg then -(n : ℤ) else (n : ℤ)
      if v < -2 ^ 63 ∨ 2 ^ 63 ≤ v then .error .outOfRange else .ok v := by
  have htake : (natToDec n).takeWhile isDigit = natToDec n :=
    List.takeWhile_eq_self_iff.2 fun c hc ↦ isDigit_of_mem_natToDec hc
  rw [stollDigits, htake]
  simp only [digitsVal_natToDec]
  rw [if_neg (by simpa using natToDec_ne_nil n)]

/-- A byte that is a digit is neither white space nor a sign. -/
theorem isDigit_not_space_sign {c : UInt8} (h : isDigit c = true) :
    isSpace c = false ∧ c ≠ 45 ∧ c ≠ 43 := by
  simp only [isDigit, Bool.and_eq_true, decide_eq_true_eq, UInt8.le_iff_toNat_le] at h
  have hlo : 48 ≤ c.toNat := h.1
  have hne : ∀ k : UInt8, k.toNat < 48 → c ≠ k := fun k hk he ↦ by
    rw [he] at hlo
    omega
  refine ⟨?_, hne 45 (by decide), hne 43 (by decide)⟩
  simp only [isSpace, Bool.or_eq_false_iff, beq_eq_false_iff_ne, Bool.and_eq_false_iff,
    decide_eq_false_iff_not, UInt8.le_iff_toNat_le]
  exact ⟨hne 32 (by decide), .inr (by show ¬ c.toNat ≤ 13; omega)⟩

/-- **`std::stoll` reads back what `std::to_string` wrote**, for every 64-bit number. -/
theorem stoll_toDec {n : ℤ} (hlo : -2 ^ 63 ≤ n) (hhi : n < 2 ^ 63) : stoll (toDec n) = .ok n := by
  rw [toDec]
  split
  · next hneg =>
    have hval : -((n.natAbs : ℕ) : ℤ) = n := by omega
    have hspace : isSpace 45 = false := rfl
    rw [stoll, List.dropWhile_cons, hspace]
    simp only [Bool.false_eq_true, if_false, if_true]
    rw [stollDigits_natToDec]
    simp only [if_true, hval]
    rw [if_neg (by omega)]
  · next hpos =>
    have hval : ((n.natAbs : ℕ) : ℤ) = n := by omega
    obtain ⟨c, rest, hc⟩ := List.exists_cons_of_ne_nil (natToDec_ne_nil n.natAbs)
    have hdigit : isDigit c = true := isDigit_of_mem_natToDec (hc ▸ List.mem_cons_self)
    obtain ⟨hspace, hminus, hplus⟩ := isDigit_not_space_sign hdigit
    rw [stoll, hc, List.dropWhile_cons, hspace]
    simp only [Bool.false_eq_true, if_false, hminus, hplus]
    rw [← hc, stollDigits_natToDec]
    simp only [Bool.false_eq_true, if_false, hval]
    rw [if_neg (by omega)]

/-- So does `std::atoi`. -/
theorem atoi_natToDec (n : ℕ) : atoi (natToDec n) = n := by
  obtain ⟨c, rest, hc⟩ := List.exists_cons_of_ne_nil (natToDec_ne_nil n)
  have hdigit : isDigit c = true := isDigit_of_mem_natToDec (hc ▸ List.mem_cons_self)
  obtain ⟨hspace, hminus, hplus⟩ := isDigit_not_space_sign hdigit
  have htake : (natToDec n).takeWhile isDigit = natToDec n :=
    List.takeWhile_eq_self_iff.2 fun c hc ↦ isDigit_of_mem_natToDec hc
  rw [atoi, hc, List.dropWhile_cons, hspace]
  simp only [Bool.false_eq_true, if_false, hminus, hplus]
  rw [← hc, htake, digitsVal_natToDec]

end ChwellCore
