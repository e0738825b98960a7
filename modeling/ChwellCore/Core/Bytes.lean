import Mathlib.Data.List.Basic
import Mathlib.Order.Defs.LinearOrder
import Mathlib.Tactic.Common

/-!
# Bytes, and integers in network order

A `std::vector<char>` and a `std::string` are both sequences of bytes here, `List UInt8`: nothing in
the code depends on how either of them allocates.

The wire formats read and write integers by `memcpy` and `ntohs` / `htons` (`core/endian.h`).  On
every host that pair of steps is "most significant byte first", so it is modelled as one operation:
`netToHost16 buf off` is the `memcpy` of two bytes at `off` followed by `ntohs`, and `hostToNet16 v`
is the two bytes that `htons` followed by a `memcpy` out leaves in a buffer.  The 32-bit pair is
alike.
-/

set_option autoImplicit false

namespace ChwellCore

/-- `std::string` and `std::vector<char>`: a sequence of bytes. -/
abbrev Bytes := List UInt8

instance lawfulBEqBytes : LawfulBEq Bytes := inferInstance

/-- The bytes of an ASCII literal of the source. -/
def lit (s : String) : Bytes := s.toList.map fun c ↦ UInt8.ofNat c.toNat

/-- The 16-bit integer whose network order bytes are `hi`, `lo`. -/
def be16 (hi lo : UInt8) : UInt16 := UInt16.ofNat (hi.toNat * 256 + lo.toNat)

@[simp] theorem be16_toNat (hi lo : UInt8) : (be16 hi lo).toNat = hi.toNat * 256 + lo.toNat := by
  have h1 := hi.toNat_lt
  have h2 := lo.toNat_lt
  rw [be16, UInt16.toNat_ofNat']
  omega

/-- Copy two bytes out of `buf` at `off` and convert them to host order. -/
def netToHost16 (buf : Bytes) (off : ℕ) : UInt16 := be16 (buf.getD off 0) (buf.getD (off + 1) 0)

/-- The two bytes of `v` in network order. -/
def hostToNet16 (v : UInt16) : Bytes := [UInt8.ofNat (v.toNat / 256), UInt8.ofNat (v.toNat % 256)]

@[simp] theorem length_hostToNet16 (v : UInt16) : (hostToNet16 v).length = 2 := rfl

theorem netToHost16_cons_cons (hi lo : UInt8) (rest : Bytes) :
    netToHost16 (hi :: lo :: rest) 0 = be16 hi lo := rfl

/-- Reading at `off` is reading the front of what is left after dropping `off` bytes. -/
theorem netToHost16_drop (buf : Bytes) (off k : ℕ) :
    netToHost16 (buf.drop off) k = netToHost16 buf (off + k) := by
  simp [netToHost16, List.getD_eq_getElem?_getD, Nat.add_assoc]

/-- What follows the two bytes is not read. -/
theorem netToHost16_append {buf : Bytes} {off : ℕ} (h : off + 2 ≤ buf.length) (rest : Bytes) :
    netToHost16 (buf ++ rest) off = netToHost16 buf off := by
  simp only [netToHost16, List.getD_eq_getElem?_getD]
  rw [List.getElem?_append_left (by omega), List.getElem?_append_left (by omega)]

@[simp] theorem netToHost16_hostToNet16 (v : UInt16) (rest : Bytes) :
    netToHost16 (hostToNet16 v ++ rest) 0 = v := by
  have hv := v.toNat_lt
  rw [hostToNet16, List.cons_append, List.cons_append, netToHost16_cons_cons]
  apply UInt16.toNat_inj.1
  rw [be16_toNat, UInt8.toNat_ofNat', UInt8.toNat_ofNat']
  omega

/-- The 32-bit integer whose network order bytes are `a`, `b`, `c`, `d`. -/
def be32 (a b c d : UInt8) : UInt32 :=
  UInt32.ofNat (((a.toNat * 256 + b.toNat) * 256 + c.toNat) * 256 + d.toNat)

/-- Copy four bytes out of `buf` at `off` and convert them to host order. -/
def netToHost32 (buf : Bytes) (off : ℕ) : UInt32 :=
  be32 (buf.getD off 0) (buf.getD (off + 1) 0) (buf.getD (off + 2) 0) (buf.getD (off + 3) 0)

/-- The four bytes of `v` in network order. -/
def hostToNet32 (v : UInt32) : Bytes :=
  [UInt8.ofNat (v.toNat / 16777216), UInt8.ofNat (v.toNat / 65536 % 256),
    UInt8.ofNat (v.toNat / 256 % 256), UInt8.ofNat (v.toNat % 256)]

@[simp] theorem be32_toNat (a b c d : UInt8) :
    (be32 a b c d).toNat = ((a.toNat * 256 + b.toNat) * 256 + c.toNat) * 256 + d.toNat := by
  have ha := a.toNat_lt
  have hb := b.toNat_lt
  have hc := c.toNat_lt
  have hd := d.toNat_lt
  rw [be32, UInt32.toNat_ofNat']
  omega

theorem hostToNet32_be32 (a b c d : UInt8) : hostToNet32 (be32 a b c d) = [a, b, c, d] := by
  have ha := a.toNat_lt
  have hb := b.toNat_lt
  have hc := c.toNat_lt
  have hd := d.toNat_lt
  have hbyte : ∀ (n : ℕ) (x : UInt8), n = x.toNat → UInt8.ofNat n = x := by
    rintro n x rfl
    exact UInt8.ofNat_toNat
  rw [hostToNet32, be32_toNat]
  congr 1
  · exact hbyte _ a (by omega)
  · congr 1
    · exact hbyte _ b (by omega)
    · congr 1
      · exact hbyte _ c (by omega)
      · congr 1
        exact hbyte _ d (by omega)

@[simp] theorem length_hostToNet32 (v : UInt32) : (hostToNet32 v).length = 4 := rfl

theorem netToHost32_drop (buf : Bytes) (off k : ℕ) :
    netToHost32 (buf.drop off) k = netToHost32 buf (off + k) := by
  simp [netToHost32, List.getD_eq_getElem?_getD, Nat.add_assoc]

/-- What follows the four bytes is not read. -/
theorem netToHost32_append {buf : Bytes} {off : ℕ} (h : off + 4 ≤ buf.length) (rest : Bytes) :
    netToHost32 (buf ++ rest) off = netToHost32 buf off := by
  simp only [netToHost32, List.getD_eq_getElem?_getD]
  rw [List.getElem?_append_left (by omega), List.getElem?_append_left (by omega),
    List.getElem?_append_left (by omega), List.getElem?_append_left (by omega)]

@[simp] theorem netToHost32_hostToNet32 (v : UInt32) (rest : Bytes) :
    netToHost32 (hostToNet32 v ++ rest) 0 = v := by
  have hv := v.toNat_lt
  apply UInt32.toNat_inj.1
  show (be32 _ _ _ _).toNat = v.toNat
  rw [be32_toNat]
  simp only [hostToNet32, List.cons_append, List.getD_cons_zero, List.getD_cons_succ,
    UInt8.toNat_ofNat']
  omega

/-! ## Strings with a length -/

/-- A string with its length in front, narrowed to 16 bits. -/
def encodeLen16 (str : Bytes) : Bytes := hostToNet16 (UInt16.ofNat str.length) ++ str

/-- The string with its length in front that stands at `offset`, if it is complete, and the offset
behind it. -/
def decodeLen16 (data : Bytes) (offset : ℕ) : Option (Bytes × ℕ) :=
  if offset + 2 > data.length then none
  else
    let len := (netToHost16 data offset).toNat
    if offset + 2 + len > data.length then none
    else some ((data.drop (offset + 2)).take len, offset + 2 + len)

@[simp] theorem length_encodeLen16 (str : Bytes) : (encodeLen16 str).length = 2 + str.length := by
  rw [encodeLen16, List.length_append, length_hostToNet16]

/-- What was written is read, wherever it stands. -/
theorem decodeLen16_encodeLen16 (left : Bytes) {str : Bytes} (h : str.length ≤ 65535)
    (right : Bytes) : decodeLen16 (left ++ (encodeLen16 str ++ right)) left.length =
      some (str, left.length + (2 + str.length)) := by
  have hlen : (left ++ (encodeLen16 str ++ right)).length =
      left.length + (2 + str.length + right.length) := by
    rw [List.length_append, List.length_append, length_encodeLen16]
  have hread : (netToHost16 (left ++ (encodeLen16 str ++ right)) left.length).toNat =
      str.length := by
    have hdrop := netToHost16_drop (left ++ (encodeLen16 str ++ right)) left.length 0
    rw [List.drop_left, encodeLen16, List.append_assoc, netToHost16_hostToNet16, Nat.add_zero]
      at hdrop
    rw [encodeLen16, List.append_assoc, ← hdrop, UInt16.toNat_ofNat']
    omega
  have hbody : ((left ++ (encodeLen16 str ++ right)).drop (left.length + 2)).take str.length =
      str := by
    rw [← List.drop_drop, List.drop_left, encodeLen16, List.append_assoc,
      List.drop_left' (length_hostToNet16 _), List.take_left]
  simp only [decodeLen16, hread, hbody]
  rw [if_neg (by omega), if_neg (by omega), Nat.add_assoc]

/-- 32-bit integers in their usual order. -/
instance linearOrderUInt32 : LinearOrder UInt32 where
  le_refl := UInt32.le_refl
  le_trans _ _ _ := UInt32.le_trans
  le_antisymm _ _ := UInt32.le_antisymm
  le_total := UInt32.le_total
  lt_iff_le_not_ge a b := by
    rw [UInt32.lt_iff_toNat_lt, UInt32.le_iff_toNat_le, UInt32.le_iff_toNat_le]
    omega
  toDecidableLE := fun a b ↦ inferInstanceAs (Decidable (a ≤ b))
  toDecidableEq := fun a b ↦ inferInstanceAs (Decidable (a = b))
  toDecidableLT := fun a b ↦ inferInstanceAs (Decidable (a < b))
  compare_eq_compareOfLessAndEq _ _ := rfl

end ChwellCore
