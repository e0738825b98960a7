import ChwellCore.Codec.LengthHeader
import ChwellCore.Lib.Continued
import Mathlib.Data.Nat.Bitwise
import Mathlib.Data.Nat.Digits.Defs

/-!
# The protobuf codec

`ProtobufCodec` puts the length of a message in front of it as a varint: seven bits a byte, the
lowest first, with the top bit of a byte saying that another follows.  `parse_varint32` advances the
position it is given while it reads, also when the bytes run out under it, and `decode` puts the
position back to where the frame began; so its result is a pair here, what was parsed and the
position reached.

A varint is a list that says where it ends.  `parseVarint32_eq_some_iff` says what is read: the
varint that stands there, if it has no more than five bytes, and of its `payload` the lowest 32
bits.  `varint32` is the list that `append_varint32` appends, and parsing it gives the value back
(`parseVarint32_varint32`).  The rest is the argument of every stream decoder, `frame` being the
format and `decode_spec` one call.
-/

set_option autoImplicit false

namespace ChwellCore
namespace Codec
namespace ProtobufCodec

/-! ## Varints -/

theorem shiftRight_seven (v : UInt32) : (v >>> 7).toNat = v.toNat / 128 := by
  rw [UInt32.toNat_shiftRight, show (7 : UInt32).toNat % 32 = 7 from rfl,
    Nat.shiftRight_eq_div_pow]

/-- `append_varint32`. -/
def appendVarint32 (out : Bytes) (value : UInt32) : Bytes :=
  if 0x80 ≤ value then
    appendVarint32 (out ++ [((value &&& 0x7F) ||| 0x80).toUInt8]) (value >>> 7)
  else out ++ [(value &&& 0x7F).toUInt8]
termination_by value.toNat
decreasing_by
  next h =>
    have : 128 ≤ value.toNat := UInt32.le_iff_toNat_le.1 h
    rw [shiftRight_seven]
    omega

/-- The loop of `parse_varint32`: the value, if one was complete, and the position reached. -/
def parseVarint32Loop (buf : Bytes) (pos shift : ℕ) (result : UInt32) : Option UInt32 × ℕ :=
  if pos < buf.length ∧ shift ≤ 28 then
    let byte := buf.getD pos 0
    let result' := result ||| ((byte &&& 0x7F).toUInt32 <<< UInt32.ofNat shift)
    if byte &&& 0x80 = 0 then (some result', pos + 1)
    else parseVarint32Loop buf (pos + 1) (shift + 7) result'
  else (none, pos)
termination_by buf.length - pos

/-- `parse_varint32`. -/
def parseVarint32 (buf : Bytes) (pos : ℕ) : Option UInt32 × ℕ := parseVarint32Loop buf pos 0 0

/-! ## `encode` and `decode` -/

/-- `ProtobufCodec::encode`. -/
def encode (message : Bytes) : Bytes :=
  appendVarint32 [] (UInt32.ofNat message.length) ++ message

/-- One turn of the loop of `decode`: the message at `pos`, and the position behind it.  Where there
is none the position is the saved one, whatever `parse_varint32` made of it. -/
def decodeAt (buffer : Bytes) (pos : ℕ) : Option (Bytes × ℕ) :=
  if pos < buffer.length then
    match parseVarint32 buffer pos with
    | (none, _) => none
    | (some len, pos') =>
      if buffer.length - pos' < len.toNat then none
      else some ((buffer.drop pos').take len.toNat, pos' + len.toNat)
  else none

theorem parseVarint32Loop_some {buf : Bytes} {pos shift pos' : ℕ} {result len : UInt32}
    (h : parseVarint32Loop buf pos shift result = (some len, pos')) :
    pos < pos' ∧ pos' ≤ buf.length := by
  fun_induction parseVarint32Loop buf pos shift result with
  | case1 pos shift result hpos byte result' hlast =>
    obtain ⟨-, rfl⟩ := Prod.mk.inj h
    exact ⟨Nat.lt_succ_self _, hpos.1⟩
  | case2 pos shift result hpos byte result' hmore ih =>
    obtain ⟨h1, h2⟩ := ih h
    exact ⟨by omega, h2⟩
  | case3 pos shift result hpos => cases h

theorem decodeAt_eq_some {buffer m : Bytes} {pos pos' : ℕ}
    (h : decodeAt buffer pos = some (m, pos')) :
    ∃ len start, parseVarint32 buffer pos = (some len, start) ∧ pos < start ∧
      pos' = start + len.toNat ∧ pos' ≤ buffer.length ∧
      m = (buffer.drop start).take len.toNat := by
  rw [decodeAt] at h
  obtain ⟨-, h⟩ := Option.ite_none_right_eq_some.1 h
  split at h
  · cases h
  · next len start hparse =>
    obtain ⟨h1, h2⟩ := parseVarint32Loop_some hparse
    obtain ⟨hlen, h⟩ := Option.ite_none_left_eq_some.1 h
    cases h
    exact ⟨len, start, hparse, h1, rfl, by omega, rfl⟩

/-- The loop of `decode`: the messages it collects and the position it stops at. -/
def decodeLoop (buffer : Bytes) (pos : ℕ) : List Bytes × ℕ :=
  match _hs : decodeAt buffer pos with
  | none => ([], pos)
  | some (m, pos') => (m :: (decodeLoop buffer pos').1, (decodeLoop buffer pos').2)
termination_by buffer.length - pos
decreasing_by all_goals obtain ⟨_, _, -, _, _, _, -⟩ := decodeAt_eq_some _hs; omega

/-- `ProtobufCodec::decode`: the messages completed by `data`, and the decoder afterwards. -/
def decode (c : Decoder) (data : Bytes) : List Bytes × Decoder :=
  let buffer := c.buffer ++ data
  let r := decodeLoop buffer c.head
  (r.1, Decoder.compactPrefix ⟨buffer, r.2⟩)

/-- One call of `decode` for each chunk; the messages of all of them, and the decoder at the end. -/
def decodeAll (c : Decoder) : List Bytes → List Bytes × Decoder
  | [] => ([], c)
  | chunk :: chunks =>
    let r := decode c chunk
    let rs := decodeAll r.2 chunks
    (r.1 ++ rs.1, rs.2)

/-! ## Bytes and bits -/

theorem and_low7 (b : UInt8) : (b &&& 0x7F).toNat = b.toNat % 128 := by
  rw [UInt8.toNat_and]
  exact Nat.and_two_pow_sub_one_eq_mod b.toNat 7

theorem and_top_eq_zero_iff (b : UInt8) : b &&& 0x80 = 0 ↔ b.toNat < 128 := by
  have hb := b.toNat_lt
  have htop : (b &&& 0x80).toNat = b.toNat / 128 % 2 * 128 := by
    rw [UInt8.toNat_and, show (0x80 : UInt8).toNat = 2 ^ 7 from rfl, Nat.and_two_pow,
      Nat.toNat_testBit, show 2 ^ 7 = 128 from rfl]
  constructor
  · intro h
    rw [h] at htop
    simp only [UInt8.toNat_zero] at htop
    omega
  · intro h
    apply UInt8.toNat_inj.1
    rw [htop, UInt8.toNat_zero]
    omega

/-- The byte that `append_varint32` writes when no other follows. -/
theorem lastByte_toNat {v : UInt32} (h : v.toNat < 128) :
    ((v &&& 0x7F).toUInt8).toNat = v.toNat := by
  rw [UInt32.toNat_toUInt8, UInt32.toNat_and, show (0x7F : UInt32).toNat = 2 ^ 7 - 1 from rfl,
    Nat.and_two_pow_sub_one_eq_mod]
  omega

/-- The byte that it writes when another follows. -/
theorem moreByte_toNat (v : UInt32) :
    (((v &&& 0x7F) ||| 0x80).toUInt8).toNat = v.toNat % 128 + 128 := by
  have hlow : v.toNat % 2 ^ 7 < 2 ^ 7 := Nat.mod_lt _ (by decide)
  have hor := Nat.two_pow_add_eq_or_of_lt hlow 1
  rw [UInt32.toNat_toUInt8, UInt32.toNat_or, UInt32.toNat_and,
    show (0x7F : UInt32).toNat = 2 ^ 7 - 1 from rfl,
    show (0x80 : UInt32).toNat = 2 ^ 7 * 1 from rfl, Nat.and_two_pow_sub_one_eq_mod, Nat.or_comm,
    ← hor]
  omega

theorem appendVarint32_of_lt {v : UInt32} (out : Bytes) (h : v.toNat < 128) :
    appendVarint32 out v = out ++ [(v &&& 0x7F).toUInt8] := by
  rw [appendVarint32, if_neg]
  intro hle
  have : 128 ≤ v.toNat := UInt32.le_iff_toNat_le.1 hle
  omega

theorem appendVarint32_of_le {v : UInt32} (out : Bytes) (h : 128 ≤ v.toNat) :
    appendVarint32 out v =
      appendVarint32 (out ++ [((v &&& 0x7F) ||| 0x80).toUInt8]) (v >>> 7) := by
  have hle : 0x80 ≤ v := UInt32.le_iff_toNat_le.2 h
  rw [appendVarint32, if_pos hle]

/-- The bytes that `append_varint32` appends. -/
def varint32 (value : UInt32) : Bytes := appendVarint32 [] value

theorem appendVarint32_eq (out : Bytes) (value : UInt32) :
    appendVarint32 out value = out ++ varint32 value := by
  induction hn : value.toNat using Nat.strongRecOn generalizing out value with
  | _ n ih =>
    rw [varint32]
    rcases Nat.lt_or_ge value.toNat 128 with h | h
    · rw [appendVarint32_of_lt out h, appendVarint32_of_lt [] h, List.nil_append]
    · have hlt : (value >>> 7).toNat < n := by
        rw [shiftRight_seven]
        omega
      rw [appendVarint32_of_le out h, appendVarint32_of_le [] h, ih _ hlt (out ++ _) _ rfl,
        ih _ hlt ([] ++ _) _ rfl, List.nil_append, List.append_assoc]

theorem varint32_of_lt {v : UInt32} (h : v.toNat < 128) : varint32 v = [(v &&& 0x7F).toUInt8] :=
  appendVarint32_of_lt [] h

theorem varint32_of_le {v : UInt32} (h : 128 ≤ v.toNat) :
    varint32 v = ((v &&& 0x7F) ||| 0x80).toUInt8 :: varint32 (v >>> 7) := by
  rw [varint32, appendVarint32_of_le [] h, appendVarint32_eq]
  rfl

/-- Seven more bits in front of those already read.  What does not fit into 32 bits is lost. -/
theorem or_shiftLeft {r : UInt32} {b : UInt8} {shift : ℕ} (hs : shift ≤ 28)
    (hr : r.toNat < 2 ^ shift) :
    (r ||| ((b &&& 0x7F).toUInt32 <<< UInt32.ofNat shift)).toNat =
      (r.toNat + b.toNat % 128 * 2 ^ shift) % 2 ^ 32 := by
  have hshift : (UInt32.ofNat shift).toNat % 32 = shift := by
    rw [UInt32.toNat_ofNat']
    omega
  have hpow : 2 ^ 32 = 2 ^ shift * 2 ^ (32 - shift) := by
    rw [← Nat.pow_add]
    congr 1
    omega
  have hpos : 0 < 2 ^ shift := Nat.two_pow_pos shift
  rw [UInt32.toNat_or, UInt32.toNat_shiftLeft, hshift, UInt8.toNat_toUInt32, and_low7,
    Nat.shiftLeft_eq, hpow, Nat.mul_comm (b.toNat % 128), Nat.mul_mod_mul_left, Nat.or_comm,
    ← Nat.two_pow_add_eq_or_of_lt hr, Nat.mod_mul, Nat.add_mul_mod_self_left,
    Nat.mod_eq_of_lt hr, Nat.add_mul_div_left _ _ hpos, Nat.div_eq_of_lt hr, Nat.zero_add,
    Nat.add_comm]

section Turn

variable {buf : Bytes} {pos shift : ℕ} {r : UInt32} {b : UInt8}

/-- A byte with its top bit clear ends the varint. -/
theorem parseVarint32Loop_last (hpos : buf[pos]? = some b) (hs : shift ≤ 28)
    (hb : b.toNat < 128) :
    parseVarint32Loop buf pos shift r =
      (some (r ||| ((b &&& 0x7F).toUInt32 <<< UInt32.ofNat shift)), pos + 1) := by
  have hlt : pos < buf.length := (List.getElem?_eq_some_iff.1 hpos).1
  rw [parseVarint32Loop, if_pos ⟨hlt, hs⟩]
  simp only [List.getD_eq_getElem?_getD, hpos, Option.getD_some]
  rw [if_pos ((and_top_eq_zero_iff b).2 hb)]

/-- A byte with its top bit set is followed by another. -/
theorem parseVarint32Loop_more (hpos : buf[pos]? = some b) (hs : shift ≤ 28)
    (hb : 128 ≤ b.toNat) :
    parseVarint32Loop buf pos shift r =
      parseVarint32Loop buf (pos + 1) (shift + 7)
        (r ||| ((b &&& 0x7F).toUInt32 <<< UInt32.ofNat shift)) := by
  have hlt : pos < buf.length := (List.getElem?_eq_some_iff.1 hpos).1
  have hmore : ¬ b &&& 0x80 = 0 := by
    rw [and_top_eq_zero_iff]
    omega
  rw [parseVarint32Loop, if_pos ⟨hlt, hs⟩]
  simp only [List.getD_eq_getElem?_getD, hpos, Option.getD_some]
  rw [if_neg hmore]

end Turn

theorem getElem?_of_drop {buf xs : Bytes} {pos : ℕ} {b : UInt8} (h : buf.drop pos = b :: xs) :
    buf[pos]? = some b ∧ buf.drop (pos + 1) = xs := by
  constructor
  · rw [← List.head?_drop, h, List.head?_cons]
  · rw [← List.drop_drop, h, List.drop_one, List.tail_cons]

theorem two_pow_seven_succ (k : ℕ) : 2 ^ (7 * (k + 1)) = 128 * 2 ^ (7 * k) := by
  rw [Nat.mul_add, Nat.pow_add, Nat.mul_comm]

/-! ## What `parse_varint32` computes -/

/-- The top bit of a byte says that another follows. -/
def More (b : UInt8) : Prop := 128 ≤ b.toNat

instance : DecidablePred More := fun b ↦ inferInstanceAs (Decidable (128 ≤ b.toNat))

/-- The number that some bytes stand for: seven bits each, the lowest first. -/
def payload (header : Bytes) : ℕ := Nat.ofDigits 128 (header.map fun b ↦ b.toNat % 128)

theorem payload_cons (b : UInt8) (header : Bytes) :
    payload (b :: header) = b.toNat % 128 + 128 * payload header := rfl

theorem payload_singleton (b : UInt8) : payload [b] = b.toNat % 128 := Nat.ofDigits_singleton

/-- **A varint of at most five bytes is read**, from the middle of it on: `r` is what its first `k`
bytes gave, and `header` what is left of it. -/
theorem parseVarint32Loop_of_ended {buf header : Bytes} {pos k : ℕ} {r : UInt32}
    (h : Ended More header) (hpre : header <+: buf.drop pos) (hk : k + header.length ≤ 5)
    (hr : r.toNat < 2 ^ (7 * k)) :
    parseVarint32Loop buf pos (7 * k) r =
      (some (UInt32.ofNat (r.toNat + payload header * 2 ^ (7 * k))), pos + header.length) := by
  induction h generalizing pos k r with
  | @last b hlast =>
    obtain ⟨rest, hrest⟩ := hpre
    obtain ⟨hpos, -⟩ := getElem?_of_drop hrest.symm
    rw [List.length_singleton] at hk ⊢
    rw [parseVarint32Loop_last hpos (by omega) (Nat.lt_of_not_le hlast)]
    congr 2
    apply UInt32.toNat_inj.1
    rw [or_shiftLeft (by omega) hr, UInt32.toNat_ofNat', payload_singleton]
  | @cons b header hmore hended ih =>
    obtain ⟨rest, hrest⟩ := hpre
    obtain ⟨hpos, hnext⟩ := getElem?_of_drop hrest.symm
    have hlen := hended.length_pos
    rw [List.length_cons] at hk ⊢
    -- another byte follows, so `k` is not the last place and nothing is lost
    have hlow : r.toNat + b.toNat % 128 * 2 ^ (7 * k) < 2 ^ (7 * (k + 1)) := by
      have hmul : b.toNat % 128 * 2 ^ (7 * k) ≤ 127 * 2 ^ (7 * k) :=
        Nat.mul_le_mul_right _ (by omega)
      rw [two_pow_seven_succ]
      omega
    have hfit : 2 ^ (7 * (k + 1)) ≤ 2 ^ 32 := Nat.pow_le_pow_right (by decide) (by omega)
    have hread := or_shiftLeft (b := b) (show 7 * k ≤ 28 by omega) hr
    rw [Nat.mod_eq_of_lt (by omega)] at hread
    have hsum : r.toNat + b.toNat % 128 * 2 ^ (7 * k) + payload header * 2 ^ (7 * (k + 1)) =
        r.toNat + payload (b :: header) * 2 ^ (7 * k) := by
      rw [payload_cons, two_pow_seven_succ]
      ring
    rw [parseVarint32Loop_more hpos (by omega) hmore, show 7 * k + 7 = 7 * (k + 1) from rfl,
      ih (hnext ▸ List.prefix_append header rest) (by omega) (by rw [hread]; exact hlow), hread,
      hsum, Nat.add_assoc, Nat.add_comm 1]

/-- Bytes that all say that another follows are not read, however many there are. -/
theorem parseVarint32Loop_of_more {buf : Bytes} {pos k n : ℕ} {r : UInt32} (hn : k + n = 5)
    (hmore : ∀ b ∈ (buf.drop pos).take n, More b) :
    (parseVarint32Loop buf pos (7 * k) r).1 = none := by
  induction n generalizing pos k r with
  | zero => rw [parseVarint32Loop, if_neg (by omega)]
  | succ n ih =>
    rcases hdrop : buf.drop pos with _ | ⟨b, xs⟩
    · have hend := List.drop_eq_nil_iff.1 hdrop
      rw [parseVarint32Loop, if_neg (by omega)]
    · obtain ⟨hpos, hnext⟩ := getElem?_of_drop hdrop
      rw [hdrop] at hmore
      obtain ⟨hb, hrest⟩ := List.forall_mem_cons.1 hmore
      rw [parseVarint32Loop_more hpos (by omega) hb]
      exact ih (show k + 1 + n = 5 by omega) (by rwa [hnext])

theorem parseVarint32_of_ended {buf header : Bytes} {pos : ℕ} (h : Ended More header)
    (hlen : header.length ≤ 5) (hpre : header <+: buf.drop pos) :
    parseVarint32 buf pos = (some (UInt32.ofNat (payload header)), pos + header.length) := by
  have hloop := parseVarint32Loop_of_ended (k := 0) (r := 0) h hpre (by omega) (by decide)
  rw [Nat.mul_zero, Nat.pow_zero, Nat.mul_one, UInt32.toNat_zero, Nat.zero_add] at hloop
  exact hloop

theorem parseVarint32_of_more {buf : Bytes} {pos : ℕ} (h : ∀ b ∈ (buf.drop pos).take 5, More b) :
    (parseVarint32 buf pos).1 = none :=
  parseVarint32Loop_of_more (k := 0) rfl h

/-- **What `parse_varint32` finds** is the varint that stands there and has at most five bytes. -/
theorem parseVarint32_eq_some_iff {buf : Bytes} {pos pos' : ℕ} {len : UInt32} :
    parseVarint32 buf pos = (some len, pos') ↔
      ∃ header, Ended More header ∧ header.length ≤ 5 ∧ header <+: buf.drop pos ∧
        len = UInt32.ofNat (payload header) ∧ pos' = pos + header.length := by
  constructor
  · intro h
    rcases exists_ended_or More 5 (buf.drop pos) with ⟨header, hended, hlen, hpre⟩ | hmore
    · rw [parseVarint32_of_ended hended hlen hpre] at h
      obtain ⟨hlen', hpos'⟩ := Prod.mk.inj h
      exact ⟨header, hended, hlen, hpre, (Option.some.inj hlen').symm, hpos'.symm⟩
    · have hnone := parseVarint32_of_more hmore
      rw [h] at hnone
      cases hnone
  · rintro ⟨header, hended, hlen, hpre, rfl, rfl⟩
    exact parseVarint32_of_ended hended hlen hpre

/-! ## A varint is read back -/

/-- What `append_varint32` appends is a varint of the value. -/
theorem ended_varint32 (v : UInt32) :
    Ended More (varint32 v) ∧ payload (varint32 v) = v.toNat := by
  induction hn : v.toNat using Nat.strongRecOn generalizing v with
  | _ n ih =>
    subst hn
    rcases Nat.lt_or_ge v.toNat 128 with h | h
    · rw [varint32_of_lt h, payload_singleton, lastByte_toNat h]
      refine ⟨.last ?_, Nat.mod_eq_of_lt h⟩
      rw [More, lastByte_toNat h]
      exact Nat.not_le.2 h
    · have hdiv := shiftRight_seven v
      obtain ⟨hended, hpayload⟩ := ih _ (by omega) (v >>> 7) rfl
      rw [varint32_of_le h, payload_cons, moreByte_toNat, hpayload, hdiv]
      refine ⟨.cons ?_ hended, by omega⟩
      rw [More, moreByte_toNat]
      omega

theorem length_varint32_le {v : UInt32} {n : ℕ} (h : v.toNat < 2 ^ (7 * (n + 1))) :
    (varint32 v).length ≤ n + 1 := by
  induction n generalizing v with
  | zero => rw [varint32_of_lt h, List.length_singleton]
  | succ n ih =>
    rcases Nat.lt_or_ge v.toNat 128 with hlt | hge
    · rw [varint32_of_lt hlt, List.length_singleton]
      omega
    · rw [varint32_of_le hge, List.length_cons]
      refine Nat.succ_le_succ (ih ?_)
      rw [shiftRight_seven]
      exact Nat.div_lt_of_lt_mul (by rwa [← two_pow_seven_succ])

theorem parseVarint32_varint32 (v : UInt32) (rest : Bytes) :
    parseVarint32 (varint32 v ++ rest) 0 = (some v, (varint32 v).length) := by
  have hlen : v.toNat < 2 ^ (7 * (4 + 1)) := Nat.lt_trans v.toNat_lt (by decide)
  obtain ⟨hended, hpayload⟩ := ended_varint32 v
  rw [parseVarint32_of_ended hended (length_varint32_le hlen) (List.prefix_append _ _), hpayload,
    UInt32.ofNat_toNat, Nat.zero_add]

/-! ## The format -/

/-- Reading at an offset is reading the front of what is left behind it. -/
theorem parseVarint32Loop_drop (buf : Bytes) (off pos shift : ℕ) (r : UInt32) :
    parseVarint32Loop buf (off + pos) shift r =
      ((parseVarint32Loop (buf.drop off) pos shift r).1,
        off + (parseVarint32Loop (buf.drop off) pos shift r).2) := by
  have hget : ∀ i, (buf.drop off).getD i 0 = buf.getD (off + i) 0 := by
    intro i
    simp [List.getD_eq_getElem?_getD]
  have hlen : (buf.drop off).length = buf.length - off := List.length_drop
  fun_induction parseVarint32Loop (buf.drop off) pos shift r with
  | case1 pos shift r hpos byte r' hlast =>
    rw [parseVarint32Loop, if_pos ⟨by omega, hpos.2⟩, ← hget]
    exact if_pos hlast
  | case2 pos shift r hpos byte r' hmore ih =>
    rw [parseVarint32Loop, if_pos ⟨by omega, hpos.2⟩, ← hget]
    exact (if_neg hmore).trans ih
  | case3 pos shift r hpos =>
    rw [parseVarint32Loop, if_neg (by omega)]

/-- A complete varint is read the same way with more bytes behind it. -/
theorem parseVarint32Loop_append {buf : Bytes} {pos shift pos' : ℕ} {r len : UInt32} (zs : Bytes)
    (h : parseVarint32Loop buf pos shift r = (some len, pos')) :
    parseVarint32Loop (buf ++ zs) pos shift r = (some len, pos') := by
  have hget : ∀ i, i < buf.length → (buf ++ zs).getD i 0 = buf.getD i 0 := by
    intro i hi
    simp only [List.getD_eq_getElem?_getD]
    rw [List.getElem?_append_left hi]
  have hlen : (buf ++ zs).length = buf.length + zs.length := List.length_append
  fun_induction parseVarint32Loop buf pos shift r with
  | case1 pos shift r hpos byte r' hlast =>
    rw [parseVarint32Loop, if_pos ⟨by omega, hpos.2⟩, hget pos hpos.1]
    exact (if_pos hlast).trans h
  | case2 pos shift r hpos byte r' hmore ih =>
    rw [parseVarint32Loop, if_pos ⟨by omega, hpos.2⟩, hget pos hpos.1]
    exact (if_neg hmore).trans (ih h)
  | case3 pos shift r hpos => cases h

theorem decodeAt_of_parse {buffer : Bytes} {pos start : ℕ} {len : UInt32}
    (h : parseVarint32 buffer pos = (some len, start)) (hlen : start + len.toNat ≤ buffer.length) :
    decodeAt buffer pos = some ((buffer.drop start).take len.toNat, start + len.toNat) := by
  obtain ⟨hlt, hle⟩ := parseVarint32Loop_some h
  rw [decodeAt, if_pos (by omega), h]
  exact if_neg (by omega)

theorem decodeAt_drop (buffer : Bytes) (head : ℕ) :
    decodeAt buffer head = (decodeAt (buffer.drop head) 0).map fun r ↦ (r.1, head + r.2) := by
  have hparse : parseVarint32 buffer head = ((parseVarint32 (buffer.drop head) 0).1,
      head + (parseVarint32 (buffer.drop head) 0).2) := parseVarint32Loop_drop buffer head 0 0 0
  have hlen : (buffer.drop head).length = buffer.length - head := List.length_drop
  by_cases hlt : head < buffer.length
  · rw [decodeAt, if_pos hlt, decodeAt, if_pos (by omega), hparse]
    rcases parseVarint32 (buffer.drop head) 0 with ⟨_ | len, start⟩
    · rfl
    · simp only [hlen, Nat.sub_sub, List.drop_drop]
      split
      · rfl
      · rw [Option.map_some, Nat.add_assoc]
  · rw [decodeAt, if_neg hlt, decodeAt, if_neg (by omega), Option.map_none]

/-- One frame `[len (varint32)][bytes]` split off the front. -/
def nextFrame (xs : Bytes) : Option (Bytes × Bytes) :=
  (decodeAt xs 0).map fun r ↦ (r.1, xs.drop r.2)

theorem nextFrame_eq_some {xs m ys : Bytes} (h : nextFrame xs = some (m, ys)) :
    ∃ n, decodeAt xs 0 = some (m, n) ∧ ys = xs.drop n := by
  obtain ⟨⟨m', n⟩, hd, he⟩ := Option.map_eq_some_iff.1 h
  cases he
  exact ⟨n, hd, rfl⟩

theorem decodeAt_append {xs m : Bytes} {pos n : ℕ} (zs : Bytes)
    (h : decodeAt xs pos = some (m, n)) : decodeAt (xs ++ zs) pos = some (m, n) := by
  obtain ⟨len, start, hparse, -, rfl, hle, rfl⟩ := decodeAt_eq_some h
  have hlen : (xs ++ zs).length = xs.length + zs.length := List.length_append
  rw [decodeAt_of_parse (parseVarint32Loop_append zs hparse) (by omega),
    List.drop_append_of_le_length (by omega),
    List.take_append_of_le_length (by rw [List.length_drop]; omega)]

/-- **The format is self-delimiting.** -/
def frame : FrameDecoder UInt8 Bytes where
  next := nextFrame
  length_lt := by
    intro xs m ys h
    obtain ⟨n, hd, rfl⟩ := nextFrame_eq_some h
    obtain ⟨len, start, -, hlt, rfl, hle, -⟩ := decodeAt_eq_some hd
    rw [List.length_drop]
    omega
  extends_append := by
    intro xs m ys zs h
    obtain ⟨n, hd, rfl⟩ := nextFrame_eq_some h
    obtain ⟨-, -, -, -, -, hle, -⟩ := decodeAt_eq_some hd
    rw [nextFrame, decodeAt_append zs hd, Option.map_some, List.drop_append_of_le_length hle]

theorem frame_next_nil : frame.next [] = none := rfl

/-- An encoded message is one complete frame, as long as its length fits in 32 bits. -/
theorem frame_next_encode {m : Bytes} (h : m.length < 2 ^ 32) :
    frame.next (encode m) = some (m, []) := by
  have hlen : (UInt32.ofNat m.length).toNat = m.length := by
    rw [UInt32.toNat_ofNat']
    omega
  have hparse : parseVarint32 (encode m) 0 = _ :=
    parseVarint32_varint32 (UInt32.ofNat m.length) m
  have htotal : (encode m).length = (varint32 (UInt32.ofNat m.length)).length + m.length :=
    List.length_append
  have hbody : (encode m).drop (varint32 (UInt32.ofNat m.length)).length = m := List.drop_left
  show nextFrame _ = _
  rw [nextFrame, decodeAt_of_parse hparse (by omega), hlen, Option.map_some, hbody,
    List.take_length, List.drop_eq_nil_of_le (by omega)]

/-! ## What `decode` computes -/

theorem decodeLoop_of_none {buffer : Bytes} {pos : ℕ} (h : decodeAt buffer pos = none) :
    decodeLoop buffer pos = ([], pos) := by
  rw [decodeLoop]
  split
  · rfl
  · next hs => rw [h] at hs; cases hs

theorem decodeLoop_of_some {buffer m : Bytes} {pos pos' : ℕ}
    (h : decodeAt buffer pos = some (m, pos')) :
    decodeLoop buffer pos = (m :: (decodeLoop buffer pos').1, (decodeLoop buffer pos').2) := by
  rw [decodeLoop]
  split
  · next hs => rw [h] at hs; cases hs
  · next hs =>
    rw [h] at hs
    cases hs
    rfl

theorem decodeLoop_snd_le {buffer : Bytes} {pos : ℕ} (h : pos ≤ buffer.length) :
    (decodeLoop buffer pos).2 ≤ buffer.length := by
  induction hn : buffer.length - pos using Nat.strongRecOn generalizing pos with
  | _ n ih =>
    rcases hs : decodeAt buffer pos with _ | ⟨m, pos'⟩
    · rwa [decodeLoop_of_none hs]
    · obtain ⟨len, start, -, hlt, hpos', hle, -⟩ := decodeAt_eq_some hs
      rw [decodeLoop_of_some hs]
      exact ih (buffer.length - pos') (by omega) hle rfl

/-- The loop drains the bytes from its starting position on. -/
theorem decodeLoop_spec (buffer : Bytes) (pos : ℕ) :
    ((decodeLoop buffer pos).1, buffer.drop (decodeLoop buffer pos).2) =
      frame.drain (buffer.drop pos) := by
  refine FrameDecoder.drain_of_loop (fun head ↦ ?_) pos
  rcases hs : decodeAt buffer head with _ | ⟨m, head'⟩
  · refine .inl ⟨?_, decodeLoop_of_none hs⟩
    rw [decodeAt_drop, Option.map_eq_none_iff] at hs
    exact Option.map_eq_none_iff.2 hs
  · refine .inr ⟨m, head', ?_, decodeLoop_of_some hs⟩
    rw [decodeAt_drop] at hs
    obtain ⟨⟨m', n⟩, hd, he⟩ := Option.map_eq_some_iff.1 hs
    cases he
    show nextFrame _ = _
    rw [nextFrame, hd, Option.map_some, List.drop_drop]

/-- **One call of `decode`** drains the unused bytes followed by the new ones. -/
theorem decode_spec {c : Decoder} (hle : c.head ≤ c.buffer.length) (data : Bytes) :
    ((decode c data).1, (decode c data).2.tail) = frame.drain (c.tail ++ data) ∧
      (decode c data).2.head ≤ (decode c data).2.buffer.length := by
  have hloop := decodeLoop_spec (c.buffer ++ data) c.head
  rw [drop_head_append hle] at hloop
  constructor
  · rw [decode, Decoder.tail_compactPrefix]
    exact hloop
  · exact Decoder.head_compactPrefix_le (decodeLoop_snd_le (head_le_append hle))

theorem decodeAll_spec {c : Decoder} (hle : c.head ≤ c.buffer.length) (chunks : List Bytes) :
    ((decodeAll c chunks).1, (decodeAll c chunks).2.tail) = frame.feedAll c.tail chunks ∧
      (decodeAll c chunks).2.head ≤ (decodeAll c chunks).2.buffer.length := by
  induction chunks generalizing c with
  | nil => exact ⟨rfl, hle⟩
  | cons data chunks ih =>
    obtain ⟨hcall, hle'⟩ := decode_spec hle data
    obtain ⟨hrest, hle''⟩ := ih hle'
    refine ⟨?_, hle''⟩
    rw [decodeAll, FrameDecoder.feedAll, ← hcall]
    simp only [← hrest]

/-- **Round trip under any chunking.**  What `encode` wrote is found again, in order, with no byte
left unread, wherever the stream is cut. -/
theorem decodeAll_encodeAll {msgs chunks : List Bytes} (hlen : ∀ m ∈ msgs, m.length < 2 ^ 32)
    (hcut : chunks.flatten = msgs.flatMap encode) :
    (decodeAll .fresh chunks).1 = msgs ∧ (decodeAll .fresh chunks).2.tail = [] ∧
      (decodeAll .fresh chunks).2.head = (decodeAll .fresh chunks).2.buffer.length := by
  obtain ⟨hspec, hhead⟩ := decodeAll_spec (c := .fresh) (Nat.le_refl 0) chunks
  rw [show Decoder.fresh.tail = [] from rfl,
    FrameDecoder.feedAll_eq_drain_flatten frame_next_nil, hcut,
    FrameDecoder.drain_flatMap frame_next_nil fun m hm ↦ frame_next_encode (hlen m hm)] at hspec
  obtain ⟨hmsgs, htail⟩ := Prod.mk.inj hspec
  exact ⟨hmsgs, htail, Nat.le_antisymm hhead (List.drop_eq_nil_iff.1 htail)⟩

theorem decodeAll_foo_cut :
    (∀ m ∈ [lit "foo", []], m.length < 2 ^ 32) ∧
      (decodeAll .fresh [[3], [102, 111], [], [111, 0]]).1 = [lit "foo", []] := by
  have hlen : ∀ m ∈ [lit "foo", []], m.length < 2 ^ 32 := by decide
  have hcut : [[3], [102, 111], [], [111, 0]].flatten = [lit "foo", []].flatMap encode := by
    have h3 : varint32 3 = [3] := varint32_of_lt (by decide)
    have h0 : varint32 0 = [0] := varint32_of_lt (by decide)
    show _ = (varint32 3 ++ lit "foo") ++ ((varint32 0 ++ []) ++ [])
    rw [h3, h0]
    rfl
  exact ⟨hlen, (decodeAll_encodeAll hlen hcut).1⟩

end ProtobufCodec
end Codec
end ChwellCore
