import ChwellCore.Lib.Decoder
import ChwellCore.Sync.StateWire
import Mathlib.Data.List.GetD
import Mathlib.Tactic.Ring

/-!
# The record of a state

`handle_state_update` takes the record of one state apart, and `handle_state_query` puts it together
to answer a query: entity and key, a byte for the type, the value, and a timestamp.  Lengths are in
network order and the timestamp begins with its least significant byte.

The decoders share an offset, and each of them checks the size of the buffer before it reads; here
every read is checked once more, and is an error outside the buffer.  `Decodes` says of each decoder
that it comes to no such error and where it finds a value, and `record_codec` is what this means for
the whole: what is written is read, and a buffer is refused exactly if it does not begin with a
record.
-/

set_option autoImplicit false

namespace ChwellCore
namespace Sync
namespace StateCodec

open Decoder

/-! ## Writing -/

/-- `encode_uint8`. -/
def encodeUint8 (value : UInt8) : Bytes := [value]

/-- `encode_bytes`. -/
def encodeBytes : Bytes → Bytes := encodeLen16

/-- The body that `handle_state_query` writes, where the timestamp is always 0. -/
def encodeStateUpdate (u : StateUpdate) : Bytes :=
  encodeString u.entityId ++ (encodeString u.stateKey ++ (encodeUint8 u.value.type.code ++
    (encodeBytes u.value.value ++ encodeUint64 u.timestamp)))

/-! ## Reading -/

/-- `decode_string`. -/
def decodeString : Decoder UInt8 Bytes := fun data offset ↦ do
  let (lenNet, offset) ← take 2 data offset
  take (netToHost16 lenNet 0).toNat data offset

/-- `decode_bytes`. -/
def decodeBytes : Decoder UInt8 Bytes := decodeString

/-- `decode_uint8`. -/
def decodeUint8 : Decoder UInt8 UInt8 := fun data offset ↦ do
  let (bytes, offset) ← take 1 data offset
  pure (bytes.getD 0 0, offset)

/-- The loop of `decode_uint64`, after so many bytes. -/
def orBytes (bytes : Bytes) : ℕ → UInt64
  | 0 => 0
  | n + 1 => orBytes bytes n ||| ((bytes.getD n 0).toUInt64 <<< UInt64.ofNat (n * 8))

/-- `decode_uint64`. -/
def decodeUint64 : Decoder UInt8 UInt64 := fun data offset ↦ do
  let (bytes, offset) ← take 8 data offset
  pure (orBytes bytes 8, offset)

/-- The decodings of `handle_state_update`, and the update that it makes of them. -/
def decodeStateUpdate : Decoder UInt8 StateUpdate := fun data offset ↦ do
  let (entityId, offset) ← decodeString data offset
  let (stateKey, offset) ← decodeString data offset
  let (valueType, offset) ← decodeUint8 data offset
  let (valueData, offset) ← decodeBytes data offset
  let (timestamp, offset) ← decodeUint64 data offset
  pure (⟨entityId, stateKey, ⟨⟨valueType⟩, valueData⟩, timestamp⟩, offset)

/-! ## Integers -/

theorem hostToNet16_netToHost16 {bytes : Bytes} (h : bytes.length = 2) :
    hostToNet16 (netToHost16 bytes 0) = bytes := by
  obtain ⟨hi, lo, rfl⟩ := List.length_eq_two.1 h
  have hhi := hi.toNat_lt
  have hlo := lo.toNat_lt
  have hdiv : (hi.toNat * 256 + lo.toNat) / 256 = hi.toNat := by omega
  have hmod : (hi.toNat * 256 + lo.toNat) % 256 = lo.toNat := by omega
  rw [netToHost16_cons_cons, hostToNet16, be16_toNat, hdiv, hmod, UInt8.ofNat_toNat,
    UInt8.ofNat_toNat]

theorem two_pow_eight_succ (n : ℕ) : 2 ^ ((n + 1) * 8) = 256 * 2 ^ (n * 8) := by
  rw [Nat.succ_mul, pow_add, Nat.mul_comm]
  rfl

theorem leNat_append_singleton (bs : Bytes) (b : UInt8) :
    leNat (bs ++ [b]) = leNat bs + b.toNat * 2 ^ (bs.length * 8) := by
  induction bs with
  | nil => simp [leNat]
  | cons b' bs ih =>
    rw [List.cons_append, leNat, ih, leNat, List.length_cons, two_pow_eight_succ]
    ring

theorem leNat_lt (bs : Bytes) : leNat bs < 2 ^ (bs.length * 8) := by
  induction bs with
  | nil => exact Nat.one_pos
  | cons b bs ih =>
    have hb := b.toNat_lt
    rw [leNat, List.length_cons, two_pow_eight_succ]
    omega

/-- Digits are determined by the number. -/
theorem leNat_inj {bs bs' : Bytes} (hlen : bs.length = bs'.length) (h : leNat bs = leNat bs') :
    bs = bs' := by
  induction bs generalizing bs' with
  | nil => exact (List.length_eq_zero_iff.1 hlen.symm).symm
  | cons b bs ih =>
    cases bs' with
    | nil => cases hlen
    | cons b' bs' =>
      have hb := b.toNat_lt
      have hb' := b'.toNat_lt
      rw [leNat, leNat] at h
      have hhead : b = b' := UInt8.toNat_inj.1 (by omega)
      rw [hhead, ih (Nat.succ.inj hlen) (by omega)]

/-- The loop puts the bytes together as the digits of a number. -/
theorem toNat_orBytes {bytes : Bytes} (hlen : bytes.length ≤ 8) {n : ℕ} (hn : n ≤ bytes.length) :
    (orBytes bytes n).toNat = leNat (bytes.take n) := by
  induction n with
  | zero => rfl
  | succ n ih =>
    have hlt : n < bytes.length := hn
    have htake : (bytes.take n).length = n := List.length_take_of_le hlt.le
    have hlow : leNat (bytes.take n) < 2 ^ (n * 8) := by
      have := leNat_lt (bytes.take n)
      rwa [htake] at this
    have hb := bytes[n].toNat_lt
    have hfit : bytes[n].toNat * 2 ^ (n * 8) < 2 ^ 64 := by
      calc bytes[n].toNat * 2 ^ (n * 8) < 2 ^ 8 * 2 ^ (n * 8) :=
            Nat.mul_lt_mul_of_pos_right hb (Nat.two_pow_pos _)
        _ = 2 ^ (8 + n * 8) := (pow_add 2 8 (n * 8)).symm
        _ ≤ 2 ^ 64 := Nat.pow_le_pow_right Nat.two_pos (by omega)
    have hshift : (UInt64.ofNat (n * 8)).toNat % 64 = n * 8 := by
      rw [UInt64.toNat_ofNat']
      omega
    rw [orBytes, UInt64.toNat_or, ih hlt.le, UInt64.toNat_shiftLeft, hshift, UInt8.toNat_toUInt64,
      List.getD_eq_getElem _ _ hlt, Nat.shiftLeft_eq, Nat.mod_eq_of_lt hfit, Nat.or_comm,
      Nat.mul_comm, ← Nat.two_pow_add_eq_or_of_lt hlow, ← List.take_concat_get' _ _ hlt,
      leNat_append_singleton, htake]
    ring

/-- Eight bytes and the number they are read as. -/
theorem eq_encodeUint64_iff {bytes : Bytes} {v : UInt64} :
    bytes = encodeUint64 v ↔ bytes.length = 8 ∧ v = orBytes bytes 8 := by
  have hread {bytes : Bytes} (hlen : bytes.length = 8) : (orBytes bytes 8).toNat = leNat bytes := by
    rw [toNat_orBytes hlen.le hlen.ge, List.take_of_length_le hlen.le]
  constructor
  · rintro rfl
    refine ⟨rfl, UInt64.toNat_inj.1 ?_⟩
    rw [hread rfl, leNat_encodeUint64]
  · rintro ⟨hlen, rfl⟩
    refine leNat_inj hlen ?_
    rw [leNat_encodeUint64, hread hlen]

/-! ## What the decoders find -/

theorem decodes_string :
    decodeString.Decodes fun str xs ↦ str.length ≤ 65535 ∧ xs = encodeString str := by
  refine ((decodes_take 2).bind fun lenNet ↦ decodes_take (netToHost16 lenNet 0).toNat).congr
    fun str xs ↦ ?_
  constructor
  · rintro ⟨lenNet, _, _, ⟨hlenNet', hlenNet⟩, ⟨rfl, hlen⟩, rfl⟩
    have hle := (netToHost16 lenNet 0).toNat_lt
    refine ⟨by omega, ?_⟩
    rw [hlenNet', encodeString, encodeLen16, hlen, UInt16.ofNat_toNat,
      hostToNet16_netToHost16 hlenNet]
  · rintro ⟨hle, rfl⟩
    have hread := netToHost16_hostToNet16 (UInt16.ofNat str.length) []
    rw [List.append_nil] at hread
    refine ⟨_, _, str, ⟨rfl, rfl⟩, ⟨rfl, ?_⟩, rfl⟩
    rw [hread, UInt16.toNat_ofNat']
    omega

theorem decodes_uint8 : decodeUint8.Decodes fun v xs ↦ xs = encodeUint8 v := by
  refine ((decodes_take 1).map fun bytes ↦ bytes.getD 0 0).congr fun v xs ↦ ?_
  constructor
  · rintro ⟨_, ⟨rfl, hlen⟩, rfl⟩
    obtain ⟨b, rfl⟩ := List.length_eq_one_iff.1 hlen
    rfl
  · rintro rfl
    exact ⟨_, ⟨rfl, rfl⟩, rfl⟩

theorem decodes_uint64 : decodeUint64.Decodes fun v xs ↦ xs = encodeUint64 v := by
  refine ((decodes_take 8).map fun bytes ↦ orBytes bytes 8).congr fun v xs ↦ ?_
  rw [eq_encodeUint64_iff]
  constructor
  · rintro ⟨_, ⟨rfl, hlen⟩, rfl⟩
    exact ⟨hlen, rfl⟩
  · rintro ⟨hlen, rfl⟩
    exact ⟨xs, ⟨rfl, hlen⟩, rfl⟩

/-- The strings of the record are no longer than their lengths can say. -/
def Fits (u : StateUpdate) : Prop :=
  u.entityId.length ≤ 65535 ∧ u.stateKey.length ≤ 65535 ∧ u.value.value.length ≤ 65535

theorem decodes_stateUpdate :
    decodeStateUpdate.Decodes fun u xs ↦ Fits u ∧ xs = encodeStateUpdate u := by
  refine (decodes_string.bind fun entityId ↦ decodes_string.bind fun stateKey ↦
    decodes_uint8.bind fun valueType ↦ decodes_string.bind fun valueData ↦
      decodes_uint64.map fun timestamp ↦
        (⟨entityId, stateKey, ⟨⟨valueType⟩, valueData⟩, timestamp⟩ : StateUpdate)).congr
    fun u xs ↦ ?_
  constructor
  · rintro ⟨_, _, _, ⟨hid, rfl⟩, ⟨_, _, _, ⟨hkey, rfl⟩, ⟨_, _, _, rfl, ⟨_, _, _, ⟨hvalue, rfl⟩,
      ⟨_, rfl, rfl⟩, rfl⟩, rfl⟩, rfl⟩, rfl⟩
    exact ⟨⟨hid, hkey, hvalue⟩, rfl⟩
  · rintro ⟨⟨hid, hkey, hvalue⟩, rfl⟩
    exact ⟨_, _, _, ⟨hid, rfl⟩, ⟨_, _, _, ⟨hkey, rfl⟩, ⟨_, _, _, rfl, ⟨_, _, _, ⟨hvalue, rfl⟩,
      ⟨_, rfl, rfl⟩, rfl⟩, rfl⟩, rfl⟩, rfl⟩

/-- **The record of a state.**  What is written of a record whose strings have at most 65535 bytes
is read as the same record, up to its end.  And whatever the bytes are: nothing outside them is
read, and they are refused exactly if they do not begin with such a record. -/
theorem record_codec :
    (∀ u, Fits u → (decodeStateUpdate (encodeStateUpdate u) 0).run =
      .ok (some (u, (encodeStateUpdate u).length))) ∧
    ∀ data, (∃ r, (decodeStateUpdate data 0).run = .ok r) ∧
      ((decodeStateUpdate data 0).run = .ok none ↔
        ¬ ∃ u, Fits u ∧ encodeStateUpdate u <+: data) := by
  refine ⟨fun u hfits ↦ ?_, fun data ↦ ⟨decodes_stateUpdate.safe data 0, ?_⟩⟩
  · refine (decodes_stateUpdate.found _ 0 (Nat.zero_le _) u _).2
      ⟨_, ⟨hfits, rfl⟩, ?_, (Nat.zero_add _).symm⟩
    exact List.prefix_rfl
  · rw [decodes_stateUpdate.fails_iff (Nat.zero_le _), List.drop_zero]
    constructor
    · rintro h ⟨u, hfits, hpre⟩
      exact h ⟨u, _, ⟨hfits, rfl⟩, hpre⟩
    · rintro h ⟨u, _, ⟨hfits, rfl⟩, hpre⟩
      exact h ⟨u, hfits, hpre⟩

end StateCodec
end Sync
end ChwellCore
