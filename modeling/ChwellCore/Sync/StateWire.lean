import ChwellCore.Lib.Reader
import ChwellCore.Protocol.Parser
import ChwellCore.Sync.StateSync
import Mathlib.Algebra.GroupWithZero.Nat
import Mathlib.Algebra.Order.BigOperators.Group.List
import Mathlib.Algebra.Order.Group.Nat

/-!
# Snapshots on the wire

`send_state_snapshot` writes a snapshot as the entity's id, the number of its states, for each state
its key, type and value, and the timestamp.  Strings and values have their length in front of them,
in 16 bits, as the whole body has in the header of its frame; so there are four places where a
`size_t` is cast to 16 bits, and nothing that bounds what is cast.

Three of them do not matter.  If the body is no longer than its frame can say, then neither is
anything in it.  `survives_iff` says that this is the whole condition: a snapshot can be read back
from its frame exactly if the body has at most 65535 bytes, which is a condition on the size of the
entity's states.

The layout that the comment of `send_state_snapshot` documents is read by `readSnapshot`, which is
not in the code: there is no client there.
-/

set_option autoImplicit false

namespace ChwellCore
namespace Sync

open Protocol (Message serialize Parser)

/-! ## Writing -/

/-- `encode_string`. -/
def encodeString : Bytes → Bytes := encodeLen16

/-- `encode_uint64`: least significant byte first. -/
def encodeUint64 (value : UInt64) : Bytes :=
  (List.range 8).map fun i ↦ ((value >>> UInt64.ofNat (i * 8)) &&& 0xFF).toUInt8

/-- `encode_state_value`. -/
def encodeStateValue (value : StateValue) : Bytes := encodeLen16 value.value

/-- One turn of the loop over the states. -/
def encodeState (state : Bytes × StateValue) : Bytes :=
  encodeString state.1 ++ ([state.2.type.code] ++ encodeStateValue state.2)

/-- The body that `send_state_snapshot` writes.  A timestamp that was never assigned is what
happens to be in memory. -/
def snapshotBody (s : StateSnapshot) (memory : UInt64) : Bytes :=
  encodeString s.entityId ++ (hostToNet16 (UInt16.ofNat s.states.entries.length) ++
    ((UnorderedMap.pairs s.states).flatMap encodeState ++ encodeUint64 (s.timestamp.getD memory)))

/-- `send_state_snapshot`: the bytes sent. -/
def sendStateSnapshot (s : StateSnapshot) (memory : UInt64) : Bytes :=
  serialize ⟨0x0207, snapshotBody s memory⟩

/-! ## The documented layout -/

/-- The number with the given digits in base 256, least significant first. -/
def leNat : Bytes → ℕ
  | [] => 0
  | b :: bs => b.toNat + 256 * leNat bs

/-- Two bytes, most significant first. -/
def readUint16 : Reader UInt8 UInt16 := do
  let bytes ← Reader.take 2
  pure (netToHost16 bytes 0)

/-- One byte. -/
def readUint8 : Reader UInt8 UInt8 := do
  let bytes ← Reader.take 1
  pure (bytes.getD 0 0)

/-- Eight bytes, least significant first. -/
def readUint64 : Reader UInt8 UInt64 := do
  let bytes ← Reader.take 8
  pure (UInt64.ofNat (leNat bytes))

/-- A length, and so many bytes. -/
def readString : Reader UInt8 Bytes := do
  let len ← readUint16
  Reader.take len.toNat

/-- `[key_len][key][type][value_len][value]`. -/
def readState : Reader UInt8 (Bytes × StateValue) := do
  let key ← readString
  let type ← readUint8
  let value ← readString
  pure (key, ⟨⟨type⟩, value⟩)

/-- `[entity_id_len][entity_id][state_count][state]*[timestamp]`. -/
def readSnapshot : Reader UInt8 (Bytes × List (Bytes × StateValue) × UInt64) := do
  let entityId ← readString
  let count ← readUint16
  let states ← readState.times count.toNat
  let timestamp ← readUint64
  pure (entityId, states, timestamp)

/-! ## What is written can be read -/

theorem reads_uint16 (v : UInt16) : readUint16.Reads (hostToNet16 v) v := by
  have h := (Reader.reads_take (hostToNet16 v)).map fun bytes ↦ netToHost16 bytes 0
  have hv := netToHost16_hostToNet16 v []
  rw [List.append_nil] at hv
  rwa [hv] at h

theorem reads_uint8 (v : UInt8) : readUint8.Reads [v] v :=
  (Reader.reads_take [v]).map fun bytes ↦ bytes.getD 0 0

/-- One of the bytes that `encode_uint64` writes. -/
theorem toNat_byte (v : UInt64) (i : ℕ) (hi : i < 8) :
    ((v >>> UInt64.ofNat (i * 8)) &&& 0xFF).toUInt8.toNat = v.toNat / 2 ^ (i * 8) % 256 := by
  have hshift : (UInt64.ofNat (i * 8)).toNat % 64 = i * 8 := by
    rw [UInt64.toNat_ofNat']
    omega
  have hmask : (0xFF : UInt64).toNat = 2 ^ 8 - 1 := rfl
  rw [UInt64.toNat_toUInt8, UInt64.toNat_and, UInt64.toNat_shiftRight, hshift, hmask,
    Nat.and_two_pow_sub_one_eq_mod, Nat.shiftRight_eq_div_pow, Nat.mod_mod]

/-- The bytes from one place on are the number from there on. -/
theorem leNat_bytes (v : UInt64) (n i : ℕ) (hi : i + n ≤ 8) :
    leNat ((List.range' i n).map fun j ↦ ((v >>> UInt64.ofNat (j * 8)) &&& 0xFF).toUInt8) =
      v.toNat / 2 ^ (i * 8) % 2 ^ (n * 8) := by
  induction n generalizing i with
  | zero => rw [Nat.zero_mul, pow_zero, Nat.mod_one]; rfl
  | succ n ih =>
    have hnext : v.toNat / 2 ^ ((i + 1) * 8) = v.toNat / 2 ^ (i * 8) / 2 ^ 8 := by
      rw [Nat.succ_mul, pow_add, Nat.div_div_eq_div_mul]
    have hpow : 2 ^ ((n + 1) * 8) = 2 ^ 8 * 2 ^ (n * 8) := by
      rw [Nat.succ_mul, pow_add, Nat.mul_comm]
    rw [List.range'_succ, List.map_cons, leNat, toNat_byte v i (by omega), ih (i + 1) (by omega),
      hnext, hpow, Nat.mod_mul]
    rfl

theorem leNat_encodeUint64 (v : UInt64) : leNat (encodeUint64 v) = v.toNat := by
  have hbytes := leNat_bytes v 8 0 (by decide)
  rw [Nat.zero_mul, pow_zero, Nat.div_one, Nat.mod_eq_of_lt v.toNat_lt] at hbytes
  exact hbytes

theorem reads_uint64 (v : UInt64) : readUint64.Reads (encodeUint64 v) v := by
  have h := (Reader.reads_take (encodeUint64 v)).map fun bytes ↦ UInt64.ofNat (leNat bytes)
  rwa [leNat_encodeUint64, UInt64.ofNat_toNat] at h

theorem reads_string {str : Bytes} (h : str.length ≤ 65535) :
    readString.Reads (encodeString str) str := by
  refine (reads_uint16 _).bind ?_
  rw [UInt16.toNat_ofNat', Nat.mod_eq_of_lt (Nat.lt_succ_of_le h)]
  exact Reader.reads_take str

theorem reads_state {state : Bytes × StateValue} (hkey : state.1.length ≤ 65535)
    (hvalue : state.2.value.length ≤ 65535) : readState.Reads (encodeState state) state := by
  refine (reads_string hkey).bind ((reads_uint8 _).bind ?_)
  exact (reads_string hvalue).map fun value ↦ (state.1, StateValue.mk state.2.type value)

/-- The size of the body of a snapshot: 12 bytes, the entity's id, and for each state 5 bytes, its
key and its value. -/
def wireSize (entityId : Bytes) (states : States) : ℕ :=
  12 + entityId.length + ((UnorderedMap.pairs states).map fun p ↦
    5 + p.1.length + p.2.value.length).sum

theorem length_snapshotBody (s : StateSnapshot) (memory : UInt64) :
    (snapshotBody s memory).length = wireSize s.entityId s.states := by
  have hstate : ∀ p : Bytes × StateValue,
      (encodeState p).length = 5 + p.1.length + p.2.value.length := by
    intro p
    simp only [encodeState, encodeString, encodeStateValue, List.length_append,
      length_encodeLen16, List.length_singleton]
    omega
  have htime : (encodeUint64 (s.timestamp.getD memory)).length = 8 := rfl
  rw [snapshotBody, wireSize, List.length_append, List.length_append, List.length_append,
    List.length_flatMap, htime, length_hostToNet16, encodeString, length_encodeLen16]
  simp only [hstate]
  omega

/-- **A body that fits its frame is exact.** -/
theorem reads_snapshot {s : StateSnapshot} {memory : UInt64}
    (h : wireSize s.entityId s.states ≤ 65535) :
    readSnapshot.Reads (snapshotBody s memory)
      (s.entityId, UnorderedMap.pairs s.states, s.timestamp.getD memory) := by
  rw [wireSize] at h
  have hpairs : ∀ p ∈ UnorderedMap.pairs s.states,
      5 + p.1.length + p.2.value.length ≤ 65535 := by
    intro p hp
    have hle := List.le_sum_of_mem (List.mem_map_of_mem
      (f := fun p : Bytes × StateValue ↦ 5 + p.1.length + p.2.value.length) hp)
    omega
  have hcount : s.states.entries.length ≤ 65535 := by
    have hle := List.length_le_sum_of_one_le ((UnorderedMap.pairs s.states).map fun p ↦
      5 + p.1.length + p.2.value.length) (by
        intro n hn
        obtain ⟨p, -, rfl⟩ := List.mem_map.1 hn
        omega)
    rw [List.length_map, UnorderedMap.pairs, List.length_map] at hle
    exact Nat.le_trans hle (Nat.le_trans (Nat.le_add_left _ _) h)
  refine (reads_string (by omega)).bind ((reads_uint16 _).bind (Reader.Reads.bind ?_
    ((reads_uint64 _).map fun t ↦ (s.entityId, UnorderedMap.pairs s.states, t))))
  have hlen : (UInt16.ofNat s.states.entries.length).toNat =
      (UnorderedMap.pairs s.states).length := by
    rw [UInt16.toNat_ofNat', Nat.mod_eq_of_lt (Nat.lt_succ_of_le hcount), UnorderedMap.pairs,
      List.length_map]
  rw [hlen]
  refine Reader.reads_times fun p hp ↦ ?_
  have hp := hpairs p hp
  exact reads_state (by omega) (by omega)

/-! ## Through the parser -/

/-- The frame of a snapshot of an entity is parsed to one message, with no bytes left over; the
layout reads its body, with no bytes left over, as the entity's states and its timestamp, if it has
one. -/
def Survives {Conn : Type} [DecidableEq Conn] (r : StateSyncRoom Conn) (entityId : Bytes)
    (memory : UInt64) : Prop :=
  let parsed := Parser.fresh.feed (sendStateSnapshot (r.createSnapshot entityId) memory)
  ∃ msg pairs timestamp, parsed.1 = [msg] ∧ parsed.2.tail = [] ∧ msg.cmd = 0x0207 ∧
    readSnapshot.run msg.body = some ((entityId, pairs, timestamp), []) ∧
    (∀ k, (UnorderedMap.insertAll ∅ pairs).lookup k = (r.statesOf entityId).lookup k) ∧
    ∀ t, r.timestamps.lookup entityId = some t → timestamp = t

section Wire

variable {Conn : Type} [DecidableEq Conn] {r : StateSyncRoom Conn} {entityId : Bytes}
  {memory : UInt64}

theorem survives_of_le (h : wireSize entityId (r.statesOf entityId) ≤ 65535) :
    Survives r entityId memory := by
  have hlen := length_snapshotBody (r.createSnapshot entityId) memory
  have hbody : (Message.mk 0x0207 (snapshotBody (r.createSnapshot entityId) memory)).body.length ≤
      65535 := Nat.le_trans (Nat.le_of_eq hlen) h
  obtain ⟨hmsg, htail⟩ := Parser.feed_serialize hbody
  have hread := @reads_snapshot (r.createSnapshot entityId) memory h []
  rw [List.append_nil] at hread
  refine ⟨_, _, _, hmsg, htail, rfl, hread, fun k ↦ ?_, fun t ht ↦ ?_⟩
  · exact UnorderedMap.lookup_insertAll_pairs _ k
  · show (r.timestamps.lookup entityId).getD memory = t
    rw [ht, Option.getD_some]

theorem le_of_survives (h : Survives r entityId memory) :
    wireSize entityId (r.statesOf entityId) ≤ 65535 := by
  obtain ⟨msg, pairs, timestamp, hmsg, htail, -⟩ := h
  have hle := Parser.length_le_of_feed hmsg htail
  rw [sendStateSnapshot, Protocol.length_serialize, length_snapshotBody] at hle
  exact Nat.le_of_add_le_add_left hle

end Wire

/-- **When a snapshot survives the wire.**  In every state a room comes to by updates, the frame of
the snapshot of an entity gives back its states and its timestamp if and only if the entity's id,
with 12 bytes more, and the keys and values of its states, with 5 bytes more for each state, are
65535 bytes at most. -/
theorem survives_iff {Conn : Type} [DecidableEq Conn] (diffCallback snapshotCallback : Bool)
    (updates : List StateUpdate) (entityId : Bytes) (memory : UInt64) :
    let r : StateSyncRoom Conn :=
      ((StateSyncRoom.new diffCallback snapshotCallback).run (updates.map .update)).1
    Survives r entityId memory ↔ wireSize entityId (r.statesOf entityId) ≤ 65535 :=
  ⟨le_of_survives, survives_of_le⟩

/-- Two values of 40000 bytes, each of which fits a frame of its own. -/
theorem snapshot_too_long :
    ¬ ∀ (updates : List StateUpdate) (entityId : Bytes) (memory : UInt64),
      Survives ((StateSyncRoom.new true true : StateSyncRoom ℕ).run (updates.map .update)).1
        entityId memory := by
  intro h
  have hsize : ∀ v : Bytes, wireSize [1] (((StateSyncRoom.new true true : StateSyncRoom ℕ).run
      ([⟨[1], [1], ⟨⟨4⟩, v⟩, 1⟩, ⟨[1], [2], ⟨⟨4⟩, v⟩, 2⟩].map .update)).1.statesOf [1]) =
      25 + 2 * v.length := by
    intro v
    show 12 + 1 + (5 + 1 + v.length + (5 + 1 + v.length + 0)) = _
    omega
  have hle := le_of_survives (h [⟨[1], [1], ⟨⟨4⟩, List.replicate 40000 0⟩, 1⟩,
    ⟨[1], [2], ⟨⟨4⟩, List.replicate 40000 0⟩, 2⟩] [1] 0)
  rw [hsize, List.length_replicate] at hle
  exact absurd hle (by decide)

end Sync
end ChwellCore
