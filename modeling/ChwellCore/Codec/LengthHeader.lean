import ChwellCore.Core.Bytes
import ChwellCore.Lib.Framing
import Mathlib.Algebra.Group.Nat.Defs

/-!
# The length-header codecs

`LengthHeaderCodec` and `JsonCodec` put the length of a message in front of it, as four bytes in
network order; their `encode`, `decode` and `compact_prefix` are the same text twice.  The decoder
keeps the bytes it received in `buffer_` and the offset of the first unused one in `head_`, as the
protocol parser does, but its length is 32 bits wide and so is the sum `4 + body_len` it compares
with the number of bytes at hand.  For the four largest lengths the sum wraps around to at most 3,
the comparison passes, and the message is read past the end of the buffer.

The loop is therefore not a total function on bytes.  `decodeLoop` says when a turn reads past the
end (`Fault.overread`), and it takes a number of turns because a length of `0xFFFFFFFC` advances
`head_` by nothing at all.

* `frame` is the format as its header comment draws it, without a wrap anywhere.
* `HeadersFit` says of a byte stream that no header in it, as the frames find them, announces one of
  the four lengths.
* `decodeLoop_eq` is the specification of the loop where the headers fit: it returns, and what it
  returns is `frame.drain`.  `headersFit_of_decodeLoop` is the converse for a buffer too short to
  hold one of the four lengths.
-/

set_option autoImplicit false

namespace ChwellCore
namespace Codec

/-- The state of a decoder, `buffer_` and `head_`.  That `head_` does not pass the end of the buffer
is proved, not assumed: where it did, `buffer_.size() - head_` would wrap, and here be zero. -/
structure Decoder where
  buffer : Bytes
  head : ℕ
deriving DecidableEq, Repr

namespace Decoder

/-- A decoder as its constructor makes it. -/
def fresh : Decoder := ⟨[], 0⟩

/-- `reset`. -/
def reset (_ : Decoder) : Decoder := fresh

/-- The bytes not yet used. -/
def tail (c : Decoder) : Bytes := c.buffer.drop c.head

/-- `compact_prefix`, of which every codec has a copy. -/
def compactPrefix (c : Decoder) : Decoder :=
  if c.head = 0 then c
  else if 4096 ≤ c.head ∧ c.buffer.length ≤ c.head * 2 then ⟨c.buffer.drop c.head, 0⟩
  else c

@[simp] theorem tail_compactPrefix (c : Decoder) : c.compactPrefix.tail = c.tail := by
  rw [compactPrefix]
  split
  · rfl
  · split
    · rfl
    · rfl

theorem length_compactPrefix_le (c : Decoder) :
    c.compactPrefix.buffer.length ≤ c.buffer.length := by
  rw [compactPrefix]
  split
  · exact Nat.le_refl _
  · split
    · rw [List.length_drop]
      exact Nat.sub_le _ _
    · exact Nat.le_refl _

theorem head_compactPrefix_le {c : Decoder} (h : c.head ≤ c.buffer.length) :
    c.compactPrefix.head ≤ c.compactPrefix.buffer.length := by
  rw [compactPrefix]
  split
  · exact h
  · split
    · exact Nat.zero_le _
    · exact h

end Decoder

/-- What keeps a call of `decode` from returning. -/
inductive Fault
  /-- `emplace_back` is given a range that ends behind the buffer. -/
  | overread
  /-- The turns granted to the loop are used up. -/
  | outOfFuel
deriving DecidableEq, Repr

/-! ## `encode` and `decode` -/

/-- The body of `encode`. -/
def encodePrefixed (message : Bytes) : Bytes :=
  hostToNet32 (UInt32.ofNat message.length) ++ message

/-- The loop of `decode`, for at most `fuel` turns.  The sum `4 + bodyLen` is one of `UInt32`. -/
def decodeLoop (buffer : Bytes) : ℕ → ℕ → Except Fault (List Bytes × ℕ)
  | 0, _ => .error .outOfFuel
  | fuel + 1, head =>
    let avail := buffer.length - head
    if avail < 4 then .ok ([], head)
    else
      let bodyLen := netToHost32 buffer head
      if avail < (4 + bodyLen).toNat then .ok ([], head)
      else if buffer.length < head + 4 + bodyLen.toNat then .error .overread
      else do
        let r ← decodeLoop buffer fuel (head + (4 + bodyLen).toNat)
        .ok ((buffer.drop (head + 4)).take bodyLen.toNat :: r.1, r.2)

/-- The body of `decode`: the messages completed by `data`, and the decoder afterwards. -/
def decodePrefixed (fuel : ℕ) (c : Decoder) (data : Bytes) :
    Except Fault (List Bytes × Decoder) := do
  let r ← decodeLoop (c.buffer ++ data) fuel c.head
  .ok (r.1, Decoder.compactPrefix ⟨c.buffer ++ data, r.2⟩)

/-- `LengthHeaderCodec::encode`. -/
def LengthHeaderCodec.encode : Bytes → Bytes := encodePrefixed

/-- `LengthHeaderCodec::decode`. -/
def LengthHeaderCodec.decode : ℕ → Decoder → Bytes → Except Fault (List Bytes × Decoder) :=
  decodePrefixed

/-- `JsonCodec::encode`. -/
def JsonCodec.encode : Bytes → Bytes := encodePrefixed

/-- `JsonCodec::decode`. -/
def JsonCodec.decode : ℕ → Decoder → Bytes → Except Fault (List Bytes × Decoder) := decodePrefixed

/-- The two codecs of this format. -/
inductive Prefixed
  | lengthHeader
  | json
deriving DecidableEq, Repr

/-- The `encode` of either codec. -/
def Prefixed.encode : Prefixed → Bytes → Bytes
  | lengthHeader => LengthHeaderCodec.encode
  | json => JsonCodec.encode

/-- The `decode` of either codec. -/
def Prefixed.decode : Prefixed → ℕ → Decoder → Bytes → Except Fault (List Bytes × Decoder)
  | lengthHeader => LengthHeaderCodec.decode
  | json => JsonCodec.decode

theorem Prefixed.encode_eq (k : Prefixed) : k.encode = encodePrefixed := by cases k <;> rfl

theorem Prefixed.decode_eq (k : Prefixed) : k.decode = decodePrefixed := by cases k <;> rfl

/-- One call of `decode` for each chunk; the messages of all of them, and the decoder at the end. -/
def decodeAll (k : Prefixed) (fuel : ℕ) (c : Decoder) :
    List Bytes → Except Fault (List Bytes × Decoder)
  | [] => .ok ([], c)
  | chunk :: chunks => do
    let r ← k.decode fuel c chunk
    let rs ← decodeAll k fuel r.2 chunks
    .ok (r.1 ++ rs.1, rs.2)

/-! ## The format -/

/-- The length that the header at the front of `xs` announces. -/
def announced (xs : Bytes) : ℕ := (netToHost32 xs 0).toNat

/-- One frame `| length (4 bytes) | body (length bytes) |` split off the front. -/
def nextFrame (xs : Bytes) : Option (Bytes × Bytes) :=
  if xs.length < 4 + announced xs then none
  else some ((xs.drop 4).take (announced xs), xs.drop (4 + announced xs))

theorem nextFrame_eq_some {xs b ys : Bytes} (h : nextFrame xs = some (b, ys)) :
    4 + announced xs ≤ xs.length ∧ b = (xs.drop 4).take (announced xs) ∧
      ys = xs.drop (4 + announced xs) := by
  rw [nextFrame] at h
  obtain ⟨hlen, h⟩ := Option.ite_none_left_eq_some.1 h
  cases h
  exact ⟨by omega, rfl, rfl⟩

theorem announced_append {xs : Bytes} (h : 4 ≤ xs.length) (zs : Bytes) :
    announced (xs ++ zs) = announced xs := by
  rw [announced, netToHost32_append (by omega), announced]

/-- **The format is self-delimiting.** -/
def frame : FrameDecoder UInt8 Bytes where
  next := nextFrame
  length_lt := by
    intro xs b ys h
    obtain ⟨hlen, -, rfl⟩ := nextFrame_eq_some h
    rw [List.length_drop]
    omega
  extends_append := by
    intro xs b ys zs h
    obtain ⟨hlen, rfl, rfl⟩ := nextFrame_eq_some h
    rw [nextFrame, announced_append (by omega),
      if_neg (by rw [List.length_append]; omega), List.drop_append_of_le_length (by omega),
      List.take_append_of_le_length (by rw [List.length_drop]; omega),
      List.drop_append_of_le_length hlen]

theorem frame_next_nil : frame.next [] = none := rfl

/-- Every header that the frames of `xs` lead to announces a length that leaves room for the header
in 32 bits. -/
def HeadersFit (xs : Bytes) : Prop :=
  ∀ ys, frame.Reaches xs ys → 4 ≤ ys.length → announced ys < 2 ^ 32 - 4

theorem HeadersFit.item {xs b ys : Bytes} (h : HeadersFit xs) (hs : frame.next xs = some (b, ys)) :
    HeadersFit ys :=
  fun zs hzs ↦ h zs (.item hs hzs)

theorem HeadersFit.drain {xs zs : Bytes} (h : HeadersFit (xs ++ zs)) :
    HeadersFit ((frame.drain xs).2 ++ zs) :=
  fun _ hys ↦ h _ (((FrameDecoder.reaches_drain xs).append zs).trans hys)

theorem HeadersFit.of_append {xs zs : Bytes} (h : HeadersFit (xs ++ zs)) : HeadersFit xs := by
  intro ys hys hlen
  have := h (ys ++ zs) (hys.append zs) (by rw [List.length_append]; omega)
  rwa [announced_append hlen] at this

/-- What is to be checked of `xs ++ zs` is checked in `xs`, and in what `xs` leaves for `zs`. -/
theorem HeadersFit.append {xs zs : Bytes} (hx : HeadersFit xs)
    (hz : HeadersFit ((frame.drain xs).2 ++ zs)) : HeadersFit (xs ++ zs) := by
  intro ys hys hlen
  rcases FrameDecoder.reaches_append_cases hys with ⟨xs', b, rest, hr, hs, rfl⟩ | hr
  · obtain ⟨hlen', -, -⟩ := nextFrame_eq_some hs
    rw [announced_append (by omega)]
    exact hx xs' hr (by omega)
  · exact hz ys hr hlen

/-! ## What the loop computes -/

theorem announced_drop (buffer : Bytes) (head : ℕ) :
    announced (buffer.drop head) = (netToHost32 buffer head).toNat := by
  rw [announced, netToHost32_drop, Nat.add_zero]

/-- Where the sum does not wrap, it is the length of the frame. -/
theorem frameLen_of_lt {n : UInt32} (h : n.toNat < 2 ^ 32 - 4) : (4 + n).toNat = 4 + n.toNat := by
  rw [UInt32.toNat_add, show (4 : UInt32).toNat = 4 from rfl]
  omega

/-- Where it wraps, it is at most three. -/
theorem frameLen_of_le {n : UInt32} (h : 2 ^ 32 - 4 ≤ n.toNat) : (4 + n).toNat < 4 := by
  have hn := n.toNat_lt
  rw [UInt32.toNat_add, show (4 : UInt32).toNat = 4 from rfl]
  omega

section Turn

variable {buffer : Bytes} {fuel head : ℕ}

/-- A turn that finds no complete frame. -/
theorem decodeLoop_stop (h : buffer.length - head < 4 ∨
    buffer.length - head < (4 + netToHost32 buffer head).toNat) :
    decodeLoop buffer (fuel + 1) head = .ok ([], head) := by
  simp only [decodeLoop]
  split
  · rfl
  · next h4 => rw [if_pos (h.resolve_left h4)]

/-- A turn that finds one. -/
theorem decodeLoop_frame (h4 : 4 ≤ buffer.length - head)
    (h : (4 + netToHost32 buffer head).toNat ≤ buffer.length - head)
    (hin : head + 4 + (netToHost32 buffer head).toNat ≤ buffer.length) :
    decodeLoop buffer (fuel + 1) head =
      (decodeLoop buffer fuel (head + (4 + netToHost32 buffer head).toNat)).map fun r ↦
        ((buffer.drop (head + 4)).take (netToHost32 buffer head).toNat :: r.1, r.2) := by
  simp only [decodeLoop]
  rw [if_neg (by omega), if_neg (by omega), if_neg (by omega)]
  cases decodeLoop buffer fuel (head + (4 + netToHost32 buffer head).toNat) <;> rfl

/-- What a loop that returns did in its first turn. -/
theorem decodeLoop_eq_ok {r : List Bytes × ℕ} (h : decodeLoop buffer (fuel + 1) head = .ok r) :
    ((buffer.length - head < 4 ∨ buffer.length - head < (4 + netToHost32 buffer head).toNat) ∧
        r = ([], head)) ∨
      (4 ≤ buffer.length - head ∧ (4 + netToHost32 buffer head).toNat ≤ buffer.length - head ∧
        head + 4 + (netToHost32 buffer head).toNat ≤ buffer.length ∧
        ∃ r', decodeLoop buffer fuel (head + (4 + netToHost32 buffer head).toNat) = .ok r' ∧
          r = ((buffer.drop (head + 4)).take (netToHost32 buffer head).toNat :: r'.1, r'.2)) := by
  by_cases hstop : buffer.length - head < 4 ∨
      buffer.length - head < (4 + netToHost32 buffer head).toNat
  · rw [decodeLoop_stop hstop] at h
    cases h
    exact .inl ⟨hstop, rfl⟩
  · obtain ⟨h4, hpart⟩ := not_or.1 hstop
    by_cases hin : buffer.length < head + 4 + (netToHost32 buffer head).toNat
    · simp only [decodeLoop] at h
      rw [if_neg h4, if_neg hpart, if_pos hin] at h
      cases h
    · have h4 := Nat.le_of_not_lt h4
      have hpart := Nat.le_of_not_lt hpart
      have hin := Nat.le_of_not_lt hin
      rw [decodeLoop_frame h4 hpart hin] at h
      rcases hrest : decodeLoop buffer fuel (head + (4 + netToHost32 buffer head).toNat) with
        _ | r'
      · rw [hrest] at h
        cases h
      · rw [hrest] at h
        cases h
        exact .inr ⟨h4, hpart, hin, r', rfl, rfl⟩

end Turn

/-- The offset behind the last complete frame from `head` on. -/
def endOf (buffer : Bytes) (head : ℕ) : ℕ :=
  buffer.length - (frame.drain (buffer.drop head)).2.length

/-- **The loop where the headers fit**: one turn for each frame and one to find that no other is
complete, and the frames are those of the format. -/
theorem decodeLoop_eq {buffer : Bytes} {fuel head : ℕ} (hfit : HeadersFit (buffer.drop head))
    (hle : head ≤ buffer.length) (hfuel : buffer.length - head < fuel) :
    decodeLoop buffer fuel head = .ok ((frame.drain (buffer.drop head)).1, endOf buffer head) ∧
      buffer.drop (endOf buffer head) = (frame.drain (buffer.drop head)).2 := by
  induction fuel generalizing head with
  | zero => omega
  | succ fuel ih =>
    have hlen : (buffer.drop head).length = buffer.length - head := List.length_drop
    have hann := announced_drop buffer head
    by_cases hpart : buffer.length - head < 4 + (netToHost32 buffer head).toNat
    · have hstop : buffer.length - head < 4 ∨
          buffer.length - head < (4 + netToHost32 buffer head).toNat := by
        rcases Nat.lt_or_ge (buffer.length - head) 4 with h4 | h4
        · exact .inl h4
        · have hlt := hfit _ (.refl _) (by omega)
          rw [hann] at hlt
          exact .inr (by rwa [frameLen_of_lt hlt])
      have hnone : frame.next (buffer.drop head) = none := if_pos (by omega)
      have hend : endOf buffer head = head := by
        rw [endOf, FrameDecoder.drain_of_none hnone, hlen]
        omega
      rw [decodeLoop_stop hstop, hend, FrameDecoder.drain_of_none hnone]
      exact ⟨rfl, rfl⟩
    · have hlt := hfit _ (.refl _) (by omega)
      rw [hann] at hlt
      have hsome : frame.next (buffer.drop head) =
          some ((buffer.drop (head + 4)).take (netToHost32 buffer head).toNat,
            buffer.drop (head + (4 + (netToHost32 buffer head).toNat))) := by
        show nextFrame _ = _
        rw [nextFrame, if_neg (by omega), hann, List.drop_drop, List.drop_drop]
      obtain ⟨hrun, htail⟩ := ih (hfit.item hsome) (by omega) (by omega)
      have hend : endOf buffer head =
          endOf buffer (head + (4 + (netToHost32 buffer head).toNat)) := by
        rw [endOf, FrameDecoder.drain_of_some hsome, endOf]
      have hwide := frameLen_of_lt hlt
      rw [decodeLoop_frame (by omega) (by omega) (by omega), hwide, hrun, hend,
        FrameDecoder.drain_of_some hsome]
      exact ⟨rfl, htail⟩

/-- A message that is read whole: it lies in the buffer, behind a header with its length. -/
def Framed (buffer m : Bytes) : Prop :=
  ∃ off, off + 4 + m.length ≤ buffer.length ∧ (netToHost32 buffer off).toNat = m.length ∧
    m = (buffer.drop (off + 4)).take m.length

/-- Whatever the lengths, a loop that returns did not leave the buffer, and read whole messages. -/
theorem decodeLoop_ok {buffer : Bytes} {fuel head : ℕ} {r : List Bytes × ℕ}
    (hle : head ≤ buffer.length) (h : decodeLoop buffer fuel head = .ok r) :
    r.2 ≤ buffer.length ∧ ∀ m ∈ r.1, Framed buffer m := by
  induction fuel generalizing head r with
  | zero => cases h
  | succ fuel ih =>
    rcases decodeLoop_eq_ok h with ⟨-, rfl⟩ | ⟨h4, hpart, hin, r', hrest, rfl⟩
    · exact ⟨hle, fun m hm ↦ absurd hm List.not_mem_nil⟩
    · obtain ⟨hlast, hmsgs⟩ := ih (by omega) hrest
      refine ⟨hlast, fun m hm ↦ ?_⟩
      rcases List.mem_cons.1 hm with rfl | hm
      · have hl : ((buffer.drop (head + 4)).take (netToHost32 buffer head).toNat).length =
            (netToHost32 buffer head).toNat := by
          rw [List.length_take, List.length_drop]
          omega
        exact ⟨head, by omega, hl.symm, by rw [hl]⟩
      · exact hmsgs m hm

/-- **The converse**: over a buffer too short to hold one of the four lengths, a loop that returns
met none of them. -/
theorem headersFit_of_decodeLoop {buffer : Bytes} {fuel head : ℕ} {r : List Bytes × ℕ}
    (hle : head ≤ buffer.length) (hshort : buffer.length < 2 ^ 32)
    (h : decodeLoop buffer fuel head = .ok r) : HeadersFit (buffer.drop head) := by
  induction fuel generalizing head r with
  | zero => cases h
  | succ fuel ih =>
    have hlen : (buffer.drop head).length = buffer.length - head := List.length_drop
    have hann := announced_drop buffer head
    have hlt : 4 ≤ buffer.length - head → (netToHost32 buffer head).toNat < 2 ^ 32 - 4 := by
      intro h4
      by_contra hge
      have hwrap := frameLen_of_le (Nat.le_of_not_lt hge)
      rcases decodeLoop_eq_ok h with ⟨hstop, -⟩ | ⟨-, -, hin, -⟩ <;> omega
    intro ys hys hys4
    cases hys with
    | refl =>
      rw [hann]
      exact hlt (by omega)
    | item hs hrest =>
      obtain ⟨hpart, -, rfl⟩ := nextFrame_eq_some hs
      have hwide := frameLen_of_lt (hlt (by omega))
      rcases decodeLoop_eq_ok h with ⟨hstop, -⟩ | ⟨-, -, -, r', hr, -⟩
      · omega
      · rw [hwide] at hr
        rw [hann, List.drop_drop] at hrest
        exact ih (by omega) hr ys hrest hys4

/-! ## Calls of `decode` -/

/-- What a safe call of `decode` does: its loop returns, given enough turns, without having left the
buffer, the decoder it leaves behind has its offset in its buffer, and every message it hands out
was read whole. -/
structure SafeCall (k : Prefixed) (c : Decoder) (data : Bytes) (msgs : List Bytes)
    (c' : Decoder) : Prop where
  returns : ∃ turns, ∀ fuel, turns ≤ fuel → k.decode fuel c data = .ok (msgs, c')
  loop_head_le : ∃ fuel head, decodeLoop (c.buffer ++ data) fuel c.head = .ok (msgs, head) ∧
    head ≤ (c.buffer ++ data).length
  head_le : c'.head ≤ c'.buffer.length
  framed : ∀ m ∈ msgs, Framed (c.buffer ++ data) m

/-- Every call of a sequence of calls of `decode` is safe. -/
def SafeRun (k : Prefixed) (c : Decoder) : List Bytes → Prop
  | [] => True
  | data :: chunks => ∃ msgs c', SafeCall k c data msgs c' ∧ SafeRun k c' chunks

/-- What a call of `decode` makes of what its loop returned. -/
theorem decode_of_decodeLoop {k : Prefixed} {c : Decoder} {data : Bytes} {fuel : ℕ}
    {r : List Bytes × ℕ} (h : decodeLoop (c.buffer ++ data) fuel c.head = .ok r) :
    k.decode fuel c data = .ok (r.1, Decoder.compactPrefix ⟨c.buffer ++ data, r.2⟩) := by
  rw [k.decode_eq, decodePrefixed, h]
  rfl

theorem decode_eq_ok {k : Prefixed} {c c' : Decoder} {data : Bytes} {fuel : ℕ} {msgs : List Bytes}
    (h : k.decode fuel c data = .ok (msgs, c')) :
    ∃ head, decodeLoop (c.buffer ++ data) fuel c.head = .ok (msgs, head) ∧
      c' = Decoder.compactPrefix ⟨c.buffer ++ data, head⟩ := by
  rw [k.decode_eq, decodePrefixed] at h
  rcases hloop : decodeLoop (c.buffer ++ data) fuel c.head with _ | ⟨ms, head⟩
  · rw [hloop] at h
    cases h
  · rw [hloop] at h
    cases h
    exact ⟨head, rfl, rfl⟩

/-- The decoder after a call where the headers fit. -/
def after (c : Decoder) (data : Bytes) : Decoder :=
  Decoder.compactPrefix ⟨c.buffer ++ data, endOf (c.buffer ++ data) c.head⟩

section Call

variable {k : Prefixed} {c : Decoder} {data : Bytes} (hle : c.head ≤ c.buffer.length)
  (hfit : HeadersFit (c.tail ++ data))

include hle

theorem drop_head_append : (c.buffer ++ data).drop c.head = c.tail ++ data :=
  List.drop_append_of_le_length hle

theorem head_le_append : c.head ≤ (c.buffer ++ data).length := by
  rw [List.length_append]
  omega

include hfit

/-- **A call where the headers fit** drains the unused bytes followed by the new ones. -/
theorem decode_spec :
    (∀ fuel, (c.buffer ++ data).length < fuel →
      k.decode fuel c data = .ok ((frame.drain (c.tail ++ data)).1, after c data)) ∧
      (after c data).tail = (frame.drain (c.tail ++ data)).2 := by
  have hle' : c.head ≤ (c.buffer ++ data).length := head_le_append hle
  rw [← drop_head_append hle] at hfit ⊢
  constructor
  · intro fuel hfuel
    exact decode_of_decodeLoop (decodeLoop_eq hfit hle' (by omega)).1
  · rw [after, Decoder.tail_compactPrefix]
    exact (decodeLoop_eq hfit hle' (Nat.lt_succ_self _)).2

theorem safeCall : SafeCall k c data (frame.drain (c.tail ++ data)).1 (after c data) := by
  have hle' : c.head ≤ (c.buffer ++ data).length := head_le_append hle
  have hreturns := (decode_spec (k := k) hle hfit).1
  obtain ⟨head, hloop, hafter⟩ := decode_eq_ok (hreturns _ (Nat.lt_succ_self _))
  obtain ⟨hhead, hframed⟩ := decodeLoop_ok hle' hloop
  refine ⟨⟨_, hreturns⟩, ⟨_, head, hloop, hhead⟩, ?_, hframed⟩
  rw [hafter]
  exact Decoder.head_compactPrefix_le hhead

end Call

/-- **A stream whose headers fit is decoded safely**, wherever it is cut. -/
theorem safeRun_of_headersFit {k : Prefixed} {c : Decoder} {chunks : List Bytes}
    (hle : c.head ≤ c.buffer.length) (hfit : HeadersFit (c.tail ++ chunks.flatten)) :
    SafeRun k c chunks := by
  induction chunks generalizing c with
  | nil => trivial
  | cons data chunks ih =>
    rw [List.flatten_cons, ← List.append_assoc] at hfit
    have hsafe := safeCall (k := k) hle hfit.of_append
    refine ⟨_, _, hsafe, ih hsafe.head_le ?_⟩
    rw [(decode_spec (k := k) hle hfit.of_append).2]
    exact hfit.drain

/-- **A short stream that is decoded safely has headers that fit.** -/
theorem headersFit_of_safeRun {k : Prefixed} {c : Decoder} {chunks : List Bytes}
    (hle : c.head ≤ c.buffer.length) (htail : HeadersFit c.tail)
    (hshort : c.buffer.length + chunks.flatten.length < 2 ^ 32) (h : SafeRun k c chunks) :
    HeadersFit (c.tail ++ chunks.flatten) := by
  induction chunks generalizing c with
  | nil => rwa [List.flatten_nil, List.append_nil]
  | cons data chunks ih =>
    obtain ⟨msgs, c', hcall, hrest⟩ := h
    obtain ⟨turns, hturns⟩ := hcall.returns
    rw [List.flatten_cons, List.length_append] at hshort
    have hlen : (c.buffer ++ data).length = c.buffer.length + data.length := List.length_append
    have hfit : HeadersFit (c.tail ++ data) := by
      obtain ⟨head, hloop, -⟩ := decode_eq_ok (hturns turns (Nat.le_refl _))
      rw [← drop_head_append hle]
      exact headersFit_of_decodeLoop (head_le_append hle) (by omega) hloop
    obtain ⟨hspec, hleft⟩ := decode_spec (k := k) hle hfit
    have hc' : c' = after c data := by
      have hboth := hturns (turns + (c.buffer ++ data).length + 1) (by omega)
      rw [hspec _ (by omega)] at hboth
      cases hboth
      rfl
    have hbuf : c'.buffer.length ≤ c.buffer.length + data.length := by
      rw [hc', ← hlen]
      exact Decoder.length_compactPrefix_le _
    have hfit' : HeadersFit c'.tail := by
      rw [hc', hleft]
      have hdrain := @HeadersFit.drain (c.tail ++ data) [] (by rwa [List.append_nil])
      rwa [List.append_nil] at hdrain
    have hrec := ih hcall.head_le hfit' (by omega) hrest
    rw [hc', hleft] at hrec
    rw [List.flatten_cons, ← List.append_assoc]
    exact hfit.append hrec

theorem headersFit_nil : HeadersFit [] := by
  intro ys hys hlen
  cases hys with
  | refl => cases hlen
  | item hs _ => cases hs

/-! ## Encoded messages -/

/-- An encoded message is one complete frame, as long as its length fits in the header. -/
theorem frame_next_encode {m : Bytes} (h : m.length < 2 ^ 32) :
    frame.next (encodePrefixed m) = some (m, []) := by
  have hann : announced (encodePrefixed m) = m.length := by
    rw [announced, encodePrefixed, netToHost32_hostToNet32, UInt32.toNat_ofNat']
    omega
  have hlen : (encodePrefixed m).length = 4 + m.length := by
    rw [encodePrefixed, List.length_append, length_hostToNet32]
  have hbody : (encodePrefixed m).drop 4 = m := rfl
  show nextFrame _ = _
  rw [nextFrame, hann, if_neg (by omega), hbody, List.take_length,
    List.drop_eq_nil_of_le (by omega)]

theorem headersFit_encode {msgs : List Bytes} (h : ∀ m ∈ msgs, m.length < 2 ^ 32 - 4) :
    HeadersFit (msgs.flatMap encodePrefixed) := by
  intro ys hys hlen
  have hnext : ∀ m ∈ msgs, frame.next (encodePrefixed m) = some (m, []) := by
    intro m hm
    have := h m hm
    exact frame_next_encode (by omega)
  obtain ⟨rest, hrest, rfl⟩ := FrameDecoder.reaches_flatMap frame_next_nil hnext hys
  rcases rest with _ | ⟨m, rest⟩
  · cases hlen
  · have hm := h m (hrest.subset List.mem_cons_self)
    rw [List.flatMap_cons, announced, encodePrefixed, List.append_assoc, netToHost32_hostToNet32,
      UInt32.toNat_ofNat']
    omega

/-- The decoder after a sequence of calls where the headers fit. -/
def afterAll (c : Decoder) (chunks : List Bytes) : Decoder := chunks.foldl after c

/-- **A sequence of calls where the headers fit** feeds the chunks to the format. -/
theorem decodeAll_spec {k : Prefixed} {c : Decoder} {chunks : List Bytes}
    (hle : c.head ≤ c.buffer.length) (hfit : HeadersFit (c.tail ++ chunks.flatten)) :
    (∀ fuel, c.buffer.length + chunks.flatten.length < fuel →
      decodeAll k fuel c chunks = .ok ((frame.feedAll c.tail chunks).1, afterAll c chunks)) ∧
      (afterAll c chunks).tail = (frame.feedAll c.tail chunks).2 ∧
      (afterAll c chunks).head ≤ (afterAll c chunks).buffer.length := by
  induction chunks generalizing c with
  | nil => exact ⟨fun _ _ ↦ rfl, rfl, hle⟩
  | cons data chunks ih =>
    rw [List.flatten_cons, ← List.append_assoc] at hfit
    have hlen : (c.buffer ++ data).length = c.buffer.length + data.length := List.length_append
    have hbuf : (after c data).buffer.length ≤ (c.buffer ++ data).length :=
      Decoder.length_compactPrefix_le _
    have hsafe := safeCall (k := k) hle hfit.of_append
    obtain ⟨hcall, hleft⟩ := decode_spec (k := k) hle hfit.of_append
    have hfit' : HeadersFit ((after c data).tail ++ chunks.flatten) := by
      rw [hleft]
      exact hfit.drain
    obtain ⟨hrest, htail, hhead⟩ := ih hsafe.head_le hfit'
    rw [hleft] at hrest htail
    refine ⟨fun fuel hfuel ↦ ?_, htail, hhead⟩
    rw [List.flatten_cons, List.length_append] at hfuel
    rw [decodeAll, hcall fuel (by omega)]
    show (decodeAll k fuel (after c data) chunks >>= _) = _
    rw [hrest fuel (by omega)]
    rfl

/-! ## Streams -/

/-- **Hostile input.**  A stream in which no header reached by the frames announces one of the four
lengths that wrap is decoded safely, however it is cut into chunks; and of the streams shorter than
`2 ^ 32` bytes, which cannot hold a message of such a length, no other is. -/
theorem safeRun_headersFit (k : Prefixed) (chunks : List Bytes) :
    (HeadersFit chunks.flatten → SafeRun k .fresh chunks) ∧
      (chunks.flatten.length < 2 ^ 32 →
        (SafeRun k .fresh chunks ↔ HeadersFit chunks.flatten)) := by
  have hsafe : HeadersFit chunks.flatten → SafeRun k .fresh chunks :=
    fun h ↦ safeRun_of_headersFit (Nat.le_refl 0) h
  refine ⟨hsafe, fun hshort ↦ ⟨fun hrun ↦ ?_, hsafe⟩⟩
  exact headersFit_of_safeRun (c := .fresh) (Nat.le_refl 0) headersFit_nil (by
    show 0 + _ < _
    omega) hrun

theorem safeRun_cutHeader :
    HeadersFit [[0, 0], [0, 1, 65]].flatten ∧ SafeRun .json .fresh [[0, 0], [0, 1, 65]] := by
  have hfit : HeadersFit [[0, 0], [0, 1, 65]].flatten := @headersFit_encode [[65]] (by simp)
  exact ⟨hfit, (safeRun_headersFit .json [[0, 0], [0, 1, 65]]).1 hfit⟩

/-- A header of four `0xFF` bytes and nothing behind it is read as a message of four gigabytes. -/
theorem overread_fullHeader :
    ¬ ∀ (k : Prefixed) (chunks : List Bytes), SafeRun k .fresh chunks := by
  intro h
  obtain ⟨msgs, c', hcall, -⟩ := h .lengthHeader [[255, 255, 255, 255]]
  obtain ⟨turns, hturns⟩ := hcall.returns
  have hread := hturns (turns + 1) (Nat.le_succ _)
  have hfault : Prefixed.lengthHeader.decode (turns + 1) .fresh [255, 255, 255, 255] =
      .error .overread := rfl
  rw [hfault] at hread
  cases hread

/-- **Round trip under any chunking.**  What one of the two codecs encoded, the other or the same
one decodes: the messages, in order, with no byte left unread. -/
theorem decodeAll_encode {enc dec : Prefixed} {msgs chunks : List Bytes}
    (hlen : ∀ m ∈ msgs, m.length < 2 ^ 32 - 4) (hcut : chunks.flatten = msgs.flatMap enc.encode) :
    ∃ turns c, (∀ fuel, turns ≤ fuel → decodeAll dec fuel .fresh chunks = .ok (msgs, c)) ∧
      c.tail = [] ∧ c.head = c.buffer.length := by
  rw [enc.encode_eq] at hcut
  have hfit : HeadersFit (Decoder.fresh.tail ++ chunks.flatten) := by
    rw [hcut]
    exact headersFit_encode hlen
  have hfeed : frame.feedAll Decoder.fresh.tail chunks = (msgs, []) := by
    rw [show Decoder.fresh.tail = [] from rfl,
      FrameDecoder.feedAll_eq_drain_flatten frame_next_nil, hcut]
    refine FrameDecoder.drain_flatMap frame_next_nil fun m hm ↦ frame_next_encode ?_
    have := hlen m hm
    omega
  obtain ⟨hrun, htail, hhead⟩ := decodeAll_spec (k := dec) (Nat.le_refl 0) hfit
  rw [hfeed] at hrun htail
  refine ⟨_, afterAll .fresh chunks, hrun, htail, ?_⟩
  exact Nat.le_antisymm hhead (List.drop_eq_nil_iff.1 htail)

theorem decodeAll_foo_empty :
    (∀ m ∈ [lit "foo", []], m.length < 2 ^ 32 - 4) ∧
      ∃ turns c, (∀ fuel, turns ≤ fuel →
        decodeAll .json fuel .fresh [[0, 0, 0], [3, 102], [111, 111, 0, 0, 0], [], [0]] =
          .ok ([lit "foo", []], c)) ∧ c.tail = [] ∧ c.head = c.buffer.length :=
  ⟨by decide, @decodeAll_encode .lengthHeader _ _ _ (by decide) (by decide)⟩

end Codec
end ChwellCore
