import ChwellCore.Codec.Protobuf

/-!
# Varint headers that no encoder writes

`append_varint32` writes at most five bytes, and in the fifth only the four lowest bits, since the
other four bytes have 28.  `decode` is given whatever arrives, and two kinds of headers are
malformed.

* The fifth byte ends the header and has more than four bits (`Spills`).  `parse_varint32` shifts
  the others out and returns what is left: the header is read as that of a shorter message.
* The fifth byte says that another follows (`Endless`).  `parse_varint32` fails, as it does when the
  bytes run out, and `decode` does not tell the two apart: it keeps the header and waits.

`readsExactly_iff` and `completable_iff` say that nothing else goes wrong, and `headers_iff` says it
of a decoder and the stream it is fed.  A header that does not end is kept for ever, with all that
arrives behind it (`decodeAll_of_endless`); whatever else is unread only waits for more bytes
(`exists_decode_ne_nil_iff`).
-/

set_option autoImplicit false

namespace ChwellCore
namespace Codec
namespace ProtobufCodec

/-- The bytes are a base-128 encoding of `v`, the lowest digit first. -/
def Encodes (header : Bytes) (v : ℕ) : Prop := Ended More header ∧ payload header = v

/-- If `parse_varint32` succeeds at `pos`, then the bytes it has consumed encode the value that it
returns. -/
def ReadsExactly (buf : Bytes) (pos : ℕ) : Prop :=
  ∀ len pos', parseVarint32 buf pos = (some len, pos') →
    Encodes ((buf.drop pos).take (pos' - pos)) len.toNat

/-- A complete frame, `[len (varint32)][bytes]`. -/
def IsFrame (f : Bytes) : Prop :=
  ∃ header body, Encodes header body.length ∧ header.length ≤ 5 ∧ body.length < 2 ^ 32 ∧
    f = header ++ body

/-- A proper prefix of some complete frame. -/
def Completable (left : Bytes) : Prop := ∃ rest, rest ≠ [] ∧ IsFrame (left ++ rest)

/-- Four bytes that say that another follows, and then one that satisfies `P`. -/
def Fifth (P : UInt8 → Prop) (xs : Bytes) : Prop :=
  (∀ b ∈ xs.take 4, More b) ∧ ∃ b, xs[4]? = some b ∧ P b

/-- The header at the front ends with its fifth byte, which has more than four bits. -/
def Spills : Bytes → Prop := Fifth fun b ↦ 16 ≤ b.toNat ∧ b.toNat < 128

/-- The header at the front does not end with its fifth byte. -/
def Endless : Bytes → Prop := Fifth More

/-- The header at the front is not a varint of 32 bits. -/
def Malformed (xs : Bytes) : Prop := Spills xs ∨ Endless xs

/-! ## Headers -/

theorem payload_append (xs ys : Bytes) :
    payload (xs ++ ys) = payload xs + 128 ^ xs.length * payload ys := by
  rw [payload, List.map_append, Nat.ofDigits_append, List.length_map]
  rfl

theorem payload_lt (xs : Bytes) : payload xs < 128 ^ xs.length := by
  have hlt := Nat.ofDigits_lt_base_pow_length (b := 128) (l := xs.map fun b ↦ b.toNat % 128)
    (by decide) fun d hd ↦ ?_
  · rwa [List.length_map] at hlt
  · obtain ⟨b, -, rfl⟩ := List.mem_map.1 hd
    exact Nat.mod_lt _ (by decide)

/-- A fifth byte that satisfies `P`, in a header that ends there. -/
theorem fifth_append_iff {P : UInt8 → Prop} {header : Bytes} (h : Ended More header)
    (hlen : header.length ≤ 5) (rest : Bytes) :
    Fifth P (header ++ rest) ↔ ∃ first b, header = first ++ [b] ∧ first.length = 4 ∧ P b := by
  obtain ⟨first, last, rfl, hfirst, hlast⟩ := h.exists_eq_concat
  rw [List.length_append, List.length_singleton] at hlen
  have hcut : first ++ [last] ++ rest = first ++ last :: rest := by
    rw [List.append_assoc, List.singleton_append]
  constructor
  · rintro ⟨hmore, b, hb, hP⟩
    have hfour : first.length = 4 := by
      by_contra hne
      refine hlast (hmore last ?_)
      obtain ⟨k, hk⟩ := Nat.exists_eq_add_one_of_ne_zero (show 4 - first.length ≠ 0 by omega)
      rw [hcut, List.take_append, hk, List.take_succ_cons]
      exact List.mem_append_right _ List.mem_cons_self
    rw [hcut, ← hfour, List.getElem?_append_right le_rfl, Nat.sub_self,
      List.getElem?_cons_zero] at hb
    exact ⟨first, last, rfl, hfour, Option.some.inj hb ▸ hP⟩
  · rintro ⟨first', b, heq, hfour, hP⟩
    obtain ⟨rfl, hb⟩ := List.append_inj' heq rfl
    obtain rfl := List.head_eq_of_cons_eq hb
    rw [Fifth, hcut, ← hfour, List.take_left, List.getElem?_append_right le_rfl, Nat.sub_self,
      List.getElem?_cons_zero]
    exact ⟨hfirst, _, rfl, hP⟩

/-- **A header of at most five bytes** has room for 32 bits unless it spills. -/
theorem payload_lt_iff {header : Bytes} (h : Ended More header) (hlen : header.length ≤ 5)
    (rest : Bytes) : payload header < 2 ^ 32 ↔ ¬ Spills (header ++ rest) := by
  rw [Spills, fifth_append_iff h hlen]
  obtain ⟨first, last, rfl, -, hlast⟩ := h.exists_eq_concat
  rw [List.length_append, List.length_singleton] at hlen
  have hlow := payload_lt first
  have hlast : last.toNat < 128 := Nat.lt_of_not_le hlast
  rw [payload_append, payload_singleton, Nat.mod_eq_of_lt hlast]
  by_cases hfour : first.length = 4
  · rw [hfour] at hlow ⊢
    constructor
    · rintro hlt ⟨first', b, heq, -, hb, -⟩
      obtain ⟨-, hb'⟩ := List.append_inj' heq rfl
      rw [← List.head_eq_of_cons_eq hb'] at hb
      omega
    · intro hnot
      have : ¬ 16 ≤ last.toNat := fun hle ↦ hnot ⟨first, last, rfl, hfour, hle, hlast⟩
      omega
  · have hpow : 128 ^ first.length ≤ 128 ^ 3 := Nat.pow_le_pow_right (by decide) (by omega)
    refine iff_of_true ?_ ?_
    · have hmul : 128 ^ first.length * last.toNat ≤ 128 ^ 3 * 127 :=
        Nat.mul_le_mul hpow (by omega)
      omega
    · rintro ⟨first', b, heq, hfour', -⟩
      obtain ⟨rfl, -⟩ := List.append_inj' heq rfl
      exact hfour hfour'

theorem not_endless {header : Bytes} (h : Ended More header) (hlen : header.length ≤ 5)
    (rest : Bytes) : ¬ Endless (header ++ rest) := by
  rw [Endless, fifth_append_iff h hlen]
  rintro ⟨first, b, rfl, -, hb⟩
  obtain ⟨first', b', heq, -, hlast⟩ := h.exists_eq_concat
  obtain ⟨-, hb'⟩ := List.append_inj' heq rfl
  rw [← List.head_eq_of_cons_eq hb'] at hlast
  exact hlast hb

/-- **What can stand at the front**: a header, the beginning of one, or five bytes that all say that
another follows. -/
theorem header_cases (xs : Bytes) :
    (∃ header rest, Ended More header ∧ header.length ≤ 5 ∧ xs = header ++ rest) ∨
      (xs.length < 5 ∧ ∀ b ∈ xs, More b) ∨ Endless xs := by
  rcases exists_ended_or More 5 xs with ⟨header, hended, hlen, rest, hrest⟩ | hmore
  · exact .inl ⟨header, rest, hended, hlen, hrest.symm⟩
  · rcases Nat.lt_or_ge xs.length 5 with hlt | hge
    · rw [List.take_of_length_le (by omega)] at hmore
      exact .inr (.inl ⟨hlt, hmore⟩)
    · have htake : xs.take 5 = xs.take 4 ++ [xs[4]] := by simp
      rw [htake] at hmore
      obtain ⟨hfour, hlast⟩ := List.forall_mem_append.1 hmore
      exact .inr (.inr ⟨hfour, xs[4], List.getElem?_eq_getElem hge,
        hlast _ (List.mem_singleton_self _)⟩)

/-- What follows does not change a fifth byte. -/
theorem Fifth.append {P : UInt8 → Prop} {xs : Bytes} (h : Fifth P xs) (ys : Bytes) :
    Fifth P (xs ++ ys) := by
  obtain ⟨hfour, b, hb, hP⟩ := h
  have hlt := (List.getElem?_eq_some_iff.1 hb).1
  rw [Fifth, List.take_append_of_le_length (by omega), List.getElem?_append_left hlt]
  exact ⟨hfour, b, hb, hP⟩

/-- **When `parse_varint32` reads exactly.** -/
theorem readsExactly_iff (buf : Bytes) (pos : ℕ) :
    ReadsExactly buf pos ↔ ¬ Spills (buf.drop pos) := by
  rcases exists_ended_or More 5 (buf.drop pos) with ⟨header, hended, hlen, hpre⟩ | hmore
  · have hparse := parseVarint32_of_ended hended hlen hpre
    obtain ⟨rest, hrest⟩ := hpre
    have htake : (buf.drop pos).take (pos + header.length - pos) = header := by
      rw [← hrest, Nat.add_sub_cancel_left, List.take_left]
    rw [← hrest, ← payload_lt_iff hended hlen rest]
    constructor
    · intro h
      have hexact := (h _ _ hparse).2
      rw [htake, UInt32.toNat_ofNat'] at hexact
      omega
    · intro hlt len pos' h
      rw [hparse] at h
      obtain ⟨hsome, rfl⟩ := Prod.mk.inj h
      obtain rfl := Option.some.inj hsome
      rw [htake, UInt32.toNat_ofNat', Nat.mod_eq_of_lt hlt]
      exact ⟨hended, rfl⟩
  · refine iff_of_true (fun len pos' h ↦ ?_) ?_
    · have hnone := parseVarint32_of_more hmore
      rw [h] at hnone
      cases hnone
    · rintro ⟨-, b, hb, -, hlt⟩
      refine absurd (hmore b ?_) (Nat.not_le.2 hlt)
      rw [List.take_add_one, hb]
      exact List.mem_append_right _ List.mem_cons_self

/-! ## Frames -/

/-- What `decode` takes for a frame: of the length in the header it sees the lowest 32 bits. -/
def Taken (f : Bytes) : Prop :=
  ∃ header body, Ended More header ∧ header.length ≤ 5 ∧
    payload header % 2 ^ 32 = body.length ∧ f = header ++ body

/-- Behind the frames at the beginning of the stream, as `decode` takes them, there stands a
malformed header. -/
def Stuck (stream : Bytes) : Prop :=
  ∃ (fs : List Bytes) (left : Bytes), (∀ f ∈ fs, Taken f) ∧ stream = fs.flatten ++ left ∧
    (∀ f, Taken f → ¬ f <+: left) ∧ Malformed left

/-- **What a turn of `decode` splits off.** -/
theorem next_eq_some_iff {xs m ys : Bytes} :
    frame.next xs = some (m, ys) ↔
      ∃ header, Ended More header ∧ header.length ≤ 5 ∧
        payload header % 2 ^ 32 = m.length ∧ xs = header ++ (m ++ ys) := by
  constructor
  · intro h
    obtain ⟨n, hd, rfl⟩ := nextFrame_eq_some h
    obtain ⟨len, start, hparse, -, rfl, hle, rfl⟩ := decodeAt_eq_some hd
    obtain ⟨header, hended, hlen, ⟨rest, hrest⟩, rfl, rfl⟩ := parseVarint32_eq_some_iff.1 hparse
    rw [List.drop_zero] at hrest
    subst hrest
    rw [List.length_append, UInt32.toNat_ofNat'] at hle
    rw [Nat.zero_add, List.drop_left, UInt32.toNat_ofNat', ← List.drop_drop, List.drop_left,
      List.take_append_drop, List.length_take]
    exact ⟨header, hended, hlen, by omega, rfl⟩
  · rintro ⟨header, hended, hlen, hbody, rfl⟩
    have hpre : header <+: (header ++ (m ++ ys)).drop 0 := List.prefix_append _ _
    have hparse := parseVarint32_of_ended hended hlen hpre
    have htoNat : (UInt32.ofNat (payload header)).toNat = m.length := by
      rw [UInt32.toNat_ofNat', hbody]
    have htotal : (header ++ (m ++ ys)).length = header.length + (m.length + ys.length) := by
      rw [List.length_append, List.length_append]
    rw [Nat.zero_add] at hparse
    show nextFrame _ = _
    rw [nextFrame, decodeAt_of_parse hparse (by omega), htoNat, Option.map_some, List.drop_left,
      List.take_left, ← List.drop_drop, List.drop_left, List.drop_left]

theorem next_eq_some_of_taken {f : Bytes} (h : Taken f) (ys : Bytes) :
    ∃ m, frame.next (f ++ ys) = some (m, ys) := by
  obtain ⟨header, body, hended, hlen, hbody, rfl⟩ := h
  exact ⟨body, next_eq_some_iff.2 ⟨header, hended, hlen, hbody, List.append_assoc _ _ _⟩⟩

theorem next_eq_none_iff {xs : Bytes} :
    frame.next xs = none ↔ ∀ f, Taken f → ¬ f <+: xs := by
  constructor
  · rintro h f hf ⟨ys, rfl⟩
    obtain ⟨m, hm⟩ := next_eq_some_of_taken hf ys
    rw [hm] at h
    cases h
  · intro h
    rcases hnext : frame.next xs with _ | ⟨m, ys⟩
    · rfl
    · obtain ⟨header, hended, hlen, hbody, rfl⟩ := next_eq_some_iff.1 hnext
      refine absurd ?_ (h (header ++ m) ⟨header, m, hended, hlen, hbody, rfl⟩)
      rw [← List.append_assoc]
      exact List.prefix_append _ _

/-- A stream is some frames and what is left unread. -/
theorem exists_flatten_drain (xs : Bytes) :
    ∃ fs : List Bytes, (∀ f ∈ fs, Taken f) ∧ xs = fs.flatten ++ (frame.drain xs).2 := by
  induction xs using FrameDecoder.drain_induction (d := frame) with
  | stop xs hnext =>
    rw [FrameDecoder.drain_of_none hnext]
    exact ⟨[], fun f hf ↦ absurd hf List.not_mem_nil, rfl⟩
  | item xs m ys hnext ih =>
    obtain ⟨header, hended, hlen, hbody, rfl⟩ := next_eq_some_iff.1 hnext
    obtain ⟨fs, hfs, hys⟩ := ih
    rw [FrameDecoder.drain_of_some hnext]
    refine ⟨(header ++ m) :: fs,
      List.forall_mem_cons.2 ⟨⟨header, m, hended, hlen, hbody, rfl⟩, hfs⟩, ?_⟩
    rw [List.flatten_cons, List.append_assoc, ← hys, List.append_assoc]

/-- There is no other way to read it. -/
theorem drain_flatten {fs : List Bytes} {left : Bytes} (hfs : ∀ f ∈ fs, Taken f)
    (hleft : frame.next left = none) : (frame.drain (fs.flatten ++ left)).2 = left := by
  induction fs with
  | nil =>
    show (frame.drain left).2 = left
    rw [FrameDecoder.drain_of_none hleft]
  | cons f fs ih =>
    obtain ⟨hf, hrest⟩ := List.forall_mem_cons.1 hfs
    obtain ⟨m, hm⟩ := next_eq_some_of_taken hf (fs.flatten ++ left)
    rw [List.flatten_cons, List.append_assoc, FrameDecoder.drain_of_some hm]
    exact ih hrest

theorem stuck_iff (xs : Bytes) : Stuck xs ↔ Malformed (frame.drain xs).2 := by
  constructor
  · rintro ⟨fs, left, hfs, rfl, hleft, hmalformed⟩
    rwa [drain_flatten hfs (next_eq_none_iff.2 hleft)]
  · intro hmalformed
    obtain ⟨fs, hfs, hxs⟩ := exists_flatten_drain xs
    exact ⟨fs, _, hfs, hxs, next_eq_none_iff.1 (FrameDecoder.next_drain_snd xs), hmalformed⟩

/-- **When unread bytes can be completed**: unless their header is malformed. -/
theorem completable_iff {left : Bytes} (hleft : frame.next left = none) :
    Completable left ↔ ¬ Malformed left := by
  constructor
  · rintro ⟨rest, -, header, body, ⟨hended, hpayload⟩, hlen, hbody, heq⟩ hmalformed
    rcases hmalformed with hspills | hendless
    · refine (payload_lt_iff hended hlen body).1 ?_ (heq ▸ hspills.append rest)
      rwa [hpayload]
    · exact not_endless hended hlen body (heq ▸ hendless.append rest)
  · intro hwell
    rcases header_cases left with ⟨header, rest, hended, hlen, rfl⟩ | ⟨hlen, hmore⟩ | hendless
    · -- zeros make up for what is missing of the message
      have hlt := (payload_lt_iff hended hlen rest).2 fun h ↦ hwell (.inl h)
      have hshort : rest.length < payload header := by
        by_contra hge
        refine next_eq_none_iff.1 hleft (header ++ rest.take (payload header))
          ⟨header, _, hended, hlen, ?_, rfl⟩
          ((List.prefix_append_right_inj header).2 (List.take_prefix _ _))
        rw [Nat.mod_eq_of_lt hlt, List.length_take]
        omega
      have hbody : (rest ++ List.replicate (payload header - rest.length) 0).length =
          payload header := by
        rw [List.length_append, List.length_replicate]
        omega
      refine ⟨List.replicate (payload header - rest.length) 0, ?_, header,
        rest ++ List.replicate (payload header - rest.length) 0, ⟨hended, hbody.symm⟩, hlen,
        by rwa [hbody], List.append_assoc _ _ _⟩
      rw [Ne, List.replicate_eq_nil_iff]
      omega
    · -- a zero ends the header
      have hpayload : payload (left ++ [0]) = payload left := by
        rw [payload_append, payload_singleton]
        rfl
      have hpow : 128 ^ left.length ≤ 128 ^ 4 := Nat.pow_le_pow_right (by decide) (by omega)
      have hlt := payload_lt left
      refine ⟨0 :: List.replicate (payload left) 0, List.cons_ne_nil _ _, left ++ [0],
        List.replicate (payload left) 0, ⟨.concat hmore (by decide), ?_⟩, ?_, ?_, ?_⟩
      · rw [hpayload, List.length_replicate]
      · rw [List.length_append, List.length_singleton]
        omega
      · rw [List.length_replicate]
        omega
      · rw [List.append_assoc]
        rfl
    · exact absurd (.inr hendless) hwell

/-! ## The decoder -/

/-- What a decoder leaves unread is what is left of the stream. -/
theorem tail_decodeAll_fresh (chunks : List Bytes) :
    (decodeAll .fresh chunks).2.tail = (frame.drain chunks.flatten).2 := by
  obtain ⟨hspec, -⟩ := decodeAll_spec (c := .fresh) le_rfl chunks
  rw [show Decoder.fresh.tail = [] from rfl,
    FrameDecoder.feedAll_eq_drain_flatten frame_next_nil] at hspec
  exact (Prod.mk.inj hspec).2

/-- No message stands behind a header that does not end. -/
theorem next_eq_none_of_endless {xs : Bytes} (h : Endless xs) : frame.next xs = none := by
  rw [next_eq_none_iff]
  rintro _ ⟨header, body, hended, hlen, -, rfl⟩ ⟨ys, rfl⟩
  rw [List.append_assoc] at h
  exact not_endless hended hlen _ h

/-- **Such a header is kept for ever**, and everything that arrives behind it. -/
theorem decodeAll_of_endless {c : Decoder} (hle : c.head ≤ c.buffer.length) (h : Endless c.tail)
    (chunks : List Bytes) :
    (decodeAll c chunks).1 = [] ∧ (decodeAll c chunks).2.tail = c.tail ++ chunks.flatten := by
  obtain ⟨hspec, -⟩ := decodeAll_spec hle chunks
  rw [FrameDecoder.feedAll_eq_drain (next_eq_none_of_endless h),
    FrameDecoder.drain_of_none (next_eq_none_of_endless (h.append _))] at hspec
  exact Prod.mk.inj hspec

/-- **When further input can make progress**: unless the header does not end. -/
theorem exists_decode_ne_nil_iff {c : Decoder} (hle : c.head ≤ c.buffer.length) :
    (∃ data, (decode c data).1 ≠ []) ↔ ¬ Endless c.tail := by
  have hdecode (data : Bytes) : (decode c data).1 = [] ↔ frame.next (c.tail ++ data) = none := by
    rw [(Prod.mk.inj (decode_spec hle data).1).1, ← List.head?_eq_none_iff,
      FrameDecoder.head?_drain, Option.map_eq_none_iff]
  simp only [ne_eq, hdecode]
  constructor
  · rintro ⟨data, hdata⟩ h
    exact hdata (next_eq_none_of_endless (h.append data))
  · intro hends
    rcases header_cases c.tail with ⟨header, rest, hended, hlen, heq⟩ | ⟨hlen, hmore⟩ | hendless
    · -- as many bytes as the header asks for
      let body := rest ++ List.replicate (payload header % 2 ^ 32) 0
      have hbody : payload header % 2 ^ 32 = (body.take (payload header % 2 ^ 32)).length := by
        rw [List.length_take, List.length_append, List.length_replicate]
        omega
      have hnext : frame.next (c.tail ++ List.replicate (payload header % 2 ^ 32) 0) = some _ :=
        next_eq_some_iff.2 ⟨header, hended, hlen, hbody, by
          rw [heq, List.append_assoc, List.take_append_drop]⟩
      exact ⟨_, by rw [hnext]; exact Option.some_ne_none _⟩
    · -- a byte that ends the header, and the message
      have hbody : payload (c.tail ++ [0]) % 2 ^ 32 =
          (List.replicate (payload (c.tail ++ [0]) % 2 ^ 32) (0 : UInt8)).length :=
        List.length_replicate.symm
      have hnext : frame.next
          (c.tail ++ ([0] ++ List.replicate (payload (c.tail ++ [0]) % 2 ^ 32) 0)) =
            some (_, []) :=
        next_eq_some_iff.2 ⟨c.tail ++ [0], .concat hmore (by decide),
          by rw [List.length_append, List.length_singleton]; omega, hbody,
          by rw [List.append_nil, List.append_assoc]⟩
      exact ⟨_, by rw [hnext]; exact Option.some_ne_none _⟩
    · exact absurd hendless hends

/-- **Malformed headers.**  `parse_varint32` reads exactly unless the header spills; and after any
calls of `decode` the unread bytes can be completed unless the stream is stuck. -/
theorem headers_iff (buf : Bytes) (pos : ℕ) (chunks : List Bytes) :
    (ReadsExactly buf pos ↔ ¬ Spills (buf.drop pos)) ∧
      (Completable (decodeAll .fresh chunks).2.tail ↔ ¬ Stuck chunks.flatten) := by
  refine ⟨readsExactly_iff buf pos, ?_⟩
  rw [tail_decodeAll_fresh, stuck_iff]
  exact completable_iff (FrameDecoder.next_drain_snd _)

/-- A header that stands for 2^32 is read as that of an empty message, and one of five bytes that
all say that another follows is kept. -/
theorem headers_of_five_bytes :
    ¬ ReadsExactly [0x80, 0x80, 0x80, 0x80, 0x10] 0 ∧
      ¬ Completable (decodeAll .fresh [[0x80, 0x80, 0x80, 0x80, 0x80]]).2.tail := by
  constructor
  · rw [readsExactly_iff, not_not]
    exact ⟨by decide +kernel, 0x10, rfl, by decide⟩
  · have hendless : Endless [0x80, 0x80, 0x80, 0x80, 0x80] :=
      ⟨by decide +kernel, 0x80, rfl, by decide⟩
    have hnext := next_eq_none_of_endless hendless
    rw [tail_decodeAll_fresh, List.flatten_singleton, FrameDecoder.drain_of_none hnext,
      completable_iff hnext, not_not]
    exact .inr hendless

end ProtobufCodec
end Codec
end ChwellCore
