import ChwellCore.Lib.Framing
import ChwellCore.Protocol.Message
import Mathlib.Algebra.Order.Ring.Nat

/-!
# The stream parser

`protocol::Parser` turns the chunks a socket delivers into messages.  It appends each chunk to
`buffer_` and parses frames from `head_`, the offset of the first byte not yet used.  Used bytes are
not removed one frame at a time: `compact_prefix` erases them only once there are at least 4096 of
them and they make up half of the buffer, so the layout of the buffer depends on the history of the
chunks even where its meaning does not.

The meaning is `Parser.tail`, the bytes from `head_` on.  `frame` is the item format as a
`FrameDecoder`, and `feed_spec` says that a call of `feed` is one `FrameDecoder.drain` of the tail
followed by the new data, whatever the offset and whether or not the buffer was compacted.  That the
parser does not care where the stream is cut, and that it finds what `serialize` wrote, are then
`FrameDecoder.feedAll_eq_drain_flatten` and `FrameDecoder.drain_flatMap`.
-/

set_option autoImplicit false

namespace ChwellCore
namespace Protocol

/-- `protocol::Parser`.  The offset never passes the end of the buffer, so the subtraction
`buffer_.size() - head_` of the source does not wrap. -/
structure Parser where
  buffer : Bytes
  head : ℕ
  head_le : head ≤ buffer.length

namespace Parser

/-- A fresh parser. -/
def fresh : Parser := ⟨[], 0, Nat.le_refl 0⟩

/-- The bytes not yet used. -/
def tail (p : Parser) : Bytes := p.buffer.drop p.head

/-- `Parser::reset`. -/
def reset (_ : Parser) : Parser := fresh

/-- `Parser::compact_prefix`. -/
def compactPrefix (p : Parser) : Parser :=
  if p.head = 0 then p
  else if 4096 ≤ p.head ∧ p.buffer.length ≤ p.head * 2 then
    ⟨p.buffer.drop p.head, 0, Nat.zero_le _⟩
  else p

/-! ## The loop of `feed` -/

/-- One turn of the loop of `feed`: the message at `head`, and the offset behind it. -/
def parseAt (buffer : Bytes) (head : ℕ) : Option (Message × ℕ) :=
  let avail := buffer.length - head
  if avail < 4 then none
  else
    let bodyLen := (netToHost16 buffer (head + 2)).toNat
    if avail < 4 + bodyLen then none
    else
      some (⟨netToHost16 buffer head, (buffer.drop (head + 4)).take bodyLen⟩, head + (4 + bodyLen))

theorem parseAt_eq_some {buffer : Bytes} {head head' : ℕ} {msg : Message}
    (h : parseAt buffer head = some (msg, head')) :
    head' = head + (4 + (netToHost16 buffer (head + 2)).toNat) ∧ head' ≤ buffer.length ∧
      msg = ⟨netToHost16 buffer head,
        (buffer.drop (head + 4)).take (netToHost16 buffer (head + 2)).toNat⟩ := by
  simp only [parseAt] at h
  obtain ⟨-, h⟩ := Option.ite_none_left_eq_some.1 h
  split at h
  · cases h
  · cases h
    exact ⟨rfl, by omega, rfl⟩

/-- The loop of `feed`, from the offset `head` on: the messages it collects and the offset it
stops at. -/
def parseLoop (buffer : Bytes) (head : ℕ) : List Message × ℕ :=
  match _hs : parseAt buffer head with
  | none => ([], head)
  | some (msg, head') => (msg :: (parseLoop buffer head').1, (parseLoop buffer head').2)
termination_by buffer.length - head
decreasing_by all_goals have := parseAt_eq_some _hs; omega

theorem parseLoop_of_none {buffer : Bytes} {head : ℕ} (h : parseAt buffer head = none) :
    parseLoop buffer head = ([], head) := by
  rw [parseLoop]
  split
  · rfl
  · next hs => rw [h] at hs; cases hs

theorem parseLoop_of_some {buffer : Bytes} {head head' : ℕ} {msg : Message}
    (h : parseAt buffer head = some (msg, head')) :
    parseLoop buffer head = (msg :: (parseLoop buffer head').1, (parseLoop buffer head').2) := by
  rw [parseLoop]
  split
  · next hs => rw [h] at hs; cases hs
  · next hs =>
    rw [h] at hs
    cases hs
    rfl

theorem parseLoop_snd_le (buffer : Bytes) (head : ℕ) (h : head ≤ buffer.length) :
    (parseLoop buffer head).2 ≤ buffer.length := by
  induction hn : buffer.length - head using Nat.strongRecOn generalizing head with
  | _ n ih =>
    rcases hs : parseAt buffer head with _ | ⟨msg, head'⟩
    · rwa [parseLoop_of_none hs]
    · obtain ⟨hh, hle, -⟩ := parseAt_eq_some hs
      rw [parseLoop_of_some hs]
      exact ih (buffer.length - head') (by omega) head' hle rfl

/-- `Parser::feed`: the messages completed by `data`, and the parser afterwards. -/
def feed (p : Parser) (data : Bytes) : List Message × Parser :=
  let buffer := p.buffer ++ data
  let r := parseLoop buffer p.head
  (r.1, compactPrefix ⟨buffer, r.2, parseLoop_snd_le buffer p.head (by
    have := p.head_le
    simp only [buffer, List.length_append]
    omega)⟩)

/-- Feed a list of chunks, one call of `feed` each. -/
def feedAll (p : Parser) : List Bytes → List Message × Parser
  | [] => ([], p)
  | c :: cs =>
    let r := feed p c
    let rs := feedAll r.2 cs
    (r.1 ++ rs.1, rs.2)

/-! ## The format of a frame -/

/-- One frame split off the front of a buffer. -/
def nextFrame (xs : Bytes) : Option (Message × Bytes) :=
  (parseAt xs 0).map fun r ↦ (r.1, xs.drop r.2)

theorem nextFrame_eq_some {xs ys : Bytes} {msg : Message} (h : nextFrame xs = some (msg, ys)) :
    ∃ n, parseAt xs 0 = some (msg, n) ∧ ys = xs.drop n := by
  obtain ⟨⟨m, n⟩, hp, he⟩ := Option.map_eq_some_iff.1 h
  cases he
  exact ⟨n, hp, rfl⟩

/-- A frame that is complete is parsed the same way with more bytes behind it. -/
theorem parseAt_append {xs : Bytes} {head n : ℕ} {msg : Message} (zs : Bytes)
    (h : parseAt xs head = some (msg, n)) : parseAt (xs ++ zs) head = some (msg, n) := by
  obtain ⟨hn, hle, hmsg⟩ := parseAt_eq_some h
  have hlen : (xs ++ zs).length = xs.length + zs.length := List.length_append
  have hb : netToHost16 (xs ++ zs) (head + 2) = netToHost16 xs (head + 2) :=
    netToHost16_append (by omega) zs
  have hc : netToHost16 (xs ++ zs) head = netToHost16 xs head := netToHost16_append (by omega) zs
  have hbody : ((xs ++ zs).drop (head + 4)).take (netToHost16 xs (head + 2)).toNat =
      (xs.drop (head + 4)).take (netToHost16 xs (head + 2)).toNat := by
    rw [List.drop_append_of_le_length (by omega),
      List.take_append_of_le_length (by rw [List.length_drop]; omega)]
  simp only [parseAt, hb, hc, hbody]
  rw [if_neg (by omega), if_neg (by omega), hmsg, hn]

/-- **The frame format is self-delimiting**: a frame takes at least its four header bytes, and the
bytes behind it play no part in parsing it. -/
def frame : FrameDecoder UInt8 Message where
  next := nextFrame
  length_lt := by
    intro xs msg ys h
    obtain ⟨n, hp, rfl⟩ := nextFrame_eq_some h
    obtain ⟨hn, hle, -⟩ := parseAt_eq_some hp
    rw [List.length_drop]
    omega
  extends_append := by
    intro xs msg ys zs h
    obtain ⟨n, hp, rfl⟩ := nextFrame_eq_some h
    obtain ⟨-, hle, -⟩ := parseAt_eq_some hp
    rw [nextFrame, parseAt_append zs hp, Option.map_some, List.drop_append_of_le_length hle]

theorem frame_next_nil : frame.next [] = none := rfl

/-- A serialised message is one complete frame, as long as its length fits in the header. -/
theorem frame_next_serialize {msg : Message} (h : msg.body.length ≤ 65535) :
    frame.next (serialize msg) = some (msg, []) := by
  have hlen := length_serialize msg
  have hbody : ((serialize msg).drop 4).take msg.body.length = msg.body := by
    have hdrop : (serialize msg).drop 4 = msg.body := rfl
    rw [hdrop, List.take_length]
  show nextFrame (serialize msg) = _
  simp only [nextFrame, parseAt, Nat.zero_add, Nat.sub_zero, netToHost16_serialize_len h,
    netToHost16_serialize_cmd, hbody]
  rw [if_neg (by omega), if_neg (by omega), Option.map_some, List.drop_eq_nil_of_le (by omega)]

/-- A frame has a body of at most 65535 bytes, and four bytes more. -/
theorem length_le_of_frame_next {xs ys : Bytes} {msg : Message}
    (h : frame.next xs = some (msg, ys)) :
    msg.body.length ≤ 65535 ∧ xs.length ≤ 65539 + ys.length := by
  obtain ⟨n, hp, rfl⟩ := nextFrame_eq_some h
  obtain ⟨hn, -, rfl⟩ := parseAt_eq_some hp
  have := (netToHost16 xs (0 + 2)).toNat_lt
  rw [List.length_drop, List.length_take]
  omega

/-- So has every message a parser finds. -/
theorem length_le_of_mem_drain {xs : Bytes} {msg : Message} (h : msg ∈ (frame.drain xs).1) :
    msg.body.length ≤ 65535 := by
  induction xs using FrameDecoder.drain_induction (d := frame) with
  | stop xs hnext =>
    rw [FrameDecoder.drain_of_none hnext] at h
    cases h
  | item xs m ys hnext ih =>
    rw [FrameDecoder.drain_of_some hnext] at h
    rcases List.mem_cons.1 h with rfl | h
    · exact (length_le_of_frame_next hnext).1
    · exact ih h

/-- The bytes that the frames of some messages take up. -/
def consumed (msgs : List Message) : ℕ := (msgs.map fun m ↦ 4 + m.body.length).sum

/-- A frame takes up four bytes and its body. -/
theorem drop_of_frame_next {xs ys : Bytes} {msg : Message} (h : frame.next xs = some (msg, ys)) :
    4 + msg.body.length ≤ xs.length ∧ ys = xs.drop (4 + msg.body.length) := by
  obtain ⟨n, hp, rfl⟩ := nextFrame_eq_some h
  obtain ⟨rfl, hle, rfl⟩ := parseAt_eq_some hp
  have hlen : ((xs.drop (0 + 4)).take (netToHost16 xs (0 + 2)).toNat).length =
      (netToHost16 xs (0 + 2)).toNat := by
    rw [List.length_take, List.length_drop]
    omega
  rw [hlen]
  rw [Nat.zero_add (4 + _)] at hle ⊢
  exact ⟨hle, rfl⟩

/-- What is left behind some frames is what their messages say. -/
theorem drain_eq_drop (xs : Bytes) :
    consumed (frame.drain xs).1 ≤ xs.length ∧
      (frame.drain xs).2 = xs.drop (consumed (frame.drain xs).1) := by
  induction xs using FrameDecoder.drain_induction (d := frame) with
  | stop xs hnext =>
    rw [FrameDecoder.drain_of_none hnext]
    exact ⟨Nat.zero_le _, rfl⟩
  | item xs msg ys hnext ih =>
    obtain ⟨hle, rfl⟩ := drop_of_frame_next hnext
    rw [FrameDecoder.drain_of_some hnext]
    obtain ⟨hrest, hdrop⟩ := ih
    rw [List.length_drop] at hrest
    rw [List.drop_drop] at hdrop
    have hsum : consumed (msg :: (frame.drain (xs.drop (4 + msg.body.length))).1) =
        4 + msg.body.length + consumed (frame.drain (xs.drop (4 + msg.body.length))).1 := rfl
    rw [hsum]
    exact ⟨by omega, hdrop⟩

/-- Zeros at the end do not change the length that the header announces. -/
theorem netToHost16_zeros (xs : Bytes) (k off : ℕ) :
    netToHost16 (xs ++ List.replicate k 0) off = netToHost16 xs off := by
  have hget : ∀ i, (xs ++ List.replicate k (0 : UInt8)).getD i 0 = xs.getD i 0 := by
    intro i
    rw [List.getD_eq_getElem?_getD, List.getD_eq_getElem?_getD]
    rcases Nat.lt_or_ge i xs.length with hi | hi
    · rw [List.getElem?_append_left hi]
    · rw [List.getElem?_append_right hi, List.getElem?_eq_none hi, List.getElem?_replicate]
      split <;> rfl
  rw [netToHost16, netToHost16, hget, hget]

/-- Every beginning of a frame can be completed. -/
theorem exists_frame_next {xs : Bytes} (h : frame.next xs = none) :
    ∃ ys msg, frame.next (xs ++ ys) = some (msg, []) := by
  have hshort : xs.length < 4 + (netToHost16 xs 2).toNat := by
    by_contra hlong
    have hsome : (parseAt xs 0).isSome = true := by
      simp only [parseAt, Nat.zero_add, Nat.sub_zero]
      rw [if_neg (by omega), if_neg hlong]
      rfl
    rw [Option.map_eq_none_iff.1 h] at hsome
    cases hsome
  let k := 4 + (netToHost16 xs 2).toNat - xs.length
  have hlen : (xs ++ List.replicate k (0 : UInt8)).length = 4 + (netToHost16 xs 2).toNat := by
    rw [List.length_append, List.length_replicate]
    omega
  refine ⟨List.replicate k 0, ⟨netToHost16 xs 0, ((xs ++ List.replicate k 0).drop 4).take
    (netToHost16 xs 2).toNat⟩, ?_⟩
  show nextFrame _ = _
  simp only [nextFrame, parseAt, Nat.zero_add, Nat.sub_zero, netToHost16_zeros, hlen]
  rw [if_neg (by omega), if_neg (Nat.lt_irrefl _), Option.map_some,
    List.drop_eq_nil_of_le (Nat.le_of_eq hlen)]

/-- Of two streams in which the same messages are found, whatever follows, none is the longer one:
what follows may complete the last frame. -/
theorem length_le_of_forall_drain {xs ys : Bytes}
    (h : ∀ data, (frame.drain (xs ++ data)).1 = (frame.drain (ys ++ data)).1) :
    xs.length ≤ ys.length := by
  obtain ⟨data, msg, hnext⟩ := exists_frame_next (FrameDecoder.next_drain_snd (d := frame) xs)
  have hrest : (frame.drain (xs ++ data)).2 = [] := by
    rw [FrameDecoder.drain_append, FrameDecoder.drain_of_some hnext,
      FrameDecoder.drain_of_none frame_next_nil]
  obtain ⟨-, hdrop⟩ := drain_eq_drop (xs ++ data)
  obtain ⟨hle, -⟩ := drain_eq_drop (ys ++ data)
  rw [hrest, h data] at hdrop
  have hlong := List.drop_eq_nil_iff.1 hdrop.symm
  rw [List.length_append] at hlong hle
  omega

/-! ## What `feed` computes -/

/-- Parsing at an offset is parsing the front of what is left behind it. -/
theorem parseAt_drop {buffer : Bytes} {head : ℕ} :
    parseAt buffer head = (parseAt (buffer.drop head) 0).map fun r ↦ (r.1, head + r.2) := by
  simp only [parseAt, netToHost16_drop, List.length_drop, List.drop_drop, Nat.zero_add,
    Nat.sub_zero, Nat.add_zero]
  split
  · rfl
  · split <;> rfl

theorem frame_next_drop {buffer : Bytes} {head head' : ℕ} {msg : Message}
    (h : parseAt buffer head = some (msg, head')) :
    frame.next (buffer.drop head) = some (msg, buffer.drop head') := by
  rw [parseAt_drop] at h
  obtain ⟨⟨m, n⟩, hp, he⟩ := Option.map_eq_some_iff.1 h
  cases he
  show nextFrame _ = _
  rw [nextFrame, hp, Option.map_some, List.drop_drop]

/-- The loop drains the bytes from its starting offset on. -/
theorem parseLoop_spec (buffer : Bytes) (head : ℕ) :
    ((parseLoop buffer head).1, buffer.drop (parseLoop buffer head).2) =
      frame.drain (buffer.drop head) := by
  refine FrameDecoder.drain_of_loop (fun head ↦ ?_) head
  rcases hs : parseAt buffer head with _ | ⟨msg, head'⟩
  · refine .inl ⟨?_, parseLoop_of_none hs⟩
    rw [parseAt_drop, Option.map_eq_none_iff] at hs
    exact Option.map_eq_none_iff.2 hs
  · exact .inr ⟨msg, head', frame_next_drop hs, parseLoop_of_some hs⟩

/-- Compaction changes the layout of the buffer, not the bytes still to be used. -/
@[simp] theorem tail_compactPrefix (p : Parser) : p.compactPrefix.tail = p.tail := by
  rw [compactPrefix]
  split
  · rfl
  · split
    · rfl
    · rfl

/-- **One call of `feed`** drains the unused bytes followed by the new ones. -/
theorem feed_spec (p : Parser) (data : Bytes) :
    ((p.feed data).1, (p.feed data).2.tail) = frame.drain (p.tail ++ data) := by
  have h := parseLoop_spec (p.buffer ++ data) p.head
  rw [List.drop_append_of_le_length p.head_le] at h
  rw [feed, tail_compactPrefix]
  exact h

theorem feed_fresh (data : Bytes) :
    (fresh.feed data).1 = (frame.drain data).1 ∧
      (fresh.feed data).2.tail = (frame.drain data).2 :=
  Prod.mk.inj (feed_spec fresh data)

/-- The other decoder of this format splits off the same frame. -/
theorem deserialize_eq_next (data : Bytes) :
    deserialize data = (frame.next data).map Prod.fst := by
  show _ = (nextFrame data).map Prod.fst
  simp only [deserialize, nextFrame, parseAt, Nat.zero_add, Nat.sub_zero]
  split
  · rfl
  · split <;> rfl

/-- **The one-shot decoder agrees with the stream parser**: it finds the message that a fresh parser
finds first, or neither finds one. -/
theorem deserialize_eq_some_iff (data : Bytes) (msg : Message) :
    deserialize data = some msg ↔ ∃ rest, (fresh.feed data).1 = msg :: rest := by
  rw [deserialize_eq_next, ← FrameDecoder.head?_drain, (feed_fresh data).1,
    List.head?_eq_some_iff]

/-- A parser that is fed one frame. -/
theorem feed_serialize {msg : Message} (h : msg.body.length ≤ 65535) :
    (fresh.feed (serialize msg)).1 = [msg] ∧ (fresh.feed (serialize msg)).2.tail = [] := by
  have hfeed := feed_fresh (serialize msg)
  rw [FrameDecoder.drain_of_some (frame_next_serialize h),
    FrameDecoder.drain_of_none frame_next_nil] at hfeed
  exact hfeed

/-- One message that leaves nothing over comes from one frame. -/
theorem length_le_of_feed {xs : Bytes} {msg : Message} (hmsg : (fresh.feed xs).1 = [msg])
    (htail : (fresh.feed xs).2.tail = []) : xs.length ≤ 65539 := by
  obtain ⟨hone, hrest⟩ := feed_fresh xs
  rw [hmsg] at hone
  rw [htail] at hrest
  rcases hnext : frame.next xs with _ | ⟨m, ys⟩
  · rw [FrameDecoder.drain_of_none hnext] at hone
    cases hone
  · have hle := (length_le_of_frame_next hnext).2
    rw [FrameDecoder.drain_of_some hnext] at hone hrest
    have hnone : (frame.drain ys).1 = [] := (List.cons.inj hone).2.symm
    rcases hys : frame.next ys with _ | ⟨m', zs⟩
    · rw [FrameDecoder.drain_of_none hys] at hrest
      obtain rfl : ys = [] := hrest.symm
      exact hle
    · rw [FrameDecoder.drain_of_some hys] at hnone
      cases hnone

theorem feedAll_spec (p : Parser) (cs : List Bytes) :
    ((p.feedAll cs).1, (p.feedAll cs).2.tail) = frame.feedAll p.tail cs := by
  induction cs generalizing p with
  | nil => rfl
  | cons c cs ih =>
    have hc := feed_spec p c
    have hcs := ih (p.feed c).2
    rw [feedAll, FrameDecoder.feedAll, ← hc]
    simp only [← hcs]

/-- **A fresh parser** drains the concatenation of what it is fed. -/
theorem feedAll_eq_drain (chunks : List Bytes) :
    ((fresh.feedAll chunks).1, (fresh.feedAll chunks).2.tail) = frame.drain chunks.flatten := by
  rw [feedAll_spec]
  exact FrameDecoder.feedAll_eq_drain_flatten frame_next_nil chunks

/-! ## Streams -/

/-- **Stream framing.**  However a byte string is cut into chunks, a fresh parser fed the chunks
finds the messages and keeps the bytes it would have found and kept in one call; and the frames that
`serialize` wrote are found again, in order, with nothing left over. -/
theorem feedAll_fresh :
    (∀ chunks : List Bytes,
      (fresh.feedAll chunks).1 = (fresh.feed chunks.flatten).1 ∧
        (fresh.feedAll chunks).2.tail = (fresh.feed chunks.flatten).2.tail) ∧
      ∀ msgs : List Message, (∀ m ∈ msgs, m.body.length ≤ 65535) →
        (fresh.feed (msgs.flatMap serialize)).1 = msgs ∧
          (fresh.feed (msgs.flatMap serialize)).2.tail = [] := by
  constructor
  · intro chunks
    obtain ⟨hmsgs, htail⟩ := Prod.mk.inj (feedAll_eq_drain chunks)
    obtain ⟨hmsgs', htail'⟩ := feed_fresh chunks.flatten
    exact ⟨hmsgs.trans hmsgs'.symm, htail.trans htail'.symm⟩
  · intro msgs hlen
    have hone := feed_fresh (msgs.flatMap serialize)
    rwa [FrameDecoder.drain_flatMap frame_next_nil fun m hm ↦ frame_next_serialize (hlen m hm)]
      at hone

theorem feed_foo_barbaz :
    (∀ m ∈ [Message.mk 1 (lit "foo"), Message.mk 2 (lit "barbaz")], m.body.length ≤ 65535) ∧
      (fresh.feed ([Message.mk 1 (lit "foo"), Message.mk 2 (lit "barbaz")].flatMap serialize)).1 =
        [Message.mk 1 (lit "foo"), Message.mk 2 (lit "barbaz")] :=
  ⟨by decide, (feedAll_fresh.2 _ (by decide)).1⟩

end Parser
end Protocol
end ChwellCore
