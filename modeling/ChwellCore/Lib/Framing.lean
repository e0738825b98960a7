import Mathlib.Data.List.Basic
import Mathlib.Tactic.Common

/-!
# Incremental decoding of a framed stream

A stream arrives in chunks whose boundaries mean nothing, and a receiver has to find the same
items in it wherever the boundaries fell.  This file is about receivers of the usual shape: keep
the elements not yet used, append each chunk to them, and split items off the front for as long as
one is complete.

All that is asked of the item format is collected in `FrameDecoder`: an attempt to split off one
item that uses up at least one element, and that is not changed by what comes *after* the item.
The second condition is the one that matters.  A format whose first item could still grow when more
elements arrive would make the answer depend on the chunks, and `extends_append` is exactly the
statement that it does not.

* `FrameDecoder.drain` splits off items until none is complete.
* `drain_append` says that draining `xs ++ ys` is draining `xs`, and then draining what was left
  of it followed by `ys`.
* `feedAll_eq_drain_flatten` concludes that a receiver fed chunk by chunk ends up where it would
  have been had everything arrived at once.
* `drain_flatMap` is the other half: what was encoded item by item is found again item by item.
* `Reaches` names the places at which a receiver looks for an item: the ends of the stream that are
  left after some complete items.
-/

set_option autoImplicit false

universe u v

/-- A format of self-delimiting items over the alphabet `α`. -/
structure FrameDecoder (α : Type u) (β : Type v) where
  /-- Split one item off the front, or report that none is complete. -/
  next : List α → Option (β × List α)
  /-- An item uses up at least one element. -/
  length_lt : ∀ {xs b ys}, next xs = some (b, ys) → ys.length < xs.length
  /-- A complete item is not affected by what follows it. -/
  extends_append : ∀ {xs b ys} (zs), next xs = some (b, ys) → next (xs ++ zs) = some (b, ys ++ zs)

namespace FrameDecoder

variable {α : Type u} {β : Type v} (d : FrameDecoder α β)

/-! ## Draining a buffer -/

/-- Split off items until none is complete; the second component is what is left. -/
def drain (xs : List α) : List β × List α :=
  match _hs : d.next xs with
  | none => ([], xs)
  | some (b, ys) => (b :: (drain ys).1, (drain ys).2)
termination_by xs.length
decreasing_by all_goals exact d.length_lt _hs

variable {d}

theorem drain_of_none {xs : List α} (h : d.next xs = none) : d.drain xs = ([], xs) := by
  rw [drain]
  split
  · rfl
  · next hs => rw [h] at hs; cases hs

theorem drain_of_some {xs ys : List α} {b : β} (h : d.next xs = some (b, ys)) :
    d.drain xs = (b :: (d.drain ys).1, (d.drain ys).2) := by
  rw [drain]
  split
  · next hs => rw [h] at hs; cases hs
  · next hs =>
    rw [h] at hs
    cases hs
    rfl

/-- The induction that follows the recursion of `drain`. -/
theorem drain_induction {motive : List α → Prop}
    (stop : ∀ xs, d.next xs = none → motive xs)
    (item : ∀ xs b ys, d.next xs = some (b, ys) → motive ys → motive xs) (xs : List α) :
    motive xs := by
  induction h : xs.length using Nat.strongRecOn generalizing xs with
  | _ n ih =>
    rcases hs : d.next xs with _ | ⟨b, ys⟩
    · exact stop xs hs
    · exact item xs b ys hs (ih ys.length (h ▸ d.length_lt hs) ys rfl)

/-- Draining stops only where no item is complete. -/
theorem next_drain_snd (xs : List α) : d.next (d.drain xs).2 = none := by
  induction xs using drain_induction (d := d) with
  | stop xs h => rwa [drain_of_none h]
  | item xs b ys h ih => rwa [drain_of_some h]

/-- The first item of a buffer is the one that splits off its front. -/
theorem head?_drain (xs : List α) : (d.drain xs).1.head? = (d.next xs).map Prod.fst := by
  rcases hs : d.next xs with _ | ⟨b, ys⟩
  · rw [drain_of_none hs]
    rfl
  · rw [drain_of_some hs]
    rfl

/-- **Draining does not see where the buffer was cut.** -/
theorem drain_append (xs ys : List α) :
    d.drain (xs ++ ys) =
      ((d.drain xs).1 ++ (d.drain ((d.drain xs).2 ++ ys)).1,
        (d.drain ((d.drain xs).2 ++ ys)).2) := by
  induction xs using drain_induction (d := d) with
  | stop xs h => simp [drain_of_none h]
  | item xs b zs h ih =>
    rw [drain_of_some h, drain_of_some (d.extends_append ys h), ih]
    simp

/-- A receiver that keeps its buffer and counts an offset forward drains what lies behind the
offset, if a turn of its loop splits off one item or stops. -/
theorem drain_of_loop {loop : ℕ → List β × ℕ} {buffer : List α}
    (hturn : ∀ head, (d.next (buffer.drop head) = none ∧ loop head = ([], head)) ∨
      ∃ b head', d.next (buffer.drop head) = some (b, buffer.drop head') ∧
        loop head = (b :: (loop head').1, (loop head').2)) (head : ℕ) :
    ((loop head).1, buffer.drop (loop head).2) = d.drain (buffer.drop head) := by
  induction hx : buffer.drop head using drain_induction (d := d) generalizing head with
  | stop xs hs =>
    rcases hturn head with ⟨-, hl⟩ | ⟨b, head', hn, -⟩
    · rw [hl, hx, drain_of_none hs]
    · rw [hx, hs] at hn
      cases hn
  | item xs b ys hs ih =>
    rcases hturn head with ⟨hn, -⟩ | ⟨b', head', hn, hl⟩
    · rw [hx, hs] at hn
      cases hn
    · rw [hx, hs] at hn
      cases hn
      rw [hl, drain_of_some hs, ← ih head' rfl]

/-! ## Feeding chunk by chunk -/

variable (d)

/-- Feed a list of chunks to a receiver holding `left`, collecting the items of all of them. -/
def feedAll (left : List α) : List (List α) → List β × List α
  | [] => ([], left)
  | c :: cs =>
    let r := d.drain (left ++ c)
    let rs := feedAll r.2 cs
    (r.1 ++ rs.1, rs.2)

variable {d}

theorem feedAll_eq_drain {left : List α} (h : d.next left = none) (cs : List (List α)) :
    d.feedAll left cs = d.drain (left ++ cs.flatten) := by
  induction cs generalizing left with
  | nil => rw [feedAll, List.flatten_nil, List.append_nil, drain_of_none h]
  | cons c cs ih =>
    rw [feedAll, List.flatten_cons, ← List.append_assoc, drain_append (left ++ c)]
    simp only [ih (next_drain_snd (left ++ c))]

/-- **The chunks do not matter**: feeding them one by one is draining their concatenation. -/
theorem feedAll_eq_drain_flatten (h : d.next [] = none) (cs : List (List α)) :
    d.feedAll [] cs = d.drain cs.flatten := by
  simpa using feedAll_eq_drain h cs

/-! ## Encoded items are found again -/

/-- If every item of `bs` splits off the front of its own encoding, then draining the
concatenated encodings gives `bs` back, with nothing left over. -/
theorem drain_flatMap {enc : β → List α} (h0 : d.next [] = none) {bs : List β}
    (h : ∀ b ∈ bs, d.next (enc b) = some (b, [])) : d.drain (bs.flatMap enc) = (bs, []) := by
  induction bs with
  | nil => rw [List.flatMap_nil, drain_of_none h0]
  | cons b bs ih =>
    have hb : d.next (enc b ++ bs.flatMap enc) = some (b, bs.flatMap enc) :=
      d.extends_append _ (h b List.mem_cons_self)
    have hbs := ih fun c hc ↦ h c (List.mem_cons_of_mem b hc)
    rw [List.flatMap_cons, drain_of_some hb, hbs]

/-- An item that was cut short is none. -/
theorem next_of_cut {b : β} {xs ys : List α} (h : d.next (xs ++ ys) = some (b, []))
    (hcut : ys ≠ []) : d.next xs = none := by
  rcases hs : d.next xs with _ | ⟨c, zs⟩
  · rfl
  · rw [d.extends_append ys hs] at h
    exact absurd (List.append_eq_nil_iff.1 (Prod.mk.inj (Option.some.inj h)).2).2 hcut

/-- Whole items, and then less than one. -/
theorem drain_flatMap_append {enc : β → List α} (h0 : d.next [] = none) {bs : List β}
    (h : ∀ b ∈ bs, d.next (enc b) = some (b, [])) {xs : List α} (hxs : d.next xs = none) :
    d.drain (bs.flatMap enc ++ xs) = (bs, xs) := by
  rw [drain_append, drain_flatMap h0 h, List.nil_append, drain_of_none hxs, List.append_nil]

/-- What has been read of a wire on which items were written is drained to the first of them. -/
theorem drain_prefix {enc : β → List α} (h0 : d.next [] = none) {bs : List β}
    (h : ∀ b ∈ bs, d.next (enc b) = some (b, [])) {read flight : List α}
    (hwire : read ++ flight = bs.flatMap enc) : (d.drain read).1 <+: bs := by
  have hall := drain_append (d := d) read flight
  rw [hwire, drain_flatMap h0 h] at hall
  rw [(Prod.mk.inj hall).1]
  exact List.prefix_append _ _

/-! ## The places where an item is looked for -/

variable (d)

/-- `ys` is what is left of `xs` after some complete items. -/
inductive Reaches : List α → List α → Prop
  | refl (xs : List α) : Reaches xs xs
  | item {xs ys zs : List α} {b : β} : d.next xs = some (b, ys) → Reaches ys zs → Reaches xs zs

variable {d}

theorem reaches_drain (xs : List α) : d.Reaches xs (d.drain xs).2 := by
  induction xs using drain_induction (d := d) with
  | stop xs h =>
    rw [drain_of_none h]
    exact .refl xs
  | item xs b ys h ih =>
    rw [drain_of_some h]
    exact .item h ih

theorem Reaches.append {xs ys : List α} (h : d.Reaches xs ys) (zs : List α) :
    d.Reaches (xs ++ zs) (ys ++ zs) := by
  induction h with
  | refl xs => exact .refl _
  | item hs _ ih => exact .item (d.extends_append zs hs) ih

theorem Reaches.trans {xs ys zs : List α} (h : d.Reaches xs ys) (h' : d.Reaches ys zs) :
    d.Reaches xs zs := by
  induction h with
  | refl xs => exact h'
  | item hs _ ih => exact .item hs (ih h')

/-- A place reached in `xs ++ zs` lies in front of an item that `xs` completes, or behind all of
these. -/
theorem reaches_append_cases {xs zs ys : List α} (h : d.Reaches (xs ++ zs) ys) :
    (∃ xs' b rest, d.Reaches xs xs' ∧ d.next xs' = some (b, rest) ∧ ys = xs' ++ zs) ∨
      d.Reaches ((d.drain xs).2 ++ zs) ys := by
  induction xs using drain_induction (d := d) with
  | stop xs hs =>
    rw [drain_of_none hs]
    exact .inr h
  | item xs b xs' hs ih =>
    rw [drain_of_some hs]
    cases h with
    | refl => exact .inl ⟨xs, b, xs', .refl xs, hs, rfl⟩
    | item hs' hrest =>
      rw [d.extends_append zs hs] at hs'
      cases hs'
      rcases ih hrest with ⟨w, c, rest, hw, hc, he⟩ | hr
      · exact .inl ⟨w, c, rest, .item hs hw, hc, he⟩
      · exact .inr hr

/-- The places reached in a concatenation of encoded items are the starts of the items. -/
theorem reaches_flatMap {enc : β → List α} (h0 : d.next [] = none) {bs : List β}
    (h : ∀ b ∈ bs, d.next (enc b) = some (b, [])) {ys : List α}
    (hr : d.Reaches (bs.flatMap enc) ys) : ∃ cs, cs <:+ bs ∧ ys = cs.flatMap enc := by
  induction bs with
  | nil =>
    cases hr with
    | refl => exact ⟨[], List.suffix_rfl, rfl⟩
    | item hs _ =>
      rw [List.flatMap_nil, h0] at hs
      cases hs
  | cons b bs ih =>
    have hb : d.next (enc b ++ bs.flatMap enc) = some (b, bs.flatMap enc) :=
      d.extends_append _ (h b List.mem_cons_self)
    cases hr with
    | refl => exact ⟨b :: bs, List.suffix_rfl, rfl⟩
    | item hs hrest =>
      rw [List.flatMap_cons, hb] at hs
      cases hs
      obtain ⟨cs, hcs, he⟩ := ih (fun c hc ↦ h c (List.mem_cons_of_mem b hc)) hrest
      exact ⟨cs, hcs.trans (List.suffix_cons b bs), he⟩

end FrameDecoder
