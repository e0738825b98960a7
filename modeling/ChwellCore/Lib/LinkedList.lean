import Mathlib.Data.List.Nodup
import Mathlib.Logic.Function.Basic
import Mathlib.Tactic.Common

/-!
# Doubly linked lists

A doubly linked list is a pointer to its first node and, at every node, a pointer to the node before
and one to the node after.  A `LinkedList` is just these pointers, over any type `α` of addresses;
nothing about it says that following them makes sense.

`LinkedList.IsList d l` is what makes sense of them: from the head on, the nodes are those of `l`,
each once, and every pointer of a node of `l` is to its neighbour in `l`.  About the pointers of
other addresses it says nothing, and it cannot: a node that has been unlinked keeps the pointers it
had.

There are two operations, written as the assignments they consist of.  `linkBetween` puts a node
between two neighbours and `unlink` takes a node out.  Their specifications are
`IsList.linkBetween` and `IsList.unlink`; both split the list at the node, and both come down to
`Seg`, a stretch of the list between what comes before it and what comes after it, of which one end
is given a new neighbour.
-/

set_option autoImplicit false

universe u

/-- The pointers of a doubly linked list of nodes with addresses in `α`. -/
@[ext]
structure LinkedList (α : Type u) where
  head : Option α
  prev : α → Option α
  next : α → Option α

namespace LinkedList

variable {α : Type u}

/-- The nodes `l` are linked one after another, the first of them to `p` before it and the last of
them to `q` after it. -/
def Seg (d : LinkedList α) : Option α → List α → Option α → Prop
  | _, [], _ => True
  | p, a :: l, q => d.prev a = p ∧ d.next a = l.head?.or q ∧ d.Seg (some a) l q

/-- From the head on, the list has the nodes `l`, each once. -/
structure IsList (d : LinkedList α) (l : List α) : Prop where
  head : d.head = l.head?
  nodup : l.Nodup
  seg : d.Seg none l none

variable {d d' : LinkedList α}

theorem seg_append {p q : Option α} {l r : List α} :
    d.Seg p (l ++ r) q ↔ d.Seg p l (r.head?.or q) ∧ d.Seg (l.getLast?.or p) r q := by
  induction l generalizing p with
  | nil => simp [Seg]
  | cons a l ih =>
    have hlast : (a :: l).getLast?.or p = l.getLast?.or (some a) := by
      rw [List.getLast?_cons]
      rcases l.getLast? with _ | b <;> rfl
    rw [List.cons_append, Seg, Seg, ih, hlast, List.head?_append, Option.or_assoc, and_assoc,
      and_assoc]

/-- The neighbours of a node. -/
theorem IsList.node {l r : List α} {a : α} (h : d.IsList (l ++ a :: r)) :
    d.prev a = l.getLast? ∧ d.next a = r.head? := by
  have hseg := (seg_append.1 h.seg).2
  rw [Seg, Option.or_none, Option.or_none] at hseg
  exact ⟨hseg.1, hseg.2.1⟩

/-- A node without neighbours, put into the empty list. -/
theorem IsList.singleton {n : α} (hp : d.prev n = none) (hq : d.next n = none) :
    ({ d with head := some n } : LinkedList α).IsList [n] :=
  ⟨rfl, List.nodup_singleton n, hp, hq, trivial⟩

/-- A stretch of nodes does not depend on the pointers of other nodes. -/
theorem Seg.congr {p q : Option α} {l : List α} (h : d.Seg p l q)
    (hprev : ∀ a ∈ l, d'.prev a = d.prev a) (hnext : ∀ a ∈ l, d'.next a = d.next a) :
    d'.Seg p l q := by
  induction l generalizing p with
  | nil => trivial
  | cons a l ih =>
    obtain ⟨hp, hq, hrest⟩ := h
    refine ⟨(hprev a List.mem_cons_self).trans hp, (hnext a List.mem_cons_self).trans hq, ?_⟩
    exact ih hrest (fun b hb ↦ hprev b (List.mem_cons_of_mem a hb))
      fun b hb ↦ hnext b (List.mem_cons_of_mem a hb)

/-- A list does not depend on the pointers of other nodes. -/
theorem IsList.congr {l : List α} (h : d.IsList l) (hhead : d'.head = d.head)
    (hprev : ∀ a ∈ l, d'.prev a = d.prev a) (hnext : ∀ a ∈ l, d'.next a = d.next a) :
    d'.IsList l :=
  ⟨hhead.trans h.head, h.nodup, h.seg.congr hprev hnext⟩

variable [DecidableEq α]

/-- Give a stretch of nodes another neighbour after it. -/
theorem Seg.changeNext {p q q' : Option α} {l : List α} (h : d.Seg p l q) (hl : l.Nodup)
    (hprev : ∀ a ∈ l, d'.prev a = d.prev a)
    (hnext : ∀ a ∈ l, d'.next a = if l.getLast? = some a then q' else d.next a) :
    d'.Seg p l q' := by
  rcases List.eq_nil_or_concat' l with rfl | ⟨l, b, rfl⟩
  · trivial
  · rw [seg_append] at h ⊢
    have hb : b ∉ l := fun hb ↦ (List.disjoint_of_nodup_append hl) hb List.mem_cons_self
    refine ⟨h.1.congr (fun a ha ↦ ?_) fun a ha ↦ ?_, ?_, ?_, trivial⟩
    · exact hprev a (List.mem_append_left _ ha)
    · rw [hnext a (List.mem_append_left _ ha), List.getLast?_concat, if_neg]
      rintro ⟨rfl⟩
      exact hb ha
    · exact (hprev b (List.mem_append_right _ List.mem_cons_self)).trans h.2.1
    · rw [hnext b (List.mem_append_right _ List.mem_cons_self), List.getLast?_concat, if_pos rfl]
      rfl

/-- Give a stretch of nodes another neighbour before it. -/
theorem Seg.changePrev {p p' q : Option α} {l : List α} (h : d.Seg p l q) (hl : l.Nodup)
    (hprev : ∀ a ∈ l, d'.prev a = if l.head? = some a then p' else d.prev a)
    (hnext : ∀ a ∈ l, d'.next a = d.next a) : d'.Seg p' l q := by
  rcases l with _ | ⟨a, l⟩
  · trivial
  · obtain ⟨-, hq, hrest⟩ := h
    have ha : a ∉ l := (List.nodup_cons.1 hl).1
    refine ⟨?_, (hnext a List.mem_cons_self).trans hq, hrest.congr (fun b hb ↦ ?_) fun b hb ↦ ?_⟩
    · rw [hprev a List.mem_cons_self, List.head?_cons, if_pos rfl]
    · rw [hprev b (List.mem_cons_of_mem a hb), List.head?_cons, if_neg]
      rintro ⟨rfl⟩
      exact ha hb
    · exact hnext b (List.mem_cons_of_mem a hb)

/-! ## Assignments -/

/-- Let the pointer `prev` of a node be `v`. -/
def setPrev (d : LinkedList α) (a : α) (v : Option α) : LinkedList α :=
  { d with prev := Function.update d.prev a v }

/-- Let the pointer `next` of a node be `v`. -/
def setNext (d : LinkedList α) (a : α) (v : Option α) : LinkedList α :=
  { d with next := Function.update d.next a v }

/-- Let `v` be what comes after the node `p`, or after the beginning if there is no node. -/
def setAfter (d : LinkedList α) : Option α → Option α → LinkedList α
  | some p, v => d.setNext p v
  | none, v => { d with head := v }

/-- Let `v` be what comes before the node `c`, if there is a node. -/
def setBefore (d : LinkedList α) : Option α → Option α → LinkedList α
  | some c, v => d.setPrev c v
  | none, _ => d

@[simp] theorem setAfter_prev (p v : Option α) : (d.setAfter p v).prev = d.prev := by
  rcases p with _ | p <;> rfl

theorem setAfter_next (p v : Option α) (a : α) :
    (d.setAfter p v).next a = if p = some a then v else d.next a := by
  rcases p with _ | p
  · rfl
  · simp [setAfter, setNext, Function.update_apply, eq_comm]

/-- The head, when what comes after the nodes `l` is changed from `r` to `r'`. -/
theorem setAfter_head {l r : List α} (h : d.head = (l ++ r).head?) (r' : List α) :
    (d.setAfter l.getLast? r'.head?).head = (l ++ r').head? := by
  rcases l with _ | ⟨a, l⟩
  · rfl
  · rw [List.getLast?_cons]
    exact h

theorem setBefore_prev (c v : Option α) (a : α) :
    (d.setBefore c v).prev a = if c = some a then v else d.prev a := by
  rcases c with _ | c
  · rfl
  · simp [setBefore, setPrev, Function.update_apply, eq_comm]

@[simp] theorem setBefore_next (c v : Option α) : (d.setBefore c v).next = d.next := by
  rcases c with _ | c <;> rfl

@[simp] theorem setBefore_head (c v : Option α) : (d.setBefore c v).head = d.head := by
  rcases c with _ | c <;> rfl

/-! ## Linking and unlinking -/

/-- Put the node `n` between `p` and `c`. -/
def linkBetween (d : LinkedList α) (n : α) (p c : Option α) : LinkedList α :=
  (((d.setPrev n p).setNext n c).setAfter p (some n)).setBefore c (some n)

/-- Let the neighbours of the node `n` point to each other. -/
def unlink (d : LinkedList α) (n : α) : LinkedList α :=
  let d' := d.setAfter (d.prev n) (d.next n)
  d'.setBefore (d'.next n) (d'.prev n)

/-- **Linking a node in.** -/
theorem IsList.linkBetween {l r : List α} {n : α} (h : d.IsList (l ++ r)) (hn : n ∉ l ++ r) :
    (d.linkBetween n l.getLast? r.head?).IsList (l ++ n :: r) := by
  have hnl : ∀ a ∈ l, a ≠ n := fun a ha he ↦ hn (he ▸ List.mem_append_left r ha)
  have hnr : ∀ a ∈ r, a ≠ n := fun a ha he ↦ hn (he ▸ List.mem_append_right l ha)
  have hlr := List.disjoint_of_nodup_append h.nodup
  -- the pointers afterwards
  have hprev : ∀ a, (d.linkBetween n l.getLast? r.head?).prev a =
      if r.head? = some a then some n else if a = n then l.getLast? else d.prev a := by
    intro a
    simp only [LinkedList.linkBetween, setBefore_prev, setAfter_prev, setNext, setPrev,
      Function.update_apply]
  have hnext : ∀ a, (d.linkBetween n l.getLast? r.head?).next a =
      if l.getLast? = some a then some n else if a = n then r.head? else d.next a := by
    intro a
    simp only [LinkedList.linkBetween, setBefore_next, setAfter_next, setNext, setPrev,
      Function.update_apply]
  have hseg := seg_append.1 h.seg
  refine ⟨?_, ?_, seg_append.2 ⟨hseg.1.changeNext h.nodup.of_append_left ?_ ?_, ?_, ?_,
    hseg.2.changePrev h.nodup.of_append_right ?_ ?_⟩⟩
  · rw [LinkedList.linkBetween, setBefore_head]
    exact setAfter_head (d := (d.setPrev n _).setNext n _) h.head (n :: r)
  · exact List.nodup_middle.2 (List.nodup_cons.2 ⟨hn, h.nodup⟩)
  · intro a ha
    rw [hprev, if_neg, if_neg (hnl a ha)]
    exact fun he ↦ hlr ha (List.mem_of_mem_head? he)
  · intro a ha
    rw [hnext, if_neg (hnl a ha)]
    rfl
  · rw [hprev, if_neg, if_pos rfl, Option.or_none]
    exact fun he ↦ hnr n (List.mem_of_mem_head? he) rfl
  · rw [hnext, if_neg, if_pos rfl, Option.or_none]
    exact fun he ↦ hnl n (List.mem_of_getLast? he) rfl
  · intro a ha
    rw [hprev, if_neg (hnr a ha)]
  · intro a ha
    rw [hnext, if_neg, if_neg (hnr a ha)]
    exact fun he ↦ hlr (List.mem_of_getLast? he) ha

/-- **Unlinking a node.**  The node keeps its pointers. -/
theorem IsList.unlink {l r : List α} {n : α} (h : d.IsList (l ++ n :: r)) :
    (d.unlink n).IsList (l ++ r) ∧ (d.unlink n).prev n = l.getLast? ∧
      (d.unlink n).next n = r.head? := by
  obtain ⟨hp, hq⟩ := h.node
  obtain ⟨hn, hnodup⟩ := List.nodup_cons.1 (List.nodup_middle.1 h.nodup)
  have hnl : ∀ a ∈ l, a ≠ n := fun a ha he ↦ hn (he ▸ List.mem_append_left r ha)
  have hnr : ∀ a ∈ r, a ≠ n := fun a ha he ↦ hn (he ▸ List.mem_append_right l ha)
  have hlr := List.disjoint_of_nodup_append hnodup
  have hsame : (d.setAfter l.getLast? r.head?).next n = r.head? := by
    rw [setAfter_next, if_neg, hq]
    exact fun he ↦ hnl n (List.mem_of_getLast? he) rfl
  -- the pointers afterwards
  have heq : d.unlink n = (d.setAfter l.getLast? r.head?).setBefore r.head? l.getLast? := by
    rw [LinkedList.unlink, hp, hq, hsame, setAfter_prev, hp]
  have hprev : ∀ a, (d.unlink n).prev a = if r.head? = some a then l.getLast? else d.prev a := by
    intro a
    rw [heq, setBefore_prev, setAfter_prev]
  have hnext : ∀ a, (d.unlink n).next a = if l.getLast? = some a then r.head? else d.next a := by
    intro a
    rw [heq, setBefore_next, setAfter_next]
  obtain ⟨hleft, -, -, hright⟩ := seg_append.1 h.seg
  refine ⟨⟨?_, hnodup, seg_append.2 ⟨hleft.changeNext hnodup.of_append_left ?_ ?_,
    hright.changePrev hnodup.of_append_right ?_ ?_⟩⟩, ?_, ?_⟩
  · rw [heq, setBefore_head]
    exact setAfter_head h.head r
  · intro a ha
    rw [hprev, if_neg]
    exact fun he ↦ hlr ha (List.mem_of_mem_head? he)
  · intro a ha
    rw [hnext, Option.or_none]
  · intro a ha
    rw [hprev, Option.or_none]
  · intro a ha
    rw [hnext, if_neg]
    exact fun he ↦ hlr (List.mem_of_getLast? he) ha
  · rw [hprev, if_neg, hp]
    exact fun he ↦ hnr n (List.mem_of_mem_head? he) rfl
  · rw [hnext, if_neg, hq]
    exact fun he ↦ hnl n (List.mem_of_getLast? he) rfl

end LinkedList
