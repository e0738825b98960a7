import Mathlib.Data.List.Induction
import Mathlib.Data.List.Sort
import Mathlib.Algebra.Order.Ring.Int
import ChwellCore.Lib.Run
import ChwellCore.Lib.UnorderedMap

/-!
# The event bus

`EventBus` keeps the subscribers of each event type in a list sorted by priority, and `publish` goes
through the list of the event's type.  Ids are handed out across all types, so `unsubscribe` looks
for an id in one list after another.

`std::sort` is a parameter: a function that returns *some* sorted permutation (`IsSort`), since the
order of subscribers of one priority is nobody's promise.

What the bus is for is said by a `Book`: a flat list of the subscriptions there are, which is not
sorted and has no types to look under.  `Represents` connects the two, and every run of the bus is
one of the book (`run_represents`).

The handler a subscriber owns is an object, known by a number that is not used again.  Handlers do
not call the bus here; that they may is the subject of the module after this one.
-/

set_option autoImplicit false

namespace ChwellCore
namespace Events

/-- `HandlerId`. -/
abbrev HandlerId := UInt64

/-- `Subscriber`.  `handler` tells which object it owns. -/
structure Subscriber where
  id : HandlerId
  priority : ℤ
  handler : ℕ
deriving DecidableEq, Repr

/-- What `Event` has of its own. -/
structure Event where
  timestamp : ℤ
  cancelled : Bool
deriving DecidableEq, Repr

/-- How a callback ends: it returns, or it throws a `std::exception` or something else. -/
inductive Outcome
  | returned
  | exception
  | other
deriving DecidableEq, Repr

/-- `EventBus`, for event types `T`.  `made` counts the handler objects made so far. -/
structure EventBus (T : Type) where
  subscribers : UnorderedMap T (List Subscriber)
  nextId : HandlerId
  made : ℕ

/-- What a call of `std::sort` on subscribers is asked for. -/
structure IsSort (sort : List Subscriber → List Subscriber) : Prop where
  perm : ∀ l, (sort l).Perm l
  sorted : ∀ l, (sort l).Pairwise fun a b ↦ b.priority ≤ a.priority

/-- What a `publish` did: the subscribers whose handlers it invoked, in order, whether an exception
left it, and the event afterwards. -/
structure Published where
  invoked : List Subscriber
  escaped : Bool
  event : Event
deriving DecidableEq, Repr

/-- The operations that change a bus. -/
inductive Op (T : Type)
  | subscribe (type : T) (priority : ℤ)
  | unsubscribe (id : HandlerId)
  | clear
deriving DecidableEq, Repr

/-- The operation is a `subscribe`. -/
def Op.isSubscribe {T : Type} : Op T → Bool
  | .subscribe _ _ => true
  | _ => false

namespace EventBus

variable {T : Type} [DecidableEq T]

/-- The bus at the start. -/
def fresh : EventBus T := ⟨∅, 1, 0⟩

/-- The subscribers listed for a type. -/
def subs (bus : EventBus T) (type : T) : List Subscriber := (bus.subscribers.lookup type).getD []

section Operations

variable (sort : List Subscriber → List Subscriber)

/-- `subscribe<EventT>`: the id it returns and the bus afterwards. -/
def subscribe (bus : EventBus T) (type : T) (priority : ℤ) : HandlerId × EventBus T :=
  let id := bus.nextId
  let subs := bus.subs type ++ [⟨id, priority, bus.made⟩]
  (id, ⟨bus.subscribers.insert type (sort subs), bus.nextId + 1, bus.made + 1⟩)

/-- `unsubscribe`. -/
def unsubscribe (bus : EventBus T) (id : HandlerId) : EventBus T :=
  match bus.subscribers.entries.find? fun e ↦ e.2.any fun s ↦ decide (s.id = id) with
  | none => bus
  | some e =>
    { bus with
      subscribers := bus.subscribers.insert e.1 (e.2.eraseP fun s ↦ decide (s.id = id)) }

/-- `clear`. -/
def clear (bus : EventBus T) : EventBus T := { bus with subscribers := ∅ }

/-- The loop of `publish`.  `behave` tells what the callback of a subscriber does with the event. -/
def dispatch (behave : Subscriber → Event → Outcome × Event) :
    List Subscriber → Event → Published
  | [], event => ⟨[], false, event⟩
  | s :: rest, event =>
    if event.cancelled then ⟨[], false, event⟩
    else
      match behave s event with
      | (.other, event) => ⟨[s], true, event⟩
      | (_, event) =>
        let p := dispatch behave rest event
        { p with invoked := s :: p.invoked }

/-- `publish<EventT>` at time `now`. -/
def publish (bus : EventBus T) (type : T) (now : ℤ)
    (behave : Subscriber → Event → Outcome × Event) (event : Event) : Published :=
  let event := if event.timestamp = 0 then { event with timestamp := now } else event
  dispatch behave (bus.subs type) event

/-- The bus after one operation. -/
def applyOp (bus : EventBus T) : Op T → EventBus T
  | .subscribe type priority => (bus.subscribe sort type priority).2
  | .unsubscribe id => bus.unsubscribe id
  | .clear => bus.clear

/-- The bus after the operations `ops`. -/
def run (ops : List (Op T)) : EventBus T := ops.foldl (applyOp sort) fresh

end Operations

/-! ## What an operation does to the lists -/

variable {sort : List Subscriber → List Subscriber} {bus : EventBus T}

theorem subs_subscribe (type type' : T) (priority : ℤ) :
    (bus.subscribe sort type priority).2.subs type' =
      if type' = type then sort (bus.subs type ++ [⟨bus.nextId, priority, bus.made⟩])
      else bus.subs type' := by
  rw [subs, subscribe]
  simp only [UnorderedMap.lookup_insert_ite]
  split <;> rfl

/-- **What `unsubscribe` does**: nothing, where nobody has the id; otherwise it takes one subscriber
with the id out of the list that it is in, and every other list stays as it is. -/
theorem unsubscribe_cases (bus : EventBus T) (id : HandlerId) :
    (bus.unsubscribe id = bus ∧ ∀ type, ∀ s ∈ bus.subs type, s.id ≠ id) ∨
      ∃ type l₁ s l₂, bus.subs type = l₁ ++ s :: l₂ ∧ s.id = id ∧
        (bus.unsubscribe id).subs type = l₁ ++ l₂ ∧
        (∀ type' ≠ type, (bus.unsubscribe id).subs type' = bus.subs type') ∧
        (bus.unsubscribe id).nextId = bus.nextId ∧ (bus.unsubscribe id).made = bus.made := by
  rw [unsubscribe]
  split
  · next he =>
    refine .inl ⟨rfl, fun type s hs ↦ ?_⟩
    rcases hl : bus.subscribers.lookup type with _ | l
    · rw [subs, hl] at hs
      exact absurd hs List.not_mem_nil
    · rw [subs, hl, Option.getD_some] at hs
      have hnone := List.find?_eq_none.1 he _ (UnorderedMap.lookup_eq_some_iff.1 hl)
      simp only [List.any_eq_true, decide_eq_true_eq, not_exists, not_and] at hnone
      exact hnone s hs
  · next e he =>
    right
    obtain ⟨type, ids⟩ := e
    have hl : bus.subscribers.lookup type = some ids :=
      UnorderedMap.lookup_eq_some_iff.2 (List.mem_of_find?_eq_some he)
    have hany : ids.any (fun s ↦ decide (s.id = id)) = true := by simpa using List.find?_some he
    obtain ⟨s₀, hs₀, hid₀⟩ := List.any_eq_true.1 hany
    obtain ⟨s, l₁, l₂, -, hid, hsplit, herase⟩ :=
      @List.exists_of_eraseP _ (fun s ↦ decide (s.id = id)) _ _ hs₀ hid₀
    refine ⟨type, l₁, s, l₂, ?_, of_decide_eq_true hid, ?_, fun type' hne ↦ ?_, rfl, rfl⟩
    · rw [subs, hl, Option.getD_some, hsplit]
    · rw [subs, UnorderedMap.lookup_insert_ite, if_pos rfl, Option.getD_some, herase]
    · rw [subs, UnorderedMap.lookup_insert_ite, if_neg hne, subs]

/-! ## The subscriptions there are -/

end EventBus

/-- The subscriptions there are, in any order, and how many there were. -/
structure Book (T : Type) where
  made : ℕ
  subs : List (T × Subscriber)

namespace Book

variable {T : Type} {book book' : Book T}

/-- No subscription. -/
def empty : Book T := ⟨0, []⟩

/-- The subscribers of a type. -/
def ofType [DecidableEq T] (book : Book T) (type : T) : List Subscriber :=
  book.subs.filterMap fun p ↦ if p.1 = type then some p.2 else none

/-- What an operation means: to subscribe is to enter a new subscription, to unsubscribe is to take
out the one with the id, if there is one, and to clear is to take out all. -/
inductive Step (book : Book T) : Op T → Book T → Prop
  | subscribe (type : T) (priority : ℤ) :
      Step book (.subscribe type priority) ⟨book.made + 1,
        (type, ⟨UInt64.ofNat (book.made + 1), priority, book.made⟩) :: book.subs⟩
  | absent (id : HandlerId) (h : ∀ p ∈ book.subs, p.2.id ≠ id) : Step book (.unsubscribe id) book
  | unsubscribe (p : T × Subscriber) (rest : List (T × Subscriber))
      (h : book.subs.Perm (p :: rest)) : Step book (.unsubscribe p.2.id) ⟨book.made, rest⟩
  | clear : Step book .clear ⟨book.made, []⟩

/-- The book as a transition system. -/
def system : System (Book T) (Op T) := ⟨Step⟩

/-- Every subscription has a handler of its own, and its id is the number of the call that made
it. -/
structure Ok (book : Book T) : Prop where
  handler_lt : ∀ p ∈ book.subs, p.2.handler < book.made
  id_eq : ∀ p ∈ book.subs, p.2.id = UInt64.ofNat (p.2.handler + 1)
  nodup : (book.subs.map fun p ↦ p.2.handler).Nodup

theorem mem_ofType [DecidableEq T] {type : T} {s : Subscriber} :
    s ∈ book.ofType type ↔ (type, s) ∈ book.subs := by
  simp only [ofType, List.mem_filterMap, Option.ite_none_right_eq_some, Option.some.injEq]
  constructor
  · rintro ⟨⟨_, _⟩, hmem, rfl, rfl⟩
    exact hmem
  · intro hmem
    exact ⟨_, hmem, rfl, rfl⟩

theorem Ok.step {op : Op T} (h : book.Ok) (hstep : Step book op book') : book'.Ok := by
  rcases hstep with ⟨type, priority⟩ | - | ⟨p, rest, hperm⟩ | -
  · refine ⟨fun p hp ↦ ?_, fun p hp ↦ ?_, List.nodup_cons.2 ⟨fun hmem ↦ ?_, h.nodup⟩⟩
    · rcases List.mem_cons.1 hp with rfl | hp
      · exact Nat.lt_succ_self _
      · exact Nat.lt_succ_of_lt (h.handler_lt p hp)
    · rcases List.mem_cons.1 hp with rfl | hp
      · rfl
      · exact h.id_eq p hp
    · obtain ⟨p, hp, heq⟩ := List.mem_map.1 hmem
      exact absurd heq (h.handler_lt p hp).ne
  · exact h
  · have hsub : ∀ q ∈ rest, q ∈ book.subs := fun q hq ↦
      hperm.mem_iff.2 (List.mem_cons_of_mem p hq)
    exact ⟨fun q hq ↦ h.handler_lt q (hsub q hq), fun q hq ↦ h.id_eq q (hsub q hq),
      (List.nodup_cons.1 ((hperm.map _).nodup_iff.1 h.nodup)).2⟩
  · exact ⟨fun _ hp ↦ absurd hp List.not_mem_nil, fun _ hp ↦ absurd hp List.not_mem_nil,
      List.nodup_nil⟩

theorem Ok.of_run {ops : List (Op T)} (hrun : (system (T := T)).Run empty ops book) : book.Ok :=
  hrun.invariant (fun _ _ _ h hstep ↦ h.step hstep)
    ⟨fun _ hp ↦ absurd hp List.not_mem_nil, fun _ hp ↦ absurd hp List.not_mem_nil, List.nodup_nil⟩

theorem made_of_run {ops : List (Op T)} (hrun : (system (T := T)).Run empty ops book) :
    book.made = ops.countP Op.isSubscribe := by
  induction hrun with
  | nil => rfl
  | snoc _ hstep ih =>
    rw [List.countP_append, ← ih]
    rcases hstep with ⟨type, priority⟩ | - | - | - <;> rfl

/-- Ids repeat only after all of them were handed out. -/
theorem Ok.nodup_ids (h : book.Ok) (hmade : book.made ≤ 2 ^ 64) :
    (book.subs.map fun p ↦ p.2.id).Nodup := by
  have hids : (book.subs.map fun p ↦ p.2.id) =
      (book.subs.map fun p ↦ p.2.handler).map fun n ↦ UInt64.ofNat (n + 1) := by
    rw [List.map_map]
    exact List.map_congr_left h.id_eq
  rw [hids]
  refine h.nodup.map_on fun x hx y hy heq ↦ ?_
  obtain ⟨p, hp, rfl⟩ := List.mem_map.1 hx
  obtain ⟨q, hq, rfl⟩ := List.mem_map.1 hy
  have hp := h.handler_lt p hp
  have hq := h.handler_lt q hq
  have hnat := congrArg UInt64.toNat heq
  rw [UInt64.toNat_ofNat', UInt64.toNat_ofNat'] at hnat
  omega

/-- In the list of a type there is no handler twice. -/
theorem Ok.nodup_ofType [DecidableEq T] (h : book.Ok) (type : T) :
    ((book.ofType type).map Subscriber.handler).Nodup := by
  have hsub : ((book.ofType type).map Subscriber.handler).Sublist
      (book.subs.map fun p ↦ p.2.handler) := by
    rw [ofType, List.map_filterMap, ← List.filterMap_eq_map]
    induction book.subs with
    | nil => exact .slnil
    | cons p rest ih =>
      rw [List.filterMap_cons, List.filterMap_cons]
      by_cases htype : p.1 = type
      · simpa [htype] using ih
      · simpa [htype] using ih.cons _
  exact h.nodup.sublist hsub

end Book

namespace EventBus

variable {T : Type} [DecidableEq T] {sort : List Subscriber → List Subscriber} {bus : EventBus T}
  {book : Book T}

/-! ## The bus represents the book -/

/-- The bus has the subscriptions of the book, and the list of each type is sorted. -/
structure Represents (bus : EventBus T) (book : Book T) : Prop where
  made_eq : bus.made = book.made
  nextId_eq : bus.nextId = UInt64.ofNat (bus.made + 1)
  perm : ∀ type, (bus.subs type).Perm (book.ofType type)
  sorted : ∀ type, (bus.subs type).Pairwise fun a b ↦ b.priority ≤ a.priority

theorem represents_fresh : Represents (fresh : EventBus T) Book.empty where
  made_eq := rfl
  nextId_eq := rfl
  perm _ := .nil
  sorted _ := .nil

theorem Represents.subscribe (hsort : IsSort sort) (h : Represents bus book) (type : T)
    (priority : ℤ) : Represents (bus.subscribe sort type priority).2 ⟨book.made + 1,
      (type, ⟨UInt64.ofNat (book.made + 1), priority, book.made⟩) :: book.subs⟩ := by
  refine ⟨congrArg (· + 1) h.made_eq, ?_, fun type' ↦ ?_, fun type' ↦ ?_⟩
  · show bus.nextId + 1 = UInt64.ofNat (bus.made + 1 + 1)
    rw [h.nextId_eq, UInt64.ofNat_add (bus.made + 1)]
    rfl
  · rw [subs_subscribe]
    by_cases htype : type' = type
    · rw [if_pos htype, htype, h.nextId_eq, h.made_eq]
      refine (hsort.perm _).trans ?_
      rw [Book.ofType, List.filterMap_cons, if_pos rfl]
      exact (List.perm_append_comm).trans ((h.perm type).cons _)
    · rw [if_neg htype, Book.ofType, List.filterMap_cons, if_neg (Ne.symm htype)]
      exact h.perm type'
  · rw [subs_subscribe]
    split
    · exact hsort.sorted _
    · exact h.sorted type'

theorem Represents.unsubscribe (h : Represents bus book) (id : HandlerId) :
    ∃ book', Book.Step book (.unsubscribe id) book' ∧ Represents (bus.unsubscribe id) book' := by
  rcases unsubscribe_cases bus id with
    ⟨heq, hnone⟩ | ⟨type, l₁, s, l₂, hl, rfl, hrest, hother, hnext, hmade⟩
  · refine ⟨book, .absent id fun p hp ↦ ?_, by rwa [heq]⟩
    exact hnone p.1 p.2 ((h.perm p.1).mem_iff.2 (Book.mem_ofType.2 hp))
  · have hmem : (type, s) ∈ book.subs := by
      rw [← Book.mem_ofType, ← (h.perm type).mem_iff, hl]
      exact List.mem_append_right _ List.mem_cons_self
    obtain ⟨b₁, b₂, hb⟩ := List.append_of_mem hmem
    have hperm : book.subs.Perm ((type, s) :: (b₁ ++ b₂)) := hb ▸ List.perm_middle
    refine ⟨_, .unsubscribe (type, s) (b₁ ++ b₂) hperm, hmade.trans h.made_eq,
      by rw [hnext, hmade, h.nextId_eq], fun type' ↦ ?_, fun type' ↦ ?_⟩
    · have hof := (h.perm type').trans (hperm.filterMap _)
      by_cases htype : type' = type
      · rw [htype, hl, List.filterMap_cons, if_pos rfl] at hof
        rw [htype, hrest]
        exact (List.perm_cons s).1 (List.perm_middle.symm.trans hof)
      · rw [List.filterMap_cons, if_neg (Ne.symm htype)] at hof
        rw [hother type' htype]
        exact hof
    · by_cases htype : type' = type
      · have hsorted := h.sorted type
        rw [hl] at hsorted
        rw [htype, hrest]
        exact hsorted.sublist ((List.sublist_cons_self s l₂).append_left l₁)
      · rw [hother type' htype]
        exact h.sorted type'

theorem Represents.clear (h : Represents bus book) : Represents bus.clear ⟨book.made, []⟩ where
  made_eq := h.made_eq
  nextId_eq := h.nextId_eq
  perm _ := .nil
  sorted _ := .nil

/-- **Each operation of the bus is the operation of the book.** -/
theorem Represents.applyOp (hsort : IsSort sort) (h : Represents bus book) (op : Op T) :
    ∃ book', Book.Step book op book' ∧ Represents (bus.applyOp sort op) book' := by
  rcases op with ⟨type, priority⟩ | id | -
  · exact ⟨_, .subscribe type priority, h.subscribe hsort type priority⟩
  · exact h.unsubscribe id
  · exact ⟨_, .clear, h.clear⟩

/-- **Every run of the bus is a run of the book.** -/
theorem run_represents (hsort : IsSort sort) (ops : List (Op T)) :
    ∃ book, Book.system.Run .empty ops book ∧ Represents (run sort ops) book := by
  induction ops using List.reverseRecOn with
  | nil => exact ⟨.empty, .nil, represents_fresh⟩
  | append_singleton ops op ih =>
    obtain ⟨book, hrun, hrep⟩ := ih
    obtain ⟨book', hstep, hrep'⟩ := hrep.applyOp hsort op
    refine ⟨book', hrun.snoc hstep, ?_⟩
    rw [run, List.foldl_append]
    exact hrep'

/-! ## Publishing -/

/-- The callbacks leave the event as uncancelled as it was, and throw at most a
`std::exception`. -/
def Quiet (behave : Subscriber → Event → Outcome × Event) : Prop :=
  ∀ s event, (behave s event).1 ≠ .other ∧ (behave s event).2.cancelled = event.cancelled

/-- The loop goes through the whole list, whatever throws. -/
theorem invoked_dispatch {behave : Subscriber → Event → Outcome × Event} (hquiet : Quiet behave)
    (l : List Subscriber) {event : Event} (hevent : event.cancelled = false) :
    (dispatch behave l event).invoked = l := by
  induction l generalizing event with
  | nil => rfl
  | cons s rest ih =>
    obtain ⟨hout, hkeep⟩ := hquiet s event
    rw [dispatch, hevent]
    rcases hb : behave s event with ⟨_ | _ | _, event'⟩
    · rw [hb, hevent] at hkeep
      exact congrArg (s :: ·) (ih hkeep)
    · rw [hb, hevent] at hkeep
      exact congrArg (s :: ·) (ih hkeep)
    · rw [hb] at hout
      exact absurd rfl hout

theorem invoked_publish {behave : Subscriber → Event → Outcome × Event} (hquiet : Quiet behave)
    (bus : EventBus T) (type : T) (now : ℤ) {event : Event} (hevent : event.cancelled = false) :
    (bus.publish type now behave event).invoked = bus.subs type := by
  rw [publish]
  refine invoked_dispatch hquiet _ ?_
  split <;> exact hevent

/-- **Event dispatch is complete and ordered.**  Every run of the bus is a run of the book of
subscriptions.  After it, publishing an uncancelled event of a type, with callbacks that do not
cancel it and throw at most a `std::exception`, invokes the handlers of that type in the book, each
once and no other, in an order in which no priority increases; and `unsubscribe` takes out one
subscription with the id and no other, or does nothing where there is none.  Up to the first
`2 ^ 64` calls of `subscribe` there is at most one. -/
theorem event_dispatch (hsort : IsSort sort) (ops : List (Op T)) :
    ∃ book : Book T, Book.system.Run .empty ops book ∧
      (∀ type now behave event, Quiet behave → event.cancelled = false →
        (((run sort ops).publish type now behave event).invoked).Perm (book.ofType type) ∧
          (((run sort ops).publish type now behave event).invoked.map Subscriber.handler).Nodup ∧
          ((run sort ops).publish type now behave event).invoked.Pairwise
            fun a b ↦ b.priority ≤ a.priority) ∧
      (∀ id, ((run sort (ops ++ [.unsubscribe id]) = run sort ops ∧
            ∀ type, ∀ s ∈ (run sort ops).subs type, s.id ≠ id) ∨
          ∃ type l₁ s l₂, (run sort ops).subs type = l₁ ++ s :: l₂ ∧ s.id = id ∧
            (run sort (ops ++ [.unsubscribe id])).subs type = l₁ ++ l₂ ∧
            ∀ type' ≠ type,
              (run sort (ops ++ [.unsubscribe id])).subs type' = (run sort ops).subs type')) ∧
      (ops.countP Op.isSubscribe ≤ 2 ^ 64 → (book.subs.map fun p ↦ p.2.id).Nodup) := by
  obtain ⟨book, hrun, hrep⟩ := run_represents hsort ops
  have hok := Book.Ok.of_run hrun
  refine ⟨book, hrun, fun type now behave event hquiet hevent ↦ ?_, fun id ↦ ?_, fun hcount ↦ ?_⟩
  · rw [invoked_publish hquiet _ type now hevent]
    exact ⟨hrep.perm type, ((hrep.perm type).map _).nodup_iff.2 (hok.nodup_ofType type),
      hrep.sorted type⟩
  · have hstep : run sort (ops ++ [.unsubscribe id]) = (run sort ops).unsubscribe id := by
      rw [run, List.foldl_append]
      rfl
    rw [hstep]
    refine (unsubscribe_cases (run sort ops) id).imp_right ?_
    rintro ⟨type, l₁, s, l₂, hl, hid, hrest, hother, -⟩
    exact ⟨type, l₁, s, l₂, hl, hid, hrest, hother⟩
  · exact hok.nodup_ids (Book.made_of_run hrun ▸ hcount)

/-- A sort that keeps the order of subscribers of one priority. -/
def stableSort (l : List Subscriber) : List Subscriber :=
  l.insertionSort fun a b ↦ b.priority ≤ a.priority

instance : Std.Total fun a b : Subscriber ↦ b.priority ≤ a.priority :=
  ⟨fun a b ↦ le_total b.priority a.priority⟩

instance : IsTrans Subscriber fun a b ↦ b.priority ≤ a.priority :=
  ⟨fun _ _ _ hab hbc ↦ le_trans hbc hab⟩

theorem stableSort_isSort : IsSort stableSort where
  perm l := List.perm_insertionSort _ l
  sorted l := List.pairwise_insertionSort _ l

/-- Three subscribers of one type and one of another, all of which throw. -/
theorem event_dispatch_three :
    ∃ book : Book ℕ, Book.system.Run .empty [.subscribe 0 10, .subscribe 0 100, .subscribe 1 7,
        .subscribe 0 5, .unsubscribe 1] book ∧
      ((run stableSort [.subscribe 0 10, .subscribe 0 100, .subscribe 1 7, .subscribe 0 5,
        .unsubscribe 1]).publish 0 7 (fun _ e ↦ (.exception, e)) ⟨0, false⟩).invoked.Perm
          (book.ofType 0) ∧
      (book.subs.map fun p ↦ p.2.id).Nodup := by
  obtain ⟨book, hrun, hpublish, -, hids⟩ := event_dispatch stableSort_isSort
    [.subscribe 0 10, .subscribe 0 100, .subscribe 1 7, .subscribe 0 5, .unsubscribe 1]
  exact ⟨book, hrun, (hpublish 0 7 _ ⟨0, false⟩ (fun _ _ ↦ ⟨by simp, rfl⟩) rfl).1,
    hids (by decide)⟩

end EventBus
end Events
end ChwellCore
