import ChwellCore.Event.EventBus

/-!
# Handlers that call the bus

`publish` copies the addresses of the handlers of a type while it holds the lock, and calls them
after it has released it.  A handler may call the bus in its turn: it may publish again, so what is
under way is a *stack* of dispatches, and it may unsubscribe a handler whose address an outer
dispatch has still to come to.

A step is made by the code that has control: `publish` in the middle of its loop, or what called it,
which is a handler or the code outside all of them.  `throw` is an exception that is not a
`std::exception`; what is below the dispatch that it leaves has control then.  A `return` is also a
`std::exception`, which the loop catches.

`no_access_iff` says exactly when a removal takes effect: no dispatch under way has the handler
still before it.
-/

set_option autoImplicit false

namespace ChwellCore
namespace Events

/-- The handler objects that a bus owns. -/
def EventBus.handlers {T : Type} (bus : EventBus T) : List ℕ :=
  bus.subscribers.entries.flatMap fun e ↦ e.2.map Subscriber.handler

/-- A call of `publish` after it has released the lock: whether its event is cancelled, the handlers
that its loop has still to come to, and whether it is in a call of one. -/
structure Dispatch where
  cancelled : Bool
  handlers : List ℕ
  running : Bool
deriving DecidableEq, Repr

/-- The bus, the calls of `publish` under way, the innermost first, and the handlers whose objects
were accessed so far. -/
structure World (T : Type) where
  bus : EventBus T
  stack : List Dispatch
  accessed : List ℕ

/-- A step.  `cancel k` cancels the event of the `k`-th dispatch under way. -/
inductive Act (T : Type)
  | op (o : Op T)
  | publish (type : T) (cancelled : Bool)
  | cancel (k : ℕ)
  | next
  | return
  | throw
  | finish
deriving DecidableEq, Repr

namespace World

variable {T : Type} [DecidableEq T]

def start : World T := ⟨.fresh, [], []⟩

/-- Control is with a handler, or outside all dispatches. -/
def inCaller (w : World T) : Bool := w.stack.head?.all Dispatch.running

/-- One step; `none` where control is elsewhere. -/
def step (sort : List Subscriber → List Subscriber) (w : World T) : Act T → Option (World T)
  | .op o => if w.inCaller then some { w with bus := w.bus.applyOp sort o } else none
  | .publish type cancelled =>
    if w.inCaller then
      let handlers := (w.bus.subs type).map Subscriber.handler
      some { w with stack := ⟨cancelled, handlers, false⟩ :: w.stack }
    else none
  | .cancel k =>
    if w.inCaller then
      w.stack[k]?.map fun d ↦ { w with stack := w.stack.set k { d with cancelled := true } }
    else none
  | .next =>
    match w.stack with
    | ⟨false, h :: handlers, false⟩ :: rest =>
      some { w with stack := ⟨false, handlers, true⟩ :: rest, accessed := w.accessed ++ [h] }
    | _ => none
  | .return =>
    match w.stack with
    | ⟨cancelled, handlers, true⟩ :: rest =>
      some { w with stack := ⟨cancelled, handlers, false⟩ :: rest }
    | _ => none
  | .throw =>
    match w.stack with
    | ⟨_, _, true⟩ :: rest => some { w with stack := rest }
    | _ => none
  | .finish =>
    match w.stack with
    | ⟨cancelled, handlers, false⟩ :: rest =>
      if cancelled || handlers.isEmpty then some { w with stack := rest } else none
    | _ => none

def system (sort : List Subscriber → List Subscriber) : System (World T) (Act T) :=
  System.ofPartial (step sort)

/-- A dispatch under way has still to come to the handler. -/
def Pending (w : World T) (h : ℕ) : Prop := ∃ d ∈ w.stack, d.cancelled = false ∧ h ∈ d.handlers

/-- The handler's object was accessed between `w` and `w'`. -/
def Accesses (h : ℕ) (w w' : World T) : Prop :=
  ∃ more, w'.accessed = w.accessed ++ more ∧ h ∈ more

variable {sort : List Subscriber → List Subscriber} {w w' w'' : World T} {l : Act T}
  {ls : List (Act T)} {h : ℕ}

/-! ## The handlers a bus owns -/

theorem mem_handlers {bus : EventBus T} :
    h ∈ bus.handlers ↔ ∃ type, ∃ s ∈ bus.subs type, s.handler = h := by
  simp only [EventBus.handlers, List.mem_flatMap, List.mem_map]
  constructor
  · rintro ⟨⟨type, l⟩, hmem, s, hs, rfl⟩
    refine ⟨type, s, ?_, rfl⟩
    rwa [EventBus.subs, UnorderedMap.lookup_eq_some_iff.2 hmem]
  · rintro ⟨type, s, hs, rfl⟩
    rw [EventBus.subs] at hs
    rcases hl : bus.subscribers.lookup type with _ | l
    · rw [hl] at hs
      exact absurd hs List.not_mem_nil
    · rw [hl] at hs
      exact ⟨⟨type, l⟩, UnorderedMap.lookup_eq_some_iff.1 hl, s, hs, rfl⟩

/-- The handlers after an operation were there before, or are new. -/
theorem handlers_applyOp (hsort : IsSort sort) {bus : EventBus T} (o : Op T)
    (hmem : h ∈ (bus.applyOp sort o).handlers) : h ∈ bus.handlers ∨ h = bus.made := by
  obtain ⟨type, s, hs, rfl⟩ := mem_handlers.1 hmem
  rcases o with ⟨type', priority⟩ | id | -
  · rw [EventBus.applyOp, EventBus.subs_subscribe] at hs
    split at hs
    · rcases List.mem_append.1 ((hsort.perm _).mem_iff.1 hs) with hs | hs
      · exact .inl (mem_handlers.2 ⟨type', s, hs, rfl⟩)
      · rw [List.mem_singleton.1 hs]
        exact .inr rfl
    · exact .inl (mem_handlers.2 ⟨type, s, hs, rfl⟩)
  · left
    rw [EventBus.applyOp] at hs
    rcases EventBus.unsubscribe_cases bus id with
      ⟨heq, -⟩ | ⟨type', l₁, s', l₂, hl, -, hrest, hother, -⟩
    · rw [heq] at hs
      exact mem_handlers.2 ⟨type, s, hs, rfl⟩
    · by_cases htype : type = type'
      · rw [htype, hrest] at hs
        refine mem_handlers.2 ⟨type', s, ?_, rfl⟩
        rw [hl]
        exact (List.sublist_cons_self s' l₂).append_left l₁ |>.mem hs
      · rw [hother type htype] at hs
        exact mem_handlers.2 ⟨type, s, hs, rfl⟩
  · exact absurd hs List.not_mem_nil

variable (sort) in
theorem made_applyOp_le (bus : EventBus T) (o : Op T) :
    bus.made ≤ (bus.applyOp sort o).made := by
  rcases o with ⟨type, priority⟩ | id | -
  · exact Nat.le_succ _
  · rcases EventBus.unsubscribe_cases bus id with ⟨heq, -⟩ | ⟨_, _, _, _, _, _, _, _, _, hmade⟩
    · rw [EventBus.applyOp, heq]
    · exact hmade.ge
  · exact le_rfl

/-! ## What a step can do -/

/-- **What a step does to the bus and to the dispatches under way.** -/
inductive Step (sort : List Subscriber → List Subscriber) (w : World T) : Act T → World T → Prop
  | op (o : Op T) (hcaller : w.inCaller = true) :
      Step sort w (.op o) { w with bus := w.bus.applyOp sort o }
  | publish (type : T) (cancelled : Bool) (hcaller : w.inCaller = true) :
      Step sort w (.publish type cancelled)
        { w with stack := ⟨cancelled, (w.bus.subs type).map Subscriber.handler, false⟩ :: w.stack }
  | cancel (k : ℕ) (d : Dispatch) (hcaller : w.inCaller = true) (hd : w.stack[k]? = some d) :
      Step sort w (.cancel k) { w with stack := w.stack.set k { d with cancelled := true } }
  | next (h : ℕ) (handlers : List ℕ) (rest : List Dispatch)
      (hstack : w.stack = ⟨false, h :: handlers, false⟩ :: rest) :
      Step sort w .next
        { w with stack := ⟨false, handlers, true⟩ :: rest, accessed := w.accessed ++ [h] }
  | return (cancelled : Bool) (handlers : List ℕ) (rest : List Dispatch)
      (hstack : w.stack = ⟨cancelled, handlers, true⟩ :: rest) :
      Step sort w .return { w with stack := ⟨cancelled, handlers, false⟩ :: rest }
  | leave (l : Act T) (d : Dispatch) (rest : List Dispatch) (hstack : w.stack = d :: rest) :
      Step sort w l { w with stack := rest }

theorem step_cases (hs : step sort w l = some w') : Step sort w l w' := by
  rcases l with o | ⟨type, cancelled⟩ | k | - | - | - | - <;> simp only [step] at hs
  · obtain ⟨hcaller, hs⟩ := Option.ite_none_right_eq_some.1 hs
    obtain rfl := Option.some.inj hs
    exact .op o hcaller
  · obtain ⟨hcaller, hs⟩ := Option.ite_none_right_eq_some.1 hs
    obtain rfl := Option.some.inj hs
    exact .publish type cancelled hcaller
  · obtain ⟨hcaller, hs⟩ := Option.ite_none_right_eq_some.1 hs
    obtain ⟨d, hd, rfl⟩ := Option.map_eq_some_iff.1 hs
    exact .cancel k d hcaller hd
  · split at hs
    · next hstack =>
      obtain rfl := Option.some.inj hs
      exact .next _ _ _ hstack
    · cases hs
  · split at hs
    · next hstack =>
      obtain rfl := Option.some.inj hs
      exact .return _ _ _ hstack
    · cases hs
  · split at hs
    · next hstack =>
      obtain rfl := Option.some.inj hs
      exact .leave _ _ _ hstack
    · cases hs
  · split at hs
    · next hstack =>
      obtain rfl := Option.some.inj (Option.ite_none_right_eq_some.1 hs).2
      exact .leave _ _ _ hstack
    · cases hs

/-! ## A dispatch that nothing interferes with -/

variable (sort) in
theorem run_call (bus : EventBus T) (cancelled : Bool) (h : ℕ) (handlers : List ℕ)
    (rest : List Dispatch) (acc : List ℕ) :
    ∃ ls, (system sort).Run ⟨bus, ⟨false, h :: handlers, false⟩ :: rest, acc⟩ ls
      ⟨bus, ⟨cancelled, handlers, true⟩ :: rest, acc ++ [h]⟩ := by
  have hnext : step sort ⟨bus, ⟨false, h :: handlers, false⟩ :: rest, acc⟩ .next =
      some ⟨bus, ⟨false, handlers, true⟩ :: rest, acc ++ [h]⟩ := rfl
  rcases cancelled with _ | _
  · exact ⟨[.next], .single (T := system sort) hnext⟩
  · exact ⟨[.next, .cancel 0], .cons (T := system sort) hnext (.single (T := system sort) rfl)⟩

variable (sort) in
/-- The loop of `publish`, one step after another. -/
theorem run_dispatch (behave : Subscriber → Event → Outcome × Event) (bus : EventBus T)
    (l : List Subscriber) (event : Event) (rest : List Dispatch) (acc : List ℕ) :
    ∃ ls, (system sort).Run
      ⟨bus, ⟨event.cancelled, l.map Subscriber.handler, false⟩ :: rest, acc⟩ ls
      ⟨bus, rest, acc ++ (EventBus.dispatch behave l event).invoked.map Subscriber.handler⟩ := by
  induction l generalizing event acc with
  | nil =>
    refine ⟨[.finish], .single (T := system sort) ?_⟩
    show step sort _ .finish = _
    simp [step, EventBus.dispatch]
  | cons s l ih =>
    rw [EventBus.dispatch, List.map_cons]
    rcases event.cancelled with _ | _
    · rcases hb : behave s event with ⟨out, event'⟩
      obtain ⟨ls₁, hcall⟩ := run_call sort bus event'.cancelled s.handler
        (l.map Subscriber.handler) rest acc
      have hreturn : step sort ⟨bus, ⟨event'.cancelled, l.map Subscriber.handler, true⟩ :: rest,
          acc ++ [s.handler]⟩ .return =
            some ⟨bus, ⟨event'.cancelled, l.map Subscriber.handler, false⟩ :: rest,
              acc ++ [s.handler]⟩ := rfl
      have hthrow : step sort ⟨bus, ⟨event'.cancelled, l.map Subscriber.handler, true⟩ :: rest,
          acc ++ [s.handler]⟩ .throw = some ⟨bus, rest, acc ++ [s.handler]⟩ := rfl
      obtain ⟨ls₂, hrest⟩ := ih event' (acc ++ [s.handler])
      rw [List.append_assoc] at hrest
      rcases out with _ | _ | _
      · exact ⟨_, (hcall.snoc hreturn).append hrest⟩
      · exact ⟨_, (hcall.snoc hreturn).append hrest⟩
      · exact ⟨_, hcall.snoc hthrow⟩
    · refine ⟨[.finish], .single (T := system sort) ?_⟩
      show step sort _ .finish = _
      simp [step]

/-- **`publish` with callbacks that do not call the bus** is a run from where it is called to there,
which accesses the handlers that it invokes. -/
theorem run_publish (hcaller : w.inCaller = true) (type : T) (now : ℤ)
    (behave : Subscriber → Event → Outcome × Event) (event : Event) :
    ∃ ls, (system sort).Run w (.publish type event.cancelled :: ls)
      { w with
        accessed := w.accessed ++
          (w.bus.publish type now behave event).invoked.map Subscriber.handler } := by
  obtain ⟨ls, hrun⟩ := run_dispatch sort behave w.bus (w.bus.subs type)
    (if event.timestamp = 0 then { event with timestamp := now } else event) w.stack w.accessed
  refine ⟨ls, .cons (T := system sort) ?_ hrun⟩
  have hcancelled : (if event.timestamp = 0 then { event with timestamp := now }
      else event).cancelled = event.cancelled := by
    split <;> rfl
  rw [hcancelled]
  exact if_pos hcaller

/-! ## Runs -/

/-- The bus of a run is one that operations alone lead to. -/
theorem bus_run (hrun : (system sort).Run start ls w) : ∃ ops, w.bus = EventBus.run sort ops := by
  refine hrun.invariant (motive := fun w ↦ ∃ ops, w.bus = EventBus.run sort ops) ?_ ⟨[], rfl⟩
  rintro w l w' ⟨ops, hops⟩ hstep
  rcases step_cases hstep with ⟨o, -⟩ | - | - | - | - | -
  · refine ⟨ops ++ [o], ?_⟩
    rw [EventBus.run, List.foldl_append, ← EventBus.run, ← hops]
    rfl
  all_goals exact ⟨ops, hops⟩

theorem lt_made_of_run (hsort : IsSort sort) (hrun : (system sort).Run start ls w)
    (hmem : h ∈ w.bus.handlers) : h < w.bus.made := by
  obtain ⟨ops, hops⟩ := bus_run hrun
  obtain ⟨book, hbook, hrep⟩ := EventBus.run_represents hsort ops
  obtain ⟨type, s, hs, rfl⟩ := mem_handlers.1 hmem
  rw [hops] at hs ⊢
  rw [hrep.made_eq]
  exact (Book.Ok.of_run hbook).handler_lt (type, s)
    (Book.mem_ofType.1 ((hrep.perm type).mem_iff.1 hs))

/-- Whatever is under way below the innermost dispatch is in the call of a handler. -/
def Nested (w : World T) : Prop := ∀ d ∈ w.stack.tail, d.running = true

omit [DecidableEq T] in
theorem Nested.running_of_inCaller (hn : w.Nested) (hcaller : w.inCaller = true) :
    ∀ d ∈ w.stack, d.running = true := by
  rw [inCaller] at hcaller
  rw [Nested] at hn
  rcases hstack : w.stack with _ | ⟨d, rest⟩
  · exact fun d hd ↦ absurd hd List.not_mem_nil
  · rw [hstack] at hcaller hn
    exact List.forall_mem_cons.2 ⟨hcaller, hn⟩

theorem nested_run (hrun : (system sort).Run start ls w) : w.Nested := by
  refine hrun.invariant (motive := Nested) ?_ fun d hd ↦ absurd hd List.not_mem_nil
  intro w l w' hn hstep
  rcases step_cases hstep with ⟨o, -⟩ | ⟨type, cancelled, hcaller⟩ | ⟨k, d, hcaller, hd⟩ |
    ⟨h, handlers, rest, hstack⟩ | ⟨cancelled, handlers, rest, hstack⟩ | ⟨_, d, rest, hstack⟩
  · exact hn
  · exact hn.running_of_inCaller hcaller
  · intro e he
    obtain he | rfl := List.mem_or_eq_of_mem_set (List.mem_of_mem_tail he)
    · exact hn.running_of_inCaller hcaller e he
    · exact hn.running_of_inCaller hcaller d (List.mem_of_getElem? hd)
  all_goals
    rw [Nested, hstack, List.tail_cons] at hn
    first
    | exact hn
    | exact fun e he ↦ hn e (List.mem_of_mem_tail he)

/-- The handler is not owned by the bus any more, nothing comes to it any more, and it was not
accessed since `w₀`. -/
structure Gone (h : ℕ) (w₀ w : World T) : Prop where
  lt_made : h < w.bus.made
  notMem : h ∉ w.bus.handlers
  not_pending : ¬ w.Pending h
  accessed : ∃ more, w.accessed = w₀.accessed ++ more ∧ h ∉ more

omit [DecidableEq T] in
theorem Gone.not_accesses {w₀ : World T} (hg : Gone h w₀ w) : ¬ Accesses h w₀ w := by
  rintro ⟨more, hmore, hmem⟩
  obtain ⟨more', hmore', hnot⟩ := hg.accessed
  rw [hmore', List.append_cancel_left_eq] at hmore
  exact hnot (hmore ▸ hmem)

/-- **What is gone stays gone.** -/
theorem Gone.step {w₀ : World T} (hsort : IsSort sort) (hg : Gone h w₀ w)
    (hs : step sort w l = some w') : Gone h w₀ w' := by
  rcases step_cases hs with ⟨o, -⟩ | ⟨type, cancelled, -⟩ | ⟨k, d, -, hd⟩ |
    ⟨h', handlers, rest, hstack⟩ | ⟨cancelled, handlers, rest, hstack⟩ | ⟨_, d, rest, hstack⟩
  · refine ⟨hg.lt_made.trans_le (made_applyOp_le sort _ o), fun hmem ↦ ?_, hg.not_pending,
      hg.accessed⟩
    rcases handlers_applyOp hsort o hmem with hmem | heq
    · exact hg.notMem hmem
    · exact hg.lt_made.ne heq
  · refine ⟨hg.lt_made, hg.notMem, ?_, hg.accessed⟩
    rintro ⟨d, hd, hc, hmem⟩
    rcases List.mem_cons.1 hd with rfl | hd
    · obtain ⟨s, hs, rfl⟩ := List.mem_map.1 hmem
      exact hg.notMem (mem_handlers.2 ⟨type, s, hs, rfl⟩)
    · exact hg.not_pending ⟨d, hd, hc, hmem⟩
  · refine ⟨hg.lt_made, hg.notMem, ?_, hg.accessed⟩
    rintro ⟨e, he, hc, hmem⟩
    rcases List.mem_or_eq_of_mem_set he with he | rfl
    · exact hg.not_pending ⟨e, he, hc, hmem⟩
    · cases hc
  · have hnot : h ∉ h' :: handlers := fun hmem ↦
      hg.not_pending ⟨_, hstack ▸ List.mem_cons_self, rfl, hmem⟩
    rw [List.mem_cons, not_or] at hnot
    obtain ⟨more, hmore, hmem⟩ := hg.accessed
    refine ⟨hg.lt_made, hg.notMem, ?_, more ++ [h'], ?_, ?_⟩
    · rintro ⟨d, hd, hc, hd'⟩
      rcases List.mem_cons.1 hd with rfl | hd
      · exact hnot.2 hd'
      · exact hg.not_pending ⟨d, hstack ▸ List.mem_cons_of_mem _ hd, hc, hd'⟩
    · rw [← List.append_assoc, ← hmore]
    · rw [List.mem_append, List.mem_singleton, not_or]
      exact ⟨hmem, hnot.1⟩
  · refine ⟨hg.lt_made, hg.notMem, ?_, hg.accessed⟩
    rintro ⟨d, hd, hc, hmem⟩
    rcases List.mem_cons.1 hd with rfl | hd
    · exact hg.not_pending ⟨⟨cancelled, handlers, true⟩, hstack ▸ List.mem_cons_self, hc, hmem⟩
    · exact hg.not_pending ⟨d, hstack ▸ List.mem_cons_of_mem _ hd, hc, hmem⟩
  · refine ⟨hg.lt_made, hg.notMem, ?_, hg.accessed⟩
    rintro ⟨e, he, hc, hmem⟩
    exact hg.not_pending ⟨e, hstack ▸ List.mem_cons_of_mem _ he, hc, hmem⟩

theorem Gone.run {w₀ : World T} (hsort : IsSort sort) (hg : Gone h w₀ w)
    (hrun : (system sort).Run w ls w') : Gone h w₀ w' :=
  hrun.invariant (motive := Gone h w₀) (fun _ _ _ hg hstep ↦ hg.step hsort hstep) hg

variable (sort) in
/-- A dispatch that has control goes on through its handlers, which return at once. -/
theorem run_visit (bus : EventBus T) (pre post : List ℕ) (rest : List Dispatch) (acc : List ℕ) :
    ∃ ls, (system sort).Run ⟨bus, ⟨false, pre ++ post, false⟩ :: rest, acc⟩ ls
      ⟨bus, ⟨false, post, false⟩ :: rest, acc ++ pre⟩ := by
  induction pre generalizing acc with
  | nil =>
    rw [List.append_nil]
    exact ⟨[], .nil⟩
  | cons h pre ih =>
    obtain ⟨ls, hrun⟩ := ih (acc ++ [h])
    rw [List.append_assoc, List.singleton_append] at hrun
    refine ⟨.next :: .return :: ls, ?_⟩
    exact System.Run.cons (T := system sort) (t := ⟨bus, ⟨false, pre ++ post, true⟩ :: rest, _⟩) rfl
      (System.Run.cons (T := system sort) rfl hrun)

variable (sort) in
/-- The dispatches above one can all be left by exceptions. -/
theorem run_unwind (bus : EventBus T) (inner rest : List Dispatch) (acc : List ℕ)
    (hinner : ∀ d ∈ inner, d.running = true) :
    ∃ ls, (system sort).Run ⟨bus, inner ++ rest, acc⟩ ls ⟨bus, rest, acc⟩ := by
  induction inner with
  | nil => exact ⟨[], .nil⟩
  | cons d inner ih =>
    rw [List.forall_mem_cons] at hinner
    obtain ⟨ls, hrun⟩ := ih hinner.2
    obtain ⟨cancelled, handlers, running⟩ := d
    obtain rfl : running = true := hinner.1
    exact ⟨.throw :: ls, System.Run.cons (T := system sort) rfl hrun⟩

variable (sort) in
/-- **What is pending can be accessed**, when control is outside the loop. -/
theorem exists_access_of_pending (hall : ∀ d ∈ w.stack, d.running = true) (hp : w.Pending h) :
    ∃ ls w', (system sort).Run w ls w' ∧ Accesses h w w' := by
  obtain ⟨⟨cancelled, handlers, running⟩, hd, hc, hmem⟩ := hp
  obtain rfl : cancelled = false := hc
  obtain rfl : running = true := hall _ hd
  obtain ⟨inner, rest, hstack⟩ := List.append_of_mem hd
  obtain ⟨pre, post, rfl⟩ := List.append_of_mem hmem
  obtain ⟨bus, stack, acc⟩ := w
  obtain rfl : stack = _ := hstack
  obtain ⟨ls₁, hunwind⟩ := run_unwind sort bus inner
    (⟨false, pre ++ h :: post, true⟩ :: rest) acc fun d hd ↦ hall d (List.mem_append_left _ hd)
  obtain ⟨ls₂, hvisit⟩ := run_visit sort bus pre (h :: post) rest acc
  have hreturn : step sort ⟨bus, ⟨false, pre ++ h :: post, true⟩ :: rest, acc⟩ .return =
      some ⟨bus, ⟨false, pre ++ h :: post, false⟩ :: rest, acc⟩ := rfl
  have hnext : step sort ⟨bus, ⟨false, h :: post, false⟩ :: rest, acc ++ pre⟩ .next =
      some ⟨bus, ⟨false, post, true⟩ :: rest, acc ++ pre ++ [h]⟩ := rfl
  exact ⟨_, _, ((hunwind.snoc hreturn).append hvisit).snoc hnext, pre ++ [h],
    List.append_assoc _ _ _, List.mem_append_right _ (List.mem_singleton_self h)⟩

/-- **A removal takes effect at once just when nothing is pending.**  In every run, and for every
handler that a call removes from the bus, no continuation of the run accesses the handler's object
if and only if no dispatch under way of an uncancelled event has still to come to it. -/
theorem no_access_iff (hsort : IsSort sort) (hrun : (system sort).Run start ls w) {o : Op T}
    (hstep : step sort w (.op o) = some w') (hmem : h ∈ w.bus.handlers)
    (hremoved : h ∉ w'.bus.handlers) :
    (∀ (ls' : List (Act T)) (w'' : World T), (system sort).Run w' ls' w'' → ¬ Accesses h w' w'') ↔
      ¬ w.Pending h := by
  obtain ⟨hcaller, hw'⟩ := Option.ite_none_right_eq_some.1 hstep
  obtain rfl := Option.some.inj hw'
  constructor
  · intro hno hp
    obtain ⟨ls', w'', hrun', hacc⟩ := exists_access_of_pending sort
      (w := { w with bus := w.bus.applyOp sort o })
      ((nested_run hrun).running_of_inCaller hcaller) hp
    exact hno ls' w'' hrun' hacc
  · intro hp ls' w'' hrun'
    have hlt := (lt_made_of_run hsort hrun hmem).trans_le (made_applyOp_le sort w.bus o)
    have hgone : Gone h { w with bus := w.bus.applyOp sort o }
        { w with bus := w.bus.applyOp sort o } :=
      ⟨hlt, hremoved, hp, [], (List.append_nil _).symm, List.not_mem_nil⟩
    exact (hgone.run hsort hrun').not_accesses

/-- Two handlers of one type, and the first of them is being called. -/
def firstOfTwo : List (Act ℕ) :=
  [.op (.subscribe 0 10), .op (.subscribe 0 5), .publish 0 false, .next]

/-- A handler that unsubscribes itself is not called again. -/
theorem no_access_iff_itself :
    ∃ w w' : World ℕ, (system EventBus.stableSort).Run start firstOfTwo w ∧
      step EventBus.stableSort w (.op (.unsubscribe 1)) = some w' ∧
      ∀ (ls' : List (Act ℕ)) (w'' : World ℕ), (system EventBus.stableSort).Run w' ls' w'' →
        ¬ Accesses 0 w' w'' := by
  obtain ⟨w, hrun, hmem, hstack, w', hstep, hremoved⟩ :
      ∃ w, (system EventBus.stableSort).Run start firstOfTwo w ∧ 0 ∈ w.bus.handlers ∧
        w.stack = [⟨false, [1], true⟩] ∧
        ∃ w' ∈ step EventBus.stableSort w (.op (.unsubscribe 1)), 0 ∉ w'.bus.handlers :=
    System.Run.exists_of_any (by decide +kernel)
  refine ⟨w, w', hrun, hstep,
    (no_access_iff EventBus.stableSort_isSort hrun hstep hmem hremoved).2 ?_⟩
  rw [Pending, hstack]
  decide

/-- A handler that unsubscribes the one after it: the loop comes to the address of an object that
is not there any more. -/
theorem access_after_unsubscribe :
    ¬ ∀ sort, IsSort sort → ∀ (ls ls' : List (Act ℕ)) (w w' w'' : World ℕ) (o : Op ℕ) (h : ℕ),
      (system sort).Run start ls w → step sort w (.op o) = some w' →
        h ∈ w.bus.handlers → h ∉ w'.bus.handlers → (system sort).Run w' ls' w'' →
          ¬ Accesses h w' w'' := by
  intro hall
  obtain ⟨w, hrun, hmem, w', hstep, hremoved, hany⟩ :
      ∃ w, (system EventBus.stableSort).Run start firstOfTwo w ∧ 1 ∈ w.bus.handlers ∧
        ∃ w' ∈ step EventBus.stableSort w (.op (.unsubscribe 2)), 1 ∉ w'.bus.handlers ∧
          ([Act.return, .next].foldlM (step EventBus.stableSort) w').any
            (fun w'' ↦ decide (w''.accessed = w'.accessed ++ [1])) = true :=
    System.Run.exists_of_any (by decide +kernel)
  obtain ⟨w'', hrun', hacc⟩ := System.Run.exists_of_any hany
  exact hall _ EventBus.stableSort_isSort _ _ w w' w'' (.unsubscribe 2) 1 hrun hstep hmem hremoved
    hrun' ⟨[1], hacc, List.mem_singleton_self 1⟩

end World
end Events
end ChwellCore
