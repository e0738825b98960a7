import ChwellCore.Rpc.Delivery

/-!
# Synchronous calls

`call_sync` makes a call whose callback stores the answer in local variables of `call_sync`, by
reference, and then waits until the callback has been invoked, but no longer than `timeout_seconds`
and one second more.  When it gives up, nothing takes the callback back: it stays in the table until
the sweep, a response or a disconnect finds it, and is invoked on variables that are gone.  To
`call` a negative timeout means the default one, and to the wait no time at all.

The callbacks that will still be invoked are those that have been issued and not settled, wherever
they are (`World.unsettled`); every one of them can be (`exists_run_settled`), and no other
(`settled_of_notMem`).  So the callback of `call_sync` is left behind just if it is one of them when
`call_sync` returns, which is `left_behind_iff`.
-/

set_option autoImplicit false

namespace ChwellCore
namespace Rpc

open Protocol (Message)

/-- The step is taken at `now`, if it looks at the clock. -/
def Act.At (now : ℤ) : Act → Prop
  | .insert _ t => t = now
  | .wake t => t = now
  | .connect | .call _ _ _ _ | .permit _ _ | .send _ | .receive _ _ | .take _ | .answer _
  | .onDisconnect | .fail _ | .disconnect | .join _ | .close _ | .swap _ | .notify _ | .return _
  | .expire => True

instance (now : ℤ) (a : Act) : Decidable (a.At now) :=
  match a with
  | .insert _ _ | .wake _ => inferInstanceAs (Decidable (_ = _))
  | .connect | .call _ _ _ _ | .permit _ _ | .send _ | .receive _ _ | .take _ | .answer _
  | .onDisconnect | .fail _ | .disconnect | .join _ | .close _ | .swap _ | .notify _ | .return _
  | .expire => .isTrue trivial

namespace World

variable {w w' : World} {a : Act} {i : ℕ}

/-! ## Callbacks that are still to come -/

/-- The callbacks that have been issued and not settled. -/
def unsettled (w : World) : Multiset RpcCallback :=
  Pool.total Proc.callbacks w.procs + pendingCallbacks w.pendingRequests + w.cleanup.callbacks

theorem tokens_eq (w : World) :
    w.tokens = w.unsettled + (w.settled.map Settlement.callback : List RpcCallback) := rfl

/-- A request that is inserted takes the place of one with its id, if there is one. -/
theorem callbacks_insert_le (m : UnorderedMap UInt32 PendingRequest) (id : UInt32)
    (req : PendingRequest) : (pendingCallbacks (m.insert id req) : Multiset RpcCallback) ≤
      {req.callback} + pendingCallbacks m := by
  rw [pendingCallbacks, AList.entries_insert, List.map_cons, ← Multiset.cons_coe,
    ← Multiset.singleton_add]
  refine Multiset.add_le_add_left (Multiset.coe_le.2 ?_)
  exact ((List.kerase_sublist id m.entries).map _).subperm

/-- What a step does to the callbacks, whatever the request ids: none is doubled. -/
theorem tokens_step_le (hs : Step w a w') :
    (w'.tokens ≤ w.tokens ∧ w'.issued = w.issued) ∨
      ∃ present, w'.tokens ≤ w.tokens + {w.nextCallback present} ∧
        w'.issued = w.issued ++ [w.nextCallback present] := by
  by_cases ha : ∃ i now, a = .insert i now
  · obtain ⟨i, now, rfl⟩ := ha
    cases hs with
    | @insert _ id cmd data callback timeout _ deadline hp =>
      refine .inl ⟨?_, rfl⟩
      let m := w.pendingRequests.insert id ⟨callback, deadline⟩
      have hput := tokens_put (w := { w with pendingRequests := m }) hp (.sending id cmd data)
      have hpend := tokens_pending w m
      let held : Multiset RpcCallback := {callback} + pendingCallbacks w.pendingRequests
      refine le_of_add_le_add_right (a := held) ?_
      calc _ = (({ w with pendingRequests := m } : World).put i (.sending id cmd data)).tokens +
            {callback} + pendingCallbacks w.pendingRequests := (add_assoc _ _ _).symm
        _ = w.tokens + pendingCallbacks m := by
          rw [← hpend]
          exact congrArg (· + _) (hput.trans (add_zero _))
        _ ≤ w.tokens + held :=
          Multiset.add_le_add_left (callbacks_insert_le _ _ _)
  · rcases tokens_step (fun i now hact ↦ absurd ⟨i, now, hact⟩ ha) hs with
      ⟨htok, hiss⟩ | ⟨present, htok, hiss⟩
    · exact .inl ⟨htok.le, hiss⟩
    · exact .inr ⟨present, htok.le, hiss⟩

/-- What has been settled stays so. -/
theorem settled_step (hs : Step w a w') : w.settled <+: w'.settled := by
  cases hs with
  | callRefused cmd data present timeout | answer hp | reject hp | fail hp | notify hp
  | expire hc => exact List.prefix_append _ _
  | _ => exact List.prefix_rfl

/-- **A step settles only what was not settled**, or the callback of a call that begins with it. -/
theorem unsettled_step (hs : Step w a w') :
    ∃ new, w'.settled = w.settled ++ new ∧
      ∀ callback ∈ w'.unsettled + (new.map Settlement.callback : List RpcCallback),
        callback ∈ w.unsettled ∨ callback.call = w.issued.length := by
  obtain ⟨new, hnew⟩ := settled_step hs
  refine ⟨new, hnew.symm, fun callback hmem ↦ ?_⟩
  have htok : w'.tokens = w'.unsettled + (new.map Settlement.callback : List RpcCallback) +
      (w.settled.map Settlement.callback : List RpcCallback) := by
    rw [tokens_eq, ← hnew, List.map_append, ← Multiset.coe_add, add_assoc,
      add_comm (w.settled.map Settlement.callback : Multiset RpcCallback)]
  rcases tokens_step_le hs with ⟨hle, -⟩ | ⟨present, hle, -⟩
  · rw [htok, tokens_eq] at hle
    exact .inl (Multiset.mem_of_le (le_of_add_le_add_right hle) hmem)
  · rw [htok, tokens_eq, add_right_comm w.unsettled] at hle
    rcases Multiset.mem_add.1 (Multiset.mem_of_le (le_of_add_le_add_right hle) hmem) with h | h
    · exact .inl h
    · exact .inr (congrArg RpcCallback.call (Multiset.mem_singleton.1 h))

/-- Between the two states the callback has been settled. -/
def Settles (callback : RpcCallback) (w w' : World) : Prop :=
  ∃ new, w'.settled = w.settled ++ new ∧ callback ∈ new.map Settlement.callback

/-- The callback of a call that has begun is not to come, and has not come since `w₀`. -/
structure Gone (callback : RpcCallback) (w₀ w : World) : Prop where
  begun : callback.call < w.issued.length
  notMem : callback ∉ w.unsettled
  since : ∃ new, w.settled = w₀.settled ++ new ∧ callback ∉ new.map Settlement.callback

variable {callback : RpcCallback} {w₀ : World}

theorem Gone.step (h : Gone callback w₀ w) (hs : Step w a w') : Gone callback w₀ w' := by
  obtain ⟨old, hold, hnot⟩ := h.since
  obtain ⟨new, hnew, hcases⟩ := unsettled_step hs
  have hgone : callback ∉ w'.unsettled + (new.map Settlement.callback : List RpcCallback) := by
    intro hmem
    rcases hcases callback hmem with hmem | hcall
    · exact h.notMem hmem
    · exact absurd hcall h.begun.ne
  rw [Multiset.mem_add, not_or] at hgone
  refine ⟨h.begun.trans_le (issued_le hs), hgone.1, old ++ new, ?_, ?_⟩
  · rw [hnew, hold, List.append_assoc]
  · rw [List.map_append, List.mem_append, not_or]
    exact ⟨hnot, hgone.2⟩

theorem Gone.not_settles (h : Gone callback w₀ w) : ¬ Settles callback w₀ w := by
  rintro ⟨new, hnew, hmem⟩
  obtain ⟨new', hnew', hnot⟩ := h.since
  rw [hnew] at hnew'
  rw [List.append_cancel_left hnew'] at hmem
  exact hnot hmem

/-! ## Every one of them can come -/

variable (defaultTimeoutSeconds : Int32) (now : ℤ)

/-- There is a run at `now` that settles the callback. -/
def CanSettle (callback : RpcCallback) (w : World) : Prop :=
  ∃ acts w', (system defaultTimeoutSeconds).Run w acts w' ∧ (∀ a ∈ acts, a.At now) ∧
    Settles callback w w'

variable {defaultTimeoutSeconds now}

/-- A step that settles nothing, or something else, comes before. -/
theorem CanSettle.of_step (hat : a.At now) (hs : World.step defaultTimeoutSeconds w a = some w')
    (h : CanSettle defaultTimeoutSeconds now callback w') :
    CanSettle defaultTimeoutSeconds now callback w := by
  obtain ⟨acts, w'', hrun, hall, new, hnew, hmem⟩ := h
  obtain ⟨old, hold⟩ := settled_step (step_cases hs)
  refine ⟨a :: acts, w'', .cons (T := system defaultTimeoutSeconds) hs hrun, ?_, old ++ new, ?_, ?_⟩
  · exact List.forall_mem_cons.2 ⟨hat, hall⟩
  · rw [hnew, ← hold, List.append_assoc]
  · rw [List.map_append]
    exact List.mem_append_right _ hmem

/-- A step settles the callback. -/
theorem canSettle_of_settle {s : Settlement} (hat : a.At now)
    (hs : World.step defaultTimeoutSeconds w a = some w')
    (hsettled : w'.settled = w.settled ++ [s]) : CanSettle defaultTimeoutSeconds now s.callback w :=
  ⟨[a], w', .single (T := system defaultTimeoutSeconds) hs, List.forall_mem_singleton.2 hat,
    [s], hsettled, List.mem_singleton_self _⟩

/-- A list of callbacks that are settled one after another. -/
theorem canSettle_of_list {P : World → List RpcCallback → Prop} (hat : a.At now)
    (hturn : ∀ w c cs, P w (c :: cs) → ∃ w', World.step defaultTimeoutSeconds w a = some w' ∧
      w'.settled = w.settled ++ [⟨c, false, emptyMsg⟩] ∧ P w' cs)
    {cs : List RpcCallback} (h : P w cs) (hmem : callback ∈ cs) :
    CanSettle defaultTimeoutSeconds now callback w := by
  induction cs generalizing w with
  | nil => cases hmem
  | cons c cs ih =>
    obtain ⟨w', hs, hsettled, hrest⟩ := hturn w c cs h
    rcases List.mem_cons.1 hmem with rfl | hmem
    · exact canSettle_of_settle hat hs hsettled
    · exact (ih hrest hmem).of_step hat hs

theorem canSettle_of_failing {cs : List RpcCallback} (hp : w.procs[i]? = some (.failing cs))
    (hmem : callback ∈ cs) : CanSettle defaultTimeoutSeconds now callback w := by
  refine canSettle_of_list (P := fun w cs ↦ w.procs[i]? = some (.failing cs)) (a := .fail i)
    trivial (fun w c cs hp ↦ ?_) hp hmem
  simp only [World.step, hp]
  exact ⟨_, rfl, rfl, Pool.getElem?_put_self hp _⟩

theorem canSettle_of_notifying {cs : List RpcCallback} (hp : w.procs[i]? = some (.notifying cs))
    (hmem : callback ∈ cs) : CanSettle defaultTimeoutSeconds now callback w := by
  refine canSettle_of_list (P := fun w cs ↦ w.procs[i]? = some (.notifying cs)) (a := .notify i)
    trivial (fun w c cs hp ↦ ?_) hp hmem
  simp only [World.step, hp]
  exact ⟨_, rfl, rfl, Pool.getElem?_put_self hp _⟩

theorem canSettle_of_expiring {cs : List RpcCallback} (hc : w.cleanup = .expiring cs)
    (hmem : callback ∈ cs) : CanSettle defaultTimeoutSeconds now callback w := by
  refine canSettle_of_list (P := fun w cs ↦ w.cleanup = .expiring cs) (a := .expire)
    trivial (fun w c cs hc ↦ ?_) hc hmem
  simp only [World.step, hc]
  exact ⟨_, rfl, rfl, rfl⟩

/-- `on_disconnect` takes what is in the table. -/
theorem canSettle_of_pending (hmem : callback ∈ pendingCallbacks w.pendingRequests) :
    CanSettle defaultTimeoutSeconds now callback w := by
  refine .of_step (a := .onDisconnect) trivial rfl
    (canSettle_of_failing (i := w.procs.length) ?_ hmem)
  simp [spawn, Pool.spawn]

variable (defaultTimeoutSeconds now) in
/-- **Every callback that is not settled can be**, without waiting. -/
theorem canSettle_of_mem (hmem : callback ∈ w.unsettled) :
    CanSettle defaultTimeoutSeconds now callback w := by
  rw [unsettled, Multiset.mem_add, Multiset.mem_add] at hmem
  rcases hmem with (hmem | hmem) | hmem
  · obtain ⟨p, hpool, hmem⟩ := (Pool.mem_total Proc.callbacks).1 hmem
    obtain ⟨i, hp⟩ := List.mem_iff_getElem?.1 hpool
    cases p with
    | admitting cmd data callback' timeout =>
      obtain rfl := Multiset.mem_singleton.1 hmem
      have hs : World.step defaultTimeoutSeconds w (.permit i false) =
          some ((w.settle callback false emptyMsg).put i .done) := by
        simp only [World.step, hp]
        rfl
      exact canSettle_of_settle (a := .permit i false) trivial hs rfl
    | inserting id cmd data callback' timeout =>
      obtain rfl := Multiset.mem_singleton.1 hmem
      have hs : World.step defaultTimeoutSeconds w (.insert i now) =
          some ({ w with
            pendingRequests := w.pendingRequests.insert id
              ⟨callback, deadline defaultTimeoutSeconds now timeout⟩ }.put i
                (.sending id cmd data)) := by
        simp only [World.step, hp]
      refine .of_step (a := .insert i now) rfl hs (canSettle_of_pending ?_)
      rw [pendingCallbacks]
      exact List.mem_map.2 ⟨⟨id, _⟩, UnorderedMap.lookup_eq_some_iff.1 (AList.lookup_insert _), rfl⟩
    | answering conn callback' response messages =>
      obtain rfl := Multiset.mem_singleton.1 hmem
      have hs : World.step defaultTimeoutSeconds w (.answer i) =
          some ((w.settle callback true response).put i (.handling conn messages)) := by
        simp only [World.step, hp]
      exact canSettle_of_settle (a := .answer i) trivial hs rfl
    | failing cs => exact canSettle_of_failing hp hmem
    | notifying cs => exact canSettle_of_notifying hp hmem
    | _ => exact absurd hmem (Multiset.notMem_zero _)
  · exact canSettle_of_pending hmem
  · rcases hc : w.cleanup with _ | _ | cs | _
    all_goals rw [hc] at hmem
    case expiring => exact canSettle_of_expiring hc hmem
    all_goals exact absurd hmem (Multiset.notMem_zero _)

/-! ## The accounts of every run -/

/-- No callback is in two places, and the callbacks are numbered. -/
structure Tallies (w : World) : Prop where
  balance : w.tokens ≤ w.issued
  calls : w.issued.map RpcCallback.call = List.range w.issued.length

theorem Tallies.step (h : w.Tallies) (hs : Step w a w') : w'.Tallies := by
  rcases tokens_step_le hs with ⟨hle, hiss⟩ | ⟨present, hle, hiss⟩
  · exact ⟨by rw [hiss]; exact hle.trans h.balance, by rw [hiss]; exact h.calls⟩
  · refine ⟨hle.trans ?_, ?_⟩
    · rw [hiss, ← Multiset.coe_add, Multiset.coe_singleton]
      exact Multiset.add_le_add_right h.balance
    · rw [hiss, List.map_append, h.calls, List.length_append, List.length_singleton,
        List.range_succ]
      rfl

theorem tallies_run {acts : List Act} (hrun : (system defaultTimeoutSeconds).Run fresh acts w) :
    w.Tallies :=
  hrun.invariant (motive := Tallies) (fun _ _ _ h hstep ↦ h.step (step_cases hstep)) ⟨le_rfl, rfl⟩

/-- The callback has been dealt with. -/
def Done (w : World) (callback : RpcCallback) : Prop :=
  callback ∈ w.settled.map Settlement.callback

instance (w : World) (callback : RpcCallback) : Decidable (w.Done callback) :=
  inferInstanceAs (Decidable (_ ∈ _))

/-- What has been settled is not to come. -/
theorem Tallies.notMem_of_done (h : w.Tallies) (hdone : w.Done callback) :
    callback ∉ w.unsettled := by
  have hissued : w.issued.Nodup := by
    refine List.Nodup.of_map RpcCallback.call ?_
    rw [h.calls]
    exact List.nodup_range
  have hnodup : w.tokens.Nodup := Multiset.nodup_of_le h.balance (Multiset.coe_nodup.2 hissued)
  rw [tokens_eq] at hnodup
  exact fun hmem ↦ Multiset.disjoint_left.1 (Multiset.nodup_add.1 hnodup).2.2 hmem hdone

theorem Tallies.call_lt (h : w.Tallies) (hmem : callback ∈ w.issued) :
    callback.call < w.issued.length := by
  rw [← List.mem_range, ← h.calls]
  exact List.mem_map_of_mem hmem

end World

/-! ## `call_sync` -/

/-- Where a `call_sync` is. -/
inductive SyncPhase where
  /-- In its `call`. -/
  | calling
  /-- In `wait_for`, until `limit` at most. -/
  | waiting (limit : ℤ)
  | returned
deriving DecidableEq, Repr

/-- A `call_sync`: its callback, the activity of its `call` if that found a connection, and its
timeout. -/
structure SyncCall where
  callback : RpcCallback
  activity : Option ℕ
  timeoutSeconds : Int32
  phase : SyncPhase
deriving DecidableEq, Repr

/-- A client with its synchronous calls, and the clock. -/
structure SyncWorld where
  world : World
  clock : ℤ
  syncs : Pool SyncCall

/-- A step of the client, of a `call_sync`, or of the clock.  A number names a `call_sync`. -/
inductive SyncAct where
  | tick (now : ℤ)
  | act (a : Act)
  /-- `call_sync` up to the look of its `call` at `connection_`.  Without a connection it returns
  before that, and there is no callback. -/
  | callSync (cmd : UInt16) (data : Bytes) (timeoutSeconds : Int32)
  /-- Its `call` has returned. -/
  | wait (k : ℕ)
  | return (k : ℕ)

namespace SyncWorld

variable (defaultTimeoutSeconds : Int32)

def start (clock : ℤ) : SyncWorld := ⟨.fresh, clock, []⟩

/-- The `call` of a `call_sync` has returned. -/
def hasCalled (w : World) (activity : Option ℕ) : Bool :=
  activity.all fun i ↦ w.procs[i]? == some .done

/-- One step; `none` if the `call_sync` is not at that point. -/
def step (x : SyncWorld) : SyncAct → Option SyncWorld
  | .tick now => if x.clock ≤ now then some { x with clock := now } else none
  | .act a =>
    if a.At x.clock then
      (World.step defaultTimeoutSeconds x.world a).map fun w ↦ { x with world := w }
    else none
  | .callSync cmd data timeout =>
    (World.step defaultTimeoutSeconds x.world (.call cmd data true timeout)).map fun w ↦
      { x with
        world := w
        syncs := x.syncs.spawn ⟨x.world.nextCallback true,
          if x.world.connected then some x.world.procs.length else none, timeout, .calling⟩ }
  | .wait k =>
    match x.syncs[k]? with
    | some ⟨callback, activity, timeout, .calling⟩ =>
      if hasCalled x.world activity then
        -- `seconds(timeout_seconds + 1)`, in 32 bits
        let limit := x.clock + (timeout + 1).toInt * 1000000000
        some { x with syncs := x.syncs.put k ⟨callback, activity, timeout, .waiting limit⟩ }
      else none
    | _ => none
  | .return k =>
    match x.syncs[k]? with
    | some ⟨callback, activity, timeout, .waiting limit⟩ =>
      if x.world.Done callback ∨ limit ≤ x.clock then
        some { x with syncs := x.syncs.put k ⟨callback, activity, timeout, .returned⟩ }
      else none
    | _ => none

def system : System SyncWorld SyncAct := System.ofPartial (step defaultTimeoutSeconds)

variable {defaultTimeoutSeconds} {x x' : SyncWorld} {l : SyncAct} {ls : List SyncAct} {t : ℤ}
  {k : ℕ}

/-- **What a step can do**: the client makes one, or the world stays as it is; and the callbacks of
the synchronous calls stay theirs, or a call of the client begins with one. -/
theorem step_cases (hs : step defaultTimeoutSeconds x l = some x') :
    (x'.world = x.world ∨ ∃ a, World.step defaultTimeoutSeconds x.world a = some x'.world) ∧
      ∀ (k : ℕ) (sync : SyncCall), x'.syncs[k]? = some sync →
        (∃ old, x.syncs[k]? = some old ∧ old.callback = sync.callback) ∨
          sync.callback = x.world.nextCallback true ∧
            x'.world.issued = x.world.issued ++ [x.world.nextCallback true] := by
  have hput : ∀ {k : ℕ} {old : SyncCall}, x.syncs[k]? = some old → ∀ (phase : SyncPhase) (j : ℕ)
      (sync : SyncCall), (x.syncs.put k { old with phase := phase })[j]? = some sync →
        ∃ old, x.syncs[j]? = some old ∧ old.callback = sync.callback := by
    intro k old hold phase
    exact Pool.forall_put (fun j sync _ hj ↦ ⟨sync, hj, rfl⟩) ⟨old, hold, rfl⟩
  cases l with
  | tick now =>
    simp only [step] at hs
    obtain ⟨-, hs⟩ := Option.ite_none_right_eq_some.1 hs
    obtain rfl := Option.some.inj hs
    exact ⟨.inl rfl, fun k sync hk ↦ .inl ⟨sync, hk, rfl⟩⟩
  | act a =>
    simp only [step] at hs
    obtain ⟨-, hs⟩ := Option.ite_none_right_eq_some.1 hs
    obtain ⟨w, hw, rfl⟩ := Option.map_eq_some_iff.1 hs
    exact ⟨.inr ⟨a, hw⟩, fun k sync hk ↦ .inl ⟨sync, hk, rfl⟩⟩
  | callSync cmd data timeout =>
    obtain ⟨w, hw, rfl⟩ := Option.map_eq_some_iff.1 hs
    have hissued : w.issued = x.world.issued ++ [x.world.nextCallback true] := by
      cases World.step_cases hw <;> rfl
    refine ⟨.inr ⟨_, hw⟩, ?_⟩
    exact Pool.forall_spawn (fun k sync hk ↦ .inl ⟨sync, hk, rfl⟩) (.inr ⟨rfl, hissued⟩)
  | wait k =>
    simp only [step] at hs
    split at hs
    · next hk =>
      obtain ⟨-, hs⟩ := Option.ite_none_right_eq_some.1 hs
      obtain rfl := Option.some.inj hs
      exact ⟨.inl rfl, fun j sync hj ↦ .inl (hput hk _ j sync hj)⟩
    · cases hs
  | «return» k =>
    simp only [step] at hs
    split at hs
    · next hk =>
      obtain ⟨-, hs⟩ := Option.ite_none_right_eq_some.1 hs
      obtain rfl := Option.some.inj hs
      exact ⟨.inl rfl, fun j sync hj ↦ .inl (hput hk _ j sync hj)⟩
    · cases hs

/-- What `return` asks for, and that it leaves the client alone. -/
theorem world_return (hs : step defaultTimeoutSeconds x (.return k) = some x') :
    x'.world = x.world ∧ x'.clock = x.clock := by
  simp only [step] at hs
  split at hs
  · split at hs
    · obtain rfl := Option.some.inj hs
      exact ⟨rfl, rfl⟩
    · cases hs
  · cases hs

/-- The client of a run is in a run of its own. -/
theorem world_run (hrun : (system defaultTimeoutSeconds).Run (start t) ls x) :
    ∃ acts, (World.system defaultTimeoutSeconds).Run .fresh acts x.world := by
  refine hrun.invariant
    (motive := fun x ↦ ∃ acts, (World.system defaultTimeoutSeconds).Run .fresh acts x.world) ?_
    ⟨[], .nil⟩
  rintro x l x' ⟨acts, hacts⟩ hstep
  rcases (step_cases hstep).1 with hsame | ⟨a, ha⟩
  · exact ⟨acts, hsame ▸ hacts⟩
  · exact ⟨acts ++ [a], hacts.snoc ha⟩

/-- Each `call_sync` has a callback of its own, which is more than an empty `std::function`. -/
def Registered (x : SyncWorld) : Prop :=
  ∀ (k : ℕ) (sync : SyncCall), x.syncs[k]? = some sync →
    sync.callback ∈ x.world.issued ∧ sync.callback.present = true

theorem Registered.step (h : x.Registered) (hs : step defaultTimeoutSeconds x l = some x') :
    x'.Registered := by
  intro k sync hk
  obtain ⟨hworld, hsyncs⟩ := step_cases hs
  have hissued : x.world.issued ⊆ x'.world.issued := by
    rcases hworld with hsame | ⟨a, ha⟩
    · rw [hsame]
      exact List.Subset.refl _
    · rcases World.tokens_step_le (World.step_cases ha) with ⟨-, hiss⟩ | ⟨present, -, hiss⟩
      · rw [hiss]
        exact List.Subset.refl _
      · rw [hiss]
        exact List.subset_append_left _ _
  rcases hsyncs k sync hk with ⟨old, hold, hcallback⟩ | ⟨hcallback, hnew⟩
  · rw [← hcallback]
    exact ⟨hissued (h k old hold).1, (h k old hold).2⟩
  · rw [hcallback, hnew]
    exact ⟨List.mem_append_right _ (List.mem_singleton_self _), rfl⟩

theorem registered_run (hrun : (system defaultTimeoutSeconds).Run (start t) ls x) :
    x.Registered := by
  refine hrun.invariant (motive := Registered) (fun _ _ _ h hstep ↦ h.step hstep) fun k sync hk ↦ ?_
  cases hk

/-- Nothing brings back a callback that is gone. -/
theorem gone_run {callback : RpcCallback} {w₀ : World} (h : World.Gone callback w₀ x.world)
    (hrun : (system defaultTimeoutSeconds).Run x ls x') : World.Gone callback w₀ x'.world := by
  refine hrun.invariant (motive := fun x ↦ World.Gone callback w₀ x.world) ?_ h
  intro x l x' h hstep
  rcases (step_cases hstep).1 with hsame | ⟨a, ha⟩
  · rw [hsame]
    exact h
  · exact h.step (World.step_cases ha)

/-- A run of the client at the present time. -/
theorem run_acts {acts : List Act} {w : World}
    (hrun : (World.system defaultTimeoutSeconds).Run x.world acts w)
    (hat : ∀ a ∈ acts, a.At x.clock) :
    (system defaultTimeoutSeconds).Run x (acts.map .act) { x with world := w } := by
  induction hrun with
  | nil => exact .nil
  | @snoc acts w₁ w₂ a hrun hlast ih =>
    rw [List.forall_mem_append, List.forall_mem_singleton] at hat
    rw [List.map_append, List.map_singleton]
    refine (ih hat.1).snoc ?_
    show step defaultTimeoutSeconds _ (.act a) = _
    simp only [step]
    rw [if_pos hat.2]
    exact congrArg (Option.map _) hlast

/-- **When a callback is left behind.**  In every run, when a `call_sync` returns, its callback is
not invoked in any continuation of the run if and only if it is then not still to come: neither in
the table nor in the hands of a thread that took it out of the table.  It is not if the wait was
signalled; and if the wait ran into its limit it is, if there have been fewer than 2^32 calls. -/
theorem left_behind_iff (hrun : (system defaultTimeoutSeconds).Run (start t) ls x)
    {sync : SyncCall} (hsync : x.syncs[k]? = some sync)
    (hreturn : step defaultTimeoutSeconds x (.return k) = some x') :
    ((∀ (ls' : List SyncAct) (x'' : SyncWorld), (system defaultTimeoutSeconds).Run x' ls' x'' →
        ¬ World.Settles sync.callback x'.world x''.world) ↔
      sync.callback ∉ x.world.unsettled) ∧
    (x.world.Done sync.callback → sync.callback ∉ x.world.unsettled) ∧
    (x.world.issued.length < 2 ^ 32 → ¬ x.world.Done sync.callback →
      sync.callback ∈ x.world.unsettled) := by
  obtain ⟨acts, hacts⟩ := world_run hrun
  have htallies := World.tallies_run hacts
  obtain ⟨hissued, -⟩ := registered_run hrun k sync hsync
  obtain ⟨hworld, hclock⟩ := world_return hreturn
  refine ⟨⟨fun h hmem ↦ ?_, fun hnot ls' x'' hrun' ↦ ?_⟩, htallies.notMem_of_done, ?_⟩
  · obtain ⟨acts', w', hrun', hat, hsettles⟩ :=
      World.canSettle_of_mem defaultTimeoutSeconds x.clock hmem
    rw [← hworld] at hrun' hsettles
    rw [← hclock] at hat
    exact h _ _ (run_acts hrun' hat) hsettles
  · have hgone : World.Gone sync.callback x'.world x'.world := by
      rw [hworld]
      exact ⟨htallies.call_lt hissued, hnot, [], (List.append_nil _).symm, List.not_mem_nil⟩
    exact (gone_run hgone hrun').not_settles
  · intro hcalls hdone
    have hacc := (World.accounts_run hacts hcalls).1
    rw [← Multiset.mem_coe, ← hacc.balance, World.tokens_eq, Multiset.mem_add] at hissued
    exact hissued.resolve_right hdone

/-- A `call_sync` up to its wait. -/
def sendAndWait (timeoutSeconds : Int32) : List SyncAct :=
  [.act .connect, .callSync 1 [] timeoutSeconds, .act (.permit 0 true), .act (.insert 0 0),
    .act (.send 0), .wait 0]

/-- Its response arrives. -/
def response : List SyncAct :=
  [.act (.receive 0 (Protocol.serialize ⟨1, encodeRpcBody 1 []⟩)), .act (.take 1),
    .act (.answer 1)]

/-- A response that is in time. -/
theorem left_behind_iff_response :
    ∃ x x', (system 5).Run (start 0) (sendAndWait 5 ++ response) x ∧
      step 5 x (.return 0) = some x' ∧ x.world.Done ⟨0, true⟩ ∧
      ∀ (ls' : List SyncAct) (x'' : SyncWorld), (system 5).Run x' ls' x'' →
        ¬ World.Settles ⟨0, true⟩ x'.world x''.world := by
  obtain ⟨x, hrun, hsync, hdone, hsome⟩ :
      ∃ x, (system 5).Run (start 0) (sendAndWait 5 ++ response) x ∧
        x.syncs[0]? = some ⟨⟨0, true⟩, some 0, 5, .waiting 6000000000⟩ ∧
        x.world.Done ⟨0, true⟩ ∧ (step 5 x (.return 0)).isSome = true :=
    System.Run.exists_of_any (by decide +kernel)
  obtain ⟨x', hreturn⟩ := Option.isSome_iff_exists.1 hsome
  obtain ⟨hiff, hsettled, -⟩ := left_behind_iff hrun hsync hreturn
  exact ⟨x, x', hrun, hreturn, hdone, hiff.2 (hsettled hdone)⟩

/-- With a timeout of -1 a `call_sync` does not wait at all, and the response that comes after it
has returned invokes its callback. -/
theorem left_behind :
    ¬ ∀ (ls ls' : List SyncAct) (x x' x'' : SyncWorld) (k : ℕ) (sync : SyncCall),
      (system 5).Run (start 0) ls x → x.syncs[k]? = some sync →
        step 5 x (.return k) = some x' → (system 5).Run x' ls' x'' →
          ¬ World.Settles sync.callback x'.world x''.world := by
  intro h
  obtain ⟨x, hrun, hsync, x', hreturn, x'', hfold, hsettled⟩ :
      ∃ x, (system 5).Run (start 0) (sendAndWait (-1)) x ∧
        x.syncs[0]? = some ⟨⟨0, true⟩, some 0, -1, .waiting 0⟩ ∧
        ∃ x' ∈ step 5 x (.return 0), ∃ x'' ∈ response.foldlM (step 5) x',
          x''.world.settled = x'.world.settled ++ [⟨⟨0, true⟩, true, ⟨1, []⟩⟩] :=
    System.Run.exists_of_any (by decide +kernel)
  exact h _ _ x x' x'' 0 _ hrun hsync hreturn (System.Run.of_foldlM hfold)
    ⟨_, hsettled, List.mem_singleton_self _⟩

end SyncWorld

end Rpc
end ChwellCore
