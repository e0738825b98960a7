import ChwellCore.Rpc.RpcClient

/-!
# Every callback once

The callback of a call is at every moment in one place: with the call itself, in the table, with one
of the activities that took it out of the table, with the cleanup thread, or settled.  Said as an
equation: the callbacks in all these places together, `tokens`, are the callbacks issued, each once
(`tokens_step` says what a step does to the sum).  The one step that could lose a callback is an
insertion under a request id that is in use, and with fewer than 2^32 calls no id is drawn twice.

That a callback is invoked at most once follows, in every run.  That it is invoked with `ok` only
for a frame with its own request id is a second invariant, `Knows`, about what the activities have
in hand.

That it has been invoked when `disconnect` returns does not follow.  `disconnect` empties the table,
and a call that has found the connection still there can enter its request after that, where nobody
looks any more.  And another thread may have taken a request out of the table and not have come to
its callback.  `disconnect_misses_callback` has a run of either kind, and `delivery` says that with
these two out of the way (`Orderly`) every callback has been invoked exactly once when `disconnect`
returns.
-/

set_option autoImplicit false

namespace ChwellCore
namespace Rpc

open Protocol (Message)

/-! ## Tokens -/

/-- The callbacks an activity has in hand. -/
def Proc.callbacks : Proc → Multiset RpcCallback
  | .admitting _ _ callback _ => {callback}
  | .inserting _ _ _ callback _ => {callback}
  | .answering _ callback _ _ => {callback}
  | .failing callbacks => callbacks
  | .notifying callbacks => callbacks
  | .sending _ _ _ | .handling _ _ | .joining | .closing | .swapping | .done => 0

/-- The callbacks the cleanup thread has in hand. -/
def CleanupThread.callbacks : CleanupThread → Multiset RpcCallback
  | .expiring callbacks => callbacks
  | .absent | .waiting | .finished => 0

/-- The request id that a call has drawn and not yet used. -/
def Proc.ids : Proc → Multiset UInt32
  | .inserting id _ _ _ _ => {id}
  | .admitting _ _ _ _ | .sending _ _ _ | .handling _ _ | .answering _ _ _ _ | .failing _ | .joining
  | .closing | .swapping | .notifying _ | .done => 0

/-- A call that may still draw a request id. -/
def Proc.undrawn : Proc → Multiset Unit
  | .admitting _ _ _ _ => {()}
  | .inserting _ _ _ _ _ | .sending _ _ _ | .handling _ _ | .answering _ _ _ _ | .failing _
  | .joining | .closing | .swapping | .notifying _ | .done => 0

/-- A `disconnect` that has emptied the table and not returned. -/
def Proc.isNotifying : Proc → Bool
  | .notifying _ => true
  | .admitting _ _ _ _ | .inserting _ _ _ _ _ | .sending _ _ _ | .handling _ _ | .answering _ _ _ _
  | .failing _ | .joining | .closing | .swapping | .done => false

namespace World

/-- All callbacks, wherever they are. -/
def tokens (w : World) : Multiset RpcCallback :=
  Pool.total Proc.callbacks w.procs + pendingCallbacks w.pendingRequests + w.cleanup.callbacks +
    (w.settled.map Settlement.callback : List RpcCallback)

variable {w w' : World} {i : ℕ} {p : Proc}

theorem tokens_spawn (w : World) (q : Proc) : (w.spawn q).tokens = w.tokens + q.callbacks := by
  simp only [tokens, spawn, Pool.total_spawn]
  abel

theorem tokens_put (h : w.procs[i]? = some p) (q : Proc) :
    (w.put i q).tokens + p.callbacks = w.tokens + q.callbacks := by
  have hput := Pool.total_put Proc.callbacks h q
  simp only [tokens, put]
  rw [add_right_comm _ _ p.callbacks, add_right_comm _ _ p.callbacks,
    add_right_comm _ _ p.callbacks, hput]
  abel

theorem tokens_settle (w : World) (callback : RpcCallback) (ok : Bool) (response : Message) :
    (w.settle callback ok response).tokens = w.tokens + {callback} := by
  simp only [tokens, settle, List.map_append, List.map_cons, List.map_nil, ← Multiset.coe_add,
    Multiset.coe_singleton]
  abel

theorem tokens_pending (w : World) (m : UnorderedMap UInt32 PendingRequest) :
    ({ w with pendingRequests := m } : World).tokens + pendingCallbacks w.pendingRequests =
      w.tokens + pendingCallbacks m := by
  simp only [tokens]
  abel

theorem tokens_cleanup_eq {c : CleanupThread} (h : c.callbacks = w.cleanup.callbacks) :
    ({ w with cleanup := c } : World).tokens = w.tokens := by
  simp only [tokens, h]

/-- An activity moves on with the callbacks it had. -/
theorem tokens_put_eq (h : w.procs[i]? = some p) {q : Proc} (hq : q.callbacks = p.callbacks) :
    (w.put i q).tokens = w.tokens := by
  have hput := tokens_put h q
  rw [hq] at hput
  exact add_right_cancel hput

/-- An activity settles one of its callbacks. -/
theorem tokens_settle_put (h : w.procs[i]? = some p) {q : Proc} {callback : RpcCallback} {ok : Bool}
    {response : Message} (hq : p.callbacks = {callback} + q.callbacks) :
    ((w.settle callback ok response).put i q).tokens = w.tokens := by
  refine add_right_cancel (b := {callback} + q.callbacks) ?_
  rw [← hq, tokens_put (w := w.settle callback ok response) h, tokens_settle, hq, add_assoc]

/-- An activity takes callbacks out of the table, or puts its own in. -/
theorem tokens_pending_put (h : w.procs[i]? = some p) {q : Proc}
    {m : UnorderedMap UInt32 PendingRequest}
    (hq : p.callbacks + pendingCallbacks w.pendingRequests = q.callbacks + pendingCallbacks m) :
    (({ w with pendingRequests := m } : World).put i q).tokens = w.tokens := by
  have hput := tokens_put (w := { w with pendingRequests := m }) h q
  have hpend := tokens_pending w m
  refine add_right_cancel (b := p.callbacks + pendingCallbacks w.pendingRequests) ?_
  rw [← add_assoc, hput, hq, add_right_comm, hpend]
  abel

theorem callbacks_insert {m : UnorderedMap UInt32 PendingRequest} {id : UInt32}
    {req : PendingRequest}
    (h : id ∉ m) : pendingCallbacks (m.insert id req) = req.callback :: pendingCallbacks m := by
  rw [pendingCallbacks, AList.entries_insert_of_notMem h]
  rfl

theorem callbacks_erase {m : UnorderedMap UInt32 PendingRequest}
    {id : UInt32} {req : PendingRequest}
    (h : m.lookup id = some req) :
    (pendingCallbacks m : Multiset RpcCallback) = {req.callback} + pendingCallbacks (m.erase id) :=
  Multiset.coe_eq_coe.2 ((UnorderedMap.entries_perm_erase h).map _)

/-- The two halves of the sweep. -/
theorem callbacks_filter (f : PendingRequest → Bool) (m : UnorderedMap UInt32 PendingRequest) :
    (pendingCallbacks (m.filter fun _ req ↦ f req) : Multiset RpcCallback) +
      pendingCallbacks (m.filter fun _ req ↦ !f req) = pendingCallbacks m := by
  rw [pendingCallbacks, pendingCallbacks, Multiset.coe_add, ← List.map_append]
  exact Multiset.coe_eq_coe.2 ((List.filter_append_perm _ _).map _)

variable {a : Act}

/-- **What a step does to the callbacks**: a call issues one, and nothing is lost or doubled, as
long as no request is inserted under an id that is in the table. -/
theorem tokens_step
    (hnew : ∀ (i : ℕ) (now : ℤ), a = .insert i now → ∀ (id : UInt32) (cmd : UInt16) (data : Bytes)
      (callback : RpcCallback) (timeout : Int32),
        w.procs[i]? = some (.inserting id cmd data callback timeout) → id ∉ w.pendingRequests)
    (hs : Step w a w') :
    (w'.tokens = w.tokens ∧ w'.issued = w.issued) ∨
      ∃ present, w'.tokens = w.tokens + {w.nextCallback present} ∧
        w'.issued = w.issued ++ [w.nextCallback present] := by
  cases hs with
  | call cmd data present timeout => exact .inr ⟨present, tokens_spawn (w.issue present) _, rfl⟩
  | callRefused cmd data present timeout =>
    exact .inr ⟨present, tokens_settle (w.issue present) _ _ _, rfl⟩
  | connect hc | wakeEnd now hc | expireEnd hc =>
    exact .inl ⟨tokens_cleanup_eq (w := w) (by rw [hc]; rfl), rfl⟩
  | permit hp =>
      exact .inl ⟨tokens_put_eq (w := { w with nextRequestId := _, requestId := _ }) hp rfl, rfl⟩
  | send sent hp => exact .inl ⟨tokens_put_eq (w := { w with sent := sent }) hp rfl, rfl⟩
  | takeNone hp | takeSkip hp | «return» hp => exact .inl ⟨tokens_put_eq hp rfl, rfl⟩
  | failEnd hp | close hp =>
      exact .inl ⟨tokens_put_eq (w := { w with connected := false }) hp rfl, rfl⟩
  | reject hp | answer hp => exact .inl ⟨tokens_settle_put hp (add_zero _).symm, rfl⟩
  | fail hp | notify hp => exact .inl ⟨tokens_settle_put hp rfl, rfl⟩
  | receive conn data =>
      exact .inl ⟨(tokens_spawn { w with recvBuffer := _, received := _ } _).trans
        (add_zero _), rfl⟩
  | disconnect =>
      exact .inl ⟨(tokens_spawn { w with cleanupRunning := false } _).trans (add_zero _), rfl⟩
  | insert now deadline hp =>
    refine .inl ⟨tokens_pending_put hp ?_, rfl⟩
    rw [callbacks_insert (hnew _ _ rfl _ _ _ _ _ hp)]
    exact (zero_add _).symm
  | take hp _ hreq =>
    refine .inl ⟨tokens_pending_put hp ?_, rfl⟩
    rw [callbacks_erase hreq]
    exact zero_add _
  | swap hp => exact .inl ⟨tokens_pending_put hp (add_comm _ _), rfl⟩
  | onDisconnect =>
    refine .inl ⟨?_, rfl⟩
    rw [tokens_spawn]
    exact (tokens_pending w ∅).trans (add_zero _)
  | join hp hc =>
    refine .inl
      ⟨(tokens_put_eq (w := { w with cleanup := .absent }) (q := .closing) hp rfl).trans ?_, rfl⟩
    exact tokens_cleanup_eq (by rcases hc with hc | hc <;> simp [hc, CleanupThread.callbacks])
  | wake now hc =>
    refine .inl ⟨?_, rfl⟩
    simp only [tokens, CleanupThread.callbacks, hc]
    rw [← callbacks_filter (fun req ↦ decide (req.deadline ≤ now)) w.pendingRequests]
    abel
  | expire hc =>
    refine .inl ⟨?_, rfl⟩
    simp only [tokens, settle, CleanupThread.callbacks, hc, List.map_append, List.map_cons,
      List.map_nil, ← Multiset.coe_add, ← Multiset.cons_coe, Multiset.coe_nil,
      ← Multiset.singleton_add]
    abel

/-! ## Request ids -/

/-- The request ids in use. -/
def ids (w : World) : Multiset UInt32 := Pool.total Proc.ids w.procs + w.pendingRequests.keys

/-- How many calls may still draw a request id. -/
def undrawn (w : World) : ℕ := (Pool.total Proc.undrawn w.procs).card

theorem ids_spawn (w : World) {q : Proc} (hq : q.ids = 0) : (w.spawn q).ids = w.ids := by
  simp only [ids, spawn, Pool.total_spawn, hq, add_zero]

theorem ids_put (h : w.procs[i]? = some p) {q : Proc} (hp : p.ids = 0) :
    (w.put i q).ids = q.ids + w.ids := by
  have hput := Pool.total_put Proc.ids h q
  rw [hp, add_zero] at hput
  simp only [ids, put, hput]
  abel

theorem undrawn_put (h : w.procs[i]? = some p) (q : Proc) :
    (w.put i q).undrawn + p.undrawn.card = w.undrawn + q.undrawn.card := by
  have hput := congrArg Multiset.card (Pool.total_put Proc.undrawn h q)
  rwa [Multiset.card_add, Multiset.card_add] at hput

theorem undrawn_spawn (w : World) (q : Proc) :
    (w.spawn q).undrawn = w.undrawn + q.undrawn.card := by
  simp only [undrawn, spawn, Pool.total_spawn, Multiset.card_add]

/-- An activity that neither has an id nor draws one moves on. -/
theorem ids_put_le (h : w.procs[i]? = some p) {q : Proc} (hp : p.ids = 0) (hq : q.ids = 0)
    (hu : q.undrawn = 0) :
    (w.put i q).ids ≤ w.ids ∧
      (w.put i q).undrawn + w.issued.length ≤ w.undrawn + (w.put i q).issued.length := by
  constructor
  · rw [ids_put h hp, hq, zero_add]
  · have := undrawn_put h q
    rw [hu, Multiset.card_zero] at this
    show _ + w.issued.length ≤ w.undrawn + w.issued.length
    omega

/-- An activity starts that has no id. -/
theorem ids_spawn_le (w : World) {q : Proc} (hq : q.ids = 0) (hu : q.undrawn = 0) :
    (w.spawn q).ids ≤ w.ids ∧
      (w.spawn q).undrawn + w.issued.length ≤ w.undrawn + (w.spawn q).issued.length := by
  constructor
  · rw [ids_spawn w hq]
  · rw [undrawn_spawn, hu, Multiset.card_zero, add_zero]
    exact le_refl _

/-- Requests leave the table. -/
theorem ids_mono {m : UnorderedMap UInt32 PendingRequest}
    (h : m.keys.Sublist w.pendingRequests.keys) :
    ({ w with pendingRequests := m } : World).ids ≤ w.ids :=
  Multiset.add_le_add_left (Multiset.coe_le.2 h.subperm)

/-- The id of an inserted request goes from the call to the table. -/
theorem ids_insert {id : UInt32} {cmd : UInt16} {data : Bytes} {callback : RpcCallback}
    {timeout : Int32}
    (h : w.procs[i]? = some (.inserting id cmd data callback timeout)) (req : PendingRequest) :
    (({ w with pendingRequests := w.pendingRequests.insert id req } : World).put i
      (.sending id cmd data)).ids ≤ w.ids := by
  have hput := Pool.total_put Proc.ids h (.sending id cmd data)
  simp only [ids, put, AList.keys_insert]
  rw [← Multiset.cons_coe, ← Multiset.singleton_add, ← add_assoc]
  exact add_le_add (le_of_eq (hput.trans (add_zero _)))
    (Multiset.coe_le.2 List.erase_sublist.subperm)

/-- **What a step does to the request ids**: none comes into use that was not, except the next one,
which a call draws. -/
theorem ids_step (hs : Step w a w') :
    (w'.nextRequestId = w.nextRequestId ∧ w'.ids ≤ w.ids ∧
        w'.undrawn + w.issued.length ≤ w.undrawn + w'.issued.length) ∨
      (w'.nextRequestId = w.nextRequestId + 1 ∧ w'.ids = {w.nextRequestId} + w.ids ∧
        w'.undrawn + 1 = w.undrawn ∧ w'.issued = w.issued) := by
  cases hs with
  | permit hp =>
    refine .inr ⟨rfl, ids_put (w := { w with nextRequestId := _, requestId := _ }) hp rfl, ?_, rfl⟩
    exact undrawn_put (w := { w with nextRequestId := _, requestId := _ }) hp _
  | call cmd data present timeout =>
    refine .inl ⟨rfl, (ids_spawn (w.issue present) rfl).le, ?_⟩
    rw [undrawn_spawn]
    simp only [issue, spawn, List.length_append, Proc.undrawn, Multiset.card_singleton,
      List.length_singleton]
    have : ({ w with issued := w.issued ++ [w.nextCallback present] } : World).undrawn =
        w.undrawn := rfl
    omega
  | callRefused cmd data present timeout =>
    refine .inl ⟨rfl, le_refl _, ?_⟩
    show w.undrawn + w.issued.length ≤ w.undrawn + (w.issued ++ [w.nextCallback present]).length
    simp
  | connect hc | wakeEnd now hc | expireEnd hc | expire hc => exact .inl ⟨rfl, le_refl _, le_refl _⟩
  | reject hp | answer hp | fail hp | notify hp | takeNone hp | takeSkip hp | «return» hp
      | failEnd hp
  | close hp | join hp hc | send sent hp =>
      exact .inl ⟨rfl, ids_put_le (w := { w with }) hp rfl rfl rfl⟩
  | receive conn data | disconnect => exact .inl ⟨rfl, ids_spawn_le { w with } rfl rfl⟩
  | insert now deadline hp =>
    refine .inl ⟨rfl, ids_insert hp _, ?_⟩
    exact Nat.add_le_add_right (undrawn_put (w := { w with pendingRequests := _ }) hp _).le _
  | onDisconnect =>
    obtain ⟨hids, hun⟩ := ids_spawn_le ({ w with pendingRequests := ∅ } : World)
      (q := .failing (pendingCallbacks w.pendingRequests)) rfl rfl
    exact .inl ⟨rfl, hids.trans (ids_mono (List.nil_sublist _)), hun⟩
  | swap hp =>
    obtain ⟨hids, hun⟩ := ids_put_le (w := { w with pendingRequests := ∅ })
      (q := .notifying (pendingCallbacks w.pendingRequests)) hp rfl rfl rfl
    exact .inl ⟨rfl, hids.trans (ids_mono (List.nil_sublist _)), hun⟩
  | take hp hdec hreq =>
    obtain ⟨hids, hun⟩ := ids_put_le (w := { w with pendingRequests := w.pendingRequests.erase _ })
      (q := .answering _ _ _ _) hp rfl rfl rfl
    refine .inl ⟨rfl, hids.trans (ids_mono ?_), hun⟩
    rw [AList.keys_erase]
    exact List.erase_sublist
  | wake now hc =>
    exact .inl ⟨rfl, ids_mono (List.filter_sublist.map _), le_refl _⟩

/-- Fewer ids have been drawn than calls made, the next one is the number of those, and those in use
are distinct. -/
def Numbered (w : World) : Prop :=
  ∃ n, n + w.undrawn ≤ w.issued.length ∧ w.nextRequestId.toNat = (n + 1) % 2 ^ 32 ∧
    (∀ id ∈ w.ids, id.toNat ≤ n) ∧ w.ids.Nodup

theorem Numbered.step (h : w.Numbered) (hs : Step w a w') (hcalls : w'.issued.length < 2 ^ 32) :
    w'.Numbered := by
  obtain ⟨n, hn, hnext, hle, hnodup⟩ := h
  rcases ids_step hs with ⟨hnext', hids, hun⟩ | ⟨hnext', hids, hun, hissued⟩
  · refine ⟨n, by omega, hnext' ▸ hnext, fun id hid ↦ hle id (Multiset.mem_of_le hids hid), ?_⟩
    exact Multiset.nodup_of_le hids hnodup
  · rw [hissued] at hcalls
    -- there are calls left, so the counter has not come round
    have hval : w.nextRequestId.toNat = n + 1 := by
      rw [hnext]
      omega
    refine ⟨n + 1, by rw [hissued]; omega, ?_, fun id hid ↦ ?_, ?_⟩
    · rw [hnext', UInt32.toNat_add, hval]
      rfl
    · rw [hids, Multiset.mem_add, Multiset.mem_singleton] at hid
      rcases hid with rfl | hid
      · omega
      · have := hle id hid
        omega
    · rw [hids, Multiset.singleton_add, Multiset.nodup_cons]
      refine ⟨fun hmem ↦ ?_, hnodup⟩
      have := hle _ hmem
      omega

/-- An id that a call has drawn and not used is not in the table. -/
theorem Numbered.notMem_pending (h : w.Numbered) {id : UInt32} {cmd : UInt16} {data : Bytes}
    {callback : RpcCallback} {timeout : Int32}
    (hp : w.procs[i]? = some (.inserting id cmd data callback timeout)) :
    id ∉ w.pendingRequests := by
  obtain ⟨_, _, _, _, hnodup⟩ := h
  have hin : id ∈ Pool.total Proc.ids w.procs :=
    Multiset.mem_of_le (Pool.le_total Proc.ids hp) (Multiset.mem_singleton_self id)
  exact fun hmem ↦ Multiset.disjoint_left.1 (Multiset.nodup_add.1 hnodup).2.2 hin (by exact hmem)

/-! ## The accounts -/

/-- Every callback issued is in one place, and the callbacks are numbered. -/
structure Accounts (w : World) : Prop where
  numbered : w.Numbered
  balance : w.tokens = w.issued
  calls : w.issued.map RpcCallback.call = List.range w.issued.length

theorem Accounts.step (h : w.Accounts) (hs : Step w a w') (hcalls : w'.issued.length < 2 ^ 32) :
    w'.Accounts := by
  refine ⟨h.numbered.step hs hcalls, ?_, ?_⟩
  · rcases tokens_step (fun _ _ _ _ _ _ _ _ hp ↦ h.numbered.notMem_pending hp) hs with
      ⟨htok, hiss⟩ | ⟨present, htok, hiss⟩
    · rw [htok, hiss, h.balance]
    · rw [htok, hiss, h.balance, ← Multiset.coe_singleton, Multiset.coe_add]
  · rcases tokens_step (fun _ _ _ _ _ _ _ _ hp ↦ h.numbered.notMem_pending hp) hs with
      ⟨-, hiss⟩ | ⟨present, -, hiss⟩
    · rw [hiss, h.calls]
    · rw [hiss, List.map_append, h.calls, List.length_append, List.length_singleton,
        List.range_succ]
      rfl

/-- The number of calls does not go down. -/
theorem issued_le (hs : Step w a w') : w.issued.length ≤ w'.issued.length := by
  cases hs with
  | call cmd data present timeout | callRefused cmd data present timeout =>
    simp [issue, spawn, settle]
  | _ => exact le_refl _

theorem accounts_fresh : fresh.Accounts :=
  ⟨⟨0, le_refl _, rfl, fun _ h ↦ absurd h (Multiset.notMem_zero _), Multiset.nodup_zero⟩, rfl, rfl⟩

theorem Accounts.nodup (h : w.Accounts) : w.tokens.Nodup := by
  rw [h.balance, Multiset.coe_nodup]
  refine List.Nodup.of_map RpcCallback.call ?_
  rw [h.calls]
  exact List.nodup_range

/-- No callback is settled twice. -/
theorem Accounts.nodup_settled (h : w.Accounts) : (w.settled.map Settlement.callback).Nodup :=
  Multiset.coe_nodup.1 (Multiset.nodup_of_le (Multiset.le_add_left _ _) h.nodup)

/-- A callback is invoked at most once. -/
theorem Accounts.invocations_le (h : w.Accounts) (callback : RpcCallback) :
    (w.invocations callback).length ≤ 1 := by
  have hcount := List.nodup_iff_count_le_one.1 h.nodup_settled callback
  refine le_trans ?_ hcount
  rw [invocations, List.count, List.countP_map, List.countP_eq_length_filter]
  refine List.Sublist.length_le (List.monotone_filter_right _ fun s hs ↦ ?_)
  exact (Bool.and_eq_true_iff.1 hs).1

/-- If nothing else has a callback in hand, every one has been settled. -/
theorem Accounts.invocations_eq (h : w.Accounts) (hprocs : Pool.total Proc.callbacks w.procs = 0)
    (hpending : w.pendingRequests.entries = []) (hcleanup : w.cleanup.callbacks = 0)
    {callback : RpcCallback} (hissued : callback ∈ w.issued) (hpresent : callback.present = true) :
    (w.invocations callback).length = 1 := by
  have hsettled : (w.settled.map Settlement.callback : Multiset RpcCallback) = w.issued := by
    rw [← h.balance, tokens, hprocs, hcleanup, pendingCallbacks, hpending]
    simp
  refine le_antisymm (h.invocations_le callback) ?_
  have hmem : callback ∈ w.settled.map Settlement.callback := by
    rw [← Multiset.mem_coe, hsettled]
    exact hissued
  obtain ⟨s, hs, rfl⟩ := List.mem_map.1 hmem
  refine List.length_pos_of_mem (List.mem_filter.2 ⟨hs, ?_⟩) (a := s)
  simp [hpresent]

/-! ## What answers mean -/

section Knowledge

variable {requestId : ℕ → Option UInt32} {received received' : List Message}
  {callback : RpcCallback}
  {response : Message}

/-- A frame was received with the request id of the call before the body of the response. -/
def Answers (requestId : ℕ → Option UInt32) (received : List Message) (callback : RpcCallback)
    (response : Message) : Prop :=
  ∃ id, requestId callback.call = some id ∧
    ⟨response.cmd, encodeRpcBody id response.body⟩ ∈ received

/-- What an activity knows about what it has in hand. -/
def ProcKnows (requestId : ℕ → Option UInt32) (received : List Message) : Proc → Prop
  | .admitting _ _ callback _ => requestId callback.call = none
  | .inserting id _ _ callback _ => requestId callback.call = some id
  | .handling _ messages => ∀ m ∈ messages, m ∈ received
  | .answering _ callback response messages =>
    Answers requestId received callback response ∧ ∀ m ∈ messages, m ∈ received
  | .sending _ _ _ | .failing _ | .joining | .closing | .swapping | .notifying _ | .done => True

theorem Answers.mono (h : Answers requestId received callback response)
    (hsub : ∀ m ∈ received, m ∈ received') : Answers requestId received' callback response := by
  obtain ⟨id, hid, hmem⟩ := h
  exact ⟨id, hid, hsub _ hmem⟩

theorem ProcKnows.mono (h : ProcKnows requestId received p) (hsub : ∀ m ∈ received, m ∈ received') :
    ProcKnows requestId received' p := by
  cases p with
  | handling conn messages => exact fun m hm ↦ hsub m (h m hm)
  | answering conn callback response messages => exact ⟨h.1.mono hsub, fun m hm ↦ hsub m (h.2 m hm)⟩
  | _ => exact h

variable {k : ℕ} {id : UInt32}

/-- A call that draws its id does not change the id of another. -/
theorem draw_eq_some (hk : requestId k = none) {k' : ℕ} {id' : UInt32}
    (h : requestId k' = some id') :
    Function.update requestId k (some id) k' = some id' := by
  have hne : k' ≠ k := by
    rintro rfl
    rw [hk] at h
    cases h
  rw [Function.update_of_ne hne, h]

theorem Answers.draw (h : Answers requestId received callback response) (hk : requestId k = none) :
    Answers (Function.update requestId k (some id)) received callback response := by
  obtain ⟨id', hid, hmem⟩ := h
  exact ⟨id', draw_eq_some hk hid, hmem⟩

theorem ProcKnows.draw (h : ProcKnows requestId received p) (hk : requestId k = none)
    (hne : ∀ callback ∈ p.callbacks, callback.call ≠ k) :
    ProcKnows (Function.update requestId k (some id)) received p := by
  cases p with
  | admitting cmd data callback timeout =>
    have hcall := hne callback (Multiset.mem_singleton_self _)
    rw [ProcKnows, Function.update_of_ne hcall]
    exact h
  | inserting id' cmd data callback timeout => exact draw_eq_some hk h
  | answering conn callback response messages => exact ⟨h.1.draw hk, h.2⟩
  | _ => exact h

end Knowledge

/-- What is known about request ids and answers. -/
structure Knows (w : World) : Prop where
  future : ∀ k, w.issued.length ≤ k → w.requestId k = none
  procs : ∀ (i : ℕ) (p : Proc), w.procs[i]? = some p → ProcKnows w.requestId w.received p
  pending : ∀ id req, w.pendingRequests.lookup id = some req → w.requestId req.callback.call =
    some id
  settled : ∀ s ∈ w.settled, s.ok = true → Answers w.requestId w.received s.callback s.response

theorem Accounts.mem_issued (h : w.Accounts) (hp : w.procs[i]? = some p) {callback : RpcCallback}
    (hc : callback ∈ p.callbacks) : callback ∈ w.issued := by
  rw [← Multiset.mem_coe, ← h.balance, tokens, add_assoc, add_assoc]
  exact Multiset.mem_add.2 (.inl (Multiset.mem_of_le (Pool.le_total Proc.callbacks hp) hc))

theorem Accounts.call_lt (h : w.Accounts) {callback : RpcCallback} (hmem : callback ∈ w.issued) :
    callback.call < w.issued.length := by
  rw [← List.mem_range, ← h.calls]
  exact List.mem_map_of_mem hmem

/-- The callbacks that two activities have in hand belong to different calls. -/
theorem Accounts.call_ne (h : w.Accounts) {i j : ℕ} (hij : i ≠ j) {p q : Proc}
    (hi : w.procs[i]? = some p) (hj : w.procs[j]? = some q) {callback callback' : RpcCallback}
    (ha : callback ∈ p.callbacks) (hb : callback' ∈ q.callbacks) : callback.call ≠
      callback'.call := by
  have hle : Pool.total Proc.callbacks w.procs ≤ w.tokens := by
    rw [tokens, add_assoc, add_assoc]
    exact Multiset.le_add_right _ _
  have hne := Pool.ne_of_nodup Proc.callbacks h.nodup hle hij hi hj ha hb
  have hnodup : (w.issued.map RpcCallback.call).Nodup := h.calls ▸ List.nodup_range
  exact fun he ↦
    hne (List.inj_on_of_nodup_map hnodup (h.mem_issued hi ha) (h.mem_issued hj hb) he)

/-- An activity that knows what it has in hand moves on. -/
theorem Knows.put (h : w.Knows) {q : Proc} (hq : ProcKnows w.requestId w.received q) :
    (w.put i q).Knows :=
  ⟨h.future, Pool.forall_put (fun j p _ hp ↦ h.procs j p hp) hq, h.pending, h.settled⟩

theorem Knows.spawn (h : w.Knows) {q : Proc} (hq : ProcKnows w.requestId w.received q) :
    (w.spawn q).Knows :=
  ⟨h.future, Pool.forall_spawn h.procs hq, h.pending, h.settled⟩

theorem Knows.settle (h : w.Knows) {callback : RpcCallback} {ok : Bool} {response : Message}
    (hok : ok = true → Answers w.requestId w.received callback response) :
    (w.settle callback ok response).Knows := by
  refine ⟨h.future, h.procs, h.pending, fun s hs ↦ ?_⟩
  rcases List.mem_append.1 hs with hs | hs
  · exact h.settled s hs
  · rw [List.mem_singleton] at hs
    subst hs
    exact hok

/-- Requests leave the table. -/
theorem Knows.shrink (h : w.Knows) {m : UnorderedMap UInt32 PendingRequest}
    (hm : ∀ id req, m.lookup id = some req → w.pendingRequests.lookup id = some req) :
    ({ w with pendingRequests := m } : World).Knows :=
  ⟨h.future, h.procs, fun id req hreq ↦ h.pending id req (hm id req hreq), h.settled⟩

theorem Knows.issue (h : w.Knows) (present : Bool) : (w.issue present).Knows := by
  refine ⟨fun k hk ↦ h.future k ?_, h.procs, h.pending, h.settled⟩
  rw [World.issue, List.length_append] at hk
  omega

theorem Knows.permit (h : w.Knows) (hacc : w.Accounts) {cmd : UInt16} {data : Bytes}
    {callback : RpcCallback} {timeout : Int32}
    (hp : w.procs[i]? = some (.admitting cmd data callback timeout)) :
    ({ w with
      nextRequestId := w.nextRequestId + 1
      requestId := Function.update w.requestId callback.call (some w.nextRequestId) }.put i
        (.inserting w.nextRequestId cmd data callback timeout)).Knows := by
  have hnone : w.requestId callback.call = none := h.procs i _ hp
  have hcall : callback.call < w.issued.length :=
    hacc.call_lt (hacc.mem_issued hp (Multiset.mem_singleton_self _))
  refine ⟨fun k hk ↦ ?_, ?_, fun id req hreq ↦ draw_eq_some hnone (h.pending id req hreq),
    fun s hs hok ↦ (h.settled s hs hok).draw hnone⟩
  · have hne : k ≠ callback.call := by
      have : w.issued.length ≤ k := hk
      omega
    exact (Function.update_of_ne hne _ _).trans (h.future k hk)
  · refine Pool.forall_put (fun j p hji hj ↦ (h.procs j p hj).draw hnone fun c hc ↦ ?_) ?_
    · exact hacc.call_ne hji hj hp hc (Multiset.mem_singleton_self _)
    · exact Function.update_self _ _ _

theorem Knows.step (h : w.Knows) (hacc : w.Accounts) (hs : Step w a w') : w'.Knows := by
  cases hs with
  | connect hc | wakeEnd now hc | expireEnd hc => exact ⟨h.future, h.procs, h.pending, h.settled⟩
  | call cmd data present timeout =>
    exact (h.issue present).spawn (h.future w.issued.length (le_refl _))
  | callRefused cmd data present timeout => exact (h.issue present).settle fun hok ↦ by cases hok
  | permit hp => exact h.permit hacc hp
  | reject hp | fail hp | notify hp => exact (h.settle fun hok ↦ by cases hok).put trivial
  | insert now deadline hp =>
    refine Knows.put ?_ ?_
    case refine_2 => trivial
    refine ⟨h.future, h.procs, fun id' req hreq ↦ ?_, h.settled⟩
    rw [UnorderedMap.lookup_insert_ite] at hreq
    split at hreq
    · next hid =>
      cases hreq
      rw [hid]
      exact h.procs _ _ hp
    · exact h.pending id' req hreq
  | send sent hp | failEnd hp | close hp | join hp hc =>
    refine Knows.put ?_ ?_
    · exact ⟨h.future, h.procs, h.pending, h.settled⟩
    · trivial
  | disconnect =>
    refine Knows.spawn ?_ ?_
    · exact ⟨h.future, h.procs, h.pending, h.settled⟩
    · trivial
  | takeNone hp | «return» hp => exact h.put trivial
  | receive conn data =>
    have hsub : ∀ m ∈ w.received, m ∈ (w.receive conn data).received := fun m hm ↦
      List.mem_append_left _ hm
    refine ⟨h.future, ?_, h.pending, fun s hs hok ↦ (h.settled s hs hok).mono hsub⟩
    refine Pool.forall_spawn (fun j p hp ↦ (h.procs j p hp).mono hsub) ?_
    exact fun m hm ↦ List.mem_append_right _ hm
  | takeSkip hp => exact h.put fun m hm ↦ h.procs _ _ hp m (List.mem_cons_of_mem _ hm)
  | take hp hdec hreq =>
    have hrest := h.procs _ _ hp
    refine (h.shrink fun id' req' hreq' ↦ ?_).put ⟨⟨_, h.pending _ _ hreq, ?_⟩, ?_⟩
    · rw [UnorderedMap.lookup_erase_ite] at hreq'
      obtain ⟨-, hreq'⟩ := Option.ite_none_left_eq_some.1 hreq'
      exact hreq'
    · rw [← eq_encode_of_decode hdec]
      exact hrest _ List.mem_cons_self
    · exact fun m hm ↦ hrest m (List.mem_cons_of_mem _ hm)
  | answer hp =>
    have hknow := h.procs _ _ hp
    exact (h.settle fun _ ↦ hknow.1).put hknow.2
  | onDisconnect => exact (h.shrink fun id' req' hreq' ↦ by cases hreq').spawn trivial
  | swap hp => exact (h.shrink fun id' req' hreq' ↦ by cases hreq').put trivial
  | wake now hc =>
    refine ⟨h.future, h.procs, fun id req hreq ↦ h.pending id req ?_, h.settled⟩
    rw [UnorderedMap.lookup_filter] at hreq
    exact (Option.filter_eq_some_iff.1 hreq).1
  | @expire callback rest hc =>
    have hsettle : (w.settle callback false emptyMsg).Knows := h.settle fun hok ↦ by cases hok
    exact ⟨hsettle.future, hsettle.procs, hsettle.pending, hsettle.settled⟩

theorem knows_fresh : fresh.Knows := by
  refine ⟨fun _ _ ↦ rfl, fun i p hp ↦ ?_, fun id req hreq ↦ ?_, fun s hs ↦ ?_⟩
  · cases hp
  · cases hreq
  · cases hs

/-! ## Orderly runs -/

/-- No request is entered while a `disconnect` is between the emptying of the table and its return,
and when it returns no other activity has a callback in hand. -/
def Orderly (w : World) : Act → Prop
  | .insert _ _ => ∀ (j : ℕ) (p : Proc), w.procs[j]? = some p → p.isNotifying = false
  | .return i => (∀ (j : ℕ) (p : Proc), w.procs[j]? = some p → j ≠ i → p.callbacks = 0) ∧
      w.cleanup.callbacks = 0
  | _ => True

/-- The table that a `disconnect` has emptied is empty until it returns. -/
def Emptied (w : World) : Prop :=
  ∀ (i : ℕ) (callbacks : List RpcCallback), w.procs[i]? = some (.notifying callbacks) →
    w.pendingRequests.entries = []

/-- An activity other than `disconnect` moves on. -/
theorem Emptied.put (h : w.Emptied) {q : Proc} (hq : ∀ callbacks, q ≠ .notifying callbacks) :
    (w.put i q).Emptied := by
  intro j callbacks hj
  refine Pool.forall_put (P := fun _ p ↦ p = .notifying callbacks → w.pendingRequests.entries = [])
    ?_ (fun he ↦ absurd he (hq callbacks)) j _ hj rfl
  rintro j p _ hp rfl
  exact h j callbacks hp

theorem Emptied.spawn (h : w.Emptied) {q : Proc} (hq : ∀ callbacks, q ≠ .notifying callbacks) :
    (w.spawn q).Emptied := by
  intro j callbacks hj
  refine Pool.forall_spawn
    (P := fun _ p ↦ p = .notifying callbacks → w.pendingRequests.entries = [])
    ?_ (fun he ↦ absurd he (hq callbacks)) j _ hj rfl
  rintro j p hp rfl
  exact h j callbacks hp

theorem Emptied.shrink (h : w.Emptied) {m : UnorderedMap UInt32 PendingRequest}
    (hm : m.keys.Sublist w.pendingRequests.keys) :
    ({ w with pendingRequests := m } : World).Emptied := by
  intro j callbacks hj
  have hkeys : w.pendingRequests.keys = [] := congrArg List.keys (h j callbacks hj)
  rw [hkeys, List.sublist_nil] at hm
  exact List.map_eq_nil_iff.1 hm

theorem Emptied.step (h : w.Emptied) (hg : w.Orderly a) (hs : Step w a w') : w'.Emptied := by
  cases hs with
  | connect hc | callRefused cmd data present timeout | wakeEnd now hc | expireEnd hc | expire hc =>
    exact fun j callbacks hj ↦ h j callbacks hj
  | call cmd data present timeout | receive conn data | disconnect =>
    exact Emptied.spawn (w := { w with }) h fun callbacks hq ↦ by cases hq
  | permit hp | reject hp | answer hp | fail hp | takeNone hp | takeSkip hp | «return» hp
      | failEnd hp
  | close hp | join hp hc | send sent hp =>
    exact Emptied.put (w := { w with }) h fun callbacks hq ↦ by cases hq
  | insert now deadline hp =>
    refine Emptied.put ?_ fun callbacks hq ↦ by cases hq
    intro j callbacks hj
    cases hg j _ hj
  | take hp hdec hreq =>
    refine Emptied.put (h.shrink ?_) fun callbacks hq ↦ by cases hq
    rw [AList.keys_erase]
    exact List.erase_sublist
  | wake now hc =>
    exact Emptied.shrink (w := w) h (List.filter_sublist.map _)
  | onDisconnect =>
    refine Emptied.spawn ?_ fun callbacks hq ↦ by cases hq
    exact fun _ _ _ ↦ rfl
  | swap hp => exact fun _ _ _ ↦ rfl
  | notify hp =>
    intro j callbacks hj
    exact h _ _ hp

variable {defaultTimeoutSeconds : Int32} {acts : List Act}

theorem accounts_run (hrun : (system defaultTimeoutSeconds).Run fresh acts w)
    (hcalls : w.issued.length < 2 ^ 32) : w.Accounts ∧ w.Knows := by
  refine hrun.invariant (motive := fun w ↦ w.issued.length < 2 ^ 32 → w.Accounts ∧ w.Knows) ?_
    (fun _ ↦ ⟨accounts_fresh, knows_fresh⟩) hcalls
  intro w a w' ih hstep hcalls
  have hs := step_cases hstep
  obtain ⟨hacc, hknow⟩ := ih (lt_of_le_of_lt (issued_le hs) hcalls)
  exact ⟨hacc.step hs hcalls, hknow.step hacc hs⟩

theorem emptied_run (hrun : ((system defaultTimeoutSeconds).guarded Orderly).Run fresh acts w) :
    w.Emptied := by
  refine hrun.invariant (motive := Emptied) ?_ fun i callbacks hp ↦ by cases hp
  exact fun w a w' h hstep ↦ h.step hstep.1 (step_cases hstep.2)

/-- When `disconnect` returns in an orderly run, everything is settled. -/
theorem invocations_of_return
    (hrun : ((system defaultTimeoutSeconds).guarded Orderly).Run fresh acts w)
    (hcalls : w.issued.length < 2 ^ 32) {i : ℕ} (hg : w.Orderly (.return i))
    (hs : step defaultTimeoutSeconds w (.return i) = some w') {callback : RpcCallback}
    (hissued : callback ∈ w'.issued) (hpresent : callback.present = true) :
    (w'.invocations callback).length = 1 := by
  have hacc := (accounts_run hrun.of_guarded hcalls).1
  cases step_cases hs with
  | «return» hp =>
    have hprocs : Pool.total Proc.callbacks w.procs = 0 := by
      refine Pool.total_eq_zero Proc.callbacks fun p hmem ↦ ?_
      obtain ⟨j, hj⟩ := List.mem_iff_getElem?.1 hmem
      by_cases hji : j = i
      · rw [hji, hp] at hj
        cases hj
        rfl
      · exact hg.1 j p hj hji
    exact hacc.invocations_eq hprocs (emptied_run hrun i [] hp) hg.2 hissued hpresent

/-- **Delivery.**  In every run with fewer than 2^32 calls a callback is invoked at most once, and
with `ok` only when a frame was received whose first four body bytes are the request id of the call
and whose other body bytes are the response.  When `disconnect` returns in an orderly run, every
callback has been invoked exactly once. -/
theorem delivery (hrun : (system defaultTimeoutSeconds).Run fresh acts w)
    (hcalls : w.issued.length < 2 ^ 32) :
    (∀ callback, (w.invocations callback).length ≤ 1) ∧
      (∀ callback, ∀ s ∈ w.invocations callback, s.ok = true →
        Answers w.requestId w.received callback s.response) ∧
      (∀ before i, acts = before ++ [.return i] →
        ((system defaultTimeoutSeconds).guarded Orderly).Run fresh acts w →
          ∀ callback ∈ w.issued, callback.present = true → (w.invocations callback).length =
            1) := by
  obtain ⟨hacc, hknow⟩ := accounts_run hrun hcalls
  refine ⟨hacc.invocations_le, fun callback s hs hok ↦ ?_, ?_⟩
  · rw [invocations, List.mem_filter, Bool.and_eq_true, beq_iff_eq] at hs
    rw [← hs.2.1]
    exact hknow.settled s hs.1 hok
  · rintro before i rfl horderly callback hissued hpresent
    obtain ⟨w₀, hrun₀, hg, hstep⟩ := horderly.last
    have hcalls₀ := lt_of_le_of_lt (issued_le (step_cases hstep)) hcalls
    exact invocations_of_return hrun₀ hcalls₀ hg hstep hissued hpresent

/-! ## Three runs -/

instance (w : World) (a : Act) : Decidable (w.Orderly a) :=
  match a with
  | .insert _ _ => inferInstanceAs (Decidable (∀ _, _))
  | .return _ => inferInstanceAs (Decidable (_ ∧ _))
  | .connect | .call _ _ _ _ | .permit _ _ | .send _ | .receive _ _ | .take _ | .answer _
      | .onDisconnect
  | .fail _ | .disconnect | .join _ | .close _ | .swap _ | .notify _ | .wake _ | .expire =>
    .isTrue trivial

/-- A call that is still waiting for its answer when the client disconnects. -/
def orderlyRun : List Act :=
  [.connect, .call 1 [] true 5, .permit 0 true, .insert 0 0, .send 0, .disconnect, .wake 0, .join 1,
    .close 1, .swap 1, .notify 1] ++ [.return 1]

theorem delivery_orderlyRun :
    ∃ w, ((system 5).guarded Orderly).Run fresh orderlyRun w ∧ ⟨0, true⟩ ∈ w.issued ∧
      w.issued.length < 2 ^ 32 ∧ (w.invocations ⟨0, true⟩).length = 1 := by
  obtain ⟨w, hrun, hissued, hcalls⟩ : ∃ w, ((system 5).guarded Orderly).Run fresh orderlyRun w ∧
      ⟨0, true⟩ ∈ w.issued ∧ w.issued.length < 2 ^ 32 :=
    System.Run.exists_of_any_guarded (by decide +kernel)
  exact ⟨w, hrun, hissued, hcalls,
    (delivery hrun.of_guarded hcalls).2.2 _ 1 rfl hrun _ hissued rfl⟩

/-- A call finds the connection, and before it enters its request `disconnect` runs and returns. -/
def lateInsert : List Act :=
  [.connect, .call 1 [] true 5, .permit 0 true, .disconnect, .wake 0, .join 1, .close 1, .swap 1,
    .return 1]

/-- A response has been found in the table, and before its callback `disconnect` runs and returns.
-/
def lateAnswer : List Act :=
  [.connect, .call 1 [] true 5, .permit 0 true, .insert 0 0, .send 0,
    .receive 0 (Protocol.serialize ⟨1, encodeRpcBody 1 []⟩), .take 1, .disconnect, .wake 0, .join 2,
    .close 2, .swap 2, .return 2]

/-- In both runs the callback has not been invoked when `disconnect` has returned.  In the first one
the request is entered after that, with no cleanup thread that would ever look at it. -/
theorem disconnect_misses_callback :
    (∃ w w', (system 5).Run fresh lateInsert w ∧ ⟨0, true⟩ ∈ w.issued ∧
      w.invocations ⟨0, true⟩ = [] ∧ step 5 w (.insert 0 0) = some w' ∧
      w'.invocations ⟨0, true⟩ = [] ∧ w'.cleanup = .absent ∧
      w'.pendingRequests.lookup 1 = some ⟨⟨0, true⟩, 5000000000⟩) ∧
    (∃ w, (system 5).Run fresh lateAnswer w ∧ ⟨0, true⟩ ∈ w.issued ∧
      w.invocations ⟨0, true⟩ = []) := by
  constructor
  · obtain ⟨w, hrun, hissued, hnone, w', hs, hlate⟩ : ∃ w, (system 5).Run fresh lateInsert w ∧
        ⟨0, true⟩ ∈ w.issued ∧ w.invocations ⟨0, true⟩ = [] ∧
        ∃ w' ∈ step 5 w (.insert 0 0), w'.invocations ⟨0, true⟩ = [] ∧ w'.cleanup = .absent ∧
          w'.pendingRequests.lookup 1 = some ⟨⟨0, true⟩, 5000000000⟩ :=
      System.Run.exists_of_any (by decide +kernel)
    exact ⟨w, w', hrun, hissued, hnone, hs, hlate⟩
  · exact System.Run.exists_of_any (by decide +kernel)

end World

end Rpc
end ChwellCore
