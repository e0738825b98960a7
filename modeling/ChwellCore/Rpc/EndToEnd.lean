import ChwellCore.Rpc.Calls

/-!
# End to end

What the server finds in its buffer is what was written on the client's side, frame by frame and in
order, and what the client finds is what the server has written: `Linked` says so for a network in
any state, with the bytes that are still on the wires.  The rest is bookkeeping about request ids.

`settled_by_server` is about an answer: a callback that is invoked with `ok` gets the command of its
own call and the bytes that the server's handler returned for the arguments of its own call.
`executed_once` is about the server: it executes nothing but what was called, and no call twice.
`waits_for_server` is about a call that waits: its request or its response is somewhere on the way
to it, so that when nothing is on the way any more no request that was sent is still in the table.
-/

set_option autoImplicit false

namespace ChwellCore
namespace Rpc

open Protocol (Message Parser serialize)
open Protocol.Parser (frame consumed)

/-! ## Responses -/

theorem requestIdPrefix_encode (id : UInt32) (payload : Bytes) :
    requestIdPrefix (encodeRpcBody id payload) = hostToNet32 id := by
  have hlen : 4 ≤ (encodeRpcBody id payload).length := by simp [encodeRpcBody]
  rw [requestIdPrefix, if_pos hlen]
  rfl

theorem handlerBody_encode (id : UInt32) (payload : Bytes) :
    handlerBody (encodeRpcBody id payload) = payload := by
  have hlen : 4 ≤ (encodeRpcBody id payload).length := by simp [encodeRpcBody]
  rw [handlerBody, if_pos hlen]
  rfl

/-- What is sent back for a request is its id and the result. -/
theorem Execution.response_of_request {e : Execution} {r : Request} (h : e.message = r.message) :
    e.response = ⟨r.call.cmd, encodeRpcBody r.id e.result⟩ := by
  rw [Execution.response, h]
  simp only [Request.message, requestIdPrefix_encode]
  rfl

theorem Execution.argument_of_request {e : Execution} {r : Request} (h : e.message = r.message) :
    e.argument = r.call.data := by
  rw [Execution.argument, h]
  exact handlerBody_encode _ _

namespace Network

variable {Conn : Type} [DecidableEq Conn] {defaultTimeoutSeconds : Int32} {conn : Conn}
  {n n' : Network Conn}

/-! ## The wires -/

/-- What has been written has arrived or is on its wire. -/
structure Linked (conn : Conn) (n : Network Conn) : Prop where
  callsFit : ∀ c ∈ n.calls, c.data.length ≤ 65531
  resultsFit : ∀ e ∈ n.executed, e.result.length ≤ 65531
  serves : (n.server.channel conn).Serves
  up : n.server.stream conn ++ n.toServer = (n.requests.map Request.message).flatMap serialize
  processed : n.server.processed conn = n.executed.map Execution.message
  down : n.inbound ++ n.toClient = (n.executed.map Execution.response).flatMap serialize
  parsed : (n.client.received, n.client.recvBuffer) = frame.drain n.inbound

theorem linked_fresh : Linked conn fresh where
  callsFit := fun _ h ↦ by cases h
  resultsFit := fun _ h ↦ by cases h
  serves := Channel.serves_empty
  up := rfl
  processed := rfl
  down := rfl
  parsed := (FrameDecoder.drain_of_none Parser.frame_next_nil).symm

/-- A request fits in a frame. -/
theorem Linked.next_message (h : Linked conn n)
    (hmade : ∀ r ∈ n.requests, Makes n.calls n.client.requestId r) :
    ∀ m ∈ n.requests.map Request.message, frame.next (serialize m) = some (m, []) := by
  intro m hm
  obtain ⟨r, hr, rfl⟩ := List.mem_map.1 hm
  obtain ⟨k, -, hk⟩ := hmade r hr
  have := h.callsFit _ (List.mem_of_getElem? hk)
  refine Parser.frame_next_serialize ?_
  rw [Request.message, encodeRpcBody, List.length_append, length_hostToNet32]
  omega

/-- So does a response. -/
theorem Linked.next_response (h : Linked conn n) :
    ∀ m ∈ n.executed.map Execution.response, frame.next (serialize m) = some (m, []) := by
  intro m hm
  obtain ⟨e, he, rfl⟩ := List.mem_map.1 hm
  have := h.resultsFit e he
  refine Parser.frame_next_serialize ?_
  have hprefix : (requestIdPrefix e.message.body).length ≤ 4 := by
    rw [requestIdPrefix]
    split
    · rw [List.length_take]
      omega
    · exact Nat.zero_le _
  rw [Execution.response, List.length_append]
  omega

/-- The server has executed the first of the requests written. -/
theorem Linked.executed_prefix (h : Linked conn n)
    (hmade : ∀ r ∈ n.requests, Makes n.calls n.client.requestId r) :
    n.executed.map Execution.message <+: n.requests.map Request.message := by
  have hdrain := FrameDecoder.drain_prefix Parser.frame_next_nil (h.next_message hmade) h.up
  refine List.IsPrefix.trans ?_ hdrain
  rw [← h.processed]
  cases hr : n.server.reading conn with
  | none =>
    have hidle : n.server.processed conn = (frame.drain (n.server.stream conn)).1 :=
      (Prod.mk.inj (h.serves.idle hr)).1
    exact hidle ▸ List.prefix_rfl
  | some r =>
    have hbusy : n.server.processed conn ++ r.left = (frame.drain (n.server.stream conn)).1 :=
      (Prod.mk.inj (h.serves.busy r hr).2).1
    rw [← hbusy]
    exact List.prefix_append _ _

/-- The client has received the first of the responses. -/
theorem Linked.received_prefix (h : Linked conn n) :
    n.client.received <+: n.executed.map Execution.response := by
  have hdrain := FrameDecoder.drain_prefix Parser.frame_next_nil h.next_response h.down
  rwa [← (Prod.mk.inj h.parsed).1] at hdrain

theorem flatten_map_serialize {α : Type} (f : α → Message) (xs : List α) :
    (xs.map fun x ↦ serialize (f x)).flatten = (xs.map f).flatMap serialize := by
  rw [List.flatMap_def, List.map_map]
  rfl

/-- A read of the client adds to what it has parsed. -/
theorem parsed_receive {w : World} {inbound : Bytes} (data : Bytes)
    (h : (w.received, w.recvBuffer) = frame.drain inbound) :
    ((w.receive 0 data).received, (w.receive 0 data).recvBuffer) =
      frame.drain (inbound ++ data) := by
  obtain ⟨hle, hdrop⟩ := Parser.drain_eq_drop (w.recvBuffer ++ data)
  rw [FrameDecoder.drain_append inbound data, ← h]
  simp only [World.receive, (Parser.feed_fresh _).1]
  rw [hdrop]
  exact congrArg _ (if_pos hle)

omit [DecidableEq Conn] in
/-- No other step of the client touches what it has parsed. -/
theorem received_step {w w' : World} {a : Act} (hmay : n.clientMay a = true)
    (hs : World.Step w a w') : w'.received = w.received ∧ w'.recvBuffer = w.recvBuffer := by
  cases hs with
  | receive conn data => cases hmay
  | _ => exact ⟨rfl, rfl⟩

theorem Linked.step (h : Linked conn n) {a : NetAct Conn} (hfit : n.Fits conn a)
    (hs : Step defaultTimeoutSeconds conn n a n') : Linked conn n' := by
  cases hs with
  | @client a w hmay hw =>
    obtain ⟨hrecv, hbuf⟩ := received_step hmay (World.step_cases hw)
    refine ⟨fun c hc ↦ ?_, h.resultsFit, h.serves, ?_, h.processed, h.down, ?_⟩
    · rcases List.mem_append.1 hc with hc | hc
      · exact h.callsFit c hc
      · cases a with
        | call cmd data present timeout =>
          obtain rfl := List.mem_singleton.1 hc
          exact hfit
        | _ => cases hc
    · simp only [afterClient]
      split
      · rw [World.sent_step hw, List.drop_left, ← List.append_assoc, h.up, flatten_map_serialize,
          List.map_append, List.flatMap_append]
      · rw [List.append_nil, h.up]
    · simp only [afterClient, hrecv, hbuf]
      exact h.parsed
  | clientRead k =>
    refine ⟨h.callsFit, h.resultsFit, h.serves, h.up, h.processed, ?_, parsed_receive _ h.parsed⟩
    rw [List.append_assoc, List.take_append_drop]
    exact h.down
  | @server op s hmay hw =>
    obtain ⟨hstream, hproc, hsent⟩ := RpcServer.executions_step hmay hw
    refine ⟨h.callsFit, fun e he ↦ ?_, h.serves.step (RpcServer.channel_step hw conn), ?_, ?_, ?_,
      h.parsed⟩
    · rcases List.mem_append.1 he with he | he
      · exact h.resultsFit e he
      · exact hfit e he
    · simp only [afterServer, hstream]
      exact h.up
    · simp only [afterServer, hproc, h.processed, List.map_append]
    · simp only [afterServer]
      rw [hsent, List.drop_left, ← List.append_assoc, h.down, flatten_map_serialize,
        List.map_append, List.flatMap_append]
  | @serverRead k s hw =>
    refine ⟨h.callsFit, h.resultsFit, h.serves.step (RpcServer.channel_step hw conn), ?_, ?_,
      h.down, h.parsed⟩
    all_goals
      simp only [RpcServer.step] at hw
      split at hw <;> cases hw
    · simp only [Function.update_self]
      rw [List.append_assoc, List.take_append_drop]
      exact h.up
    · exact h.processed

/-! ## Every run -/

variable (conn) in
/-- What holds of a network in every state of a session. -/
structure Sound (n : Network Conn) : Prop where
  issues : n.client.Issues n.calls n.requests
  linked : Linked conn n

/-- The client's side of a step. -/
theorem Sound.issues_step (h : Sound conn n) {a : NetAct Conn}
    (hs : Step defaultTimeoutSeconds conn n a n') (hcalls : n'.client.issued.length < 2 ^ 32) :
    n'.client.Issues n'.calls n'.requests := by
  cases hs with
  | @client a w hmay hw =>
    refine h.issues.step (World.step_cases hw) hcalls ?_
    split
    · exact .inr rfl
    · exact .inl rfl
  | clientRead k =>
    have hnone : ([] : List Request) = [] ∨
        [] = n.client.written (.receive 0 (n.toClient.take k)) := .inl rfl
    simpa [Act.calls] using h.issues.step (.receive 0 (n.toClient.take k)) hcalls hnone
  | server hmay hw | serverRead k hw => exact h.issues

/-- Nor do calls disappear. -/
theorem issued_le {a : NetAct Conn} (hs : Step defaultTimeoutSeconds conn n a n') :
    n.client.issued.length ≤ n'.client.issued.length := by
  cases hs with
  | client hmay hw => exact World.issued_le (World.step_cases hw)
  | clientRead k | server hmay hw | serverRead k hw => exact le_refl _

variable {acts : List (NetAct Conn)}

theorem sound_run
    (hrun : ((system defaultTimeoutSeconds conn).guarded (Fits conn)).Run fresh acts n)
    (hcalls : n.client.issued.length < 2 ^ 32) : Sound conn n := by
  refine hrun.invariant
    (motive := fun n ↦ n.client.issued.length < 2 ^ 32 → Sound conn n) ?_
    (fun _ ↦ ⟨World.issues_fresh, linked_fresh⟩) hcalls
  rintro n a n' ih ⟨hfit, hstep⟩ hcalls
  have hs := step_cases _ _ hstep
  have h := ih (lt_of_le_of_lt (issued_le hs) hcalls)
  exact ⟨h.issues_step hs hcalls, h.linked.step hfit hs⟩

/-! ## What is executed -/

/-- What the server has done for a call. -/
def executionsOf (n : Network Conn) (k : ℕ) : List Execution :=
  n.executed.filter fun e ↦
    (n.client.requestId k).isSome && requestIdOf e.message == n.client.requestId k

omit [DecidableEq Conn] in
theorem mem_executionsOf {e : Execution} {k : ℕ} : e ∈ n.executionsOf k ↔
    e ∈ n.executed ∧ ∃ id, n.client.requestId k = some id ∧ requestIdOf e.message = some id := by
  rw [executionsOf, List.mem_filter, Bool.and_eq_true, beq_iff_eq]
  refine and_congr_right fun _ ↦ ⟨?_, ?_⟩
  · rintro ⟨hsome, hid⟩
    obtain ⟨id, hk⟩ := Option.isSome_iff_exists.1 hsome
    exact ⟨id, hk, hid.trans hk⟩
  · rintro ⟨id, hk, hid⟩
    exact ⟨by rw [hk]; rfl, hid.trans hk.symm⟩

/-- What is executed was written. -/
theorem Sound.request_of_executed (h : Sound conn n) {e : Execution} (he : e ∈ n.executed) :
    ∃ r ∈ n.requests, e.message = r.message := by
  have hmem := (h.linked.executed_prefix h.issues.made).subset (List.mem_map_of_mem he)
  obtain ⟨r, hr, hrm⟩ := List.mem_map.1 hmem
  exact ⟨r, hr, hrm.symm⟩

/-- No request id is executed twice. -/
theorem Sound.nodup_executed (h : Sound conn n) :
    (n.executed.map fun e ↦ requestIdOf e.message).Nodup := by
  have hprefix := (h.linked.executed_prefix h.issues.made).map requestIdOf
  rw [List.map_map, List.map_map] at hprefix
  refine List.Nodup.sublist hprefix.sublist ?_
  have hids : n.requests.map (requestIdOf ∘ Request.message) =
      (n.requests.map Request.id).map some := by
    rw [List.map_map]
    exact List.map_congr_left fun r _ ↦ r.requestIdOf_message
  rw [hids]
  exact ((Multiset.nodup_add.1 h.issues.nodup).2.1).map (Option.some_injective _)

/-- A call is executed once at most. -/
theorem Sound.length_executionsOf_le (h : Sound conn n) (k : ℕ) :
    (n.executionsOf k).length ≤ 1 := by
  have hcount := List.nodup_iff_count_le_one.1 h.nodup_executed (n.client.requestId k)
  refine le_trans (le_trans ?_ (List.countP_map ..).ge) hcount
  rw [executionsOf, List.countP_eq_length_filter]
  refine List.Sublist.length_le (List.monotone_filter_right _ fun e he ↦ ?_)
  exact (Bool.and_eq_true_iff.1 he).2

/-- **The server executes what was called, and no call twice**: every execution is for one of the
calls, with its command and its arguments; no call has two of them, and one that has drawn no
request id (there was no connection, or the breaker or the limiter has turned it down) has none. -/
theorem executed_once
    (hrun : ((system defaultTimeoutSeconds conn).guarded (Fits conn)).Run fresh acts n)
    (hcalls : n.client.issued.length < 2 ^ 32) :
    (∀ e ∈ n.executed, ∃ (k : ℕ) (call : Call), n.calls[k]? = some call ∧ e ∈ n.executionsOf k ∧
        e.message.cmd = call.cmd ∧ e.argument = call.data) ∧
      (∀ k, (n.executionsOf k).length ≤ 1) ∧
      ∀ k, n.client.requestId k = none → n.executionsOf k = [] := by
  have h := sound_run hrun hcalls
  refine ⟨fun e he ↦ ?_, h.length_executionsOf_le, fun k hk ↦ ?_⟩
  · obtain ⟨r, hr, hmsg⟩ := h.request_of_executed he
    obtain ⟨k, hid, hcall⟩ := h.issues.made r hr
    refine ⟨k, r.call, hcall, mem_executionsOf.2 ⟨he, r.id, hid, ?_⟩, ?_,
      Execution.argument_of_request hmsg⟩
    · rw [hmsg, r.requestIdOf_message]
    · rw [hmsg]
      rfl
  · rw [executionsOf, hk]
    exact List.filter_false _

/-! ## What is answered -/

/-- A response belongs to the call that the callback belongs to. -/
theorem Sound.execution_of_answers (h : Sound conn n) {callback : RpcCallback} {response : Message}
    (hans : World.Answers n.client.requestId n.client.received callback response) :
    ∃ (call : Call) (e : Execution), n.calls[callback.call]? = some call ∧
      e ∈ n.executionsOf callback.call ∧ e.message.cmd = call.cmd ∧ e.argument = call.data ∧
        response = ⟨call.cmd, e.result⟩ := by
  obtain ⟨id, hid, hmem⟩ := hans
  obtain ⟨e, he, hresp⟩ := List.mem_map.1 (h.linked.received_prefix.subset hmem)
  obtain ⟨r, hr, hmsg⟩ := h.request_of_executed he
  obtain ⟨k, hk, hcall⟩ := h.issues.made r hr
  rw [Execution.response_of_request hmsg] at hresp
  obtain ⟨hcmd, hbody⟩ := Message.mk.inj hresp
  -- the first four bytes are the id, and no two calls have the same
  obtain ⟨rfl, hresult⟩ : r.id = id ∧ e.result = response.body := by
    have hdecode := congrArg decodeRpcBody hbody
    rw [decodeRpcBody_encode, decodeRpcBody_encode] at hdecode
    exact Prod.mk.inj (Option.some.inj hdecode)
  obtain ⟨_, -, -, -, hinj⟩ := h.issues.distinct
  obtain rfl := hinj _ _ _ hk hid
  refine ⟨r.call, e, hcall, mem_executionsOf.2 ⟨he, r.id, hid, ?_⟩, ?_,
    Execution.argument_of_request hmsg, ?_⟩
  · rw [hmsg, r.requestIdOf_message]
  · rw [hmsg]
    rfl
  · rw [hresult, hcmd]

/-- **An answer is the server's answer to this call**: if a callback has been told `ok`, the server
has executed its call, once, with the command and the arguments of the call, and the callback got
that command and what came of it. -/
theorem settled_by_server
    (hrun : ((system defaultTimeoutSeconds conn).guarded (Fits conn)).Run fresh acts n)
    (hcalls : n.client.issued.length < 2 ^ 32) {s : Settlement} (hs : s ∈ n.client.settled)
    (hok : s.ok = true) :
    ∃ (call : Call) (e : Execution), n.calls[s.callback.call]? = some call ∧
      n.executionsOf s.callback.call = [e] ∧ e.message.cmd = call.cmd ∧ e.argument = call.data ∧
        s.response = ⟨call.cmd, e.result⟩ := by
  have h := sound_run hrun hcalls
  obtain ⟨call, e, hcall, he, hcmd, harg, hresp⟩ :=
    h.execution_of_answers (h.issues.knows.settled s hs hok)
  refine ⟨call, e, hcall, ?_, hcmd, harg, hresp⟩
  obtain ⟨e', he'⟩ := List.length_eq_one_iff.1
    (le_antisymm (h.length_executionsOf_le _) (List.length_pos_of_mem he))
  rw [he', List.mem_singleton] at he
  rw [he', he]

/-! ## What is still waited for -/

/-- The request with this id, or its response, is on its way: the server has not come to it, or the
client has not read it, or `on_message` has not looked at it. -/
inductive Outstanding (n : Network Conn) (id : UInt32) : Prop
  | toExecute {r : Request} : r ∈ n.requests.drop n.executed.length → r.id = id → Outstanding n id
  | toReceive {e : Execution} : e ∈ n.executed.drop n.client.received.length →
      requestIdOf e.response = some id → Outstanding n id
  | toHandle {p : Proc} {m : Message} : p ∈ n.client.procs → m ∈ p.messages →
      requestIdOf m = some id → Outstanding n id

/-- Every request that was sent and is in the table is on its way. -/
def Waits (n : Network Conn) : Prop :=
  ∀ r ∈ n.requests, r.id ∈ n.client.pendingRequests → n.Outstanding r.id

/-- Where the beginning of a list has been handed on, an element that was behind it still is, or was
among those handed on with the next step. -/
theorem mem_drop_or_mem {α β : Type} {f : α → β} {xs : List α} {old new : List β} {k : ℕ}
    (hk : k = old.length) (h : old ++ new <+: xs.map f) {x : α} (hx : x ∈ xs.drop k) :
    x ∈ xs.drop (k + new.length) ∨ f x ∈ new := by
  rw [← List.take_append_drop new.length (xs.drop k), List.mem_append, List.drop_drop] at hx
  refine hx.symm.imp id fun hx ↦ ?_
  have hnew : ((xs.drop k).take new.length).map f = new := by
    obtain ⟨zs, hzs⟩ := h
    rw [List.map_take, List.map_drop, ← hzs, hk, List.append_assoc, List.drop_left, List.take_left]
  rw [← hnew]
  exact List.mem_map_of_mem hx

theorem Waits.client (h : n.Waits) (hsound : Sound conn n) {a : Act} {w : World}
    (hmay : n.clientMay a = true) (hw : World.step defaultTimeoutSeconds n.client a = some w)
    (hissues : (n.afterClient a w).client.Issues (n.afterClient a w).calls
      (n.afterClient a w).requests) : (n.afterClient a w).Waits := by
  intro r hr hid
  rcases World.waits_step hw hid with hnew | ⟨hold, hkeep⟩
  · -- a request that has just been entered has not been sent
    have hdisj := (Multiset.nodup_add.1 hissues.nodup).2.2
    exact absurd (Multiset.mem_coe.2 (List.mem_map_of_mem hr)) (Multiset.disjoint_left.1 hdisj hnew)
  · rcases List.mem_append.1 hr with hrold | hrnew
    · cases h r hrold hold with
      | toExecute hmem he =>
        refine .toExecute ?_ he
        simp only [afterClient, List.drop_append]
        exact List.mem_append_left _ hmem
      | toReceive hmem he =>
        refine .toReceive ?_ he
        simp only [afterClient, (received_step hmay (World.step_cases hw)).1]
        exact hmem
      | toHandle hp hm he =>
        obtain ⟨p, hp, hm⟩ := hkeep _ he ⟨_, hp, hm⟩
        exact .toHandle hp hm he
    · refine .toExecute (r := r) ?_ rfl
      have hle := (hsound.linked.executed_prefix hsound.issues.made).length_le
      rw [List.length_map, List.length_map] at hle
      simp only [afterClient]
      rw [List.drop_append_of_le_length hle]
      exact List.mem_append_right _ hrnew

theorem Waits.step (h : n.Waits) (hsound : Sound conn n) (hsound' : Sound conn n')
    {a : NetAct Conn} (hs : Step defaultTimeoutSeconds conn n a n') : n'.Waits := by
  cases hs with
  | client hmay hw => exact h.client hsound hmay hw hsound'.issues
  | clientRead k =>
    intro r hr hid
    have hprefix := hsound'.linked.received_prefix
    cases h r hr hid with
    | toExecute hmem he => exact .toExecute hmem he
    | toReceive hmem he =>
      rcases mem_drop_or_mem rfl hprefix hmem with hmem | hmem
      · refine .toReceive ?_ he
        simpa [World.receive] using hmem
      · refine .toHandle (p := .handling 0 _) ?_ hmem he
        exact List.mem_append_right _ (List.mem_singleton_self _)
    | toHandle hp hm he => exact .toHandle (List.mem_append_left _ hp) hm he
  | @server op s hmay hw =>
    intro r hr hid
    have hprefix := hsound'.linked.executed_prefix hsound'.issues.made
    simp only [afterServer, List.map_append] at hprefix
    cases h r hr hid with
    | @toExecute r' hmem he =>
      rcases mem_drop_or_mem (List.length_map _).symm hprefix hmem with hmem | hmem
      · refine .toExecute ?_ he
        simpa [afterServer] using hmem
      · obtain ⟨e, hmem, hmsg⟩ := List.mem_map.1 hmem
        have hle := hsound.linked.received_prefix.length_le
        rw [List.length_map] at hle
        refine .toReceive (e := e) ?_ ?_
        · simp only [afterServer]
          rw [List.drop_append_of_le_length hle]
          exact List.mem_append_right _ hmem
        · rw [Execution.response_of_request hmsg, requestIdOf_encode, he]
    | toReceive hmem he =>
      refine .toReceive ?_ he
      simp only [afterServer, List.drop_append]
      exact List.mem_append_left _ hmem
    | toHandle hp hm he => exact .toHandle hp hm he
  | serverRead k hw =>
    intro r hr hid
    cases h r hr hid with
    | toExecute hmem he => exact .toExecute hmem he
    | toReceive hmem he => exact .toReceive hmem he
    | toHandle hp hm he => exact .toHandle hp hm he

theorem waits_run
    (hrun : ((system defaultTimeoutSeconds conn).guarded (Fits conn)).Run fresh acts n)
    (hcalls : n.client.issued.length < 2 ^ 32) : n.Waits := by
  refine (hrun.invariant (motive := fun n ↦
    n.client.issued.length < 2 ^ 32 → Sound conn n ∧ n.Waits) ?_
    (fun _ ↦ ⟨⟨World.issues_fresh, linked_fresh⟩, fun _ h ↦ by cases h⟩) hcalls).2
  rintro n a n' ih ⟨hfit, hstep⟩ hcalls
  have hs := step_cases _ _ hstep
  obtain ⟨h, hwaits⟩ := ih (lt_of_le_of_lt (issued_le hs) hcalls)
  have h' : Sound conn n' := ⟨h.issues_step hs hcalls, h.linked.step hfit hs⟩
  exact ⟨h', hwaits.step h h' hs⟩

variable (conn) in
/-- Nothing is on its way. -/
structure Quiet (n : Network Conn) : Prop where
  toServer : n.toServer = []
  reading : n.server.reading conn = none
  toClient : n.toClient = []
  procs : ∀ p ∈ n.client.procs, p.messages = []

/-- Where nothing is on its way, every request has been executed and every response received. -/
theorem Sound.complete (h : Sound conn n) (hquiet : Quiet conn n) :
    n.executed.map Execution.message = n.requests.map Request.message ∧
      n.client.received = n.executed.map Execution.response := by
  constructor
  · have hup := h.linked.up
    rw [hquiet.toServer, List.append_nil] at hup
    have hidle : n.server.processed conn = (frame.drain (n.server.stream conn)).1 :=
      (Prod.mk.inj (h.linked.serves.idle hquiet.reading)).1
    rw [← h.linked.processed, hidle, hup, FrameDecoder.drain_flatMap Parser.frame_next_nil
      (h.linked.next_message h.issues.made)]
  · have hdown := h.linked.down
    rw [hquiet.toClient, List.append_nil] at hdown
    rw [(Prod.mk.inj h.linked.parsed).1, hdown, FrameDecoder.drain_flatMap Parser.frame_next_nil
      h.linked.next_response]

/-- **No call waits for nothing**: a request that was sent and is in the table is on its way to its
answer.  When nothing is on its way any more, everything that was sent has been executed, in the
order in which it was sent, and none of it is in the table. -/
theorem waits_for_server
    (hrun : ((system defaultTimeoutSeconds conn).guarded (Fits conn)).Run fresh acts n)
    (hcalls : n.client.issued.length < 2 ^ 32) :
    (∀ r ∈ n.requests, r.id ∈ n.client.pendingRequests → n.Outstanding r.id) ∧
      (Quiet conn n → n.executed.map Execution.message = n.requests.map Request.message ∧
        ∀ r ∈ n.requests, r.id ∉ n.client.pendingRequests) := by
  have hwaits := waits_run hrun hcalls
  refine ⟨hwaits, fun hquiet ↦ ?_⟩
  obtain ⟨hexec, hrecv⟩ := (sound_run hrun hcalls).complete hquiet
  refine ⟨hexec, fun r hr hid ↦ ?_⟩
  have hlen := congrArg List.length hexec
  have hlen' := congrArg List.length hrecv
  rw [List.length_map, List.length_map] at hlen
  rw [List.length_map] at hlen'
  cases hwaits r hr hid with
  | toExecute hmem he =>
    rw [hlen, List.drop_length] at hmem
    cases hmem
  | toReceive hmem he =>
    rw [hlen', List.drop_length] at hmem
    cases hmem
  | toHandle hp hm he =>
    rw [hquiet.procs _ hp] at hm
    cases hm

/-! ## A session -/

instance (n : Network Conn) (a : NetAct Conn) : Decidable (n.Fits conn a) :=
  match a with
  | .client (.call _ _ _ _) => inferInstanceAs (Decidable (_ ≤ _))
  | .server _ => inferInstanceAs (Decidable (∀ _ ∈ _, _))
  | .client .connect | .client (.permit _ _) | .client (.insert _ _) | .client (.send _)
  | .client (.receive _ _) | .client (.take _) | .client (.answer _) | .client .onDisconnect
  | .client (.fail _) | .client .disconnect | .client (.join _) | .client (.close _)
  | .client (.swap _) | .client (.notify _) | .client (.return _) | .client (.wake _)
  | .client .expire | .clientRead _ | .serverRead _ => .isTrue trivial

/-- A handler that sends its argument back in reverse. -/
def reverseHandler (body : Bytes) : HandlerOutcome := .returns body.reverse

/-- A call and its answer, both cut in two on the way. -/
def session : List (NetAct ℕ) :=
  [.server (.registerMethod 7 true), .client .connect, .client (.call 7 [1, 2] true 5),
    .client (.permit 0 true), .client (.insert 0 0), .client (.send 0), .serverRead 3,
    .server (.finish 5), .serverRead 100, .server (.process 5 reverseHandler), .server (.finish 5),
    .clientRead 2, .client (.take 1), .clientRead 100, .client (.take 2), .client (.answer 2),
    .client (.take 2)]

theorem settled_by_server_session :
    ∃ n, ((system 5 5).guarded (Fits 5)).Run fresh session n ∧
      ⟨⟨0, true⟩, true, ⟨7, [2, 1]⟩⟩ ∈ n.client.settled ∧
        ∃ (call : Call) (e : Execution), n.calls[0]? = some call ∧ n.executionsOf 0 = [e] ∧
          e.message.cmd = call.cmd ∧ e.argument = call.data ∧
            ⟨7, [2, 1]⟩ = (⟨call.cmd, e.result⟩ : Message) := by
  obtain ⟨n, hrun, hcalls, hmem⟩ : ∃ n, ((system 5 5).guarded (Fits 5)).Run fresh session n ∧
      n.client.issued.length < 2 ^ 32 ∧ ⟨⟨0, true⟩, true, ⟨7, [2, 1]⟩⟩ ∈ n.client.settled :=
    System.Run.exists_of_any_guarded (by decide +kernel)
  exact ⟨n, hrun, hmem, settled_by_server hrun hcalls hmem rfl⟩

theorem executed_once_session :
    ∃ n, ((system 5 5).guarded (Fits 5)).Run fresh session n ∧ n.executed ≠ [] ∧
      ∀ k, (n.executionsOf k).length ≤ 1 := by
  obtain ⟨n, hrun, hcalls, hexec⟩ : ∃ n, ((system 5 5).guarded (Fits 5)).Run fresh session n ∧
      n.client.issued.length < 2 ^ 32 ∧ n.executed ≠ [] :=
    System.Run.exists_of_any_guarded (by decide +kernel)
  exact ⟨n, hrun, hexec, (executed_once hrun hcalls).2.1⟩

theorem waits_for_server_session :
    ∃ n, ((system 5 5).guarded (Fits 5)).Run fresh session n ∧ n.requests ≠ [] ∧
      ∀ r ∈ n.requests, r.id ∉ n.client.pendingRequests := by
  obtain ⟨n, hrun, hcalls, hreq, hserver, hread, hclient, hprocs⟩ : ∃ n,
      ((system 5 5).guarded (Fits 5)).Run fresh session n ∧ n.client.issued.length < 2 ^ 32 ∧
        n.requests ≠ [] ∧ n.toServer = [] ∧ (n.server.reading 5).isNone = true ∧ n.toClient = [] ∧
          ∀ p ∈ n.client.procs, p.messages = [] :=
    System.Run.exists_of_any_guarded (by decide +kernel)
  refine ⟨n, hrun, hreq, ((waits_for_server hrun hcalls).2 ?_).2⟩
  exact ⟨hserver, Option.isNone_iff_eq_none.1 hread, hclient, hprocs⟩

end Network

end Rpc
end ChwellCore
