import ChwellCore.Lib.Pool
import ChwellCore.Lib.Run
import ChwellCore.Lib.UnorderedMap
import ChwellCore.Protocol.Parser

/-!
# The RPC client

`RpcClient` is used by several threads at once: any number of them in `call` and `disconnect`, the
I/O thread in `on_message` and `on_disconnect`, and the client's own cleanup thread.  What they
share under `requests_mutex_` is the table `pending_requests_`; a callback is taken out of it under
the lock and invoked after the lock has been given up.

A `World` is the client, a pool of the activities that are under way, and a history.  A step of it
is one lock-protected section with the local code around it, or one callback, or one access to
`connection_`; the steps of all the activities interleave freely.  The circuit breaker and the rate
limiter are asked once per call, and their answer is part of the step.  What a call sends after its
connection has gone is undefined in the source, and nothing here depends on it.

Connections are numbered in the order in which they are made.  `disconnect` closes one and does not
wait for its read loop, which looks at `closed_` before a read and not after it: `on_message` may
still be called for a connection when the next one has been made.

The last five fields of a world are not in the code.  Calls are numbered in the order in which they
begin, and `settled` lists what was done about each callback: an empty `std::function` is passed
over by the test `if (callback)`, and the others are the invocations.
-/

set_option autoImplicit false

namespace ChwellCore
namespace Rpc

open Protocol (Message Parser serialize)

/-- The callback of a call, and whether it is more than an empty `std::function`. -/
structure RpcCallback where
  call : ℕ
  present : Bool
deriving DecidableEq, Repr

/-- `PendingRequest`.  Times are in nanoseconds. -/
structure PendingRequest where
  callback : RpcCallback
  deadline : ℤ
deriving DecidableEq, Repr

/-- `protocol::Message` as default constructed. -/
def emptyMsg : Message := ⟨0, []⟩

/-- `encode_rpc_body`. -/
def encodeRpcBody (requestId : UInt32) (payload : Bytes) : Bytes := hostToNet32 requestId ++ payload

/-- `decode_rpc_body`. -/
def decodeRpcBody (body : Bytes) : Option (UInt32 × Bytes) :=
  if body.length < 4 then none else some (netToHost32 body 0, body.drop 4)

/-- What is decoded is what was encoded. -/
theorem eq_encode_of_decode {body payload : Bytes} {id : UInt32}
    (h : decodeRpcBody body = some (id, payload)) : body = encodeRpcBody id payload := by
  rw [decodeRpcBody] at h
  obtain ⟨hlen, h⟩ := Option.ite_none_left_eq_some.1 h
  cases h
  obtain ⟨a, b, c, d, rest, rfl⟩ : ∃ a b c d rest, body = a :: b :: c :: d :: rest := by
    rcases body with _ | ⟨a, _ | ⟨b, _ | ⟨c, _ | ⟨d, rest⟩⟩⟩⟩
    all_goals first | exact ⟨a, b, c, d, rest, rfl⟩ | (exfalso; simp at hlen)
  exact congrArg (· ++ rest) (hostToNet32_be32 a b c d).symm

/-! ## Activities -/

/-- An activity of a thread other than the cleanup thread, at the point where it will go on. -/
inductive Proc where
  /-- `call`, when `connection_` was there. -/
  | admitting (cmd : UInt16) (data : Bytes) (callback : RpcCallback) (timeoutSeconds : Int32)
  /-- `call`, with a request id. -/
  | inserting (requestId : UInt32) (cmd : UInt16) (data : Bytes) (callback : RpcCallback)
      (timeoutSeconds : Int32)
  /-- `call`, when its request is in the table. -/
  | sending (requestId : UInt32) (cmd : UInt16) (data : Bytes)
  /-- The loop of `on_message`, for a connection. -/
  | handling (conn : ℕ) (messages : List Message)
  /-- `on_message`, between taking a request out of the table and its callback. -/
  | answering (conn : ℕ) (callback : RpcCallback) (response : Message) (messages : List Message)
  /-- `on_disconnect`, after it has emptied the table. -/
  | failing (callbacks : List RpcCallback)
  /-- `disconnect`, waiting for the cleanup thread. -/
  | joining
  /-- `disconnect`, before it closes the connection. -/
  | closing
  /-- `disconnect`, before it empties the table. -/
  | swapping
  /-- `disconnect`, after it has emptied the table. -/
  | notifying (callbacks : List RpcCallback)
  | done
deriving DecidableEq

/-- `cleanup_thread_`. -/
inductive CleanupThread where
  /-- There is none to join. -/
  | absent
  | waiting
  /-- In `cleanup_expired_requests`, after the expired requests were taken out of the table. -/
  | expiring (callbacks : List RpcCallback)
  /-- Out of its loop and not joined yet. -/
  | finished
deriving DecidableEq

/-- What was done about a callback. -/
structure Settlement where
  callback : RpcCallback
  ok : Bool
  response : Message
deriving DecidableEq

/-- `RpcClient`, the activities under way, and the history: the callbacks of the calls that have
begun, the request ids they have drawn, what was handed to the connection, the messages that
`on_message` has found, and what was done about the callbacks. -/
structure World where
  connected : Bool
  nextRequestId : UInt32
  pendingRequests : UnorderedMap UInt32 PendingRequest
  recvBuffer : Bytes
  cleanupRunning : Bool
  cleanup : CleanupThread
  procs : Pool Proc
  issued : List RpcCallback
  requestId : ℕ → Option UInt32
  sent : List Bytes
  received : List Message
  settled : List Settlement

/-- A step.  The number `i` names an activity of the pool. -/
inductive Act where
  /-- `connect`, if it succeeds. -/
  | connect
  /-- `call` up to its look at `connection_`. -/
  | call (cmd : UInt16) (data : Bytes) (present : Bool) (timeoutSeconds : Int32)
  /-- The breaker, the limiter and, if both let the call through, `fetch_add`. -/
  | permit (i : ℕ) (allowed : Bool)
  | insert (i : ℕ) (now : ℤ)
  | send (i : ℕ)
  /-- `on_message` up to its loop. -/
  | receive (conn : ℕ) (data : Bytes)
  /-- One turn of that loop, up to the callback. -/
  | take (i : ℕ)
  | answer (i : ℕ)
  /-- `on_disconnect` up to its loop. -/
  | onDisconnect
  | fail (i : ℕ)
  | disconnect
  | join (i : ℕ)
  | close (i : ℕ)
  | swap (i : ℕ)
  | notify (i : ℕ)
  /-- `disconnect` returns. -/
  | return (i : ℕ)
  /-- The cleanup thread wakes up and, unless it is to stop, takes the expired requests. -/
  | wake (now : ℤ)
  | expire

/-- Whether a step makes a connection. -/
def Act.opens : Act → Bool
  | .connect => true
  | _ => false

namespace World

/-- The constructor. -/
def fresh : World :=
  ⟨false, 1, ∅, [], false, .absent, [], [], fun _ ↦ none, [], [], []⟩

def spawn (w : World) (p : Proc) : World := { w with procs := w.procs.spawn p }

def put (w : World) (i : ℕ) (p : Proc) : World := { w with procs := w.procs.put i p }

/-- The callback of the next call. -/
def nextCallback (w : World) (present : Bool) : RpcCallback := ⟨w.issued.length, present⟩

/-- A call begins. -/
def issue (w : World) (present : Bool) : World :=
  { w with issued := w.issued ++ [w.nextCallback present] }

/-- `if (callback) callback(ok, response)`. -/
def settle (w : World) (callback : RpcCallback) (ok : Bool) (response : Message) : World :=
  { w with settled := w.settled ++ [⟨callback, ok, response⟩] }

/-- The calls of a callback, in order. -/
def invocations (w : World) (callback : RpcCallback) : List Settlement :=
  w.settled.filter fun s ↦ s.callback == callback && callback.present

/-- The callbacks in the table. -/
def pendingCallbacks (m : UnorderedMap UInt32 PendingRequest) : List RpcCallback :=
  m.entries.map fun e ↦ e.2.callback

/-- The beginning of `on_message`.  There is one buffer for all connections. -/
def receive (w : World) (conn : ℕ) (data : Bytes) : World :=
  let buffer := w.recvBuffer ++ data
  let messages := (Parser.fresh.feed buffer).1
  let consumed := (messages.map fun m ↦ 4 + m.body.length).sum
  { w with
    recvBuffer := if consumed ≤ buffer.length then buffer.drop consumed else buffer
    received := w.received ++ messages
    procs := w.procs.spawn (.handling conn messages) }

/-- One turn of the loop of `on_message`, up to the callback. -/
def take (w : World) (i conn : ℕ) (msg : Message) (rest : List Message) : World :=
  match decodeRpcBody msg.body with
  | none => w.put i (.handling conn rest)
  | some (id, payload) =>
    match w.pendingRequests.lookup id with
    | none => w.put i (.handling conn rest)
    | some req =>
      { w with pendingRequests := w.pendingRequests.erase id }.put i
        (.answering conn req.callback ⟨msg.cmd, payload⟩ rest)

variable (defaultTimeoutSeconds : Int32)

/-- The deadline of a request that is made now. -/
def deadline (now : ℤ) (timeoutSeconds : Int32) : ℤ :=
  now + (if timeoutSeconds < 0 then defaultTimeoutSeconds else timeoutSeconds).toInt * 1000000000

/-- One step; `none` if the activity is not at that point. -/
def step (w : World) : Act → Option World
  | .connect =>
    -- to assign to a thread that has not been joined would end the process
    if w.cleanup = .absent then
      some { w with connected := true, cleanupRunning := true, cleanup := .waiting }
    else none
  | .call cmd data present timeout =>
    if w.connected then
      some ((w.issue present).spawn (.admitting cmd data (w.nextCallback present) timeout))
    else some ((w.issue present).settle (w.nextCallback present) false emptyMsg)
  | .permit i allowed =>
    match w.procs[i]? with
    | some (.admitting cmd data callback timeout) =>
      if allowed then
        let id := w.nextRequestId
        some ({ w with
          nextRequestId := id + 1
          requestId := Function.update w.requestId callback.call (some id) }.put i
            (.inserting id cmd data callback timeout))
      else some ((w.settle callback false emptyMsg).put i .done)
    | _ => none
  | .insert i now =>
    match w.procs[i]? with
    | some (.inserting id cmd data callback timeout) =>
      some ({ w with
        pendingRequests := w.pendingRequests.insert id
          ⟨callback, deadline defaultTimeoutSeconds now timeout⟩ }.put i (.sending id cmd data))
    | _ => none
  | .send i =>
    match w.procs[i]? with
    | some (.sending id cmd data) =>
      some ({ w with sent := w.sent ++ [serialize ⟨cmd, encodeRpcBody id data⟩] }.put i .done)
    | _ => none
  | .receive conn data => some (w.receive conn data)
  | .take i =>
    match w.procs[i]? with
    | some (.handling _ []) => some (w.put i .done)
    | some (.handling conn (msg :: rest)) => some (w.take i conn msg rest)
    | _ => none
  | .answer i =>
    match w.procs[i]? with
    | some (.answering conn callback response rest) =>
      some ((w.settle callback true response).put i (.handling conn rest))
    | _ => none
  | .onDisconnect =>
    some ({ w with pendingRequests := ∅ }.spawn (.failing (pendingCallbacks w.pendingRequests)))
  | .fail i =>
    match w.procs[i]? with
    | some (.failing []) => some ({ w with connected := false }.put i .done)
    | some (.failing (callback :: rest)) =>
      some ((w.settle callback false emptyMsg).put i (.failing rest))
    | _ => none
  | .disconnect => some ({ w with cleanupRunning := false }.spawn .joining)
  | .join i =>
    match w.procs[i]? with
    | some .joining =>
      if w.cleanup = .absent ∨ w.cleanup = .finished then
        some ({ w with cleanup := .absent }.put i .closing)
      else none
    | _ => none
  | .close i =>
    match w.procs[i]? with
    | some .closing => some ({ w with connected := false }.put i .swapping)
    | _ => none
  | .swap i =>
    match w.procs[i]? with
    | some .swapping =>
      some ({ w with pendingRequests := ∅ }.put i (.notifying (pendingCallbacks w.pendingRequests)))
    | _ => none
  | .notify i =>
    match w.procs[i]? with
    | some (.notifying (callback :: rest)) =>
      some ((w.settle callback false emptyMsg).put i (.notifying rest))
    | _ => none
  | .return i =>
    match w.procs[i]? with
    | some (.notifying []) => some (w.put i .done)
    | _ => none
  | .wake now =>
    if w.cleanup = .waiting then
      if w.cleanupRunning then
        let expired := w.pendingRequests.filter fun _ req ↦ decide (req.deadline ≤ now)
        some { w with
          pendingRequests := w.pendingRequests.filter fun _ req ↦ !decide (req.deadline ≤ now)
          cleanup := .expiring (pendingCallbacks expired) }
      else some { w with cleanup := .finished }
    else none
  | .expire =>
    match w.cleanup with
    | .expiring [] => some { w with cleanup := .waiting }
    | .expiring (callback :: rest) =>
      some { w.settle callback false emptyMsg with cleanup := .expiring rest }
    | _ => none

/-- The system of all interleavings. -/
def system : System World Act := System.ofPartial (step defaultTimeoutSeconds)

/-! ## The steps, one by one -/

variable {defaultTimeoutSeconds} {w w' : World} {a : Act}

/-- What a step can do, one case for each branch of `step`. -/
inductive Step (w : World) : Act → World → Prop
  | connect : w.cleanup = .absent →
      Step w .connect { w with connected := true, cleanupRunning := true, cleanup := .waiting }
  | call (cmd : UInt16) (data : Bytes) (present : Bool) (timeout : Int32) :
      Step w (.call cmd data present timeout)
        ((w.issue present).spawn (.admitting cmd data (w.nextCallback present) timeout))
  | callRefused (cmd : UInt16) (data : Bytes) (present : Bool) (timeout : Int32) :
      Step w (.call cmd data present timeout)
        ((w.issue present).settle (w.nextCallback present) false emptyMsg)
  | permit {i : ℕ} {cmd : UInt16} {data : Bytes} {callback : RpcCallback} {timeout : Int32} :
      w.procs[i]? = some (.admitting cmd data callback timeout) →
      Step w (.permit i true)
        ({ w with
          nextRequestId := w.nextRequestId + 1
          requestId := Function.update w.requestId callback.call (some w.nextRequestId) }.put i
            (.inserting w.nextRequestId cmd data callback timeout))
  | reject {i : ℕ} {cmd : UInt16} {data : Bytes} {callback : RpcCallback} {timeout : Int32} :
      w.procs[i]? = some (.admitting cmd data callback timeout) →
      Step w (.permit i false) ((w.settle callback false emptyMsg).put i .done)
  | insert {i : ℕ} {id : UInt32} {cmd : UInt16} {data : Bytes} {callback : RpcCallback}
      {timeout : Int32} (now deadline : ℤ) :
      w.procs[i]? = some (.inserting id cmd data callback timeout) →
      Step w (.insert i now)
        ({ w with pendingRequests := w.pendingRequests.insert id ⟨callback, deadline⟩ }.put i
          (.sending id cmd data))
  | send {i : ℕ} {id : UInt32} {cmd : UInt16} {data : Bytes} (sent : List Bytes) :
      w.procs[i]? = some (.sending id cmd data) →
        Step w (.send i) ({ w with sent := sent }.put i .done)
  | receive (conn : ℕ) (data : Bytes) : Step w (.receive conn data) (w.receive conn data)
  | takeNone {i conn : ℕ} : w.procs[i]? = some (.handling conn []) →
      Step w (.take i) (w.put i .done)
  | takeSkip {i conn : ℕ} {msg : Message} {rest : List Message} :
      w.procs[i]? = some (.handling conn (msg :: rest)) →
      Step w (.take i) (w.put i (.handling conn rest))
  | take {i conn : ℕ} {msg : Message} {rest : List Message} {id : UInt32} {payload : Bytes}
      {req : PendingRequest} : w.procs[i]? = some (.handling conn (msg :: rest)) →
      decodeRpcBody msg.body = some (id, payload) → w.pendingRequests.lookup id = some req →
      Step w (.take i) ({ w with pendingRequests := w.pendingRequests.erase id }.put i
        (.answering conn req.callback ⟨msg.cmd, payload⟩ rest))
  | answer {i conn : ℕ} {callback : RpcCallback} {response : Message} {rest : List Message} :
      w.procs[i]? = some (.answering conn callback response rest) →
      Step w (.answer i) ((w.settle callback true response).put i (.handling conn rest))
  | onDisconnect : Step w .onDisconnect
      ({ w with pendingRequests := ∅ }.spawn (.failing (pendingCallbacks w.pendingRequests)))
  | failEnd {i : ℕ} : w.procs[i]? = some (.failing []) →
      Step w (.fail i) ({ w with connected := false }.put i .done)
  | fail {i : ℕ} {callback : RpcCallback} {rest : List RpcCallback} :
      w.procs[i]? = some (.failing (callback :: rest)) →
      Step w (.fail i) ((w.settle callback false emptyMsg).put i (.failing rest))
  | disconnect : Step w .disconnect ({ w with cleanupRunning := false }.spawn .joining)
  | join {i : ℕ} : w.procs[i]? = some .joining → w.cleanup = .absent ∨ w.cleanup = .finished →
      Step w (.join i) ({ w with cleanup := .absent }.put i .closing)
  | close {i : ℕ} : w.procs[i]? = some .closing →
      Step w (.close i) ({ w with connected := false }.put i .swapping)
  | swap {i : ℕ} : w.procs[i]? = some .swapping →
      Step w (.swap i)
        ({ w with pendingRequests := ∅ }.put i (.notifying (pendingCallbacks w.pendingRequests)))
  | notify {i : ℕ} {callback : RpcCallback} {rest : List RpcCallback} :
      w.procs[i]? = some (.notifying (callback :: rest)) →
      Step w (.notify i) ((w.settle callback false emptyMsg).put i (.notifying rest))
  | return {i : ℕ} : w.procs[i]? = some (.notifying []) → Step w (.return i) (w.put i .done)
  | wake (now : ℤ) : w.cleanup = .waiting →
      Step w (.wake now)
        { w with
          pendingRequests := w.pendingRequests.filter fun _ req ↦ !decide (req.deadline ≤ now)
          cleanup := .expiring
            (pendingCallbacks (w.pendingRequests.filter fun _ req ↦ decide (req.deadline ≤ now))) }
  | wakeEnd (now : ℤ) : w.cleanup = .waiting → Step w (.wake now) { w with cleanup := .finished }
  | expireEnd : w.cleanup = .expiring [] → Step w .expire { w with cleanup := .waiting }
  | expire {callback : RpcCallback} {rest : List RpcCallback} :
      w.cleanup = .expiring (callback :: rest) →
      Step w .expire { w.settle callback false emptyMsg with cleanup := .expiring rest }

theorem step_take {i conn : ℕ} {msg : Message} {rest : List Message}
    (hp : w.procs[i]? = some (.handling conn (msg :: rest))) :
    Step w (.take i) (w.take i conn msg rest) := by
  rw [World.take]
  split
  · exact .takeSkip hp
  · next hdec =>
    split
    · exact .takeSkip hp
    · next hreq => exact .take hp hdec hreq

theorem step_cases (hs : step defaultTimeoutSeconds w a = some w') : Step w a w' := by
  cases a with
  | receive conn data | onDisconnect | disconnect =>
    cases hs
    constructor
  | connect =>
    simp only [step] at hs
    obtain ⟨hc, hs⟩ := Option.ite_none_right_eq_some.1 hs
    obtain rfl := Option.some.inj hs
    exact .connect hc
  | call cmd data present timeout =>
    simp only [step] at hs
    split at hs <;> cases hs
    · exact .call cmd data present timeout
    · exact .callRefused cmd data present timeout
  | permit i allowed =>
    simp only [step] at hs
    split at hs
    · next hp =>
      cases allowed
      · cases hs
        exact .reject hp
      · cases hs
        exact .permit hp
    · cases hs
  | take i =>
    simp only [step] at hs
    split at hs
    · next hp =>
      cases hs
      exact .takeNone hp
    · next hp =>
      cases hs
      exact step_take hp
    · cases hs
  | fail i =>
    simp only [step] at hs
    split at hs
    · next hp =>
      cases hs
      exact .failEnd hp
    · next hp =>
      cases hs
      exact .fail hp
    · cases hs
  | join i =>
    simp only [step] at hs
    split at hs
    · next hp =>
      obtain ⟨hc, hs⟩ := Option.ite_none_right_eq_some.1 hs
      obtain rfl := Option.some.inj hs
      exact .join hp hc
    · cases hs
  | insert i now | send i | answer i | close i | swap i | notify i | «return» i =>
    simp only [step] at hs
    split at hs
    · next hp =>
      cases hs
      constructor
      exact hp
    · cases hs
  | wake now =>
    simp only [step] at hs
    obtain ⟨hc, hs⟩ := Option.ite_none_right_eq_some.1 hs
    split at hs <;> cases hs
    · exact .wake now hc
    · exact .wakeEnd now hc
  | expire =>
    simp only [step] at hs
    split at hs
    · next hc =>
      cases hs
      exact .expireEnd hc
    · next hc =>
      cases hs
      exact .expire hc
    · cases hs

end World

end Rpc
end ChwellCore
