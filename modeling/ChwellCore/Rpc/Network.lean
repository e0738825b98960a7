import ChwellCore.Rpc.Delivery
import ChwellCore.Rpc.RpcServer

/-!
# A client, a server and the two wires between them

`RpcClient` and `RpcServer` talk over one TCP connection.  A `Network` is the client with all its
threads, the server with all its connections, and for each direction the bytes that one side has
written and the other has not read.  A step of it is a step of the client, a step of the server, or
a read of one of them, which takes any number of bytes from the front of its wire: the frames are
cut up and joined together as TCP likes, and the handlers of other connections, the other calls, the
cleanup thread and `disconnect` go on in between.

What is followed is one session.  The client connects once (a second `connect` would leave it with
the unread rest of the first stream in `recv_buffer_`), and once its `connection_` is gone nothing
that it sends arrives.  Bytes that are on a wire then may never be read.

The last three fields are not in the code: the arguments of the calls, the requests that were
written to the connection, and what the server did about the frames it has found.  The length of a
frame is sent in 16 bits, and `Fits` asks of the calls and of the handlers that theirs do fit.
-/

set_option autoImplicit false

namespace ChwellCore
namespace Rpc

open Protocol (Message Parser serialize)
open Protocol.Parser (frame consumed)

/-- The arguments of a call that go to the server. -/
structure Call where
  cmd : UInt16
  data : Bytes
deriving DecidableEq, Repr

/-- A call with its request id. -/
structure Request where
  id : UInt32
  call : Call
deriving DecidableEq, Repr

/-- The message that `call` makes of a request. -/
def Request.message (r : Request) : Message := ⟨r.call.cmd, encodeRpcBody r.id r.call.data⟩

/-- What was done about a message that the server has found: what its handler did, if it has one. -/
structure Execution where
  message : Message
  outcome : Option HandlerOutcome
deriving DecidableEq, Repr

namespace Execution

/-- What the handler was given. -/
def argument (e : Execution) : Bytes := handlerBody e.message.body

/-- What is sent back behind the request id. -/
def result (e : Execution) : Bytes := (e.outcome.map HandlerOutcome.response).getD []

/-- The response message. -/
def response (e : Execution) : Message :=
  ⟨e.message.cmd, requestIdPrefix e.message.body ++ e.result⟩

end Execution

/-- The requests that a step of the client writes to the connection. -/
def World.written (w : World) : Act → List Request
  | .send i =>
    match w.procs[i]? with
    | some (.sending id cmd data) => [⟨id, ⟨cmd, data⟩⟩]
    | _ => []
  | _ => []

/-- The calls that begin with a step of the client. -/
def Act.calls : Act → List Call
  | .call cmd data _ _ => [⟨cmd, data⟩]
  | _ => []

/-- What a step of the server does about a message of the connection. -/
def RpcServer.executions {Conn : Type} [DecidableEq Conn] (s : RpcServer Conn) (conn : Conn) :
    ServerOp Conn → List Execution
  | .process conn' handler =>
    match s.reading conn' with
    | some ⟨_, msg :: _⟩ =>
      if conn' = conn then
        [⟨msg, (s.findHandler msg.cmd handler).map fun run ↦ run (handlerBody msg.body)⟩]
      else []
    | _ => []
  | _ => []

/-- A client, a server, and the bytes on their way from one to the other.  `inbound` is what the
client has read. -/
structure Network (Conn : Type) where
  client : World
  server : RpcServer Conn
  opened : Bool
  toServer : Bytes
  toClient : Bytes
  inbound : Bytes
  calls : List Call
  requests : List Request
  executed : List Execution

/-- A step of the network. -/
inductive NetAct (Conn : Type) where
  /-- Of the client, other than a read. -/
  | client (a : Act)
  /-- The client reads some bytes. -/
  | clientRead (n : ℕ)
  /-- Of the server, other than a read or the end of the connection. -/
  | server (op : ServerOp Conn)
  /-- The server reads some bytes of the connection. -/
  | serverRead (n : ℕ)

namespace Network

variable {Conn : Type} [DecidableEq Conn] (defaultTimeoutSeconds : Int32) (conn : Conn)

def fresh : Network Conn := ⟨World.fresh, RpcServer.fresh, false, [], [], [], [], [], []⟩

/-- Whether the client does this by itself, in this session. -/
def clientMay (n : Network Conn) : Act → Bool
  | .receive _ _ => false
  | .connect => !n.opened
  | _ => true

/-- Whether the server does this without reading the connection or losing it. -/
def serverMay : ServerOp Conn → Bool
  | .receive conn' _ | .disconnect conn' => conn' ≠ conn
  | _ => true

/-- The network after a step of the client: what it has handed to its connection is on the wire. -/
def afterClient (n : Network Conn) (a : Act) (w : World) : Network Conn :=
  { n with
    client := w
    opened := n.opened || a.opens
    toServer :=
      if n.client.connected then n.toServer ++ (w.sent.drop n.client.sent.length).flatten
      else n.toServer
    calls := n.calls ++ a.calls
    requests := n.requests ++ if n.client.connected then n.client.written a else [] }

/-- The network after a step of the server. -/
def afterServer (n : Network Conn) (op : ServerOp Conn) (s : RpcServer Conn) : Network Conn :=
  { n with
    server := s
    toClient := n.toClient ++ ((s.sent conn).drop (n.server.sent conn).length).flatten
    executed := n.executed ++ n.server.executions conn op }

/-- One step; `none` if it cannot be taken. -/
def step (n : Network Conn) : NetAct Conn → Option (Network Conn)
  | .client a =>
    if n.clientMay a then
      (World.step defaultTimeoutSeconds n.client a).map (n.afterClient a)
    else none
  | .clientRead k =>
    some { n with
      client := n.client.receive 0 (n.toClient.take k)
      toClient := n.toClient.drop k
      inbound := n.inbound ++ n.toClient.take k }
  | .server op =>
    if serverMay conn op then (RpcServer.step n.server op).map (n.afterServer conn op) else none
  | .serverRead k =>
    (RpcServer.step n.server (.receive conn (n.toServer.take k))).map fun s ↦
      { n with server := s, toServer := n.toServer.drop k }

/-- What a step can do. -/
inductive Step (n : Network Conn) : NetAct Conn → Network Conn → Prop
  | client {a : Act} {w : World} : n.clientMay a = true →
      World.step defaultTimeoutSeconds n.client a = some w → Step n (.client a) (n.afterClient a w)
  | clientRead (k : ℕ) : Step n (.clientRead k) { n with
      client := n.client.receive 0 (n.toClient.take k)
      toClient := n.toClient.drop k
      inbound := n.inbound ++ n.toClient.take k }
  | server {op : ServerOp Conn} {s : RpcServer Conn} : serverMay conn op = true →
      RpcServer.step n.server op = some s → Step n (.server op) (n.afterServer conn op s)
  | serverRead (k : ℕ) {s : RpcServer Conn} :
      RpcServer.step n.server (.receive conn (n.toServer.take k)) = some s →
      Step n (.serverRead k) { n with server := s, toServer := n.toServer.drop k }

theorem step_cases {n n' : Network Conn} {a : NetAct Conn}
    (hs : step defaultTimeoutSeconds conn n a = some n') :
    Step defaultTimeoutSeconds conn n a n' := by
  cases a with
  | client a =>
    obtain ⟨hmay, hs⟩ := Option.ite_none_right_eq_some.1 hs
    obtain ⟨w, hw, rfl⟩ := Option.map_eq_some_iff.1 hs
    exact .client hmay hw
  | clientRead k =>
    cases hs
    exact .clientRead k
  | server op =>
    obtain ⟨hmay, hs⟩ := Option.ite_none_right_eq_some.1 hs
    obtain ⟨s, hw, rfl⟩ := Option.map_eq_some_iff.1 hs
    exact .server hmay hw
  | serverRead k =>
    obtain ⟨s, hw, rfl⟩ := Option.map_eq_some_iff.1 hs
    exact .serverRead k hw

/-- The system of all interleavings. -/
def system : System (Network Conn) (NetAct Conn) :=
  System.ofPartial (step defaultTimeoutSeconds conn)

/-- What is called and what is answered fits in a frame. -/
def Fits (n : Network Conn) : NetAct Conn → Prop
  | .client (.call _ data _ _) => data.length ≤ 65531
  | .server op => ∀ e ∈ n.server.executions conn op, e.result.length ≤ 65531
  | _ => True

end Network

/-! ## What the steps of the two sides write -/

variable {defaultTimeoutSeconds : Int32}

/-- **What a step of the client hands to the connection** is the messages of its requests. -/
theorem World.sent_step {w w' : World} {a : Act} (hs : step defaultTimeoutSeconds w a = some w') :
    w'.sent = w.sent ++ (w.written a).map fun r ↦ serialize r.message := by
  cases a with
  | send i =>
    simp only [step] at hs
    split at hs
    · next hp =>
      cases hs
      simp [written, hp, put, Request.message]
    · cases hs
  | take i =>
    simp only [step] at hs
    split at hs
    · cases hs
      exact (List.append_nil _).symm
    · cases hs
      simp only [take, written, List.map_nil, List.append_nil]
      split
      · rfl
      · split <;> rfl
    · cases hs
  | connect | call _ _ _ _ | permit _ _ | insert _ _ | receive _ _ | answer _ | onDisconnect
  | fail _ | disconnect | join _ | close _ | swap _ | notify _ | «return» _ | wake _ | expire =>
    simp only [step] at hs
    repeat' split at hs
    all_goals cases hs
    all_goals exact (List.append_nil _).symm

variable {Conn : Type} [DecidableEq Conn]

/-- **What a step of the server does on a connection**, unless it reads or ends it. -/
theorem RpcServer.executions_step {s s' : RpcServer Conn} {conn : Conn} {op : ServerOp Conn}
    (hop : Network.serverMay conn op = true) (hs : step s op = some s') :
    s'.stream conn = s.stream conn ∧
      s'.processed conn = s.processed conn ++ (s.executions conn op).map Execution.message ∧
      s'.sent conn =
        s.sent conn ++ (s.executions conn op).map fun e ↦ serialize e.response := by
  cases op with
  | registerMethod methodId present | unregisterMethod methodId | connect conn' =>
    cases hs
    simp [executions]
  | receive conn' data | disconnect conn' =>
    have hne : conn ≠ conn' := fun h ↦ by simp [Network.serverMay, h] at hop
    simp only [step] at hs
    split at hs <;> cases hs
    simp [executions, hne]
  | finish conn' =>
    simp only [step] at hs
    split at hs <;> cases hs
    simp [executions]
  | process conn' handler =>
    simp only [step] at hs
    split at hs
    · next messages msg left hbusy =>
      cases hs
      by_cases hconn : conn' = conn
      · subst hconn
        simp only [executions, hbusy, if_pos, Function.update_self, List.map_cons, List.map_nil,
          true_and]
        cases hfind : s.findHandler msg.cmd handler with
        | none => simp [Execution.response, Execution.result, respond]
        | some run => simp [Execution.response, Execution.result, respond]
      · simp [executions, hbusy, hconn, Function.update_of_ne (Ne.symm hconn)]
    · cases hs

end Rpc
end ChwellCore
