import ChwellCore.Lib.Pool
import ChwellCore.Lib.Run
import ChwellCore.Lib.UnorderedMap
import ChwellCore.Protocol.Message

/-!
# The gateway

A `GatewayForwarderComponent` opens a connection to a backend for each client that has something to
forward, and sends what the backend answers to that client.  It keeps two tables under one mutex,
`client_to_backend_` and `backend_to_client_`, both keyed by the address of a `TcpConnection`.

The threads are the read loops of the connections.  The loop of a client calls `forward` for each of
its messages and `on_disconnect` when it ends; the loop of a backend calls `on_backend_message` and
`on_backend_close`.  A critical section is one step, and so is what a thread does between two of
them that another thread could see: a `send`, the opening of a connection, the end of a loop.

Clients and backends are numbered in the order in which they come; what the code sees of them is an
address, and the address of a connection that is gone may be that of a new one.  The same is true
of descriptors.  `TcpConnection::close` closes the descriptor of a backend whose loop may be about
to read from it, and what the loop then reads is what arrives on another connection that got the
same descriptor (`BackendAct.read`).

`never_crosses` says that the tables are inverse to each other after every step, and that a client
is sent only what arrived on backends that were opened for it.
-/

set_option autoImplicit false

namespace ChwellCore
namespace Gateway

open Protocol (Message serialize)

/-- Where the thread of a client is. -/
inductive ClientAt where
  /-- It waits for the next message. -/
  | idle
  /-- `forward`, when it has found no backend. -/
  | missing (msg : Message)
  /-- `do_connect`, with a connection that is in no table yet. -/
  | connecting (msg : Message) (backend : ℕ)
  /-- `do_connect`, when the connection is in the tables. -/
  | posting (msg : Message) (backend : ℕ)
  /-- `forward`, with a backend. -/
  | sending (msg : Message) (backend : ℕ)
  /-- The read loop has ended, and `on_disconnect` is to be called. -/
  | closing
  /-- `on_disconnect` has returned. -/
  | gone
deriving DecidableEq

/-- A connection on which bytes arrive. -/
inductive Source where
  | client (i : ℕ)
  | backend (b : ℕ)
deriving DecidableEq

/-- Where the thread of a backend is. -/
inductive BackendAt where
  /-- The connection is there, but its read loop has not been posted. -/
  | made
  /-- The read loop has been posted. -/
  | posted
  /-- At the head of the loop. -/
  | checking
  /-- About to read. -/
  | reading
  /-- `on_backend_message` is to be called with these bytes, which arrived on `source`. -/
  | received (source : Source) (data : Bytes)
  /-- `on_backend_message`, when it has found a client. -/
  | sending (client : ℕ) (source : Source) (data : Bytes)
  /-- The loop has ended, and `on_backend_close` is to be called. -/
  | closing
  /-- `on_backend_close` has returned. -/
  | ended
deriving DecidableEq

/-- A client can have a backend in the tables while its thread is here. -/
def ClientAt.Settled : ClientAt → Prop
  | .idle | .posting _ _ | .sending _ _ | .closing => True
  | .missing _ | .connecting _ _ | .gone => False

theorem ClientAt.Settled.ne_gone {pc : ClientAt} (h : pc.Settled) : pc ≠ .gone := by
  rintro rfl
  exact h

/-- The `TcpConnection` of a client, and its thread. -/
structure Client (Addr : Type) where
  addr : Addr
  closed : Bool
  pc : ClientAt
deriving DecidableEq

/-- The `TcpConnection` of a backend, and its thread; `client` is the client that it was opened for.
-/
structure Backend (Addr : Type) where
  addr : Addr
  client : ℕ
  closed : Bool
  pc : BackendAt
deriving DecidableEq

/-- What was written to the socket of a client: the answer of the gateway itself, or bytes that
arrived on a connection. -/
structure Delivery where
  client : ℕ
  source : Option Source
  data : Bytes
deriving DecidableEq

/-- `GatewayForwarderComponent`, the connections, and what has been written to them. -/
structure Forwarder (Addr : Type) where
  clientToBackend : UnorderedMap Addr ℕ
  backendToClient : UnorderedMap Addr ℕ
  clients : Pool (Client Addr)
  backends : Pool (Backend Addr)
  delivered : List Delivery
  /-- Which backend was sent which bytes of which client. -/
  forwarded : List (ℕ × ℕ × Bytes)

/-- What the thread of a client does. -/
inductive ClientAct (Addr : Type) where
  /-- The critical section of `forward`. -/
  | forward (msg : Message)
  /-- `connect_backend` fails, and `written` bytes of the answer are written to the client. -/
  | connectFailed (written : ℕ)
  /-- `do_connect` makes a connection. -/
  | connect (addr : Addr)
  /-- The critical section of `do_connect`. -/
  | insert
  /-- `do_connect` posts the read loop of the backend. -/
  | post
  /-- `send` of the backend, of which `written` bytes are written. -/
  | send (written : ℕ)
  /-- The read loop ends. -/
  | hangUp
  /-- `on_disconnect`. -/
  | onDisconnect

/-- What the thread of a backend does. -/
inductive BackendAct where
  /-- The read loop starts. -/
  | start
  /-- The condition of the loop. -/
  | check
  /-- `read` returns bytes that arrived on connection `source`. -/
  | read (source : Source) (data : Bytes)
  /-- `read` returns no bytes. -/
  | readEnd
  /-- The critical section of `on_backend_message`. -/
  | onBackendMessage
  /-- `send` of the client, of which `written` bytes are written. -/
  | send (written : ℕ)
  /-- `on_backend_close`. -/
  | onBackendClose

/-- A step of one of the threads. -/
inductive GatewayStep (Addr : Type) where
  /-- The server accepts a client. -/
  | accept (addr : Addr)
  | client (i : ℕ) (act : ClientAct Addr)
  | backend (b : ℕ) (act : BackendAct)

/-- What `TcpConnection::send` writes; `write` may fail after some of the bytes. -/
def send (closed : Bool) (data : Bytes) (written : ℕ) : Bytes :=
  if closed then [] else data.take written

/-- What `forward` answers when there is no backend. -/
def unavailable (msg : Message) : Message := ⟨msg.cmd, lit "gateway: backend unavailable"⟩

namespace Forwarder

variable {Addr : Type} [DecidableEq Addr]

/-- The component after its constructor. -/
def fresh : Forwarder Addr := ⟨∅, ∅, [], [], [], []⟩

/-- No connection whose thread still runs has this address. -/
def Free (s : Forwarder Addr) (addr : Addr) : Prop :=
  (∀ c ∈ s.clients, c.addr = addr → c.pc = .gone) ∧
    ∀ k ∈ s.backends, k.addr = addr → k.pc = .ended

instance decidableFree (s : Forwarder Addr) (addr : Addr) : Decidable (s.Free addr) :=
  inferInstanceAs (Decidable (_ ∧ _))

/-- Client `i` is at a new place. -/
def setClient (s : Forwarder Addr) (i : ℕ) (c : Client Addr) : Forwarder Addr :=
  { s with clients := s.clients.put i c }

/-- Backend `b` is at a new place. -/
def setBackend (s : Forwarder Addr) (b : ℕ) (k : Backend Addr) : Forwarder Addr :=
  { s with backends := s.backends.put b k }

/-- Both tables get an entry. -/
def link (s : Forwarder Addr) (i b : ℕ) (clientAddr backendAddr : Addr) : Forwarder Addr :=
  { s with
    clientToBackend := s.clientToBackend.insert clientAddr b
    backendToClient := s.backendToClient.insert backendAddr i }

/-- Both tables lose an entry. -/
def unlink (s : Forwarder Addr) (clientAddr backendAddr : Addr) : Forwarder Addr :=
  { s with
    clientToBackend := s.clientToBackend.erase clientAddr
    backendToClient := s.backendToClient.erase backendAddr }

/-- Bytes are written to a client. -/
def deliver (s : Forwarder Addr) (d : Delivery) : Forwarder Addr :=
  { s with delivered := s.delivered ++ [d] }

/-- `on_disconnect` of the client at an address: the tables, and the backend, which is closed. -/
def onDisconnect (s : Forwarder Addr) (addr : Addr) : Forwarder Addr :=
  match s.clientToBackend.lookup addr with
  | none => s
  | some b =>
    match s.backends[b]? with
    | none => s
    | some k => (s.unlink addr k.addr).setBackend b { k with closed := true }

/-- `on_backend_close` of the backend at an address. -/
def onBackendClose (s : Forwarder Addr) (addr : Addr) : Forwarder Addr :=
  match s.backendToClient.lookup addr with
  | none => s
  | some i =>
    match s.clients[i]? with
    | none => s
    | some c => s.unlink c.addr addr

/-- A step of the thread of client `i`. -/
def clientStep (s : Forwarder Addr) (i : ℕ) (c : Client Addr) :
    ClientAct Addr → Option (Forwarder Addr)
  | .forward msg =>
    match c.pc with
    | .idle =>
      match s.clientToBackend.lookup c.addr with
      | some b => some (s.setClient i { c with pc := .sending msg b })
      | none => some (s.setClient i { c with pc := .missing msg })
    | _ => none
  | .connectFailed written =>
    match c.pc with
    | .missing msg =>
      let data := send c.closed (serialize (unavailable msg)) written
      some ((s.deliver ⟨i, none, data⟩).setClient i { c with pc := .idle })
    | _ => none
  | .connect addr =>
    match c.pc with
    | .missing msg =>
      if s.Free addr then
        some ({ s with backends := s.backends.spawn ⟨addr, i, false, .made⟩ }.setClient i
          { c with pc := .connecting msg s.backends.length })
      else none
    | _ => none
  | .insert =>
    match c.pc with
    | .connecting msg b =>
      match s.backends[b]? with
      | some k => some ((s.setClient i { c with pc := .posting msg b }).link i b c.addr k.addr)
      | none => none
    | _ => none
  | .post =>
    match c.pc with
    | .posting msg b =>
      match s.backends[b]? with
      | some k =>
        some ((s.setBackend b { k with pc := .posted }).setClient i { c with pc := .sending msg b })
      | none => none
    | _ => none
  | .send written =>
    match c.pc with
    | .sending msg b =>
      match s.backends[b]? with
      | some k =>
        let data := send k.closed (serialize msg) written
        some ({ s with forwarded := s.forwarded ++ [(b, i, data)] }.setClient i
          { c with pc := .idle })
      | none => none
    | _ => none
  | .hangUp =>
    match c.pc with
    | .idle => some (s.setClient i { c with closed := true, pc := .closing })
    | _ => none
  | .onDisconnect =>
    match c.pc with
    | .closing => some ((s.onDisconnect c.addr).setClient i { c with pc := .gone })
    | _ => none

/-- A step of the thread of backend `b`. -/
def backendStep (s : Forwarder Addr) (b : ℕ) (k : Backend Addr) :
    BackendAct → Option (Forwarder Addr)
  | .start =>
    match k.pc with
    | .posted => some (s.setBackend b { k with pc := .checking })
    | _ => none
  | .check =>
    match k.pc with
    | .checking =>
      if k.closed then some (s.setBackend b { k with pc := .closing })
      else some (s.setBackend b { k with pc := .reading })
    | _ => none
  | .read source data =>
    match k.pc with
    | .reading =>
      -- Only a descriptor that has been closed can be that of another connection.
      if source = .backend b ∨ k.closed then
        some (s.setBackend b { k with pc := .received source data })
      else none
    | _ => none
  | .readEnd =>
    match k.pc with
    | .reading => some (s.setBackend b { k with closed := true, pc := .closing })
    | _ => none
  | .onBackendMessage =>
    match k.pc with
    | .received source data =>
      match s.backendToClient.lookup k.addr with
      | some i => some (s.setBackend b { k with pc := .sending i source data })
      | none => some (s.setBackend b { k with pc := .checking })
    | _ => none
  | .send written =>
    match k.pc with
    | .sending i source data =>
      match s.clients[i]? with
      | some c =>
        some ((s.deliver ⟨i, some source, send c.closed data written⟩).setBackend b
          { k with pc := .checking })
      | none => none
    | _ => none
  | .onBackendClose =>
    match k.pc with
    | .closing => some ((s.onBackendClose k.addr).setBackend b { k with pc := .ended })
    | _ => none

/-- One step; `none` if there is no such thread at that place. -/
def step (s : Forwarder Addr) : GatewayStep Addr → Option (Forwarder Addr)
  | .accept addr =>
    if s.Free addr then some { s with clients := s.clients.spawn ⟨addr, false, .idle⟩ } else none
  | .client i act => s.clients[i]?.bind fun c ↦ s.clientStep i c act
  | .backend b act => s.backends[b]?.bind fun k ↦ s.backendStep b k act

/-- The system of all interleavings. -/
def system : System (Forwarder Addr) (GatewayStep Addr) := System.ofPartial step

/-- What a step of client `i` can do. -/
inductive ClientStep (s : Forwarder Addr) (i : ℕ) (c : Client Addr) :
    ClientAct Addr → Forwarder Addr → Prop
  | forward {msg : Message} {b : ℕ} : c.pc = .idle → s.clientToBackend.lookup c.addr = some b →
      ClientStep s i c (.forward msg) (s.setClient i { c with pc := .sending msg b })
  | forwardMissing {msg : Message} : c.pc = .idle → s.clientToBackend.lookup c.addr = none →
      ClientStep s i c (.forward msg) (s.setClient i { c with pc := .missing msg })
  | connectFailed {msg : Message} {written : ℕ} : c.pc = .missing msg →
      ClientStep s i c (.connectFailed written)
        ((s.deliver ⟨i, none, send c.closed (serialize (unavailable msg)) written⟩).setClient i
          { c with pc := .idle })
  | connect {msg : Message} {addr : Addr} : c.pc = .missing msg → s.Free addr →
      ClientStep s i c (.connect addr)
        ({ s with backends := s.backends.spawn ⟨addr, i, false, .made⟩ }.setClient i
          { c with pc := .connecting msg s.backends.length })
  | insert {msg : Message} {b : ℕ} {k : Backend Addr} : c.pc = .connecting msg b →
      s.backends[b]? = some k →
      ClientStep s i c .insert
        ((s.setClient i { c with pc := .posting msg b }).link i b c.addr k.addr)
  | post {msg : Message} {b : ℕ} {k : Backend Addr} : c.pc = .posting msg b →
      s.backends[b]? = some k →
      ClientStep s i c .post
        ((s.setBackend b { k with pc := .posted }).setClient i { c with pc := .sending msg b })
  | send {msg : Message} {b written : ℕ} {k : Backend Addr} : c.pc = .sending msg b →
      s.backends[b]? = some k →
      ClientStep s i c (.send written)
        ({ s with forwarded :=
                    s.forwarded ++ [(b, i, send k.closed (serialize msg) written)] }.setClient i
          { c with pc := .idle })
  | hangUp : c.pc = .idle →
      ClientStep s i c .hangUp (s.setClient i { c with closed := true, pc := .closing })
  | onDisconnect : c.pc = .closing →
      ClientStep s i c .onDisconnect ((s.onDisconnect c.addr).setClient i { c with pc := .gone })

/-- What a step of backend `b` can do. -/
inductive BackendStep (s : Forwarder Addr) (b : ℕ) (k : Backend Addr) :
    BackendAct → Forwarder Addr → Prop
  | start : k.pc = .posted →
      BackendStep s b k .start (s.setBackend b { k with pc := .checking })
  | checkClosed : k.pc = .checking → k.closed = true →
      BackendStep s b k .check (s.setBackend b { k with pc := .closing })
  | check : k.pc = .checking → k.closed = false →
      BackendStep s b k .check (s.setBackend b { k with pc := .reading })
  | read {source : Source} {data : Bytes} : k.pc = .reading →
      source = .backend b ∨ k.closed = true →
      BackendStep s b k (.read source data)
        (s.setBackend b { k with pc := .received source data })
  | readEnd : k.pc = .reading →
      BackendStep s b k .readEnd (s.setBackend b { k with closed := true, pc := .closing })
  | onBackendMessage {source : Source} {data : Bytes} {i : ℕ} : k.pc = .received source data →
      s.backendToClient.lookup k.addr = some i →
      BackendStep s b k .onBackendMessage
        (s.setBackend b { k with pc := .sending i source data })
  | drop {source : Source} {data : Bytes} : k.pc = .received source data →
      s.backendToClient.lookup k.addr = none →
      BackendStep s b k .onBackendMessage (s.setBackend b { k with pc := .checking })
  | send {source : Source} {data : Bytes} {i written : ℕ} {c : Client Addr} :
      k.pc = .sending i source data → s.clients[i]? = some c →
      BackendStep s b k (.send written)
        ((s.deliver ⟨i, some source, Gateway.send c.closed data written⟩).setBackend b
          { k with pc := .checking })
  | onBackendClose : k.pc = .closing →
      BackendStep s b k .onBackendClose
        ((s.onBackendClose k.addr).setBackend b { k with pc := .ended })

theorem clientStep_cases {s t : Forwarder Addr} {i : ℕ} {c : Client Addr} {act : ClientAct Addr}
    (h : s.clientStep i c act = some t) : ClientStep s i c act t := by
  cases act with
  | forward msg =>
    simp only [clientStep] at h
    split at h
    · next hpc =>
      split at h
      · next hb =>
        cases h
        exact .forward hpc hb
      · next hb =>
        cases h
        exact .forwardMissing hpc hb
    · cases h
  | connectFailed written =>
    simp only [clientStep] at h
    split at h
    · next hpc =>
      cases h
      exact .connectFailed hpc
    · cases h
  | connect addr =>
    simp only [clientStep] at h
    split at h
    · next hpc =>
      obtain ⟨hfree, h⟩ := Option.ite_none_right_eq_some.1 h
      obtain rfl := Option.some.inj h
      exact .connect hpc hfree
    · cases h
  | insert =>
    simp only [clientStep] at h
    split at h
    · next hpc =>
      split at h
      · next hk =>
        cases h
        exact .insert hpc hk
      · cases h
    · cases h
  | post =>
    simp only [clientStep] at h
    split at h
    · next hpc =>
      split at h
      · next hk =>
        cases h
        exact .post hpc hk
      · cases h
    · cases h
  | send written =>
    simp only [clientStep] at h
    split at h
    · next hpc =>
      split at h
      · next hk =>
        cases h
        exact .send hpc hk
      · cases h
    · cases h
  | hangUp =>
    simp only [clientStep] at h
    split at h
    · next hpc =>
      cases h
      exact .hangUp hpc
    · cases h
  | onDisconnect =>
    simp only [clientStep] at h
    split at h
    · next hpc =>
      cases h
      exact .onDisconnect hpc
    · cases h

theorem backendStep_cases {s t : Forwarder Addr} {b : ℕ} {k : Backend Addr} {act : BackendAct}
    (h : s.backendStep b k act = some t) : BackendStep s b k act t := by
  cases act with
  | start =>
    simp only [backendStep] at h
    split at h
    · next hpc =>
      cases h
      exact .start hpc
    · cases h
  | check =>
    simp only [backendStep] at h
    split at h
    · next hpc =>
      split at h
      · next hclosed =>
        cases h
        exact .checkClosed hpc hclosed
      · next hclosed =>
        cases h
        exact .check hpc (Bool.eq_false_iff.2 hclosed)
    · cases h
  | read source data =>
    simp only [backendStep] at h
    split at h
    · next hpc =>
      obtain ⟨hsource, h⟩ := Option.ite_none_right_eq_some.1 h
      obtain rfl := Option.some.inj h
      exact .read hpc hsource
    · cases h
  | readEnd =>
    simp only [backendStep] at h
    split at h
    · next hpc =>
      cases h
      exact .readEnd hpc
    · cases h
  | onBackendMessage =>
    simp only [backendStep] at h
    split at h
    · next hpc =>
      split at h
      · next hi =>
        cases h
        exact .onBackendMessage hpc hi
      · next hi =>
        cases h
        exact .drop hpc hi
    · cases h
  | send written =>
    simp only [backendStep] at h
    split at h
    · next hpc =>
      split at h
      · next hc =>
        cases h
        exact .send hpc hc
      · cases h
    · cases h
  | onBackendClose =>
    simp only [backendStep] at h
    split at h
    · next hpc =>
      cases h
      exact .onBackendClose hpc
    · cases h

/-! ## Who is connected to whom -/

/-- Backend `b` was opened for client `i`. -/
def OpenedFor (s : Forwarder Addr) (b i : ℕ) : Prop :=
  (s.backends[b]?).map Backend.client = some i

/-- The tables connect client `i` and backend `b`. -/
structure Linked (s : Forwarder Addr) (i b : ℕ) (c : Client Addr) (k : Backend Addr) : Prop where
  client : s.clients[i]? = some c
  backend : s.backends[b]? = some k
  openedFor : k.client = i
  toBackend : s.clientToBackend.lookup c.addr = some b
  toClient : s.backendToClient.lookup k.addr = some i
  settled : c.pc.Settled
  running : k.pc ≠ .ended

/-- The tables are inverse to each other: the way from an address through one table to the address
of the connection that it has there, and through the other table to the address of the one that it
has for that, comes back. -/
structure Inverse (s : Forwarder Addr) : Prop where
  toBackend : ∀ a b, s.clientToBackend.lookup a = some b → ∃ k, s.backends[b]? = some k ∧
    ∃ i c, s.backendToClient.lookup k.addr = some i ∧ s.clients[i]? = some c ∧ c.addr = a
  toClient : ∀ a i, s.backendToClient.lookup a = some i → ∃ c, s.clients[i]? = some c ∧
    ∃ b k, s.clientToBackend.lookup c.addr = some b ∧ s.backends[b]? = some k ∧ k.addr = a

/-- What the place of a client says about the backend in its hands. -/
def ClientOk (s : Forwarder Addr) (i : ℕ) : ClientAt → Prop
  | .connecting _ b | .posting _ b =>
    ∃ k, s.backends[b]? = some k ∧ k.client = i ∧ k.closed = false ∧ k.pc = .made
  | .sending _ b => s.OpenedFor b i
  | _ => True

/-- What the place of a backend says about the bytes in its hands, and that a backend that another
thread has closed is in the tables no more. -/
structure BackendOk (backendToClient : UnorderedMap Addr ℕ) (b : ℕ) (k : Backend Addr) : Prop where
  closed : k.closed = true → k.pc ≠ .closing → k.pc ≠ .ended → backendToClient.lookup k.addr = none
  received : ∀ source data, k.pc = .received source data →
    source = .backend b ∨ k.closed = true
  sending : ∀ i source data, k.pc = .sending i source data →
    source = .backend b ∧ k.client = i

/-- The invariant. -/
structure Inv (s : Forwarder Addr) : Prop where
  clients_apart : ∀ (i j : ℕ) (c d : Client Addr), s.clients[i]? = some c →
    s.clients[j]? = some d → c.pc ≠ .gone → d.pc ≠ .gone → c.addr = d.addr → i = j
  backends_apart : ∀ (b b' : ℕ) (k k' : Backend Addr), s.backends[b]? = some k →
    s.backends[b']? = some k' → k.pc ≠ .ended → k'.pc ≠ .ended → k.addr = k'.addr → b = b'
  client_ok : ∀ (i : ℕ) (c : Client Addr), s.clients[i]? = some c → s.ClientOk i c.pc
  backend_ok : ∀ (b : ℕ) (k : Backend Addr), s.backends[b]? = some k →
    BackendOk s.backendToClient b k
  to_backend : ∀ a b, s.clientToBackend.lookup a = some b → ∃ i c k, s.Linked i b c k ∧ c.addr = a
  to_client : ∀ a i, s.backendToClient.lookup a = some i → ∃ b c k, s.Linked i b c k ∧ k.addr = a
  delivered : ∀ d ∈ s.delivered, ∀ source, d.source = some source →
    ∃ b, source = .backend b ∧ s.OpenedFor b d.client
  forwarded : ∀ x ∈ s.forwarded, s.OpenedFor x.1 x.2.1

omit [DecidableEq Addr] in
theorem openedFor_iff {s : Forwarder Addr} {b i : ℕ} {k : Backend Addr}
    (hk : s.backends[b]? = some k) : s.OpenedFor b i ↔ k.client = i := by
  rw [OpenedFor, hk, Option.map_some, Option.some_inj]

omit [DecidableEq Addr] in
/-- A backend that moves on is still one that was opened for its client. -/
theorem OpenedFor.setBackend {s : Forwarder Addr} {b : ℕ} {k k' : Backend Addr}
    (hk : s.backends[b]? = some k) (hclient : k'.client = k.client) {b₀ i : ℕ}
    (h : s.OpenedFor b₀ i) : (s.setBackend b k').OpenedFor b₀ i := by
  unfold OpenedFor at h ⊢
  show ((s.backends.set b k')[b₀]?).map Backend.client = some i
  by_cases hb : b = b₀
  · subst hb
    have hlt : b < s.backends.length := (List.getElem?_eq_some_iff.1 hk).1
    rw [hk] at h
    rw [List.getElem?_set_self hlt, Option.map_some, hclient]
    exact h
  · rw [List.getElem?_set_ne hb]
    exact h

/-- A client and a backend that the tables connect are known by either of their addresses. -/
theorem Inv.linked_of_client {s : Forwarder Addr} (h : s.Inv) {i b : ℕ} {c : Client Addr}
    (hc : s.clients[i]? = some c) (hgone : c.pc ≠ .gone)
    (hb : s.clientToBackend.lookup c.addr = some b) : ∃ k, s.Linked i b c k := by
  obtain ⟨j, d, k, hl, haddr⟩ := h.to_backend c.addr b hb
  have hij : j = i := h.clients_apart j i d c hl.client hc hl.settled.ne_gone hgone haddr
  subst hij
  have hcd : d = c := Option.some.inj (hl.client.symm.trans hc)
  exact ⟨k, hcd ▸ hl⟩

theorem Inv.linked_of_backend {s : Forwarder Addr} (h : s.Inv) {b i : ℕ} {k : Backend Addr}
    (hk : s.backends[b]? = some k) (hended : k.pc ≠ .ended)
    (hi : s.backendToClient.lookup k.addr = some i) : ∃ c, s.Linked i b c k := by
  obtain ⟨b', c, k', hl, haddr⟩ := h.to_client k.addr i hi
  have hbb : b' = b := h.backends_apart b' b k' k hl.backend hk hl.running hended haddr
  subst hbb
  have hkk : k' = k := Option.some.inj (hl.backend.symm.trans hk)
  exact ⟨c, hkk ▸ hl⟩

/-- What is in the tables is linked after a step that leaves them, and the links. -/
theorem Inv.links {s t : Forwarder Addr} (h : s.Inv)
    (hclients : t.clientToBackend = s.clientToBackend)
    (hbackends : t.backendToClient = s.backendToClient)
    (hlinked : ∀ {i b c k}, s.Linked i b c k →
      ∃ c' k', t.Linked i b c' k' ∧ c'.addr = c.addr ∧ k'.addr = k.addr) :
    (∀ a b, t.clientToBackend.lookup a = some b → ∃ i c k, t.Linked i b c k ∧ c.addr = a) ∧
      ∀ a i, t.backendToClient.lookup a = some i → ∃ b c k, t.Linked i b c k ∧ k.addr = a := by
  constructor
  · intro a b hb
    rw [hclients] at hb
    obtain ⟨i, c, k, hl, hca⟩ := h.to_backend a b hb
    obtain ⟨c', k', hl', hc', _⟩ := hlinked hl
    exact ⟨i, c', k', hl', hc'.trans hca⟩
  · intro a i hi
    rw [hbackends] at hi
    obtain ⟨b, c, k, hl, hka⟩ := h.to_client a i hi
    obtain ⟨c', k', hl', _, hk'⟩ := hlinked hl
    exact ⟨b, c', k', hl', hk'.trans hka⟩

omit [DecidableEq Addr] in
/-- What the place of a client says stays true when its backend, if it has just been made, stays
where it is. -/
theorem ClientOk.of_backends {s t : Forwarder Addr} {i : ℕ} {pc : ClientAt} (h : s.ClientOk i pc)
    (hmade : ∀ (msg : Message) (b : ℕ) (k : Backend Addr),
      pc = .connecting msg b ∨ pc = .posting msg b → s.backends[b]? = some k → k.client = i →
      k.pc = .made → t.backends[b]? = some k)
    (hopen : ∀ {b : ℕ}, s.OpenedFor b i → t.OpenedFor b i) : t.ClientOk i pc := by
  cases pc with
  | connecting msg b =>
    obtain ⟨k, hk, hi, hclosed, hpc⟩ := h
    exact ⟨k, hmade msg b k (.inl rfl) hk hi hpc, hi, hclosed, hpc⟩
  | posting msg b =>
    obtain ⟨k, hk, hi, hclosed, hpc⟩ := h
    exact ⟨k, hmade msg b k (.inr rfl) hk hi hpc, hi, hclosed, hpc⟩
  | sending msg b => exact hopen h
  | idle | missing msg | closing | gone => trivial

section Client

variable {s : Forwarder Addr} {i : ℕ} {c c' : Client Addr} (hc : s.clients[i]? = some c)
  (haddr : c'.addr = c.addr)

include hc haddr

theorem Linked.setClient (hsettled : ¬ c'.pc.Settled → s.clientToBackend.lookup c.addr = none)
    {j b : ℕ} {d : Client Addr} {k : Backend Addr} (hl : s.Linked j b d k) :
    ∃ d' k', (s.setClient i c').Linked j b d' k' ∧ d'.addr = d.addr ∧ k'.addr = k.addr := by
  by_cases hij : i = j
  · subst hij
    have hcd : d = c := Option.some.inj (hl.client.symm.trans hc)
    subst hcd
    have hlt : i < s.clients.length := (List.getElem?_eq_some_iff.1 hc).1
    refine ⟨c', k, ⟨List.getElem?_set_self hlt, hl.backend, hl.openedFor, ?_, hl.toClient, ?_,
      hl.running⟩, haddr, rfl⟩
    · rw [haddr]
      exact hl.toBackend
    · by_contra hnot
      exact absurd (hl.toBackend.symm.trans (hsettled hnot)) (by simp)
  · exact ⟨d, k, { hl with client := (List.getElem?_set_ne hij).trans hl.client }, rfl, rfl⟩

/-- A client moves on. -/
theorem Inv.setClient (h : s.Inv) (hgone : c.pc ≠ .gone)
    (hsettled : ¬ c'.pc.Settled → s.clientToBackend.lookup c.addr = none)
    (hok : s.ClientOk i c'.pc) : (s.setClient i c').Inv := by
  have hlinks := h.links (t := s.setClient i c') rfl rfl fun hl ↦ hl.setClient hc haddr hsettled
  exact
    { clients_apart := Pool.apart_put h.clients_apart hc hgone haddr
      backends_apart := h.backends_apart
      client_ok := Pool.forall_put (fun j d _ hd ↦ h.client_ok j d hd) hok
      backend_ok := h.backend_ok
      to_backend := hlinks.1
      to_client := hlinks.2
      delivered := h.delivered
      forwarded := h.forwarded }

end Client

section Backend

variable {s : Forwarder Addr} {b : ℕ} {k k' : Backend Addr} (hk : s.backends[b]? = some k)
  (haddr : k'.addr = k.addr) (hclient : k'.client = k.client)

include hk haddr hclient

theorem Linked.setBackend (hended : k'.pc = .ended → s.backendToClient.lookup k.addr = none)
    {i b₀ : ℕ} {c : Client Addr} {k₀ : Backend Addr} (hl : s.Linked i b₀ c k₀) :
    ∃ c' k₁, (s.setBackend b k').Linked i b₀ c' k₁ ∧ c'.addr = c.addr ∧ k₁.addr = k₀.addr := by
  by_cases hb : b = b₀
  · subst hb
    have hkk : k₀ = k := Option.some.inj (hl.backend.symm.trans hk)
    subst hkk
    have hlt : b < s.backends.length := (List.getElem?_eq_some_iff.1 hk).1
    refine ⟨c, k', ⟨hl.client, List.getElem?_set_self hlt, hclient.trans hl.openedFor,
      hl.toBackend, ?_, hl.settled, ?_⟩, rfl, haddr⟩
    · rw [haddr]
      exact hl.toClient
    · intro hpc
      exact absurd (hl.toClient.symm.trans (hended hpc)) (by simp)
  · exact ⟨c, k₀, { hl with backend := (List.getElem?_set_ne hb).trans hl.backend }, rfl, rfl⟩

/-- A backend moves on.  It must not be in the hands of the client that has just made it. -/
theorem Inv.setBackend (h : s.Inv) (hrunning : k.pc ≠ .ended)
    (hended : k'.pc = .ended → s.backendToClient.lookup k.addr = none)
    (hfree : k.pc = .made → ∀ (c : Client Addr) (msg : Message),
      s.clients[k.client]? = some c → c.pc ≠ .connecting msg b ∧ c.pc ≠ .posting msg b)
    (hok : BackendOk s.backendToClient b k') : (s.setBackend b k').Inv := by
  have hopen : ∀ {b₀ i}, s.OpenedFor b₀ i → (s.setBackend b k').OpenedFor b₀ i :=
    OpenedFor.setBackend hk hclient
  have hlinks := h.links (t := s.setBackend b k') rfl rfl fun hl ↦
    hl.setBackend hk haddr hclient hended
  exact
    { clients_apart := h.clients_apart
      backends_apart := Pool.apart_put h.backends_apart hk hrunning haddr
      client_ok := by
        intro i c hc
        refine (h.client_ok i c hc).of_backends (fun msg b₀ k₀ hat hk₀ hi hmade ↦ ?_) hopen
        have hne : b ≠ b₀ := by
          rintro rfl
          have hkk : k₀ = k := Option.some.inj (hk₀.symm.trans hk)
          rw [hkk] at hi hmade
          rw [← hi] at hc
          exact hat.elim (hfree hmade c msg hc).1 (hfree hmade c msg hc).2
        exact (List.getElem?_set_ne hne).trans hk₀
      backend_ok := Pool.forall_put (fun b₀ k₀ _ hk₀ ↦ h.backend_ok b₀ k₀ hk₀) hok
      to_backend := hlinks.1
      to_client := hlinks.2
      delivered := by
        intro d hd source hsource
        obtain ⟨b₀, hb₀, hfor⟩ := h.delivered d hd source hsource
        exact ⟨b₀, hb₀, hopen hfor⟩
      forwarded := fun x hx ↦ hopen (h.forwarded x hx) }

end Backend

/-- A client and its new backend get into the tables. -/
theorem Inv.link {s : Forwarder Addr} (h : s.Inv) {i b : ℕ} {c : Client Addr} {k : Backend Addr}
    (hc : s.clients[i]? = some c) (hk : s.backends[b]? = some k) (hclient : k.client = i)
    (hsettled : c.pc.Settled) (hclosed : k.closed = false) (hrunning : k.pc ≠ .ended)
    (hb : s.clientToBackend.lookup c.addr = none) (hi : s.backendToClient.lookup k.addr = none) :
    (s.link i b c.addr k.addr).Inv := by
  have hnew : (s.link i b c.addr k.addr).Linked i b c k :=
    ⟨hc, hk, hclient, AList.lookup_insert _, AList.lookup_insert _, hsettled, hrunning⟩
  have hold : ∀ {j b₀ d k₀}, s.Linked j b₀ d k₀ → (s.link i b c.addr k.addr).Linked j b₀ d k₀ := by
    intro j b₀ d k₀ hl
    have hd : d.addr ≠ c.addr := fun he ↦ by
      have hsome := hl.toBackend
      rw [he, hb] at hsome
      cases hsome
    have hk₀ : k₀.addr ≠ k.addr := fun he ↦ by
      have hsome := hl.toClient
      rw [he, hi] at hsome
      cases hsome
    exact ⟨hl.client, hl.backend, hl.openedFor, (AList.lookup_insert_ne hd).trans hl.toBackend,
      (AList.lookup_insert_ne hk₀).trans hl.toClient, hl.settled, hl.running⟩
  exact
    { clients_apart := h.clients_apart
      backends_apart := h.backends_apart
      client_ok := h.client_ok
      backend_ok := by
        intro b₀ k₀ hk₀
        have hok := h.backend_ok b₀ k₀ hk₀
        refine ⟨fun hcl hpc hpc' ↦ ?_, hok.received, hok.sending⟩
        have hne : k₀.addr ≠ k.addr := by
          intro he
          have hbb := h.backends_apart b₀ b k₀ k hk₀ hk hpc' hrunning he
          subst hbb
          have hkk : k = k₀ := Option.some.inj (hk.symm.trans hk₀)
          rw [← hkk, hclosed] at hcl
          cases hcl
        exact (AList.lookup_insert_ne hne).trans (hok.closed hcl hpc hpc')
      to_backend := by
        intro a b₀ hb₀
        have hb₀ := (UnorderedMap.lookup_insert_ite _ _ _ _).symm.trans hb₀
        split at hb₀
        · next ha =>
          cases hb₀
          exact ⟨i, c, k, hnew, ha.symm⟩
        · obtain ⟨j, d, k₀, hl, hd⟩ := h.to_backend a b₀ hb₀
          exact ⟨j, d, k₀, hold hl, hd⟩
      to_client := by
        intro a j hj
        have hj := (UnorderedMap.lookup_insert_ite _ _ _ _).symm.trans hj
        split at hj
        · next ha =>
          cases hj
          exact ⟨b, c, k, hnew, ha.symm⟩
        · obtain ⟨b₀, d, k₀, hl, hk₀⟩ := h.to_client a j hj
          exact ⟨b₀, d, k₀, hold hl, hk₀⟩
      delivered := h.delivered
      forwarded := h.forwarded }

/-- A client and its backend are taken out of the tables. -/
theorem Inv.unlink {s : Forwarder Addr} (h : s.Inv) {i b : ℕ} {c : Client Addr} {k : Backend Addr}
    (hl : s.Linked i b c k) : (s.unlink c.addr k.addr).Inv := by
  -- Of two links that share an address, both addresses are the same.
  have hsame : ∀ {j b₀ d k₀}, s.Linked j b₀ d k₀ → (d.addr = c.addr ↔ k₀.addr = k.addr) := by
    intro j b₀ d k₀ hl₀
    constructor
    · intro he
      have hb : b₀ = b := by
        have hto := hl₀.toBackend
        rw [he, hl.toBackend] at hto
        exact (Option.some.inj hto).symm
      have hk₀ := hl₀.backend
      rw [hb, hl.backend] at hk₀
      rw [Option.some.inj hk₀]
    · intro he
      have hj : j = i := by
        have hto := hl₀.toClient
        rw [he, hl.toClient] at hto
        exact (Option.some.inj hto).symm
      have hd := hl₀.client
      rw [hj, hl.client] at hd
      rw [Option.some.inj hd]
  have hold : ∀ {j b₀ d k₀}, s.Linked j b₀ d k₀ → d.addr ≠ c.addr →
      (s.unlink c.addr k.addr).Linked j b₀ d k₀ := by
    intro j b₀ d k₀ hl₀ hd
    have hk₀ : k₀.addr ≠ k.addr := fun he ↦ hd ((hsame hl₀).2 he)
    exact ⟨hl₀.client, hl₀.backend, hl₀.openedFor, (AList.lookup_erase_ne hd).trans hl₀.toBackend,
      (AList.lookup_erase_ne hk₀).trans hl₀.toClient, hl₀.settled, hl₀.running⟩
  exact
    { clients_apart := h.clients_apart
      backends_apart := h.backends_apart
      client_ok := h.client_ok
      backend_ok := by
        intro b₀ k₀ hk₀
        have hok := h.backend_ok b₀ k₀ hk₀
        refine ⟨fun hcl hpc hpc' ↦ ?_, hok.received, hok.sending⟩
        refine (UnorderedMap.lookup_erase_ite _ _ _).trans ?_
        split
        · rfl
        · exact hok.closed hcl hpc hpc'
      to_backend := by
        intro a b₀ hb₀
        have hb₀ := (UnorderedMap.lookup_erase_ite _ _ _).symm.trans hb₀
        obtain ⟨ha, hb₀⟩ := Option.ite_none_left_eq_some.1 hb₀
        obtain ⟨j, d, k₀, hl₀, hd⟩ := h.to_backend a b₀ hb₀
        exact ⟨j, d, k₀, hold hl₀ (hd ▸ ha), hd⟩
      to_client := by
        intro a j hj
        have hj := (UnorderedMap.lookup_erase_ite _ _ _).symm.trans hj
        obtain ⟨ha, hj⟩ := Option.ite_none_left_eq_some.1 hj
        obtain ⟨b₀, d, k₀, hl₀, hk₀⟩ := h.to_client a j hj
        exact ⟨b₀, d, k₀, hold hl₀ fun he ↦ ha (hk₀ ▸ (hsame hl₀).1 he), hk₀⟩
      delivered := h.delivered
      forwarded := h.forwarded }

/-- What `on_disconnect` leaves. -/
theorem Inv.onDisconnect {s : Forwarder Addr} (h : s.Inv) {i : ℕ} {c : Client Addr}
    (hc : s.clients[i]? = some c) (hpc : c.pc = .closing) :
    (s.onDisconnect c.addr).Inv ∧ (s.onDisconnect c.addr).clients = s.clients ∧
      (s.onDisconnect c.addr).clientToBackend.lookup c.addr = none := by
  unfold Forwarder.onDisconnect
  split
  · next hnone => exact ⟨h, rfl, hnone⟩
  · next b hb =>
    obtain ⟨k, hl⟩ := h.linked_of_client hc (by rw [hpc]; simp) hb
    rw [hl.backend]
    refine ⟨?_, rfl, AList.lookup_erase _ _⟩
    refine (h.unlink hl).setBackend hl.backend rfl rfl hl.running (fun he ↦ absurd he hl.running)
      ?_ ⟨fun _ _ _ ↦ AList.lookup_erase _ _, fun _ _ _ ↦ .inr rfl,
        (h.backend_ok b k hl.backend).sending⟩
    -- The client of this backend is the one that disconnects, so it is not opening one.
    intro _ d msg hd
    rw [hl.openedFor] at hd
    have hcd : c = d := Option.some.inj (hc.symm.trans hd)
    rw [← hcd, hpc]
    simp

/-- What `on_backend_close` leaves. -/
theorem Inv.onBackendClose {s : Forwarder Addr} (h : s.Inv) {b : ℕ} {k : Backend Addr}
    (hk : s.backends[b]? = some k) (hpc : k.pc ≠ .ended) :
    (s.onBackendClose k.addr).Inv ∧ (s.onBackendClose k.addr).backends = s.backends ∧
      (s.onBackendClose k.addr).backendToClient.lookup k.addr = none := by
  unfold Forwarder.onBackendClose
  split
  · next hnone => exact ⟨h, rfl, hnone⟩
  · next i hi =>
    obtain ⟨c, hl⟩ := h.linked_of_backend hk hpc hi
    rw [hl.client]
    exact ⟨h.unlink hl, rfl, AList.lookup_erase _ _⟩

/-- What has been sent is recorded. -/
theorem Inv.record {s : Forwarder Addr} (h : s.Inv) {delivered : List Delivery}
    {forwarded : List (ℕ × ℕ × Bytes)}
    (hdelivered : ∀ d ∈ delivered, ∀ source, d.source = some source →
      ∃ b, source = .backend b ∧ s.OpenedFor b d.client)
    (hforwarded : ∀ x ∈ forwarded, s.OpenedFor x.1 x.2.1) :
    { s with delivered := delivered, forwarded := forwarded }.Inv := by
  have hlinks := h.links (t := { s with delivered := delivered, forwarded := forwarded }) rfl rfl
    fun hl ↦ ⟨_, _, { hl with }, rfl, rfl⟩
  exact
    { clients_apart := h.clients_apart
      backends_apart := h.backends_apart
      client_ok := h.client_ok
      backend_ok := h.backend_ok
      to_backend := hlinks.1
      to_client := hlinks.2
      delivered := hdelivered
      forwarded := hforwarded }

theorem Inv.deliver {s : Forwarder Addr} (h : s.Inv) {d : Delivery}
    (hd : ∀ source, d.source = some source → ∃ b, source = .backend b ∧ s.OpenedFor b d.client) :
    (s.deliver d).Inv := by
  refine h.record (fun d' hd' ↦ ?_) h.forwarded
  rcases List.mem_append.1 hd' with hd' | hd'
  · exact h.delivered d' hd'
  · rw [List.mem_singleton.1 hd']
    exact hd

theorem Inv.forward {s : Forwarder Addr} (h : s.Inv) {b i : ℕ} (hfor : s.OpenedFor b i)
    (data : Bytes) : { s with forwarded := s.forwarded ++ [(b, i, data)] }.Inv := by
  refine h.record h.delivered fun x hx ↦ ?_
  rcases List.mem_append.1 hx with hx | hx
  · exact h.forwarded x hx
  · rw [List.mem_singleton.1 hx]
    exact hfor

/-- A client is accepted. -/
theorem Inv.accept {s : Forwarder Addr} (h : s.Inv) {addr : Addr} (hfree : s.Free addr) :
    { s with clients := s.clients.spawn ⟨addr, false, .idle⟩ }.Inv := by
  have hlinks := h.links (t := { s with clients := s.clients.spawn ⟨addr, false, .idle⟩ }) rfl rfl
    fun hl ↦ ⟨_, _, { hl with client := Pool.getElem?_spawn hl.client _ }, rfl, rfl⟩
  exact
    { clients_apart := Pool.apart_spawn h.clients_apart fun d hd hpc ha ↦ hpc (hfree.1 d hd ha)
      backends_apart := h.backends_apart
      client_ok := Pool.forall_spawn (fun i c hc ↦ h.client_ok i c hc) trivial
      backend_ok := h.backend_ok
      to_backend := hlinks.1
      to_client := hlinks.2
      delivered := h.delivered
      forwarded := h.forwarded }

/-- A connection to a backend is made for client `i`. -/
theorem Inv.connect {s : Forwarder Addr} (h : s.Inv) {addr : Addr} (hfree : s.Free addr) (i : ℕ) :
    { s with backends := s.backends.spawn ⟨addr, i, false, .made⟩ }.Inv := by
  have hlinks := h.links
    (t := { s with backends := s.backends.spawn ⟨addr, i, false, .made⟩ }) rfl rfl
    fun hl ↦ ⟨_, _, { hl with backend := Pool.getElem?_spawn hl.backend _ }, rfl, rfl⟩
  have hopen : ∀ {b j : ℕ}, s.OpenedFor b j →
      { s with backends := s.backends.spawn ⟨addr, i, false, .made⟩ }.OpenedFor b j := by
    intro b j hfor
    obtain ⟨k, hk, hj⟩ := Option.map_eq_some_iff.1 hfor
    exact Option.map_eq_some_iff.2 ⟨k, Pool.getElem?_spawn hk _, hj⟩
  exact
    { clients_apart := h.clients_apart
      backends_apart := Pool.apart_spawn h.backends_apart fun k hk hpc ha ↦ hpc (hfree.2 k hk ha)
      client_ok := fun j c hc ↦
        (h.client_ok j c hc).of_backends (fun _ _ _ _ hk _ _ ↦ Pool.getElem?_spawn hk _) hopen
      backend_ok := Pool.forall_spawn (fun b k hk ↦ h.backend_ok b k hk)
        ⟨fun hcl ↦ (by cases hcl), fun _ _ hpc ↦ (by cases hpc), fun _ _ _ hpc ↦ (by cases hpc)⟩
      to_backend := hlinks.1
      to_client := hlinks.2
      delivered := by
        intro d hd source hsource
        obtain ⟨b, hb, hfor⟩ := h.delivered d hd source hsource
        exact ⟨b, hb, hopen hfor⟩
      forwarded := fun x hx ↦ hopen (h.forwarded x hx) }

theorem inv_fresh : (fresh : Forwarder Addr).Inv where
  clients_apart _ _ _ _ hc := by cases hc
  backends_apart _ _ _ _ hk := by cases hk
  client_ok _ _ hc := by cases hc
  backend_ok _ _ hk := by cases hk
  to_backend _ _ hb := by cases hb
  to_client _ _ hi := by cases hi
  delivered _ hd := by cases hd
  forwarded _ hx := by cases hx

/-- A client that is about to open a connection is not in the table. -/
theorem Inv.lookup_of_not_settled {s : Forwarder Addr} (h : s.Inv) {i : ℕ} {c : Client Addr}
    (hc : s.clients[i]? = some c) (hgone : c.pc ≠ .gone) (hsettled : ¬ c.pc.Settled) :
    s.clientToBackend.lookup c.addr = none := by
  rcases hb : s.clientToBackend.lookup c.addr with _ | b
  · rfl
  · obtain ⟨k, hl⟩ := h.linked_of_client hc hgone hb
    exact absurd hl.settled hsettled

theorem Inv.clientStep {s t : Forwarder Addr} (h : s.Inv) {i : ℕ} {c : Client Addr}
    (hc : s.clients[i]? = some c) {act : ClientAct Addr} (hstep : ClientStep s i c act t) :
    t.Inv := by
  have hlt : i < s.clients.length := (List.getElem?_eq_some_iff.1 hc).1
  cases hstep with
  | forward hpc hb =>
    obtain ⟨k, hl⟩ := h.linked_of_client hc (by rw [hpc]; simp) hb
    exact h.setClient hc rfl (by rw [hpc]; simp) (fun hn ↦ absurd trivial hn)
      ((openedFor_iff hl.backend).2 hl.openedFor)
  | forwardMissing hpc hb =>
    exact h.setClient hc rfl (by rw [hpc]; simp) (fun _ ↦ hb) trivial
  | @connectFailed msg written hpc =>
    have hd := h.deliver (d := ⟨i, none, send c.closed (serialize (unavailable msg)) written⟩)
      fun _ hnone ↦ (by cases hnone)
    exact hd.setClient hc rfl (by rw [hpc]; simp) (fun hn ↦ absurd trivial hn) trivial
  | connect hpc hfree =>
    have hnone := h.lookup_of_not_settled hc (by rw [hpc]; simp) (by rw [hpc]; exact id)
    refine (h.connect hfree i).setClient hc rfl (by rw [hpc]; simp) (fun _ ↦ hnone) ?_
    exact ⟨_, List.getElem?_concat_length, rfl, rfl, rfl⟩
  | @insert msg b k hpc hk =>
    have hok := h.client_ok i c hc
    rw [hpc] at hok
    obtain ⟨k', hk', hclient, hclosed, hmade⟩ := hok
    have hkk : k' = k := Option.some.inj (hk'.symm.trans hk)
    rw [hkk] at hclient hclosed hmade
    have hrunning : k.pc ≠ .ended := by rw [hmade]; simp
    have hnone := h.lookup_of_not_settled hc (by rw [hpc]; simp) (by rw [hpc]; exact id)
    have hnone' : s.backendToClient.lookup k.addr = none := by
      rcases hj : s.backendToClient.lookup k.addr with _ | j
      · rfl
      · obtain ⟨d, hl⟩ := h.linked_of_backend hk hrunning hj
        have hij : i = j := hclient.symm.trans hl.openedFor
        subst hij
        have hcd : c = d := Option.some.inj (hc.symm.trans hl.client)
        have hb := hl.toBackend
        rw [← hcd, hnone] at hb
        cases hb
    have hset : (s.setClient i { c with pc := .posting msg b }).Inv := h.setClient hc rfl
      (by rw [hpc]; simp) (fun _ ↦ hnone) ⟨k, hk, hclient, hclosed, hmade⟩
    exact hset.link (c := { c with pc := .posting msg b }) (List.getElem?_set_self hlt) hk hclient
      trivial hclosed hrunning hnone hnone'
  | @post msg b k hpc hk =>
    have hok := h.client_ok i c hc
    rw [hpc] at hok
    obtain ⟨k', hk', hclient, hclosed, hmade⟩ := hok
    have hkk : k' = k := Option.some.inj (hk'.symm.trans hk)
    rw [hkk] at hclient hclosed hmade
    have hset : (s.setClient i { c with pc := .sending msg b }).Inv := h.setClient hc rfl
      (by rw [hpc]; simp) (fun hn ↦ absurd trivial hn) ((openedFor_iff hk).2 hclient)
    have hk'' : (s.setClient i { c with pc := .sending msg b }).backends[b]? = some k := hk
    refine hset.setBackend hk'' rfl rfl (by rw [hmade]; simp)
      (fun he ↦ (by cases he)) ?_
      ⟨fun hcl ↦ absurd (hclosed.symm.trans hcl) (by simp), fun _ _ he ↦ (by cases he),
        fun _ _ _ he ↦ (by cases he)⟩
    intro _ d msg' hd
    rw [hclient] at hd
    have hcd := (List.getElem?_set_self hlt).symm.trans hd
    cases hcd
    simp
  | @send msg b written k hpc hk =>
    have hok := h.client_ok i c hc
    rw [hpc] at hok
    exact (h.forward hok _).setClient hc rfl (by rw [hpc]; simp) (fun hn ↦ absurd trivial hn)
      trivial
  | hangUp hpc =>
    exact h.setClient hc rfl (by rw [hpc]; simp) (fun hn ↦ absurd trivial hn) trivial
  | onDisconnect hpc =>
    obtain ⟨hinv, hclients, hnone⟩ := h.onDisconnect hc hpc
    have hc' : (s.onDisconnect c.addr).clients[i]? = some c := by
      rw [hclients]
      exact hc
    exact hinv.setClient hc' rfl (by rw [hpc]; simp) (fun _ ↦ hnone) trivial

/-- The thread of a backend moves on in its read loop. -/
theorem Inv.moveBackend {s : Forwarder Addr} (h : s.Inv) {b : ℕ} {k k' : Backend Addr}
    (hk : s.backends[b]? = some k) (haddr : k'.addr = k.addr) (hclient : k'.client = k.client)
    (hmade : k.pc ≠ .made) (hended : k.pc ≠ .ended) (hended' : k'.pc ≠ .ended)
    (hok : BackendOk s.backendToClient b k') : (s.setBackend b k').Inv :=
  h.setBackend hk haddr hclient hended (fun he ↦ absurd he hended') (fun he ↦ absurd he hmade) hok

theorem Inv.backendStep {s t : Forwarder Addr} (h : s.Inv) {b : ℕ} {k : Backend Addr}
    (hk : s.backends[b]? = some k) {act : BackendAct} (hstep : BackendStep s b k act t) :
    t.Inv := by
  have hok := h.backend_ok b k hk
  cases hstep with
  | start hpc =>
    refine h.moveBackend hk rfl rfl (by simp [hpc]) (by simp [hpc]) (by simp) ?_
    exact ⟨fun hcl _ _ ↦ hok.closed hcl (by simp [hpc]) (by simp [hpc]), by simp, by simp⟩
  | checkClosed hpc hcl =>
    refine h.moveBackend hk rfl rfl (by simp [hpc]) (by simp [hpc]) (by simp) ?_
    exact ⟨fun _ hne ↦ absurd rfl hne, by simp, by simp⟩
  | check hpc hcl =>
    refine h.moveBackend hk rfl rfl (by simp [hpc]) (by simp [hpc]) (by simp) ?_
    exact ⟨fun hcl _ _ ↦ hok.closed hcl (by simp [hpc]) (by simp [hpc]), by simp, by simp⟩
  | @read source data hpc hsource =>
    refine h.moveBackend hk rfl rfl (by simp [hpc]) (by simp [hpc]) (by simp) ?_
    refine ⟨fun hcl _ _ ↦ hok.closed hcl (by simp [hpc]) (by simp [hpc]), ?_, by simp⟩
    intro source' data' he
    cases he
    exact hsource
  | readEnd hpc =>
    refine h.moveBackend hk rfl rfl (by simp [hpc]) (by simp [hpc]) (by simp) ?_
    exact ⟨fun _ hne ↦ absurd rfl hne, by simp, by simp⟩
  | @onBackendMessage source data i hpc hi =>
    have hrunning : k.pc ≠ .ended := by simp [hpc]
    refine h.moveBackend hk rfl rfl (by simp [hpc]) hrunning (by simp) ?_
    have hclosed := hok.closed
    obtain ⟨c, hl⟩ := h.linked_of_backend hk hrunning hi
    refine ⟨fun hcl _ _ ↦ hclosed hcl (by simp [hpc]) hrunning, by simp, ?_⟩
    intro i' source' data' he
    cases he
    refine ⟨?_, hl.openedFor⟩
    -- A backend in the tables has not been closed, so the bytes arrived on its own connection.
    rcases hok.received source data hpc with hsource | hcl
    · exact hsource
    · have hnone := hclosed hcl (by simp [hpc]) hrunning
      rw [hi] at hnone
      cases hnone
  | drop hpc hnone =>
    refine h.moveBackend hk rfl rfl (by simp [hpc]) (by simp [hpc]) (by simp) ?_
    exact ⟨fun _ _ _ ↦ hnone, by simp, by simp⟩
  | @send source data i written c hpc hc =>
    obtain ⟨hsource, hclient⟩ := hok.sending i source data hpc
    have hd := h.deliver (d := ⟨i, some source, Gateway.send c.closed data written⟩)
      fun source' he ↦ ⟨b, (Option.some.inj he).symm.trans hsource,
        (openedFor_iff hk).2 hclient⟩
    refine hd.moveBackend hk rfl rfl (by simp [hpc]) (by simp [hpc]) (by simp) ?_
    exact ⟨fun hcl _ _ ↦ hok.closed hcl (by simp [hpc]) (by simp [hpc]), by simp, by simp⟩
  | onBackendClose hpc =>
    obtain ⟨hinv, hbackends, hnone⟩ := h.onBackendClose hk (by simp [hpc])
    have hk' : (s.onBackendClose k.addr).backends[b]? = some k := by
      rw [hbackends]
      exact hk
    refine hinv.setBackend hk' rfl rfl (by simp [hpc]) (fun _ ↦ hnone)
      (fun he ↦ absurd he (by simp [hpc])) ?_
    exact ⟨fun _ _ hne ↦ absurd rfl hne, by simp, by simp⟩

theorem Inv.step {s t : Forwarder Addr} (h : s.Inv) {l : GatewayStep Addr}
    (hstep : s.step l = some t) : t.Inv := by
  cases l with
  | accept addr =>
    simp only [Forwarder.step] at hstep
    obtain ⟨hfree, hstep⟩ := Option.ite_none_right_eq_some.1 hstep
    obtain rfl := Option.some.inj hstep
    exact h.accept hfree
  | client i act =>
    obtain ⟨c, hc, hstep⟩ := Option.bind_eq_some_iff.1 hstep
    exact h.clientStep hc (clientStep_cases hstep)
  | backend b act =>
    obtain ⟨k, hk, hstep⟩ := Option.bind_eq_some_iff.1 hstep
    exact h.backendStep hk (backendStep_cases hstep)

theorem inv_run {s : Forwarder Addr} {ls : List (GatewayStep Addr)}
    (hrun : system.Run fresh ls s) : s.Inv :=
  hrun.invariant (fun _ _ _ hinv hstep ↦ hinv.step hstep) inv_fresh

theorem Inv.inverse {s : Forwarder Addr} (h : s.Inv) : s.Inverse where
  toBackend a b hb := by
    obtain ⟨i, c, k, hl, hca⟩ := h.to_backend a b hb
    exact ⟨k, hl.backend, i, c, hl.toClient, hl.client, hca⟩
  toClient a i hi := by
    obtain ⟨b, c, k, hl, hka⟩ := h.to_client a i hi
    exact ⟨c, hl.client, b, k, hl.toBackend, hl.backend, hka⟩

/-- **The gateway never crosses clients**: after every step of every interleaving the two tables are
inverse to each other, what was sent to a client and is not an answer of the gateway itself arrived
on a backend that was opened for it, and what was sent to a backend came from that client. -/
theorem never_crosses {s : Forwarder Addr} {ls : List (GatewayStep Addr)}
    (hrun : system.Run fresh ls s) :
    s.Inverse ∧
      (∀ d ∈ s.delivered, ∀ source, d.source = some source →
        ∃ b, source = .backend b ∧ s.OpenedFor b d.client) ∧
      ∀ x ∈ s.forwarded, s.OpenedFor x.1 x.2.1 :=
  have h := inv_run hrun
  ⟨h.inverse, h.delivered, h.forwarded⟩

/-- A client gets an answer, and leaves while its backend is about to read.  The next client gets
the address of the one that is gone, and its backend the descriptor of the old one, whose loop
reads what arrives for the new client. -/
def reusedDescriptor : List (GatewayStep ℕ) :=
  let msg : Message := ⟨1, []⟩
  [.accept 10, .client 0 (.forward msg), .client 0 (.connect 20), .client 0 .insert,
    .client 0 .post, .client 0 (.send 4), .backend 0 .start, .backend 0 .check,
    .backend 0 (.read (.backend 0) [7]), .backend 0 .onBackendMessage, .backend 0 (.send 1),
    .backend 0 .check, .client 0 .hangUp, .client 0 .onDisconnect,
    .accept 10, .client 1 (.forward msg), .client 1 (.connect 30), .client 1 .insert,
    .client 1 .post, .client 1 (.send 4), .backend 0 (.read (.backend 1) [8]),
    .backend 0 .onBackendMessage, .backend 0 .check, .backend 0 .onBackendClose,
    .backend 1 .start, .backend 1 .check, .backend 1 (.read (.backend 1) [9]),
    .backend 1 .onBackendMessage, .backend 1 (.send 1)]

theorem never_crosses_reusedDescriptor :
    ∃ s, system.Run fresh reusedDescriptor s ∧
      s.delivered = [⟨0, some (.backend 0), [7]⟩, ⟨1, some (.backend 1), [9]⟩] ∧
      s.Inverse ∧ s.OpenedFor 1 1 := by
  obtain ⟨s, hrun, hlast⟩ : ∃ s, system.Run fresh reusedDescriptor s ∧
      s.delivered = [⟨0, some (.backend 0), [7]⟩, ⟨1, some (.backend 1), [9]⟩] :=
    System.Run.exists_of_any (by decide +kernel)
  obtain ⟨hinverse, hdelivered, _⟩ := never_crosses hrun
  refine ⟨s, hrun, hlast, hinverse, ?_⟩
  obtain ⟨b, hb, hfor⟩ := hdelivered ⟨1, some (.backend 1), [9]⟩ (by simp [hlast]) _ rfl
  cases hb
  exact hfor

end Forwarder

end Gateway
end ChwellCore
