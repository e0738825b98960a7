import ChwellCore.Core.Bytes
import ChwellCore.Lib.Pool
import ChwellCore.Lib.Run

/-!
# The server at work

A `Service` has a `TcpServer`, an `IoService` and some threads that are in `IoService::run`.  The
accept thread of the server puts each new connection into `connections_`, calls `connection_cb_`,
and posts a task to the `IoService` which calls `TcpConnection::start`.  That is the read loop of
the connection: the thread that has taken the task is in it until the connection ends, and then
calls the close callback, which takes the connection out of `connections_` and calls
`disconnect_cb_`.

`cv_.wait` of `IoService::run` looks at the queue with the mutex held and gives it up when it goes
to sleep.  `post` takes the mutex, but `stop` does not: between the look and the sleep `stop` can
set `stopped_` and call `notify_all`, and so these are two steps here (`look`, `doze`).

A peer sends bytes, and hangs up or breaks the connection at some time; `read` returns some of what
has arrived, and ends the loop when there is nothing more or the connection is broken.  A callback
may close the connection that it is called for.  That another thread closes it, and takes the
descriptor away from a read loop, is left out here, as is a callback that throws, which would end
the process; no other tasks are posted.

Connections are numbered in the order in which they are accepted.  What the callbacks were told,
what was started and what has arrived altogether is not in the code. -/

set_option autoImplicit false

namespace ChwellCore
namespace Net

/-- What becomes of a connection. -/
inductive ConnStage where
  /-- In `connections_`. -/
  | accepted
  /-- `connection_cb_` has returned. -/
  | announced
  /-- The task that starts it is in the queue. -/
  | queued
  /-- Its read loop is about to look at `closed_`. -/
  | looping
  /-- Its read loop is in `read`. -/
  | reading
  /-- The loop has ended. -/
  | closing
  /-- The close callback has taken it out of `connections_`. -/
  | erased
  /-- `disconnect_cb_` has returned. -/
  | gone
deriving DecidableEq, Repr

/-- What the peer does. -/
inductive Peer where
  | talking
  | hungUp
  /-- `read` fails. -/
  | broken
deriving DecidableEq, Repr

/-- `TcpConnection`, and the bytes that have arrived and not been read.  Whether a callback has
closed it, and all that has arrived, is not in the code. -/
structure TcpConnection where
  stage : ConnStage
  closed : Bool
  peer : Peer
  inbox : Bytes
  cut : Bool
  arrived : Bytes
deriving DecidableEq, Repr

/-- The accept thread of `TcpServer`. -/
inductive Acceptor where
  | polling
  /-- It has put a connection into `connections_`. -/
  | holding (c : ℕ)
  /-- `connection_cb_` has returned. -/
  | announced (c : ℕ)
  /-- The task is in the queue, and `notify_one` is to be called. -/
  | notifying
  | exited
deriving DecidableEq, Repr

/-- A thread in `IoService::run`. -/
inductive IoWorker where
  /-- It needs the mutex, to look into the queue. -/
  | locking
  /-- It has found nothing, still has the mutex, and is about to sleep. -/
  | dozing
  /-- It sleeps on `cv_`. -/
  | waiting
  /-- It is in the task that starts a connection. -/
  | serving (c : ℕ)
  | exited
deriving DecidableEq, Repr

/-- The thread that calls `Service::stop`. -/
inductive ServiceOwner where
  | inUse
  /-- In `TcpServer::stop`, waiting for the accept thread. -/
  | joining
  /-- In `IoService::stop`, with `notify_all` to come. -/
  | notifying
  | stopped
deriving DecidableEq, Repr

/-- A callback of the server. -/
inductive ServerEvent where
  | connected (c : ℕ)
  | message (c : ℕ) (data : Bytes)
  | disconnected (c : ℕ)
deriving DecidableEq, Repr

/-- The connection that a callback is about. -/
def ServerEvent.conn : ServerEvent → ℕ
  | .connected c | .message c _ | .disconnected c => c

/-- A `Service`, its threads, every connection there has been, and the history. -/
structure TcpServer where
  conns : Pool TcpConnection
  connections : List ℕ
  acceptor : Acceptor
  queue : List ℕ
  ioStopped : Bool
  workers : Pool IoWorker
  owner : ServiceOwner
  events : List ServerEvent
  started : List ℕ
deriving DecidableEq

/-- A step.  What a peer does is said of a connection, and what a read loop does of the thread that
is in it. -/
inductive ServerAct where
  | accept
  /-- `connection_cb_`, which may close the connection. -/
  | announce (closes : Bool)
  /-- `post`, up to `notify_one`. -/
  | post
  /-- `notify_one` wakes this thread. -/
  | notifyOne (woken : Option ℕ)
  /-- The accept thread sees `stopped_`. -/
  | leave
  | arrive (c : ℕ) (data : Bytes)
  | hangUp (c : ℕ)
  | breakOff (c : ℕ)
  /-- A thread has the mutex. -/
  | look (i : ℕ)
  | doze (i : ℕ)
  /-- A thread wakes up for no reason. -/
  | wake (i : ℕ)
  /-- The read loop looks at `closed_`. -/
  | check (i : ℕ)
  /-- `read` returns so many bytes, and `message_cb_` may close the connection. -/
  | read (i n : ℕ) (closes : Bool)
  /-- `read` returns no bytes. -/
  | readEnd (i : ℕ)
  | erase (i : ℕ)
  | disconnect (i : ℕ)
  /-- `TcpServer::stop`, up to `join`. -/
  | stop
  /-- The accept thread has ended, and `IoService::stop` sets `stopped_`. -/
  | join
  | notifyAll
deriving DecidableEq

namespace TcpConnection

/-- What has just been accepted. -/
def new : TcpConnection := ⟨.accepted, false, .talking, [], false, []⟩

/-- `read_buffer_` has so many bytes. -/
def readBufferSize : ℕ := 4096

/-- `connection_cb_` returns. -/
def announce (conn : TcpConnection) (closes : Bool) : TcpConnection :=
  { conn with stage := .announced, closed := closes, cut := closes }

/-- `read` returns `n` bytes, and `message_cb_` returns. -/
def take (conn : TcpConnection) (n : ℕ) (closes : Bool) : TcpConnection :=
  { conn with
    stage := .looping
    closed := conn.closed || closes
    inbox := conn.inbox.drop n
    cut := conn.cut || closes }

/-- `read` can return no bytes: the peer has hung up and there is nothing more, or it fails. -/
def AtEnd (conn : TcpConnection) : Prop :=
  (conn.peer = .hungUp ∧ conn.inbox = []) ∨ conn.peer = .broken

instance (conn : TcpConnection) : Decidable conn.AtEnd := inferInstanceAs (Decidable (_ ∨ _))

end TcpConnection

namespace TcpServer

open TcpConnection (readBufferSize)

/-- A server that listens, and `workerThreads` threads in `IoService::run`. -/
def new (workerThreads : ℕ) : TcpServer :=
  ⟨[], [], .polling, [], false, List.replicate workerThreads .locking, .inUse, [], []⟩

def put (s : TcpServer) (i : ℕ) (p : IoWorker) : TcpServer :=
  { s with workers := s.workers.put i p }

def putConn (s : TcpServer) (c : ℕ) (conn : TcpConnection) : TcpServer :=
  { s with conns := s.conns.put c conn }

def tell (s : TcpServer) (e : ServerEvent) : TcpServer := { s with events := s.events ++ [e] }

/-- Nobody has the mutex of the `IoService`. -/
def Free (s : TcpServer) : Prop := .dozing ∉ s.workers

instance (s : TcpServer) : Decidable s.Free := inferInstanceAs (Decidable (_ ∉ _))

/-- A connection is accepted. -/
def enlist (s : TcpServer) : TcpServer :=
  { s with
    conns := s.conns.spawn .new
    connections := s.connections ++ [s.conns.length]
    acceptor := .holding s.conns.length }

/-- What a thread that is woken up does. -/
def wakeUp : IoWorker → IoWorker
  | .waiting => .locking
  | p => p

/-- The critical section of `IoService::run`, up to the sleep. -/
def look (s : TcpServer) (i : ℕ) : Option TcpServer :=
  if s.ioStopped then some (s.put i .exited)
  else
    match s.queue with
    | [] => some (s.put i .dozing)
    | c :: rest =>
      match s.conns[c]? with
      | some conn =>
        some (({ s with queue := rest, started := s.started ++ [c] }.putConn c
          { conn with stage := .looping }).put i (.serving c))
      | none => none

/-- What the thread in the read loop of a connection does. -/
def serve (s : TcpServer) (i : ℕ) (f : ℕ → TcpConnection → Option TcpServer) : Option TcpServer :=
  match s.workers[i]? with
  | some (.serving c) =>
    match s.conns[c]? with
    | some conn => f c conn
    | none => none
  | _ => none

/-- One step; `none` if it cannot be taken. -/
def step (s : TcpServer) : ServerAct → Option TcpServer
  | .accept => if s.acceptor = .polling then some s.enlist else none
  | .announce closes =>
    match s.acceptor with
    | .holding c =>
      match s.conns[c]? with
      | some conn =>
        some (({ s with acceptor := .announced c }.putConn c
          (conn.announce closes)).tell (.connected c))
      | none => none
    | _ => none
  | .post =>
    match s.acceptor with
    | .announced c =>
      match s.conns[c]? with
      | some conn =>
        if s.Free then
          some ({ s with acceptor := .notifying, queue := s.queue ++ [c] }.putConn c
            { conn with stage := .queued })
        else none
      | none => none
    | _ => none
  | .notifyOne woken =>
    if s.acceptor = .notifying then
      match woken with
      | none => if .waiting ∈ s.workers then none else some { s with acceptor := .polling }
      | some i =>
        if s.workers[i]? = some .waiting then some ({ s with acceptor := .polling }.put i .locking)
        else none
    else none
  | .leave =>
    if s.acceptor = .polling ∧ s.owner ≠ .inUse then some { s with acceptor := .exited } else none
  | .arrive c data =>
    match s.conns[c]? with
    | some conn =>
      if conn.peer = .talking then
        some (s.putConn c
          { conn with inbox := conn.inbox ++ data, arrived := conn.arrived ++ data })
      else none
    | none => none
  | .hangUp c =>
    match s.conns[c]? with
    | some conn =>
      if conn.peer = .talking then some (s.putConn c { conn with peer := .hungUp }) else none
    | none => none
  | .breakOff c =>
    match s.conns[c]? with
    | some conn => some (s.putConn c { conn with peer := .broken })
    | none => none
  | .look i => if s.workers[i]? = some .locking ∧ s.Free then s.look i else none
  | .doze i => if s.workers[i]? = some .dozing then some (s.put i .waiting) else none
  | .wake i => if s.workers[i]? = some .waiting then some (s.put i .locking) else none
  | .check i =>
    s.serve i fun c conn ↦
      if conn.stage = .looping then
        some (s.putConn c { conn with stage := if conn.closed then .closing else .reading })
      else none
  | .read i n closes =>
    s.serve i fun c conn ↦
      if conn.stage = .reading ∧ 0 < n ∧ n ≤ readBufferSize ∧ n ≤ conn.inbox.length then
        some ((s.putConn c (conn.take n closes)).tell (.message c (conn.inbox.take n)))
      else none
  | .readEnd i =>
    s.serve i fun c conn ↦
      if conn.stage = .reading ∧ conn.AtEnd then
        some (s.putConn c { conn with stage := .closing })
      else none
  | .erase i =>
    s.serve i fun c conn ↦
      if conn.stage = .closing then
        some ({ s with connections := s.connections.erase c }.putConn c
          { conn with stage := .erased, closed := true })
      else none
  | .disconnect i =>
    s.serve i fun c conn ↦
      if conn.stage = .erased then
        some (((s.putConn c { conn with stage := .gone }).put i .locking).tell (.disconnected c))
      else none
  | .stop => if s.owner = .inUse then some { s with owner := .joining } else none
  | .join =>
    if s.owner = .joining ∧ s.acceptor = .exited then
      some { s with ioStopped := true, owner := .notifying }
    else none
  | .notifyAll =>
    if s.owner = .notifying then
      some { s with workers := s.workers.map wakeUp, owner := .stopped }
    else none

/-- The system of all interleavings. -/
def system : System TcpServer ServerAct := System.ofPartial step

/-- What a step can do. -/
inductive Step (s : TcpServer) : ServerAct → TcpServer → Prop
  | accept : s.acceptor = .polling → Step s .accept s.enlist
  | announce {c : ℕ} {conn : TcpConnection} (closes : Bool) : s.acceptor = .holding c →
      s.conns[c]? = some conn → Step s (.announce closes)
        (({ s with acceptor := .announced c }.putConn c (conn.announce closes)).tell (.connected c))
  | post {c : ℕ} {conn : TcpConnection} : s.acceptor = .announced c → s.conns[c]? = some conn →
      s.Free → Step s .post
        ({ s with acceptor := .notifying, queue := s.queue ++ [c] }.putConn c
          { conn with stage := .queued })
  | notifyNone : s.acceptor = .notifying → .waiting ∉ s.workers →
      Step s (.notifyOne none) { s with acceptor := .polling }
  | notifySome {i : ℕ} : s.acceptor = .notifying → s.workers[i]? = some .waiting →
      Step s (.notifyOne (some i)) ({ s with acceptor := .polling }.put i .locking)
  | leave : s.acceptor = .polling → s.owner ≠ .inUse → Step s .leave { s with acceptor := .exited }
  | arrive {c : ℕ} {conn : TcpConnection} (data : Bytes) : s.conns[c]? = some conn →
      conn.peer = .talking → Step s (.arrive c data)
        (s.putConn c { conn with inbox := conn.inbox ++ data, arrived := conn.arrived ++ data })
  | hangUp {c : ℕ} {conn : TcpConnection} : s.conns[c]? = some conn → conn.peer = .talking →
      Step s (.hangUp c) (s.putConn c { conn with peer := .hungUp })
  | breakOff {c : ℕ} {conn : TcpConnection} : s.conns[c]? = some conn →
      Step s (.breakOff c) (s.putConn c { conn with peer := .broken })
  | quit {i : ℕ} : s.workers[i]? = some .locking → s.ioStopped = true →
      Step s (.look i) (s.put i .exited)
  | idle {i : ℕ} : s.workers[i]? = some .locking → s.Free → s.ioStopped = false → s.queue = [] →
      Step s (.look i) (s.put i .dozing)
  | start {i c : ℕ} {conn : TcpConnection} {rest : List ℕ} : s.workers[i]? = some .locking →
      s.Free → s.ioStopped = false → s.queue = c :: rest → s.conns[c]? = some conn →
      Step s (.look i)
        (({ s with queue := rest, started := s.started ++ [c] }.putConn c
          { conn with stage := .looping }).put i (.serving c))
  | doze {i : ℕ} : s.workers[i]? = some .dozing → Step s (.doze i) (s.put i .waiting)
  | wake {i : ℕ} : s.workers[i]? = some .waiting → Step s (.wake i) (s.put i .locking)
  | check {i c : ℕ} {conn : TcpConnection} : s.workers[i]? = some (.serving c) →
      s.conns[c]? = some conn → conn.stage = .looping → Step s (.check i)
        (s.putConn c { conn with stage := if conn.closed then .closing else .reading })
  | read {i c n : ℕ} {conn : TcpConnection} (closes : Bool) : s.workers[i]? = some (.serving c) →
      s.conns[c]? = some conn → conn.stage = .reading → 0 < n → n ≤ readBufferSize →
      n ≤ conn.inbox.length → Step s (.read i n closes)
        ((s.putConn c (conn.take n closes)).tell (.message c (conn.inbox.take n)))
  | readEnd {i c : ℕ} {conn : TcpConnection} : s.workers[i]? = some (.serving c) →
      s.conns[c]? = some conn → conn.stage = .reading → conn.AtEnd →
      Step s (.readEnd i) (s.putConn c { conn with stage := .closing })
  | erase {i c : ℕ} {conn : TcpConnection} : s.workers[i]? = some (.serving c) →
      s.conns[c]? = some conn → conn.stage = .closing → Step s (.erase i)
        ({ s with connections := s.connections.erase c }.putConn c
          { conn with stage := .erased, closed := true })
  | disconnect {i c : ℕ} {conn : TcpConnection} : s.workers[i]? = some (.serving c) →
      s.conns[c]? = some conn → conn.stage = .erased → Step s (.disconnect i)
        (((s.putConn c { conn with stage := .gone }).put i .locking).tell (.disconnected c))
  | stop : s.owner = .inUse → Step s .stop { s with owner := .joining }
  | join : s.owner = .joining → s.acceptor = .exited →
      Step s .join { s with ioStopped := true, owner := .notifying }
  | notifyAll : s.owner = .notifying →
      Step s .notifyAll { s with workers := s.workers.map wakeUp, owner := .stopped }

variable {s t : TcpServer} {a : ServerAct}

theorem serve_eq_some {i : ℕ} {f : ℕ → TcpConnection → Option TcpServer}
    (h : s.serve i f = some t) : ∃ c conn, s.workers[i]? = some (.serving c) ∧
      s.conns[c]? = some conn ∧ f c conn = some t := by
  rw [serve] at h
  split at h
  · next c hi =>
    split at h
    · next conn hc => exact ⟨c, conn, hi, hc, h⟩
    · cases h
  · cases h

theorem step_cases (hs : step s a = some t) : Step s a t := by
  cases a with
  | accept =>
    obtain ⟨h, hs⟩ := Option.ite_none_right_eq_some.1 hs
    cases hs
    exact .accept h
  | announce closes =>
    simp only [step] at hs
    split at hs
    · next hacc =>
      split at hs
      · next hc =>
        cases hs
        exact .announce closes hacc hc
      · cases hs
    · cases hs
  | post =>
    simp only [step] at hs
    split at hs
    · next hacc =>
      split at hs
      · next hc =>
        obtain ⟨hfree, hs⟩ := Option.ite_none_right_eq_some.1 hs
        cases hs
        exact .post hacc hc hfree
      · cases hs
    · cases hs
  | notifyOne woken =>
    simp only [step] at hs
    obtain ⟨hacc, hs⟩ := Option.ite_none_right_eq_some.1 hs
    split at hs
    · obtain ⟨hw, hs⟩ := Option.ite_none_left_eq_some.1 hs
      cases hs
      exact .notifyNone hacc hw
    · obtain ⟨hw, hs⟩ := Option.ite_none_right_eq_some.1 hs
      cases hs
      exact .notifySome hacc hw
  | leave =>
    obtain ⟨h, hs⟩ := Option.ite_none_right_eq_some.1 hs
    cases hs
    exact .leave h.1 h.2
  | arrive c data =>
    simp only [step] at hs
    split at hs
    · next hc =>
      obtain ⟨hp, hs⟩ := Option.ite_none_right_eq_some.1 hs
      cases hs
      exact .arrive data hc hp
    · cases hs
  | hangUp c =>
    simp only [step] at hs
    split at hs
    · next hc =>
      obtain ⟨hp, hs⟩ := Option.ite_none_right_eq_some.1 hs
      cases hs
      exact .hangUp hc hp
    · cases hs
  | breakOff c =>
    simp only [step] at hs
    split at hs
    · next hc =>
      cases hs
      exact .breakOff hc
    · cases hs
  | look i =>
    obtain ⟨⟨hi, hfree⟩, hs⟩ := Option.ite_none_right_eq_some.1 hs
    rw [look] at hs
    split at hs
    · next hstop =>
      cases hs
      exact .quit hi hstop
    · next hstop =>
      rw [Bool.not_eq_true] at hstop
      split at hs
      · next hq =>
        cases hs
        exact .idle hi hfree hstop hq
      · next hq =>
        split at hs
        · next hc =>
          cases hs
          exact .start hi hfree hstop hq hc
        · cases hs
  | doze i =>
    obtain ⟨hi, hs⟩ := Option.ite_none_right_eq_some.1 hs
    cases hs
    exact .doze hi
  | wake i =>
    obtain ⟨hi, hs⟩ := Option.ite_none_right_eq_some.1 hs
    cases hs
    exact .wake hi
  | check i =>
    obtain ⟨c, conn, hi, hc, hs⟩ := serve_eq_some hs
    obtain ⟨hat, hs⟩ := Option.ite_none_right_eq_some.1 hs
    cases hs
    exact .check hi hc hat
  | read i n closes =>
    obtain ⟨c, conn, hi, hc, hs⟩ := serve_eq_some hs
    obtain ⟨⟨hat, hpos, hbuf, hlen⟩, hs⟩ := Option.ite_none_right_eq_some.1 hs
    cases hs
    exact .read closes hi hc hat hpos hbuf hlen
  | readEnd i =>
    obtain ⟨c, conn, hi, hc, hs⟩ := serve_eq_some hs
    obtain ⟨⟨hat, hend⟩, hs⟩ := Option.ite_none_right_eq_some.1 hs
    cases hs
    exact .readEnd hi hc hat hend
  | erase i =>
    obtain ⟨c, conn, hi, hc, hs⟩ := serve_eq_some hs
    obtain ⟨hat, hs⟩ := Option.ite_none_right_eq_some.1 hs
    cases hs
    exact .erase hi hc hat
  | disconnect i =>
    obtain ⟨c, conn, hi, hc, hs⟩ := serve_eq_some hs
    obtain ⟨hat, hs⟩ := Option.ite_none_right_eq_some.1 hs
    cases hs
    exact .disconnect hi hc hat
  | stop =>
    obtain ⟨h, hs⟩ := Option.ite_none_right_eq_some.1 hs
    cases hs
    exact .stop h
  | join =>
    obtain ⟨h, hs⟩ := Option.ite_none_right_eq_some.1 hs
    cases hs
    exact .join h.1 h.2
  | notifyAll =>
    obtain ⟨h, hs⟩ := Option.ite_none_right_eq_some.1 hs
    cases hs
    exact .notifyAll h

end TcpServer

end Net
end ChwellCore
