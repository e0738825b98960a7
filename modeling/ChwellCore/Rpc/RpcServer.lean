import ChwellCore.Lib.Run
import ChwellCore.Lib.UnorderedMap
import ChwellCore.Protocol.Parser
import Mathlib.Data.List.Forall2

/-!
# The RPC server

`RpcServer` keeps a buffer for each connection.  `handle_message` appends what was read to it, has a
new `Parser` find the frames in a copy, answers their messages one by one, and only then takes their
bytes out of the buffer, whose number it computes from the messages.

The I/O threads handle the reads of different connections at the same time; `mutex_` is held while
the buffer is extended, while a handler is looked up and while the buffer is cut.  A step of
`RpcServer.system` is one of these sections with the local code behind it, so that the turns of the
loop of one connection interleave with everything that happens on the others.  The reads of one
connection come one after another, and its disconnect after the last of them, because one loop makes
both.

What happens on one connection is its `Channel`, and `channel_step` says what a step of the server
can do to it.  `Channel.Serves` relates a channel to the parser of the whole stream.

Every message processed gets one call of `send`.  What that sends is one response message only if
its length can be announced in 16 bits, and nobody looks at how much a handler has to say:
`answered_iff` is exact about it.
-/

set_option autoImplicit false

namespace ChwellCore
namespace Rpc

open Protocol (Message Parser serialize)
open Protocol.Parser (frame consumed)

/-- What a handler does with a body: it fills in a response, or it throws a `std::exception`. -/
inductive HandlerOutcome where
  | returns (response : Bytes)
  | throws (what : Bytes)
deriving DecidableEq, Repr

/-- `handler_response` behind the `try`. -/
def HandlerOutcome.response : HandlerOutcome → Bytes
  | .returns response => response
  | .throws what => what

/-- `request_id_prefix`. -/
def requestIdPrefix (body : Bytes) : Bytes := if 4 ≤ body.length then body.take 4 else []

/-- `handler_body`. -/
def handlerBody (body : Bytes) : Bytes := if 4 ≤ body.length then body.drop 4 else body

/-- The response to a message, by its handler if there is one. -/
def respond (handler : Option (Bytes → HandlerOutcome)) (msg : Message) : Message :=
  match handler with
  | some run => ⟨msg.cmd, requestIdPrefix msg.body ++ (run (handlerBody msg.body)).response⟩
  | none => ⟨msg.cmd, requestIdPrefix msg.body⟩

/-- `data` is one response message to `msg`: it is what a parser finds there, and nothing is left
over; it has the same `cmd`, and its body starts with the first four bytes of the request, if there
are four. -/
def AnswersRequest (msg : Message) (data : Bytes) : Prop :=
  ∃ response : Message, (Parser.fresh.feed data).1 = [response] ∧
    (Parser.fresh.feed data).2.tail = [] ∧ response.cmd = msg.cmd ∧
    (4 ≤ msg.body.length → msg.body.take 4 <+: response.body)

/-- What is sent is one response message just if its length fits in 16 bits. -/
theorem answersRequest_respond_iff (handler : Option (Bytes → HandlerOutcome)) (msg : Message) :
    AnswersRequest msg (serialize (respond handler msg)) ↔
      (respond handler msg).body.length ≤ 65535 := by
  constructor
  · rintro ⟨response, hone, hnone, -⟩
    have hlen := Parser.length_le_of_feed hone hnone
    rw [Protocol.length_serialize] at hlen
    omega
  · intro hfits
    obtain ⟨hone, hnone⟩ := Parser.feed_serialize hfits
    refine ⟨respond handler msg, hone, hnone, ?_, fun hlen ↦ ?_⟩
    · rcases handler with _ | run <;> rfl
    · have hid : msg.body.take 4 = requestIdPrefix msg.body := (if_pos hlen).symm
      rw [hid]
      rcases handler with _ | run
      · exact List.prefix_rfl
      · exact List.prefix_append _ _

/-- How many bytes there are for what a handler has to say. -/
def room (body : Bytes) : ℕ := if 4 ≤ body.length then 65531 else 65535

theorem length_requestIdPrefix_append_le_iff (body response : Bytes) :
    (requestIdPrefix body ++ response).length ≤ 65535 ↔ response.length ≤ room body := by
  rw [List.length_append, requestIdPrefix, room]
  split
  · rw [List.length_take]
    omega
  · rw [List.length_nil]
    omega

/-- Without a handler there is nothing that would not fit. -/
theorem length_respond_le_iff {handler : Option (Bytes → HandlerOutcome)} {msg : Message} :
    (respond handler msg).body.length ≤ 65535 ↔
      ∀ run ∈ handler, (run (handlerBody msg.body)).response.length ≤ room msg.body := by
  cases handler with
  | some run =>
    rw [respond, length_requestIdPrefix_append_le_iff]
    simp
  | none =>
    have hnil := (length_requestIdPrefix_append_le_iff msg.body []).2 (Nat.zero_le _)
    rw [List.append_nil] at hnil
    exact iff_of_true hnil fun run hrun ↦ by cases hrun

/-- Take the frames of some messages out of a buffer, by their lengths. -/
def cut (buffer : Bytes) (messages : List Message) : Bytes :=
  if consumed messages ≤ buffer.length then buffer.drop (consumed messages) else buffer

/-- A call of `handle_message`: the messages it has found, and those it has still to answer. -/
structure Reading where
  messages : List Message
  left : List Message

/-- `RpcServer`, the calls of `handle_message` that are under way, and the history of each
connection: the bytes read, the messages processed and the responses sent.  A method is there with
whether its handler is more than an empty `std::function`. -/
structure RpcServer (Conn : Type) where
  methods : UnorderedMap UInt16 Bool
  buffers : UnorderedMap Conn Bytes
  totalRequests : Int32
  activeConnections : Int32
  reading : Conn → Option Reading
  stream : Conn → Bytes
  processed : Conn → List Message
  sent : Conn → List Bytes

/-- A step of the server. -/
inductive ServerOp (Conn : Type) where
  | registerMethod (methodId : UInt16) (present : Bool)
  | unregisterMethod (methodId : UInt16)
  /-- `handle_connect`. -/
  | connect (conn : Conn)
  /-- `handle_message` up to its loop. -/
  | receive (conn : Conn) (data : Bytes)
  /-- One turn of the loop.  The handler is what the one that is registered, if any, does now. -/
  | process (conn : Conn) (handler : Bytes → HandlerOutcome)
  /-- The end of `handle_message`. -/
  | finish (conn : Conn)
  /-- `handle_disconnect`. -/
  | disconnect (conn : Conn)

/-- The connection that a step is about. -/
def ServerOp.conn {Conn : Type} : ServerOp Conn → Option Conn
  | .registerMethod _ _ | .unregisterMethod _ | .connect _ => none
  | .receive conn _ | .process conn _ | .finish conn | .disconnect conn => some conn

namespace RpcServer

variable {Conn : Type} [DecidableEq Conn]

/-- The constructor. -/
def fresh : RpcServer Conn :=
  ⟨∅, ∅, 0, 0, fun _ ↦ none, fun _ ↦ [], fun _ ↦ [], fun _ ↦ []⟩

/-- `buffers_[conn]`. -/
def buffer (s : RpcServer Conn) (conn : Conn) : Bytes := (s.buffers.lookup conn).getD []

/-- `methods_.find(cmd)`, with what a handler found there does. -/
def findHandler (s : RpcServer Conn) (cmd : UInt16) (handler : Bytes → HandlerOutcome) :
    Option (Bytes → HandlerOutcome) :=
  if s.methods.lookup cmd = some true then some handler else none

/-- One step; `none` if the connection is not at that point.  A new connection may be at the
address of one that is gone, and its history begins with it. -/
def step (s : RpcServer Conn) : ServerOp Conn → Option (RpcServer Conn)
  | .registerMethod methodId present =>
    some { s with methods := s.methods.insert methodId present }
  | .unregisterMethod methodId => some { s with methods := s.methods.erase methodId }
  | .connect _ => some { s with activeConnections := s.activeConnections + 1 }
  | .receive conn data =>
    match s.reading conn with
    | some _ => none
    | none =>
      let buffer := s.buffer conn ++ data
      let messages := (Parser.fresh.feed buffer).1
      some { s with
        buffers := s.buffers.insert conn buffer
        reading := Function.update s.reading conn (some ⟨messages, messages⟩)
        stream := Function.update s.stream conn (s.stream conn ++ data) }
  | .process conn handler =>
    match s.reading conn with
    | some ⟨messages, msg :: left⟩ =>
      let response := respond (s.findHandler msg.cmd handler) msg
      some { s with
        totalRequests := s.totalRequests + 1
        reading := Function.update s.reading conn (some ⟨messages, left⟩)
        processed := Function.update s.processed conn (s.processed conn ++ [msg])
        sent := Function.update s.sent conn (s.sent conn ++ [serialize response]) }
    | _ => none
  | .finish conn =>
    match s.reading conn with
    | some ⟨messages, []⟩ =>
      some { s with
        buffers :=
          if messages = [] then s.buffers
          else s.buffers.insert conn (cut (s.buffer conn) messages)
        reading := Function.update s.reading conn none }
    | _ => none
  | .disconnect conn =>
    match s.reading conn with
    | some _ => none
    | none =>
      some { s with
        activeConnections := s.activeConnections - 1
        buffers := s.buffers.erase conn
        stream := Function.update s.stream conn []
        processed := Function.update s.processed conn []
        sent := Function.update s.sent conn [] }

/-- The system of all interleavings. -/
def system : System (RpcServer Conn) (ServerOp Conn) := System.ofPartial step

end RpcServer

/-! ## One connection -/

/-- What the server knows and has done about one connection. -/
structure Channel where
  reading : Option Reading
  buffer : Bytes
  stream : Bytes
  processed : List Message
  sent : List Bytes

namespace Channel

/-- What can happen on a connection. -/
inductive Step (c : Channel) : Channel → Prop
  | same : Step c c
  | receive (data : Bytes) : c.reading = none →
      Step c { c with
        reading := some ⟨(Parser.fresh.feed (c.buffer ++ data)).1,
          (Parser.fresh.feed (c.buffer ++ data)).1⟩
        buffer := c.buffer ++ data
        stream := c.stream ++ data }
  | process {messages left : List Message} {msg : Message} (data : Bytes) :
      c.reading = some ⟨messages, msg :: left⟩ →
      Step c { c with
        reading := some ⟨messages, left⟩
        processed := c.processed ++ [msg]
        sent := c.sent ++ [data] }
  | finish {messages : List Message} : c.reading = some ⟨messages, []⟩ →
      Step c { c with reading := none, buffer := cut c.buffer messages }
  | disconnect : c.reading = none → Step c ⟨none, [], [], [], []⟩

/-- What a connection has come to, compared with the frames of its whole stream: the messages
processed and those still to be processed are the messages of the stream, and what is left of the
buffer, once the frames of the read under way are cut off, is the end of the stream. -/
structure Serves (c : Channel) : Prop where
  idle : c.reading = none → (c.processed, c.buffer) = frame.drain c.stream
  busy : ∀ r, c.reading = some r → consumed r.messages ≤ c.buffer.length ∧
    (c.processed ++ r.left, c.buffer.drop (consumed r.messages)) = frame.drain c.stream

theorem serves_empty : Serves ⟨none, [], [], [], []⟩ :=
  ⟨fun _ ↦ (FrameDecoder.drain_of_none Parser.frame_next_nil).symm, fun r hr ↦ (by cases hr)⟩

variable {c c' : Channel}

/-- A read appends to what was left, so its messages are the next ones of the stream. -/
theorem Serves.receive (h : c.Serves) (hidle : c.reading = none) (data : Bytes) :
    consumed (Parser.fresh.feed (c.buffer ++ data)).1 ≤ (c.buffer ++ data).length ∧
      (c.processed ++ (Parser.fresh.feed (c.buffer ++ data)).1,
        (c.buffer ++ data).drop (consumed (Parser.fresh.feed (c.buffer ++ data)).1)) =
        frame.drain (c.stream ++ data) := by
  obtain ⟨hle, hdrop⟩ := Parser.drain_eq_drop (c.buffer ++ data)
  rw [(Parser.feed_fresh _).1, ← hdrop, FrameDecoder.drain_append c.stream, ← h.idle hidle]
  exact ⟨hle, rfl⟩

theorem Serves.step (h : c.Serves) (hs : c.Step c') : c'.Serves := by
  cases hs with
  | same => exact h
  | disconnect hidle => exact serves_empty
  | receive data hidle =>
    refine ⟨fun hnone ↦ (by cases hnone), fun r hr ↦ ?_⟩
    obtain rfl := Option.some.inj hr
    exact h.receive hidle data
  | @process messages left msg data hbusy =>
    obtain ⟨hle, hdrain⟩ := h.busy _ hbusy
    refine ⟨fun hnone ↦ (by cases hnone), fun r hr ↦ ?_⟩
    obtain rfl := Option.some.inj hr
    rw [← hdrain]
    exact ⟨hle, by rw [List.append_assoc]; rfl⟩
  | @finish messages hbusy =>
    obtain ⟨hle, hdrain⟩ := h.busy _ hbusy
    refine ⟨fun _ ↦ ?_, fun r hr ↦ (by cases hr)⟩
    rw [← hdrain, List.append_nil, cut, if_pos hle]

end Channel

namespace RpcServer

variable {Conn : Type} [DecidableEq Conn] {s s' : RpcServer Conn} {op : ServerOp Conn}

/-- The connection as the server has it. -/
def channel (s : RpcServer Conn) (conn : Conn) : Channel :=
  ⟨s.reading conn, s.buffer conn, s.stream conn, s.processed conn, s.sent conn⟩

/-- A step leaves every other connection alone. -/
theorem channel_of_ne (hs : step s op = some s') {conn : Conn} (hconn : op.conn ≠ some conn) :
    s'.channel conn = s.channel conn := by
  cases op with
  | registerMethod methodId present | unregisterMethod methodId | connect conn' =>
    cases hs
    rfl
  | receive conn' data | process conn' handler | disconnect conn' =>
    have hne : conn ≠ conn' := fun h ↦ hconn (congrArg some h.symm)
    simp only [step] at hs
    split at hs <;> cases hs
    simp [channel, buffer, hne]
  | finish conn' =>
    have hne : conn ≠ conn' := fun h ↦ hconn (congrArg some h.symm)
    simp only [step] at hs
    split at hs <;> cases hs
    simp only [channel, buffer]
    split <;> simp [hne]

/-- **What a step does to a connection**: a step of its own, or nothing. -/
theorem channel_step (hs : step s op = some s') (conn : Conn) :
    (s.channel conn).Step (s'.channel conn) := by
  by_cases hconn : op.conn = some conn
  · cases op with
    | registerMethod methodId present | unregisterMethod methodId | connect conn' => cases hconn
    | receive conn' data =>
      obtain rfl := Option.some.inj hconn
      simp only [step] at hs
      split at hs
      · cases hs
      · next hidle =>
        cases hs
        have hstep := Channel.Step.receive (c := s.channel conn') data hidle
        simpa [channel, buffer] using hstep
    | process conn' handler =>
      obtain rfl := Option.some.inj hconn
      simp only [step] at hs
      split at hs
      · next messages msg left hbusy =>
        cases hs
        have hstep := Channel.Step.process (c := s.channel conn')
          (serialize (respond (s.findHandler msg.cmd handler) msg)) hbusy
        simpa [channel, buffer] using hstep
      · cases hs
    | finish conn' =>
      obtain rfl := Option.some.inj hconn
      simp only [step] at hs
      split at hs
      · next messages hbusy =>
        cases hs
        have hstep := Channel.Step.finish (c := s.channel conn') hbusy
        by_cases hnil : messages = []
        · subst hnil
          simpa [channel, buffer, cut, consumed] using hstep
        · simpa [channel, buffer, hnil] using hstep
      · cases hs
    | disconnect conn' =>
      obtain rfl := Option.some.inj hconn
      simp only [step] at hs
      split at hs
      · cases hs
      · next hidle =>
        cases hs
        have hstep := Channel.Step.disconnect (c := s.channel conn') hidle
        simpa [channel, buffer, hidle] using hstep
  · rw [channel_of_ne hs hconn]
    exact .same

/-- Every connection is served, in every run. -/
theorem serves_run {ops : List (ServerOp Conn)} (hrun : system.Run fresh ops s) (conn : Conn) :
    (s.channel conn).Serves := by
  refine hrun.invariant (motive := fun s ↦ (s.channel conn).Serves) ?_ Channel.serves_empty
  intro s op s' h hstep
  exact h.step (channel_step hstep conn)

/-! ## Responses -/

/-- Each message processed on a connection has been answered. -/
def Answered (s : RpcServer Conn) : Prop :=
  ∀ conn, List.Forall₂ AnswersRequest (s.processed conn) (s.sent conn)

/-- What a handler that is called in the step has to say fits in a frame, behind the request id if
there is one. -/
def ResponseFits (s : RpcServer Conn) : ServerOp Conn → Prop
  | .process conn handler =>
    match s.reading conn with
    | some ⟨_, msg :: _⟩ =>
      ∀ run ∈ s.findHandler msg.cmd handler,
        (run (handlerBody msg.body)).response.length ≤ room msg.body
    | _ => True
  | _ => True

/-- **A step leaves everything answered** just if what its handler has to say fits. -/
theorem answered_step_iff (h : s.Answered) (hs : step s op = some s') :
    s'.Answered ↔ s.ResponseFits op := by
  cases op with
  | registerMethod methodId present | unregisterMethod methodId | connect conn =>
    cases hs
    exact iff_of_true h trivial
  | receive conn data | finish conn =>
    simp only [step] at hs
    split at hs <;> cases hs
    exact iff_of_true h trivial
  | disconnect conn =>
    simp only [step] at hs
    split at hs <;> cases hs
    refine iff_of_true (fun conn' ↦ ?_) trivial
    by_cases hconn : conn' = conn
    · subst hconn
      simp
    · simpa [hconn] using h conn'
  | process conn handler =>
    simp only [step] at hs
    split at hs
    · next messages msg left hbusy =>
      cases hs
      simp only [ResponseFits, hbusy]
      rw [← length_respond_le_iff, ← answersRequest_respond_iff]
      constructor
      · intro hall
        have hdrop := List.forall₂_drop_append _ _ _ (by simpa using hall conn)
        rw [← (h conn).length_eq, List.drop_left] at hdrop
        exact (List.forall₂_cons.1 hdrop).1
      · intro hans conn'
        by_cases hconn : conn' = conn
        · subst hconn
          simpa using List.rel_append (h conn') (.cons hans .nil)
        · simpa [hconn] using h conn'
    · cases hs

/-- **When each message is answered.**  In every state of a run, each message processed has been
answered by one response message, just if what the handlers have to say fits in every step. -/
theorem answered_iff {ops : List (ServerOp Conn)} (hrun : system.Run fresh ops s) :
    system.Along (fun _ _ (t : RpcServer Conn) ↦ t.Answered) fresh ops ↔
      (system.guarded ResponseFits).Run fresh ops s :=
  System.along_iff (P := Answered) (fun _ _ _ h hs ↦ answered_step_iff h hs)
    (fun _ _ _ _ _ hans ↦ hans) (fun _ ↦ .nil) hrun

/-- A read that is under way goes on to its end, whatever the handlers do. -/
theorem exists_run_idle {conn : Conn} {r : Reading} (h : s.reading conn = some r)
    (handler : Bytes → HandlerOutcome) :
    ∃ s', system.Run s (List.replicate r.left.length (.process conn handler) ++ [.finish conn]) s' ∧
      s'.reading conn = none ∧ s'.stream conn = s.stream conn := by
  obtain ⟨messages, left⟩ := r
  induction left generalizing s with
  | nil =>
    obtain ⟨s', hs, hidle, hstream⟩ : ∃ s', step s (.finish conn) = some s' ∧
        s'.reading conn = none ∧ s'.stream conn = s.stream conn := by
      simp only [step, h]
      exact ⟨_, rfl, Function.update_self _ _ _, rfl⟩
    exact ⟨s', .single (T := system) hs, hidle, hstream⟩
  | cons msg left ih =>
    obtain ⟨s₁, hs, hbusy, hstream₁⟩ : ∃ s₁, step s (.process conn handler) = some s₁ ∧
        s₁.reading conn = some ⟨messages, left⟩ ∧ s₁.stream conn = s.stream conn := by
      simp only [step, h]
      exact ⟨_, rfl, Function.update_self _ _ _, rfl⟩
    obtain ⟨s', hrun, hidle, hstream⟩ := ih hbusy
    exact ⟨s', .cons (T := system) hs hrun, hidle, hstream.trans hstream₁⟩

end RpcServer

end Rpc
end ChwellCore
