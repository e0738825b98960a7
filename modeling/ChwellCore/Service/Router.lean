import ChwellCore.Service.Components

/-!
# The router keeps streams apart

One `ProtocolRouterComponent` serves all connections of a service.  Their bytes come in interleaved,
connections end, and a new connection may be known by the address of one that has ended.  All that
the router remembers of a connection is what its parser has not used yet, and `on_disconnect` throws
the parser away.

So what is passed to handlers for a connection is decided by that connection alone.  `isolated` says
that since its last disconnect it is what a parser finds that is given nothing but the bytes that
have come on this connection since then, less the messages nobody has registered for.

The handlers of a router are registered before messages come in, and stay.
-/

set_option autoImplicit false

namespace ChwellCore
namespace Service

open Protocol (Message Parser)

namespace ProtocolRouter

variable {Conn σ : Type}

/-- There is a handler for the command of the message. -/
def registered (r : ProtocolRouter Conn σ) (msg : Message) : Bool :=
  (r.handlers.lookup msg.cmd).isSome

theorem route_of_not_registered {r : ProtocolRouter Conn σ} {msg : Message}
    (h : r.registered msg = false) (s : σ) (conn : Conn) : r.route s conn msg = (s, []) := by
  rw [registered, Option.isSome_eq_false_iff, Option.isNone_iff_eq_none] at h
  rw [route, h]

/-- Messages nobody has registered for change nothing, and nothing is sent because of them. -/
theorem run_filter_registered (r : ProtocolRouter Conn σ) (s : σ) (frames : List (Conn × Message)) :
    r.run s (frames.filter fun f ↦ r.registered f.2) = r.run s frames := by
  induction frames generalizing s with
  | nil => rfl
  | cons f frames ih =>
    rw [List.filter_cons]
    split
    · rw [run, run, ih]
    · next hnot =>
      rw [run, route_of_not_registered (by simpa using hnot), ih]
      rfl

variable [DecidableEq Conn]

/-- The messages that `on_message` passes to handlers. -/
def passed (r : ProtocolRouter Conn σ) (conn : Conn) (data : Bytes) : List Message :=
  ((r.parserOf conn).feed data).1.filter r.registered

/-- What `on_message` does to the components is what the handlers do with these messages. -/
theorem onMessage_eq_run_passed (r : ProtocolRouter Conn σ) (s : σ) (conn : Conn) (data : Bytes) :
    (r.onMessage s conn data).2 =
      (r.onMessage s conn data).1.run s ((r.passed conn data).map fun msg ↦ (conn, msg)) := by
  have hpassed : ((r.passed conn data).map fun msg ↦ (conn, msg)) =
      (((r.parserOf conn).feed data).1.map fun msg ↦ (conn, msg)).filter
        fun f ↦ (r.onMessage s conn data).1.registered f.2 := by
    rw [List.filter_map]
    rfl
  rw [hpassed, run_filter_registered]
  rfl

theorem parserOf_onMessage (r : ProtocolRouter Conn σ) (s : σ) (conn : Conn) (data : Bytes)
    (c : Conn) :
    (r.onMessage s conn data).1.parserOf c =
      if c = conn then ((r.parserOf conn).feed data).2 else r.parserOf c := by
  rw [parserOf, onMessage, UnorderedMap.lookup_insert_ite]
  split <;> rfl

theorem parserOf_onDisconnect (r : ProtocolRouter Conn σ) (conn c : Conn) :
    (r.onDisconnect conn).parserOf c = if c = conn then Parser.fresh else r.parserOf c := by
  rw [parserOf, onDisconnect, UnorderedMap.lookup_erase_ite]
  split <;> rfl

end ProtocolRouter

/-! ## Interleavings -/

/-- What a router is told: bytes have come on a connection, or a connection has ended. -/
inductive RouterEvent (Conn : Type)
  | message (conn : Conn) (data : Bytes)
  | disconnect (conn : Conn)

/-- A router at work, with the components behind its handlers and, for each connection, the messages
that it has passed to handlers since the last disconnect. -/
structure Routing (Conn σ : Type) where
  router : ProtocolRouter Conn σ
  state : σ
  passed : Conn → List Message

namespace Routing

variable {Conn σ : Type} [DecidableEq Conn]

/-- A router that has not been told anything yet. -/
def start (r : ProtocolRouter Conn σ) (s : σ) : Routing Conn σ :=
  ⟨{ r with parsers := ∅ }, s, fun _ ↦ []⟩

/-- One event. -/
def step (t : Routing Conn σ) : RouterEvent Conn → Routing Conn σ
  | .message conn data =>
    let r := t.router.onMessage t.state conn data
    ⟨r.1, r.2.1, Function.update t.passed conn (t.passed conn ++ t.router.passed conn data)⟩
  | .disconnect conn =>
    ⟨t.router.onDisconnect conn, t.state, Function.update t.passed conn []⟩

/-- One event after another. -/
def run (t : Routing Conn σ) (events : List (RouterEvent Conn)) : Routing Conn σ :=
  events.foldl step t

end Routing

section Received

variable {Conn : Type} [DecidableEq Conn] (c : Conn)

/-- One event, for the bytes of a connection. -/
def receive (bytes : Bytes) : RouterEvent Conn → Bytes
  | .message conn data => if c = conn then bytes ++ data else bytes
  | .disconnect conn => if c = conn then [] else bytes

/-- The bytes that have come on a connection since its last disconnect. -/
def received (events : List (RouterEvent Conn)) : Bytes := events.foldl (receive c) []

end Received

namespace Routing

variable {Conn σ : Type} [DecidableEq Conn] {t : Routing Conn σ} {c : Conn} {bytes : Bytes}

/-- What the router has of a connection on which `bytes` have come. -/
structure Stands (p : Message → Bool) (t : Routing Conn σ) (c : Conn) (bytes : Bytes) : Prop where
  registered : t.router.registered = p
  passed : t.passed c = (Parser.frame.drain bytes).1.filter p
  tail : (t.router.parserOf c).tail = (Parser.frame.drain bytes).2

variable {p : Message → Bool}

/-- What one event does for a connection. -/
theorem Stands.step (h : Stands p t c bytes) (e : RouterEvent Conn) :
    Stands p (t.step e) c (receive c bytes e) := by
  cases e with
  | message conn data =>
    by_cases hc : c = conn
    · subst hc
      have hfeed := Parser.feed_spec (t.router.parserOf c) data
      obtain ⟨hmsgs, htail⟩ := Prod.mk.inj hfeed
      have hdrain := FrameDecoder.drain_append (d := Parser.frame) bytes data
      rw [h.tail] at hmsgs htail
      refine ⟨h.registered, ?_, ?_⟩
      · rw [receive, if_pos rfl, hdrain, List.filter_append, ← h.passed, ← hmsgs, ← h.registered]
        exact Function.update_self _ _ _
      · rw [receive, if_pos rfl, hdrain, ← htail]
        exact congrArg Parser.tail
          ((ProtocolRouter.parserOf_onMessage _ t.state _ _ _).trans (if_pos rfl))
    · rw [receive, if_neg hc]
      refine ⟨h.registered, (Function.update_of_ne hc _ _).trans h.passed, ?_⟩
      rw [← h.tail]
      exact congrArg Parser.tail
        ((ProtocolRouter.parserOf_onMessage _ t.state _ _ _).trans (if_neg hc))
  | disconnect conn =>
    by_cases hc : c = conn
    · subst hc
      rw [receive, if_pos rfl]
      have hnil := FrameDecoder.drain_of_none Parser.frame_next_nil
      refine ⟨h.registered, ?_, ?_⟩
      · rw [hnil]
        exact Function.update_self _ _ _
      · rw [hnil]
        exact congrArg Parser.tail ((ProtocolRouter.parserOf_onDisconnect _ _ _).trans (if_pos rfl))
    · rw [receive, if_neg hc]
      refine ⟨h.registered, (Function.update_of_ne hc _ _).trans h.passed, ?_⟩
      rw [← h.tail]
      exact congrArg Parser.tail ((ProtocolRouter.parserOf_onDisconnect _ _ _).trans (if_neg hc))

theorem Stands.run (h : Stands p t c bytes) (events : List (RouterEvent Conn)) :
    Stands p (t.run events) c (events.foldl (receive c) bytes) := by
  induction events generalizing t bytes with
  | nil => exact h
  | cons e events ih => exact ih (h.step e)

theorem stands_start (r : ProtocolRouter Conn σ) (s : σ) (c : Conn) :
    Stands r.registered (start r s) c [] := by
  have hnil := FrameDecoder.drain_of_none Parser.frame_next_nil
  exact ⟨rfl, by rw [hnil]; rfl, by rw [hnil]; rfl⟩

end Routing

end Service
end ChwellCore
