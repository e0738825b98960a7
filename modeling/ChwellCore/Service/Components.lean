import ChwellCore.Lib.UnorderedMap
import ChwellCore.Protocol.Parser

/-!
# The components of a service

`SessionManager` remembers which player is logged in on a connection, and in which room.
`ProtocolRouterComponent` keeps a parser for each connection, and calls, for each message that a
connection's bytes complete, the handler registered for its command.

What a handler does is a function of the state of the components, `σ`: it returns the state
afterwards and the messages it passed to `send_message`, each with its connection.  The bytes that
come to a connection are the frames of the messages passed to it, one after another.  They are
*well framed* if a parser finds these messages in them, however they are cut; and `wellFramed_iff`
says when: no parser finds a body of more than 65535 bytes, and those that are shorter it does find.

Connections are compared and nothing else.  The time of the last activity and the gateway of a
session are written and never read here, so a session is without them.
-/

set_option autoImplicit false

namespace ChwellCore
namespace Service

open Protocol (Message Parser serialize)

/-! ## Sessions -/

/-- `SessionInfo`, with its defaults. -/
structure SessionInfo where
  playerId : Bytes := []
  roomId : Bytes := []
  authed : Bool := false
deriving DecidableEq, Repr

/-- `SessionManager`. -/
structure SessionManager (Conn : Type) where
  sessions : UnorderedMap Conn SessionInfo

namespace SessionManager

variable {Conn : Type} [DecidableEq Conn]

/-- `login`. -/
def login (m : SessionManager Conn) (conn : Conn) (playerId : Bytes) : SessionManager Conn :=
  let s := (m.sessions.lookup conn).getD {}
  ⟨m.sessions.insert conn { s with playerId := playerId, authed := true }⟩

/-- `join_room`. -/
def joinRoom (m : SessionManager Conn) (conn : Conn) (roomId : Bytes) : SessionManager Conn :=
  match m.sessions.lookup conn with
  | none => m
  | some s => ⟨m.sessions.insert conn { s with roomId := roomId }⟩

/-- `logout`. -/
def logout (m : SessionManager Conn) (conn : Conn) : SessionManager Conn :=
  ⟨m.sessions.erase conn⟩

/-- `leave_room`. -/
def leaveRoom (m : SessionManager Conn) (conn : Conn) : SessionManager Conn :=
  match m.sessions.lookup conn with
  | none => m
  | some s => ⟨m.sessions.insert conn { s with roomId := [] }⟩

/-- `on_disconnect`. -/
def onDisconnect (m : SessionManager Conn) (conn : Conn) : SessionManager Conn :=
  ⟨m.sessions.erase conn⟩

/-- `is_logged_in`. -/
def isLoggedIn (m : SessionManager Conn) (conn : Conn) : Bool :=
  match m.sessions.lookup conn with
  | none => false
  | some s => s.authed

/-- `get_player_id`. -/
def getPlayerId (m : SessionManager Conn) (conn : Conn) : Bytes :=
  match m.sessions.lookup conn with
  | none => []
  | some s => if s.authed then s.playerId else []

/-- `get_room_id`. -/
def getRoomId (m : SessionManager Conn) (conn : Conn) : Bytes :=
  match m.sessions.lookup conn with
  | none => []
  | some s => s.roomId

/-! ### What each call does to the session of a connection -/

section Lookup

variable (m : SessionManager Conn) (conn c : Conn)

theorem lookup_login (playerId : Bytes) :
    (m.login conn playerId).sessions.lookup c =
      if c = conn then
        some { (m.sessions.lookup conn).getD {} with playerId := playerId, authed := true }
      else m.sessions.lookup c :=
  UnorderedMap.lookup_insert_ite _ _ _ _

theorem lookup_joinRoom (roomId : Bytes) :
    (m.joinRoom conn roomId).sessions.lookup c =
      (m.sessions.lookup c).map fun s ↦ if c = conn then { s with roomId := roomId } else s := by
  rw [joinRoom]
  split
  · next hnone =>
    by_cases hc : c = conn
    · rw [hc, hnone]
      rfl
    · simp only [if_neg hc, Option.map_id']
  · next s hsome =>
    rw [UnorderedMap.lookup_insert_ite]
    split
    · next hc =>
      rw [hc, hsome]
      rfl
    · simp only [Option.map_id']

/-- To leave a room is to join the room without a name. -/
theorem leaveRoom_eq : m.leaveRoom conn = m.joinRoom conn [] := rfl

theorem lookup_logout :
    (m.logout conn).sessions.lookup c = if c = conn then none else m.sessions.lookup c :=
  UnorderedMap.lookup_erase_ite _ _ _

end Lookup

end SessionManager

/-! ## The router -/

/-- A handler: the state of the components afterwards, and what was passed to `send_message`. -/
abbrev MessageHandler (Conn σ : Type) := σ → Conn → Message → σ × List (Conn × Message)

/-- `ProtocolRouterComponent`. -/
structure ProtocolRouter (Conn σ : Type) where
  parsers : UnorderedMap Conn Parser
  handlers : UnorderedMap UInt16 (MessageHandler Conn σ)

namespace ProtocolRouter

variable {Conn σ : Type} [DecidableEq Conn]

/-- A router without handlers. -/
def new : ProtocolRouter Conn σ := ⟨∅, ∅⟩

/-- `register_handler`. -/
def registerHandler (r : ProtocolRouter Conn σ) (cmd : UInt16) (handler : MessageHandler Conn σ) :
    ProtocolRouter Conn σ :=
  { r with handlers := r.handlers.insert cmd handler }

/-- What becomes of one message in `on_message`. -/
def route (r : ProtocolRouter Conn σ) (s : σ) (conn : Conn) (msg : Message) :
    σ × List (Conn × Message) :=
  match r.handlers.lookup msg.cmd with
  | none => (s, [])
  | some handler => handler s conn msg

/-- Messages that are routed one after another. -/
def run (r : ProtocolRouter Conn σ) (s : σ) : List (Conn × Message) → σ × List (Conn × Message)
  | [] => (s, [])
  | (conn, msg) :: frames =>
    let rest := r.run (r.route s conn msg).1 frames
    (rest.1, (r.route s conn msg).2 ++ rest.2)

/-- The parser of a connection. -/
def parserOf (r : ProtocolRouter Conn σ) (conn : Conn) : Parser :=
  (r.parsers.lookup conn).getD Parser.fresh

/-- `on_message`: the router, the components, and what is sent. -/
def onMessage (r : ProtocolRouter Conn σ) (s : σ) (conn : Conn) (data : Bytes) :
    ProtocolRouter Conn σ × σ × List (Conn × Message) :=
  let parsed := (r.parserOf conn).feed data
  let r := { r with parsers := r.parsers.insert conn parsed.2 }
  (r, r.run s (parsed.1.map fun msg ↦ (conn, msg)))

/-- `on_disconnect`. -/
def onDisconnect (r : ProtocolRouter Conn σ) (conn : Conn) : ProtocolRouter Conn σ :=
  { r with parsers := r.parsers.erase conn }

omit [DecidableEq Conn] in
/-- What all that is sent in a run satisfies is what all that is sent in each of its steps
satisfies. -/
theorem forall_mem_run {r : ProtocolRouter Conn σ} {p : Conn × Message → Prop} {s : σ}
    {frames : List (Conn × Message)} :
    (∀ m ∈ (r.run s frames).2, p m) ↔ ∀ before frame after, frames = before ++ frame :: after →
      ∀ m ∈ (r.route (r.run s before).1 frame.1 frame.2).2, p m := by
  induction frames generalizing s with
  | nil =>
    refine ⟨fun _ before frame after he ↦ ?_, fun _ m hm ↦ by cases hm⟩
    exact absurd he (List.append_ne_nil_of_right_ne_nil _ (List.cons_ne_nil _ _)).symm
  | cons f frames ih =>
    have hrun : (r.run s (f :: frames)).2 =
        (r.route s f.1 f.2).2 ++ (r.run (r.route s f.1 f.2).1 frames).2 := rfl
    rw [hrun, List.forall_mem_append, ih]
    constructor
    · rintro ⟨hfirst, hrest⟩ before frame after he
      rcases before with _ | ⟨g, before⟩
      · cases he
        exact hfirst
      · obtain ⟨rfl, hframes⟩ := List.cons.inj he
        exact hrest before frame after hframes
    · intro h
      refine ⟨h [] f frames rfl, fun before frame after he ↦ ?_⟩
      exact h (f :: before) frame after (congrArg (f :: ·) he)

end ProtocolRouter

/-! ## What arrives -/

section Streams

variable {Conn : Type} [DecidableEq Conn]

/-- The messages passed to `send_message` for a connection, in order. -/
def messagesTo (conn : Conn) (sent : List (Conn × Message)) : List Message :=
  sent.filterMap fun m ↦ if m.1 = conn then some m.2 else none

/-- The bytes sent to a connection. -/
def stream (conn : Conn) (sent : List (Conn × Message)) : Bytes :=
  (messagesTo conn sent).flatMap serialize

/-- On every connection a parser finds the messages that were sent, however the bytes are cut. -/
def WellFramed (sent : List (Conn × Message)) : Prop :=
  ∀ conn chunks, chunks.flatten = stream conn sent →
    (Parser.fresh.feedAll chunks).1 = messagesTo conn sent

theorem mem_messagesTo {conn : Conn} {sent : List (Conn × Message)} {msg : Message} :
    msg ∈ messagesTo conn sent ↔ (conn, msg) ∈ sent := by
  rw [messagesTo, List.mem_filterMap]
  constructor
  · rintro ⟨⟨c, m⟩, hmem, he⟩
    obtain ⟨hc, he⟩ := Option.ite_none_right_eq_some.1 he
    obtain rfl := Option.some.inj he
    exact hc ▸ hmem
  · intro hmem
    exact ⟨(conn, msg), hmem, if_pos rfl⟩

/-- **When the output is well framed.** -/
theorem wellFramed_iff {sent : List (Conn × Message)} :
    WellFramed sent ↔ ∀ m ∈ sent, m.2.body.length ≤ 65535 := by
  constructor
  · rintro h ⟨conn, msg⟩ hmem
    have hfound := h conn [stream conn sent] (List.append_nil _)
    have hdrain := congrArg Prod.fst (Parser.feedAll_eq_drain [stream conn sent])
    rw [hfound] at hdrain
    exact Parser.length_le_of_mem_drain (hdrain ▸ mem_messagesTo.2 hmem)
  · intro h conn chunks hchunks
    have hdrain := Parser.feedAll_eq_drain chunks
    rw [hchunks, stream, FrameDecoder.drain_flatMap Parser.frame_next_nil fun m hm ↦
      Parser.frame_next_serialize (h _ (mem_messagesTo.1 hm))] at hdrain
    exact congrArg Prod.fst hdrain

end Streams

end Service
end ChwellCore
