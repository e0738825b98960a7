import ChwellCore.Game.Components

/-!
# Moving players

`PlayerMoveComponent` keeps the last position of every player and tells it to the room the player is
in; `HeartbeatComponent` sends a timestamp back.  A float is only copied, so it is the four bytes it
consists of, and the timestamp is a number of 64 bits.
-/

set_option autoImplicit false

namespace ChwellCore
namespace Game

open Protocol (Message)
open Service (SessionManager ProtocolRouter MessageHandler)

/-! ## Encoding -/

/-- A `float`: its four bytes. -/
abbrev RawFloat := { bytes : Bytes // bytes.length = 4 }

/-- `decode_float`. -/
def decodeFloat (data : Bytes) (offset : ℕ) : Option (RawFloat × ℕ) :=
  if h : offset + 4 ≤ data.length then
    some (⟨(data.drop offset).take 4, by rw [List.length_take, List.length_drop]; omega⟩,
      offset + 4)
  else none

/-- `encode_float`. -/
def encodeFloat (value : RawFloat) : Bytes := value.1

/-- `decode_int64`. -/
def decodeInt64 (data : Bytes) (offset : ℕ) : Option (UInt64 × ℕ) :=
  if data.length < offset + 8 then none
  else
    some ((List.range 8).foldl (fun value i ↦
      value ||| ((data.getD (offset + i) 0).toUInt64 <<< UInt64.ofNat (i * 8))) 0, offset + 8)

/-- `encode_int64`. -/
def encodeInt64 (value : UInt64) : Bytes :=
  (List.range 8).map fun i ↦ (value >>> UInt64.ofNat (i * 8)).toUInt8

/-- `PlayerPosition`. -/
structure PlayerPosition where
  x : RawFloat
  y : RawFloat
  z : RawFloat
deriving DecidableEq

/-- `send_player_position`: the message sent. -/
def playerPositionMessage (playerId : Bytes) (pos : PlayerPosition) : Message :=
  ⟨0x0083, encodeString playerId ++ (encodeFloat pos.x ++ (encodeFloat pos.y ++ encodeFloat pos.z))⟩

/-- `send_heartbeat_response`: the message sent. -/
def heartbeatResponse (timestampMs : UInt64) : Message := ⟨0x0006, encodeInt64 timestampMs⟩

/-! ## The handlers -/

/-- The components of a game server, `PlayerMoveComponent` among them. -/
structure World (Conn : Type) extends Server Conn where
  playerPositions : UnorderedMap Bytes PlayerPosition

namespace World

variable {Conn : Type} [DecidableEq Conn]

/-- A world nobody has connected to, without a `SessionManager`. -/
def empty : World Conn := ⟨.new false, ∅⟩

/-- The session of a connection. -/
def session (w : World Conn) (conn : Conn) : Option Service.SessionInfo :=
  w.sessionManager.bind fun m ↦ m.sessions.lookup conn

/-- `PlayerMoveComponent::get_player_id`. -/
def getPlayerId (w : World Conn) (conn : Conn) : Bytes :=
  match w.sessionManager with
  | none => []
  | some m => m.getPlayerId conn

/-- `PlayerMoveComponent::get_room_id`. -/
def getRoomId (w : World Conn) (conn : Conn) : Bytes :=
  match w.sessionManager with
  | none => []
  | some m => m.getRoomId conn

/-- `update_player_position`. -/
def updatePlayerPosition (w : World Conn) (playerId : Bytes) (pos : PlayerPosition) : World Conn :=
  { w with playerPositions := w.playerPositions.insert playerId pos }

/-- `broadcast_player_position`. -/
def broadcastPlayerPosition (w : World Conn) (roomId playerId : Bytes) (pos : PlayerPosition) :
    List (Conn × Message) :=
  (w.roomComponent.getConnectionsInRoom roomId).map fun conn ↦
    (conn, playerPositionMessage playerId pos)

/-- The three floats of a move. -/
def decodePosition (data : Bytes) : Option PlayerPosition := do
  let (x, offset) ← decodeFloat data 0
  let (y, offset) ← decodeFloat data offset
  let (z, _) ← decodeFloat data offset
  return ⟨x, y, z⟩

/-- `handle_player_move`. -/
def handlePlayerMove (w : World Conn) (conn : Conn) (data : Bytes) :
    World Conn × List (Conn × Message) :=
  match decodePosition data with
  | none => (w, [])
  | some pos =>
    if w.getPlayerId conn = [] then (w, [])
    else
      (w.updatePlayerPosition (w.getPlayerId conn) pos,
        if w.getRoomId conn = [] then []
        else w.broadcastPlayerPosition (w.getRoomId conn) (w.getPlayerId conn) pos)

/-- `HeartbeatComponent::handle_heartbeat`. -/
def handleHeartbeat (w : World Conn) (conn : Conn) (data : Bytes) :
    World Conn × List (Conn × Message) :=
  match decodeInt64 data 0 with
  | none => (w, [])
  | some (timestampMs, _) => (w, [(conn, heartbeatResponse timestampMs)])

/-- A handler of the other components. -/
def lift (f : Server Conn → Conn → Bytes → Server Conn × List (Conn × Message)) (w : World Conn)
    (conn : Conn) (data : Bytes) : World Conn × List (Conn × Message) :=
  let r := f w.toServer conn data
  ({ w with toServer := r.1 }, r.2)

/-! ### Sessions -/

theorem getRoomId_eq (w : World Conn) (conn : Conn) :
    w.getRoomId conn = ((w.session conn).map (·.roomId)).getD [] := by
  rw [getRoomId, session]
  rcases w.sessionManager with _ | m
  · rfl
  · show m.getRoomId conn = ((m.sessions.lookup conn).map (·.roomId)).getD []
    rw [SessionManager.getRoomId]
    rcases m.sessions.lookup conn with _ | s <;> rfl

theorem getPlayerId_eq (w : World Conn) (conn : Conn) :
    w.getPlayerId conn =
      ((w.session conn).map fun s ↦ if s.authed then s.playerId else []).getD [] := by
  rw [getPlayerId, session]
  rcases w.sessionManager with _ | m
  · rfl
  · show m.getPlayerId conn = ((m.sessions.lookup conn).map _).getD []
    rw [SessionManager.getPlayerId]
    rcases m.sessions.lookup conn with _ | s <;> rfl

end World

end Game
end ChwellCore
