import ChwellCore.Service.Components

/-!
# The components of the game

`LoginComponent`, `RoomComponent` and `ChatComponent` answer the frames of clients: a login binds a
player's id to the connection, a join puts the connection into a room, and a chat message goes to
everybody in a room, with the id of the player it is from.

All of them build the body of a reply out of strings that came with requests, and send it through
`send_message`, whose frame has 16 bits for its length.  A string that came with a request is short
enough for a reply of its own.  But a chat message is put together from the id of one request and
the content of another, and the reply to a join has twenty-two bytes more than the request.

`wellFramed_iff` says which requests are answered with a frame that says its own length wrong, and
so make a client lose track of its stream: those that do not `Fits`.

Errors are answered with fixed texts.  A request is decoded by `decode_string`, so what it carries
may be anything.
-/

set_option autoImplicit false

namespace ChwellCore
namespace Game

open Protocol (Message)
open Service (SessionManager ProtocolRouter)

/-! ## Encoding -/

/-- `encode_string`. -/
def encodeString : Bytes → Bytes := encodeLen16

/-- `decode_string`. -/
def decodeString : Bytes → ℕ → Option (Bytes × ℕ) := decodeLen16

/-- `encode_bool`. -/
def encodeBool (value : Bool) : Bytes := [if value then 1 else 0]

/-- `send_error_response`: the message sent. -/
def errorResponse (errorCode : UInt16) (message : String) : Message :=
  ⟨0x00FF, hostToNet16 errorCode ++ encodeString (lit message)⟩

/-- `send_login_response`: the message sent. -/
def loginResponse (ok : Bool) (message : String) : Message :=
  ⟨0x0002, encodeBool ok ++ encodeString (lit message)⟩

/-- `send_chat_message`: the message sent. -/
def chatMessage (fromPlayerId content : Bytes) : Message :=
  ⟨0x0004, encodeString fromPlayerId ++ encodeString content⟩

/-- `send_join_room_response`: the message sent. -/
def joinRoomResponse (ok : Bool) (message : String) (roomId : Bytes) : Message :=
  ⟨0x0008, encodeBool ok ++ (encodeString (lit message) ++ encodeString roomId)⟩

/-! ## Rooms -/

/-- `RoomComponent::Room`. -/
structure Room (Conn : Type) where
  roomId : Bytes
  connections : UnorderedSet Conn

/-- `RoomComponent`. -/
structure RoomComponent (Conn : Type) where
  rooms : UnorderedMap Bytes (Room Conn)
  connectionsMap : UnorderedMap Conn Conn

namespace RoomComponent

variable {Conn : Type} [DecidableEq Conn]

/-- `join_room`. -/
def joinRoom (c : RoomComponent Conn) (conn : Conn) (roomId : Bytes) : RoomComponent Conn :=
  let room := (c.rooms.lookup roomId).getD ⟨roomId, ∅⟩
  ⟨c.rooms.insert roomId { room with connections := room.connections.insert conn },
    c.connectionsMap.insert conn conn⟩

/-- `leave_room`, as far as it is about rooms: the connection is taken out of all of them, and rooms
that are empty then are deleted. -/
def leaveRoom (c : RoomComponent Conn) (conn : Conn) : RoomComponent Conn :=
  let rooms := c.rooms.map fun room ↦ { room with connections := room.connections.erase conn }
  ⟨rooms.filter fun _ room ↦ !room.connections.toList.isEmpty, c.connectionsMap.erase conn⟩

/-- `get_connections_in_room`. -/
def getConnectionsInRoom (c : RoomComponent Conn) (roomId : Bytes) : List Conn :=
  match c.rooms.lookup roomId with
  | none => []
  | some room => room.connections.toList.filterMap c.connectionsMap.lookup

/-- The connection is in the connection set of the room. -/
def InRoom (c : RoomComponent Conn) (conn : Conn) (roomId : Bytes) : Prop :=
  ∃ room, c.rooms.lookup roomId = some room ∧ conn ∈ room.connections

theorem inRoom_joinRoom {c : RoomComponent Conn} {conn conn' : Conn} {roomId roomId' : Bytes} :
    (c.joinRoom conn roomId).InRoom conn' roomId' ↔
      conn' = conn ∧ roomId' = roomId ∨ c.InRoom conn' roomId' := by
  simp only [InRoom, joinRoom, UnorderedMap.lookup_insert_ite]
  by_cases hroom : roomId' = roomId
  · subst hroom
    simp only [if_true, Option.some.injEq, exists_eq_left', UnorderedSet.mem_insert, and_true]
    refine or_congr_right ?_
    rcases c.rooms.lookup roomId' with _ | room <;> simp
  · simp only [hroom, if_false, and_false, false_or]

theorem inRoom_leaveRoom {c : RoomComponent Conn} {conn conn' : Conn} {roomId : Bytes} :
    (c.leaveRoom conn).InRoom conn' roomId ↔ conn' ≠ conn ∧ c.InRoom conn' roomId := by
  simp only [InRoom, leaveRoom, UnorderedMap.lookup_filter, UnorderedMap.lookup_map]
  rcases c.rooms.lookup roomId with _ | room
  · simp
  · simp only [Option.map_some, Option.filter_some, Option.some.injEq, exists_eq_left']
    split
    · simp
    · next hempty =>
      -- the room is deleted: nobody but the connection was in it
      have hnone : conn' ∉ room.connections.erase conn := by
        rw [UnorderedSet.mem_def]
        simp only [Bool.not_eq_true, Bool.not_eq_false', List.isEmpty_iff] at hempty
        rw [hempty]
        exact List.not_mem_nil
      simp only [UnorderedSet.mem_erase] at hnone
      simp [hnone]

end RoomComponent

/-! ## The handlers -/

/-- The components of a game server, with or without a `SessionManager`. -/
structure Server (Conn : Type) where
  sessionManager : Option (SessionManager Conn)
  roomComponent : RoomComponent Conn

namespace Server

variable {Conn : Type} [DecidableEq Conn]

/-- A server nobody has connected to. -/
def new (sessionManager : Bool) : Server Conn :=
  ⟨if sessionManager then some ⟨∅⟩ else none, ⟨∅, ∅⟩⟩

/-- `LoginComponent::handle_login`. -/
def handleLogin (s : Server Conn) (conn : Conn) (data : Bytes) :
    Server Conn × List (Conn × Message) :=
  match decodeString data 0 with
  | none => (s, [(conn, errorResponse 1 "Failed to decode player_id")])
  | some (playerId, offset) =>
    match decodeString data offset with
    | none => (s, [(conn, errorResponse 1 "Failed to decode token")])
    | some (token, _) =>
      if playerId = [] then (s, [(conn, errorResponse 2 "Player ID cannot be empty")])
      else if token = [] then (s, [(conn, errorResponse 3 "Token cannot be empty")])
      else
        ({ s with sessionManager := s.sessionManager.map (·.login conn playerId) },
          [(conn, loginResponse true "Login success")])

/-- `ChatComponent::broadcast_chat`. -/
def broadcastChat (s : Server Conn) (roomId fromPlayerId content : Bytes) :
    List (Conn × Message) :=
  (s.roomComponent.getConnectionsInRoom roomId).map fun conn ↦
    (conn, chatMessage fromPlayerId content)

/-- The player that `handle_chat` takes a connection for, or none if nobody is logged in. -/
def sender (s : Server Conn) (conn : Conn) : Option Bytes :=
  match s.sessionManager with
  | none => some (lit "unknown")
  | some m => if m.getPlayerId conn = [] then none else some (m.getPlayerId conn)

/-- `ChatComponent::handle_chat`. -/
def handleChat (s : Server Conn) (conn : Conn) (data : Bytes) :
    Server Conn × List (Conn × Message) :=
  match decodeString data 0 with
  | none => (s, [(conn, errorResponse 1 "Failed to decode room_id")])
  | some (roomId, offset) =>
    match decodeString data offset with
    | none => (s, [(conn, errorResponse 1 "Failed to decode content")])
    | some (content, _) =>
      match s.sender conn with
      | none => (s, [(conn, errorResponse 4 "Please login first")])
      | some playerId => (s, s.broadcastChat roomId playerId content)

/-- What `handle_join_room` asks before it lets a connection in. -/
def mayJoin (s : Server Conn) (conn : Conn) : Bool :=
  match s.sessionManager with
  | none => true
  | some m => m.isLoggedIn conn

/-- `RoomComponent::handle_join_room`. -/
def handleJoinRoom (s : Server Conn) (conn : Conn) (data : Bytes) :
    Server Conn × List (Conn × Message) :=
  match decodeString data 0 with
  | none => (s, [(conn, errorResponse 1 "Failed to decode room_id")])
  | some (roomId, _) =>
    if roomId = [] then (s, [(conn, errorResponse 1 "Room ID cannot be empty")])
    else if s.mayJoin conn then
      ({ sessionManager := s.sessionManager.map (·.joinRoom conn roomId)
         roomComponent := s.roomComponent.joinRoom conn roomId },
        [(conn, joinRoomResponse true "Join room success" roomId)])
    else (s, [(conn, errorResponse 4 "Please login first")])

/-- `RoomComponent::leave_room`. -/
def leaveRoom (s : Server Conn) (conn : Conn) : Server Conn :=
  { sessionManager := s.sessionManager.map (·.leaveRoom conn)
    roomComponent := s.roomComponent.leaveRoom conn }

/-- The router, after `on_register` of the three components. -/
def router : ProtocolRouter Conn (Server Conn) :=
  ((ProtocolRouter.new.registerHandler 0x0001 fun s conn msg ↦
      s.handleLogin conn msg.body).registerHandler 0x0003 fun s conn msg ↦
        s.handleChat conn msg.body).registerHandler 0x0007 fun s conn msg ↦
          s.handleJoinRoom conn msg.body

/-! ## What fits -/

/-- A frame from a connection is answered with bodies that fit their frames: the room id of a join
that is accepted has at most 65513 bytes, and the id of the player and the content of a chat message
that is sent to somebody have at most 65531 together. -/
structure Fits (s : Server Conn) (conn : Conn) (msg : Message) : Prop where
  join : msg.cmd = 0x0007 → ∀ roomId offset, decodeString msg.body 0 = some (roomId, offset) →
    roomId ≠ [] → s.mayJoin conn → 22 + roomId.length ≤ 65535
  chat : msg.cmd = 0x0003 → ∀ roomId offset content offset' playerId,
    decodeString msg.body 0 = some (roomId, offset) →
    decodeString msg.body offset = some (content, offset') → s.sender conn = some playerId →
    s.roomComponent.getConnectionsInRoom roomId ≠ [] → 4 + playerId.length + content.length ≤ 65535

section Bounds

variable {s : Server Conn} {conn : Conn} {data : Bytes}

theorem length_chatMessage (fromPlayerId content : Bytes) :
    (chatMessage fromPlayerId content).body.length = 4 + fromPlayerId.length + content.length := by
  rw [chatMessage, encodeString, List.length_append, length_encodeLen16, length_encodeLen16]
  omega

theorem length_joinRoomResponse (roomId : Bytes) :
    (joinRoomResponse true "Join room success" roomId).body.length = 22 + roomId.length := by
  have hfixed : (encodeBool true).length + (encodeString (lit "Join room success")).length = 20 :=
    rfl
  rw [joinRoomResponse, List.length_append, List.length_append, ← Nat.add_assoc, hfixed,
    encodeString, length_encodeLen16]
  omega

omit [DecidableEq Conn] in
/-- One reply. -/
theorem single_bound {msg : Message} (h : msg.body.length ≤ 65535) :
    ∀ m ∈ [(conn, msg)], m.2.body.length ≤ 65535 :=
  List.forall_mem_singleton.2 h

theorem handleLogin_bound : ∀ m ∈ (s.handleLogin conn data).2, m.2.body.length ≤ 65535 := by
  rw [handleLogin]
  split
  · exact single_bound (by decide)
  split
  · exact single_bound (by decide)
  split
  · exact single_bound (by decide)
  split
  · exact single_bound (by decide)
  · exact single_bound (by decide)

theorem handleJoinRoom_bound :
    (∀ m ∈ (s.handleJoinRoom conn data).2, m.2.body.length ≤ 65535) ↔
      ∀ roomId offset, decodeString data 0 = some (roomId, offset) → roomId ≠ [] →
        s.mayJoin conn → 22 + roomId.length ≤ 65535 := by
  rw [handleJoinRoom]
  split
  · next hnone =>
    refine iff_of_true (single_bound (by decide)) fun roomId offset hd ↦ ?_
    rw [hnone] at hd
    cases hd
  next roomId offset hroom =>
  rw [hroom]
  split
  · next hempty =>
    refine iff_of_true (single_bound (by decide)) fun _ _ hd hne ↦ ?_
    cases hd
    exact absurd hempty hne
  next hne =>
  split
  · next hmay =>
    rw [List.forall_mem_singleton, length_joinRoomResponse]
    refine ⟨fun hle _ _ hd _ _ ↦ ?_, fun h ↦ h roomId offset rfl hne hmay⟩
    cases hd
    exact hle
  · next hmay =>
    exact iff_of_true (single_bound (by decide)) fun _ _ _ _ h ↦ absurd h hmay

theorem broadcastChat_bound {roomId playerId content : Bytes} :
    (∀ m ∈ s.broadcastChat roomId playerId content, m.2.body.length ≤ 65535) ↔
      (s.roomComponent.getConnectionsInRoom roomId ≠ [] →
        4 + playerId.length + content.length ≤ 65535) := by
  rw [broadcastChat, List.forall_mem_map]
  simp only [length_chatMessage]
  constructor
  · intro h hne
    obtain ⟨c, hc⟩ := List.exists_mem_of_ne_nil _ hne
    exact h c hc
  · intro h c hc
    exact h (List.ne_nil_of_mem hc)

theorem handleChat_bound :
    (∀ m ∈ (s.handleChat conn data).2, m.2.body.length ≤ 65535) ↔
      ∀ roomId offset content offset' playerId, decodeString data 0 = some (roomId, offset) →
        decodeString data offset = some (content, offset') → s.sender conn = some playerId →
        s.roomComponent.getConnectionsInRoom roomId ≠ [] →
          4 + playerId.length + content.length ≤ 65535 := by
  rw [handleChat]
  split
  · next hnone =>
    refine iff_of_true (single_bound (by decide)) fun _ _ _ _ _ hd ↦ ?_
    rw [hnone] at hd
    cases hd
  next roomId offset hroom =>
  rw [hroom]
  split
  · next hnone =>
    refine iff_of_true (single_bound (by decide)) fun _ _ _ _ _ hd hd' ↦ ?_
    cases hd
    rw [hnone] at hd'
    cases hd'
  next content offset' hcontent =>
  split
  · next hnone =>
    refine iff_of_true (single_bound (by decide)) fun _ _ _ _ _ _ _ hs ↦ ?_
    rw [hnone] at hs
    cases hs
  next playerId hsender =>
  rw [broadcastChat_bound]
  refine ⟨fun h _ _ _ _ _ hd hd' hs ↦ ?_, fun h ↦ h _ _ _ _ _ rfl hcontent hsender⟩
  cases hd
  rw [hcontent] at hd'
  cases hd'
  rw [hsender] at hs
  cases hs
  exact h

theorem route_router (msg : Message) : router.route s conn msg =
    if msg.cmd = 0x0007 then s.handleJoinRoom conn msg.body
    else if msg.cmd = 0x0003 then s.handleChat conn msg.body
    else if msg.cmd = 0x0001 then s.handleLogin conn msg.body
    else (s, []) := by
  have hlookup : (router : ProtocolRouter Conn (Server Conn)).handlers.lookup msg.cmd =
      if msg.cmd = 0x0007 then some fun s conn msg ↦ s.handleJoinRoom conn msg.body
      else if msg.cmd = 0x0003 then some fun s conn msg ↦ s.handleChat conn msg.body
      else if msg.cmd = 0x0001 then some fun s conn msg ↦ s.handleLogin conn msg.body
      else none := by
    simp only [router, ProtocolRouter.registerHandler, UnorderedMap.lookup_insert_ite]
    rfl
  rw [ProtocolRouter.route, hlookup]
  split_ifs <;> rfl

/-- **One frame.**  All that is sent in answer to it fits if and only if it is a frame that does. -/
theorem route_bound {msg : Message} :
    (∀ m ∈ (router.route s conn msg).2, m.2.body.length ≤ 65535) ↔ s.Fits conn msg := by
  rw [route_router]
  split
  · next hjoin =>
    rw [handleJoinRoom_bound]
    refine ⟨fun h ↦ ⟨fun _ ↦ h, fun hchat ↦ ?_⟩, fun h ↦ h.join hjoin⟩
    rw [hjoin] at hchat
    cases hchat
  next hjoin =>
  split
  · next hchat =>
    rw [handleChat_bound]
    exact ⟨fun h ↦ ⟨fun hj ↦ absurd hj hjoin, fun _ ↦ h⟩, fun h ↦ h.chat hchat⟩
  next hchat =>
  have hfits : s.Fits conn msg := ⟨fun h ↦ absurd h hjoin, fun h ↦ absurd h hchat⟩
  split
  · exact iff_of_true handleLogin_bound hfits
  · exact iff_of_true (fun m hm ↦ absurd hm List.not_mem_nil) hfits

end Bounds

/-- **When the output is well framed.**  For every sequence of frames, of any connections in any
order: on every connection a parser finds the messages that the components sent to it if and only if
each frame fits the server as it was when the frame came. -/
theorem output_wellFramed_iff (sessionManager : Bool) (frames : List (Conn × Message)) :
    Service.WellFramed (router.run (new sessionManager) frames).2 ↔
      ∀ before frame after, frames = before ++ frame :: after →
        (router.run (new sessionManager) before).1.Fits frame.1 frame.2 := by
  rw [Service.wellFramed_iff, ProtocolRouter.forall_mem_run]
  simp only [route_bound]

/-- A player logs in and joins a room with an id of 65520 bytes. -/
theorem joinRoomResponse_too_long :
    ¬ ∀ frames : List (ℕ × Message), (∀ f ∈ frames, f.2.body.length ≤ 65535) →
      Service.WellFramed (router.run (new true) frames).2 := by
  intro h
  obtain ⟨v, hv⟩ : ∃ v : Bytes, v.length = 65520 := ⟨_, List.length_replicate (a := 0)⟩
  have hdecode := decodeLen16_encodeLen16 [] (Nat.le_trans (Nat.le_of_eq hv) (by decide)) []
  rw [List.nil_append, List.append_nil] at hdecode
  have hbodies : ∀ f ∈ [((1 : ℕ), Message.mk 0x0001 (encodeString [97] ++ encodeString [116])),
      (1, ⟨0x0007, encodeString v⟩)], f.2.body.length ≤ 65535 := by
    rintro f (_ | ⟨_, _ | ⟨_, hf⟩⟩)
    · decide
    · rw [encodeString, length_encodeLen16, hv]
      decide
    · cases hf
  have hframed := h _ hbodies
  rw [Service.wellFramed_iff, ProtocolRouter.forall_mem_run] at hframed
  have hfits := route_bound.1 (hframed [_] _ [] rfl)
  have hle := hfits.join rfl v _ hdecode (List.ne_nil_of_length_pos (by rw [hv]; decide)) rfl
  rw [hv] at hle
  exact absurd hle (by decide)

end Server
end Game
end ChwellCore
