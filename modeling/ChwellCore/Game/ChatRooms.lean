import ChwellCore.Game.RoomMembers
import ChwellCore.Game.Rooms

/-!
# Who hears a chat message

A chat frame names a room, and the message goes to everybody who is in that room.  Nobody asks
whether the sender is in it: `handle_chat` looks at who is logged in on the connection and at
nothing else.

`chat_stays_iff` says what follows for whole runs.  A message never leaves the room that is named;
and it stays among those who are in it, the sender included, if and only if whoever speaks into a
room with somebody in it is there.
-/

set_option autoImplicit false

namespace ChwellCore
namespace Game

open Protocol (Message)

variable {Conn : Type} [DecidableEq Conn]

/-- The room and the content of a chat frame. -/
def decodeChat (body : Bytes) : Option (Bytes × Bytes) := do
  let (roomId, offset) ← decodeString body 0
  let (content, _) ← decodeString body offset
  return (roomId, content)

/-! ## What a frame sends -/

section Sent

variable {w : World Conn} {conn : Conn} {body : Bytes} {m : Conn × Message}

omit [DecidableEq Conn] in
/-- One reply that is not a chat message. -/
theorem single_ne_chat {msg : Message} (h : msg.cmd ≠ 0x0004) :
    ∀ m ∈ [(conn, msg)], m.2.cmd ≠ 0x0004 :=
  List.forall_mem_singleton.2 h

theorem handleLogin_ne_chat :
    ∀ m ∈ (w.lift Server.handleLogin conn body).2, m.2.cmd ≠ 0x0004 := by
  rw [World.lift, Server.handleLogin]
  split
  · exact single_ne_chat (by decide)
  split
  · exact single_ne_chat (by decide)
  split
  · exact single_ne_chat (by decide)
  split
  · exact single_ne_chat (by decide)
  · exact single_ne_chat (by decide)

theorem handleJoinRoom_ne_chat :
    ∀ m ∈ (w.lift Server.handleJoinRoom conn body).2, m.2.cmd ≠ 0x0004 := by
  rw [World.lift, Server.handleJoinRoom]
  split
  · exact single_ne_chat (by decide)
  split
  · exact single_ne_chat (by decide)
  split
  · exact single_ne_chat (show (0x0008 : UInt16) ≠ 0x0004 by decide)
  · exact single_ne_chat (by decide)

omit [DecidableEq Conn] in
theorem handleHeartbeat_ne_chat : ∀ m ∈ (w.handleHeartbeat conn body).2, m.2.cmd ≠ 0x0004 := by
  rw [World.handleHeartbeat]
  split
  · exact fun m hm ↦ absurd hm List.not_mem_nil
  · exact single_ne_chat (show (0x0006 : UInt16) ≠ 0x0004 by decide)

theorem handlePlayerMove_ne_chat : ∀ m ∈ (w.handlePlayerMove conn body).2, m.2.cmd ≠ 0x0004 := by
  rw [World.handlePlayerMove]
  split
  · exact fun m hm ↦ absurd hm List.not_mem_nil
  split
  · exact fun m hm ↦ absurd hm List.not_mem_nil
  dsimp only
  split
  · exact fun m hm ↦ absurd hm List.not_mem_nil
  · exact List.forall_mem_map.2 fun _ _ ↦ show (0x0083 : UInt16) ≠ 0x0004 by decide

/-- The chat messages that `handle_chat` sends. -/
theorem mem_handleChat : m ∈ (w.lift Server.handleChat conn body).2 ∧ m.2.cmd = 0x0004 ↔
    ∃ roomId content playerId, decodeChat body = some (roomId, content) ∧
      w.sender conn = some playerId ∧ m.1 ∈ w.roomComponent.getConnectionsInRoom roomId ∧
      m.2 = chatMessage playerId content := by
  have hrefused {errorCode : UInt16} {message : String} :
      ¬ (m ∈ [(conn, errorResponse errorCode message)] ∧ m.2.cmd = 0x0004) :=
    fun h ↦ single_ne_chat (by decide : (0x00FF : UInt16) ≠ 0x0004) m h.1 h.2
  rw [World.lift, Server.handleChat, decodeChat]
  rcases hroom : decodeString body 0 with _ | ⟨roomId, offset⟩
  · refine iff_of_false hrefused ?_
    rintro ⟨_, _, _, h, _⟩
    cases h
  rcases hcontent : decodeString body offset with _ | ⟨content, offset'⟩
  · simp only [Option.bind_eq_bind, Option.bind_some, hcontent]
    refine iff_of_false hrefused ?_
    rintro ⟨_, _, _, h, _⟩
    cases h
  simp only [Option.bind_eq_bind, Option.bind_some, hcontent]
  rcases hsender : w.sender conn with _ | playerId
  · refine iff_of_false hrefused ?_
    rintro ⟨_, _, _, _, h, _⟩
    cases h
  dsimp only
  rw [Server.broadcastChat, List.mem_map]
  constructor
  · rintro ⟨⟨c, hc, rfl⟩, -⟩
    exact ⟨roomId, content, playerId, rfl, rfl, hc, rfl⟩
  · rintro ⟨_, _, _, hdecode, hplayer, hmem, hmsg⟩
    cases hdecode
    cases hplayer
    refine ⟨⟨m.1, hmem, Prod.ext rfl hmsg.symm⟩, ?_⟩
    rw [hmsg]
    rfl

end Sent

namespace Host

variable {h : Host Conn} {conn : Conn} {msg : Message}

/-- The frame is a chat message into this room, with this content, in the name of this player. -/
structure Chats (h : Host Conn) (conn : Conn) (msg : Message) (roomId content playerId : Bytes) :
    Prop where
  cmd : msg.cmd = 0x0003
  registered : h.router.registered msg = true
  decode : decodeChat msg.body = some (roomId, content)
  sender : h.world.sender conn = some playerId

/-- A handler is that of the chat component, or it sends no chat messages. -/
theorem handler_cases {k : Component} {cmd : UInt16} {f : Service.MessageHandler Conn (World Conn)}
    (hk : k.handler = some (cmd, f)) :
    (cmd = 0x0003 ∧ f = fun w conn msg ↦ w.lift Server.handleChat conn msg.body) ∨
      cmd ≠ 0x0003 ∧ ∀ w conn msg, ∀ m ∈ (f w conn msg).2, m.2.cmd ≠ 0x0004 := by
  cases k with
  | sessionManager | protocolRouter => cases hk
  | chat =>
    obtain ⟨rfl, rfl⟩ := Prod.mk.inj (Option.some.inj hk)
    exact .inl ⟨rfl, rfl⟩
  | login =>
    obtain ⟨rfl, rfl⟩ := Prod.mk.inj (Option.some.inj hk)
    exact .inr ⟨by decide, fun _ _ _ ↦ handleLogin_ne_chat⟩
  | room =>
    obtain ⟨rfl, rfl⟩ := Prod.mk.inj (Option.some.inj hk)
    exact .inr ⟨by decide, fun _ _ _ ↦ handleJoinRoom_ne_chat⟩
  | heartbeat =>
    obtain ⟨rfl, rfl⟩ := Prod.mk.inj (Option.some.inj hk)
    exact .inr ⟨by decide, fun _ _ _ ↦ handleHeartbeat_ne_chat⟩
  | playerMove =>
    obtain ⟨rfl, rfl⟩ := Prod.mk.inj (Option.some.inj hk)
    exact .inr ⟨by decide, fun _ _ _ ↦ handlePlayerMove_ne_chat⟩

/-- **What a frame has sent as chat messages.** -/
theorem mem_route_chat (hr : Standard h.router) {m : Conn × Message} :
    m ∈ (h.route conn msg).2 ∧ m.2.cmd = 0x0004 ↔
      ∃ roomId content playerId, h.Chats conn msg roomId content playerId ∧
        m.1 ∈ h.world.roomComponent.getConnectionsInRoom roomId ∧
        m.2 = chatMessage playerId content := by
  rcases hlookup : h.router.handlers.lookup msg.cmd with _ | f
  · have hsent : (h.route conn msg).2 = [] := by
      rw [route, Service.ProtocolRouter.route, hlookup]
    rw [hsent]
    refine iff_of_false (fun hm ↦ List.not_mem_nil hm.1) ?_
    rintro ⟨_, _, _, hchats, _⟩
    have hregistered := hchats.registered
    rw [Service.ProtocolRouter.registered, hlookup] at hregistered
    cases hregistered
  have hsent : (h.route conn msg).2 = (f h.world conn msg).2 := by
    rw [route, Service.ProtocolRouter.route, hlookup]
  have hregistered : h.router.registered msg = true := by
    rw [Service.ProtocolRouter.registered, hlookup]
    rfl
  obtain ⟨k, hk⟩ := hr _ f hlookup
  rw [hsent]
  rcases handler_cases hk with ⟨hcmd, rfl⟩ | ⟨hcmd, hother⟩
  · rw [mem_handleChat]
    constructor
    · rintro ⟨roomId, content, playerId, hdecode, hsender, hmem, hmsg⟩
      exact ⟨roomId, content, playerId, ⟨hcmd, hregistered, hdecode, hsender⟩, hmem, hmsg⟩
    · rintro ⟨roomId, content, playerId, hchats, hmem, hmsg⟩
      exact ⟨roomId, content, playerId, hchats.decode, hchats.sender, hmem, hmsg⟩
  · refine iff_of_false (fun hm ↦ hother _ _ _ m hm.1 hm.2) ?_
    rintro ⟨_, _, _, hchats, _⟩
    exact hcmd hchats.cmd

/-! ## Runs -/

theorem tidy_foldl (l : List Component) (conn : Conn) (h : Host Conn)
    (ht : h.world.roomComponent.Tidy) :
    (l.foldl (onDisconnect conn) h).world.roomComponent.Tidy := by
  induction l generalizing h with
  | nil => exact ht
  | cons k l ih =>
    refine ih _ ?_
    rw [roomComponent_onDisconnect]
    split
    · exact ht.leaveRoom conn
    · exact ht

/-- Every event keeps the two tables of the rooms in step. -/
theorem tidy_step (hr : Standard h.router) (ht : h.world.roomComponent.Tidy) (e : Event Conn) :
    (h.step e).world.roomComponent.Tidy := by
  match e with
  | .disconnect conn => exact tidy_foldl _ conn h ht
  | .logout conn => exact ht
  | .leaveRoom conn => exact ht.leaveRoom conn
  | .frame conn msg =>
    have hanswer := hr.answer h.world conn msg
    have hworld : (h.step (.frame conn msg)).world = (h.router.route h.world conn msg).1 := rfl
    rw [hworld]
    generalize h.router.route h.world conn msg = out at hanswer
    rcases hanswer with _ | _ | _ | _ | _ | joins | _
    · exact ht
    · exact ht
    · exact ht
    · exact ht
    · exact ht
    · exact ht.joinRoom conn _
    · exact ht

theorem tidy_run (order : List Component) (events : List (Event Conn)) :
    ((new order).run events).world.roomComponent.Tidy := by
  induction events using List.reverseRecOn with
  | nil =>
    rw [run, List.foldl_nil, roomComponent_new]
    exact RoomComponent.tidy_empty
  | append_singleton events e ih =>
    rw [run_append_singleton]
    exact tidy_step (steady_run order events).standard ih e

/-- The chat messages that a frame has sent go to connections that are in the room which the frame
names, as the sender is. -/
def Stays (h : Host Conn) (conn : Conn) (msg : Message) : Prop :=
  ∀ m ∈ (h.route conn msg).2, m.2.cmd = 0x0004 →
    ∃ roomId content, decodeChat msg.body = some (roomId, content) ∧
      h.world.roomComponent.InRoom conn roomId ∧ h.world.roomComponent.InRoom m.1 roomId

/-- Whoever speaks into a room with somebody in it is there. -/
def Inside (h : Host Conn) (conn : Conn) (msg : Message) : Prop :=
  ∀ roomId content playerId, h.Chats conn msg roomId content playerId →
    (∃ c, h.world.roomComponent.InRoom c roomId) → h.world.roomComponent.InRoom conn roomId

theorem stays_iff (hr : Standard h.router) (ht : h.world.roomComponent.Tidy) :
    h.Stays conn msg ↔ h.Inside conn msg := by
  constructor
  · rintro hstays roomId content playerId hchats ⟨c, hc⟩
    obtain ⟨hmem, hcmd⟩ := (mem_route_chat hr (m := (c, chatMessage playerId content))).2
      ⟨roomId, content, playerId, hchats, ht.mem_getConnectionsInRoom.2 hc, rfl⟩
    obtain ⟨roomId', content', hdecode, hconn, -⟩ := hstays _ hmem hcmd
    obtain ⟨rfl, -⟩ := Prod.mk.inj (Option.some.inj (hdecode.symm.trans hchats.decode))
    exact hconn
  · intro hinside m hm hcmd
    obtain ⟨roomId, content, playerId, hchats, hmem, -⟩ := (mem_route_chat hr).1 ⟨hm, hcmd⟩
    have hc := ht.mem_getConnectionsInRoom.1 hmem
    exact ⟨roomId, content, hchats.decode, hinside roomId content playerId hchats ⟨m.1, hc⟩, hc⟩

/-- **When chat stays in the room.**  Whatever components a server has, and in every run of frames,
disconnects, logouts and leaves: all chat messages go from members of the room that is named to
members of it if and only if no frame speaks from outside into a room with somebody in it. -/
theorem chat_stays_iff (order : List Component) (events : List (Event Conn)) :
    (∀ before conn msg after, events = before ++ .frame conn msg :: after →
      ((new order).run before).Stays conn msg) ↔
    ∀ before conn msg after, events = before ++ .frame conn msg :: after →
      ((new order).run before).Inside conn msg := by
  have hstays (before : List (Event Conn)) (conn : Conn) (msg : Message) :
      ((new order).run before).Stays conn msg ↔ ((new order).run before).Inside conn msg :=
    stays_iff (steady_run order before).standard (tidy_run order before)
  simp only [hstays]

/-- The components of a server with chat. -/
def parlour : List Component := [.protocolRouter, .sessionManager, .login, .room, .chat]

/-- A chat message. -/
def chatFrame (roomId content : String) : Message :=
  ⟨0x0003, encodeString (lit roomId) ++ encodeString (lit content)⟩

/-- Ann is in the hall, and Bob has logged in. -/
def bobOutside : List (Event ℕ) :=
  [.frame 1 (loginFrame "ann" "t"), .frame 1 (joinFrame "hall"), .frame 2 (loginFrame "bob" "t")]

/-- Bob speaks into the hall. -/
theorem bob_speaks_from_outside :
    ¬ ∀ (order : List Component) (events : List (Event ℕ)) (before : List (Event ℕ)) (conn : ℕ)
      (msg : Message) (after : List (Event ℕ)), events = before ++ .frame conn msg :: after →
        ((new order).run before).Stays conn msg := by
  intro hall
  have hstays := hall parlour _ bobOutside 2 (chatFrame "hall" "hi") [] rfl
  obtain ⟨roomId, content, hdecode, hin, -⟩ :=
    hstays (1, chatMessage (lit "bob") (lit "hi")) (by decide +kernel) rfl
  obtain ⟨rfl, -⟩ := Prod.mk.inj (Option.some.inj (hdecode.symm.trans
    (show decodeChat (chatFrame "hall" "hi").body = some (lit "hall", lit "hi") by decide)))
  obtain ⟨room, hroom, hmem⟩ := hin
  have hhall : ((new parlour).run bobOutside).world.roomComponent.rooms.lookup (lit "hall") =
    some ⟨lit "hall", ⟨[1], List.nodup_singleton 1⟩⟩ := by rfl
  obtain rfl := Option.some.inj (hroom.symm.trans hhall)
  exact absurd (List.mem_singleton.1 hmem) (by decide)

end Host

end Game
end ChwellCore
