import ChwellCore.Game.PlayerMove
import ChwellCore.Service.Router
import Mathlib.Data.List.Induction

/-!
# A server of all components

`Host` is a `Service` to which components have been added, one of a kind, in some order.  The order
matters in two places.  A component looks for the router when it is added, and registers its handler
if it finds one; a component that is added before the router never gets a message.  And
`dispatch_disconnect` tells the components of a lost connection in the order in which they were
added, while some of them ask others about the connection at that moment.

A component that has not been added is one whose tables stay empty.  The `SessionManager` is the
exception: handlers behave differently without one.
-/

set_option autoImplicit false

namespace ChwellCore
namespace Game

open Protocol (Message)
open Service (SessionManager SessionInfo ProtocolRouter MessageHandler)

/-! ## Components in some order -/

/-- The kinds of component. -/
inductive Component
  | sessionManager
  | protocolRouter
  | login
  | chat
  | room
  | heartbeat
  | playerMove
deriving DecidableEq, Repr

namespace Component

variable {Conn : Type} [DecidableEq Conn]

/-- What a component registers with the router in `on_register`. -/
def handler : Component → Option (UInt16 × MessageHandler Conn (World Conn))
  | .login => some (0x0001, fun w conn msg ↦ w.lift Server.handleLogin conn msg.body)
  | .chat => some (0x0003, fun w conn msg ↦ w.lift Server.handleChat conn msg.body)
  | .heartbeat => some (0x0005, fun w conn msg ↦ w.handleHeartbeat conn msg.body)
  | .room => some (0x0007, fun w conn msg ↦ w.lift Server.handleJoinRoom conn msg.body)
  | .playerMove => some (0x0081, fun w conn msg ↦ w.handlePlayerMove conn msg.body)
  | .sessionManager => none
  | .protocolRouter => none

end Component

/-- A `Service`: its components in the order in which they were added, the router, and the state of
the others. -/
structure Host (Conn : Type) where
  components : List Component
  router : ProtocolRouter Conn (World Conn)
  world : World Conn

namespace Host

variable {Conn : Type} [DecidableEq Conn]

/-- A service without components. -/
def empty : Host Conn := ⟨[], .new, .empty⟩

/-- `on_register` of a component that finds these components before it. -/
def register (before : List Component) (r : ProtocolRouter Conn (World Conn)) (k : Component) :
    ProtocolRouter Conn (World Conn) :=
  match (k.handler : Option (UInt16 × MessageHandler Conn (World Conn))) with
  | none => r
  | some (cmd, f) => if .protocolRouter ∈ before then r.registerHandler cmd f else r

/-- `add_component`. -/
def addComponent (h : Host Conn) (k : Component) : Host Conn where
  components := h.components ++ [k]
  router := register h.components h.router k
  world :=
    if k = .sessionManager then { h.world with sessionManager := some ⟨∅⟩ } else h.world

/-- A service to which these components have been added. -/
def new (order : List Component) : Host Conn := order.foldl addComponent empty

/-- `on_disconnect` of a component. -/
def onDisconnect (conn : Conn) (h : Host Conn) : Component → Host Conn
  | .sessionManager =>
    { h with world.sessionManager := h.world.sessionManager.map (·.onDisconnect conn) }
  | .protocolRouter => { h with router := h.router.onDisconnect conn }
  | .room => { h with world.toServer := h.world.toServer.leaveRoom conn }
  | .playerMove =>
    if h.world.getPlayerId conn = [] then h
    else
      { h with
        world.playerPositions := h.world.playerPositions.erase (h.world.getPlayerId conn) }
  | .login | .chat | .heartbeat => h

/-- `dispatch_disconnect`. -/
def dispatchDisconnect (h : Host Conn) (conn : Conn) : Host Conn :=
  h.components.foldl (onDisconnect conn) h

/-- `dispatch_message`: of all components only the router listens to it. -/
def dispatchMessage (h : Host Conn) (conn : Conn) (data : Bytes) :
    Host Conn × List (Conn × Message) :=
  if .protocolRouter ∈ h.components then
    let r := h.router.onMessage h.world conn data
    ({ h with router := r.1, world := r.2.1 }, r.2.2)
  else (h, [])

/-- One frame of a connection. -/
def route (h : Host Conn) (conn : Conn) (msg : Message) : Host Conn × List (Conn × Message) :=
  let r := h.router.route h.world conn msg
  ({ h with world := r.1 }, r.2)

/-- `SessionManager::logout`. -/
def logout (h : Host Conn) (conn : Conn) : Host Conn :=
  { h with world.sessionManager := h.world.sessionManager.map (·.logout conn) }

/-- `RoomComponent::leave_room`. -/
def leaveRoom (h : Host Conn) (conn : Conn) : Host Conn :=
  { h with world.toServer := h.world.toServer.leaveRoom conn }

end Host

/-! ## What one frame can do -/

/-- The player id and the token of a login. -/
def decodeLogin (body : Bytes) : Option (Bytes × Bytes) := do
  let (playerId, offset) ← decodeString body 0
  let (token, _) ← decodeString body offset
  return (playerId, token)

section Answers

variable {Conn : Type} [DecidableEq Conn]

/-- The world after a login. -/
def World.login (w : World Conn) (conn : Conn) (playerId : Bytes) : World Conn :=
  { w with sessionManager := w.sessionManager.map (·.login conn playerId) }

/-- The world after a join. -/
def World.join (w : World Conn) (conn : Conn) (roomId : Bytes) : World Conn :=
  { w with sessionManager := w.sessionManager.map (·.joinRoom conn roomId)
           roomComponent := w.roomComponent.joinRoom conn roomId }

/-- The frame is a request to join this room that `handle_join_room` accepts. -/
structure World.Joins (w : World Conn) (conn : Conn) (msg : Message) (roomId : Bytes) : Prop where
  cmd : msg.cmd = 0x0007
  decode : ∃ offset, decodeString msg.body 0 = some (roomId, offset)
  ne_nil : roomId ≠ []
  may : w.mayJoin conn = true

/-- **What a handler can do with a frame**: the world afterwards, and what it sends. -/
inductive Answer (w : World Conn) (conn : Conn) (msg : Message) :
    World Conn × List (Conn × Message) → Prop
  | ignored : Answer w conn msg (w, [])
  | refused (errorCode : UInt16) (message : String) :
    Answer w conn msg (w, [(conn, errorResponse errorCode message)])
  | heartbeat (timestampMs : UInt64) :
    Answer w conn msg (w, [(conn, heartbeatResponse timestampMs)])
  | login {playerId token : Bytes} (decode : decodeLogin msg.body = some (playerId, token))
    (player_ne : playerId ≠ []) (token_ne : token ≠ []) :
    Answer w conn msg (w.login conn playerId, [(conn, loginResponse true "Login success")])
  | chat {playerId : Bytes} (roomId content : Bytes) (sender : w.sender conn = some playerId) :
    Answer w conn msg (w, w.broadcastChat roomId playerId content)
  | join {roomId : Bytes} (joins : w.Joins conn msg roomId) :
    Answer w conn msg
      (w.join conn roomId, [(conn, joinRoomResponse true "Join room success" roomId)])
  | move (pos : PlayerPosition) (player : w.getPlayerId conn ≠ []) :
    Answer w conn msg (w.updatePlayerPosition (w.getPlayerId conn) pos,
      if w.getRoomId conn = [] then []
      else w.broadcastPlayerPosition (w.getRoomId conn) (w.getPlayerId conn) pos)

section

variable (w : World Conn) (conn : Conn) (msg : Message)

theorem answer_handleLogin : Answer w conn msg (w.lift Server.handleLogin conn msg.body) := by
  rw [World.lift, Server.handleLogin]
  split
  · exact .refused 1 _
  next playerId offset hplayer =>
  split
  · exact .refused 1 _
  next token offset' htoken =>
  split
  · exact .refused 2 _
  next hplayer_ne =>
  split
  · exact .refused 3 _
  next htoken_ne =>
  have hdecode : decodeLogin msg.body = some (playerId, token) := by
    simp only [decodeLogin, hplayer, htoken, Option.bind_eq_bind, Option.bind_some]
    rfl
  exact .login hdecode hplayer_ne htoken_ne

theorem answer_handleChat : Answer w conn msg (w.lift Server.handleChat conn msg.body) := by
  rw [World.lift, Server.handleChat]
  split
  · exact .refused 1 _
  split
  · exact .refused 1 _
  split
  · exact .refused 4 _
  · next hsender => exact .chat _ _ hsender

theorem answer_handleJoinRoom (hcmd : msg.cmd = 0x0007) :
    Answer w conn msg (w.lift Server.handleJoinRoom conn msg.body) := by
  rw [World.lift, Server.handleJoinRoom]
  split
  · exact .refused 1 _
  next roomId offset hroom =>
  split
  · exact .refused 1 _
  next hne =>
  split
  · next hmay => exact .join ⟨hcmd, ⟨offset, hroom⟩, hne, hmay⟩
  · exact .refused 4 _

theorem answer_handlePlayerMove : Answer w conn msg (w.handlePlayerMove conn msg.body) := by
  rw [World.handlePlayerMove]
  split
  · exact .ignored
  split
  · exact .ignored
  · next hplayer => exact .move _ hplayer

theorem answer_handleHeartbeat : Answer w conn msg (w.handleHeartbeat conn msg.body) := by
  rw [World.handleHeartbeat]
  split
  · exact .ignored
  · exact .heartbeat _

end

/-- Every handler of the router is that of a component. -/
def Standard (r : ProtocolRouter Conn (World Conn)) : Prop :=
  ∀ cmd f, r.handlers.lookup cmd = some f → ∃ k : Component, k.handler = some (cmd, f)

variable {r : ProtocolRouter Conn (World Conn)}

theorem Standard.register (hr : Standard r) (before : List Component) (k : Component) :
    Standard (Host.register before r k) := by
  rw [Host.register]
  split
  · exact hr
  next cmd f hk =>
  split
  · intro cmd' f' hlookup
    rw [ProtocolRouter.registerHandler, UnorderedMap.lookup_insert_ite] at hlookup
    split at hlookup
    · next hcmd =>
      cases hlookup
      exact ⟨k, hcmd ▸ hk⟩
    · exact hr cmd' f' hlookup
  · exact hr

/-- **One frame.** -/
theorem Standard.answer (hr : Standard r) (w : World Conn) (conn : Conn) (msg : Message) :
    Answer w conn msg (r.route w conn msg) := by
  rw [ProtocolRouter.route]
  split
  · exact .ignored
  next f hlookup =>
  obtain ⟨k, hk⟩ := hr _ f hlookup
  cases k with
  | login =>
    obtain ⟨-, rfl⟩ := Prod.mk.inj (Option.some.inj hk)
    exact answer_handleLogin w conn msg
  | chat =>
    obtain ⟨-, rfl⟩ := Prod.mk.inj (Option.some.inj hk)
    exact answer_handleChat w conn msg
  | room =>
    obtain ⟨hcmd, rfl⟩ := Prod.mk.inj (Option.some.inj hk)
    exact answer_handleJoinRoom w conn msg hcmd.symm
  | heartbeat =>
    obtain ⟨-, rfl⟩ := Prod.mk.inj (Option.some.inj hk)
    exact answer_handleHeartbeat w conn msg
  | playerMove =>
    obtain ⟨-, rfl⟩ := Prod.mk.inj (Option.some.inj hk)
    exact answer_handlePlayerMove w conn msg
  | sessionManager => cases hk
  | protocolRouter => cases hk

end Answers

/-! ## What a disconnect does -/

section Disconnect

variable {Conn : Type} [DecidableEq Conn] {conn : Conn} {h : Host Conn}

/-- A pass over a list in which some elements do one thing, and the others nothing. -/
theorem foldl_of_stages {σ κ β : Type} {step : σ → κ → σ} {f : σ → β} {p : κ → Bool} {g : β → β}
    (hg : ∀ b, g (g b) = g b) (hstep : ∀ s k, f (step s k) = if p k then g (f s) else f s)
    (l : List κ) (s : σ) : f (l.foldl step s) = if l.any p then g (f s) else f s := by
  induction l generalizing s with
  | nil => rfl
  | cons k l ih =>
    rw [List.foldl_cons, ih, hstep, List.any_cons]
    by_cases hk : p k = true <;> by_cases hl : l.any p = true <;> simp [hk, hl, hg]

/-- The same where nobody does anything. -/
theorem foldl_of_fixed {σ κ β : Type} {step : σ → κ → σ} {f : σ → β}
    (hstep : ∀ s k, f (step s k) = f s) (l : List κ) (s : σ) : f (l.foldl step s) = f s :=
  (foldl_of_stages (p := fun _ ↦ false) (g := id) (fun _ ↦ rfl) hstep l s).trans (ite_self _)

/-- What a table says when the entry of one key is gone. -/
def dropped {κ ν : Type} [DecidableEq κ] (k : κ) (v : ν) (f : κ → ν) (k' : κ) : ν :=
  if k' = k then v else f k'

theorem dropped_dropped {κ ν : Type} [DecidableEq κ] (k : κ) (v : ν) (f : κ → ν) :
    dropped k v (dropped k v f) = dropped k v f := by
  funext k'
  simp only [dropped]
  split <;> rfl

theorem session_onDisconnect (k : Component) (c : Conn) :
    (Host.onDisconnect conn h k).world.session c =
      if c = conn then
        if k = .sessionManager then none
        else if k = .room then (h.world.session c).map fun s ↦ { s with roomId := [] }
        else h.world.session c
      else h.world.session c := by
  cases k with
  | sessionManager =>
    show (h.world.sessionManager.map _).bind _ = _
    rw [World.session]
    rcases h.world.sessionManager with _ | m
    · simp
    · simp only [Option.map_some, Option.bind_some, if_true]
      exact m.lookup_logout conn c
  | room =>
    show (h.world.sessionManager.map _).bind _ = _
    rw [World.session]
    rcases h.world.sessionManager with _ | m
    · simp
    · simp only [Option.map_some, Option.bind_some, SessionManager.leaveRoom_eq,
        SessionManager.lookup_joinRoom]
      by_cases hc : c = conn <;> simp [hc]
  | playerMove =>
    simp only [Host.onDisconnect, reduceCtorEq, if_false, ite_self]
    split <;> rfl
  | protocolRouter | login | chat | heartbeat =>
    simp only [Host.onDisconnect, reduceCtorEq, if_false, ite_self]

theorem roomComponent_onDisconnect (k : Component) :
    (Host.onDisconnect conn h k).world.roomComponent =
      if k = .room then h.world.roomComponent.leaveRoom conn else h.world.roomComponent := by
  cases k with
  | playerMove =>
    simp only [Host.onDisconnect, reduceCtorEq, if_false]
    split <;> rfl
  | sessionManager | protocolRouter | login | chat | room | heartbeat => rfl

theorem router_onDisconnect (k : Component) :
    (Host.onDisconnect conn h k).router =
      if k = .protocolRouter then h.router.onDisconnect conn else h.router := by
  cases k with
  | playerMove =>
    simp only [Host.onDisconnect, reduceCtorEq, if_false]
    split <;> rfl
  | sessionManager | protocolRouter | login | chat | room | heartbeat => rfl

theorem playerPositions_onDisconnect (k : Component) :
    (Host.onDisconnect conn h k).world.playerPositions =
      if k = .playerMove ∧ h.world.getPlayerId conn ≠ [] then
        h.world.playerPositions.erase (h.world.getPlayerId conn)
      else h.world.playerPositions := by
  cases k with
  | playerMove =>
    simp only [Host.onDisconnect, true_and, ne_eq, ite_not]
    split <;> rfl
  | sessionManager | protocolRouter | login | chat | room | heartbeat => rfl

theorem components_onDisconnect (k : Component) :
    (Host.onDisconnect conn h k).components = h.components := by
  cases k with
  | playerMove =>
    simp only [Host.onDisconnect]
    split <;> rfl
  | sessionManager | protocolRouter | login | chat | room | heartbeat => rfl

variable (l : List Component)

/-- Sessions of other connections stay. -/
theorem session_foldl_of_ne {c : Conn} (hc : c ≠ conn) :
    (l.foldl (Host.onDisconnect conn) h).world.session c = h.world.session c :=
  foldl_of_fixed (f := fun h ↦ h.world.session c)
    (fun _ k ↦ (session_onDisconnect k c).trans (if_neg hc)) l h

/-- After the `SessionManager` there is no session. -/
theorem session_foldl_self (hmem : .sessionManager ∈ l) :
    (l.foldl (Host.onDisconnect conn) h).world.session conn = none := by
  have hnone : ((l.foldl (Host.onDisconnect conn) h).world.session conn).isNone = _ :=
    foldl_of_stages (f := fun h ↦ (h.world.session conn).isNone) (p := (· = .sessionManager))
      (g := fun _ ↦ true) (fun _ ↦ rfl) (fun h k ↦ ?_) l h
  · have hany : l.any (· = .sessionManager) = true :=
      List.any_eq_true.2 ⟨_, hmem, decide_eq_true rfl⟩
    rw [if_pos hany] at hnone
    exact Option.isNone_iff_eq_none.1 hnone
  · rw [session_onDisconnect, if_pos rfl]
    simp only [decide_eq_true_eq]
    split
    · rfl
    split
    · exact Option.isNone_map
    · rfl

/-- Who is logged in on a connection, after some components have been told. -/
theorem getPlayerId_foldl :
    (l.foldl (Host.onDisconnect conn) h).world.getPlayerId =
      if l.any (· = .sessionManager) then dropped conn [] h.world.getPlayerId
      else h.world.getPlayerId := by
  refine foldl_of_stages (f := fun h : Host Conn ↦ h.world.getPlayerId) (dropped_dropped conn [])
    (fun h k ↦ funext fun c ↦ ?_) l h
  rw [World.getPlayerId_eq, session_onDisconnect]
  simp only [decide_eq_true_eq]
  by_cases hk : k = .sessionManager
  · subst hk
    by_cases hc : c = conn <;> simp [hc, dropped, World.getPlayerId_eq]
  · simp only [hk, if_false]
    rw [World.getPlayerId_eq]
    split
    · split
      · rw [Option.map_map]
        rfl
      · rfl
    · rfl

theorem getRoomId_foldl :
    (l.foldl (Host.onDisconnect conn) h).world.getRoomId =
      if l.any (fun k ↦ k = .sessionManager ∨ k = .room) then dropped conn [] h.world.getRoomId
      else h.world.getRoomId := by
  refine foldl_of_stages (f := fun h : Host Conn ↦ h.world.getRoomId) (dropped_dropped conn [])
    (fun h k ↦ funext fun c ↦ ?_) l h
  rw [World.getRoomId_eq, session_onDisconnect]
  simp only [decide_eq_true_eq]
  by_cases hc : c = conn
  · by_cases hk : k = .sessionManager
    · simp [hk, hc, dropped]
    · by_cases hk' : k = .room
      · rw [hc]
        rcases h.world.session conn with _ | s <;> simp [hk', dropped]
      · simp [hk, hk', hc, World.getRoomId_eq]
  · simp only [hc, if_false, ← World.getRoomId_eq]
    split
    · rw [dropped, if_neg hc]
    · rfl

theorem inRoom_foldl :
    (l.foldl (Host.onDisconnect conn) h).world.roomComponent.InRoom =
      if l.any (· = .room) then dropped conn (fun _ ↦ False) h.world.roomComponent.InRoom
      else h.world.roomComponent.InRoom := by
  refine foldl_of_stages (f := fun h : Host Conn ↦ h.world.roomComponent.InRoom)
    (dropped_dropped conn _) (fun h k ↦ ?_) l h
  simp only [decide_eq_true_eq, roomComponent_onDisconnect]
  split
  · funext c r
    rw [RoomComponent.inRoom_leaveRoom, dropped]
    by_cases hc : c = conn <;> simp [hc]
  · rfl

theorem connectionsMap_foldl :
    (fun c ↦ (l.foldl (Host.onDisconnect conn) h).world.roomComponent.connectionsMap.lookup c) =
      if l.any (· = .room) then
        dropped conn none fun c ↦ h.world.roomComponent.connectionsMap.lookup c
      else fun c ↦ h.world.roomComponent.connectionsMap.lookup c := by
  refine foldl_of_stages
    (f := fun (h : Host Conn) c ↦ h.world.roomComponent.connectionsMap.lookup c)
    (dropped_dropped conn _) (fun h k ↦ ?_) l h
  simp only [decide_eq_true_eq, roomComponent_onDisconnect]
  split
  · funext c
    exact UnorderedMap.lookup_erase_ite _ _ _
  · rfl

theorem parsers_foldl :
    (fun c ↦ (l.foldl (Host.onDisconnect conn) h).router.parsers.lookup c) =
      if l.any (· = .protocolRouter) then dropped conn none fun c ↦ h.router.parsers.lookup c
      else fun c ↦ h.router.parsers.lookup c := by
  refine foldl_of_stages (f := fun (h : Host Conn) c ↦ h.router.parsers.lookup c)
    (dropped_dropped conn _) (fun h k ↦ ?_) l h
  simp only [decide_eq_true_eq, router_onDisconnect]
  split
  · funext c
    exact UnorderedMap.lookup_erase_ite _ _ _
  · rfl

theorem handlers_foldl :
    (l.foldl (Host.onDisconnect conn) h).router.handlers = h.router.handlers :=
  foldl_of_fixed (f := fun h ↦ h.router.handlers)
    (fun _ k ↦ by rw [router_onDisconnect]; split <;> rfl) l h

theorem components_foldl :
    (l.foldl (Host.onDisconnect conn) h).components = h.components :=
  foldl_of_fixed (f := fun h ↦ h.components) (fun _ k ↦ components_onDisconnect k) l h

theorem isSome_sessionManager_foldl :
    (l.foldl (Host.onDisconnect conn) h).world.sessionManager.isSome =
      h.world.sessionManager.isSome := by
  refine foldl_of_fixed (f := fun h ↦ h.world.sessionManager.isSome) (fun h k ↦ ?_) l h
  cases k with
  | playerMove =>
    simp only [Host.onDisconnect]
    split <;> rfl
  | sessionManager | room => exact Option.isSome_map
  | protocolRouter | login | chat | heartbeat => rfl

end Disconnect

/-! ## Runs -/

/-- What happens to a server: a frame of a connection, a disconnect, or a call of
`SessionManager::logout` or `RoomComponent::leave_room`. -/
inductive Event (Conn : Type)
  | frame (conn : Conn) (msg : Message)
  | disconnect (conn : Conn)
  | logout (conn : Conn)
  | leaveRoom (conn : Conn)

namespace Host

variable {Conn : Type} [DecidableEq Conn]

/-- One event. -/
def step (h : Host Conn) : Event Conn → Host Conn
  | .frame conn msg => (h.route conn msg).1
  | .disconnect conn => h.dispatchDisconnect conn
  | .logout conn => h.logout conn
  | .leaveRoom conn => h.leaveRoom conn

/-- One event after another. -/
def run (h : Host Conn) (events : List (Event Conn)) : Host Conn := events.foldl step h

theorem run_append_singleton (h : Host Conn) (events : List (Event Conn)) (e : Event Conn) :
    h.run (events ++ [e]) = (h.run events).step e := by
  rw [run, List.foldl_append]
  rfl

/-- What adding the components has set up, and nothing changes. -/
structure Steady (order : List Component) (h : Host Conn) : Prop where
  components : h.components = order
  standard : Standard h.router
  sessions : .sessionManager ∈ order → h.world.sessionManager.isSome

theorem steady_new (order : List Component) : Steady order (new order : Host Conn) := by
  have hadd : ∀ (l before : List Component) (h : Host Conn), Steady before h →
      Steady (before ++ l) (l.foldl addComponent h) := by
    intro l
    induction l with
    | nil =>
      intro before h hsteady
      rwa [List.append_nil]
    | cons k l ih =>
      intro before h hsteady
      rw [List.append_cons]
      refine ih (before ++ [k]) _ ⟨?_, hsteady.standard.register _ k, fun hmem ↦ ?_⟩
      · rw [addComponent, hsteady.components]
      · rw [addComponent]
        split
        · rfl
        · next hk =>
          rcases List.mem_append.1 hmem with hmem | hmem
          · exact hsteady.sessions hmem
          · exact absurd (List.mem_singleton.1 hmem).symm hk
  refine hadd order [] empty ⟨rfl, fun cmd f hlookup ↦ ?_, fun hmem ↦ ?_⟩
  · cases hlookup
  · cases hmem

/-- A new server has no rooms. -/
theorem roomComponent_new (order : List Component) :
    (new order : Host Conn).world.roomComponent = ⟨∅, ∅⟩ :=
  foldl_of_fixed (f := fun h : Host Conn ↦ h.world.roomComponent)
    (fun h k ↦ by rw [addComponent]; dsimp only; split <;> rfl) order empty

/-- A new server has no sessions. -/
theorem session_new (order : List Component) (conn : Conn) :
    (new order : Host Conn).world.session conn = none :=
  (foldl_of_stages (f := fun h : Host Conn ↦ h.world.session conn) (p := (· = .sessionManager))
    (g := fun _ ↦ none) (fun _ ↦ rfl)
    (fun h k ↦ by rw [addComponent]; simp only [decide_eq_true_eq]; split <;> rfl) order
    empty).trans (ite_self _)

theorem Steady.world {order : List Component} {h : Host Conn} (hsteady : Steady order h)
    {w : World Conn} (hw : w.sessionManager.isSome = h.world.sessionManager.isSome) :
    Steady order { h with world := w } :=
  ⟨hsteady.components, hsteady.standard, fun hmem ↦ hw.trans (hsteady.sessions hmem)⟩

theorem Steady.dispatchDisconnect {order : List Component} {h : Host Conn}
    (hsteady : Steady order h) (conn : Conn) : Steady order (h.dispatchDisconnect conn) := by
  rw [Host.dispatchDisconnect]
  refine ⟨(components_foldl _).trans hsteady.components, ?_, fun hmem ↦ ?_⟩
  · rw [Standard, handlers_foldl]
    exact hsteady.standard
  · rw [isSome_sessionManager_foldl]
    exact hsteady.sessions hmem

theorem Steady.step {order : List Component} {h : Host Conn} (hsteady : Steady order h)
    (e : Event Conn) : Steady order (h.step e) := by
  cases e with
  | frame conn msg =>
    refine hsteady.world ?_
    have hanswer := hsteady.standard.answer h.world conn msg
    generalize h.router.route h.world conn msg = out at hanswer
    cases hanswer with
    | ignored | refused | heartbeat | chat | move => rfl
    | login | join => exact Option.isSome_map
  | disconnect conn => exact hsteady.dispatchDisconnect conn
  | logout conn => exact hsteady.world Option.isSome_map
  | leaveRoom conn => exact hsteady.world Option.isSome_map

theorem steady_run (order : List Component) (events : List (Event Conn)) :
    Steady order ((new order : Host Conn).run events) := by
  induction events using List.reverseRecOn with
  | nil => exact steady_new order
  | append_singleton events e ih =>
    rw [run_append_singleton]
    exact ih.step e

end Host

/-! ## Sessions after an event -/

namespace World

variable {Conn : Type} [DecidableEq Conn] {w : World Conn}

theorem session_login (hw : w.sessionManager.isSome) (conn : Conn) (playerId : Bytes) (c : Conn) :
    (w.login conn playerId).session c =
      if c = conn then
        some { (w.session conn).getD {} with playerId := playerId, authed := true }
      else w.session c := by
  obtain ⟨m, hm⟩ := Option.isSome_iff_exists.1 hw
  rw [login, session, session, session, hm]
  exact m.lookup_login conn c playerId

theorem session_join (conn : Conn) (roomId : Bytes) (c : Conn) :
    (w.join conn roomId).session c =
      (w.session c).map fun s ↦ if c = conn then { s with roomId := roomId } else s := by
  rw [join, session, session]
  rcases w.sessionManager with _ | m
  · rfl
  · exact m.lookup_joinRoom conn c roomId

/-- To leave a room is to join the room without a name, as far as sessions go. -/
theorem session_leaveRoom (conn c : Conn) :
    ({ w with toServer := w.toServer.leaveRoom conn } : World Conn).session c =
      (w.session c).map fun s ↦ if c = conn then { s with roomId := [] } else s :=
  session_join conn [] c

theorem session_logout (conn c : Conn) :
    ({ w with sessionManager := w.sessionManager.map (·.logout conn) } : World Conn).session c =
      if c = conn then none else w.session c := by
  rw [session, session]
  rcases w.sessionManager with _ | m
  · exact (ite_self _).symm
  · exact m.lookup_logout conn c

theorem mayJoin_iff (hw : w.sessionManager.isSome) (conn : Conn) :
    w.mayJoin conn = true ↔ ∃ s, w.session conn = some s ∧ s.authed = true := by
  obtain ⟨m, hm⟩ := Option.isSome_iff_exists.1 hw
  rw [Server.mayJoin, session, hm]
  show m.isLoggedIn conn = true ↔ ∃ s, m.sessions.lookup conn = some s ∧ s.authed = true
  rw [SessionManager.isLoggedIn]
  rcases m.sessions.lookup conn with _ | s <;> simp

end World

end Game
end ChwellCore
