import ChwellCore.Game.Host

/-!
# Who may speak

A chat message, a position and a place in a room are asked for by a frame of a connection, and are
given only to a connection on which somebody is logged in.  Three handlers ask for that in three
ways, against a table that logins, logouts and disconnects of all connections change.

`Watched` runs a server and writes down the last session event of each connection: a login, a logout
or a disconnect.  A request to log in counts as a login if it is answered with a login response; one
that is refused leaves the session as it was.  `speaks_only_if_loggedIn` says that what a frame of a
connection has broadcast is broadcast only if the last session event of this connection is a login,
and in the name given there.
-/

set_option autoImplicit false

namespace ChwellCore
namespace Game

open Protocol (Message)

variable {Conn : Type} [DecidableEq Conn]

/-- What happens to the session of a connection. -/
inductive SessionEvent
  | login (playerId token : Bytes)
  | logout
  | disconnect
deriving DecidableEq

/-- A server, and the last session event of each connection. -/
structure Watched (Conn : Type) where
  host : Host Conn
  last : Conn → Option SessionEvent

/-- The player id and the token of a request to log in that is answered with a login response. -/
def acceptedLogin (conn : Conn) (msg : Message) (sent : List (Conn × Message)) :
    Option (Bytes × Bytes) :=
  if (conn, loginResponse true "Login success") ∈ sent then decodeLogin msg.body else none

namespace Watched

/-- A server that nothing has happened to. -/
def new (order : List Component) : Watched Conn := ⟨.new order, fun _ ↦ none⟩

/-- Write down a session event. -/
def note (t : Watched Conn) (conn : Conn) (e : SessionEvent) : Conn → Option SessionEvent :=
  Function.update t.last conn (some e)

/-- One event. -/
def step (t : Watched Conn) (e : Event Conn) : Watched Conn where
  host := t.host.step e
  last :=
    match e with
    | .frame conn msg =>
      match acceptedLogin conn msg (t.host.route conn msg).2 with
      | none => t.last
      | some (playerId, token) => t.note conn (.login playerId token)
    | .disconnect conn => t.note conn .disconnect
    | .logout conn => t.note conn .logout
    | .leaveRoom _ => t.last

/-- One event after another. -/
def run (t : Watched Conn) (events : List (Event Conn)) : Watched Conn := events.foldl step t

theorem run_append_singleton (t : Watched Conn) (events : List (Event Conn)) (e : Event Conn) :
    t.run (events ++ [e]) = (t.run events).step e := by
  rw [run, List.foldl_append]
  rfl

theorem host_run (order : List Component) (events : List (Event Conn)) :
    ((new order : Watched Conn).run events).host = (Host.new order).run events := by
  induction events using List.reverseRecOn with
  | nil => rfl
  | append_singleton events e ih =>
    rw [run_append_singleton, Host.run_append_singleton, ← ih]
    rfl

/-- The last session event of the connection is a login of this player, with a token. -/
def LoggedIn (t : Watched Conn) (conn : Conn) (playerId : Bytes) : Prop :=
  playerId ≠ [] ∧ ∃ token, token ≠ [] ∧ t.last conn = some (.login playerId token)

/-! ## What the table says -/

/-- The table of sessions says what the last session event was. -/
inductive Told (t : Watched Conn) (c : Conn) : Prop
  | session (playerId : Bytes) (s : Service.SessionInfo) (hlogin : t.LoggedIn c playerId)
    (hsession : t.host.world.session c = some s) (hauthed : s.authed = true)
    (hplayer : s.playerId = playerId)
  | nobody (hnone : t.host.world.session c = none)

variable {t : Watched Conn} {order : List Component} {c : Conn}

/-- Whoever is found in the table is logged in. -/
theorem Told.loggedIn_of_getPlayerId (h : Told t c) (hne : t.host.world.getPlayerId c ≠ []) :
    t.LoggedIn c (t.host.world.getPlayerId c) := by
  rw [World.getPlayerId_eq] at hne ⊢
  cases h with
  | session playerId s hlogin hsession hauthed hplayer =>
    rw [hsession, Option.map_some, Option.getD_some, if_pos hauthed, hplayer]
    exact hlogin
  | nobody hnone =>
    rw [hnone] at hne
    exact absurd rfl hne

theorem Told.loggedIn_of_mayJoin (h : Told t c) (hw : t.host.world.sessionManager.isSome)
    (hmay : t.host.world.mayJoin c = true) : ∃ playerId, t.LoggedIn c playerId := by
  obtain ⟨s, hs, -⟩ := (World.mayJoin_iff hw c).1 hmay
  cases h with
  | session playerId _ hlogin => exact ⟨playerId, hlogin⟩
  | nobody hnone =>
    rw [hs] at hnone
    cases hnone

/-- With a `SessionManager`, `handle_chat` speaks in the name found in the table. -/
theorem sender_eq_some {w : World Conn} (hw : w.sessionManager.isSome) {playerId : Bytes}
    (h : w.sender c = some playerId) : w.getPlayerId c = playerId ∧ playerId ≠ [] := by
  obtain ⟨m, hm⟩ := Option.isSome_iff_exists.1 hw
  rw [Server.sender, hm] at h
  rw [World.getPlayerId, hm]
  dsimp only at h ⊢
  obtain ⟨hne, h⟩ := Option.ite_none_left_eq_some.1 h
  obtain rfl := Option.some.inj h
  exact ⟨rfl, hne⟩

/-- An event that leaves the session of a connection alone, and what is known of it. -/
theorem Told.frame {t' : Watched Conn} (h : Told t c) (hlast : t'.last c = t.last c)
    (hsession : (t'.host.world.session c).map (fun s ↦ (s.playerId, s.authed)) =
      (t.host.world.session c).map fun s ↦ (s.playerId, s.authed)) : Told t' c := by
  cases h with
  | session playerId s hlogin hs hauthed hplayer =>
    rw [hs, Option.map_some, Option.map_eq_some_iff] at hsession
    obtain ⟨s', hs', he⟩ := hsession
    obtain ⟨hp, ha⟩ := Prod.mk.inj he
    refine .session playerId s' ⟨hlogin.1, ?_⟩ hs' (ha.trans hauthed) (hp.trans hplayer)
    rw [hlast]
    exact hlogin.2
  | nobody hnone =>
    rw [hnone, Option.map_none, Option.map_eq_none_iff] at hsession
    exact .nobody hsession

/-- Nobody is logged in by other messages. -/
theorem acceptedLogin_eq_none {conn : Conn} {msg : Message} {sent : List (Conn × Message)}
    (h : ∀ m ∈ sent, m.2.cmd ≠ 0x0002) : acceptedLogin conn msg sent = none :=
  if_neg fun hmem ↦ h _ hmem rfl

section Step

variable (hsteady : Host.Steady order t.host) (hmem : .sessionManager ∈ order)

include hsteady hmem

theorem Told.step_frame (htold : ∀ c, Told t c) (conn : Conn) (msg : Message) (c : Conn) :
    Told (t.step (.frame conn msg)) c := by
  have hw := hsteady.sessions hmem
  have hanswer := hsteady.standard.answer t.host.world conn msg
  have hworld : (t.step (.frame conn msg)).host.world =
    (t.host.router.route t.host.world conn msg).1 := rfl
  have hlast : (t.step (.frame conn msg)).last =
      match acceptedLogin conn msg (t.host.router.route t.host.world conn msg).2 with
      | none => t.last
      | some (playerId, token) => t.note conn (.login playerId token) := rfl
  generalize t.host.router.route t.host.world conn msg = out at hanswer hworld hlast
  -- what is sent tells a login from everything else
  have hkeep (hcmd : ∀ m ∈ out.2, m.2.cmd ≠ 0x0002) :
      (t.step (.frame conn msg)).last c = t.last c := by
    rw [hlast, acceptedLogin_eq_none hcmd]
  cases hanswer with
  | ignored =>
    exact (htold c).frame (hkeep fun m hm ↦ absurd hm List.not_mem_nil) (by rw [hworld])
  | refused errorCode message =>
    refine (htold c).frame (hkeep (List.forall_mem_singleton.2 ?_)) (by rw [hworld])
    simp [errorResponse]
  | heartbeat timestampMs =>
    refine (htold c).frame (hkeep (List.forall_mem_singleton.2 ?_)) (by rw [hworld])
    simp [heartbeatResponse]
  | chat roomId content =>
    refine (htold c).frame (hkeep ?_) (by rw [hworld])
    simp [Server.broadcastChat, chatMessage]
  | move pos =>
    refine (htold c).frame (hkeep ?_) (by rw [hworld]; rfl)
    dsimp only
    split
    · simp
    · simp [World.broadcastPlayerPosition, playerPositionMessage]
  | join joins =>
    refine (htold c).frame (hkeep (List.forall_mem_singleton.2 (by simp [joinRoomResponse]))) ?_
    rw [hworld, World.session_join, Option.map_map]
    congr 1
    funext s
    simp only [Function.comp_apply]
    split <;> rfl
  | @login playerId token decode player_ne token_ne =>
    have haccepted : acceptedLogin conn msg [(conn, loginResponse true "Login success")] =
        some (playerId, token) := by
      rw [acceptedLogin, if_pos (List.mem_singleton_self _), decode]
    rw [haccepted] at hlast
    by_cases hc : c = conn
    · subst hc
      have hsession := World.session_login hw c playerId c
      rw [if_pos rfl] at hsession
      rw [← show (t.step (.frame c msg)).host.world = t.host.world.login c playerId from hworld]
        at hsession
      refine .session playerId _ ⟨player_ne, token, token_ne, ?_⟩ hsession rfl rfl
      rw [hlast]
      exact Function.update_self _ _ _
    · refine (htold c).frame ?_ ?_
      · rw [hlast]
        exact Function.update_of_ne hc _ _
      · rw [hworld, World.session_login hw, if_neg hc]

/-- What one event does to the table. -/
theorem Told.step (htold : ∀ c, Told t c) (e : Event Conn) (c : Conn) : Told (t.step e) c := by
  cases e with
  | frame conn msg => exact Told.step_frame hsteady hmem htold conn msg c
  | disconnect conn =>
    by_cases hc : c = conn
    · subst hc
      refine .nobody (session_foldl_self _ ?_)
      rw [hsteady.components]
      exact hmem
    · exact (htold c).frame (Function.update_of_ne hc _ _)
        (congrArg (Option.map _) (session_foldl_of_ne _ hc))
  | logout conn =>
    have hsession := World.session_logout (w := t.host.world) conn c
    by_cases hc : c = conn
    · rw [if_pos hc] at hsession
      exact .nobody hsession
    · rw [if_neg hc] at hsession
      exact (htold c).frame (Function.update_of_ne hc _ _) (congrArg (Option.map _) hsession)
  | leaveRoom conn =>
    refine (htold c).frame rfl ?_
    have hsession := World.session_leaveRoom (w := t.host.world) conn c
    refine (congrArg (Option.map _) hsession).trans ?_
    rw [Option.map_map]
    congr 1
    funext s
    simp only [Function.comp_apply]
    split <;> rfl

end Step

/-- **The table in every run.** -/
theorem told_run (hmem : .sessionManager ∈ order) (events : List (Event Conn)) (c : Conn) :
    Told ((new order).run events) c := by
  induction events using List.reverseRecOn generalizing c with
  | nil => exact .nobody (Host.session_new order c)
  | append_singleton events e ih =>
    rw [run_append_singleton]
    refine Told.step ?_ hmem ih e c
    rw [host_run]
    exact Host.steady_run order events

/-! ## Who may speak -/

/-- A message of a broadcast in the name of a player. -/
def Voices (playerId : Bytes) (msg : Message) : Prop :=
  (∃ content, msg = chatMessage playerId content) ∨
    ∃ pos, msg = playerPositionMessage playerId pos

/-- **Nothing is broadcast for a connection that is not logged in.**  Whatever components a server
with a `SessionManager` has and in whatever order they were added, after every run a frame of a
connection has a chat message or a position sent only if the last session event of that connection
is a login with a player id and a token, and it is sent in the name of that player; and it lets the
connection into a room only if the last session event is such a login. -/
theorem speaks_only_if_loggedIn (hmem : .sessionManager ∈ order) (events : List (Event Conn))
    (conn : Conn) (msg : Message) :
    let t := (new order : Watched Conn).run events
    (∀ m ∈ (t.host.route conn msg).2, m.2.cmd = 0x0004 ∨ m.2.cmd = 0x0083 →
      ∃ playerId, t.LoggedIn conn playerId ∧ Voices playerId m.2) ∧
    ((t.host.route conn msg).1.world.roomComponent ≠ t.host.world.roomComponent ∨
        (∃ m ∈ (t.host.route conn msg).2, m.2.cmd = 0x0008) →
      ∃ playerId, t.LoggedIn conn playerId) := by
  intro t
  have htold := told_run hmem events conn
  have hsteady : Host.Steady order t.host := by
    rw [host_run]
    exact Host.steady_run order events
  have hw := hsteady.sessions hmem
  have hanswer := hsteady.standard.answer t.host.world conn msg
  have hroute : t.host.route conn msg =
    ({ t.host with world := (t.host.router.route t.host.world conn msg).1 },
      (t.host.router.route t.host.world conn msg).2) := rfl
  rw [hroute]
  generalize t.host.router.route t.host.world conn msg = out at hanswer
  cases hanswer with
  | ignored => simp
  | refused errorCode message => simp [errorResponse]
  | heartbeat timestampMs => simp [heartbeatResponse]
  | login => simp [loginResponse, World.login]
  | @chat playerId roomId content hsender =>
    obtain ⟨hplayer, hne⟩ := sender_eq_some hw hsender
    have hlogin := htold.loggedIn_of_getPlayerId (hplayer ▸ hne)
    rw [hplayer] at hlogin
    refine ⟨fun m hm _ ↦ ⟨playerId, hlogin, ?_⟩, fun _ ↦ ⟨playerId, hlogin⟩⟩
    obtain ⟨c, -, rfl⟩ := List.mem_map.1 hm
    exact .inl ⟨content, rfl⟩
  | join joins =>
    refine ⟨?_, fun _ ↦ htold.loggedIn_of_mayJoin hw joins.may⟩
    simp [joinRoomResponse]
  | move pos hplayer =>
    have hlogin := htold.loggedIn_of_getPlayerId hplayer
    refine ⟨fun m hm _ ↦ ⟨_, hlogin, ?_⟩, fun _ ↦ ⟨_, hlogin⟩⟩
    dsimp only at hm
    split at hm
    · cases hm
    · obtain ⟨c, -, rfl⟩ := List.mem_map.1 hm
      exact .inr ⟨pos, rfl⟩

/-- Ann logs in and joins a room, and what she says there is said by Ann. -/
theorem speaks_ann :
    let t := (new [.sessionManager, .protocolRouter, .login, .chat, .room] : Watched ℕ).run
      [.frame 1 ⟨0x0001, encodeString (lit "ann") ++ encodeString (lit "t")⟩,
        .frame 1 ⟨0x0007, encodeString (lit "hall")⟩]
    ∃ playerId, t.LoggedIn 1 playerId ∧ Voices playerId (chatMessage (lit "ann") (lit "hi")) := by
  intro t
  refine (speaks_only_if_loggedIn (by decide) _ 1
    ⟨0x0003, encodeString (lit "hall") ++ encodeString (lit "hi")⟩).1 (1, _) ?_ (.inl rfl)
  decide +kernel

end Watched

end Game
end ChwellCore
