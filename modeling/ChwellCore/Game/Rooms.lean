import ChwellCore.Game.Host

/-!
# Two records of who is where

`RoomComponent` keeps the connections of each room, and `SessionManager` the room of each session.
They are records of the same fact, and every call that changes one should change the other with it.

Two calls do not.  `join_room` puts a connection into a room without taking it out of the one it was
in, whereas the session forgets that room; and `logout` drops a session without a word to
`RoomComponent`.  `records_agree_iff` says that this is all: the two records agree throughout a run
if and only if nobody joins a second room and nobody logs out of a room in it.

An empty room id is what `get_room_id` returns for a connection that is nowhere, and no request for
a room without a name is accepted.
-/

set_option autoImplicit false

namespace ChwellCore
namespace Game

open Protocol (Message)
open Service (ProtocolRouter)

variable {Conn : Type} [DecidableEq Conn]

namespace World

/-- The two records agree: a connection is in at most one room, and it is in a room if and only if
that is the room of its session. -/
def Agree (w : World Conn) : Prop :=
  ∀ conn, (∀ r r', w.roomComponent.InRoom conn r → w.roomComponent.InRoom conn r' → r = r') ∧
    ∀ r, w.roomComponent.InRoom conn r ↔ r ≠ [] ∧ w.getRoomId conn = r

theorem agree_iff_inRoom {w : World Conn} :
    w.Agree ↔ ∀ conn r, w.roomComponent.InRoom conn r ↔ r ≠ [] ∧ w.getRoomId conn = r := by
  refine ⟨fun h conn ↦ (h conn).2, fun h conn ↦ ⟨fun r r' hr hr' ↦ ?_, h conn⟩⟩
  rw [h] at hr hr'
  exact hr.2.symm.trans hr'.2

/-! ## The room of a session, event by event -/

section RoomIds

variable {w : World Conn} {conn c : Conn}

theorem getRoomId_login (hw : w.sessionManager.isSome) (playerId : Bytes) :
    (w.login conn playerId).getRoomId c = w.getRoomId c := by
  rw [getRoomId_eq, getRoomId_eq, session_login hw]
  split
  · next hc =>
    rw [hc]
    rcases w.session conn with _ | s <;> rfl
  · rfl

theorem getRoomId_join_of_ne (hc : c ≠ conn) (roomId : Bytes) :
    (w.join conn roomId).getRoomId c = w.getRoomId c := by
  rw [getRoomId_eq, getRoomId_eq, session_join]
  simp only [if_neg hc, Option.map_id']

theorem getRoomId_join_self (hw : w.sessionManager.isSome) (hmay : w.mayJoin conn = true)
    (roomId : Bytes) : (w.join conn roomId).getRoomId conn = roomId := by
  obtain ⟨s, hs, -⟩ := (mayJoin_iff hw conn).1 hmay
  rw [getRoomId_eq, session_join, hs]
  simp only [if_true, Option.map_some, Option.getD_some]

theorem getRoomId_leaveRoom :
    ({ w with toServer := w.toServer.leaveRoom conn } : World Conn).getRoomId c =
      if c = conn then [] else w.getRoomId c := by
  rw [getRoomId_eq, getRoomId_eq, session_leaveRoom]
  by_cases hc : c = conn
  · simp only [hc, if_true]
    rcases w.session conn with _ | s <;> rfl
  · simp only [hc, if_false, Option.map_id']

theorem getRoomId_logout :
    ({ w with sessionManager := w.sessionManager.map (·.logout conn) } : World Conn).getRoomId c =
      if c = conn then [] else w.getRoomId c := by
  rw [getRoomId_eq, getRoomId_eq, session_logout]
  split <;> rfl

end RoomIds

end World

namespace Host

/-- The event keeps the two records together: nobody joins a room who is in another one, and nobody
logs out who is in a room. -/
def Orderly (h : Host Conn) : Event Conn → Prop
  | .frame conn msg => ∀ roomId, h.router.registered msg = true → h.world.Joins conn msg roomId →
    h.world.getRoomId conn = [] ∨ h.world.getRoomId conn = roomId
  | .logout conn => h.world.getRoomId conn = []
  | .disconnect _ | .leaveRoom _ => True

variable {h : Host Conn} {order : List Component}

/-- A join that is accepted. -/
theorem route_of_joins (hr : Standard h.router) {conn : Conn} {msg : Message} {roomId : Bytes}
    (hreg : h.router.registered msg = true) (hjoins : h.world.Joins conn msg roomId) :
    (h.route conn msg).1.world = h.world.join conn roomId := by
  obtain ⟨f, hf⟩ := Option.isSome_iff_exists.1 hreg
  obtain ⟨k, hk⟩ := hr _ f hf
  rw [hjoins.cmd] at hk
  obtain ⟨offset, hdecode⟩ := hjoins.decode
  have hf' : f = fun w conn msg ↦ w.lift Server.handleJoinRoom conn msg.body := by
    cases k with
    | room => exact (Prod.mk.inj (Option.some.inj hk)).2.symm
    | login | chat | heartbeat | playerMove =>
      exact absurd (Prod.mk.inj (Option.some.inj hk)).1 (by decide)
    | sessionManager | protocolRouter => cases hk
  simp only [route, ProtocolRouter.route, hf, hf', World.lift, Server.handleJoinRoom, hdecode,
    if_neg hjoins.ne_nil, if_pos hjoins.may]
  rfl

omit [DecidableEq Conn] in
/-- What is sent is sent by a handler. -/
theorem registered_of_route {conn : Conn} {msg : Message} {out : World Conn × List (Conn × Message)}
    (hroute : h.router.route h.world conn msg = out) (hsent : out.2 ≠ []) :
    h.router.registered msg = true := by
  by_contra hreg
  rw [ProtocolRouter.route_of_not_registered (by simpa using hreg)] at hroute
  rw [← hroute] at hsent
  exact hsent rfl

section Step

variable (hsteady : Steady order h) (hsession : .sessionManager ∈ order) (hroom : .room ∈ order)

include hsteady hsession

theorem agree_frame (hagree : h.world.Agree) {conn : Conn} {msg : Message}
    (horderly : h.Orderly (.frame conn msg)) : (h.step (.frame conn msg)).world.Agree := by
  have hw := hsteady.sessions hsession
  rw [World.agree_iff_inRoom] at hagree ⊢
  have hanswer := hsteady.standard.answer h.world conn msg
  have hstep : (h.step (.frame conn msg)).world = (h.router.route h.world conn msg).1 := rfl
  rw [hstep]
  generalize hout : h.router.route h.world conn msg = out at hanswer
  cases hanswer with
  | ignored | refused | heartbeat | chat | move => exact hagree
  | login =>
    intro c r
    rw [World.getRoomId_login hw]
    exact hagree c r
  | @join roomId hjoins =>
    have hreg := registered_of_route hout (List.cons_ne_nil _ _)
    have hbefore := horderly roomId hreg hjoins
    intro c r
    have hrooms : (h.world.join conn roomId).roomComponent =
        h.world.roomComponent.joinRoom conn roomId := rfl
    rw [hrooms, RoomComponent.inRoom_joinRoom, hagree]
    by_cases hc : c = conn
    · rw [hc, World.getRoomId_join_self hw hjoins.may]
      constructor
      · rintro (⟨-, rfl⟩ | ⟨hne, hr⟩)
        · exact ⟨hjoins.ne_nil, rfl⟩
        · rcases hbefore with hnil | hsame
          · exact absurd (hr.symm.trans hnil) hne
          · exact ⟨hne, hsame.symm.trans hr⟩
      · rintro ⟨-, rfl⟩
        exact .inl ⟨rfl, rfl⟩
    · rw [World.getRoomId_join_of_ne hc, or_iff_right fun hboth ↦ hc hboth.1]

omit hsteady hsession in
theorem agree_leaveRoom (hagree : h.world.Agree) (conn : Conn) :
    (h.step (.leaveRoom conn)).world.Agree := by
  rw [World.agree_iff_inRoom] at hagree ⊢
  intro c r
  have hrooms : (h.step (.leaveRoom conn)).world.roomComponent =
      h.world.roomComponent.leaveRoom conn := rfl
  have hid : (h.step (.leaveRoom conn)).world.getRoomId c =
      if c = conn then [] else h.world.getRoomId c := World.getRoomId_leaveRoom
  rw [hrooms, hid, RoomComponent.inRoom_leaveRoom, hagree]
  by_cases hc : c = conn
  · rw [if_pos hc]
    exact ⟨fun hr ↦ absurd hc hr.1, fun hr ↦ absurd hr.2.symm hr.1⟩
  · rw [if_neg hc, and_iff_right hc]

omit hsteady hsession in
theorem agree_logout (hagree : h.world.Agree) {conn : Conn}
    (hnowhere : h.world.getRoomId conn = []) : (h.step (.logout conn)).world.Agree := by
  rw [World.agree_iff_inRoom] at hagree ⊢
  intro c r
  have hrooms : (h.step (.logout conn)).world.roomComponent = h.world.roomComponent := rfl
  have hid : (h.step (.logout conn)).world.getRoomId c =
      if c = conn then [] else h.world.getRoomId c := World.getRoomId_logout
  rw [hrooms, hid, hagree]
  split
  · next hc => rw [hc, hnowhere]
  · rfl

include hroom

omit hsession in
theorem agree_disconnect (hagree : h.world.Agree) (conn : Conn) :
    (h.step (.disconnect conn)).world.Agree := by
  rw [World.agree_iff_inRoom] at hagree ⊢
  have hany : h.components.any (· = .room) = true := by
    rw [hsteady.components]
    exact List.any_eq_true.2 ⟨_, hroom, decide_eq_true rfl⟩
  have hany' : h.components.any (fun k ↦ k = .sessionManager ∨ k = .room) = true := by
    rw [hsteady.components]
    exact List.any_eq_true.2 ⟨_, hroom, decide_eq_true (.inr rfl)⟩
  have hrooms : (h.components.foldl (onDisconnect conn) h).world.roomComponent.InRoom = _ :=
    inRoom_foldl h.components
  have hids : (h.components.foldl (onDisconnect conn) h).world.getRoomId = _ :=
    getRoomId_foldl h.components
  rw [if_pos hany] at hrooms
  rw [if_pos hany'] at hids
  intro c r
  rw [step, dispatchDisconnect, hrooms, hids, dropped, dropped]
  split
  · exact ⟨False.elim, fun hr ↦ absurd hr.2.symm hr.1⟩
  · exact hagree c r

/-- An orderly event keeps the two records together. -/
theorem agree_step (hagree : h.world.Agree) {e : Event Conn} (horderly : h.Orderly e) :
    (h.step e).world.Agree := by
  cases e with
  | frame conn msg => exact agree_frame hsteady hsession hagree horderly
  | disconnect conn => exact agree_disconnect hsteady hroom hagree conn
  | logout conn => exact agree_logout hagree horderly
  | leaveRoom conn => exact agree_leaveRoom hagree conn

omit hsession hroom in
/-- An event that keeps them together is orderly. -/
theorem orderly_of_agree (hagree : h.world.Agree) {e : Event Conn}
    (hafter : (h.step e).world.Agree) : h.Orderly e := by
  cases e with
  | disconnect conn | leaveRoom conn => trivial
  | frame conn msg =>
    intro roomId hreg hjoins
    by_cases hnil : h.world.getRoomId conn = []
    · exact .inl hnil
    · -- the connection stays in the room it was in
      have hworld : (h.step (.frame conn msg)).world = h.world.join conn roomId :=
        route_of_joins hsteady.standard hreg hjoins
      rw [hworld] at hafter
      have hold : (h.world.join conn roomId).roomComponent.InRoom conn (h.world.getRoomId conn) :=
        RoomComponent.inRoom_joinRoom.2 (.inr (((hagree conn).2 _).2 ⟨hnil, rfl⟩))
      have hnew : (h.world.join conn roomId).roomComponent.InRoom conn roomId :=
        RoomComponent.inRoom_joinRoom.2 (.inl ⟨rfl, rfl⟩)
      exact .inr ((hafter conn).1 _ _ hold hnew)
  | logout conn =>
    by_contra hnil
    have hold : (h.step (.logout conn)).world.roomComponent.InRoom conn (h.world.getRoomId conn) :=
      ((hagree conn).2 _).2 ⟨hnil, rfl⟩
    have hid : (h.step (.logout conn)).world.getRoomId conn = [] :=
      World.getRoomId_logout.trans (if_pos rfl)
    have hroomId := (((hafter conn).2 _).1 hold).2
    rw [hid] at hroomId
    exact hnil hroomId.symm

end Step

theorem agree_new (order : List Component) : (new order : Host Conn).world.Agree := by
  rw [World.agree_iff_inRoom]
  intro c r
  rw [roomComponent_new, World.getRoomId_eq, session_new]
  refine ⟨?_, fun hr ↦ absurd hr.2.symm hr.1⟩
  rintro ⟨room, hroom, -⟩
  cases hroom

/-- **When the two records agree.**  In every run of a server with both components, whatever others
it has and in whatever order they were added: `RoomComponent` and `SessionManager` agree after every
event if and only if every event is orderly in the state it finds. -/
theorem records_agree_iff {order : List Component} (hsession : .sessionManager ∈ order)
    (hroom : .room ∈ order) (events : List (Event Conn)) :
    (∀ before after, events = before ++ after → ((new order).run before).world.Agree) ↔
      ∀ before e after, events = before ++ e :: after → ((new order).run before).Orderly e := by
  constructor
  · intro hagree before e after hevents
    refine orderly_of_agree (steady_run order before) (hagree before (e :: after) hevents) ?_
    rw [← run_append_singleton]
    exact hagree (before ++ [e]) after (by rw [hevents, List.append_cons])
  · intro horderly before
    induction before using List.reverseRecOn with
    | nil => exact fun _ _ ↦ agree_new order
    | append_singleton before e ih =>
      intro after hevents
      rw [List.append_assoc] at hevents
      rw [run_append_singleton]
      exact agree_step (steady_run order before) hsession hroom (ih _ hevents)
        (horderly before e after hevents)

/-- The components of a small server. -/
def lobby : List Component := [.protocolRouter, .sessionManager, .login, .room]

/-- A request to log in. -/
def loginFrame (playerId token : String) : Message :=
  ⟨0x0001, encodeString (lit playerId) ++ encodeString (lit token)⟩

/-- A request to join a room. -/
def joinFrame (roomId : String) : Message := ⟨0x0007, encodeString (lit roomId)⟩

/-- Ann logs in and joins a room. -/
def oneRoom : List (Event ℕ) :=
  [.frame 1 (loginFrame "ann" "t"), .frame 1 (joinFrame "hall")]

theorem agree_oneRoom :
    ((new lobby).run oneRoom).world.Agree ∧
      ((new lobby).run oneRoom).world.getRoomId 1 = lit "hall" := by
  refine ⟨(records_agree_iff (by decide) (by decide) oneRoom).2 ?_ oneRoom []
    (List.append_nil _).symm, by decide +kernel⟩
  rintro (_ | ⟨e₁, _ | ⟨e₂, before⟩⟩) e after hevents
  · cases hevents
    intro roomId _ hjoins
    exact absurd hjoins.cmd (by decide)
  · cases hevents
    intro roomId _ _
    exact .inl (by decide +kernel)
  · simp [oneRoom] at hevents

/-- Ann joins a second room and is in both. -/
theorem joins_two_rooms :
    ¬ ∀ (order : List Component) (events : List (Event ℕ)), .sessionManager ∈ order →
      .room ∈ order → ((new order).run events).world.Agree := by
  intro h
  have hagree := h lobby [.frame 1 (loginFrame "ann" "t"), .frame 1 (joinFrame "hall"),
    .frame 1 (joinFrame "yard")] (by decide) (by decide)
  have hone : (1 : ℕ) ∈ (⟨[1], List.nodup_singleton 1⟩ : UnorderedSet ℕ) :=
    List.mem_singleton_self 1
  have hsame := (hagree 1).1 (lit "hall") (lit "yard") ⟨⟨lit "hall", _⟩, by rfl, hone⟩
    ⟨⟨lit "yard", _⟩, by rfl, hone⟩
  exact absurd hsame (by decide)

end Host

end Game
end ChwellCore
