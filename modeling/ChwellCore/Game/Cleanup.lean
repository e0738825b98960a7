import ChwellCore.Game.Host

/-!
# What a disconnect leaves behind

`dispatch_disconnect` lets each component clean up what it has of a connection, in the order in
which the components were added.  Parsers, rooms and sessions are all gone then, in whatever order.

Positions are another matter.  They are stored by player, and `PlayerMoveComponent` asks the
`SessionManager` who the player was.  If the `SessionManager` was added first it does not know any
more, and the position stays for ever.  If it was added later, the position goes, but so it does
when the player is logged in on a second connection.  `clean_iff` says that this is all: a
disconnect leaves nothing behind and nothing else changed if and only if the order is the right one
for this player, or the player has no position.
-/

set_option autoImplicit false

namespace ChwellCore
namespace Game

open Protocol (Message serialize)
open Service (ProtocolRouter)

variable {Conn : Type} [DecidableEq Conn]

namespace Host

/-- A direct call of `SessionManager::login`. -/
def login (h : Host Conn) (conn : Conn) (playerId : Bytes) : Host Conn :=
  { h with world := h.world.login conn playerId }

/-- The states of a service to which components have been added in this order: after messages,
disconnects, and direct calls of what `SessionManager`, `RoomComponent` and `PlayerMoveComponent`
offer. -/
inductive Reachable (order : List Component) : Host Conn → Prop
  | new : Reachable order (new order)
  | message {h : Host Conn} (conn : Conn) (data : Bytes) :
    Reachable order h → Reachable order (h.dispatchMessage conn data).1
  | disconnect {h : Host Conn} (conn : Conn) :
    Reachable order h → Reachable order (h.dispatchDisconnect conn)
  | login {h : Host Conn} (conn : Conn) (playerId : Bytes) :
    Reachable order h → Reachable order (h.login conn playerId)
  | logout {h : Host Conn} (conn : Conn) : Reachable order h → Reachable order (h.logout conn)
  | sessionJoinRoom {h : Host Conn} (conn : Conn) (roomId : Bytes) : Reachable order h →
    Reachable order
      { h with world.sessionManager := h.world.sessionManager.map (·.joinRoom conn roomId) }
  | sessionLeaveRoom {h : Host Conn} (conn : Conn) : Reachable order h →
    Reachable order { h with world.sessionManager := h.world.sessionManager.map (·.leaveRoom conn) }
  | joinRoom {h : Host Conn} (conn : Conn) (roomId : Bytes) : Reachable order h →
    Reachable order { h with world.roomComponent := h.world.roomComponent.joinRoom conn roomId }
  | leaveRoom {h : Host Conn} (conn : Conn) : Reachable order h → Reachable order (h.leaveRoom conn)
  | updatePlayerPosition {h : Host Conn} (playerId : Bytes) (pos : PlayerPosition) :
    Reachable order h →
    Reachable order { h with world := h.world.updatePlayerPosition playerId pos }

variable {order : List Component} {h : Host Conn}

/-- Frames of one connection, one after another. -/
theorem Steady.run_frames (hsteady : Steady order h) (frames : List (Conn × Message)) :
    Steady order { h with world := (h.router.run h.world frames).1 } := by
  induction frames generalizing h with
  | nil => exact hsteady
  | cons f frames ih => exact ih (hsteady.step (.frame f.1 f.2))

theorem Reachable.steady (hreach : Reachable order h) : Steady order h := by
  induction hreach with
  | new => exact steady_new order
  | @message h conn data _ ih =>
    rw [dispatchMessage]
    split
    · exact Steady.run_frames (h := { h with router := (h.router.onMessage h.world conn data).1 })
        ⟨ih.components, ih.standard, ih.sessions⟩ _
    · exact ih
  | disconnect conn _ ih => exact ih.dispatchDisconnect conn
  | login conn playerId _ ih => exact ih.world Option.isSome_map
  | logout conn _ ih | sessionLeaveRoom conn _ ih => exact ih.world Option.isSome_map
  | sessionJoinRoom conn roomId _ ih => exact ih.world Option.isSome_map
  | leaveRoom conn _ ih => exact ih.world Option.isSome_map
  | joinRoom | updatePlayerPosition => next ih => exact ih.world rfl

end Host

/-! ## Positions -/

section Positions

variable {conn : Conn}

/-- Only `PlayerMoveComponent` touches positions. -/
theorem playerPositions_foldl_of_notMem {l : List Component} (hl : .playerMove ∉ l)
    (h : Host Conn) :
    (l.foldl (Host.onDisconnect conn) h).world.playerPositions = h.world.playerPositions := by
  induction l generalizing h with
  | nil => rfl
  | cons k l ih =>
    rw [List.mem_cons, not_or] at hl
    rw [List.foldl_cons, ih hl.2, playerPositions_onDisconnect, if_neg fun hk ↦ hl.1 hk.1.symm]

/-- The first of two comes before the second if the second is not before it. -/
theorem idxOf_lt_idxOf_iff {α : Type} [DecidableEq α] {pre post : List α} {a b : α}
    (ha : a ∉ pre) (hab : b ≠ a) :
    (pre ++ a :: post).idxOf a < (pre ++ a :: post).idxOf b ↔ b ∉ pre := by
  rw [List.idxOf_append_of_notMem ha, List.idxOf_cons_self, Nat.add_zero]
  by_cases hb : b ∈ pre
  · rw [List.idxOf_append_of_mem hb]
    have := List.idxOf_lt_length_of_mem hb
    exact iff_of_false (by omega) (not_not_intro hb)
  · rw [List.idxOf_append_of_notMem hb, List.idxOf_cons_ne _ hab.symm]
    exact iff_of_true (by omega) hb

/-- What is left of the positions. -/
theorem lookup_playerPositions {order : List Component} {h : Host Conn}
    (horder : h.components = order) (hnodup : order.Nodup) (hmove : .playerMove ∈ order)
    (p : Bytes) :
    (h.dispatchDisconnect conn).world.playerPositions.lookup p =
      if p = h.world.getPlayerId conn ∧ p ≠ [] ∧
          order.idxOf .playerMove < order.idxOf .sessionManager then none
      else h.world.playerPositions.lookup p := by
  obtain ⟨pre, post, rfl⟩ := List.append_of_mem hmove
  have hnot := (List.nodup_cons.1 (List.nodup_middle.1 hnodup)).1
  rw [List.mem_append, not_or] at hnot
  have hidx : (pre ++ .playerMove :: post).idxOf Component.playerMove <
      (pre ++ .playerMove :: post).idxOf .sessionManager ↔ .sessionManager ∉ pre :=
    idxOf_lt_idxOf_iff hnot.1 (by decide)
  simp only [hidx]
  rw [Host.dispatchDisconnect, horder, List.foldl_append, List.foldl_cons,
    playerPositions_foldl_of_notMem hnot.2, playerPositions_onDisconnect,
    playerPositions_foldl_of_notMem hnot.1, getPlayerId_foldl]
  by_cases hsession : .sessionManager ∈ pre
  · have hany : pre.any (· = .sessionManager) = true :=
      List.any_eq_true.2 ⟨_, hsession, decide_eq_true rfl⟩
    rw [if_pos hany, if_neg (fun hk ↦ hk.2 (if_pos rfl)), if_neg fun hp ↦ hp.2.2 hsession]
  · have hany : ¬ pre.any (· = .sessionManager) = true := by
      rw [List.any_eq_true]
      rintro ⟨k, hk, he⟩
      exact hsession (of_decide_eq_true he ▸ hk)
    rw [if_neg hany]
    by_cases hp : h.world.getPlayerId conn = []
    · rw [if_neg (fun hk ↦ hk.2 hp), if_neg]
      rintro ⟨rfl, hne, -⟩
      exact hne hp
    · rw [if_pos ⟨rfl, hp⟩, UnorderedMap.lookup_erase_ite]
      by_cases hpp : p = h.world.getPlayerId conn
      · rw [if_pos hpp, if_pos ⟨hpp, hpp ▸ hp, hsession⟩]
      · rw [if_neg hpp, if_neg fun hall ↦ hpp hall.1]

end Positions

/-! ## Nothing left behind -/

/-- The player is logged in on this connection, and on no other. -/
def World.OnlyHere (w : World Conn) (conn : Conn) (player : Bytes) : Prop :=
  player ≠ [] ∧ w.getPlayerId conn = player ∧ ∀ c, c ≠ conn → w.getPlayerId c ≠ player

/-- Of the connection, and of a player that was logged in only there, nothing is left in `h'`.
Everything else is as it was in `h`. -/
structure Clean (conn : Conn) (h h' : Host Conn) : Prop where
  session : h'.world.session conn = none
  parser : h'.router.parsers.lookup conn = none
  rooms : ∀ r, ¬ h'.world.roomComponent.InRoom conn r
  connectionsMap : h'.world.roomComponent.connectionsMap.lookup conn = none
  position : ∀ p, h.world.OnlyHere conn p → h'.world.playerPositions.lookup p = none
  session_of_ne : ∀ c, c ≠ conn → h'.world.session c = h.world.session c
  parser_of_ne : ∀ c, c ≠ conn → h'.router.parsers.lookup c = h.router.parsers.lookup c
  rooms_of_ne : ∀ c, c ≠ conn → ∀ r,
    h'.world.roomComponent.InRoom c r ↔ h.world.roomComponent.InRoom c r
  connectionsMap_of_ne : ∀ c, c ≠ conn →
    h'.world.roomComponent.connectionsMap.lookup c = h.world.roomComponent.connectionsMap.lookup c
  position_of_not : ∀ p, ¬ h.world.OnlyHere conn p →
    h'.world.playerPositions.lookup p = h.world.playerPositions.lookup p

/-- The order is the right one for the player of this connection: if the player has a position,
then `PlayerMoveComponent` comes before the `SessionManager` just if the player is logged in
nowhere else. -/
def Prepared (order : List Component) (w : World Conn) (conn : Conn) : Prop :=
  w.getPlayerId conn ≠ [] → w.playerPositions.lookup (w.getPlayerId conn) ≠ none →
    (order.idxOf .playerMove < order.idxOf .sessionManager ↔
      ∀ c, c ≠ conn → w.getPlayerId c ≠ w.getPlayerId conn)

section Clean

variable {order : List Component} {h : Host Conn} {conn : Conn}

/-- The part of `Clean` that is about positions. -/
theorem positions_iff (horder : h.components = order) (hnodup : order.Nodup)
    (hmove : .playerMove ∈ order) :
    (∀ p, (h.world.OnlyHere conn p →
          (h.dispatchDisconnect conn).world.playerPositions.lookup p = none) ∧
        (¬ h.world.OnlyHere conn p →
          (h.dispatchDisconnect conn).world.playerPositions.lookup p =
            h.world.playerPositions.lookup p)) ↔ Prepared order h.world conn := by
  simp only [lookup_playerPositions horder hnodup hmove]
  constructor
  · intro hclean hplayer hpos
    obtain ⟨hpos_none, hpos_eq⟩ := hclean (h.world.getPlayerId conn)
    constructor
    · intro hlt c hc heq
      rw [if_pos ⟨rfl, hplayer, hlt⟩] at hpos_eq
      exact hpos (hpos_eq fun honly ↦ honly.2.2 c hc heq).symm
    · intro hothers
      by_contra hlt
      rw [if_neg fun hp ↦ hlt hp.2.2] at hpos_none
      exact hpos (hpos_none ⟨hplayer, rfl, hothers⟩)
  · intro hprep p
    by_cases hpos : h.world.playerPositions.lookup p = none
    · rw [hpos, ite_self]
      exact ⟨fun _ ↦ rfl, fun _ ↦ rfl⟩
    constructor
    · rintro ⟨hp, rfl, hothers⟩
      exact if_pos ⟨rfl, hp, (hprep hp hpos).2 hothers⟩
    · refine fun hnot ↦ if_neg ?_
      rintro ⟨rfl, hp, hlt⟩
      exact hnot ⟨hp, rfl, (hprep hp hpos).1 hlt⟩

/-- **A disconnect leaves nothing behind and changes nothing else if and only if the order suits
the player.**  The order concerns positions only. -/
theorem clean_iff (hnodup : order.Nodup) (hsession : .sessionManager ∈ order)
    (hrouter : .protocolRouter ∈ order) (hroom : .room ∈ order) (hmove : .playerMove ∈ order)
    (hreach : Host.Reachable order h) (conn : Conn) :
    Clean conn h (h.dispatchDisconnect conn) ↔ Prepared order h.world conn := by
  have horder := hreach.steady.components
  rw [← positions_iff horder hnodup hmove]
  refine ⟨fun hclean p ↦ ⟨hclean.position p, hclean.position_of_not p⟩, fun hpos ↦ ?_⟩
  have hany {k : Component} (hk : k ∈ order) : order.any (· = k) = true :=
    List.any_eq_true.2 ⟨k, hk, decide_eq_true rfl⟩
  have hparsers : (fun c ↦ (order.foldl (Host.onDisconnect conn) h).router.parsers.lookup c) = _ :=
    (parsers_foldl order).trans (if_pos (hany hrouter))
  have hrooms : (order.foldl (Host.onDisconnect conn) h).world.roomComponent.InRoom = _ :=
    (inRoom_foldl order).trans (if_pos (hany hroom))
  have hconns : (fun c ↦ (order.foldl (Host.onDisconnect conn) h).world.roomComponent.connectionsMap
      |>.lookup c) = _ := (connectionsMap_foldl order).trans (if_pos (hany hroom))
  rw [Host.dispatchDisconnect, horder] at hpos ⊢
  exact {
    session := session_foldl_self order hsession
    parser := (congrFun hparsers conn).trans (if_pos rfl)
    rooms := fun r hr ↦ by
      rw [hrooms, dropped, if_pos rfl] at hr
      exact hr
    connectionsMap := (congrFun hconns conn).trans (if_pos rfl)
    position := fun p ↦ (hpos p).1
    session_of_ne := fun c hc ↦ session_foldl_of_ne order hc
    parser_of_ne := fun c hc ↦ (congrFun hparsers c).trans (if_neg hc)
    rooms_of_ne := fun c hc r ↦ by rw [hrooms, dropped, if_neg hc]
    connectionsMap_of_ne := fun c hc ↦ (congrFun hconns c).trans (if_neg hc)
    position_of_not := fun p ↦ (hpos p).2 }

end Clean

/-! ### Ann logs in and moves -/

/-- Ann on connection 1 has logged in and moved to the origin. -/
def annMoves (order : List Component) : Host ℕ :=
  ((Host.new order).dispatchMessage 1
    (serialize ⟨0x0001, encodeString (lit "ann") ++ encodeString (lit "t")⟩ ++
      serialize ⟨0x0081, List.replicate 12 0⟩)).1

theorem reachable_annMoves (order : List Component) : Host.Reachable order (annMoves order) :=
  .message 1 _ .new

/-- `PlayerMoveComponent` comes first. -/
def moveFirst : List Component := [.protocolRouter, .playerMove, .sessionManager, .login, .room]

/-- `PlayerMoveComponent` comes last. -/
def moveLast : List Component := [.protocolRouter, .sessionManager, .login, .room, .playerMove]

theorem onlyHere_ann {order : List Component} (horder : order = moveFirst ∨ order = moveLast) :
    (annMoves order).world.OnlyHere 1 (lit "ann") := by
  have hsessions : (annMoves order).world.sessionManager.map (·.sessions.entries) =
      some [⟨1, ⟨lit "ann", [], true⟩⟩] := by
    rcases horder with rfl | rfl <;> decide +kernel
  have hplayer (c : ℕ) :
      (annMoves order).world.getPlayerId c = if c = 1 then lit "ann" else [] := by
    obtain ⟨m, hm, hentries⟩ := Option.map_eq_some_iff.1 hsessions
    rw [World.getPlayerId_eq, World.session, hm, Option.bind_some, AList.lookup, hentries]
    by_cases hc : c = 1
    · rw [if_pos hc, hc]
      rfl
    · rw [if_neg hc, List.dlookup_cons_ne _ ⟨1, _⟩ hc]
      rfl
  refine ⟨by decide, (hplayer 1).trans (if_pos rfl), fun c hc ↦ ?_⟩
  rw [hplayer, if_neg hc]
  decide

/-- If `PlayerMoveComponent` comes first, nothing is left of Ann. -/
theorem clean_moveFirst :
    Clean 1 (annMoves moveFirst) ((annMoves moveFirst).dispatchDisconnect 1) := by
  obtain ⟨-, hplayer, hothers⟩ := onlyHere_ann (.inl rfl)
  refine (clean_iff (by decide) (by decide) (by decide) (by decide) (by decide)
    (reachable_annMoves moveFirst) 1).2 fun _ _ ↦ ?_
  rw [hplayer]
  exact iff_of_true (by decide) hothers

/-- If it comes last, the position of Ann stays. -/
theorem position_stays_moveLast :
    ¬ ∀ (order : List Component) (h : Host ℕ) (conn : ℕ), order.Nodup → .sessionManager ∈ order →
      .protocolRouter ∈ order → .room ∈ order → .playerMove ∈ order → Host.Reachable order h →
      Clean conn h (h.dispatchDisconnect conn) := by
  intro hclean
  have hposition := (hclean moveLast (annMoves moveLast) 1 (by decide) (by decide) (by decide)
    (by decide) (by decide) (reachable_annMoves moveLast)).position _ (onlyHere_ann (.inr rfl))
  exact absurd hposition (by decide +kernel)

end Game
end ChwellCore
