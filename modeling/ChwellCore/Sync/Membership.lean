import ChwellCore.Sync.FrameSync

/-!
# Who plays in a room

`FrameSyncComponent` holds three times who plays where: in its own table, from a connection to a
player and a room, and in the two tables of each room, from a player to the connection and from a
player to the inputs.  `Consistent` says that they agree.  `leave_room` keeps them so, and clears
up the entries of the connection table that nobody needs any more.  `destroy_room` does not, and so
the connections of those who were in the room stay bound to it.  `join_room` takes away neither the
place that the connection had in another room nor the old connection of a player who comes back.
And `on_disconnect` takes an empty room name to mean that there is no room, although `create_room`
makes one of that name.  `membership` says that these are all the ways in which the tables fall
apart, and that each of them makes them do so.

An input is queued for the player that the message names, whoever sends it.  `plays_for_itself` is
about what this means for the queues of the others.
-/

set_option autoImplicit false

namespace ChwellCore
namespace Sync

namespace FrameSyncComponent

variable {Conn : Type}

/-- The connection of a player in a room. -/
def playing (c : FrameSyncComponent Conn) (roomId : Bytes) (playerId : UInt32) : Option Conn :=
  (c.rooms.lookup roomId).bind fun room ↦ room.players.lookup playerId

/-- The queue of a player in a room. -/
def queue (c : FrameSyncComponent Conn) (roomId : Bytes) (playerId : UInt32) :
    Option (List FrameInput) :=
  (c.rooms.lookup roomId).bind fun room ↦ room.playerInputs.lookup playerId

/-- In each room the same players have a connection and a queue. -/
def SameKeys (c : FrameSyncComponent Conn) : Prop :=
  ∀ roomId playerId, (c.playing roomId playerId).isSome = (c.queue roomId playerId).isSome

/-- A room had a player and is there without one. -/
def Deserted (c c' : FrameSyncComponent Conn) : Prop :=
  ∃ roomId, (∃ playerId, (c.playing roomId playerId).isSome = true) ∧
    (c'.rooms.lookup roomId).isSome = true ∧ ∀ playerId, c'.playing roomId playerId = none

variable [DecidableEq Conn]

/-- The three tables agree. -/
structure Consistent (c : FrameSyncComponent Conn) : Prop where
  connections : ∀ conn playerId roomId, c.connections.lookup conn = some ⟨playerId, roomId⟩ ↔
    c.playing roomId playerId = some conn
  keys : c.SameKeys

/-- The operation is not one of those that make the tables fall apart: nobody is in a room that is
destroyed, neither the connection nor the player that joins a room is somewhere else, and a
connection that is lost is in no room without a name. -/
def Orderly (c : FrameSyncComponent Conn) : Op Conn → Prop
  | .destroyRoom roomId => ∀ playerId, c.playing roomId playerId = none
  | .joinRoom playerId roomId conn => (c.rooms.lookup roomId).isSome = true →
      (∀ info, c.connections.lookup conn = some info → info = ⟨playerId, roomId⟩) ∧
        ∀ conn', c.playing roomId playerId = some conn' → conn' = conn
  | .onDisconnect conn => ∀ info, c.connections.lookup conn = some info → info.roomId ≠ []
  | .createRoom _ | .leaveRoom _ _ | .submitInput _ _ _ | .frameInput _ _ _
  | .getAllInputs _ _ => True

/-! ## What the operations do to the tables -/

section Tables

variable {c c' : FrameSyncComponent Conn} {roomId id : Bytes} {playerId p : UInt32} {conn : Conn}
  {room room' : FrameSyncRoom Conn}

omit [DecidableEq Conn]

theorem playing_eq (h : c.rooms.lookup roomId = some room) (p : UInt32) :
    c.playing roomId p = room.players.lookup p := by
  rw [playing, h, Option.bind_some]

theorem queue_eq (h : c.rooms.lookup roomId = some room) (p : UInt32) :
    c.queue roomId p = room.playerInputs.lookup p := by
  rw [queue, h, Option.bind_some]

theorem playing_insert (h : c'.rooms = c.rooms.insert roomId room') (id : Bytes) (p : UInt32) :
    c'.playing id p = if id = roomId then room'.players.lookup p else c.playing id p := by
  rw [playing, h, UnorderedMap.lookup_insert_ite]
  split <;> rfl

theorem queue_insert (h : c'.rooms = c.rooms.insert roomId room') (id : Bytes) (p : UInt32) :
    c'.queue id p = if id = roomId then room'.playerInputs.lookup p else c.queue id p := by
  rw [queue, h, UnorderedMap.lookup_insert_ite]
  split <;> rfl

theorem playing_erase (h : c'.rooms = c.rooms.erase roomId) (id : Bytes) (p : UInt32) :
    c'.playing id p = if id = roomId then none else c.playing id p := by
  rw [playing, h, UnorderedMap.lookup_erase_ite]
  split <;> rfl

theorem queue_erase (h : c'.rooms = c.rooms.erase roomId) (id : Bytes) (p : UInt32) :
    c'.queue id p = if id = roomId then none else c.queue id p := by
  rw [queue, h, UnorderedMap.lookup_erase_ite]
  split <;> rfl

theorem exists_of_playing (h : (c.playing roomId p).isSome = true) :
    ∃ room, c.rooms.lookup roomId = some room := by
  rcases hroom : c.rooms.lookup roomId with _ | room
  · rw [playing, hroom] at h
    cases h
  · exact ⟨room, rfl⟩

/-- A room that is replaced by one in which the same players have a connection and a queue. -/
theorem tables_replace (hroom : c.rooms.lookup roomId = some room)
    (h : c'.rooms = c.rooms.insert roomId room') (hplayers : room'.players = room.players)
    (hqueues : ∀ p, (room'.playerInputs.lookup p).isSome = (room.playerInputs.lookup p).isSome)
    (id : Bytes) (p : UInt32) :
    c'.playing id p = c.playing id p ∧ (c'.queue id p).isSome = (c.queue id p).isSome := by
  rw [playing_insert h, queue_insert h]
  split
  · next hid => rw [hid, hplayers, hqueues, playing_eq hroom, queue_eq hroom]; exact ⟨rfl, rfl⟩
  · exact ⟨rfl, rfl⟩

theorem tables_createRoom (roomId id : Bytes) (p : UInt32) :
    (c.createRoom roomId).playing id p = c.playing id p ∧
      (c.createRoom roomId).queue id p = c.queue id p := by
  rw [createRoom]
  split
  · exact ⟨rfl, rfl⟩
  · next hnone =>
    have hroom : c.rooms.lookup roomId = none := by simpa using hnone
    rw [playing_insert rfl, queue_insert rfl]
    split
    · next hid =>
      rw [hid, playing, queue, hroom]
      exact ⟨AList.lookup_empty p, AList.lookup_empty p⟩
    · exact ⟨rfl, rfl⟩

theorem tables_getAllInputs (frameId : UInt32) (hroom : c.rooms.lookup roomId = some room)
    (id : Bytes) (p : UInt32) (h : c'.rooms = c.rooms.insert roomId (room.getAllInputs frameId).2) :
    c'.playing id p = c.playing id p ∧ (c'.queue id p).isSome = (c.queue id p).isSome := by
  refine tables_replace hroom h rfl (fun p ↦ ?_) id p
  rw [FrameSyncRoom.getAllInputs, UnorderedMap.lookup_map, Option.isSome_map]

/-- A queue that is empty after a player has left was the player's. -/
theorem lookup_of_playerCount (hcount : (room.leavePlayer playerId).playerCount = 0)
    (hp : p ≠ playerId) : room.playerInputs.lookup p = none := by
  have hnil := List.eq_nil_of_length_eq_zero hcount
  have hlook : (room.leavePlayer playerId).playerInputs.lookup p = none := by
    rw [AList.lookup_eq_none]
    intro hmem
    rw [AList.mem_keys, AList.keys, hnil] at hmem
    cases hmem
  rwa [FrameSyncRoom.leavePlayer, UnorderedMap.lookup_erase_ite, if_neg hp] at hlook

/-- What `leave_room` does to the tables of the rooms: one entry is gone from each.  A room that is
destroyed had no other. -/
theorem tables_leaveRoom (hkeys : c.SameKeys) (playerId : UInt32) (roomId id : Bytes) (p : UInt32) :
    (c.leaveRoom playerId roomId).playing id p =
        (if id = roomId ∧ p = playerId then none else c.playing id p) ∧
      (c.leaveRoom playerId roomId).queue id p =
        (if id = roomId ∧ p = playerId then none else c.queue id p) := by
  rcases hroom : c.rooms.lookup roomId with _ | room
  · rw [leaveRoom, hroom]
    by_cases hid : id = roomId
    · subst hid
      simp [playing, queue, hroom]
    · simp [playing, queue, hid]
  · rw [leaveRoom, hroom]
    dsimp only
    split
    · next hcount =>
      rw [playing_erase rfl, queue_erase rfl, playing_insert rfl, queue_insert rfl]
      by_cases hid : id = roomId
      · by_cases hp : p = playerId
        · simp [hid, hp]
        · have hqueue : c.queue roomId p = none := by
            rw [queue_eq hroom]
            exact lookup_of_playerCount hcount hp
          have hplaying : c.playing roomId p = none := by
            have hboth := hkeys roomId p
            rw [hqueue] at hboth
            exact Option.isSome_eq_false_iff.1 hboth |> Option.isNone_iff_eq_none.1
          simp [hid, hp, hqueue, hplaying]
      · simp [hid]
    · rw [playing_insert rfl, queue_insert rfl, FrameSyncRoom.leavePlayer,
        UnorderedMap.lookup_erase_ite, UnorderedMap.lookup_erase_ite]
      by_cases hid : id = roomId
      · by_cases hp : p = playerId
        · simp [hid, hp]
        · simp [hid, hp, playing_eq hroom, queue_eq hroom]
      · simp [hid]

theorem SameKeys.leaveRoom (hkeys : c.SameKeys) (playerId : UInt32) (roomId : Bytes) :
    (c.leaveRoom playerId roomId).SameKeys := by
  intro id p
  obtain ⟨hplaying, hqueue⟩ := tables_leaveRoom hkeys playerId roomId id p
  rw [hplaying, hqueue]
  split
  · rfl
  · exact hkeys id p

/-- `leave_room` leaves no room without a player that had one. -/
theorem SameKeys.not_deserted_leaveRoom (hkeys : c.SameKeys) (playerId : UInt32) (roomId : Bytes) :
    ¬ c.Deserted (c.leaveRoom playerId roomId) := by
  rintro ⟨id, ⟨p, hp⟩, hexists, hnone⟩
  have hkeys' := hkeys.leaveRoom playerId roomId
  obtain ⟨hplaying, -⟩ := tables_leaveRoom hkeys playerId roomId id p
  rw [hnone p] at hplaying
  split at hplaying
  · -- the room that was left is there, so it has a queue
    next hid =>
    obtain ⟨rfl, rfl⟩ := hid
    obtain ⟨room, hroom⟩ := exists_of_playing hp
    have hcount : (room.leavePlayer p).playerCount ≠ 0 := by
      intro hcount
      rw [FrameSyncComponent.leaveRoom, hroom] at hexists
      simp [hcount, destroyRoom] at hexists
    obtain ⟨e, he⟩ := List.exists_mem_of_length_pos (Nat.pos_of_ne_zero hcount)
    have hlook : (c.leaveRoom p id).rooms.lookup id = some (room.leavePlayer p) := by
      rw [FrameSyncComponent.leaveRoom, hroom]
      simp [hcount]
    have hqueue : ((c.leaveRoom p id).queue id e.1).isSome = true := by
      rw [queue_eq hlook, UnorderedMap.lookup_eq_some_iff.2 he]
      rfl
    rw [← hkeys', hnone e.1] at hqueue
    cases hqueue
  · rw [← hplaying] at hp
    cases hp

variable [DecidableEq Conn]

theorem tables_joinRoom (hroom : c.rooms.lookup roomId = some room) (playerId : UInt32)
    (conn : Conn) (id : Bytes) (p : UInt32) :
    (c.joinRoom playerId roomId conn).playing id p =
        (if id = roomId ∧ p = playerId then some conn else c.playing id p) ∧
      (c.joinRoom playerId roomId conn).queue id p =
        (if id = roomId ∧ p = playerId then some [] else c.queue id p) := by
  rw [joinRoom, hroom]
  dsimp only
  rw [playing_insert rfl, queue_insert rfl, FrameSyncRoom.joinPlayer,
    UnorderedMap.lookup_insert_ite, UnorderedMap.lookup_insert_ite]
  by_cases hid : id = roomId
  · by_cases hp : p = playerId
    · simp [hid, hp]
    · simp [hid, hp, playing_eq hroom, queue_eq hroom]
  · simp [hid]

/-- `submit_input` gives a queue to a player who has one, if the tables agree. -/
theorem tables_submitInput (h : c.Consistent) {target : Option Bytes}
    (htarget : c.IsTarget playerId target) (input : FrameInput) (id : Bytes) (p : UInt32) :
    (c.submitInput target playerId input).playing id p = c.playing id p ∧
      ((c.submitInput target playerId input).queue id p).isSome = (c.queue id p).isSome := by
  rcases target with _ | roomId
  · exact ⟨rfl, rfl⟩
  · obtain ⟨e, he, hid⟩ := List.mem_map.1 htarget
    obtain ⟨he, hcond⟩ := List.mem_filter.1 he
    rw [Bool.and_eq_true, beq_iff_eq] at hcond
    obtain ⟨hplayer, hexists⟩ := hcond
    rw [hid] at hexists
    obtain ⟨room, hroom⟩ := Option.isSome_iff_exists.1 hexists
    have hplaying : c.playing roomId playerId = some e.1 := by
      rw [← h.connections, UnorderedMap.lookup_eq_some_iff, ← hplayer, ← hid]
      exact he
    have hqueue : (room.playerInputs.lookup playerId).isSome = true := by
      rw [← queue_eq hroom, ← h.keys, hplaying]
      rfl
    have hrooms : (c.submitInput (some roomId) playerId input).rooms =
        c.rooms.insert roomId (room.submitInput playerId input) := by
      rw [submitInput, hroom]
    refine tables_replace hroom hrooms rfl (fun q ↦ ?_) id p
    rw [FrameSyncRoom.submitInput, UnorderedMap.lookup_insert_ite]
    split
    · next hq => rw [hq, hqueue]; rfl
    · rfl

/-- What `handle_frame_input` comes to: nothing, if the body is not well formed, and otherwise a
`submit_input`, after which a room may advance. -/
theorem frameInput_cases {data : Bytes} {target : Option Bytes}
    (hs : step c (.frameInput conn data target) = some c') :
    (decodeFrameInput data = none ∧ c' = c) ∨
    ∃ input, decodeFrameInput data = some input ∧ c.IsTarget input.playerId target ∧
      (c' = c.submitInput target input.playerId input ∨
        ∃ id room, (c.submitInput target input.playerId input).rooms.lookup id = some room ∧
          c' = { c.submitInput target input.playerId input with
                  rooms := (c.submitInput target input.playerId input).rooms.insert id
                    room.advanceFrame }) := by
  rw [step] at hs
  split at hs
  · next hdec =>
    cases hs
    rw [handleFrameInput, hdec]
    exact .inl ⟨rfl, rfl⟩
  · next input hdec =>
    obtain ⟨htarget, hs⟩ := Option.ite_none_right_eq_some.1 hs
    obtain rfl := Option.some.inj hs
    refine .inr ⟨input, hdec, htarget, ?_⟩
    rw [handleFrameInput, hdec]
    dsimp only
    split
    · exact .inl rfl
    · next room hroom =>
      split
      · rw [roomOf] at hroom
        obtain ⟨-, hroom⟩ := Option.ite_none_left_eq_some.1 hroom
        exact .inr ⟨_, room, hroom, rfl⟩
      · exact .inl rfl

omit [DecidableEq Conn] in
theorem connections_submitInput (target : Option Bytes) (playerId : UInt32) (input : FrameInput) :
    (c.submitInput target playerId input).connections = c.connections := by
  rcases target with _ | roomId
  · rfl
  · simp only [submitInput]
    split <;> rfl

/-- A step that leaves the connection table alone, and the keys of the others. -/
theorem Consistent.same (h : c.Consistent) (hconn : c'.connections = c.connections)
    (htables : ∀ id p, c'.playing id p = c.playing id p ∧
      (c'.queue id p).isSome = (c.queue id p).isSome) : c'.Consistent := by
  refine ⟨fun conn p id ↦ ?_, fun id p ↦ ?_⟩
  · rw [hconn, (htables id p).1]
    exact h.connections conn p id
  · rw [(htables id p).1, (htables id p).2]
    exact h.keys id p

omit [DecidableEq Conn] in
/-- Such a step deserts no room. -/
theorem not_deserted_of_playing (h : ∀ id p, c'.playing id p = c.playing id p) :
    ¬ c.Deserted c' := by
  rintro ⟨id, ⟨p, hp⟩, -, hnone⟩
  rw [← h id p, hnone p] at hp
  cases hp

theorem tables_frameInput (h : c.Consistent) {data : Bytes} {target : Option Bytes}
    (hs : step c (.frameInput conn data target) = some c') (id : Bytes) (p : UInt32) :
    c'.playing id p = c.playing id p ∧ (c'.queue id p).isSome = (c.queue id p).isSome := by
  rcases frameInput_cases hs with ⟨-, rfl⟩ | ⟨input, -, htarget, rfl | ⟨id', room, hroom, rfl⟩⟩
  · exact ⟨rfl, rfl⟩
  · exact tables_submitInput h htarget input id p
  · obtain ⟨hplaying, hqueue⟩ := tables_submitInput h htarget input id p
    generalize c.submitInput target input.playerId input = d at hroom hplaying hqueue ⊢
    have hrooms : ({ d with rooms := d.rooms.insert id' room.advanceFrame } :
      FrameSyncComponent Conn).rooms = d.rooms.insert id' room.advanceFrame := rfl
    obtain ⟨hplaying', hqueue'⟩ := tables_replace hroom hrooms rfl (fun _ ↦ rfl) id p
    exact ⟨hplaying'.trans hplaying, hqueue'.trans hqueue⟩

theorem connections_frameInput {data : Bytes} {target : Option Bytes}
    (hs : step c (.frameInput conn data target) = some c') : c'.connections = c.connections := by
  rcases frameInput_cases hs with ⟨-, rfl⟩ | ⟨input, -, -, rfl | ⟨id, room, -, rfl⟩⟩
  · rfl
  · exact connections_submitInput target input.playerId input
  · exact connections_submitInput target input.playerId input

/-- What `leave_room` leaves in the connection table. -/
theorem lookup_connections_leaveRoom (playerId : UInt32) (roomId : Bytes) (conn : Conn)
    (info : ConnectionInfo) :
    (c.leaveRoom playerId roomId).connections.lookup conn = some info ↔
      c.connections.lookup conn = some info ∧ info ≠ ⟨playerId, roomId⟩ := by
  have hconn : (c.leaveRoom playerId roomId).connections =
      c.connections.filter fun _ info ↦ decide (info ≠ ⟨playerId, roomId⟩) := by
    rw [leaveRoom]
    split
    · rfl
    · dsimp only
      split <;> rfl
  rw [hconn, UnorderedMap.lookup_filter, Option.filter_eq_some_iff, decide_eq_true_eq]

end Tables

/-! ## The operations one by one -/

section Operations

variable {c c' : FrameSyncComponent Conn} {roomId : Bytes} {playerId : UInt32} {conn : Conn}

/-- A room is destroyed. -/
theorem consistent_destroyRoom (h : c.Consistent) :
    (c.destroyRoom roomId).Consistent ∧ ¬ c.Deserted (c.destroyRoom roomId) ↔
      c.Orderly (.destroyRoom roomId) := by
  have htables : ∀ id p,
      (c.destroyRoom roomId).playing id p = (if id = roomId then none else c.playing id p) ∧
        (c.destroyRoom roomId).queue id p = if id = roomId then none else c.queue id p :=
    fun id p ↦ ⟨playing_erase rfl id p, queue_erase rfl id p⟩
  constructor
  · rintro ⟨h', -⟩ p
    rcases hp : c.playing roomId p with _ | conn
    · rfl
    · -- the connection is still bound to the room
      have hconn := (h'.connections conn p roomId).1 ((h.connections conn p roomId).2 hp)
      rw [(htables roomId p).1, if_pos rfl] at hconn
      cases hconn
  · intro hnone
    have hsame : ∀ id p, (c.destroyRoom roomId).playing id p = c.playing id p ∧
        ((c.destroyRoom roomId).queue id p).isSome = (c.queue id p).isSome := by
      intro id p
      rw [(htables id p).1, (htables id p).2]
      split
      · next hid =>
        have hkeys := h.keys roomId p
        rw [hnone p] at hkeys
        rw [hid, hnone p, ← hkeys]
        exact ⟨rfl, rfl⟩
      · exact ⟨rfl, rfl⟩
    exact ⟨h.same rfl hsame, not_deserted_of_playing fun id p ↦ (hsame id p).1⟩

/-- A player joins a room. -/
theorem consistent_joinRoom (h : c.Consistent) :
    (c.joinRoom playerId roomId conn).Consistent ∧
        ¬ c.Deserted (c.joinRoom playerId roomId conn) ↔
      c.Orderly (.joinRoom playerId roomId conn) := by
  rcases hroom : c.rooms.lookup roomId with _ | room
  · have hsame : c.joinRoom playerId roomId conn = c := by rw [joinRoom, hroom]
    rw [hsame, Orderly, hroom]
    exact iff_of_true ⟨h, not_deserted_of_playing fun _ _ ↦ rfl⟩ fun hsome ↦ by cases hsome
  have htables := tables_joinRoom hroom playerId conn
  have hconn : (c.joinRoom playerId roomId conn).connections =
      c.connections.insert conn ⟨playerId, roomId⟩ := by
    rw [joinRoom, hroom]
  generalize c.joinRoom playerId roomId conn = c' at htables hconn
  -- the connections and the places of the players are inverse to each other
  have hinverse := @UnorderedMap.inverse_insert_iff _ _ _ _ c.connections
    (fun info ↦ c.playing info.roomId info.playerId)
    (fun x info ↦ h.connections x info.playerId info.roomId) conn ⟨playerId, roomId⟩
  have hplaying : ∀ p id, (if (⟨p, id⟩ : ConnectionInfo) = ⟨playerId, roomId⟩ then some conn
      else c.playing id p) = c'.playing id p := by
    intro p id
    rw [(htables id p).1]
    exact if_congr (by rw [ConnectionInfo.mk.injEq, and_comm]) rfl rfl
  have horderly : c.Orderly (.joinRoom playerId roomId conn) ↔
      (∀ info, c.connections.lookup conn = some info → info = ⟨playerId, roomId⟩) ∧
        ∀ x, c.playing roomId playerId = some x → x = conn := by
    rw [Orderly, hroom]
    exact forall_prop_of_true rfl
  rw [horderly, ← hinverse]
  constructor
  · rintro ⟨h', -⟩ x ⟨p, id⟩
    rw [← hconn, hplaying]
    exact h'.connections x p id
  · intro hall
    refine ⟨⟨fun x p id ↦ ?_, fun id p ↦ ?_⟩, ?_⟩
    · rw [hconn, ← hplaying]
      exact hall x ⟨p, id⟩
    · rw [(htables id p).1, (htables id p).2]
      split
      · rfl
      · exact h.keys id p
    · rintro ⟨id, ⟨p, hp⟩, -, hnone⟩
      have hplaying := hnone p
      rw [(htables id p).1] at hplaying
      split at hplaying
      · cases hplaying
      · rw [hplaying] at hp
        cases hp

/-- A player leaves a room. -/
theorem consistent_leaveRoom (h : c.Consistent) (playerId : UInt32) (roomId : Bytes) :
    (c.leaveRoom playerId roomId).Consistent := by
  refine ⟨fun x p id ↦ ?_, h.keys.leaveRoom playerId roomId⟩
  rw [lookup_connections_leaveRoom, (tables_leaveRoom h.keys playerId roomId id p).1,
    h.connections x p id]
  split
  · next hid => rw [hid.1, hid.2]; exact iff_of_false (fun he ↦ he.2 rfl) (by simp)
  · next hid =>
    refine and_iff_left fun he ↦ hid ?_
    cases he
    exact ⟨rfl, rfl⟩

/-- A connection is lost. -/
theorem consistent_onDisconnect (h : c.Consistent) :
    (c.onDisconnect conn).Consistent ∧ ¬ c.Deserted (c.onDisconnect conn) ↔
      c.Orderly (.onDisconnect conn) := by
  rcases hinfo : c.connections.lookup conn with _ | ⟨p, r⟩
  · have hsame : c.onDisconnect conn = c := by rw [onDisconnect, hinfo]
    rw [hsame, Orderly, hinfo]
    exact iff_of_true ⟨h, not_deserted_of_playing fun _ _ ↦ rfl⟩ fun info hi ↦ by cases hi
  have hord : c.Orderly (.onDisconnect conn) ↔ r ≠ [] := by
    rw [Orderly, hinfo]
    exact ⟨fun hall ↦ hall _ rfl, fun hr info hi ↦ by cases hi; exact hr⟩
  have hplaying := (h.connections conn p r).1 hinfo
  rw [hord, onDisconnect, hinfo]
  dsimp only
  by_cases hr : r = []
  · rw [if_pos hr]
    refine iff_of_false ?_ (not_not.2 hr)
    rintro ⟨h', -⟩
    -- the player is in the room without a name for ever
    have hlook := (h'.connections conn p r).2 hplaying
    rw [AList.lookup_erase] at hlook
    cases hlook
  · rw [if_neg hr]
    have hkeys : ({ c with connections := c.connections.erase conn } :
      FrameSyncComponent Conn).SameKeys := h.keys
    refine iff_of_true ⟨⟨fun x q id ↦ ?_, hkeys.leaveRoom p r⟩, hkeys.not_deserted_leaveRoom p r⟩ hr
    have hplaying' : c.playing id q = some x ↔ c.connections.lookup x = some ⟨q, id⟩ :=
      (h.connections x q id).symm
    rw [lookup_connections_leaveRoom, (tables_leaveRoom hkeys p r id q).1,
      UnorderedMap.lookup_erase_ite]
    split <;> split
    · exact iff_of_false (fun he ↦ by cases he.1) (by simp)
    · next hx hid =>
      refine iff_of_false (fun he ↦ by cases he.1) fun hp ↦ hid ?_
      have hlook := hplaying'.1 hp
      rw [hx, hinfo] at hlook
      cases hlook
      exact ⟨rfl, rfl⟩
    · next hx hid => rw [hid.1, hid.2]; exact iff_of_false (fun he ↦ he.2 rfl) (by simp)
    · next hx hid =>
      refine Iff.trans (and_iff_left fun he ↦ hid ?_) hplaying'.symm
      cases he
      exact ⟨rfl, rfl⟩

/-- An operation leaves the tables in agreement, and no room without its players, just when it is
orderly. -/
theorem consistent_step (h : c.Consistent) {op : Op Conn} (hs : step c op = some c') :
    c'.Consistent ∧ ¬ c.Deserted c' ↔ c.Orderly op := by
  -- the operations that leave everybody where they are
  have hsame : c'.connections = c.connections →
      (∀ id p, c'.playing id p = c.playing id p ∧
        (c'.queue id p).isSome = (c.queue id p).isSome) → c'.Consistent ∧ ¬ c.Deserted c' :=
    fun hconn htables ↦ ⟨h.same hconn htables, not_deserted_of_playing fun id p ↦ (htables id p).1⟩
  cases op with
  | createRoom roomId =>
    cases hs
    refine iff_of_true (hsame ?_ fun id p ↦ ?_) trivial
    · rw [createRoom]
      split <;> rfl
    · obtain ⟨hplaying, hqueue⟩ := tables_createRoom (c := c) roomId id p
      exact ⟨hplaying, congrArg _ hqueue⟩
  | destroyRoom roomId =>
    cases hs
    exact consistent_destroyRoom h
  | joinRoom playerId roomId conn =>
    cases hs
    exact consistent_joinRoom h
  | leaveRoom playerId roomId =>
    cases hs
    exact iff_of_true
      ⟨consistent_leaveRoom h playerId roomId, h.keys.not_deserted_leaveRoom playerId roomId⟩
      trivial
  | onDisconnect conn =>
    cases hs
    exact consistent_onDisconnect h
  | submitInput playerId input target =>
    rw [step] at hs
    obtain ⟨htarget, hs⟩ := Option.ite_none_right_eq_some.1 hs
    obtain rfl := Option.some.inj hs
    exact iff_of_true (hsame (connections_submitInput target playerId input)
      (tables_submitInput h htarget input)) trivial
  | frameInput conn data target =>
    exact iff_of_true (hsame (connections_frameInput hs) (tables_frameInput h hs)) trivial
  | getAllInputs roomId frameId =>
    cases hs
    refine iff_of_true ?_ trivial
    split at hsame
    · exact hsame rfl fun _ _ ↦ ⟨rfl, rfl⟩
    · next room hroom => exact hsame rfl fun id p ↦ tables_getAllInputs frameId hroom id p rfl

theorem consistent_fresh : (fresh : FrameSyncComponent Conn).Consistent := by
  refine ⟨fun conn p id ↦ ?_, fun id p ↦ rfl⟩
  rw [fresh, AList.lookup_empty]
  exact iff_of_false (by simp) (by simp [playing])

end Operations

/-! ## Runs -/

/-- **Membership**: in a run of the component the three tables agree after every operation, and no
room is left without its players, just when nobody is in a room that is destroyed, neither the
connection nor the player that joins a room has a place that this would take, and no connection is
lost that is in the room without a name. -/
theorem membership {ops : List (Op Conn)} {c : FrameSyncComponent Conn}
    (hrun : system.Run fresh ops c) :
    system.Along (fun c _ c' ↦ c'.Consistent ∧ ¬ c.Deserted c') fresh ops ↔
      (system.guarded Orderly).Run fresh ops c :=
  System.along_iff (P := Consistent) (fun _ _ _ h hs ↦ consistent_step h hs)
    (fun _ _ _ _ _ hQ ↦ hQ.1) consistent_fresh hrun

omit [DecidableEq Conn] in
theorem nobody_iff {c : FrameSyncComponent Conn} {roomId : Bytes} :
    (∀ room ∈ c.rooms.lookup roomId, room.players.keys = []) ↔
      ∀ playerId, c.playing roomId playerId = none := by
  rcases hroom : c.rooms.lookup roomId with _ | room
  · exact iff_of_true (fun room h ↦ by cases h) fun p ↦ by rw [playing, hroom]; rfl
  · have hkeys : (∀ room' ∈ some room, room'.players.keys = []) ↔ room.players.keys = [] :=
      ⟨fun h ↦ h room rfl, fun h room' he ↦ by cases he; exact h⟩
    rw [hkeys, List.eq_nil_iff_forall_not_mem]
    refine forall_congr' fun p ↦ ?_
    rw [playing_eq hroom, AList.lookup_eq_none, AList.mem_keys]

instance decidableOrderly (c : FrameSyncComponent Conn) (op : Op Conn) : Decidable (c.Orderly op) :=
  match op with
  | .destroyRoom _ => decidable_of_iff _ nobody_iff
  | .joinRoom playerId roomId conn =>
    inferInstanceAs (Decidable ((c.rooms.lookup roomId).isSome = true →
      (∀ info ∈ c.connections.lookup conn, info = ⟨playerId, roomId⟩) ∧
        ∀ conn' ∈ c.playing roomId playerId, conn' = conn))
  | .onDisconnect conn =>
    inferInstanceAs (Decidable (∀ info ∈ c.connections.lookup conn, info.roomId ≠ []))
  | .createRoom _ | .leaveRoom _ _ | .submitInput _ _ _ | .frameInput _ _ _
  | .getAllInputs _ _ => .isTrue trivial

/-- Two players join a room, one of them comes back on the same connection, and both go. -/
def comeAndGo : List (Op UInt32) :=
  [.createRoom (lit "room"), .joinRoom 1 (lit "room") 1, .joinRoom 2 (lit "room") 2, play 1 0,
    .joinRoom 1 (lit "room") 1, .leaveRoom 1 (lit "room"), .onDisconnect 2]

theorem membership_comeAndGo :
    ∃ c : FrameSyncComponent UInt32, system.Run fresh comeAndGo c ∧
      (c.rooms.lookup (lit "room")).isNone = true ∧
      system.Along (fun c _ c' ↦ c'.Consistent ∧ ¬ c.Deserted c') fresh comeAndGo := by
  obtain ⟨c, hrun, hgone⟩ : ∃ c : FrameSyncComponent UInt32,
      (system.guarded Orderly).Run fresh comeAndGo c ∧
        (c.rooms.lookup (lit "room")).isNone = true :=
    System.Run.exists_of_any_guarded (by decide +kernel)
  exact ⟨c, hrun.of_guarded, hgone, (membership hrun.of_guarded).2 hrun⟩

/-- A room is destroyed while a player is in it. -/
def destroyedAround : List (Op UInt32) :=
  [.createRoom (lit "room"), .joinRoom 1 (lit "room") 1, .destroyRoom (lit "room")]

/-- The connection of the player stays bound to a room that is not there. -/
theorem bound_to_destroyed :
    ∃ c : FrameSyncComponent UInt32, system.Run fresh destroyedAround c ∧
      c.connections.lookup 1 = some ⟨1, lit "room"⟩ ∧
      (c.rooms.lookup (lit "room")).isNone = true ∧ ¬ c.Consistent ∧
      ¬ system.Along (fun c _ c' ↦ c'.Consistent ∧ ¬ c.Deserted c') fresh destroyedAround := by
  obtain ⟨c, hrun, hconn, hgone⟩ : ∃ c : FrameSyncComponent UInt32,
      system.Run fresh destroyedAround c ∧ c.connections.lookup 1 = some ⟨1, lit "room"⟩ ∧
        (c.rooms.lookup (lit "room")).isNone = true :=
    System.Run.exists_of_any (by decide +kernel)
  have hbad : ¬ c.Consistent := by
    intro h
    have hplaying := (h.connections 1 1 (lit "room")).1 hconn
    rw [playing, Option.isNone_iff_eq_none.1 hgone] at hplaying
    cases hplaying
  have hsplit : destroyedAround = destroyedAround.take 2 ++ [.destroyRoom (lit "room")] := rfl
  obtain ⟨t, ht, hstep⟩ := (hsplit ▸ hrun).last
  exact ⟨c, hrun, hconn, hgone, hbad, fun hall ↦ hbad (hall _ [] _ t c hsplit ht hstep).1⟩

/-! ## Whose queue an input is put into -/

/-- The queues that are different afterwards are those of the player to whom the connection is
bound, and what is new there is an input that carries the number of the player. -/
def PlaysFor (c : FrameSyncComponent Conn) (conn : Conn) (c' : FrameSyncComponent Conn) : Prop :=
  ∀ roomId playerId, c'.queue roomId playerId ≠ c.queue roomId playerId →
    c.connections.lookup conn = some ⟨playerId, roomId⟩ ∧
      ∃ input : FrameInput, input.playerId = playerId ∧
        c'.queue roomId playerId = some ((c.queue roomId playerId).getD [] ++ [input])

section Queues

variable {c c' : FrameSyncComponent Conn}

omit [DecidableEq Conn] in
theorem exists_of_isTarget {playerId : UInt32} {roomId : Bytes}
    (h : c.IsTarget playerId (some roomId)) : ∃ room, c.rooms.lookup roomId = some room := by
  obtain ⟨e, he, rfl⟩ := List.mem_map.1 h
  have hcond := (List.mem_filter.1 he).2
  rw [Bool.and_eq_true] at hcond
  exact Option.isSome_iff_exists.1 hcond.2

omit [DecidableEq Conn] in
/-- What `submit_input` does to the queues. -/
theorem queue_submitInput {target : Option Bytes} {playerId : UInt32} (input : FrameInput)
    (h : c.IsTarget playerId target) (id : Bytes) (p : UInt32) :
    (c.submitInput target playerId input).queue id p =
      if target = some id ∧ p = playerId then some ((c.queue id p).getD [] ++ [input])
      else c.queue id p := by
  rcases target with _ | roomId
  · rw [if_neg fun h ↦ by cases h.1]
    rfl
  · obtain ⟨room, hroom⟩ := exists_of_isTarget h
    have hrooms : (c.submitInput (some roomId) playerId input).rooms =
        c.rooms.insert roomId (room.submitInput playerId input) := by
      rw [submitInput, hroom]
    rw [queue_insert hrooms, FrameSyncRoom.submitInput, UnorderedMap.lookup_insert_ite]
    by_cases hid : id = roomId
    · by_cases hp : p = playerId
      · rw [if_pos hid, if_pos hp, if_pos ⟨by rw [hid], hp⟩, hid, hp, queue_eq hroom]
      · rw [if_pos hid, if_neg hp, if_neg fun h ↦ hp h.2, hid, queue_eq hroom]
    · rw [if_neg hid, if_neg fun h ↦ hid (Option.some.inj h.1).symm]

/-- What `handle_frame_input` does to the queues. -/
theorem queue_frameInput {conn : Conn} {data : Bytes} {target : Option Bytes} {input : FrameInput}
    (hdec : decodeFrameInput data = some input)
    (hs : step c (.frameInput conn data target) = some c') (id : Bytes) (p : UInt32) :
    c'.queue id p = if target = some id ∧ p = input.playerId then
      some ((c.queue id p).getD [] ++ [input]) else c.queue id p := by
  rcases frameInput_cases hs with ⟨hnone, -⟩ | ⟨input', hdec', htarget, hc'⟩
  · cases hdec.symm.trans hnone
  · cases hdec.symm.trans hdec'
    rcases hc' with rfl | ⟨id', room, hroom, rfl⟩
    · exact queue_submitInput input htarget id p
    · have hsubmit := queue_submitInput input htarget id p
      generalize c.submitInput target input.playerId input = d at hroom hsubmit ⊢
      rw [← hsubmit, queue_insert rfl]
      split
      · next hid => rw [hid, queue_eq hroom]; rfl
      · rfl

/-- **A client that plays for itself**: `handle_frame_input` changes only the queue of the player to
whom the connection is bound, and queues only an input that carries the number of that player, just
when the body cannot be decoded, or the loop of `submit_input` finds no room for the player that it
names, or that player is the one to whom the connection is bound, and in the room that is found. -/
theorem plays_for_itself {conn : Conn} {data : Bytes} {target : Option Bytes}
    (hs : step c (.frameInput conn data target) = some c') :
    c.PlaysFor conn c' ↔ ∀ input roomId, decodeFrameInput data = some input →
      target = some roomId → c.connections.lookup conn = some ⟨input.playerId, roomId⟩ := by
  rcases hdec : decodeFrameInput data with _ | input
  · -- nothing is queued
    refine iff_of_true (fun id p hne ↦ absurd ?_ hne) fun input roomId he ↦ by cases he
    rcases frameInput_cases hs with ⟨-, rfl⟩ | ⟨input, hdec', -⟩
    · rfl
    · cases hdec.symm.trans hdec'
  · have hqueue := queue_frameInput hdec hs
    constructor
    · rintro h input' roomId he rfl
      cases he
      refine (h roomId input.playerId ?_).1
      rw [hqueue, if_pos ⟨rfl, rfl⟩]
      intro heq
      have hlen := congrArg (fun q ↦ (q.getD []).length) heq
      simp at hlen
    · intro h id p hne
      rw [hqueue] at hne ⊢
      split at hne
      · next hid =>
        obtain ⟨rfl, rfl⟩ := hid
        rw [if_pos ⟨rfl, rfl⟩]
        exact ⟨h input id rfl rfl, input, rfl, rfl⟩
      · exact absurd rfl hne

end Queues

theorem plays_for_itself_twoPlayers :
    ∃ c c' : FrameSyncComponent UInt32, system.Run fresh twoPlayers c ∧
      step c (play 2 0) = some c' ∧ c.connections.lookup 2 = some ⟨2, lit "room"⟩ ∧
      c.PlaysFor 2 c' := by
  obtain ⟨c, hrun, hsome, hconn⟩ : ∃ c : FrameSyncComponent UInt32,
      system.Run fresh twoPlayers c ∧ (step c (play 2 0)).isSome = true ∧
        c.connections.lookup 2 = some ⟨2, lit "room"⟩ :=
    System.Run.exists_of_any (by decide +kernel)
  obtain ⟨c', hs⟩ := Option.isSome_iff_exists.1 hsome
  refine ⟨c, c', hrun, hs, hconn, (plays_for_itself hs).2 ?_⟩
  intro input roomId hdec htarget
  have hplayer : input.playerId = 2 := by
    have hall : (decodeFrameInput (encodeUint32 2 ++ encodeUint32 0 ++ encodeBytes [])).all
        (fun input ↦ decide (input.playerId = 2)) = true := by decide +kernel
    rw [hdec] at hall
    exact of_decide_eq_true hall
  cases htarget
  rw [hplayer]
  exact hconn

/-- The input of player 2, sent over the connection of player 1. -/
def forged : Op UInt32 :=
  .frameInput 1 (encodeUint32 2 ++ encodeUint32 0 ++ encodeBytes []) (some (lit "room"))

/-- It is put into the queue of player 2. -/
theorem forged_input :
    ∃ c c' : FrameSyncComponent UInt32, system.Run fresh twoPlayers c ∧ step c forged = some c' ∧
      c.connections.lookup 1 = some ⟨1, lit "room"⟩ ∧
      c.queue (lit "room") 2 = some [] ∧ c'.queue (lit "room") 2 = some [⟨0, 2, []⟩] ∧
      ¬ c.PlaysFor 1 c' := by
  obtain ⟨c, hrun, hconn, hbefore, c', hs, hafter⟩ : ∃ c : FrameSyncComponent UInt32,
      system.Run fresh twoPlayers c ∧ c.connections.lookup 1 = some ⟨1, lit "room"⟩ ∧
        c.queue (lit "room") 2 = some [] ∧
        ∃ c' ∈ step c forged, c'.queue (lit "room") 2 = some [⟨0, 2, []⟩] :=
    System.Run.exists_of_any (by decide +kernel)
  refine ⟨c, c', hrun, hs, hconn, hbefore, hafter, fun h ↦ ?_⟩
  have hbound := (h (lit "room") 2 (by rw [hbefore, hafter]; decide)).1
  rw [hconn] at hbound
  exact absurd hbound (by decide)

end FrameSyncComponent

end Sync
end ChwellCore
