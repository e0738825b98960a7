import ChwellCore.Game.Components
import ChwellCore.Lib.Run
import Mathlib.Data.List.Induction

/-!
# Who is in a room

`RoomComponent` has the members of a room as raw pointers, and keeps the connections alive in a
table of its own.  One call of `leave_room` takes a connection out of all its rooms and out of that
table, and deletes the rooms that nobody is in any more.

`RoomComponent.Tidy` says how the two tables stand to each other, and `members_exact` what they say
after any calls: the connections that `get_connections_in_room` finds are those that have joined the
room and have neither left nor been disconnected since.

A connection is known by its address.  As long as it is in a room it is in the table that keeps it
alive, so no other connection has that address.
-/

set_option autoImplicit false

namespace ChwellCore
namespace Game

variable {Conn : Type} [DecidableEq Conn]

namespace RoomComponent

/-- `on_disconnect`. -/
def onDisconnect (c : RoomComponent Conn) (conn : Conn) : RoomComponent Conn := c.leaveRoom conn

/-- Nobody has joined. -/
def empty : RoomComponent Conn := ⟨∅, ∅⟩

/-! ## The two tables -/

/-- No room is empty, and every member of a room is kept alive. -/
structure Tidy (c : RoomComponent Conn) : Prop where
  nonempty : ∀ roomId room, c.rooms.lookup roomId = some room → room.connections.toList ≠ []
  kept : ∀ roomId room, c.rooms.lookup roomId = some room → ∀ conn ∈ room.connections,
    c.connectionsMap.lookup conn = some conn

variable {c : RoomComponent Conn} {conn : Conn} {roomId : Bytes}

theorem tidy_empty : (empty : RoomComponent Conn).Tidy :=
  ⟨fun _ _ h ↦ (Option.some_ne_none _ h.symm).elim, fun _ _ h ↦ (Option.some_ne_none _ h.symm).elim⟩

/-- A room after a join. -/
theorem lookup_rooms_joinRoom (c : RoomComponent Conn) (conn : Conn) (roomId roomId' : Bytes) :
    (c.joinRoom conn roomId).rooms.lookup roomId' =
      if roomId' = roomId then
        let room := (c.rooms.lookup roomId).getD ⟨roomId, ∅⟩
        some { room with connections := room.connections.insert conn }
      else c.rooms.lookup roomId' :=
  UnorderedMap.lookup_insert_ite _ _ _ _

/-- A room after somebody has left. -/
theorem lookup_rooms_leaveRoom (c : RoomComponent Conn) (conn : Conn) (roomId : Bytes) :
    (c.leaveRoom conn).rooms.lookup roomId =
      ((c.rooms.lookup roomId).map fun room ↦
        { room with connections := room.connections.erase conn }).filter
          fun room ↦ !room.connections.toList.isEmpty := by
  rw [leaveRoom, UnorderedMap.lookup_filter, UnorderedMap.lookup_map]

theorem Tidy.joinRoom (h : c.Tidy) (conn : Conn) (roomId : Bytes) :
    (c.joinRoom conn roomId).Tidy := by
  constructor
  · intro roomId' room hroom
    rw [lookup_rooms_joinRoom] at hroom
    split at hroom
    · obtain rfl := Option.some.inj hroom
      exact List.ne_nil_of_mem (UnorderedSet.mem_insert.2 (.inl rfl))
    · exact h.nonempty roomId' room hroom
  · intro roomId' room hroom conn' hmem
    rw [RoomComponent.joinRoom, UnorderedMap.lookup_insert_ite]
    split
    · next heq => rw [heq]
    next hne =>
    rw [lookup_rooms_joinRoom] at hroom
    split at hroom
    · obtain rfl := Option.some.inj hroom
      rcases UnorderedSet.mem_insert.1 hmem with heq | hmem
      · exact absurd heq hne
      · rcases hold : c.rooms.lookup roomId with _ | room
        · rw [hold] at hmem
          exact absurd hmem (UnorderedSet.notMem_empty conn')
        · rw [hold] at hmem
          exact h.kept roomId room hold conn' hmem
    · exact h.kept roomId' room hroom conn' hmem

theorem Tidy.leaveRoom (h : c.Tidy) (conn : Conn) : (c.leaveRoom conn).Tidy := by
  constructor
  · intro roomId room hroom
    rw [lookup_rooms_leaveRoom, Option.filter_eq_some_iff] at hroom
    intro hnil
    rw [hnil] at hroom
    exact Bool.false_ne_true hroom.2
  · intro roomId room hroom conn' hmem
    rw [lookup_rooms_leaveRoom, Option.filter_eq_some_iff, Option.map_eq_some_iff] at hroom
    obtain ⟨⟨old, hold, rfl⟩, -⟩ := hroom
    obtain ⟨hne, hmem⟩ := UnorderedSet.mem_erase.1 hmem
    rw [RoomComponent.leaveRoom, UnorderedMap.lookup_erase_ite, if_neg hne]
    exact h.kept roomId old hold conn' hmem

/-- `get_connections_in_room` finds all members of a room. -/
theorem Tidy.getConnectionsInRoom (h : c.Tidy) (roomId : Bytes) :
    c.getConnectionsInRoom roomId =
      ((c.rooms.lookup roomId).map fun room ↦ room.connections.toList).getD [] := by
  rw [RoomComponent.getConnectionsInRoom]
  rcases hroom : c.rooms.lookup roomId with _ | room
  · rfl
  · rw [Option.map_some, Option.getD_some]
    dsimp only
    rw [List.filterMap_congr fun conn hmem ↦ h.kept roomId room hroom conn hmem,
      List.filterMap_some]

theorem Tidy.mem_getConnectionsInRoom (h : c.Tidy) :
    conn ∈ c.getConnectionsInRoom roomId ↔ c.InRoom conn roomId := by
  rw [h.getConnectionsInRoom, InRoom]
  rcases c.rooms.lookup roomId with _ | room
  · simp
  · simp [UnorderedSet.mem_def]

theorem Tidy.nodup_getConnectionsInRoom (h : c.Tidy) (roomId : Bytes) :
    (c.getConnectionsInRoom roomId).Nodup := by
  rw [h.getConnectionsInRoom]
  rcases c.rooms.lookup roomId with _ | room
  · exact List.nodup_nil
  · exact room.connections.nodup

end RoomComponent

/-! ## Any calls -/

/-- A call of `RoomComponent`. -/
inductive RoomCall (Conn : Type)
  | joinRoom (conn : Conn) (roomId : Bytes)
  | leaveRoom (conn : Conn)
  | onDisconnect (conn : Conn)

/-- What a call does. -/
def RoomCall.exec (c : RoomComponent Conn) : RoomCall Conn → RoomComponent Conn
  | .joinRoom conn roomId => c.joinRoom conn roomId
  | .leaveRoom conn => c.leaveRoom conn
  | .onDisconnect conn => c.onDisconnect conn

/-- The rooms after these calls. -/
def RoomComponent.after (calls : List (RoomCall Conn)) : RoomComponent Conn :=
  calls.foldl RoomCall.exec .empty

/-- The call takes the connection out of its rooms. -/
def RoomCall.Leaves (conn : Conn) (call : RoomCall Conn) : Prop :=
  call = .leaveRoom conn ∨ call = .onDisconnect conn

/-- The connection has joined the room and has not left since. -/
def Joined (conn : Conn) (roomId : Bytes) (calls : List (RoomCall Conn)) : Prop :=
  ∃ before after, calls = before ++ .joinRoom conn roomId :: after ∧
    ∀ call ∈ after, ¬ call.Leaves conn

variable {conn : Conn} {roomId : Bytes} {calls : List (RoomCall Conn)}

omit [DecidableEq Conn] in
theorem joined_append_singleton {call : RoomCall Conn} : Joined conn roomId (calls ++ [call]) ↔
    call = .joinRoom conn roomId ∨ Joined conn roomId calls ∧ ¬ call.Leaves conn := by
  constructor
  · rintro ⟨before, after, hcalls, hafter⟩
    rcases System.snoc_eq_append_cons.1 hcalls with ⟨-, hcall, -⟩ | ⟨after', rfl, rfl⟩
    · exact .inl hcall.symm
    · have hrest call (hcall : call ∈ after') := hafter call (List.mem_append_left _ hcall)
      exact .inr ⟨⟨before, after', rfl, hrest⟩,
        hafter call (List.mem_append_right _ (List.mem_singleton_self call))⟩
  · rintro (rfl | ⟨⟨before, after, rfl, hafter⟩, hcall⟩)
    · exact ⟨calls, [], rfl, fun call hcall ↦ absurd hcall List.not_mem_nil⟩
    · refine ⟨before, after ++ [call], List.append_assoc _ _ _, fun call' hcall' ↦ ?_⟩
      rcases List.mem_append.1 hcall' with hcall' | hcall'
      · exact hafter call' hcall'
      · rwa [List.mem_singleton.1 hcall']

namespace RoomComponent

theorem after_append_singleton (calls : List (RoomCall Conn)) (call : RoomCall Conn) :
    after (calls ++ [call]) = call.exec (after calls) := by
  rw [after, List.foldl_append]
  rfl

theorem tidy_after (calls : List (RoomCall Conn)) : (after calls).Tidy := by
  induction calls using List.reverseRecOn with
  | nil => exact tidy_empty
  | append_singleton calls call ih =>
    rw [after_append_singleton]
    match call with
    | .joinRoom conn roomId => exact ih.joinRoom conn roomId
    | .leaveRoom conn | .onDisconnect conn => exact ih.leaveRoom conn

/-- Who is in a room, call by call. -/
theorem inRoom_after (calls : List (RoomCall Conn)) (conn : Conn) (roomId : Bytes) :
    (after calls).InRoom conn roomId ↔ Joined conn roomId calls := by
  induction calls using List.reverseRecOn with
  | nil =>
    refine iff_of_false (fun ⟨room, hroom, _⟩ ↦ ?_) fun ⟨before, after, hcalls, _⟩ ↦ ?_
    · cases hroom
    · simp at hcalls
  | append_singleton calls call ih =>
    rw [after_append_singleton, joined_append_singleton, ← ih]
    match call with
    | .joinRoom conn' roomId' =>
      rw [RoomCall.exec, inRoom_joinRoom]
      simp [RoomCall.Leaves, eq_comm]
    | .leaveRoom conn' =>
      rw [RoomCall.exec, inRoom_leaveRoom]
      simp [RoomCall.Leaves, eq_comm, and_comm]
    | .onDisconnect conn' =>
      rw [RoomCall.exec, onDisconnect, inRoom_leaveRoom]
      simp [RoomCall.Leaves, eq_comm, and_comm]

/-- **Membership is exact.**  After any calls, for any connections and rooms. -/
theorem members_exact (calls : List (RoomCall Conn)) :
    (∀ roomId, ((after calls).getConnectionsInRoom roomId).Nodup ∧
      ∀ conn, conn ∈ (after calls).getConnectionsInRoom roomId ↔ Joined conn roomId calls) ∧
    (after calls).Tidy := by
  have htidy := tidy_after calls
  refine ⟨fun roomId ↦ ⟨htidy.nodup_getConnectionsInRoom roomId, fun conn ↦ ?_⟩, htidy⟩
  rw [htidy.mem_getConnectionsInRoom, inRoom_after]

end RoomComponent

end Game
end ChwellCore
