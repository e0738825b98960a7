import ChwellCore.Net.PoolLocks
import ChwellCore.Sync.FrameSync
import ChwellCore.Sync.StateWire

/-!
# What the synchronisation components lock

A component has a mutex, each of its rooms has one, and so has each connection, for sending.  A
public operation locks the mutex of the component and calls the rooms with it locked, which lock
their own.  Here each operation is translated once more, to what it locks, in which state: an
operation that calls another one of the same object must have unlocked the mutex before.

`leave_room` and `on_disconnect` see to that, and say so.  Two do not.  `handle_frame_input` calls
`broadcast_frame_state` with the mutex of the component locked, when all inputs of a frame are
there; and `subscribe` calls `create_snapshot` with that of the room locked, when there is a
callback to send the snapshot with.  So the first frame that is complete stops the component, and
so does the first subscription a room.  A `StateSyncComponent` is spared by another slip: nothing
ever puts a connection into its table, so that none is ever in a room and no subscription gets that
far.

`never_relocks` says when an operation locks a mutex twice, together with what `PoolLocks` says of
the connection pool.
-/

set_option autoImplicit false

namespace ChwellCore
namespace Sync

/-- The mutexes. -/
inductive Mutex (Conn : Type) where
  | component
  | room (roomId : Bytes)
  | send (conn : Conn)
deriving DecidableEq

variable {Conn : Type} [DecidableEq Conn]

/-- `send_message`: the connection locks its own mutex while it sends. -/
def sendMessage (conn : Conn) : Scoped (Mutex Conn) := .under (.send conn) .nothing

/-- A method of a room that calls nothing else. -/
def roomCall (roomId : Bytes) : Scoped (Mutex Conn) := .under (.room roomId) .nothing

/-- A method of a component that calls nothing else. -/
def componentCall : Scoped (Mutex Conn) := .under .component .nothing

section Calls

variable (held : List (Mutex Conn))

@[simp] theorem relocks_sendMessage (conn : Conn) :
    (sendMessage conn).relocks held = decide (.send conn ∈ held) := by
  simp [sendMessage]

@[simp] theorem relocks_roomCall (roomId : Bytes) :
    (roomCall roomId).relocks held = decide (.room roomId ∈ held) := by
  simp [roomCall]

@[simp] theorem relocks_componentCall :
    componentCall.relocks held = decide (.component ∈ held) := by
  simp [componentCall]

end Calls

/-! ## Frame synchronisation -/

variable (Conn) in
/-- The public operations of `FrameSyncComponent`. -/
inductive FrameSyncCall where
  | onRegister
  | handleFrameInput (conn : Conn) (data : Bytes) (target : Option Bytes)
  | handleFrameSyncReq (conn : Conn) (data : Bytes)
  | createRoom (roomId : Bytes)
  | destroyRoom (roomId : Bytes)
  | joinRoom (playerId : UInt32) (roomId : Bytes) (conn : Conn)
  | leaveRoom (playerId : UInt32) (roomId : Bytes)
  | submitInput (playerId : UInt32) (input : FrameInput) (target : Option Bytes)
  | createSnapshot (roomId : Bytes)
  | broadcastFrameState (roomId : Bytes)
  | sendFrameSync (conn : Conn)
  | sendFrameSnapshot (conn : Conn)
  | onDisconnect (conn : Conn)

namespace FrameSyncComponent

variable (c : FrameSyncComponent Conn)

/-- What is locked in a room, if there is one of that name. -/
def locksIn (roomId : Bytes) (body : FrameSyncRoom Conn → Scoped (Mutex Conn)) :
    Scoped (Mutex Conn) :=
  match c.rooms.lookup roomId with
  | none => .nothing
  | some room => body room

/-- `leave_room`: `leave_player` and `player_count` with the mutex locked, and `destroy_room`
without. -/
def locksOfLeaveRoom (playerId : UInt32) (roomId : Bytes) : Scoped (Mutex Conn) :=
  .under .component (c.locksIn roomId fun _ ↦ roomCall roomId ++ roomCall roomId) ++
    c.locksIn roomId fun room ↦
      if (room.leavePlayer playerId).playerCount = 0 then componentCall else .nothing

/-- `submit_input`, when its loop stops at `target`. -/
def locksOfSubmitInput (target : Option Bytes) : Scoped (Mutex Conn) :=
  .under .component (match target with
    | none => .nothing
    | some roomId => roomCall roomId)

/-- `broadcast_frame_state`. -/
def locksOfBroadcast (roomId : Bytes) : Scoped (Mutex Conn) :=
  .under .component (c.locksIn roomId fun _ ↦ roomCall roomId) ++
    c.locksIn roomId fun room ↦ .forEach room.players.entries fun e ↦ sendMessage e.2

/-- The second half of `handle_frame_input`: `all_inputs_ready`, and then perhaps `advance_frame`
and `broadcast_frame_state`. -/
def locksOfAdvance (conn : Conn) (frameId : UInt32) : Scoped (Mutex Conn) :=
  if c.getRoomId conn = [] then .nothing
  else .under .component (c.locksIn (c.getRoomId conn) fun room ↦
    roomCall (c.getRoomId conn) ++
      if room.allInputsReady frameId then
        roomCall (c.getRoomId conn) ++
          { c with rooms := c.rooms.insert (c.getRoomId conn) room.advanceFrame }.locksOfBroadcast
            (c.getRoomId conn)
      else .nothing)

/-- What an operation locks. -/
def locks : FrameSyncCall Conn → Scoped (Mutex Conn)
  | .onRegister => .nothing
  | .handleFrameInput conn data target =>
    match decodeFrameInput data with
    | none => .nothing
    | some input =>
      locksOfSubmitInput target ++ componentCall ++
        (c.submitInput target input.playerId input).locksOfAdvance conn input.frameId
  | .handleFrameSyncReq conn data =>
    match decodeBytes data 0 with
    | none => .nothing
    | some (roomId, _) => .under .component (c.locksIn roomId fun _ ↦ sendMessage conn)
  | .createRoom _ | .destroyRoom _ => componentCall
  | .joinRoom _ roomId _ | .createSnapshot roomId =>
    .under .component (c.locksIn roomId fun _ ↦ roomCall roomId)
  | .leaveRoom playerId roomId => c.locksOfLeaveRoom playerId roomId
  | .submitInput _ _ target => locksOfSubmitInput target
  | .broadcastFrameState roomId => c.locksOfBroadcast roomId
  | .sendFrameSync conn | .sendFrameSnapshot conn => sendMessage conn
  | .onDisconnect conn =>
    componentCall ++ match c.connections.lookup conn with
      | none => .nothing
      | some info =>
        if info.roomId = [] then .nothing
        else { c with connections := c.connections.erase conn }.locksOfLeaveRoom info.playerId
          info.roomId

/-- The message completes the inputs of a frame in the room of the sender. -/
def Completes : FrameSyncCall Conn → Prop
  | .handleFrameInput conn data target =>
    ∃ input room, decodeFrameInput data = some input ∧
      (c.submitInput target input.playerId input).roomOf conn = some room ∧
      room.allInputsReady input.frameId = true
  | _ => False

section Relocks

variable {c}

@[simp] theorem relocks_locksIn (held : List (Mutex Conn)) (roomId : Bytes)
    (body : FrameSyncRoom Conn → Scoped (Mutex Conn)) :
    (c.locksIn roomId body).relocks held =
      (c.rooms.lookup roomId).any fun room ↦ (body room).relocks held := by
  rw [locksIn]
  split <;> simp [*]

theorem relocks_leaveRoom (playerId : UInt32) (roomId : Bytes) :
    (c.locksOfLeaveRoom playerId roomId).relocks [] = false := by
  simp [locksOfLeaveRoom, Scoped.relocks_ite]

theorem relocks_submitInput (target : Option Bytes) :
    (locksOfSubmitInput target : Scoped (Mutex Conn)).relocks [] = false := by
  rcases target with _ | roomId <;> simp [locksOfSubmitInput]

theorem relocks_broadcast (roomId : Bytes) : (c.locksOfBroadcast roomId).relocks [] = false := by
  rcases hroom : c.rooms.lookup roomId with _ | room
  · simp [locksOfBroadcast, hroom]
  · simp [locksOfBroadcast, hroom]

/-- To broadcast with the mutex of the component locked is to lock it twice. -/
theorem relocks_broadcast_of_mem {held : List (Mutex Conn)} (h : .component ∈ held)
    (roomId : Bytes) : (c.locksOfBroadcast roomId).relocks held = true := by
  simp [locksOfBroadcast, h]

theorem relocks_advance (conn : Conn) (frameId : UInt32) :
    (c.locksOfAdvance conn frameId).relocks [] = true ↔
      ∃ room, c.roomOf conn = some room ∧ room.allInputsReady frameId = true := by
  rw [locksOfAdvance, roomOf]
  by_cases hnone : c.getRoomId conn = []
  · simp [hnone]
  · rw [if_neg hnone, if_neg hnone, Scoped.relocks_under, relocks_locksIn]
    simp only [List.not_mem_nil, decide_false, Bool.false_or, Option.any_eq_true,
      Scoped.relocks_append, relocks_roomCall, Scoped.relocks_ite, Scoped.relocks_nothing]
    refine exists_congr fun room ↦ and_congr_right fun _ ↦ ?_
    rcases hready : room.allInputsReady frameId with _ | _
    · simp
    · simp [relocks_broadcast_of_mem]

/-- **What a frame synchronisation component locks twice**: the mutex of the component, when an
input completes a frame, and nothing else. -/
theorem relocks_locks (call : FrameSyncCall Conn) :
    (c.locks call).relocks [] = true ↔ c.Completes call := by
  cases call with
  | handleFrameInput conn data target =>
    simp only [locks, Completes]
    rcases hdec : decodeFrameInput data with _ | input
    · simp
    · simp [relocks_submitInput, relocks_advance]
  | handleFrameSyncReq conn data =>
    simp only [locks, Completes]
    split <;> simp
  | leaveRoom playerId roomId => simp [locks, Completes, relocks_leaveRoom]
  | submitInput playerId input target => simp [locks, Completes, relocks_submitInput]
  | broadcastFrameState roomId => simp [locks, Completes, relocks_broadcast]
  | onDisconnect conn =>
    simp only [locks, Completes]
    split
    · simp
    · simp [Scoped.relocks_ite, relocks_leaveRoom]
  | onRegister | createRoom | destroyRoom | joinRoom | createSnapshot | sendFrameSync
  | sendFrameSnapshot => simp [locks, Completes]

end Relocks

end FrameSyncComponent

/-! ## State synchronisation rooms -/

variable (Conn) in
/-- What the callbacks of a room lock. -/
structure StateCallbacks where
  diff : Conn → Scoped (Mutex Conn)
  snapshot : Conn → Scoped (Mutex Conn)

variable (Conn) in
/-- The public operations of `StateSyncRoom`. -/
inductive StateSyncRoomCall where
  /-- `set_diff_callback` or `set_snapshot_callback`. -/
  | setCallback
  | updateState (update : StateUpdate)
  /-- `query_state`, `query_all_states`, `get_entity_states`, `get_entity_timestamp` or
  `get_entity_subscribers`. -/
  | read
  | createSnapshot (entityId : Bytes)
  | subscribe (entityId : Bytes) (conn : Conn)
  | unsubscribe (entityId : Bytes) (conn : Conn)

namespace StateSyncRoom

variable (cb : StateCallbacks Conn) (roomId : Bytes) (r : StateSyncRoom Conn)

/-- What the callback of a delivery locks. -/
def locksOfDelivery : Delivery Conn → Scoped (Mutex Conn)
  | .diff conn _ => cb.diff conn
  | .snapshot conn _ => cb.snapshot conn

/-- What an operation locks.  `subscribe` calls `create_snapshot`. -/
def locks : StateSyncRoomCall Conn → Scoped (Mutex Conn)
  | .setCallback => .nothing
  | .updateState update =>
    .under (.room roomId) (.forEach (r.updateState update).2 (locksOfDelivery cb))
  | .read | .createSnapshot _ | .unsubscribe _ _ => roomCall roomId
  | .subscribe _ conn =>
    .under (.room roomId)
      (if r.snapshotCallback then roomCall roomId ++ cb.snapshot conn else .nothing)

/-- The operation is a subscription to which a snapshot is to be sent, or an update of which a
callback is told that locks something twice with the mutex of the room locked. -/
def Reenters : StateSyncRoomCall Conn → Prop
  | .subscribe _ _ => r.snapshotCallback = true
  | .updateState update =>
    ∃ d ∈ (r.updateState update).2, (locksOfDelivery cb d).relocks [.room roomId] = true
  | .setCallback | .read | .createSnapshot _ | .unsubscribe _ _ => False

variable {cb roomId r}

theorem relocks_locks (call : StateSyncRoomCall Conn) :
    (r.locks cb roomId call).relocks [] = true ↔ r.Reenters cb roomId call := by
  cases call with
  | updateState update => simp [locks, Reenters]
  | subscribe entityId conn =>
    rcases hcb : r.snapshotCallback with _ | _
    · simp [locks, Reenters, hcb]
    · simp [locks, Reenters, hcb]
  | setCallback | read | createSnapshot | unsubscribe => simp [locks, Reenters]

end StateSyncRoom

/-! ## The state synchronisation component -/

variable (Conn) in
/-- `StateSyncComponent`. -/
structure StateSyncComponent where
  rooms : UnorderedMap Bytes (StateSyncRoom Conn)
  connections : UnorderedMap Conn Bytes

variable (Conn) in
/-- The public operations of `StateSyncComponent`. -/
inductive StateSyncCall where
  | onRegister
  | handleStateUpdate (conn : Conn) (data : Bytes)
  | handleStateQuery (conn : Conn) (data : Bytes)
  | handleStateSubscribe (conn : Conn) (data : Bytes)
  | handleStateUnsubscribe (conn : Conn) (data : Bytes)
  | createRoom (roomId : Bytes)
  | destroyRoom (roomId : Bytes)
  | updateState (roomId : Bytes) (update : StateUpdate)
  /-- `query_state`, `query_all_states` or `create_snapshot`. -/
  | read (roomId : Bytes)
  | onDisconnect (conn : Conn)

/-- The decodings of `handle_state_update`. -/
def readStateUpdate : Reader UInt8 StateUpdate := do
  let entityId ← readString
  let stateKey ← readString
  let type ← readUint8
  let value ← readString
  let timestamp ← readUint64
  pure ⟨entityId, stateKey, ⟨⟨type⟩, value⟩, timestamp⟩

/-- The decodings of `handle_state_query`. -/
def readStateQuery : Reader UInt8 (Bytes × Bytes) := do
  let entityId ← readString
  let stateKey ← readString
  pure (entityId, stateKey)

namespace StateSyncComponent

variable (c : StateSyncComponent Conn)

/-- A component without rooms. -/
def fresh : StateSyncComponent Conn := ⟨∅, ∅⟩

/-- `get_room_id`. -/
def getRoomId (conn : Conn) : Bytes := (c.connections.lookup conn).getD []

/-- A room is changed, if there is one of that name. -/
def modifyRoom (roomId : Bytes) (f : StateSyncRoom Conn → StateSyncRoom Conn) :
    StateSyncComponent Conn :=
  match c.rooms.lookup roomId with
  | none => c
  | some room => { c with rooms := c.rooms.insert roomId (f room) }

/-- The room of a connection is changed, if it is in one. -/
def modifyRoomOf (conn : Conn) (f : StateSyncRoom Conn → StateSyncRoom Conn) :
    StateSyncComponent Conn :=
  if c.getRoomId conn = [] then c else c.modifyRoom (c.getRoomId conn) f

/-- What an operation does to the component. -/
def step : StateSyncCall Conn → StateSyncComponent Conn
  | .handleStateUpdate conn data =>
    match readStateUpdate.run data with
    | none => c
    | some (update, _) => c.modifyRoomOf conn fun room ↦ (room.updateState update).1
  | .handleStateSubscribe conn data =>
    match readString.run data with
    | none => c
    | some (entityId, _) => c.modifyRoomOf conn fun room ↦ (room.subscribe entityId conn).1
  | .handleStateUnsubscribe conn data =>
    match readString.run data with
    | none => c
    | some (entityId, _) => c.modifyRoomOf conn fun room ↦ room.unsubscribe entityId conn
  | .createRoom roomId =>
    if (c.rooms.lookup roomId).isSome then c
    else { c with rooms := c.rooms.insert roomId (.new true true) }
  | .destroyRoom roomId => { c with rooms := c.rooms.erase roomId }
  | .updateState roomId update => c.modifyRoom roomId fun room ↦ (room.updateState update).1
  | .onDisconnect conn => { c with connections := c.connections.erase conn }
  | .onRegister | .handleStateQuery _ _ | .read _ => c

/-- The system of all runs. -/
def system : System (StateSyncComponent Conn) (StateSyncCall Conn) := .ofFun step

/-- What the callbacks that `create_room` sets lock: they send a message. -/
def callbacks : StateCallbacks Conn := ⟨sendMessage, sendMessage⟩

/-- What a call of a room locks with the mutex of the component locked, if there is a room of that
name. -/
def locksIn (roomId : Bytes) (call : StateSyncRoomCall Conn) : Scoped (Mutex Conn) :=
  .under .component (match c.rooms.lookup roomId with
    | none => .nothing
    | some room => room.locks callbacks roomId call)

/-- `get_room_id`, and then the call of the room of the connection, if it is in one. -/
def locksInRoomOf (conn : Conn) (call : StateSyncRoomCall Conn) : Scoped (Mutex Conn) :=
  componentCall ++ if c.getRoomId conn = [] then .nothing else c.locksIn (c.getRoomId conn) call

/-- What an operation locks. -/
def locks : StateSyncCall Conn → Scoped (Mutex Conn)
  | .onRegister => .nothing
  | .handleStateUpdate conn data =>
    match readStateUpdate.run data with
    | none => .nothing
    | some (update, _) => c.locksInRoomOf conn (.updateState update)
  | .handleStateQuery conn data =>
    match readStateQuery.run data with
    | none => .nothing
    | some ((entityId, stateKey), _) =>
      -- the answer is sent if the state is found
      c.locksInRoomOf conn .read ++
        if c.getRoomId conn ≠ [] ∧ ((c.rooms.lookup (c.getRoomId conn)).bind fun room ↦
          room.queryState entityId stateKey).isSome then sendMessage conn else .nothing
  | .handleStateSubscribe conn data =>
    match readString.run data with
    | none => .nothing
    | some (entityId, _) => c.locksInRoomOf conn (.subscribe entityId conn)
  | .handleStateUnsubscribe conn data =>
    match readString.run data with
    | none => .nothing
    | some (entityId, _) => c.locksInRoomOf conn (.unsubscribe entityId conn)
  | .createRoom _ | .destroyRoom _ | .onDisconnect _ => componentCall
  | .updateState roomId update => c.locksIn roomId (.updateState update)
  | .read roomId => c.locksIn roomId .read

variable {c}

omit [DecidableEq Conn] in
theorem connections_modifyRoom (roomId : Bytes) (f : StateSyncRoom Conn → StateSyncRoom Conn) :
    (c.modifyRoom roomId f).connections = c.connections := by
  rw [modifyRoom]
  split <;> rfl

theorem connections_modifyRoomOf (conn : Conn) (f : StateSyncRoom Conn → StateSyncRoom Conn) :
    (c.modifyRoomOf conn f).connections = c.connections := by
  rw [modifyRoomOf]
  split
  · rfl
  · exact connections_modifyRoom _ f

/-- No operation puts a connection into the table. -/
theorem connections_step (h : c.connections = ∅) (call : StateSyncCall Conn) :
    (c.step call).connections = ∅ := by
  cases call with
  | onRegister | handleStateQuery | read | destroyRoom => exact h
  | handleStateUpdate conn data | handleStateSubscribe conn data
  | handleStateUnsubscribe conn data =>
    rw [step]
    split
    · exact h
    · exact (connections_modifyRoomOf _ _).trans h
  | createRoom roomId =>
    rw [step]
    split <;> exact h
  | updateState roomId update => exact (connections_modifyRoom _ _).trans h
  | onDisconnect conn =>
    rw [step, h]
    rfl

theorem getRoomId_run {calls : List (StateSyncCall Conn)} (hrun : system.Run fresh calls c)
    (conn : Conn) : c.getRoomId conn = [] := by
  have hconn : c.connections = ∅ := by
    refine hrun.invariant (motive := fun c ↦ c.connections = ∅) ?_ rfl
    rintro c call c' h rfl
    exact connections_step h call
  rw [getRoomId, hconn, AList.lookup_empty]
  rfl

theorem relocks_locksInRoomOf {conn : Conn} (h : c.getRoomId conn = [])
    (call : StateSyncRoomCall Conn) : (c.locksInRoomOf conn call).relocks [] = false := by
  simp [locksInRoomOf, h]

theorem relocks_update (roomId : Bytes) (update : StateUpdate) :
    (c.locksIn roomId (.updateState update)).relocks [] = false := by
  rw [locksIn]
  split
  · simp
  · next room hroom =>
    have hsend : ∀ d ∈ (room.updateState update).2, (StateSyncRoom.locksOfDelivery callbacks
        d).relocks [.room roomId, .component] = false := by
      intro d _
      cases d <;> simp [StateSyncRoom.locksOfDelivery, callbacks]
    simpa [StateSyncRoom.locks] using hsend

/-- **A state synchronisation component locks nothing twice**, in any state that it comes to. -/
theorem relocks_locks {calls : List (StateSyncCall Conn)} (hrun : system.Run fresh calls c)
    (call : StateSyncCall Conn) : (c.locks call).relocks [] = false := by
  have hroom := getRoomId_run hrun
  cases call with
  | onRegister | createRoom | destroyRoom | onDisconnect => simp [locks]
  | handleStateUpdate conn data | handleStateSubscribe conn data
  | handleStateUnsubscribe conn data =>
    rw [locks]
    split
    · rfl
    · exact relocks_locksInRoomOf (hroom conn) _
  | handleStateQuery conn data =>
    rw [locks]
    split
    · rfl
    · simp [relocks_locksInRoomOf (hroom conn), Scoped.relocks_ite]
  | updateState roomId update => exact relocks_update roomId update
  | read roomId =>
    rw [locks, locksIn]
    split <;> simp [StateSyncRoom.locks]

end StateSyncComponent

/-! ## All of them -/

open Net (PoolThread ConnectionPoolConfig)

/-- **When a mutex is locked twice.**  An operation of a frame synchronisation component does so
just when it is an input that completes a frame; one of a state synchronisation room, just when it
is a subscription to which a snapshot is sent, or an update of which a callback is told that does so
itself; one of a state synchronisation component never does, whatever was done before.  And a
thread that uses a connection pool never does just when the callbacks of those that wait make no
call that locks the mutex of the pool. -/
theorem never_relocks :
    (∀ (c : FrameSyncComponent Conn) (call : FrameSyncCall Conn),
      (c.locks call).relocks [] = false ↔ ¬ c.Completes call) ∧
    (∀ (cb : StateCallbacks Conn) (roomId : Bytes) (r : StateSyncRoom Conn)
      (call : StateSyncRoomCall Conn),
      (r.locks cb roomId call).relocks [] = false ↔ ¬ r.Reenters cb roomId call) ∧
    (∀ (calls : List (StateSyncCall Conn)) (c : StateSyncComponent Conn),
      StateSyncComponent.system.Run .fresh calls c → ∀ call, (c.locks call).relocks [] = false) ∧
    ∀ (cfg : ConnectionPoolConfig) (moves : List Net.Move) (t : PoolThread),
      (PoolThread.system cfg).Run .fresh moves t →
        ((PoolThread.system cfg).Along (fun _ _ u ↦ u.Free) .fresh moves ↔
          ((PoolThread.system cfg).guarded PoolThread.Outside).Run .fresh moves t) := by
  refine ⟨fun c call ↦ ?_, fun cb roomId r call ↦ ?_, fun calls c hrun call ↦ ?_,
    fun cfg moves t hrun ↦ PoolThread.free_iff hrun⟩
  · rw [← FrameSyncComponent.relocks_locks, Bool.not_eq_true]
  · rw [← StateSyncRoom.relocks_locks, Bool.not_eq_true]
  · exact StateSyncComponent.relocks_locks hrun call

/-- A pool without spare connections. -/
def onePooled : ConnectionPoolConfig := ⟨0, 1, 100, 0⟩

/-- A caller has the connection, a second one waits, and is given it when the first is done with it.
-/
def served : List Net.Move :=
  [.getConnection 5000 (fun _ ↦ 0) (fun _ ↦ 0) 0 (some 0) 0, .finish,
    .getConnection 5000 (fun _ ↦ 1) (fun _ ↦ 1) 1 none 1,
    .returnConnection 0 (some 0) 2 (fun _ ↦ 2) 2]

/-- Player `p` sends an input without data for frame 0. -/
def inputOf (p : UInt32) : FrameSyncCall UInt32 :=
  .handleFrameInput p (encodeUint32 p ++ encodeUint32 0 ++ encodeBytes []) (some (lit "room"))

/-- The first of two players sends an input, somebody subscribes who is in no room, and the callback
of one that has waited returns. -/
theorem never_relocks_twoPlayers :
    (∃ c : FrameSyncComponent UInt32,
      FrameSyncComponent.system.Run .fresh (FrameSyncComponent.twoPlayers.take 3) c ∧
      (c.locks (inputOf 1)).relocks [] = false) ∧
    (∃ c : StateSyncComponent UInt32,
      StateSyncComponent.system.Run .fresh [.createRoom (lit "room")] c ∧
      (c.locks (.handleStateSubscribe 1 [0, 1, 65])).relocks [] = false) ∧
    ∃ t : PoolThread, (PoolThread.system onePooled).Run .fresh (served ++ [.finish]) t ∧
      (PoolThread.system onePooled).Along (fun _ _ u ↦ u.Free) .fresh (served ++ [.finish]) := by
  obtain ⟨hframe, -, hstate, hpool⟩ := @never_relocks UInt32 _
  refine ⟨?_, ?_, ?_⟩
  · obtain ⟨c, hrun, hnot⟩ : ∃ c : FrameSyncComponent UInt32,
        FrameSyncComponent.system.Run .fresh (FrameSyncComponent.twoPlayers.take 3) c ∧
          ((decodeFrameInput (encodeUint32 1 ++ encodeUint32 0 ++ encodeBytes [])).all fun input ↦
            ((c.submitInput (some (lit "room")) input.playerId input).roomOf 1).all fun room ↦
              !room.allInputsReady input.frameId) = true :=
      System.Run.exists_of_any (by decide +kernel)
    refine ⟨c, hrun, (hframe c _).2 ?_⟩
    rintro ⟨input, room, hdec, hroom, hready⟩
    rw [hdec, Option.all_some, hroom, Option.all_some, hready] at hnot
    cases hnot
  · have hrun : StateSyncComponent.system.Run (.fresh : StateSyncComponent UInt32)
        [.createRoom (lit "room")] _ := System.Run.single rfl
    exact ⟨_, hrun, hstate _ _ hrun _⟩
  · obtain ⟨t, hrun, -⟩ : ∃ t, ((PoolThread.system onePooled).guarded PoolThread.Outside).Run .fresh
        (served ++ [.finish]) t ∧ True :=
      System.Run.exists_of_any_guarded (by decide +kernel)
    exact ⟨t, hrun.of_guarded, (hpool _ _ t hrun.of_guarded).2 hrun⟩

/-- The input of the second player completes the frame, a room with a callback is subscribed to, and
the callback of one that has waited gives its connection back. -/
theorem relocked :
    (∃ c : FrameSyncComponent UInt32,
      FrameSyncComponent.system.Run .fresh FrameSyncComponent.twoPlayers c ∧
      (c.locks (inputOf 2)).relocks [] = true) ∧
    ((StateSyncRoom.new false true : StateSyncRoom UInt32).locks ⟨sendMessage, sendMessage⟩
      (lit "room") (.subscribe [65] 1)).relocks [] = true ∧
    ∃ t : PoolThread, (PoolThread.system onePooled).Run .fresh
        (served ++ [.returnConnection 1 (some 0) 3 (fun _ ↦ 3) 3]) t ∧
      t.stack = [.serve] ∧ ¬ t.Free := by
  refine ⟨?_, ?_, ?_⟩
  · exact System.Run.exists_of_any (by decide +kernel)
  · decide
  · exact System.Run.exists_of_any (by decide +kernel)

end Sync
end ChwellCore
