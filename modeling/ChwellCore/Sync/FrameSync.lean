import ChwellCore.Lib.Run
import ChwellCore.Lib.UnorderedMap
import ChwellCore.Protocol.Message

/-!
# Frame synchronisation

A `FrameSyncRoom` has a frame counter and a queue of inputs for each player.  A client sends the
number of a frame with its input; `handle_frame_input` queues the input, and when the front of every
queue carries *that* number the room advances its own counter by one.  Nothing compares the number
with the counter, and to advance does not take the inputs off the queues.

So the counter can leave a frame nobody has played: if every player begins with an input for frame
5, or if a client sends its last input again.  `resend_advances` is the second kind.  `lockstep`
says when it cannot: in every run in which a message that finds all fronts equal to its frame number
carries the number of the current frame of the room, the counter leaves a frame only when everybody
in the room has submitted an input for it, and never leaves a frame twice.

A connection is only ever compared, so it is an arbitrary type here.  The loop of
`FrameSyncComponent::submit_input` stops at the first suitable connection of an `unordered_map`;
which one that is is part of the step.  The two last fields of a room are not in the code: they
record what was submitted to the room, and which frames it has left.
-/

set_option autoImplicit false

namespace ChwellCore
namespace Sync

open Protocol (Message)

/-- `FrameInput`. -/
structure FrameInput where
  frameId : UInt32
  playerId : UInt32
  inputData : Bytes
deriving DecidableEq

/-- `FrameState`. -/
structure FrameState where
  frameId : UInt32
  stateData : Bytes

/-! ## The codec -/

/-- `decode_uint32`: least significant byte first. -/
def decodeUint32 (data : Bytes) (offset : ℕ) : Option (UInt32 × ℕ) :=
  if offset + 4 > data.length then none
  else
    let byte (i : ℕ) : UInt32 := (data.getD (offset + i) 0).toUInt32
    some (byte 0 ||| (byte 1 <<< 8) ||| (byte 2 <<< 16) ||| (byte 3 <<< 24), offset + 4)

/-- `encode_uint32`. -/
def encodeUint32 (value : UInt32) : Bytes :=
  [value.toUInt8, (value >>> 8).toUInt8, (value >>> 16).toUInt8, (value >>> 24).toUInt8]

/-- `decode_bytes`: two bytes of length in network order, and the bytes. -/
def decodeBytes (data : Bytes) (offset : ℕ) : Option (Bytes × ℕ) :=
  if offset + 2 > data.length then none
  else
    let len := (netToHost16 data offset).toNat
    if offset + 2 + len > data.length then none
    else some ((data.drop (offset + 2)).take len, offset + 2 + len)

/-- `encode_bytes`. -/
def encodeBytes (data : Bytes) : Bytes := hostToNet16 (UInt16.ofNat data.length) ++ data

/-- The three decodings of `handle_frame_input`. -/
def decodeFrameInput (data : Bytes) : Option FrameInput := do
  let (playerId, offset) ← decodeUint32 data 0
  let (frameId, offset) ← decodeUint32 data offset
  let (inputData, _) ← decodeBytes data offset
  pure ⟨frameId, playerId, inputData⟩

/-! ## A room -/

/-- `FrameSyncRoom`, with what was submitted to it and the frames it has left. -/
structure FrameSyncRoom (Conn : Type) where
  currentFrame : UInt32
  running : Bool
  players : UnorderedMap UInt32 Conn
  playerInputs : UnorderedMap UInt32 (List FrameInput)
  submitted : List (UInt32 × FrameInput)
  advanced : List UInt32

namespace FrameSyncRoom

variable {Conn : Type}

/-- The constructor. -/
def fresh : FrameSyncRoom Conn := ⟨0, false, ∅, ∅, [], []⟩

/-- `join_player`. -/
def joinPlayer (r : FrameSyncRoom Conn) (playerId : UInt32) (conn : Conn) : FrameSyncRoom Conn :=
  { r with
    players := r.players.insert playerId conn
    playerInputs := r.playerInputs.insert playerId [] }

/-- `leave_player`. -/
def leavePlayer (r : FrameSyncRoom Conn) (playerId : UInt32) : FrameSyncRoom Conn :=
  { r with
    players := r.players.erase playerId
    playerInputs := r.playerInputs.erase playerId }

/-- `FrameSyncRoom::submit_input`.  A player without a queue gets one. -/
def submitInput (r : FrameSyncRoom Conn) (playerId : UInt32) (input : FrameInput) :
    FrameSyncRoom Conn :=
  { r with
    playerInputs :=
      r.playerInputs.insert playerId ((r.playerInputs.lookup playerId).getD [] ++ [input])
    submitted := (playerId, input) :: r.submitted }

/-- `get_all_inputs`: the inputs for a frame, and the room without them and without earlier ones
that stand before them. -/
def getAllInputs (r : FrameSyncRoom Conn) (frameId : UInt32) :
    List FrameInput × FrameSyncRoom Conn :=
  (r.playerInputs.entries.flatMap fun e ↦
      (e.2.takeWhile fun i ↦ i.frameId ≤ frameId).filter fun i ↦ i.frameId == frameId,
    { r with playerInputs := r.playerInputs.map fun q ↦ q.dropWhile fun i ↦ i.frameId ≤ frameId })

/-- `advance_frame`. -/
def advanceFrame (r : FrameSyncRoom Conn) : FrameSyncRoom Conn :=
  { r with currentFrame := r.currentFrame + 1, advanced := r.currentFrame :: r.advanced }

/-- `player_count`. -/
def playerCount (r : FrameSyncRoom Conn) : ℕ := r.playerInputs.entries.length

/-- `all_inputs_ready`. -/
def allInputsReady (r : FrameSyncRoom Conn) (frameId : UInt32) : Bool :=
  r.playerInputs.entries.all fun e ↦
    match e.2 with
    | [] => false
    | i :: _ => i.frameId == frameId

/-- The player is in the room. -/
def Has (r : FrameSyncRoom Conn) (playerId : UInt32) : Prop :=
  playerId ∈ r.players ∨ playerId ∈ r.playerInputs

end FrameSyncRoom

/-! ## The component -/

/-- `ConnectionInfo`. -/
structure ConnectionInfo where
  playerId : UInt32
  roomId : Bytes
deriving DecidableEq

/-- `FrameSyncComponent`. -/
structure FrameSyncComponent (Conn : Type) where
  rooms : UnorderedMap Bytes (FrameSyncRoom Conn)
  connections : UnorderedMap Conn ConnectionInfo

namespace FrameSyncComponent

variable {Conn : Type} [DecidableEq Conn]

/-- A component without rooms. -/
def fresh : FrameSyncComponent Conn := ⟨∅, ∅⟩

/-- `create_room`. -/
def createRoom (c : FrameSyncComponent Conn) (roomId : Bytes) : FrameSyncComponent Conn :=
  if (c.rooms.lookup roomId).isSome then c
  else { c with rooms := c.rooms.insert roomId { FrameSyncRoom.fresh with running := true } }

/-- `destroy_room`. -/
def destroyRoom (c : FrameSyncComponent Conn) (roomId : Bytes) : FrameSyncComponent Conn :=
  { c with rooms := c.rooms.erase roomId }

/-- `join_room`. -/
def joinRoom (c : FrameSyncComponent Conn) (playerId : UInt32) (roomId : Bytes) (conn : Conn) :
    FrameSyncComponent Conn :=
  match c.rooms.lookup roomId with
  | none => c
  | some room =>
    { rooms := c.rooms.insert roomId (room.joinPlayer playerId conn)
      connections := c.connections.insert conn ⟨playerId, roomId⟩ }

/-- `leave_room`: the part under the lock, and then `destroy_room` if nobody is left.  It is one
step here.  The source unlocks the mutex before `destroy_room`, and the room of whoever joins in
between is destroyed; this is left out. -/
def leaveRoom (c : FrameSyncComponent Conn) (playerId : UInt32) (roomId : Bytes) :
    FrameSyncComponent Conn :=
  let connections := c.connections.filter fun _ info ↦ decide (info ≠ ⟨playerId, roomId⟩)
  match c.rooms.lookup roomId with
  | none => { c with connections := connections }
  | some room =>
    let room := room.leavePlayer playerId
    let c : FrameSyncComponent Conn := ⟨c.rooms.insert roomId room, connections⟩
    if room.playerCount = 0 then c.destroyRoom roomId else c

/-- The rooms in which the loop of `submit_input` may stop. -/
def submitTargets (c : FrameSyncComponent Conn) (playerId : UInt32) : List Bytes :=
  (c.connections.entries.filter fun e ↦
    e.2.playerId == playerId && (c.rooms.lookup e.2.roomId).isSome).map fun e ↦ e.2.roomId

/-- The loop of `submit_input` may stop at this room, or find none. -/
def IsTarget (c : FrameSyncComponent Conn) (playerId : UInt32) : Option Bytes → Prop
  | none => c.submitTargets playerId = []
  | some roomId => roomId ∈ c.submitTargets playerId

instance (c : FrameSyncComponent Conn) (playerId : UInt32) (target : Option Bytes) :
    Decidable (c.IsTarget playerId target) :=
  match target with
  | none => inferInstanceAs (Decidable (_ = _))
  | some _ => inferInstanceAs (Decidable (_ ∈ _))

/-- `FrameSyncComponent::submit_input`, when its loop stops at `target`. -/
def submitInput (c : FrameSyncComponent Conn) (target : Option Bytes) (playerId : UInt32)
    (input : FrameInput) : FrameSyncComponent Conn :=
  match target with
  | none => c
  | some roomId =>
    match c.rooms.lookup roomId with
    | none => c
    | some room => { c with rooms := c.rooms.insert roomId (room.submitInput playerId input) }

/-- `get_room_id`. -/
def getRoomId (c : FrameSyncComponent Conn) (conn : Conn) : Bytes :=
  match c.connections.lookup conn with
  | none => []
  | some info => info.roomId

/-- The room in which `handle_frame_input` looks at the queues. -/
def roomOf (c : FrameSyncComponent Conn) (conn : Conn) : Option (FrameSyncRoom Conn) :=
  if c.getRoomId conn = [] then none else c.rooms.lookup (c.getRoomId conn)

/-- `broadcast_frame_state`: the messages sent. -/
def broadcastFrameState (room : FrameSyncRoom Conn) (state : FrameState) : List (Conn × Message) :=
  room.players.entries.map fun e ↦
    (e.2, ⟨0x0104, encodeUint32 state.frameId ++ encodeBytes state.stateData⟩)

/-- `handle_frame_input`, when the loop of `submit_input` stops at `target`: the messages sent, and
the component afterwards. -/
def handleFrameInput (c : FrameSyncComponent Conn) (conn : Conn) (data : Bytes)
    (target : Option Bytes) : List (Conn × Message) × FrameSyncComponent Conn :=
  match decodeFrameInput data with
  | none => ([], c)
  | some input =>
    let c := c.submitInput target input.playerId input
    match c.roomOf conn with
    | none => ([], c)
    | some room =>
      if room.allInputsReady input.frameId then
        let room := room.advanceFrame
        (broadcastFrameState room ⟨room.currentFrame, []⟩,
          { c with rooms := c.rooms.insert (c.getRoomId conn) room })
      else ([], c)

/-- `handle_frame_sync_req`: the reply, if any. -/
def handleFrameSyncReq (c : FrameSyncComponent Conn) (data : Bytes) : Option Message :=
  match decodeBytes data 0 with
  | none => none
  | some (roomId, _) => (c.rooms.lookup roomId).map fun room ↦
      ⟨0x0103, encodeUint32 room.currentFrame⟩

/-- `on_disconnect`. -/
def onDisconnect (c : FrameSyncComponent Conn) (conn : Conn) : FrameSyncComponent Conn :=
  match c.connections.lookup conn with
  | none => c
  | some info =>
    let c := { c with connections := c.connections.erase conn }
    if info.roomId = [] then c else c.leaveRoom info.playerId info.roomId

/-! ## Runs -/

variable (Conn) in
/-- The operations.  The component itself never calls `get_all_inputs`, which is for the game logic.
-/
inductive Op where
  | createRoom (roomId : Bytes)
  | destroyRoom (roomId : Bytes)
  | joinRoom (playerId : UInt32) (roomId : Bytes) (conn : Conn)
  | leaveRoom (playerId : UInt32) (roomId : Bytes)
  | onDisconnect (conn : Conn)
  | submitInput (playerId : UInt32) (input : FrameInput) (target : Option Bytes)
  | frameInput (conn : Conn) (data : Bytes) (target : Option Bytes)
  | getAllInputs (roomId : Bytes) (frameId : UInt32)

/-- One operation; `none` if the loop of `submit_input` cannot stop at the given room. -/
def step (c : FrameSyncComponent Conn) : Op Conn → Option (FrameSyncComponent Conn)
  | .createRoom roomId => some (c.createRoom roomId)
  | .destroyRoom roomId => some (c.destroyRoom roomId)
  | .joinRoom playerId roomId conn => some (c.joinRoom playerId roomId conn)
  | .leaveRoom playerId roomId => some (c.leaveRoom playerId roomId)
  | .onDisconnect conn => some (c.onDisconnect conn)
  | .submitInput playerId input target =>
    if c.IsTarget playerId target then some (c.submitInput target playerId input) else none
  | .frameInput conn data target =>
    match decodeFrameInput data with
    | none => some (c.handleFrameInput conn data target).2
    | some input =>
      if c.IsTarget input.playerId target then some (c.handleFrameInput conn data target).2 else
        none
  | .getAllInputs roomId frameId =>
    some (match c.rooms.lookup roomId with
      | none => c
      | some room => { c with rooms := c.rooms.insert roomId (room.getAllInputs frameId).2 })

/-- The system of all runs. -/
def system : System (FrameSyncComponent Conn) (Op Conn) := System.ofPartial step

/-- A message that finds its frame number at the front of every queue carries the number of the
current frame, and that is not the largest one. -/
def InStep (c : FrameSyncComponent Conn) : Op Conn → Prop
  | .frameInput conn data target =>
    ∀ input, decodeFrameInput data = some input →
      ∀ room, (c.submitInput target input.playerId input).roomOf conn = some room →
        room.allInputsReady input.frameId = true →
          input.frameId = room.currentFrame ∧ room.currentFrame ≠ 0xFFFFFFFF
  | _ => True

end FrameSyncComponent

/-! ## What an operation does to a room -/

namespace FrameSyncRoom

variable {Conn : Type} {r r' : FrameSyncRoom Conn}

/-- The invariant of a room. -/
structure Inv (r : FrameSyncRoom Conn) : Prop where
  queued : ∀ p q, r.playerInputs.lookup p = some q → ∀ i ∈ q, (p, i) ∈ r.submitted
  players : ∀ p, p ∈ r.players → p ∈ r.playerInputs
  advanced : ∀ f ∈ r.advanced, f < r.currentFrame

/-- A room as `create_room` makes it. -/
theorem inv_created : ({ fresh with running := true } : FrameSyncRoom Conn).Inv := by
  refine ⟨fun p q hq ↦ ?_, fun p hp ↦ ?_, fun f hf ↦ ?_⟩
  · cases hq
  · exact absurd hp (AList.notMem_empty p)
  · cases hf

/-- A change that leaves the frame counter alone. -/
structure Quiet (r r' : FrameSyncRoom Conn) : Prop where
  currentFrame : r'.currentFrame = r.currentFrame
  advanced : r'.advanced = r.advanced
  inv : r.Inv → r'.Inv

theorem Quiet.refl (r : FrameSyncRoom Conn) : r.Quiet r := ⟨rfl, rfl, id⟩

theorem quiet_joinPlayer (p : UInt32) (conn : Conn) : r.Quiet (r.joinPlayer p conn) where
  currentFrame := rfl
  advanced := rfl
  inv h := by
    refine ⟨fun p' q hq i hi ↦ ?_, fun p' hp' ↦ ?_, h.advanced⟩
    · rw [joinPlayer, UnorderedMap.lookup_insert_ite] at hq
      split at hq
      · cases hq
        cases hi
      · exact h.queued p' q hq i hi
    · rw [joinPlayer, AList.mem_insert] at hp' ⊢
      exact hp'.imp_right (h.players p')

theorem quiet_leavePlayer (p : UInt32) : r.Quiet (r.leavePlayer p) where
  currentFrame := rfl
  advanced := rfl
  inv h := by
    refine ⟨fun p' q hq i hi ↦ ?_, fun p' hp' ↦ ?_, h.advanced⟩
    · rw [leavePlayer, UnorderedMap.lookup_erase_ite] at hq
      obtain ⟨-, hq⟩ := Option.ite_none_left_eq_some.1 hq
      exact h.queued p' q hq i hi
    · rw [leavePlayer, AList.mem_erase] at hp' ⊢
      exact hp'.imp_right (h.players p')

theorem quiet_submitInput (p : UInt32) (input : FrameInput) : r.Quiet (r.submitInput p input) where
  currentFrame := rfl
  advanced := rfl
  inv h := by
    refine ⟨fun p' q hq i hi ↦ ?_, fun p' hp' ↦ ?_, h.advanced⟩
    · rw [submitInput, UnorderedMap.lookup_insert_ite] at hq
      split at hq
      · next hp =>
        cases hq
        rcases List.mem_append.1 hi with hi | hi
        · rcases hold : r.playerInputs.lookup p with _ | q
          · rw [hold] at hi
            cases hi
          · rw [hold] at hi
            rw [hp]
            exact List.mem_cons_of_mem _ (h.queued p q hold i hi)
        · rw [List.mem_singleton] at hi
          rw [hp, hi]
          exact List.mem_cons_self
      · exact List.mem_cons_of_mem _ (h.queued p' q hq i hi)
    · rw [submitInput, AList.mem_insert]
      exact .inr (h.players p' hp')

theorem quiet_getAllInputs (f : UInt32) : r.Quiet (r.getAllInputs f).2 where
  currentFrame := rfl
  advanced := rfl
  inv h := by
    refine ⟨fun p q hq i hi ↦ ?_, fun p hp ↦ ?_, h.advanced⟩
    · rw [getAllInputs, UnorderedMap.lookup_map, Option.map_eq_some_iff] at hq
      obtain ⟨q', hq', rfl⟩ := hq
      exact h.queued p q' hq' i ((List.dropWhile_sublist _).subset hi)
    · rw [getAllInputs, ← AList.lookup_isSome, UnorderedMap.lookup_map, Option.isSome_map,
        AList.lookup_isSome]
      exact h.players p hp

/-- If all inputs are ready, the front of every queue is for that frame. -/
theorem ready_front {f : UInt32} (h : r.allInputsReady f = true) {p : UInt32} {q : List FrameInput}
    (hq : r.playerInputs.lookup p = some q) : ∃ i ∈ q, i.frameId = f := by
  have hp := List.all_eq_true.1 h _ (UnorderedMap.lookup_eq_some_iff.1 hq)
  rcases q with _ | ⟨i, q⟩
  · cases hp
  · exact ⟨i, List.mem_cons_self, by simpa using hp⟩

theorem inv_advanceFrame (h : r.Inv) (hmax : r.currentFrame ≠ 0xFFFFFFFF) : r.advanceFrame.Inv := by
  refine ⟨h.queued, h.players, fun f hf ↦ ?_⟩
  have hnext : r.currentFrame < r.currentFrame + 1 := by
    rw [UInt32.lt_iff_toNat_lt, UInt32.toNat_add]
    have hlt := r.currentFrame.toNat_lt
    have hne : r.currentFrame.toNat ≠ 4294967295 := fun he ↦ hmax (UInt32.toNat_inj.1 he)
    have hone : (1 : UInt32).toNat = 1 := rfl
    omega
  rcases List.mem_cons.1 hf with rfl | hf
  · exact hnext
  · exact lt_trans (h.advanced f hf) hnext

/-- What one operation can do to a room: something that leaves the counter alone, and after it, in
step, an advance. -/
inductive Change (r : FrameSyncRoom Conn) : FrameSyncRoom Conn → Prop
  | quiet {r' : FrameSyncRoom Conn} : r.Quiet r' → Change r r'
  | advance {mid : FrameSyncRoom Conn} : r.Quiet mid → mid.allInputsReady mid.currentFrame = true →
      mid.currentFrame ≠ 0xFFFFFFFF → Change r mid.advanceFrame

theorem Change.inv (h : r.Change r') (hr : r.Inv) : r'.Inv := by
  cases h with
  | quiet hq => exact hq.inv hr
  | advance hq _ hmax => exact inv_advanceFrame (hq.inv hr) hmax

/-- **A room in lockstep**: if the counter changes, it goes up by one, everybody in the room has
submitted an input for the frame it leaves, and it has not left that frame before. -/
theorem Change.of_currentFrame_ne (h : r.Change r') (hr : r.Inv)
    (hne : r'.currentFrame ≠ r.currentFrame) :
    r'.currentFrame = r.currentFrame + 1 ∧
      (∀ p, r'.Has p → ∃ i, (p, i) ∈ r'.submitted ∧ i.frameId = r.currentFrame) ∧
      r'.advanced = r.currentFrame :: r.advanced ∧ r.currentFrame ∉ r.advanced := by
  cases h with
  | quiet hq => exact absurd hq.currentFrame hne
  | advance hq hready hmax =>
    next mid =>
    have hmid := hq.inv hr
    refine ⟨congrArg (· + 1) hq.currentFrame, fun p hp ↦ ?_, ?_, fun hmem ↦ ?_⟩
    · have hin : p ∈ mid.playerInputs := hp.elim (hmid.players p) id
      obtain ⟨q, hlook⟩ := Option.isSome_iff_exists.1 (AList.lookup_isSome.2 hin)
      obtain ⟨i, hi, hframe⟩ := ready_front hready hlook
      exact ⟨i, hmid.queued p q hlook i hi, hframe.trans hq.currentFrame⟩
    · rw [advanceFrame, hq.currentFrame, hq.advanced]
    · exact lt_irrefl _ (hr.advanced _ hmem)

end FrameSyncRoom

namespace FrameSyncComponent

open FrameSyncRoom (Quiet Change)

variable {Conn : Type} {rooms : UnorderedMap Bytes (FrameSyncRoom Conn)} {roomId id : Bytes}
  {r r₁ r' : FrameSyncRoom Conn}

/-- One room is replaced by a changed one. -/
theorem change_insert (h : rooms.lookup roomId = some r) (hchange : r.Change r₁)
    (h' : (rooms.insert roomId r₁).lookup id = some r') :
    ∃ r, rooms.lookup id = some r ∧ r.Change r' := by
  rw [UnorderedMap.lookup_insert_ite] at h'
  split at h'
  · next hid =>
    cases h'
    exact ⟨r, hid ▸ h, hchange⟩
  · exact ⟨r', h', .quiet (.refl r')⟩

/-- One room is destroyed. -/
theorem change_erase (h' : (rooms.erase roomId).lookup id = some r') :
    ∃ r, rooms.lookup id = some r ∧ r.Change r' := by
  rw [UnorderedMap.lookup_erase_ite] at h'
  obtain ⟨-, h'⟩ := Option.ite_none_left_eq_some.1 h'
  exact ⟨r', h', .quiet (.refl r')⟩

variable {c c' : FrameSyncComponent Conn}

theorem change_leaveRoom {playerId : UInt32}
    (h' : (c.leaveRoom playerId roomId).rooms.lookup id = some r') :
    ∃ r, c.rooms.lookup id = some r ∧ r.Change r' := by
  simp only [leaveRoom] at h'
  split at h'
  · exact ⟨r', h', .quiet (.refl r')⟩
  · next room hroom =>
    split at h'
    · rw [destroyRoom, UnorderedMap.lookup_erase_ite] at h'
      obtain ⟨-, h'⟩ := Option.ite_none_left_eq_some.1 h'
      exact change_insert hroom (.quiet (FrameSyncRoom.quiet_leavePlayer playerId)) h'
    · exact change_insert hroom (.quiet (FrameSyncRoom.quiet_leavePlayer playerId)) h'

theorem quiet_submitInput {target : Option Bytes} {playerId : UInt32} {input : FrameInput}
    (h' : (c.submitInput target playerId input).rooms.lookup id = some r') :
    ∃ r, c.rooms.lookup id = some r ∧ r.Quiet r' := by
  simp only [submitInput] at h'
  split at h'
  · exact ⟨r', h', .refl r'⟩
  · split at h'
    · exact ⟨r', h', .refl r'⟩
    · next room hroom =>
      rw [UnorderedMap.lookup_insert_ite] at h'
      split at h'
      · next hid =>
        cases h'
        exact ⟨room, hid ▸ hroom, FrameSyncRoom.quiet_submitInput playerId input⟩
      · exact ⟨r', h', .refl r'⟩

variable [DecidableEq Conn]

theorem change_frameInput {conn : Conn} {data : Bytes} {target : Option Bytes}
    (hg : c.InStep (.frameInput conn data target))
    (h' : (c.handleFrameInput conn data target).2.rooms.lookup id = some r') :
    ∃ r, c.rooms.lookup id = some r ∧ r.Change r' := by
  rw [handleFrameInput] at h'
  split at h'
  · exact ⟨r', h', .quiet (.refl r')⟩
  · next input hdec =>
    simp only at h'
    split at h'
    · obtain ⟨r, hr, hq⟩ := quiet_submitInput h'
      exact ⟨r, hr, .quiet hq⟩
    · next room hroom =>
      split at h'
      · next hready =>
        obtain ⟨hcur, hmax⟩ := hg input hdec room hroom hready
        rw [UnorderedMap.lookup_insert_ite] at h'
        split at h'
        · next hid =>
          cases h'
          -- the room that advances is one of those after the submission
          have hlook : (c.submitInput target input.playerId input).rooms.lookup id = some room := by
            rw [roomOf] at hroom
            obtain ⟨-, hroom⟩ := Option.ite_none_left_eq_some.1 hroom
            rw [hid]
            exact hroom
          obtain ⟨r, hr, hq⟩ := quiet_submitInput hlook
          exact ⟨r, hr, .advance hq (hcur ▸ hready) hmax⟩
        · obtain ⟨r, hr, hq⟩ := quiet_submitInput h'
          exact ⟨r, hr, .quiet hq⟩
      · obtain ⟨r, hr, hq⟩ := quiet_submitInput h'
        exact ⟨r, hr, .quiet hq⟩

/-- After an operation in step, a room is new or a changed one. -/
theorem room_step {op : Op Conn} (hg : c.InStep op) (hs : step c op = some c')
    (h' : c'.rooms.lookup id = some r') :
    (c.rooms.lookup id = none ∧ r' = { FrameSyncRoom.fresh with running := true }) ∨
      ∃ r, c.rooms.lookup id = some r ∧ r.Change r' := by
  cases op with
  | createRoom roomId =>
    cases hs
    rw [createRoom] at h'
    split at h'
    · exact .inr ⟨r', h', .quiet (.refl r')⟩
    · next hnone =>
      rw [UnorderedMap.lookup_insert_ite] at h'
      split at h'
      · next hid =>
        cases h'
        rw [hid]
        exact .inl ⟨by simpa using hnone, rfl⟩
      · exact .inr ⟨r', h', .quiet (.refl r')⟩
  | destroyRoom roomId =>
    cases hs
    exact .inr (change_erase h')
  | joinRoom playerId roomId conn =>
    cases hs
    rw [joinRoom] at h'
    split at h'
    · exact .inr ⟨r', h', .quiet (.refl r')⟩
    · next room hroom =>
      exact .inr (change_insert hroom (.quiet (FrameSyncRoom.quiet_joinPlayer playerId conn)) h')
  | leaveRoom playerId roomId =>
    cases hs
    exact .inr (change_leaveRoom h')
  | onDisconnect conn =>
    cases hs
    rw [onDisconnect] at h'
    split at h'
    · exact .inr ⟨r', h', .quiet (.refl r')⟩
    · simp only at h'
      split at h'
      · exact .inr ⟨r', h', .quiet (.refl r')⟩
      · obtain ⟨r, hr, hchange⟩ := change_leaveRoom h'
        exact .inr ⟨r, hr, hchange⟩
  | submitInput playerId input target =>
    rw [step] at hs
    obtain ⟨-, hs⟩ := Option.ite_none_right_eq_some.1 hs
    obtain rfl := Option.some.inj hs
    obtain ⟨r, hr, hq⟩ := quiet_submitInput h'
    exact .inr ⟨r, hr, .quiet hq⟩
  | frameInput conn data target =>
    have hc' : c' = (c.handleFrameInput conn data target).2 := by
      rw [step] at hs
      split at hs
      · exact (Option.some_inj.1 hs).symm
      · split at hs
        · exact (Option.some_inj.1 hs).symm
        · cases hs
    subst hc'
    exact .inr (change_frameInput hg h')
  | getAllInputs roomId frameId =>
    cases hs
    split at h'
    · exact .inr ⟨r', h', .quiet (.refl r')⟩
    · next room hroom =>
      exact .inr (change_insert hroom (.quiet (FrameSyncRoom.quiet_getAllInputs frameId)) h')

/-! ## Lockstep -/

theorem inv_run {ops : List (Op Conn)} (hrun : (system.guarded InStep).Run fresh ops c)
    (h : c.rooms.lookup id = some r) : r.Inv := by
  refine hrun.invariant (motive := fun c ↦ ∀ id r, c.rooms.lookup id = some r → r.Inv) ?_ ?_ id r h
  · intro c op c' hinv hstep id r' h'
    rcases room_step hstep.1 hstep.2 h' with ⟨-, rfl⟩ | ⟨r, hr, hchange⟩
    · exact FrameSyncRoom.inv_created
    · exact hchange.inv (hinv id r hr)
  · intro id r h
    cases h

/-- **Lockstep**: in every run of operations in step, whenever the frame counter of a room changes
it goes from a frame `f` to `f + 1`, everybody then in the room has submitted an input for `f`, and
the room has not left `f` before. -/
theorem lockstep {ops : List (Op Conn)} {op : Op Conn}
    (hrun : (system.guarded InStep).Run fresh ops c) (hstep : (system.guarded InStep).step c op c')
    (h : c.rooms.lookup id = some r) (h' : c'.rooms.lookup id = some r')
    (hne : r'.currentFrame ≠ r.currentFrame) :
    r'.currentFrame = r.currentFrame + 1 ∧
      (∀ p, r'.Has p → ∃ i, (p, i) ∈ r'.submitted ∧ i.frameId = r.currentFrame) ∧
      r'.advanced = r.currentFrame :: r.advanced ∧ r.currentFrame ∉ r.advanced := by
  rcases room_step hstep.1 hstep.2 h' with ⟨hnone, -⟩ | ⟨r₀, hr₀, hchange⟩
  · rw [h] at hnone
    cases hnone
  · rw [h, Option.some_inj] at hr₀
    subst hr₀
    exact hchange.of_currentFrame_ne (inv_run hrun h) hne

/-! ## Two players -/

instance (c : FrameSyncComponent Conn) (op : Op Conn) : Decidable (c.InStep op) :=
  match op with
  | .frameInput conn data target =>
    inferInstanceAs (Decidable (∀ input ∈ decodeFrameInput data,
      ∀ room ∈ (c.submitInput target input.playerId input).roomOf conn,
        room.allInputsReady input.frameId = true →
          input.frameId = room.currentFrame ∧ room.currentFrame ≠ 0xFFFFFFFF))
  | .createRoom _ | .destroyRoom _ | .joinRoom _ _ _ | .leaveRoom _ _ | .onDisconnect _
  | .submitInput _ _ _ | .getAllInputs _ _ => .isTrue trivial

/-- Player `p` sends an input without data for frame `f`, over connection `p`. -/
def play (p f : UInt32) : Op UInt32 :=
  .frameInput p (encodeUint32 p ++ encodeUint32 f ++ encodeBytes []) (some (lit "room"))

/-- Two players join a room, and the first one plays frame 0. -/
def twoPlayers : List (Op UInt32) :=
  [.createRoom (lit "room"), .joinRoom 1 (lit "room") 1, .joinRoom 2 (lit "room") 2, play 1 0]

theorem lockstep_twoPlayers :
    ∃ (c c' : FrameSyncComponent UInt32) (r r' : FrameSyncRoom UInt32),
      (system.guarded InStep).Run fresh twoPlayers c ∧ (system.guarded InStep).step c (play 2 0)
        c' ∧
      c.rooms.lookup (lit "room") = some r ∧ c'.rooms.lookup (lit "room") = some r' ∧
      r.currentFrame = 0 ∧ r'.currentFrame = 1 ∧
      ∀ p, r'.Has p → ∃ i, (p, i) ∈ r'.submitted ∧ i.frameId = 0 := by
  obtain ⟨c, hrun, hg, c', hs, r, hr, r', hr', h0, h1⟩ : ∃ c : FrameSyncComponent UInt32,
      (system.guarded InStep).Run fresh twoPlayers c ∧ c.InStep (play 2 0) ∧
        ∃ c' ∈ step c (play 2 0), ∃ r ∈ c.rooms.lookup (lit "room"),
          ∃ r' ∈ c'.rooms.lookup (lit "room"), r.currentFrame = 0 ∧ r'.currentFrame = 1 :=
    System.Run.exists_of_any_guarded (by decide +kernel)
  have hlock := lockstep hrun ⟨hg, hs⟩ hr hr' (by rw [h0, h1]; decide)
  rw [h0] at hlock
  exact ⟨c, c', r, r', hrun, ⟨hg, hs⟩, hr, hr', h0, h1, hlock.2.1⟩

/-- Both players have played frame 0 and the room is in frame 1; then player 2 sends its input for
frame 0 again, and the room goes on to frame 2 without an input for frame 1. -/
theorem resend_advances :
    ∃ (c c' : FrameSyncComponent UInt32) (r r' : FrameSyncRoom UInt32),
      system.Run fresh (twoPlayers ++ [play 2 0]) c ∧ system.step c (play 2 0) c' ∧
      c.rooms.lookup (lit "room") = some r ∧ c'.rooms.lookup (lit "room") = some r' ∧
      r.currentFrame = 1 ∧ r'.currentFrame = 2 ∧ r'.Has 1 ∧
      ∀ e ∈ r'.submitted, e.2.frameId ≠ 1 := by
  obtain ⟨c, hrun, c', hs, r, hr, r', hr', h1, h2, hin, hno⟩ : ∃ c : FrameSyncComponent UInt32,
      system.Run fresh (twoPlayers ++ [play 2 0]) c ∧
        ∃ c' ∈ step c (play 2 0), ∃ r ∈ c.rooms.lookup (lit "room"),
          ∃ r' ∈ c'.rooms.lookup (lit "room"), r.currentFrame = 1 ∧ r'.currentFrame = 2 ∧
            1 ∈ r'.players ∧ ∀ e ∈ r'.submitted, e.2.frameId ≠ 1 :=
    System.Run.exists_of_any (by decide +kernel)
  exact ⟨c, c', r, r', hrun, hs, hr, hr', h1, h2, .inl hin, hno⟩

end FrameSyncComponent

end Sync
end ChwellCore
