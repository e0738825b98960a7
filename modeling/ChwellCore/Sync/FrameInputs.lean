import ChwellCore.Sync.FrameSync
import Mathlib.Data.List.Induction
import Mathlib.Data.List.Perm.Basic

/-!
# The inputs of a frame

`get_all_inputs` takes what it returns off the front of each queue, and goes on until it meets an
input for a later frame.  An input for frame 10 that was submitted after one for frame 20 by the
same player is behind it, so the call for frame 10 does not see it and the call for frame 20 throws
it away.  And it looks at all queues, those that `submit_input` makes for somebody who is not in the
room among them.

For a room that collects its frames in order, `getAllInputs_iff` says when it gets exactly the
inputs for a frame that players in the room have submitted: what it misses, behind inputs for later
frames, has to be what it gets from people who are not in the room.  Usually both are nothing.
-/

set_option autoImplicit false

namespace ChwellCore
namespace Sync

/-- A call on a room by the clients and the game logic. -/
inductive RoomCall where
  | submit (playerId : UInt32) (input : FrameInput)
  | collect (frameId : UInt32)

namespace RoomCall

/-- The inputs submitted, each with the player under whom it is. -/
def submissions (calls : List RoomCall) : List (UInt32 × FrameInput) :=
  calls.filterMap fun
    | .submit p i => some (p, i)
    | .collect _ => none

/-- The frames collected. -/
def frames (calls : List RoomCall) : List UInt32 :=
  calls.filterMap fun
    | .submit _ _ => none
    | .collect f => some f

variable (calls : List RoomCall)

@[simp] theorem submissions_submit (p : UInt32) (i : FrameInput) :
    submissions (calls ++ [.submit p i]) = submissions calls ++ [(p, i)] := by
  rw [submissions, List.filterMap_append]
  rfl

@[simp] theorem submissions_collect (f : UInt32) :
    submissions (calls ++ [.collect f]) = submissions calls := by
  rw [submissions, List.filterMap_append]
  exact List.append_nil _

@[simp] theorem frames_submit (p : UInt32) (i : FrameInput) :
    frames (calls ++ [.submit p i]) = frames calls := by
  rw [frames, List.filterMap_append]
  exact List.append_nil _

@[simp] theorem frames_collect (f : UInt32) :
    frames (calls ++ [.collect f]) = frames calls ++ [f] := by
  rw [frames, List.filterMap_append]
  rfl

end RoomCall

namespace FrameSyncRoom

open RoomCall (submissions frames)

variable {Conn : Type}

/-- What a call makes of the room. -/
def afterCall (r : FrameSyncRoom Conn) : RoomCall → FrameSyncRoom Conn
  | .submit p i => r.submitInput p i
  | .collect f => (r.getAllInputs f).2

/-- What a sequence of calls makes of the room. -/
def after (r : FrameSyncRoom Conn) (calls : List RoomCall) : FrameSyncRoom Conn :=
  calls.foldl afterCall r

/-- Nothing is queued. -/
def Unused (r : FrameSyncRoom Conn) : Prop := ∀ p q, r.playerInputs.lookup p = some q → q = []

/-- The inputs for a frame that players in the room have submitted. -/
def due (r : FrameSyncRoom Conn) (calls : List RoomCall) (frameId : UInt32) : List FrameInput :=
  ((submissions calls).filter fun s ↦ s.1 ∈ r.players ∧ s.2.frameId = frameId).map Prod.snd

/-- The inputs of players in the room that are behind inputs for later frames. -/
def missed (r : FrameSyncRoom Conn) (frameId : UInt32) : List FrameInput :=
  (r.playerInputs.entries.filter fun e ↦ e.1 ∈ r.players).flatMap fun e ↦
    (e.2.dropWhile fun i ↦ i.frameId ≤ frameId).filter fun i ↦ i.frameId == frameId

/-- The inputs of others that are not. -/
def foreign (r : FrameSyncRoom Conn) (frameId : UInt32) : List FrameInput :=
  (r.playerInputs.entries.filter fun e ↦ ¬ e.1 ∈ r.players).flatMap fun e ↦
    (e.2.takeWhile fun i ↦ i.frameId ≤ frameId).filter fun i ↦ i.frameId == frameId

/-! ## The queues -/

variable {r : FrameSyncRoom Conn} {calls : List RoomCall} {f : UInt32}

theorem unused_fresh : (fresh : FrameSyncRoom Conn).Unused := by
  intro p q h
  cases h

theorem Unused.joinPlayer (h : r.Unused) (playerId : UInt32) (conn : Conn) :
    (r.joinPlayer playerId conn).Unused := by
  intro p q hq
  rw [FrameSyncRoom.joinPlayer, UnorderedMap.lookup_insert_ite] at hq
  split at hq
  · exact (Option.some.inj hq).symm
  · exact h p q hq

theorem after_append_singleton (call : RoomCall) :
    r.after (calls ++ [call]) = (r.after calls).afterCall call := by
  rw [after, List.foldl_append]
  rfl

theorem players_after : (r.after calls).players = r.players := by
  induction calls using List.reverseRecOn with
  | nil => rfl
  | append_singleton calls call ih =>
    rw [after_append_singleton, ← ih]
    cases call <;> rfl

/-- A queue is searched up to the first input for a later frame; before the frame is collected
nothing for it is thrown away. -/
theorem filter_dropWhile {q : List FrameInput} {f g : UInt32} (h : g < f) :
    (q.dropWhile fun i ↦ i.frameId ≤ g).filter (fun i ↦ i.frameId == f) =
      q.filter fun i ↦ i.frameId == f := by
  induction q with
  | nil => rfl
  | cons i q ih =>
    rw [List.dropWhile_cons]
    split
    · next hi =>
      have hne : i.frameId ≠ f := fun he ↦ absurd (he ▸ of_decide_eq_true hi) (not_le_of_gt h)
      rw [ih, List.filter_cons, if_neg (by simpa using hne)]
    · rfl

/-- The queue of a player holds everything the player has submitted for a frame that is still to be
collected, in order. -/
theorem filter_queue_after (hr : r.Unused) (p : UInt32) {f : UInt32}
    (hf : ∀ g ∈ frames calls, g < f) :
    (((r.after calls).playerInputs.lookup p).getD []).filter (fun i ↦ i.frameId == f) =
      ((submissions calls).filter fun s ↦ s.1 = p ∧ s.2.frameId = f).map Prod.snd := by
  induction calls using List.reverseRecOn with
  | nil =>
    have hnil : (r.playerInputs.lookup p).getD [] = [] := by
      rcases hq : r.playerInputs.lookup p with _ | q
      · rfl
      · exact hr p q hq
    show ((r.playerInputs.lookup p).getD []).filter _ = []
    rw [hnil, List.filter_nil]
  | append_singleton calls call ih =>
    rw [after_append_singleton]
    cases call with
    | submit p' i =>
      have ih := ih (by simpa using hf)
      rw [RoomCall.submissions_submit, List.filter_append, List.map_append, ← ih, afterCall,
        submitInput, UnorderedMap.lookup_insert_ite]
      by_cases hp : p = p'
      · subst hp
        by_cases hi : i.frameId = f <;> simp [hi]
      · simp [hp, Ne.symm hp]
    | collect g =>
      have ih := ih fun g' hg' ↦ hf g' (by simp [hg'])
      rw [RoomCall.submissions_collect, ← ih, afterCall, getAllInputs, UnorderedMap.lookup_map]
      rcases (r.after calls).playerInputs.lookup p with _ | q
      · rfl
      · exact filter_dropWhile (hf g (by simp))

/-- Who has submitted an input has a queue. -/
theorem mem_playerInputs_after {s : UInt32 × FrameInput} (h : s ∈ submissions calls) :
    s.1 ∈ (r.after calls).playerInputs := by
  rw [← AList.lookup_isSome]
  induction calls using List.reverseRecOn with
  | nil => cases h
  | append_singleton calls call ih =>
    rw [after_append_singleton]
    cases call with
    | submit p i =>
      rw [RoomCall.submissions_submit, List.mem_append, List.mem_singleton] at h
      rw [afterCall, submitInput, UnorderedMap.lookup_insert_ite]
      rcases h with h | rfl
      · split
        · rfl
        · exact ih h
      · rw [if_pos rfl]
        rfl
    | collect f =>
      rw [RoomCall.submissions_collect] at h
      rw [afterCall, getAllInputs, UnorderedMap.lookup_map, Option.isSome_map]
      exact ih h

/-! ## What is collected -/

/-- The queues of players in the room, joined: what they have submitted. -/
theorem flatMap_queue_perm (hr : r.Unused) (hf : ∀ g ∈ frames calls, g < f) :
    (((r.after calls).playerInputs.entries.filter fun e ↦ e.1 ∈ r.players).flatMap fun e ↦
      e.2.filter fun i ↦ i.frameId == f).Perm (r.due calls f) := by
  generalize hmembers : ((r.after calls).playerInputs.entries.filter fun e ↦ e.1 ∈ r.players) =
    members
  have hnodup : (members.map Sigma.fst).Nodup := by
    rw [← hmembers]
    exact (List.filter_sublist.map _).nodup (r.after calls).playerInputs.nodupKeys
  have hsubmitted : (submissions calls).filter (fun s ↦ s.1 ∈ r.players ∧ s.2.frameId = f) =
      ((submissions calls).filter fun s ↦ s.2.frameId = f).filter
        fun s ↦ s.1 ∈ members.map Sigma.fst := by
    rw [List.filter_filter]
    refine List.filter_congr fun s hs ↦ ?_
    obtain ⟨q, hq⟩ := Option.isSome_iff_exists.1 (AList.lookup_isSome.2 (mem_playerInputs_after
      (r := r) hs))
    have hmem : s.1 ∈ members.map Sigma.fst ↔ s.1 ∈ r.players := by
      rw [← hmembers, List.mem_map]
      constructor
      · rintro ⟨e, he, hes⟩
        exact hes ▸ of_decide_eq_true (List.mem_filter.1 he).2
      · intro hp
        exact ⟨⟨s.1, q⟩, List.mem_filter.2 ⟨UnorderedMap.lookup_eq_some_iff.1 hq,
          decide_eq_true hp⟩, rfl⟩
    simp [hmem]
  have hqueues : ∀ e ∈ members, e.2.filter (fun i ↦ i.frameId == f) =
      (((submissions calls).filter fun s ↦ s.2.frameId = f).filter fun s ↦ s.1 = e.1).map
        Prod.snd := by
    intro e he
    have hlook := UnorderedMap.lookup_eq_some_iff.2 (List.mem_filter.1 (hmembers ▸ he)).1
    have := filter_queue_after (r := r) hr e.1 hf
    rw [hlook] at this
    simpa [List.filter_filter, and_comm] using this
  rw [due, hsubmitted, List.flatMap_congr hqueues]
  refine .trans (.of_eq ?_) ((UnorderedMap.flatMap_filter_perm Prod.fst _ hnodup).map _)
  rw [List.map_flatMap, List.flatMap_map]

/-- What is collected comes from players in the room or from others. -/
theorem getAllInputs_perm :
    (r.getAllInputs f).1.Perm (((r.playerInputs.entries.filter fun e ↦ e.1 ∈ r.players).flatMap
      fun e ↦ (e.2.takeWhile fun i ↦ i.frameId ≤ f).filter fun i ↦ i.frameId == f) ++
        r.foreign f) := by
  rw [foreign, ← List.flatMap_append]
  refine ((List.filter_append_perm (fun e ↦ decide (e.1 ∈ r.players)) _).symm.trans
    (.of_eq ?_)).flatMap_right _
  congr 1
  exact List.filter_congr fun e _ ↦ by simp

/-- **The inputs of a frame**: a room that collects its frames in order gets exactly what players in
the room have submitted for the frame just if what it misses of them is what it gets of others. -/
theorem getAllInputs_iff (hr : r.Unused)
    (hf : (frames (calls ++ [.collect f])).Pairwise fun g g' ↦ g < g') :
    ((r.after calls).getAllInputs f).1.Perm (r.due calls f) ↔
      ((r.after calls).missed f).Perm ((r.after calls).foreign f) := by
  rw [RoomCall.frames_collect, List.pairwise_append] at hf
  have hdue := flatMap_queue_perm hr fun g hg ↦ hf.2.2 g hg f (List.mem_singleton_self f)
  -- what players in the room have submitted is in front of the first later input or behind it
  have hsplit : ((((r.after calls).playerInputs.entries.filter fun e ↦ e.1 ∈ r.players).flatMap
      fun e ↦ (e.2.takeWhile fun i ↦ i.frameId ≤ f).filter fun i ↦ i.frameId == f) ++
        (r.after calls).missed f).Perm (r.due calls f) := by
    rw [missed, players_after]
    refine (List.flatMap_append_perm _ _ _).trans (.trans (.of_eq ?_) hdue)
    refine List.flatMap_congr fun e _ ↦ ?_
    rw [← List.filter_append, List.takeWhile_append_dropWhile]
  have hgot := getAllInputs_perm (r := r.after calls) (f := f)
  rw [players_after] at hgot
  rw [hgot.congr_left, ← hsplit.congr_right, List.perm_append_left_iff]
  exact ⟨List.Perm.symm, List.Perm.symm⟩

/-- A room with one player. -/
def onePlayer : FrameSyncRoom UInt32 := fresh.joinPlayer 1 1

theorem getAllInputs_iff_onePlayer :
    ((onePlayer.after [.submit 1 ⟨10, 1, []⟩, .submit 1 ⟨20, 1, []⟩, .collect 10]).getAllInputs
      20).1.Perm (onePlayer.due [.submit 1 ⟨10, 1, []⟩, .submit 1 ⟨20, 1, []⟩, .collect 10] 20) :=
  (getAllInputs_iff (unused_fresh.joinPlayer 1 1) (by decide)).2 (by decide)

/-- The input for frame 20 arrives first: the one for frame 10 is not found for frame 10, and it is
gone after frame 20. -/
theorem earlier_input_lost :
    onePlayer.due [.submit 1 ⟨20, 1, []⟩, .submit 1 ⟨10, 1, []⟩] 10 = [⟨10, 1, []⟩] ∧
    ((onePlayer.after [.submit 1 ⟨20, 1, []⟩, .submit 1 ⟨10, 1, []⟩]).getAllInputs 10).1 = [] ∧
    ((onePlayer.after [.submit 1 ⟨20, 1, []⟩, .submit 1 ⟨10, 1, []⟩, .collect 10,
      .collect 20]).playerInputs.lookup 1 = some []) := by
  decide

end FrameSyncRoom
end Sync
end ChwellCore
