import ChwellCore.Rpc.RpcClient

/-!
# The thread of an RPC client

`connect` starts the cleanup thread of a client by assigning to `cleanup_thread_`, and `disconnect`
stops and joins it.  A connection that the other side closes is forgotten by `on_disconnect`, which
leaves the thread alone, so the client is not connected any more and its thread is still joinable.
To assign to a joinable `std::thread`, or to destroy one, ends the process.

`Lifecycle` is what these operations do to the thread, one after another.  The process survives just
if there is a `disconnect` between any two connects that succeed (`joined_iff`), and a client that
reconnects when it is told that the other side is gone does not have one there
(`reconnect_terminates`).  `simulates` says that the client with all its threads does nothing else
to the cleanup thread, and that `connect` is refused there just where the process would end.
-/

set_option autoImplicit false

namespace ChwellCore
namespace Rpc

/-- What `connect`, `on_disconnect`, `disconnect` and the destructor are about: `connection_`,
`cleanup_running_`, and whether `cleanup_thread_` is joinable.  The last two fields say that the
client has been destroyed and that `std::terminate` was called. -/
structure Lifecycle where
  connected : Bool
  cleanupRunning : Bool
  joinable : Bool
  destroyed : Bool
  terminated : Bool
deriving DecidableEq, Repr

/-- The operations; a `connect` succeeds or fails. -/
inductive LifecycleOp where
  | connect (ok : Bool)
  | onDisconnect
  | disconnect
  | destroy
deriving DecidableEq, Repr

namespace Lifecycle

/-- The constructor. -/
def fresh : Lifecycle := ⟨false, false, false, false, false⟩

/-- `start_cleanup_thread`. -/
def startCleanupThread (s : Lifecycle) : Lifecycle :=
  if s.joinable then { s with cleanupRunning := true, terminated := true }
  else { s with cleanupRunning := true, joinable := true }

/-- `stop_cleanup_thread`. -/
def stopCleanupThread (s : Lifecycle) : Lifecycle :=
  if s.joinable then { s with cleanupRunning := false, joinable := false }
  else { s with cleanupRunning := false }

/-- `connect`. -/
def connect (s : Lifecycle) (ok : Bool) : Lifecycle :=
  if ok then { s with connected := true }.startCleanupThread else s

/-- `on_disconnect`. -/
def onDisconnect (s : Lifecycle) : Lifecycle := { s with connected := false }

/-- `disconnect`. -/
def disconnect (s : Lifecycle) : Lifecycle := { s.stopCleanupThread with connected := false }

/-- The destructor, and then that of `cleanup_thread_`. -/
def destroy (s : Lifecycle) : Lifecycle :=
  { s.disconnect with destroyed := true, terminated := s.disconnect.joinable }

def applyOp (s : Lifecycle) : LifecycleOp → Lifecycle
  | .connect ok => s.connect ok
  | .onDisconnect => s.onDisconnect
  | .disconnect => s.disconnect
  | .destroy => s.destroy

/-- One operation; there is none after the end of the client or of the process. -/
def step (s : Lifecycle) (op : LifecycleOp) : Option Lifecycle :=
  if s.destroyed || s.terminated then none else some (s.applyOp op)

def system : System Lifecycle LifecycleOp := System.ofPartial step

/-! ## When the thread is joinable -/

/-- There has been a connect that succeeded and no `disconnect` since. -/
def Unjoined (ops : List LifecycleOp) : Prop :=
  ∃ before after, ops = before ++ .connect true :: after ∧ LifecycleOp.disconnect ∉ after

/-- There is a `disconnect` between any two connects that succeed. -/
def Separated (ops : List LifecycleOp) : Prop :=
  ∀ before between after, ops = before ++ .connect true :: (between ++ .connect true :: after) →
    LifecycleOp.disconnect ∈ between

variable {ops : List LifecycleOp} {op : LifecycleOp} {s s' : Lifecycle}

theorem unjoined_snoc :
    Unjoined (ops ++ [op]) ↔ op = .connect true ∨ Unjoined ops ∧ op ≠ .disconnect := by
  constructor
  · rintro ⟨before, after, hops, hnot⟩
    rcases System.snoc_eq_append_cons.1 hops with ⟨-, hop, -⟩ | ⟨after, rfl, rfl⟩
    · exact .inl hop.symm
    · refine .inr ⟨⟨before, after, rfl, fun hmem ↦ hnot (List.mem_append_left _ hmem)⟩, ?_⟩
      rintro rfl
      exact hnot (List.mem_append_right _ (List.mem_singleton_self _))
  · rintro (rfl | ⟨⟨before, after, rfl, hnot⟩, hop⟩)
    · exact ⟨ops, [], rfl, List.not_mem_nil⟩
    · refine ⟨before, after ++ [op], List.append_assoc _ _ _, fun hmem ↦ ?_⟩
      rcases List.mem_append.1 hmem with hmem | hmem
      · exact hnot hmem
      · exact hop (List.mem_singleton.1 hmem).symm

theorem separated_snoc :
    Separated (ops ++ [op]) ↔ Separated ops ∧ (op = .connect true → ¬ Unjoined ops) := by
  constructor
  · intro h
    refine ⟨fun before between after hops ↦ h before between (after ++ [op]) ?_, ?_⟩
    · simp [hops]
    · rintro rfl ⟨before, after, rfl, hnot⟩
      exact hnot (h before after [] (by simp))
  · rintro ⟨h, hop⟩ before between after hops
    rw [← List.cons_append, ← List.append_assoc] at hops
    rcases System.snoc_eq_append_cons.1 hops with ⟨rfl, hlast, -⟩ | ⟨after, -, rfl⟩
    · by_contra hnot
      exact hop hlast.symm ⟨before, between, rfl, hnot⟩
    · exact h before between after (by rw [List.append_assoc, List.cons_append])

/-- **The thread of a client that is there** is joinable just if it has connected and not
disconnected since. -/
structure Tracks (s : Lifecycle) (ops : List LifecycleOp) : Prop where
  joinable : s.destroyed = false → s.terminated = false → (s.joinable = true ↔ Unjoined ops)
  alive : s.terminated = false ↔ Separated ops

theorem Tracks.step (h : s.Tracks ops) (hs : step s op = some s') : s'.Tracks (ops ++ [op]) := by
  rw [Lifecycle.step, Option.ite_none_left_eq_some] at hs
  obtain ⟨hlive, hs⟩ := hs
  obtain rfl := Option.some.inj hs
  rw [Bool.or_eq_true, not_or, Bool.not_eq_true, Bool.not_eq_true] at hlive
  have hjoin := h.joinable hlive.1 hlive.2
  have hsep := h.alive.1 hlive.2
  cases op with
  | connect ok =>
    rw [applyOp, connect]
    cases ok with
    | false =>
      refine ⟨fun _ _ ↦ ?_, ?_⟩
      · rw [unjoined_snoc]
        simpa using hjoin
      · rw [separated_snoc]
        simpa using h.alive
    | true =>
      refine ⟨fun _ hterm ↦ ?_, ?_⟩
      · rw [unjoined_snoc]
        simp only [if_true, startCleanupThread] at hterm ⊢
        split at hterm
        · cases hterm
        · next hnot => simp [hnot]
      · rw [separated_snoc]
        simp only [if_true, startCleanupThread, true_implies, ← hjoin, hsep, true_and]
        split
        · next hyes => simp [hyes]
        · next hnot => simpa [hnot] using hlive.2
  | onDisconnect =>
    refine ⟨fun _ _ ↦ ?_, ?_⟩
    · rw [unjoined_snoc]
      simpa [applyOp, onDisconnect] using hjoin
    · rw [separated_snoc]
      simpa [applyOp, onDisconnect] using h.alive
  | disconnect =>
    refine ⟨fun _ _ ↦ ?_, ?_⟩
    · rw [unjoined_snoc]
      simp only [applyOp, disconnect, stopCleanupThread]
      split <;> simp_all
    · rw [separated_snoc]
      simp only [applyOp, disconnect, stopCleanupThread]
      split <;> simpa using h.alive
  | destroy =>
    refine ⟨fun hdestroyed ↦ ?_, ?_⟩
    · cases hdestroyed
    · rw [separated_snoc]
      simp only [applyOp, destroy, disconnect, stopCleanupThread]
      split <;> simp_all

/-- **The process survives just if connects that succeed are separated**: in every sequence of
operations on a client, no step assigns to or destroys a joinable thread if and only if there is a
`disconnect` between any two connects that succeed. -/
theorem joined_iff (hrun : system.Run fresh ops s) : s.terminated = false ↔ Separated ops := by
  have htracks : s.Tracks ops := by
    induction hrun with
    | nil =>
      refine ⟨fun _ _ ↦ ?_, iff_of_true rfl ?_⟩
      · refine iff_of_false (by simp [fresh]) ?_
        rintro ⟨before, after, hops, -⟩
        simp at hops
      · intro before between after hops
        simp at hops
    | snoc _ hlast ih => exact ih.step hlast
  exact htracks.alive

/-- A client that disconnects when it is told that the other side is gone, and connects again. -/
def disconnectFirst : List LifecycleOp :=
  [.connect true, .onDisconnect, .disconnect, .connect false, .connect true, .destroy]

theorem joined_iff_disconnectFirst :
    ∃ s, system.Run fresh disconnectFirst s ∧ s.terminated = false ∧ Separated disconnectFirst := by
  obtain ⟨s, hrun, hterminated⟩ : ∃ s, system.Run fresh disconnectFirst s ∧ s.terminated = false :=
    System.Run.exists_of_any (by decide)
  exact ⟨s, hrun, hterminated, (joined_iff hrun).1 hterminated⟩

/-- A client that connects again at once. -/
def connectAgain : List LifecycleOp := [.connect true, .onDisconnect, .connect true]

theorem reconnect_terminates :
    ¬ ∀ (ops : List LifecycleOp) (s : Lifecycle), system.Run fresh ops s →
      s.terminated = false := by
  intro h
  obtain ⟨s, hrun, hterminated⟩ : ∃ s, system.Run fresh connectAgain s ∧ s.terminated = true :=
    System.Run.exists_of_any (by decide)
  rw [h _ s hrun] at hterminated
  cases hterminated

/-! ## The client with all its threads -/

/-- What a step of the client is to its cleanup thread. -/
def opsOf : Act → List LifecycleOp
  | .connect => [.connect true]
  | .join _ => [.disconnect]
  | .onDisconnect => [.onDisconnect]
  | .call _ _ _ _ | .permit _ _ | .insert _ _ | .send _ | .receive _ _ | .take _ | .answer _
  | .fail _ | .disconnect | .close _ | .swap _ | .notify _ | .return _ | .wake _ | .expire => []

/-- The client and its lifecycle have the same thread. -/
structure Matches (s : Lifecycle) (w : World) : Prop where
  joinable : s.joinable = true ↔ w.cleanup ≠ .absent
  alive : s.destroyed = false ∧ s.terminated = false

theorem Matches.step {w w' : World} {a : Act} (h : s.Matches w) (hs : World.Step w a w') :
    ∃ s', system.Run s (opsOf a) s' ∧ s'.Matches w' := by
  have hsame : (w'.cleanup ≠ .absent ↔ w.cleanup ≠ .absent) → opsOf a = [] →
      ∃ s', system.Run s (opsOf a) s' ∧ s'.Matches w' := by
    intro hcleanup hnil
    rw [hnil]
    exact ⟨s, .nil, h.joinable.trans hcleanup.symm, h.alive⟩
  obtain ⟨hdestroyed, hterminated⟩ := h.alive
  have hstep : ∀ op, Lifecycle.step s op = some (s.applyOp op) := fun op ↦ by
    rw [Lifecycle.step, hdestroyed, hterminated]
    rfl
  cases hs with
  | connect habsent =>
    have hjoin : s.joinable = false := by
      rw [← Bool.not_eq_true, h.joinable, habsent]
      simp
    refine ⟨_, .single (T := system) (hstep (.connect true)), ⟨?_, ?_⟩⟩
    · simp [applyOp, Lifecycle.connect, startCleanupThread, hjoin]
    · simp [applyOp, Lifecycle.connect, startCleanupThread, hjoin, hdestroyed, hterminated]
  | join hp hc =>
    refine ⟨_, .single (T := system) (hstep .disconnect), ⟨?_, ?_⟩⟩
    · simp only [applyOp, Lifecycle.disconnect, stopCleanupThread]
      split <;> simp_all [World.put]
    · simp only [applyOp, Lifecycle.disconnect, stopCleanupThread]
      split <;> exact ⟨hdestroyed, hterminated⟩
  | onDisconnect =>
    exact ⟨_, .single (T := system) (hstep .onDisconnect), h.joinable, hdestroyed, hterminated⟩
  | wake now hc | wakeEnd now hc | expireEnd hc | expire hc =>
    exact hsame (by simp [hc]) rfl
  | _ => exact hsame Iff.rfl rfl

/-- **The client with all its threads** does to its cleanup thread what a sequence of operations
does, and it refuses a `connect` just where that would end the process. -/
theorem simulates {defaultTimeoutSeconds : Int32} {acts : List Act} {w : World}
    (hrun : (World.system defaultTimeoutSeconds).Run .fresh acts w) :
    ∃ s, system.Run fresh (acts.flatMap opsOf) s ∧ s.Matches w ∧
      (World.step defaultTimeoutSeconds w .connect = none ↔
        (s.connect true).terminated = true) := by
  obtain ⟨s, hrun, hmatch⟩ : ∃ s, system.Run fresh (acts.flatMap opsOf) s ∧ s.Matches w := by
    induction hrun with
    | nil => exact ⟨fresh, .nil, by simp [fresh, World.fresh], rfl, rfl⟩
    | @snoc acts w₁ w₂ a hrun hlast ih =>
      obtain ⟨s, hs, hmatch⟩ := ih
      obtain ⟨s', hs', hmatch'⟩ := hmatch.step (World.step_cases hlast)
      rw [List.flatMap_append, List.flatMap_singleton]
      exact ⟨s', hs.append hs', hmatch'⟩
  refine ⟨s, hrun, hmatch, ?_⟩
  have hjoin := hmatch.joinable
  have halive := hmatch.alive.2
  simp only [World.step, Lifecycle.connect, startCleanupThread, if_true]
  split
  · next habsent => simp_all
  · next habsent => simp_all

end Lifecycle

end Rpc
end ChwellCore
