import ChwellCore.Core.Bytes
import ChwellCore.Lib.UnorderedMap
import Mathlib.Data.List.Induction

/-!
# State synchronisation

A `StateSyncRoom` keeps, for each entity, a table of values by key.  A connection that subscribes to
an entity is sent a snapshot of its table, and from then on a diff for each update.

`converges` is what the room is for: a subscriber that starts from the snapshot of its last
subscription and applies the diffs as they come has the table of the room, whatever was done to this
entity and to others in between.  Nobody else is sent a diff.

The first half rests on two facts about a subscriber.  It is in the set that the loop over the
subscribers goes through, once; and the pointer in the set is found in `connection_map_`, from which
nothing is ever erased, so the loop does not skip it.

A mutex guards each call, and a callback is called under it, so a call is one step, and what it
sends through the callbacks is a list that it returns.  A connection is only ever compared, so it is
an arbitrary type here; the raw pointer and the shared one to a connection are both the connection.
-/

set_option autoImplicit false

namespace ChwellCore
namespace Sync

/-! ## States, updates, diffs, snapshots -/

/-- `StateValueType`.  There are names for 0 to 5, but `handle_state_update` casts any byte. -/
structure StateValueType where
  code : UInt8
deriving DecidableEq, Repr

/-- `StateValue`. -/
structure StateValue where
  type : StateValueType
  value : Bytes
deriving DecidableEq, Repr

/-- The states of an entity: values by key. -/
abbrev States := UnorderedMap Bytes StateValue

/-- `StateUpdate`. -/
structure StateUpdate where
  entityId : Bytes
  stateKey : Bytes
  value : StateValue
  timestamp : UInt64
deriving DecidableEq, Repr

/-- `StateDiff`. -/
structure StateDiff where
  entityId : Bytes
  changes : List (Bytes × StateValue)
  timestamp : UInt64
deriving DecidableEq, Repr

/-- The diff that tells of an update. -/
def StateUpdate.diff (u : StateUpdate) : StateDiff :=
  ⟨u.entityId, [(u.stateKey, u.value)], u.timestamp⟩

/-- `StateSnapshot`.  Its timestamp may never be assigned. -/
structure StateSnapshot where
  entityId : Bytes
  states : States
  timestamp : Option UInt64

/-- What a room sends through its callbacks. -/
inductive Delivery (Conn : Type)
  | diff (conn : Conn) (diff : StateDiff)
  | snapshot (conn : Conn) (snapshot : StateSnapshot)

/-! ## A room -/

/-- `StateSyncRoom`; of the callbacks only whether they are set. -/
structure StateSyncRoom (Conn : Type) where
  states : UnorderedMap Bytes States
  timestamps : UnorderedMap Bytes UInt64
  subscribers : UnorderedMap Bytes (UnorderedSet Conn)
  connectionMap : UnorderedMap Conn Conn
  diffCallback : Bool
  snapshotCallback : Bool

namespace StateSyncRoom

variable {Conn : Type} [DecidableEq Conn]

/-- The constructor, followed by `set_diff_callback` and `set_snapshot_callback`, or not. -/
def new (diffCallback snapshotCallback : Bool) : StateSyncRoom Conn :=
  ⟨∅, ∅, ∅, ∅, diffCallback, snapshotCallback⟩

/-- `states_[entity_id]`, as it is read: an entity without states has none. -/
def statesOf (r : StateSyncRoom Conn) (entityId : Bytes) : States :=
  (r.states.lookup entityId).getD ∅

/-- The loop of `update_state` over the subscribers. -/
def notify (r : StateSyncRoom Conn) (diff : StateDiff) : List (Delivery Conn) :=
  if r.diffCallback then
    match r.subscribers.lookup diff.entityId with
    | none => []
    | some subs => subs.toList.filterMap fun rawConn ↦
        (r.connectionMap.lookup rawConn).map fun conn ↦ .diff conn diff
  else []

/-- `update_state`. -/
def updateState (r : StateSyncRoom Conn) (update : StateUpdate) :
    StateSyncRoom Conn × List (Delivery Conn) :=
  let entityStates := (r.statesOf update.entityId).insert update.stateKey update.value
  let r := { r with
    states := r.states.insert update.entityId entityStates
    timestamps := r.timestamps.insert update.entityId update.timestamp }
  (r, r.notify update.diff)

/-- `query_state`. -/
def queryState (r : StateSyncRoom Conn) (entityId stateKey : Bytes) : Option StateValue := do
  let states ← r.states.lookup entityId
  states.lookup stateKey

/-- `create_snapshot`. -/
def createSnapshot (r : StateSyncRoom Conn) (entityId : Bytes) : StateSnapshot :=
  ⟨entityId, r.statesOf entityId, r.timestamps.lookup entityId⟩

/-- `subscribe`. -/
def subscribe (r : StateSyncRoom Conn) (entityId : Bytes) (conn : Conn) :
    StateSyncRoom Conn × List (Delivery Conn) :=
  let r := { r with
    subscribers :=
      r.subscribers.insert entityId (((r.subscribers.lookup entityId).getD ∅).insert conn)
    connectionMap := r.connectionMap.insert conn conn }
  (r, if r.snapshotCallback then [.snapshot conn (r.createSnapshot entityId)] else [])

/-- `unsubscribe`. -/
def unsubscribe (r : StateSyncRoom Conn) (entityId : Bytes) (conn : Conn) : StateSyncRoom Conn :=
  match r.subscribers.lookup entityId with
  | none => r
  | some subs => { r with subscribers := r.subscribers.insert entityId (subs.erase conn) }

/-- The operations that change a room. -/
inductive Op (Conn : Type)
  | update (update : StateUpdate)
  | subscribe (entityId : Bytes) (conn : Conn)
  | unsubscribe (entityId : Bytes) (conn : Conn)

/-- One operation: the room afterwards, and what is sent. -/
def exec (r : StateSyncRoom Conn) : Op Conn → StateSyncRoom Conn × List (Delivery Conn)
  | .update u => r.updateState u
  | .subscribe e c => r.subscribe e c
  | .unsubscribe e c => (r.unsubscribe e c, [])

/-- One operation after another: the room afterwards, and all that is sent. -/
def run (r : StateSyncRoom Conn) : List (Op Conn) → StateSyncRoom Conn × List (Delivery Conn)
  | [] => (r, [])
  | op :: ops =>
    let rest := (r.exec op).1.run ops
    (rest.1, (r.exec op).2 ++ rest.2)

/-- The connection is subscribed to the entity. -/
def Subscribed (r : StateSyncRoom Conn) (entityId : Bytes) (conn : Conn) : Prop :=
  conn ∈ (r.subscribers.lookup entityId).getD ∅

instance (r : StateSyncRoom Conn) (entityId : Bytes) (conn : Conn) :
    Decidable (r.Subscribed entityId conn) :=
  inferInstanceAs (Decidable (conn ∈ ((r.subscribers.lookup entityId).getD ∅).toList))

/-! ## What a client does -/

/-- Apply one diff to a table of states. -/
def applyDiff (m : States) (d : StateDiff) : States := UnorderedMap.insertAll m d.changes

/-- The diffs for an entity that are sent to a connection, in order. -/
def diffsTo (conn : Conn) (entityId : Bytes) (sent : List (Delivery Conn)) : List StateDiff :=
  sent.filterMap fun
    | .diff c d => if c = conn ∧ d.entityId = entityId then some d else none
    | .snapshot .. => none

/-! ## Subscribers are reached -/

/-- Both callbacks are set, and every subscriber is found in `connection_map_`, as itself. -/
structure Connected (r : StateSyncRoom Conn) : Prop where
  diffCallback : r.diffCallback = true
  snapshotCallback : r.snapshotCallback = true
  mapped : ∀ e c, r.Subscribed e c → r.connectionMap.lookup c = some c
  same : ∀ c c', r.connectionMap.lookup c = some c' → c' = c

theorem new_connected : (new true true : StateSyncRoom Conn).Connected where
  diffCallback := rfl
  snapshotCallback := rfl
  mapped e c h := absurd h (UnorderedSet.notMem_empty c)
  same c c' h := by cases h

section Steps

variable {r : StateSyncRoom Conn}

theorem subscribed_subscribe {e e' : Bytes} {c c' : Conn} :
    (r.subscribe e c).1.Subscribed e' c' ↔ (e' = e ∧ c' = c) ∨ r.Subscribed e' c' := by
  show c' ∈ ((r.subscribers.insert e _).lookup e').getD ∅ ↔ _
  rw [UnorderedMap.lookup_insert_ite]
  split
  · next he =>
    rw [he, Option.getD_some, UnorderedSet.mem_insert]
    simp [Subscribed]
  · next he => simp [Subscribed, he]

theorem subscribed_unsubscribe {e e' : Bytes} {c c' : Conn}
    (h : (r.unsubscribe e c).Subscribed e' c') : r.Subscribed e' c' := by
  rw [unsubscribe] at h
  split at h
  · exact h
  · next subs hsubs =>
    rw [Subscribed, UnorderedMap.lookup_insert_ite] at h
    split at h
    · next he =>
      rw [Subscribed, he, hsubs]
      exact (UnorderedSet.mem_erase.1 h).2
    · exact h

theorem exec_connected (h : r.Connected) (op : Op Conn) : (r.exec op).1.Connected := by
  rcases op with u | ⟨e, c⟩ | ⟨e, c⟩
  · exact ⟨h.diffCallback, h.snapshotCallback, h.mapped, h.same⟩
  · have hmap : ∀ c', ((r.exec (.subscribe e c)).1.connectionMap.lookup c') =
        if c' = c then some c else r.connectionMap.lookup c' := fun c' ↦
      UnorderedMap.lookup_insert_ite r.connectionMap c c' c
    refine ⟨h.diffCallback, h.snapshotCallback, fun e' c' hsub ↦ ?_, fun c' c'' hl ↦ ?_⟩
    · rw [hmap]
      split
      · next hc => rw [hc]
      · next hc =>
        rcases subscribed_subscribe.1 hsub with ⟨-, rfl⟩ | hold
        · exact absurd rfl hc
        · exact h.mapped e' c' hold
    · rw [hmap] at hl
      split at hl
      · next hc => rw [hc, Option.some.inj hl]
      · exact h.same c' c'' hl
  · have hsame : (r.unsubscribe e c).connectionMap = r.connectionMap ∧
        (r.unsubscribe e c).diffCallback = r.diffCallback ∧
        (r.unsubscribe e c).snapshotCallback = r.snapshotCallback := by
      rw [unsubscribe]
      split <;> exact ⟨rfl, rfl, rfl⟩
    refine ⟨hsame.2.1.trans h.diffCallback, hsame.2.2.trans h.snapshotCallback, ?_, ?_⟩
    · intro e' c' hsub
      exact hsame.1 ▸ h.mapped e' c' (subscribed_unsubscribe hsub)
    · intro c' c'' hl
      exact h.same c' c'' (hsame.1 ▸ hl)

/-- **Who is sent a diff.** -/
theorem mem_notify (h : r.Connected) {d d' : StateDiff} {c : Conn}
    (hmem : .diff c d' ∈ r.notify d) : d' = d ∧ r.Subscribed d.entityId c := by
  rw [notify, if_pos h.diffCallback] at hmem
  split at hmem
  · cases hmem
  · next subs hsubs =>
    obtain ⟨raw, hraw, hconn⟩ := List.mem_filterMap.1 hmem
    obtain ⟨conn, hl, he⟩ := Option.map_eq_some_iff.1 hconn
    cases he
    refine ⟨rfl, ?_⟩
    rw [h.same raw c hl, Subscribed, hsubs]
    exact hraw

/-- **A subscriber is sent a diff once.** -/
theorem diffsTo_notify (h : r.Connected) {d : StateDiff} {c : Conn}
    (hsub : r.Subscribed d.entityId c) : diffsTo c d.entityId (r.notify d) = [d] := by
  rw [notify, if_pos h.diffCallback]
  rw [Subscribed] at hsub
  split
  · next hnone =>
    rw [hnone] at hsub
    exact absurd hsub (UnorderedSet.notMem_empty c)
  · next subs hsubs =>
    rw [hsubs] at hsub
    rw [diffsTo, List.filterMap_filterMap, ← UnorderedSet.filterMap_ite_eq hsub d]
    refine List.filterMap_congr fun raw hraw ↦ ?_
    have hmapped := h.mapped d.entityId raw (by rw [Subscribed, hsubs]; exact hraw)
    simp [hmapped]

/-- Nobody is sent a diff for another entity. -/
theorem diffsTo_notify_of_ne {d : StateDiff} {e : Bytes} (hne : d.entityId ≠ e) (c : Conn) :
    diffsTo c e (r.notify d) = [] := by
  refine List.filterMap_eq_nil_iff.2 fun x hx ↦ ?_
  rw [notify] at hx
  split at hx
  · split at hx
    · cases hx
    · obtain ⟨raw, -, hconn⟩ := List.mem_filterMap.1 hx
      obtain ⟨conn, -, rfl⟩ := Option.map_eq_some_iff.1 hconn
      exact if_neg fun h ↦ hne h.2
  · cases hx

theorem statesOf_updateState (u : StateUpdate) (e : Bytes) :
    (r.updateState u).1.statesOf e =
      if e = u.entityId then (r.statesOf e).insert u.stateKey u.value else r.statesOf e := by
  show ((r.states.insert u.entityId _).lookup e).getD ∅ = _
  rw [UnorderedMap.lookup_insert_ite]
  split
  · next he => rw [he, Option.getD_some]
  · rfl

/-! ## Mirrors -/

/-- **One step of a mirror.**  A table that agrees with the states of an entity still does when the
diffs of a call are applied to it, if the connection is subscribed afterwards and this is not a new
subscription. -/
theorem agrees_step (h : r.Connected) {e : Bytes} {c : Conn} {m : States}
    (hm : ∀ k, m.lookup k = (r.statesOf e).lookup k) {op : Op Conn} (hop : op ≠ .subscribe e c)
    (hsub : (r.exec op).1.Subscribed e c) :
    ∀ k, ((diffsTo c e (r.exec op).2).foldl applyDiff m).lookup k =
      ((r.exec op).1.statesOf e).lookup k := by
  intro k
  rcases op with u | ⟨e', c'⟩ | ⟨e', c'⟩
  · have hconn : (r.updateState u).1.Connected := exec_connected h (.update u)
    show ((diffsTo c e ((r.updateState u).1.notify u.diff)).foldl applyDiff m).lookup k =
      ((r.updateState u).1.statesOf e).lookup k
    rw [statesOf_updateState]
    split
    · next he =>
      subst he
      have hone : diffsTo c u.entityId ((r.updateState u).1.notify u.diff) = [u.diff] :=
        diffsTo_notify (d := u.diff) hconn hsub
      rw [hone]
      show (m.insert u.stateKey u.value).lookup k = _
      rw [UnorderedMap.lookup_insert_ite, UnorderedMap.lookup_insert_ite, hm]
    · next he =>
      rw [diffsTo_notify_of_ne (d := u.diff) fun hu ↦ he hu.symm]
      exact hm k
  · have hnone : diffsTo c e (r.subscribe e' c').2 = [] := by
      rw [subscribe]
      split <;> rfl
    show ((diffsTo c e (r.subscribe e' c').2).foldl applyDiff m).lookup k = _
    rw [hnone]
    exact hm k
  · have hstates : (r.unsubscribe e' c').statesOf e = r.statesOf e := by
      rw [unsubscribe]
      split <;> rfl
    show m.lookup k = ((r.unsubscribe e' c').statesOf e).lookup k
    rw [hstates]
    exact hm k

/-- A call that is not a subscription does not make a subscriber. -/
theorem subscribed_exec {e : Bytes} {c : Conn} {op : Op Conn} (hop : op ≠ .subscribe e c)
    (hsub : (r.exec op).1.Subscribed e c) : r.Subscribed e c := by
  rcases op with u | ⟨e', c'⟩ | ⟨e', c'⟩
  · exact hsub
  · rcases subscribed_subscribe.1 hsub with ⟨rfl, rfl⟩ | hold
    · exact absurd rfl hop
    · exact hold
  · exact subscribed_unsubscribe hsub

end Steps

theorem run_append (r : StateSyncRoom Conn) (as bs : List (Op Conn)) :
    r.run (as ++ bs) = (((r.run as).1.run bs).1, (r.run as).2 ++ ((r.run as).1.run bs).2) := by
  induction as generalizing r with
  | nil => rfl
  | cons op as ih => rw [List.cons_append, run, ih, run, List.append_assoc]

theorem run_connected {r : StateSyncRoom Conn} (h : r.Connected) (ops : List (Op Conn)) :
    (r.run ops).1.Connected := by
  induction ops generalizing r with
  | nil => exact h
  | cons op ops ih => exact ih (exec_connected h op)

/-- **A subscriber's mirror.**  The last subscription, and that the diffs since then make of its
snapshot what the room has. -/
theorem mirror_agrees {r : StateSyncRoom Conn} (h : r.Connected)
    (hnone : ∀ e c, ¬ r.Subscribed e c) (ops : List (Op Conn)) {e : Bytes} {c : Conn}
    (hsub : (r.run ops).1.Subscribed e c) :
    ∃ before after snap, ops = before ++ .subscribe e c :: after ∧ .subscribe e c ∉ after ∧
      ((r.run before).1.subscribe e c).2 = [.snapshot c snap] ∧ snap.entityId = e ∧
      ∀ k, ((diffsTo c e (((r.run before).1.subscribe e c).1.run after).2).foldl applyDiff
        snap.states).lookup k = ((r.run ops).1.statesOf e).lookup k := by
  induction ops using List.reverseRecOn with
  | nil => exact absurd hsub (hnone e c)
  | append_singleton ops op ih =>
    have hlast : (r.run (ops ++ [op])).1 = ((r.run ops).1.exec op).1 := by rw [run_append]; rfl
    rw [hlast] at hsub ⊢
    by_cases hop : op = .subscribe e c
    · subst hop
      refine ⟨ops, [], (r.run ops).1.createSnapshot e, rfl, List.not_mem_nil, ?_, rfl, fun k ↦ rfl⟩
      exact if_pos (run_connected h ops).snapshotCallback
    · obtain ⟨before, after, snap, rfl, hnot, hsnap, hid, hagree⟩ := ih (subscribed_exec hop hsub)
      refine ⟨before, after ++ [op], snap, by simp, ?_, hsnap, hid, ?_⟩
      · rw [List.mem_append, List.mem_singleton]
        exact fun hmem ↦ hmem.elim hnot fun he ↦ hop he.symm
      · have hstate : (r.run (before ++ .subscribe e c :: after)).1 =
            (((r.run before).1.subscribe e c).1.run after).1 := by
          rw [run_append]
          rfl
        have hstep := agrees_step (run_connected h _) hagree hop hsub
        intro k
        rw [← hstep k, run_append, hstate, diffsTo, List.filterMap_append, List.foldl_append]
        simp only [diffsTo, run, List.append_nil]

end StateSyncRoom
end Sync
end ChwellCore
