import ChwellCore.Lib.Pool
import ChwellCore.Lib.Run
import ChwellCore.Protocol.Parser

/-!
# Sending from many threads

Any thread may call `TcpConnection::send`, at any time.  A call takes `send_mutex_`, returns if the
connection is closed, and writes its bytes in a loop, as many in one `write` as the socket takes; it
gives up when a `write` fails, wherever it is.  `WsConnection` sends in the same way.  Meanwhile
other threads close the connection, which is three steps: `closed_` is set, the socket is shut down,
so that no `write` succeeds any more, and it is closed.  A read loop that ends only sets `closed_`.
A descriptor that is closed is not given to another file here while a call is in its loop; if it
were, the rest of the bytes would go there.

So what is on the wire is what the calls have written, one after another in the order in which they
had the mutex, and the calls of each thread are in its own order (`sent_in_order`).

A call that gives up in the middle of a frame does not close the connection, and the next call
writes behind what it has left.  As long as this does not happen, a receiver finds the messages of
the calls that got all their bytes through, in the order of the mutex, and no others
(`received_in_order`).
-/

set_option autoImplicit false

namespace ChwellCore
namespace Net

open Protocol Protocol.Parser

/-- A thread that calls `send`. -/
inductive Sender where
  | idle
  /-- It needs `send_mutex_`. -/
  | locking (data : Bytes)
  /-- It has the mutex, and is about to look at `closed_`. -/
  | entered (data : Bytes)
  /-- It is in the loop, behind `written` and in front of `rest`. -/
  | writing (written rest : Bytes)
deriving DecidableEq, Repr

/-- A call that has returned: the thread, what it has written, and what it has not. -/
structure SendCall where
  sender : ℕ
  written : Bytes
  rest : Bytes
deriving DecidableEq, Repr

/-- The side of a connection that sends, the bytes that were written, and the calls that have
returned, in the order in which they had the mutex. -/
structure SendSide where
  senders : Pool Sender
  closed : Bool
  shutDown : Bool
  isOpen : Bool
  wire : Bytes
  ended : List SendCall
deriving DecidableEq, Repr

/-- A step. -/
inductive SendAct where
  | call (i : ℕ) (data : Bytes)
  | lock (i : ℕ)
  /-- `closed_ || !socket_.is_open()`. -/
  | look (i : ℕ)
  /-- `write` takes so many bytes. -/
  | write (i n : ℕ)
  /-- `write` fails. -/
  | fail (i : ℕ)
  /-- There is nothing more to write. -/
  | finish (i : ℕ)
  /-- `closed_ = true`. -/
  | mark
  | shutDown
  | close
deriving DecidableEq, Repr

namespace Sender

/-- What the call of a thread that has the mutex has written. -/
def hold : Sender → Option Bytes
  | .idle | .locking _ => none
  | .entered _ => some []
  | .writing written _ => some written

/-- The data of the call that the thread is in. -/
def pending : Sender → List Bytes
  | .idle => []
  | .locking data | .entered data => [data]
  | .writing written rest => [written ++ rest]

end Sender

/-- What the call was asked to send. -/
def SendCall.data (c : SendCall) : Bytes := c.written ++ c.rest

namespace SendSide

/-- A connection that is open, and so many threads. -/
def new (threads : ℕ) : SendSide := ⟨List.replicate threads .idle, false, false, true, [], []⟩

def put (s : SendSide) (i : ℕ) (p : Sender) : SendSide := { s with senders := s.senders.put i p }

/-- A call returns. -/
def settle (s : SendSide) (c : SendCall) : SendSide := { s with ended := s.ended ++ [c] }

/-- Nobody has the mutex. -/
def Free (s : SendSide) : Prop := ∀ p ∈ s.senders, p.hold = none

instance (s : SendSide) : Decidable s.Free :=
  inferInstanceAs (Decidable (∀ p ∈ s.senders, p.hold = none))

/-- One step; `none` if it cannot be taken. -/
def step (s : SendSide) : SendAct → Option SendSide
  | .call i data => if s.senders[i]? = some .idle then some (s.put i (.locking data)) else none
  | .lock i =>
    match s.senders[i]? with
    | some (.locking data) => if s.Free then some (s.put i (.entered data)) else none
    | _ => none
  | .look i =>
    match s.senders[i]? with
    | some (.entered data) =>
      if s.closed ∨ s.isOpen = false then some ((s.put i .idle).settle ⟨i, [], data⟩)
      else some (s.put i (.writing [] data))
    | _ => none
  | .write i n =>
    match s.senders[i]? with
    | some (.writing written rest) =>
      if 0 < n ∧ n ≤ rest.length ∧ s.shutDown = false ∧ s.isOpen then
        some ({ s with wire := s.wire ++ rest.take n }.put i
          (.writing (written ++ rest.take n) (rest.drop n)))
      else none
    | _ => none
  | .fail i =>
    match s.senders[i]? with
    | some (.writing written rest) =>
      if rest ≠ [] then some ((s.put i .idle).settle ⟨i, written, rest⟩) else none
    | _ => none
  | .finish i =>
    match s.senders[i]? with
    | some (.writing written []) => some ((s.put i .idle).settle ⟨i, written, []⟩)
    | _ => none
  | .mark => some { s with closed := true }
  | .shutDown => if s.closed then some { s with shutDown := true } else none
  | .close => if s.shutDown then some { s with isOpen := false } else none

/-- The system of all interleavings. -/
def system : System SendSide SendAct := System.ofPartial step

/-- What a step can do. -/
inductive Step (s : SendSide) : SendAct → SendSide → Prop
  | call {i : ℕ} (data : Bytes) : s.senders[i]? = some .idle →
      Step s (.call i data) (s.put i (.locking data))
  | lock {i : ℕ} {data : Bytes} : s.senders[i]? = some (.locking data) → s.Free →
      Step s (.lock i) (s.put i (.entered data))
  | refuse {i : ℕ} {data : Bytes} : s.senders[i]? = some (.entered data) →
      Step s (.look i) ((s.put i .idle).settle ⟨i, [], data⟩)
  | enter {i : ℕ} {data : Bytes} : s.senders[i]? = some (.entered data) →
      Step s (.look i) (s.put i (.writing [] data))
  | write {i n : ℕ} {written rest : Bytes} : s.senders[i]? = some (.writing written rest) →
      Step s (.write i n) ({ s with wire := s.wire ++ rest.take n }.put i
        (.writing (written ++ rest.take n) (rest.drop n)))
  | ret {a : SendAct} {i : ℕ} {written rest : Bytes} : a = .fail i ∨ a = .finish i →
      s.senders[i]? = some (.writing written rest) →
      Step s a ((s.put i .idle).settle ⟨i, written, rest⟩)
  | flags {a : SendAct} {t : SendSide} : (∀ i data, a ≠ .call i data) → t.senders = s.senders →
      t.wire = s.wire → t.ended = s.ended → Step s a t

variable {s t : SendSide} {a : SendAct} {acts : List SendAct} {i : ℕ}

theorem step_cases (hs : step s a = some t) : Step s a t := by
  cases a with
  | call i data =>
    obtain ⟨h, hs⟩ := Option.ite_none_right_eq_some.1 hs
    cases hs
    exact .call data h
  | lock i =>
    simp only [step] at hs
    split at hs
    · next h =>
      obtain ⟨hfree, hs⟩ := Option.ite_none_right_eq_some.1 hs
      cases hs
      exact .lock h hfree
    · cases hs
  | look i =>
    simp only [step] at hs
    split at hs
    · next h =>
      split at hs <;> cases hs
      · exact .refuse h
      · exact .enter h
    · cases hs
  | write i n =>
    simp only [step] at hs
    split at hs
    · next h =>
      obtain ⟨-, hs⟩ := Option.ite_none_right_eq_some.1 hs
      cases hs
      exact .write h
    · cases hs
  | fail i =>
    simp only [step] at hs
    split at hs
    · next h =>
      obtain ⟨-, hs⟩ := Option.ite_none_right_eq_some.1 hs
      cases hs
      exact .ret (.inl rfl) h
    · cases hs
  | finish i =>
    simp only [step] at hs
    split at hs
    · next h =>
      cases hs
      exact .ret (.inr rfl) h
    · cases hs
  | mark =>
    cases hs
    exact .flags (fun _ _ ↦ SendAct.noConfusion) rfl rfl rfl
  | shutDown =>
    obtain ⟨-, hs⟩ := Option.ite_none_right_eq_some.1 hs
    cases hs
    exact .flags (fun _ _ ↦ SendAct.noConfusion) rfl rfl rfl
  | close =>
    obtain ⟨-, hs⟩ := Option.ite_none_right_eq_some.1 hs
    cases hs
    exact .flags (fun _ _ ↦ SendAct.noConfusion) rfl rfl rfl

/-! ## The calls of each thread -/

/-- What a thread was asked to send, in order. -/
def requested (i : ℕ) (acts : List SendAct) : List Bytes :=
  acts.filterMap fun a ↦
    match a with
    | .call j data => if j = i then some data else none
    | _ => none

/-- The call that a thread is in. -/
def pendingOf (s : SendSide) (i : ℕ) : List Bytes :=
  (s.senders.map Sender.pending)[i]?.getD []

/-- The calls of a thread that have returned. -/
def endedOf (s : SendSide) (i : ℕ) : List Bytes :=
  (s.ended.filter fun c ↦ c.sender = i).map SendCall.data

theorem pendingOf_eq {p : Sender} (h : s.senders[i]? = some p) : s.pendingOf i = p.pending := by
  rw [pendingOf, List.getElem?_map, h]
  rfl

theorem pendingOf_put {p : Sender} (h : s.senders[i]? = some p) (q : Sender) (j : ℕ) :
    (s.put i q).pendingOf j = if j = i then q.pending else s.pendingOf j := by
  rw [pendingOf, pendingOf, put, Pool.getElem?_map_put _ h]
  split <;> rfl

theorem endedOf_settle (s : SendSide) (c : SendCall) (j : ℕ) :
    (s.settle c).endedOf j = s.endedOf j ++ if j = c.sender then [c.data] else [] := by
  rw [endedOf, settle, List.filter_append, List.map_append]
  refine congrArg _ ?_
  by_cases hj : j = c.sender
  · rw [if_pos hj, List.filter_cons_of_pos (by simpa using hj.symm)]
    rfl
  · rw [if_neg hj, List.filter_cons_of_neg (by simpa using Ne.symm hj)]
    rfl

/-- A call that moves on, and one that returns. -/
theorem calls_put {p q : Sender} (h : s.senders[i]? = some p) (hq : q.pending = p.pending)
    (j : ℕ) : (s.put i q).endedOf j ++ (s.put i q).pendingOf j = s.endedOf j ++ s.pendingOf j := by
  refine congrArg (s.endedOf j ++ ·) ?_
  rw [pendingOf_put h]
  split
  · next hj => rw [hj, hq, pendingOf_eq h]
  · rfl

theorem calls_settle {p : Sender} {c : SendCall} (h : s.senders[c.sender]? = some p)
    (hp : p.pending = [c.data]) (j : ℕ) :
    ((s.put c.sender .idle).settle c).endedOf j ++
        ((s.put c.sender .idle).settle c).pendingOf j = s.endedOf j ++ s.pendingOf j := by
  rw [endedOf_settle, List.append_assoc]
  refine congrArg (s.endedOf j ++ ·) ?_
  show _ ++ (s.put c.sender .idle).pendingOf j = _
  rw [pendingOf_put h]
  split
  · next hj => rw [hj, pendingOf_eq h, hp]; rfl
  · rfl

/-- A step asks for a call, or leaves the calls as they are. -/
theorem Step.calls (h : Step s a t) (j : ℕ) :
    t.endedOf j ++ t.pendingOf j = s.endedOf j ++ s.pendingOf j ++ requested j [a] := by
  cases h with
  | @call i data hi =>
    rw [List.append_assoc]
    refine congrArg (s.endedOf j ++ ·) ?_
    rw [pendingOf_put hi]
    split
    · next hj => rw [hj, pendingOf_eq hi, requested, List.filterMap_cons]; simp [Sender.pending]
    · next hj => simp [requested, Ne.symm hj]
  | lock hi _ => exact (calls_put hi (by rfl) j).trans (List.append_nil _).symm
  | refuse hi => exact (calls_settle (c := ⟨_, _, _⟩) hi rfl j).trans (List.append_nil _).symm
  | enter hi => exact (calls_put hi (by rfl) j).trans (List.append_nil _).symm
  | @write i n written rest hi =>
    refine (calls_put (s := s) hi ?_ j).trans (List.append_nil _).symm
    rw [Sender.pending, Sender.pending, List.append_assoc, List.take_append_drop]
  | ret ha hi =>
    have hnone : requested j [a] = [] := by
      rcases ha with rfl | rfl <;> rfl
    rw [hnone, List.append_nil]
    exact calls_settle (c := ⟨_, _, _⟩) hi rfl j
  | flags hne hsenders hwire hended =>
    have hnone : requested j [a] = [] := by
      cases a with
      | call i data => exact absurd rfl (hne i data)
      | lock | look | write | fail | finish | mark | shutDown | close => rfl
    rw [hnone, List.append_nil, endedOf, pendingOf, hended, hsenders]
    rfl

theorem requested_concat (j : ℕ) (acts : List SendAct) (a : SendAct) :
    requested j (acts ++ [a]) = requested j acts ++ requested j [a] :=
  List.filterMap_append

theorem calls_of_run {threads : ℕ} (hrun : system.Run (new threads) acts s) (j : ℕ) :
    s.endedOf j ++ s.pendingOf j = requested j acts := by
  induction hrun with
  | nil =>
    show (((List.replicate threads Sender.idle).map Sender.pending)[j]?).getD [] = []
    rw [List.map_replicate, List.getElem?_replicate]
    split <;> rfl
  | @snoc acts s t a _ hlast ih => rw [(step_cases hlast).calls, ih, requested_concat]

/-! ## What is on the wire -/

/-- What the calls that have returned have written. -/
def endedWire (s : SendSide) : Bytes := s.ended.flatMap SendCall.written

/-- What the threads with the mutex have written. -/
def holds (s : SendSide) : List (Option Bytes) := s.senders.map Sender.hold

/-- Who has the mutex, and what is on the wire. -/
structure Sound (s : SendSide) : Prop where
  /-- One thread at most has the mutex. -/
  unique : ∀ (i j : ℕ) (w w' : Bytes), s.holds[i]? = some (some w) →
    s.holds[j]? = some (some w') → i = j
  /-- It writes behind the calls that have returned. -/
  wire : ∀ (i : ℕ) (w : Bytes), s.holds[i]? = some (some w) → s.wire = s.endedWire ++ w
  free : s.Free → s.wire = s.endedWire

theorem holds_put {p : Sender} (h : s.senders[i]? = some p) (q : Sender) (j : ℕ) :
    (s.put i q).holds[j]? = if j = i then some q.hold else s.holds[j]? :=
  Pool.getElem?_map_put _ h q j

theorem holds_eq {p : Sender} (h : s.senders[i]? = some p) : s.holds[i]? = some p.hold := by
  rw [holds, List.getElem?_map, h]
  rfl

theorem Free.ne (h : s.Free) {w : Bytes} : s.holds[i]? ≠ some (some w) := by
  intro hi
  obtain ⟨p, hp, hw⟩ := List.mem_map.1 (List.mem_of_getElem? hi)
  rw [h p hp] at hw
  cases hw

/-- If nobody has the mutex after a thread has moved on, that thread does not. -/
theorem Free.hold_put {p q : Sender} (hfree : (s.put i q).Free) (h : s.senders[i]? = some p) :
    q.hold = none :=
  hfree q (List.mem_of_getElem? (Pool.getElem?_put_self h q))

theorem sound_new (threads : ℕ) : Sound (new threads) := by
  have hfree : (new threads).Free := fun p hp ↦ by
    rw [List.eq_of_mem_replicate hp]
    rfl
  exact ⟨fun i j w w' hi ↦ absurd hi hfree.ne, fun i w hi ↦ absurd hi hfree.ne, fun _ ↦ rfl⟩

/-- A thread moves on, and neither takes the mutex nor gives it up nor writes. -/
theorem Sound.move (h : Sound s) {p q : Sender} (hi : s.senders[i]? = some p)
    (hq : q.hold = p.hold) : Sound (s.put i q) := by
  have hholds : (s.put i q).holds = s.holds := Pool.map_put hi hq
  refine ⟨?_, ?_, fun hfree ↦ h.free ?_⟩
  · rw [hholds]
    exact h.unique
  · rw [hholds]
    exact h.wire
  · intro r hr
    have hmem : r.hold ∈ (s.put i q).holds := hholds ▸ List.mem_map_of_mem hr
    obtain ⟨r', hr', he⟩ := List.mem_map.1 hmem
    exact he.symm.trans (hfree r' hr')

theorem Sound.lock (h : Sound s) {data : Bytes} (hi : s.senders[i]? = some (.locking data))
    (hfree : s.Free) : Sound (s.put i (.entered data)) := by
  have honly : ∀ (j : ℕ) (w : Bytes), (s.put i (.entered data)).holds[j]? = some (some w) →
      j = i ∧ w = [] := by
    intro j w hj
    rw [holds_put hi] at hj
    split at hj
    · next he => exact ⟨he, (Option.some.inj (Option.some.inj hj)).symm⟩
    · exact absurd hj hfree.ne
  refine ⟨fun j k w w' hj hk ↦ (honly j w hj).1.trans (honly k w' hk).1.symm, fun j w hj ↦ ?_,
    fun hfree' ↦ absurd (hfree'.hold_put hi) (Option.some_ne_none _)⟩
  rw [(honly j w hj).2, List.append_nil]
  exact h.free hfree

theorem Sound.write (h : Sound s) {written rest : Bytes}
    (hi : s.senders[i]? = some (.writing written rest)) (n : ℕ) :
    Sound ({ s with wire := s.wire ++ rest.take n }.put i
      (.writing (written ++ rest.take n) (rest.drop n))) := by
  have hwire := h.wire i written (holds_eq hi)
  have honly : ∀ (j : ℕ) (w : Bytes), ({ s with wire := s.wire ++ rest.take n }.put i
      (.writing (written ++ rest.take n) (rest.drop n))).holds[j]? = some (some w) →
        j = i ∧ w = written ++ rest.take n := by
    intro j w hj
    rw [holds_put (s := { s with wire := s.wire ++ rest.take n }) hi] at hj
    split at hj
    · next he => exact ⟨he, (Option.some.inj (Option.some.inj hj)).symm⟩
    · next hne => exact absurd (h.unique j i w written hj (holds_eq hi)) hne
  refine ⟨fun j k w w' hj hk ↦ (honly j w hj).1.trans (honly k w' hk).1.symm, fun j w hj ↦ ?_,
    fun hfree ↦ absurd (hfree.hold_put hi) (Option.some_ne_none _)⟩
  show s.wire ++ rest.take n = s.endedWire ++ w
  rw [(honly j w hj).2, hwire, List.append_assoc]

/-- A call returns, and gives the mutex back. -/
theorem Sound.settle (h : Sound s) {p : Sender} {c : SendCall}
    (hi : s.senders[c.sender]? = some p) (hp : p.hold = some c.written) :
    Sound ((s.put c.sender .idle).settle c) := by
  have hwire : s.wire = ((s.put c.sender .idle).settle c).endedWire := by
    rw [h.wire c.sender c.written ((holds_eq hi).trans (congrArg some hp)), endedWire, endedWire,
      SendSide.settle, List.flatMap_append, List.flatMap_singleton]
    rfl
  have hnone : ∀ (j : ℕ) (w : Bytes),
      ((s.put c.sender .idle).settle c).holds[j]? ≠ some (some w) := by
    intro j w hj
    have hj : (s.put c.sender .idle).holds[j]? = some (some w) := hj
    rw [holds_put hi] at hj
    split at hj
    · cases hj
    · next hne =>
      exact hne (h.unique j c.sender w c.written hj ((holds_eq hi).trans (congrArg some hp)))
  exact ⟨fun j k w w' hj ↦ absurd hj (hnone j w), fun j w hj ↦ absurd hj (hnone j w),
    fun _ ↦ hwire⟩

theorem Step.sound (hs : Step s a t) (h : Sound s) : Sound t := by
  cases hs with
  | call data hi => exact h.move hi (by rfl)
  | lock hi hfree => exact h.lock hi hfree
  | refuse hi => exact h.settle (c := ⟨_, _, _⟩) hi rfl
  | enter hi => exact h.move hi (by rfl)
  | write hi => exact h.write hi _
  | ret ha hi => exact h.settle (c := ⟨_, _, _⟩) hi rfl
  | flags hne hsenders hwire hended =>
    have hholds : t.holds = s.holds := congrArg (List.map Sender.hold) hsenders
    have hendedWire : t.endedWire = s.endedWire := congrArg (List.flatMap SendCall.written) hended
    have hfree : t.Free → s.Free := fun hfree p hp ↦ hfree p (hsenders ▸ hp)
    refine ⟨?_, ?_, fun hf ↦ ?_⟩
    · rw [hholds]
      exact h.unique
    · rw [hholds, hwire, hendedWire]
      exact h.wire
    · rw [hwire, hendedWire]
      exact h.free (hfree hf)

theorem sound_of_run {threads : ℕ} (hrun : system.Run (new threads) acts s) : Sound s :=
  hrun.invariant (motive := Sound) (fun _ _ _ h hs ↦ (step_cases hs).sound h) (sound_new threads)

/-! ## The call that is in the loop -/

/-- The call of a thread that is in the loop, as if it returned now. -/
def runningAt (s : SendSide) (i : ℕ) : Option SendCall :=
  match s.senders[i]? with
  | some (.writing written rest) => some ⟨i, written, rest⟩
  | _ => none

/-- The calls that are in the loop. -/
def running (s : SendSide) : List SendCall :=
  (List.range s.senders.length).filterMap s.runningAt

theorem runningAt_eq_some {c : SendCall} : s.runningAt i = some c ↔
    c.sender = i ∧ s.senders[i]? = some (.writing c.written c.rest) := by
  rw [runningAt]
  constructor
  · intro h
    split at h
    · next hi =>
      cases h
      exact ⟨rfl, hi⟩
    · cases h
  · rintro ⟨rfl, hi⟩
    rw [hi]

theorem mem_running {c : SendCall} :
    c ∈ s.running ↔ s.senders[c.sender]? = some (.writing c.written c.rest) := by
  rw [running, List.mem_filterMap]
  constructor
  · rintro ⟨i, -, hi⟩
    obtain ⟨rfl, hi⟩ := runningAt_eq_some.1 hi
    exact hi
  · intro hi
    exact ⟨c.sender, List.mem_range.2 (List.getElem?_eq_some_iff.1 hi).1,
      runningAt_eq_some.2 ⟨rfl, hi⟩⟩

theorem nodup_running (s : SendSide) : s.running.Nodup := by
  refine List.nodup_range.filterMap fun i j c hi hj ↦ ?_
  exact (runningAt_eq_some.1 hi).1.symm.trans (runningAt_eq_some.1 hj).1

/-- The wire has what was written, call by call. -/
theorem Sound.wire_eq (h : Sound s) :
    s.running.length ≤ 1 ∧ s.wire = (s.ended ++ s.running).flatMap SendCall.written := by
  rw [List.flatMap_append]
  rcases hrun : s.running with _ | ⟨c, rest⟩
  · refine ⟨Nat.zero_le 1, ?_⟩
    rw [List.flatMap_nil, List.append_nil]
    by_cases hfree : s.Free
    · exact h.free hfree
    · -- the thread with the mutex has not looked at `closed_` yet
      simp only [Free, not_forall] at hfree
      obtain ⟨p, hp, hhold⟩ := hfree
      obtain ⟨i, hi⟩ := List.mem_iff_getElem?.1 hp
      cases p with
      | idle | locking => exact absurd rfl hhold
      | entered data => exact (h.wire i [] (holds_eq hi)).trans (List.append_nil _)
      | writing written rest =>
        have hmem : (⟨i, written, rest⟩ : SendCall) ∈ s.running := mem_running.2 hi
        rw [hrun] at hmem
        cases hmem
  · have hc : s.senders[c.sender]? = some (.writing c.written c.rest) :=
      mem_running.1 (hrun ▸ List.mem_cons_self)
    obtain rfl : rest = [] := by
      refine List.eq_nil_iff_forall_not_mem.2 fun d hd ↦ ?_
      have hd' : s.senders[d.sender]? = some (.writing d.written d.rest) :=
        mem_running.1 (hrun ▸ List.mem_cons_of_mem c hd)
      have hsender := h.unique _ _ _ _ (holds_eq hc) (holds_eq hd')
      rw [← hsender, hc] at hd'
      cases c
      cases d
      cases hsender
      cases hd'
      exact (List.nodup_cons.1 (hrun ▸ s.nodup_running)).1 hd
    refine ⟨le_rfl, ?_⟩
    rw [List.flatMap_singleton]
    exact h.wire _ _ (holds_eq hc)

/-- **Calls do not get into each other**: in whatever order the threads take their steps, and
whenever the connection is closed, the wire has what the calls have written, in the order in which
they had the mutex, one call at most being in the loop; and the calls of each thread are those that
it was asked for, in that order, those that have returned and then the one that it is in. -/
theorem sent_in_order {threads : ℕ} (hrun : system.Run (new threads) acts s) :
    s.running.length ≤ 1 ∧ s.wire = (s.ended ++ s.running).flatMap SendCall.written ∧
      ∀ i, s.endedOf i ++ s.pendingOf i = requested i acts :=
  ⟨(sound_of_run hrun).wire_eq.1, (sound_of_run hrun).wire_eq.2, calls_of_run hrun⟩

/-- Two threads that send at the same time, the first in two pieces, and the second in the middle of
a shutdown. -/
def session : List SendAct :=
  [.call 0 (serialize ⟨1, lit "foo"⟩), .call 1 (serialize ⟨2, lit "barbaz"⟩), .lock 0, .look 0,
    .write 0 3, .write 0 4, .finish 0, .call 0 (serialize ⟨3, []⟩), .lock 1, .look 1, .write 1 5,
    .mark, .shutDown, .fail 1, .close, .lock 0, .look 0]

theorem sent_in_order_session : ∃ s, system.Run (new 2) session s ∧
    s.wire = serialize ⟨1, lit "foo"⟩ ++ (serialize ⟨2, lit "barbaz"⟩).take 5 ∧
    s.running.length ≤ 1 ∧ s.wire = (s.ended ++ s.running).flatMap SendCall.written ∧
      ∀ i, s.endedOf i ++ s.pendingOf i = requested i session := by
  obtain ⟨s, hrun, hs⟩ : ∃ s, system.Run (new 2) session s ∧
      s.wire = serialize ⟨1, lit "foo"⟩ ++ (serialize ⟨2, lit "barbaz"⟩).take 5 :=
    System.Run.exists_of_any (by decide +kernel)
  exact ⟨s, hrun, hs, sent_in_order hrun⟩

/-! ## What the peer receives -/

/-- The data of every call was asked for. -/
theorem exists_call_of_mem {threads : ℕ} (hrun : system.Run (new threads) acts s) {c : SendCall}
    (hc : c ∈ s.ended ++ s.running) : .call c.sender c.data ∈ acts := by
  have hmem : c.data ∈ requested c.sender acts := by
    rw [← calls_of_run hrun, List.mem_append]
    rcases List.mem_append.1 hc with hc | hc
    · exact .inl (List.mem_map_of_mem (List.mem_filter.2 ⟨hc, decide_eq_true rfl⟩))
    · rw [pendingOf_eq (mem_running.1 hc)]
      exact .inr (List.mem_singleton.2 rfl)
  obtain ⟨a, ha, hdata⟩ := List.mem_filterMap.1 hmem
  split at hdata
  · next j data =>
    obtain ⟨hj, hdata'⟩ := Option.ite_none_right_eq_some.1 hdata
    rwa [← hj, ← Option.some.inj hdata']
  · cases hdata

/-- Nothing is written behind a call that was cut short. -/
def Unbroken (calls : List SendCall) : Prop :=
  calls.Pairwise fun c d ↦ c.written ≠ [] → c.rest ≠ [] → d.written = []

instance (calls : List SendCall) : Decidable (Unbroken calls) :=
  inferInstanceAs (Decidable (List.Pairwise _ _))

/-- The messages of the calls that got all their bytes through. -/
def delivered (calls : List SendCall) : List Message :=
  (calls.filter fun c ↦ c.rest = []).filterMap fun c ↦ deserialize c.written

/-- Calls that were asked to send a message each. -/
def OfMessages (calls : List SendCall) : Prop :=
  ∀ c ∈ calls, ∃ m : Message, m.body.length ≤ 65535 ∧ c.data = serialize m

theorem deserialize_serialize {m : Message} (h : m.body.length ≤ 65535) :
    deserialize (serialize m) = some m := by
  rw [deserialize_eq_next, frame_next_serialize h]
  rfl

/-- Calls that have written nothing, of messages. -/
theorem delivered_of_written_nil {calls : List SendCall} (hmsgs : OfMessages calls)
    (h : ∀ c ∈ calls, c.written = []) : delivered calls = [] := by
  have hfilter : (calls.filter fun c ↦ c.rest = []) = [] := by
    refine List.filter_eq_nil_iff.2 fun c hc hrest ↦ ?_
    obtain ⟨m, -, hdata⟩ := hmsgs c hc
    have hlen := congrArg List.length hdata
    rw [SendCall.data, h c hc, of_decide_eq_true hrest, length_serialize, List.append_nil,
      List.length_nil] at hlen
    omega
  rw [delivered, hfilter]
  rfl

/-- What calls of messages have written: whole frames, and then less than one. -/
theorem written_eq {calls : List SendCall} (hmsgs : OfMessages calls) (h : Unbroken calls) :
    (∀ m ∈ delivered calls, m.body.length ≤ 65535) ∧ ∃ tail,
      calls.flatMap SendCall.written = (delivered calls).flatMap serialize ++ tail ∧
        frame.next tail = none := by
  induction calls with
  | nil => exact ⟨fun m hm ↦ (List.not_mem_nil hm).elim, [], rfl, frame_next_nil⟩
  | cons c calls ih =>
    obtain ⟨hc, h⟩ := List.pairwise_cons.1 h
    have hrestMsgs : OfMessages calls := fun d hd ↦ hmsgs d (List.mem_cons_of_mem c hd)
    obtain ⟨hbodies, tail, hwritten, htail⟩ := ih hrestMsgs h
    obtain ⟨m, hbody, hdata⟩ := hmsgs c List.mem_cons_self
    rw [SendCall.data] at hdata
    by_cases hrest : c.rest = []
    · -- a whole frame
      rw [hrest, List.append_nil] at hdata
      have hdelivered : delivered (c :: calls) = m :: delivered calls := by
        rw [delivered, List.filter_cons_of_pos (by simpa using hrest), List.filterMap_cons, hdata,
          deserialize_serialize hbody]
        rfl
      rw [hdelivered]
      refine ⟨List.forall_mem_cons.2 ⟨hbody, hbodies⟩, tail, ?_, htail⟩
      rw [List.flatMap_cons, List.flatMap_cons, hwritten, hdata, List.append_assoc]
    · have hdelivered : delivered (c :: calls) = delivered calls := by
        rw [delivered, List.filter_cons_of_neg (by simpa using hrest)]
        rfl
      rw [hdelivered]
      refine ⟨hbodies, ?_⟩
      by_cases hnil : c.written = []
      · exact ⟨tail, by rw [List.flatMap_cons, hnil, List.nil_append, hwritten], htail⟩
      · -- it was cut short, and nothing follows
        have hsilent : ∀ d ∈ calls, d.written = [] := fun d hd ↦ hc d hd hnil hrest
        refine ⟨c.written, ?_, FrameDecoder.next_of_cut (hdata ▸ frame_next_serialize hbody) hrest⟩
        rw [delivered_of_written_nil hrestMsgs hsilent, List.flatMap_cons,
          List.flatMap_eq_nil_iff.2 hsilent, List.append_nil]
        rfl

/-- **What the peer receives**: if every call sends a message, and no call writes anything behind
one that was cut short, then a parser that is fed what has arrived, cut up in any way, finds
messages of calls that got all their bytes through, in the order in which the calls had the mutex,
none missing in between and no others; and all of them, once everything has arrived. -/
theorem received_in_order {threads : ℕ} (hrun : system.Run (new threads) acts s)
    (hmsgs : ∀ i data, .call i data ∈ acts →
      ∃ m : Message, m.body.length ≤ 65535 ∧ data = serialize m)
    (hcut : Unbroken (s.ended ++ s.running)) {chunks : List Bytes} {flight : Bytes}
    (hwire : chunks.flatten ++ flight = s.wire) :
    (fresh.feedAll chunks).1 <+: delivered (s.ended ++ s.running) ∧
      (flight = [] → (fresh.feedAll chunks).1 = delivered (s.ended ++ s.running)) := by
  obtain ⟨hbodies, tail, hwritten, htail⟩ := written_eq
    (fun c hc ↦ hmsgs c.sender c.data (exists_call_of_mem hrun hc)) hcut
  have hall : (frame.drain (chunks.flatten ++ flight)).1 = delivered (s.ended ++ s.running) := by
    rw [hwire, (sound_of_run hrun).wire_eq.2, hwritten, FrameDecoder.drain_flatMap_append
      frame_next_nil (fun m hm ↦ frame_next_serialize (hbodies m hm)) htail]
  rw [(Prod.mk.inj (feedAll_eq_drain chunks)).1, ← hall]
  refine ⟨?_, ?_⟩
  · rw [FrameDecoder.drain_append]
    exact List.prefix_append _ _
  · rintro rfl
    rw [List.append_nil]

theorem received_in_order_session : ∃ s, system.Run (new 2) session s ∧
    delivered (s.ended ++ s.running) = [⟨1, lit "foo"⟩] ∧
      (fresh.feedAll [s.wire.take 3, s.wire.drop 3]).1 = delivered (s.ended ++ s.running) := by
  obtain ⟨s, hrun, hcut, hs⟩ : ∃ s, system.Run (new 2) session s ∧
      Unbroken (s.ended ++ s.running) ∧
        delivered (s.ended ++ s.running) = [⟨1, lit "foo"⟩] :=
    System.Run.exists_of_any (by decide +kernel)
  have hmsgs : ∀ i data, .call i data ∈ session →
      ∃ m : Message, m.body.length ≤ 65535 ∧ data = serialize m := by
    intro i data hcall
    simp only [session, List.mem_cons, SendAct.call.injEq, reduceCtorEq, false_or, or_false,
      List.not_mem_nil] at hcall
    rcases hcall with ⟨-, rfl⟩ | ⟨-, rfl⟩ | ⟨-, rfl⟩
    · exact ⟨_, by decide, rfl⟩
    · exact ⟨_, by decide, rfl⟩
    · exact ⟨_, by decide, rfl⟩
  have hwire : [s.wire.take 3, s.wire.drop 3].flatten ++ [] = s.wire := by
    rw [List.append_nil, List.flatten_cons, List.flatten_singleton, List.take_append_drop]
  exact ⟨s, hrun, hs, (received_in_order hrun hmsgs hcut hwire).2 rfl⟩

end SendSide
end Net
end ChwellCore
