import ChwellCore.Rpc.RpcClient
import ChwellCore.Rpc.RpcServer

/-!
# What the two ends find in their streams

Both ends of an RPC connection find their messages in the same way: a new `Parser` is fed all that
is in a buffer, and the bytes to take out of the buffer are counted from the messages it found.  For
the server that is done in `ChwellCore.Rpc.RpcServer`; here it is done for the client, where the
bytes are taken out before the messages are looked at.  `framing_agrees` has both.

The buffer of the client belongs to the client, and nothing ever clears it.  What a connection
leaves in it when it ends within a frame is in front of what the next connection delivers, and what
its read loop delivers after that is in between.  `reconnect_clean_iff` says that the client starts
clean just if neither happens, and `reconnect_garbled` has a response for each that is not found
because of three old bytes.
-/

set_option autoImplicit false

namespace ChwellCore
namespace Rpc

open Protocol (Message Parser serialize)
open Protocol.Parser (frame consumed)

/-- The messages that `on_message` has still to look at, in its calls for a connection. -/
def Proc.held (conn : ℕ) : Proc → Multiset (List Message)
  | .handling conn' messages => if conn' = conn then {messages} else 0
  | .answering conn' _ _ messages => if conn' = conn then {messages} else 0
  | .admitting _ _ _ _ | .inserting _ _ _ _ _ | .sending _ _ _ | .failing _ | .joining | .closing
  | .swapping | .notifying _ | .done => 0

/-- The bytes that a step delivers. -/
def Act.bytes : Act → Bytes
  | .receive _ data => data
  | _ => []

/-- The bytes that a step delivers for a connection. -/
def Act.bytesOf (conn : ℕ) : Act → Bytes
  | .receive conn' data => if conn' = conn then data else []
  | _ => []

/-- How many connections have been made, which is the number of the next one. -/
def connections (acts : List Act) : ℕ := acts.countP Act.opens

/-- No byte comes for another connection. -/
def OnlyFrom (conn : ℕ) (acts : List Act) : Prop := ∀ a ∈ acts, a.bytesOf conn = a.bytes

theorem Act.length_bytesOf_le (a : Act) (conn : ℕ) :
    (a.bytesOf conn).length ≤ a.bytes.length := by
  cases a with
  | receive conn' data =>
    rw [Act.bytesOf, Act.bytes]
    split
    · exact le_rfl
    · exact Nat.zero_le _
  | _ => exact le_rfl

theorem Act.bytesOf_eq_iff {a : Act} {conn : ℕ} :
    a.bytesOf conn = a.bytes ↔ a.bytes.length ≤ (a.bytesOf conn).length := by
  cases a with
  | receive conn' data =>
    rw [Act.bytesOf, Act.bytes]
    split
    · exact iff_of_true rfl le_rfl
    · rw [eq_comm, List.length_nil, Nat.le_zero, List.length_eq_zero_iff]
  | _ => exact iff_of_true rfl le_rfl

theorem length_bytesOf_le (conn : ℕ) (acts : List Act) :
    (acts.flatMap (Act.bytesOf conn)).length ≤ (acts.flatMap Act.bytes).length := by
  induction acts with
  | nil => exact le_rfl
  | cons a acts ih =>
    have hle := a.length_bytesOf_le conn
    simp only [List.flatMap_cons, List.length_append]
    omega

/-- The bytes of a connection are all there are just if they are as many. -/
theorem onlyFrom_iff {conn : ℕ} {acts : List Act} :
    OnlyFrom conn acts ↔
      (acts.flatMap Act.bytes).length ≤ (acts.flatMap (Act.bytesOf conn)).length := by
  induction acts with
  | nil => exact iff_of_true (fun _ h ↦ absurd h List.not_mem_nil) le_rfl
  | cons a acts ih =>
    have hone := a.length_bytesOf_le conn
    have hall := length_bytesOf_le conn acts
    rw [OnlyFrom, List.forall_mem_cons, Act.bytesOf_eq_iff, ← OnlyFrom, ih]
    simp only [List.flatMap_cons, List.length_append]
    omega

theorem OnlyFrom.flatMap_eq {conn : ℕ} {acts : List Act} (h : OnlyFrom conn acts) :
    acts.flatMap (Act.bytesOf conn) = acts.flatMap Act.bytes := List.flatMap_congr h

namespace World

variable {defaultTimeoutSeconds : Int32} {w w' : World} {a : Act} {acts acts' : List Act}

/-! ## The receive buffer -/

/-- `on_message` finds the frames of its buffer and what was read, and keeps the rest. -/
theorem receive_spec (w : World) (conn : ℕ) (data : Bytes) :
    ((Parser.fresh.feed (w.recvBuffer ++ data)).1, (w.receive conn data).recvBuffer) =
      frame.drain (w.recvBuffer ++ data) := by
  have hcut : (w.receive conn data).recvBuffer =
      cut (w.recvBuffer ++ data) (Parser.fresh.feed (w.recvBuffer ++ data)).1 := rfl
  obtain ⟨hle, hdrop⟩ := Parser.drain_eq_drop (w.recvBuffer ++ data)
  rw [hcut, (Parser.feed_fresh _).1, cut, if_pos hle, ← hdrop]

/-- Only `on_message` looks at the buffer. -/
theorem buffer_step (hs : Step w a w') :
    (∃ conn data, a = .receive conn data ∧ w' = w.receive conn data) ∨
      (a.bytes = [] ∧ w'.recvBuffer = w.recvBuffer ∧ w'.received = w.received) := by
  cases hs with
  | receive conn data => exact .inl ⟨conn, data, rfl, rfl⟩
  | _ => exact .inr ⟨rfl, rfl, rfl⟩

/-- **What is found in a run**: the frames of what was in the buffer and the bytes delivered, for
whatever connection. -/
theorem received_run (hrun : (system defaultTimeoutSeconds).Run w acts w')
    (hnone : frame.next w.recvBuffer = none) :
    (w'.received, w'.recvBuffer) =
      (w.received ++ (frame.drain (w.recvBuffer ++ acts.flatMap Act.bytes)).1,
        (frame.drain (w.recvBuffer ++ acts.flatMap Act.bytes)).2) := by
  induction hrun with
  | nil =>
    rw [List.flatMap_nil, List.append_nil, FrameDecoder.drain_of_none hnone, List.append_nil]
  | @snoc acts w₁ w₂ a hrun hlast ih =>
    obtain ⟨hrec, hbuf⟩ := Prod.mk.inj ih
    rw [List.flatMap_append, List.flatMap_singleton]
    rcases buffer_step (step_cases hlast) with ⟨conn, data, rfl, rfl⟩ | ⟨hbytes, hbuf', hrec'⟩
    · have hspec := receive_spec w₁ conn data
      have hmsgs : (w₁.receive conn data).received =
          w₁.received ++ (Parser.fresh.feed (w₁.recvBuffer ++ data)).1 := rfl
      show ((w₁.receive conn data).received, (w₁.receive conn data).recvBuffer) = _
      rw [← List.append_assoc, FrameDecoder.drain_append (_ ++ acts.flatMap Act.bytes), ← hbuf,
        Act.bytes, ← hspec, hmsgs, hrec, List.append_assoc]
    · rw [hbytes, List.append_nil, hbuf', hrec']
      exact ih

/-- The buffer never has a whole frame in it. -/
theorem next_recvBuffer (hrun : (system defaultTimeoutSeconds).Run fresh acts w) :
    frame.next w.recvBuffer = none := by
  obtain ⟨-, hbuf⟩ := Prod.mk.inj (received_run hrun Parser.frame_next_nil)
  rw [hbuf]
  exact FrameDecoder.next_drain_snd _

/-! ## Reconnecting -/

/-- **When a reconnect starts clean.**  Take any run, a `connect` after it, and any run after that.
The messages found since the `connect` are those of the bytes of the new connection, now and as long
as no others come, if and only if the receive buffer was empty when `connect` was called and no
other bytes have come since. -/
theorem reconnect_clean_iff {w₀ : World} (hrun : (system defaultTimeoutSeconds).Run fresh acts w₀)
    (hconnect : step defaultTimeoutSeconds w₀ .connect = some w)
    (hrun' : (system defaultTimeoutSeconds).Run w acts' w') :
    (∀ (more : List Act) (w'' : World), (system defaultTimeoutSeconds).Run w' more w'' →
      OnlyFrom (connections acts) more →
        w''.received = w.received ++
          (Parser.fresh.feed ((acts' ++ more).flatMap (Act.bytesOf (connections acts)))).1) ↔
      w₀.recvBuffer = [] ∧ OnlyFrom (connections acts) acts' := by
  generalize connections acts = conn
  have hnone := next_recvBuffer hrun
  have hbuf : w.recvBuffer = w₀.recvBuffer := by
    rcases buffer_step (step_cases hconnect) with ⟨conn, data, hact, -⟩ | ⟨-, hbuf, -⟩
    · cases hact
    · exact hbuf
  rw [← hbuf] at hnone ⊢
  have hfound : ∀ (more : List Act) (w'' : World),
      (system defaultTimeoutSeconds).Run w' more w'' → OnlyFrom conn more →
        w''.received = w.received ++ (frame.drain (w.recvBuffer ++ acts'.flatMap Act.bytes ++
          more.flatMap (Act.bytesOf conn))).1 := by
    intro more w'' hmore honly
    obtain ⟨hrec, -⟩ := Prod.mk.inj (received_run (hrun'.append hmore) hnone)
    rw [hrec, honly.flatMap_eq, List.flatMap_append, List.append_assoc]
  simp only [(Parser.feed_fresh _).1, List.flatMap_append]
  constructor
  · intro h
    -- one read more, of any bytes, tells what is in front of them by its length
    have hdrain : ∀ data,
        (frame.drain (w.recvBuffer ++ acts'.flatMap Act.bytes ++ data)).1 =
          (frame.drain (acts'.flatMap (Act.bytesOf conn) ++ data)).1 := by
      intro data
      have hstep : (system defaultTimeoutSeconds).Run w' [.receive conn data]
          (w'.receive conn data) := .single rfl
      have honly : OnlyFrom conn [.receive conn data] := List.forall_mem_singleton.2 (if_pos rfl)
      have hone : [Act.receive conn data].flatMap (Act.bytesOf conn) = data := by
        rw [List.flatMap_singleton, Act.bytesOf, if_pos rfl]
      have heq := (hfound _ _ hstep honly).symm.trans (h _ _ hstep honly)
      rw [hone] at heq
      exact List.append_cancel_left heq
    have hle := Parser.length_le_of_forall_drain hdrain
    have hbytes := length_bytesOf_le conn acts'
    rw [List.length_append] at hle
    exact ⟨List.length_eq_zero_iff.1 (by omega), onlyFrom_iff.2 (by omega)⟩
  · rintro ⟨hnil, honly⟩ more w'' hmore hmine
    rw [hfound more w'' hmore hmine, hnil, List.nil_append, honly.flatMap_eq]

/-- A connection that ends behind a whole frame, and the disconnect after it. -/
def wholeFrames : List Act :=
  [.connect, .receive 0 (serialize ⟨1, [0, 0, 0, 1]⟩), .take 0, .take 0, .disconnect, .wake 0,
    .join 1, .close 1, .swap 1, .return 1]

theorem reconnect_clean_iff_wholeFrames :
    ∃ w₀ w, (system 5).Run fresh wholeFrames w₀ ∧ step 5 w₀ .connect = some w ∧
      ∀ (more : List Act) (w'' : World), (system 5).Run (w.receive 1 [0, 1]) more w'' →
        OnlyFrom 1 more → w''.received = w.received ++
          (Parser.fresh.feed (([Act.receive 1 [0, 1]] ++ more).flatMap (Act.bytesOf 1))).1 := by
  obtain ⟨w₀, hrun, hsome, hnil⟩ : ∃ w₀, (system 5).Run fresh wholeFrames w₀ ∧
      (step 5 w₀ .connect).isSome = true ∧ w₀.recvBuffer = [] :=
    System.Run.exists_of_any (by decide +kernel)
  obtain ⟨w, hconnect⟩ := Option.isSome_iff_exists.1 hsome
  have hrun' : (system 5).Run w [.receive 1 [0, 1]] (w.receive 1 [0, 1]) := .single rfl
  exact ⟨w₀, w, hrun, hconnect, (reconnect_clean_iff hrun hconnect hrun').2
    ⟨hnil, List.forall_mem_singleton.2 rfl⟩⟩

/-- A connection that ends within the header of a frame, and the disconnect after it. -/
def cutFrame : List Act :=
  [.connect, .receive 0 [0, 1, 0], .take 0, .disconnect, .wake 0, .join 1, .close 1, .swap 1,
    .return 1]

/-- Three bytes of an older connection are enough for the response on the new one not to be found:
it is read as the end of the frame that was cut off, and as another beginning.  They may have been
left over, or they come late. -/
theorem reconnect_garbled :
    (¬ ∀ (acts acts' : List Act) (w₀ w w' : World), (system 5).Run fresh acts w₀ →
      step 5 w₀ .connect = some w → (system 5).Run w acts' w' → Act.connect ∉ acts' →
        w'.received = w.received ++
          (Parser.fresh.feed (acts'.flatMap (Act.bytesOf (connections acts)))).1) ∧
    ¬ ∀ (acts acts' : List Act) (w₀ w w' : World), (system 5).Run fresh acts w₀ →
      step 5 w₀ .connect = some w → w₀.recvBuffer = [] → (system 5).Run w acts' w' →
        Act.connect ∉ acts' → w'.received = w.received ++
          (Parser.fresh.feed (acts'.flatMap (Act.bytesOf (connections acts)))).1 := by
  constructor
  · intro h
    obtain ⟨w₀, hrun, w, hconnect, hne⟩ : ∃ w₀, (system 5).Run fresh cutFrame w₀ ∧
        ∃ w ∈ step 5 w₀ .connect, (w.receive 1 (serialize ⟨1, [0, 0, 0, 1]⟩)).received ≠
          w.received ++ (Parser.fresh.feed (serialize ⟨1, [0, 0, 0, 1]⟩)).1 :=
      System.Run.exists_of_any (by decide +kernel)
    have hstep : (system 5).Run w [.receive 1 (serialize ⟨1, [0, 0, 0, 1]⟩)]
        (w.receive 1 (serialize ⟨1, [0, 0, 0, 1]⟩)) := .single rfl
    exact hne (h _ _ w₀ w _ hrun hconnect hstep (by simp))
  · intro h
    obtain ⟨w₀, hrun, hnil, w, hconnect, hne⟩ : ∃ w₀, (system 5).Run fresh wholeFrames w₀ ∧
        w₀.recvBuffer = [] ∧ ∃ w ∈ step 5 w₀ .connect,
          ((w.receive 0 [0, 1, 0]).receive 1 (serialize ⟨1, [0, 0, 0, 1]⟩)).received ≠
            w.received ++ (Parser.fresh.feed (serialize ⟨1, [0, 0, 0, 1]⟩)).1 :=
      System.Run.exists_of_any (by decide +kernel)
    have hstep : (system 5).Run w [.receive 0 [0, 1, 0], .receive 1 (serialize ⟨1, [0, 0, 0, 1]⟩)]
        ((w.receive 0 [0, 1, 0]).receive 1 (serialize ⟨1, [0, 0, 0, 1]⟩)) :=
      .cons (T := system 5) rfl (.single rfl)
    exact hne (h _ _ w₀ w _ hrun hconnect hnil hstep (by simp))

/-! ## The loop of `on_message` -/

/-- The calls of `on_message` for a connection that are under way, with what they have still to look
at. -/
def underWay (w : World) (conn : ℕ) : Multiset (List Message) := Pool.total (Proc.held conn) w.procs

/-- The message of a connection that a step looks at. -/
def looksAt (w : World) (conn : ℕ) : Act → List Message
  | .take i =>
    match w.procs[i]? with
    | some (.handling conn' (msg :: _)) => if conn' = conn then [msg] else []
    | _ => []
  | _ => []

variable {i conn : ℕ} {p : Proc}

theorem underWay_put (h : w.procs[i]? = some p) (q : Proc) (conn : ℕ) :
    (w.put i q).underWay conn + p.held conn = w.underWay conn + q.held conn :=
  Pool.total_put (Proc.held conn) h q

theorem underWay_put_eq (h : w.procs[i]? = some p) {q : Proc} (hq : q.held conn = p.held conn) :
    (w.put i q).underWay conn = w.underWay conn := by
  have hput := underWay_put h q conn
  rw [hq] at hput
  exact add_right_cancel hput

theorem underWay_spawn (w : World) (q : Proc) :
    (w.spawn q).underWay conn = w.underWay conn + q.held conn := Pool.total_spawn _ _ _

theorem underWay_receive (w : World) (conn' : ℕ) (data : Bytes) (conn : ℕ) :
    (w.receive conn' data).underWay conn = w.underWay conn +
      (Proc.handling conn' (Parser.fresh.feed (w.recvBuffer ++ data)).1).held conn :=
  Pool.total_spawn _ _ _

/-- What a process of another connection has still to look at does not count. -/
theorem held_handling_of_ne {conn' : ℕ} (h : conn' ≠ conn) (messages : List Message) :
    (Proc.handling conn' messages).held conn = 0 := if_neg h

theorem held_handling_self (messages : List Message) :
    (Proc.handling conn messages).held conn = {messages} := if_pos rfl

theorem looksAt_take {msg : Message} {rest : List Message}
    (hp : w.procs[i]? = some (.handling conn (msg :: rest))) :
    w.looksAt conn (.take i) = [msg] := by
  simp only [looksAt, hp, if_pos]

/-- A turn of the loop looks at nothing when the messages are at their end, or of another
connection. -/
theorem looksAt_take_eq_nil {conn' : ℕ} {messages : List Message}
    (hp : w.procs[i]? = some (.handling conn' messages)) (h : conn' = conn → messages = []) :
    w.looksAt conn (.take i) = [] := by
  rcases messages with _ | ⟨msg, rest⟩
  · simp only [looksAt, hp]
  · have hne : conn' ≠ conn := fun hconn ↦ List.cons_ne_nil _ _ (h hconn)
    simp only [looksAt, hp, if_neg hne]

/-- A turn of the loop of another connection. -/
theorem underWay_put_of_ne {conn' : ℕ} {messages : List Message} {q : Proc}
    (hp : w.procs[i]? = some (.handling conn' messages)) (h : conn' ≠ conn)
    (hq : q.held conn = 0) : (w.put i q).underWay conn = w.underWay conn :=
  underWay_put_eq hp (hq.trans (held_handling_of_ne h messages).symm)

/-- **What a step does to the messages found on a connection**: `on_message` finds some, looks at
one, or returns, and nothing else touches them. -/
theorem underWay_step (hs : Step w a w') (conn : ℕ) :
    (∃ conn' data, a = .receive conn' data ∧ w' = w.receive conn' data) ∨
      (∃ i, a = .take i ∧ w.procs[i]? = some (.handling conn []) ∧
        w'.underWay conn + {[]} = w.underWay conn) ∨
      (∃ i msg rest, a = .take i ∧ w.procs[i]? = some (.handling conn (msg :: rest)) ∧
        w'.underWay conn + {msg :: rest} = w.underWay conn + {rest}) ∨
      (w.looksAt conn a = [] ∧ a.bytes = [] ∧ w'.underWay conn = w.underWay conn) := by
  cases hs with
  | receive conn' data => exact .inl ⟨conn', data, rfl, rfl⟩
  | @takeNone i conn' hp =>
    by_cases hconn : conn' = conn
    · subst hconn
      have hput := underWay_put hp .done conn'
      rw [held_handling_self] at hput
      exact .inr (.inl ⟨i, rfl, hp, hput.trans (add_zero _)⟩)
    · exact .inr (.inr (.inr ⟨looksAt_take_eq_nil hp fun _ ↦ rfl, rfl,
        underWay_put_of_ne hp hconn rfl⟩))
  | @takeSkip i conn' msg rest hp =>
    by_cases hconn : conn' = conn
    · subst hconn
      have hput := underWay_put hp (.handling conn' rest) conn'
      rw [held_handling_self, held_handling_self] at hput
      exact .inr (.inr (.inl ⟨i, msg, rest, rfl, hp, hput⟩))
    · exact .inr (.inr (.inr ⟨looksAt_take_eq_nil hp fun h ↦ absurd h hconn, rfl,
        underWay_put_of_ne hp hconn (held_handling_of_ne hconn rest)⟩))
  | @take i conn' msg rest id payload req hp hdec hreq =>
    by_cases hconn : conn' = conn
    · subst hconn
      have hput := underWay_put (w := { w with pendingRequests := w.pendingRequests.erase id }) hp
        (.answering conn' req.callback ⟨msg.cmd, payload⟩ rest) conn'
      rw [held_handling_self, Proc.held, if_pos rfl] at hput
      exact .inr (.inr (.inl ⟨i, msg, rest, rfl, hp, hput⟩))
    · exact .inr (.inr (.inr ⟨looksAt_take_eq_nil hp fun h ↦ absurd h hconn, rfl,
        underWay_put_of_ne (w := { w with pendingRequests := _ }) hp hconn (if_neg hconn)⟩))
  | connect hc | callRefused cmd data present timeout | wakeEnd now hc | expireEnd hc | wake now hc
  | expire hc => exact .inr (.inr (.inr ⟨rfl, rfl, rfl⟩))
  | call cmd data present timeout | disconnect | onDisconnect =>
    exact .inr (.inr (.inr ⟨rfl, rfl, (underWay_spawn { w with } _).trans (add_zero _)⟩))
  | permit hp | reject hp | insert now deadline hp | send sent hp | answer hp | failEnd hp | fail hp
  | join hp hc | close hp | swap hp | notify hp | «return» hp =>
    exact .inr (.inr (.inr ⟨rfl, rfl, underWay_put_eq (w := { w with }) hp rfl⟩))

/-- Where one turn of the loop leads. -/
theorem take_cases {msg : Message} {rest : List Message}
    (hp : w.procs[i]? = some (.handling conn (msg :: rest))) :
    (w.take i conn msg rest).underWay conn + {msg :: rest} = w.underWay conn + {rest} ∧
      ((w.take i conn msg rest).procs[i]? = some (.handling conn rest) ∨
        ∃ callback response, (w.take i conn msg rest).procs[i]? =
          some (.answering conn callback response rest)) := by
  have hskip := underWay_put hp (.handling conn rest) conn
  rw [held_handling_self, held_handling_self] at hskip
  rw [take]
  split
  · exact ⟨hskip, .inl (Pool.getElem?_put_self hp _)⟩
  · next id payload _ =>
    split
    · exact ⟨hskip, .inl (Pool.getElem?_put_self hp _)⟩
    · next req _ =>
      have htake := underWay_put (w := { w with pendingRequests := w.pendingRequests.erase id }) hp
        (.answering conn req.callback ⟨msg.cmd, payload⟩ rest) conn
      rw [held_handling_self, Proc.held, if_pos rfl] at htake
      exact ⟨htake, .inr ⟨_, _, Pool.getElem?_put_self hp _⟩⟩

theorem mem_underWay {messages : List Message}
    (hp : w.procs[i]? = some (.handling conn messages)) : messages ∈ w.underWay conn := by
  refine Multiset.mem_of_le (Pool.le_total (Proc.held conn) hp) ?_
  rw [held_handling_self]
  exact Multiset.mem_singleton_self _

theorem of_mem_ite_singleton {c : Prop} [Decidable c] {messages messages' : List Message}
    (h : messages ∈ if c then ({messages'} : Multiset (List Message)) else 0) :
    c ∧ messages = messages' := by
  split at h
  · next hc => exact ⟨hc, Multiset.mem_singleton.1 h⟩
  · exact absurd h (Multiset.notMem_zero _)

/-- What is under way belongs to a process at one of two points. -/
theorem of_mem_underWay {messages : List Message} (h : messages ∈ w.underWay conn) :
    ∃ i : ℕ, w.procs[i]? = some (Proc.handling conn messages) ∨
      ∃ callback response, w.procs[i]? = some (Proc.answering conn callback response messages) := by
  obtain ⟨p, hpool, hheld⟩ := (Pool.mem_total (Proc.held conn)).1 h
  obtain ⟨i, hp⟩ := List.mem_iff_getElem?.1 hpool
  refine ⟨i, ?_⟩
  cases p with
  | handling conn' messages' =>
    obtain ⟨rfl, rfl⟩ := of_mem_ite_singleton hheld
    exact .inl hp
  | answering conn' callback response messages' =>
    obtain ⟨rfl, rfl⟩ := of_mem_ite_singleton hheld
    exact .inr ⟨callback, response, hp⟩
  | _ => exact absurd hheld (Multiset.notMem_zero _)

end World

/-- A client whose reads of a connection come one after another, with the connections made, the
bytes read from each, and those of its messages that the loop of `on_message` has looked at. -/
structure Listener where
  world : World
  connections : ℕ
  stream : ℕ → Bytes
  processed : ℕ → List Message

namespace Listener

def fresh : Listener := ⟨.fresh, 0, fun _ ↦ [], fun _ ↦ []⟩

/-- A read of a connection.  The connection has been made, and its read before has ended. -/
def receive (x : Listener) (conn : ℕ) (data : Bytes) : Listener :=
  { x with
    world := x.world.receive conn data
    stream := Function.update x.stream conn (x.stream conn ++ data) }

/-- Another step of the client. -/
def move (x : Listener) (a : Act) (w : World) : Listener :=
  { x with
    world := w
    connections := x.connections + if a.opens then 1 else 0
    processed := fun conn ↦ x.processed conn ++ x.world.looksAt conn a }

/-- A step of the client. -/
def step (defaultTimeoutSeconds : Int32) (x : Listener) (a : Act) : Option Listener :=
  match a with
  | .receive conn data =>
    if conn < x.connections ∧ x.world.underWay conn = 0 then some (x.receive conn data) else none
  | a => (World.step defaultTimeoutSeconds x.world a).map (x.move a)

def system (defaultTimeoutSeconds : Int32) : System Listener Act :=
  System.ofPartial (step defaultTimeoutSeconds)

/-- Connections do not meet in the buffer: nothing is left in it when one is made, and what is read
then is read from the latest. -/
def Clean (x : Listener) : Act → Prop
  | .connect => x.world.recvBuffer = []
  | .receive conn _ => conn + 1 = x.connections
  | _ => True

instance : ∀ (x : Listener) (a : Act), Decidable (x.Clean a)
  | x, .connect => inferInstanceAs (Decidable (x.world.recvBuffer = []))
  | x, .receive conn _ => inferInstanceAs (Decidable (conn + 1 = x.connections))
  | _, .call _ _ _ _ | _, .permit _ _ | _, .insert _ _ | _, .send _ | _, .take _ | _, .answer _
  | _, .onDisconnect | _, .fail _ | _, .disconnect | _, .join _ | _, .close _ | _, .swap _
  | _, .notify _ | _, .return _ | _, .wake _ | _, .expire => isTrue trivial

variable {defaultTimeoutSeconds : Int32} {x x' : Listener} {a : Act} {acts : List Act} {conn : ℕ}

/-- A read that found no other of its connection under way, or a step of the client that is not a
read. -/
theorem step_cases (hs : step defaultTimeoutSeconds x a = some x') :
    (∃ conn data, a = .receive conn data ∧ conn < x.connections ∧ x.world.underWay conn = 0 ∧
      x' = x.receive conn data) ∨
    ∃ w, World.step defaultTimeoutSeconds x.world a = some w ∧
      (∀ conn data, a ≠ .receive conn data) ∧ x' = x.move a w := by
  cases a with
  | receive conn data =>
    simp only [step] at hs
    obtain ⟨⟨hmade, hidle⟩, hs⟩ := Option.ite_none_right_eq_some.1 hs
    exact .inl ⟨conn, data, rfl, hmade, hidle, (Option.some.inj hs).symm⟩
  | _ =>
    simp only [step, Option.map_eq_some_iff] at hs
    obtain ⟨w, hw, rfl⟩ := hs
    exact .inr ⟨w, hw, fun _ _ hdata ↦ (by cases hdata), rfl⟩

/-- What a client has come to, compared with the frames of the streams: the buffer is the end of the
latest stream, there is nothing yet of a connection that has not been made, and the messages of a
connection are looked at up to those of the read under way. -/
structure Listens (x : Listener) : Prop where
  tail : ∀ conn, conn + 1 = x.connections → x.world.recvBuffer = (frame.drain (x.stream conn)).2
  unmade : ∀ conn, x.connections ≤ conn → x.stream conn = []
  found : ∀ conn, (x.world.underWay conn = 0 ∧ x.processed conn = (frame.drain (x.stream conn)).1) ∨
    ∃ messages, x.world.underWay conn = {messages} ∧
      x.processed conn ++ messages = (frame.drain (x.stream conn)).1

theorem Listens.of_idle (h : x.Listens) (hidle : x.world.underWay conn = 0) :
    x.processed conn = (frame.drain (x.stream conn)).1 := by
  rcases h.found conn with ⟨-, hprocessed⟩ | ⟨messages, hbusy, -⟩
  · exact hprocessed
  · rw [hbusy] at hidle
    exact absurd hidle (Multiset.singleton_ne_zero _)

/-- What is under way, when one of the calls of `on_message` is known. -/
theorem Listens.of_mem (h : x.Listens) {messages : List Message}
    (hmem : messages ∈ x.world.underWay conn) :
    x.world.underWay conn = {messages} ∧
      x.processed conn ++ messages = (frame.drain (x.stream conn)).1 := by
  rcases h.found conn with ⟨hidle, -⟩ | ⟨messages', hbusy, hfound⟩
  · rw [hidle] at hmem
    exact absurd hmem (Multiset.notMem_zero _)
  · rw [hbusy] at hmem ⊢
    obtain rfl := Multiset.mem_singleton.1 hmem
    exact ⟨rfl, hfound⟩

theorem stream_receive_self (x : Listener) (conn : ℕ) (data : Bytes) :
    (x.receive conn data).stream conn = x.stream conn ++ data := Function.update_self _ _ _

theorem stream_receive_of_ne (x : Listener) {conn conn' : ℕ} (h : conn' ≠ conn) (data : Bytes) :
    (x.receive conn data).stream conn' = x.stream conn' := Function.update_of_ne h _ _

/-- A read of the latest connection goes on where the buffer ends. -/
theorem Listens.receive (h : x.Listens) (hlatest : conn + 1 = x.connections)
    (hidle : x.world.underWay conn = 0) (data : Bytes) : (x.receive conn data).Listens := by
  obtain ⟨hmsgs, htail⟩ := Prod.mk.inj (World.receive_spec x.world conn data)
  rw [h.tail conn hlatest] at hmsgs htail
  have hway := World.underWay_receive x.world conn data conn
  rw [World.held_handling_self, hidle, zero_add, h.tail conn hlatest] at hway
  have hdrain := FrameDecoder.drain_append (d := frame) (x.stream conn) data
  refine ⟨fun conn' hconn' ↦ ?_, fun conn' hconn' ↦ ?_, fun conn' ↦ ?_⟩
  · obtain rfl : conn' = conn := by
      have hlast : conn' + 1 = x.connections := hconn'
      omega
    rw [stream_receive_self, hdrain]
    exact htail
  · have hne : conn' ≠ conn := by
      have hmade : x.connections ≤ conn' := hconn'
      omega
    rw [stream_receive_of_ne x hne]
    exact h.unmade conn' hconn'
  · by_cases hne : conn' = conn
    · subst hne
      rw [stream_receive_self, hdrain, ← h.of_idle hidle]
      exact .inr ⟨_, hway, congrArg (x.processed conn' ++ ·) hmsgs⟩
    · have hother := World.underWay_receive x.world conn data conn'
      rw [World.held_handling_of_ne (Ne.symm hne), add_zero] at hother
      have hfound := h.found conn'
      rw [← hother] at hfound
      rwa [stream_receive_of_ne x hne]

/-- A step that is not a read makes a connection, or looks at a message, or neither. -/
theorem Listens.move (h : x.Listens) {w : World} (hs : World.Step x.world a w)
    (hread : ∀ conn data, a ≠ .receive conn data)
    (hconnect : a.opens = true → x.world.recvBuffer = []) : (x.move a w).Listens := by
  have hbuf : w.recvBuffer = x.world.recvBuffer := by
    rcases World.buffer_step hs with ⟨conn, data, hdata, -⟩ | ⟨-, hbuf, -⟩
    · exact absurd hdata (hread conn data)
    · exact hbuf
  refine ⟨fun conn hconn ↦ ?_, fun conn hconn ↦ h.unmade conn ?_, fun conn ↦ ?_⟩
  · show w.recvBuffer = (frame.drain (x.stream conn)).2
    rw [hbuf]
    have hlast : conn + 1 = x.connections + if a.opens then 1 else 0 := hconn
    split at hlast
    · next hopens =>
      rw [h.unmade conn (by omega), FrameDecoder.drain_of_none Parser.frame_next_nil]
      exact hconnect hopens
    · exact h.tail conn hlast
  · exact (Nat.le_add_right _ _).trans hconn
  · show (w.underWay conn = 0 ∧ x.processed conn ++ x.world.looksAt conn a = _) ∨ ∃ messages,
      w.underWay conn = {messages} ∧
        x.processed conn ++ x.world.looksAt conn a ++ messages = (frame.drain (x.stream conn)).1
    rcases World.underWay_step hs conn with ⟨conn', data, hdata, -⟩ | ⟨i, rfl, hp, hway⟩ |
      ⟨i, msg, rest, rfl, hp, hway⟩ | ⟨hnone, -, hway⟩
    · exact absurd hdata (hread conn' data)
    · obtain ⟨hbusy, hfound⟩ := h.of_mem (World.mem_underWay hp)
      rw [hbusy] at hway
      rw [World.looksAt_take_eq_nil hp fun _ ↦ rfl]
      exact .inl ⟨add_right_cancel (hway.trans (zero_add _).symm), hfound⟩
    · obtain ⟨hbusy, hfound⟩ := h.of_mem (World.mem_underWay hp)
      rw [hbusy, add_comm] at hway
      rw [World.looksAt_take hp]
      refine .inr ⟨rest, add_left_cancel hway, ?_⟩
      rw [List.append_assoc]
      exact hfound
    · rw [hnone, List.append_nil, hway]
      exact h.found conn

theorem Listens.step (h : x.Listens) (hclean : x.Clean a)
    (hs : step defaultTimeoutSeconds x a = some x') : x'.Listens := by
  rcases step_cases hs with ⟨conn, data, rfl, -, hidle, rfl⟩ | ⟨w, hw, hread, rfl⟩
  · exact h.receive hclean hidle data
  · refine h.move (World.step_cases hw) hread fun hopens ↦ ?_
    cases a with
    | connect => exact hclean
    | _ => cases hopens

theorem listens_run (hrun : ((system defaultTimeoutSeconds).guarded Clean).Run fresh acts x) :
    x.Listens := by
  have hnil := FrameDecoder.drain_of_none Parser.frame_next_nil
  refine hrun.invariant (T := (system defaultTimeoutSeconds).guarded Clean) (motive := Listens)
    (fun _ _ _ h hstep ↦ h.step hstep.1 hstep.2)
    ⟨fun conn hconn ↦ ?_, fun conn hconn ↦ rfl, fun conn ↦ .inl ⟨rfl, ?_⟩⟩
  · cases hconn
  · show [] = (frame.drain []).1
    rw [hnil]

theorem run_of_step (hs : step defaultTimeoutSeconds x a = some x') (hclean : x.Clean a) :
    ((system defaultTimeoutSeconds).guarded Clean).Run x [a] x' :=
  .single (T := (system defaultTimeoutSeconds).guarded Clean) ⟨hclean, hs⟩

variable (defaultTimeoutSeconds)

/-- One turn of the loop, with its callback if there is one. -/
theorem exists_run_turn {i : ℕ} {msg : Message} {rest : List Message}
    (hp : x.world.procs[i]? = some (.handling conn (msg :: rest))) :
    ∃ acts x', ((system defaultTimeoutSeconds).guarded Clean).Run x acts x' ∧
      x'.world.procs[i]? = some (.handling conn rest) ∧ x'.stream = x.stream ∧
      x'.world.underWay conn + {msg :: rest} = x.world.underWay conn + {rest} := by
  have htake : step defaultTimeoutSeconds x (.take i) =
      some (x.move (.take i) (x.world.take i conn msg rest)) := by
    simp only [step, World.step, hp, Option.map_some]
  obtain ⟨hway, hnext⟩ := World.take_cases hp
  rcases hnext with hrest | ⟨callback, response, hans⟩
  · exact ⟨_, _, run_of_step htake trivial, hrest, rfl, hway⟩
  · generalize x.world.take i conn msg rest = w at htake hans hway
    have hanswer : step defaultTimeoutSeconds (x.move (.take i) w) (.answer i) =
        some ((x.move (.take i) w).move (.answer i)
          ((w.settle callback true response).put i (.handling conn rest))) := by
      simp only [step, World.step, move, hans, Option.map_some]
    refine ⟨_, _, (run_of_step htake trivial).append (run_of_step hanswer trivial),
      Pool.getElem?_put_self hans _, rfl, ?_⟩
    rw [← hway]
    exact congrArg (· + _) (World.underWay_put_eq (w := w.settle _ _ _) hans rfl)

/-- A call of `on_message` that is under way goes on to its end. -/
theorem exists_run_done {i : ℕ} {messages : List Message}
    (hp : x.world.procs[i]? = some (.handling conn messages)) :
    ∃ acts x', ((system defaultTimeoutSeconds).guarded Clean).Run x acts x' ∧
      x'.stream = x.stream ∧ x'.world.underWay conn + {messages} = x.world.underWay conn := by
  induction messages generalizing x with
  | nil =>
    have htake : step defaultTimeoutSeconds x (.take i) =
        some (x.move (.take i) (x.world.put i .done)) := by
      simp only [step, World.step, hp, Option.map_some]
    have hput := World.underWay_put hp .done conn
    rw [World.held_handling_self] at hput
    exact ⟨_, _, run_of_step htake trivial, rfl, hput.trans (add_zero _)⟩
  | cons msg rest ih =>
    obtain ⟨acts₁, x₁, hrun₁, hp₁, hstream₁, hway₁⟩ := exists_run_turn defaultTimeoutSeconds hp
    obtain ⟨acts₂, x₂, hrun₂, hstream₂, hway₂⟩ := ih hp₁
    refine ⟨_, x₂, hrun₁.append hrun₂, hstream₂.trans hstream₁, ?_⟩
    rw [← hway₂, add_right_comm] at hway₁
    exact add_right_cancel hway₁

/-- Whatever is under way for a connection, `on_message` comes to its end. -/
theorem exists_run_still {messages : List Message} (h : x.world.underWay conn = {messages}) :
    ∃ acts x', ((system defaultTimeoutSeconds).guarded Clean).Run x acts x' ∧
      x'.world.underWay conn = 0 ∧ x'.stream = x.stream := by
  have hend : ∀ (y : Listener) (i : ℕ), y.stream = x.stream → y.world.underWay conn = {messages} →
      y.world.procs[i]? = some (.handling conn messages) →
      ∃ acts x', ((system defaultTimeoutSeconds).guarded Clean).Run y acts x' ∧
        x'.world.underWay conn = 0 ∧ x'.stream = x.stream := by
    intro y i hstream hway hy
    obtain ⟨acts, x', hrun, hstream', hway'⟩ := exists_run_done defaultTimeoutSeconds hy
    rw [hway] at hway'
    exact ⟨acts, x', hrun, add_right_cancel (hway'.trans (zero_add _).symm),
      hstream'.trans hstream⟩
  have hmem : messages ∈ x.world.underWay conn := h ▸ Multiset.mem_singleton_self _
  obtain ⟨i, hp | ⟨callback, response, hp⟩⟩ := World.of_mem_underWay hmem
  · exact hend x i rfl h hp
  · have hanswer : step defaultTimeoutSeconds x (.answer i) =
        some (x.move (.answer i) ((x.world.settle callback true response).put i
          (.handling conn messages))) := by
      simp only [step, World.step, hp, Option.map_some]
    have hway : ((x.world.settle callback true response).put i
        (.handling conn messages)).underWay conn = x.world.underWay conn :=
      World.underWay_put_eq (w := x.world.settle callback true response) hp rfl
    obtain ⟨acts, x', hrun, hidle, hstream⟩ :=
      hend (x.move (.answer i) _) i rfl (hway.trans h) (Pool.getElem?_put_self hp _)
    exact ⟨_, x', (run_of_step hanswer trivial).append hrun, hidle, hstream⟩

end Listener

/-- **Both ends and the streaming parser.**  However the stream of a connection is cut into reads,
the server has processed the messages that one parser finds in the whole stream, each once and in
order, when it is not in a read, and its buffer is what that parser has left; in a read, it has
processed all but those that the read has still to process, and the read comes to its end.  Each
message processed has been answered by one response message, in every state of the run, just if what
the handlers have to say fits in every step.

The client has looked at the messages that one parser finds in the stream of each connection, in the
same sense, if the connections do not meet in its buffer. -/
theorem framing_agrees {Conn : Type} [DecidableEq Conn] :
    (∀ (ops : List (ServerOp Conn)) (s : RpcServer Conn), RpcServer.system.Run .fresh ops s →
      (∀ conn,
        (s.reading conn = none → s.processed conn = (Parser.fresh.feed (s.stream conn)).1 ∧
          s.buffer conn = (Parser.fresh.feed (s.stream conn)).2.tail) ∧
        ∀ r, s.reading conn = some r →
          s.processed conn ++ r.left = (Parser.fresh.feed (s.stream conn)).1 ∧
          ∃ ops' s', RpcServer.system.Run s ops' s' ∧ s'.reading conn = none ∧
            s'.stream conn = s.stream conn) ∧
      (RpcServer.system.Along (fun _ _ (t : RpcServer Conn) ↦ t.Answered) .fresh ops ↔
        (RpcServer.system.guarded RpcServer.ResponseFits).Run .fresh ops s)) ∧
    ∀ (defaultTimeoutSeconds : Int32) (acts : List Act) (x : Listener),
      ((Listener.system defaultTimeoutSeconds).guarded Listener.Clean).Run .fresh acts x → ∀ conn,
        (conn + 1 = x.connections →
          x.world.recvBuffer = (Parser.fresh.feed (x.stream conn)).2.tail) ∧
        (x.world.underWay conn = 0 →
          x.processed conn = (Parser.fresh.feed (x.stream conn)).1) ∧
        (x.world.underWay conn ≠ 0 → ∃ messages, x.world.underWay conn = {messages} ∧
          x.processed conn ++ messages = (Parser.fresh.feed (x.stream conn)).1 ∧
          ∃ acts' x',
            ((Listener.system defaultTimeoutSeconds).guarded Listener.Clean).Run x acts' x' ∧
            x'.world.underWay conn = 0 ∧ x'.stream = x.stream) := by
  constructor
  · intro ops s hrun
    refine ⟨fun conn ↦ ?_, RpcServer.answered_iff hrun⟩
    have hserves := RpcServer.serves_run hrun conn
    have hfeed := Parser.feed_spec Parser.fresh (s.stream conn)
    refine ⟨fun hidle ↦ ?_, fun r hbusy ↦ ⟨?_, ?_⟩⟩
    · exact Prod.mk.inj ((hserves.idle hidle).trans hfeed.symm)
    · exact (Prod.mk.inj ((hserves.busy r hbusy).2.trans hfeed.symm)).1
    · obtain ⟨s', hrun', hidle, hstream⟩ :=
        RpcServer.exists_run_idle hbusy fun _ ↦ .returns []
      exact ⟨_, s', hrun', hidle, hstream⟩
  · intro defaultTimeoutSeconds acts x hrun conn
    have hlistens := Listener.listens_run hrun
    obtain ⟨hmsgs, htail⟩ := Parser.feed_fresh (x.stream conn)
    refine ⟨fun hlatest ↦ (hlistens.tail conn hlatest).trans htail.symm,
      fun hidle ↦ (hlistens.of_idle hidle).trans hmsgs.symm, fun hbusy ↦ ?_⟩
    rcases hlistens.found conn with ⟨hidle, -⟩ | ⟨messages, hway, hfound⟩
    · exact absurd hidle hbusy
    · exact ⟨messages, hway, hfound.trans hmsgs.symm,
        Listener.exists_run_still defaultTimeoutSeconds hway⟩

/-- Two connections, the first of which has its request cut within the header. -/
def twoClients : List (ServerOp ℕ) :=
  [.registerMethod 1 true, .connect 0, .connect 1, .receive 0 [0, 1, 0], .finish 0,
    .receive 1 (serialize ⟨2, [9]⟩), .receive 0 [4, 0, 0, 0, 7, 0],
    .process 0 fun _ ↦ .throws (lit "no"), .process 1 fun _ ↦ .returns [], .finish 1, .finish 0]

/-- A response that comes in two pieces, on a second connection. -/
def twoPieces : List Act :=
  World.wholeFrames ++ [.connect, .receive 1 [0, 1, 0], .take 2, .receive 1 [4, 0, 0, 0, 7],
    .take 3]

theorem framing_agrees_twoClients :
    (∃ s, RpcServer.system.Run .fresh twoClients s ∧ s.stream 0 = [0, 1, 0, 4, 0, 0, 0, 7, 0] ∧
      s.processed 0 = (Parser.fresh.feed [0, 1, 0, 4, 0, 0, 0, 7, 0]).1 ∧
      s.buffer 0 = (Parser.fresh.feed [0, 1, 0, 4, 0, 0, 0, 7, 0]).2.tail) ∧
    ∃ x, ((Listener.system 5).guarded Listener.Clean).Run .fresh twoPieces x ∧
      x.world.underWay 1 ≠ 0 ∧
      ∃ messages, x.processed 1 ++ messages = (Parser.fresh.feed (x.stream 1)).1 := by
  constructor
  · obtain ⟨s, hrun, hstream, hidle⟩ : ∃ s, RpcServer.system.Run .fresh twoClients s ∧
        s.stream 0 = [0, 1, 0, 4, 0, 0, 0, 7, 0] ∧ (s.reading 0).isNone = true :=
      System.Run.exists_of_any (by decide +kernel)
    obtain ⟨hprocessed, hbuffer⟩ :=
      ((framing_agrees.1 _ s hrun).1 0).1 (Option.isNone_iff_eq_none.1 hidle)
    rw [hstream] at hprocessed hbuffer
    exact ⟨s, hrun, hstream, hprocessed, hbuffer⟩
  · obtain ⟨x, hrun, hbusy⟩ : ∃ x, ((Listener.system 5).guarded Listener.Clean).Run .fresh
        twoPieces x ∧ x.world.underWay 1 ≠ 0 :=
      System.Run.exists_of_any_guarded (by decide +kernel)
    obtain ⟨messages, -, hfound, -⟩ := ((@framing_agrees ℕ _).2 5 _ x hrun 1).2.2 hbusy
    exact ⟨x, hrun, hbusy, messages, hfound⟩

/-- A request with an id, before it is processed. -/
def oneRequest : List (ServerOp ℕ) :=
  [.registerMethod 1 true, .connect 0, .receive 0 (serialize ⟨1, [0, 0, 0, 7]⟩)]

/-- A handler may have one byte too much to say: with the request id, its response has 65536 bytes
and is announced with none. -/
theorem response_too_long :
    ¬ ∀ (ops : List (ServerOp ℕ)) (s : RpcServer ℕ), RpcServer.system.Run .fresh ops s →
      s.Answered := by
  intro h
  obtain ⟨s, hrun, hmethod, r, hbusy, hleft⟩ : ∃ s, RpcServer.system.Run .fresh oneRequest s ∧
      s.methods.lookup 1 = some true ∧ ∃ r ∈ s.reading 0, r.left = [⟨1, [0, 0, 0, 7]⟩] :=
    System.Run.exists_of_any (by decide +kernel)
  obtain ⟨messages, left⟩ := r
  obtain rfl := hleft
  let handler : Bytes → HandlerOutcome := fun _ ↦ .returns (List.replicate 65532 0)
  obtain ⟨s', hs⟩ : ∃ s', RpcServer.step s (.process 0 handler) = some s' := by
    simp only [RpcServer.step, Option.mem_def.1 hbusy]
    exact ⟨_, rfl⟩
  have hfits := (RpcServer.answered_step_iff (h _ s hrun) hs).1 (h _ s' (hrun.snoc hs))
  simp only [RpcServer.ResponseFits, Option.mem_def.1 hbusy] at hfits
  have hlen := hfits handler (if_pos hmethod)
  have hroom : room [0, 0, 0, 7] = 65531 := rfl
  rw [HandlerOutcome.response, List.length_replicate, hroom] at hlen
  omega

end Rpc
end ChwellCore
