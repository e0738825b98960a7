import ChwellCore.Net.TcpServer

/-!
# What the callbacks are told

A connection is in one place at any time: with the accept thread, in the queue of the `IoService`,
with one thread, or done (`Located`).  What the callbacks have been told of it follows it on its
way: that it is there, then what its peer has sent, piece by piece, and at last that it is gone
(`Story`).  `callbacks_ordered` says so of every connection of every run, and `connections_exact`
that `connections_` is the set of those that are not gone.

The connections are started in the order in which they were accepted, and a thread that has started
one is with it until its end.  So no more read loops are under way than there are threads
(`started_in_order`).
-/

set_option autoImplicit false

namespace ChwellCore
namespace Net

/-- Where a connection is. -/
inductive Place where
  | accepting
  | announcing
  | queue
  | served
  | done
deriving DecidableEq, Repr

/-- The place of a connection in some stage. -/
def ConnStage.place : ConnStage → Place
  | .accepted => .accepting
  | .announced => .announcing
  | .queued => .queue
  | .looping | .reading | .closing | .erased => .served
  | .gone => .done

/-- The close callback has not taken the connection out. -/
def ConnStage.listed (stage : ConnStage) : Bool := stage ≠ .erased ∧ stage ≠ .gone

/-- Three places are those of one stage each. -/
theorem ConnStage.eq_of_place {stage : ConnStage} {pl : Place} (h : stage.place = pl) :
    match pl with
    | .accepting => stage = .accepted
    | .announcing => stage = .announced
    | .queue => stage = .queued
    | .served | .done => True := by
  subst h
  cases stage <;> trivial

/-- The connection that the accept thread has. -/
def Acceptor.conns : Acceptor → List ℕ
  | .holding c | .announced c => [c]
  | .polling | .notifying | .exited => []

namespace TcpServer

open TcpConnection (readBufferSize)

variable {s t : TcpServer} {a : ServerAct} {acts : List ServerAct} {workerThreads : ℕ}

/-- Where the connections are. -/
def places (s : TcpServer) : List Place := s.conns.map fun conn ↦ conn.stage.place

/-! ## Every connection is in one place -/

/-- How often connection `c` is at a place, as far as those who work there know. -/
def held (s : TcpServer) (c : ℕ) : Place → ℕ
  | .accepting => if s.acceptor = .holding c then 1 else 0
  | .announcing => if s.acceptor = .announced c then 1 else 0
  | .queue => s.queue.count c
  | .served => s.workers.count (.serving c)
  | .done => if s.places[c]? = some .done then 1 else 0

/-- A connection is where it is, and nowhere else. -/
def Located (s : TcpServer) : Prop :=
  ∀ c pl, s.held c pl = if s.places[c]? = some pl then 1 else 0

/-- A thread that is with no connection before and after has none to give. -/
theorem count_put_of_ne {p q : IoWorker} {i : ℕ} (hi : s.workers[i]? = some p) {r : IoWorker}
    (hp : p ≠ r) (hq : q ≠ r) : (s.workers.put i q).count r = s.workers.count r := by
  have h := Pool.count_put hi q r
  rwa [if_neg hp, if_neg hq] at h

theorem places_putConn {c : ℕ} {conn conn' : TcpConnection} (hc : s.conns[c]? = some conn)
    (hplace : conn'.stage.place = conn.stage.place) : (s.putConn c conn').places = s.places :=
  Pool.map_put hc hplace

theorem getElem?_places {c : ℕ} {conn : TcpConnection} (hc : s.conns[c]? = some conn) :
    s.places[c]? = some conn.stage.place := by
  rw [places, List.getElem?_map, hc, Option.map_some]

/-- A connection goes from one place to another. -/
theorem getElem?_places_putConn {c : ℕ} {conn conn' : TcpConnection} (hc : s.conns[c]? = some conn)
    (k : ℕ) : (s.putConn c conn').places[k]? =
      if k = c then some conn'.stage.place else s.places[k]? :=
  Pool.getElem?_map_put _ hc conn' k

theorem getElem?_places_enlist (s : TcpServer) (k : ℕ) :
    s.enlist.places[k]? = if k = s.conns.length then some .accepting else s.places[k]? :=
  Pool.getElem?_map_spawn _ s.conns .new k

/-- Where nothing moves. -/
theorem Located.of_eq (h : s.Located) (hplaces : t.places = s.places)
    (hheld : ∀ k pl, pl ≠ .done → t.held k pl = s.held k pl) : t.Located := by
  intro k pl
  by_cases hpl : pl = .done
  · rw [hpl]
    rfl
  · rw [hheld k pl hpl, h k pl, hplaces]

/-- Where connection `c` moves: who has it then has got it from who had it before. -/
theorem Located.move (h : s.Located) {c : ℕ} {conn : TcpConnection}
    (hc : s.conns[c]? = some conn) (conn' : TcpConnection)
    (hplaces : t.places = (s.putConn c conn').places)
    (hheld : ∀ k pl, pl ≠ .done →
      t.held k pl + (if c = k ∧ conn.stage.place = pl then 1 else 0) =
        s.held k pl + if c = k ∧ conn'.stage.place = pl then 1 else 0) : t.Located := by
  intro k pl
  by_cases hpl : pl = .done
  · rw [hpl]
    rfl
  · have hk := hheld k pl hpl
    rw [h k pl] at hk
    rw [hplaces, getElem?_places_putConn hc]
    by_cases hkc : k = c
    · subst hkc
      rw [getElem?_places hc] at hk
      simp only [true_and, if_true, Option.some_inj] at hk ⊢
      omega
    · simpa only [hkc, Ne.symm hkc, false_and, if_false, add_zero] using hk

theorem located_new (workerThreads : ℕ) : (new workerThreads).Located := by
  intro c pl
  have hnone : (new workerThreads).places[c]? = none := rfl
  rw [hnone]
  cases pl with
  | served =>
    refine List.count_eq_zero.2 fun hmem ↦ ?_
    cases List.eq_of_mem_replicate hmem
  | _ => rfl

/-- A thread without a connection moves on, or the accept thread does. -/
theorem Located.of_acceptor (h : s.Located) (hplaces : t.places = s.places)
    (hacceptor : t.acceptor.conns = [] ∧ s.acceptor.conns = [] ∨ t.acceptor = s.acceptor)
    (hqueue : t.queue = s.queue)
    (hworkers : ∀ c, t.workers.count (.serving c) = s.workers.count (.serving c)) : t.Located := by
  refine h.of_eq hplaces fun k pl hpl ↦ ?_
  cases pl with
  | queue => rw [held, held, hqueue]
  | served => exact hworkers k
  | done => exact absurd rfl hpl
  | _ =>
    rw [held, held]
    rcases hacceptor with ⟨ht, hs⟩ | heq
    · rw [if_neg, if_neg]
      · rintro he
        rw [he] at hs
        cases hs
      · rintro he
        rw [he] at ht
        cases ht
    · rw [heq]

theorem Located.place_eq (h : s.Located) {c : ℕ} {conn : TcpConnection}
    (hc : s.conns[c]? = some conn) {p : Place}
    (hpos : 0 < s.held c p) : conn.stage.place = p := by
  rw [h c p, getElem?_places hc] at hpos
  split at hpos
  · next heq => exact Option.some.inj heq
  · exact absurd hpos (Nat.lt_irrefl 0)

section

variable {c : ℕ} {conn : TcpConnection}

/-- What the accept thread holds has just been accepted. -/
theorem Located.stage_accepted (h : s.Located) (hc : s.conns[c]? = some conn)
    (hacc : s.acceptor = .holding c) : conn.stage = .accepted :=
  ConnStage.eq_of_place (h.place_eq hc (p := .accepting) (by simp [held, hacc]))

theorem Located.stage_announced (h : s.Located) (hc : s.conns[c]? = some conn)
    (hacc : s.acceptor = .announced c) : conn.stage = .announced :=
  ConnStage.eq_of_place (h.place_eq hc (p := .announcing) (by simp [held, hacc]))

theorem Located.stage_queued (h : s.Located) (hc : s.conns[c]? = some conn) {rest : List ℕ}
    (hq : s.queue = c :: rest) : conn.stage = .queued :=
  ConnStage.eq_of_place (h.place_eq hc (p := .queue) (by simp [held, hq]))

end

theorem Located.step (h : s.Located) (hs : Step s a t) : t.Located := by
  cases hs with
  | accept hacc =>
    intro k pl
    rw [getElem?_places_enlist]
    have hk := h k pl
    have hnone : s.places[s.conns.length]? = none := by
      rw [places, List.getElem?_map, List.getElem?_eq_none (Nat.le_refl _), Option.map_none]
    by_cases hkc : k = s.conns.length
    · rw [if_pos hkc]
      rw [hkc, hnone] at hk
      cases pl with
      | done => rw [held, getElem?_places_enlist, if_pos hkc]
      | accepting => simp [held, enlist, hkc]
      | announcing => simp [held, enlist]
      | _ => simpa [held, enlist, hkc] using hk
    · rw [if_neg hkc]
      cases pl with
      | done => rw [held, getElem?_places_enlist, if_neg hkc]
      | _ => simpa [held, enlist, hacc, Ne.symm hkc] using hk
  | @announce c conn closes hacc hc =>
    refine h.move hc (conn.announce closes) rfl fun k pl hpl ↦ ?_
    rw [h.stage_accepted hc hacc]
    cases pl <;> simp [held, putConn, tell, TcpConnection.announce, ConnStage.place, hacc] at hpl ⊢
  | @post c conn hacc hc hfree =>
    refine h.move hc { conn with stage := .queued } rfl fun k pl hpl ↦ ?_
    rw [h.stage_announced hc hacc]
    cases pl <;> simp [held, putConn, ConnStage.place, hacc, List.count_singleton] at hpl ⊢
  | notifyNone hacc hw =>
    exact h.of_acceptor rfl (.inl ⟨rfl, by rw [hacc]; rfl⟩) rfl fun _ ↦ rfl
  | notifySome hacc hi =>
    exact h.of_acceptor rfl (.inl ⟨rfl, by rw [hacc]; rfl⟩) rfl fun c ↦
      count_put_of_ne hi (by simp) (by simp)
  | leave hacc howner =>
    exact h.of_acceptor rfl (.inl ⟨rfl, by rw [hacc]; rfl⟩) rfl fun _ ↦ rfl
  | arrive data hc hp | hangUp hc hp | breakOff hc =>
    exact h.of_acceptor (places_putConn hc rfl) (.inr rfl) rfl fun _ ↦ rfl
  | quit hi hstop | idle hi hfree hstop hq | doze hi | wake hi =>
    exact h.of_acceptor rfl (.inr rfl) rfl fun c ↦ count_put_of_ne hi (by simp) (by simp)
  | @start i c conn rest hi hfree hstop hq hc =>
    refine h.move hc { conn with stage := .looping } rfl fun k pl hpl ↦ ?_
    rw [h.stage_queued hc hq]
    have hput := Pool.count_put hi (.serving c) (.serving k)
    cases pl with
    | served => simpa [held, put, putConn, ConnStage.place] using hput
    | done => exact absurd rfl hpl
    | queue => simp [held, put, putConn, ConnStage.place, hq, List.count_cons]
    | accepting | announcing =>
      simp only [held, ConnStage.place, reduceCtorEq, and_false, if_false]
      rfl
  | @check i c conn hi hc hat =>
    refine h.of_acceptor (places_putConn hc ?_) (.inr rfl) rfl fun _ ↦ rfl
    rw [hat]
    cases conn.closed <;> rfl
  | @read i c n conn closes hi hc hat hpos hbuf hlen =>
    refine h.of_acceptor (places_putConn hc ?_) (.inr rfl) rfl fun _ ↦ rfl
    rw [hat]
    rfl
  | readEnd hi hc hat hend | erase hi hc hat =>
    refine h.of_acceptor (places_putConn hc ?_) (.inr rfl) rfl fun _ ↦ rfl
    rw [hat]
    rfl
  | @disconnect i c conn hi hc hat =>
    refine h.move hc { conn with stage := .gone } rfl fun k pl hpl ↦ ?_
    have hput := Pool.count_put hi .locking (.serving k)
    rw [hat]
    cases pl with
    | served => simpa [held, put, putConn, tell, ConnStage.place] using hput
    | done => exact absurd rfl hpl
    | accepting | announcing | queue =>
      simp only [held, ConnStage.place, reduceCtorEq, and_false, if_false]
      rfl
  | stop howner => exact h.of_acceptor rfl (.inr rfl) rfl fun _ ↦ rfl
  | join howner hacc => exact h.of_acceptor rfl (.inr rfl) rfl fun _ ↦ rfl
  | notifyAll howner =>
    refine h.of_acceptor rfl (.inr rfl) rfl fun c ↦ ?_
    show (s.workers.map wakeUp).countP (· == _) = s.workers.countP (· == _)
    rw [List.countP_map]
    congr 1
    funext p
    cases p <;> rfl

/-! ## The order in which they come -/

/-- The connections that have been started, those that wait for it, and the one that the accept
thread has, are all of them in the order in which they were accepted. -/
def InOrder (s : TcpServer) : Prop :=
  s.started ++ s.queue ++ s.acceptor.conns = List.range s.conns.length

theorem length_putConn (s : TcpServer) (c : ℕ) (conn : TcpConnection) :
    (s.putConn c conn).conns.length = s.conns.length := List.length_set

theorem InOrder.step (h : s.InOrder) (hs : Step s a t) : t.InOrder := by
  rw [InOrder] at h ⊢
  cases hs with
  | accept hacc =>
    rw [hacc] at h
    simp only [enlist, Pool.spawn, List.length_append, List.length_singleton, List.range_succ, ← h]
    simp [Acceptor.conns]
  | announce closes hacc hc =>
    rw [hacc] at h
    exact h.trans (congrArg _ (length_putConn s _ _).symm)
  | post hacc hc hfree =>
    rw [hacc] at h
    refine Eq.trans ?_ (h.trans (congrArg _ (length_putConn s _ _).symm))
    simp [putConn, Acceptor.conns]
  | notifyNone hacc hw | notifySome hacc hi | leave hacc howner =>
    rw [hacc] at h
    exact h
  | start hi hfree hstop hq hc =>
    rw [hq] at h
    refine Eq.trans ?_ (h.trans (congrArg _ (length_putConn s _ _).symm))
    simp [putConn, put]
  | arrive | hangUp | breakOff | check | read | readEnd | erase | disconnect =>
    exact h.trans (congrArg _ (length_putConn s _ _).symm)
  | quit | idle | doze | wake | stop | join | notifyAll => exact h

/-! ## What is told of a connection -/

/-- The callbacks that were about connection `c`. -/
def about (s : TcpServer) (c : ℕ) : List ServerEvent := s.events.filter fun e ↦ e.conn = c

/-- **The story of a connection**: it is there, its peer has sent this and that, it is gone.  What
the pieces amount to is what has arrived and been read. -/
def Story (c : ℕ) (conn : TcpConnection) (es : List ServerEvent) : Prop :=
  ∃ chunks : List Bytes, (∀ d ∈ chunks, d ≠ [] ∧ d.length ≤ readBufferSize) ∧
    chunks.flatten ++ conn.inbox = conn.arrived ∧ (conn.stage = .accepted → chunks = []) ∧
      es = (if conn.stage = .accepted then [] else [.connected c]) ++ chunks.map (.message c) ++
        if conn.stage = .gone then [.disconnected c] else []

/-- Why a read loop ends. -/
def Over (conn : TcpConnection) : Prop := conn.AtEnd ∨ conn.cut = true

theorem cut_of_talking {conn : TcpConnection} (hp : conn.peer = .talking) (h : Over conn) :
    conn.cut = true := by
  rcases h with (⟨hhung, -⟩ | hbroken) | hcut
  · rw [hp] at hhung
    cases hhung
  · rw [hp] at hbroken
    cases hbroken
  · exact hcut

/-- What holds of a connection, and of the callbacks that were about it. -/
structure Told (c : ℕ) (conn : TcpConnection) (es : List ServerEvent) : Prop where
  story : Story c conn es
  cut : conn.closed = true → conn.cut = true ∨ conn.stage = .erased ∨ conn.stage = .gone
  ending : conn.stage = .closing ∨ conn.stage = .erased ∨ conn.stage = .gone → Over conn

/-- Every connection has been told of as it should. -/
structure AllTold (s : TcpServer) : Prop where
  told : ∀ c conn, s.conns[c]? = some conn → Told c conn (s.about c)
  known : ∀ e ∈ s.events, e.conn < s.conns.length

/-- A connection moves on and nothing is told, or what is told is about it. -/
theorem AllTold.move (h : s.AllTold) {c : ℕ} {conn conn' : TcpConnection}
    (hc : s.conns[c]? = some conn) (hconns : t.conns = s.conns.put c conn') {es : List ServerEvent}
    (hevents : t.events = s.events ++ es) (hes : ∀ e ∈ es, e.conn = c)
    (htold : Told c conn (s.about c) → Told c conn' (s.about c ++ es)) : t.AllTold where
  told := by
    have habout : ∀ k, t.about k = s.about k ++ if k = c then es else [] := by
      intro k
      rw [about, hevents, List.filter_append]
      congr 1
      split
      · next hk => exact List.filter_eq_self.2 fun e he ↦ by simp [hes e he, hk]
      · next hk => exact List.filter_eq_nil_iff.2 fun e he ↦ by simp [hes e he, Ne.symm hk]
    rw [hconns]
    refine Pool.forall_put (fun k r hne hk ↦ ?_) ?_
    · rw [habout, if_neg hne, List.append_nil]
      exact h.told k r hk
    · rw [habout, if_pos rfl]
      exact htold (h.told c conn hc)
  known := by
    intro e he
    rw [hconns, Pool.put, List.length_set]
    rw [hevents, List.mem_append] at he
    rcases he with he | he
    · exact h.known e he
    · rw [hes e he]
      exact (List.getElem?_eq_some_iff.1 hc).1

/-- The same where nothing is told. -/
theorem AllTold.quiet (h : s.AllTold) {c : ℕ} {conn conn' : TcpConnection}
    (hc : s.conns[c]? = some conn) (hconns : t.conns = s.conns.put c conn')
    (hevents : t.events = s.events)
    (htold : Told c conn (s.about c) → Told c conn' (s.about c)) : t.AllTold := by
  have hnone : t.events = s.events ++ [] := by rw [hevents, List.append_nil]
  refine h.move hc hconns hnone (fun _ he ↦ absurd he List.not_mem_nil) ?_
  rwa [List.append_nil]

theorem allTold_new (workerThreads : ℕ) : (new workerThreads).AllTold where
  told _ _ h := by cases h
  known _ h := by cases h

theorem Told.cut_of_stage {c : ℕ} {conn : TcpConnection} {es : List ServerEvent}
    (h : Told c conn es) (hclosed : conn.closed = true)
    (hstage : conn.stage ≠ .erased ∧ conn.stage ≠ .gone) : conn.cut = true :=
  (h.cut hclosed).resolve_right fun he ↦ he.elim hstage.1 hstage.2

/-- A connection goes to a stage that is neither the first nor the last. -/
theorem Told.stage {c : ℕ} {conn : TcpConnection} {es : List ServerEvent} (h : Told c conn es)
    (hfrom : conn.stage ≠ .accepted ∧ conn.stage ≠ .gone) {stage : ConnStage} {closed : Bool}
    (hto : stage ≠ .accepted ∧ stage ≠ .gone)
    (hcut : closed = true → conn.cut = true ∨ stage = .erased)
    (hover : stage = .closing ∨ stage = .erased → Over conn) :
    Told c { conn with stage := stage, closed := closed } es where
  story := by
    obtain ⟨chunks, hchunks, hbytes, -, hes⟩ := h.story
    rw [if_neg hfrom.1, if_neg hfrom.2] at hes
    refine ⟨chunks, hchunks, hbytes, fun he ↦ absurd he hto.1, ?_⟩
    rw [if_neg hto.1, if_neg hto.2]
    exact hes
  cut hclosed := (hcut hclosed).imp_right .inl
  ending := by
    rintro (he | he | he)
    · exact hover (.inl he)
    · exact hover (.inr he)
    · exact absurd he hto.2

theorem AllTold.step (h : s.AllTold) (hl : s.Located) (hs : Step s a t) : t.AllTold := by
  cases hs with
  | accept hacc =>
    refine ⟨?_, fun e he ↦ ?_⟩
    · refine Pool.forall_spawn h.told ⟨⟨[], ?_, rfl, fun _ ↦ rfl, ?_⟩, (fun h ↦ by cases h),
      fun h ↦ by rcases h with h | h | h <;> cases h⟩
      · exact fun _ hd ↦ absurd hd List.not_mem_nil
      · refine List.filter_eq_nil_iff.2 fun e he ↦ ?_
        simpa using Nat.ne_of_lt (h.known e he)
    · rw [enlist, Pool.spawn, List.length_append]
      exact Nat.lt_add_right _ (h.known e he)
  | @announce c conn closes hacc hc =>
    have hstage := hl.stage_accepted hc hacc
    refine h.move hc rfl rfl (fun e he ↦ List.mem_singleton.1 he ▸ rfl) fun htold ↦ ?_
    obtain ⟨chunks, hchunks, hbytes, hnone, hes⟩ := htold.story
    obtain rfl := hnone hstage
    rw [if_pos hstage, hstage] at hes
    refine ⟨⟨[], hchunks, hbytes, (fun h ↦ by cases h), ?_⟩, fun hcut ↦ .inl hcut, ?_⟩
    · rw [hes]
      rfl
    · rintro (he | he | he) <;> cases he
  | @post c conn hacc hc hfree =>
    have hstage := hl.stage_announced hc hacc
    exact h.quiet hc rfl rfl fun htold ↦ htold.stage (by simp [hstage]) (by simp)
      (fun hclosed ↦ .inl (htold.cut_of_stage hclosed (by simp [hstage]))) (by simp)
  | @start i c conn rest hi hfree hstop hq hc =>
    have hstage := hl.stage_queued hc hq
    exact h.quiet hc rfl rfl fun htold ↦ htold.stage (by simp [hstage]) (by simp)
      (fun hclosed ↦ .inl (htold.cut_of_stage hclosed (by simp [hstage]))) (by simp)
  | @arrive c conn data hc hp =>
    refine h.quiet hc rfl rfl ?_
    rintro ⟨⟨chunks, hchunks, hbytes, hnone, hes⟩, hcut, hover⟩
    refine ⟨⟨chunks, hchunks, ?_, hnone, hes⟩, hcut, fun hend ↦ ?_⟩
    · rw [← hbytes, List.append_assoc]
    · have hcut := cut_of_talking hp (hover hend)
      exact .inr hcut
  | @hangUp c conn hc hp =>
    refine h.quiet hc rfl rfl fun htold ↦ ⟨htold.story, htold.cut, fun hend ↦ ?_⟩
    have hcut := cut_of_talking hp (htold.ending hend)
    exact .inr hcut
  | @breakOff c conn hc =>
    exact h.quiet hc rfl rfl fun htold ↦ ⟨htold.story, htold.cut, fun _ ↦ .inl (.inr rfl)⟩
  | @check i c conn hi hc hat =>
    refine h.quiet hc rfl rfl fun htold ↦ ?_
    have hcut : conn.closed = true → conn.cut = true := fun hclosed ↦
      htold.cut_of_stage hclosed (by simp [hat])
    refine htold.stage (by simp [hat]) (by split <;> simp) (fun hclosed ↦ .inl (hcut hclosed)) ?_
    intro he
    cases hclosed : conn.closed
    · simp [hclosed] at he
    · exact .inr (hcut hclosed)
  | @read i c n conn closes hi hc hat hpos hbuf hlen =>
    refine h.move hc rfl rfl (fun e he ↦ List.mem_singleton.1 he ▸ rfl) fun htold ↦ ?_
    obtain ⟨chunks, hchunks, hbytes, -, hes⟩ := htold.story
    refine ⟨⟨chunks ++ [conn.inbox.take n], fun d hd ↦ ?_, ?_, (fun h ↦ by cases h), ?_⟩,
      fun hclosed ↦ ?_, ?_⟩
    · rcases List.mem_append.1 hd with hd | hd
      · exact hchunks d hd
      · rw [List.mem_singleton.1 hd, List.length_take]
        refine ⟨fun hnil ↦ ?_, (Nat.min_le_left _ _).trans hbuf⟩
        have := congrArg List.length hnil
        rw [List.length_take, List.length_nil] at this
        omega
    · rw [List.flatten_append, List.flatten_singleton, List.append_assoc]
      exact (congrArg _ (List.take_append_drop n conn.inbox)).trans hbytes
    · rw [hes, hat]
      simp [TcpConnection.take]
    · left
      refine Bool.or_eq_true_iff.2 ((Bool.or_eq_true_iff.1 hclosed).imp_left fun hclosed ↦ ?_)
      exact htold.cut_of_stage hclosed (by simp [hat])
    · rintro (he | he | he) <;> cases he
  | @readEnd i c conn hi hc hat hend =>
    refine h.quiet hc rfl rfl fun htold ↦ htold.stage (by simp [hat]) (by simp) (fun hclosed ↦ ?_)
      fun _ ↦ .inl hend
    exact .inl (htold.cut_of_stage hclosed (by simp [hat]))
  | @erase i c conn hi hc hat =>
    refine h.quiet hc rfl rfl fun htold ↦ htold.stage (by simp [hat]) (by simp) (fun _ ↦ .inr rfl)
      fun _ ↦ htold.ending (.inl hat)
  | @disconnect i c conn hi hc hat =>
    refine h.move hc rfl rfl (fun e he ↦ List.mem_singleton.1 he ▸ rfl) fun htold ↦ ?_
    obtain ⟨chunks, hchunks, hbytes, -, hes⟩ := htold.story
    refine ⟨⟨chunks, hchunks, hbytes, (fun h ↦ by cases h), ?_⟩, fun _ ↦ .inr (.inr rfl),
      fun _ ↦ htold.ending (.inr (.inl hat))⟩
    rw [hes, hat]
    simp
  | notifyNone | notifySome | leave | quit | idle | doze | wake | stop | join | notifyAll =>
    exact ⟨h.told, h.known⟩

/-! ## The connections of the server -/

/-- `connections_` is what it should be. -/
structure Exact (s : TcpServer) : Prop where
  nodup : s.connections.Nodup
  mem : ∀ c, c ∈ s.connections ↔ (s.conns.map fun conn ↦ conn.stage.listed)[c]? = some true

theorem exact_new (workerThreads : ℕ) : (new workerThreads).Exact :=
  ⟨List.nodup_nil, fun c ↦ ⟨fun h ↦ absurd h List.not_mem_nil, fun h ↦ by cases h⟩⟩

/-- A connection goes on and stays where it is. -/
theorem Exact.putConn (h : s.Exact) {c : ℕ} {conn conn' : TcpConnection}
    (hc : s.conns[c]? = some conn) (hconns : t.conns = s.conns.put c conn')
    (hlisted : conn'.stage.listed = conn.stage.listed)
    (hconnections : t.connections = s.connections) : t.Exact := by
  refine ⟨hconnections ▸ h.nodup, fun k ↦ ?_⟩
  rw [hconnections, hconns, Pool.map_put (g := fun conn ↦ conn.stage.listed) hc hlisted]
  exact h.mem k

theorem Exact.step (h : s.Exact) (hl : s.Located) (hs : Step s a t) : t.Exact := by
  cases hs with
  | accept hacc =>
    have hnew : s.conns.length ∉ s.connections := by
      rw [h.mem, List.getElem?_map, List.getElem?_eq_none (Nat.le_refl _)]
      intro h
      cases h
    refine ⟨?_, fun k ↦ ?_⟩
    · refine List.Nodup.append h.nodup (List.nodup_singleton _) ?_
      rwa [List.disjoint_singleton]
    · rw [enlist, Pool.getElem?_map_spawn, List.mem_append, List.mem_singleton, h.mem]
      by_cases hk : k = s.conns.length
      · simp [hk, TcpConnection.new, ConnStage.listed]
      · simp [hk]
  | @announce c conn closes hacc hc =>
    exact h.putConn hc rfl (by rw [hl.stage_accepted hc hacc]; rfl) rfl
  | @post c conn hacc hc hfree =>
    exact h.putConn hc rfl (by rw [hl.stage_announced hc hacc]; rfl) rfl
  | @start i c conn rest hi hfree hstop hq hc =>
    exact h.putConn hc rfl (by rw [hl.stage_queued hc hq]; rfl) rfl
  | arrive data hc hp | hangUp hc hp | breakOff hc => exact h.putConn hc rfl rfl rfl
  | @check i c conn hi hc hat =>
    refine h.putConn hc rfl ?_ rfl
    rw [hat]
    cases conn.closed <;> rfl
  | read closes hi hc hat hpos hbuf hlen | readEnd hi hc hat hend | disconnect hi hc hat =>
    refine h.putConn hc rfl ?_ rfl
    rw [hat]
    rfl
  | @erase i c conn hi hc hat =>
    refine ⟨h.nodup.erase c, fun k ↦ ?_⟩
    show k ∈ s.connections.erase c ↔ ((s.conns.put c _).map fun conn ↦ conn.stage.listed)[k]? = _
    rw [h.nodup.mem_erase_iff, h.mem, Pool.getElem?_map_put _ hc]
    by_cases hk : k = c
    · simp [hk, ConnStage.listed]
    · simp [hk]
  | notifyNone | notifySome | leave | quit | idle | doze | wake | stop | join | notifyAll =>
    exact ⟨h.nodup, h.mem⟩

/-! ## Every run -/

/-- What holds between steps. -/
structure Sound (workerThreads : ℕ) (s : TcpServer) : Prop where
  located : s.Located
  inOrder : s.InOrder
  told : s.AllTold
  exact : s.Exact
  count : s.workers.length = workerThreads

theorem sound_step (h : Sound workerThreads s) (hs : s.step a = some t) :
    Sound workerThreads t := by
  have hstep := step_cases hs
  refine ⟨h.located.step hstep, h.inOrder.step hstep, h.told.step h.located hstep,
    h.exact.step h.located hstep, ?_⟩
  rw [← h.count]
  cases hstep with
  | notifySome | quit | idle | start | doze | wake | disconnect => exact List.length_set
  | notifyAll => exact List.length_map _
  | _ => rfl

theorem sound_run (hrun : system.Run (new workerThreads) acts s) : Sound workerThreads s :=
  hrun.invariant (fun _ _ _ ↦ sound_step)
    ⟨located_new _, rfl, allTold_new _, exact_new _, List.length_replicate⟩

/-- **Callbacks come in order.**  In every run the callbacks about a connection are
`connection_cb_`, then `message_cb_` with what its peer has sent, in one or more bytes at a time and
up to the size of the buffer, then `disconnect_cb_`, each of the two others once; and when a
connection is gone, nothing that its peer has sent was left out, unless it broke or a callback had
closed it. -/
theorem callbacks_ordered (hrun : system.Run (new workerThreads) acts s) (c : ℕ)
    (conn : TcpConnection) (hc : s.conns[c]? = some conn) :
    Story c conn (s.about c) ∧
      (conn.stage = .gone → (conn.peer = .hungUp ∧ conn.inbox = []) ∨ conn.peer = .broken ∨
        conn.cut = true) := by
  have htold := (sound_run hrun).told.told c conn hc
  exact ⟨htold.story, fun hgone ↦ or_assoc.1 (htold.ending (.inr (.inr hgone)))⟩

/-- **`connections_` is exact**: in every run it has each connection that has been accepted and not
taken out by its close callback, once, and nothing else. -/
theorem connections_exact (hrun : system.Run (new workerThreads) acts s) :
    s.connections.Nodup ∧ ∀ c, c ∈ s.connections ↔
      ∃ conn, s.conns[c]? = some conn ∧ conn.stage ≠ .erased ∧ conn.stage ≠ .gone := by
  have h := (sound_run hrun).exact
  refine ⟨h.nodup, fun c ↦ ?_⟩
  rw [h.mem, List.getElem?_map, Option.map_eq_some_iff]
  simp [ConnStage.listed]

/-- The connections whose read loop is under way. -/
def served (s : TcpServer) : List ℕ :=
  (List.range s.conns.length).filter fun c ↦ s.places[c]? = some .served

/-- **Connections are started in order, and at most so many at a time.**  In every run the read
loops have been started in the order in which the connections were accepted, each once, and no more
are under way than there are threads. -/
theorem started_in_order (hrun : system.Run (new workerThreads) acts s) :
    s.started <+: List.range s.conns.length ∧ s.served.length ≤ workerThreads := by
  have h := sound_run hrun
  refine ⟨⟨s.queue ++ s.acceptor.conns, (List.append_assoc _ _ _).symm.trans h.inOrder⟩, ?_⟩
  -- each of them has a thread of its own
  have hsub : (s.served.map IoWorker.serving).Subset s.workers := by
    intro p hp
    obtain ⟨c, hc, rfl⟩ := List.mem_map.1 hp
    have hplace := h.located c .served
    rw [if_pos (by simpa using (List.mem_filter.1 hc).2)] at hplace
    exact List.count_pos_iff.1 (Nat.lt_of_lt_of_eq Nat.one_pos hplace.symm)
  have hnodup : (s.served.map IoWorker.serving).Nodup :=
    (List.nodup_range.filter _).map fun c c' he ↦ by cases he; rfl
  have hle := (List.subperm_of_subset hnodup hsub).length_le
  rwa [List.length_map, h.count] at hle

/-! ## A connection comes and goes -/

/-- One thread serves a connection from beginning to end, and another one has been accepted. -/
def session : List ServerAct :=
  [.accept, .announce false, .post, .notifyOne none, .look 0, .check 0, .accept,
    .arrive 0 [1, 2, 3], .read 0 2 false, .hangUp 0, .check 0, .read 0 1 false, .check 0,
    .readEnd 0, .announce false, .erase 0, .disconnect 0]

theorem callbacks_ordered_session :
    ∃ s conn, system.Run (new 1) session s ∧ s.conns[0]? = some conn ∧ conn.stage = .gone ∧
      Story 0 conn (s.about 0) ∧ conn.inbox = [] := by
  obtain ⟨s, hrun, conn, hc, hgone, htalk, hcut⟩ : ∃ s, system.Run (new 1) session s ∧
      ∃ conn ∈ s.conns[0]?, conn.stage = .gone ∧ conn.peer ≠ .broken ∧ conn.cut = false :=
    System.Run.exists_of_any (by decide +kernel)
  obtain ⟨hstory, hover⟩ := callbacks_ordered hrun 0 conn hc
  refine ⟨s, conn, hrun, hc, hgone, hstory, ?_⟩
  rcases hover hgone with ⟨-, hinbox⟩ | hbroken | hcut'
  · exact hinbox
  · exact absurd hbroken htalk
  · rw [hcut] at hcut'
    cases hcut'

theorem connections_exact_session :
    ∃ s, system.Run (new 1) session s ∧ ∀ c, c ∈ s.connections ↔
      ∃ conn, s.conns[c]? = some conn ∧ conn.stage ≠ .erased ∧ conn.stage ≠ .gone := by
  obtain ⟨s, hrun, -⟩ : ∃ s, system.Run (new 1) session s ∧ s.connections = [1] :=
    System.Run.exists_of_any (by decide +kernel)
  exact ⟨s, hrun, (connections_exact hrun).2⟩

theorem started_in_order_session :
    ∃ s, system.Run (new 1) session s ∧ s.started <+: List.range s.conns.length := by
  obtain ⟨s, hrun, -⟩ : ∃ s, system.Run (new 1) session s ∧ s.started = [0] :=
    System.Run.exists_of_any (by decide +kernel)
  exact ⟨s, hrun, (started_in_order hrun).1⟩

end TcpServer

end Net
end ChwellCore
