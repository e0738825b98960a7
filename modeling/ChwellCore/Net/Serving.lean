import ChwellCore.Lib.Progress
import ChwellCore.Net.Callbacks

/-!
# Who is served

A thread that is in the read loop of a connection does nothing else, so a connection may have to
wait until another one ends.  It waits for nothing else: as long as a thread of the `IoService`
sleeps, there are no more connections in its queue than threads on their way to it and a
`notify_one` that has still to be called (`Alert`).

Left to itself a server that has not been stopped comes to rest.  Then each connection is gone, or
its peer has nothing to say; only where this is so of as many as there are threads, the others wait
in the queue (`settles`). -/

set_option autoImplicit false

namespace ChwellCore
namespace Net

/-- How many calls of `notify_one` are still to come. -/
def Acceptor.notifies : Acceptor → ℕ
  | .notifying => 1
  | .holding _ | .announced _ | .polling | .exited => 0

/-- How much the accept thread has to do before it polls. -/
def Acceptor.rank : Acceptor → ℕ
  | .holding _ => 5
  | .announced _ => 4
  | .notifying => 3
  | .polling | .exited => 0

/-- How much a thread has to do before it sleeps or leaves. -/
def IoWorker.rank : IoWorker → ℕ
  | .serving _ => 3
  | .locking => 2
  | .dozing => 1
  | .waiting | .exited => 0

/-- How far a connection is from its end. -/
def ConnStage.rank : ConnStage → ℕ
  | .accepted => 9
  | .announced => 8
  | .queued => 7
  | .looping => 5
  | .reading => 4
  | .closing => 3
  | .erased => 2
  | .gone => 0

/-- A byte that has arrived is worth a turn of the loop. -/
def TcpConnection.rank (conn : TcpConnection) : ℕ := conn.stage.rank + 2 * conn.inbox.length

/-- The read loop waits for a peer that says nothing. -/
def TcpConnection.Silent (conn : TcpConnection) : Prop :=
  conn.stage = .reading ∧ conn.peer = .talking ∧ conn.inbox = []

namespace TcpServer

variable {s t : TcpServer} {a : ServerAct} {acts : List ServerAct} {workerThreads : ℕ}

/-- How many threads are on their way to the queue. -/
def coming (s : TcpServer) : ℕ := s.workers.count .locking

/-- Nobody sleeps through what there is to do, until the server is stopped. -/
structure Alert (s : TcpServer) : Prop where
  exited : .exited ∈ s.workers → s.ioStopped = true
  left : s.acceptor = .exited → s.owner ≠ .inUse
  stopped : s.ioStopped = true → s.owner ≠ .inUse
  dozing : .dozing ∈ s.workers → s.queue = []
  alert : s.ioStopped = false → .waiting ∈ s.workers →
    s.queue.length ≤ s.acceptor.notifies + s.coming

theorem alert_new (workerThreads : ℕ) : (new workerThreads).Alert where
  exited := fun h ↦ by cases List.eq_of_mem_replicate h
  left := fun h ↦ by cases h
  stopped := fun h ↦ by cases h
  dozing := fun _ ↦ rfl
  alert := fun _ h ↦ by cases List.eq_of_mem_replicate h

/-- A thread moves on, and where it goes is in order. -/
theorem Alert.move (h : s.Alert) {i : ℕ} {p q : IoWorker} (hi : s.workers[i]? = some p)
    (hworkers : t.workers = s.workers.put i q) (howner : t.owner = s.owner)
    (hstopped : t.ioStopped = s.ioStopped)
    (hleft : t.acceptor = .exited → s.acceptor = .exited)
    (hexited : q = .exited → s.ioStopped = true)
    (hdozing : q = .dozing ∨ .dozing ∈ s.workers → t.queue = [])
    (halert : s.ioStopped = false → q = .waiting ∨ .waiting ∈ s.workers →
      t.queue.length + (if p = .locking then 1 else 0) ≤
        t.acceptor.notifies + s.coming + if q = .locking then 1 else 0) : t.Alert where
  exited := by
    intro hmem
    rw [hworkers] at hmem
    rw [hstopped]
    exact (Pool.mem_put hmem).elim (fun he ↦ hexited he.symm) h.exited
  left hacc := howner ▸ h.left (hleft hacc)
  stopped := by
    rw [hstopped, howner]
    exact h.stopped
  dozing hmem := hdozing ((Pool.mem_put (hworkers ▸ hmem)).imp Eq.symm id)
  alert hstop hmem := by
    have hle := halert (hstopped ▸ hstop) ((Pool.mem_put (hworkers ▸ hmem)).imp Eq.symm id)
    have hcount := Pool.count_put hi q .locking
    rw [coming] at hle ⊢
    rw [hworkers]
    omega

theorem Alert.step (h : s.Alert) (hs : Step s a t) : t.Alert := by
  cases hs with
  | accept hacc =>
    refine ⟨h.exited, (fun h ↦ by cases h), h.stopped, h.dozing, fun hstop hmem ↦ ?_⟩
    have := h.alert hstop hmem
    rwa [hacc] at this
  | announce closes hacc hc =>
    refine ⟨h.exited, (fun h ↦ by cases h), h.stopped, h.dozing, fun hstop hmem ↦ ?_⟩
    have := h.alert hstop hmem
    rwa [hacc] at this
  | post hacc hc hfree =>
    refine ⟨h.exited, (fun h ↦ by cases h), h.stopped, fun hmem ↦ absurd hmem hfree,
      fun hstop hmem ↦ ?_⟩
    have := h.alert hstop hmem
    rw [hacc] at this
    simp only [putConn, Acceptor.notifies, coming, List.length_append,
      List.length_singleton] at this ⊢
    omega
  | notifyNone hacc hw =>
    exact ⟨h.exited, (fun h ↦ by cases h), h.stopped, h.dozing, fun _ hmem ↦ absurd hmem hw⟩
  | @notifySome i hacc hi =>
    refine h.move hi rfl rfl rfl (fun h ↦ by cases h) (fun h ↦ by cases h) ?_ fun hstop _ ↦ ?_
    · exact fun hd ↦ h.dozing (hd.resolve_left (fun h ↦ by cases h))
    · have := h.alert hstop (List.mem_of_getElem? hi)
      rw [hacc] at this
      simp [put, Acceptor.notifies] at this ⊢
      omega
  | leave hacc howner =>
    refine ⟨h.exited, fun _ ↦ howner, h.stopped, h.dozing, fun hstop hmem ↦ ?_⟩
    have := h.alert hstop hmem
    rwa [hacc] at this
  | @quit i hi hstop =>
    refine h.move hi rfl rfl rfl id (fun _ ↦ hstop) ?_ fun hfalse ↦ ?_
    · exact fun hd ↦ h.dozing (hd.resolve_left (fun h ↦ by cases h))
    · rw [hstop] at hfalse
      cases hfalse
  | @idle i hi hfree hstop hq =>
    refine h.move hi rfl rfl rfl id (fun h ↦ by cases h) (fun _ ↦ hq) fun _ _ ↦ ?_
    have hpos : 0 < s.coming := List.count_pos_iff.2 (List.mem_of_getElem? hi)
    simp [put, hq]
    omega
  | @start i c conn rest hi hfree hstop hq hc =>
    refine h.move hi rfl rfl rfl id (fun h ↦ by cases h) ?_ fun _ hmem ↦ ?_
    · exact fun hd ↦ absurd (hd.resolve_left (fun h ↦ by cases h)) hfree
    · have := h.alert hstop (hmem.resolve_left (fun h ↦ by cases h))
      rw [hq] at this
      simpa [put, putConn] using this
  | @doze i hi =>
    refine h.move hi rfl rfl rfl id (fun h ↦ by cases h) ?_ fun _ _ ↦ ?_
    · exact fun hd ↦ h.dozing (hd.resolve_left (fun h ↦ by cases h))
    · simp [put, h.dozing (List.mem_of_getElem? hi)]
  | @wake i hi =>
    refine h.move hi rfl rfl rfl id (fun h ↦ by cases h) ?_ fun hstop _ ↦ ?_
    · exact fun hd ↦ h.dozing (hd.resolve_left (fun h ↦ by cases h))
    · have := h.alert hstop (List.mem_of_getElem? hi)
      simp [put] at this ⊢
      omega
  | @disconnect i c conn hi hc hat =>
    refine h.move hi rfl rfl rfl id (fun h ↦ by cases h) ?_ fun hstop hmem ↦ ?_
    · exact fun hd ↦ h.dozing (hd.resolve_left (fun h ↦ by cases h))
    · have := h.alert hstop (hmem.resolve_left (fun h ↦ by cases h))
      simp [put, putConn, tell] at this ⊢
      omega
  | arrive | hangUp | breakOff | check | read | readEnd | erase =>
    exact ⟨h.exited, h.left, h.stopped, h.dozing, h.alert⟩
  | stop howner =>
    exact ⟨h.exited, (fun _ h ↦ by cases h), (fun _ h ↦ by cases h), h.dozing, h.alert⟩
  | join howner hacc =>
    exact ⟨fun _ ↦ rfl, (fun _ h ↦ by cases h), (fun _ h ↦ by cases h), h.dozing,
      (fun h ↦ by cases h)⟩
  | notifyAll howner =>
    have hkeep : ∀ p, p ≠ .locking → p ∈ s.workers.map wakeUp → p ∈ s.workers := by
      intro p hp hmem
      obtain ⟨q, hq, rfl⟩ := List.mem_map.1 hmem
      cases q with
      | waiting => exact absurd rfl hp
      | _ => exact hq
    refine ⟨fun hmem ↦ h.exited (hkeep _ (by simp) hmem), (fun _ h ↦ by cases h),
      (fun _ h ↦ by cases h), fun hmem ↦ h.dozing (hkeep _ (by simp) hmem), fun _ hmem ↦ ?_⟩
    obtain ⟨q, -, hq⟩ := List.mem_map.1 hmem
    cases q <;> cases hq

/-! ## Coming to rest -/

/-- What the server still does by itself. -/
def rank (s : TcpServer) : ℕ :=
  (s.conns.map TcpConnection.rank).sum + (s.workers.map IoWorker.rank).sum + s.acceptor.rank

/-- The steps that the server takes by itself: no new connection, nothing from a peer, no stop, and
no waking up for no reason. -/
def Internal (_ : TcpServer) : ServerAct → Prop
  | .announce _ | .post | .notifyOne _ | .look _ | .doze _ | .check _ | .read _ _ _ | .readEnd _
  | .erase _ | .disconnect _ => True
  | _ => False

theorem rank_put {i : ℕ} {p : IoWorker} (hi : s.workers[i]? = some p) (q : IoWorker) :
    ((s.workers.put i q).map IoWorker.rank).sum + p.rank =
      (s.workers.map IoWorker.rank).sum + q.rank :=
  Pool.sum_map_put IoWorker.rank hi q

/-- A connection that goes on takes as much from the server as from itself. -/
theorem rank_putConn {c : ℕ} {conn : TcpConnection} (hc : s.conns[c]? = some conn)
    (conn' : TcpConnection) {n : ℕ} (hle : conn'.rank + n ≤ conn.rank) :
    ((s.conns.put c conn').map TcpConnection.rank).sum + n ≤
      (s.conns.map TcpConnection.rank).sum := by
  have := Pool.sum_map_put TcpConnection.rank hc conn'
  omega

/-- **The steps of the server run out.** -/
theorem Located.rank_lt (h : s.Located) (hint : s.Internal a) (hs : Step s a t) :
    t.rank < s.rank := by
  cases hs with
  | accept | leave | arrive | hangUp | breakOff | wake | stop | join | notifyAll =>
    exact absurd hint id
  | @announce c conn closes hacc hc =>
    have := rank_putConn hc (conn.announce closes) (n := 1) (by
      simp only [TcpConnection.rank, TcpConnection.announce, ConnStage.rank,
        h.stage_accepted hc hacc]
      omega)
    simp only [rank, putConn, tell, hacc, Acceptor.rank] at this ⊢
    omega
  | @post c conn hacc hc hfree =>
    have := rank_putConn hc { conn with stage := .queued } (n := 1) (by
      simp only [TcpConnection.rank, ConnStage.rank, h.stage_announced hc hacc]
      omega)
    simp only [rank, putConn, hacc, Acceptor.rank] at this ⊢
    omega
  | notifyNone hacc hw =>
    simp only [rank, hacc, Acceptor.rank]
    omega
  | notifySome hacc hi =>
    have := rank_put hi .locking
    simp only [rank, put, hacc, Acceptor.rank, IoWorker.rank] at this ⊢
    omega
  | quit hi hstop =>
    have := rank_put hi .exited
    simp only [rank, put, IoWorker.rank] at this ⊢
    omega
  | idle hi hfree hstop hq =>
    have := rank_put hi .dozing
    simp only [rank, put, IoWorker.rank] at this ⊢
    omega
  | @start i c conn rest hi hfree hstop hq hc =>
    have hput := rank_put hi (.serving c)
    have hconn := rank_putConn hc { conn with stage := .looping } (n := 2) (by
      simp only [TcpConnection.rank, ConnStage.rank, h.stage_queued hc hq]
      omega)
    simp only [rank, put, putConn, IoWorker.rank] at hput hconn ⊢
    omega
  | doze hi =>
    have := rank_put hi .waiting
    simp only [rank, put, IoWorker.rank] at this ⊢
    omega
  | @check i c conn hi hc hat =>
    have := rank_putConn hc
      { conn with stage := if conn.closed then .closing else .reading } (n := 1) (by
        simp only [TcpConnection.rank, hat]
        split <;> simp only [ConnStage.rank] <;> omega)
    simp only [rank, putConn] at this ⊢
    omega
  | @read i c n conn closes hi hc hat hpos hbuf hlen =>
    have := rank_putConn hc (conn.take n closes) (n := 1) (by
      simp only [TcpConnection.rank, TcpConnection.take, ConnStage.rank, hat, List.length_drop]
      omega)
    simp only [rank, putConn, tell] at this ⊢
    omega
  | @readEnd i c conn hi hc hat hend =>
    have := rank_putConn hc { conn with stage := .closing } (n := 1) (by
      simp only [TcpConnection.rank, ConnStage.rank, hat]
      omega)
    simp only [rank, putConn] at this ⊢
    omega
  | @erase i c conn hi hc hat =>
    have := rank_putConn hc { conn with stage := .erased, closed := true } (n := 1) (by
      simp only [TcpConnection.rank, ConnStage.rank, hat]
      omega)
    simp only [rank, putConn] at this ⊢
    omega
  | @disconnect i c conn hi hc hat =>
    have hput := rank_put hi .locking
    have hconn := rank_putConn hc { conn with stage := .gone } (n := 2) (by
      simp only [TcpConnection.rank, ConnStage.rank, hat]
      omega)
    simp only [rank, put, putConn, tell, IoWorker.rank] at hput hconn ⊢
    omega

/-- The server by itself can do nothing more. -/
def Resting (s : TcpServer) : Prop := ∀ a, s.Internal a → s.step a = none

/-- Each connection is gone, or its peer says nothing, or it is in the queue and every thread is
with a connection whose peer says nothing. -/
def Settled (s : TcpServer) : Prop :=
  ∀ (c : ℕ) (conn : TcpConnection), s.conns[c]? = some conn →
    conn.stage = .gone ∨ conn.Silent ∨ conn.stage = .queued ∧
      ∀ p ∈ s.workers, ∃ c' conn', p = .serving c' ∧ s.conns[c']? = some conn' ∧ conn'.Silent

theorem Located.exists_conn (h : s.Located) {c : ℕ} {p : Place} (hpos : 0 < s.held c p) :
    ∃ conn, s.conns[c]? = some conn ∧ conn.stage.place = p := by
  rw [h c p, places, List.getElem?_map] at hpos
  split at hpos
  · next heq => exact Option.map_eq_some_iff.1 heq
  · exact absurd hpos (Nat.lt_irrefl 0)

theorem Located.held_pos (h : s.Located) {c : ℕ} {conn : TcpConnection}
    (hc : s.conns[c]? = some conn) : 0 < s.held c conn.stage.place := by
  rw [h c, getElem?_places hc, if_pos rfl]
  exact Nat.one_pos

/-- A thread in a read loop can go on unless the peer says nothing. -/
theorem Resting.silent (h : s.Resting) {i c : ℕ} {conn : TcpConnection}
    (hi : s.workers[i]? = some (.serving c)) (hc : s.conns[c]? = some conn)
    (hplace : conn.stage.place = .served) : conn.Silent := by
  have hserve : ∀ f, s.serve i f = f c conn := by
    intro f
    rw [serve, hi]
    simp only [hc]
  cases hat : conn.stage with
  | accepted | announced | queued | gone =>
    rw [hat] at hplace
    cases hplace
  | looping =>
    have := h (.check i) trivial
    simp [step, hserve, hat] at this
  | closing =>
    have := h (.erase i) trivial
    simp [step, hserve, hat] at this
  | erased =>
    have := h (.disconnect i) trivial
    simp [step, hserve, hat] at this
  | reading =>
    have hinbox : conn.inbox = [] := by
      by_contra hne
      have hpos : 1 ≤ conn.inbox.length := List.length_pos_iff.2 hne
      have := h (.read i 1 false) trivial
      simp [step, hserve, hat, hpos, TcpConnection.readBufferSize] at this
    have hend : ¬ conn.AtEnd := by
      intro hend
      have := h (.readEnd i) trivial
      simp [step, hserve, hat, hend] at this
    refine ⟨hat, ?_, hinbox⟩
    cases hpeer : conn.peer with
    | talking => rfl
    | hungUp => exact absurd (.inl ⟨hpeer, hinbox⟩) hend
    | broken => exact absurd (.inr hpeer) hend

/-- A server that rests is settled. -/
theorem Resting.settled (hsound : Sound workerThreads s) (halert : s.Alert)
    (howner : s.owner = .inUse) (h : s.Resting) : s.Settled := by
  have hstopped : s.ioStopped = false := by
    cases hstop : s.ioStopped with
    | false => rfl
    | true => exact absurd howner (halert.stopped hstop)
  have hfree : s.Free := by
    intro hmem
    obtain ⟨i, hi⟩ := List.mem_iff_getElem?.1 hmem
    have := h (.doze i) trivial
    simp [step, hi] at this
  have hworkers : ∀ p ∈ s.workers, p = .waiting ∨
      ∃ c conn, p = .serving c ∧ s.conns[c]? = some conn ∧ conn.Silent := by
    intro p hp
    obtain ⟨i, hi⟩ := List.mem_iff_getElem?.1 hp
    cases p with
    | waiting => exact .inl rfl
    | dozing => exact absurd hp hfree
    | exited =>
      have := halert.exited hp
      rw [hstopped] at this
      cases this
    | serving c =>
      obtain ⟨conn, hc, hplace⟩ := hsound.located.exists_conn (p := .served)
        (List.count_pos_iff.2 hp)
      exact .inr ⟨c, conn, rfl, hc, h.silent hi hc hplace⟩
    | locking =>
      have hlook := h (.look i) trivial
      simp only [step, hi, hfree, and_self, if_true, look, hstopped, Bool.false_eq_true,
        if_false] at hlook
      cases hq : s.queue with
      | nil => simp [hq] at hlook
      | cons c rest =>
        obtain ⟨conn, hc, -⟩ := hsound.located.exists_conn (c := c) (p := .queue)
          (by simp [held, hq])
        simp [hq, hc] at hlook
  have hacceptor : s.acceptor = .polling := by
    cases hacc : s.acceptor with
    | polling => rfl
    | exited => exact absurd howner (halert.left hacc)
    | holding c =>
      obtain ⟨conn, hc, -⟩ := hsound.located.exists_conn (c := c) (p := .accepting)
        (by simp [held, hacc])
      have := h (.announce false) trivial
      simp [step, hacc, hc] at this
    | announced c =>
      obtain ⟨conn, hc, -⟩ := hsound.located.exists_conn (c := c) (p := .announcing)
        (by simp [held, hacc])
      have := h .post trivial
      simp [step, hacc, hc, hfree] at this
    | notifying =>
      by_cases hw : .waiting ∈ s.workers
      · obtain ⟨i, hi⟩ := List.mem_iff_getElem?.1 hw
        have := h (.notifyOne (some i)) trivial
        simp [step, hacc, hi] at this
      · have := h (.notifyOne none) trivial
        simp [step, hacc, hw] at this
  intro c conn hc
  have hheld := hsound.located.held_pos hc
  cases hat : conn.stage with
  | gone => exact .inl rfl
  | accepted | announced =>
    rw [hat] at hheld
    simp [ConnStage.place, held, hacceptor] at hheld
  | looping | reading | closing | erased =>
    rw [hat] at hheld
    obtain ⟨i, hi⟩ := List.mem_iff_getElem?.1 (List.count_pos_iff.1 hheld)
    have hsilent := h.silent hi hc (by rw [hat]; rfl)
    exact .inr (.inl hsilent)
  | queued =>
    refine .inr (.inr ⟨rfl, fun p hp ↦ (hworkers p hp).resolve_left ?_⟩)
    -- a thread that sleeps would have been woken up
    rintro rfl
    have hle := halert.alert hstopped hp
    have hnone : s.coming = 0 := List.count_eq_zero.2 fun hmem ↦ by
      rcases hworkers _ hmem with he | ⟨_, _, he, -⟩ <;> cases he
    rw [hacceptor, hnone] at hle
    rw [hat] at hheld
    have hpos : 0 < s.queue.length := List.length_pos_of_mem (List.count_pos_iff.1 hheld)
    exact absurd hpos (Nat.not_lt.2 hle)

/-! ## Every run -/

theorem alert_run (hrun : system.Run (new workerThreads) acts s) : s.Alert :=
  hrun.invariant (fun _ _ _ h hs ↦ h.step (step_cases hs)) (alert_new workerThreads)

/-- What does not change while the server goes on by itself. -/
theorem owner_of_internal (hint : s.Internal a) (hs : Step s a t) :
    t.owner = s.owner ∧ t.conns.length = s.conns.length := by
  cases hs with
  | accept | leave | arrive | hangUp | breakOff | wake | stop | join | notifyAll =>
    exact absurd hint id
  | announce | post | start | check | read | readEnd | erase | disconnect =>
    exact ⟨rfl, length_putConn s _ _⟩
  | _ => exact ⟨rfl, rfl⟩

/-- What holds of a server that has not been stopped, with so many connections. -/
structure Going (workerThreads n : ℕ) (s : TcpServer) : Prop where
  sound : Sound workerThreads s
  alert : s.Alert
  owner : s.owner = .inUse
  length : s.conns.length = n

theorem Going.step {n : ℕ} (h : Going workerThreads n s) (hint : s.Internal a)
    (hs : s.step a = some t) : Going workerThreads n t ∧ t.rank < s.rank := by
  have hstep := step_cases hs
  obtain ⟨howner, hlength⟩ := owner_of_internal hint hstep
  exact ⟨⟨sound_step h.sound hs, h.alert.step hstep, howner.trans h.owner,
    hlength.trans h.length⟩, h.sound.located.rank_lt hint hstep⟩

/-- **A server settles, whatever the scheduler does.**  From any state that it has come to without
having been stopped, the steps that it takes by itself run out; where they have, every connection is
gone, or its peer says nothing, or it waits and all threads are with connections whose peers say
nothing; and they can be taken until they have. -/
theorem settles (hrun : system.Run (new workerThreads) acts s) (howner : s.owner = .inUse) :
    (∀ ls t, (system.guarded Internal).Run s ls t →
        ls.length ≤ s.rank ∧ t.conns.length = s.conns.length ∧ (t.Resting → t.Settled)) ∧
      ∃ ls t, (system.guarded Internal).Run s ls t ∧ t.Resting := by
  have hgoing : Going workerThreads s.conns.length s :=
    ⟨sound_run hrun, alert_run hrun, howner, rfl⟩
  have hdown : ∀ u a t, Going workerThreads s.conns.length u →
      (system.guarded Internal).step u a t →
        Going workerThreads s.conns.length t ∧ t.rank < u.rank :=
    fun _ _ _ hu hstep ↦ hu.step hstep.1 hstep.2
  constructor
  · intro ls t hinternal
    obtain ⟨ht, hle⟩ := hinternal.length_add_rank_le hdown hgoing
    exact ⟨le_trans (Nat.le_add_right _ _) hle, ht.length, fun hrest ↦
      hrest.settled ht.sound ht.alert ht.owner⟩
  · obtain ⟨ls, t, hinternal, -, hrest⟩ := System.exists_run_of_progress hdown
      (fun u _ (hmoves : ¬ u.Resting) ↦ by
        rw [Resting] at hmoves
        push Not at hmoves
        obtain ⟨a, hint, hne⟩ := hmoves
        obtain ⟨t, ht⟩ := Option.ne_none_iff_exists'.1 hne
        exact ⟨a, t, hint, ht⟩) hgoing
    exact ⟨ls, t, hinternal, hrest⟩

/-! ## One thread, two connections -/

/-- Two connections are accepted, and something arrives on both of them. -/
def twoConnections : List ServerAct :=
  [.look 0, .doze 0, .accept, .announce false, .post, .notifyOne (some 0), .accept,
    .arrive 0 [1, 2], .announce false, .arrive 1 [3], .post, .look 0]

theorem settles_twoConnections :
    ∃ s, system.Run (new 1) twoConnections s ∧ s.owner = .inUse ∧
      ∃ ls t, (system.guarded Internal).Run s ls t ∧ t.Settled := by
  obtain ⟨s, hrun, howner⟩ : ∃ s, system.Run (new 1) twoConnections s ∧ s.owner = .inUse :=
    System.Run.exists_of_any (by decide +kernel)
  obtain ⟨hall, ls, t, hinternal, hrest⟩ := settles hrun howner
  exact ⟨s, hrun, howner, ls, t, hinternal, (hall ls t hinternal).2.2 hrest⟩

end TcpServer

end Net
end ChwellCore
