import ChwellCore.Net.PoolLimit

/-!
# The waiters of the connection pool

A call that finds no idle connection when the pool is full leaves its callback in
`waiting_callbacks_`, and the only place that looks there is `return_connection`.  This is right as
long as a callback that waits has something to wait for: no connection that it could have is idle,
and the connections that are lent or on their way are as many as the pool may have (`Attended`).

The pool does not see to it.  An attempt that fails takes itself out of `pending_creates_` and
returns, a connection that is given back when it is not valid any more is left in the table as
neither idle nor lent, and in both cases there is now room for a connection which nobody opens for
the one that waits.  The third case is that of a call that finds connections idle, has them expire
between `cleanup_expired` and `try_get_idle`, and then waits behind their bodies.
`forgotten_waiter` is a run of the first kind, after which one callback waits for ever in an empty
pool.  `no_waiter_forgotten` says that there are no other kinds (`Heeds`).
-/

set_option autoImplicit false

namespace ChwellCore
namespace Net

/-- How many connections of a table are lent. -/
def lent (cs : List PooledConnection) : ℕ := cs.countP PooledConnection.inUse

/-- There is no idle connection that is valid. -/
def NoneIdle (cs : List PooledConnection) : Prop := ∀ c ∈ cs, c.isValid = true → c.inUse = true

/-- There are idle connections, and all of them are found to be expired. -/
def Lapsed (cfg : ConnectionPoolConfig) (clock : ℕ → ℤ) (cs : List PooledConnection) : Prop :=
  (∃ c ∈ cs, c.inUse = false) ∧
    ∀ c ∈ cs, c.inUse = false → (validateConnection cfg (clock c.connection) c).1 = false

instance decidableLapsed (cfg : ConnectionPoolConfig) (clock : ℕ → ℤ)
    (cs : List PooledConnection) : Decidable (Lapsed cfg clock cs) :=
  inferInstanceAs (Decidable (_ ∧ _))

/-! ## What the critical sections do to the table -/

section Table

variable {cfg : ConnectionPoolConfig} {clock : ℕ → ℤ} {used : ℤ} {cs l r : List PooledConnection}

theorem lent_cons (c : PooledConnection) (cs : List PooledConnection) :
    lent (c :: cs) = lent cs + if c.inUse then 1 else 0 := List.countP_cons ..

theorem lent_append (l r : List PooledConnection) : lent (l ++ r) = lent l + lent r :=
  List.countP_append

/-- What is lent or valid is at least what is lent. -/
theorem lent_le (cs : List PooledConnection) :
    lent cs ≤ cs.countP fun c ↦ c.inUse || c.isValid :=
  List.countP_mono_left fun _ _ h ↦ by rw [h, Bool.true_or]

theorem validateConnection_isValid (cfg : ConnectionPoolConfig) (now : ℤ) (c : PooledConnection) :
    (validateConnection cfg now c).2.isValid = (validateConnection cfg now c).1 := by
  rw [validateConnection]
  split
  · next h => exact Bool.eq_false_of_not_eq_true h
  · next h =>
    split
    · rfl
    · split
      · rfl
      · exact not_not.1 h

theorem validateConnection_eq_false {now : ℤ} {c : PooledConnection} (h : c.isValid = false) :
    validateConnection cfg now c = (false, c) := by
  rw [validateConnection, if_pos (by simp [h])]

/-- `cleanup_expired` closes no connection that is lent. -/
theorem lent_cleanupExpired (cfg : ConnectionPoolConfig) (clock : ℕ → ℤ)
    (cs : List PooledConnection) : lent (cleanupExpired cfg clock cs).1 = lent cs := by
  induction cs with
  | nil => rfl
  | cons c cs ih =>
    have huse := (validateConnection_mark cfg (clock c.connection) c).2
    rw [cleanupExpired]
    split
    · next hexp =>
      rw [huse] at hexp
      rw [ih, lent_cons, if_neg hexp.2, add_zero]
    · rw [lent_cons, lent_cons, ih, huse]

/-- Where no valid connection is idle, `cleanup_expired` leaves those that are lent. -/
theorem NoneIdle.cleanupExpired (h : NoneIdle cs) (clock : ℕ → ℤ) :
    ∀ c ∈ (cleanupExpired cfg clock cs).1, c.inUse = true := by
  induction cs with
  | nil => exact fun c hc ↦ absurd hc List.not_mem_nil
  | cons c cs ih =>
    have ih := ih fun d hd ↦ h d (List.mem_cons_of_mem _ hd)
    have huse := (validateConnection_mark cfg (clock c.connection) c).2
    rw [Net.cleanupExpired]
    split
    · exact ih
    · next hkept =>
      intro d hd
      rcases List.mem_cons.1 hd with rfl | hd
      · rw [huse]
        by_contra hidle
        have hinvalid : c.isValid = false :=
          Bool.eq_false_of_not_eq_true fun hc ↦ hidle (h c List.mem_cons_self hc)
        rw [validateConnection_eq_false hinvalid] at hkept
        exact hkept ⟨Bool.false_ne_true, hidle⟩
      · exact ih d hd

/-- A table whose connections are all in use has as many that are lent as it has. -/
theorem lent_eq_length (h : ∀ c ∈ cs, c.inUse = true) : lent cs = cs.length :=
  List.countP_eq_length.2 h

/-- `try_get_idle` passes over what is not idle. -/
theorem NoneIdle.tryGetIdle_append (h : NoneIdle l) (r : List PooledConnection) :
    tryGetIdle cfg clock used (l ++ r) =
      ((tryGetIdle cfg clock used r).1, l ++ (tryGetIdle cfg clock used r).2) := by
  induction l with
  | nil => rfl
  | cons c l ih =>
    have hc : ¬ (¬ c.inUse = true ∧ c.isValid = true) := fun hc ↦
      hc.1 (h c List.mem_cons_self hc.2)
    rw [List.cons_append, tryGetIdle, if_neg hc, ih fun d hd ↦ h d (List.mem_cons_of_mem _ hd)]
    rfl

theorem NoneIdle.tryGetIdle_eq (h : NoneIdle cs) :
    tryGetIdle cfg clock used cs = (none, cs) := by
  have happend : tryGetIdle cfg clock used (cs ++ []) = (none, cs ++ []) := h.tryGetIdle_append []
  rwa [List.append_nil] at happend

/-- If `try_get_idle` finds nothing, nothing is lent and nothing is left that is idle and valid. -/
theorem tryGetIdle_none (h : (tryGetIdle cfg clock used cs).1 = none) :
    NoneIdle (tryGetIdle cfg clock used cs).2 ∧
      lent (tryGetIdle cfg clock used cs).2 = lent cs ∧
      ∀ c ∈ cs, c.inUse = false → (validateConnection cfg (clock c.connection) c).1 = false := by
  induction cs with
  | nil =>
    exact ⟨fun c hc ↦ absurd hc List.not_mem_nil, rfl, fun c hc ↦ absurd hc List.not_mem_nil⟩
  | cons c cs ih =>
    have huse := (validateConnection_mark cfg (clock c.connection) c).2
    have hvalid := validateConnection_isValid cfg (clock c.connection) c
    rw [tryGetIdle] at h ⊢
    dsimp only at h ⊢
    by_cases hidle : ¬ c.inUse = true ∧ c.isValid = true
    · rw [if_pos hidle] at h ⊢
      by_cases hok : (validateConnection cfg (clock c.connection) c).1 = true
      · rw [if_pos hok] at h
        cases h
      · rw [if_neg hok] at h ⊢
        obtain ⟨hnone, hlent, hfail⟩ := ih h
        refine ⟨List.forall_mem_cons.2 ⟨fun hv ↦ absurd (hvalid ▸ hv) hok, hnone⟩, ?_,
          List.forall_mem_cons.2 ⟨fun _ ↦ Bool.eq_false_of_not_eq_true hok, hfail⟩⟩
        rw [lent_cons, lent_cons, hlent, huse]
    · rw [if_neg hidle] at h ⊢
      obtain ⟨hnone, hlent, hfail⟩ := ih h
      refine ⟨List.forall_mem_cons.2 ⟨fun hv ↦ ?_, hnone⟩, ?_,
        List.forall_mem_cons.2 ⟨fun huse ↦ ?_, hfail⟩⟩
      · by_contra hc
        exact hidle ⟨hc, hv⟩
      · rw [lent_cons, lent_cons, hlent]
      · have hc : c.isValid = false := Bool.eq_false_of_not_eq_true fun hv ↦
          hidle ⟨by rw [huse]; exact Bool.false_ne_true, hv⟩
        rw [validateConnection_eq_false hc]

/-- What `return_connection` does to the table: nothing, or one connection is no longer in use. -/
theorem release_cases (connection : ℕ) (used : ℤ) (cs : List PooledConnection) :
    (release connection used cs).1 = cs ∨
    ∃ l c r, cs = l ++ c :: r ∧ c.connection = connection ∧
      (release connection used cs).1 =
        l ++ { c with inUse := false, lastUsedTime := used } :: r := by
  induction cs with
  | nil => exact .inl rfl
  | cons c cs ih =>
    rw [release]
    split
    · next hc => exact .inr ⟨[], c, cs, rfl, hc, rfl⟩
    · rcases ih with ih | ⟨l, d, r, hl, hd, hr⟩
      · exact .inl (congrArg (c :: ·) ih)
      · exact .inr ⟨c :: l, d, r, congrArg (c :: ·) hl, hd, congrArg (c :: ·) hr⟩

/-- `try_get_idle` on a table with one idle connection. -/
theorem NoneIdle.tryGetIdle_one (cfg : ConnectionPoolConfig) (clock : ℕ → ℤ) (used : ℤ)
    (hl : NoneIdle l) (hr : NoneIdle r) {c : PooledConnection} (hc : c.inUse = false) :
    (∃ d, d.inUse = true ∧ tryGetIdle cfg clock used (l ++ c :: r) =
      (some c.connection, l ++ d :: r)) ∨
    ((validateConnection cfg (clock c.connection) c).1 = false ∧
      (tryGetIdle cfg clock used (l ++ c :: r)).1 = none) := by
  have huse : ¬ c.inUse = true := by rw [hc]; exact Bool.false_ne_true
  rw [hl.tryGetIdle_append, tryGetIdle]
  by_cases hvalid : c.isValid = true
  · rw [if_pos ⟨huse, hvalid⟩]
    dsimp only
    by_cases hok : (validateConnection cfg (clock c.connection) c).1 = true
    · rw [if_pos hok]
      exact .inl ⟨_, rfl, rfl⟩
    · rw [if_neg hok, hr.tryGetIdle_eq]
      exact .inr ⟨Bool.eq_false_of_not_eq_true hok, rfl⟩
  · rw [if_neg fun h ↦ hvalid h.2, hr.tryGetIdle_eq]
    exact .inr ⟨by rw [validateConnection_eq_false (Bool.eq_false_of_not_eq_true hvalid)], rfl⟩

theorem NoneIdle.insert (hl : NoneIdle l) (hr : NoneIdle r) {c : PooledConnection}
    (hc : c.inUse = true) : NoneIdle (l ++ c :: r) := by
  intro d hd hvalid
  rcases List.mem_append.1 hd with hd | hd
  · exact hl d hd hvalid
  · rcases List.mem_cons.1 hd with rfl | hd
    · exact hc
    · exact hr d hd hvalid

theorem lent_insert (l r : List PooledConnection) (c : PooledConnection) :
    lent (l ++ c :: r) = lent (l ++ r) + if c.inUse then 1 else 0 := by
  rw [lent_append, lent_append, lent_cons, add_assoc]

end Table

namespace ConnectionPool

variable (cfg : ConnectionPoolConfig)

/-- What a callback that waits can hope for: the connections that are lent, those that are being
opened, and those that have been opened and are about to be put into the table. -/
def supply (s : ConnectionPool) : ℤ :=
  lent s.connections + s.pendingCreates + s.calls.countP Call.unpushed

/-- The callbacks that wait have not been forgotten. -/
structure Attended (s : ConnectionPool) : Prop where
  noneIdle : NoneIdle s.connections
  supply : cfg.maxConnections ≤ s.supply

/-- The call does not wait because the idle connections have expired since it began. -/
def HeedsExpiry (s : ConnectionPool) (cleanupClock idleClock : ℕ → ℤ) : Call → Prop
  | .entering timeoutMs =>
    Lapsed cfg idleClock (cleanupExpired cfg cleanupClock s.connections).1 → timeoutMs = 0 ∨
      (cleanupExpired cfg cleanupClock s.connections).1.length + s.pendingCreates <
        cfg.maxConnections ∨ cfg.maxConnections ≤ s.supply
  | _ => True

/-- If a callback waits, the connection that is given back can be lent again. -/
def HeedsReturn (s : ConnectionPool) (used : ℤ) (idleClock : ℕ → ℤ) : Call → Prop
  | .holding connection =>
    s.waitingCallbacks = [] ∨ cfg.maxConnections < s.supply ∨
      ∀ c ∈ s.connections, c.connection = connection →
        (validateConnection cfg (idleClock connection)
          { c with inUse := false, lastUsedTime := used }).1 = true
  | _ => True

/-- The step leaves no callback behind.  A pool that is above its limit can do without one of its
connections. -/
def Heeds (s : ConnectionPool) : PoolStep → Prop
  | .enter i cleanupClock idleClock _ =>
    ∀ p ∈ s.calls[i]?, s.HeedsExpiry cfg cleanupClock idleClock p
  | .settle i =>
    s.calls[i]? = some (.created none) → s.waitingCallbacks = [] ∨ cfg.maxConnections < s.supply
  | .returnConnection i used idleClock _ => ∀ p ∈ s.calls[i]?, s.HeedsReturn cfg used idleClock p
  | .initPush _ => s.waitingCallbacks = []
  | .getConnection _ | .create _ _ | .push _ _ | .init | .initCreate _ _ | .shutdown | .sweep _
  | .cleanup _ => True

instance decidableHeedsExpiry (s : ConnectionPool) (cleanupClock idleClock : ℕ → ℤ) (p : Call) :
    Decidable (s.HeedsExpiry cfg cleanupClock idleClock p) :=
  match p with
  | .entering _ => inferInstanceAs (Decidable (_ → _))
  | .creating | .created _ | .pushing _ | .waiting | .holding _ | .initialising _
  | .initPushing _ _ | .sweeping | .finished => .isTrue trivial

instance decidableHeedsReturn (s : ConnectionPool) (used : ℤ) (idleClock : ℕ → ℤ) (p : Call) :
    Decidable (s.HeedsReturn cfg used idleClock p) :=
  match p with
  | .holding _ => inferInstanceAs (Decidable (_ ∨ _ ∨ _))
  | .entering _ | .creating | .created _ | .pushing _ | .waiting | .initialising _
  | .initPushing _ _ | .sweeping | .finished => .isTrue trivial

instance decidableHeeds (s : ConnectionPool) (l : PoolStep) : Decidable (s.Heeds cfg l) :=
  match l with
  | .enter i _ _ _ | .returnConnection i _ _ _ =>
    inferInstanceAs (Decidable (∀ p ∈ s.calls[i]?, _))
  | .settle _ => inferInstanceAs (Decidable (_ → _))
  | .initPush _ => inferInstanceAs (Decidable (_ = _))
  | .getConnection _ | .create _ _ | .push _ _ | .init | .initCreate _ _ | .shutdown | .sweep _
  | .cleanup _ => .isTrue trivial

variable {cfg} {s s' : ConnectionPool} {i : ℕ} {p q : Call}

/-! ## The invariant -/

/-- The supply when a call moves on. -/
theorem supply_put {t : ConnectionPool} (hi : s.calls[i]? = some p)
    (hcalls : t.calls = s.calls.put i q) {n m : ℤ} (hp : (if p.unpushed then 1 else 0 : ℕ) = n)
    (hq : (if q.unpushed then 1 else 0 : ℕ) = m) :
    t.supply + n = lent t.connections + t.pendingCreates +
      s.calls.countP Call.unpushed + m := by
  have hput := Pool.countP_put hi q Call.unpushed
  rw [supply, hcalls]
  omega

/-- A step that takes nothing away. -/
theorem Attended.mono (h : s.Attended cfg) (hconn : s'.connections = s.connections)
    (hle : s.supply ≤ s'.supply) : s'.Attended cfg :=
  ⟨hconn ▸ h.noneIdle, h.supply.trans hle⟩

/-- What the first critical section of `get_connection` comes to: the call has an idle connection,
or it opens one, or it waits, or it gives up. -/
theorem enter_cases (s : ConnectionPool) (i : ℕ) (timeoutMs : ℤ) (cleanupClock idleClock : ℕ → ℤ)
    (used : ℤ) {cs cs' : List PooledConnection} {found : Option ℕ}
    (hcs : (cleanupExpired cfg cleanupClock s.connections).1 = cs)
    (hr : tryGetIdle cfg idleClock used cs = (found, cs')) :
    ∃ p n ws, (s.enter cfg i timeoutMs cleanupClock idleClock used).connections = cs' ∧
      (s.enter cfg i timeoutMs cleanupClock idleClock used).pendingCreates =
        s.pendingCreates + n ∧
      (s.enter cfg i timeoutMs cleanupClock idleClock used).waitingCallbacks =
        s.waitingCallbacks ++ ws ∧
      (s.enter cfg i timeoutMs cleanupClock idleClock used).calls = s.calls.put i p ∧
      ((∃ c, found = some c ∧ p = .holding c ∧ n = 0 ∧ ws = []) ∨
        (found = none ∧ cs'.length + s.pendingCreates < cfg.maxConnections ∧ p = .creating ∧
          n = 1 ∧ ws = []) ∨
        (found = none ∧ cfg.maxConnections ≤ cs'.length + s.pendingCreates ∧ timeoutMs ≠ 0 ∧
          p = .waiting ∧ n = 0 ∧ ws = [i]) ∨
        (found = none ∧ p = .finished ∧ n = 0 ∧ ws = [])) := by
  rw [enter, clean]
  dsimp only
  rw [hcs, hr]
  rcases found with _ | c
  · dsimp only
    split
    · next hroom => exact ⟨_, 1, [], rfl, rfl, (List.append_nil _).symm, rfl,
        .inr (.inl ⟨rfl, hroom, rfl, rfl, rfl⟩)⟩
    · next hfull =>
      split
      · next htime => exact ⟨_, 0, [i], rfl, (add_zero _).symm, rfl, rfl,
          .inr (.inr (.inl ⟨rfl, not_lt.1 hfull, htime, rfl, rfl, rfl⟩))⟩
      · exact ⟨_, 0, [], rfl, (add_zero _).symm, (List.append_nil _).symm, rfl,
          .inr (.inr (.inr ⟨rfl, rfl, rfl, rfl⟩))⟩
  · exact ⟨_, 0, [], rfl, (add_zero _).symm, (List.append_nil _).symm, rfl,
      .inl ⟨c, rfl, rfl, rfl, rfl⟩⟩

theorem Attended.spawn (h : s.Attended cfg) (hp : p.unpushed = false) :
    { s with calls := s.calls.spawn p }.Attended cfg := by
  refine ⟨h.noneIdle, h.supply.trans_eq ?_⟩
  rw [ConnectionPool.supply, ConnectionPool.supply, Pool.spawn, List.countP_append,
    List.countP_singleton, hp]
  rfl

/-- The first critical section of `get_connection`.  If others wait already, all that
`cleanup_expired` leaves is lent, so the call opens a connection or waits too. -/
theorem attended_enter (h : s.waitingCallbacks ≠ [] → s.Attended cfg) {timeoutMs : ℤ}
    (hi : s.calls[i]? = some (.entering timeoutMs)) {cleanupClock idleClock : ℕ → ℤ} {used : ℤ}
    (hheeds : s.HeedsExpiry cfg cleanupClock idleClock (.entering timeoutMs))
    (hwait : (s.enter cfg i timeoutMs cleanupClock idleClock used).waitingCallbacks ≠ []) :
    (s.enter cfg i timeoutMs cleanupClock idleClock used).Attended cfg := by
  have hlent := lent_cleanupExpired cfg cleanupClock s.connections
  have huse : s.waitingCallbacks ≠ [] →
      ∀ c ∈ (cleanupExpired cfg cleanupClock s.connections).1, c.inUse = true := fun hne ↦
    (h hne).noneIdle.cleanupExpired cleanupClock
  rw [HeedsExpiry] at hheeds
  generalize hcs : (cleanupExpired cfg cleanupClock s.connections).1 = cs at hlent huse hheeds
  rcases hr : tryGetIdle cfg idleClock used cs with ⟨found, cs'⟩
  obtain ⟨p, n, ws, hconn, hpending, hws, hcalls, hcases⟩ :=
    enter_cases s i timeoutMs cleanupClock idleClock used hcs hr
  rw [hws] at hwait
  have hsupply := supply_put (n := 0) hi hcalls rfl rfl
  rw [hconn, hpending, add_zero] at hsupply
  rcases found with _ | c
  · obtain ⟨hnone, hlent', hfail⟩ := tryGetIdle_none (congrArg Prod.fst hr)
    have hlen := length_tryGetIdle cfg idleClock used cs
    rw [hr] at hnone hlent' hlen
    dsimp only at hlent' hlen
    refine ⟨hconn ▸ hnone, ?_⟩
    rw [hsupply, hlent', hlent]
    have hold : s.waitingCallbacks ≠ [] → cfg.maxConnections ≤ s.supply := fun h' ↦ (h h').supply
    rw [supply] at hold hheeds
    rcases hcases with ⟨c, hc, -⟩ | ⟨-, -, rfl, rfl, rfl⟩ | ⟨-, hfull, htime, rfl, rfl, rfl⟩ |
      ⟨-, rfl, rfl, rfl⟩
    · cases hc
    · have hold := hold (by simpa using hwait)
      simp only [Call.unpushed, Bool.false_eq_true, if_false, Nat.cast_zero]
      omega
    · -- either the table is full of connections that are lent, or those that are not have lapsed
      simp only [Call.unpushed, Bool.false_eq_true, if_false, Nat.cast_zero]
      by_cases hidle : ∃ c ∈ cs, c.inUse = false
      · rcases hheeds ⟨hidle, hfail⟩ with hzero | hroom | hsupply
        · exact absurd hzero htime
        · omega
        · omega
      · have hfullUse : lent cs = cs.length := lent_eq_length fun c hc ↦
          Bool.eq_true_of_not_eq_false fun hf ↦ hidle ⟨c, hc, hf⟩
        omega
    · have hold := hold (by simpa using hwait)
      simp only [Call.unpushed, Bool.false_eq_true, if_false, Nat.cast_zero]
      omega
  · -- an idle connection has been found, and there is none if somebody waits
    rcases hcases with ⟨d, -, -, -, rfl⟩ | ⟨hc, -⟩ | ⟨hc, -⟩ | ⟨hc, -⟩
    · have hidle : NoneIdle cs := fun d hd _ ↦ huse (by simpa using hwait) d hd
      rw [hidle.tryGetIdle_eq] at hr
      cases hr
    · cases hc
    · cases hc
    · cases hc

/-- The supply when a connection is given back. -/
theorem supply_giveBack {c : ℕ} (hi : s.calls[i]? = some (.holding c)) (used : ℤ) :
    (s.giveBack i c used).supply + lent s.connections =
      s.supply + lent (release c used s.connections).1 := by
  have hput : (s.giveBack i c used).supply + 0 = _ := supply_put hi rfl rfl rfl
  have hconn : (s.giveBack i c used).connections = (release c used s.connections).1 := rfl
  have hpending : (s.giveBack i c used).pendingCreates = s.pendingCreates := rfl
  have hfinished : ((if Call.finished.unpushed then 1 else 0 : ℕ) : ℤ) = 0 := rfl
  rw [hfinished, hconn, hpending] at hput
  have hs : s.supply = lent s.connections + s.pendingCreates + _ := rfl
  omega

/-- `return_connection` when nothing is left to be lent. -/
theorem serveWaiter_none {idleClock : ℕ → ℤ} {used : ℤ}
    (h : (tryGetIdle cfg idleClock used s.connections).1 = none) (hwait : s.waitingCallbacks ≠ []) :
    s.serveWaiter cfg idleClock used =
      { s with connections := (tryGetIdle cfg idleClock used s.connections).2 } := by
  obtain ⟨j, js, hqueue⟩ := List.exists_cons_of_ne_nil hwait
  rw [serveWaiter, hqueue]
  dsimp only
  rw [h]

/-- `return_connection` when the first that waits is served: a connection was idle, and is lent. -/
theorem attended_serveWaiter_some (hinv : s.Inv) {idleClock : ℕ → ℤ} {used : ℤ} {c : ℕ}
    {d : PooledConnection} {l r : List PooledConnection} (hl : NoneIdle l) (hr : NoneIdle r)
    (hd : d.inUse = true)
    (hget : tryGetIdle cfg idleClock used s.connections = (some c, l ++ d :: r))
    (hlent : lent s.connections = lent (l ++ r)) (hwait : s.waitingCallbacks ≠ [])
    (hsupply : cfg.maxConnections ≤ s.supply + 1) :
    (s.serveWaiter cfg idleClock used).Attended cfg := by
  obtain ⟨j, js, hqueue⟩ := List.exists_cons_of_ne_nil hwait
  have hj := hinv.queued j (hqueue ▸ List.mem_cons_self)
  have hserve : s.serveWaiter cfg idleClock used =
      { s with connections := l ++ d :: r, waitingCallbacks := js }.move j (.holding c) := by
    rw [serveWaiter, hqueue]
    dsimp only
    rw [hget]
  have hput : (s.serveWaiter cfg idleClock used).supply + 0 = _ :=
    supply_put hj (congrArg calls hserve) rfl rfl
  rw [hserve] at hput ⊢
  refine ⟨hl.insert hr hd, ?_⟩
  have hs : s.supply = lent s.connections + s.pendingCreates + _ := rfl
  have hnew := lent_insert l r d
  rw [hd, if_pos rfl] at hnew
  simp only [move, hnew, Call.unpushed] at hput ⊢
  omega

/-- `return_connection`.  The only connection that can be idle then is the one that is given back,
and the first that waits has it, unless it has lapsed. -/
theorem Attended.returnConnection (h : s.Attended cfg) (hinv : s.Inv) {c : ℕ}
    (hi : s.calls[i]? = some (.holding c)) {used used' : ℤ} {idleClock : ℕ → ℤ}
    (hwait : s.waitingCallbacks ≠ [])
    (hheeds : s.HeedsReturn cfg used idleClock (.holding c)) :
    (s.returnConnection cfg i c used idleClock used').Attended cfg := by
  have hsupply := supply_giveBack hi used
  have hmax := h.supply
  have hwait' : (s.giveBack i c used).waitingCallbacks ≠ [] := hwait
  have hconn : (s.giveBack i c used).connections = (release c used s.connections).1 := rfl
  have hinv := hinv.giveBack hi used
  rw [ConnectionPool.returnConnection]
  generalize s.giveBack i c used = t at hsupply hwait' hconn hinv
  -- if nothing is found, what is missing is the connection at most
  have hnone : (tryGetIdle cfg idleClock used' t.connections).1 = none →
      cfg.maxConnections ≤ t.supply → (t.serveWaiter cfg idleClock used').Attended cfg := by
    intro hfound hle
    obtain ⟨hidle, hlent, -⟩ := tryGetIdle_none hfound
    rw [serveWaiter_none hfound hwait']
    refine ⟨hidle, ?_⟩
    rw [ConnectionPool.supply] at hle ⊢
    rwa [hlent]
  rcases release_cases c used s.connections with hsame | ⟨l, d, r, hl, rfl, hr⟩
  · rw [hsame] at hconn hsupply
    refine hnone ?_ (by omega)
    rw [hconn, h.noneIdle.tryGetIdle_eq]
  · have hidle := h.noneIdle
    rw [hl] at hidle
    have hidleL : NoneIdle l := fun x hx ↦ hidle x (List.mem_append_left _ hx)
    have hidleR : NoneIdle r := fun x hx ↦
      hidle x (List.mem_append_right _ (List.mem_cons_of_mem _ hx))
    have hlent : lent s.connections ≤ lent (l ++ r) + 1 := by
      rw [hl, lent_insert]
      split <;> omega
    have hlent' : lent t.connections = lent (l ++ r) := by
      rw [hconn, hr, lent_insert]
      rfl
    rw [← hconn, hlent'] at hsupply
    rw [hr] at hconn
    have hgiven : ({ d with inUse := false, lastUsedTime := used } : PooledConnection).inUse =
      false := rfl
    rcases hidleL.tryGetIdle_one cfg idleClock used' hidleR hgiven with
      ⟨e, he, hget⟩ | ⟨hfail, hget⟩
    · rw [← hconn] at hget
      exact attended_serveWaiter_some hinv hidleL hidleR he hget hlent' hwait' (by omega)
    · rw [← hconn] at hget
      refine hnone hget ?_
      rcases hheeds with hnil | hsurplus | hok
      · exact absurd hnil hwait
      · omega
      · have hd : d ∈ s.connections := hl ▸ List.mem_append_right _ List.mem_cons_self
        exact absurd (hok d hd rfl) (by rw [hfail]; exact Bool.false_ne_true)

theorem returnConnection_of_nil (c : ℕ) (used used' : ℤ) (idleClock : ℕ → ℤ)
    (hnil : s.waitingCallbacks = []) :
    s.returnConnection cfg i c used idleClock used' = s.giveBack i c used := by
  have hnil' : (s.giveBack i c used).waitingCallbacks = [] := hnil
  rw [returnConnection, serveWaiter, hnil']

/-- No step undoes a `shutdown`. -/
theorem shutdown_of_step {l : PoolStep} (hs : step cfg s l = some s')
    (hdown : s'.shutdown = false) : s.shutdown = false := by
  cases step_cases cfg hs with
  | getConnection | create | createFailed | settle | settleFailed | push | pushLate | init
  | initCreate | initCreateFailed | initPush | shutdownAgain | cleanup | sweep => exact hdown
  | shutdown h => exact h
  | enter cleanupClock idleClock used hi =>
    rw [enter, clean] at hdown
    dsimp only at hdown
    split at hdown
    · exact hdown
    · split at hdown
      · exact hdown
      · split at hdown <;> exact hdown
  | returnConnection used idleClock used' hi =>
    rw [returnConnection, serveWaiter] at hdown
    split at hdown
    · exact hdown
    · dsimp only at hdown
      split at hdown <;> exact hdown

/-- Every step that heeds those who wait keeps the invariant. -/
theorem attended_step (hinv : s.Inv) (h : s.waitingCallbacks ≠ [] → s.Attended cfg) {l : PoolStep}
    (hs : step cfg s l = some s') (hheeds : s.Heeds cfg l) (hdown : s.shutdown = false)
    (hdown' : s'.shutdown = false) (hwait : s'.waitingCallbacks ≠ []) : s'.Attended cfg := by
  -- a call that moves on and takes nothing from the table
  have hmove : ∀ {i : ℕ} {p q : Call} {t : ConnectionPool}, s.calls[i]? = some p →
      t.calls = s.calls.put i q → t.connections = s.connections →
      t.waitingCallbacks = s.waitingCallbacks →
      s.pendingCreates + (if p.unpushed then 1 else 0 : ℕ) ≤
        t.pendingCreates + (if q.unpushed then 1 else 0 : ℕ) →
      t.waitingCallbacks ≠ [] → t.Attended cfg := by
    intro i p q t hi hcalls hconn hqueue hle hne
    refine (h (hqueue ▸ hne)).mono hconn ?_
    have hput := supply_put hi hcalls rfl rfl
    have hs : s.supply = lent s.connections + s.pendingCreates + _ := rfl
    rw [hconn] at hput
    omega
  cases step_cases cfg hs with
  | getConnection timeoutMs =>
    refine (h hwait).spawn ?_
    split <;> rfl
  | enter cleanupClock idleClock used hi => exact attended_enter h hi (hheeds _ hi) hwait
  | create now hi => exact hmove hi rfl rfl rfl le_rfl hwait
  | createFailed hi => exact hmove hi rfl rfl rfl le_rfl hwait
  | settle hi => exact hmove hi rfl rfl rfl (by simp [Call.unpushed, move]) hwait
  | settleFailed hi =>
    rcases hheeds hi with hnil | hsurplus
    · exact absurd hnil hwait
    · refine ⟨(h hwait).noneIdle, ?_⟩
      have hput := supply_put (n := 0) (m := 0)
        (t := { s with pendingCreates := s.pendingCreates - 1 }.move _ .finished) hi rfl rfl rfl
      have hs : s.supply = lent s.connections + s.pendingCreates + _ := rfl
      simp only [move] at hput ⊢
      omega
  | @push i c used hi =>
    have hnew : lent (s.connections ++ [{ c with inUse := true, lastUsedTime := used }]) =
        lent s.connections + 1 := by
      rw [lent_append]
      rfl
    refine ⟨(h hwait).noneIdle.insert (fun d hd ↦ absurd hd List.not_mem_nil) rfl, ?_⟩
    have hput := supply_put (n := 1) (m := 0)
      (t := { s with connections := s.connections ++
        [{ c with inUse := true, lastUsedTime := used }] }.move i (.holding c.connection)) hi rfl
      rfl rfl
    have hs : s.supply = lent s.connections + s.pendingCreates + _ := rfl
    have hold := (h hwait).supply
    simp only [move, hnew] at hput ⊢
    omega
  | pushLate used hi hlate => exact absurd (hdown.symm.trans hlate) Bool.false_ne_true
  | returnConnection used idleClock used' hi =>
    by_cases hnil : s.waitingCallbacks = []
    · rw [returnConnection_of_nil _ _ _ _ hnil] at hwait
      exact absurd hnil hwait
    · exact (h hnil).returnConnection hinv hi hnil (hheeds _ hi)
  | init =>
    refine (h hwait).spawn ?_
    split <;> rfl
  | initCreate now hi => exact hmove hi rfl rfl rfl le_rfl hwait
  | initCreateFailed hi => exact hmove hi rfl rfl rfl le_rfl hwait
  | initPush hi => exact absurd hheeds hwait
  | shutdown => cases hdown'
  | shutdownAgain hlate => exact absurd (hdown.symm.trans hlate) Bool.false_ne_true
  | sweep => exact absurd rfl hwait
  | cleanup clock =>
    refine ⟨fun c hc _ ↦ (h hwait).noneIdle.cleanupExpired clock c hc, ?_⟩
    have hold := (h hwait).supply
    rw [supply] at hold ⊢
    rwa [clean, lent_cleanupExpired]

/-- **No waiter is forgotten**: in a run of the pool in which no attempt fails and no unusable
connection is given back while a callback waits, and none waits because of connections that have
just expired, a callback that waits can be sure that no valid connection is idle, and that those
that are lent or valid or being opened are as many as the pool may have. -/
theorem no_waiter_forgotten {ls : List PoolStep}
    (hrun : ((system cfg).guarded fun s l ↦ s.shutdown = true ∨ s.Heeds cfg l).Run fresh ls s)
    (hwait : s.waitingCallbacks ≠ []) (hdown : s.shutdown = false)
    (hbetween : s.calls.countP Call.unpushed = 0) :
    (∀ c ∈ s.connections, c.isValid = true → c.inUse = true) ∧
      cfg.maxConnections ≤
        (s.connections.countP fun c ↦ c.inUse || c.isValid) + s.pendingCreates := by
  have hall := hrun.invariant
    (motive := fun s ↦ s.Inv ∧ (s.shutdown = false → s.waitingCallbacks ≠ [] → s.Attended cfg)) ?_
    ⟨inv_fresh, fun _ hne ↦ absurd rfl hne⟩
  · obtain ⟨hidle, hsupply⟩ := hall.2 hdown hwait
    have hle := lent_le s.connections
    rw [supply, hbetween] at hsupply
    exact ⟨hidle, by omega⟩
  · rintro s l s' ⟨hinv, h⟩ ⟨hg, hs⟩
    refine ⟨hinv.step hs, fun hdown' hwait' ↦ ?_⟩
    have hdown := shutdown_of_step hs hdown'
    have hheeds := hg.resolve_left (by rw [hdown]; exact Bool.false_ne_true)
    exact attended_step hinv (h hdown) hs hheeds hdown hdown' hwait'

/-- A pool for one connection, which goes from one caller to the next while a third one waits. -/
def oneAfterTheOther : List PoolStep :=
  [.getConnection 5000, .enter 0 (fun _ ↦ 0) (fun _ ↦ 0) 0, .create 0 (some 0), .settle 0,
    .push 0 1, .getConnection 5000, .enter 1 (fun _ ↦ 2) (fun _ ↦ 2) 2, .getConnection 5000,
    .enter 2 (fun _ ↦ 3) (fun _ ↦ 3) 3, .returnConnection 0 4 (fun _ ↦ 4) 4]

theorem no_waiter_forgotten_oneAfterTheOther :
    ∃ s, ((system oneConnection).guarded fun s l ↦
        s.shutdown = true ∨ s.Heeds oneConnection l).Run fresh oneAfterTheOther s ∧
      s.waitingCallbacks = [2] ∧ s.Lent 0 1 ∧ s.shutdown = false ∧
      (∀ c ∈ s.connections, c.isValid = true → c.inUse = true) ∧
      oneConnection.maxConnections ≤
        (s.connections.countP fun c ↦ c.inUse || c.isValid) + s.pendingCreates := by
  obtain ⟨s, hrun, hwait, hlent, hdown, hbetween⟩ : ∃ s, ((system oneConnection).guarded fun s l ↦
      s.shutdown = true ∨ s.Heeds oneConnection l).Run fresh oneAfterTheOther s ∧
        s.waitingCallbacks = [2] ∧ s.calls[1]? = some (.holding 0) ∧ s.shutdown = false ∧
        s.calls.countP Call.unpushed = 0 :=
    System.Run.exists_of_any_guarded (by decide +kernel)
  exact ⟨s, hrun, hwait, hlent, hdown,
    no_waiter_forgotten hrun (by rw [hwait]; exact List.cons_ne_nil 2 []) hdown hbetween⟩

/-- A second caller waits for the attempt of the first, which fails. -/
def failedAttempt : List PoolStep :=
  [.getConnection 5000, .enter 0 (fun _ ↦ 0) (fun _ ↦ 0) 0, .getConnection 5000,
    .enter 1 (fun _ ↦ 1) (fun _ ↦ 1) 1, .create 0 none, .settle 0]

/-- A caller waits in a pool that is empty and in which nothing is going on. -/
theorem forgotten_waiter :
    ∃ s, (system oneConnection).Run fresh failedAttempt s ∧
      (∀ l ∈ failedAttempt, l.isBorrowing = true) ∧ s.calls = [.finished, .waiting] ∧
      s.waitingCallbacks ≠ [] ∧ s.shutdown = false ∧
      ¬ ((∀ c ∈ s.connections, c.isValid = true → c.inUse = true) ∧
        oneConnection.maxConnections ≤
          (s.connections.countP fun c ↦ c.inUse || c.isValid) + s.pendingCreates) := by
  refine ⟨⟨[], [1], false, 0, [], 0, [.finished, .waiting]⟩, System.Run.of_foldlM ?_, ?_, rfl,
    List.cons_ne_nil 1 [], rfl, ?_⟩
  · decide +kernel
  · decide
  · decide

end ConnectionPool

end Net
end ChwellCore
