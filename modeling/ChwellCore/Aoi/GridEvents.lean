import ChwellCore.Aoi.GridIndex

/-!
# What the watchers are told

A client rebuilds what its entity sees from the events it is sent: an entity comes into its view
with an ENTER and goes out of it with a LEAVE.  So for every two entities the ENTERs minus the
LEAVEs, from the later of their two insertions on, should be 1 while the one is in view of the other
and 0 otherwise.

`update_entity` keeps this balance, as it tells both sides whenever a pair comes into view or goes
out of it.  `add_entity` does not: it tells those who see the new entity, and never tells the new
entity whom it sees.  The balance is then one short for as long as both stay (`tally_eq`), and
`tally_iff` says that this is the only way in which it goes wrong.
-/

set_option autoImplicit false

namespace ChwellCore
namespace Aoi

open CellGrid

/-! ## Counting events -/

/-- The events of one type that tell `w` about `t`. -/
def told (type : EventType) (w t : UInt64) (events : List AoiEvent) : ℕ :=
  events.countP fun e ↦ decide (e.type = type ∧ e.watcherId = w ∧ e.targetId = t)

/-- The ENTER events for `w` about `t` minus the LEAVE events. -/
def net (w t : UInt64) (events : List AoiEvent) : ℤ :=
  told .enter w t events - told .leave w t events

@[simp] theorem net_nil (w t : UInt64) : net w t [] = 0 := rfl

theorem net_append (w t : UInt64) (l l' : List AoiEvent) :
    net w t (l ++ l') = net w t l + net w t l' := by
  simp only [net, told, List.countP_append]
  omega

theorem net_cons (w t : UInt64) (e : AoiEvent) (l : List AoiEvent) :
    net w t (e :: l) = net w t [e] + net w t l :=
  net_append w t [e] l

theorem net_enter (w t a b : UInt64) (ox oy x y : ℤ) :
    net w t [⟨.enter, a, b, ox, oy, x, y⟩] = if a = w ∧ b = t then 1 else 0 := by
  by_cases h : a = w ∧ b = t
  · simp [net, told, h]
  · simp [net, told, h]

theorem net_leave (w t a b : UInt64) (ox oy x y : ℤ) :
    net w t [⟨.leave, a, b, ox, oy, x, y⟩] = if a = w ∧ b = t then -1 else 0 := by
  by_cases h : a = w ∧ b = t
  · simp [net, told, h]
  · simp [net, told, h]

theorem net_move (w t a b : UInt64) (ox oy x y : ℤ) :
    net w t [⟨.move, a, b, ox, oy, x, y⟩] = 0 := by
  simp [net, told]

/-- In a loop over entities, each met once, only the turn of `a` counts. -/
theorem net_flatMap {w t : UInt64} {others : List UInt64} {f : UInt64 → List AoiEvent} {a : UInt64}
    {v : ℤ} (hn : others.Nodup) (h : ∀ o ∈ others, net w t (f o) = if o = a then v else 0) :
    net w t (others.flatMap f) = if a ∈ others then v else 0 := by
  induction others with
  | nil => simp
  | cons o os ih =>
    obtain ⟨ho, hos⟩ := List.nodup_cons.1 hn
    rw [List.forall_mem_cons] at h
    rw [List.flatMap_cons, net_append, h.1, ih hos h.2]
    by_cases hoa : o = a
    · subst hoa
      rw [if_pos rfl, if_neg ho, if_pos List.mem_cons_self, Int.add_zero]
    · have hmem : a ∈ o :: os ↔ a ∈ os := by
        rw [List.mem_cons, or_iff_right (Ne.symm hoa)]
      rw [if_neg hoa, Int.zero_add]
      simp only [hmem]

theorem net_flatMap_zero {w t : UInt64} {others : List UInt64} {f : UInt64 → List AoiEvent}
    (h : ∀ o ∈ others, net w t (f o) = 0) : net w t (others.flatMap f) = 0 := by
  induction others with
  | nil => rfl
  | cons o os ih =>
    rw [List.forall_mem_cons] at h
    rw [List.flatMap_cons, net_append, h.1, ih h.2, Int.add_zero]

/-! ## Runs with their events -/

namespace GridAoi

/-- A call as it happened: the grid before it, the operation, and what it did. -/
structure Step where
  before : GridAoi
  op : Op
  outcome : Outcome

/-- The calls of a run, and the grid at its end. -/
def execAll (s : GridAoi) (ops : List Op) : Option (GridAoi × List Step) :=
  ops.foldlM (fun r op ↦ (r.1.exec op).map fun o ↦ (o.aoi, r.2 ++ [⟨r.1, op, o⟩])) (s, [])

/-- Whether the entity `f` is in view of the entity `e`. -/
def near (c : Config) (e f : Entity) : Bool :=
  match c.posToGrid e.x e.y, c.posToGrid f.x f.y with
  | some p, some q => decide (Near c.viewRange p q)
  | _, _ => false

/-- Whether both are stored, and `t` is in view of `w`. -/
def sees (s : GridAoi) (w t : UInt64) : Bool :=
  match s.entities.lookup w, s.entities.lookup t with
  | some e, some f => near s.config e f
  | _, _ => false

/-- Whether the call put the entity `id` into the grid. -/
def Step.adds (st : Step) (id : UInt64) : Bool :=
  match st.op with
  | .add e => decide (e.id = id) && st.outcome.result
  | _ => false

/-- Whether an entity that is being added has `t` in view. -/
def Step.newcomerSees (st : Step) (t : UInt64) : Bool :=
  match st.op, st.before.entities.lookup t with
  | .add e, some f => near st.before.config e f
  | _, _ => false

/-- The balance of `w` about `t` after one more call: it starts anew when one of them is added. -/
def tallyStep (w t : UInt64) (n : ℤ) (st : Step) : ℤ :=
  (if st.adds w || st.adds t then 0 else n) + net w t st.outcome.events

/-- The ENTERs minus the LEAVEs for `w` about `t` since both were last added. -/
def tally (w t : UInt64) (steps : List Step) : ℤ := steps.foldl (tallyStep w t) 0

/-- The same for `missed`. -/
def missedStep (w t : UInt64) (b : Bool) (st : Step) : Bool :=
  if st.adds w then st.newcomerSees t else if st.adds t then false else b

/-- Whether of the last insertions of `w` and `t` that of `w` came later, and had `t` in view. -/
def missed (w t : UInt64) (steps : List Step) : Bool := steps.foldl (missedStep w t) false

/-! ## Who is told what -/

section Events

variable {s : GridAoi} {w h : ℤ}

theorem near_eq {c : Config} (hd : Dims c w h) (e f : Entity) :
    near c e f = decide (Near c.viewRange (c.cell w h e.x e.y) (c.cell w h f.x f.y)) := by
  rw [near, hd.posToGrid_eq, hd.posToGrid_eq]

theorem near_symm {c : Config} (hd : Dims c w h) (e f : Entity) : near c e f = near c f e := by
  rw [near_eq hd, near_eq hd, decide_eq_decide]
  exact near_comm

/-- The cell of `f` is among the cells in view of `e`. -/
theorem mem_view_iff (hd : Dims s.config w h) (e f : Entity) :
    s.cellOf w h f ∈ (s.config.view w h e.x e.y).cells ↔ near s.config e f = true := by
  rw [Rect.mem_cells, Config.view, contains_window, near_eq hd, decide_eq_true_eq]
  exact and_iff_right (hd.cell_inGrid f.x f.y)

/-- `add_entity` tells everyone who sees the new entity, and nobody else. -/
theorem Indexed.net_addEvents (hi : s.Indexed w h) (hcb : s.hasCallback = true) {e : Entity}
    {events : List AoiEvent} (hev : s.addEvents e = some events) {a b : UInt64} (hab : a ≠ b)
    {f : Entity} (hf : s.entities.lookup a = some f) :
    net a b events = if b = e.id ∧ near s.config e f = true then 1 else 0 := by
  rw [addEvents, if_pos hcb] at hev
  obtain ⟨view, hview, hnot⟩ := Option.bind_eq_some_iff.1 hev
  obtain ⟨rfl, -⟩ := hi.dims.getGridsInView_eq_some hview
  obtain ⟨others, hothers, hn, hmem⟩ := hi.notify_spec e.id (fun p hp ↦ inGrid_view hp)
    (Rect.nodup_cells _) fun other ↦ [⟨.enter, other, e.id, 0, 0, e.x, e.y⟩]
  rw [hothers] at hnot
  cases hnot
  by_cases hb : b = e.id
  · have hin : a ∈ others ↔ near s.config e f = true := by
      rw [hmem, hf, ← mem_view_iff hi.dims]
      simp [hb ▸ hab]
    rw [net_flatMap (a := a) (v := 1) hn fun o _ ↦ by simp [net_enter, hb]]
    simp [hin, hb]
  · rw [net_flatMap_zero fun o _ ↦ by simp [net_enter, Ne.symm hb], if_neg fun hc ↦ hb hc.1]

/-- `remove_entity` tells nothing about other entities. -/
theorem net_removeEvents {id : UInt64} {e : Entity} {events : List AoiEvent}
    (hev : s.removeEvents id e = some events) {a b : UInt64} (hb : b ≠ id) :
    net a b events = 0 := by
  rw [removeEvents] at hev
  split at hev
  · obtain ⟨view, hview, hnot⟩ := Option.bind_eq_some_iff.1 hev
    obtain ⟨ids, -, hids⟩ := Option.bind_eq_some_iff.1 hnot
    cases hids
    exact net_flatMap_zero fun o _ ↦ by simp [net_leave, Ne.symm hb]
  · cases hev
    rfl

theorem net_moveEvents {id : UInt64} {ox oy x y : ℤ} {grid : ℤ × ℤ} {events : List AoiEvent}
    (hev : s.moveEvents id ox oy x y grid = some events) (a b : UInt64) : net a b events = 0 := by
  rw [moveEvents] at hev
  split at hev
  · obtain ⟨ids, -, hids⟩ := Option.bind_eq_some_iff.1 hev
    cases hids
    exact net_flatMap_zero fun o _ ↦ net_move a b o id ox oy x y
  · cases hev
    rfl

theorem net_bothLeave (a b id o : UInt64) :
    net a b (bothLeave id o) =
      (if o = a ∧ id = b then -1 else 0) + if id = a ∧ o = b then -1 else 0 := by
  rw [bothLeave, net_cons, net_leave, net_leave]

theorem net_bothEnter {o : UInt64} {f : Entity} (hf : s.entities.lookup o = some f)
    (a b id : UInt64) (x y : ℤ) :
    net a b (s.bothEnter id x y o) =
      (if o = a ∧ id = b then 1 else 0) + if id = a ∧ o = b then 1 else 0 := by
  rw [bothEnter, hf, net_cons, net_enter, net_enter]

/-- 1 for true and 0 for false. -/
def bit (b : Bool) : ℤ := if b then 1 else 0

/-- What the three loops tell is what changes: `o` and the entity that moves, or others. -/
theorem Indexed.net_crossEvents (hi : s.Indexed w h) (hcb : s.hasCallback = true) {id : UInt64}
    {e : Entity} {x y : ℤ} {events : List AoiEvent}
    (hev : s.crossEvents id e.x e.y x y (s.config.view w h e.x e.y) (s.config.view w h x y) =
      some events) :
    (∀ o f, o ≠ id → s.entities.lookup o = some f →
      ∀ a b, (a = id ∧ b = o ∨ a = o ∧ b = id) → net a b events =
        bit (near s.config { e with x := x, y := y } f) - bit (near s.config e f)) ∧
      ∀ a b, a ≠ id → b ≠ id → net a b events = 0 := by
  obtain ⟨left, entered, moved, hleft, hentered, -, hloops⟩ := hi.crossLoops_spec id e.x e.y x y
  rw [crossEvents, if_pos hcb, hloops] at hev
  cases hev
  have hmoved : ∀ a b, net a b (List.flatMap
      (fun other ↦ [⟨.move, other, id, e.x, e.y, x, y⟩]) moved) = 0 :=
    fun a b ↦ net_flatMap_zero fun o _ ↦ net_move a b o id e.x e.y x y
  have hstored : ∀ o ∈ entered, ∃ f, s.entities.lookup o = some f := by
    intro o ho
    obtain ⟨-, f, hf, -⟩ := (hentered.mem_iff o).1 ho
    exact ⟨f, hf⟩
  constructor
  · intro o f ho hf a b hab
    have hin : o ∈ left ↔ near s.config e f = true ∧
        ¬ near s.config { e with x := x, y := y } f = true := by
      rw [hleft.mem_iff, hf, ← mem_view_iff hi.dims, ← mem_view_iff hi.dims]
      simp [ho]
    have hin' : o ∈ entered ↔ near s.config { e with x := x, y := y } f = true ∧
        ¬ near s.config e f = true := by
      rw [hentered.mem_iff, hf, ← mem_view_iff hi.dims, ← mem_view_iff hi.dims]
      simp [ho]
    have hl : net a b (left.flatMap (bothLeave id)) = if o ∈ left then -1 else 0 := by
      refine net_flatMap hleft.nodup fun o' _ ↦ ?_
      rw [net_bothLeave]
      rcases hab with ⟨rfl, rfl⟩ | ⟨rfl, rfl⟩ <;> simp [Ne.symm ho]
    have he : net a b (entered.flatMap (s.bothEnter id x y)) = if o ∈ entered then 1 else 0 := by
      refine net_flatMap hentered.nodup fun o' ho' ↦ ?_
      obtain ⟨f', hf'⟩ := hstored o' ho'
      rw [net_bothEnter hf']
      rcases hab with ⟨rfl, rfl⟩ | ⟨rfl, rfl⟩ <;> simp [Ne.symm ho]
    rw [net_append, net_append, hl, he, hmoved]
    simp only [hin, hin', bit]
    cases near s.config e f <;> cases near s.config { e with x := x, y := y } f <;> decide
  · intro a b ha hb
    have hl : net a b (left.flatMap (bothLeave id)) = 0 :=
      net_flatMap_zero fun o _ ↦ by simp [net_bothLeave, Ne.symm ha, Ne.symm hb]
    have he : net a b (entered.flatMap (s.bothEnter id x y)) = 0 := by
      refine net_flatMap_zero fun o ho ↦ ?_
      obtain ⟨f, hf⟩ := hstored o ho
      simp [net_bothEnter hf, Ne.symm ha, Ne.symm hb]
    rw [net_append, net_append, hl, he, hmoved, Int.add_zero, Int.add_zero]

end Events

/-! ## The balance -/

section Balance

variable {s : GridAoi} {w h : ℤ}

/-- The entities `a` and `b` are stored as `e` and `f`. -/
theorem sees_eq {a b : UInt64} {e f : Entity} (he : s.entities.lookup a = some e)
    (hf : s.entities.lookup b = some f) : s.sees a b = near s.config e f := by
  rw [sees, he, hf]

theorem sees_congr {s' : GridAoi} (hc : s'.config = s.config) {a b : UInt64}
    (ha : s'.entities.lookup a = s.entities.lookup a)
    (hb : s'.entities.lookup b = s.entities.lookup b) : s'.sees a b = s.sees a b := by
  rw [sees, sees, ha, hb, hc]

/-- The balance `n` of `a` about `b` is right, but for what was missed. -/
def Balanced (s : GridAoi) (a b : UInt64) (n : ℤ) (m : Bool) : Prop :=
  ∀ e f, s.entities.lookup a = some e → s.entities.lookup b = some f →
    n = bit (s.sees a b) - bit m

theorem tallyStep_of_not_adds {a b : UInt64} {st : Step} (ha : st.adds a = false)
    (hb : st.adds b = false) (n : ℤ) : tallyStep a b n st = n + net a b st.outcome.events := by
  rw [tallyStep, ha, hb]
  rfl

theorem missedStep_of_not_adds {a b : UInt64} {st : Step} (ha : st.adds a = false)
    (hb : st.adds b = false) (m : Bool) : missedStep a b m st = m := by
  rw [missedStep, ha, hb]
  rfl

variable {a b : UInt64} {n : ℤ} {m : Bool}

/-- The new entity is told nothing; those who see it are told of it. -/
theorem balanced_added (hi : s.Indexed w h) (hcb : s.hasCallback = true) (hab : a ≠ b)
    (hbal : s.Balanced a b n m) {k : Entity} {s' : GridAoi} (hi' : s'.Indexed w h)
    (hc : Changed s s' k.id (some k)) {events : List AoiEvent}
    (hev : s'.addEvents k = some events) :
    s'.Balanced a b (tallyStep a b n ⟨s, .add k, ⟨s', true, events⟩⟩)
      (missedStep a b m ⟨s, .add k, ⟨s', true, events⟩⟩) := by
  intro e f he hf
  have hcb' : s'.hasCallback = true := by rw [hc.hasCallback, hcb]
  have hnet := hi'.net_addEvents hcb' hev hab he
  have hadds : ∀ i, Step.adds ⟨s, .add k, ⟨s', true, events⟩⟩ i = decide (k.id = i) := by
    intro i
    simp [Step.adds]
  rw [sees_eq he hf, hc.config]
  rw [hc.config] at hnet
  rw [hc.lookup] at he hf
  simp only [tallyStep, missedStep, hadds, hnet]
  by_cases ha : k.id = a
  · -- the newcomer is the watcher: the table before already has `b`
    rw [if_pos ha.symm] at he
    rw [if_neg (by rw [ha]; exact hab.symm)] at hf
    cases he
    have hsees : Step.newcomerSees ⟨s, .add k, ⟨s', true, events⟩⟩ b = near s.config k f := by
      simp only [Step.newcomerSees, hf]
    simp [ha, hab.symm, hsees]
  · by_cases hb : k.id = b
    · rw [if_pos hb.symm] at hf
      cases hf
      rw [near_symm hi.dims]
      simp [hb, hab.symm, bit]
    · rw [if_neg (Ne.symm ha)] at he
      rw [if_neg (Ne.symm hb)] at hf
      have hold := hbal e f he hf
      rw [sees_eq he hf] at hold
      simp [ha, hb, Ne.symm hb, hold]

theorem balanced_removed (hbal : s.Balanced a b n m) {id : UInt64} {k : Entity} {s' : GridAoi}
    (hc : Changed s s' id none) {events : List AoiEvent}
    (hev : s.removeEvents id k = some events) :
    s'.Balanced a b (tallyStep a b n ⟨s, .remove id, ⟨s', true, events⟩⟩)
      (missedStep a b m ⟨s, .remove id, ⟨s', true, events⟩⟩) := by
  have hother : ∀ {i e}, s'.entities.lookup i = some e → i ≠ id := by
    rintro i e he rfl
    rw [hc.lookup, if_pos rfl] at he
    cases he
  intro e f he hf
  have ha := hc.lookup a
  have hb := hc.lookup b
  rw [if_neg (hother he)] at ha
  rw [if_neg (hother hf)] at hb
  rw [tallyStep_of_not_adds rfl rfl, missedStep_of_not_adds rfl rfl,
    net_removeEvents hev (hother hf), Int.add_zero, sees_congr hc.config ha hb]
  exact hbal e f (ha ▸ he) (hb ▸ hf)

/-- A pair of which one has moved, or none. -/
theorem lookup_moved {id : UInt64} {k k' : Entity} {s' : GridAoi}
    (hk : s.entities.lookup id = some k) (hc : Changed s s' id (some k')) {i : UInt64}
    {e : Entity} (he : s'.entities.lookup i = some e) :
    (i = id ∧ e = k' ∧ s.entities.lookup i = some k) ∨
      (i ≠ id ∧ s.entities.lookup i = some e) := by
  rw [hc.lookup] at he
  split at he
  · next hid =>
    cases he
    exact .inl ⟨hid, rfl, hid ▸ hk⟩
  · next hid => exact .inr ⟨hid, he⟩

theorem balanced_moved (hi : s.Indexed w h) (hbal : s.Balanced a b n m) {id : UInt64} {k : Entity}
    {s' : GridAoi} {x y : ℤ} (hk : s.entities.lookup id = some k)
    (hcell : s.cellOf w h k = s.cellOf w h { k with x := x, y := y })
    (hc : Changed s s' id (some { k with x := x, y := y })) {events : List AoiEvent}
    (hev : s'.moveEvents id k.x k.y x y (s.cellOf w h k) = some events) :
    s'.Balanced a b (tallyStep a b n ⟨s, .update id x y, ⟨s', true, events⟩⟩)
      (missedStep a b m ⟨s, .update id x y, ⟨s', true, events⟩⟩) := by
  -- everyone is in the cell in which it was before
  have hsame : ∀ {i e}, s'.entities.lookup i = some e →
      ∃ e', s.entities.lookup i = some e' ∧ s.cellOf w h e' = s.cellOf w h e := by
    intro i e he
    rcases lookup_moved hk hc he with ⟨-, rfl, hi'⟩ | ⟨-, hi'⟩
    · exact ⟨k, hi', hcell⟩
    · exact ⟨e, hi', rfl⟩
  intro e f he hf
  obtain ⟨e', he', hce⟩ := hsame he
  obtain ⟨f', hf', hcf⟩ := hsame hf
  have hold := hbal e' f' he' hf'
  rw [sees_eq he' hf', near_eq hi.dims] at hold
  rw [tallyStep_of_not_adds rfl rfl, missedStep_of_not_adds rfl rfl, net_moveEvents hev,
    Int.add_zero, sees_eq he hf, hc.config, near_eq hi.dims, hold]
  simp only [cellOf] at hce hcf
  rw [hce, hcf]

theorem balanced_crossed (hi : s.Indexed w h) (hcb : s.hasCallback = true) (hab : a ≠ b)
    (hbal : s.Balanced a b n m) {id : UInt64} {k : Entity} {s' : GridAoi} {x y : ℤ}
    (hk : s.entities.lookup id = some k) (hi' : s'.Indexed w h)
    (hc : Changed s s' id (some { k with x := x, y := y })) {old new : Rect}
    {events : List AoiEvent} (hold : s.config.getGridsInView k.x k.y = some old)
    (hnew : s.config.getGridsInView x y = some new)
    (hev : s'.crossEvents id k.x k.y x y old new = some events) :
    s'.Balanced a b (tallyStep a b n ⟨s, .update id x y, ⟨s', true, events⟩⟩)
      (missedStep a b m ⟨s, .update id x y, ⟨s', true, events⟩⟩) := by
  obtain ⟨rfl, -⟩ := hi.dims.getGridsInView_eq_some hold
  obtain ⟨rfl, -⟩ := hi.dims.getGridsInView_eq_some hnew
  rw [← hc.config] at hev
  obtain ⟨hpair, hrest⟩ := hi'.net_crossEvents (by rw [hc.hasCallback, hcb]) hev
  rw [hc.config] at hpair
  intro e f he hf
  rw [tallyStep_of_not_adds rfl rfl, missedStep_of_not_adds rfl rfl, sees_eq he hf, hc.config]
  simp only
  rcases lookup_moved hk hc he with ⟨rfl, rfl, ha⟩ | ⟨hne, ha⟩
  · rcases lookup_moved hk hc hf with ⟨rfl, -⟩ | ⟨hne', hb⟩
    · exact absurd rfl hab
    · have hbefore := hbal k f ha hb
      rw [sees_eq ha hb] at hbefore
      rw [hpair b f hne' hf a b (.inl ⟨rfl, rfl⟩), hbefore]
      omega
  · rcases lookup_moved hk hc hf with ⟨rfl, rfl, hb⟩ | ⟨hne', hb⟩
    · have hbefore := hbal e k ha hb
      rw [sees_eq ha hb, near_symm hi.dims] at hbefore
      rw [hpair a e hne he a b (.inr ⟨rfl, rfl⟩), hbefore, near_symm hi.dims e]
      omega
    · have hbefore := hbal e f ha hb
      rw [sees_eq ha hb] at hbefore
      rw [hrest a b hne hne', hbefore, Int.add_zero]

/-- **One call keeps the balance of every pair.** -/
theorem balanced_step (hi : s.Indexed w h) (hcb : s.hasCallback = true) {op : Op} {o : Outcome}
    (ho : s.exec op = some o) (hab : a ≠ b) (hbal : s.Balanced a b n m) :
    o.aoi.Balanced a b (tallyStep a b n ⟨s, op, o⟩) (missedStep a b m ⟨s, op, o⟩) := by
  have heff := exec_effect hi op
  generalize s.exec op = r at heff ho
  cases heff with
  | refused op =>
    cases ho
    have hadds : ∀ i, Step.adds ⟨s, op, s.refused⟩ i = false := by
      intro i
      cases op <;> simp [Step.adds, refused]
    rw [tallyStep_of_not_adds (hadds a) (hadds b), missedStep_of_not_adds (hadds a) (hadds b)]
    simpa [refused] using hbal
  | added h0 hnew hi' hc =>
    obtain ⟨events, hev, rfl⟩ := Option.map_eq_some_iff.1 ho
    exact balanced_added hi hcb hab hbal hi' hc hev
  | removed hk hi' hc =>
    obtain ⟨events, hev, rfl⟩ := Option.map_eq_some_iff.1 ho
    exact balanced_removed hbal hc hev
  | moved hk hcell hi' hc =>
    obtain ⟨events, hev, rfl⟩ := Option.map_eq_some_iff.1 ho
    exact balanced_moved hi hbal hk hcell hc hev
  | crossed hk hcell hi' hc =>
    obtain ⟨old, hold, ho⟩ := Option.bind_eq_some_iff.1 ho
    obtain ⟨new, hnew, ho⟩ := Option.bind_eq_some_iff.1 ho
    obtain ⟨events, hev, rfl⟩ := Option.map_eq_some_iff.1 ho
    exact balanced_crossed hi hcb hab hbal hk hi' hc hold hnew hev

end Balance

theorem execAll_append_singleton (s : GridAoi) (ops : List Op) (op : Op) :
    s.execAll (ops ++ [op]) = (s.execAll ops).bind fun r ↦
      (r.1.exec op).map fun o ↦ (o.aoi, r.2 ++ [⟨r.1, op, o⟩]) := by
  simp [execAll, List.foldlM_append, List.foldlM_cons]

/-- **The balance of a run.**  For every two entities stored at its end, the events tell of what is
in view, but for what was in view of the later one when it was added. -/
theorem tally_eq {s₀ s : GridAoi} {w h : ℤ} (hi : s₀.Indexed w h) (hcb : s₀.hasCallback = true)
    (hempty : s₀.entities = ∅) {ops : List Op} {steps : List Step}
    (hrun : s₀.execAll ops = some (s, steps)) :
    s.Indexed w h ∧ s.hasCallback = true ∧
      ∀ a b, a ≠ b → s.Balanced a b (tally a b steps) (missed a b steps) := by
  induction ops using List.reverseRecOn generalizing s steps with
  | nil =>
    cases hrun
    refine ⟨hi, hcb, fun a b _ e f he _ ↦ ?_⟩
    rw [hempty, AList.lookup_empty] at he
    cases he
  | append_singleton ops op ih =>
    rw [execAll_append_singleton] at hrun
    obtain ⟨⟨t, before⟩, ht, hlast⟩ := Option.bind_eq_some_iff.1 hrun
    obtain ⟨o, ho, he⟩ := Option.map_eq_some_iff.1 hlast
    cases he
    obtain ⟨hit, hcbt, hbal⟩ := ih ht
    obtain ⟨hio, -, hcbo⟩ := exec_indexed hit ho
    refine ⟨hio, hcbo.trans hcbt, fun a b hab ↦ ?_⟩
    rw [tally, missed, List.foldl_append, List.foldl_append]
    exact balanced_step hit hcbt ho hab (hbal a b hab)

/-- **When the events keep a watcher's view.**  In every run on an initially empty grid of a map,
with a callback, and for every two entities `a` and `b` stored at its end: the ENTERs minus the
LEAVEs for `a` about `b` since both were last added are 1 or 0 as `b` is in view of `a` or not,
exactly when `b` was added after `a`, or was not in view of `a` when `a` was added. -/
theorem tally_iff {c : Config} (hwf : c.WellFormed) {s₀ s : GridAoi} {ops : List Op}
    {steps : List Step} (hnew : new c true = some s₀) (hrun : s₀.execAll ops = some (s, steps))
    {a b : UInt64} (hab : a ≠ b) (ha : (s.entities.lookup a).isSome)
    (hb : (s.entities.lookup b).isSome) :
    tally a b steps = (if s.sees a b then 1 else 0) ↔ missed a b steps = false := by
  obtain ⟨hi, rfl, -⟩ := new_eq_some hwf hnew
  obtain ⟨-, -, hbal⟩ := tally_eq hi rfl rfl hrun
  obtain ⟨e, he⟩ := Option.isSome_iff_exists.1 ha
  obtain ⟨f, hf⟩ := Option.isSome_iff_exists.1 hb
  rw [hbal a b hab e f he hf, bit, bit]
  cases s.sees a b <;> cases missed a b steps <;> decide

theorem tally_comesNear :
    ∃ s₀ s steps, new ⟨30, 30, 10, 1⟩ true = some s₀ ∧
      s₀.execAll [.add ⟨1, 5, 5, .player, 0⟩, .add ⟨2, 25, 25, .player, 0⟩, .update 2 15 15] =
        some (s, steps) ∧
      missed 2 1 steps = false ∧ s.sees 2 1 = true ∧ tally 2 1 steps = 1 := by
  have hwf : Config.WellFormed ⟨30, 30, 10, 1⟩ := ⟨by decide, by decide, by decide⟩
  have hne : (2 : UInt64) ≠ 1 := by decide
  have hiff := @tally_iff _ hwf _ _
    [.add ⟨1, 5, 5, .player, 0⟩, .add ⟨2, 25, 25, .player, 0⟩, .update 2 15 15] _ rfl rfl 2 1 hne
    rfl rfl
  exact ⟨_, _, _, rfl, rfl, rfl, rfl, hiff.2 rfl⟩

/-- The second of two entities in one cell is not told that it sees the first. -/
theorem newcomer_not_told :
    ¬ ∀ (c : Config) (s₀ s : GridAoi) (ops : List Op) (steps : List Step), c.WellFormed →
      new c true = some s₀ → s₀.execAll ops = some (s, steps) → ∀ a b, a ≠ b →
        (s.entities.lookup a).isSome → (s.entities.lookup b).isSome →
          tally a b steps = if s.sees a b then 1 else 0 := by
  intro h
  have htally := h ⟨30, 30, 10, 1⟩ _ _
    [.add ⟨1, 5, 5, .player, 0⟩, .add ⟨2, 5, 5, .player, 0⟩] _
    ⟨by decide, by decide, by decide⟩ rfl rfl 2 1 (by decide) rfl rfl
  exact absurd htally (by decide)

end GridAoi
end Aoi
end ChwellCore
