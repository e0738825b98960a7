import ChwellCore.Aoi.GridEvents

/-!
# The events of a move

`update_entity` has two ways.  To another cell it walks over the cells in view before and after and
tells each pair what has become of it; within a cell it takes a shortcut, which tells the other
entities of that cell only.

What should be told of each other entity depends on the two cells in which the one that moves is and
on that of the other one (`crossing`), and within a cell there is only a MOVE or nothing (`moving`).
`crossEvents_exact` says that the walk tells that and no more, whatever the cells are; so the calls
that go wrong across cells are those in which a bound of a window overflows (`cross_iff`).  The
shortcut is right just if those in view are those in the same cell (`move_iff`).
-/

set_option autoImplicit false

namespace ChwellCore
namespace Aoi

open CellGrid

/-! ## Events for each other entity -/

/-- The events that tell `o` something or tell of `o`. -/
def about (o : UInt64) (events : List AoiEvent) : List AoiEvent :=
  events.filter fun ev ↦ ev.watcherId = o ∨ ev.targetId = o

/-- In a loop over entities, each met once, only the turn of `o` is about `o`. -/
theorem about_flatMap {others : List UInt64} {f : UInt64 → List AoiEvent} {o : UInt64}
    {events : List AoiEvent} (hn : others.Nodup)
    (h : ∀ k ∈ others, about o (f k) = if k = o then events else []) :
    about o (others.flatMap f) = if o ∈ others then events else [] := by
  induction others with
  | nil => rfl
  | cons k ks ih =>
    obtain ⟨hk, hks⟩ := List.nodup_cons.1 hn
    rw [List.forall_mem_cons] at h
    rw [List.flatMap_cons, about, List.filter_append, ← about, ← about, h.1, ih hks h.2]
    by_cases hko : k = o
    · subst hko
      rw [if_pos rfl, if_neg hk, if_pos List.mem_cons_self, List.append_nil]
    · have hmem : o ∈ k :: ks ↔ o ∈ ks := by
        rw [List.mem_cons, or_iff_right (Ne.symm hko)]
      rw [if_neg hko, List.nil_append]
      simp only [hmem]

namespace GridAoi

/-- The events are those expected for each entity other than `id`, and no more. -/
structure Exactly (s : GridAoi) (id : UInt64) (expected : UInt64 → Entity → List AoiEvent)
    (events : List AoiEvent) : Prop where
  each : ∀ o f, o ≠ id → s.entities.lookup o = some f → about o events = expected o f
  only : ∀ ev ∈ events, ∃ o f, o ≠ id ∧ s.entities.lookup o = some f ∧ ev ∈ expected o f

/-- What is to be told of `o`, stored as `f`, when `id` goes from where `e` is to `(x, y)`. -/
def crossing (c : Config) (id : UInt64) (e : Entity) (x y : ℤ) (o : UInt64) (f : Entity) :
    List AoiEvent :=
  match near c e f, near c { e with x := x, y := y } f with
  | true, false => [⟨.leave, o, id, 0, 0, 0, 0⟩, ⟨.leave, id, o, 0, 0, 0, 0⟩]
  | false, true => [⟨.enter, o, id, 0, 0, x, y⟩, ⟨.enter, id, o, 0, 0, f.x, f.y⟩]
  | true, true => [⟨.move, o, id, e.x, e.y, x, y⟩]
  | false, false => []

/-- The same when the cell does not change. -/
def moving (c : Config) (id : UInt64) (e : Entity) (x y : ℤ) (o : UInt64) (f : Entity) :
    List AoiEvent :=
  if near c e f then [⟨.move, o, id, e.x, e.y, x, y⟩] else []

/-- The bounds of the window around a cell do not overflow. -/
def WindowFits (c : Config) (p : ℤ × ℤ) : Prop :=
  ∀ n ∈ [p.1 - c.viewRange, p.1 + c.viewRange, p.2 - c.viewRange, p.2 + c.viewRange],
    -2147483648 ≤ n ∧ n ≤ 2147483647

section Walk

variable {s : GridAoi} {w h : ℤ}

theorem getGridsInView_isSome_iff {c : Config} (hd : Dims c w h) (x y : ℤ) :
    (∃ r, c.getGridsInView x y = some r) ↔ WindowFits c (c.cell w h x y) := by
  have hw := hd.w_le
  have hh := hd.h_le
  have hw1 := hd.one_le_w
  have hh1 := hd.one_le_h
  rw [Config.getGridsInView, hd.posToGrid_eq, hd.xCount, hd.yCount]
  simp only [Option.bind_eq_bind, Option.bind_some, Option.bind_eq_some_iff, checked_eq_some]
  constructor
  · rintro ⟨r, _, ⟨rfl, h1⟩, _, ⟨rfl, h2⟩, _, -, _, ⟨rfl, h3⟩, _, -, _, ⟨rfl, h4⟩, -⟩
    simp only [WindowFits, List.forall_mem_cons]
    exact ⟨h1, h3, h2, h4, by simp⟩
  · intro hfits
    simp only [WindowFits, List.forall_mem_cons] at hfits
    obtain ⟨h1, h3, h2, h4, -⟩ := hfits
    exact ⟨_, _, ⟨rfl, h1⟩, _, ⟨rfl, h2⟩, _, ⟨rfl, by omega, by omega⟩, _, ⟨rfl, h3⟩, _,
      ⟨rfl, by omega, by omega⟩, _, ⟨rfl, h4⟩, rfl⟩

theorem about_bothLeave {id o : UInt64} (ho : o ≠ id) (k : UInt64) :
    about o (bothLeave id k) = if k = o then bothLeave id o else [] := by
  by_cases hk : k = o
  · simp [about, bothLeave, hk]
  · simp [about, bothLeave, hk, Ne.symm ho]

theorem about_bothEnter {id o : UInt64} (ho : o ≠ id) (x y : ℤ) (k : UInt64) :
    about o (s.bothEnter id x y k) = if k = o then s.bothEnter id x y o else [] := by
  by_cases hk : k = o
  · subst hk
    rcases hf : s.entities.lookup k with _ | f <;> simp [about, bothEnter, hf]
  · rcases hf : s.entities.lookup k with _ | f <;>
      simp [about, bothEnter, hf, hk, Ne.symm ho]

theorem about_move {id o : UInt64} (ho : o ≠ id) (ox oy x y : ℤ) (k : UInt64) :
    about o [⟨.move, k, id, ox, oy, x, y⟩] =
      if k = o then [⟨.move, o, id, ox, oy, x, y⟩] else [] := by
  by_cases hk : k = o
  · simp [about, hk]
  · simp [about, hk, Ne.symm ho]

/-- **The walk over the cells** tells what is to be told, and no more. -/
theorem Indexed.crossEvents_exact (hi : s.Indexed w h) (hcb : s.hasCallback = true) (id : UInt64)
    (e : Entity) (x y : ℤ) :
    ∃ events, s.crossEvents id e.x e.y x y (s.config.view w h e.x e.y) (s.config.view w h x y) =
      some events ∧ s.Exactly id (crossing s.config id e x y) events := by
  obtain ⟨left, entered, moved, hleft, hentered, hmoved, hloops⟩ :=
    hi.crossLoops_spec id e.x e.y x y
  rw [crossEvents, if_pos hcb, hloops]
  -- who is in which list, by what was and is in view
  have hview := mem_view_iff hi.dims e
  have hview' := mem_view_iff hi.dims { e with x := x, y := y }
  have hin : ∀ o f, o ≠ id → s.entities.lookup o = some f →
      (o ∈ left ↔ near s.config e f = true ∧ near s.config { e with x := x, y := y } f = false) ∧
        (o ∈ entered ↔
          near s.config { e with x := x, y := y } f = true ∧ near s.config e f = false) ∧
        (o ∈ moved ↔
          near s.config e f = true ∧ near s.config { e with x := x, y := y } f = true) := by
    intro o f ho hf
    rw [hleft.mem_iff, hentered.mem_iff, hmoved.mem_iff, hf]
    simp [ho, hview, hview']
  refine ⟨_, rfl, fun o f ho hf ↦ ?_, fun ev hev ↦ ?_⟩
  · obtain ⟨hl, he, hm⟩ := hin o f ho hf
    rw [about, List.filter_append, List.filter_append, ← about, ← about, ← about,
      about_flatMap hleft.nodup fun k _ ↦ about_bothLeave ho k,
      about_flatMap hentered.nodup fun k _ ↦ about_bothEnter ho x y k,
      about_flatMap hmoved.nodup fun k _ ↦ about_move ho e.x e.y x y k]
    simp only [hl, he, hm, crossing, bothLeave, bothEnter, hf]
    cases near s.config e f <;> cases near s.config { e with x := x, y := y } f <;> simp
  · have hstored : ∀ {k : UInt64} {P : ℤ × ℤ → Prop} {others : List UInt64},
        s.ListsOthers w h id P others → k ∈ others →
          k ≠ id ∧ ∃ f, s.entities.lookup k = some f := by
      intro k P others hothers hk
      obtain ⟨hne, f, hf, -⟩ := (hothers.mem_iff k).1 hk
      exact ⟨hne, f, hf⟩
    rcases List.mem_append.1 hev with hev | hev
    · rcases List.mem_append.1 hev with hev | hev
      · obtain ⟨k, hk, hev⟩ := List.mem_flatMap.1 hev
        obtain ⟨hne, f, hf⟩ := hstored hleft hk
        obtain ⟨h1, h2⟩ := (hin k f hne hf).1.1 hk
        exact ⟨k, f, hne, hf, by rw [crossing, h1, h2]; exact hev⟩
      · obtain ⟨k, hk, hev⟩ := List.mem_flatMap.1 hev
        obtain ⟨hne, f, hf⟩ := hstored hentered hk
        obtain ⟨h1, h2⟩ := (hin k f hne hf).2.1.1 hk
        rw [bothEnter, hf] at hev
        exact ⟨k, f, hne, hf, by rw [crossing, h1, h2]; exact hev⟩
    · obtain ⟨k, hk, hev⟩ := List.mem_flatMap.1 hev
      obtain ⟨hne, f, hf⟩ := hstored hmoved hk
      obtain ⟨h1, h2⟩ := (hin k f hne hf).2.2.1 hk
      exact ⟨k, f, hne, hf, by rw [crossing, h1, h2]; exact hev⟩

/-- **The shortcut** tells those in the cell, which is right just if they are those in view. -/
theorem Indexed.moveEvents_exact_iff (hi : s.Indexed w h) (hcb : s.hasCallback = true)
    (id : UInt64) (e : Entity) (x y : ℤ) :
    ∃ events, s.moveEvents id e.x e.y x y (s.cellOf w h e) = some events ∧
      (s.Exactly id (moving s.config id e x y) events ↔
        ∀ o f, o ≠ id → s.entities.lookup o = some f →
          (near s.config e f = true ↔ s.cellOf w h f = s.cellOf w h e)) := by
  obtain ⟨others, hothers, hn, hmem⟩ := hi.notify_spec id
    (fun p (hp : p ∈ [s.cellOf w h e]) ↦ List.mem_singleton.1 hp ▸ hi.cellOf_inGrid e)
    (List.nodup_singleton _) fun other ↦ [⟨.move, other, id, e.x, e.y, x, y⟩]
  rw [moveEvents, if_pos hcb, hothers]
  simp only [List.mem_singleton] at hmem
  have hin : ∀ o f, o ≠ id → s.entities.lookup o = some f →
      (o ∈ others ↔ s.cellOf w h f = s.cellOf w h e) := by
    intro o f ho hf
    rw [hmem, hf]
    simp [ho]
  have habout : ∀ o f, o ≠ id → s.entities.lookup o = some f →
      about o (List.flatMap (fun other ↦ [⟨.move, other, id, e.x, e.y, x, y⟩]) others) =
        if s.cellOf w h f = s.cellOf w h e then [⟨.move, o, id, e.x, e.y, x, y⟩] else [] := by
    intro o f ho hf
    rw [about_flatMap hn fun k _ ↦ about_move ho e.x e.y x y k]
    simp only [hin o f ho hf]
  refine ⟨_, rfl, fun hexact o f ho hf ↦ ?_, fun hnear ↦ ⟨fun o f ho hf ↦ ?_, fun ev hev ↦ ?_⟩⟩
  · have hev := (habout o f ho hf).symm.trans (hexact.each o f ho hf)
    rw [moving] at hev
    by_cases hc : s.cellOf w h f = s.cellOf w h e
    · by_cases hv : near s.config e f = true
      · exact iff_of_true hv hc
      · rw [if_pos hc, if_neg hv] at hev
        cases hev
    · by_cases hv : near s.config e f = true
      · rw [if_neg hc, if_pos hv] at hev
        cases hev
      · exact iff_of_false hv hc
  · rw [habout o f ho hf, moving]
    simp only [hnear o f ho hf]
  · obtain ⟨k, hk, hev⟩ := List.mem_flatMap.1 hev
    obtain ⟨hne, f, hf, hc⟩ := (hmem k).1 hk
    exact ⟨k, f, hne, hf, by rw [moving, if_pos ((hnear k f hne hf).2 hc)]; exact hev⟩

/-- Within a cell there is nothing but MOVEs to tell. -/
theorem crossing_eq_moving {c : Config} (hd : Dims c w h) {e : Entity} {x y : ℤ}
    (hcell : c.cell w h e.x e.y = c.cell w h x y) (id : UInt64) :
    crossing c id e x y = moving c id e x y := by
  funext o f
  have hsame : near c { e with x := x, y := y } f = near c e f := by
    rw [near_eq hd, near_eq hd, hcell]
  rw [crossing, moving, hsame]
  cases near c e f <;> rfl

/-- What is expected of others does not depend on where `id` is. -/
theorem Exactly.of_changed {s' : GridAoi} {id : UInt64} {v : Option Entity}
    {expected : UInt64 → Entity → List AoiEvent} {events : List AoiEvent}
    (hc : Changed s s' id v) :
    s'.Exactly id expected events ↔ s.Exactly id expected events := by
  have hlook : ∀ o, o ≠ id → s'.entities.lookup o = s.entities.lookup o := by
    intro o ho
    rw [hc.lookup, if_neg ho]
  constructor
  · rintro ⟨heach, honly⟩
    refine ⟨fun o f ho hf ↦ heach o f ho ((hlook o ho).trans hf), fun ev hev ↦ ?_⟩
    obtain ⟨o, f, ho, hf, hmem⟩ := honly ev hev
    exact ⟨o, f, ho, (hlook o ho).symm.trans hf, hmem⟩
  · rintro ⟨heach, honly⟩
    refine ⟨fun o f ho hf ↦ heach o f ho ((hlook o ho).symm.trans hf), fun ev hev ↦ ?_⟩
    obtain ⟨o, f, ho, hf, hmem⟩ := honly ev hev
    exact ⟨o, f, ho, (hlook o ho).trans hf, hmem⟩

end Walk

/-! ## The calls of a run -/

section Calls

variable {c : Config} {s₀ s : GridAoi} {ops : List Op} {id : UInt64} {e : Entity} {x y : ℤ}
  {p : ℤ × ℤ}

theorem reachable_indexed (hwf : c.WellFormed) (hnew : new c true = some s₀)
    (hrun : s₀.run ops = some s) :
    s.Indexed c.columns c.rows ∧ s.config = c ∧ s.hasCallback = true := by
  obtain ⟨hi, rfl, -⟩ := new_eq_some hwf hnew
  obtain ⟨hi', hc⟩ := run_indexed hi hrun
  exact ⟨hi', hc, hasCallback_run hi hrun⟩

/-- **Moves across cells.**  In every state that a grid of a map with a callback can get to, and for
every move of a stored entity to another cell: the call is defined and tells exactly what is to be
told of each other entity just if no bound of the windows around the two cells overflows. -/
theorem cross_iff (hwf : c.WellFormed) (hnew : new c true = some s₀) (hrun : s₀.run ops = some s)
    (he : s.entities.lookup id = some e) {q : ℤ × ℤ} (hp : c.posToGrid e.x e.y = some p)
    (hq : c.posToGrid x y = some q) (hne : p ≠ q) :
    (∃ o, s.exec (.update id x y) = some o ∧ o.result = true ∧
        s.Exactly id (crossing c id e x y) o.events) ↔
      WindowFits c p ∧ WindowFits c q := by
  obtain ⟨hi, rfl, hcb⟩ := reachable_indexed hwf hnew hrun
  have hcell := hi.dims.posToGrid_eq e.x e.y
  have hcell' := hi.dims.posToGrid_eq x y
  rw [hp, Option.some_inj] at hcell
  rw [hq, Option.some_inj] at hcell'
  obtain ⟨s', hi', hc, hcall⟩ := updateEntity_cross hi he (x := x) (y := y) (by
    rw [cellOf, cellOf, ← hcell, ← hcell']
    exact hne)
  rw [exec, hcall, hcell, hcell', ← getGridsInView_isSome_iff hi.dims,
    ← getGridsInView_isSome_iff hi.dims]
  constructor
  · rintro ⟨o, ho, -⟩
    obtain ⟨old, hold, ho⟩ := Option.bind_eq_some_iff.1 ho
    obtain ⟨new, hnew, -⟩ := Option.bind_eq_some_iff.1 ho
    exact ⟨⟨old, hold⟩, new, hnew⟩
  · rintro ⟨⟨old, hold⟩, new, hnew⟩
    obtain ⟨rfl, -⟩ := hi.dims.getGridsInView_eq_some hold
    obtain ⟨rfl, -⟩ := hi.dims.getGridsInView_eq_some hnew
    obtain ⟨events, hev, hexact⟩ :=
      hi'.crossEvents_exact (by rw [hc.hasCallback, hcb]) id e x y
    rw [hc.config] at hev hexact
    rw [hold, hnew, Option.bind_some, Option.bind_some, hev]
    exact ⟨_, rfl, rfl, (Exactly.of_changed hc).1 hexact⟩

theorem cross_iff_comesNear :
    ∃ s₀ s o, new ⟨30, 30, 10, 1⟩ true = some s₀ ∧
      s₀.run [.add ⟨1, 5, 5, .player, 0⟩, .add ⟨2, 25, 25, .player, 0⟩] = some s ∧
      s.exec (.update 2 15 15) = some o ∧
      s.Exactly 2 (crossing ⟨30, 30, 10, 1⟩ 2 ⟨2, 25, 25, .player, 0⟩ 15 15) o.events := by
  have hwf : Config.WellFormed ⟨30, 30, 10, 1⟩ := ⟨by decide, by decide, by decide⟩
  have hiff := @cross_iff _ _ _ [.add ⟨1, 5, 5, .player, 0⟩, .add ⟨2, 25, 25, .player, 0⟩] 2
    ⟨2, 25, 25, .player, 0⟩ 15 15 (2, 2) hwf rfl rfl rfl (1, 1) rfl rfl (by decide)
  obtain ⟨o, ho, -, hexact⟩ := hiff.2 (by simp [WindowFits])
  exact ⟨_, _, o, rfl, rfl, ho, hexact⟩

/-- With a view range of `INT_MAX` an entity can be added in the first column and the first row, and
to move it out of them overflows. -/
theorem cross_overflows_unbounded_view :
    ∃ s₀ s, Config.WellFormed ⟨30, 30, 10, 2147483647⟩ ∧
      new ⟨30, 30, 10, 2147483647⟩ true = some s₀ ∧
      s₀.run [.add ⟨1, 5, 5, .player, 0⟩] = some s ∧ s.exec (.update 1 15 5) = none :=
  ⟨_, _, ⟨by decide, by decide, by decide⟩, rfl, rfl, rfl⟩

/-- **Moves within a cell.**  In every state that a grid of a map with a callback can get to, and
for every move of a stored entity within its cell: the call sends a MOVE to each other entity in
view, and nothing else, just if the others in view are the others in the cell; and the walk over the
cells in view would have sent just that. -/
theorem move_iff (hwf : c.WellFormed) (hnew : new c true = some s₀) (hrun : s₀.run ops = some s)
    (he : s.entities.lookup id = some e) (hp : c.posToGrid e.x e.y = some p)
    (hq : c.posToGrid x y = some p) :
    ∃ o, s.exec (.update id x y) = some o ∧ o.result = true ∧
      (s.Exactly id (moving c id e x y) o.events ↔
        ∀ k f, k ≠ id → s.entities.lookup k = some f →
          (near c e f = true ↔ c.posToGrid f.x f.y = some p)) ∧
      ∀ old new, c.getGridsInView e.x e.y = some old → c.getGridsInView x y = some new →
        ∃ events, o.aoi.crossEvents id e.x e.y x y old new = some events ∧
          s.Exactly id (moving c id e x y) events := by
  obtain ⟨hi, rfl, hcb⟩ := reachable_indexed hwf hnew hrun
  have hcell := hi.dims.posToGrid_eq e.x e.y
  have hcell' := hi.dims.posToGrid_eq x y
  rw [hp, Option.some_inj] at hcell
  rw [hq, Option.some_inj] at hcell'
  obtain ⟨s', hi', hc, hcall⟩ := updateEntity_same hi he (x := x) (y := y)
    (hcell.symm.trans hcell')
  have hcb' : s'.hasCallback = true := by rw [hc.hasCallback, hcb]
  obtain ⟨events, hev, hiff⟩ := hi'.moveEvents_exact_iff hcb' id e x y
  rw [cellOf, hc.config] at hev
  rw [exec, hcall, cellOf, hev]
  refine ⟨_, rfl, rfl, ?_, fun old new hold hnew ↦ ?_⟩
  · rw [hc.config, Exactly.of_changed hc] at hiff
    rw [hiff]
    refine forall_congr' fun k ↦ forall_congr' fun f ↦ forall_congr' fun hk ↦ ?_
    rw [hc.lookup, if_neg hk, cellOf, cellOf, hc.config, hi.dims.posToGrid_eq, Option.some_inj,
      hcell]
  · obtain ⟨rfl, -⟩ := hi.dims.getGridsInView_eq_some hold
    obtain ⟨rfl, -⟩ := hi.dims.getGridsInView_eq_some hnew
    obtain ⟨events, hev, hexact⟩ := hi'.crossEvents_exact hcb' id e x y
    rw [hc.config] at hev hexact
    rw [crossing_eq_moving hi.dims (hcell.symm.trans hcell'), Exactly.of_changed hc] at hexact
    exact ⟨events, hev, hexact⟩

theorem move_iff_sameCell :
    ∃ s₀ s o, new ⟨30, 30, 10, 1⟩ true = some s₀ ∧
      s₀.run [.add ⟨1, 5, 5, .player, 0⟩, .add ⟨2, 7, 5, .player, 0⟩] = some s ∧
      s.exec (.update 1 6 5) = some o ∧
      s.Exactly 1 (moving ⟨30, 30, 10, 1⟩ 1 ⟨1, 5, 5, .player, 0⟩ 6 5) o.events := by
  have hwf : Config.WellFormed ⟨30, 30, 10, 1⟩ := ⟨by decide, by decide, by decide⟩
  obtain ⟨o, ho, -, hiff, -⟩ := @move_iff _ _ _
    [.add ⟨1, 5, 5, .player, 0⟩, .add ⟨2, 7, 5, .player, 0⟩] 1 ⟨1, 5, 5, .player, 0⟩ 6 5 (0, 0) hwf
    rfl rfl rfl rfl rfl
  refine ⟨_, _, o, rfl, rfl, ho, hiff.2 fun k f hk hf ↦ ?_⟩
  revert hk
  revert k f
  decide +kernel

/-- An entity in the cell beside is in view, and is not told of a move within the cell. -/
theorem move_not_told :
    ∃ s₀ s o, Config.WellFormed ⟨30, 30, 10, 1⟩ ∧ new ⟨30, 30, 10, 1⟩ true = some s₀ ∧
      s₀.run [.add ⟨1, 5, 5, .player, 0⟩, .add ⟨2, 15, 5, .player, 0⟩] = some s ∧
      s.exec (.update 1 6 5) = some o ∧ o.events = [] ∧
      near ⟨30, 30, 10, 1⟩ ⟨1, 5, 5, .player, 0⟩ ⟨2, 15, 5, .player, 0⟩ = true ∧
      ¬ s.Exactly 1 (moving ⟨30, 30, 10, 1⟩ 1 ⟨1, 5, 5, .player, 0⟩ 6 5) o.events := by
  refine ⟨_, _, _, ⟨by decide, by decide, by decide⟩, rfl, rfl, rfl, rfl, by decide, fun h ↦ ?_⟩
  exact absurd (h.each 2 ⟨2, 15, 5, .player, 0⟩ (by decide) rfl) (by decide)

end Calls

end GridAoi
end Aoi
end ChwellCore
