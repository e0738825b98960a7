import ChwellCore.Redis.Fencing

/-!
# The life of the renew thread

One `DistributedLock` from its constructor to the end of its destructor, while anybody may do
anything to the key in the store.  `start_renew_thread` assigns to `renew_thread_`, and after the
body of the destructor the members are destroyed, `renew_thread_` among them; `std::thread` ends the
process if the thread has not been joined by then.

It is `unlock` that joins the thread, and the destructor calls `unlock`, but both do so only while
`locked_` is set.  The renew loop clears `locked_` when it finds another value under the key, and
then leaves a thread behind that nobody joins.

`renewThread_joined_iff` says which runs are safe: those in which every lock that was acquired has
been given back, by an `unlock` that still found `locked_` set, before `try_lock` succeeds again and
before the body of the destructor is over.
-/

set_option autoImplicit false

namespace ChwellCore
namespace Redis

/-- How far the destruction of the object has come. -/
inductive Life where
  | alive
  /-- The destructor has read `locked_` and is about to call `unlock`. -/
  | closing
  /-- In that `unlock`, or behind it. -/
  | leaving
  /-- The members are destroyed. -/
  | gone
deriving DecidableEq

namespace Life

/-- Which calls the owner still makes.  A step inside a call, and a step of the renew thread, does
not ask whether the object is there. -/
def admits (life : Life) : Act Unit → Bool
  | .tryLock _ _ => life = .alive
  | .unlock _ => life = .alive || life = .closing
  | _ => true

/-- The `unlock` of the destructor is the last call. -/
def after (life : Life) : Act Unit → Life
  | .unlock _ => if life = .closing then .leaving else life
  | _ => life

end Life

/-- The lock and its life.  `owing` is not in the code: a lock has been acquired, and no `unlock`
since then has found `locked_` set. -/
structure LockLife (F : Type) where
  world : World Unit F
  life : Life
  owing : Bool

/-- A step of one of the two threads or of the clock, or one of the events around them. -/
inductive LifeAct (F : Type) where
  | act (a : Act Unit)
  /-- Somebody else does something to the key. -/
  | store (slot : Slot F)
  /-- `~DistributedLock`, up to the reading of `locked_`. -/
  | destroy
  /-- The members are destroyed. -/
  | free

namespace LockLife

variable {F : Type}

def lock (s : LockLife F) : DistributedLock := s.world.locks ()

/-- The constructor. -/
def new (now : ℤ) : LockLife F := ⟨.init now, .alive, false⟩

/-- The body of the destructor is over, and the members are not destroyed yet. -/
def Over (s : LockLife F) : Prop := s.life = .leaving ∧ s.lock.caller = .idle

/-- The object is destroyed: at least the body of the destructor is over. -/
def Destroyed (s : LockLife F) : Prop := s.Over ∨ s.life = .gone

/-- What `owing` is after a step of one of the threads. -/
def owes (owing : Bool) (l : DistributedLock) : Act Unit → Bool
  | .lease _ => true
  | .unlock _ => owing && !l.locked
  | _ => owing

instance (s : LockLife F) : Decidable s.Over := inferInstanceAs (Decidable (_ ∧ _))

instance (s : LockLife F) : Decidable s.Destroyed := inferInstanceAs (Decidable (_ ∨ _))

/-- The destruction of `renew_thread_`. -/
def freeThread (l : DistributedLock) : DistributedLock :=
  if l.renewer = .absent then l else { l with caller := .terminated, renewer := .absent }

variable [Double F] (key : Bytes) (ttl : Int32)

/-- One step; `none` if it cannot be taken.  Of the numbers drawn for the tokens nothing is
assumed, not even that they differ. -/
def step (s : LockLife F) : LifeAct F → Option (LockLife F)
  | .act a =>
    if s.life.admits a then
      (World.step key (fun _ ↦ ttl) s.world.forget a).map fun w ↦
        ⟨w, s.life.after a, owes s.owing s.lock a⟩
    else none
  | .store slot =>
    some { s with world := { s.world with redis := Function.update s.world.redis key slot } }
  | .destroy =>
    if s.life = .alive ∧ s.lock.caller = .idle then
      some { s with life := if s.lock.locked then .closing else .leaving }
    else none
  | .free =>
    if s.Over then
      some { s with life := .gone, world := s.world.put () (freeThread s.lock) s.world.redis }
    else none

def system : System (LockLife F) (LifeAct F) := System.ofPartial (step key ttl)

omit [Double F] in
/-- What is asked of a step: that it neither assigns to `renew_thread_` nor destroys it while it is
joinable, and that it is not one of the renew loop when the object is destroyed. -/
def Joined (s : LockLife F) : LifeAct F → Prop
  | .act (.lease _) | .free => s.lock.renewer = .absent
  | .act (.renewCheck _) | .act (.renewGet _) | .act (.renewExpire _) => ¬ s.Destroyed
  | _ => True

omit [Double F] in
/-- Before `try_lock` succeeds again, and before the body of the destructor is over, the lock has
been given back. -/
def GivenBack (s : LockLife F) : LifeAct F → Prop
  | .act (.lease _) | .free => s.owing = false
  | .act (.renewCheck _) | .act (.renewGet _) | .act (.renewExpire _) =>
    s.Destroyed → s.owing = false
  | _ => True

/-! ## The thread is there just as long as the lock is owed -/

/-- There is a renew thread from the acquisition of the lock until the `unlock` that found
`locked_` set has joined it. -/
structure Accounted (owing : Bool) (l : DistributedLock) : Prop where
  running : owing = true → l.renewer ≠ .absent
  joined : owing = false → l.caller ≠ .unlocking → l.renewer = .absent
  unlocking : l.caller = .unlocking → owing = false

namespace Accounted

variable {owing : Bool} {l l' : DistributedLock}

/-- Nothing is owed, and there is no thread. -/
theorem of_absent (hr : l.renewer = .absent) (hc : l.caller ≠ .unlocking) : Accounted false l where
  running ho := absurd ho Bool.false_ne_true
  joined _ _ := hr
  unlocking he := absurd he hc

/-- Outside of `unlock` the flag and the thread agree. -/
theorem renewer_eq_absent_iff (h : Accounted owing l) (hc : l.caller ≠ .unlocking) :
    l.renewer = .absent ↔ owing = false := by
  constructor
  · intro hr
    by_contra ho
    exact h.running (Bool.eq_true_of_not_eq_false ho) hr
  · intro ho
    exact h.joined ho hc

/-- Outside of `unlock` it is enough that the thread stays there or stays away. -/
theorem congr (h : Accounted owing l) (hc : l.caller ≠ .unlocking) (hc' : l'.caller ≠ .unlocking)
    (hr : l'.renewer = l.renewer) : Accounted owing l' where
  running ho := hr ▸ h.running ho
  joined ho _ := hr ▸ h.joined ho hc
  unlocking he := absurd he hc'

/-- A thread that goes on. -/
theorem of_running (h : Accounted owing l) (hr : l.renewer ≠ .absent) (hr' : l'.renewer ≠ .absent)
    (hc : l'.caller = l.caller) : Accounted owing l' where
  running _ := hr'
  joined ho hne := absurd (h.joined ho (hc ▸ hne)) hr
  unlocking he := h.unlocking (hc ▸ he)

/-- The call of `unlock` settles what is owed, if it finds `locked_` set. -/
theorem beginUnlock (h : Accounted owing l) (hc : l.caller ≠ .unlocking) :
    Accounted (owing && !l.locked) l.beginUnlock := by
  rw [DistributedLock.beginUnlock]
  by_cases hlocked : l.locked = true
  · rw [hlocked, Bool.not_true, Bool.and_false, if_pos rfl]
    exact ⟨fun ho ↦ absurd ho Bool.false_ne_true, fun _ hne ↦ absurd rfl hne, fun _ ↦ rfl⟩
  · rw [Bool.eq_false_of_not_eq_true hlocked, Bool.not_false, Bool.and_true,
      if_neg Bool.false_ne_true]
    exact h.congr hc hc rfl

/-- Every step of the two threads keeps the account, if `try_lock` finds no thread. -/
theorem moves (h : Accounted owing l) {a : Act Unit} (hm : World.Moves l a l')
    (hlease : a = .lease () → l.renewer = .absent) : Accounted (owes owing l a) l' := by
  cases hm with
  | refused => exact h
  | stored _ _ hc => exact h.congr (by simp [hc]) (by simp) rfl
  | lease =>
    rw [DistributedLock.acquire]
    split
    · exact ⟨fun _ ↦ by simp, fun ho ↦ absurd ho (by simp [owes]), by simp⟩
    · next hne => exact absurd (hlease rfl) hne
  | unlock _ hc => exact h.beginUnlock (by simp [hc])
  | joined _ hc | joinedLate _ hc =>
    show Accounted owing _
    rw [h.unlocking hc]
    exact .of_absent rfl (by simp [DistributedLock.endUnlock])
  | deleted _ hc => exact h.congr (by simp [hc]) (by simp [DistributedLock.endUnlock]) rfl
  | checked _ _ hr hnext => exact h.of_running (by simp [hr]) hnext rfl
  | matched _ hr | lost _ hr | renewed _ _ hr =>
    exact h.of_running (by simp [hr]) (by simp) rfl

end Accounted

variable {key} {ttl} {s t : LockLife F} {a : Act Unit}

/-- What a step of the threads does. -/
theorem step_act (hs : step key ttl s (.act a) = some t) :
    s.life.admits a = true ∧ ∃ w : World Unit F,
      World.step key (fun _ ↦ ttl) s.world.forget a = some w ∧
      t = ⟨w, s.life.after a, owes s.owing s.lock a⟩ := by
  rw [step] at hs
  obtain ⟨hadmits, hs⟩ := Option.ite_none_right_eq_some.1 hs
  obtain ⟨w, hw, rfl⟩ := Option.map_eq_some_iff.1 hs
  exact ⟨hadmits, w, hw, rfl⟩

/-- What it makes of the object. -/
theorem moves_of_step (hs : step key ttl s (.act a) = some t) (ha : a.actor = some ()) :
    World.Moves s.lock a t.lock := by
  obtain ⟨-, w, hw, rfl⟩ := step_act hs
  exact World.step_moves hw ha

omit [Double F] in
theorem actor_of_ne_tick (ha : a ≠ .tick) : a.actor = some () := by
  rcases a with _ | _
  · exact absurd rfl ha
  all_goals rfl

/-- There is a thread that takes the steps of the renew loop. -/
theorem renewer_ne_absent (ha : a = .renewCheck () ∨ a = .renewGet () ∨ a = .renewExpire ())
    (hs : step key ttl s (.act a) = some t) : s.lock.renewer ≠ .absent := by
  have hm := moves_of_step hs (by rcases ha with rfl | rfl | rfl <;> rfl)
  generalize s.lock = l at hm
  generalize t.lock = l' at hm
  rcases ha with rfl | rfl | rfl <;> cases hm <;> simp [*]

/-- What is kept. -/
structure Inv (s : LockLife F) : Prop where
  accounted : Accounted s.owing s.lock
  gone : s.life = .gone → s.owing = false ∧ s.lock.caller = .idle

omit [Double F] in
/-- Where the body of the destructor is over, no `unlock` is under way. -/
theorem Inv.caller_of_destroyed (h : s.Inv) (hd : s.Destroyed) : s.lock.caller = .idle := by
  rcases hd with hover | hgone
  · exact hover.2
  · exact (h.gone hgone).2

/-- When the object is gone, only the clock goes on. -/
theorem Inv.act_of_gone (h : s.Inv) (hgone : s.life = .gone)
    (hs : step key ttl s (.act a) = some t) : a = .tick := by
  obtain ⟨howing, hidle⟩ := h.gone hgone
  have habsent := h.accounted.joined howing (by simp [hidle])
  obtain ⟨hadmits, -⟩ := step_act hs
  rw [hgone] at hadmits
  by_contra ha
  have hm := moves_of_step hs (actor_of_ne_tick ha)
  generalize s.lock = l at hidle habsent hm
  generalize t.lock = l' at hm
  cases hm with
  | refused | stored | unlock => cases hadmits
  | lease _ _ _ hc | joined _ hc | joinedLate _ hc | deleted _ hc =>
    rw [hidle] at hc
    cases hc
  | checked _ _ hr | matched _ hr | lost _ hr | renewed _ _ hr =>
    rw [habsent] at hr
    cases hr

theorem Inv.accounted_act (h : s.Inv) (hjoined : s.Joined (.act a))
    (hs : step key ttl s (.act a) = some t) : Accounted t.owing t.lock := by
  have hlease : a = .lease () → s.lock.renewer = .absent := by
    rintro rfl
    exact hjoined
  obtain ⟨-, w, hw, ht⟩ := step_act hs
  by_cases ha : a = .tick
  · subst ha
    obtain rfl := Option.some.inj hw
    rw [ht]
    exact h.accounted
  · have hm := moves_of_step hs (actor_of_ne_tick ha)
    have howing : t.owing = owes s.owing s.lock a := by rw [ht]
    rw [howing]
    exact h.accounted.moves hm hlease

variable {e : LifeAct F}

/-- Every step that does what is asked keeps the invariant. -/
theorem Inv.step (h : s.Inv) (hs : LockLife.step key ttl s e = some t) (hjoined : s.Joined e) :
    t.Inv := by
  cases e with
  | act a =>
    refine ⟨h.accounted_act hjoined hs, fun hgone ↦ ?_⟩
    obtain ⟨-, w, hw, rfl⟩ := step_act hs
    -- no call of the owner ends the life of the object
    have hbefore : s.life = .gone := by
      cases a with
      | unlock =>
        rw [Life.after] at hgone
        split at hgone
        · cases hgone
        · exact hgone
      | _ => exact hgone
    obtain rfl := h.act_of_gone hbefore hs
    cases hw
    exact h.gone hbefore
  | store slot =>
    cases hs
    exact ⟨h.accounted, h.gone⟩
  | destroy =>
    obtain ⟨-, hs⟩ := Option.ite_none_right_eq_some.1 hs
    obtain rfl := Option.some.inj hs
    refine ⟨h.accounted, fun hgone ↦ ?_⟩
    change (if _ then Life.closing else .leaving) = .gone at hgone
    split at hgone <;> cases hgone
  | free =>
    obtain ⟨hover, hs⟩ := Option.ite_none_right_eq_some.1 hs
    obtain rfl := Option.some.inj hs
    have hthread : freeThread s.lock = s.lock := if_pos hjoined
    have howing := (h.accounted.renewer_eq_absent_iff (by simp [hover.2])).1 hjoined
    have hlock : (s.world.put () (freeThread s.lock) s.world.redis).locks () = s.lock :=
      (World.put_locks_self ..).trans hthread
    refine ⟨?_, fun _ ↦ ⟨howing, (congrArg DistributedLock.caller hlock).trans hover.2⟩⟩
    show Accounted s.owing ((s.world.put () (freeThread s.lock) s.world.redis).locks ())
    rw [hlock]
    exact h.accounted

/-- Where the accounts are right, a step of the renew loop comes in time just when the object is
there or the lock has not been given back. -/
theorem Inv.renew_iff (h : s.Inv) (ha : a = .renewCheck () ∨ a = .renewGet () ∨ a = .renewExpire ())
    (hs : LockLife.step key ttl s (.act a) = some t) :
    ¬ s.Destroyed ↔ (s.Destroyed → s.owing = false) := by
  refine forall_congr' fun hd ↦ iff_of_false not_false fun howing ↦ ?_
  have hcaller : s.lock.caller ≠ .unlocking := by simp [h.caller_of_destroyed hd]
  exact renewer_ne_absent ha hs (h.accounted.joined howing hcaller)

/-- One step does what is asked just when the lock has been given back. -/
theorem Inv.step_iff (h : s.Inv) (hs : LockLife.step key ttl s e = some t) :
    s.Joined e ↔ s.GivenBack e := by
  cases e with
  | act a =>
    cases a with
    | lease =>
      have hm := moves_of_step hs rfl
      refine h.accounted.renewer_eq_absent_iff fun he ↦ ?_
      generalize s.lock = l at hm he
      generalize t.lock = l' at hm
      cases hm with
      | lease _ _ _ hc =>
        rw [he] at hc
        cases hc
    | renewCheck => exact h.renew_iff (.inl rfl) hs
    | renewGet => exact h.renew_iff (.inr (.inl rfl)) hs
    | renewExpire => exact h.renew_iff (.inr (.inr rfl)) hs
    | tick | tryLock | unlock | unlockGet | unlockDel => exact Iff.rfl
  | store | destroy => exact Iff.rfl
  | free =>
    obtain ⟨hover, -⟩ := Option.ite_none_right_eq_some.1 hs
    exact h.accounted.renewer_eq_absent_iff (by simp [hover.2])

omit [Double F] in
theorem inv_new (now : ℤ) : (new now : LockLife F).Inv :=
  ⟨.of_absent rfl (by simp [lock, new, World.init, DistributedLock.fresh]), by simp [new]⟩

/-- **When the renew thread is joined.**  For every run of the owner's calls, of the destruction and
of the renew loop, whatever happens to the key in between: no step assigns to or destroys a
`renew_thread_` that is joinable, and none is one of the renew loop of a destroyed object, if and
only if each lock has been given back, by an `unlock` that found `locked_` still set, before
`try_lock` succeeds again and before the body of the destructor is over. -/
theorem renewThread_joined_iff {now : ℤ} {es : List (LifeAct F)}
    (hrun : (system key ttl).Run (new now) es s) :
    (system key ttl).Along (fun s e _ ↦ s.Joined e) (new now) es ↔
      ((system key ttl).guarded GivenBack).Run (new now) es s :=
  System.along_iff (Q := fun s e _ ↦ s.Joined e) (g := GivenBack) (P := Inv)
    (fun _ _ _ h hs ↦ h.step_iff hs) (fun _ _ _ h hs hjoined ↦ h.step hs hjoined)
    (inv_new now) hrun

instance (s : LockLife F) (e : LifeAct F) : Decidable (s.GivenBack e) :=
  match e with
  | .act (.lease _) | .free => inferInstanceAs (Decidable (_ = _))
  | .act (.renewCheck _) | .act (.renewGet _) | .act (.renewExpire _) =>
    inferInstanceAs (Decidable (_ → _))
  | .act .tick | .act (.tryLock _ _) | .act (.unlock _) | .act (.unlockGet _) | .act (.unlockDel _)
  | .store _ | .destroy => .isTrue trivial

/-- The destructor gives the lock back, and the renew thread has ended before. -/
def inTime : List (LifeAct ℤ) :=
  [.act (.tryLock () 10), .act (.lease ()), .act (.renewCheck ()), .destroy, .act (.renewGet ()),
    .act (.unlock ()), .act (.renewExpire ()), .act (.renewCheck ()), .act (.unlockGet ()),
    .act (.unlockDel ()), .free]

theorem renewThread_joined_iff_inTime :
    ∃ s : LockLife ℤ, ((system (lit "lock") 30).guarded GivenBack).Run (new 0) inTime s ∧
      s.life = .gone ∧ (system (lit "lock") 30).Along (fun s e _ ↦ s.Joined e) (new 0) inTime := by
  obtain ⟨s, hrun, hgone⟩ : ∃ s : LockLife ℤ,
      ((system (lit "lock") 30).guarded GivenBack).Run (new 0) inTime s ∧ s.life = .gone :=
    System.Run.exists_of_any_guarded (by decide +kernel)
  exact ⟨s, hrun, hgone, (renewThread_joined_iff hrun.of_guarded).2 hrun⟩

/-- Somebody removes the key, the renew loop finds it gone and clears `locked_`, and the destructor
calls nothing. -/
def leaseLost : List (LifeAct ℤ) :=
  [.act (.tryLock () 10), .act (.lease ()), .store .empty, .act (.renewCheck ()),
    .act (.renewGet ()), .destroy]

theorem not_forall_joined :
    ¬ ∀ (key : Bytes) (ttl : Int32) (now : ℤ) (es : List (LifeAct ℤ)) (s : LockLife ℤ),
      (system key ttl).Run (new now) es s →
        (system key ttl).Along (fun s e _ ↦ s.Joined e) (new now) es := by
  intro h
  obtain ⟨s, hrun, hsome, hthread⟩ : ∃ s : LockLife ℤ,
      (system (lit "lock") 30).Run (new 0) leaseLost s ∧
      (step (lit "lock") 30 s .free).isSome = true ∧ s.lock.renewer ≠ .absent :=
    System.Run.exists_of_any (by decide +kernel)
  obtain ⟨t, hfree⟩ := Option.isSome_iff_exists.1 hsome
  exact hthread (h (lit "lock") 30 0 _ t (hrun.snoc hfree) leaseLost [] .free s t rfl hrun hfree)

end LockLife
end Redis
end ChwellCore
