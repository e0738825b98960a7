import ChwellCore.Redis.Expiry
import Mathlib.Data.List.Induction

/-!
# A plain `SET`

A string and its deadline are in two tables.  `SETEX` and `EXPIRE` write a deadline, `DEL` and
`check_expire` take string and deadline away together.  `SET` writes the string only: a deadline
that the key had before stays, and applies to the new string.

`Slot.Lasting v t` is that the key has the string `v` and no deadline that has passed at time `t`.
Until `t`, the commands that do not write the string or the deadline of the key neither bring this
about nor end it (`lasting_executeAll`).  So `get_after_set_iff` is exact: after `SET k v`, a `GET`
at time `t` replies `v` if and only if the deadline that `k` had when it was set, if it had one, is
after `t`.
-/

set_option autoImplicit false

namespace ChwellCore
namespace Redis

variable {F : Type}

/-- The key has the string `v`, and at time `t` no deadline of it has passed. -/
def Slot.Lasting (v : Bytes) (t : ℤ) (s : Slot F) : Prop := s.data = some v ∧ ¬ s.Expired t

theorem not_lasting_empty (v : Bytes) (t : ℤ) : ¬ (Slot.empty : Slot F).Lasting v t := by
  rintro ⟨h, -⟩
  cases h

/-- Only the string and the deadline count. -/
theorem lasting_congr {s s' : Slot F} (hdata : s'.data = s.data) (hexpires : s'.expires = s.expires)
    (v : Bytes) (t : ℤ) : s'.Lasting v t ↔ s.Lasting v t := by
  rw [Slot.Lasting, Slot.Lasting, Slot.Expired, Slot.Expired, hdata, hexpires]

/-- Looking for an expired key before `t` finds none that `t` would not find. -/
theorem lasting_checkExpire {v : Bytes} {t t' : ℤ} (h : t' ≤ t) (s : Slot F) :
    (checkExpire t' s).Lasting v t ↔ s.Lasting v t := by
  by_cases hs : s.Expired t'
  · rw [checkExpire_of_expired hs]
    obtain ⟨deadline, hd, hle⟩ := hs
    exact iff_of_false (not_lasting_empty v t) fun hl ↦ hl.2 ⟨deadline, hd, hle.trans h⟩
  · rw [checkExpire_of_not_expired hs]

variable [Double F]

/-! ## The commands between -/

/-- The commands that write neither the string nor the deadline of their key, except that they may
find it expired. -/
def KeyCommand.leavesString : KeyCommand → Bool
  | .set _ | .setex _ _ | .setnx _ | .incr | .incrby _ | .expire _ => false
  | _ => true

/-- The command writes the string or the deadline of the key `k`. -/
def Command.writesString (k : Bytes) : Command → Bool
  | .keyed k' cmd => decide (k' = k) && !cmd.leavesString
  | .del ks => decide (k ∈ ks)
  | .ping | .empty | .unsupported _ => false

theorem KeyCommand.lasting_exec {cmd : KeyCommand} (hcmd : cmd.leavesString = true) {v : Bytes}
    {t t' : ℤ} (h : t' ≤ t) (s : Slot F) :
    (cmd.exec t' s).2.Lasting v t ↔ s.Lasting v t := by
  cases cmd with
  | set v | setex secs v | setnx v | incr | incrby inc | expire secs => cases hcmd
  | get =>
    simp only [exec]
    split <;> exact lasting_checkExpire h s
  | «exists» => exact lasting_checkExpire h s
  | _ => exact lasting_congr (exec_frame .data rfl t' s) (exec_frame .expires rfl t' s) v t

/-- **A command that does not write the string or the deadline of `k`.** -/
theorem lasting_execute {args : List Bytes} {k : Bytes}
    (hargs : (dispatch args).writesString k = false) {v : Bytes} {t t' : ℤ} (h : t' ≤ t)
    (c : RedisClient F) :
    ((execute t' args c).2 k).Lasting v t ↔ (c k).Lasting v t := by
  rw [execute]
  cases hdis : dispatch args with
  | keyed k' cmd =>
    rw [hdis] at hargs
    simp only [Command.exec, Function.update_apply]
    split
    · next hk =>
      subst hk
      have hleaves : cmd.leavesString = true := by
        simpa [Command.writesString] using hargs
      exact cmd.lasting_exec hleaves h (c k)
    · rfl
  | del ks =>
    rw [hdis, Command.writesString, decide_eq_false_iff_not] at hargs
    rw [Command.exec, delKeys_apply, if_neg hargs]
  | ping | empty | unsupported cmd => rfl

theorem lasting_executeAll {k v : Bytes} {t : ℤ} {rest : List (ℤ × List Bytes)}
    (hrest : ∀ e ∈ rest, e.1 ≤ t ∧ (dispatch e.2).writesString k = false) (c : RedisClient F) :
    (executeAll rest c k).Lasting v t ↔ (c k).Lasting v t := by
  induction rest using List.reverseRecOn with
  | nil => rfl
  | append_singleton rest e ih =>
    obtain ⟨hle, hwrites⟩ := hrest e (List.mem_append_right _ List.mem_cons_self)
    rw [executeAll_append_singleton, lasting_execute hwrites hle]
    exact ih fun e' he' ↦ hrest e' (List.mem_append_left _ he')

/-! ## `SET` and `GET` -/

theorem lasting_set {set : List Bytes} {k v : Bytes} (hset : dispatch set = .keyed k (.set v))
    (t t' : ℤ) (c : RedisClient F) :
    ((execute t' set c).2 k).Lasting v t ↔ ¬ (c k).Expired t := by
  simp only [execute, hset, Command.exec, Function.update_self]
  exact and_iff_right rfl

theorem get_reply_iff {get : List Bytes} {k : Bytes} (hget : dispatch get = .keyed k .get)
    (v : Bytes) (t : ℤ) (c : RedisClient F) :
    (execute t get c).1 = .ok (.string v) ↔ (c k).Lasting v t := by
  simp only [execute, hget, Command.exec, KeyCommand.exec]
  by_cases hexp : (c k).Expired t
  · rw [checkExpire_of_expired hexp]
    exact iff_of_false (fun h ↦ by cases h) fun h ↦ h.2 hexp
  · rw [checkExpire_of_not_expired hexp, Slot.Lasting, and_iff_left hexp]
    cases (c k).data <;> simp

/-- **How long a plain `SET` lasts**: with other commands between them, a `GET` at time `t` replies
the string that was set if and only if the deadline that the key had before is after `t`. -/
theorem get_after_set_iff {set get : List Bytes} {k v : Bytes}
    (hset : dispatch set = .keyed k (.set v)) (hget : dispatch get = .keyed k .get)
    {rest : List (ℤ × List Bytes)} {t : ℤ}
    (hrest : ∀ e ∈ rest, e.1 ≤ t ∧ (dispatch e.2).writesString k = false) (t' : ℤ)
    (c : RedisClient F) :
    (execute t get (executeAll rest (execute t' set c).2)).1 = .ok (.string v) ↔
      ∀ deadline, (c k).expires = some deadline → t < deadline := by
  rw [get_reply_iff hget, lasting_executeAll hrest, lasting_set hset, Slot.Expired]
  simp only [not_exists, not_and, not_le]

/-! ## A deadline that is still there -/

/-- After `SETEX session 1 a`, all at time 0. -/
def shortSession : RedisClient ℤ :=
  (execute 0 [lit "SETEX", lit "session", lit "1", lit "a"] .fresh).2

/-- **`SET` keeps the old deadline**: a second later the new string is gone. -/
theorem set_lost_after_setex :
    Reachable shortSession ∧
      (execute 1 [lit "GET", lit "session"]
        (execute 0 [lit "SET", lit "session", lit "b"] shortSession).2).1 = .ok .nil :=
  ⟨.execute _ _ .fresh, by decide⟩

/-- Until then it is there, whoever asks. -/
theorem set_found_after_setex :
    (execute 0 [lit "get", lit "session"]
        (executeAll [(0, [lit "GET", lit "session"]), (0, [lit "TTL", lit "session"])]
          (execute 0 [lit "SET", lit "session", lit "b"] shortSession).2)).1 =
      .ok (.string (lit "b")) := by
  refine (get_after_set_iff (k := lit "session") rfl rfl ?_ 0 shortSession).2 ?_
  · decide
  · intro deadline hd
    obtain rfl : 1 = deadline := Option.some.inj hd
    exact zero_lt_one

end Redis
end ChwellCore
