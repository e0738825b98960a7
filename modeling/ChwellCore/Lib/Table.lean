import Mathlib.Algebra.Group.Nat.Defs
import ChwellCore.Lib.UnorderedMap

/-!
# Numbered tables, and loops over tables

A table is *numbered* when its keys are the numbers from 1 up to a counter, which tells the next
key: what is kept where every entry gets the next number and none is ever erased.  Keys have 64 bits
and so has the counter; a table that holds fewer than `2 ^ 63` entries has not used them up.

A loop over the keys of a table changes the state step by step, and each step only what belongs to
its own key.  `Loop.each` says what the whole loop does, key by key, and `Loop.exists_end` that it
comes to its end.
-/

set_option autoImplicit false

universe u v w

/-- The keys of the table are the numbers below `next`, from 1 on. -/
structure Numbered {ν : Type v} (m : UnorderedMap UInt64 ν) (next : UInt64) : Prop where
  next_eq : next.toNat = m.entries.length + 1
  lt_next : ∀ k x, m.lookup k = some x → 1 ≤ k.toNat ∧ k.toNat < next.toNat

namespace Numbered

variable {ν : Type v} {m : UnorderedMap UInt64 ν} {next : UInt64}

theorem empty : Numbered (∅ : UnorderedMap UInt64 ν) 1 := by
  refine ⟨rfl, fun k x h ↦ ?_⟩
  rw [AList.lookup_empty] at h
  cases h

theorem ne_zero (h : Numbered m next) : next ≠ 0 := by
  rintro rfl
  have := h.next_eq
  rw [UInt64.toNat_zero] at this
  omega

/-- The next key is new. -/
theorem lookup_next (h : Numbered m next) : m.lookup next = none := by
  rcases hx : m.lookup next with _ | x
  · rfl
  · exact absurd (h.lt_next next x hx).2 (lt_irrefl _)

theorem ne_next (h : Numbered m next) {k : UInt64} {x : ν} (hk : m.lookup k = some x) :
    k ≠ next := by
  rintro rfl
  rw [h.lookup_next] at hk
  cases hk

theorem insert (h : Numbered m next) (hroom : m.entries.length < 2 ^ 63) (x : ν) :
    Numbered (m.insert next x) (next + 1) := by
  have hnext := h.next_eq
  have hsucc : (next + 1).toNat = next.toNat + 1 := by
    rw [UInt64.toNat_add, UInt64.toNat_one]
    exact Nat.mod_eq_of_lt (by omega)
  refine ⟨?_, fun k y hk ↦ ?_⟩
  · rw [hsucc, AList.entries_insert_of_notMem (AList.lookup_eq_none.1 h.lookup_next),
      List.length_cons, hnext]
  · rw [UnorderedMap.lookup_insert_ite] at hk
    split at hk
    · next heq =>
      rw [heq, hsucc]
      omega
    · have := h.lt_next k y hk
      omega

/-- An entry that is written again stays the one entry of its key. -/
theorem replace (h : Numbered m next) {k : UInt64} {x : ν} (hk : m.lookup k = some x) (y : ν) :
    Numbered (m.insert k y) next := by
  refine ⟨?_, fun j z hj ↦ ?_⟩
  · rw [h.next_eq, (UnorderedMap.entries_perm_erase hk).length_eq, AList.entries_insert]
    rfl
  · rw [UnorderedMap.lookup_insert_ite] at hj
    split at hj
    · next heq =>
      rw [heq]
      exact h.lt_next k x hk
    · exact h.lt_next j z hj

end Numbered

/-! ## Loops -/

namespace Loop

variable {σ : Type u} {κ : Type v} {δ : Type w} {step : σ → κ → Option σ} {P : σ → Prop}

/-- What every step keeps is kept by the loop. -/
theorem invariant {ks : List κ} (hstep : ∀ k ∈ ks, ∀ s s', P s → step s k = some s' → P s')
    {s s' : σ} (hs : P s) (h : ks.foldlM step s = some s') : P s' := by
  induction ks generalizing s with
  | nil =>
    cases h
    exact hs
  | cons k ks ih =>
    rw [List.forall_mem_cons] at hstep
    rw [List.foldlM_cons] at h
    obtain ⟨t, ht, hrest⟩ := Option.bind_eq_some_iff.1 h
    exact ih hstep.2 (hstep.1 s t hs ht) hrest

/-- **A loop whose steps each change what belongs to their key**: at the end that has happened for
every key of the loop, and what belongs to other keys is as it was. -/
theorem each {f : κ → σ → δ} {R : κ → δ → δ → Prop} {ks : List κ}
    (hstep : ∀ k ∈ ks, ∀ s s', P s → step s k = some s' →
      P s' ∧ R k (f k s) (f k s') ∧ ∀ j, j ≠ k → f j s' = f j s)
    (hks : ks.Nodup) {s s' : σ} (hs : P s) (h : ks.foldlM step s = some s') :
    P s' ∧ (∀ k ∈ ks, R k (f k s) (f k s')) ∧ ∀ j, j ∉ ks → f j s' = f j s := by
  induction ks generalizing s with
  | nil =>
    cases h
    exact ⟨hs, fun k hk ↦ absurd hk List.not_mem_nil, fun _ _ ↦ rfl⟩
  | cons k ks ih =>
    rw [List.forall_mem_cons] at hstep
    rw [List.foldlM_cons] at h
    obtain ⟨t, ht, hrest⟩ := Option.bind_eq_some_iff.1 h
    obtain ⟨hk, hks⟩ := List.nodup_cons.1 hks
    obtain ⟨hPt, hupd, hother⟩ := hstep.1 s t hs ht
    obtain ⟨hP', hall, hsame⟩ := ih hstep.2 hks hPt hrest
    refine ⟨hP', fun j hj ↦ ?_, fun j hj ↦ ?_⟩
    · rcases List.mem_cons.1 hj with rfl | hmem
      · rwa [hsame j hk]
      · rw [← hother j (by rintro rfl; exact hk hmem)]
        exact hall j hmem
    · rw [List.mem_cons, not_or] at hj
      rw [hsame j hj.2, hother j hj.1]

/-- A loop comes to its end if each step can be made from what belongs to its key, and leaves alone
what belongs to the others. -/
theorem exists_end {f : κ → σ → δ} {C : κ → δ → Prop} {ks : List κ}
    (hstep : ∀ k ∈ ks, ∀ s, P s → C k (f k s) →
      ∃ s', step s k = some s' ∧ P s' ∧ ∀ j, j ≠ k → f j s' = f j s)
    (hks : ks.Nodup) {s : σ} (hs : P s) (hcan : ∀ k ∈ ks, C k (f k s)) :
    ∃ s', ks.foldlM step s = some s' := by
  induction ks generalizing s with
  | nil => exact ⟨s, rfl⟩
  | cons k ks ih =>
    rw [List.forall_mem_cons] at hstep
    obtain ⟨hk, hks⟩ := List.nodup_cons.1 hks
    obtain ⟨t, ht, hPt, hother⟩ := hstep.1 s hs (hcan k List.mem_cons_self)
    obtain ⟨s', hs'⟩ := ih hstep.2 hks hPt fun j hj ↦ by
      rw [hother j (by rintro rfl; exact hk hj)]
      exact hcan j (List.mem_cons_of_mem k hj)
    exact ⟨s', by rw [List.foldlM_cons, ht]; exact hs'⟩

end Loop
