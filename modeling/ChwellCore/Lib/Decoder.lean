import Mathlib.Data.List.Basic
import Mathlib.Tactic.Common

/-!
# Decoders that share an offset

A `Decoder` looks at a buffer from an offset on, and gives a value and the offset behind it or
fails.  Elements are read through `get`, where an index outside the buffer is an error, so a decoder
that comes to no error is one that reads nothing outside.

`Decodes d L` says that, and that `d` finds a value exactly where the layout `L` of that value
stands.  Fields one after another are decoded by decoders in `do` notation, and `Decodes.bind` puts
their layouts together.
-/

set_option autoImplicit false

/-- A decoder of values in `α` from a buffer over `τ`.  The error is the index read outside. -/
abbrev Decoder (τ α : Type) := List τ → ℕ → OptionT (Except ℕ) (α × ℕ)

namespace Decoder

variable {τ α β : Type}

/-- The element at an index. -/
def get (data : List τ) (i : ℕ) : Except ℕ τ :=
  match data[i]? with
  | none => .error i
  | some x => .ok x

/-- So many elements, one after another. -/
def gets (data : List τ) (offset : ℕ) : ℕ → Except ℕ (List τ)
  | 0 => .ok []
  | n + 1 => do
    let x ← get data offset
    let xs ← gets data (offset + 1) n
    pure (x :: xs)

/-- The next `n` elements, if the buffer has so many. -/
def take (n : ℕ) : Decoder τ (List τ) := fun data offset ↦
  if offset + n > data.length then failure
  else do
    let xs ← gets data offset n
    pure (xs, offset + n)

/-- The decoder reads nothing outside the buffer, and finds a value exactly where its layout stands.
-/
structure Decodes (d : Decoder τ α) (L : α → List τ → Prop) : Prop where
  safe : ∀ data offset, ∃ r, (d data offset).run = .ok r
  found : ∀ data offset, offset ≤ data.length → ∀ a n,
    (d data offset).run = .ok (some (a, n)) ↔
      ∃ xs, L a xs ∧ xs <+: data.drop offset ∧ n = offset + xs.length

theorem gets_eq {data : List τ} {offset n : ℕ} (h : offset + n ≤ data.length) :
    gets data offset n = .ok ((data.drop offset).take n) := by
  induction n generalizing offset with
  | zero => rw [gets, List.take_zero]
  | succ n ih =>
    have hlt : offset < data.length := by omega
    rw [gets, get, List.getElem?_eq_getElem hlt, ih (by omega), List.drop_eq_getElem_cons hlt,
      List.take_succ_cons]
    rfl

/-- A prefix in two parts. -/
theorem append_prefix_drop {xs ys data : List τ} {offset : ℕ} :
    xs ++ ys <+: data.drop offset ↔
      xs <+: data.drop offset ∧ ys <+: data.drop (offset + xs.length) := by
  rw [← List.drop_drop]
  constructor
  · rintro ⟨rest, hrest⟩
    rw [← hrest, List.append_assoc, List.drop_left]
    exact ⟨List.prefix_append _ _, List.prefix_append _ _⟩
  · rintro ⟨⟨rest, hrest⟩, hys⟩
    rw [← hrest, List.drop_left] at hys
    rw [← hrest]
    exact (List.prefix_append_right_inj xs).2 hys

/-- What follows a prefix begins inside the buffer. -/
theorem add_length_le {xs data : List τ} {offset : ℕ} (h : offset ≤ data.length)
    (hpre : xs <+: data.drop offset) : offset + xs.length ≤ data.length := by
  have hle := hpre.length_le
  rw [List.length_drop] at hle
  omega

theorem decodes_take (n : ℕ) :
    (take n : Decoder τ (List τ)).Decodes fun a xs ↦ xs = a ∧ a.length = n := by
  have hrun (data : List τ) (offset : ℕ) : (take n data offset).run =
      if offset + n > data.length then .ok none
      else .ok (some ((data.drop offset).take n, offset + n)) := by
    rw [take]
    split
    · rfl
    · next h =>
      rw [gets_eq (by omega)]
      rfl
  refine ⟨fun data offset ↦ ?_, fun data offset hoffset a k ↦ ?_⟩
  · rw [hrun]
    split <;> exact ⟨_, rfl⟩
  · rw [hrun]
    split
    · next h =>
      refine ⟨fun he ↦ ?_, ?_⟩
      · cases he
      · rintro ⟨xs, ⟨rfl, hlen⟩, hpre, -⟩
        have := add_length_le hoffset hpre
        omega
    · next h =>
      constructor
      · intro he
        cases he
        have hlen : ((data.drop offset).take n).length = n := by
          rw [List.length_take, List.length_drop]
          omega
        exact ⟨_, ⟨rfl, hlen⟩, List.take_prefix _ _, by rw [hlen]⟩
      · rintro ⟨xs, ⟨rfl, hlen⟩, hpre, rfl⟩
        rw [← hlen, ← List.prefix_iff_eq_take.1 hpre]

namespace Decodes

variable {d : Decoder τ α} {L : α → List τ → Prop}

theorem congr {M : α → List τ → Prop} (hd : d.Decodes L) (h : ∀ a xs, L a xs ↔ M a xs) :
    d.Decodes M := by
  refine ⟨hd.safe, fun data offset hoffset a n ↦ ?_⟩
  rw [hd.found data offset hoffset]
  simp only [h]

/-- **One field after another.** -/
theorem bind {f : α → Decoder τ β} {M : α → β → List τ → Prop} (hd : d.Decodes L)
    (hf : ∀ a, (f a).Decodes (M a)) :
    Decodes (fun data offset ↦ d data offset >>= fun r ↦ f r.1 data r.2)
      fun b xs ↦ ∃ a ys zs, L a ys ∧ M a b zs ∧ xs = ys ++ zs := by
  have hfail {data : List τ} {offset : ℕ} (hr : (d data offset).run = .ok none) :
      (d data offset >>= fun r ↦ f r.1 data r.2).run = .ok none := by
    rw [OptionT.run_bind, hr]
    rfl
  have hnext {data : List τ} {offset : ℕ} {r : α × ℕ}
      (hr : (d data offset).run = .ok (some r)) :
      (d data offset >>= fun r ↦ f r.1 data r.2).run = (f r.1 data r.2).run := by
    rw [OptionT.run_bind, hr]
    rfl
  refine ⟨fun data offset ↦ ?_, fun data offset hoffset b k ↦ ?_⟩
  · obtain ⟨_ | r, hr⟩ := hd.safe data offset
    · exact ⟨_, hfail hr⟩
    · rw [hnext hr]
      exact (hf r.1).safe data r.2
  · constructor
    · intro h
      obtain ⟨_ | ⟨a, n⟩, hr⟩ := hd.safe data offset
      · rw [hfail hr] at h
        cases h
      · rw [hnext hr] at h
        obtain ⟨ys, hys, hpre, rfl⟩ := (hd.found data offset hoffset a n).1 hr
        obtain ⟨zs, hzs, hpre', rfl⟩ :=
          ((hf a).found data _ (add_length_le hoffset hpre) b k).1 h
        refine ⟨ys ++ zs, ⟨a, ys, zs, hys, hzs, rfl⟩,
          append_prefix_drop.2 ⟨hpre, hpre'⟩, ?_⟩
        rw [List.length_append, Nat.add_assoc]
    · rintro ⟨_, ⟨a, ys, zs, hys, hzs, rfl⟩, hpre, rfl⟩
      obtain ⟨hpre, hpre'⟩ := append_prefix_drop.1 hpre
      rw [hnext ((hd.found data offset hoffset a _).2 ⟨ys, hys, hpre, rfl⟩)]
      refine ((hf a).found data _ (add_length_le hoffset hpre) b _).2 ⟨zs, hzs, hpre', ?_⟩
      rw [List.length_append, Nat.add_assoc]

/-- A value computed from what a field says. -/
theorem map (hd : d.Decodes L) (f : α → β) :
    Decodes (fun data offset ↦ d data offset >>= fun r ↦ pure (f r.1, r.2))
      fun b xs ↦ ∃ a, L a xs ∧ b = f a := by
  have hpure (a : α) : Decodes (fun (_ : List τ) offset ↦ pure (f a, offset))
      fun b xs ↦ b = f a ∧ xs = [] := by
    refine ⟨fun data offset ↦ ⟨_, rfl⟩, fun data offset _ b n ↦ ?_⟩
    constructor
    · intro h
      cases h
      exact ⟨[], ⟨rfl, rfl⟩, List.nil_prefix, rfl⟩
    · rintro ⟨_, ⟨rfl, rfl⟩, -, rfl⟩
      rfl
  refine (hd.bind hpure).congr fun b xs ↦ ?_
  constructor
  · rintro ⟨a, ys, _, hys, ⟨rfl, rfl⟩, rfl⟩
    exact ⟨a, by rwa [List.append_nil], rfl⟩
  · rintro ⟨a, hxs, rfl⟩
    exact ⟨a, xs, [], hxs, ⟨rfl, rfl⟩, (List.append_nil xs).symm⟩

/-- A decoder fails exactly where no layout stands. -/
theorem fails_iff (hd : d.Decodes L) {data : List τ} {offset : ℕ} (hoffset : offset ≤ data.length) :
    (d data offset).run = .ok none ↔ ¬ ∃ a xs, L a xs ∧ xs <+: data.drop offset := by
  obtain ⟨_ | ⟨a, n⟩, hr⟩ := hd.safe data offset
  · refine iff_of_true hr ?_
    rintro ⟨a, xs, hxs, hpre⟩
    rw [(hd.found data offset hoffset a _).2 ⟨xs, hxs, hpre, rfl⟩] at hr
    cases hr
  · obtain ⟨xs, hxs, hpre, -⟩ := (hd.found data offset hoffset a n).1 hr
    refine iff_of_false (fun h ↦ ?_) fun h ↦ h ⟨a, xs, hxs, hpre⟩
    rw [hr] at h
    cases h

end Decodes

end Decoder
