import ChwellCore.Core.Bytes
import ChwellCore.Lib.OrderedMap

/-!
# Documents

A `Document` is a map from names to strings.  In the build without YAML it is written down with a
line `name=value` for each entry, in which a backslash, a newline and an equals sign stand with a
backslash in front, the newline as an `n`.

It is read in two stages.  The first takes the lines apart, and has to know which newlines and
equals signs are part of a name or a value; so it copies a backslash together with what follows it,
and never looks at the second of the two.  The second stage, `unescape`, is for each name and each
value by itself.  `fromString_toString` says that both together undo `to_string`.
-/

set_option autoImplicit false

namespace ChwellCore
namespace Storage

/-- `Document`. -/
structure Document where
  data : OrderedMap Bytes Bytes

namespace Document

/-! ## Writing -/

/-- What `escape` makes of one byte. -/
def escapeByte (c : UInt8) : Bytes :=
  if c = 92 then [92, 92]
  else if c = 10 then [92, 110]
  else if c = 61 then [92, 61]
  else [c]

/-- `escape`. -/
def escape (s : Bytes) : Bytes := s.flatMap escapeByte

/-- `unescape`. -/
def unescape : Bytes → Bytes
  | [] => []
  | [c] => [c]
  | c :: d :: rest =>
    if c = 92 then
      (if d = 110 then 10 else if d = 61 then 61 else if d = 92 then 92 else d) :: unescape rest
    else c :: unescape (d :: rest)

/-- The line of an entry. -/
def line (e : Bytes × Bytes) : Bytes := escape e.1 ++ 61 :: (escape e.2 ++ [10])

/-- `to_string`. -/
def toString (d : Document) : Bytes := d.data.toList.flatMap line

/-! ## Reading -/

/-- The variables of `from_string`. -/
structure Scan where
  data : OrderedMap Bytes Bytes
  key : Bytes := []
  cur : Bytes := []
  inKey : Bool := true

/-- The end of a line. -/
def Scan.endLine (s : Scan) : Scan where
  data :=
    if s.inKey = false ∧ s.key ≠ [] then s.data.insert (unescape s.key) (unescape s.cur) else s.data

/-- Bytes that are copied. -/
def Scan.copy (s : Scan) (bs : Bytes) : Scan := { s with cur := s.cur ++ bs }

/-- The loop of `from_string`.  What it was given ends like a line. -/
def scan : Bytes → Scan → Scan
  | [], s => s.endLine
  | c :: rest, s =>
    if c = 10 then scan rest s.endLine
    else if c = 61 ∧ s.inKey then scan rest { s with key := s.cur, cur := [], inKey := false }
    else if c = 92 then
      match rest with
      | [] => scan [] (s.copy [c])
      | d :: rest => scan rest (s.copy [c, d])
    else scan rest (s.copy [c])

/-- `from_string`, which overwrites the document. -/
def fromString (data : Bytes) (_ : Document) : Bool × Document :=
  (true, ⟨(scan data { data := ∅ }).data⟩)

/-! ## What is written is read -/

theorem unescape_escapeByte (c : UInt8) (rest : Bytes) :
    unescape (escapeByte c ++ rest) = c :: unescape rest := by
  rw [escapeByte]
  split_ifs with hbackslash hnewline hequals
  · rw [hbackslash]
    rfl
  · rw [hnewline]
    rfl
  · rw [hequals]
    rfl
  · rcases rest with _ | ⟨d, rest⟩
    · rfl
    · exact if_neg hbackslash

theorem unescape_escape (s : Bytes) : unescape (escape s) = s := by
  induction s with
  | nil => rfl
  | cons c s ih => rw [escape, List.flatMap_cons, unescape_escapeByte, ← escape, ih]

theorem escape_ne_nil {s : Bytes} (h : s ≠ []) : escape s ≠ [] := by
  intro he
  rw [← unescape_escape s, he] at h
  exact h rfl

/-- The loop copies an escaped byte, wherever it stands. -/
theorem scan_escapeByte (c : UInt8) (rest : Bytes) (s : Scan) :
    scan (escapeByte c ++ rest) s = scan rest (s.copy (escapeByte c)) := by
  rw [escapeByte]
  split_ifs with hbackslash hnewline hequals
  · rfl
  · rfl
  · rfl
  · rw [List.singleton_append, scan.eq_def]
    simp only [if_neg hbackslash, if_neg hnewline, hequals, false_and, if_false]

theorem Scan.copy_copy (s : Scan) (bs bs' : Bytes) :
    (s.copy bs).copy bs' = s.copy (bs ++ bs') := by
  rw [Scan.copy, Scan.copy, Scan.copy, List.append_assoc]

theorem scan_escape (str rest : Bytes) (s : Scan) :
    scan (escape str ++ rest) s = scan rest (s.copy (escape str)) := by
  induction str generalizing s with
  | nil =>
    have hcopy : s.copy (escape []) = s := by
      rw [Scan.copy, escape, List.flatMap_nil, List.append_nil]
    rw [hcopy]
    rfl
  | cons c str ih =>
    rw [escape, List.flatMap_cons, List.append_assoc, scan_escapeByte, ← escape, ih, Scan.copy_copy]

/-- The newline behind a value. -/
theorem scan_newline (rest : Bytes) (s : Scan) : scan (10 :: rest) s = scan rest s.endLine := by
  rw [scan.eq_def]
  exact if_pos rfl

/-- The equals sign behind a name. -/
theorem scan_equals {s : Scan} (h : s.inKey = true) (rest : Bytes) :
    scan (61 :: rest) s = scan rest { s with key := s.cur, cur := [], inKey := false } := by
  rw [scan.eq_def]
  exact (if_neg (by decide)).trans (if_pos ⟨rfl, h⟩)

/-- The loop reads a line. -/
theorem scan_line {e : Bytes × Bytes} (hkey : e.1 ≠ []) (rest : Bytes)
    (m : OrderedMap Bytes Bytes) :
    scan (line e ++ rest) { data := m } = scan rest { data := m.insert e.1 e.2 } := by
  have hvalue :
      ({ data := m, key := escape e.1, cur := escape e.2, inKey := false } : Scan).endLine =
        { data := m.insert e.1 e.2 } := by
    rw [Scan.endLine, if_pos ⟨rfl, escape_ne_nil hkey⟩, unescape_escape, unescape_escape]
  rw [line, List.append_assoc, scan_escape, Scan.copy, List.nil_append, List.cons_append,
    scan_equals rfl, List.append_assoc, scan_escape, Scan.copy, List.nil_append,
    List.singleton_append, scan_newline]
  exact congrArg (scan rest) hvalue

theorem scan_lines {l : List (Bytes × Bytes)} (h : ∀ e ∈ l, e.1 ≠ [])
    (m : OrderedMap Bytes Bytes) :
    scan (l.flatMap line) { data := m } = { data := OrderedMap.insertAll m l } := by
  induction l generalizing m with
  | nil => rfl
  | cons e l ih =>
    rw [List.flatMap_cons, scan_line (h e List.mem_cons_self),
      ih fun e he ↦ h e (List.mem_cons_of_mem _ he)]
    rfl

/-- **What is written is read**: a document whose names are not empty, with any bytes in its names
and its values, and whatever was in the document that is overwritten. -/
theorem fromString_toString {d : Document} (h : ∀ k ∈ d.data, k ≠ []) (old : Document) :
    fromString d.toString old = (true, d) := by
  have hkeys : ∀ e ∈ d.data.toList, e.1 ≠ [] := by
    intro e he
    refine h e.1 (Std.ExtTreeMap.mem_iff_isSome_getElem?.2 ?_)
    rw [Std.ExtTreeMap.mem_toList_iff_getElem?_eq_some.1 he]
    rfl
  rw [fromString, toString, scan_lines hkeys, OrderedMap.insertAll_of_perm (.refl _)]

/-- A newline, an equals sign and a backslash in one value, as in the test of the source. -/
def desc : Document := ⟨.ofList [(lit "desc", lit "line1\nline2=ok\\end")]⟩

theorem fromString_toString_desc : fromString desc.toString ⟨∅⟩ = (true, desc) := by
  refine fromString_toString (fun k hk ↦ ?_) ⟨∅⟩
  rw [desc, Std.ExtTreeMap.mem_ofList, List.contains_iff_mem, List.map_singleton,
    List.mem_singleton] at hk
  rw [hk]
  decide

end Document
end Storage
end ChwellCore
