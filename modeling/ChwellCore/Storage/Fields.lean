import ChwellCore.Core.Decimal
import ChwellCore.Storage.Document
import Mathlib.Data.Int.Basic

/-!
# Fields with a type

The getters and setters of a `Document` are for strings, numbers and truth values, but what a
document keeps is a string under each name: a setter writes the field down, and a getter reads the
string, whichever setter wrote it.  `Field.as` says what a getter makes of a field that was set with
another type, as a matter of the value and without a word about strings.

`get_ofWrites` says that this is what comes out: after any sequence of writes, and after the
document has been written down and read back, each getter gives the last write under its name, and
its default if there is none.

The fields of floating point are left out.
-/

set_option autoImplicit false

namespace ChwellCore

/-! ## Numbers that are read with a limit -/

/-- `std::strtoll`, to the base 10: what does not fit becomes the nearest number that does. -/
def strtoll (s : Bytes) : Int64 := .ofIntClamp (atoi s)

/-- `std::atoi` reads back what `std::to_string` wrote. -/
theorem atoi_toDec (n : ℤ) : atoi (toDec n) = n := by
  rw [toDec]
  split
  · next hneg =>
    have htake : (natToDec n.natAbs).takeWhile isDigit = natToDec n.natAbs :=
      List.takeWhile_eq_self_iff.2 fun c hc ↦ isDigit_of_mem_natToDec hc
    have hspace : isSpace 45 = false := rfl
    rw [atoi, List.dropWhile_cons, hspace]
    simp only [Bool.false_eq_true, if_false, if_true]
    rw [htake, digitsVal_natToDec]
    omega
  · next hpos =>
    rw [atoi_natToDec]
    omega

theorem strtoll_toDec (v : Int64) : strtoll (toDec v.toInt) = v := by
  rw [strtoll, atoi_toDec, Int64.ofIntClamp_toInt]

/-- A string is a number written down if it is what is read from it, written down. -/
theorem toDec_eq_iff {n : ℤ} {s : Bytes} : toDec n = s ↔ n = atoi s ∧ toDec (atoi s) = s := by
  constructor
  · rintro rfl
    rw [atoi_toDec]
    exact ⟨rfl, rfl⟩
  · rintro ⟨rfl, h⟩
    exact h

namespace Storage

/-! ## Fields -/

/-- What a setter is given, or a getter gives. -/
inductive Field where
  | string (value : Bytes)
  | int64 (value : Int64)
  | int (value : Int32)
  | bool (value : Bool)
deriving DecidableEq

namespace Document

/-- `set_string`. -/
def setString (key value : Bytes) (d : Document) : Document := ⟨d.data.insert key value⟩

/-- `set_int64`. -/
def setInt64 (key : Bytes) (value : Int64) (d : Document) : Document :=
  ⟨d.data.insert key (toDec value.toInt)⟩

/-- `set_int`. -/
def setInt (key : Bytes) (value : Int32) (d : Document) : Document :=
  ⟨d.data.insert key (toDec value.toInt)⟩

/-- `set_bool`. -/
def setBool (key : Bytes) (value : Bool) (d : Document) : Document :=
  ⟨d.data.insert key (if value then lit "1" else lit "0")⟩

/-- `get_string`. -/
def getString (key defaultVal : Bytes) (d : Document) : Bytes := d.data[key]?.getD defaultVal

/-- `get_int64`.  The string ends at its first zero byte for `strtoll`, which would not read beyond
one. -/
def getInt64 (key : Bytes) (defaultVal : Int64) (d : Document) : Int64 :=
  match d.data[key]? with
  | none => defaultVal
  | some v => strtoll v

/-- `get_int`. -/
def getInt (key : Bytes) (defaultVal : Int32) (d : Document) : Int32 :=
  (d.getInt64 key defaultVal.toInt64).toInt32

/-- `get_bool`. -/
def getBool (key : Bytes) (defaultVal : Bool) (d : Document) : Bool :=
  match d.data[key]? with
  | none => defaultVal
  | some v =>
    if v = lit "1" ∨ v = lit "true" ∨ v = lit "yes" then true
    else if v = lit "0" ∨ v = lit "false" ∨ v = lit "no" then false
    else defaultVal

/-- `has`. -/
def has (key : Bytes) (d : Document) : Bool := d.data.contains key

/-- The setter for the type of a field. -/
def set (key : Bytes) (d : Document) : Field → Document
  | .string v => d.setString key v
  | .int64 v => d.setInt64 key v
  | .int v => d.setInt key v
  | .bool v => d.setBool key v

/-- The getter for the type of a default. -/
def get (key : Bytes) (d : Document) : Field → Field
  | .string dflt => .string (d.getString key dflt)
  | .int64 dflt => .int64 (d.getInt64 key dflt)
  | .int dflt => .int (d.getInt key dflt)
  | .bool dflt => .bool (d.getBool key dflt)

/-- A document that is built by a sequence of writes. -/
def ofWrites (writes : List (Bytes × Field)) : Document :=
  writes.foldl (fun d w ↦ d.set w.1 w.2) ⟨∅⟩

end Document

namespace Field

/-- How the field is written down. -/
def text : Field → Bytes
  | .string v => v
  | .int64 v => toDec v.toInt
  | .int v => toDec v.toInt
  | .bool v => if v then lit "1" else lit "0"

/-- The field as a number. -/
def number : Field → Int64
  | .string v => strtoll v
  | .int64 v => v
  | .int v => v.toInt64
  | .bool v => if v then 1 else 0

/-- The words of `get_bool`. -/
def wordTruth (v : Bytes) : Option Bool :=
  if v = lit "1" ∨ v = lit "true" ∨ v = lit "yes" then some true
  else if v = lit "0" ∨ v = lit "false" ∨ v = lit "no" then some false
  else none

/-- Of numbers, only one and zero have a truth value. -/
def numberTruth (n : ℤ) : Option Bool :=
  if n = 1 then some true else if n = 0 then some false else none

/-- The field as a truth value, if it has one. -/
def truth : Field → Option Bool
  | .string v => wordTruth v
  | .int64 v => numberTruth v.toInt
  | .int v => numberTruth v.toInt
  | .bool v => some v

/-- The field, for the getter of the type of a default. -/
def as (f : Field) : Field → Field
  | .string _ => .string f.text
  | .int64 _ => .int64 f.number
  | .int _ => .int f.number.toInt32
  | .bool dflt => .bool (f.truth.getD dflt)

/-- The last write under a name. -/
def last (writes : List (Bytes × Field)) (key : Bytes) : Option Field :=
  (writes.reverse.find? fun w ↦ w.1 = key).map Prod.snd

/-! ## A string that is read as a field -/

theorem wordTruth_toDec (n : ℤ) : wordTruth (toDec n) = numberTruth n := by
  have hone : toDec n = lit "1" ↔ n = 1 := toDec_eq_iff.trans (and_iff_left (by decide +kernel))
  have hzero : toDec n = lit "0" ↔ n = 0 := toDec_eq_iff.trans (and_iff_left (by decide +kernel))
  have hword : ∀ s, toDec (atoi s) ≠ s → ¬ toDec n = s := fun s hs h ↦ hs (toDec_eq_iff.1 h).2
  rw [wordTruth, numberTruth]
  simp only [hone, hzero, hword (lit "true") (by decide +kernel),
    hword (lit "yes") (by decide +kernel), hword (lit "false") (by decide +kernel),
    hword (lit "no") (by decide +kernel), or_false]

theorem strtoll_text (f : Field) : strtoll f.text = f.number := by
  cases f with
  | string v => rfl
  | int64 v => exact strtoll_toDec v
  | int v =>
    rw [text, number, ← Int32.toInt_toInt64]
    exact strtoll_toDec _
  | bool v => cases v <;> decide +kernel

theorem wordTruth_text (f : Field) : wordTruth f.text = f.truth := by
  cases f with
  | string v => rfl
  | int64 v => exact wordTruth_toDec _
  | int v => exact wordTruth_toDec _
  | bool v => cases v <;> rfl

end Field

namespace Document

variable {d : Document} {key : Bytes} {f dflt : Field}

/-- Every setter writes its field down under the name, and nothing else. -/
theorem set_data (d : Document) (key : Bytes) (f : Field) :
    (d.set key f).data = d.data.insert key f.text := by
  cases f <;> rfl

theorem get_of_none (h : d.data[key]? = none) : d.get key dflt = dflt := by
  cases dflt with
  | string dflt => rw [get, getString, h]; rfl
  | int64 dflt => rw [get, getInt64, h]
  | int dflt => rw [get, getInt, getInt64, h, Int32.toInt32_toInt64]
  | bool dflt => rw [get, getBool, h]

theorem get_of_text (h : d.data[key]? = some f.text) : d.get key dflt = f.as dflt := by
  cases dflt with
  | string dflt => rw [get, getString, h]; rfl
  | int64 dflt => rw [get, getInt64, h]; exact congrArg Field.int64 f.strtoll_text
  | int dflt =>
    rw [get, getInt, getInt64, h]
    exact congrArg (fun v : Int64 ↦ Field.int v.toInt32) f.strtoll_text
  | bool dflt =>
    rw [get, getBool, h, Field.as, ← Field.wordTruth_text, Field.wordTruth]
    dsimp only
    split_ifs <;> rfl

/-! ## The last write is read -/

variable {writes : List (Bytes × Field)}

theorem ofWrites_concat (writes : List (Bytes × Field)) (w : Bytes × Field) :
    ofWrites (writes ++ [w]) = (ofWrites writes).set w.1 w.2 := by
  rw [ofWrites, List.foldl_append]
  rfl

/-- What a document keeps after a sequence of writes. -/
theorem data_ofWrites (writes : List (Bytes × Field)) (key : Bytes) :
    (ofWrites writes).data[key]? = (Field.last writes key).map Field.text := by
  induction writes using List.reverseRecOn with
  | nil => rfl
  | append_singleton writes w ih =>
    rw [ofWrites_concat, set_data, Std.ExtTreeMap.getElem?_insert, ih, Field.last, Field.last,
      List.reverse_concat, List.find?_cons]
    by_cases hkey : w.1 = key
    · rw [if_pos (Std.LawfulEqOrd.compare_eq_iff_eq.2 hkey), decide_eq_true hkey]
      rfl
    · rw [if_neg fun h ↦ hkey (Std.LawfulEqOrd.compare_eq_iff_eq.1 h), decide_eq_false hkey]

theorem get_of_last (h : Field.last writes key = some f) (dflt : Field) :
    (ofWrites writes).get key dflt = f.as dflt :=
  get_of_text ((data_ofWrites writes key).trans (congrArg _ h))

theorem ne_nil_of_mem_ofWrites (h : ∀ w ∈ writes, w.1 ≠ []) {key : Bytes}
    (hkey : key ∈ (ofWrites writes).data) : key ≠ [] := by
  rw [Std.ExtTreeMap.mem_iff_isSome_getElem?, data_ofWrites, Option.isSome_map, Field.last,
    Option.isSome_map] at hkey
  obtain ⟨w, hw⟩ := Option.isSome_iff_exists.1 hkey
  have hname := List.find?_some hw
  rw [decide_eq_true_iff] at hname
  rw [← hname]
  exact h w (List.mem_reverse.1 (List.mem_of_find?_eq_some hw))

/-- **The last write is read**: whatever was written into a document under names that are not empty,
after it has been written down and read back, `has` says of each name whether it was written, and
each getter gives the last write under the name, as a field of its own type, or its default. -/
theorem get_ofWrites (h : ∀ w ∈ writes, w.1 ≠ []) (old : Document) (key : Bytes) :
    (fromString (ofWrites writes).toString old).1 = true ∧
      (fromString (ofWrites writes).toString old).2.has key = (Field.last writes key).isSome ∧
      ∀ dflt, (fromString (ofWrites writes).toString old).2.get key dflt =
        match Field.last writes key with
        | none => dflt
        | some f => f.as dflt := by
  rw [fromString_toString fun k hk ↦ ne_nil_of_mem_ofWrites h hk]
  have hdata := data_ofWrites writes key
  refine ⟨rfl, ?_, fun dflt ↦ ?_⟩
  · rw [has, Std.ExtTreeMap.contains_eq_isSome_getElem?, hdata, Option.isSome_map]
  · split
    · next hnone => exact get_of_none (hdata.trans (congrArg _ hnone))
    · next f hsome => exact get_of_text (hdata.trans (congrArg _ hsome))

/-- A level that is raised, and read as an `int` and as a string. -/
theorem get_ofWrites_level :
    let d := ofWrites [(lit "level", .int 10), (lit "name", .string (lit "a=b")),
      (lit "level", .int64 15)]
    (fromString d.toString ⟨∅⟩).2.get (lit "level") (.int 0) = .int 15 ∧
      (fromString d.toString ⟨∅⟩).2.get (lit "level") (.string []) = .string (lit "15") ∧
      (fromString d.toString ⟨∅⟩).2.get (lit "gold") (.int64 (-1)) = .int64 (-1) := by
  have hnames : ∀ w ∈ [(lit "level", Field.int 10), (lit "name", .string (lit "a=b")),
      (lit "level", .int64 15)], w.1 ≠ [] := by decide
  exact ⟨(get_ofWrites hnames ⟨∅⟩ (lit "level")).2.2 (.int 0),
    (get_ofWrites hnames ⟨∅⟩ (lit "level")).2.2 (.string []),
    (get_ofWrites hnames ⟨∅⟩ (lit "gold")).2.2 (.int64 (-1))⟩

end Document

end Storage
end ChwellCore
