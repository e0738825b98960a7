import ChwellCore.Core.Decimal
import ChwellCore.Lib.Search
import ChwellCore.Lib.Trim
import ChwellCore.Lib.UnorderedMap

/-!
# The configuration

`core::Config` reads files of lines `key = value`, one after another, so that a later line overrides
an earlier one; two of the keys also have a field each, and two environment variables override the
fields.  `load_from_files` forgets the keys that were there and keeps the fields.

`ConfigLine` is what people write into such files: blank lines, comments, and entries of three
kinds, with white space around everything.  `parseLine_render` says that each of them means what it
says, and `lookup_load` that after a load a key has the value of the last entry for it, in the order
of the paths.
-/

set_option autoImplicit false

namespace ChwellCore
namespace Core

open Search (find)
open Trim (trim)

/-- `std::stoi`: a `long` that has to fit in an `int`. -/
def stoi (s : Bytes) : Except StdError ℤ :=
  match stoll s with
  | .ok v => if -2 ^ 31 ≤ v ∧ v < 2 ^ 31 then .ok v else .error .outOfRange
  | .error e => .error e

/-- `Config`. -/
structure Config where
  listenPort : ℤ
  workerThreads : ℤ
  kv : UnorderedMap Bytes Bytes

/-- `std::getline` until it fails, with what has been read of a line. -/
def getlines (line : Bytes) : Bytes → List Bytes
  | [] => if line = [] then [] else [line]
  | c :: rest => if c = 10 then line :: getlines [] rest else getlines (line ++ [c]) rest

/-- `iss >> word`: the word, and what is behind it. -/
def extractWord (s : Bytes) : Option (Bytes × Bytes) :=
  let s := s.dropWhile isSpace
  if s = [] then none
  else some (s.takeWhile fun c ↦ !isSpace c, s.dropWhile fun c ↦ !isSpace c)

/-- What is read from a line: a key and a value. -/
def parseLine (line : Bytes) : Option (Bytes × Bytes) :=
  let t := trim isSpace line
  if t = [] then none
  else if t.head? = some 35 ∨ t.take 2 = [47, 47] then none
  else
    match (find [61] t).or (find [58] t) with
    | some pos =>
      let key := trim isSpace (t.take pos)
      let value := trim isSpace (t.drop (pos + 1))
      if key = [] then none else some (key, value)
    | none =>
      match extractWord t with
      | none => none
      | some (key, rest) =>
        match extractWord rest with
        | none => none
        | some (value, _) => some (key, value)

namespace Config

/-- The constructor. -/
def new : Config := ⟨9000, 4, ∅⟩

/-- `get_string`. -/
def getString (c : Config) (key defaultValue : Bytes) : Bytes :=
  (c.kv.lookup key).getD defaultValue

/-- `get_int`. -/
def getInt (c : Config) (key : Bytes) (defaultValue : ℤ) : ℤ :=
  match c.kv.lookup key with
  | none => defaultValue
  | some value =>
    match stoi value with
    | .ok v => v
    | .error _ => defaultValue

/-- `apply_kv_to_fields`. -/
def applyKvToFields (c : Config) : Config :=
  { c with
    listenPort := c.getInt (lit "listen_port") c.listenPort
    workerThreads := c.getInt (lit "worker_threads") c.workerThreads }

/-- A variable of the environment that is a number of which the test says yes. -/
def envInt (getenv : Bytes → Option Bytes) (name : Bytes) (test : ℤ → Bool) : Option ℤ :=
  match getenv name with
  | none => none
  | some value =>
    match stoi value with
    | .ok v => if test v then some v else none
    | .error _ => none

/-- `CHWELL_LISTEN_PORT`, if it is a port. -/
def envPort (getenv : Bytes → Option Bytes) : Option ℤ :=
  envInt getenv (lit "CHWELL_LISTEN_PORT") fun v ↦ decide (0 < v) && decide (v ≤ 65535)

/-- `CHWELL_WORKER_THREADS`, if it is positive. -/
def envWorkers (getenv : Bytes → Option Bytes) : Option ℤ :=
  envInt getenv (lit "CHWELL_WORKER_THREADS") fun v ↦ decide (0 < v)

/-- `apply_env_overrides`. -/
def applyEnvOverrides (getenv : Bytes → Option Bytes) (c : Config) : Config :=
  { c with
    listenPort := (envPort getenv).getD c.listenPort
    workerThreads := (envWorkers getenv).getD c.workerThreads }

/-- A line goes into the table, if it has a key. -/
def addLine (kv : UnorderedMap Bytes Bytes) (line : Bytes) : UnorderedMap Bytes Bytes :=
  match parseLine line with
  | none => kv
  | some (key, value) => kv.insert key value

/-- One file of `load_from_files`; a path that is empty or cannot be opened is passed over. -/
def addFile (files : Bytes → Option Bytes) (kv : UnorderedMap Bytes Bytes) (path : Bytes) :
    UnorderedMap Bytes Bytes :=
  if path = [] then kv
  else
    match files path with
    | none => kv
    | some content => (getlines [] content).foldl addLine kv

/-- `load_from_files`. -/
def loadFromFiles (files : Bytes → Option Bytes) (getenv : Bytes → Option Bytes) (c : Config)
    (paths : List Bytes) : Config :=
  applyEnvOverrides getenv
    (applyKvToFields { c with kv := paths.foldl (addFile files) ∅ })

/-- `set`. -/
def set (c : Config) (key value : Bytes) : Config :=
  if key = [] then c else applyKvToFields { c with kv := c.kv.insert key value }

end Config

/-! ## Lines -/

/-- A line of a file. -/
inductive ConfigLine where
  | blank (spaces : Bytes)
  | comment (indent text : Bytes)
  /-- `key = value`, or with a colon. -/
  | entry (indent key gap : Bytes) (colon : Bool) (gap' value tail : Bytes)
  /-- `key value`, and anything behind. -/
  | words (indent key gap value rest : Bytes)
deriving DecidableEq

/-- White space inside a line. -/
def Spaces (s : Bytes) : Prop := ∀ c ∈ s, isSpace c = true ∧ c ≠ 10

/-- It does not look like a comment. -/
def NoComment (key : Bytes) : Prop := key.head? ≠ some 35 ∧ key.take 2 ≠ [47, 47]

/-- `=` or `:`. -/
def separator (colon : Bool) : UInt8 := if colon then 58 else 61

namespace ConfigLine

/-- The line as it is written. -/
def render : ConfigLine → Bytes
  | blank spaces => spaces
  | comment indent text => indent ++ text
  | entry indent key gap colon gap' value tail =>
    indent ++ (key ++ gap ++ separator colon :: (gap' ++ value ++ tail))
  | words indent key gap value rest => indent ++ (key ++ gap ++ value ++ rest)

/-- What the line says. -/
def meaning : ConfigLine → Option (Bytes × Bytes)
  | blank _ | comment _ _ => none
  | entry _ key _ _ _ value _ | words _ key _ value _ => some (key, value)

/-- The parts of a line are what they are called: a key has no `=`, nor a colon if one comes behind
it; a value behind a colon has no `=`; two words have neither. -/
def WellFormed : ConfigLine → Prop
  | blank spaces => Spaces spaces
  | comment indent text => Spaces indent ∧ ¬ NoComment text ∧ 10 ∉ text
  | entry indent key gap colon gap' value tail =>
    Spaces indent ∧ Spaces gap ∧ Spaces gap' ∧ Spaces tail ∧
      (key ≠ [] ∧ trim isSpace key = key ∧ NoComment key ∧ 10 ∉ key ∧ 61 ∉ key) ∧
      (trim isSpace value = value ∧ 10 ∉ value) ∧ (colon = true → 58 ∉ key ∧ 61 ∉ value)
  | words indent key gap value rest =>
    Spaces indent ∧ Spaces gap ∧ gap ≠ [] ∧
      (key ≠ [] ∧ (∀ c ∈ key, isSpace c = false ∧ c ≠ 61 ∧ c ≠ 58) ∧ NoComment key) ∧
      (value ≠ [] ∧ ∀ c ∈ value, isSpace c = false ∧ c ≠ 61 ∧ c ≠ 58) ∧
      (∀ c, rest.head? = some c → isSpace c = true) ∧ ∀ c ∈ rest, c ≠ 61 ∧ c ≠ 58 ∧ c ≠ 10

end ConfigLine

/-! ## What a line means -/

theorem Spaces.isSpace {s : Bytes} (h : Spaces s) : ∀ c ∈ s, isSpace c = true :=
  fun c hc ↦ (h c hc).1

theorem isSpace_separator (colon : Bool) : isSpace (separator colon) = false := by
  cases colon <;> rfl

theorem Spaces.notMem {s : Bytes} (h : Spaces s) {c : UInt8} (hc : ChwellCore.isSpace c = false) :
    c ∉ s := fun hmem ↦ by
  have := h.isSpace c hmem
  rw [hc] at this
  cases this

theorem find_singleton_none {c : UInt8} {t : Bytes} (h : c ∉ t) : find [c] t = none := by
  have hfind : find [c] (t ++ []) = (find [c] []).map (· + t.length) :=
    Search.find_append_of_notMem h []
  rwa [List.append_nil] at hfind

/-- A line that begins with a comment sign says nothing. -/
theorem parseLine_comment {indent text : Bytes} (hindent : Spaces indent)
    (htext : ¬ NoComment text) :
    parseLine (indent ++ text) = none := by
  have hcomment : (trim isSpace text).head? = some 35 ∨ (trim isSpace text).take 2 = [47, 47] := by
    rw [NoComment, not_and_or, not_not, not_not] at htext
    rcases htext with htext | htext
    · obtain ⟨rest, rfl⟩ := List.head?_eq_some_iff.1 htext
      rw [Trim.trim_cons rfl]
      exact .inl rfl
    · obtain ⟨rest, rfl⟩ : ∃ rest, text = 47 :: 47 :: rest := by
        rcases text with _ | ⟨a, _ | ⟨b, rest⟩⟩
        · cases htext
        · cases htext
        · cases htext
          exact ⟨rest, rfl⟩
      rw [Trim.trim_cons rfl]
      exact .inr (congrArg (fun r ↦ (47 :: r).take 2) (Trim.rdropWhile_append_cons rfl [] rest))
  rw [parseLine, Trim.trim_append_left hindent.isSpace]
  simp only [if_pos hcomment, ite_self]

/-- The key keeps a line from being blank or a comment. -/
theorem parseLine_of_key {line key rest : Bytes} (hne : key ≠ []) (hkey : NoComment key)
    (ht : trim isSpace line = key ++ rest) (hrest : rest.head? ≠ some 47) :
    ¬ trim isSpace line = [] ∧
      ¬ ((trim isSpace line).head? = some 35 ∨ (trim isSpace line).take 2 = [47, 47]) := by
  obtain ⟨c, key, rfl⟩ := List.exists_cons_of_ne_nil hne
  rw [ht]
  refine ⟨List.cons_ne_nil _ _, ?_⟩
  rintro (h | h)
  · exact hkey.1 h
  · rcases key with _ | ⟨d, key⟩
    · rcases rest with _ | ⟨d, rest⟩
      · cases h
      · cases h
        exact hrest rfl
    · cases h
      exact hkey.2 rfl

/-- Where the separator is found. -/
theorem find_separator {colon : Bool} {front back : Bytes} (hfront : 61 ∉ front)
    (hcolon : colon = true → 58 ∉ front ∧ 61 ∉ back) :
    (find [61] (front ++ separator colon :: back)).or
        (find [58] (front ++ separator colon :: back)) = some front.length := by
  cases colon with
  | false =>
    have hfind : find [61] (front ++ separator false :: back) = some front.length :=
      Search.find_append_append hfront back
    rw [hfind, Option.some_or]
  | true =>
    obtain ⟨hfront', hback⟩ := hcolon rfl
    have hnone : 61 ∉ front ++ separator true :: back := by
      rw [List.mem_append, List.mem_cons, not_or, not_or]
      exact ⟨hfront, by decide, hback⟩
    have hfind : find [58] (front ++ separator true :: back) = some front.length :=
      Search.find_append_append hfront' back
    rw [find_singleton_none hnone, Option.none_or, hfind]

/-- A line with a separator. -/
theorem parseLine_separator {line key gap back : Bytes} {colon : Bool}
    (ht : trim isSpace line = key ++ (gap ++ separator colon :: back)) (hne : key ≠ [])
    (htrim : trim isSpace key = key) (hkey : NoComment key) (heq : 61 ∉ key) (hgap : Spaces gap)
    (hcolon : colon = true → 58 ∉ key ∧ 61 ∉ back) :
    parseLine line = some (key, trim isSpace back) := by
  have hhead : (gap ++ separator colon :: back).head? ≠ some 47 := by
    rcases gap with _ | ⟨c, gap⟩
    · cases colon <;> exact fun h ↦ absurd (Option.some.inj h) (by decide)
    · intro hc
      have hspace := (hgap c List.mem_cons_self).1
      rw [Option.some.inj hc] at hspace
      exact absurd hspace (by decide)
  obtain ⟨hnil, hcomment⟩ := parseLine_of_key hne hkey ht hhead
  have hfront : 61 ∉ key ++ gap := fun hmem ↦ (List.mem_append.1 hmem).elim heq (hgap.notMem rfl)
  have hback : colon = true → 58 ∉ key ++ gap ∧ 61 ∉ back := fun hc ↦
    ⟨fun hmem ↦ (List.mem_append.1 hmem).elim (hcolon hc).1 (hgap.notMem rfl), (hcolon hc).2⟩
  have hfind := find_separator hfront hback
  have htake : (key ++ gap ++ separator colon :: back).take (key ++ gap).length = key ++ gap :=
    List.take_left
  have hdrop : (key ++ gap ++ separator colon :: back).drop ((key ++ gap).length + 1) = back := by
    rw [← List.drop_drop, List.drop_left]
    rfl
  rw [parseLine]
  simp only [if_neg hnil, if_neg hcomment]
  rw [ht, ← List.append_assoc, hfind]
  simp only [htake, hdrop]
  rw [Trim.trim_append_right hgap.isSpace, htrim, if_neg hne]

/-- A word is read up to the next white space. -/
theorem extractWord_append {spaces word rest : Bytes} (hspaces : Spaces spaces) (hne : word ≠ [])
    (hword : ∀ c ∈ word, isSpace c = false) (hrest : ∀ c, rest.head? = some c → isSpace c = true) :
    extractWord (spaces ++ (word ++ rest)) = some (word, rest) := by
  have hnot : ∀ c ∈ word, (!isSpace c) = true := fun c hc ↦ by rw [hword c hc]; rfl
  have hskip : (spaces ++ (word ++ rest)).dropWhile isSpace = word ++ rest := by
    rw [List.dropWhile_append_of_pos hspaces.isSpace]
    obtain ⟨c, word, rfl⟩ := List.exists_cons_of_ne_nil hne
    exact List.dropWhile_cons_of_neg (by simp [hword c List.mem_cons_self])
  have hstop : ∀ c r, rest = c :: r → (!isSpace c) = false := by
    rintro c r rfl
    rw [hrest c rfl]
    rfl
  rw [extractWord]
  simp only [hskip]
  rw [if_neg (by simp [hne]), List.takeWhile_append_of_pos hnot, List.dropWhile_append_of_pos hnot]
  rcases rest with _ | ⟨c, r⟩
  · simp
  · rw [List.takeWhile_cons_of_neg (by simp [hstop c r rfl]),
      List.dropWhile_cons_of_neg (by simp [hstop c r rfl]), List.append_nil]

/-- **A line means what it says.** -/
theorem parseLine_render {l : ConfigLine} (h : l.WellFormed) : parseLine l.render = l.meaning := by
  cases l with
  | blank spaces =>
    rw [ConfigLine.render, parseLine, if_pos (Trim.trim_eq_nil (Spaces.isSpace h))]
    rfl
  | comment indent text => exact parseLine_comment h.1 h.2.1
  | entry indent key gap colon gap' value tail =>
    obtain ⟨hindent, hgap, hgap', htail, ⟨hne, htrim, hkey, -, heq⟩, ⟨hvalue, -⟩, hcolon⟩ := h
    -- only the white space behind the value goes
    have ht : trim isSpace (ConfigLine.entry indent key gap colon gap' value tail).render =
        key ++ (gap ++ separator colon :: (gap' ++ value ++ tail).rdropWhile isSpace) := by
      obtain ⟨c, k, rfl⟩ := List.exists_cons_of_ne_nil hne
      rw [ConfigLine.render, Trim.trim_append_left hindent.isSpace, List.cons_append,
        List.cons_append, Trim.trim_cons (Trim.head_of_trim htrim),
        Trim.rdropWhile_append_cons (isSpace_separator colon)]
      simp
    have hback : 61 ∉ value → 61 ∉ (gap' ++ value ++ tail).rdropWhile isSpace := by
      intro hnot hmem
      rcases List.mem_append.1 ((List.rdropWhile_prefix _ _).subset hmem) with hmem | hmem
      · exact (List.mem_append.1 hmem).elim (hgap'.notMem rfl) hnot
      · exact htail.notMem rfl hmem
    rw [parseLine_separator ht hne htrim hkey heq hgap fun hc ↦
      ⟨(hcolon hc).1, hback (hcolon hc).2⟩, Trim.trim_rdropWhile,
      Trim.trim_append_right htail.isSpace, Trim.trim_append_left hgap'.isSpace, hvalue]
    rfl
  | words indent key gap value rest =>
    obtain ⟨hindent, hgap, hgapne, ⟨hne, hkey, hnocomment⟩, ⟨hvaluene, hvalue⟩, hrest, hrestsep⟩ :=
      h
    have ht : trim isSpace (ConfigLine.words indent key gap value rest).render =
        key ++ (gap ++ (value ++ rest.rdropWhile isSpace)) := by
      obtain ⟨c, k, rfl⟩ := List.exists_cons_of_ne_nil hne
      rw [ConfigLine.render, Trim.trim_append_left hindent.isSpace, List.cons_append,
        List.cons_append, List.cons_append, Trim.trim_cons (hkey c List.mem_cons_self).1]
      obtain ⟨v, d, rfl⟩ := List.eq_nil_or_concat' value |>.resolve_left hvaluene
      have hd := (hvalue d (List.mem_append_right _ (List.mem_singleton_self d))).1
      have hassoc : k ++ gap ++ (v ++ [d]) ++ rest = (k ++ gap ++ v) ++ d :: rest := by simp
      rw [hassoc, Trim.rdropWhile_append_cons hd]
      simp
    have hsep : ∀ x, isSpace x = false → (x = 61 ∨ x = 58) →
        x ∉ key ++ (gap ++ (value ++ rest.rdropWhile isSpace)) := by
      intro x hx hor hmem
      rcases List.mem_append.1 hmem with hmem | hmem
      · exact hor.elim (hkey x hmem).2.1 (hkey x hmem).2.2
      rcases List.mem_append.1 hmem with hmem | hmem
      · exact hgap.notMem hx hmem
      rcases List.mem_append.1 hmem with hmem | hmem
      · exact hor.elim (hvalue x hmem).2.1 (hvalue x hmem).2.2
      · have := hrestsep x ((List.rdropWhile_prefix _ _).subset hmem)
        exact hor.elim this.1 this.2.1
    have hgaphead : ∀ c, (gap ++ (value ++ rest.rdropWhile isSpace)).head? = some c →
        isSpace c = true := by
      obtain ⟨g, gap, rfl⟩ := List.exists_cons_of_ne_nil hgapne
      intro c hc
      rw [← Option.some.inj hc]
      exact (hgap g List.mem_cons_self).1
    have hresthead : ∀ c, (rest.rdropWhile isSpace).head? = some c → isSpace c = true := by
      intro c hc
      obtain ⟨r, hr⟩ := List.head?_eq_some_iff.1 hc
      obtain ⟨r', hr'⟩ := List.rdropWhile_prefix isSpace rest
      rw [hr] at hr'
      exact hrest c (by rw [← hr']; rfl)
    obtain ⟨hnil, hcomment⟩ := parseLine_of_key hne hnocomment ht fun he ↦
      absurd (hgaphead 47 he) (by decide)
    rw [parseLine]
    simp only [if_neg hnil, if_neg hcomment]
    rw [ht, find_singleton_none (hsep 61 rfl (.inl rfl)),
      find_singleton_none (hsep 58 rfl (.inr rfl))]
    have hnone : Spaces [] := fun _ h ↦ absurd h List.not_mem_nil
    have hfirst := extractWord_append hnone hne (fun c hc ↦ (hkey c hc).1) hgaphead
    have hsecond := extractWord_append hgap hvaluene (fun c hc ↦ (hvalue c hc).1) hresthead
    rw [List.nil_append] at hfirst
    simp only [Option.or_none, hfirst, hsecond]
    rfl

/-! ## What a file means -/

/-- A file with these lines. -/
def printFile (ls : List ConfigLine) : Bytes := ls.flatMap fun l ↦ l.render ++ [10]

/-- A line does not go on behind its end. -/
theorem ConfigLine.WellFormed.notMem_newline {l : ConfigLine} (h : l.WellFormed) :
    10 ∉ l.render := by
  have hspaces : ∀ {s : Bytes}, Spaces s → 10 ∉ s := fun hs hmem ↦ (hs 10 hmem).2 rfl
  cases l with
  | blank spaces => exact hspaces h
  | comment indent text =>
    rw [render, List.mem_append, not_or]
    exact ⟨hspaces h.1, h.2.2⟩
  | entry indent key gap colon gap' value tail =>
    obtain ⟨hindent, hgap, hgap', htail, ⟨-, -, -, hkey, -⟩, ⟨-, hvalue⟩, -⟩ := h
    have hsep : 10 ≠ separator colon := by cases colon <;> decide
    simp only [render, List.mem_append, List.mem_cons, not_or]
    exact ⟨hspaces hindent, ⟨hkey, hspaces hgap⟩, hsep, ⟨hspaces hgap', hvalue⟩, hspaces htail⟩
  | words indent key gap value rest =>
    obtain ⟨hindent, hgap, -, ⟨-, hkey, -⟩, ⟨-, hvalue⟩, -, hrest⟩ := h
    have hnot : ∀ {s : Bytes}, (∀ c ∈ s, isSpace c = false ∧ c ≠ 61 ∧ c ≠ 58) → 10 ∉ s := by
      intro s hs hmem
      exact absurd (hs 10 hmem).1 (by decide)
    simp only [render, List.mem_append, not_or]
    exact ⟨hspaces hindent, ⟨⟨hnot hkey, hspaces hgap⟩, hnot hvalue⟩,
      fun hmem ↦ (hrest 10 hmem).2.2 rfl⟩

theorem getlines_append {line pre : Bytes} (h : 10 ∉ line) (rest : Bytes) :
    getlines pre (line ++ 10 :: rest) = (pre ++ line) :: getlines [] rest := by
  induction line generalizing pre with
  | nil => rw [List.nil_append, getlines, if_pos rfl, List.append_nil]
  | cons c line ih =>
    rw [List.mem_cons, not_or] at h
    rw [List.cons_append, getlines, if_neg (Ne.symm h.1), ih h.2, List.append_assoc]
    rfl

/-- The lines of a file are read one by one. -/
theorem getlines_printFile {ls : List ConfigLine} (h : ∀ l ∈ ls, l.WellFormed) :
    getlines [] (printFile ls) = ls.map ConfigLine.render := by
  induction ls with
  | nil => rfl
  | cons l ls ih =>
    have hrest := ih fun l' hl' ↦ h l' (List.mem_cons_of_mem _ hl')
    rw [printFile, List.flatMap_cons, List.append_assoc]
    rw [show [10] ++ ls.flatMap (fun l ↦ l.render ++ [10]) = 10 :: printFile ls from rfl,
      getlines_append (h l List.mem_cons_self).notMem_newline, hrest]
    rfl

namespace Config

/-- The entries of a file. -/
def entriesOf (ls : List ConfigLine) : List (Bytes × Bytes) := ls.filterMap ConfigLine.meaning

/-- The last of the values for a key. -/
def lastValue (entries : List (Bytes × Bytes)) (key : Bytes) : Option Bytes :=
  (entries.reverse.find? fun e ↦ e.1 = key).map Prod.snd

theorem lastValue_append (es es' : List (Bytes × Bytes)) (key : Bytes) :
    lastValue (es ++ es') key = (lastValue es' key).or (lastValue es key) := by
  rw [lastValue, List.reverse_append, List.find?_append, Option.map_or]
  rfl

/-- The lines of a file, one after another. -/
theorem lookup_addLines {ls : List ConfigLine} (h : ∀ l ∈ ls, l.WellFormed)
    (kv : UnorderedMap Bytes Bytes) (key : Bytes) :
    ((ls.map ConfigLine.render).foldl addLine kv).lookup key =
      (lastValue (entriesOf ls) key).or (kv.lookup key) := by
  induction ls generalizing kv with
  | nil => rfl
  | cons l ls ih =>
    have hl := parseLine_render (h l List.mem_cons_self)
    rw [List.map_cons, List.foldl_cons, ih fun l' hl' ↦ h l' (List.mem_cons_of_mem _ hl')]
    rcases hm : l.meaning with _ | ⟨k, v⟩
    · have hsame : addLine kv l.render = kv := by rw [addLine, hl, hm]
      rw [hsame, entriesOf, entriesOf, List.filterMap_cons_none hm]
    · have hinsert : addLine kv l.render = kv.insert k v := by rw [addLine, hl, hm]
      have hentries : entriesOf (l :: ls) = [(k, v)] ++ entriesOf ls :=
        List.filterMap_cons_some hm
      rw [hinsert, hentries, lastValue_append, Option.or_assoc, UnorderedMap.lookup_insert_ite]
      congr 1
      by_cases hk : key = k
      · simp [lastValue, hk]
      · simp [lastValue, hk, Ne.symm hk]

section Load

variable {files getenv : Bytes → Option Bytes} {docs : Bytes → Option (List ConfigLine)}

/-- The lines of all files, in the order of their paths. -/
def linesOf (docs : Bytes → Option (List ConfigLine)) (paths : List Bytes) : List ConfigLine :=
  paths.flatMap fun path ↦ if path = [] then [] else (docs path).getD []

theorem lookup_addFile {path : Bytes}
    (hdocs : path ≠ [] → files path = (docs path).map printFile)
    (hwf : ∀ ls, docs path = some ls → ∀ l ∈ ls, l.WellFormed)
    (kv : UnorderedMap Bytes Bytes) (key : Bytes) :
    (addFile files kv path).lookup key =
      (lastValue (entriesOf (linesOf docs [path])) key).or (kv.lookup key) := by
  rw [addFile, linesOf, List.flatMap_cons, List.flatMap_nil, List.append_nil]
  by_cases hpath : path = []
  · rw [if_pos hpath, if_pos hpath]
    rfl
  · rw [if_neg hpath, if_neg hpath, hdocs hpath]
    rcases hls : docs path with _ | ls
    · rfl
    · simp only [Option.map_some, getlines_printFile (hwf ls hls)]
      exact lookup_addLines (hwf ls hls) kv key

/-- **After a load a key has the value of the last entry for it**, in the order of the paths and of
the lines, and a key without an entry is not there, whatever was there before the load. -/
theorem lookup_load {paths : List Bytes}
    (hdocs : ∀ path ∈ paths, path ≠ [] → files path = (docs path).map printFile)
    (hwf : ∀ path ∈ paths, ∀ ls, docs path = some ls → ∀ l ∈ ls, l.WellFormed) (c : Config)
    (key : Bytes) :
    (loadFromFiles files getenv c paths).kv.lookup key =
      lastValue (entriesOf (linesOf docs paths)) key := by
  show (paths.foldl (addFile files) ∅).lookup key = _
  induction paths using List.reverseRecOn with
  | nil => rfl
  | append_singleton paths path ih =>
    have hpath : path ∈ paths ++ [path] := List.mem_append_right _ (List.mem_singleton_self path)
    have hbefore := ih (fun p hp ↦ hdocs p (List.mem_append_left _ hp))
      fun p hp ↦ hwf p (List.mem_append_left _ hp)
    have hlines : entriesOf (linesOf docs (paths ++ [path])) =
        entriesOf (linesOf docs paths) ++ entriesOf (linesOf docs [path]) := by
      rw [linesOf, List.flatMap_append, entriesOf, List.filterMap_append]
      rfl
    rw [List.foldl_append, List.foldl_cons, List.foldl_nil,
      lookup_addFile (hdocs path hpath) (hwf path hpath), hbefore, hlines, lastValue_append]

end Load

/-- Two files, of which the second overrides an entry of the first in another notation. -/
def twoFiles : List (Bytes × List ConfigLine) :=
  [(lit "default.conf", [.comment [32] (lit "# ports"), .blank [],
      .entry [9] (lit "listen_port") [32] false [32] (lit "9000") [],
      .words [] (lit "name") [32] (lit "chwell") (lit " core")]),
    (lit "app.conf", [.entry [] (lit "listen_port") [] true [] (lit "8080") [32, 13]])]

instance (s : Bytes) : Decidable (Spaces s) := inferInstanceAs (Decidable (∀ _ ∈ _, _))

instance (s : Bytes) : Decidable (NoComment s) := inferInstanceAs (Decidable (_ ∧ _))

instance (l : ConfigLine) : Decidable l.WellFormed :=
  match l with
  | .blank _ => inferInstanceAs (Decidable (Spaces _))
  | .comment _ _ => inferInstanceAs (Decidable (_ ∧ _ ∧ _))
  | .entry _ _ _ _ _ _ _ => inferInstanceAs (Decidable (_ ∧ _ ∧ _ ∧ _ ∧ _ ∧ _ ∧ (_ = _ → _)))
  | .words _ _ _ _ rest =>
    have : Decidable (∀ c, rest.head? = some c → isSpace c = true) :=
      match rest with
      | [] => .isTrue fun _ h ↦ (by cases h)
      | c :: _ => decidable_of_iff (isSpace c = true)
          ⟨fun h _ hc ↦ Option.some.inj hc ▸ h, fun h ↦ h c rfl⟩
    inferInstanceAs (Decidable (_ ∧ _ ∧ _ ∧ _ ∧ _ ∧ _ ∧ _))

theorem lookup_load_twoFiles :
    (loadFromFiles (fun path ↦ (twoFiles.lookup path).map printFile) (fun _ ↦ none) new
      [lit "default.conf", lit "app.conf", lit "missing.conf"]).kv.lookup (lit "listen_port") =
        some (lit "8080") := by
  have hwf : ∀ e ∈ twoFiles, ∀ l ∈ e.2, l.WellFormed := by decide +kernel
  have hfiles : ∀ path ∈ [lit "default.conf", lit "app.conf", lit "missing.conf"], path ≠ [] →
      (twoFiles.lookup path).map printFile = (twoFiles.lookup path).map printFile := fun _ _ _ ↦ rfl
  rw [lookup_load hfiles]
  · decide +kernel
  · intro path _ ls hls
    obtain ⟨before, after, hall, -⟩ := List.lookup_eq_some_iff.1 hls
    exact hwf (path, ls) (hall ▸ List.mem_append_right _ List.mem_cons_self)

/-! ## The two fields -/

/-- What is done with a configuration.  The files and the environment may change in between. -/
inductive ConfigOp where
  | load (files getenv : Bytes → Option Bytes) (paths : List Bytes)
  | set (key value : Bytes)

/-- It changes something. -/
def ConfigOp.effective : ConfigOp → Prop
  | .load _ _ _ => True
  | .set key _ => key ≠ []

def apply (c : Config) : ConfigOp → Config
  | .load files getenv paths => loadFromFiles files getenv c paths
  | .set key value => c.set key value

/-- A field that has been read out of the table. -/
theorem getInt_eq {c : Config} {key value : Bytes} {n : ℤ} (h : c.kv.lookup key = some value)
    (hn : stoi value = .ok n) (d : ℤ) : c.getInt key d = n := by
  simp only [getInt, h, hn]

/-- A field agrees with the table, unless the last thing that was done was a load that the
environment has overridden. -/
def Agrees (ops : List ConfigOp) (env : (Bytes → Option Bytes) → Option ℤ) (field : ℤ)
    (entry : Option Bytes) : Prop :=
  ∀ value n, entry = some value → stoi value = .ok n → field = n ∨
    ∃ before files getenv paths after, ops = before ++ .load files getenv paths :: after ∧
      (∀ op ∈ after, ¬ op.effective) ∧ env getenv = some field

theorem Agrees.snoc {ops : List ConfigOp} {env : (Bytes → Option Bytes) → Option ℤ} {field : ℤ}
    {entry : Option Bytes} (h : Agrees ops env field entry) {op : ConfigOp} (hop : ¬ op.effective) :
    Agrees (ops ++ [op]) env field entry := by
  intro value n hvalue hn
  refine (h value n hvalue hn).imp id ?_
  rintro ⟨before, files, getenv, paths, after, rfl, hafter, henv⟩
  refine ⟨before, files, getenv, paths, after ++ [op], by simp, fun op' hmem ↦ ?_, henv⟩
  rcases List.mem_append.1 hmem with hmem | hmem
  · exact hafter op' hmem
  · rw [List.mem_singleton.1 hmem]
    exact hop

/-- A load. -/
theorem agrees_load (ops : List ConfigOp) (files getenv : Bytes → Option Bytes)
    (paths : List Bytes) (env : (Bytes → Option Bytes) → Option ℤ) (c : Config) (key : Bytes)
    (d : ℤ) : Agrees (ops ++ [.load files getenv paths]) env
      ((env getenv).getD (c.getInt key d)) (c.kv.lookup key) := by
  intro value n hvalue hn
  rcases henv : env getenv with _ | v
  · exact .inl (getInt_eq hvalue hn d)
  · exact .inr ⟨ops, files, getenv, paths, [], rfl, fun _ h ↦ absurd h List.not_mem_nil, henv⟩

/-- **The fields follow the table.**  After anything that was done to a configuration, a field whose
entry in the table is a number is that number, or the value of the environment at the last load, if
nothing has been set since.  So a key that is set undoes what the environment had overridden. -/
theorem fields_agree (ops : List ConfigOp) :
    Agrees ops envPort (ops.foldl apply new).listenPort
        ((ops.foldl apply new).kv.lookup (lit "listen_port")) ∧
      Agrees ops envWorkers (ops.foldl apply new).workerThreads
        ((ops.foldl apply new).kv.lookup (lit "worker_threads")) := by
  induction ops using List.reverseRecOn with
  | nil => exact ⟨fun _ _ h ↦ (by cases h), fun _ _ h ↦ (by cases h)⟩
  | append_singleton ops op ih =>
    rw [List.foldl_append, List.foldl_cons, List.foldl_nil]
    cases op with
    | load files getenv paths =>
      let c : Config := { ops.foldl apply new with kv := paths.foldl (addFile files) ∅ }
      exact ⟨agrees_load ops files getenv paths envPort c (lit "listen_port") _,
        agrees_load ops files getenv paths envWorkers c (lit "worker_threads") _⟩
    | set key value =>
      by_cases hkey : key = []
      · rw [apply, set, if_pos hkey]
        exact ⟨ih.1.snoc (not_not.2 hkey), ih.2.snoc (not_not.2 hkey)⟩
      · rw [apply, set, if_neg hkey]
        exact ⟨fun _ _ hvalue hn ↦ .inl (getInt_eq hvalue hn _),
          fun _ _ hvalue hn ↦ .inl (getInt_eq hvalue hn _)⟩

end Config

end Core
end ChwellCore
