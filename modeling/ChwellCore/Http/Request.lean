import ChwellCore.Core.Decimal
import ChwellCore.Lib.OrderedMap
import ChwellCore.Lib.Search

/-!
# HTTP requests

`parse_request` finds the request line, the header lines and the body of a request in the bytes that
have been read so far.  Everything in front of the blank line is its head.  What comes behind is the
body if it is long enough for the `Content-Length` of the head, and is ignored otherwise.

`parseRequest_append` says that the head is read without a look at what comes behind, whatever that
is; `parseRequest_print` that a request, written down in the usual form, is read back.
-/

set_option autoImplicit false

namespace ChwellCore
namespace Http

open Search (find findFrom)

/-- `HttpRequest`. -/
structure HttpRequest where
  method : Bytes
  path : Bytes
  version : Bytes
  headers : OrderedMap Bytes Bytes
  body : Bytes

/-- `header`. -/
def HttpRequest.header (r : HttpRequest) (key : Bytes) : Bytes := r.headers[key]?.getD []

/-- `"\r\n"`. -/
def crlf : Bytes := [13, 10]

/-- `"\r\n\r\n"`. -/
def blankLine : Bytes := [13, 10, 13, 10]

theorem crlf_ne_nil : crlf ≠ [] := List.cons_ne_nil _ _

theorem blankLine_ne_nil : blankLine ≠ [] := List.cons_ne_nil _ _

/-! ## Parsing -/

/-- A header line: the value without what is blank in front of it.  A line without a colon is
ignored. -/
def parseHeader (line : Bytes) (headers : OrderedMap Bytes Bytes) : OrderedMap Bytes Bytes :=
  match find [58] line with
  | none => headers
  | some colon =>
    headers.insert (line.take colon) ((line.drop (colon + 1)).dropWhile fun c ↦ c = 32 || c = 9)

/-- The loop over the header lines. -/
def parseHeaders (data : Bytes) (headerEnd lineStart : ℕ) (headers : OrderedMap Bytes Bytes) :
    OrderedMap Bytes Bytes :=
  if lineStart < headerEnd then
    match _hfind : findFrom crlf lineStart data with
    | none => headers
    | some lineEnd =>
      if headerEnd < lineEnd then headers
      else
        parseHeaders data headerEnd (lineEnd + 2)
          (parseHeader ((data.drop lineStart).take (lineEnd - lineStart)) headers)
  else headers
termination_by headerEnd - lineStart
decreasing_by
  have := Search.le_of_findFrom _hfind
  omega

/-- What is taken for the body, if `data` comes behind the blank line. -/
def HttpRequest.bodyIn (r : HttpRequest) (data : Bytes) : Bytes :=
  let contentLength := r.header (lit "Content-Length")
  if contentLength = [] then []
  else
    let len := atoi contentLength
    if 0 < len ∧ len.toNat ≤ data.length then data.take len.toNat else []

/-- The request line. -/
def parseRequestLine (requestLine : Bytes) : Option HttpRequest :=
  match find [32] requestLine with
  | none => none
  | some sp1 =>
    match findFrom [32] (sp1 + 1) requestLine with
    | none => none
    | some sp2 =>
      some
        { method := requestLine.take sp1
          path := (requestLine.drop (sp1 + 1)).take (sp2 - sp1 - 1)
          version := requestLine.drop (sp2 + 1)
          headers := ∅
          body := [] }

/-- `parse_request`. -/
def parseRequest (data : Bytes) : Option HttpRequest :=
  match find crlf data with
  | none => none
  | some pos =>
    match parseRequestLine (data.take pos) with
    | none => none
    | some req =>
      match find blankLine data with
      | none => none
      | some headerEnd =>
        let req := { req with headers := parseHeaders data headerEnd (pos + 2) req.headers }
        some { req with body := req.bodyIn (data.drop (headerEnd + 4)) }

/-! ## The head -/

section Head

variable {head : Bytes} {headerEnd : ℕ}

theorem parseHeaders_of_le {data : Bytes} {lineStart : ℕ} (h : headerEnd ≤ lineStart)
    (headers : OrderedMap Bytes Bytes) :
    parseHeaders data headerEnd lineStart headers = headers := by
  rw [parseHeaders, if_neg (by omega)]

/-- One header line. -/
theorem parseHeaders_of_lt {data : Bytes} {lineStart : ℕ} (h : lineStart < headerEnd)
    (headers : OrderedMap Bytes Bytes) :
    parseHeaders data headerEnd lineStart headers =
      match findFrom crlf lineStart data with
      | none => headers
      | some lineEnd =>
        if headerEnd < lineEnd then headers
        else
          parseHeaders data headerEnd (lineEnd + 2)
            (parseHeader ((data.drop lineStart).take (lineEnd - lineStart)) headers) := by
  rw [parseHeaders, if_pos h]
  split
  · next hfind => rw [hfind]
  · next hfind => rw [hfind]

/-- The header lines are found in front of the blank line. -/
theorem parseHeaders_append (hend : find blankLine head = some headerEnd) (rest : Bytes)
    (lineStart : ℕ) (headers : OrderedMap Bytes Bytes) :
    parseHeaders (head ++ rest) headerEnd lineStart headers =
      parseHeaders head headerEnd lineStart headers := by
  have hcrlf : crlf <+: head.drop headerEnd :=
    List.IsPrefix.trans ⟨[13, 10], rfl⟩ (Search.prefix_of_find hend)
  have hlen : headerEnd + 4 ≤ head.length := Search.add_length_le_of_find blankLine_ne_nil hend
  induction hn : headerEnd - lineStart using Nat.strong_induction_on generalizing lineStart headers
    with
  | _ n ih =>
    rcases Nat.lt_or_ge lineStart headerEnd with hlt | hge
    · rw [parseHeaders_of_lt hlt, parseHeaders_of_lt hlt,
        Search.findFrom_append crlf_ne_nil hlt.le hcrlf]
      rcases hfind : findFrom crlf lineStart head with _ | lineEnd
      · rfl
      dsimp only
      have hle := Search.le_of_findFrom hfind
      split_ifs with hbehind
      · rfl
      · rw [List.drop_append_of_le_length (by omega), List.take_append_of_le_length
          (by rw [List.length_drop]; omega)]
        exact ih _ (by omega) _ _ rfl
    · rw [parseHeaders_of_le hge, parseHeaders_of_le hge]

/-- **The head is read without a look at what comes behind.** -/
theorem parseRequest_append (hend : find blankLine head = some headerEnd) (rest : Bytes) :
    parseRequest (head ++ rest) = (parseRequest head).map fun r ↦
      { r with body := r.bodyIn (head.drop (headerEnd + 4) ++ rest) } := by
  have hcrlf : crlf <+: head.drop headerEnd :=
    List.IsPrefix.trans ⟨[13, 10], rfl⟩ (Search.prefix_of_find hend)
  have hlen : headerEnd + 4 ≤ head.length := Search.add_length_le_of_find blankLine_ne_nil hend
  obtain ⟨pos, hpos⟩ := Search.exists_find hcrlf
  have hle := Search.add_length_le_of_find crlf_ne_nil hpos
  rw [parseRequest, parseRequest, Search.find_append crlf_ne_nil hpos, hpos,
    Search.find_append blankLine_ne_nil hend, hend]
  dsimp only
  rw [List.take_append_of_le_length (by omega)]
  rcases parseRequestLine (head.take pos) with _ | req
  · rfl
  dsimp only
  rw [parseHeaders_append hend, List.drop_append_of_le_length hlen, Option.map_some]
  rfl

end Head

/-! ## Printing -/

/-- A header line, without what ends it. -/
def headerText (e : Bytes × Bytes) : Bytes := e.1 ++ 58 :: 32 :: e.2

/-- Header lines. -/
def headerLines (headers : List (Bytes × Bytes)) : Bytes :=
  headers.flatMap fun e ↦ headerText e ++ crlf

/-- The request line, without what ends it. -/
def HttpRequest.requestLine (r : HttpRequest) : Bytes :=
  r.method ++ 32 :: (r.path ++ 32 :: r.version)

/-- The head of a request, with the headers in this order. -/
def HttpRequest.printHead (r : HttpRequest) (headers : List (Bytes × Bytes)) : Bytes :=
  r.requestLine ++ (crlf ++ (headerLines headers ++ crlf))

/-- The usual form of a request, with the headers in this order. -/
def HttpRequest.print (r : HttpRequest) (headers : List (Bytes × Bytes)) : Bytes :=
  r.printHead headers ++ r.body

/-- A name and a value that can stand in a header line. -/
structure HeaderPrintable (e : Bytes × Bytes) : Prop where
  name : 58 ∉ e.1 ∧ 13 ∉ e.1 ∧ 10 ∉ e.1
  value : 13 ∉ e.2 ∧ 10 ∉ e.2
  /-- Blanks in front of the value would be lost. -/
  notBlank : ∀ c, e.2.head? = some c → c ≠ 32 ∧ c ≠ 9

/-- A request that has a usual form. -/
structure HttpRequest.Printable (r : HttpRequest) : Prop where
  method : 32 ∉ r.method ∧ 13 ∉ r.method ∧ 10 ∉ r.method
  path : 32 ∉ r.path ∧ 13 ∉ r.path ∧ 10 ∉ r.path
  version : 13 ∉ r.version ∧ 10 ∉ r.version
  headers : ∀ e ∈ r.headers.toList, HeaderPrintable e
  /-- The length of the body is told, or there is none. -/
  length : r.headers[lit "Content-Length"]? = none ∧ r.body = [] ∨
    r.headers[lit "Content-Length"]? = some (natToDec r.body.length) ∧ r.body.length < 2 ^ 31

section Print

variable {r : HttpRequest} {e : Bytes × Bytes} {headers : List (Bytes × Bytes)}

theorem HeaderPrintable.notMem_headerText (h : HeaderPrintable e) : 13 ∉ headerText e := by
  rw [headerText, List.mem_append, List.mem_cons, List.mem_cons]
  rintro (hname | hcolon | hblank | hvalue)
  · exact h.name.2.1 hname
  · cases hcolon
  · cases hblank
  · exact h.value.1 hvalue

theorem parseHeader_headerText (h : HeaderPrintable e) (m : OrderedMap Bytes Bytes) :
    parseHeader (headerText e) m = m.insert e.1 e.2 := by
  have hcolon : find [58] (headerText e) = some e.1.length :=
    Search.find_append_append h.name.1 (32 :: e.2)
  have hvalue : e.2.dropWhile (fun c ↦ c = 32 || c = 9) = e.2 := by
    rcases hv : e.2 with _ | ⟨c, v⟩
    · rfl
    · obtain ⟨hspace, htab⟩ := h.notBlank c (by rw [hv]; rfl)
      rw [List.dropWhile_cons_of_neg]
      simp [hspace, htab]
  rw [parseHeader, hcolon]
  dsimp only
  rw [headerText, List.take_left, ← List.drop_drop, List.drop_left, List.drop_one, List.tail_cons,
    List.dropWhile_cons_of_pos (by rfl), hvalue]

theorem length_printHead (r : HttpRequest) (headers : List (Bytes × Bytes)) :
    (r.printHead headers).length = r.requestLine.length + (headerLines headers).length + 4 := by
  simp only [HttpRequest.printHead, List.length_append, crlf, List.length_cons, List.length_nil]
  omega

theorem headerLines_cons (e : Bytes × Bytes) (headers : List (Bytes × Bytes)) :
    headerLines (e :: headers) = headerText e ++ (crlf ++ headerLines headers) := by
  rw [headerLines, List.flatMap_cons, List.append_assoc]
  rfl

/-- The blank line is the first one behind the header lines. -/
theorem find_blankLine (h : ∀ e ∈ headers, HeaderPrintable e) {line : Bytes} (hline : 13 ∉ line)
    (rest : Bytes) : find blankLine (line ++ (crlf ++ (headerLines headers ++ (crlf ++ rest)))) =
      some (line.length + (headerLines headers).length) := by
  induction headers generalizing line with
  | nil => exact Search.find_append_append hline rest
  | cons e headers ih =>
    have htext := (h e List.mem_cons_self).notMem_headerText
    have ih := ih (fun e he ↦ h e (List.mem_cons_of_mem _ he)) htext
    -- the line behind this one is not empty, and does not begin like the end of a line
    have hnot : ¬ blankLine <+: 13 :: ([10] ++
        (headerText e ++ (crlf ++ (headerLines headers ++ (crlf ++ rest))))) := by
      obtain ⟨c, t, ht⟩ := List.exists_cons_of_ne_nil (l := headerText e)
        (List.append_ne_nil_of_right_ne_nil _ (List.cons_ne_nil _ _))
      rw [ht] at htext ⊢
      intro hp
      obtain ⟨-, hp⟩ := List.cons_prefix_cons.1 hp
      obtain ⟨-, hp⟩ := List.cons_prefix_cons.1 hp
      obtain ⟨rfl, -⟩ := List.cons_prefix_cons.1 hp
      exact htext List.mem_cons_self
    rw [headerLines_cons, List.append_assoc, List.append_assoc, blankLine,
      Search.find_append_of_notMem hline]
    change (find blankLine (13 :: ([10] ++ _))).map _ = _
    rw [Search.find_cons_of_not_start hnot, blankLine,
      Search.find_append_of_notMem (m := [10]) (by decide)]
    rw [← blankLine, ih]
    simp only [Option.map_some, Option.some.injEq, List.length_append, List.length_singleton]
    have : crlf.length = 2 := rfl
    omega

/-- The loop reads the header lines. -/
theorem parseHeaders_headerLines (h : ∀ e ∈ headers, HeaderPrintable e) (rest : Bytes)
    {left : Bytes} {lineStart headerEnd : ℕ} (hstart : lineStart = left.length)
    (hend : headerEnd + 2 = lineStart + (headerLines headers).length)
    (m : OrderedMap Bytes Bytes) :
    parseHeaders (left ++ (headerLines headers ++ (crlf ++ rest))) headerEnd lineStart m =
      OrderedMap.insertAll m headers := by
  induction headers generalizing left lineStart m with
  | nil =>
    rw [headerLines, List.flatMap_nil, List.length_nil] at hend
    exact parseHeaders_of_le (by omega) m
  | cons e headers ih =>
    have he := h e List.mem_cons_self
    have hlen : (headerText e).length = e.1.length + (e.2.length + 2) := List.length_append
    have hcrlf : crlf.length = 2 := rfl
    rw [headerLines_cons, List.length_append, List.length_append] at hend
    have hfind : findFrom crlf lineStart
        (left ++ (headerLines (e :: headers) ++ (crlf ++ rest))) =
          some ((headerText e).length + lineStart) := by
      rw [Search.findFrom_append_left _ _ hstart, headerLines_cons, List.append_assoc,
        List.append_assoc, crlf, Search.find_append_append he.notMem_headerText, Option.map_some]
    have hline : ((left ++ (headerLines (e :: headers) ++ (crlf ++ rest))).drop lineStart).take
        ((headerText e).length + lineStart - lineStart) = headerText e := by
      rw [hstart, List.drop_left, Nat.add_sub_cancel, headerLines_cons, List.append_assoc,
        List.take_left]
    have hleft : left ++ (headerLines (e :: headers) ++ (crlf ++ rest)) =
        (left ++ (headerText e ++ crlf)) ++ (headerLines headers ++ (crlf ++ rest)) := by
      simp only [headerLines_cons, List.append_assoc]
    rw [parseHeaders_of_lt (by omega), hfind]
    dsimp only
    rw [if_neg (by omega), hline, parseHeader_headerText he, hleft,
      ih (fun e he ↦ h e (List.mem_cons_of_mem _ he))]
    · rfl
    · rw [List.length_append, List.length_append]
      omega
    · omega

/-- The request line is read. -/
theorem parseRequestLine_requestLine (h : r.Printable) :
    parseRequestLine r.requestLine = some { r with headers := ∅, body := [] } := by
  have hsp1 : find [32] r.requestLine = some r.method.length :=
    Search.find_append_append h.method.1 _
  have hrest : r.requestLine.drop (r.method.length + 1) = r.path ++ 32 :: r.version := by
    rw [HttpRequest.requestLine, ← List.drop_drop, List.drop_left, List.drop_one, List.tail_cons]
  have hpath : find [32] (r.path ++ 32 :: r.version) = some r.path.length :=
    Search.find_append_append h.path.1 _
  have hversion : r.requestLine.drop (r.path.length + (r.method.length + 1) + 1) = r.version := by
    rw [Nat.add_right_comm, Nat.add_comm, ← List.drop_drop, hrest, ← List.drop_drop, List.drop_left,
      List.drop_one, List.tail_cons]
  rw [parseRequestLine, hsp1]
  dsimp only
  rw [findFrom, hrest, hpath, Option.map_some]
  dsimp only
  rw [hversion, show r.path.length + (r.method.length + 1) - r.method.length - 1 = r.path.length by
    omega, List.take_left, HttpRequest.requestLine, List.take_left]

theorem notMem_requestLine (h : r.Printable) : 13 ∉ r.requestLine := by
  rw [HttpRequest.requestLine, List.mem_append, List.mem_cons, List.mem_append, List.mem_cons]
  rintro (hmethod | hspace | hpath | hspace | hversion)
  · exact h.method.2.1 hmethod
  · cases hspace
  · exact h.path.2.1 hpath
  · cases hspace
  · exact h.version.1 hversion

/-- The head of a request, and whatever comes behind. -/
theorem parseRequest_printHead (h : r.Printable) (hheaders : headers.Perm r.headers.toList)
    (rest : Bytes) :
    parseRequest (r.printHead headers ++ rest) = some { r with body := r.bodyIn rest } := by
  have hall : ∀ e ∈ headers, HeaderPrintable e := fun e he ↦ h.headers e (hheaders.mem_iff.1 he)
  have hline := notMem_requestLine h
  have hdata : r.printHead headers ++ rest =
      r.requestLine ++ (crlf ++ (headerLines headers ++ (crlf ++ rest))) := by
    simp only [HttpRequest.printHead, List.append_assoc]
  have hpos : find crlf (r.printHead headers ++ rest) = some r.requestLine.length := by
    rw [hdata]
    exact Search.find_append_append hline _
  have hend : find blankLine (r.printHead headers ++ rest) =
      some (r.requestLine.length + (headerLines headers).length) := by
    rw [hdata]
    exact find_blankLine hall hline rest
  have hloop : parseHeaders (r.printHead headers ++ rest)
      (r.requestLine.length + (headerLines headers).length) (r.requestLine.length + 2) ∅ =
        r.headers := by
    rw [hdata, ← List.append_assoc, parseHeaders_headerLines hall rest
      (by rw [List.length_append]; rfl) (by omega), OrderedMap.insertAll_of_perm hheaders]
  have hbehind : (r.printHead headers ++ rest).drop
      (r.requestLine.length + (headerLines headers).length + 4) = rest := by
    rw [← length_printHead, List.drop_left]
  rw [parseRequest, hpos]
  dsimp only
  rw [show (r.printHead headers ++ rest).take r.requestLine.length = r.requestLine by
    rw [hdata, List.take_left], parseRequestLine_requestLine h]
  dsimp only
  rw [hend]
  dsimp only
  rw [hloop, hbehind]
  rfl

/-- What is taken for the body is what is there, if its length is told. -/
theorem bodyIn_eq_self {data : Bytes}
    (h : atoi (r.header (lit "Content-Length")) = data.length) : r.bodyIn data = data := by
  have hnil (hlen : ¬ 0 < data.length) : [] = data :=
    (List.length_eq_zero_iff.1 (Nat.eq_zero_of_not_pos hlen)).symm
  rw [HttpRequest.bodyIn]
  dsimp only
  rw [h, Int.toNat_natCast]
  split_ifs with hempty hlen
  · rw [hempty] at h
    exact hnil fun hpos ↦ by
      have h0 : atoi [] = 0 := rfl
      omega
  · exact List.take_length
  · exact hnil (by omega)

theorem atoi_header (h : r.Printable) :
    atoi (r.header (lit "Content-Length")) = r.body.length := by
  rw [HttpRequest.header]
  rcases h.length with ⟨hnone, hbody⟩ | ⟨hsome, -⟩
  · rw [hnone, hbody]
    rfl
  · rw [hsome, Option.getD_some, atoi_natToDec]

/-- **A request that is written down is read back**, with its headers in any order. -/
theorem parseRequest_print (h : r.Printable) (hheaders : headers.Perm r.headers.toList) :
    parseRequest (r.print headers) = some r := by
  rw [HttpRequest.print, parseRequest_printHead h hheaders, bodyIn_eq_self (atoi_header h)]

end Print

/-- A request with a body of two ends of lines. -/
def posted : HttpRequest where
  method := lit "POST"
  path := lit "/a"
  version := lit "HTTP/1.1"
  headers := .ofList [(lit "Host", lit "b:80"), (lit "Content-Length", lit "4")]
  body := blankLine

theorem printable_posted : posted.Printable where
  method := by decide
  path := by decide
  version := by decide
  headers := by
    have hlist : posted.headers.toList =
        [(lit "Content-Length", lit "4"), (lit "Host", lit "b:80")] := by decide
    rw [hlist]
    rintro e (_ | ⟨_, _ | ⟨_, he⟩⟩)
    · exact ⟨by decide, by decide, fun c hc ↦ by cases hc; decide⟩
    · exact ⟨by decide, by decide, fun c hc ↦ by cases hc; decide⟩
    · cases he
  length := .inr ⟨by decide, by decide⟩

/-- Its header lines may come in either order. -/
theorem parseRequest_print_posted :
    parseRequest (posted.print [(lit "Host", lit "b:80"), (lit "Content-Length", lit "4")]) =
      some posted :=
  parseRequest_print printable_posted (by decide)

end Http
end ChwellCore
