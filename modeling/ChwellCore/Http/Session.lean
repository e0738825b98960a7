import ChwellCore.Http.Request

/-!
# A request that comes in pieces

`HttpSession::run` reads until it finds the blank line, and then parses what it has read.  It does
not ask whether the body has come: `parse_request` takes a body that is too short for none at all,
and the handler is called with a request without a body.

`run_eq_some_iff` says for every division of a request into reads when the handler is passed the
request: if and only if the read that completes the head brings the whole body with it.
-/

set_option autoImplicit false

namespace ChwellCore
namespace Http

open Search (find)

/-- `HttpSession::run`, up to the call of the handler: the request that it is passed, if it is
called.  The list has what the calls of `read` bring until the peer has closed. -/
def HttpSession.run (requestData : Bytes) : List Bytes → Option HttpRequest
  | [] => none
  | chunk :: reads =>
    if chunk = [] then none
    else
      let requestData := requestData ++ chunk
      match find blankLine requestData with
      | none => HttpSession.run requestData reads
      | some _ => parseRequest requestData

/-- A head and a body are a request: the head ends with its first blank line, it can be parsed, and
its `Content-Length` is the length of the body. -/
structure WellFormed (head body : Bytes) (r : HttpRequest) : Prop where
  complete : ∃ headerEnd, find blankLine head = some headerEnd ∧ head.length = headerEnd + 4
  parsed : parseRequest (head ++ body) = some r
  length : atoi (r.header (lit "Content-Length")) = body.length

/-- `buffer_` has room for 8192 bytes. -/
def Readable (chunk : Bytes) : Prop := 0 < chunk.length ∧ chunk.length ≤ 8192

instance : DecidablePred Readable := fun _ ↦ instDecidableAnd

theorem HttpRequest.length_bodyIn_le (r : HttpRequest) (data : Bytes) :
    (r.bodyIn data).length ≤ data.length := by
  rw [bodyIn]
  dsimp only
  split_ifs
  · exact Nat.zero_le _
  · rw [List.length_take]
    exact Nat.min_le_right _ _
  · exact Nat.zero_le _

/-- What is written down is a request. -/
theorem wellFormed_print {r : HttpRequest} (h : r.Printable) {headers : List (Bytes × Bytes)}
    (hheaders : headers.Perm r.headers.toList) : WellFormed (r.printHead headers) r.body r := by
  have hfind := find_blankLine (fun e he ↦ h.headers e (hheaders.mem_iff.1 he))
    (notMem_requestLine h) []
  rw [List.append_nil] at hfind
  exact {
    complete := ⟨_, hfind, length_printHead r headers⟩
    parsed := by rw [parseRequest_printHead h hheaders, bodyIn_eq_self (atoi_header h)]
    length := atoi_header h }

namespace WellFormed

variable {head body : Bytes} {r : HttpRequest}

/-- The head, and what comes behind. -/
theorem parseRequest_head (h : WellFormed head body r) (data : Bytes) :
    parseRequest (head ++ data) = some { r with body := r.bodyIn data } := by
  obtain ⟨headerEnd, hend, hlen⟩ := h.complete
  have hparsed := h.parsed
  rw [parseRequest_append hend, ← hlen, List.drop_length, List.nil_append] at hparsed ⊢
  obtain ⟨r₀, hr₀, rfl⟩ := Option.map_eq_some_iff.1 hparsed
  rw [hr₀]
  rfl

/-- The whole of the body is the body of the request. -/
theorem body_eq (h : WellFormed head body r) : r.body = body := by
  have hparsed := h.parsed
  rw [h.parseRequest_head, bodyIn_eq_self h.length] at hparsed
  exact (congrArg HttpRequest.body (Option.some.inj hparsed)).symm

/-- The blank line is found as soon as the head has come. -/
theorem find_blankLine_iff (h : WellFormed head body r) {data rest : Bytes}
    (hdata : data ++ rest = head ++ body) :
    (find blankLine data).isSome = true ↔ head.length ≤ data.length := by
  obtain ⟨headerEnd, hend, hlen⟩ := h.complete
  constructor
  · intro hsome
    obtain ⟨i, hi⟩ := Option.isSome_iff_exists.1 hsome
    have hall := Search.find_append blankLine_ne_nil hi rest
    rw [hdata, Search.find_append blankLine_ne_nil hend] at hall
    obtain rfl := Option.some.inj hall
    rw [hlen]
    exact Search.add_length_le_of_find blankLine_ne_nil hi
  · intro hle
    obtain ⟨extra, rfl⟩ := List.prefix_of_prefix_length_le
      (List.prefix_append head body) (hdata ▸ List.prefix_append data rest) hle
    rw [Search.find_append blankLine_ne_nil hend]
    rfl

section Read

variable {requestData chunk : Bytes} {reads : List Bytes}

/-- A read that does not complete the head. -/
theorem run_cons_of_lt (h : WellFormed head body r)
    (hdata : requestData ++ chunk ++ reads.flatten = head ++ body) (hchunk : 0 < chunk.length)
    (hlt : (requestData ++ chunk).length < head.length) :
    HttpSession.run requestData (chunk :: reads) =
      HttpSession.run (requestData ++ chunk) reads := by
  have hnone : find blankLine (requestData ++ chunk) = none :=
    Option.not_isSome_iff_eq_none.1 fun hsome ↦
      hlt.not_ge ((h.find_blankLine_iff hdata).1 hsome)
  rw [HttpSession.run, if_neg (List.ne_nil_of_length_pos hchunk)]
  dsimp only
  rw [hnone]

/-- The read that completes the head, and `data` of the body with it. -/
theorem run_cons_of_le (h : WellFormed head body r)
    (hdata : requestData ++ chunk ++ reads.flatten = head ++ body) (hchunk : 0 < chunk.length)
    (hle : head.length ≤ (requestData ++ chunk).length) :
    ∃ data, data ++ reads.flatten = body ∧
      HttpSession.run requestData (chunk :: reads) = some { r with body := r.bodyIn data } := by
  obtain ⟨i, hsome⟩ := Option.isSome_iff_exists.1 ((h.find_blankLine_iff hdata).2 hle)
  obtain ⟨data, hcomplete⟩ := List.prefix_of_prefix_length_le
    (List.prefix_append head body) (hdata ▸ List.prefix_append _ _) hle
  rw [← hcomplete, List.append_assoc, List.append_cancel_left_eq] at hdata
  rw [HttpSession.run, if_neg (List.ne_nil_of_length_pos hchunk)]
  dsimp only
  rw [hsome]
  dsimp only
  exact ⟨data, hdata, by rw [← hcomplete, h.parseRequest_head]⟩

/-- What has come of the body makes the request if it is all of it. -/
theorem bodyIn_eq_iff (h : WellFormed head body r) {data rest : Bytes}
    (hdata : data ++ rest = body) : { r with body := r.bodyIn data } = r ↔ rest = [] := by
  constructor
  · intro hr
    have hbody : (r.bodyIn data).length = body.length :=
      (congrArg (fun r ↦ r.body.length) hr).trans (congrArg List.length h.body_eq)
    have hle := r.length_bodyIn_le data
    have hlen := congrArg List.length hdata
    rw [List.length_append] at hlen
    exact List.eq_nil_of_length_eq_zero (by omega)
  · rintro rfl
    rw [List.append_nil] at hdata
    rw [hdata, bodyIn_eq_self h.length, ← h.body_eq]

/-- The handler is passed the request by the rest of the reads, if the head has not come yet. -/
theorem run_iff (h : WellFormed head body r)
    (hdata : requestData ++ reads.flatten = head ++ body)
    (hreads : ∀ chunk ∈ reads, Readable chunk) (hhead : requestData.length < head.length) :
    HttpSession.run requestData reads = some r ↔
      (requestData ++ reads.dropLast.flatten).length < head.length := by
  have hshort {data : Bytes} (hlt : data.length < head.length) : data ≠ head ++ body := by
    intro heq
    rw [heq, List.length_append] at hlt
    omega
  induction reads generalizing requestData with
  | nil =>
    rw [List.flatten_nil, List.append_nil] at hdata
    exact absurd hdata (hshort hhead)
  | cons chunk reads ih =>
    have hchunk := (hreads chunk List.mem_cons_self).1
    rw [List.flatten_cons, ← List.append_assoc] at hdata
    rcases Nat.lt_or_ge (requestData ++ chunk).length head.length with hlt | hle
    · -- the head has not come with this read either, so there is another one
      rw [h.run_cons_of_lt hdata hchunk hlt]
      refine (ih hdata (fun c hc ↦ hreads c (List.mem_cons_of_mem _ hc)) hlt).trans ?_
      rcases reads with _ | ⟨chunk', reads⟩
      · rw [List.flatten_nil, List.append_nil] at hdata
        exact absurd hdata (hshort hlt)
      · rw [List.dropLast_cons_cons, List.flatten_cons, ← List.append_assoc]
    · obtain ⟨data, hbody, hrun⟩ := h.run_cons_of_le hdata hchunk hle
      rw [hrun, Option.some_inj, h.bodyIn_eq_iff hbody]
      rcases reads with _ | ⟨chunk', reads⟩
      · rw [List.dropLast_singleton, List.flatten_nil, List.append_nil]
        exact iff_of_true rfl hhead
      · -- something of the body is still to come
        have hmore := (hreads chunk' (by simp)).1
        have hlen : (requestData ++ chunk).length ≤
            (requestData ++ (chunk :: chunk' :: reads).dropLast.flatten).length := by
          rw [List.dropLast_cons_cons, List.flatten_cons, ← List.append_assoc]
          exact (List.prefix_append _ _).length_le
        refine iff_of_false (fun hnil ↦ ?_) (by omega)
        rw [List.flatten_cons, List.append_eq_nil_iff] at hnil
        exact List.ne_nil_of_length_pos hmore hnil.1

end Read

end WellFormed

/-- **When the handler is passed the request, with the whole of its body.**  For every division of a
well formed request into reads: if and only if the reads before the last have not completed the
head. -/
theorem run_eq_some_iff {head body : Bytes} {r : HttpRequest} (h : WellFormed head body r)
    {reads : List Bytes} (hall : reads.flatten = head ++ body)
    (hreads : ∀ chunk ∈ reads, Readable chunk) :
    HttpSession.run [] reads = some r ↔ reads.dropLast.flatten.length < head.length := by
  have hpos : ([] : Bytes).length < head.length := by
    obtain ⟨headerEnd, -, hlen⟩ := h.complete
    rw [List.length_nil, hlen]
    exact Nat.succ_pos _
  exact h.run_iff hall hreads hpos

/-- The header lines of `posted`. -/
def postedHeaders : List (Bytes × Bytes) :=
  [(lit "Host", lit "b:80"), (lit "Content-Length", lit "4")]

theorem wellFormed_posted : WellFormed (posted.printHead postedHeaders) posted.body posted :=
  wellFormed_print printable_posted (by decide)

/-- It may be cut in the middle of a header. -/
theorem run_posted_cut :
    HttpSession.run []
        [(posted.print postedHeaders).take 20, (posted.print postedHeaders).drop 20] =
      some posted :=
  (run_eq_some_iff wellFormed_posted (by decide) (by decide)).2 (by decide)

/-- If the body comes by itself, the handler is called without it. -/
theorem run_posted_without_body :
    ¬ ∀ (head body : Bytes) (r : HttpRequest) (reads : List Bytes), WellFormed head body r →
      reads.flatten = head ++ body → (∀ chunk ∈ reads, Readable chunk) →
      HttpSession.run [] reads = some r := by
  intro hall
  have hpassed := hall _ _ posted [posted.printHead postedHeaders, posted.body] wellFormed_posted
    (by decide) (by decide)
  rw [wellFormed_posted.run_iff (by decide) (by decide) (by decide)] at hpassed
  exact absurd hpassed (by decide)

end Http
end ChwellCore
