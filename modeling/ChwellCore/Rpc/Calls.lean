import ChwellCore.Rpc.Network

/-!
# The client's side: calls, request ids and requests

Two things follow a request from the arguments of its call to the connection.  An activity that has
a request in hand has it with the id and the arguments of one call (`ProcMakes`), and so has every
request that was written (`Makes`).  And the ids that are on the way to the connection, together
with those that have got there, are distinct (`unsent_step`), because with fewer than 2^32 calls no
id is drawn twice (`Distinct`).  `World.Issues` is both, over the calls and the requests of a
history.
-/

set_option autoImplicit false

namespace ChwellCore
namespace Rpc

open Protocol (Message)

/-! ## The body of a message -/

theorem decodeRpcBody_encode (id : UInt32) (payload : Bytes) :
    decodeRpcBody (encodeRpcBody id payload) = some (id, payload) := by
  have hlen : ¬ (encodeRpcBody id payload).length < 4 := by simp [encodeRpcBody]
  rw [decodeRpcBody, if_neg hlen, encodeRpcBody, netToHost32_hostToNet32]
  rfl

/-- The request id of a message. -/
def requestIdOf (msg : Message) : Option UInt32 := (decodeRpcBody msg.body).map Prod.fst

@[simp] theorem requestIdOf_encode (cmd : UInt16) (id : UInt32) (payload : Bytes) :
    requestIdOf ⟨cmd, encodeRpcBody id payload⟩ = some id := by
  rw [requestIdOf, decodeRpcBody_encode]
  rfl

theorem Request.requestIdOf_message (r : Request) : requestIdOf r.message = some r.id :=
  requestIdOf_encode _ _ _

/-! ## Ids -/

/-- The request id that an activity has and has not written yet. -/
def Proc.unsent : Proc → Multiset UInt32
  | .inserting id _ _ _ _ => {id}
  | .sending id _ _ => {id}
  | .admitting _ _ _ _ | .handling _ _ | .answering _ _ _ _ | .failing _ | .joining | .closing
  | .swapping | .notifying _ | .done => 0

/-- The messages that `on_message` has still to look at. -/
def Proc.messages : Proc → List Message
  | .handling _ messages => messages
  | .answering _ _ _ messages => messages
  | .admitting _ _ _ _ | .inserting _ _ _ _ _ | .sending _ _ _ | .failing _ | .joining | .closing
  | .swapping | .notifying _ | .done => []

/-- A request has the id and the arguments of one of the calls. -/
def Makes (calls : List Call) (requestId : ℕ → Option UInt32) (r : Request) : Prop :=
  ∃ k, requestId k = some r.id ∧ calls[k]? = some r.call

/-- What an activity has in hand comes from a call. -/
def ProcMakes (calls : List Call) (requestId : ℕ → Option UInt32) : Proc → Prop
  | .admitting cmd data callback _ => calls[callback.call]? = some ⟨cmd, data⟩
  | .inserting id cmd data callback _ =>
    requestId callback.call = some id ∧ calls[callback.call]? = some ⟨cmd, data⟩
  | .sending id cmd data => Makes calls requestId ⟨id, ⟨cmd, data⟩⟩
  | .handling _ _ | .answering _ _ _ _ | .failing _ | .joining | .closing | .swapping | .notifying _
  | .done => True

theorem getElem?_of_prefix {α : Type} {xs ys : List α} (h : xs <+: ys) {i : ℕ} {x : α}
    (hi : xs[i]? = some x) : ys[i]? = some x := by
  obtain ⟨zs, rfl⟩ := h
  rw [List.getElem?_append_left (List.getElem?_eq_some_iff.1 hi).1, hi]

section Monotone

variable {calls calls' : List Call} {requestId requestId' : ℕ → Option UInt32}

theorem Makes.mono {r : Request} (h : Makes calls requestId r) (hcalls : calls <+: calls')
    (hids : ∀ k id, requestId k = some id → requestId' k = some id) :
    Makes calls' requestId' r := by
  obtain ⟨k, hid, hcall⟩ := h
  exact ⟨k, hids k _ hid, getElem?_of_prefix hcalls hcall⟩

theorem ProcMakes.mono {p : Proc} (h : ProcMakes calls requestId p) (hcalls : calls <+: calls')
    (hids : ∀ k id, requestId k = some id → requestId' k = some id) :
    ProcMakes calls' requestId' p := by
  cases p with
  | admitting cmd data callback timeout => exact getElem?_of_prefix hcalls h
  | inserting id cmd data callback timeout =>
    exact ⟨hids _ _ h.1, getElem?_of_prefix hcalls h.2⟩
  | sending id cmd data => exact Makes.mono h hcalls hids
  | _ => trivial

/-- An activity that has an id to write has it from a call. -/
theorem ProcMakes.drawn {p : Proc} (h : ProcMakes calls requestId p) {id : UInt32}
    (hid : id ∈ p.unsent) : ∃ k, requestId k = some id := by
  cases p with
  | inserting id' cmd data callback timeout =>
    obtain rfl := Multiset.mem_singleton.1 hid
    exact ⟨_, h.1⟩
  | sending id' cmd data =>
    obtain rfl := Multiset.mem_singleton.1 hid
    obtain ⟨k, hk, -⟩ := h
    exact ⟨k, hk⟩
  | _ => exact absurd hid (Multiset.notMem_zero _)

end Monotone

namespace World

variable {w w' : World} {a : Act} {i : ℕ}

/-- Fewer ids have been drawn than calls made, the next one is the number of those, and no two calls
have drawn the same. -/
def Distinct (w : World) : Prop :=
  ∃ n, n + w.undrawn ≤ w.issued.length ∧ w.nextRequestId.toNat = (n + 1) % 2 ^ 32 ∧
    (∀ k id, w.requestId k = some id → id.toNat ≤ n) ∧
    ∀ k k' id, w.requestId k = some id → w.requestId k' = some id → k = k'

/-- A step draws the next id for a call that has none, or no id. -/
theorem requestId_step (h : w.Knows) (hs : Step w a w') :
    w'.requestId = w.requestId ∨
      ∃ k, w.requestId k = none ∧ w'.nextRequestId = w.nextRequestId + 1 ∧
        w'.requestId = Function.update w.requestId k (some w.nextRequestId) := by
  cases hs with
  | permit hp => exact .inr ⟨_, h.procs _ _ hp, rfl, rfl⟩
  | _ => exact .inl rfl

/-- Nor does a call lose its id. -/
theorem requestId_mono (h : w.Knows) (hs : Step w a w') (k : ℕ) (id : UInt32)
    (hid : w.requestId k = some id) : w'.requestId k = some id := by
  rcases requestId_step h hs with he | ⟨k', hnone, -, he⟩
  · rwa [he]
  · rw [he]
    exact draw_eq_some hnone hid

theorem distinct_fresh : fresh.Distinct :=
  ⟨0, le_refl _, rfl, fun _ _ h ↦ (by cases h), fun _ _ _ h ↦ (by cases h)⟩

theorem Distinct.step (h : w.Distinct) (hknow : w.Knows) (hs : Step w a w')
    (hcalls : w'.issued.length < 2 ^ 32) : w'.Distinct := by
  obtain ⟨n, hn, hnext, hle, hinj⟩ := h
  rcases ids_step hs with ⟨hnext', -, hun⟩ | ⟨hnext', -, hun, hissued⟩
  · have hids : w'.requestId = w.requestId := by
      refine (requestId_step hknow hs).resolve_right ?_
      rintro ⟨k, -, hnew, -⟩
      rw [hnext'] at hnew
      have := congrArg UInt32.toNat hnew
      rw [UInt32.toNat_add] at this
      have hlt := w.nextRequestId.toNat_lt
      have hone : (1 : UInt32).toNat = 1 := rfl
      omega
    exact ⟨n, by omega, hnext' ▸ hnext, hids ▸ hle, hids ▸ hinj⟩
  · rw [hissued] at hcalls
    -- there are calls left, so the counter has not come round
    have hval : w.nextRequestId.toNat = n + 1 := by
      rw [hnext]
      omega
    have hnew : ∀ k, w.requestId k ≠ some w.nextRequestId := by
      intro k hk
      have := hle k _ hk
      omega
    refine ⟨n + 1, by rw [hissued]; omega, ?_, ?_, ?_⟩
    · rw [hnext', UInt32.toNat_add, hval]
      rfl
    · intro k id hid
      rcases requestId_step hknow hs with he | ⟨k', -, -, he⟩
      · rw [he] at hid
        exact (hle k id hid).trans (Nat.le_succ n)
      · rw [he, Function.update_apply] at hid
        split at hid
        · obtain rfl := Option.some.inj hid
          exact hval.le
        · exact (hle k id hid).trans (Nat.le_succ n)
    · intro k k' id hid hid'
      rcases requestId_step hknow hs with he | ⟨k₀, -, -, he⟩
      · rw [he] at hid hid'
        exact hinj k k' id hid hid'
      · rw [he, Function.update_apply] at hid hid'
        split at hid
        · next hk =>
          obtain rfl := Option.some.inj hid
          split at hid'
          · next hk' => rw [hk, hk']
          · exact absurd hid' (hnew k')
        · split at hid'
          · obtain rfl := Option.some.inj hid'
            exact absurd hid (hnew k)
          · exact hinj k k' id hid hid'

/-- No call has drawn the next id yet. -/
theorem Distinct.next (h : w.Distinct) (hs : Step w a w') (hcalls : w'.issued.length < 2 ^ 32)
    (hdraw : w'.nextRequestId ≠ w.nextRequestId) (k : ℕ) :
    w.requestId k ≠ some w.nextRequestId := by
  obtain ⟨n, hn, hnext, hle, -⟩ := h
  rcases ids_step hs with ⟨hnext', -, -⟩ | ⟨-, -, hun, hissued⟩
  · exact absurd hnext' hdraw
  · intro hk
    have := hle k _ hk
    rw [hissued] at hcalls
    omega

/-! ## What is on its way to the connection -/

theorem unsent_put {p q : Proc} (hp : w.procs[i]? = some p) (hq : q.unsent = p.unsent) :
    Pool.total Proc.unsent (w.put i q).procs = Pool.total Proc.unsent w.procs := by
  have hput := Pool.total_put Proc.unsent hp q
  rw [hq] at hput
  exact add_right_cancel hput

/-- **What a step does to the ids on the way**: one is drawn, or those that are written leave. -/
theorem unsent_step (hs : Step w a w') :
    (∃ k, a = .permit k true ∧ w'.nextRequestId = w.nextRequestId + 1 ∧
        Pool.total Proc.unsent w'.procs = {w.nextRequestId} + Pool.total Proc.unsent w.procs) ∨
      Pool.total Proc.unsent w'.procs + ((w.written a).map Request.id : List UInt32) =
        Pool.total Proc.unsent w.procs := by
  cases hs with
  | @permit i cmd data callback timeout hp =>
    refine .inl ⟨_, rfl, rfl, ?_⟩
    have hput :=
      Pool.total_put Proc.unsent hp (.inserting w.nextRequestId cmd data callback timeout)
    exact ((add_zero _).symm.trans hput).trans (add_comm _ _)
  | send sent hp =>
    refine .inr ?_
    have hput := Pool.total_put Proc.unsent hp .done
    simp only [written, hp, List.map_cons, List.map_nil]
    exact hput.trans (add_zero _)
  | insert now deadline hp | reject hp | answer hp | fail hp | notify hp | takeNone hp
  | takeSkip hp | «return» hp | failEnd hp | close hp | join hp hc | take hp hdec hreq | swap hp =>
    exact .inr ((add_zero _).trans (unsent_put (w := { w with }) hp rfl))
  | call cmd data present timeout | receive conn data | disconnect | onDisconnect =>
    refine .inr ((add_zero _).trans ?_)
    exact (Pool.total_spawn Proc.unsent w.procs _).trans (add_zero _)
  | callRefused cmd data present timeout | connect hc | wake now hc | wakeEnd now hc | expireEnd hc
  | expire hc => exact .inr (add_zero _)

/-- What is known of the calls and of the requests of a history. -/
structure Issues (w : World) (calls : List Call) (requests : List Request) : Prop where
  accounts : w.Accounts
  knows : w.Knows
  distinct : w.Distinct
  numbered : calls.length = w.issued.length
  procs : ∀ (i : ℕ) (p : Proc), w.procs[i]? = some p → ProcMakes calls w.requestId p
  made : ∀ r ∈ requests, Makes calls w.requestId r
  nodup : (Pool.total Proc.unsent w.procs + (requests.map Request.id : List UInt32)).Nodup

theorem issues_fresh : fresh.Issues [] [] :=
  ⟨accounts_fresh, knows_fresh, distinct_fresh, rfl, fun _ _ h ↦ (by cases h),
    fun _ h ↦ (by cases h), Multiset.nodup_zero⟩

variable {calls : List Call} {requests : List Request}

/-- An id on the way was drawn by a call. -/
theorem Issues.drawn (h : w.Issues calls requests) {id : UInt32}
    (hid : id ∈ Pool.total Proc.unsent w.procs + (requests.map Request.id : List UInt32)) :
    ∃ k, w.requestId k = some id := by
  rcases Multiset.mem_add.1 hid with hid | hid
  · obtain ⟨p, hp, hid⟩ := (Pool.mem_total Proc.unsent).1 hid
    obtain ⟨i, hi⟩ := List.mem_iff_getElem?.1 hp
    exact (h.procs i p hi).drawn hid
  · obtain ⟨r, hr, rfl⟩ := List.mem_map.1 (Multiset.mem_coe.1 hid)
    obtain ⟨k, hk, -⟩ := h.made r hr
    exact ⟨k, hk⟩

/-- The activities of the next state come from calls. -/
theorem Issues.procMakes (h : w.Issues calls requests) (hs : Step w a w') :
    ∀ (i : ℕ) (p : Proc), w'.procs[i]? = some p →
      ProcMakes (calls ++ a.calls) w'.requestId p := by
  have hold : ∀ (i : ℕ) (p : Proc), w.procs[i]? = some p →
      ProcMakes (calls ++ a.calls) w'.requestId p := fun i p hp ↦
    (h.procs i p hp).mono (List.prefix_append _ _) (requestId_mono h.knows hs)
  cases hs with
  | call cmd data present timeout =>
    refine Pool.forall_spawn hold ?_
    show (calls ++ [⟨cmd, data⟩])[w.issued.length]? = some _
    rw [← h.numbered, List.getElem?_append_right (le_refl _), Nat.sub_self]
    rfl
  | permit hp =>
    refine Pool.forall_put (fun j p _ hj ↦ hold j p hj) ⟨Function.update_self _ _ _, ?_⟩
    exact hold _ _ hp
  | insert now deadline hp =>
    exact Pool.forall_put (fun j p _ hj ↦ hold j p hj) ⟨_, hold _ _ hp⟩
  | receive conn data | disconnect | onDisconnect => exact Pool.forall_spawn hold trivial
  | send sent hp | reject hp | answer hp | fail hp | notify hp | takeNone hp | takeSkip hp
  | «return» hp | failEnd hp | close hp | join hp hc | take hp hdec hreq | swap hp =>
    exact Pool.forall_put (fun j p _ hj ↦ hold j p hj) trivial
  | callRefused cmd data present timeout | connect hc | wake now hc | wakeEnd now hc | expireEnd hc
  | expire hc => exact hold

/-- What a step writes comes from a call. -/
theorem Issues.makes_written (h : w.Issues calls requests) {r : Request} (hr : r ∈ w.written a) :
    Makes calls w.requestId r := by
  cases a with
  | send i =>
    simp only [written] at hr
    split at hr
    · next hp =>
      obtain rfl := List.mem_singleton.1 hr
      exact h.procs i _ hp
    · cases hr
  | _ => cases hr

/-- The ids on the way stay distinct, whether what is written arrives or not. -/
theorem Issues.nodup_step (h : w.Issues calls requests) (hs : Step w a w')
    (hcalls : w'.issued.length < 2 ^ 32) {arrived : List Request}
    (harrived : arrived = [] ∨ arrived = w.written a) :
    (Pool.total Proc.unsent w'.procs +
      ((requests ++ arrived).map Request.id : List UInt32)).Nodup := by
  have hle : (arrived.map Request.id : Multiset UInt32) ≤ ((w.written a).map Request.id :) := by
    rcases harrived with rfl | rfl
    · exact Multiset.zero_le _
    · exact le_refl _
  rw [List.map_append, ← Multiset.coe_add]
  rcases unsent_step hs with ⟨k, rfl, hnext, htotal⟩ | htotal
  · have hnone : (arrived.map Request.id : Multiset UInt32) = 0 :=
      le_antisymm hle (Multiset.zero_le _)
    rw [hnone, add_zero, htotal, add_assoc, Multiset.singleton_add, Multiset.nodup_cons]
    refine ⟨fun hmem ↦ ?_, h.nodup⟩
    obtain ⟨k', hk'⟩ := h.drawn hmem
    refine h.distinct.next hs hcalls (fun he ↦ ?_) k' hk'
    rw [hnext] at he
    have := congrArg UInt32.toNat he
    rw [UInt32.toNat_add] at this
    have hlt := w.nextRequestId.toNat_lt
    have hone : (1 : UInt32).toNat = 1 := rfl
    omega
  · refine Multiset.nodup_of_le ?_ h.nodup
    rw [← htotal, add_comm (requests.map Request.id : Multiset UInt32), ← add_assoc]
    exact Multiset.add_le_add_right (Multiset.add_le_add_left hle)

theorem issued_step (hs : Step w a w') : w'.issued.length = w.issued.length + a.calls.length := by
  cases hs with
  | call cmd data present timeout | callRefused cmd data present timeout =>
    exact List.length_append
  | _ => rfl

theorem Issues.step (h : w.Issues calls requests) (hs : Step w a w')
    (hcalls : w'.issued.length < 2 ^ 32) {arrived : List Request}
    (harrived : arrived = [] ∨ arrived = w.written a) :
    w'.Issues (calls ++ a.calls) (requests ++ arrived) where
  accounts := h.accounts.step hs hcalls
  knows := h.knows.step h.accounts hs
  distinct := h.distinct.step h.knows hs hcalls
  numbered := by rw [List.length_append, h.numbered, issued_step hs]
  procs := h.procMakes hs
  made := by
    have hmono : ∀ r, Makes calls w.requestId r → Makes (calls ++ a.calls) w'.requestId r :=
      fun r hr ↦ hr.mono (List.prefix_append _ _) (requestId_mono h.knows hs)
    intro r hr
    rcases List.mem_append.1 hr with hr | hr
    · exact hmono r (h.made r hr)
    · rcases harrived with rfl | rfl
      · cases hr
      · exact hmono r (h.makes_written hr)
  nodup := h.nodup_step hs hcalls harrived

/-! ## What is still waited for -/

/-- **What a step of the client does to a request that is in the table after it**: it has just been
entered, or it was there, and the messages with its id that have still to be looked at are the same.
-/
theorem waits_step {defaultTimeoutSeconds : Int32}
    (hs : step defaultTimeoutSeconds w a = some w')
    {id : UInt32} (hid : id ∈ w'.pendingRequests) :
    id ∈ Pool.total Proc.unsent w'.procs ∨
      id ∈ w.pendingRequests ∧ ∀ m, requestIdOf m = some id →
        (∃ p ∈ w.procs, m ∈ p.messages) → ∃ p ∈ w'.procs, m ∈ p.messages := by
  by_cases htake : ∃ i conn msg rest,
      a = .take i ∧ w.procs[i]? = some (.handling conn (msg :: rest))
  · obtain ⟨i, conn, msg, rest, rfl, hp⟩ := htake
    simp only [step, hp] at hs
    obtain rfl := Option.some.inj hs
    refine .inr ?_
    -- the message that is taken is not one with this id, or the request would be gone
    have hnot : requestIdOf msg ≠ some id ∧ id ∈ w.pendingRequests := by
      rw [requestIdOf]
      simp only [take] at hid
      split at hid
      · next hdec =>
        rw [hdec]
        exact ⟨by simp, hid⟩
      · next id' payload hdec =>
        rw [hdec]
        split at hid
        · next hnone =>
          refine ⟨fun he ↦ ?_, hid⟩
          obtain rfl := Option.some.inj he
          rw [AList.lookup_eq_none] at hnone
          exact hnone hid
        · have hmem : id ∈ w.pendingRequests.erase id' := hid
          rw [AList.mem_erase] at hmem
          exact ⟨fun he ↦ hmem.1 (Option.some.inj he).symm, hmem.2⟩
    refine ⟨hnot.2, fun m hm hex ↦ ?_⟩
    have hrest : ∀ q : Proc, q.messages = rest → m ∈ (Proc.handling conn (msg :: rest)).messages →
        m ∈ q.messages := by
      intro q hq hmem
      rcases List.mem_cons.1 hmem with rfl | hmem
      · exact absurd hm hnot.1
      · rwa [hq]
    rw [take]
    split
    · exact Pool.exists_mem_put hp (hrest (.handling conn rest) rfl) hex
    · split
      · exact Pool.exists_mem_put hp (hrest (.handling conn rest) rfl) hex
      · exact Pool.exists_mem_put hp (hrest (.answering conn _ _ rest) rfl) hex
  · have hkeep : ∀ {i : ℕ} {p : Proc} (q : Proc), w.procs[i]? = some p → p.messages = q.messages →
        ∀ m, requestIdOf m = some id → (∃ p ∈ w.procs, m ∈ p.messages) →
          ∃ p ∈ w.procs.put i q, m ∈ p.messages := fun q hp hq m _ hex ↦
      Pool.exists_mem_put hp (fun hm ↦ hq ▸ hm) hex
    cases step_cases hs with
    | @insert i id' cmd data callback timeout now deadline hp =>
      by_cases he : id = id'
      · refine .inl ((Pool.mem_total Proc.unsent).2 ⟨.sending id' cmd data, ?_, ?_⟩)
        · exact List.mem_of_getElem? (Pool.getElem?_put_self hp _)
        · rw [he]
          exact Multiset.mem_singleton_self id'
      · refine .inr ⟨?_, hkeep (.sending id' cmd data) hp rfl⟩
        have hmem : id ∈ w.pendingRequests.insert id' _ := hid
        rw [AList.mem_insert] at hmem
        exact hmem.resolve_left he
    | takeSkip hp | take hp hdec hreq => exact absurd ⟨_, _, _, _, rfl, hp⟩ htake
    | permit hp | send sent hp | reject hp | answer hp | fail hp | notify hp | takeNone hp
    | «return» hp | failEnd hp | close hp | join hp hc => exact .inr ⟨hid, hkeep _ hp rfl⟩
    | swap hp => exact absurd hid (AList.notMem_empty _)
    | onDisconnect => exact absurd hid (AList.notMem_empty _)
    | call cmd data present timeout | receive conn data | disconnect =>
      exact .inr ⟨hid, fun m _ hex ↦ Pool.exists_mem_spawn _ hex⟩
    | wake now hc =>
      refine .inr ⟨?_, fun m _ hex ↦ hex⟩
      have hmem : id ∈ w.pendingRequests.filter _ := hid
      exact List.filter_sublist.map _ |>.subset hmem
    | callRefused cmd data present timeout | connect hc | wakeEnd now hc | expireEnd hc
    | expire hc => exact .inr ⟨hid, fun m _ hex ↦ hex⟩

end World

end Rpc
end ChwellCore
