import ChwellCore.Storage.MemoryStorage

/-!
# How an asynchronous call is completed

An `AsyncStorageAdapter` runs the methods of a storage on its own threads.  Each method comes in two
styles: one returns a future, the other takes a callback.  A call is completed at once if there is
no storage or the adapter is shutting down (`enqueue` returns `false`), and by a worker otherwise.
Here this is one function for each entry point, from what `enqueue` returned to the values that the
promise was given or the callback was called with; when and by whom the task is run is the subject
of `Storage.AsyncAdapter`.

A method may throw, and so may a callback, which may do something else each time it is called.  The
worker calls the callback inside the `try` block whose handlers call it too, so that a callback that
throws is called again.  A storage that throws completes `async_mget` with one result, however many
keys there are.  `completes_iff` says that there is nothing else that goes wrong.
-/

set_option autoImplicit false

namespace ChwellCore
namespace Storage

/-- `kShutdownMsg`. -/
def kShutdownMsg : Bytes := lit "AsyncStorageAdapter is shutting down"

/-- `kNullStorageMsg`. -/
def kNullStorageMsg : Bytes := lit "AsyncStorageAdapter: storage is null"

/-- The values that a promise has been given. -/
abbrev Promise (α : Type) := List α

/-- A callback: what it does may depend on what it has been called with before. -/
abbrev Callback (α : Type) := List α → α → Outcome Unit

/-- The call returns. -/
def Outcome.Returns {α : Type} (o : Outcome α) : Prop := ∃ a, o = .returns a

/-- What the handlers make of an exception. -/
structure Handlers (α : Type) where
  onStd : Bytes → α
  onOther : α

/-- The value of a call, or what the handlers make of it. -/
def Handlers.handle {α : Type} (h : Handlers α) : Outcome α → α
  | .returns a => a
  | .throwsStd what => h.onStd what
  | .throwsOther => h.onOther

/-- The handlers of `fulfill_result_promise` and of the callbacks that take a `StorageResult`. -/
def resultHandlers : Handlers StorageResult := ⟨.failure, .failure (lit "unknown exception")⟩

/-- The handlers of `fulfill_bool_promise` and of the callback of `async_exists`. -/
def boolHandlers : Handlers Bool := ⟨fun _ ↦ false, false⟩

/-- The handlers of `fulfill_vector_promise`. -/
def vectorHandlers : Handlers (List StorageResult) :=
  ⟨fun what ↦ [.failure what], [.failure (lit "unknown exception")]⟩

/-- `fulfill_result_promise`. -/
def fulfillResultPromise (p : Promise StorageResult) (f : Outcome StorageResult) :
    Promise StorageResult :=
  p ++ [resultHandlers.handle f]

/-- `fulfill_bool_promise`. -/
def fulfillBoolPromise (p : Promise Bool) (f : Outcome Bool) : Promise Bool :=
  p ++ [boolHandlers.handle f]

/-- `fulfill_vector_promise`. -/
def fulfillVectorPromise (p : Promise (List StorageResult)) (f : Outcome (List StorageResult)) :
    Promise (List StorageResult) :=
  p ++ [vectorHandlers.handle f]

/-- The task of a call with a callback: what the callback is called with. -/
def invokeCallback {α : Type} (h : Handlers α) (cb : Callback α) : Outcome α → List α
  | .returns a =>
    match cb [] a with
    | .returns _ => [a]
    | .throwsStd what => [a, h.onStd what]
    | .throwsOther => [a, h.onOther]
  | .throwsStd what => [h.onStd what]
  | .throwsOther => [h.onOther]

section EntryPoints

variable {σ : Type} (storage : Option (StorageInterface σ)) (enqueued : Bool) (now : ℤ)

/-- An entry point: `fail` is how it completes the call itself, `task` what the worker does with
what the method of the storage returned. -/
def asyncCall {α : Type} (fail : Bytes → α) (task : Outcome α → List α)
    (method : StorageInterface σ → σ → Outcome α × σ) (s : σ) : List α × σ :=
  match storage with
  | none => ([fail kNullStorageMsg], s)
  | some I => if enqueued then (method I s).map task id else ([fail kShutdownMsg], s)

/-- `async_get`. -/
def asyncGet (key : Bytes) : σ → Promise StorageResult × σ :=
  asyncCall storage enqueued .failure (fulfillResultPromise []) fun I ↦ I.get now key

/-- `async_put`. -/
def asyncPut (key value : Bytes) (expireAt : ℤ) : σ → Promise StorageResult × σ :=
  asyncCall storage enqueued .failure (fulfillResultPromise []) fun I ↦ I.put now key value expireAt

/-- `async_remove`. -/
def asyncRemove (key : Bytes) : σ → Promise StorageResult × σ :=
  asyncCall storage enqueued .failure (fulfillResultPromise []) fun I ↦ I.remove now key

/-- `async_exists`. -/
def asyncExists (key : Bytes) : σ → Promise Bool × σ :=
  asyncCall storage enqueued (fun _ ↦ false) (fulfillBoolPromise []) fun I ↦ I.contains now key

/-- `async_mget`. -/
def asyncMget (keys : List Bytes) : σ → Promise (List StorageResult) × σ :=
  asyncCall storage enqueued (fun msg ↦ keys.map fun _ ↦ .failure msg) (fulfillVectorPromise [])
    fun I ↦ I.mget now keys

/-- `async_mput`. -/
def asyncMput (docs : List StorageDocument) : σ → Promise StorageResult × σ :=
  asyncCall storage enqueued .failure (fulfillResultPromise []) fun I ↦ I.mput now docs

/-- `async_get` with a callback. -/
def asyncGetCallback (key : Bytes) (cb : Callback StorageResult) : σ → List StorageResult × σ :=
  asyncCall storage enqueued .failure (invokeCallback resultHandlers cb) fun I ↦ I.get now key

/-- `async_put` with a callback. -/
def asyncPutCallback (key value : Bytes) (cb : Callback StorageResult) (expireAt : ℤ) :
    σ → List StorageResult × σ :=
  asyncCall storage enqueued .failure (invokeCallback resultHandlers cb) fun I ↦
    I.put now key value expireAt

/-- `async_remove` with a callback. -/
def asyncRemoveCallback (key : Bytes) (cb : Callback StorageResult) : σ → List StorageResult × σ :=
  asyncCall storage enqueued .failure (invokeCallback resultHandlers cb) fun I ↦ I.remove now key

/-- `async_exists` with a callback. -/
def asyncExistsCallback (key : Bytes) (cb : Callback Bool) : σ → List Bool × σ :=
  asyncCall storage enqueued (fun _ ↦ false) (invokeCallback boolHandlers cb) fun I ↦
    I.contains now key

end EntryPoints

/-! ## All entry points together -/

/-- What a call is completed with. -/
inductive Reply where
  | result (r : StorageResult)
  | flag (b : Bool)
  | results (rs : List StorageResult)
deriving DecidableEq

/-- A call that returns a future. -/
inductive AsyncOp where
  | get (key : Bytes)
  | put (key value : Bytes) (expireAt : ℤ)
  | remove (key : Bytes)
  | contains (key : Bytes)
  | mget (keys : List Bytes)
  | mput (docs : List StorageDocument)
deriving DecidableEq

/-- A call of either style. -/
inductive Request where
  | future (op : AsyncOp)
  | callbackGet (key : Bytes) (cb : Callback StorageResult)
  | callbackPut (key value : Bytes) (cb : Callback StorageResult) (expireAt : ℤ)
  | callbackRemove (key : Bytes) (cb : Callback StorageResult)
  | callbackContains (key : Bytes) (cb : Callback Bool)

section Completion

variable {σ : Type} (storage : Option (StorageInterface σ)) (enqueued : Bool) (now : ℤ) (s : σ)

/-- What a call is completed with, in the order in which it happens. -/
def completions : Request → List Reply
  | .future (.get key) => (asyncGet storage enqueued now key s).1.map .result
  | .future (.put key value expireAt) =>
    (asyncPut storage enqueued now key value expireAt s).1.map .result
  | .future (.remove key) => (asyncRemove storage enqueued now key s).1.map .result
  | .future (.contains key) => (asyncExists storage enqueued now key s).1.map .flag
  | .future (.mget keys) => (asyncMget storage enqueued now keys s).1.map .results
  | .future (.mput docs) => (asyncMput storage enqueued now docs s).1.map .result
  | .callbackGet key cb => (asyncGetCallback storage enqueued now key cb s).1.map .result
  | .callbackPut key value cb expireAt =>
    (asyncPutCallback storage enqueued now key value cb expireAt s).1.map .result
  | .callbackRemove key cb => (asyncRemoveCallback storage enqueued now key cb s).1.map .result
  | .callbackContains key cb => (asyncExistsCallback storage enqueued now key cb s).1.map .flag

/-- The call is completed exactly once, and `async_mget` with a result for each key. -/
def Completes (req : Request) : Prop :=
  (completions storage enqueued now s req).length = 1 ∧
    ∀ keys, req = .future (.mget keys) →
      ∀ rs, .results rs ∈ completions storage enqueued now s req → rs.length = keys.length

/-- If the task is run and the method returns, so does the callback. -/
def Harmless {α : Type} (cb : Callback α) (method : StorageInterface σ → σ → Outcome α × σ) :
    Prop :=
  ∀ I a, storage = some I → enqueued = true → (method I s).1 = .returns a → (cb [] a).Returns

/-- The callback does not throw on what the storage returns, and the storage returns a result for
each key of `async_mget`, or throws and there is one key. -/
def Benign : Request → Prop
  | .future (.mget keys) => ∀ I, storage = some I → enqueued = true →
      match (I.mget now keys s).1 with
      | .returns rs => rs.length = keys.length
      | .throwsStd _ | .throwsOther => keys.length = 1
  | .future _ => True
  | .callbackGet key cb => Harmless storage enqueued s cb fun I ↦ I.get now key
  | .callbackPut key value cb expireAt =>
    Harmless storage enqueued s cb fun I ↦ I.put now key value expireAt
  | .callbackRemove key cb => Harmless storage enqueued s cb fun I ↦ I.remove now key
  | .callbackContains key cb => Harmless storage enqueued s cb fun I ↦ I.contains now key

section Lemmas

variable {storage enqueued now s}

/-- A call is completed once unless it is the task that does not. -/
theorem length_asyncCall {α : Type} (fail : Bytes → α) (task : Outcome α → List α)
    (method : StorageInterface σ → σ → Outcome α × σ) :
    (asyncCall storage enqueued fail task method s).1.length = 1 ↔
      ∀ I, storage = some I → enqueued = true → (task (method I s).1).length = 1 := by
  unfold asyncCall
  split
  · exact iff_of_true rfl fun I hI ↦ by cases hI
  · next I =>
    split
    · next henq =>
      refine ⟨fun h J hJ _ ↦ ?_, fun h ↦ h I rfl henq⟩
      cases hJ
      exact h
    · next henq => exact iff_of_true rfl fun _ _ h ↦ absurd h henq

/-- The callback is called once, unless it throws where the method did not. -/
theorem length_invokeCallback {α : Type} (h : Handlers α) (cb : Callback α) (o : Outcome α) :
    (invokeCallback h cb o).length = 1 ↔ ∀ a, o = .returns a → (cb [] a).Returns := by
  cases o with
  | returns a =>
    rw [invokeCallback]
    cases hcb : cb [] a with
    | returns u =>
      refine iff_of_true rfl fun b hb ↦ ?_
      cases hb
      exact ⟨u, hcb⟩
    | throwsStd what | throwsOther =>
      refine iff_of_false (by simp) fun hall ↦ ?_
      obtain ⟨u, hu⟩ := hall a rfl
      rw [hcb] at hu
      cases hu
  | throwsStd what | throwsOther => exact iff_of_true rfl fun _ ha ↦ by cases ha

theorem length_asyncCall_callback {α : Type} (fail : Bytes → α) (h : Handlers α) (cb : Callback α)
    (method : StorageInterface σ → σ → Outcome α × σ) :
    (asyncCall storage enqueued fail (invokeCallback h cb) method s).1.length = 1 ↔
      Harmless storage enqueued s cb method := by
  rw [length_asyncCall]
  exact ⟨fun hall I a hI henq ↦ (length_invokeCallback h cb _).1 (hall I hI henq) a,
    fun hall I hI henq ↦ (length_invokeCallback h cb _).2 fun a ↦ hall I a hI henq⟩

/-- A future is given one value. -/
theorem length_asyncCall_future {α : Type} (fail : Bytes → α) (h : Handlers α)
    (method : StorageInterface σ → σ → Outcome α × σ) :
    (asyncCall storage enqueued fail (fun o ↦ [] ++ [h.handle o]) method s).1.length = 1 :=
  (length_asyncCall fail _ method).2 fun _ _ _ ↦ rfl

/-- The handlers make one failure of an exception, however many keys there are. -/
theorem length_handle_vector (o : Outcome (List StorageResult)) (n : ℕ) :
    (vectorHandlers.handle o).length = n ↔
      match o with
      | .returns rs => rs.length = n
      | .throwsStd _ | .throwsOther => n = 1 := by
  cases o with
  | returns rs => exact Iff.rfl
  | throwsStd what | throwsOther => exact eq_comm

/-- What `async_mget` is completed with. -/
theorem forall_mem_asyncMget {keys : List Bytes} :
    (∀ rs ∈ (asyncMget storage enqueued now keys s).1, rs.length = keys.length) ↔
      Benign storage enqueued now s (.future (.mget keys)) := by
  unfold asyncMget asyncCall
  cases storage with
  | none =>
    refine iff_of_true (fun rs hrs ↦ ?_) fun I hI ↦ by cases hI
    rw [List.mem_singleton.1 hrs, List.length_map]
  | some I =>
    cases enqueued with
    | false =>
      refine iff_of_true (fun rs hrs ↦ ?_) fun I hI henq ↦ by cases henq
      rw [List.mem_singleton.1 hrs, List.length_map]
    | true =>
      have hlen : (∀ rs ∈ fulfillVectorPromise [] (I.mget now keys s).1,
          rs.length = keys.length) ↔
          (vectorHandlers.handle (I.mget now keys s).1).length = keys.length := by
        rw [fulfillVectorPromise, List.nil_append]
        exact List.forall_mem_singleton
      refine hlen.trans ((length_handle_vector _ _).trans ⟨fun h J hJ _ ↦ ?_, fun h ↦ h I rfl rfl⟩)
      cases hJ
      exact h

end Lemmas

/-- **When a call is completed as it should be**: exactly once, and `async_mget` with a result for
each key, if and only if the callback does not throw on what the storage has returned, and the
storage returns a result for each key of `async_mget` (or throws, and there is one key). -/
theorem completes_iff (req : Request) :
    Completes storage enqueued now s req ↔ Benign storage enqueued now s req := by
  have hcallback : ∀ {P : Prop}, ((completions storage enqueued now s req).length = 1 ↔ P) →
      (∀ keys, req ≠ .future (.mget keys)) → (Completes storage enqueued now s req ↔ P) := by
    intro P hlen hne
    exact ⟨fun h ↦ hlen.1 h.1, fun h ↦ ⟨hlen.2 h, fun keys hreq ↦ absurd hreq (hne keys)⟩⟩
  cases req with
  | future op =>
    cases op with
    | get key | put key value expireAt | remove key | contains key | mput docs =>
      refine iff_of_true ⟨?_, fun _ hreq ↦ by cases hreq⟩ trivial
      rw [completions, List.length_map]
      exact length_asyncCall_future _ _ _
    | mget keys =>
      have hlen : (completions storage enqueued now s (.future (.mget keys))).length = 1 := by
        rw [completions, List.length_map]
        exact length_asyncCall_future _ _ _
      rw [← forall_mem_asyncMget]
      constructor
      · intro h rs hrs
        exact h.2 keys rfl rs (List.mem_map_of_mem hrs)
      · intro h
        refine ⟨hlen, fun keys' hreq rs hrs ↦ ?_⟩
        cases hreq
        obtain ⟨rs', hrs', heq⟩ := List.mem_map.1 hrs
        cases heq
        exact h rs hrs'
  | callbackGet key cb | callbackPut key value cb expireAt | callbackRemove key cb
  | callbackContains key cb =>
    refine hcallback ?_ fun _ hreq ↦ by cases hreq
    rw [completions, List.length_map]
    exact length_asyncCall_callback _ _ _ _

end Completion

/-- A storage whose methods all throw. -/
def brokenStorage : StorageInterface Unit where
  get _ _ s := (.throwsStd (lit "connection lost"), s)
  put _ _ _ _ s := (.throwsStd (lit "connection lost"), s)
  remove _ _ s := (.throwsStd (lit "connection lost"), s)
  contains _ _ s := (.throwsStd (lit "connection lost"), s)
  mget _ _ s := (.throwsStd (lit "connection lost"), s)
  mput _ _ s := (.throwsStd (lit "connection lost"), s)

/-- A callback that throws the first time it is called. -/
def surprised : Callback StorageResult := fun past _ ↦
  if past = [] then .throwsStd (lit "surprise") else .returns ()

/-- A callback that throws is called again with a failure, although the storage has answered, and a
storage that throws completes `async_mget` of two keys with one result. -/
theorem called_twice_or_too_short :
    completions (some MemoryStorage.interface) true 0 (∅ : MemoryStorage)
        (.callbackPut (lit "k") (lit "v") surprised 0) =
      [.result (.success []), .result (.failure (lit "surprise"))] ∧
    ¬ Completes (some MemoryStorage.interface) true 0 (∅ : MemoryStorage)
        (.callbackPut (lit "k") (lit "v") surprised 0) ∧
    completions (some brokenStorage) true 0 () (.future (.mget [lit "a", lit "b"])) =
      [.results [.failure (lit "connection lost")]] ∧
    ¬ Completes (some brokenStorage) true 0 () (.future (.mget [lit "a", lit "b"])) := by
  refine ⟨rfl, fun h ↦ ?_, rfl, fun h ↦ ?_⟩
  · exact absurd h.1 (by decide)
  · exact absurd (h.2 _ rfl _ (List.mem_singleton_self _)) (by decide)

/-! ## Tasks -/

namespace AsyncOp

variable {σ : Type}

/-- The task that `enqueue` is given: what it does to the storage, and what the promise gets. -/
def execute (I : StorageInterface σ) (now : ℤ) (s : σ) : AsyncOp → Reply × σ
  | get key => (I.get now key s).map (fun o ↦ .result (resultHandlers.handle o)) id
  | put key value expireAt =>
    (I.put now key value expireAt s).map (fun o ↦ .result (resultHandlers.handle o)) id
  | remove key => (I.remove now key s).map (fun o ↦ .result (resultHandlers.handle o)) id
  | contains key => (I.contains now key s).map (fun o ↦ .flag (boolHandlers.handle o)) id
  | mget keys => (I.mget now keys s).map (fun o ↦ .results (vectorHandlers.handle o)) id
  | mput docs => (I.mput now docs s).map (fun o ↦ .result (resultHandlers.handle o)) id

/-- What the promise gets when `enqueue` returns `false`. -/
def refusal : AsyncOp → Reply
  | get _ | put _ _ _ | remove _ | mput _ => .result (.failure kShutdownMsg)
  | contains _ => .flag false
  | mget keys => .results (keys.map fun _ ↦ .failure kShutdownMsg)

end AsyncOp

end Storage
end ChwellCore
