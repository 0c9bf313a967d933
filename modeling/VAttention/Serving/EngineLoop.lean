import VAttention.Lib.Outcome
import VAttention.Serving.RequestTracker

/-!
# The background loop of the asynchronous engine

`engine_step` drains the request tracker, adds the new requests to the engine, runs a step of the
engine and puts the outputs into the streams.  A request that the engine refuses with a `ValueError`
is meant to get the exception in its stream, while all others go on.  The handler asks the request's
dictionary for `"request_id"`, but `RequestTracker.add_request` stores the id as `"seq_id"`.  So it
raises a `KeyError`, which ends the background loop and is propagated to all streams.

The key is a parameter of the handler: with `"seq_id"` the failures are isolated.
-/

namespace VAttention.Serving

open VAttention.Core VAttention.Lib

variable {κ σ : Type}

/-! ## The engine step -/

/-- What the loop calls of `_AsyncLLMEngine`. -/
structure EngineCalls (κ σ : Type) where
  /-- `add_request`, given the dictionary of a request. -/
  addRequest : SeqId → κ → σ → Outcome PyError σ
  /-- `step_async`; a step that exceeds the time limit raises. -/
  stepAsync : σ → Except PyError (List RequestOutput) × σ

/-- `AsyncLLMEngine`. -/
structure AsyncLLMEngine (κ σ : Type) where
  requestTracker : RequestTracker κ
  engine : σ
  erroredWith : Option PyError
  isRunning : Bool

/-- `new_request[key]`, for the keys of ids.  The other keys are those of the arguments of the
    engine, and `"request_id"` cannot be one, since it is a parameter of `add_request` itself. -/
def NewRequest.item (key : String) (request : NewRequest κ) : Except PyError SeqId :=
  if key = "seq_id" then .ok request.seqId else .error (.missingKey key)

/-- Both errors of the tracker are `KeyError`s. -/
def TrackerError.toPyError : TrackerError → PyError
  | .alreadyExists requestId | .keyError requestId => .keyError requestId

namespace AsyncLLMEngine

variable (calls : EngineCalls κ σ) (key : String) (self : AsyncLLMEngine κ σ)

/-- A turn of the loop over the new requests, with the key that the handler of `ValueError` uses. -/
def admitRequest (request : NewRequest κ) (self : AsyncLLMEngine κ σ) :
    Outcome PyError (AsyncLLMEngine κ σ) :=
  match calls.addRequest request.seqId request.kwargs self.engine with
  | .done engine => .done { self with engine }
  | .throw e engine =>
    if e.isValueError then
      match request.item key with
      | .error e' => .throw e' { self with engine }
      | .ok requestId =>
        match self.requestTracker.processException requestId e with
        | .error e' => .throw e'.toPyError { self with engine }
        | .ok requestTracker => .done { self with engine, requestTracker }
    else .throw e { self with engine }

/-- The requests that `engine_step` takes from the tracker. -/
def newRequests : List (NewRequest κ) := self.requestTracker.getNewAndFinishedRequests.1

/-- `engine_step` up to the step of the engine. -/
def admitNewRequests : Outcome PyError (AsyncLLMEngine κ σ) :=
  Outcome.forEach (admitRequest calls key) self.newRequests
    { self with requestTracker := self.requestTracker.getNewAndFinishedRequests.2.2 }

/-- `engine_step` from the step of the engine on. -/
def stepEngine : Outcome PyError (AsyncLLMEngine κ σ) :=
  match calls.stepAsync self.engine with
  | (.error e, engine) => .throw e { self with engine }
  | (.ok requestOutputs, engine) =>
    .done { self with
      engine
      requestTracker := requestOutputs.foldl (fun t o => t.processRequestOutput o)
        self.requestTracker }

/-- `engine_step`, whose answer the loop drops.  `_engine_abort` does nothing. -/
def engineStep : Outcome PyError (AsyncLLMEngine κ σ) :=
  (self.admitNewRequests calls "request_id").andThen (stepEngine calls)

/-- `_error_callback`. -/
def errorCallback (exc : PyError) : AsyncLLMEngine κ σ :=
  { self with
    erroredWith := some exc
    requestTracker := self.requestTracker.propagateException exc }

/-- A turn of `run_engine_loop`.  An exception ends the task, and the callback of the task is
    called with it. -/
def loopTurn : AsyncLLMEngine κ σ :=
  match self.engineStep calls with
  | .done self' => self'
  | .throw e self' => { self'.errorCallback e with isRunning := false }

end AsyncLLMEngine

/-! ## Isolation -/

/-- The exceptions put into a stream. -/
def AsyncStream.exceptions (s : AsyncStream) : List PyError :=
  s.queue.filterMap fun
    | .exception exc => some exc
    | _ => none

/-- Offer all requests to the engine, whatever it answers: those it refuses, with its exceptions,
    and the engine afterwards. -/
def EngineCalls.offerAll (calls : EngineCalls κ σ) :
    List (NewRequest κ) → σ → List (NewRequest κ × PyError) × σ
  | [], engine => ([], engine)
  | request :: requests, engine =>
    match calls.addRequest request.seqId request.kwargs engine with
    | .done engine => calls.offerAll requests engine
    | .throw e engine =>
      let (failures, engine) := calls.offerAll requests engine
      ((request, e) :: failures, engine)

namespace AsyncLLMEngine

/-- The new requests that the engine refuses, with its exceptions. -/
def failures (calls : EngineCalls κ σ) (self : AsyncLLMEngine κ σ) :
    List (NewRequest κ × PyError) :=
  (calls.offerAll self.newRequests self.engine).1

/-- The exceptions for the request of a stream. -/
def failuresOf (calls : EngineCalls κ σ) (self : AsyncLLMEngine κ σ) (ref : StreamRef) :
    List PyError :=
  ((self.failures calls).filter (·.1.stream = ref)).map Prod.snd

/-- The step of the engine is reached, all requests have been offered to the engine, and each stream
    has got the exceptions for its own request and no others. -/
structure Admits (calls : EngineCalls κ σ) (key : String)
    (loop admitted : AsyncLLMEngine κ σ) : Prop where
  returns : loop.admitNewRequests calls key = .done admitted
  engine_eq : admitted.engine = (calls.offerAll loop.newRequests loop.engine).2
  exceptions_eq : ∀ ref, (admitted.requestTracker.streams ref).exceptions =
    (loop.requestTracker.streams ref).exceptions ++ loop.failuresOf calls ref

/-- The failures are isolated, and if the step of the engine returns, then the loop goes on and no
    stream has got any other exception. -/
def IsolatesFailures (calls : EngineCalls κ σ) (self : AsyncLLMEngine κ σ) : Prop :=
  ∃ admitted, Admits calls "request_id" self admitted ∧
    ∀ outputs engine, calls.stepAsync admitted.engine = (.ok outputs, engine) →
      (self.loopTurn calls).isRunning = self.isRunning ∧
      (self.loopTurn calls).erroredWith = self.erroredWith ∧
      ∀ ref, ((self.loopTurn calls).requestTracker.streams ref).exceptions =
        (self.requestTracker.streams ref).exceptions ++ self.failuresOf calls ref

end AsyncLLMEngine

/-! ## What the tracker does to the exceptions -/

@[simp] theorem AsyncStream.exceptions_finish (s : AsyncStream) :
    s.finish.exceptions = s.exceptions := by
  simp [exceptions, finish]

theorem AsyncStream.exceptions_put_output (s : AsyncStream) (o : RequestOutput) :
    (s.put (.output o)).exceptions = s.exceptions := by
  unfold put
  split_ifs <;> simp [exceptions]

theorem AsyncStream.exceptions_put_exception {s : AsyncStream} (hopen : s.finished = false)
    (exc : PyError) : (s.put (.exception exc)).exceptions = s.exceptions ++ [exc] := by
  simp [put, hopen, exceptions]

namespace RequestTracker

variable {t : RequestTracker κ}

/-- A method that keeps the exceptions of its stream keeps those of all streams. -/
theorem exceptions_modifyStream {f : AsyncStream → AsyncStream}
    (hf : ∀ s, (f s).exceptions = s.exceptions) (t : RequestTracker κ) (a ref : StreamRef) :
    ((t.modifyStream a f).streams ref).exceptions = (t.streams ref).exceptions := by
  unfold modifyStream
  by_cases href : ref = a
  · subst href
    simp [hf]
  · simp [href]

@[simp] theorem exceptions_abortRequest (id : SeqId) (t : RequestTracker κ) (ref : StreamRef) :
    ((t.abortRequest id).streams ref).exceptions = (t.streams ref).exceptions := by
  unfold abortRequest
  dsimp only
  split
  · rfl
  · split_ifs
    · rfl
    · exact exceptions_modifyStream AsyncStream.exceptions_finish _ _ ref

/-- `abort_request` changes the stream of its request only. -/
theorem abortRequest_streams_of_ne {id : SeqId} {a ref : StreamRef}
    (hlookup : t.requestStreams.lookup id = some a) (hne : ref ≠ a) :
    (t.abortRequest id).streams ref = t.streams ref := by
  unfold abortRequest
  simp only [hlookup]
  split_ifs
  · rfl
  · simp [modifyStream, hne]

/-- Put an exception into a stream and abort its request, as `process_exception` and
    `propagate_exception` do. -/
def fail (id : SeqId) (a : StreamRef) (exc : PyError) (t : RequestTracker κ) : RequestTracker κ :=
  (t.modifyStream a (.put (.exception exc))).abortRequest id

theorem processException_eq_fail {id : SeqId} {a : StreamRef} (exc : PyError)
    (hlookup : t.requestStreams.lookup id = some a) :
    t.processException id exc = .ok (t.fail id a exc) := by
  simp [processException, hlookup, fail]

@[simp] theorem fail_requestStreams (id : SeqId) (a : StreamRef) (exc : PyError)
    (t : RequestTracker κ) : (t.fail id a exc).requestStreams = t.requestStreams :=
  abortRequest_requestStreams ..

theorem fail_streams_of_ne {id : SeqId} {a ref : StreamRef} (exc : PyError)
    (hlookup : t.requestStreams.lookup id = some a) (hne : ref ≠ a) :
    (t.fail id a exc).streams ref = t.streams ref := by
  rw [fail, abortRequest_streams_of_ne (by exact hlookup) hne]
  simp [modifyStream, hne]

theorem exceptions_fail_self (id : SeqId) {a : StreamRef} (exc : PyError)
    (hopen : (t.streams a).finished = false) :
    ((t.fail id a exc).streams a).exceptions = (t.streams a).exceptions ++ [exc] := by
  rw [fail, exceptions_abortRequest]
  simpa [modifyStream] using AsyncStream.exceptions_put_exception hopen exc

theorem mem_exceptions_fail (id : SeqId) (a : StreamRef) (exc : PyError) {ref : StreamRef}
    (h : exc ∈ (t.streams ref).exceptions) : exc ∈ ((t.fail id a exc).streams ref).exceptions := by
  rw [fail, exceptions_abortRequest]
  by_cases href : ref = a
  · subst href
    cases hfinished : (t.streams ref).finished with
    | true => simpa [modifyStream, AsyncStream.put, hfinished] using h
    | false =>
      simpa [modifyStream] using
        AsyncStream.exceptions_put_exception hfinished exc ▸ List.mem_append_left [exc] h
  · simpa [modifyStream, href] using h

/-- Every open stream gets an exception that is propagated to its request. -/
theorem mem_exceptions_foldl_fail (exc : PyError)
    {entries : List (Sigma fun _ : SeqId => StreamRef)} {ref : StreamRef}
    (hregistered : ∀ e ∈ entries, t.requestStreams.lookup e.1 = some e.2)
    (hopen : (t.streams ref).finished = false ∧ ref ∈ entries.map (·.2) ∨
      exc ∈ (t.streams ref).exceptions) :
    exc ∈ ((entries.foldl (fun t e => t.fail e.1 e.2 exc) t).streams ref).exceptions := by
  induction entries generalizing t with
  | nil => simpa using hopen
  | cons e entries ih =>
    rw [List.forall_mem_cons] at hregistered
    rw [List.foldl_cons]
    apply ih
    · simpa using hregistered.2
    · rcases hopen with ⟨hopen, hmem⟩ | htold
      · by_cases href : ref = e.2
        -- the stream is told now
        · right
          rw [href] at hopen ⊢
          rw [exceptions_fail_self e.1 exc hopen]
          simp
        -- it stays open for a later entry
        · left
          rw [fail_streams_of_ne exc hregistered.1 href]
          exact ⟨hopen, by simpa [href] using hmem⟩
      · exact Or.inr (mem_exceptions_fail e.1 e.2 exc htold)

theorem mem_exceptions_propagateException (exc : PyError) {id : SeqId} {ref : StreamRef}
    (hlookup : t.requestStreams.lookup id = some ref) (hopen : (t.streams ref).finished = false) :
    exc ∈ ((t.propagateException exc).streams ref).exceptions := by
  apply mem_exceptions_foldl_fail exc fun _ => AList.mem_lookup_iff.mpr
  exact Or.inl ⟨hopen, List.mem_map_of_mem (AList.mem_lookup_iff.mp hlookup)⟩

theorem exceptions_processRequestOutput (o : RequestOutput) (t : RequestTracker κ)
    (ref : StreamRef) :
    ((t.processRequestOutput o).streams ref).exceptions = (t.streams ref).exceptions := by
  have hput : ∀ a, ((t.modifyStream a (.put (.output o))).streams ref).exceptions =
      (t.streams ref).exceptions := fun a =>
    exceptions_modifyStream (fun s => s.exceptions_put_output o) t a ref
  unfold processRequestOutput
  dsimp only
  split
  · rfl
  · split_ifs
    · rw [exceptions_abortRequest, hput]
    · exact hput _

/-- The outputs of a step bring no exceptions. -/
theorem exceptions_outputs (outputs : List RequestOutput) (t : RequestTracker κ)
    (ref : StreamRef) :
    ((outputs.foldl (fun t o => t.processRequestOutput o) t).streams ref).exceptions =
      (t.streams ref).exceptions := by
  induction outputs generalizing t with
  | nil => rfl
  | cons o outputs ih => rw [List.foldl_cons, ih, exceptions_processRequestOutput]

theorem exceptions_foldl_drainNew (finished : Finset SeqId) (requests : List (NewRequest κ))
    (acc : List (NewRequest κ) × RequestTracker κ) (ref : StreamRef) :
    ((requests.foldl (drainNew finished) acc).2.streams ref).exceptions =
      (acc.2.streams ref).exceptions := by
  induction requests generalizing acc with
  | nil => rfl
  | cons request requests ih =>
    rw [List.foldl_cons, ih]
    unfold drainNew
    dsimp only
    split_ifs
    · exact exceptions_modifyStream AsyncStream.exceptions_finish _ _ ref
    · rfl

/-- Draining brings no exceptions. -/
theorem exceptions_drain (t : RequestTracker κ) (ref : StreamRef) :
    (t.getNewAndFinishedRequests.2.2.streams ref).exceptions = (t.streams ref).exceptions := by
  unfold getNewAndFinishedRequests
  exact exceptions_foldl_drainNew ..

end RequestTracker

namespace AsyncLLMEngine

variable {calls : EngineCalls κ σ} {key : String} {self : AsyncLLMEngine κ σ}

/-! ## The step without failures -/

theorem forEach_admitRequest_of_no_failure {requests : List (NewRequest κ)}
    (h : (calls.offerAll requests self.engine).1 = []) :
    Outcome.forEach (admitRequest calls key) requests self =
      .done { self with engine := (calls.offerAll requests self.engine).2 } := by
  induction requests generalizing self with
  | nil => rfl
  | cons request requests ih =>
    simp only [EngineCalls.offerAll] at h ⊢
    rw [Outcome.forEach_cons, admitRequest]
    cases hadd : calls.addRequest request.seqId request.kwargs self.engine with
    | done engine =>
      simp only [hadd, Outcome.andThen_done] at h ⊢
      exact ih h
    | throw e engine => simp [hadd] at h

/-- **A step without failures** adds all requests. -/
theorem admits_of_no_failure (key : String) (h : self.failures calls = []) :
    ∃ admitted, Admits calls key self admitted ∧ admitted.isRunning = self.isRunning ∧
      admitted.erroredWith = self.erroredWith := by
  refine ⟨_, ⟨forEach_admitRequest_of_no_failure h, rfl, fun ref => ?_⟩, rfl, rfl⟩
  show (self.requestTracker.getNewAndFinishedRequests.2.2.streams ref).exceptions = _
  rw [RequestTracker.exceptions_drain, failuresOf, h]
  simp

/-! ## The step with a failure -/

/-- The handler raises at the first failure, and the requests behind it are not offered. -/
theorem forEach_admitRequest_of_failure (hkey : key ≠ "seq_id") {requests : List (NewRequest κ)}
    (hvalue : ∀ f ∈ (calls.offerAll requests self.engine).1, f.2.isValueError = true)
    (h : (calls.offerAll requests self.engine).1 ≠ []) :
    ∃ engine, Outcome.forEach (admitRequest calls key) requests self =
      .throw (.missingKey key) { self with engine } := by
  induction requests generalizing self with
  | nil => exact absurd rfl h
  | cons request requests ih =>
    simp only [EngineCalls.offerAll] at h hvalue
    rw [Outcome.forEach_cons, admitRequest]
    cases hadd : calls.addRequest request.seqId request.kwargs self.engine with
    | done engine =>
      simp only [hadd, Outcome.andThen_done] at h hvalue ⊢
      exact ih hvalue h
    | throw e engine =>
      simp only [hadd] at hvalue
      have he : e.isValueError = true := hvalue _ List.mem_cons_self
      exact ⟨engine, by simp [he, NewRequest.item, hkey]⟩

/-- The loop has ended with the error of the handler, which all open streams have got. -/
structure StopsLoop (calls : EngineCalls κ σ) (loop : AsyncLLMEngine κ σ) : Prop where
  isRunning : (loop.loopTurn calls).isRunning = false
  erroredWith : (loop.loopTurn calls).erroredWith = some (.missingKey "request_id")
  told : ∀ id ref,
    loop.requestTracker.getNewAndFinishedRequests.2.2.requestStreams.lookup id = some ref →
    (loop.requestTracker.getNewAndFinishedRequests.2.2.streams ref).finished = false →
    .missingKey "request_id" ∈ ((loop.loopTurn calls).requestTracker.streams ref).exceptions

theorem exists_admitNewRequests_eq_throw
    (hvalue : ∀ f ∈ self.failures calls, f.2.isValueError = true) (h : self.failures calls ≠ []) :
    ∃ engine, self.admitNewRequests calls "request_id" = .throw (.missingKey "request_id")
      { self with
        requestTracker := self.requestTracker.getNewAndFinishedRequests.2.2
        engine } :=
  forEach_admitRequest_of_failure (by decide) hvalue h

theorem stopsLoop_of_failure (hvalue : ∀ f ∈ self.failures calls, f.2.isValueError = true)
    (h : self.failures calls ≠ []) : StopsLoop calls self := by
  obtain ⟨engine, hthrow⟩ := exists_admitNewRequests_eq_throw hvalue h
  constructor
  case isRunning => simp [loopTurn, engineStep, hthrow]
  case erroredWith => simp [loopTurn, engineStep, hthrow, errorCallback]
  case told =>
    intro id ref hlookup hopen
    simp only [loopTurn, engineStep, hthrow, Outcome.andThen_throw, errorCallback]
    exact RequestTracker.mem_exceptions_propagateException _ hlookup hopen

theorem not_isolatesFailures (hvalue : ∀ f ∈ self.failures calls, f.2.isValueError = true)
    (h : self.failures calls ≠ []) : ¬ self.IsolatesFailures calls := by
  rintro ⟨admitted, hadmits, -⟩
  obtain ⟨engine, hthrow⟩ := exists_admitNewRequests_eq_throw hvalue h
  exact nomatch hthrow.symm.trans hadmits.returns

theorem isolatesFailures_of_no_failure (h : self.failures calls = []) :
    self.IsolatesFailures calls := by
  obtain ⟨admitted, hadmits, hrunning, herrored⟩ := admits_of_no_failure "request_id" h
  refine ⟨admitted, hadmits, fun outputs engine hstep => ?_⟩
  have hturn : self.loopTurn calls = { admitted with
      engine
      requestTracker := outputs.foldl (fun t o => t.processRequestOutput o)
        admitted.requestTracker } := by
    simp [loopTurn, engineStep, hadmits.returns, stepEngine, hstep]
  rw [hturn]
  refine ⟨hrunning, herrored, fun ref => ?_⟩
  rw [RequestTracker.exceptions_outputs, hadmits.exceptions_eq]

/-- **A failing request is isolated** exactly if there is none: for every batch of new requests, of
    which the engine refuses any with a `ValueError`, `engine_step` delivers the exceptions and adds
    the other requests only if no request is refused.  Otherwise the loop ends, and every request
    that is registered and open gets the `KeyError` of the handler. -/
theorem isolatesFailures_iff (calls : EngineCalls κ σ) (self : AsyncLLMEngine κ σ)
    (hvalue : ∀ f ∈ self.failures calls, f.2.isValueError = true) :
    (self.IsolatesFailures calls ↔ self.failures calls = []) ∧
      (self.failures calls ≠ [] → self.StopsLoop calls) := by
  refine ⟨⟨fun h => ?_, isolatesFailures_of_no_failure⟩, stopsLoop_of_failure hvalue⟩
  by_contra hne
  exact not_isolatesFailures hvalue hne h

/-- An engine that keeps the ids of the requests it has accepted.  The arguments of a request say
    whether the tokenizer can encode its prompt; `encode` raises a `ValueError` if not. -/
def encodingEngine : EngineCalls Bool (List SeqId) where
  addRequest seqId encodable engine :=
    if encodable then .done (engine ++ [seqId]) else .throw (.valueError "encode") engine
  stepAsync engine := (.ok [], engine)

/-- A running loop, and two requests that have not been drained yet. -/
def twoRequests (first second : Bool) : AsyncLLMEngine Bool (List SeqId) where
  requestTracker := (RequestTracker.new.exec (.addRequest 0 first)).1.exec
    (.addRequest 1 second) |>.1
  engine := []
  erroredWith := none
  isRunning := true

theorem twoRequests_both_encodable :
    (twoRequests true true).IsolatesFailures encodingEngine :=
  ((isolatesFailures_iff encodingEngine (twoRequests true true) (by decide)).1).mpr (by decide)

/-- The first of two requests is refused: the second one is not added, the loop ends, and both
    streams get the `KeyError` and not the `ValueError`. -/
theorem twoRequests_first_refused :
    ¬ (twoRequests false true).IsolatesFailures encodingEngine ∧
      ((twoRequests false true).loopTurn encodingEngine).isRunning = false ∧
      ((twoRequests false true).loopTurn encodingEngine).engine = [] ∧
      ∀ ref ∈ [0, 1], (((twoRequests false true).loopTurn encodingEngine).requestTracker.streams
        ref).exceptions = [.missingKey "request_id"] := by
  refine ⟨not_isolatesFailures (by decide) (by decide), ?_⟩
  decide

/-! ## The handler with the right key -/

/-- Requests whose streams are registered and open. -/
structure Ready (t : RequestTracker κ) (requests : List (NewRequest κ)) : Prop where
  registered : ∀ r ∈ requests, t.requestStreams.lookup r.seqId = some r.stream
  open_ : ∀ r ∈ requests, (t.streams r.stream).finished = false
  nodup : (requests.map (·.stream)).Nodup

/-- With distinct ids, the requests that are handed over are ready. -/
theorem Ready.drain {t : RequestTracker κ} (h : StreamsInv t)
    (hids : (t.newRequests.map (·.seqId)).Nodup) :
    Ready t.getNewAndFinishedRequests.2.2 t.getNewAndFinishedRequests.1 := by
  rw [RequestTracker.getNewAndFinishedRequests_eq h.new_id]
  constructor
  case registered =>
    intro r hr
    exact registerAll_lookup_of_mem (hids.sublist (List.filter_sublist.map _)) hr
  case open_ =>
    intro r hr
    obtain ⟨hmem, hkept⟩ := List.mem_filter.mp hr
    dsimp only
    rw [closeAll_apply _ (h.new_nodup.sublist (List.filter_sublist.map _)), if_neg]
    · exact h.new_open r hmem
    · -- a request that is dropped has another stream
      intro hclosed
      obtain ⟨r', hr', hsame⟩ := List.mem_map.mp hclosed
      obtain ⟨hmem', hdropped⟩ := List.mem_filter.mp hr'
      obtain rfl := List.inj_on_of_nodup_map h.new_nodup hmem' hmem hsame
      simp_all
  case nodup => exact h.new_nodup.sublist (List.filter_sublist.map _)

theorem Ready.tail {t : RequestTracker κ} {r : NewRequest κ} {requests : List (NewRequest κ)}
    (h : Ready t (r :: requests)) : Ready t requests where
  registered r' hr' := h.registered r' (List.mem_cons_of_mem r hr')
  open_ r' hr' := h.open_ r' (List.mem_cons_of_mem r hr')
  nodup := (List.nodup_cons.mp h.nodup).2

/-- The failure of one request leaves the others ready. -/
theorem Ready.fail {t : RequestTracker κ} {r : NewRequest κ} {requests : List (NewRequest κ)}
    (h : Ready t (r :: requests)) (exc : PyError) :
    Ready (t.fail r.seqId r.stream exc) requests where
  registered r' hr' := by
    rw [RequestTracker.fail_requestStreams]
    exact h.tail.registered r' hr'
  open_ r' hr' := by
    have hne : r'.stream ≠ r.stream := by
      intro hsame
      exact (List.nodup_cons.mp h.nodup).1 (List.mem_map.mpr ⟨r', hr', hsame⟩)
    rw [RequestTracker.fail_streams_of_ne exc (h.registered r List.mem_cons_self) hne]
    exact h.tail.open_ r' hr'
  nodup := h.tail.nodup

/-- **Run lemma**: with the key of the id, every failure goes to its own stream. -/
theorem Ready.forEach_admitRequest (self : AsyncLLMEngine κ σ) {requests : List (NewRequest κ)}
    (h : Ready self.requestTracker requests)
    (hvalue : ∀ f ∈ (calls.offerAll requests self.engine).1, f.2.isValueError = true) :
    ∃ admitted, Outcome.forEach (admitRequest calls "seq_id") requests self = .done admitted ∧
      admitted.engine = (calls.offerAll requests self.engine).2 ∧
      ∀ ref, (admitted.requestTracker.streams ref).exceptions =
        (self.requestTracker.streams ref).exceptions ++
          ((calls.offerAll requests self.engine).1.filter (·.1.stream = ref)).map Prod.snd := by
  induction requests generalizing self with
  | nil => exact ⟨self, rfl, rfl, by simp [EngineCalls.offerAll]⟩
  | cons request requests ih =>
    simp only [EngineCalls.offerAll] at hvalue ⊢
    rw [Outcome.forEach_cons, admitRequest]
    cases hadd : calls.addRequest request.seqId request.kwargs self.engine with
    | done engine =>
      simp only [hadd] at hvalue ⊢
      obtain ⟨admitted, hrun, hengine, hexceptions⟩ := ih { self with engine } h.tail hvalue
      exact ⟨admitted, hrun, hengine, hexceptions⟩
    | throw e engine =>
      simp only [hadd, List.forall_mem_cons] at hvalue ⊢
      have hlookup := h.registered request List.mem_cons_self
      have hopen := h.open_ request List.mem_cons_self
      obtain ⟨admitted, hrun, hengine, hexceptions⟩ :=
        ih { self with
          engine, requestTracker := self.requestTracker.fail request.seqId request.stream e }
          (h.fail e) hvalue.2
      refine ⟨admitted, ?_, hengine, fun ref => ?_⟩
      · simpa [hvalue.1, NewRequest.item, RequestTracker.processException_eq_fail e hlookup]
          using hrun
      · rw [hexceptions]
        by_cases href : request.stream = ref
        · subst href
          rw [RequestTracker.exceptions_fail_self _ e hopen]
          simp
        · rw [RequestTracker.fail_streams_of_ne e hlookup (Ne.symm href)]
          simp [href]

/-- With `"seq_id"` as its key, the handler isolates all failures of requests with distinct ids. -/
theorem admits_seqId (hstreams : StreamsInv self.requestTracker)
    (hids : (self.requestTracker.newRequests.map (·.seqId)).Nodup)
    (hvalue : ∀ f ∈ self.failures calls, f.2.isValueError = true) :
    ∃ admitted, Admits calls "seq_id" self admitted := by
  obtain ⟨admitted, hrun, hengine, hexceptions⟩ :=
    Ready.forEach_admitRequest { self with
      requestTracker := self.requestTracker.getNewAndFinishedRequests.2.2 }
      (Ready.drain hstreams hids) hvalue
  refine ⟨admitted, hrun, hengine, fun ref => ?_⟩
  rw [hexceptions, RequestTracker.exceptions_drain]
  rfl

end AsyncLLMEngine

end VAttention.Serving
