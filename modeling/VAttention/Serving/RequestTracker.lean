import Mathlib.Data.Finset.Dedup
import Mathlib.Data.List.AList
import VAttention.Core.Sequence

/-!
# The request tracker

Model of `AsyncStream` and `RequestTracker`.  Clients add and abort requests, the engine loop
puts outputs into their streams, and once per iteration it drains two queues: the finished ids,
which are forgotten, and then the new requests, which are registered and handed to the engine.

Streams are objects that the client, the queue of new requests and `_request_streams` refer to,
so they live in a heap.  A stream keeps all items ever put into it; what its reader has taken out
already makes no difference to any method.

`TrackerMove` lists what the methods do, and every call is a sequence of moves
(`RequestTracker.exec_moves`).  The first use is that a stream ends once: it gets at most one
`StopAsyncIteration`, as its last item (`TrackerRun.streamsInv`).
-/

namespace VAttention.Serving

open VAttention.Core

/-! ## Streams -/

/-- What is put into a stream. -/
inductive StreamItem where
  | output (requestOutput : RequestOutput)
  | exception (exc : PyError)
  | stopAsyncIteration
  deriving DecidableEq

/-- `AsyncStream`. -/
structure AsyncStream where
  requestId : SeqId
  queue : List StreamItem
  finished : Bool
  deriving DecidableEq

namespace AsyncStream

/-- `AsyncStream(request_id)`. -/
def new (requestId : SeqId) : AsyncStream := ⟨requestId, [], false⟩

/-- `put`. -/
def put (item : StreamItem) (s : AsyncStream) : AsyncStream :=
  if s.finished then s else { s with queue := s.queue ++ [item] }

/-- `finish`, which asks nothing. -/
def finish (s : AsyncStream) : AsyncStream :=
  { s with queue := s.queue ++ [.stopAsyncIteration], finished := true }

@[simp] theorem put_requestId (item : StreamItem) (s : AsyncStream) :
    (s.put item).requestId = s.requestId := by
  unfold put
  split_ifs <;> rfl

@[simp] theorem put_finished (item : StreamItem) (s : AsyncStream) :
    (s.put item).finished = s.finished := by
  unfold put
  split_ifs <;> rfl

@[simp] theorem finish_requestId (s : AsyncStream) : s.finish.requestId = s.requestId := rfl

@[simp] theorem finish_finished (s : AsyncStream) : s.finish.finished = true := rfl

/-- Nothing stands behind a `StopAsyncIteration`, and there is none before `finish`. -/
structure EndsOnce (s : AsyncStream) : Prop where
  open_ : s.finished = false → .stopAsyncIteration ∉ s.queue
  last : ∀ before after, s.queue = before ++ .stopAsyncIteration :: after → after = []

theorem EndsOnce.of_notMem {s : AsyncStream} (h : .stopAsyncIteration ∉ s.queue) : s.EndsOnce where
  open_ _ := h
  last before after hqueue := absurd (by simp [hqueue]) h

theorem EndsOnce.put {s : AsyncStream} (h : s.EndsOnce) {item : StreamItem}
    (hitem : item ≠ .stopAsyncIteration) : (s.put item).EndsOnce := by
  unfold AsyncStream.put
  split_ifs with hfinished
  · exact h
  · have hqueue := h.open_ (by simpa using hfinished)
    exact .of_notMem (by simp [hqueue, hitem.symm])

/-- A stream that is finished while it is open ends there. -/
theorem EndsOnce.finish {s : AsyncStream} (h : s.EndsOnce) (hopen : s.finished = false) :
    s.finish.EndsOnce where
  open_ hfinished := by cases hfinished
  last before after hqueue := by
    have hnone := h.open_ hopen
    rcases List.eq_nil_or_concat after with rfl | ⟨after, item, rfl⟩
    · rfl
    -- the queue before has no such item
    · rw [List.concat_eq_append, ← List.cons_append, ← List.append_assoc] at hqueue
      obtain ⟨hbefore, -⟩ := List.append_inj' hqueue rfl
      exact absurd (by simp [hbefore]) hnone

end AsyncStream

/-! ## The tracker -/

/-- A reference to a stream. -/
abbrev StreamRef := Nat

/-- An entry of `_new_requests`: the stream and the arguments for the engine's `add_request`,
    `seq_id` among them. -/
structure NewRequest (κ : Type) where
  stream : StreamRef
  seqId : SeqId
  kwargs : κ
  deriving DecidableEq

/-- `RequestTracker`, with the streams it has created in the order of their creation. -/
structure RequestTracker (κ : Type) where
  streams : StreamRef → AsyncStream
  nextStream : StreamRef
  requestStreams : AList (fun _ : SeqId => StreamRef)
  finishedRequests : List SeqId
  newRequests : List (NewRequest κ)

/-- What the methods raise. -/
inductive TrackerError where
  /-- `KeyError`: "Request {request_id} already exists." -/
  | alreadyExists (requestId : SeqId)
  /-- `KeyError` of `_request_streams`. -/
  | keyError (requestId : SeqId)
  deriving DecidableEq

namespace RequestTracker

variable {κ : Type}

/-- `RequestTracker()`. -/
def new : RequestTracker κ where
  streams := AsyncStream.new
  nextStream := 0
  requestStreams := ∅
  finishedRequests := []
  newRequests := []

/-- Call a method of a stream. -/
def modifyStream (ref : StreamRef) (f : AsyncStream → AsyncStream) (t : RequestTracker κ) :
    RequestTracker κ :=
  { t with streams := Function.update t.streams ref (f (t.streams ref)) }

/-- `abort_request`. -/
def abortRequest (requestId : SeqId) (t : RequestTracker κ) : RequestTracker κ :=
  let t := { t with finishedRequests := t.finishedRequests ++ [requestId] }
  match t.requestStreams.lookup requestId with
  | none => t
  | some ref => if (t.streams ref).finished then t else t.modifyStream ref .finish

/-- `process_request_output`. -/
def processRequestOutput (requestOutput : RequestOutput) (t : RequestTracker κ) :
    RequestTracker κ :=
  match t.requestStreams.lookup requestOutput.seqId with
  | none => t
  | some ref =>
    let t := t.modifyStream ref (.put (.output requestOutput))
    if requestOutput.finished then t.abortRequest requestOutput.seqId else t

/-- `process_exception`; `propagate_exception` does the same if it is given an id. -/
def processException (requestId : SeqId) (exc : PyError) (t : RequestTracker κ) :
    Except TrackerError (RequestTracker κ) :=
  match t.requestStreams.lookup requestId with
  | none => .error (.keyError requestId)
  | some ref => .ok ((t.modifyStream ref (.put (.exception exc))).abortRequest requestId)

/-- `propagate_exception` to all requests. -/
def propagateException (exc : PyError) (t : RequestTracker κ) : RequestTracker κ :=
  t.requestStreams.entries.foldl
    (fun t entry => (t.modifyStream entry.2 (.put (.exception exc))).abortRequest entry.1) t

/-- `add_request`. -/
def addRequest (requestId : SeqId) (kwargs : κ) (t : RequestTracker κ) :
    Except TrackerError (StreamRef × RequestTracker κ) :=
  if requestId ∈ t.requestStreams then .error (.alreadyExists requestId)
  else .ok (t.nextStream,
    { t with
      streams := Function.update t.streams t.nextStream (.new requestId)
      nextStream := t.nextStream + 1
      newRequests := t.newRequests ++ [⟨t.nextStream, requestId, kwargs⟩] })

/-- One turn of the second loop of `get_new_and_finished_requests`. -/
def drainNew (finished : Finset SeqId) (acc : List (NewRequest κ) × RequestTracker κ)
    (request : NewRequest κ) : List (NewRequest κ) × RequestTracker κ :=
  let requestId := (acc.2.streams request.stream).requestId
  if requestId ∈ finished then (acc.1, acc.2.modifyStream request.stream .finish)
  else (acc.1 ++ [request],
    { acc.2 with requestStreams := acc.2.requestStreams.insert requestId request.stream })

/-- `get_new_and_finished_requests`: the new requests and the finished ids. -/
def getNewAndFinishedRequests (t : RequestTracker κ) :
    List (NewRequest κ) × Finset SeqId × RequestTracker κ :=
  let finished := t.finishedRequests.toFinset
  let (handed, t') := t.newRequests.foldl (drainNew finished) ([],
    { t with
      requestStreams := t.finishedRequests.foldl (fun m id => m.erase id) t.requestStreams
      finishedRequests := []
      newRequests := [] })
  (handed, finished, t')

/-! ## Calls and their log -/

end RequestTracker

/-- The calls of clients and of the engine loop. -/
inductive TrackerEvent (κ : Type) where
  | addRequest (requestId : SeqId) (kwargs : κ)
  | abortRequest (requestId : SeqId)
  | processRequestOutput (requestOutput : RequestOutput)
  | processException (requestId : SeqId) (exc : PyError)
  | propagateException (exc : PyError)
  | getNewAndFinishedRequests

/-- What is remembered of a run. -/
inductive TrackerEntry (κ : Type) where
  /-- `add_request` has returned a stream. -/
  | accepted (request : NewRequest κ)
  /-- `add_request` has raised. -/
  | rejected (requestId : SeqId)
  /-- `abort_request` has been called, by a client or for a request that has ended. -/
  | aborted (requestId : SeqId)
  /-- The queues have been drained: the requests handed to the engine, and `_request_streams`
      afterwards. -/
  | drained (handed : List (NewRequest κ)) (registered : AList (fun _ : SeqId => StreamRef))

namespace RequestTracker

variable {κ : Type}

/-- A call, with what is remembered of it.  A call that raises changes nothing. -/
def exec (event : TrackerEvent κ) (t : RequestTracker κ) :
    RequestTracker κ × List (TrackerEntry κ) :=
  match event with
  | .addRequest requestId kwargs =>
    match t.addRequest requestId kwargs with
    | .ok (ref, t') => (t', [.accepted ⟨ref, requestId, kwargs⟩])
    | .error _ => (t, [.rejected requestId])
  | .abortRequest requestId => (t.abortRequest requestId, [.aborted requestId])
  | .processRequestOutput requestOutput =>
    (t.processRequestOutput requestOutput,
      if requestOutput.finished ∧ requestOutput.seqId ∈ t.requestStreams
        then [.aborted requestOutput.seqId] else [])
  | .processException requestId exc =>
    match t.processException requestId exc with
    | .ok t' => (t', [.aborted requestId])
    | .error _ => (t, [])
  | .propagateException exc =>
    (t.propagateException exc, t.requestStreams.entries.map fun entry => .aborted entry.1)
  | .getNewAndFinishedRequests =>
    let (handed, _, t') := t.getNewAndFinishedRequests
    (t', [.drained handed t'.requestStreams])

end RequestTracker

variable {κ : Type} {t t' : RequestTracker κ}

/-- A run with its log.  `admits` is a condition on every `add_request` that does not raise. -/
inductive TrackerRun (admits : RequestTracker κ → SeqId → Prop) :
    RequestTracker κ → List (TrackerEntry κ) → Prop where
  | new : TrackerRun admits .new []
  | call {t : RequestTracker κ} {log : List (TrackerEntry κ)} (h : TrackerRun admits t log)
      (event : TrackerEvent κ)
      (hadmits : ∀ requestId kwargs, event = .addRequest requestId kwargs →
        requestId ∉ t.requestStreams → admits t requestId) :
      TrackerRun admits (t.exec event).1 (log ++ (t.exec event).2)

/-! ## Moves -/

/-- What a call does, in parts. -/
inductive TrackerMove (admits : RequestTracker κ → SeqId → Prop) (t : RequestTracker κ) :
    List (TrackerEntry κ) → RequestTracker κ → Prop where
  /-- Put something other than the end into a registered stream. -/
  | put {requestId : SeqId} {ref : StreamRef} (item : StreamItem)
      (hregistered : t.requestStreams.lookup requestId = some ref)
      (hitem : item ≠ .stopAsyncIteration) :
      TrackerMove admits t [] (t.modifyStream ref (.put item))
  | abort (requestId : SeqId) :
      TrackerMove admits t [.aborted requestId] (t.abortRequest requestId)
  | reject (requestId : SeqId) : TrackerMove admits t [.rejected requestId] t
  | accept {requestId : SeqId} (kwargs : κ) (hnew : requestId ∉ t.requestStreams)
      (hadmits : admits t requestId) :
      TrackerMove admits t [.accepted ⟨t.nextStream, requestId, kwargs⟩]
        { t with
          streams := Function.update t.streams t.nextStream (.new requestId)
          nextStream := t.nextStream + 1
          newRequests := t.newRequests ++ [⟨t.nextStream, requestId, kwargs⟩] }
  | drain :
      TrackerMove admits t
        [.drained t.getNewAndFinishedRequests.1 t.getNewAndFinishedRequests.2.2.requestStreams]
        t.getNewAndFinishedRequests.2.2

/-- Any number of moves. -/
inductive TrackerMoves (admits : RequestTracker κ → SeqId → Prop) (t : RequestTracker κ) :
    List (TrackerEntry κ) → RequestTracker κ → Prop where
  | nil : TrackerMoves admits t [] t
  | snoc {log entries : List (TrackerEntry κ)} {t₁ t₂ : RequestTracker κ}
      (h : TrackerMoves admits t log t₁) (hmove : TrackerMove admits t₁ entries t₂) :
      TrackerMoves admits t (log ++ entries) t₂

section Moves

variable {admits : RequestTracker κ → SeqId → Prop} {log : List (TrackerEntry κ)}

theorem TrackerMove.moves {entries : List (TrackerEntry κ)} (h : TrackerMove admits t entries t') :
    TrackerMoves admits t entries t' := by
  have hmoves := TrackerMoves.nil.snoc h
  rwa [List.nil_append] at hmoves

@[simp] theorem RequestTracker.abortRequest_requestStreams (requestId : SeqId)
    (t : RequestTracker κ) : (t.abortRequest requestId).requestStreams = t.requestStreams := by
  unfold abortRequest
  dsimp only
  split
  · rfl
  · split_ifs <;> rfl

/-- Every registered request gets the exception and is aborted. -/
theorem propagateException_moves (exc : PyError) {entries : List (Sigma fun _ : SeqId => StreamRef)}
    {t₁ : RequestTracker κ} (h : TrackerMoves admits t log t₁)
    (hregistered : ∀ entry ∈ entries, t₁.requestStreams.lookup entry.1 = some entry.2) :
    TrackerMoves admits t (log ++ entries.map fun entry => .aborted entry.1)
      (entries.foldl (fun t entry =>
        (t.modifyStream entry.2 (.put (.exception exc))).abortRequest entry.1) t₁) := by
  induction entries generalizing t₁ log with
  | nil => simpa using h
  | cons entry entries ih =>
    rw [List.forall_mem_cons] at hregistered
    have hput := h.snoc (.put (.exception exc) hregistered.1 (by simp))
    have hrest := ih (hput.snoc (.abort entry.1)) fun e he => by
      simpa [RequestTracker.modifyStream] using hregistered.2 e he
    simpa using hrest

/-- Every call is a sequence of moves. -/
theorem RequestTracker.exec_moves {event : TrackerEvent κ}
    (hadmits : ∀ requestId kwargs, event = .addRequest requestId kwargs →
      requestId ∉ t.requestStreams → admits t requestId) :
    TrackerMoves admits t (t.exec event).2 (t.exec event).1 := by
  cases event with
  | addRequest requestId kwargs =>
    by_cases hold : requestId ∈ t.requestStreams
    · have hexec : t.exec (.addRequest requestId kwargs) = (t, [.rejected requestId]) := by
        simp [exec, addRequest, hold]
      rw [hexec]
      exact (TrackerMove.reject requestId).moves
    · have hmove := TrackerMove.accept kwargs hold (hadmits requestId kwargs rfl hold)
      simpa [exec, addRequest, hold] using hmove.moves
  | abortRequest requestId => exact (TrackerMove.abort requestId).moves
  | processRequestOutput requestOutput =>
    simp only [exec, processRequestOutput]
    cases hlookup : t.requestStreams.lookup requestOutput.seqId with
    | none =>
      rw [if_neg fun hand => AList.lookup_eq_none.mp hlookup hand.2]
      exact .nil
    | some ref =>
      have hmem : requestOutput.seqId ∈ t.requestStreams := by
        rw [← AList.lookup_isSome, hlookup, Option.isSome_some]
      have hput : TrackerMoves admits t _ _ := TrackerMoves.nil.snoc
        (.put (.output requestOutput) hlookup (by simp))
      cases hfinished : requestOutput.finished with
      | false => simpa [hfinished] using hput
      | true => simpa [hfinished, hmem] using hput.snoc (.abort requestOutput.seqId)
  | processException requestId exc =>
    simp only [exec, processException]
    cases hlookup : t.requestStreams.lookup requestId with
    | none => exact .nil
    | some ref =>
      have hput : TrackerMoves admits t _ _ := TrackerMoves.nil.snoc
        (.put (.exception exc) hlookup (by simp))
      simpa using hput.snoc (.abort requestId)
  | propagateException exc =>
    have hregistered : ∀ entry ∈ t.requestStreams.entries,
        t.requestStreams.lookup entry.1 = some entry.2 := fun _ => AList.mem_lookup_iff.mpr
    have hmoves : TrackerMoves admits t _ _ := propagateException_moves exc .nil hregistered
    simpa [exec, propagateException] using hmoves
  | getNewAndFinishedRequests => exact TrackerMove.drain.moves

/-- What every move keeps holds in every run, with the log so far. -/
theorem TrackerRun.invariant (I : RequestTracker κ → List (TrackerEntry κ) → Prop)
    (hnew : I .new [])
    (hmove : ∀ t log entries t', I t log → TrackerMove admits t entries t' → I t' (log ++ entries))
    (h : TrackerRun admits t log) : I t log := by
  induction h with
  | new => exact hnew
  | @call t log _ event hadmits ih =>
    have hmoves := RequestTracker.exec_moves hadmits
    generalize (t.exec event).2 = entries, (t.exec event).1 = t' at hmoves
    induction hmoves with
    | nil => simpa using ih
    | snoc _ hlast ih' =>
      rw [← List.append_assoc]
      exact hmove _ _ _ _ ih' hlast

end Moves

/-! ## Draining -/

/-- Finish the streams of some requests. -/
def closeAll (requests : List (NewRequest κ)) (streams : StreamRef → AsyncStream) :
    StreamRef → AsyncStream :=
  requests.foldl (fun streams r => Function.update streams r.stream (streams r.stream).finish)
    streams

/-- Register the streams of some requests. -/
def registerAll (requests : List (NewRequest κ)) (m : AList (fun _ : SeqId => StreamRef)) :
    AList (fun _ : SeqId => StreamRef) :=
  requests.foldl (fun m r => m.insert r.seqId r.stream) m

/-- Forget some ids. -/
def forgetAll (ids : List SeqId) (m : AList (fun _ : SeqId => StreamRef)) :
    AList (fun _ : SeqId => StreamRef) :=
  ids.foldl (fun m id => m.erase id) m

section Draining

variable {requests : List (NewRequest κ)} {m : AList (fun _ : SeqId => StreamRef)}

theorem closeAll_apply {streams : StreamRef → AsyncStream} (ref : StreamRef)
    (hnodup : (requests.map (·.stream)).Nodup) :
    closeAll requests streams ref =
      if ref ∈ requests.map (·.stream) then (streams ref).finish else streams ref := by
  unfold closeAll
  induction requests generalizing streams with
  | nil => rfl
  | cons r requests ih =>
    rw [List.map_cons, List.nodup_cons] at hnodup
    rw [List.foldl_cons, ih hnodup.2]
    by_cases href : ref = r.stream
    · subst href
      simp [hnodup.1]
    · simp [href]

theorem closeAll_requestId (requests : List (NewRequest κ)) (streams : StreamRef → AsyncStream)
    (ref : StreamRef) : (closeAll requests streams ref).requestId = (streams ref).requestId := by
  unfold closeAll
  induction requests generalizing streams with
  | nil => rfl
  | cons r requests ih =>
    rw [List.foldl_cons, ih]
    by_cases href : ref = r.stream
    · simp [href]
    · simp [href]

theorem registerAll_lookup_of_notMem {id : SeqId} (hid : id ∉ requests.map (·.seqId)) :
    (registerAll requests m).lookup id = m.lookup id := by
  unfold registerAll
  induction requests generalizing m with
  | nil => rfl
  | cons r requests ih =>
    rw [List.map_cons, List.mem_cons, not_or] at hid
    rw [List.foldl_cons, ih hid.2, AList.lookup_insert_ne hid.1]

theorem registerAll_lookup_of_mem (hnodup : (requests.map (·.seqId)).Nodup) {r : NewRequest κ}
    (hr : r ∈ requests) : (registerAll requests m).lookup r.seqId = some r.stream := by
  induction requests generalizing m with
  | nil => cases hr
  | cons a requests ih =>
    rw [List.map_cons, List.nodup_cons] at hnodup
    change (registerAll requests (m.insert a.seqId a.stream)).lookup r.seqId = some r.stream
    rcases List.mem_cons.mp hr with rfl | hr
    · rw [registerAll_lookup_of_notMem hnodup.1, AList.lookup_insert]
    · exact ih hnodup.2 hr

/-- A registered stream is one of the new ones or was registered before. -/
theorem registerAll_lookup_cases {id : SeqId} {ref : StreamRef}
    (h : (registerAll requests m).lookup id = some ref) :
    (∃ r ∈ requests, r.seqId = id ∧ r.stream = ref) ∨ m.lookup id = some ref := by
  induction requests generalizing m with
  | nil => exact .inr h
  | cons a requests ih =>
    rcases ih h with ⟨r, hr, hid⟩ | hlookup
    · exact .inl ⟨r, List.mem_cons_of_mem a hr, hid⟩
    · by_cases hid : id = a.seqId
      · subst hid
        rw [AList.lookup_insert] at hlookup
        exact .inl ⟨a, List.mem_cons_self, rfl, Option.some.inj hlookup⟩
      · rw [AList.lookup_insert_ne hid] at hlookup
        exact .inr hlookup

theorem forgetAll_lookup (ids : List SeqId) (id : SeqId) :
    (forgetAll ids m).lookup id = if id ∈ ids then none else m.lookup id := by
  unfold forgetAll
  induction ids generalizing m with
  | nil => rfl
  | cons a ids ih =>
    rw [List.foldl_cons, ih]
    by_cases hid : id = a
    · subst hid
      simp
    · simp [hid, AList.lookup_erase_ne hid]

theorem foldl_drainNew (finished : Finset SeqId) (handed : List (NewRequest κ))
    (hids : ∀ r ∈ requests, (t.streams r.stream).requestId = r.seqId) :
    requests.foldl (RequestTracker.drainNew finished) (handed, t) =
      (handed ++ requests.filter (·.seqId ∉ finished),
        { t with
          streams := closeAll (requests.filter (·.seqId ∈ finished)) t.streams
          requestStreams :=
            registerAll (requests.filter (·.seqId ∉ finished)) t.requestStreams }) := by
  induction requests generalizing t handed with
  | nil => simp [closeAll, registerAll]
  | cons r requests ih =>
    rw [List.forall_mem_cons] at hids
    rw [List.foldl_cons, RequestTracker.drainNew, hids.1]
    by_cases hr : r.seqId ∈ finished
    · rw [if_pos hr, ih]
      · simp [hr, closeAll, RequestTracker.modifyStream]
      · intro a ha
        rw [← hids.2 a ha]
        by_cases hsame : a.stream = r.stream
        · simp [RequestTracker.modifyStream, hsame]
        · simp [RequestTracker.modifyStream, hsame]
    · rw [if_neg hr, ih _ (by exact hids.2)]
      simp [hr, registerAll]

/-- **What draining does**: the new requests that are aborted are finished, the others are
    registered and handed over, and the finished ids are forgotten first. -/
theorem RequestTracker.getNewAndFinishedRequests_eq
    (hids : ∀ r ∈ t.newRequests, (t.streams r.stream).requestId = r.seqId) :
    t.getNewAndFinishedRequests =
      (t.newRequests.filter (·.seqId ∉ t.finishedRequests), t.finishedRequests.toFinset,
        { t with
          streams := closeAll (t.newRequests.filter (·.seqId ∈ t.finishedRequests)) t.streams
          requestStreams := registerAll (t.newRequests.filter (·.seqId ∉ t.finishedRequests))
            (forgetAll t.finishedRequests t.requestStreams)
          finishedRequests := []
          newRequests := [] }) := by
  rw [getNewAndFinishedRequests]
  dsimp only
  rw [foldl_drainNew _ _ (by exact hids)]
  simp [forgetAll]

end Draining

/-! ## Streams end once -/

/-- Invariant of the streams, whatever the calls: a new request has a stream of its own, which is
    open and not yet registered. -/
structure StreamsInv (t : RequestTracker κ) : Prop where
  new_lt : ∀ r ∈ t.newRequests, r.stream < t.nextStream
  new_id : ∀ r ∈ t.newRequests, (t.streams r.stream).requestId = r.seqId
  new_open : ∀ r ∈ t.newRequests, (t.streams r.stream).finished = false
  new_nodup : (t.newRequests.map (·.stream)).Nodup
  registered : ∀ id ref, t.requestStreams.lookup id = some ref →
    ref < t.nextStream ∧ ref ∉ t.newRequests.map (·.stream)
  ends : ∀ ref, (t.streams ref).EndsOnce

theorem StreamsInv.new : StreamsInv (RequestTracker.new : RequestTracker κ) where
  new_lt := by simp [RequestTracker.new]
  new_id := by simp [RequestTracker.new]
  new_open := by simp [RequestTracker.new]
  new_nodup := List.nodup_nil
  registered := by simp [RequestTracker.new]
  ends ref := .of_notMem (by simp [RequestTracker.new, AsyncStream.new])

/-- A method call on a registered stream. -/
theorem StreamsInv.modify (h : StreamsInv t) {id : SeqId} {ref : StreamRef}
    {f : AsyncStream → AsyncStream} (hregistered : t.requestStreams.lookup id = some ref)
    (hends : (f (t.streams ref)).EndsOnce) : StreamsInv (t.modifyStream ref f) := by
  obtain ⟨-, hnew⟩ := h.registered id ref hregistered
  -- the streams of the new requests are others
  have hsame : ∀ r ∈ t.newRequests,
      Function.update t.streams ref (f (t.streams ref)) r.stream = t.streams r.stream := by
    intro r hr
    refine Function.update_of_ne ?_ _ _
    rintro rfl
    exact hnew (List.mem_map_of_mem hr)
  constructor
  case new_lt => exact h.new_lt
  case new_id =>
    intro r hr
    exact (congrArg AsyncStream.requestId (hsame r hr)).trans (h.new_id r hr)
  case new_open =>
    intro r hr
    exact (congrArg AsyncStream.finished (hsame r hr)).trans (h.new_open r hr)
  case new_nodup => exact h.new_nodup
  case registered => exact h.registered
  case ends =>
    intro a
    by_cases ha : a = ref
    · subst ha
      simpa [RequestTracker.modifyStream] using hends
    · simpa [RequestTracker.modifyStream, ha] using h.ends a

theorem StreamsInv.abortRequest (h : StreamsInv t) (id : SeqId) :
    StreamsInv (t.abortRequest id) := by
  have hqueued : StreamsInv { t with finishedRequests := t.finishedRequests ++ [id] } :=
    ⟨h.new_lt, h.new_id, h.new_open, h.new_nodup, h.registered, h.ends⟩
  unfold RequestTracker.abortRequest
  dsimp only
  split
  · exact hqueued
  · rename_i ref hlookup
    split_ifs with hfinished
    · exact hqueued
    · exact hqueued.modify hlookup ((h.ends ref).finish (by simpa using hfinished))

theorem StreamsInv.accept (h : StreamsInv t) (id : SeqId) (kwargs : κ) :
    StreamsInv { t with
      streams := Function.update t.streams t.nextStream (.new id)
      nextStream := t.nextStream + 1
      newRequests := t.newRequests ++ [⟨t.nextStream, id, kwargs⟩] } := by
  have hsame : ∀ r ∈ t.newRequests,
      Function.update t.streams t.nextStream (.new id) r.stream = t.streams r.stream :=
    fun r hr => Function.update_of_ne (h.new_lt r hr).ne _ _
  constructor
  case new_lt =>
    intro r hr
    rcases List.mem_append.mp hr with hr | hr
    · exact (h.new_lt r hr).trans (Nat.lt_succ_self _)
    · obtain rfl := List.mem_singleton.mp hr
      exact Nat.lt_succ_self _
  case new_id =>
    intro r hr
    rcases List.mem_append.mp hr with hr | hr
    · exact (congrArg AsyncStream.requestId (hsame r hr)).trans (h.new_id r hr)
    · obtain rfl := List.mem_singleton.mp hr
      simp [AsyncStream.new]
  case new_open =>
    intro r hr
    rcases List.mem_append.mp hr with hr | hr
    · exact (congrArg AsyncStream.finished (hsame r hr)).trans (h.new_open r hr)
    · obtain rfl := List.mem_singleton.mp hr
      simp [AsyncStream.new]
  case new_nodup =>
    rw [List.map_append, List.map_singleton]
    refine List.nodup_append.mpr ⟨h.new_nodup, List.nodup_singleton _, ?_⟩
    intro a ha b hb
    obtain ⟨r, hr, rfl⟩ := List.mem_map.mp ha
    obtain rfl := List.mem_singleton.mp hb
    exact (h.new_lt r hr).ne
  case registered =>
    intro a ref hlookup
    obtain ⟨hlt, hnew⟩ := h.registered a ref hlookup
    refine ⟨hlt.trans (Nat.lt_succ_self _), ?_⟩
    simpa [hlt.ne] using hnew
  case ends =>
    intro ref
    by_cases href : ref = t.nextStream
    · subst href
      exact .of_notMem (by simp [AsyncStream.new])
    · simpa [href] using h.ends ref

theorem StreamsInv.drain (h : StreamsInv t) : StreamsInv t.getNewAndFinishedRequests.2.2 := by
  rw [RequestTracker.getNewAndFinishedRequests_eq h.new_id]
  constructor
  case new_lt | new_id | new_open => simp
  case new_nodup => exact List.nodup_nil
  case registered =>
    intro id ref hlookup
    refine ⟨?_, List.not_mem_nil⟩
    rcases registerAll_lookup_cases hlookup with ⟨r, hr, -, rfl⟩ | hold
    · exact h.new_lt r (List.mem_filter.mp hr).1
    · rw [forgetAll_lookup] at hold
      split_ifs at hold
      exact (h.registered id ref hold).1
  case ends =>
    intro ref
    dsimp only
    have hsub : List.Sublist
        ((t.newRequests.filter (·.seqId ∈ t.finishedRequests)).map (·.stream))
        (t.newRequests.map (·.stream)) := List.filter_sublist.map _
    rw [closeAll_apply ref (h.new_nodup.sublist hsub)]
    split_ifs with href
    -- a stream that is finished here was open
    · obtain ⟨r, hr, rfl⟩ := List.mem_map.mp (hsub.mem href)
      exact (h.ends r.stream).finish (h.new_open r hr)
    · exact h.ends ref

theorem StreamsInv.move {admits : RequestTracker κ → SeqId → Prop}
    {entries : List (TrackerEntry κ)} (h : StreamsInv t) (hmove : TrackerMove admits t entries t') :
    StreamsInv t' := by
  cases hmove with
  | put item hregistered hitem => exact h.modify hregistered ((h.ends _).put hitem)
  | abort id => exact h.abortRequest id
  | reject => exact h
  | accept kwargs => exact h.accept _ kwargs
  | drain => exact h.drain

/-- **Streams end once**, whatever the calls: nothing is put into a stream after a
    `StopAsyncIteration`. -/
theorem TrackerRun.streamsInv {admits : RequestTracker κ → SeqId → Prop}
    {log : List (TrackerEntry κ)} (h : TrackerRun admits t log) : StreamsInv t :=
  h.invariant (fun t _ => StreamsInv t) StreamsInv.new fun _ _ _ _ hinv hmove => hinv.move hmove

end VAttention.Serving
