import VAttention.Serving.RequestTracker

/-!
# The protocol of the request tracker

A request goes through phases: it is queued, and draining the queues makes it active or, if it
has been aborted in between, drops it; an active request is ended by an abort.  The log of a run
determines the phase of every request (`phaseOf`), and the invariant `TrackerInv` says what each
phase means for the tracker.

The tracker keeps no order between its two queues, so an id must not be added while it stands in
one of them: after an abort of the same id the new request is dropped, and a second new request
with the same id takes over its registration.  If no call adds such an id (`freshId`), the
tracker keeps its protocol (`trackerProtocol_of_freshId`).
-/

namespace VAttention.Serving

open VAttention.Core

variable {κ : Type} {t t' : RequestTracker κ} {log : List (TrackerEntry κ)}

/-! ## Phases -/

/-- Where a request is. -/
inductive RequestPhase where
  /-- Accepted and not drained yet. -/
  | queued
  /-- Aborted before it was drained. -/
  | cancelled
  /-- Handed to the engine. -/
  | active
  /-- Ended by an abort while active. -/
  | ended
  /-- Finished when it was drained, and not handed over. -/
  | dropped
  deriving DecidableEq

namespace RequestPhase

/-- After an abort of the request. -/
def abort : RequestPhase → RequestPhase
  | queued => cancelled
  | active => ended
  | p => p

/-- After the queues have been drained. -/
def drain : RequestPhase → RequestPhase
  | queued => active
  | cancelled => dropped
  | p => p

/-- How an entry of the log moves the request with the given id. -/
def next (id : SeqId) (p : RequestPhase) : TrackerEntry κ → RequestPhase
  | .accepted _ | .rejected _ => p
  | .aborted id' => if id' = id then p.abort else p
  | .drained _ _ => p.drain

/-- The phases behind a hand-over. -/
def wasHanded : RequestPhase → Bool
  | active | ended => true
  | queued | cancelled | dropped => false

theorem wasHanded_abort (p : RequestPhase) : p.abort.wasHanded = p.wasHanded := by
  cases p <;> rfl

end RequestPhase

/-- Follow the request with the given stream. -/
def follow (ref : StreamRef) (st : Option (NewRequest κ × RequestPhase)) (entry : TrackerEntry κ) :
    Option (NewRequest κ × RequestPhase) :=
  match st with
  | some (r, p) => some (r, p.next r.seqId entry)
  | none =>
    match entry with
    | .accepted r => if r.stream = ref then some (r, .queued) else none
    | _ => none

/-- The request with the given stream, and its phase at the end of a log. -/
def phaseOf (ref : StreamRef) (log : List (TrackerEntry κ)) :
    Option (NewRequest κ × RequestPhase) :=
  log.foldl (follow ref) none

theorem phaseOf_snoc (ref : StreamRef) (log : List (TrackerEntry κ)) (entry : TrackerEntry κ) :
    phaseOf ref (log ++ [entry]) = follow ref (phaseOf ref log) entry := by
  simp [phaseOf]

/-- Once accepted, a request is followed to the end. -/
theorem foldl_follow_some (ref : StreamRef) (r : NewRequest κ) (p : RequestPhase)
    (entries : List (TrackerEntry κ)) :
    entries.foldl (follow ref) (some (r, p)) =
      some (r, entries.foldl (RequestPhase.next r.seqId) p) := by
  induction entries generalizing p with
  | nil => rfl
  | cons entry entries ih => rw [List.foldl_cons, List.foldl_cons, follow, ih]

/-- The streams of all requests handed to the engine. -/
def handedStreams (log : List (TrackerEntry κ)) : List StreamRef :=
  log.flatMap fun
    | .drained handed _ => handed.map (·.stream)
    | _ => []

/-! ### Phases from the log -/

theorem phase_of_no_drain {id : SeqId} {entries : List (TrackerEntry κ)}
    (hdrain : ∀ handed registered, .drained handed registered ∉ entries) :
    (.aborted id ∉ entries → entries.foldl (RequestPhase.next id) .queued = .queued) ∧
      (.aborted id ∈ entries → entries.foldl (RequestPhase.next id) .queued = .cancelled) ∧
      entries.foldl (RequestPhase.next id) .cancelled = .cancelled := by
  induction entries with
  | nil => simp
  | cons entry entries ih =>
    have htail := ih fun handed registered hmem =>
      hdrain handed registered (List.mem_cons_of_mem _ hmem)
    cases entry with
    | drained handed registered => exact absurd List.mem_cons_self (hdrain handed registered)
    | accepted | rejected => simpa [RequestPhase.next] using htail
    | aborted id' =>
      by_cases hid : id' = id
      · subst hid
        simpa [RequestPhase.next, RequestPhase.abort] using htail.2.2
      · have hne : ¬ id = id' := fun heq => hid heq.symm
        simpa [RequestPhase.next, hid, hne] using htail

theorem phase_of_handed (id : SeqId) (entries : List (TrackerEntry κ)) {p : RequestPhase}
    (hp : p.wasHanded = true) :
    (entries.foldl (RequestPhase.next id) p).wasHanded = true := by
  induction entries generalizing p with
  | nil => exact hp
  | cons entry entries ih =>
    refine ih ?_
    cases entry with
    | accepted | rejected => exact hp
    | aborted id' =>
      rw [RequestPhase.next]
      split_ifs
      · rw [RequestPhase.wasHanded_abort, hp]
      · exact hp
    | drained =>
      cases p with
      | active | ended => rfl
      | queued | cancelled | dropped => cases hp

theorem phase_of_dropped (id : SeqId) (entries : List (TrackerEntry κ)) :
    entries.foldl (RequestPhase.next id) .dropped = .dropped := by
  induction entries with
  | nil => rfl
  | cons entry entries ih =>
    cases entry with
    | accepted | rejected | drained => exact ih
    | aborted id' => simpa [RequestPhase.next, RequestPhase.abort] using ih

theorem phase_of_no_abort {id : SeqId} {entries : List (TrackerEntry κ)}
    (habort : .aborted id ∉ entries) {p : RequestPhase} (hp : p = .queued ∨ p = .active) :
    entries.foldl (RequestPhase.next id) p = .queued ∨
      entries.foldl (RequestPhase.next id) p = .active := by
  induction entries generalizing p with
  | nil => exact hp
  | cons entry entries ih =>
    rw [List.mem_cons, not_or] at habort
    refine ih habort.2 ?_
    cases entry with
    | accepted | rejected => exact hp
    | drained => rcases hp with rfl | rfl <;> exact .inr rfl
    | aborted id' =>
      have hne : id' ≠ id := fun heq => habort.1 (congrArg TrackerEntry.aborted heq.symm)
      simpa [RequestPhase.next, hne] using hp

/-! ## The log -/

/-- What the log of a run alone says. -/
structure LogInv (log : List (TrackerEntry κ)) : Prop where
  handed : ∀ ref, (handedStreams log).count ref =
    (phaseOf ref log).elim 0 fun q => if q.2.wasHanded then 1 else 0
  /-- A stream is accepted once. -/
  accepts : ∀ before r after, log = before ++ .accepted r :: after → phaseOf r.stream before = none
  /-- A queued request is handed over and registered when the queues are drained. -/
  drains : ∀ before handed registered after, log = before ++ .drained handed registered :: after →
    ∀ ref r, phaseOf ref before = some (r, .queued) →
      r ∈ handed ∧ registered.lookup r.seqId = some ref

/-- Splitting a log that has got one more entry. -/
theorem snoc_eq_append_cons {l before after : List (TrackerEntry κ)} {a b : TrackerEntry κ}
    (h : l ++ [a] = before ++ b :: after) :
    (l = before ∧ a = b) ∨ ∃ after', l = before ++ b :: after' := by
  rcases List.eq_nil_or_concat after with rfl | ⟨after', c, rfl⟩
  · obtain ⟨rfl, hlast⟩ := List.append_inj' h rfl
    cases hlast
    exact .inl ⟨rfl, rfl⟩
  · rw [List.concat_eq_append, ← List.cons_append, ← List.append_assoc] at h
    obtain ⟨rfl, -⟩ := List.append_inj' h rfl
    exact .inr ⟨after', rfl⟩

theorem handedStreams_snoc (log : List (TrackerEntry κ)) (entry : TrackerEntry κ) :
    handedStreams (log ++ [entry]) = handedStreams log ++ handedStreams [entry] := by
  simp [handedStreams]

theorem LogInv.nil : LogInv ([] : List (TrackerEntry κ)) where
  handed _ := rfl
  accepts := by simp
  drains := by simp

/-- One more entry: the clauses about splits of the log concern the last entry only. -/
theorem LogInv.snoc (h : LogInv log) {entry : TrackerEntry κ}
    (hhanded : ∀ ref, (handedStreams (log ++ [entry])).count ref =
      (phaseOf ref (log ++ [entry])).elim 0 fun q => if q.2.wasHanded then 1 else 0)
    (haccepts : ∀ r, entry = .accepted r → phaseOf r.stream log = none)
    (hdrains : ∀ handed registered, entry = .drained handed registered →
      ∀ ref r, phaseOf ref log = some (r, .queued) →
        r ∈ handed ∧ registered.lookup r.seqId = some ref) :
    LogInv (log ++ [entry]) where
  handed := hhanded
  accepts before r after hsplit := by
    rcases snoc_eq_append_cons hsplit with ⟨rfl, hentry⟩ | ⟨after', hold⟩
    · exact haccepts r hentry
    · exact h.accepts before r after' hold
  drains before handed registered after hsplit := by
    rcases snoc_eq_append_cons hsplit with ⟨rfl, hentry⟩ | ⟨after', hold⟩
    · exact hdrains handed registered hentry
    · exact h.drains before handed registered after' hold

/-- An entry that hands over nothing, and moves no request across the hand-over. -/
theorem LogInv.count_snoc (h : LogInv log) {entry : TrackerEntry κ} {ref : StreamRef}
    (hnone : handedStreams [entry] = [])
    (hsame : (phaseOf ref (log ++ [entry])).elim 0 (fun q => if q.2.wasHanded then 1 else 0) =
      (phaseOf ref log).elim 0 fun q => if q.2.wasHanded then 1 else 0) :
    (handedStreams (log ++ [entry])).count ref =
      (phaseOf ref (log ++ [entry])).elim 0 fun q => if q.2.wasHanded then 1 else 0 := by
  rw [handedStreams_snoc, hnone, List.append_nil, h.handed ref, hsame]

theorem LogInv.rejected (h : LogInv log) (id : SeqId) : LogInv (log ++ [.rejected id]) := by
  refine h.snoc (fun ref => h.count_snoc rfl ?_) (by simp) (by simp)
  rw [phaseOf_snoc]
  cases phaseOf ref log <;> rfl

theorem LogInv.aborted (h : LogInv log) (id : SeqId) : LogInv (log ++ [.aborted id]) := by
  refine h.snoc (fun ref => h.count_snoc rfl ?_) (by simp) (by simp)
  rw [phaseOf_snoc]
  cases phaseOf ref log with
  | none => rfl
  | some q =>
    -- an abort leaves the request on its side of the hand-over
    simp only [follow, RequestPhase.next, Option.elim_some]
    split_ifs <;> simp_all [RequestPhase.wasHanded_abort]

theorem LogInv.accepted (h : LogInv log) {r : NewRequest κ} (hr : phaseOf r.stream log = none) :
    LogInv (log ++ [.accepted r]) := by
  refine h.snoc (fun ref => h.count_snoc rfl ?_) ?_ (by simp)
  · rw [phaseOf_snoc]
    cases phaseOf ref log with
    | none =>
      simp only [follow]
      split_ifs <;> rfl
    | some q => rfl
  · rintro _ ⟨⟩
    exact hr

/-- Draining hands over the queued requests, each once, and no others. -/
theorem LogInv.drained (h : LogInv log) {handed : List (NewRequest κ)}
    {registered : AList (fun _ : SeqId => StreamRef)} (hnodup : (handed.map (·.stream)).Nodup)
    (honly : ∀ r ∈ handed, phaseOf r.stream log = some (r, .queued))
    (hall : ∀ ref r, phaseOf ref log = some (r, .queued) →
      r.stream = ref ∧ r ∈ handed ∧ registered.lookup r.seqId = some ref) :
    LogInv (log ++ [.drained handed registered]) := by
  refine h.snoc (fun ref => ?_) (by simp) ?_
  · have hentry : handedStreams [.drained handed registered] = handed.map (·.stream) := by
      simp [handedStreams]
    rw [handedStreams_snoc, phaseOf_snoc, hentry, List.count_append, h.handed ref]
    -- the streams handed over now are those of the queued requests
    have hmem : ref ∈ handed.map (·.stream) ↔ ∃ r, phaseOf ref log = some (r, .queued) := by
      constructor
      · rintro hmem
        obtain ⟨r, hr, rfl⟩ := List.mem_map.mp hmem
        exact ⟨r, honly r hr⟩
      · rintro ⟨r, hr⟩
        obtain ⟨rfl, hhanded, -⟩ := hall ref r hr
        exact List.mem_map_of_mem hhanded
    cases hphase : phaseOf ref log with
    | none =>
      rw [List.count_eq_zero_of_not_mem (by simp [hmem, hphase])]
      rfl
    | some q =>
      obtain ⟨r, p⟩ := q
      cases p with
      | queued =>
        rw [List.count_eq_one_of_mem hnodup (hmem.mpr ⟨r, hphase⟩)]
        rfl
      | cancelled | active | ended | dropped =>
        rw [List.count_eq_zero_of_not_mem (by simp [hmem, hphase])]
        rfl
  · rintro _ _ ⟨⟩ ref r hr
    exact (hall ref r hr).2

/-! ## The invariant -/

/-- What the phase of a request means for the tracker. -/
def Fits (t : RequestTracker κ) (r : NewRequest κ) : RequestPhase → Prop
  | .queued => r ∈ t.newRequests ∧ r.seqId ∉ t.finishedRequests ∧ r.seqId ∉ t.requestStreams
  | .cancelled => r ∈ t.newRequests ∧ r.seqId ∈ t.finishedRequests
  | .active => t.requestStreams.lookup r.seqId = some r.stream ∧
      r.seqId ∉ t.finishedRequests ∧ (t.streams r.stream).finished = false
  | .ended | .dropped => (t.streams r.stream).finished = true ∧
      (t.requestStreams.lookup r.seqId = some r.stream → r.seqId ∈ t.finishedRequests)

/-- Invariant of a run whose added ids are fresh. -/
structure TrackerInv (t : RequestTracker κ) (log : List (TrackerEntry κ)) : Prop where
  streams : StreamsInv t
  log_inv : LogInv log
  phases : ∀ ref r p, phaseOf ref log = some (r, p) →
    r.stream = ref ∧ (t.streams ref).requestId = r.seqId ∧ Fits t r p
  known : ∀ ref, ref < t.nextStream ↔ (phaseOf ref log).isSome = true
  new_nodup : (t.newRequests.map (·.seqId)).Nodup
  new_phase : ∀ r ∈ t.newRequests, phaseOf r.stream log = some (r, .queued) ∨
    phaseOf r.stream log = some (r, .cancelled)
  registered : ∀ id ref, t.requestStreams.lookup id = some ref →
    ∃ r p, phaseOf ref log = some (r, p) ∧ r.seqId = id

/-- An id that stands in neither queue. -/
def freshId (t : RequestTracker κ) (id : SeqId) : Bool :=
  id ∉ t.finishedRequests && t.newRequests.all (·.seqId ≠ id)

/-! ## Moves keep the invariant -/

theorem TrackerInv.new : TrackerInv (RequestTracker.new : RequestTracker κ) [] where
  streams := .new
  log_inv := .nil
  phases := by simp [phaseOf]
  known := by simp [phaseOf, RequestTracker.new]
  new_nodup := List.nodup_nil
  new_phase := by simp [RequestTracker.new]
  registered := by simp [RequestTracker.new]

/-- `Fits` reads the queues, the registrations and whether the stream is finished. -/
theorem Fits.congr {r : NewRequest κ} {p : RequestPhase} (h : Fits t r p)
    (hnew : t'.newRequests = t.newRequests) (hids : t'.finishedRequests = t.finishedRequests)
    (hregistered : t'.requestStreams = t.requestStreams)
    (hfinished : (t'.streams r.stream).finished = (t.streams r.stream).finished) :
    Fits t' r p := by
  cases p <;> simpa only [Fits, hnew, hids, hregistered, hfinished] using h

theorem TrackerInv.put (h : TrackerInv t log) {id : SeqId} {ref : StreamRef} {item : StreamItem}
    (hregistered : t.requestStreams.lookup id = some ref) (hitem : item ≠ .stopAsyncIteration) :
    TrackerInv (t.modifyStream ref (.put item)) log where
  streams := h.streams.modify hregistered ((h.streams.ends ref).put hitem)
  log_inv := h.log_inv
  phases a r p hphase := by
    obtain ⟨hstream, hid, hfits⟩ := h.phases a r p hphase
    have hsame : ∀ b, ((t.modifyStream ref (.put item)).streams b).requestId =
        (t.streams b).requestId ∧ ((t.modifyStream ref (.put item)).streams b).finished =
          (t.streams b).finished := by
      intro b
      by_cases hb : b = ref
      · simp [RequestTracker.modifyStream, hb]
      · simp [RequestTracker.modifyStream, hb]
    exact ⟨hstream, (hsame a).1.trans hid, hfits.congr rfl rfl rfl (hsame r.stream).2⟩
  known := h.known
  new_nodup := h.new_nodup
  new_phase := h.new_phase
  registered := h.registered

theorem TrackerInv.reject (h : TrackerInv t log) (id : SeqId) :
    TrackerInv t (log ++ [.rejected id]) := by
  have hsame : ∀ ref, phaseOf ref (log ++ [.rejected id]) = phaseOf ref log := by
    intro ref
    rw [phaseOf_snoc]
    cases phaseOf ref log <;> rfl
  exact ⟨h.streams, h.log_inv.rejected id, by simpa only [hsame] using h.phases,
    by simpa only [hsame] using h.known, h.new_nodup, by simpa only [hsame] using h.new_phase,
    by simpa only [hsame] using h.registered⟩

/-- The phase of a request after an abort. -/
theorem phaseOf_aborted {ref : StreamRef} {id : SeqId} :
    phaseOf ref (log ++ [.aborted id]) =
      (phaseOf ref log).map fun q => (q.1, if id = q.1.seqId then q.2.abort else q.2) := by
  rw [phaseOf_snoc]
  cases phaseOf ref log <;> rfl

/-- What `abort_request` does to the streams: it finishes the one registered under the id. -/
theorem RequestTracker.abortRequest_streams (id : SeqId) (t : RequestTracker κ) (ref : StreamRef) :
    ((t.abortRequest id).streams ref).requestId = (t.streams ref).requestId ∧
      (((t.abortRequest id).streams ref).finished =
        ((t.streams ref).finished || t.requestStreams.lookup id = some ref)) := by
  unfold abortRequest
  dsimp only
  cases hlookup : t.requestStreams.lookup id with
  | none => simp
  | some a =>
    by_cases hfinished : (t.streams a).finished
    · by_cases ha : a = ref
      · subst ha
        simp [hfinished]
      · simp [hfinished, ha]
    · by_cases ha : ref = a
      · subst ha
        simp [hfinished, modifyStream]
      · simp [hfinished, modifyStream, ha, Ne.symm ha]

theorem RequestTracker.abortRequest_queues (id : SeqId) (t : RequestTracker κ) :
    (t.abortRequest id).finishedRequests = t.finishedRequests ++ [id] ∧
      (t.abortRequest id).newRequests = t.newRequests ∧
      (t.abortRequest id).nextStream = t.nextStream := by
  unfold abortRequest
  dsimp only
  split
  · exact ⟨rfl, rfl, rfl⟩
  · split_ifs <;> exact ⟨rfl, rfl, rfl⟩

/-- A stream is registered under the id of its request only. -/
theorem TrackerInv.registered_id (h : TrackerInv t log) {ref : StreamRef} {r : NewRequest κ}
    {p : RequestPhase} {id : SeqId} (hphase : phaseOf ref log = some (r, p))
    (hlookup : t.requestStreams.lookup id = some ref) : r.seqId = id := by
  obtain ⟨r', p', hphase', hid⟩ := h.registered id ref hlookup
  obtain ⟨rfl, -⟩ := Prod.ext_iff.mp (Option.some.inj (hphase.symm.trans hphase'))
  exact hid

/-- An abort moves the requests with its id to their next phase. -/
theorem TrackerInv.fits_abort (h : TrackerInv t log) {ref : StreamRef} {r : NewRequest κ}
    {p : RequestPhase} (hphase : phaseOf ref log = some (r, p)) (id : SeqId) :
    Fits (t.abortRequest id) r (if id = r.seqId then p.abort else p) := by
  obtain ⟨rfl, -, hfits⟩ := h.phases ref r p hphase
  obtain ⟨hids, hnew, -⟩ := t.abortRequest_queues id
  have hregistered := t.abortRequest_requestStreams id
  obtain ⟨-, hfinished⟩ := t.abortRequest_streams id r.stream
  by_cases hid : id = r.seqId
  · subst hid
    rw [if_pos rfl]
    cases p with
    | queued => exact ⟨hnew ▸ hfits.1, by simp [hids]⟩
    | cancelled => exact ⟨hnew ▸ hfits.1, by simp [hids]⟩
    | active => exact ⟨by simp [hfinished, hfits.1], fun _ => by simp [hids]⟩
    | ended => exact ⟨by simp [hfinished, hfits.1], fun _ => by simp [hids]⟩
    | dropped => exact ⟨by simp [hfinished, hfits.1], fun _ => by simp [hids]⟩
  · rw [if_neg hid]
    have hne : r.seqId ≠ id := fun heq => hid heq.symm
    -- the stream that the abort finishes, if any, is another one
    have hother : t.requestStreams.lookup id ≠ some r.stream := fun hlookup =>
      hne (h.registered_id hphase hlookup)
    have hsame : ((t.abortRequest id).streams r.stream).finished =
        (t.streams r.stream).finished := by simp [hfinished, hother]
    cases p with
    | queued => simpa [Fits, hnew, hids, hregistered, hne] using hfits
    | cancelled => simpa [Fits, hnew, hids, hne] using hfits
    | active => simpa [Fits, hids, hregistered, hsame, hne] using hfits
    | ended => simpa [Fits, hids, hregistered, hsame, hne] using hfits
    | dropped => simpa [Fits, hids, hregistered, hsame, hne] using hfits

theorem TrackerInv.abort (h : TrackerInv t log) (id : SeqId) :
    TrackerInv (t.abortRequest id) (log ++ [.aborted id]) := by
  obtain ⟨-, hnew, hnext⟩ := t.abortRequest_queues id
  constructor
  case streams => exact h.streams.abortRequest id
  case log_inv => exact h.log_inv.aborted id
  case phases =>
    intro ref r p hphase
    rw [phaseOf_aborted, Option.map_eq_some_iff] at hphase
    obtain ⟨⟨r', p'⟩, hphase, hpair⟩ := hphase
    cases hpair
    obtain ⟨hstream, hid, -⟩ := h.phases ref r' p' hphase
    exact ⟨hstream, (t.abortRequest_streams id ref).1.trans hid, h.fits_abort hphase id⟩
  case known =>
    intro ref
    rw [hnext, phaseOf_aborted, Option.isSome_map]
    exact h.known ref
  case new_nodup => rw [hnew]; exact h.new_nodup
  case new_phase =>
    intro r hr
    rw [hnew] at hr
    rw [phaseOf_aborted]
    rcases h.new_phase r hr with hphase | hphase <;> rw [hphase] <;>
      by_cases hid : id = r.seqId <;> simp [hid, RequestPhase.abort]
  case registered =>
    intro a ref hlookup
    rw [t.abortRequest_requestStreams] at hlookup
    obtain ⟨r, p, hphase, hid⟩ := h.registered a ref hlookup
    exact ⟨r, _, by rw [phaseOf_aborted, hphase]; rfl, hid⟩

/-! ### Accepting -/

theorem phaseOf_accepted_of_ne {ref : StreamRef} {r : NewRequest κ} (hne : r.stream ≠ ref) :
    phaseOf ref (log ++ [.accepted r]) = phaseOf ref log := by
  rw [phaseOf_snoc]
  cases phaseOf ref log with
  | none => simp [follow, hne]
  | some q => rfl

theorem phaseOf_accepted_self {ref : StreamRef} {r : NewRequest κ} (href : r.stream = ref)
    (hnone : phaseOf ref log = none) : phaseOf ref (log ++ [.accepted r]) = some (r, .queued) := by
  rw [phaseOf_snoc, hnone]
  simp [follow, href]

/-- A new request behind the others changes nothing for a request with another stream. -/
theorem Fits.accept {r : NewRequest κ} {p : RequestPhase} (hfits : Fits t r p)
    (hne : r.stream ≠ t.nextStream) (id : SeqId) (kwargs : κ) :
    Fits { t with
      streams := Function.update t.streams t.nextStream (.new id)
      nextStream := t.nextStream + 1
      newRequests := t.newRequests ++ [⟨t.nextStream, id, kwargs⟩] } r p := by
  have hfinished : (Function.update t.streams t.nextStream (.new id) r.stream).finished =
      (t.streams r.stream).finished := by rw [Function.update_of_ne hne]
  cases p with
  | queued => exact ⟨List.mem_append_left _ hfits.1, hfits.2⟩
  | cancelled => exact ⟨List.mem_append_left _ hfits.1, hfits.2⟩
  | active => exact ⟨hfits.1, hfits.2.1, hfinished.trans hfits.2.2⟩
  | ended => exact ⟨hfinished.trans hfits.1, hfits.2⟩
  | dropped => exact ⟨hfinished.trans hfits.1, hfits.2⟩

theorem TrackerInv.accept (h : TrackerInv t log) {id : SeqId} (kwargs : κ)
    (hnew : id ∉ t.requestStreams) (hfresh : freshId t id = true) :
    TrackerInv { t with
        streams := Function.update t.streams t.nextStream (.new id)
        nextStream := t.nextStream + 1
        newRequests := t.newRequests ++ [⟨t.nextStream, id, kwargs⟩] }
      (log ++ [.accepted ⟨t.nextStream, id, kwargs⟩]) := by
  simp only [freshId, Bool.and_eq_true, decide_eq_true_eq, List.all_eq_true] at hfresh
  have hnone : phaseOf t.nextStream log = none := by
    have hknown := (h.known t.nextStream).not.mp (Nat.lt_irrefl _)
    simpa using hknown
  have hself : phaseOf t.nextStream (log ++ [.accepted ⟨t.nextStream, id, kwargs⟩]) =
      some (⟨t.nextStream, id, kwargs⟩, .queued) := phaseOf_accepted_self rfl hnone
  -- the requests accepted before have other streams
  have hne : ∀ ref r p, phaseOf ref log = some (r, p) → t.nextStream ≠ ref := by
    rintro ref r p hphase rfl
    rw [hnone] at hphase
    cases hphase
  constructor
  case streams => exact h.streams.accept id kwargs
  case log_inv => exact h.log_inv.accepted hnone
  case phases =>
    intro ref r p hphase
    by_cases href : t.nextStream = ref
    · subst href
      rw [hself] at hphase
      cases hphase
      exact ⟨rfl, by simp [AsyncStream.new], by simp, hfresh.1, hnew⟩
    · rw [phaseOf_accepted_of_ne href] at hphase
      obtain ⟨rfl, hid, hfits⟩ := h.phases ref r p hphase
      have hsame : Function.update t.streams t.nextStream (.new id) r.stream =
          t.streams r.stream := Function.update_of_ne (Ne.symm href) _ _
      exact ⟨rfl, (congrArg AsyncStream.requestId hsame).trans hid,
        hfits.accept (Ne.symm href) id kwargs⟩
  case known =>
    intro ref
    by_cases href : t.nextStream = ref
    · subst href
      rw [hself]
      simp
    · rw [phaseOf_accepted_of_ne href, ← h.known ref, Nat.lt_succ_iff_lt_or_eq]
      exact or_iff_left (Ne.symm href)
  case new_nodup =>
    rw [List.map_append, List.map_singleton]
    refine List.nodup_append.mpr ⟨h.new_nodup, List.nodup_singleton _, ?_⟩
    intro a ha b hb
    obtain ⟨r, hr, rfl⟩ := List.mem_map.mp ha
    obtain rfl := List.mem_singleton.mp hb
    exact hfresh.2 r hr
  case new_phase =>
    intro r hr
    rcases List.mem_append.mp hr with hr | hr
    · rw [phaseOf_accepted_of_ne (h.streams.new_lt r hr).ne']
      exact h.new_phase r hr
    · obtain rfl := List.mem_singleton.mp hr
      exact .inl hself
  case registered =>
    intro a ref hlookup
    obtain ⟨r, p, hphase, hid⟩ := h.registered a ref hlookup
    exact ⟨r, p, by rw [phaseOf_accepted_of_ne (hne ref r p hphase)]; exact hphase, hid⟩

/-! ### Draining -/

theorem phaseOf_drained {ref : StreamRef} {handed : List (NewRequest κ)}
    {registered : AList (fun _ : SeqId => StreamRef)} :
    phaseOf ref (log ++ [.drained handed registered]) =
      (phaseOf ref log).map fun q => (q.1, q.2.drain) := by
  rw [phaseOf_snoc]
  cases phaseOf ref log <;> rfl

section Drain

variable (h : TrackerInv t log)

include h

/-- The tracker after draining. -/
theorem TrackerInv.drain_eq :
    t.getNewAndFinishedRequests =
      (t.newRequests.filter (·.seqId ∉ t.finishedRequests), t.finishedRequests.toFinset,
        { t with
          streams := closeAll (t.newRequests.filter (·.seqId ∈ t.finishedRequests)) t.streams
          requestStreams := registerAll (t.newRequests.filter (·.seqId ∉ t.finishedRequests))
            (forgetAll t.finishedRequests t.requestStreams)
          finishedRequests := []
          newRequests := [] }) :=
  t.getNewAndFinishedRequests_eq h.streams.new_id

/-- Draining finishes the streams of the cancelled requests only. -/
theorem TrackerInv.drain_finished (ref : StreamRef) :
    (t.getNewAndFinishedRequests.2.2.streams ref).finished =
      ((t.streams ref).finished || (phaseOf ref log).any fun q => q.2 = .cancelled) := by
  have hsub : List.Sublist
      ((t.newRequests.filter (·.seqId ∈ t.finishedRequests)).map (·.stream))
      (t.newRequests.map (·.stream)) := List.filter_sublist.map _
  rw [h.drain_eq]
  dsimp only
  rw [closeAll_apply ref (h.streams.new_nodup.sublist hsub)]
  split_ifs with href
  · obtain ⟨r, hr, rfl⟩ := List.mem_map.mp href
    obtain ⟨hnew, hid⟩ := List.mem_filter.mp hr
    rcases h.new_phase r hnew with hphase | hphase
    · exact absurd (of_decide_eq_true hid) (h.phases _ _ _ hphase).2.2.2.1
    · simp [hphase]
  · cases hphase : phaseOf ref log with
    | none => simp
    | some q =>
      obtain ⟨r, p⟩ := q
      obtain ⟨rfl, -, hfits⟩ := h.phases ref r p hphase
      cases p with
      | queued | active | ended | dropped => simp
      | cancelled =>
        refine absurd (List.mem_map_of_mem (List.mem_filter.mpr ⟨hfits.1, ?_⟩)) href
        simpa using hfits.2

/-- A queued request is registered. -/
theorem TrackerInv.drain_lookup_queued {ref : StreamRef} {r : NewRequest κ}
    (hphase : phaseOf ref log = some (r, .queued)) :
    r ∈ t.getNewAndFinishedRequests.1 ∧
      t.getNewAndFinishedRequests.2.2.requestStreams.lookup r.seqId = some r.stream := by
  obtain ⟨-, -, hnew, hid, -⟩ := h.phases ref r _ hphase
  have hmem : r ∈ t.newRequests.filter (·.seqId ∉ t.finishedRequests) :=
    List.mem_filter.mpr ⟨hnew, by simpa using hid⟩
  rw [h.drain_eq]
  refine ⟨hmem, registerAll_lookup_of_mem ?_ hmem⟩
  exact h.new_nodup.sublist (List.filter_sublist.map _)

/-- An active request stays registered. -/
theorem TrackerInv.drain_lookup_active {ref : StreamRef} {r : NewRequest κ}
    (hphase : phaseOf ref log = some (r, .active)) :
    t.getNewAndFinishedRequests.2.2.requestStreams.lookup r.seqId = some r.stream := by
  obtain ⟨-, -, hlookup, hid, -⟩ := h.phases ref r _ hphase
  rw [h.drain_eq]
  dsimp only
  rw [registerAll_lookup_of_notMem, forgetAll_lookup, if_neg hid]
  · exact hlookup
  · -- no new request has its id
    intro hmem
    obtain ⟨r', hr', hsame⟩ := List.mem_map.mp hmem
    obtain ⟨hnew, hnot⟩ := List.mem_filter.mp hr'
    rcases h.new_phase r' hnew with hphase' | hphase'
    · have hunregistered := (h.phases _ _ _ hphase').2.2.2.2
      rw [hsame, ← AList.lookup_eq_none, hlookup] at hunregistered
      cases hunregistered
    · exact absurd (h.phases _ _ _ hphase').2.2.2 (of_decide_eq_true hnot)

/-- Registered after draining are the queued and the active requests. -/
theorem TrackerInv.drain_lookup_cases {id : SeqId} {ref : StreamRef}
    (hlookup : t.getNewAndFinishedRequests.2.2.requestStreams.lookup id = some ref) :
    ∃ r, r.seqId = id ∧
      (phaseOf ref log = some (r, .queued) ∨ phaseOf ref log = some (r, .active)) := by
  rw [h.drain_eq] at hlookup
  rcases registerAll_lookup_cases hlookup with ⟨r, hr, rfl, rfl⟩ | hold
  · obtain ⟨hnew, hnot⟩ := List.mem_filter.mp hr
    refine ⟨r, rfl, .inl ((h.new_phase r hnew).resolve_right fun hphase => ?_)⟩
    exact absurd (h.phases _ _ _ hphase).2.2.2 (of_decide_eq_true hnot)
  · rw [forgetAll_lookup] at hold
    split_ifs at hold with hid
    obtain ⟨r, p, hphase, rfl⟩ := h.registered id ref hold
    obtain ⟨rfl, -, hfits⟩ := h.phases ref r p hphase
    refine ⟨r, rfl, ?_⟩
    cases p with
    | queued => exact .inl hphase
    | active => exact .inr hphase
    | cancelled => exact absurd hfits.2 hid
    | ended => exact absurd (hfits.2 hold) hid
    | dropped => exact absurd (hfits.2 hold) hid

theorem TrackerInv.fits_drain {ref : StreamRef} {r : NewRequest κ} {p : RequestPhase}
    (hphase : phaseOf ref log = some (r, p)) :
    Fits t.getNewAndFinishedRequests.2.2 r p.drain := by
  obtain ⟨rfl, -, hfits⟩ := h.phases ref r p hphase
  have hfinished := h.drain_finished r.stream
  rw [hphase] at hfinished
  have hempty : t.getNewAndFinishedRequests.2.2.finishedRequests = [] := by rw [h.drain_eq]
  -- a request that is neither queued nor active is not registered any more
  have hgone : p ≠ .queued → p ≠ .active →
      t.getNewAndFinishedRequests.2.2.requestStreams.lookup r.seqId ≠ some r.stream := by
    intro hqueued hactive hlookup
    obtain ⟨r', -, hphase' | hphase'⟩ := h.drain_lookup_cases hlookup <;>
      rw [hphase] at hphase' <;> cases hphase'
    · exact hqueued rfl
    · exact hactive rfl
  cases p with
  | queued =>
    refine ⟨(h.drain_lookup_queued hphase).2, by simp [hempty], ?_⟩
    simp [hfinished, h.streams.new_open r hfits.1]
  | cancelled =>
    exact ⟨by simp [hfinished], fun hlookup => absurd hlookup (hgone (by simp) (by simp))⟩
  | active =>
    refine ⟨h.drain_lookup_active hphase, by simp [hempty], ?_⟩
    simp [hfinished, hfits.2.2]
  | ended =>
    exact ⟨by simp [hfinished, hfits.1],
      fun hlookup => absurd hlookup (hgone (by simp) (by simp))⟩
  | dropped =>
    exact ⟨by simp [hfinished, hfits.1],
      fun hlookup => absurd hlookup (hgone (by simp) (by simp))⟩

theorem TrackerInv.drain :
    TrackerInv t.getNewAndFinishedRequests.2.2
      (log ++ [.drained t.getNewAndFinishedRequests.1
        t.getNewAndFinishedRequests.2.2.requestStreams]) := by
  have hhanded : t.getNewAndFinishedRequests.1 =
      t.newRequests.filter (·.seqId ∉ t.finishedRequests) := by rw [h.drain_eq]
  have hnone : t.getNewAndFinishedRequests.2.2.newRequests = [] := by rw [h.drain_eq]
  constructor
  case streams => exact h.streams.drain
  case log_inv =>
    refine h.log_inv.drained ?_ ?_ ?_
    · rw [hhanded]
      exact h.streams.new_nodup.sublist (List.filter_sublist.map _)
    · intro r hr
      rw [hhanded] at hr
      obtain ⟨hnew, hnot⟩ := List.mem_filter.mp hr
      refine (h.new_phase r hnew).resolve_right fun hphase => ?_
      exact absurd (h.phases _ _ _ hphase).2.2.2 (of_decide_eq_true hnot)
    · intro ref r hphase
      obtain ⟨rfl, -⟩ := h.phases ref r _ hphase
      exact ⟨rfl, h.drain_lookup_queued hphase⟩
  case phases =>
    intro ref r p hphase
    rw [phaseOf_drained, Option.map_eq_some_iff] at hphase
    obtain ⟨⟨r', p'⟩, hphase, hpair⟩ := hphase
    cases hpair
    obtain ⟨hstream, hid, -⟩ := h.phases ref r' p' hphase
    refine ⟨hstream, ?_, h.fits_drain hphase⟩
    rw [h.drain_eq]
    exact (closeAll_requestId _ _ ref).trans hid
  case known =>
    intro ref
    rw [phaseOf_drained, Option.isSome_map, ← h.known ref, h.drain_eq]
  case new_nodup => rw [hnone]; exact List.nodup_nil
  case new_phase => rw [hnone]; simp
  case registered =>
    intro id ref hlookup
    obtain ⟨r, hid, hphase | hphase⟩ := h.drain_lookup_cases hlookup <;>
      exact ⟨r, _, by rw [phaseOf_drained, hphase]; rfl, hid⟩

end Drain

theorem TrackerInv.move {entries : List (TrackerEntry κ)} (h : TrackerInv t log)
    (hmove : TrackerMove (fun t id => freshId t id = true) t entries t') :
    TrackerInv t' (log ++ entries) := by
  cases hmove with
  | put item hregistered hitem =>
    rw [List.append_nil]
    exact h.put hregistered hitem
  | abort id => exact h.abort id
  | reject id => exact h.reject id
  | accept kwargs hnew hfresh => exact h.accept kwargs hnew hfresh
  | drain => exact h.drain

theorem TrackerRun.trackerInv (h : TrackerRun (fun t id => freshId t id = true) t log) :
    TrackerInv t log :=
  h.invariant TrackerInv .new fun _ _ _ _ hinv hmove => hinv.move hmove

/-! ## The protocol -/

/-- An accepted request that has not finished. -/
structure Unfinished (t : RequestTracker κ) (ref : StreamRef) (id : SeqId) : Prop where
  accepted : ref < t.nextStream
  requestId : (t.streams ref).requestId = id
  unfinished : (t.streams ref).finished = false

/-- What a client and the engine may rely on. -/
structure TrackerProtocol (t : RequestTracker κ) (log : List (TrackerEntry κ)) : Prop where
  /-- A request that is not aborted between its acceptance and the next draining is handed over
      by that draining, and by no other, and its stream is registered under its id. -/
  handed_once : ∀ before r between handed registered after,
    log = before ++ .accepted r :: (between ++ .drained handed registered :: after) →
    (∀ handed registered, .drained handed registered ∉ between) → .aborted r.seqId ∉ between →
    r ∈ handed ∧ registered.lookup r.seqId = some r.stream ∧ (handedStreams log).count r.stream = 1
  /-- One that is aborted in between is not handed over. -/
  handed_never : ∀ before r between handed registered after,
    log = before ++ .accepted r :: (between ++ .drained handed registered :: after) →
    (∀ handed registered, .drained handed registered ∉ between) → .aborted r.seqId ∈ between →
    r.stream ∉ handedStreams log
  /-- No two accepted, unfinished requests share an id. -/
  unique : ∀ ref ref' id, Unfinished t ref id → Unfinished t ref' id → ref = ref'
  /-- A duplicate raises. -/
  duplicate : ∀ ref id kwargs, Unfinished t ref id → freshId t id = true →
    t.addRequest id kwargs = .error (.alreadyExists id)
  /-- Only an abort behind its acceptance finishes a request. -/
  aborts : ∀ before r after, log = before ++ .accepted r :: after →
    (t.streams r.stream).finished = true → .aborted r.seqId ∈ after
  /-- A `StopAsyncIteration` is the last item of its stream. -/
  ends : ∀ ref before after,
    (t.streams ref).queue = before ++ .stopAsyncIteration :: after → after = []

section Protocol

variable (h : TrackerInv t log)

include h

/-- An unfinished request is queued, cancelled or active. -/
theorem TrackerInv.unfinished_cases {ref : StreamRef} {id : SeqId} (hopen : Unfinished t ref id) :
    ∃ r, r.seqId = id ∧ r.stream = ref ∧
      (r ∈ t.newRequests ∧ (r.seqId ∈ t.finishedRequests ∨ r.seqId ∉ t.requestStreams) ∨
        t.requestStreams.lookup id = some ref ∧ id ∉ t.finishedRequests) := by
  obtain ⟨⟨r, p⟩, hphase⟩ := Option.isSome_iff_exists.mp ((h.known ref).mp hopen.accepted)
  obtain ⟨rfl, hid, hfits⟩ := h.phases ref r p hphase
  obtain rfl : r.seqId = id := hid.symm.trans hopen.requestId
  refine ⟨r, rfl, rfl, ?_⟩
  cases p with
  | queued => exact .inl ⟨hfits.1, .inr hfits.2.2⟩
  | cancelled => exact .inl ⟨hfits.1, .inl hfits.2⟩
  | active => exact .inr ⟨hfits.1, hfits.2.1⟩
  | ended | dropped =>
    have hfinished := hfits.1
    rw [hopen.unfinished] at hfinished
    cases hfinished

theorem TrackerInv.unique {ref ref' : StreamRef} {id : SeqId} (hopen : Unfinished t ref id)
    (hopen' : Unfinished t ref' id) : ref = ref' := by
  obtain ⟨r, rfl, rfl, ⟨hnew, hqueue⟩ | ⟨hlookup, hnot⟩⟩ := h.unfinished_cases hopen <;>
    obtain ⟨r', hid, rfl, ⟨hnew', hqueue'⟩ | ⟨hlookup', hnot'⟩⟩ := h.unfinished_cases hopen'
  · rw [List.inj_on_of_nodup_map h.new_nodup hnew' hnew hid]
  · -- the first is new, the second registered
    rcases hqueue with hfinished | hunregistered
    · exact absurd hfinished hnot'
    · rw [← AList.lookup_eq_none, hlookup'] at hunregistered
      cases hunregistered
  · rw [hid] at hqueue'
    rcases hqueue' with hfinished | hunregistered
    · exact absurd hfinished hnot
    · rw [← AList.lookup_eq_none, hlookup] at hunregistered
      cases hunregistered
  · exact Option.some.inj (hlookup.symm.trans hlookup')

theorem TrackerInv.duplicate {ref : StreamRef} {id : SeqId} (kwargs : κ)
    (hopen : Unfinished t ref id) (hfresh : freshId t id = true) :
    t.addRequest id kwargs = .error (.alreadyExists id) := by
  simp only [freshId, Bool.and_eq_true, decide_eq_true_eq, List.all_eq_true] at hfresh
  obtain ⟨r, hid, -, ⟨hnew, -⟩ | ⟨hlookup, -⟩⟩ := h.unfinished_cases hopen
  · exact absurd hid (hfresh.2 r hnew)
  · have hmem : id ∈ t.requestStreams := by
      rw [← AList.lookup_isSome, hlookup, Option.isSome_some]
    rw [RequestTracker.addRequest, if_pos hmem]

/-- The phase of a request from its acceptance on. -/
theorem TrackerInv.phaseOf_split {before after : List (TrackerEntry κ)} {r : NewRequest κ}
    (hlog : log = before ++ .accepted r :: after) :
    phaseOf r.stream (before ++ [.accepted r]) = some (r, .queued) ∧
      phaseOf r.stream log = some (r, after.foldl (RequestPhase.next r.seqId) .queued) := by
  have hself := phaseOf_accepted_self rfl (h.log_inv.accepts before r after hlog)
  refine ⟨hself, ?_⟩
  rw [hlog, List.append_cons, phaseOf, List.foldl_append, ← phaseOf, hself, foldl_follow_some]

/-- The phase of a request when the queues are drained next. -/
theorem TrackerInv.handed_once {before between after : List (TrackerEntry κ)} {r : NewRequest κ}
    {handed : List (NewRequest κ)} {registered : AList (fun _ : SeqId => StreamRef)}
    (hlog : log = before ++ .accepted r :: (between ++ .drained handed registered :: after))
    (hdrain : ∀ handed registered, .drained handed registered ∉ between)
    (habort : .aborted r.seqId ∉ between) :
    r ∈ handed ∧ registered.lookup r.seqId = some r.stream ∧
      (handedStreams log).count r.stream = 1 := by
  obtain ⟨hself, hend⟩ := h.phaseOf_split hlog
  have hqueued := (phase_of_no_drain hdrain).1 habort
  -- queued when the queues are drained
  have hbefore : phaseOf r.stream (before ++ .accepted r :: between) = some (r, .queued) := by
    rw [List.append_cons, phaseOf, List.foldl_append, ← phaseOf, hself, foldl_follow_some, hqueued]
  have hsplit :
      log = (before ++ .accepted r :: between) ++ .drained handed registered :: after := by
    rw [hlog, List.append_assoc, List.cons_append]
  obtain ⟨hhanded, hlookup⟩ := h.log_inv.drains _ _ _ _ hsplit _ _ hbefore
  refine ⟨hhanded, hlookup, ?_⟩
  rw [h.log_inv.handed, hend, List.foldl_append, List.foldl_cons, hqueued]
  have hactive : (RequestPhase.active).wasHanded = true := rfl
  simp only [Option.elim_some]
  exact if_pos (phase_of_handed r.seqId after hactive)

theorem TrackerInv.handed_never {before between after : List (TrackerEntry κ)} {r : NewRequest κ}
    {handed : List (NewRequest κ)} {registered : AList (fun _ : SeqId => StreamRef)}
    (hlog : log = before ++ .accepted r :: (between ++ .drained handed registered :: after))
    (hdrain : ∀ handed registered, .drained handed registered ∉ between)
    (habort : .aborted r.seqId ∈ between) : r.stream ∉ handedStreams log := by
  obtain ⟨-, hend⟩ := h.phaseOf_split hlog
  have hcancelled := (phase_of_no_drain hdrain).2.1 habort
  have hdropped : (after.foldl (RequestPhase.next r.seqId) .dropped).wasHanded = false := by
    rw [phase_of_dropped]
    rfl
  rw [← List.count_eq_zero, h.log_inv.handed, hend, List.foldl_append, List.foldl_cons, hcancelled]
  simp only [Option.elim_some]
  exact if_neg (by simpa [RequestPhase.next, RequestPhase.drain] using hdropped)

theorem TrackerInv.aborts {before after : List (TrackerEntry κ)} {r : NewRequest κ}
    (hlog : log = before ++ .accepted r :: after)
    (hfinished : (t.streams r.stream).finished = true) : .aborted r.seqId ∈ after := by
  by_contra habort
  obtain ⟨-, hend⟩ := h.phaseOf_split hlog
  -- without an abort the request is still queued or active, and its stream open
  have hopen : (t.streams r.stream).finished = false := by
    rcases phase_of_no_abort habort (.inl rfl) with hqueued | hactive
    · rw [hqueued] at hend
      exact h.streams.new_open r (h.phases _ _ _ hend).2.2.1
    · rw [hactive] at hend
      exact (h.phases _ _ _ hend).2.2.2.2
  rw [hopen] at hfinished
  cases hfinished

end Protocol

/-- **The tracker keeps its protocol in every run that adds only ids standing in neither of its
    queues**, whatever else is called in whatever order. -/
theorem trackerProtocol_of_freshId (h : TrackerRun (fun t id => freshId t id = true) t log) :
    TrackerProtocol t log := by
  have hinv := h.trackerInv
  constructor
  case handed_once =>
    exact fun _ _ _ _ _ _ hlog hdrain habort => hinv.handed_once hlog hdrain habort
  case handed_never =>
    exact fun _ _ _ _ _ _ hlog hdrain habort => hinv.handed_never hlog hdrain habort
  case unique => exact fun _ _ _ hopen hopen' => hinv.unique hopen hopen'
  case duplicate => exact fun _ _ kwargs hopen hfresh => hinv.duplicate kwargs hopen hfresh
  case aborts => exact fun _ _ _ hlog hfinished => hinv.aborts hlog hfinished
  case ends => exact fun ref before after hqueue => (hinv.streams.ends ref).last before after hqueue

/-! ### Three runs -/

/-- Execute calls one after another. -/
def runCalls (events : List (TrackerEvent κ)) (p : RequestTracker κ × List (TrackerEntry κ)) :
    RequestTracker κ × List (TrackerEntry κ) :=
  events.foldl (fun p event => ((p.1.exec event).1, p.2 ++ (p.1.exec event).2)) p

/-- A call that adds no id standing in a queue. -/
def freshCall (t : RequestTracker κ) : TrackerEvent κ → Bool
  | .addRequest id _ => id ∈ t.requestStreams || freshId t id
  | _ => true

/-- Whether all calls are such. -/
def checkFresh : List (TrackerEvent κ) → RequestTracker κ → Bool
  | [], _ => true
  | event :: events, t => freshCall t event && checkFresh events (t.exec event).1

theorem TrackerRun.runCalls_any {p : RequestTracker κ × List (TrackerEntry κ)}
    (h : TrackerRun (fun _ _ => True) p.1 p.2) (events : List (TrackerEvent κ)) :
    TrackerRun (fun _ _ => True) (runCalls events p).1 (runCalls events p).2 := by
  induction events generalizing p with
  | nil => exact h
  | cons event events ih => exact ih (h.call event fun _ _ _ _ => trivial)

theorem TrackerRun.runCalls_fresh {events : List (TrackerEvent κ)}
    {p : RequestTracker κ × List (TrackerEntry κ)}
    (h : TrackerRun (fun t id => freshId t id = true) p.1 p.2)
    (hcheck : checkFresh events p.1 = true) :
    TrackerRun (fun t id => freshId t id = true) (runCalls events p).1 (runCalls events p).2 := by
  induction events generalizing p with
  | nil => exact h
  | cons event events ih =>
    rw [checkFresh, Bool.and_eq_true] at hcheck
    refine ih (h.call event ?_) hcheck.2
    rintro id kwargs rfl hnew
    have hfresh := hcheck.1
    rwa [freshCall, decide_eq_false hnew, Bool.false_or] at hfresh

/-- An id is used, finished by its last output and, after the queues have been drained, used
    again. -/
def reusingRun : List (TrackerEvent Unit) :=
  [.addRequest 0 (), .getNewAndFinishedRequests,
    .processRequestOutput ⟨0, [], [1], [], [2], true, some "stop"⟩, .getNewAndFinishedRequests,
    .addRequest 0 (), .getNewAndFinishedRequests]

theorem reusingRun_protocol :
    checkFresh reusingRun .new = true ∧
      TrackerProtocol (runCalls reusingRun (.new, [])).1 (runCalls reusingRun (.new, [])).2 := by
  have hcheck : checkFresh reusingRun .new = true := by decide +kernel
  exact ⟨hcheck, trackerProtocol_of_freshId (TrackerRun.new.runCalls_fresh hcheck)⟩

/-- An id that is added twice before the queues are drained, and one that is aborted before it
    is added. -/
theorem tracker_breaks_protocol :
    (∃ t log, TrackerRun (fun _ _ => True) t log ∧
      log = ([.accepted ⟨0, 7, ()⟩, .accepted ⟨1, 7, ()⟩] : List (TrackerEntry Unit)) ∧
      Unfinished t 0 7 ∧ Unfinished t 1 7) ∧
    ∃ t log, TrackerRun (fun _ _ => True) t log ∧
      log = ([.aborted 7, .accepted ⟨0, 7, ()⟩, .drained [] ∅] : List (TrackerEntry Unit)) ∧
      (t.streams 0).finished = true := by
  have hrun : ∀ events : List (TrackerEvent Unit), TrackerRun (fun _ _ => True)
      (runCalls events (.new, [])).1 (runCalls events (.new, [])).2 := fun events =>
    TrackerRun.runCalls_any .new events
  constructor
  · refine ⟨_, _, hrun [.addRequest 7 (), .addRequest 7 ()], rfl, ?_, ?_⟩
    · exact ⟨by decide, rfl, rfl⟩
    · exact ⟨by decide, rfl, rfl⟩
  · exact ⟨_, _, hrun [.abortRequest 7, .addRequest 7 (), .getNewAndFinishedRequests], rfl, rfl⟩

end VAttention.Serving
