import VAttention.Scheduler.Admission
import VAttention.Scheduler.Runs

/-!
# The token budget of a fixed chunk size

Sarathi gives a prompt the tokens of a chunk that the batch has not used yet.  The decodes come
first and are not limited, and the difference is not cut off at zero.  So the budget holds if the
decodes alone keep it, and each loop then keeps it.  Without pipelining they do, since Sarathi
never runs more sequences than a chunk has tokens.

## Layers

- **Layer A**: the number of running sequences.
- **Layer B**: the decodes of a batch.
- **Layer C**: the prompts of a batch, and the bounds.
-/

namespace VAttention.Scheduler

open VAttention.Core VAttention.Lib Relation

variable {β : Type} [BlockSpaceManager β] {cfg : SchedulerConfig} {now : Time}
  {σ σ' : LoopState β} {objs : Heap} {s : SchedulerState β} {chunkSize : Int}

/-! ## Layer A: the number of running sequences

With a fixed chunk size, Sarathi admits a sequence only while the batch has fewer tokens than a
chunk, so it never runs more sequences than a chunk has tokens. -/

/-- Unless a prompt is in the batch, it is full or has one token of each running sequence. -/
def FullOrDecodes (chunkSize : Int) (σ : LoopState β) : Prop :=
  σ.batchContainsPrefill = false →
    σ.numBatchedTokens = chunkSize ∨ σ.numBatchedTokens = σ.running.length

/-- The decode loop schedules every sequence that it keeps. -/
theorem decodeStep_batched
    (h : decodeStep .setAside σ = .ok (some σ'))
    (hσ : (∀ id ∈ σ.pending, (σ.objs id).isPaused = true) ∧
      σ.numBatchedTokens = σ.running.length) :
    (∀ id ∈ σ'.pending, (σ'.objs id).isPaused = true) ∧
      σ'.numBatchedTokens = σ'.running.length := by
  obtain ⟨hpaused, hcount⟩ := hσ
  unfold decodeStep at h
  split at h
  · cases h
  rename_i id rest hpending
  rw [hpending, List.forall_mem_cons] at hpaused
  dsimp only at h
  split_ifs at h with hnot hprompt hcan
  · simp [hpaused.1] at hnot
  · cases h
    exact ⟨hpaused.2, hcount⟩
  · obtain ⟨bm, -, h⟩ := seq_eq_ok.mp h
    cases h
    exact ⟨hpaused.2, by simp [hcount]⟩
  · obtain ⟨τ, hpreempt, h⟩ := seq_eq_ok.mp h
    obtain ⟨-, rfl⟩ := preempt_eq_ok hpreempt
    cases h
    -- an eviction changes neither number
    refine ⟨fun k hk => ?_, hcount⟩
    rcases List.mem_cons.mp (List.dropLast_subset _ hk) with rfl | hk
    · exact hpaused.1
    · exact hpaused.2 k hk

/-- A running prompt is passed over only if the batch is full. -/
theorem sarathiPrefillStep_fullOrDecodes (cfg : SchedulerConfig) (now : Time)
    (hopen : ∀ id ∈ s.running, (objs id).promptProcessingFinished = false →
      0 < remainingPrompt (objs id))
    (h : sarathiPrefillStep (.fixed chunkSize) σ = .ok (some σ'))
    (hσ : VisitInv objs s.waiting s.running σ ∧ FullOrDecodes chunkSize σ) :
    VisitInv objs s.waiting s.running σ' ∧ FullOrDecodes chunkSize σ' := by
  obtain ⟨hvisit, hfull⟩ := hσ
  have hstep : SchedStep cfg now .prefilling σ σ' := sarathiPrefillStep_sound h
  refine ⟨hstep.visitInv rfl hvisit, ?_⟩
  unfold sarathiPrefillStep at h
  split at h
  · cases h
  rename_i id rest hpending
  obtain ⟨⟨⟩, hprompt, h⟩ := seq_eq_ok.mp h
  obtain ⟨next, hnext, h⟩ := seq_eq_ok.mp h
  split_ifs at h with hzero
  · cases h
    intro hprefill
    -- the chunk is empty although the prompt is not
    obtain ⟨⟨⟩, -, hnext⟩ := seq_eq_ok.mp hnext
    obtain ⟨size, hsize, hnext⟩ := seq_eq_ok.mp hnext
    cases hsize
    rw [if_neg (by simpa using hprefill)] at hnext
    cases hnext
    have hrunning := hvisit.pending id (by simp [hpending])
    have hpos := hopen id hrunning (by simpa [hvisit.objs_eq] using hprompt)
    rw [hvisit.objs_eq] at hzero
    left
    change σ.numBatchedTokens = chunkSize
    omega
  · cases h
    exact nofun

theorem remainingPrompt_update_status (objs : Heap) (id k : SeqId) (status : SequenceStatus) :
    remainingPrompt (Function.update objs id { objs id with status } k) =
      remainingPrompt (objs k) := by
  by_cases hk : k = id
  · subst hk
    rw [Function.update_self]
    rfl
  · rw [Function.update_of_ne hk]

/-- A sequence enters a batch that has room for one of its tokens. -/
theorem sarathiAdmission_length
    (h : admissionStep cfg now (chunkGate cfg (sarathiNextNumPrefillTokens (.fixed chunkSize))) σ =
      .ok (some σ'))
    (hσ : (∀ id ∈ σ.waiting, 0 ≤ remainingPrompt (σ.objs id)) ∧
      (σ.running.length : Int) ≤ chunkSize ∧ FullOrDecodes chunkSize σ) :
    (∀ id ∈ σ'.waiting, 0 ≤ remainingPrompt (σ'.objs id)) ∧
      (σ'.running.length : Int) ≤ chunkSize ∧ FullOrDecodes chunkSize σ' := by
  obtain ⟨hprompts, hlen, hfull⟩ := hσ
  cases admissionStep_turn h with
  | ignore hwaiting =>
    rw [hwaiting, List.forall_mem_cons] at hprompts
    refine ⟨fun k hk => ?_, hlen, hfull⟩
    rw [remainingPrompt_update_status]
    exact hprompts.2 k hk
  | enter hwaiting _ _ _ hgate =>
    rw [hwaiting, List.forall_mem_cons] at hprompts
    refine ⟨hprompts.2, ?_, nofun⟩
    obtain ⟨hprefill, size, hsize, -, hne⟩ := sarathiGate_eq_some hgate
    cases hsize
    -- the batch is not full, so it has one token of each running sequence
    have hcases := hfull hprefill
    have hpos := hprompts.1
    simp only [List.length_append, List.length_singleton]
    omega

/-- **Sarathi runs at most as many sequences as a chunk has tokens.** -/
theorem sarathiSchedule_length_le_chunk
    (hpaused : ∀ id ∈ s.running, (objs id).isPaused = true)
    (hopen : ∀ id ∈ s.running, (objs id).promptProcessingFinished = false →
      0 < remainingPrompt (objs id))
    (hprompts : ∀ id ∈ s.waiting ++ s.running, 0 ≤ remainingPrompt (objs id))
    (hlen : (s.running.length : Int) ≤ chunkSize)
    (h : sarathiSchedule cfg (.fixed chunkSize) now (s.start objs) = .ok σ') :
    (σ'.running.length : Int) ≤ chunkSize := by
  obtain ⟨σ₁, hdecode, h⟩ := seq_eq_ok.mp h
  obtain ⟨σ₂, hprefill, hadm⟩ := seq_eq_ok.mp h
  obtain ⟨hvisit₁, hvisit₂⟩ := sarathiLoops_visitInv cfg hdecode hprefill
  -- the two loops admit nobody
  have hlen₂ : (σ₂.running.length : Int) ≤ chunkSize := by
    have hfirst := visit_length rfl (decodeLoop_steps cfg now hdecode)
    have hsecond := visit_length rfl (sarathiPrefillLoop_steps cfg now hprefill)
    rw [requeueRunning_activeLength rfl] at hfirst
    simp only [LoopState.activeLength, SchedulerState.start, List.length_nil] at hfirst hsecond
    omega
  -- after the decode loop the batch has one token of each running sequence
  have hbatched : σ₁.numBatchedTokens = σ₁.running.length := by
    have hboth := iterate_invariant
      (fun τ : LoopState β =>
        (∀ id ∈ τ.pending, (τ.objs id).isPaused = true) ∧ τ.numBatchedTokens = τ.running.length)
      (fun _ _ => decodeStep_batched) hdecode
      ⟨fun id hid => hpaused id ((sortByPriority_perm now objs s.running).mem_iff.mp hid), rfl⟩
    exact hboth.2
  -- after the prefill loop it may have a prompt, or be full
  have hfull : FullOrDecodes chunkSize σ₂ := by
    have hboth := iterate_invariant
      (fun τ => VisitInv objs s.waiting s.running τ ∧ FullOrDecodes chunkSize τ)
      (fun _ _ => sarathiPrefillStep_fullOrDecodes cfg now hopen) hprefill
      ⟨⟨hvisit₁.objs_eq, hvisit₁.waiting_eq, hvisit₁.runningPrefills, by simp, hvisit₁.scheduled,
        hvisit₁.preempted⟩, fun _ => .inr hbatched⟩
    exact hboth.2
  -- victims and newcomers have no negative number of prompt tokens left
  have hwaiting : ∀ id ∈ σ₂.waiting, 0 ≤ remainingPrompt (σ₂.objs id) := by
    intro id hid
    rw [hvisit₂.objs_eq]
    rw [hvisit₂.waiting_eq, List.mem_append, List.mem_reverse] at hid
    apply hprompts
    rcases hid with hid | hid
    · exact List.mem_append_right _ (hvisit₂.preempted id hid)
    · exact List.mem_append_left _ hid
  have hfinal := iterate_invariant
    (fun τ : LoopState β =>
      (∀ id ∈ τ.waiting, 0 ≤ remainingPrompt (τ.objs id)) ∧
        (τ.running.length : Int) ≤ chunkSize ∧ FullOrDecodes chunkSize τ)
    (fun _ _ => sarathiAdmission_length) hadm ⟨hwaiting, hlen₂, hfull⟩
  exact hfinal.2.1

theorem schedule_length_le_chunk {objs' : Heap} {s' : SchedulerState β}
    {out : SchedulerOutputs} (hpolicy : cfg.policy = .sarathi (.fixed chunkSize))
    (hpaused : ∀ id ∈ s.running, (objs id).isPaused = true)
    (hopen : ∀ id ∈ s.running, (objs id).promptProcessingFinished = false →
      0 < remainingPrompt (objs id))
    (hprompts : ∀ id ∈ s.waiting ++ s.running, 0 ≤ remainingPrompt (objs id))
    (hlen : (s.running.length : Int) ≤ chunkSize)
    (h : schedule cfg now objs s = .ok (objs', s', out)) :
    (s'.running.length : Int) ≤ chunkSize := by
  rcases schedule_eq_ok h with ⟨-, rfl, -⟩ | ⟨σ, turn, hrun, -, rfl, -⟩
  · exact hlen
  · exact sarathiSchedule_length_le_chunk hpaused hopen hprompts hlen
      (runPolicy_sarathi hpolicy hrun)

/-- If nothing is running, no chunk exceeds the chunk size, which may be negative. -/
theorem sarathiSchedule_chunks_of_idle (hidle : s.running = [])
    (h : sarathiSchedule cfg (.fixed chunkSize) now (s.start objs) = .ok σ') :
    ∀ m ∈ σ'.scheduled, m.promptChunkLen ≤ chunkSize := by
  obtain ⟨σ₁, hdecode, h⟩ := seq_eq_ok.mp h
  obtain ⟨σ₂, hprefill, hadm⟩ := seq_eq_ok.mp h
  -- the first two loops have nothing to visit
  have hstart : (LoopState.requeueRunning now { s.start objs with
      blockManager := BlockSpaceManager.clearPromisedBlocks (s.start objs).blockManager }).pending =
      [] := by
    simp [LoopState.requeueRunning, SchedulerState.start, hidle, sortByPriority]
  rw [visitPending, hstart] at hdecode
  cases hdecode
  cases hprefill
  have hfinal := iterate_invariant
    (fun τ : LoopState β => (τ.batchContainsPrefill = false → τ.numBatchedTokens = 0) ∧
      ∀ m ∈ τ.scheduled, m.promptChunkLen ≤ chunkSize) ?_ hadm
      ⟨fun _ => rfl, fun _ hm => absurd hm List.not_mem_nil⟩
  · exact hfinal.2
  rintro τ τ' hstep ⟨htokens, hchunks⟩
  cases admissionStep_turn hstep with
  | ignore => exact ⟨htokens, hchunks⟩
  | enter _ _ _ _ hgate =>
    obtain ⟨hnone, size, hsize, hchunk, -⟩ := sarathiGate_eq_some hgate
    cases hsize
    rw [htokens hnone, Int.sub_zero] at hchunk
    constructor
    · intro hfalse
      cases hfalse
    · intro m hm
      rcases List.mem_append.mp hm with hm | hm
      · exact hchunks m hm
      · rw [List.mem_singleton.mp hm]
        exact hchunk.trans_le (Int.min_le_right ..)

/-! ## Layer B: the decodes of a batch -/

/-- The running sequences that the decode loop may put into the batch. -/
def pausedDecodes (objs : Heap) (running : List SeqId) : Nat :=
  running.countP fun id => (objs id).isPaused && (objs id).promptProcessingFinished

/-- An entry for one output token. -/
def IsDecodeEntry (objs : Heap) (m : SequenceScheduleMetadata) : Prop :=
  (objs m.seqId).promptProcessingFinished = true ∧ m.promptChunkLen = 0

/-- The tokens of the entries. -/
def entryTokens (scheduled : List SequenceScheduleMetadata) : Int :=
  (scheduled.map SequenceScheduleMetadata.numTokens).sum

theorem entryTokens_append (scheduled : List SequenceScheduleMetadata)
    (m : SequenceScheduleMetadata) :
    entryTokens (scheduled ++ [m]) = entryTokens scheduled + m.numTokens := by
  simp [entryTokens]

/-- What the decode loop keeps: the tokens in the batch and the decodes it still has to visit are
    at most the given number. -/
structure DecodeBudget (limit : Nat) (objs : Heap) (σ : LoopState β) : Prop where
  objs_eq : σ.objs = objs
  entries : ∀ m ∈ σ.scheduled, IsDecodeEntry objs m
  noPrefill : σ.batchContainsPrefill = false
  tokens : entryTokens σ.scheduled = σ.numBatchedTokens
  count : σ.numBatchedTokens + pausedDecodes objs σ.pending ≤ limit
  aside : ∀ id ∈ σ.runningPrefills,
    (objs id).isPaused = true ∧ (objs id).promptProcessingFinished = false

/-- **Step lemma** of the decode loop. -/
theorem decodeStep_decodeBudget {limit : Nat} (h : decodeStep .setAside σ = .ok (some σ'))
    (hσ : DecodeBudget limit objs σ) : DecodeBudget limit objs σ' := by
  obtain ⟨rfl, hentries, hnone, htokens, hcount, haside⟩ := hσ
  unfold decodeStep at h
  split at h
  · cases h
  rename_i id rest hpending
  have hrest : pausedDecodes σ.objs rest ≤ pausedDecodes σ.objs σ.pending := by
    rw [hpending]
    exact (List.sublist_cons_self id rest).countP_le
  dsimp only at h
  split_ifs at h with hnot hprompt hcan
  · cases h
    exact ⟨rfl, hentries, hnone, htokens, by dsimp only; omega, haside⟩
  · cases h
    refine ⟨rfl, hentries, hnone, htokens, by dsimp only; omega, fun k hk => ?_⟩
    rcases List.mem_append.mp hk with hk | hk
    · exact haside k hk
    · rw [List.mem_singleton.mp hk]
      exact ⟨by simpa using hnot, by simpa using hprompt⟩
  · obtain ⟨bm, -, h⟩ := seq_eq_ok.mp h
    cases h
    have hfinished : (σ.objs id).promptProcessingFinished = true := by simpa using hprompt
    have hchunk : (σ.objs id).defaultChunkLen = 0 := if_pos hfinished
    -- the sequence moves from the queue to the batch
    have hone : pausedDecodes σ.objs σ.pending = pausedDecodes σ.objs rest + 1 := by
      rw [hpending, pausedDecodes, List.countP_cons_of_pos]
      · rfl
      · simpa [hfinished] using hnot
    refine ⟨rfl, fun m hm => ?_, hnone, ?_, by dsimp only; omega, haside⟩
    · rcases List.mem_append.mp hm with hm | hm
      · exact hentries m hm
      · rw [List.mem_singleton.mp hm]
        exact ⟨hfinished, hchunk⟩
    · rw [entryTokens_append, htokens, hchunk]
      rfl
  · obtain ⟨τ, hpreempt, h⟩ := seq_eq_ok.mp h
    obtain ⟨-, rfl⟩ := preempt_eq_ok hpreempt
    cases h
    have hfewer : pausedDecodes σ.objs (id :: rest).dropLast ≤ pausedDecodes σ.objs σ.pending := by
      rw [hpending]
      exact (List.dropLast_sublist _).countP_le
    exact ⟨rfl, hentries, hnone, htokens, by dsimp only; omega, haside⟩

/-! ## Layer C: the prompts of a batch, and the bounds -/

/-- An entry for a chunk of a prompt: at least one token, and no more than there are left. -/
def IsPrefillEntry (objs : Heap) (m : SequenceScheduleMetadata) : Prop :=
  (objs m.seqId).promptProcessingFinished = false ∧ 1 ≤ m.promptChunkLen ∧
    m.promptChunkLen ≤ remainingPrompt (objs m.seqId)

/-- The entries for sequences with an unfinished prompt. -/
def openEntries (objs : Heap) (scheduled : List SequenceScheduleMetadata) : Nat :=
  scheduled.countP fun m => !(objs m.seqId).promptProcessingFinished

/-- What the two loops over prompts keep.  Only the status of an object changes on the way. -/
structure Budget (chunkSize : Int) (objs : Heap) (σ : LoopState β) : Prop where
  finished : ∀ id,
    (σ.objs id).promptProcessingFinished = (objs id).promptProcessingFinished
  remaining : ∀ id, remainingPrompt (σ.objs id) = remainingPrompt (objs id)
  entries : ∀ m ∈ σ.scheduled, IsDecodeEntry objs m ∨ IsPrefillEntry objs m
  prompts : openEntries objs σ.scheduled ≤ if σ.batchContainsPrefill then 1 else 0
  tokens : entryTokens σ.scheduled = σ.numBatchedTokens
  total : σ.numBatchedTokens ≤ chunkSize

/-- No negative number of prompt tokens is left, and none of a processed prompt. -/
def Metered (seq : Sequence) : Prop :=
  0 ≤ remainingPrompt seq ∧ (seq.promptProcessingFinished = true → remainingPrompt seq = 0)

omit [BlockSpaceManager β] in
/-- **A chunk keeps the budget**: the difference is positive, as the batch is not over it. -/
theorem Budget.addPrefill (h : Budget chunkSize objs σ) {id : SeqId} {next : Int}
    (hnone : σ.batchContainsPrefill = false) (hmetered : Metered (objs id))
    (hnext : next = min (remainingPrompt (objs id)) (chunkSize - σ.numBatchedTokens))
    (hne : next ≠ 0) (hobjs : σ'.objs = σ.objs)
    (hscheduled : σ'.scheduled = σ.scheduled ++ [⟨id, next⟩])
    (htokens : σ'.numBatchedTokens = σ.numBatchedTokens + next)
    (hprefill : σ'.batchContainsPrefill = true) : Budget chunkSize objs σ' := by
  obtain ⟨hleft, hdone⟩ := hmetered
  have htotal := h.total
  -- with a processed prompt, or a full batch, the chunk would be zero
  have hopen : (objs id).promptProcessingFinished = false := by
    by_contra hfinished
    rw [Bool.not_eq_false] at hfinished
    have hzero := hdone hfinished
    omega
  have hpos : 1 ≤ next := by omega
  constructor
  case finished => rw [hobjs]; exact h.finished
  case remaining => rw [hobjs]; exact h.remaining
  case entries =>
    intro m hm
    rw [hscheduled] at hm
    rcases List.mem_append.mp hm with hm | hm
    · exact h.entries m hm
    · rw [List.mem_singleton.mp hm]
      refine .inr ⟨hopen, hpos, ?_⟩
      show next ≤ remainingPrompt (objs id)
      omega
  case prompts =>
    have hold := h.prompts
    rw [hnone] at hold
    rw [hscheduled, hprefill, openEntries, List.countP_append]
    have hone : List.countP (fun m => !(objs m.seqId).promptProcessingFinished)
        [(⟨id, next⟩ : SequenceScheduleMetadata)] ≤ 1 := List.countP_le_length
    have hzero : openEntries objs σ.scheduled = 0 := by simpa using hold
    rw [openEntries] at hzero
    simp only [if_true]
    omega
  case tokens =>
    rw [hscheduled, entryTokens_append, h.tokens, htokens]
    show σ.numBatchedTokens + max next 1 = _
    omega
  case total =>
    rw [htokens]
    omega

omit [BlockSpaceManager β] in
/-- **Step lemma** of the loop over the running prompts. -/
theorem sarathiPrefillStep_budget (h : sarathiPrefillStep (.fixed chunkSize) σ = .ok (some σ'))
    (hσ : Budget chunkSize objs σ ∧ ∀ id ∈ σ.pending, Metered (objs id)) :
    Budget chunkSize objs σ' ∧ ∀ id ∈ σ'.pending, Metered (objs id) := by
  obtain ⟨hbudget, hmetered⟩ := hσ
  unfold sarathiPrefillStep at h
  split at h
  · cases h
  rename_i id rest hpending
  rw [hpending, List.forall_mem_cons] at hmetered
  obtain ⟨⟨⟩, -, h⟩ := seq_eq_ok.mp h
  obtain ⟨next, hnext, h⟩ := seq_eq_ok.mp h
  split_ifs at h with hzero
  · cases h
    exact ⟨⟨hbudget.finished, hbudget.remaining, hbudget.entries, hbudget.prompts, hbudget.tokens,
      hbudget.total⟩, hmetered.2⟩
  · cases h
    obtain ⟨⟨⟩, -, hnext⟩ := seq_eq_ok.mp hnext
    obtain ⟨size, hsize, hnext⟩ := seq_eq_ok.mp hnext
    cases hsize
    split_ifs at hnext with hprefill
    · -- a second prompt gets no chunk
      cases hnext
      exact absurd rfl hzero
    · cases hnext
      rw [hbudget.remaining] at hzero ⊢
      exact ⟨hbudget.addPrefill (by simpa using hprefill) hmetered.1 rfl hzero rfl rfl rfl rfl,
        hmetered.2⟩

omit [BlockSpaceManager β] in
/-- A chunked scheduler counts an admitted prompt with its chunk. -/
theorem chunkGate_numTokens {next : LoopState β → Sequence → Except PyError Int} {seq : Sequence}
    {admission : Admission} (h : chunkGate cfg next σ seq = .ok (some admission)) :
    admission.numTokens = admission.chunkLen := by
  unfold chunkGate at h
  split_ifs at h
  · cases h
  obtain ⟨chunkLen, -, h⟩ := seq_eq_ok.mp h
  split_ifs at h
  · cases h
  · cases h
    rfl

/-- **Step lemma** of the loop over the waiting sequences. -/
theorem sarathiAdmission_budget
    (h : admissionStep cfg now (chunkGate cfg (sarathiNextNumPrefillTokens (.fixed chunkSize))) σ =
      .ok (some σ'))
    (hσ : Budget chunkSize objs σ ∧ ∀ id ∈ σ.waiting, Metered (objs id)) :
    Budget chunkSize objs σ' ∧ ∀ id ∈ σ'.waiting, Metered (objs id) := by
  obtain ⟨hbudget, hmetered⟩ := hσ
  cases admissionStep_turn h with
  | @ignore id _ hwaiting =>
    rw [hwaiting, List.forall_mem_cons] at hmetered
    refine ⟨⟨fun k => ?_, fun k => ?_, hbudget.entries, hbudget.prompts, hbudget.tokens,
      hbudget.total⟩, hmetered.2⟩
    · rw [← hbudget.finished k]
      dsimp only
      by_cases hk : k = id
      · rw [hk, Function.update_self]
      · rw [Function.update_of_ne hk]
    · rw [remainingPrompt_update_status, hbudget.remaining]
  | enter hwaiting _ _ _ hgate =>
    rw [hwaiting, List.forall_mem_cons] at hmetered
    obtain ⟨hnone, size, hsize, hchunk, hne⟩ := sarathiGate_eq_some hgate
    cases hsize
    rw [hbudget.remaining] at hchunk hne
    refine ⟨hbudget.addPrefill hnone hmetered.1 hchunk (hchunk ▸ hne) rfl rfl ?_ rfl, hmetered.2⟩
    rw [chunkGate_numTokens hgate]

/-- The bounds of a batch: at most one sequence with an unfinished prompt, a chunk of at least one
    token and at most the unprocessed ones for it, and no more tokens than a chunk has. -/
structure BatchBounds (chunkSize : Int) (objs : Heap) (out : SchedulerOutputs) : Prop where
  one_prompt : openEntries objs out.scheduledSeqMetadataList ≤ 1
  chunk : ∀ m ∈ out.scheduledSeqMetadataList,
    (objs m.seqId).promptProcessingFinished = false →
      1 ≤ m.promptChunkLen ∧ m.promptChunkLen ≤ remainingPrompt (objs m.seqId)
  total : out.numBatchedTokens ≤ chunkSize

omit [BlockSpaceManager β] in
theorem Budget.batchBounds (h : Budget chunkSize objs σ) :
    BatchBounds chunkSize objs σ.outputs where
  one_prompt := by
    have hprompts := h.prompts
    show openEntries objs σ.scheduled ≤ 1
    split_ifs at hprompts <;> omega
  chunk m hm hopen := by
    rcases h.entries m hm with ⟨hfinished, -⟩ | ⟨-, hchunk⟩
    · rw [hfinished] at hopen
      cases hopen
    · exact hchunk
  total := by
    show entryTokens σ.scheduled ≤ chunkSize
    rw [h.tokens]
    exact h.total

theorem sarathiSchedule_budget
    (hdecodes : (pausedDecodes objs s.running : Int) ≤ chunkSize)
    (hmetered : ∀ id ∈ s.waiting ++ s.running, Metered (objs id))
    (h : sarathiSchedule cfg (.fixed chunkSize) now (s.start objs) = .ok σ') :
    Budget chunkSize objs σ' := by
  obtain ⟨σ₁, hdecode, h⟩ := seq_eq_ok.mp h
  obtain ⟨σ₂, hprefill, hadm⟩ := seq_eq_ok.mp h
  obtain ⟨hvisit₁, hvisit₂⟩ := sarathiLoops_visitInv cfg hdecode hprefill
  have hdecoded : DecodeBudget (pausedDecodes objs s.running) objs σ₁ := by
    refine iterate_invariant (DecodeBudget (pausedDecodes objs s.running) objs)
      (fun _ _ => decodeStep_decodeBudget) hdecode ⟨rfl, nofun, rfl, rfl, ?_, nofun⟩
    have hsorted := (sortByPriority_perm now objs s.running).countP_eq
      fun id => (objs id).isPaused && (objs id).promptProcessingFinished
    simp [pausedDecodes, LoopState.requeueRunning, SchedulerState.start, hsorted]
  -- the decodes alone keep the budget
  have hbudget₁ : Budget chunkSize objs σ₁ := by
    have hobjs := hdecoded.objs_eq
    have hcount := hdecoded.count
    refine ⟨fun id => by rw [hobjs], fun id => by rw [hobjs],
      fun m hm => .inl (hdecoded.entries m hm), ?_, hdecoded.tokens, by omega⟩
    have hnone : openEntries objs σ₁.scheduled = 0 := by
      rw [openEntries, List.countP_eq_zero]
      intro m hm
      simp [(hdecoded.entries m hm).1]
    omega
  have hbudget₂ := iterate_invariant
    (fun τ => Budget chunkSize objs τ ∧ ∀ id ∈ τ.pending, Metered (objs id))
    (fun _ _ => sarathiPrefillStep_budget) hprefill
    ⟨⟨hbudget₁.finished, hbudget₁.remaining, hbudget₁.entries, hbudget₁.prompts, hbudget₁.tokens,
      hbudget₁.total⟩,
      fun id hid => hmetered id (List.mem_append_right _ (hvisit₁.runningPrefills id hid))⟩
  -- the victims are in front of the waiting sequences
  have hwaiting : ∀ id ∈ σ₂.waiting, Metered (objs id) := by
    intro id hid
    rw [hvisit₂.waiting_eq, List.mem_append, List.mem_reverse] at hid
    apply hmetered
    rcases hid with hid | hid
    · exact List.mem_append_right _ (hvisit₂.preempted id hid)
    · exact List.mem_append_left _ hid
  have hfinal := iterate_invariant
    (fun τ => Budget chunkSize objs τ ∧ ∀ id ∈ τ.waiting, Metered (objs id))
    (fun _ _ => sarathiAdmission_budget) hadm ⟨hbudget₂.1, hwaiting⟩
  exact hfinal.1

/-- **The bounds of every batch** that Sarathi returns while the paused decodes fit in a chunk. -/
theorem schedule_batchBounds {objs' : Heap} {s' : SchedulerState β} {out : SchedulerOutputs}
    (hpolicy : cfg.policy = .sarathi (.fixed chunkSize))
    (hdecodes : (pausedDecodes objs s.running : Int) ≤ chunkSize)
    (hmetered : ∀ id ∈ s.waiting ++ s.running, Metered (objs id))
    (h : schedule cfg now objs s = .ok (objs', s', out)) : BatchBounds chunkSize objs out := by
  rcases schedule_eq_ok h with ⟨-, -, rfl⟩ | ⟨σ, turn, hrun, -, -, rfl⟩
  · refine ⟨Nat.zero_le 1, nofun, ?_⟩
    show (0 : Int) ≤ chunkSize
    omega
  · exact (sarathiSchedule_budget hdecodes hmetered (runPolicy_sarathi hpolicy hrun)).batchBounds

end VAttention.Scheduler
