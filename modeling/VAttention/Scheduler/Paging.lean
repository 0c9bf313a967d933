import VAttention.Core.Paging
import VAttention.Lib.Exits
import VAttention.Scheduler.Fcfs

/-!
# Scheduling with a paged manager

The loops of the vLLM, Sarathi and simple chunking policies ask `can_allocate` before they call
`allocate`, and `can_append_slot` before they call `append_slot`.  So neither call raises, exactly
the running sequences have tables, and every sequence that enters the batch is covered by its
table (`PagedLoop`).  The step lemma follows the turns of the loops; the rule for each policy
follows its program text and keeps track of both exits.
-/

namespace VAttention.Scheduler

open VAttention.Core VAttention.Lib Relation
open PagedBlockManager (Partitions Covers Backs SetsTable blockError)

variable {cfg : SchedulerConfig} {now : Time} {numBlocks : Nat}
  {σ σ' : LoopState PagedBlockManager} {id : SeqId} {table : List Nat} {phase : Phase}

/-! ## The invariant -/

/-- Invariant of the loops. -/
structure PagedLoop (numBlocks : Nat) (σ : LoopState PagedBlockManager) : Prop where
  unique : ∀ id, σ.occurrences id ≤ 1
  partition : Partitions numBlocks σ.blockManager
  perPrompt : σ.blockManager.requestNumBlocks = none
  /-- The active sequences have tables, and only they. -/
  owners : ∀ id, id ∈ σ.blockManager.blockTables ↔ id ∈ σ.active
  backed : ∀ id table, σ.blockManager.blockTables.lookup id = some table →
    Backs table (σ.objs id)
  /-- The batch is covered. -/
  covered : ∀ id ∈ scheduledIds σ.scheduled, ∀ table,
    σ.blockManager.blockTables.lookup id = some table → Covers table (σ.objs id)

theorem PagedLoop.exists_table (h : PagedLoop numBlocks σ) (hid : id ∈ σ.active) :
    ∃ table, σ.blockManager.blockTables.lookup id = some table ∧ Backs table (σ.objs id) := by
  have hmem := (h.owners id).mpr hid
  rw [← AList.lookup_isSome, Option.isSome_iff_exists] at hmem
  obtain ⟨table, hlookup⟩ := hmem
  exact ⟨table, hlookup, h.backed id table hlookup⟩

/-- A waiting sequence has no table. -/
theorem PagedLoop.notMem_of_waiting (h : PagedLoop numBlocks σ) (hid : id ∈ σ.waiting) :
    id ∉ σ.blockManager.blockTables := by
  rw [h.owners, ← List.count_eq_zero]
  have hone := h.unique id
  have hpos := List.count_pos_iff.mpr hid
  simp only [LoopState.occurrences, LoopState.active, List.count_append] at hone ⊢
  omega

/-! ## What the turns do to it -/

/-- Sequences move between the lists, and those that enter the batch are covered. -/
theorem PagedLoop.move (h : PagedLoop numBlocks σ)
    (hoccurrences : ∀ id, σ'.occurrences id = σ.occurrences id)
    (hmanager : σ'.blockManager = σ.blockManager) (hobjs : σ'.objs = σ.objs)
    (hactive : ∀ id, id ∈ σ'.active ↔ id ∈ σ.active)
    (hscheduled : ∀ id ∈ scheduledIds σ'.scheduled, id ∈ scheduledIds σ.scheduled ∨
      ∀ table, σ.blockManager.blockTables.lookup id = some table → Covers table (σ.objs id)) :
    PagedLoop numBlocks σ' := by
  constructor
  case unique => exact fun a => (hoccurrences a).trans_le (h.unique a)
  case partition => rw [hmanager]; exact h.partition
  case perPrompt => rw [hmanager]; exact h.perPrompt
  case owners => intro a; rw [hmanager, hactive]; exact h.owners a
  case backed => rw [hmanager, hobjs]; exact h.backed
  case covered =>
    rw [hmanager, hobjs]
    intro a ha
    rcases hscheduled a ha with hold | hnew
    · exact h.covered a hold
    · exact hnew

/-- A sequence gets a table that covers it. -/
theorem PagedLoop.setTable (h : PagedLoop numBlocks σ)
    (hoccurrences : ∀ id, σ'.occurrences id = σ.occurrences id)
    (hpartition : Partitions numBlocks σ'.blockManager)
    (hsets : SetsTable id table σ.blockManager σ'.blockManager)
    (hcovers : Covers table (σ.objs id)) (hobjs : σ'.objs = σ.objs)
    (hactive : ∀ a, a ∈ σ'.active ↔ a = id ∨ a ∈ σ.active)
    (hscheduled : ∀ a ∈ scheduledIds σ'.scheduled, a = id ∨ a ∈ scheduledIds σ.scheduled) :
    PagedLoop numBlocks σ' := by
  have hself : ∀ table', σ'.blockManager.blockTables.lookup id = some table' → table' = table :=
    fun table' hlookup => Option.some.inj (hlookup.symm.trans hsets.self)
  constructor
  case unique => exact fun a => (hoccurrences a).trans_le (h.unique a)
  case partition => exact hpartition
  case perPrompt => exact hsets.requestNumBlocks.trans h.perPrompt
  case owners => intro a; rw [hsets.mem_iff, hactive, h.owners a]
  case backed =>
    rw [hobjs]
    intro a table' hlookup
    by_cases ha : a = id
    · subst ha
      rw [hself table' hlookup]
      exact hcovers.backs
    · rw [hsets.other a ha] at hlookup
      exact h.backed a table' hlookup
  case covered =>
    rw [hobjs]
    intro a hmem table' hlookup
    by_cases ha : a = id
    · subst ha
      rw [hself table' hlookup]
      exact hcovers
    · rw [hsets.other a ha] at hlookup
      exact h.covered a ((hscheduled a hmem).resolve_left ha) table' hlookup

/-- The last sequence of the queue loses its table. -/
theorem PagedLoop.freeLast (h : PagedLoop numBlocks σ) {victim : SeqId} {rest : List SeqId}
    (hoccurrences : ∀ id, σ'.occurrences id = σ.occurrences id)
    (hpending : σ.pending = rest ++ [victim])
    (hmanager : σ'.blockManager = σ.blockManager.free victim) (hobjs : σ'.objs = σ.objs)
    (hactive : σ'.active = rest ++ σ.running ++ σ.runningPrefills)
    (hscheduled : σ'.scheduled = σ.scheduled) : PagedLoop numBlocks σ' := by
  have hlookup : ∀ a table, σ'.blockManager.blockTables.lookup a = some table →
      σ.blockManager.blockTables.lookup a = some table := by
    intro a table hlookup
    have hmem : a ∈ σ'.blockManager.blockTables := by
      rw [← AList.lookup_isSome, hlookup, Option.isSome_some]
    rw [hmanager] at hlookup hmem
    rwa [PagedBlockManager.lookup_free_of_ne (PagedBlockManager.mem_free.mp hmem).1] at hlookup
  constructor
  case unique => exact fun a => (hoccurrences a).trans_le (h.unique a)
  case partition => rw [hmanager]; exact h.partition.free victim
  case perPrompt =>
    rw [hmanager, PagedBlockManager.requestNumBlocks_free]
    exact h.perPrompt
  case owners =>
    intro a
    rw [hmanager, PagedBlockManager.mem_free, h.owners, hactive]
    by_cases ha : a = victim
    · -- it was in the queue once, and nowhere else
      subst ha
      have hone := h.unique a
      simp only [LoopState.occurrences, hpending, List.count_append, List.count_singleton_self]
        at hone
      have hgone : a ∉ rest ++ σ.running ++ σ.runningPrefills := by
        simp only [← List.count_eq_zero, List.count_append]
        omega
      exact iff_of_false (fun hand => hand.1 rfl) hgone
    · simp [LoopState.active, hpending, ha]
  case backed => rw [hobjs]; exact fun a table ha => h.backed a table (hlookup a table ha)
  case covered =>
    rw [hobjs, hscheduled]
    exact fun a hmem table ha => h.covered a hmem table (hlookup a table ha)

/-- A waiting sequence is dropped; nothing is said about its object. -/
theorem PagedLoop.dropWaiting (h : PagedLoop numBlocks σ) (hwaiting : id ∈ σ.waiting)
    (hoccurrences : ∀ id, σ'.occurrences id = σ.occurrences id)
    (hmanager : σ'.blockManager = σ.blockManager) (hobjs : ∀ a, a ≠ id → σ'.objs a = σ.objs a)
    (hactive : σ'.active = σ.active) (hscheduled : σ'.scheduled = σ.scheduled) :
    PagedLoop numBlocks σ' := by
  have hne : ∀ a table, σ.blockManager.blockTables.lookup a = some table → a ≠ id := by
    rintro a table hlookup rfl
    rw [AList.lookup_eq_none.mpr (h.notMem_of_waiting hwaiting)] at hlookup
    cases hlookup
  constructor
  case unique => exact fun a => (hoccurrences a).trans_le (h.unique a)
  case partition => rw [hmanager]; exact h.partition
  case perPrompt => rw [hmanager]; exact h.perPrompt
  case owners => rw [hmanager, hactive]; exact h.owners
  case backed =>
    rw [hmanager]
    intro a table hlookup
    rw [hobjs a (hne a table hlookup)]
    exact h.backed a table hlookup
  case covered =>
    rw [hmanager, hscheduled]
    intro a hmem table hlookup
    rw [hobjs a (hne a table hlookup)]
    exact h.covered a hmem table hlookup

/-- **Step lemma**: every turn of these policies keeps the invariant. -/
theorem SchedStep.pagedLoop (hstep : SchedStep cfg now phase σ σ') (hphase : phase ≠ .orca)
    (h : PagedLoop numBlocks σ) : PagedLoop numBlocks σ' := by
  have hocc := hstep.occurrences_eq
  cases hstep with
  | keep hpending | setAside hpending =>
    refine h.move hocc rfl rfl (fun a => ?_) fun a ha => .inl ha
    simp only [LoopState.active, hpending, List.mem_append, List.mem_cons, List.not_mem_nil,
      or_false]
    tauto
  | @decode _ _ id rest manager hpending hready hcan happend =>
    have hactive : id ∈ σ.active := by simp [LoopState.active, hpending]
    -- the queue holds active sequences, and those have tables
    obtain ⟨table, hlookup, hbacks⟩ := h.exists_table hactive
    obtain ⟨table', hsets, hcovers⟩ :=
      PagedBlockManager.appendSlot_setsTable hlookup hbacks happend
    refine h.setTable hocc (h.partition.appendSlot happend) hsets hcovers rfl (fun a => ?_)
      fun a ha => ?_
    · simp only [LoopState.active, hpending, List.mem_append, List.mem_cons, List.not_mem_nil,
        or_false]
      tauto
    · simpa [scheduledIds, or_comm] using ha
  | preempt hpending => exact h.freeLast hocc hpending rfl rfl rfl rfl
  | @prefill _ id rest chunkLen hpending hprompt =>
    refine h.move hocc rfl rfl (fun a => ?_) fun a ha => ?_
    · simp only [LoopState.active, schedulePrefill, hpending, List.mem_append, List.mem_cons,
        List.not_mem_nil, or_false]
      tauto
    · simp only [scheduledIds, schedulePrefill, List.map_append, List.map_cons, List.map_nil,
        List.mem_append, List.mem_singleton] at ha
      refine ha.imp_right ?_
      rintro rfl table hlookup
      -- a sequence with an unfinished prompt has no token beyond its table
      exact (h.backed _ table hlookup).covers hprompt
  | orcaDecode => exact absurd rfl hphase
  | @ignore _ id _ hwaiting =>
    have hmem : id ∈ σ.waiting := by simp [hwaiting]
    refine h.dropWaiting hmem hocc rfl (fun a ha => ?_) rfl rfl
    exact Function.update_of_ne ha _ _
  | @enter _ id rest manager _ _ hwaiting _ _ hcan hallocate =>
    obtain ⟨table, hsets, hcovers⟩ := PagedBlockManager.allocate_setsTable h.perPrompt hallocate
    have hmem : id ∈ σ.waiting := by simp [hwaiting]
    have hnew := h.notMem_of_waiting hmem
    refine h.setTable hocc (h.partition.allocate hnew hallocate) hsets hcovers rfl (fun a => ?_)
      fun a ha => ?_
    · simp only [LoopState.active, List.mem_append, List.mem_singleton]
      tauto
    · simpa [scheduledIds, or_comm] using ha
  | requeue horder hpending hscheduled =>
    refine h.move hocc rfl rfl (fun a => ?_) fun a ha => .inl ha
    simp [LoopState.active, hpending, horder.mem_iff]
  | takePrefills hpending =>
    refine h.move hocc rfl rfl (fun a => ?_) fun a ha => .inl ha
    simp only [LoopState.active, hpending, List.mem_append, List.not_mem_nil, or_false, false_or]
    tauto

/-! ## Both exits of a turn -/

/-- An exception that does not come from the block manager. -/
abbrev NotBlockError (e : PyError) : Prop := blockError e = false

/-- A turn goes on in a state with the invariant, and the block manager does not raise. -/
abbrev TurnSafe (numBlocks : Nat) (turn : Except PyError (Option (LoopState PagedBlockManager))) :
    Prop :=
  Yields (fun next => ∀ σ', next = some σ' → PagedLoop numBlocks σ') NotBlockError turn

theorem assertThat_quiet {cond : Bool} {msg : String} {e : PyError}
    (h : assertThat cond (.assertionError msg) = .error e) : NotBlockError e := by
  rw [assertThat_eq_error h]
  rfl

theorem preempt_error {e : PyError} (h : preempt id σ = .error e) : NotBlockError e := by
  rcases seq_eq_error.mp h with hassert | ⟨_, -, hrest⟩
  · exact assertThat_quiet hassert
  · cases hrest

theorem decodeStep_safe (cfg : SchedulerConfig) (now : Time) (policy : OnUnfinishedPrompt)
    (h : PagedLoop numBlocks σ) : TurnSafe numBlocks (decodeStep policy σ) := by
  refine .intro (fun next hstep σ' hnext => ?_) fun e herror => ?_
  · subst hnext
    have hturn : SchedStep cfg now (.decoding policy) σ σ' := decodeStep_sound hstep
    exact hturn.pagedLoop (by simp) h
  · unfold decodeStep at herror
    split at herror
    · cases herror
    · rename_i id rest hpending
      dsimp only at herror
      split_ifs at herror with hpaused hprompt hcan
      · cases policy <;> cases herror
        rfl
      · -- a sequence of the queue has a table
        have hactive : id ∈ σ.active := by simp [LoopState.active, hpending]
        obtain ⟨manager, hok⟩ :=
          PagedBlockManager.exists_appendSlot ((h.owners id).mpr hactive) hcan (σ.objs id)
        rcases seq_eq_error.mp herror with happend | ⟨_, -, hrest⟩
        · cases hok.symm.trans happend
        · cases hrest
      · rcases seq_eq_error.mp herror with hpreempt | ⟨_, -, hrest⟩
        · exact preempt_error hpreempt
        · cases hrest

theorem sarathiNextNumPrefillTokens_error {chunks : ChunkSchedule} {seq : Sequence} {e : PyError}
    (h : sarathiNextNumPrefillTokens chunks σ seq = .error e) : NotBlockError e := by
  rcases seq_eq_error.mp h with hassert | ⟨_, -, h⟩
  · exact assertThat_quiet hassert
  rcases seq_eq_error.mp h with hchunk | ⟨_, -, h⟩
  · -- the stage of a dynamic schedule may be out of range
    unfold ChunkSchedule.chunkSize at hchunk
    split at hchunk
    · cases hchunk
    · split at hchunk <;> cases hchunk
      rfl
  · split_ifs at h <;> cases h

theorem simpleNextNumPrefillTokens_error {chunkSize : Nat} {seq : Sequence} {e : PyError}
    (h : simpleNextNumPrefillTokens chunkSize σ seq = .error e) : NotBlockError e := by
  rcases seq_eq_error.mp h with hassert | ⟨_, -, h⟩
  · exact assertThat_quiet hassert
  · cases h

theorem sarathiPrefillStep_safe (cfg : SchedulerConfig) (now : Time) (chunks : ChunkSchedule)
    (h : PagedLoop numBlocks σ) : TurnSafe numBlocks (sarathiPrefillStep chunks σ) := by
  refine .intro (fun next hstep σ' hnext => ?_) fun e herror => ?_
  · subst hnext
    have hturn : SchedStep cfg now .prefilling σ σ' := sarathiPrefillStep_sound hstep
    exact hturn.pagedLoop (by simp) h
  · unfold sarathiPrefillStep at herror
    split at herror
    · cases herror
    · rcases seq_eq_error.mp herror with hassert | ⟨_, -, herror⟩
      · exact assertThat_quiet hassert
      · rcases seq_eq_error.mp herror with hnext | ⟨_, -, herror⟩
        · exact sarathiNextNumPrefillTokens_error hnext
        · split_ifs at herror <;> cases herror

theorem simplePrefillStep_safe (cfg : SchedulerConfig) (now : Time) (chunkSize : Nat)
    (h : PagedLoop numBlocks σ) : TurnSafe numBlocks (simplePrefillStep chunkSize σ) := by
  refine .intro (fun next hstep σ' hnext => ?_) fun e herror => ?_
  · subst hnext
    have hturn : SchedStep cfg now .prefilling σ σ' := simplePrefillStep_sound hstep
    exact hturn.pagedLoop (by simp) h
  · unfold simplePrefillStep at herror
    split at herror
    · cases herror
    · dsimp only at herror
      split_ifs at herror
      rcases seq_eq_error.mp herror with hnext | ⟨_, -, herror⟩
      · exact simpleNextNumPrefillTokens_error hnext
      · split_ifs at herror <;> cases herror

/-- A gate that raises none of the block manager's exceptions. -/
def GateQuiet (gate : LoopState PagedBlockManager → Sequence → Except PyError (Option Admission)) :
    Prop :=
  ∀ σ seq e, gate σ seq = .error e → NotBlockError e

theorem vllmGate_quiet {maxNumBatchedTokens : Nat} :
    GateQuiet (vllmGate cfg maxNumBatchedTokens) := by
  intro σ seq e h
  unfold vllmGate at h
  split_ifs at h

theorem chunkGate_quiet {next : LoopState PagedBlockManager → Sequence → Except PyError Int}
    (hnext : ∀ σ seq e, next σ seq = .error e → NotBlockError e) :
    GateQuiet (chunkGate cfg next) := by
  intro σ seq e h
  unfold chunkGate at h
  split_ifs at h
  rcases seq_eq_error.mp h with hraise | ⟨_, -, h⟩
  · exact hnext σ seq e hraise
  · split_ifs at h <;> cases h

theorem admissionStep_safe
    {gate : LoopState PagedBlockManager → Sequence → Except PyError (Option Admission)}
    (hgate : GateSound gate) (hquiet : GateQuiet gate) (h : PagedLoop numBlocks σ) :
    TurnSafe numBlocks (admissionStep cfg now gate σ) := by
  refine .intro (fun next hstep σ' hnext => ?_) fun e herror => ?_
  · subst hnext
    exact (admissionStep_sound hgate hstep).pagedLoop (by simp) h
  · unfold admissionStep at herror
    split at herror
    · cases herror
    · rename_i id rest hwaiting
      dsimp only at herror
      split_ifs at herror with harrived hlong hcan
      · rcases seq_eq_error.mp herror with hstatus | ⟨_, -, hrest⟩
        · unfold Sequence.setStatus at hstatus
          split_ifs at hstatus
          cases hstatus
          rfl
        · cases hrest
      · rcases seq_eq_error.mp herror with hraise | ⟨admission, -, herror⟩
        · exact hquiet σ _ e hraise
        · cases admission with
          | none => cases herror
          | some admission =>
            have hroom : BlockSpaceManager.canAllocate σ.blockManager (σ.objs id) = true := by
              simpa using hcan
            -- `can_allocate` has been asked, so `allocate` returns
            obtain ⟨manager, hok⟩ := PagedBlockManager.exists_allocate hroom id
            rcases seq_eq_error.mp herror with hallocate | ⟨_, -, hrest⟩
            · cases hok.symm.trans hallocate
            · cases hrest

/-! ## Both exits of the policies -/

/-- The loops end in a state with the invariant, and the block manager does not raise. -/
abbrev LoopsSafe (numBlocks : Nat) (loops : Except PyError (LoopState PagedBlockManager)) : Prop :=
  Yields (fun σ' => PagedLoop numBlocks σ' ∧ σ'.Complete) NotBlockError loops

theorem visitPending_safe
    {step : LoopState PagedBlockManager → Except PyError (Option (LoopState PagedBlockManager))}
    (hturn : ∀ σ, PagedLoop numBlocks σ → TurnSafe numBlocks (step σ))
    (h : PagedLoop numBlocks σ) :
    Yields (PagedLoop numBlocks) NotBlockError (visitPending step σ) :=
  Yields.iterate _ hturn h _

theorem decodeLoop_safe (cfg : SchedulerConfig) (now : Time) {policy : OnUnfinishedPrompt}
    (h : PagedLoop numBlocks σ) (hpolicy : policy ≠ .setAside) (hnil : σ.runningPrefills = []) :
    LoopsSafe numBlocks (visitPending (decodeStep policy) σ) := by
  have hrun := visitPending_safe (fun _ => decodeStep_safe cfg now policy) h
  refine hrun.imp fun σ' hok h' => ⟨h', ?_⟩
  exact Complete.of_visit (decodeLoop_steps cfg now hok) (by simpa using hpolicy) hnil

theorem admitWaiting_safe
    {gate : LoopState PagedBlockManager → Sequence → Except PyError (Option Admission)}
    (hgate : GateSound gate) (hquiet : GateQuiet gate) (h : PagedLoop numBlocks σ)
    (hσ : σ.Complete) : LoopsSafe numBlocks (admitWaiting cfg now gate σ) := by
  have hrun : Yields (PagedLoop numBlocks) NotBlockError (admitWaiting cfg now gate σ) :=
    Yields.iterate _ (fun _ => admissionStep_safe hgate hquiet) h _
  exact hrun.imp fun σ' hok h' => ⟨h', Complete.of_admission (admitWaiting_steps hgate hok) hσ⟩

/-- The queue over the running sequences is filled. -/
theorem PagedLoop.requeue (h : PagedLoop numBlocks σ) (hpending : σ.pending = [])
    (hscheduled : σ.scheduled = []) {order : List SeqId} (horder : order.Perm σ.running)
    (cfg : SchedulerConfig) (now : Time) :
    PagedLoop numBlocks { σ with pending := order, running := [] } := by
  have hstep : SchedStep cfg now .regroup σ { σ with pending := order, running := [] } :=
    .requeue horder hpending hscheduled
  exact hstep.pagedLoop (by simp) h

theorem vllmSchedule_safe {maxNumBatchedTokens : Nat} (h : PagedLoop numBlocks σ)
    (hσ : σ.Initial) : LoopsSafe numBlocks (vllmSchedule cfg maxNumBatchedTokens now σ) := by
  have hadm : LoopsSafe numBlocks (admitWaiting cfg now (vllmGate cfg maxNumBatchedTokens) σ) :=
    admitWaiting_safe vllmGate_sound vllmGate_quiet h hσ.toComplete
  refine hadm.seq fun σ₁ ⟨h₁, hcomplete₁⟩ => ?_
  refine .ite (fun _ => ⟨h₁, hcomplete₁⟩) fun hnone => ?_
  exact decodeLoop_safe cfg now (h₁.requeue hcomplete₁.pending (nil_of_no_outputs hnone).1
    (sortByPriority_perm now σ₁.objs σ₁.running) cfg now) (by simp) hcomplete₁.runningPrefills

theorem sarathiSchedule_safe {chunks : ChunkSchedule} (h : PagedLoop numBlocks σ)
    (hσ : σ.Initial) : LoopsSafe numBlocks (sarathiSchedule cfg chunks now σ) := by
  have hqueue := h.requeue hσ.pending hσ.scheduled (sortByPriority_perm now σ.objs σ.running)
    cfg now
  -- the decode loop
  have hdecode := (visitPending_safe (fun _ => decodeStep_safe cfg now .setAside)
    hqueue).imp fun σ₁ hrun h₁ => And.intro h₁ (decodeLoop_steps cfg now hrun).2
  refine hdecode.seq fun σ₁ ⟨h₁, hpending₁⟩ => ?_
  have htake : SchedStep cfg now .regroup σ₁
      { σ₁ with pending := σ₁.runningPrefills, runningPrefills := [] } := .takePrefills hpending₁
  -- the prefill loop, over what was set aside
  have hprefill := (visitPending_safe (fun _ => sarathiPrefillStep_safe cfg now chunks)
    (htake.pagedLoop (by simp) h₁)).imp fun σ₂ hrun h₂ => And.intro h₂
      (Complete.of_visit (sarathiPrefillLoop_steps cfg now hrun) (by simp) rfl)
  refine hprefill.seq fun σ₂ ⟨h₂, hcomplete₂⟩ => ?_
  exact admitWaiting_safe (chunkGate_sound fun _ _ _ => sarathiNextNumPrefillTokens_le)
    (chunkGate_quiet fun _ _ _ => sarathiNextNumPrefillTokens_error) h₂ hcomplete₂

/-- As `LoopsSafe`, for a policy that also returns whose turn is next. -/
abbrev PolicySafe (numBlocks : Nat) (run : Except PyError (LoopState PagedBlockManager × Turn)) :
    Prop :=
  Yields (fun r => PagedLoop numBlocks r.1 ∧ r.1.Complete) NotBlockError run

theorem simpleDecodePhase_safe (cfg : SchedulerConfig) (now : Time) (h : PagedLoop numBlocks σ)
    (hnil : σ.runningPrefills = []) : PolicySafe numBlocks (simpleDecodePhase σ) :=
  (decodeLoop_safe cfg now h (by simp) hnil).seq fun _ h' => h'

theorem simpleSchedule_safe {chunkSize : Nat} {turn : Turn} (h : PagedLoop numBlocks σ)
    (hσ : σ.Initial) : PolicySafe numBlocks (simpleSchedule cfg chunkSize now turn σ) := by
  have hqueue := h.requeue hσ.pending hσ.scheduled (sortByPriority_perm now σ.objs σ.running)
    cfg now
  cases turn with
  | decode => exact simpleDecodePhase_safe cfg now hqueue hσ.runningPrefills
  | prefill =>
    have hprefill := (visitPending_safe
      (fun _ => simplePrefillStep_safe cfg now chunkSize) hqueue).imp
        fun σ₁ hrun h₁ => And.intro h₁
          (Complete.of_visit (simplePrefillLoop_steps cfg now hrun) (by simp) hσ.runningPrefills)
    refine hprefill.seq fun σ₁ ⟨h₁, hcomplete₁⟩ => ?_
    refine .ite (fun _ => ⟨h₁, hcomplete₁⟩) fun _ => ?_
    refine (admitWaiting_safe (chunkGate_sound fun _ _ _ => simpleNextNumPrefillTokens_le)
      (chunkGate_quiet fun _ _ _ => simpleNextNumPrefillTokens_error) h₁ hcomplete₁).seq
        fun σ₂ ⟨h₂, hcomplete₂⟩ => ?_
    refine .ite (fun _ => ⟨h₂, hcomplete₂⟩) fun hnone => ?_
    exact simpleDecodePhase_safe cfg now
      (h₂.requeue hcomplete₂.pending (nil_of_no_outputs hnone).1 .rfl cfg now)
      hcomplete₂.runningPrefills

theorem runPolicy_safe (now : Time) (turn : Turn) (hpolicy : cfg.policy.evictsYoungest = true)
    (h : PagedLoop numBlocks σ) (hσ : σ.Initial) :
    PolicySafe numBlocks (runPolicy cfg now turn σ) := by
  unfold runPolicy
  cases hcfg : cfg.policy with
  | vllm n => exact (vllmSchedule_safe h hσ).seq fun _ h' => h'
  | sarathi chunks => exact (sarathiSchedule_safe h hσ).seq fun _ h' => h'
  | simpleChunking chunkSize => exact simpleSchedule_safe h hσ
  | orca | fasterTransformer => simp [hcfg, Policy.evictsYoungest] at hpolicy

/-! ## The scheduler -/

/-- Invariant of the scheduler between two calls. -/
structure PagedState (numBlocks : Nat) (objs : Heap) (s : SchedulerState PagedBlockManager) :
    Prop where
  nodup : (s.waiting ++ s.running).Nodup
  partition : Partitions numBlocks s.blockManager
  perPrompt : s.blockManager.requestNumBlocks = none
  /-- The running sequences have tables, and only they. -/
  owners : ∀ id, id ∈ s.blockManager.blockTables ↔ id ∈ s.running
  backed : ∀ id table, s.blockManager.blockTables.lookup id = some table → Backs table (objs id)

/-- Every entry of the batch has a table that covers it. -/
def BatchCovered (objs : Heap) (s : SchedulerState PagedBlockManager) (out : SchedulerOutputs) :
    Prop :=
  ∀ id ∈ out.batchIds, ∃ table,
    s.blockManager.blockTables.lookup id = some table ∧ Covers table (objs id)

theorem PagedState.start {objs : Heap} {s : SchedulerState PagedBlockManager}
    (h : PagedState numBlocks objs s) : PagedLoop numBlocks (s.start objs) where
  unique id := by
    have hone := List.nodup_iff_count_le_one.mp h.nodup id
    simpa [LoopState.occurrences, SchedulerState.start, List.count_append] using hone
  partition := h.partition
  perPrompt := h.perPrompt
  owners id := by simpa [LoopState.active, SchedulerState.start] using h.owners id
  backed := h.backed
  covered := by simp [SchedulerState.start, scheduledIds]

theorem PagedLoop.pagedState (h : PagedLoop numBlocks σ) (hσ : σ.Complete)
    {numRunningBatches : Int} {turn : Turn} :
    PagedState numBlocks σ.objs
      { waiting := σ.waiting, running := σ.running, blockManager := σ.blockManager,
        numRunningBatches, whoseTurn := turn } where
  nodup := by
    rw [List.nodup_iff_count_le_one]
    intro id
    have hone := h.unique id
    simp only [LoopState.occurrences] at hone
    simp only [List.count_append]
    omega
  partition := h.partition
  perPrompt := h.perPrompt
  owners id := by
    rw [h.owners]
    simp [LoopState.active, hσ.pending, hσ.runningPrefills]
  backed := h.backed

/-- **Step lemma** for a call of `schedule`: the block manager does not raise, and afterwards the
    invariant holds and the batch is covered. -/
theorem schedule_paged (now : Time) {objs : Heap} {s : SchedulerState PagedBlockManager}
    (hpolicy : cfg.policy.evictsYoungest = true) (h : PagedState numBlocks objs s) :
    Yields (fun r => PagedState numBlocks r.1 r.2.1 ∧ BatchCovered r.1 r.2.1 r.2.2)
      NotBlockError (schedule cfg now objs s) := by
  refine .ite (fun _ => ⟨h, nofun⟩) fun _ => ?_
  have hrun := runPolicy_safe now s.whoseTurn hpolicy h.start ⟨⟨rfl, rfl⟩, rfl⟩
  refine (hrun.imp fun r hok h' => And.intro h' (runPolicy_steps ⟨⟨rfl, rfl⟩, rfl⟩ hok).1).seq ?_
  rintro ⟨σ, turn⟩ ⟨⟨h', hcomplete⟩, hsteps⟩
  refine ⟨h'.pagedState hcomplete, fun id hid => ?_⟩
  -- an entry of the batch is running, so it has a table
  have hinv := hsteps.loopInv h.nodup (LoopInv.start cfg now objs s _)
  have hactive : id ∈ σ.active := by
    simp [LoopState.active, hinv.scheduled_running id hid]
  obtain ⟨table, hlookup, -⟩ := h'.exists_table hactive
  exact ⟨table, hlookup, h'.covered id hid table hlookup⟩

/-- `on_step_completed` keeps the invariant if the tables back what the step has made of the
    sequences. -/
theorem PagedState.onStepCompleted {objs objs' : Heap} {s : SchedulerState PagedBlockManager}
    (h : PagedState numBlocks objs s)
    (hbacked : ∀ id ∈ s.running, (objs' id).isFinished = false → ∀ table,
      s.blockManager.blockTables.lookup id = some table → Backs table (objs' id)) :
    PagedState numBlocks objs' (s.onStepCompleted objs') := by
  obtain ⟨hpartition, hrequest, hmem, hlookup⟩ := PagedBlockManager.foldl_free h.partition
    (s.running.filter fun id => (objs' id).isFinished)
  -- exactly the finished sequences lose their tables
  have howners : ∀ id, id ∈ (s.onStepCompleted objs').blockManager.blockTables ↔
      id ∈ (s.onStepCompleted objs').running := by
    intro id
    have hiff := (hmem id).trans (and_congr_right' (h.owners id))
    refine hiff.trans ?_
    simp only [SchedulerState.onStepCompleted, List.mem_filter, Bool.not_eq_true']
    cases (objs' id).isFinished <;> simp
  refine ⟨?_, hpartition, hrequest.trans h.perPrompt, howners, fun id table hid => ?_⟩
  · exact h.nodup.sublist (List.Sublist.append_left List.filter_sublist _)
  · have hrunning : id ∈ (s.onStepCompleted objs').running := by
      rw [← howners, ← AList.lookup_isSome, hid, Option.isSome_some]
    simp only [SchedulerState.onStepCompleted, List.mem_filter, Bool.not_eq_true'] at hrunning
    have hkept : id ∉ s.running.filter fun id => (objs' id).isFinished := by
      simp [hrunning.2]
    exact hbacked id hrunning.1 hrunning.2 table ((hlookup id hkept).symm.trans hid)

end VAttention.Scheduler
