import Mathlib.Data.Finset.Basic
import VAttention.Core.BlockManager

/-!
# Sequence managers

Model of `core/sequence_manager`.  The engine and every worker keep their own objects for
the sequences and apply the scheduler's decisions to them; the base class does the common
work and calls hooks that the two sides fill in differently: the engine detokenises, the
worker drives its own block manager.
-/

namespace VAttention.Manager

open VAttention.Core VAttention.Lib

/-- A sequence manager: the objects, the key set of `seq_map`, and what the hooks work on.
    An object can outlive its `seq_map` entry, because the caller still refers to it. -/
structure Replica (μ : Type) where
  objs : Heap
  seqMap : Finset SeqId
  ext : μ

/-- What the subclasses add to the methods of `BaseSequenceManager`. -/
structure ManagerHooks (μ : Type) where
  onFree : SeqId → Sequence → μ → μ
  /-- Called with the sequence after its reset. -/
  onPreempt : SeqId → Sequence → μ → μ
  onScheduled : SeqId → Sequence → μ → Except PyError μ
  onAppendToken : Sequence → Sequence

/-! ## The base class -/

namespace Replica

variable {μ : Type} (hooks : ManagerHooks μ)

/-- `seq_map = {}`; which objects exist before the first `add_seq` does not matter. -/
def empty (objs : Heap) (ext : μ) : Replica μ where
  objs := objs
  seqMap := ∅
  ext := ext

/-- Assign the object of a sequence. -/
def setSeq (r : Replica μ) (id : SeqId) (seq : Sequence) : Replica μ :=
  { r with objs := Function.update r.objs id seq }

def assertKnown (r : Replica μ) (id : SeqId) : Except PyError Unit :=
  assertThat (id ∈ r.seqMap) (.assertionError "seq_id in self.seq_map")

/-- `add_seq`. -/
def addSeq (r : Replica μ) (seq : Sequence) : Except PyError (Replica μ) := do
  assertThat (seq.seqId ∉ r.seqMap) (.assertionError "seq.seq_id not in self.seq_map")
  pure { r.setSeq seq.seqId seq with seqMap := insert seq.seqId r.seqMap }

/-- `_free_seq`. -/
def freeSeq (r : Replica μ) (id : SeqId) : Except PyError (Replica μ) := do
  r.assertKnown id
  pure { r with seqMap := r.seqMap.erase id, ext := hooks.onFree id (r.objs id) r.ext }

/-- `_preempt_seq`. -/
def preemptSeq (r : Replica μ) (id : SeqId) : Except PyError (Replica μ) := do
  r.assertKnown id
  assertThat (r.objs id).isExecuting (.assertionError "seq.is_executing()")
  let seq ← (r.objs id).resetForRecompute
  pure { r.setSeq id seq with ext := hooks.onPreempt id seq r.ext }

/-- `_pause_seq`. -/
def pauseSeq (r : Replica μ) (id : SeqId) : Except PyError (Replica μ) := do
  r.assertKnown id
  assertThat (r.objs id).isRunning (.assertionError "seq.is_running()")
  let seq ← (r.objs id).setStatus .paused
  pure (r.setSeq id seq)

/-- `_resume_seq`. -/
def resumeSeq (r : Replica μ) (id : SeqId) : Except PyError (Replica μ) := do
  r.assertKnown id
  assertThat ((r.objs id).isWaiting || (r.objs id).isPaused)
    (.assertionError "seq.is_waiting() or seq.is_paused()")
  let seq ← (r.objs id).setStatus .running
  pure (r.setSeq id seq)

/-- `_on_seq_scheduled`. -/
def onSeqScheduled (r : Replica μ) (m : SequenceScheduleMetadata) :
    Except PyError (Replica μ) := do
  r.assertKnown m.seqId
  let r ← r.resumeSeq m.seqId
  let ext ← hooks.onScheduled m.seqId (r.objs m.seqId) r.ext
  pure { r with ext }

/-- `on_schedule`. -/
def onSchedule (out : SchedulerOutputs) (r : Replica μ) : Except PyError (Replica μ) := do
  let r ← out.ignoredSeqIds.foldlM (freeSeq hooks) r
  let r ← out.preemptedSeqIds.foldlM (preemptSeq hooks) r
  out.scheduledSeqMetadataList.foldlM (onSeqScheduled hooks) r

/-- The `SequenceMetadata` list that `on_schedule` returns.  It refers to the objects, so it
    is read off the replica wherever it is used. -/
def metadataList (out : SchedulerOutputs) (r : Replica μ) : List SequenceMetadata :=
  out.scheduledSeqMetadataList.map fun m => ⟨r.objs m.seqId, m.promptChunkLen⟩

/-- `_process_seq_output`. -/
def processSeqOutput (r : Replica μ) (id : SeqId) (outputToken : TokenId)
    (promptChunkLen : Int) : Except PyError (Replica μ) := do
  r.assertKnown id
  assertThat (!(r.objs id).isFinished) (.assertionError "not seq.is_finished()")
  if !(r.objs id).promptProcessingFinished then
    -- the token sampled with the last chunk of a prompt is dropped
    let seq ← (r.objs id).updatePromptTokensProcessed promptChunkLen
    pure (r.setSeq id seq)
  else
    let seq ← (r.objs id).appendTokenId outputToken
    let seq ← (hooks.onAppendToken seq).checkStop
    if seq.isFinished then (r.setSeq id seq).freeSeq hooks id else pure (r.setSeq id seq)

/-- One turn of the loop of `on_step_completed`. -/
def completeSeq (sampled : SeqId → TokenId) (r : Replica μ) (m : SequenceScheduleMetadata) :
    Except PyError (Replica μ) :=
  if m.seqId ∉ r.seqMap then .error (.keyError m.seqId)
  else if (r.objs m.seqId).isWaiting then .ok r
  else do
    let r ← r.pauseSeq m.seqId
    r.processSeqOutput hooks m.seqId (sampled m.seqId) m.promptChunkLen

/-- `on_step_completed`.  The sampler returns one output for each entry of the batch, and the
    loop pairs the two lists by position; as the ids of a batch are distinct, the tokens are
    given here as a function of the id. -/
def onStepCompleted (out : SchedulerOutputs) (sampled : SeqId → TokenId) (r : Replica μ) :
    Except PyError (Replica μ) :=
  out.scheduledSeqMetadataList.foldlM (completeSeq hooks sampled) r

/-- `generate_request_outputs`. -/
def generateRequestOutputs (out : SchedulerOutputs) (r : Replica μ) : List RequestOutput :=
  (out.ignoredSeqIds ++ out.batchIds).map fun id => RequestOutput.fromSeq (r.objs id)

end Replica

/-! ## The two sides -/

/-- What `detokenize_incrementally` returns. -/
structure Detokenized where
  newTokens : List Text
  newOutputText : Text
  prefixOffset : Nat
  readOffset : Nat

/-- `detokenize_incrementally`, for a fixed tokenizer: from all token ids, the tokens decoded
    so far and the two offsets. -/
abbrev Detokenizer := List TokenId → Option (List Text) → Nat → Nat → Detokenized

/-- `EngineSequenceManager._decode_seq`. -/
def decodeSeq (detokenize : Detokenizer) (seq : Sequence) : Sequence :=
  let d := detokenize seq.getTokenIds seq.tokens seq.prefixOffset seq.readOffset
  { seq with
    tokens := some (seq.tokens.getD [] ++ d.newTokens)
    prefixOffset := d.prefixOffset
    readOffset := d.readOffset
    outputText := seq.outputText ++ d.newOutputText }

/-- `EngineSequenceManager`. -/
def engineHooks (detokenize : Detokenizer) : ManagerHooks Unit where
  onFree _ _ := id
  onPreempt _ _ := id
  onScheduled _ _ := pure
  onAppendToken := decodeSeq detokenize

/-- `WorkerSequenceManager`, with its own block manager. -/
def workerHooks (β : Type) [BlockSpaceManager β] : ManagerHooks β where
  onFree id seq bm :=
    if BlockSpaceManager.isAllocated bm id then BlockSpaceManager.free bm id seq else bm
  onPreempt id seq bm := BlockSpaceManager.free bm id seq
  onScheduled id seq bm :=
    if BlockSpaceManager.isAllocated bm id then BlockSpaceManager.appendSlot bm id seq
    else BlockSpaceManager.allocate bm id seq
  onAppendToken := id

end VAttention.Manager
