import Mathlib
import VAttention.Lib.Checks

/-!
# Sequences

Model of `core/datatypes`: sampling parameters, the status of a sequence and its allowed
transitions, the `Sequence` object with the methods the engine, the scheduler and the
workers call on it, and the records exchanged between them.

## Conventions

- Python exceptions are values of `PyError`; a method that can raise returns in `Except`.
- Strings that the code inspects (`output_text`, stop strings) are lists of characters.
- Time stamps are integers: only their order and their differences are used.
- The time statistics of `SequenceState` are left out.
-/

namespace VAttention.Core

open VAttention.Lib

abbrev SeqId := Nat
abbrev TokenId := Nat
abbrev Text := List Char
abbrev Time := Int

/-! ## Status -/

/-- `SequenceStatus`. -/
inductive SequenceStatus where
  | waiting
  | running
  | paused
  | finishedStopped
  | finishedLengthCapped
  | finishedIgnored
  deriving DecidableEq, Repr

namespace SequenceStatus

def isFinished : SequenceStatus → Bool
  | finishedStopped | finishedLengthCapped | finishedIgnored => true
  | _ => false

def isExecuting : SequenceStatus → Bool
  | running | paused => true
  | _ => false

/-- `get_finished_reason`. -/
def getFinishedReason : SequenceStatus → Option String
  | finishedStopped => some "stop"
  | finishedLengthCapped | finishedIgnored => some "length"
  | _ => none

/-- The transitions that `SequenceState.set_status` accepts. -/
def canBecome : SequenceStatus → SequenceStatus → Bool
  | waiting, running | waiting, finishedIgnored => true
  | running, paused | running, waiting => true
  | paused, finishedStopped | paused, finishedLengthCapped => true
  | paused, running | paused, waiting => true
  | _, _ => false

end SequenceStatus

/-- The exceptions the modelled code can raise. -/
inductive PyError where
  | assertionError (msg : String)
  | valueError (msg : String)
  /-- `ValueError`: "Invalid state transition from {old} to {new} for request {id}." -/
  | invalidTransition (old new : SequenceStatus) (id : SeqId)
  | keyError (id : SeqId)
  /-- `KeyError` of a dictionary with names as keys. -/
  | missingKey (key : String)
  | indexError
  /-- `raise Exception(...)`. -/
  | exception (msg : String)
  /-- A C++ `std::runtime_error` that reaches Python. -/
  | runtimeError (msg : String)
  deriving DecidableEq, Repr

/-- `isinstance(e, ValueError)`. -/
def PyError.isValueError : PyError → Bool
  | .valueError _ | .invalidTransition .. => true
  | _ => false

/-! ## Sampling parameters -/

/-- `SamplingType`. -/
inductive SamplingType where
  | greedy
  | random
  deriving DecidableEq, Repr

theorem defaultMaxTokens_pos : 0 < 16 := by decide

/-- `SamplingParams`, with the part of the checks of `__init__` that other code relies on.
    The temperature is given in units of `1e-5`, the threshold `_SAMPLING_EPS` below which
    sampling is greedy. -/
structure SamplingParams where
  temperature : Nat := 100000
  stop : List Text := []
  ignoreEos : Bool := false
  maxTokens : Nat := 16
  maxTokens_pos : 0 < maxTokens := by
    first | exact defaultMaxTokens_pos | exact Nat.one_pos | exact Nat.two_pos | decide
  deriving DecidableEq

/-- `sampling_type`. -/
def SamplingParams.samplingType (p : SamplingParams) : SamplingType :=
  if p.temperature < 1 then .greedy else .random

/-! ## The sequence object -/

/-- `Sequence`.  A logical token block is the list of the tokens it holds. -/
structure Sequence where
  seqId : SeqId
  prompt : Text
  promptTokenIds : List TokenId
  blockSize : Nat
  eosTokenId : Option TokenId
  arrivalTime : Time
  samplingParams : SamplingParams
  outputTokenIds : List TokenId
  promptTokensProcessed : Nat
  promptProcessingFinished : Bool
  outputText : Text
  logicalTokenBlocks : List (List TokenId)
  /-- State of incremental detokenisation. -/
  prefixOffset : Nat
  readOffset : Nat
  tokens : Option (List Text)
  status : SequenceStatus
  deriving DecidableEq

/-- The loop of `_append_tokens_to_blocks`, with a bound on its iterations.  An iteration
    fills the last block, after opening a new one if there is none or it is full; with
    `block_size` 0 the source loops forever. -/
def appendTokensLoop (blockSize : Nat) :
    Nat → List (List TokenId) → List TokenId → List (List TokenId)
  | 0, blocks, _ => blocks
  | fuel + 1, blocks, tokenIds =>
    if tokenIds.isEmpty then blocks
    else
      let blocks :=
        match blocks.getLast? with
        | none => [[]]
        | some last => if last.length = blockSize then blocks ++ [[]] else blocks
      let last := blocks.getLastD []
      let numEmptySlots := blockSize - last.length
      appendTokensLoop blockSize fuel
        (blocks.dropLast ++ [last ++ tokenIds.take numEmptySlots]) (tokenIds.drop numEmptySlots)

/-- `_append_tokens_to_blocks`: each iteration stores at least one token. -/
def appendTokensToBlocks (blockSize : Nat) (blocks : List (List TokenId))
    (tokenIds : List TokenId) : List (List TokenId) :=
  appendTokensLoop blockSize tokenIds.length blocks tokenIds

namespace Sequence

/-- `Sequence.__init__`. -/
def new (seqId : SeqId) (prompt : Text) (promptTokenIds : List TokenId) (blockSize : Nat)
    (eosTokenId : Option TokenId) (arrivalTime : Time) (samplingParams : SamplingParams) :
    Sequence where
  seqId := seqId
  prompt := prompt
  promptTokenIds := promptTokenIds
  blockSize := blockSize
  eosTokenId := eosTokenId
  arrivalTime := arrivalTime
  samplingParams := samplingParams
  outputTokenIds := []
  promptTokensProcessed := 0
  promptProcessingFinished := false
  outputText := []
  logicalTokenBlocks := appendTokensToBlocks blockSize [] promptTokenIds
  prefixOffset := 0
  readOffset := 0
  tokens := none
  status := .waiting

variable (s : Sequence)

/-- `get_len`. -/
def getLen : Nat := s.outputTokenIds.length + s.promptTokenIds.length

/-- `get_prompt_len`. -/
def getPromptLen : Nat := s.promptTokenIds.length

/-- `get_output_len`. -/
def getOutputLen : Nat := s.outputTokenIds.length

/-- `get_token_ids`. -/
def getTokenIds : List TokenId := s.promptTokenIds ++ s.outputTokenIds

/-- `get_last_token_id`; indexing an empty prompt raises. -/
def getLastTokenId : Except PyError TokenId :=
  match s.outputTokenIds.getLast? with
  | some t => .ok t
  | none =>
    match s.promptTokenIds.getLast? with
    | some t => .ok t
    | none => .error .indexError

/-- `get_next_prompt_chunk_token_ids`. -/
def getNextPromptChunkTokenIds (chunkSize : Nat) : Except PyError (List TokenId) := do
  assertThat (s.promptTokensProcessed + chunkSize ≤ s.promptTokenIds.length)
    (.assertionError "end <= len(self.prompt_token_ids)")
  pure ((s.promptTokenIds.drop s.promptTokensProcessed).take chunkSize)

/-- `get_next_prompt_chunk_len`. -/
def getNextPromptChunkLen (chunkSize : Int) : Int :=
  min chunkSize (s.promptTokenIds.length - s.promptTokensProcessed)

def isFinished : Bool := s.status.isFinished
def isExecuting : Bool := s.status.isExecuting
def isWaiting : Bool := s.status == .waiting
def isPaused : Bool := s.status == .paused
def isRunning : Bool := s.status == .running

/-- `set_status`. -/
def setStatus (status : SequenceStatus) : Except PyError Sequence :=
  if s.status.canBecome status then .ok { s with status }
  else .error (.invalidTransition s.status status s.seqId)

/-- `update_prompt_tokens_processed`.  A chunk length is an `int` and may be negative. -/
def updatePromptTokensProcessed (numTokens : Int) : Except PyError Sequence := do
  assertThat (!s.promptProcessingFinished) (.assertionError "not self.prompt_processing_finished")
  assertThat (0 < numTokens) (.assertionError "num_tokens > 0")
  let processed := s.promptTokensProcessed + numTokens.toNat
  assertThat (processed ≤ s.promptTokenIds.length)
    (.assertionError "self.prompt_tokens_processed <= len(self.prompt_token_ids)")
  pure { s with
    promptTokensProcessed := processed
    promptProcessingFinished := processed == s.promptTokenIds.length }

/-- `append_token_id`. -/
def appendTokenId (tokenId : TokenId) : Except PyError Sequence := do
  assertThat s.promptProcessingFinished (.assertionError "self.prompt_processing_finished")
  pure { s with
    outputTokenIds := s.outputTokenIds ++ [tokenId]
    logicalTokenBlocks := appendTokensToBlocks s.blockSize s.logicalTokenBlocks [tokenId] }

/-- `reset_for_recompute`: the generated tokens become part of the prompt. -/
def resetForRecompute : Except PyError Sequence := do
  let s ← s.setStatus .waiting
  pure { s with
    promptTokensProcessed := 0
    promptProcessingFinished := false
    promptTokenIds := s.promptTokenIds ++ s.outputTokenIds
    outputTokenIds := [] }

/-- `text[: -len(stop)]`; for an empty stop string this is the empty text. -/
def truncateStop (text stop : Text) : Text :=
  if stop.isEmpty then [] else text.take (text.length - stop.length)

/-- `check_stop`. -/
def checkStop : Except PyError Sequence :=
  match s.samplingParams.stop.find? fun stop => stop.isSuffixOf s.outputText with
  | some stop =>
    { s with outputText := truncateStop s.outputText stop }.setStatus .finishedStopped
  | none =>
    if s.getOutputLen = s.samplingParams.maxTokens then s.setStatus .finishedLengthCapped
    else if s.samplingParams.ignoreEos then .ok s
    else do
      let last ← s.getLastTokenId
      if some last = s.eosTokenId then s.setStatus .finishedStopped else pure s

end Sequence

/-- The sequence objects of one process, by id. -/
abbrev Heap := SeqId → Sequence

/-! ## Records exchanged between the components -/

/-- `SequenceScheduleMetadata`. -/
structure SequenceScheduleMetadata where
  seqId : SeqId
  promptChunkLen : Int
  deriving DecidableEq, Repr

/-- The chunk length that `SequenceScheduleMetadata.from_sequence` falls back to. -/
def Sequence.defaultChunkLen (s : Sequence) : Int :=
  if s.promptProcessingFinished then 0 else s.getPromptLen

/-- `is_prompt`. -/
def SequenceScheduleMetadata.isPrompt (m : SequenceScheduleMetadata) : Bool :=
  0 < m.promptChunkLen

/-- `num_tokens`. -/
def SequenceScheduleMetadata.numTokens (m : SequenceScheduleMetadata) : Int :=
  max m.promptChunkLen 1

/-- `SequenceMetadata`: the materialised form, with the sequence object itself. -/
structure SequenceMetadata where
  seq : Sequence
  promptChunkLen : Int

/-- `is_prompt`. -/
def SequenceMetadata.isPrompt (m : SequenceMetadata) : Bool := 0 < m.promptChunkLen

/-- `SchedulerOutputs`. -/
structure SchedulerOutputs where
  ignoredSeqIds : List SeqId
  preemptedSeqIds : List SeqId
  scheduledSeqMetadataList : List SequenceScheduleMetadata
  deriving DecidableEq, Repr

/-- The sequence ids of a list of schedule entries. -/
def scheduledIds (scheduled : List SequenceScheduleMetadata) : List SeqId :=
  scheduled.map SequenceScheduleMetadata.seqId

/-- The sequence ids of the batch. -/
abbrev SchedulerOutputs.batchIds (o : SchedulerOutputs) : List SeqId :=
  scheduledIds o.scheduledSeqMetadataList

/-- `num_batched_tokens`. -/
def SchedulerOutputs.numBatchedTokens (o : SchedulerOutputs) : Int :=
  (o.scheduledSeqMetadataList.map SequenceScheduleMetadata.numTokens).sum

/-- No sequence is in two of the lists, except that an evicted one may be scheduled again. -/
structure SchedulerOutputs.WellFormed (out : SchedulerOutputs) : Prop where
  ignored_nodup : out.ignoredSeqIds.Nodup
  preempted_nodup : out.preemptedSeqIds.Nodup
  batch_nodup : out.batchIds.Nodup
  ignored_preempted : ∀ id ∈ out.ignoredSeqIds, id ∉ out.preemptedSeqIds
  ignored_batch : ∀ id ∈ out.ignoredSeqIds, id ∉ out.batchIds

/-- `is_empty`: ignored and preempted sequences are not considered. -/
def SchedulerOutputs.isEmpty (o : SchedulerOutputs) : Bool := o.scheduledSeqMetadataList.isEmpty

/-- `has_no_output`: nothing is scheduled, ignored or preempted. -/
def SchedulerOutputs.hasNoOutput (o : SchedulerOutputs) : Bool :=
  o.scheduledSeqMetadataList.isEmpty && o.ignoredSeqIds.isEmpty && o.preemptedSeqIds.isEmpty

/-- `SamplerOutput`. -/
structure SamplerOutput where
  seqId : SeqId
  outputToken : TokenId
  deriving DecidableEq, Repr

/-- `RequestOutput`. -/
structure RequestOutput where
  seqId : SeqId
  prompt : Text
  promptTokenIds : List TokenId
  text : Text
  tokenIds : List TokenId
  finished : Bool
  finishReason : Option String
  deriving DecidableEq, Repr

/-- `RequestOutput.from_seq`. -/
def RequestOutput.fromSeq (s : Sequence) : RequestOutput where
  seqId := s.seqId
  prompt := s.prompt
  promptTokenIds := s.promptTokenIds
  text := s.outputText
  tokenIds := s.outputTokenIds
  finished := s.isFinished
  finishReason := s.status.getFinishedReason

end VAttention.Core
