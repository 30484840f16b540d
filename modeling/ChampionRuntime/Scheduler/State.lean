import ChampionRuntime.Decoding.Controller
import ChampionRuntime.Lib.Dict

/-!
# The scheduler's state

Requests, queues and configuration of `scheduler.py`. The components outside the
file (the KV cache manager, the encoder cache, the connectors, the request queues,
the grammars and the stop check) are parameters; they live in a state of their own
and may answer in any way.
-/
namespace ChampionRuntime.Scheduler

open Lib

abbrev RequestId : Type := String

inductive RequestStatus where
  | waiting
  | waitingForStructuredOutputGrammar
  | waitingForRemoteKvs
  | waitingForStreamingReq
  | running
  | preempted
  | finishedStopped
  | finishedLengthCapped
  | finishedAborted
  | finishedIgnored
  | finishedError
deriving DecidableEq

def RequestStatus.isFinished : RequestStatus → Bool
  | .finishedStopped | .finishedLengthCapped | .finishedAborted | .finishedIgnored
  | .finishedError => true
  | _ => false

inductive SchedulingPolicy where
  | fcfs
  | priority
deriving DecidableEq

inductive PauseState where
  | unpaused
  | pausedNew
  | pausedAll
deriving DecidableEq

/-- The position and the size of a multimodal input. -/
structure MmFeature where
  offset : ℕ
  length : ℕ
  numEmbeds : ℕ
  identifier : String

/-- A token to be verified. The depth it was drafted at is not part of the program;
a placeholder has none. -/
structure DraftToken where
  token : ℤ
  depth : Option ℕ
deriving DecidableEq

/-- `-1` where no token was drafted. -/
def DraftToken.placeholder : DraftToken := ⟨-1, none⟩

structure StreamingUpdate where
  numPromptTokens : ℕ
  mmFeatures : List MmFeature
  arrivalTime : ℚ
  maxTokens : ℕ

structure Request where
  status : RequestStatus := .waiting
  numPromptTokens : ℕ
  /-- The length of `_all_token_ids`. -/
  numTokens : ℕ := numPromptTokens
  outputTokenIds : List ℤ := []
  maxTokens : ℕ
  priority : ℤ := 0
  arrivalTime : ℚ := 0
  numComputedTokens : ℤ := 0
  numOutputPlaceholders : ℤ := 0
  numInFlightTokens : ℤ := 0
  numStaleOutputTokens : ℤ := 0
  dropStaleOutput : Bool := false
  specTokenIds : List DraftToken := []
  isPrefillChunk : Bool := false
  nextDecodeEligibleStep : ℕ := 0
  numPreemptions : ℕ := 0
  sharedPrefixBoundary : ℤ := 0
  mmFeatures : List MmFeature := []
  loraIntId : Option ℕ := none
  isPooling : Bool := false
  resumable : Bool := false
  streamingQueue : Option (List (Option StreamingUpdate)) := none

namespace Request

def numTokensWithSpec (r : Request) : ℤ := r.numTokens + r.specTokenIds.length

def hasEncoderInputs (r : Request) : Bool := !r.mmFeatures.isEmpty

def getNumEncoderEmbeds (r : Request) (i : ℕ) : ℤ :=
  match r.mmFeatures[i]? with
  | some feature => feature.numEmbeds
  | none => 0

/-- The embeddings of some of its encoder inputs. -/
def encoderEmbeds (r : Request) (inputs : List ℕ) : ℤ := (inputs.map r.getNumEncoderEmbeds).sum

theorem encoderEmbeds_congr {r r' : Request} (h : r.mmFeatures = r'.mmFeatures) (inputs : List ℕ) :
    r.encoderEmbeds inputs = r'.encoderEmbeds inputs := by
  unfold encoderEmbeds getNumEncoderEmbeds
  rw [h]

end Request

theorem defaultBlockSize_pos : 0 < 16 := by decide

/-- What the scheduler reads of the configuration. -/
structure Config where
  policy : SchedulingPolicy := .fcfs
  maxNumRunningReqs : ℕ
  maxNumScheduledTokens : ℤ
  maxModelLen : ℤ
  longPrefillTokenThreshold : ℤ := 0
  enableDecodeAwarePrefill : Bool := false
  decodePrefillTokenBudget : ℤ := 1024
  idlePrefillTokenBudget : ℤ := 16384
  maxLongPrefillsPerStep : ℕ := 1
  enableChunkedPrefill : Bool := true
  disableChunkedMmInput : Bool := false
  isDiffusion : Bool := false
  isEncoderDecoder : Bool := false
  numSpecTokens : ℕ := 0
  numLookaheadTokens : ℕ := 0
  dynamicSdLookup : Option (List ℕ) := none
  useEagle : Bool := false
  /-- `self.block_size` -/
  blockSize : ℕ := 16
  /-- `cache_config.block_size` -/
  cacheBlockSize : ℕ := 16
  hashBlockSize : ℕ := blockSize
  needMambaBlockAlignedSplit : Bool := false
  mambaPartialCacheHit : Bool := false
  maxNumEncoderInputTokens : ℤ := 0
  maxLoras : Option ℕ := none
  schedulerReserveFullIsl : Bool := false
  hasConnector : Bool := false
  hasEcConnector : Bool := false
  requiresKvDelivery : Bool := false
  recomputeKvLoadFailures : Bool := true
  blockSize_pos : 0 < blockSize := by exact defaultBlockSize_pos
  cacheBlockSize_pos : 0 < cacheBlockSize := by exact defaultBlockSize_pos

/-- Diffusion models may sample no token in a step. -/
def Config.numSampledTokensPerStep (cfg : Config) : ℕ := if cfg.isDiffusion then 0 else 1

/-- The arguments of `allocate_slots`. -/
structure AllocateSlots where
  request : Request
  numNewTokens : ℤ
  numNewComputedTokens : ℤ := 0
  numLookaheadTokens : ℕ
  numExternalComputedTokens : ℤ := 0
  delayCacheBlocks : Bool := false
  numEncoderTokens : ℕ := 0
  fullSequenceMustFit : Bool := false
  hasScheduledReqs : Bool := true

/-- Where the grammar of a structured output stands. -/
inductive GrammarState where
  | pending
  | failed
  | ready
deriving DecidableEq

/-- A request queue is the list of its requests in the order it hands them out; no
operation loses one or makes one up. -/
structure RequestQueues where
  add : (RequestId → Request) → RequestId → List RequestId → List RequestId
  prepend : (RequestId → Request) → RequestId → List RequestId → List RequestId
  prependAll : (RequestId → Request) → List RequestId → List RequestId → List RequestId
  /-- `waiting_req < skipped_req` of the priority policy -/
  before : Request → Request → Bool
  add_perm : ∀ request id queue, (add request id queue).Perm (id :: queue)
  prepend_perm : ∀ request id queue, (prepend request id queue).Perm (id :: queue)
  prependAll_perm : ∀ request ids queue, (prependAll request ids queue).Perm (ids ++ queue)

/-- The queues of the first-come-first-served policy. -/
def RequestQueues.fcfs : RequestQueues where
  add _ id queue := queue ++ [id]
  prepend _ id queue := id :: queue
  prependAll _ ids queue := ids.reverse ++ queue
  before _ _ := true
  add_perm _ id queue := List.perm_append_singleton id queue
  prepend_perm _ _ _ := .refl _
  prependAll_perm _ ids queue := ids.reverse_perm.append_right queue

/-- The components around the scheduler with the state `σ` they share. -/
structure Services (σ : Type) where
  queues : RequestQueues
  allocateSlots : σ → RequestId → AllocateSlots → Bool × σ
  /-- Locally computed tokens and the shared-prefix boundary. -/
  getComputedBlocks : σ → RequestId → Request → (ℕ × ℕ) × σ
  /-- The same, and whether the groups' hits diverge. -/
  getComputedBlocksForConnector : σ → RequestId → Request → (ℕ × ℕ × Bool) × σ
  getNumNewMatchedTokens : σ → RequestId → Request → ℕ → (Option ℕ × Bool) × σ
  ensureCacheAvailable : σ → RequestId → Request → ℤ → Bool × σ
  /-- The indices of the features in a window of positions. -/
  getMmFeaturesInWindow : List MmFeature → ℤ → ℤ → ℕ × ℕ
  checkAndUpdateCache : σ → RequestId → Request → ℕ → Bool × σ
  canAllocateEncoder : σ → RequestId → Request → ℕ → ℤ → ℤ → Bool × σ
  /-- The number of embeddings of a feature in a range of its positions. -/
  numEmbedsInRange : MmFeature → ℤ → ℤ → ℤ
  hasCacheItem : σ → String → Bool
  grammarState : σ → RequestId → GrammarState
  shouldAdvance : σ → RequestId → Request → Bool
  validateTokens : σ → RequestId → List DraftToken → List DraftToken
  /-- Whether the grammar takes the new tokens it is shown. -/
  acceptTokens : σ → RequestId → Request → List ℤ → Bool × σ
  /-- The blocks of a request. -/
  getBlockIds : σ → RequestId → List ℕ
  /-- `check_stop`: the status of a request that is to stop. -/
  checkStop : Request → ℤ → Option RequestStatus
  /-- Whether a connector still needs the blocks of a finished request. -/
  delayFreeBlocks : σ → RequestId → Bool
  window_before : ∀ (features : List MmFeature) (start stop : ℤ) (i : ℕ),
    i < (getMmFeaturesInWindow features start stop).2 →
      ∃ feature, features[i]? = some feature ∧ (feature.offset : ℤ) < stop
  validateTokens_prefix : ∀ s id drafts, validateTokens s id drafts <+: drafts
  checkStop_finished : ∀ request maxModelLen status,
    checkStop request maxModelLen = some status → status.isFinished = true

/-- The fields of `Scheduler` that its methods change. -/
structure State (σ : Type) where
  /-- The request objects by id. -/
  request : RequestId → Request
  /-- The keys of `self.requests`. -/
  requests : List RequestId := []
  running : List RequestId := []
  waiting : List RequestId := []
  skippedWaiting : List RequestId := []
  currentStep : ℕ := 0
  pauseState : PauseState := .unpaused
  prefillCapacityBound : Bool := false
  longPrefillLastScheduled : RequestId → Option ℕ := fun _ => none
  longPrefillGateSkips : ℕ := 0
  longPrefillWastedTurns : ℕ := 0
  numWaitingForStreamingInput : ℤ := 0
  finishedReqIds : List RequestId := []
  resetPreemptedReqIds : List RequestId := []
  finishedRecvingKvReqIds : List RequestId := []
  failedRecvingKvReqIds : List RequestId := []
  grammarCompileErrorReqs : List RequestId := []
  acceptanceLengthController : Option Decoding.AcceptanceLengthController := none
  services : σ

namespace State

variable {σ : Type}

def setRequest (s : State σ) (id : RequestId) (r : Request) : State σ :=
  { s with request := Function.update s.request id r }

@[simp] theorem setRequest_self (s : State σ) (id : RequestId) (r : Request) :
    (s.setRequest id r).request id = r := by
  unfold setRequest
  exact Function.update_self id r s.request

theorem setRequest_of_ne (s : State σ) {id id' : RequestId} (h : id' ≠ id) (r : Request) :
    (s.setRequest id r).request id' = s.request id' := by
  unfold setRequest
  exact Function.update_of_ne h r s.request

end State

/-- `SchedulerOutput`, as far as the scheduler itself reads it back. -/
structure SchedulerOutput where
  numScheduledTokens : Dict RequestId ℤ
  totalNumScheduledTokens : ℤ
  scheduledSpecDecodeTokens : Dict RequestId (List DraftToken)
  scheduledEncoderInputs : Dict RequestId (List ℕ)
  numSpecTokensToSchedule : ℕ
  numInvalidSpecTokens : Dict RequestId ℕ := Keyed.empty

end ChampionRuntime.Scheduler
