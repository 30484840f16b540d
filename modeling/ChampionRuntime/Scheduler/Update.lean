import ChampionRuntime.Scheduler.Schedule

/-!
# Between two steps

`update_from_output`, the drafts' way back to the requests, and what comes from
outside: new, finished and preempted requests.
-/
namespace ChampionRuntime.Scheduler

open Lib

variable {σ : Type} (cfg : Config) (svc : Services σ)

def State.enqueueWaitingRequest (s : State σ) (id : RequestId) : State σ :=
  if isBlockedWaitingStatus (s.request id).status then
    { s with skippedWaiting := svc.queues.add s.request id s.skippedWaiting }
  else { s with waiting := svc.queues.add s.request id s.waiting }

/-- Where the slice `[:stop]` of a list ends; a negative stop counts from the end. -/
def sliceEnd (length : ℕ) (stop : ℤ) : ℕ :=
  if 0 ≤ stop then min length stop.toNat else length - stop.natAbs

/-- What `_update_request_as_session` makes of the request: its output is dropped but for
the computed tokens, which join the prompt. -/
def Request.updateAsSession (r : Request) (update : StreamingUpdate) : Request :=
  let kept := sliceEnd r.numTokens r.numComputedTokens
  let base : ℕ := kept
  { r with
    numTokens := kept + update.numPromptTokens
    outputTokenIds := []
    numPromptTokens := r.numPromptTokens + (kept - r.numPromptTokens) + update.numPromptTokens
    mmFeatures := r.mmFeatures ++ update.mmFeatures.map fun feature =>
      { feature with offset := feature.offset + base }
    arrivalTime := update.arrivalTime
    maxTokens := update.maxTokens
    status := .waiting }

def State.updateRequestAsSession (s : State σ) (id : RequestId) (update : StreamingUpdate) :
    State σ :=
  { s.setRequest id ((s.request id).updateAsSession update) with
    numWaitingForStreamingInput :=
      if (s.request id).status = .waitingForStreamingReq then s.numWaitingForStreamingInput - 1
      else s.numWaitingForStreamingInput }

/-- `_free_request`; the blocks and the entry stay while a connector needs them. -/
def State.freeRequest (s : State σ) (id : RequestId) (delayFreeBlocks : Bool) : State σ :=
  { s with
    finishedReqIds := id :: s.finishedReqIds
    requests :=
      if delayFreeBlocks || svc.delayFreeBlocks s.services id then s.requests
      else s.requests.filter (· ≠ id) }

/-- The second pass of `finish_requests` over one request. -/
def State.finishRequest (s : State σ) (finishedStatus : RequestStatus) (id : RequestId) : State σ :=
  let loading := (s.request id).status = .waitingForRemoteKvs
  let delayFreeBlocks := loading ∧ id ∉ s.finishedRecvingKvReqIds
  let s :=
    if loading then
      { s with
        finishedRecvingKvReqIds := s.finishedRecvingKvReqIds.filter (· ≠ id)
        failedRecvingKvReqIds := s.failedRecvingKvReqIds.filter (· ≠ id) }
    else s
  (s.setRequest id { s.request id with status := finishedStatus }).freeRequest svc id delayFreeBlocks

def State.finishRequests (s : State σ) (requestIds : List RequestId)
    (finishedStatus : RequestStatus) : State σ :=
  let valid := requestIds.eraseDups.filter fun id =>
    id ∈ s.requests ∧ (s.request id).status.isFinished = false
  let running := valid.filter fun id => (s.request id).status = .running
  let waiting := valid.filter fun id => (s.request id).status ≠ .running
  let streaming := waiting.filter fun id => (s.request id).status = .waitingForStreamingReq
  let s := { s with
    running := s.running.filter (· ∉ running)
    waiting := s.waiting.filter (· ∉ waiting)
    skippedWaiting := s.skippedWaiting.filter (· ∉ waiting)
    numWaitingForStreamingInput := s.numWaitingForStreamingInput - streaming.length }
  valid.foldl (fun s id => s.finishRequest svc finishedStatus id) s

/-- `add_request`; `update` is `StreamingUpdate.from_request` of the request. -/
def State.addRequest (s : State σ) (id : RequestId) (r : Request)
    (update : Option StreamingUpdate) : Except String (State σ) :=
  if id ∈ s.requests then
    if (s.request id).status ≠ .waitingForStreamingReq then
      match (s.request id).streamingQueue with
      | some queue => .ok (s.setRequest id { s.request id with streamingQueue := some (queue ++ [update]) })
      | none => .error "duplicate request id"
    else
      match update with
      | some update => .ok (s.updateRequestAsSession id update)
      | none => .ok (s.finishRequests svc [id] .finishedAborted)
  else
    let r := if r.resumable then { r with streamingQueue := some [] } else r
    .ok { (s.setRequest id r).enqueueWaitingRequest svc id with requests := id :: s.requests }

/-- `reset_prefix_cache` with `reset_running_requests`: every running request is
preempted, the last one first. -/
def State.preemptRunning (s : State σ) : Except String (State σ) :=
  s.running.reverse.foldlM (fun s id => s.preemptRequest svc id true) { s with running := [] }

def State.updateDraftTokenIds (s : State σ) (draftTokenIds : List (RequestId × List DraftToken)) :
    State σ :=
  draftTokenIds.foldl (fun s p =>
    let r := s.request p.1
    if p.1 ∉ s.requests ∨ r.status.isFinished then s
    else if r.isPrefillChunk then s.setRequest p.1 { r with specTokenIds := [] }
    else s.setRequest p.1 { r with
      specTokenIds :=
        if svc.shouldAdvance s.services p.1 r then svc.validateTokens s.services p.1 p.2 else p.2 }) s

/-- One request of `update_draft_token_ids_in_output`: the drafts in place of the
placeholders, padded to their number. -/
def draftsInOutput (s : State σ) (out : SchedulerOutput) (p : RequestId × List DraftToken) :
    SchedulerOutput :=
  let r := s.request p.1
  if p.1 ∉ s.requests ∨ r.status.isFinished then out
  else
    match out.scheduledSpecDecodeTokens.get? p.1 with
    | none => out
    | some placeholders =>
      let drafts := p.2.take placeholders.length
      let drafts :=
        if svc.shouldAdvance s.services p.1 r then svc.validateTokens s.services p.1 drafts
        else drafts
      let numInvalidTokens := placeholders.length - drafts.length
      { out with
        scheduledSpecDecodeTokens := out.scheduledSpecDecodeTokens.set p.1
          (drafts ++ List.replicate numInvalidTokens .placeholder)
        numInvalidSpecTokens :=
          if numInvalidTokens ≠ 0 then out.numInvalidSpecTokens.set p.1 numInvalidTokens
          else out.numInvalidSpecTokens }

def updateDraftTokenIdsInOutput (s : State σ) (out : SchedulerOutput)
    (draftTokenIds : List (RequestId × List DraftToken)) : SchedulerOutput :=
  draftTokenIds.foldl (draftsInOutput svc s) { out with numInvalidSpecTokens := Keyed.empty }

structure ModelRunnerOutput where
  /-- The generated tokens of the requests in `req_id_to_index`. -/
  sampledTokenIds : RequestId → Option (List ℤ)
  poolerOutput : RequestId → Bool := fun _ => false
  invalidBlockIds : List ℕ := []
  finishedRecving : List RequestId := []
  finishedSending : List RequestId := []

/-- The local variables of `update_from_output` beside the fields it changes. -/
structure UpdatePass (σ : Type) extends State σ where
  adaptiveNumDrafts : ℤ := 0
  adaptiveNumDraftTokens : ℤ := 0
  adaptiveNumAcceptedTokens : ℤ := 0
  adaptivePositionEligible : List ℤ
  adaptivePositionAccepted : List ℤ
  stoppedRunningReqs : List RequestId := []
  stoppedPreemptedReqs : List RequestId := []
  /-- The drafts counted so far; not part of the program. -/
  observedDrafts : List DraftToken := []

/-- The request's drafts are verified and its rejected tokens rolled back. -/
def Request.rollBack (r : Request) (numRejected : ℤ) : Request :=
  { r with
    numComputedTokens :=
      if 0 < r.numComputedTokens then r.numComputedTokens - numRejected else r.numComputedTokens
    numOutputPlaceholders :=
      if 0 < r.numOutputPlaceholders then r.numOutputPlaceholders - numRejected
      else r.numOutputPlaceholders }

/-- Count a verified request for the acceptance-length controller. Position `pos` is
eligible when all before it are accepted. -/
def UpdatePass.observe (u : UpdatePass σ) (drafts : List DraftToken) (numAccepted : ℤ) :
    UpdatePass σ :=
  if u.acceptanceLengthController.isNone then u
  else
    { u with
      adaptiveNumDrafts := u.adaptiveNumDrafts + 1
      adaptiveNumDraftTokens := u.adaptiveNumDraftTokens + drafts.length
      adaptiveNumAcceptedTokens := u.adaptiveNumAcceptedTokens + numAccepted
      adaptivePositionEligible := u.adaptivePositionEligible.mapIdx fun i count =>
        if i < drafts.length ∧ (i = 0 ∨ (i : ℤ) ≤ numAccepted) then count + 1 else count
      adaptivePositionAccepted := u.adaptivePositionAccepted.mapIdx fun i count =>
        if i < drafts.length ∧ (i + 1 : ℤ) ≤ numAccepted then count + 1 else count
      observedDrafts := u.observedDrafts ++ drafts }

/-- `_update_request_with_output`: append tokens until the request is to stop. -/
def updateRequestWithOutput : List ℤ → Request → List ℤ × Bool × Request
  | [], r => ([], false, r)
  | token :: tokens, r =>
    let r := { r with
      numTokens := r.numTokens + 1
      outputTokenIds := r.outputTokenIds ++ [token] }
    match svc.checkStop r cfg.maxModelLen with
    | some status => ([token], true, { r with status := status })
    | none =>
      let (kept, stopped, r) := updateRequestWithOutput tokens r
      (token :: kept, stopped, r)

/-- `_handle_stopped_request`, and the request is freed if it is finished. -/
def State.handleStoppedRequest (s : State σ) (id : RequestId) : State σ :=
  let r := s.request id
  if r.resumable = false then s.freeRequest svc id false
  else
    match r.streamingQueue.getD [] with
    | none :: queue =>
      (s.setRequest id { r with streamingQueue := some queue }).freeRequest svc id false
    | some update :: queue =>
      ((s.setRequest id { r with streamingQueue := some queue }).updateRequestAsSession id update)
        |>.enqueueWaitingRequest svc id
    | [] =>
      { s.setRequest id { r with status := .waitingForStreamingReq } with
        numWaitingForStreamingInput := s.numWaitingForStreamingInput + 1 }
        |>.enqueueWaitingRequest svc id

/-- Append the generated tokens, or take the pooler's output; `true` if the request stops. -/
def appendOutput (mo : ModelRunnerOutput) (id : RequestId) (generated : List ℤ) (r : Request) :
    List ℤ × Bool × Request :=
  if generated ≠ [] then updateRequestWithOutput cfg svc generated r
  else if r.isPooling ∧ mo.poolerOutput id then ([], true, { r with status := .finishedStopped })
  else ([], false, r)

/-- The output of a request, and the grammar's verdict on what is new. -/
def receiveOutput (mo : ModelRunnerOutput) (id : RequestId) (generated : List ℤ) (r : Request)
    (s : σ) : Bool × Request × σ :=
  let (newTokenIds, stopped, r) := appendOutput cfg svc mo id generated r
  if newTokenIds ≠ [] ∧ svc.shouldAdvance s id r then
    let (accepted, s) := svc.acceptTokens s id r newTokenIds
    if accepted then (stopped, r, s)
    else (true, { r with status := .finishedError, resumable := false }, s)
  else (stopped, r, s)

/-- `num_in_flight_tokens` and the stale share, less the step's tokens. -/
def Request.drain (r : Request) (numTokensScheduled : ℤ) : Request :=
  { r with
    numInFlightTokens := r.numInFlightTokens - numTokensScheduled
    numStaleOutputTokens :=
      if 0 < r.numStaleOutputTokens then r.numStaleOutputTokens - numTokensScheduled
      else r.numStaleOutputTokens }

/-- The drafts of a request are verified: counted, and the rejected ones rolled back. -/
def verifyDrafts (out : SchedulerOutput) (id : RequestId) (outputIsStale : Bool)
    (generated : List ℤ) (u : UpdatePass σ) : UpdatePass σ :=
  let drafts := (out.scheduledSpecDecodeTokens.get? id).getD []
  if drafts ≠ [] ∧ (generated ≠ [] ∨ cfg.numSampledTokensPerStep = 0) ∧ outputIsStale = false then
    let numAccepted : ℤ := max ((generated.length : ℤ) - cfg.numSampledTokensPerStep) 0
    let u := u.observe drafts numAccepted
    { u with toState := u.setRequest id ((u.request id).rollBack (drafts.length - numAccepted)) }
  else u

/-- The request takes its output, and is handled if it stops. -/
def takeOutput (mo : ModelRunnerOutput) (id : RequestId) (generated : List ℤ) (u : UpdatePass σ) :
    UpdatePass σ :=
  let statusBeforeStop := (u.request id).status
  let (stopped, r, services) := receiveOutput cfg svc mo id generated (u.request id) u.services
  let u := { u with toState := { u.setRequest id r with services } }
  if stopped then
    let u := { u with toState := u.toState.handleStoppedRequest svc id }
    if statusBeforeStop = .running then
      { u with stoppedRunningReqs := id :: u.stoppedRunningReqs }
    else { u with stoppedPreemptedReqs := id :: u.stoppedPreemptedReqs }
  else u

/-- The part of the loop of `update_from_output` behind its guards. -/
def receiveRequest (out : SchedulerOutput) (mo : ModelRunnerOutput) (id : RequestId)
    (outputIsStale : Bool) (generated : List ℤ) (u : UpdatePass σ) : UpdatePass σ :=
  takeOutput cfg svc mo id generated (verifyDrafts cfg out id outputIsStale generated u)

/-- One request of the loop of `update_from_output`. -/
def updateRequest (out : SchedulerOutput) (mo : ModelRunnerOutput) (failed : List RequestId)
    (u : UpdatePass σ) (p : RequestId × ℤ) : Except String (UpdatePass σ) :=
  let id := p.1
  if p.2 ≤ 0 then .error "assert num_tokens_scheduled > 0"
  else if id ∉ u.requests then .ok u
  else
    let r := u.request id
    let outputIsStale : Bool := 0 < r.numStaleOutputTokens
    let u := { u with toState := u.setRequest id (r.drain p.2) }
    if outputIsStale ∧ (r.drain p.2).numStaleOutputTokens < 0 then
      .error "assert request.num_stale_output_tokens >= 0"
    else if id ∈ failed ∨ r.status.isFinished ∨ outputIsStale ∧ r.dropStaleOutput then .ok u
    else
      match mo.sampledTokenIds id with
      | none => .ok u
      | some generated => .ok (receiveRequest cfg svc out mo id outputIsStale generated u)

/-- The blocks of a request that are invalid, with their positions. -/
def invalidBlocks (s : State σ) (invalidBlockIds : List ℕ) (id : RequestId) (computed : ℤ) :
    List (ℕ × ℕ) :=
  let numComputedBlocks := ((computed + cfg.blockSize - 1) / cfg.blockSize).toNat
  (((svc.getBlockIds s.services id).take numComputedBlocks).zipIdx).filter fun block =>
    block.1 ∈ invalidBlockIds

/-- The tokens before the first block that is to be computed again. -/
def computedBefore (computed : ℤ) : List (ℕ × ℕ) → ℤ
  | [] => computed
  | block :: _ => (block.2 * cfg.blockSize : ℕ)

/-- One request of `_update_requests_with_invalid_blocks`; `marked` are the blocks some
request recomputes. -/
def truncateInvalid (invalidBlockIds : List ℕ) (numScheduledTokens : Dict RequestId ℤ)
    (p : List RequestId × List ℕ × State σ) (id : RequestId) :
    List RequestId × List ℕ × State σ :=
  let (affected, marked, s) := p
  let r := s.request id
  let computed := r.numComputedTokens - (numScheduledTokens.get? id).getD 0
  let invalid := invalidBlocks cfg svc s invalidBlockIds id computed
  if invalid = [] then p
  else
    let unmarked := invalid.filter fun block => block.1 ∉ marked
    (affected ++ [id], unmarked.map Prod.fst ++ marked, s.setRequest id { r with
      numComputedTokens := computedBefore cfg computed unmarked })

/-- `_handle_invalid_blocks`: the requests the loop is to skip. -/
def handleInvalidBlocks (invalidBlockIds : List ℕ) (numScheduledTokens : Dict RequestId ℤ)
    (s : State σ) : List RequestId × State σ :=
  let loading := s.skippedWaiting.filter fun id => (s.request id).status = .waitingForRemoteKvs
  let (asyncFailed, _, s) := loading.foldl
    (truncateInvalid cfg svc invalidBlockIds numScheduledTokens) ([], [], s)
  let (syncFailed, _, s) := s.running.foldl
    (truncateInvalid cfg svc invalidBlockIds numScheduledTokens) ([], [], s)
  if cfg.recomputeKvLoadFailures then
    (syncFailed, { s with failedRecvingKvReqIds := asyncFailed ++ s.failedRecvingKvReqIds })
  else (asyncFailed ++ syncFailed, s)

def State.freeBlocks (s : State σ) (id : RequestId) : Except String (State σ) := do
  require (id ∈ s.requests) "assert req_id in self.requests"
  require ((s.request id).status.isFinished) "assert request.is_finished()"
  return { s with requests := s.requests.filter (· ≠ id) }

def State.updateFromKvXferFinished (s : State σ) (mo : ModelRunnerOutput) :
    Except String (State σ) := do
  let s ← mo.finishedRecving.foldlM (fun s id =>
    if id ∈ s.requests ∧ (s.request id).status = .waitingForRemoteKvs then
      .ok { s with finishedRecvingKvReqIds := id :: s.finishedRecvingKvReqIds }
    else s.freeBlocks id) s
  mo.finishedSending.foldlM (fun s id => s.freeBlocks id) s

/-- The loop of `update_from_output`, with what comes before it. -/
def updateRequests (out : SchedulerOutput) (mo : ModelRunnerOutput) (s : State σ) :
    Except String (List RequestId × UpdatePass σ) := do
  let (failed, s) :=
    if mo.invalidBlockIds ≠ [] then
      handleInvalidBlocks cfg svc mo.invalidBlockIds out.numScheduledTokens s
    else ([], s)
  let positions := List.replicate (max 1 cfg.numSpecTokens) 0
  let u ← out.numScheduledTokens.items.foldlM (updateRequest cfg svc out mo failed)
    { toState := s, adaptivePositionEligible := positions, adaptivePositionAccepted := positions }
  return (failed, u)

def UpdatePass.observation (u : UpdatePass σ) : Decoding.Observation where
  numDrafts := u.adaptiveNumDrafts
  numDraftTokens := u.adaptiveNumDraftTokens
  numAcceptedTokens := u.adaptiveNumAcceptedTokens
  positionEligible := some u.adaptivePositionEligible
  positionAccepted := some u.adaptivePositionAccepted

/-- `observe_batch` behind the loop. -/
def UpdatePass.observeBatch (u : UpdatePass σ) :
    Except String (Option Decoding.AcceptanceLengthUpdate × State σ) :=
  match u.acceptanceLengthController with
  | none => .ok (none, u.toState)
  | some controller =>
    match controller.observeBatch u.observation with
    | (_, .error e) => .error e
    | (controller, .ok update) =>
      .ok (update, { u.toState with acceptanceLengthController := some controller })

def updateFromOutput (out : SchedulerOutput) (mo : ModelRunnerOutput) (s : State σ) :
    Except String (Option Decoding.AcceptanceLengthUpdate × State σ) := do
  let (failed, u) ← updateRequests cfg svc out mo s
  let (update, s) ← u.observeBatch
  let s := { s with
    running := s.running.filter (· ∉ u.stoppedRunningReqs)
    waiting := s.waiting.filter (· ∉ u.stoppedPreemptedReqs)
    skippedWaiting := s.skippedWaiting.filter (· ∉ u.stoppedPreemptedReqs) }
  let errors := s.grammarCompileErrorReqs ++ if cfg.recomputeKvLoadFailures then [] else failed
  let s := State.finishRequests svc { s with grammarCompileErrorReqs := [] } errors .finishedError
  let s ← s.updateFromKvXferFinished mo
  return (update, s)

end ChampionRuntime.Scheduler
