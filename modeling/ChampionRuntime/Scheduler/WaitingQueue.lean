import ChampionRuntime.Scheduler.RunningQueue

/-!
# The waiting queues

The second loop of `schedule`: it admits requests from the waiting and the skipped
queue while there are slots and tokens.
-/
namespace ChampionRuntime.Scheduler

open Lib

variable {σ : Type} (cfg : Config) (svc : Services σ)

def isBlockedWaitingStatus : RequestStatus → Bool
  | .waitingForStructuredOutputGrammar | .waitingForRemoteKvs | .waitingForStreamingReq => true
  | _ => false

/-- `_select_waiting_queue_for_scheduling`: whether it is the skipped queue, and its head. -/
def State.selectWaitingQueue (s : State σ) : Option (Bool × RequestId) :=
  match cfg.policy, s.waiting, s.skippedWaiting with
  | _, [], [] => none
  | _, [], id :: _ => some (true, id)
  | _, id :: _, [] => some (false, id)
  | .fcfs, _ :: _, id :: _ => some (true, id)
  | .priority, id :: _, skipped :: _ =>
    if svc.queues.before (s.request id) (s.request skipped) then some (false, id)
    else some (true, skipped)

/-- `pop_request` of the selected queue. -/
def Pass.popRequest (p : Pass σ) (fromSkipped : Bool) : Pass σ :=
  if fromSkipped then { p with skippedWaiting := p.skippedWaiting.tail }
  else { p with waiting := p.waiting.tail }

/-- Pop a request and put it aside for this step. -/
def Pass.setAside (p : Pass σ) (fromSkipped : Bool) (id : RequestId) : Pass σ :=
  let p := p.popRequest fromSkipped
  { p with stepSkippedWaiting := svc.queues.prepend p.request id p.stepSkippedWaiting }

def State.updateWaitingForRemoteKv (s : State σ) (id : RequestId) : State σ :=
  let r := s.request id
  let s :=
    if id ∈ s.failedRecvingKvReqIds then
      { s with failedRecvingKvReqIds := s.failedRecvingKvReqIds.filter (· ≠ id) }
    else if r.numComputedTokens = r.numTokens then
      s.setRequest id { r with numComputedTokens := r.numTokens - 1 }
    else s
  { s with finishedRecvingKvReqIds := s.finishedRecvingKvReqIds.filter (· ≠ id) }

/-- `_try_promote_blocked_waiting_request` -/
def State.tryPromote (s : State σ) (id : RequestId) : Except String (Bool × State σ) :=
  match (s.request id).status with
  | .waitingForRemoteKvs =>
    if id ∉ s.finishedRecvingKvReqIds then .ok (false, s)
    else
      let s := s.updateWaitingForRemoteKv id
      let r := s.request id
      .ok (true, s.setRequest id { r with
        status := if r.numPreemptions ≠ 0 then .preempted else .waiting })
  | .waitingForStructuredOutputGrammar =>
    match svc.grammarState s.services id with
    | .pending => .ok (false, s)
    | .failed => .ok (false, { s with grammarCompileErrorReqs := id :: s.grammarCompileErrorReqs })
    | .ready => .ok (true, s.setRequest id { s.request id with status := .waiting })
  | .waitingForStreamingReq =>
    if ((s.request id).streamingQueue.getD []).isEmpty then .ok (false, s)
    else .error "assert not request.streaming_queue"
  | _ => .error "Unexpected blocked waiting status in promotion"

/-- "try to promote blocked statuses"; `false` if the request stays blocked. -/
def State.promoteBlocked (s : State σ) (id : RequestId) : Except String (Bool × State σ) :=
  if isBlockedWaitingStatus (s.request id).status then s.tryPromote svc id else .ok (true, s)

/-- What is already computed of a waiting request. -/
structure CachedTokens where
  numNewLocalComputedTokens : ℕ := 0
  numExternalComputedTokens : ℕ := 0
  numComputedTokens : ℤ
  loadKvAsync : Bool := false

/-- The hits of the local cache and of the connector; `none` if the connector cannot
tell yet. -/
def connectorHits (id : RequestId) (r : Request) (s : σ) : Option (ℕ × ℕ × Bool) × ℕ × σ :=
  let ((local₀, boundary, hitDiverged), s) := svc.getComputedBlocksForConnector s id r
  let partialTail := local₀ % cfg.blockSize
  let blockAlignedLocal := local₀ - partialTail
  let ((extTokens, load), s) := svc.getNumNewMatchedTokens s id r blockAlignedLocal
  match extTokens with
  | none => (none, boundary, s)
  | some extTokens =>
    let (numLocal, numExternal, load) :=
      if partialTail ≠ 0 ∧ partialTail < extTokens then (blockAlignedLocal, extTokens, load)
      else if partialTail ≠ 0 then (local₀, 0, false)
      else (local₀, extTokens, load)
    if hitDiverged ∧ numExternal = 0 then
      let ((numLocal, boundary), s) := svc.getComputedBlocks s id r
      (some (numLocal, numExternal, load), boundary, s)
    else (some (numLocal, numExternal, load), boundary, s)

/-- The hits of a request without computed tokens, and its shared-prefix boundary. -/
def cachedHits (id : RequestId) (r : Request) (s : σ) : Option (ℕ × ℕ × Bool) × ℕ × σ :=
  if cfg.hasConnector then connectorHits cfg svc id r s
  else
    let ((numLocal, boundary), s) := svc.getComputedBlocks s id r
    (some (numLocal, 0, false), boundary, s)

/-- "Get already-cached tokens."; `none` puts the request aside. -/
def lookupComputedTokens (p : Pass σ) (id : RequestId) :
    Except String (Option CachedTokens × Pass σ) :=
  let r := p.request id
  if r.numComputedTokens ≠ 0 then
    .ok (some { numComputedTokens := r.numComputedTokens }, p)
  else
    let (hits, boundary, services) := cachedHits cfg svc id r p.services
    let p := { p with
      services
      request := Function.update p.request id { r with sharedPrefixBoundary := boundary } }
    match hits with
    | none => .ok (none, p)
    | some (numLocal, numExternal, loadKvAsync) => do
      require (numLocal + numExternal ≤ r.numTokens) "assert num_computed_tokens <= request.num_tokens"
      let (available, services) :=
        if cfg.hasEcConnector ∧ r.hasEncoderInputs then
          svc.ensureCacheAvailable p.services id r (numLocal + numExternal : ℕ)
        else (true, p.services)
      let p := { p with services }
      if available then
        return (some {
          numNewLocalComputedTokens := numLocal
          numExternalComputedTokens := numExternal
          numComputedTokens := (numLocal + numExternal : ℕ)
          loadKvAsync }, p)
      else return (none, p)

/-- `pad_spec_decode`: a one-token request joins decodes at their full length. -/
def padsSpecDecode (p : Pass σ) (numNewTokens : ℤ) : Bool :=
  (0 < cfg.numSpecTokens ∧ cfg.dynamicSdLookup.isNone) ∧ 0 < cfg.numSampledTokensPerStep ∧
    numNewTokens = 1 ∧ p.scheduledRunningReqs ≠ [] ∧ p.prefillScheduled = false

/-- The caps behind the padding; `none` ends the loop. -/
def capAdmission (ctx : StepContext) (p : Pass σ) (numNewTokens : ℤ) : Option ℤ :=
  let numNewTokens :=
    if cfg.enableDecodeAwarePrefill = false ∧ 0 < cfg.longPrefillTokenThreshold ∧
        cfg.longPrefillTokenThreshold < numNewTokens then cfg.longPrefillTokenThreshold
    else numNewTokens
  if cfg.enableChunkedPrefill = false ∧ p.tokenBudget < numNewTokens then none
  else
    let numNewTokens := min numNewTokens p.tokenBudget
    if cfg.enableDecodeAwarePrefill then
      let remaining := ctx.prefillTokenBudget - p.prefillTokensScheduled
      if remaining ≤ 0 then none else some (min numNewTokens remaining)
    else some numNewTokens

/-- The tokens of an admission and whether they are padded; `none` ends the loop. -/
def admissionTokens (ctx : StepContext) (p : Pass σ) (r : Request) (cached : CachedTokens) :
    Option (ℤ × Bool) :=
  let numNewTokens := r.numTokens - cached.numComputedTokens
  if ctx.deferPrefills ∧ cached.numComputedTokens < r.numTokens - 1 then none
  else if padsSpecDecode cfg p numNewTokens then
    let padded : ℤ := 1 + cfg.numSpecTokens
    if p.tokenBudget < padded ∨ cfg.maxModelLen < cached.numComputedTokens + padded then none
    else (capAdmission cfg ctx p padded).map (·, true)
  else (capAdmission cfg ctx p numNewTokens).map (·, false)

/-- The encoder and Mamba cuts of an admission; `none` ends the loop. -/
def cutAdmission (p : Pass σ) (id : RequestId) (cached : CachedTokens) (numNewTokens : ℤ) :
    Except String (Option EncoderPlan × Pass σ) := do
  let r := p.request id
  let (plan, services) ←
    tryScheduleEncoderInputs cfg svc id r cached.numComputedTokens numNewTokens
      p.encoderComputeBudget p.services
  let p := { p with services }
  if plan.numNewTokens = 0 then return (none, p)
  else
    let plan :=
      if cfg.needMambaBlockAlignedSplit then
        { plan with
          numNewTokens := mambaBlockAlignedSplit cfg r plan.numNewTokens
            cached.numNewLocalComputedTokens cached.numExternalComputedTokens }
      else plan
    if plan.numNewTokens = 0 then return (none, p) else return (some plan, p)

/-- `allocate_slots` for an admission or an asynchronous load. -/
def allocateAdmission (p : Pass σ) (id : RequestId) (cached : CachedTokens) (plan : EncoderPlan) :
    Bool × Pass σ :=
  let r := p.request id
  let (allocated, services) := svc.allocateSlots p.services id {
    request := r
    numNewTokens := plan.numNewTokens
    numNewComputedTokens := cached.numNewLocalComputedTokens
    numLookaheadTokens := if cached.loadKvAsync then 0 else cfg.numLookaheadTokens
    numExternalComputedTokens := cached.numExternalComputedTokens
    delayCacheBlocks := cached.loadKvAsync
    numEncoderTokens :=
      if cfg.isEncoderDecoder then
        (plan.encoderInputsToSchedule.map fun i =>
          match r.mmFeatures[i]? with
          | some feature => feature.numEmbeds
          | none => 0).sum
      else 0
    fullSequenceMustFit := cfg.schedulerReserveFullIsl
    hasScheduledReqs := p.running ≠ [] }
  (allocated, { p with services })

/-- An asynchronous load waits with the requests put aside. -/
def startLoad (p : Pass σ) (fromSkipped : Bool) (id : RequestId) (cached : CachedTokens) : Pass σ :=
  let p := p.popRequest fromSkipped
  let request := Function.update p.request id { p.request id with
    status := .waitingForRemoteKvs
    numComputedTokens := cached.numComputedTokens }
  { p with
    request := request
    stepSkippedWaiting := svc.queues.prepend request id p.stepSkippedWaiting }

def admitRequest (p : Pass σ) (fromSkipped : Bool) (id : RequestId) (cached : CachedTokens)
    (plan : EncoderPlan) (padded : Bool) : Except String (Pass σ) :=
  let p := p.popRequest fromSkipped
  let r := p.request id
  let admitted : Pass σ := { p with
    running := p.running ++ [id]
    scheduledLoras :=
      match r.loraIntId with
      | some lora => if cfg.maxLoras.isSome then lora :: p.scheduledLoras else p.scheduledLoras
      | none => p.scheduledLoras
    numScheduledTokens := p.numScheduledTokens.set id plan.numNewTokens
    tokenBudget := p.tokenBudget - plan.numNewTokens
    prefillTokensScheduled :=
      if cfg.enableDecodeAwarePrefill then p.prefillTokensScheduled + plan.numNewTokens
      else p.prefillTokensScheduled
    longPrefillLastScheduled :=
      if cfg.enableDecodeAwarePrefill ∧ isLongPrefillRequest cfg r then
        Function.update p.longPrefillLastScheduled id (some p.currentStep)
      else p.longPrefillLastScheduled
    request := Function.update p.request id { r with
      status := .running
      numComputedTokens := cached.numComputedTokens }
    scheduledSpecDecodeTokens :=
      if padded then
        p.scheduledSpecDecodeTokens.set id (List.replicate cfg.numSpecTokens .placeholder)
      else p.scheduledSpecDecodeTokens
    scheduledEncoderInputs :=
      if plan.encoderInputsToSchedule ≠ [] then
        p.scheduledEncoderInputs.set id plan.encoderInputsToSchedule
      else p.scheduledEncoderInputs
    encoderComputeBudget :=
      if plan.encoderInputsToSchedule ≠ [] then plan.encoderComputeBudget
      else p.encoderComputeBudget }
  if r.status = .waiting then
    .ok { admitted with scheduledNewReqs := p.scheduledNewReqs ++ [id] }
  else if r.status = .preempted then
    .ok { admitted with scheduledResumedReqs := p.scheduledResumedReqs ++ [id] }
  else .error "Invalid request status"

/-- Whether adding the request would exceed `max_loras`. -/
def exceedsLoras (p : Pass σ) (r : Request) : Bool :=
  match cfg.maxLoras, r.loraIntId with
  | some maxLoras, some lora => p.scheduledLoras.dedup.length = maxLoras ∧ lora ∉ p.scheduledLoras
  | _, _ => false

/-- The last part of a turn: allocate, and start the load or the request. -/
def settleAdmission (fromSkipped : Bool) (id : RequestId) (cached : CachedTokens)
    (plan : EncoderPlan) (padded : Bool) (p : Pass σ) : Except String (Flow × Pass σ) := do
  let (allocated, p) := allocateAdmission cfg svc p id cached plan
  if allocated = false then return (.stop, p)
  else if cached.loadKvAsync then return (.next, startLoad svc p fromSkipped id cached)
  else
    let p ← admitRequest cfg p fromSkipped id cached plan padded
    return (.next, p)

/-- The first part of a turn: promotion, the tests that put a request aside (`none`), and
the lookup of its computed tokens. -/
def lookWaiting (id : RequestId) (p : Pass σ) : Except String (Option CachedTokens × Pass σ) := do
  let (schedulable, s) ← p.toState.promoteBlocked svc id
  let p := { p with toState := s }
  let r := p.request id
  if schedulable = false ∨ 0 < r.numStaleOutputTokens ∧ r.dropStaleOutput = false ∨
      exceedsLoras cfg p r then
    return (none, p)
  else lookupComputedTokens cfg svc p id

/-- The second part of a turn, for a request whose computed tokens are known. -/
def admissionTurn (ctx : StepContext) (fromSkipped : Bool) (id : RequestId) (cached : CachedTokens)
    (p : Pass σ) : Except String (Flow × Pass σ) :=
  if cached.loadKvAsync then do
    require (0 < cached.numExternalComputedTokens) "assert num_external_computed_tokens > 0"
    settleAdmission cfg svc fromSkipped id cached
      { numNewTokens := 0, encoderComputeBudget := p.encoderComputeBudget } false p
  else
    match admissionTokens cfg ctx p (p.request id) cached with
    | none => return (.stop, p)
    | some (numNewTokens, padded) => do
      require (0 < numNewTokens) "assert num_new_tokens > 0"
      let (plan, p) ← cutAdmission cfg svc p id cached numNewTokens
      match plan with
      | none => return (.stop, p)
      | some plan => settleAdmission cfg svc fromSkipped id cached plan padded p

/-- One turn of the loop, with the request at the head of the selected queue. -/
def waitingTurn (ctx : StepContext) (fromSkipped : Bool) (id : RequestId) (p : Pass σ) :
    Except String (Flow × Pass σ) := do
  let (cached, p) ← lookWaiting cfg svc id p
  match cached with
  | none => return (.next, p.setAside svc fromSkipped id)
  | some cached => admissionTurn cfg svc ctx fromSkipped id cached p

/-- `while (self.waiting or self.skipped_waiting) and token_budget > 0`; every turn that
goes on takes a request out of the queues. -/
def waitingLoop (ctx : StepContext) : ℕ → Pass σ → Except String (Pass σ)
  | 0, p => .ok p
  | fuel + 1, p =>
    match p.selectWaitingQueue cfg svc with
    | none => .ok p
    | some (fromSkipped, id) =>
      if p.tokenBudget ≤ 0 then .ok p
      else if (cfg.maxNumRunningReqs : ℤ) ≤ p.running.length + p.numWaitingForStreamingInput then
        .ok p
      else do
        let (flow, p) ← waitingTurn cfg svc ctx fromSkipped id p
        match flow with
        | .next => waitingLoop ctx fuel p
        | .stop => return p

end ChampionRuntime.Scheduler
