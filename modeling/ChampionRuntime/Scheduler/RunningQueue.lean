import ChampionRuntime.Scheduler.LongPrefills
import ChampionRuntime.Scheduler.Trims

/-!
# The running queue

The first loop of `schedule`: it gives tokens to the running requests and
preempts the lowest-priority ones when the KV cache runs out of blocks.
-/
namespace ChampionRuntime.Scheduler

open Lib

variable {σ : Type} (cfg : Config) (svc : Services σ)

/-- What `schedule` fixes before its loops. -/
structure StepContext where
  deferPrefills : Bool
  prefillTokenBudget : ℤ
  selectedLongPrefillIds : List RequestId

/-- The local variables of `schedule` beside the fields it changes. -/
structure Pass (σ : Type) extends State σ where
  numScheduledTokens : Dict RequestId ℤ := Keyed.empty
  scheduledSpecDecodeTokens : Dict RequestId (List DraftToken) := Keyed.empty
  scheduledEncoderInputs : Dict RequestId (List ℕ) := Keyed.empty
  scheduledRunningReqs : List RequestId := []
  scheduledNewReqs : List RequestId := []
  scheduledResumedReqs : List RequestId := []
  preemptedReqs : List RequestId := []
  tokenBudget : ℤ
  encoderComputeBudget : ℤ
  prefillTokensScheduled : ℤ := 0
  prefillScheduled : Bool := false
  reqIndex : ℕ := 0
  scheduledLoras : List ℕ := []
  stepSkippedWaiting : List RequestId := []

inductive Flow where
  | next
  | stop

/-- What a preemption makes of the request. -/
def Request.preempt (r : Request) (dropStaleOutput : Bool) : Request :=
  { r with
    status := .preempted
    numComputedTokens := 0
    specTokenIds := []
    dropStaleOutput := dropStaleOutput || r.dropStaleOutput && 0 < r.numStaleOutputTokens
    numStaleOutputTokens := r.numInFlightTokens
    numOutputPlaceholders := 0
    numPreemptions := r.numPreemptions + 1 }

def State.preemptRequest (s : State σ) (id : RequestId) (dropStaleOutput : Bool) :
    Except String (State σ) := do
  require ((s.request id).status = .running) "Only running requests can be preempted"
  let s := s.setRequest id ((s.request id).preempt dropStaleOutput)
  return { s with
    waiting := svc.queues.prepend s.request id s.waiting
    resetPreemptedReqIds := id :: s.resetPreemptedReqIds }

/-- `(priority, arrival_time)` of one request below that of another. -/
def ranksBelow (a b : Request) : Bool :=
  a.priority < b.priority ∨ a.priority = b.priority ∧ a.arrivalTime < b.arrivalTime

/-- `max(self.running, key=...)`; the first of equals. -/
def lowestPriority (s : State σ) : Option RequestId :=
  match s.running with
  | [] => none
  | id :: ids => some (ids.foldl (fun best id =>
      if ranksBelow (s.request best) (s.request id) then id else best) id)

/-- Take back what the step gave a running request. -/
def Pass.withdraw (p : Pass σ) (id : RequestId) : Pass σ :=
  let restored := (p.request id).encoderEmbeds ((p.scheduledEncoderInputs.get? id).getD [])
  { p with
    scheduledRunningReqs := p.scheduledRunningReqs.erase id
    tokenBudget := p.tokenBudget + (p.numScheduledTokens.get? id).getD 0
    numScheduledTokens := p.numScheduledTokens.erase id
    scheduledSpecDecodeTokens := p.scheduledSpecDecodeTokens.erase id
    scheduledEncoderInputs := p.scheduledEncoderInputs.erase id
    encoderComputeBudget := p.encoderComputeBudget + restored
    reqIndex := p.reqIndex - 1 }

/-- The pass without the request to preempt. -/
def Pass.takeVictim (p : Pass σ) : Option (RequestId × Pass σ) :=
  match cfg.policy with
  | .priority =>
    (lowestPriority p.toState).map fun victim =>
      let p' := { p with running := p.running.erase victim }
      (victim, if victim ∈ p.scheduledRunningReqs then p'.withdraw victim else p')
  | .fcfs => p.running.getLast?.map fun victim => (victim, { p with running := p.running.dropLast })

def Pass.evict (p : Pass σ) : Except String (RequestId × Pass σ) :=
  match p.takeVictim cfg with
  | none => .error "pop from empty list"
  | some (victim, p) => do
    let s ← p.toState.preemptRequest svc victim cfg.requiresKvDelivery
    return (victim, { p with toState := s, preemptedReqs := p.preemptedReqs ++ [victim] })

/-- The loop around `allocate_slots`; `false` if the request itself was preempted. -/
def makeRoom (id : RequestId) (numNewTokens : ℤ) :
    ℕ → Pass σ → Except String (Bool × Pass σ)
  | 0, p => .ok (false, p)
  | fuel + 1, p =>
    let (allocated, services) := svc.allocateSlots p.services id {
      request := p.request id
      numNewTokens
      numLookaheadTokens := cfg.numLookaheadTokens }
    let p := { p with services }
    if allocated then .ok (true, p)
    else do
      let (victim, p) ← p.evict cfg svc
      if victim = id then return (false, p) else makeRoom id numNewTokens fuel p

/-- The tests that pass a running request over before it is given tokens. -/
def passesOver (ctx : StepContext) (p : Pass σ) (id : RequestId) : Bool :=
  let r := p.request id
  0 < r.numOutputPlaceholders ∧
      (r.numPromptTokens + r.maxTokens : ℤ) ≤ r.numComputedTokens + 2 - r.numOutputPlaceholders ∨
    p.currentStep < r.nextDecodeEligibleStep ∨
    ctx.deferPrefills ∧ r.isPrefillChunk

def gated (ctx : StepContext) (p : Pass σ) (id : RequestId) : Bool :=
  cfg.enableDecodeAwarePrefill ∧ isLongPrefillRequest cfg (p.request id) ∧
    id ∉ ctx.selectedLongPrefillIds

/-- The tokens a running request wants, under the caps. -/
def runningTokens (ctx : StepContext) (p : Pass σ) (id : RequestId) : ℤ :=
  let r := p.request id
  let budgeted := cfg.enableDecodeAwarePrefill ∧ r.isPrefillChunk
  let numNewTokens := r.numTokensWithSpec + r.numOutputPlaceholders - r.numComputedTokens
  let numNewTokens :=
    if ¬ budgeted ∧ 0 < cfg.longPrefillTokenThreshold ∧ cfg.longPrefillTokenThreshold < numNewTokens
    then cfg.longPrefillTokenThreshold else numNewTokens
  let numNewTokens := min numNewTokens p.tokenBudget
  let numNewTokens :=
    if budgeted then min numNewTokens (ctx.prefillTokenBudget - p.prefillTokensScheduled)
    else numNewTokens
  min numNewTokens (cfg.maxModelLen - r.numComputedTokens - cfg.numSampledTokensPerStep)

/-- The encoder and Mamba cuts of a running request. -/
def cutRunning (p : Pass σ) (id : RequestId) (numNewTokens : ℤ) :
    Except String (EncoderPlan × Pass σ) := do
  let r := p.request id
  let (plan, services) ←
    tryScheduleEncoderInputs cfg svc id r r.numComputedTokens numNewTokens p.encoderComputeBudget
      p.services
  let plan :=
    if cfg.needMambaBlockAlignedSplit then
      { plan with numNewTokens := mambaBlockAlignedSplit cfg r plan.numNewTokens 0 0 }
    else plan
  return (plan, { p with services })

/-- The drafts of a request that its tokens reach. -/
def scheduledDrafts (r : Request) (numNewTokens : ℤ) : List DraftToken :=
  r.specTokenIds.take
    (numNewTokens + r.numComputedTokens - r.numTokens - r.numOutputPlaceholders).toNat

def commitRunning (p : Pass σ) (id : RequestId) (plan : EncoderPlan) : Pass σ :=
  let r := p.request id
  let budgeted := cfg.enableDecodeAwarePrefill ∧ r.isPrefillChunk
  let drafts := scheduledDrafts r plan.numNewTokens
  { p with
    scheduledRunningReqs := p.scheduledRunningReqs ++ [id]
    prefillScheduled := p.prefillScheduled || r.isPrefillChunk
    numScheduledTokens := p.numScheduledTokens.set id plan.numNewTokens
    tokenBudget := p.tokenBudget - plan.numNewTokens
    prefillTokensScheduled :=
      if budgeted then p.prefillTokensScheduled + plan.numNewTokens else p.prefillTokensScheduled
    longPrefillLastScheduled :=
      if budgeted ∧ isLongPrefillRequest cfg r then
        Function.update p.longPrefillLastScheduled id (some p.currentStep)
      else p.longPrefillLastScheduled
    reqIndex := p.reqIndex + 1
    scheduledSpecDecodeTokens :=
      if drafts ≠ [] then p.scheduledSpecDecodeTokens.set id drafts else p.scheduledSpecDecodeTokens
    request := Function.update p.request id { r with specTokenIds := [] }
    scheduledEncoderInputs :=
      if plan.encoderInputsToSchedule ≠ [] then
        p.scheduledEncoderInputs.set id plan.encoderInputsToSchedule
      else p.scheduledEncoderInputs
    encoderComputeBudget :=
      if plan.encoderInputsToSchedule ≠ [] then plan.encoderComputeBudget
      else p.encoderComputeBudget }

def runningTurn (ctx : StepContext) (id : RequestId) (p : Pass σ) :
    Except String (Flow × Pass σ) := do
  let passed := { p with reqIndex := p.reqIndex + 1 }
  if passesOver ctx p id then return (.next, passed)
  else if gated cfg ctx p id then
    return (.next, { passed with longPrefillGateSkips := p.longPrefillGateSkips + 1 })
  else if cfg.enableDecodeAwarePrefill ∧ (p.request id).isPrefillChunk ∧
      ctx.prefillTokenBudget - p.prefillTokensScheduled ≤ 0 then
    return (.next, passed)
  else
    let (plan, p) ← cutRunning cfg svc p id (runningTokens cfg ctx p id)
    if plan.numNewTokens = 0 then return (.next, { p with reqIndex := p.reqIndex + 1 })
    else
      let (allocated, p) ← makeRoom cfg svc id plan.numNewTokens p.running.length p
      if allocated then return (.next, commitRunning cfg p id plan) else return (.stop, p)

/-- `while req_index < len(self.running) and token_budget > 0`; every turn brings the
index closer to the end of the queue. -/
def runningLoop (ctx : StepContext) : ℕ → Pass σ → Except String (Pass σ)
  | 0, p => .ok p
  | fuel + 1, p =>
    match p.running[p.reqIndex]? with
    | none => .ok p
    | some id =>
      if p.tokenBudget ≤ 0 then .ok p
      else do
        let (flow, p) ← runningTurn cfg svc ctx id p
        match flow with
        | .next => runningLoop ctx fuel p
        | .stop => return p

end ChampionRuntime.Scheduler
