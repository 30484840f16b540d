import ChampionRuntime.Scheduler.WaitingQueue

/-!
# One scheduling step

`schedule` with `_update_after_schedule`.
-/
namespace ChampionRuntime.Scheduler

open Lib

variable {σ : Type} (cfg : Config) (svc : Services σ)

/-- "DP prefill balancing": whether prefills wait for an aligned step. -/
def deferPrefills (throttlePrefills : Bool) (s : State σ) : Bool :=
  throttlePrefills && !s.prefillCapacityBound &&
    s.running.any fun id => !(s.request id).isPrefillChunk

/-- The tokens of a step before any is given out. -/
def initialTokenBudget (s : State σ) : ℤ :=
  if s.pauseState = .pausedAll then 0 else cfg.maxNumScheduledTokens

def prefillTokenBudget (s : State σ) : ℤ :=
  if cfg.enableDecodeAwarePrefill then
    min (if s.running.any fun id => !(s.request id).isPrefillChunk then
      cfg.decodePrefillTokenBudget else cfg.idlePrefillTokenBudget) cfg.maxNumScheduledTokens
  else initialTokenBudget cfg s

/-- The context of a step and its pass before the loops. -/
def beginStep (throttlePrefills : Bool) (s : State σ) : StepContext × Pass σ :=
  let s := { s with currentStep := s.currentStep + 1 }
  let (selected, s') := s.selectLongPrefillRequestIds cfg
  ({ deferPrefills := deferPrefills throttlePrefills s
     prefillTokenBudget := prefillTokenBudget cfg s
     selectedLongPrefillIds := selected },
   { toState := s'
     tokenBudget := initialTokenBudget cfg s
     encoderComputeBudget := cfg.maxNumEncoderInputTokens })

/-- The loop over the running queue and the LoRAs it uses. -/
def scheduleRunning (ctx : StepContext) (p : Pass σ) : Except String (Pass σ) := do
  let p ← runningLoop cfg svc ctx p.running.length p
  match cfg.maxLoras with
  | none => return p
  | some maxLoras =>
    let loras := (p.scheduledRunningReqs.filterMap fun id => (p.request id).loraIntId).filter (0 < ·)
    require (loras.dedup.length ≤ maxLoras) "assert len(scheduled_loras) <= max_loras"
    return { p with scheduledLoras := loras }

/-- The loop over the waiting queues, unless the step preempted or the scheduler is paused. -/
def scheduleWaiting (ctx : StepContext) (p : Pass σ) : Except String (Pass σ) :=
  if p.preemptedReqs ≠ [] ∨ p.pauseState ≠ .unpaused then .ok p
  else do
    let p ← waitingLoop cfg svc ctx (p.waiting.length + p.skippedWaiting.length) p
    let p := { p with
      skippedWaiting := svc.queues.prependAll p.request p.stepSkippedWaiting p.skippedWaiting
      stepSkippedWaiting := [] }
    return { p with
      prefillCapacityBound := if ctx.deferPrefills then p.prefillCapacityBound else p.waiting ≠ [] }

def checkConstraints (p : Pass σ) : Except String Unit := do
  require ((p.numScheduledTokens.items.map Prod.snd).sum ≤ cfg.maxNumScheduledTokens)
    "assert total_num_scheduled_tokens <= self.max_num_scheduled_tokens"
  require (0 ≤ p.tokenBudget) "assert token_budget >= 0"
  require (p.running.length ≤ cfg.maxNumRunningReqs)
    "assert len(self.running) <= self.max_num_running_reqs"
  require (p.scheduledNewReqs.length + p.scheduledResumedReqs.length +
      p.scheduledRunningReqs.length ≤ p.running.length)
    "assert scheduled requests <= len(self.running)"

/-- The depth the step's drafts are made at. -/
def numSpecTokensToSchedule (p : Pass σ) : Except String ℕ :=
  let depth :=
    match p.acceptanceLengthController with
    | some controller => controller.numSpecTokens
    | none => cfg.numSpecTokens
  match cfg.dynamicSdLookup, p.numScheduledTokens.items.length with
  | some lookup, n + 1 =>
    match lookup[n + 1]? with
    | some k => .ok (min depth k)
    | none => .error "list index out of range"
  | _, _ => .ok depth

/-- What `_update_after_schedule` makes of a scheduled request. -/
def Request.advance (r : Request) (numScheduledToken : ℤ) : Request :=
  { r with
    numComputedTokens := r.numComputedTokens + numScheduledToken
    numInFlightTokens := r.numInFlightTokens + numScheduledToken
    isPrefillChunk :=
      r.numComputedTokens + numScheduledToken < r.numTokens + r.numOutputPlaceholders }

def State.updateAfterSchedule (s : State σ) (numScheduledTokens : Dict RequestId ℤ) : State σ :=
  { s with
    request := fun id =>
      match numScheduledTokens.get? id with
      | some n => (s.request id).advance n
      | none => s.request id
    finishedReqIds := []
    resetPreemptedReqIds := [] }

/-- The pass of a step when its loops are over. -/
def runLoops (throttlePrefills : Bool) (s : State σ) : Except String (StepContext × Pass σ) := do
  let (ctx, p) := beginStep cfg throttlePrefills s
  let p ← scheduleRunning cfg svc ctx p
  let p ← scheduleWaiting cfg svc ctx p
  return (ctx, p)

def schedule (throttlePrefills : Bool) (s : State σ) :
    Except String (SchedulerOutput × State σ) := do
  let (ctx, p) ← runLoops cfg svc throttlePrefills s
  checkConstraints cfg p
  let numSpecTokensToSchedule ← numSpecTokensToSchedule cfg p
  let s := p.toState.debitUnusedLongPrefillTurns cfg ctx.selectedLongPrefillIds
    p.numScheduledTokens ctx.deferPrefills
  return ({
    numScheduledTokens := p.numScheduledTokens
    totalNumScheduledTokens := (p.numScheduledTokens.items.map Prod.snd).sum
    scheduledSpecDecodeTokens := p.scheduledSpecDecodeTokens
    scheduledEncoderInputs := p.scheduledEncoderInputs
    numSpecTokensToSchedule }, s.updateAfterSchedule p.numScheduledTokens)

end ChampionRuntime.Scheduler
