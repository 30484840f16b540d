import ChampionRuntime.Scheduler.DepthWindow

/-!
# Padded admissions and the query length of the batch

A one-token admission beside decodes is padded to the configured number of drafts. The
decodes carry the drafts of the depth they were made at, so the lengths agree at the
configured maximum only, or where what is cut from the padding makes up for the difference.
-/
namespace ChampionRuntime.Scheduler

open Lib
open Decoding (AcceptanceLengthController)

variable {σ : Type} {cfg : Config} {svc : Services σ} {ctx : StepContext} {s s' : State σ}
  {p q : Pass σ} {id : RequestId} {throttlePrefills : Bool} {out : SchedulerOutput} {n : ℤ}

/-- A request that did not run is given drafts, which are its placeholders. -/
def SchedulerOutput.Pads (out : SchedulerOutput) (s : State σ) (id : RequestId) : Prop :=
  id ∉ s.running ∧ (out.scheduledSpecDecodeTokens.get? id).isSome = true

/-- The padded requests have this query length. -/
def SchedulerOutput.PadsAt (out : SchedulerOutput) (s : State σ) (queryLen : ℤ) : Prop :=
  ∀ id, out.Pads s id → out.numScheduledTokens.get? id = some queryLen

/-- Adaptation is on, there is no batch-size schedule, and the running requests of the step are
decodes of one query length: a token and the drafts of the controller's depth. -/
structure AdaptiveBatch (cfg : Config) (s : State σ) (out : SchedulerOutput)
    (c : AcceptanceLengthController) (queryLen : ℤ) : Prop where
  controller : s.acceptanceLengthController = some c
  no_schedule : cfg.dynamicSdLookup = none
  nonempty : ∃ id ∈ s.running, (out.numScheduledTokens.get? id).isSome = true
  decodes : ∀ id ∈ s.running, ∀ n, out.numScheduledTokens.get? id = some n → n = queryLen ∧
    n = 1 + (draftsOf out.scheduledSpecDecodeTokens id).length ∧
    (draftsOf out.scheduledSpecDecodeTokens id).length = c.numSpecTokens

theorem AdaptiveBatch.queryLen_eq {c : AcceptanceLengthController} {queryLen : ℤ}
    (h : AdaptiveBatch cfg s out c queryLen) : queryLen = 1 + c.numSpecTokens := by
  obtain ⟨id, hid, hscheduled⟩ := h.nonempty
  obtain ⟨n, hn⟩ := Option.isSome_iff_exists.mp hscheduled
  obtain ⟨hlength, hdrafts, hdepth⟩ := h.decodes id hid n hn
  omega

/-- What the caps and the cuts behind the padding leave of its tokens. -/
def paddingLeft (cfg : Config) (svc : Services σ) (ctx : StepContext) (id : RequestId)
    (cached : CachedTokens) (p : Pass σ) : Option ℤ := do
  let n ← capAdmission cfg ctx p (1 + cfg.numSpecTokens)
  let (tried, _) ← (tryScheduleEncoderInputs cfg svc id (p.request id) cached.numComputedTokens n
    p.encoderComputeBudget p.services).toOption
  return if cfg.needMambaBlockAlignedSplit then
    mambaBlockAlignedSplit cfg (p.request id) tried.numNewTokens
      cached.numNewLocalComputedTokens cached.numExternalComputedTokens
  else tried.numNewTokens

theorem PaddedAdmission.left {cached : CachedTokens} {plan : EncoderPlan}
    (h : PaddedAdmission cfg svc ctx id p cached q n plan) :
    paddingLeft cfg svc ctx id cached q = some plan.numNewTokens := by
  obtain ⟨q', hcut, -⟩ := h.allocated
  obtain ⟨tried, services, htry, hplan⟩ := cutAdmission_plan hcut
  obtain ⟨-, hcap, -⟩ := admissionTokens_padded h.padded
  unfold paddingLeft
  rw [hcap, hplan]
  simp only [Option.bind_eq_bind, Option.bind_some, htry, Except.toOption, Option.pure_def]

/-- In every padded admission of a step: the depth is the configured maximum and nothing is cut,
or as much is cut as the maximum is above the depth. -/
def PaddingMeets (cfg : Config) (svc : Services σ) (throttlePrefills : Bool) (s : State σ)
    (depth : ℕ) : Prop :=
  ∀ visit ∈ (stepAdmissions cfg svc throttlePrefills s).2, ∀ cached looked n plan,
    PaddedAdmission cfg svc (stepAdmissions cfg svc throttlePrefills s).1 visit.1 visit.2
      cached looked n plan →
    (depth = cfg.numSpecTokens ∧
      Uncut cfg svc (stepAdmissions cfg svc throttlePrefills s).1 visit.1 cached looked) ∨
    (depth < cfg.numSpecTokens ∧
      paddingLeft cfg svc (stepAdmissions cfg svc throttlePrefills s).1 visit.1 cached looked =
        some (1 + depth : ℤ))

/-- Nothing cuts a padded admission of a step. -/
def NothingCut (cfg : Config) (svc : Services σ) (throttlePrefills : Bool) (s : State σ) : Prop :=
  ∀ visit ∈ (stepAdmissions cfg svc throttlePrefills s).2, ∀ cached looked n plan,
    PaddedAdmission cfg svc (stepAdmissions cfg svc throttlePrefills s).1 visit.1 visit.2
      cached looked n plan →
    Uncut cfg svc (stepAdmissions cfg svc throttlePrefills s).1 visit.1 cached looked

theorem StepPasses.pads (h : StepPasses cfg svc throttlePrefills s p q out s')
    (hpads : out.Pads s id) :
    ∃ visit ∈ (stepAdmissions cfg svc throttlePrefills s).2, ∃ cached looked n plan,
      PaddedAdmission cfg svc (stepAdmissions cfg svc throttlePrefills s).1 visit.1 visit.2
        cached looked n plan ∧
      out.numScheduledTokens.get? id = some plan.numNewTokens := by
  obtain ⟨hid, hdrafts⟩ := hpads
  obtain ⟨drafts, hdrafts⟩ := Option.isSome_iff_exists.mp hdrafts
  obtain ⟨visit, hvisit, -, cached, looked, n, plan, hadmission, htokens, -⟩ :=
    h.padded_drafts hid hdrafts
  exact ⟨visit, hvisit, cached, looked, n, plan, hadmission, htokens⟩

/-- Without a threshold, a prefill budget, encoder inputs and Mamba blocks nothing is cut. -/
theorem uncut_of_plain {cached : CachedTokens} (haware : cfg.enableDecodeAwarePrefill = false)
    (hthreshold : cfg.longPrefillTokenThreshold = 0)
    (hmamba : cfg.needMambaBlockAlignedSplit = false)
    (hwindow : ∀ features start stop, svc.getMmFeaturesInWindow features start stop = (0, 0)) :
    Uncut cfg svc ctx id cached p where
  threshold _ hpos := by
    rw [hthreshold] at hpos
    exact absurd hpos (lt_irrefl 0)
  budget haware' := by
    rw [haware] at haware'
    cases haware'
  encoder := by
    unfold EncoderInputsFit
    simp only [hwindow, Nat.zero_sub]
    exact .inr trivial
  mamba hneeded := by
    rw [hmamba] at hneeded
    cases hneeded

theorem adaptiveBatch_of_one {c : AcceptanceLengthController} {queryLen : ℤ}
    (hcontroller : s.acceptanceLengthController = some c) (hlookup : cfg.dynamicSdLookup = none)
    (hrunning : s.running = [id]) (htokens : out.numScheduledTokens.get? id = some queryLen)
    (hdrafts : (draftsOf out.scheduledSpecDecodeTokens id).length = c.numSpecTokens)
    (hlength : queryLen = 1 + c.numSpecTokens) : AdaptiveBatch cfg s out c queryLen := by
  refine ⟨hcontroller, hlookup, ⟨id, ?_, ?_⟩, ?_⟩
  · rw [hrunning]
    exact List.mem_singleton_self id
  · rw [htokens]
    rfl
  · intro id' hid n hn
    rw [hrunning, List.mem_singleton] at hid
    rw [hid, htokens, Option.some.injEq] at hn
    rw [hid, hdrafts]
    exact ⟨hn.symm, hn.symm.trans hlength, rfl⟩

/-- A controller that starts at the lower of two depths. -/
def depthOne : AcceptanceLengthController where
  maxNumSpecTokens := 2
  observationWindow := 1
  depthLadder := [1, 2]
  numSpecTokens := 1
  positionEligible := [0, 0]
  positionAccepted := [0, 0]

example : AcceptanceLengthController.init 2 1 [1, 2] = .ok depthOne := rfl

end ChampionRuntime.Scheduler
