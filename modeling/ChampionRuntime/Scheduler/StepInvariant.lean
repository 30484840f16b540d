import ChampionRuntime.Scheduler.Schedule
import ChampionRuntime.Scheduler.WaitingLoop

/-!
# What a scheduling step keeps

A step starts with fitting queues and keeps them. Its drafts are those of running requests,
and the placeholders of padded admissions.
-/
namespace ChampionRuntime.Scheduler

open Lib
open scoped List

variable {σ : Type} {cfg : Config} {svc : Services σ} {throttlePrefills : Bool}

theorem selectLongPrefillRequestIds_state (cfg : Config) (s : State σ) : ∃ turns,
    (s.selectLongPrefillRequestIds cfg).2 = { s with longPrefillLastScheduled := turns } := by
  unfold State.selectLongPrefillRequestIds
  split_ifs
  · exact ⟨_, rfl⟩
  · exact ⟨_, rfl⟩

theorem beginStep_spec {s : State σ} (h : WellQueued [] s) :
    RunInv cfg (beginStep cfg throttlePrefills s).1 s (beginStep cfg throttlePrefills s).2 := by
  obtain ⟨turns, hturns⟩ := selectLongPrefillRequestIds_state cfg
    { s with currentStep := s.currentStep + 1 }
  have hstate : (beginStep cfg throttlePrefills s).2.toState =
      { s with currentStep := s.currentStep + 1, longPrefillLastScheduled := turns } := hturns
  have hrequest : (beginStep cfg throttlePrefills s).2.request = s.request := by rw [hstate]
  have hrunning : (beginStep cfg throttlePrefills s).2.running = s.running := by rw [hstate]
  refine {
    queues := ?_
    scheduled := nofun
    drafted := nofun
    taken := nofun
    listed := ?_
    nodup_listed := List.nodup_nil
    ends := nofun
    still := ?_
    same := ?_
    unchanged := ?_
    ungated := nofun
    origin := nofun
    kept := ?_
    aside := rfl }
  · rw [hstate]
    apply h.stay
    · rfl
    · rfl
    · rfl
    · exact fun _ hid => hid
    · exact h.running
    · exact h.queued
  · intro id
    exact ⟨nofun, nofun⟩
  · intro id hid
    rwa [hrunning] at hid
  · intro id _
    rw [hrequest]
    exact ⟨(s.request id).specTokenIds, rfl⟩
  · intro id _ _
    rw [hrequest]
  · intro _
    rw [hstate]
    exact ⟨rfl, rfl, rfl, fun _ _ => rfl⟩

theorem scheduleRunning_spec {ctx : StepContext} {s₀ : State σ} {p p' : Pass σ}
    (h : RunInv cfg ctx s₀ p) (hrun : scheduleRunning cfg svc ctx p = .ok p') :
    RunInv cfg ctx s₀ p' := by
  simp only [scheduleRunning, bind_eq_ok] at hrun
  obtain ⟨q, hloop, hrun⟩ := hrun
  have hq := runningLoop_spec h hloop
  cases hloras : cfg.maxLoras with
  | none =>
    rw [hloras] at hrun
    cases hrun
    exact hq
  | some maxLoras =>
    rw [hloras] at hrun
    simp only [bind_eq_ok] at hrun
    obtain ⟨-, -, hrun⟩ := hrun
    cases hrun
    exact ⟨⟨⟨hq.queues.nodup, hq.queues.registered, hq.queues.running, hq.queues.queued⟩,
      hq.scheduled, hq.drafted⟩, hq.taken, hq.listed, hq.nodup_listed, hq.ends, hq.still, hq.same,
      hq.unchanged, hq.ungated, hq.origin, hq.kept, hq.aside⟩

structure StepEnd (cfg : Config) (ctx : StepContext) (s₀ : State σ) (p : Pass σ) : Prop
    extends PassInv p where
  aside : p.stepSkippedWaiting = []
  ungated : cfg.enableDecodeAwarePrefill = true → ∀ id ∈ s₀.running, ∀ n,
    p.numScheduledTokens.get? id = some n → isLongPrefillRequest cfg (s₀.request id) = true →
    id ∈ ctx.selectedLongPrefillIds
  since : ∀ id n, p.numScheduledTokens.get? id = some n →
    (s₀.request id).numComputedTokens ≤ (p.request id).numComputedTokens + 1 ∧
      (cfg.numSampledTokensPerStep = 0 → draftsOf p.scheduledSpecDecodeTokens id ≠ [] →
        (s₀.request id).numComputedTokens ≤ (p.request id).numComputedTokens)

variable {ctx : StepContext} {s₀ : State σ} {p p' : Pass σ}

theorem RunInv.numComputedTokens_eq (h : RunInv cfg ctx s₀ p) {id : RequestId}
    (hid : id ∈ p.running) :
    (p.request id).numComputedTokens = (s₀.request id).numComputedTokens := by
  obtain ⟨drafts, hsame⟩ := h.same id hid
  rw [hsame]

theorem RunInv.stepEnd (h : RunInv cfg ctx s₀ p) : StepEnd cfg ctx s₀ p where
  toPassInv := h.toPassInv
  aside := h.aside
  ungated haware id _ n hn hlong := h.ungated haware id n hn hlong
  since id n hn := by
    have hsame := h.numComputedTokens_eq (h.scheduled id n hn)
    constructor
    · omega
    · intro _ _
      omega

/-- Where nothing was preempted, the second loop starts with the requests of the step. -/
theorem RunInv.waitInv (h : RunInv cfg ctx s₀ p) (hnone : p.preemptedReqs = []) :
    WaitInv cfg ctx s₀ p ∧ Untouched s₀ p := by
  obtain ⟨hrunning, hwaiting, hskipped, hkept⟩ := h.kept hnone
  have hend := h.stepEnd
  refine ⟨⟨h.toPassInv, ?_, hend.ungated, hend.since⟩, ?_⟩
  · intro id hid
    rwa [hrunning]
  · intro id hid
    apply hkept
    rwa [hwaiting, hskipped, ← List.append_nil (s₀.waiting ++ s₀.skippedWaiting)] at hid

/-- The turns of the second loop of a step. -/
def admissionVisits (cfg : Config) (svc : Services σ) (ctx : StepContext) (p : Pass σ) :
    List (RequestId × Pass σ) :=
  if p.preemptedReqs ≠ [] ∨ p.pauseState ≠ .unpaused then []
  else waitingVisits cfg svc ctx (p.waiting.length + p.skippedWaiting.length) p

/-- What the second loop of a step keeps and adds. -/
structure AdmissionsKeep (cfg : Config) (svc : Services σ) (ctx : StepContext) (s₀ : State σ)
    (p p' : Pass σ) : Prop where
  done : StepEnd cfg ctx s₀ p'
  kept : ∀ id ∈ p.running, p.KeepsEntry p' id
  padded : ∀ id drafts, id ∉ p.running → p'.scheduledSpecDecodeTokens.get? id = some drafts →
    id ∉ s₀.running ∧ ∃ visit ∈ admissionVisits cfg svc ctx p, visit.1 = id ∧
      PaddedEntry cfg svc ctx id visit.2 p' drafts
  admits : ∀ visit ∈ admissionVisits cfg svc ctx p, ∀ cached q n plan,
    PaddedAdmission cfg svc ctx visit.1 visit.2 cached q n plan → visit.1 ∉ s₀.running ∧
      p'.numScheduledTokens.get? visit.1 = some plan.numNewTokens ∧
      p'.scheduledSpecDecodeTokens.get? visit.1 =
        some (List.replicate cfg.numSpecTokens DraftToken.placeholder)

theorem scheduleWaiting_spec (h : RunInv cfg ctx s₀ p)
    (hwait : scheduleWaiting cfg svc ctx p = .ok p') : AdmissionsKeep cfg svc ctx s₀ p p' := by
  unfold scheduleWaiting at hwait
  by_cases hskip : p.preemptedReqs ≠ [] ∨ p.pauseState ≠ .unpaused
  · rw [if_pos hskip] at hwait
    cases hwait
    have hvisits : admissionVisits cfg svc ctx p = [] := if_pos hskip
    refine ⟨h.stepEnd, fun id hid => ⟨hid, rfl, rfl⟩, ?_, ?_⟩
    · intro id drafts hnot hsome
      obtain ⟨n, hn⟩ := h.drafted id drafts hsome
      exact absurd (h.scheduled id n hn) hnot
    · rw [hvisits]
      exact List.forall_mem_nil _
  · rw [if_neg hskip] at hwait
    have hvisits : admissionVisits cfg svc ctx p =
        waitingVisits cfg svc ctx (p.waiting.length + p.skippedWaiting.length) p := if_neg hskip
    have hnone : p.preemptedReqs = [] := by
      by_contra hpreempted
      exact hskip (.inl hpreempted)
    simp only [bind_eq_ok, pure_eq_ok] at hwait
    obtain ⟨q, hloop, rfl⟩ := hwait
    obtain ⟨hinv, huntouched⟩ := h.waitInv hnone
    obtain ⟨hq, hkept, hpadded, hadmits⟩ := waitingLoop_spec hinv huntouched hloop
    rw [← hvisits] at hpadded hadmits
    rw [(h.kept hnone).1] at hpadded hadmits
    refine ⟨⟨⟨?_, hq.scheduled, hq.drafted⟩, rfl, hq.ungated, hq.since⟩, hkept, ?_, hadmits⟩
    · -- the requests put aside go back to the skipped queue
      have hperm : svc.queues.prependAll q.request q.stepSkippedWaiting q.skippedWaiting ~
          q.stepSkippedWaiting ++ q.skippedWaiting := svc.queues.prependAll_perm _ _ _
      have hqueue : q.waiting ++
          svc.queues.prependAll q.request q.stepSkippedWaiting q.skippedWaiting ++ [] ~
          q.queued q.stepSkippedWaiting := by
        rw [List.append_nil, State.queued, List.append_assoc]
        exact (hperm.trans List.perm_append_comm).append_left _
      apply hq.queues.move
      · exact (hqueue.append_left _).subperm
      · exact fun _ _ hid => hid
      · exact hq.queues.running
      · intro id hid
        exact hq.queues.queued id (hqueue.mem_iff.mp hid)
    · intro id drafts hnot hsome
      rw [(h.kept hnone).1] at hnot
      exact ⟨hnot, hpadded id drafts hnot hsome⟩

theorem debitUnusedLongPrefillTurns_state (cfg : Config) (s : State σ) (selected : List RequestId)
    (tokens : Dict RequestId ℤ) (deferred : Bool) : ∃ wasted turns,
    s.debitUnusedLongPrefillTurns cfg selected tokens deferred =
      { s with longPrefillWastedTurns := wasted, longPrefillLastScheduled := turns } := by
  unfold State.debitUnusedLongPrefillTurns
  split_ifs
  · exact ⟨_, _, rfl⟩
  · exact ⟨_, _, rfl⟩
  · exact ⟨_, _, rfl⟩

/-- The passes of a step that returns: `p` behind the first loop, `q` behind the second. -/
structure StepPasses (cfg : Config) (svc : Services σ) (throttlePrefills : Bool) (s : State σ)
    (p q : Pass σ) (out : SchedulerOutput) (s' : State σ) : Prop where
  running : RunInv cfg (beginStep cfg throttlePrefills s).1 s p
  ran : scheduleRunning cfg svc (beginStep cfg throttlePrefills s).1
    (beginStep cfg throttlePrefills s).2 = .ok p
  waiting : AdmissionsKeep cfg svc (beginStep cfg throttlePrefills s).1 s p q
  waited : scheduleWaiting cfg svc (beginStep cfg throttlePrefills s).1 p = .ok q
  tokens : out.numScheduledTokens = q.numScheduledTokens
  drafts : out.scheduledSpecDecodeTokens = q.scheduledSpecDecodeTokens
  depth : numSpecTokensToSchedule cfg q = .ok out.numSpecTokensToSchedule
  state : ∃ wasted turns, s' = State.updateAfterSchedule { q.toState with
    longPrefillWastedTurns := wasted
    longPrefillLastScheduled := turns } q.numScheduledTokens

theorem schedule_passes {s s' : State σ} {out : SchedulerOutput} (h : WellQueued [] s)
    (hstep : schedule cfg svc throttlePrefills s = .ok (out, s')) :
    ∃ p q, StepPasses cfg svc throttlePrefills s p q out s' := by
  simp only [schedule, runLoops, bind_eq_ok, pure_eq_ok, Prod.mk.injEq] at hstep
  obtain ⟨⟨ctx, q⟩, ⟨p, hrun, q', hwait, rfl, rfl⟩, -, -, depth, hdepth, rfl, rfl⟩ := hstep
  have hbegin : RunInv cfg _ s (beginStep cfg throttlePrefills s).2 := beginStep_spec h
  have hp := scheduleRunning_spec hbegin hrun
  obtain ⟨wasted, turns, hdebit⟩ := debitUnusedLongPrefillTurns_state cfg q.toState
    (beginStep cfg throttlePrefills s).1.selectedLongPrefillIds q.numScheduledTokens
    (beginStep cfg throttlePrefills s).1.deferPrefills
  refine ⟨p, q, hp, hrun, scheduleWaiting_spec hp hwait, hwait, rfl, rfl, hdepth, wasted, turns, ?_⟩
  rw [← hdebit]

section Passes

variable {s s' : State σ} {q : Pass σ} {out : SchedulerOutput} {id : RequestId} {n : ℤ}
  {drafts : List DraftToken}

theorem StepPasses.request (h : StepPasses cfg svc throttlePrefills s p q out s') (id : RequestId) :
    s'.request id = match q.numScheduledTokens.get? id with
      | some n => (q.request id).advance n
      | none => q.request id := by
  obtain ⟨wasted, turns, hstate⟩ := h.state
  rw [hstate]
  rfl

theorem StepPasses.queues (h : StepPasses cfg svc throttlePrefills s p q out s') :
    WellQueued [] s' := by
  have hdone := h.waiting.done
  have hqueues := hdone.queues
  rw [hdone.aside] at hqueues
  obtain ⟨wasted, turns, hstate⟩ := h.state
  have hsame : ∀ id, (s'.request id).status = (q.request id).status := by
    intro id
    rw [h.request]
    split <;> rfl
  apply hqueues.stay
  · rw [hstate]
    rfl
  · rw [hstate]
    rfl
  · rw [hstate]
    rfl
  · rw [hstate]
    exact fun _ hid => hid
  · intro id hid
    rw [hsame]
    exact hqueues.running id hid
  · intro id hid
    obtain ⟨hrunning, hfinished⟩ := hqueues.queued id hid
    rw [← hsame] at hrunning hfinished
    exact ⟨hrunning, hfinished⟩

theorem StepPasses.since (h : StepPasses cfg svc throttlePrefills s p q out s')
    (hn : out.numScheduledTokens.get? id = some n) :
    (s.request id).numComputedTokens + n ≤ (s'.request id).numComputedTokens + 1 ∧
      (cfg.numSampledTokensPerStep = 0 → draftsOf out.scheduledSpecDecodeTokens id ≠ [] →
        (s.request id).numComputedTokens + n ≤ (s'.request id).numComputedTokens) := by
  rw [h.tokens] at hn
  obtain ⟨hsince, hdrafted⟩ := h.waiting.done.since id n hn
  rw [h.request, hn, h.drafts]
  dsimp only [Request.advance]
  constructor
  · omega
  · intro hzero hne
    have hexact := hdrafted hzero hne
    omega

/-- The turns of the second loop of a step, with the context of the step. -/
def stepAdmissions (cfg : Config) (svc : Services σ) (throttlePrefills : Bool) (s : State σ) :
    StepContext × List (RequestId × Pass σ) :=
  let (ctx, p) := beginStep cfg throttlePrefills s
  match scheduleRunning cfg svc ctx p with
  | .ok p => (ctx, admissionVisits cfg svc ctx p)
  | .error _ => (ctx, [])

theorem StepPasses.admissions (h : StepPasses cfg svc throttlePrefills s p q out s') :
    stepAdmissions cfg svc throttlePrefills s = ((beginStep cfg throttlePrefills s).1,
      admissionVisits cfg svc (beginStep cfg throttlePrefills s).1 p) := by
  unfold stepAdmissions
  dsimp only
  rw [h.ran]

theorem StepPasses.running_drafts (h : StepPasses cfg svc throttlePrefills s p q out s')
    (hid : id ∈ s.running) (hdrafts : out.scheduledSpecDecodeTokens.get? id = some drafts) :
    drafts <+: (s.request id).specTokenIds ∧ ∃ n, out.numScheduledTokens.get? id = some n ∧
      (s.request id).DraftsEnd drafts n := by
  rw [h.drafts] at hdrafts
  rw [h.tokens]
  have hrunning : id ∈ p.running := by
    by_contra hnot
    exact (h.waiting.padded id drafts hnot hdrafts).1 hid
  obtain ⟨-, htokens, hsame⟩ := h.waiting.kept id hrunning
  rw [hsame] at hdrafts
  obtain ⟨n, hn, hends⟩ := h.running.ends id drafts hdrafts
  exact ⟨h.running.origin id drafts hdrafts, n, htokens.trans hn, hends⟩

theorem StepPasses.padded_drafts (h : StepPasses cfg svc throttlePrefills s p q out s')
    (hid : id ∉ s.running) (hdrafts : out.scheduledSpecDecodeTokens.get? id = some drafts) :
    ∃ visit ∈ (stepAdmissions cfg svc throttlePrefills s).2, visit.1 = id ∧
      ∃ cached looked n plan, PaddedAdmission cfg svc (stepAdmissions cfg svc throttlePrefills s).1
        visit.1 visit.2 cached looked n plan ∧
        out.numScheduledTokens.get? id = some plan.numNewTokens ∧
        drafts = List.replicate cfg.numSpecTokens DraftToken.placeholder := by
  rw [h.drafts] at hdrafts
  rw [h.tokens, h.admissions]
  have hnot : id ∉ p.running := fun hmem => hid (h.running.still id hmem)
  obtain ⟨-, visit, hvisit, rfl, hentry⟩ := h.waiting.padded id drafts hnot hdrafts
  exact ⟨visit, hvisit, rfl, hentry⟩

theorem StepPasses.padded_entry (h : StepPasses cfg svc throttlePrefills s p q out s')
    {visit : RequestId × Pass σ} (hvisit : visit ∈ (stepAdmissions cfg svc throttlePrefills s).2)
    {cached : CachedTokens} {looked : Pass σ} {plan : EncoderPlan}
    (hadmission : PaddedAdmission cfg svc (stepAdmissions cfg svc throttlePrefills s).1
      visit.1 visit.2 cached looked n plan) :
    visit.1 ∉ s.running ∧ out.numScheduledTokens.get? visit.1 = some plan.numNewTokens ∧
      out.scheduledSpecDecodeTokens.get? visit.1 =
        some (List.replicate cfg.numSpecTokens DraftToken.placeholder) := by
  rw [h.admissions] at hvisit hadmission
  rw [h.tokens, h.drafts]
  exact h.waiting.admits visit hvisit cached looked n plan hadmission

end Passes

end ChampionRuntime.Scheduler
