import ChampionRuntime.Scheduler.Frames

/-!
# Runs of the scheduler

A step is scheduled, executed by the model runner, and its output taken back. Several steps
may be in flight; the runner executes them in the order they were scheduled in, and their
outputs come back in that order. Everything else happens at any time. The runner makes the
drafts of a later step while it executes one.
-/
namespace ChampionRuntime.Scheduler

open Lib
open scoped List

variable {σ : Type} (cfg : Config) (svc : Services σ)

/-- A step in flight, with the state it was scheduled in. `filled` are the requests whose
placeholders were replaced meanwhile, with the depth of the drafts they got, if none of these
was invalid. The output alone is part of the program. -/
structure InFlight (σ : Type) where
  before : State σ
  out : SchedulerOutput
  filled : RequestId → Option (Option ℕ) := fun _ => none

/-- The scheduler with the steps the runner is to execute, and those it has executed. `drafted`
is the depth of the drafts the runner holds and `window` the drafts counted since the last
depth decision; neither is part of the program. -/
structure Engine (σ : Type) where
  state : State σ
  scheduled : List (InFlight σ) := []
  executed : List (InFlight σ) := []
  drafted : Option ℕ := none
  window : List DraftToken := []

/-- The drafts of the model runner, at their depth. -/
def Engine.stamp (e : Engine σ) (drafts : List (RequestId × List ℤ)) :
    List (RequestId × List DraftToken) :=
  drafts.map fun p => (p.1, p.2.map fun token => ⟨token, e.drafted⟩)

inductive Action (σ : Type) where
  | addRequest (id : RequestId) (r : Request) (update : Option StreamingUpdate)
  | finishRequests (ids : List RequestId) (finishedStatus : RequestStatus)
  | setPauseState (pauseState : PauseState)
  | preemptRunning
  | serve (services : σ)
  | updateDraftTokenIds (drafts : List (RequestId × List ℤ))
  | schedule (throttlePrefills : Bool)
  | updateDraftTokenIdsInOutput (i : ℕ) (drafts : List (RequestId × List ℤ))
  | execute
  | updateFromOutput (mo : ModelRunnerOutput)

instance (r : Request) : Decidable r.Fresh := inferInstanceAs (Decidable (_ ∨ _))

/-- Whether the drafts of an update count for a window that goes on, or for the next one. -/
def nextWindow (window : List DraftToken) (update : Option Decoding.AcceptanceLengthUpdate) :
    List DraftToken :=
  if update.isSome then [] else window

def observedDrafts (out : SchedulerOutput) (mo : ModelRunnerOutput) (s : State σ) :
    List DraftToken :=
  match updateRequests cfg svc out mo s with
  | .ok (_, u) => u.observedDrafts
  | .error _ => []

/-- Whether `update_draft_token_ids_in_output` replaces the placeholders of a request. -/
def replacesDrafts (s : State σ) (out : SchedulerOutput) (drafts : List (RequestId × List DraftToken))
    (id : RequestId) : Bool :=
  id ∈ drafts.map Prod.fst ∧ id ∈ s.requests ∧ (s.request id).status.isFinished = false ∧
    (out.scheduledSpecDecodeTokens.get? id).isSome

/-- Drafts of a depth come for a step that is still to be executed. -/
def InFlight.fill (f : InFlight σ) (s : State σ) (depth : Option ℕ)
    (drafts : List (RequestId × List DraftToken)) : InFlight σ :=
  let out := Scheduler.updateDraftTokenIdsInOutput svc s f.out drafts
  { f with
    out
    filled := fun id =>
      if replacesDrafts s f.out drafts id then
        some (if (out.numInvalidSpecTokens.get? id).isNone then depth else none)
      else f.filled id }

def Engine.act (e : Engine σ) : Action σ → Except String (Engine σ)
  | .addRequest id r update => do
    require r.Fresh "no new request"
    let s ← e.state.addRequest svc id r update
    return { e with state := s }
  | .finishRequests ids finishedStatus => do
    require (finishedStatus.isFinished) "assert RequestStatus.is_finished(finished_status)"
    return { e with state := e.state.finishRequests svc ids finishedStatus }
  | .setPauseState pauseState => return { e with state := { e.state with pauseState } }
  | .preemptRunning => do
    let s ← e.state.preemptRunning svc
    return { e with state := s }
  | .serve services => return { e with state := { e.state with services } }
  | .updateDraftTokenIds drafts =>
    return { e with state := e.state.updateDraftTokenIds svc (e.stamp drafts) }
  | .schedule throttlePrefills => do
    let (out, s) ← Scheduler.schedule cfg svc throttlePrefills e.state
    return { e with state := s, scheduled := e.scheduled ++ [{ before := e.state, out }] }
  | .updateDraftTokenIdsInOutput i drafts =>
    return { e with
      scheduled := e.scheduled.modify i fun f => f.fill svc e.state e.drafted (e.stamp drafts) }
  | .execute =>
    match e.scheduled with
    | [] => .error "no step is scheduled"
    | f :: scheduled =>
      return { e with
        scheduled
        executed := e.executed ++ [f]
        drafted := some f.out.numSpecTokensToSchedule }
  | .updateFromOutput mo =>
    match e.executed with
    | [] => .error "no step is executed"
    | f :: executed => do
      let (update, s) ← Scheduler.updateFromOutput cfg svc f.out mo e.state
      return { e with
        state := s
        executed
        window := nextWindow (e.window ++ observedDrafts cfg svc f.out mo e.state) update }

structure State.Initial (s : State σ) : Prop where
  requests : s.requests = []
  running : s.running = []
  waiting : s.waiting = []
  skippedWaiting : s.skippedWaiting = []
  currentStep : s.currentStep = 0
  turns : ∀ id, s.longPrefillLastScheduled id = none

/-- Components that say yes, but for an allocator whose next answers are given. -/
def Services.scripted : Services (List Bool) where
  queues := .fcfs
  allocateSlots answers _ _ := (answers.headD true, answers.tail)
  getComputedBlocks answers _ _ := ((0, 0), answers)
  getComputedBlocksForConnector answers _ _ := ((0, 0, false), answers)
  getNumNewMatchedTokens answers _ _ _ := ((some 0, false), answers)
  ensureCacheAvailable answers _ _ _ := (true, answers)
  getMmFeaturesInWindow _ _ _ := (0, 0)
  checkAndUpdateCache answers _ _ _ := (true, answers)
  canAllocateEncoder answers _ _ _ _ _ := (true, answers)
  numEmbedsInRange _ _ _ := 0
  hasCacheItem _ _ := false
  grammarState _ _ := .ready
  shouldAdvance _ _ _ := false
  validateTokens _ _ drafts := drafts
  acceptTokens answers _ _ _ := (true, answers)
  getBlockIds _ _ := []
  checkStop _ _ := none
  delayFreeBlocks _ _ := false
  window_before _ _ _ _ h := absurd h (Nat.not_lt_zero _)
  validateTokens_prefix _ _ drafts := List.prefix_rfl
  checkStop_finished _ _ _ h := by cases h

/-- The states of runs all of whose actions satisfy `Q` where they are taken. -/
inductive Engine.Reached (Q : Engine σ → Action σ → Prop) : Engine σ → Prop
  | start {s : State σ} (h : s.Initial) : Engine.Reached Q { state := s }
  | act {e e' : Engine σ} {a : Action σ} (h : Engine.Reached Q e) (hQ : Q e a)
      (hact : e.act cfg svc a = .ok e') : Engine.Reached Q e'

variable {cfg svc} {s s' : State σ} {out out' : SchedulerOutput}

theorem Engine.Reached.mono {Q Q' : Engine σ → Action σ → Prop} {e : Engine σ}
    (h : Engine.Reached cfg svc Q e) (hQ : ∀ e a, Q e a → Q' e a) : Engine.Reached cfg svc Q' e := by
  induction h with
  | start hinitial => exact .start hinitial
  | act _ hhere hact ih => exact .act ih (hQ _ _ hhere) hact

/-- The drafts that come for an output: of each request as many as there were placeholders. -/
structure SchedulerOutput.SameShape (out out' : SchedulerOutput) : Prop where
  tokens : out'.numScheduledTokens = out.numScheduledTokens
  depth : out'.numSpecTokensToSchedule = out.numSpecTokensToSchedule
  drafts : ∀ id, (out'.scheduledSpecDecodeTokens.get? id).map List.length =
    (out.scheduledSpecDecodeTokens.get? id).map List.length

theorem SchedulerOutput.SameShape.length_draftsOf (h : out.SameShape out') (id : RequestId) :
    (draftsOf out'.scheduledSpecDecodeTokens id).length =
      (draftsOf out.scheduledSpecDecodeTokens id).length := by
  have hlength := h.drafts id
  unfold draftsOf
  cases hout : out.scheduledSpecDecodeTokens.get? id with
  | none =>
    rw [hout, Option.map_none, Option.map_eq_none_iff] at hlength
    rw [hlength]
  | some ds =>
    rw [hout, Option.map_some] at hlength
    obtain ⟨ds', hds', heq⟩ := Option.map_eq_some_iff.mp hlength
    rw [hds']
    exact heq

theorem draftsInOutput_shape (svc : Services σ) (s : State σ) (out : SchedulerOutput)
    (p : RequestId × List DraftToken) : out.SameShape (draftsInOutput svc s out p) := by
  unfold draftsInOutput
  dsimp only
  by_cases hgone : p.1 ∉ s.requests ∨ (s.request p.1).status.isFinished = true
  · rw [if_pos hgone]
    exact ⟨rfl, rfl, fun _ => rfl⟩
  · rw [if_neg hgone]
    cases hplaceholders : out.scheduledSpecDecodeTokens.get? p.1 with
    | none => exact ⟨rfl, rfl, fun _ => rfl⟩
    | some placeholders =>
      dsimp only
      refine ⟨rfl, rfl, fun id => ?_⟩
      rw [Keyed.get?_set]
      by_cases hid : id = p.1
      · rw [if_pos hid, hid, hplaceholders, Option.map_some, Option.map_some,
          List.length_append, List.length_replicate]
        have htaken : (p.2.take placeholders.length).length ≤ placeholders.length :=
          List.length_take_le _ _
        have hvalid : ∀ drafts : List DraftToken, drafts.length ≤ placeholders.length →
            some (drafts.length + (placeholders.length - drafts.length)) =
              some placeholders.length := by
          intro drafts hle
          rw [Nat.add_sub_cancel' hle]
        apply hvalid
        split_ifs
        · exact (svc.validateTokens_prefix _ _ _).length_le.trans htaken
        · exact htaken
      · rw [if_neg hid]

theorem updateDraftTokenIdsInOutput_shape (svc : Services σ) (s : State σ) (out : SchedulerOutput)
    (drafts : List (RequestId × List DraftToken)) :
    out.SameShape (updateDraftTokenIdsInOutput svc s out drafts) := by
  unfold updateDraftTokenIdsInOutput
  have hfold : ∀ out', out.SameShape out' → out.SameShape (drafts.foldl (draftsInOutput svc s) out') := by
    induction drafts with
    | nil => exact fun _ h => h
    | cons first drafts ih =>
      intro out' h
      rw [List.foldl_cons]
      have hfirst := draftsInOutput_shape svc s out' first
      apply ih
      exact ⟨hfirst.tokens.trans h.tokens, hfirst.depth.trans h.depth,
        fun id => (hfirst.drafts id).trans (h.drafts id)⟩
  apply hfold
  exact ⟨rfl, rfl, fun _ => rfl⟩

variable {e e' : Engine σ} {a : Action σ} {Q : Engine σ → Action σ → Prop}

/-- The steps in flight, the oldest first. -/
def Engine.inFlight (e : Engine σ) : List (InFlight σ) := e.executed ++ e.scheduled

/-- What an action does: the first case is that of all but four. -/
inductive Engine.Acts (cfg : Config) (svc : Services σ) (e : Engine σ) : Action σ → Engine σ → Prop
  | upkeep {a : Action σ} {s : State σ} (hsteady : e.state.Steady s)
      (hqueues : WellQueued [] e.state → WellQueued [] s) : Acts cfg svc e a { e with state := s }
  | scheduled {throttlePrefills : Bool} {out : SchedulerOutput} {s : State σ}
      (hstep : Scheduler.schedule cfg svc throttlePrefills e.state = .ok (out, s)) :
      Acts cfg svc e (.schedule throttlePrefills)
        { e with state := s, scheduled := e.scheduled ++ [{ before := e.state, out }] }
  | filled {i : ℕ} {drafts : List (RequestId × List ℤ)} :
      Acts cfg svc e (.updateDraftTokenIdsInOutput i drafts) { e with
        scheduled := e.scheduled.modify i fun f => f.fill svc e.state e.drafted (e.stamp drafts) }
  | executed {f : InFlight σ} {rest : List (InFlight σ)} (hnext : e.scheduled = f :: rest) :
      Acts cfg svc e .execute { e with
        scheduled := rest
        executed := e.executed ++ [f]
        drafted := some f.out.numSpecTokensToSchedule }
  | updated {mo : ModelRunnerOutput} {f : InFlight σ} {rest : List (InFlight σ)}
      {update : Option Decoding.AcceptanceLengthUpdate} {s : State σ}
      (holdest : e.executed = f :: rest)
      (hstep : Scheduler.updateFromOutput cfg svc f.out mo e.state = .ok (update, s)) :
      Acts cfg svc e (.updateFromOutput mo) { e with
        state := s
        executed := rest
        window := nextWindow (e.window ++ observedDrafts cfg svc f.out mo e.state) update }

theorem Engine.acts (hact : e.act cfg svc a = .ok e') : Engine.Acts cfg svc e a e' := by
  cases a with
  | addRequest id r update =>
    simp only [act, bind_eq_ok, require_eq_ok, pure_eq_ok, decide_eq_true_eq] at hact
    obtain ⟨-, hfresh, s, hadd, rfl⟩ := hact
    exact .upkeep (State.steady_addRequest hadd) fun h => addRequest_spec h hfresh hadd
  | finishRequests ids finishedStatus =>
    simp only [act, bind_eq_ok, require_eq_ok, pure_eq_ok] at hact
    obtain ⟨-, -, rfl⟩ := hact
    exact .upkeep (State.steady_finishRequests e.state ids finishedStatus) fun h =>
      (finishRequests_spec h).1
  | setPauseState pauseState =>
    cases hact
    exact .upkeep ⟨rfl, rfl, rfl⟩ fun h => ⟨h.nodup, h.registered, h.running, h.queued⟩
  | preemptRunning =>
    simp only [act, bind_eq_ok, pure_eq_ok] at hact
    obtain ⟨s, hpreempt, rfl⟩ := hact
    exact .upkeep (State.steady_preemptRunning hpreempt) fun h => preemptRunning_spec h hpreempt
  | serve services =>
    cases hact
    exact .upkeep ⟨rfl, rfl, rfl⟩ fun h => ⟨h.nodup, h.registered, h.running, h.queued⟩
  | updateDraftTokenIds drafts =>
    cases hact
    exact .upkeep (State.steady_updateDraftTokenIds e.state (e.stamp drafts)) fun h =>
      updateDraftTokenIds_spec _ h
  | schedule throttlePrefills =>
    simp only [act, bind_eq_ok, pure_eq_ok] at hact
    obtain ⟨⟨out, s⟩, hschedule, rfl⟩ := hact
    exact .scheduled hschedule
  | updateDraftTokenIdsInOutput i drafts =>
    cases hact
    exact .filled
  | execute =>
    unfold act at hact
    cases hnext : e.scheduled with
    | nil =>
      rw [hnext] at hact
      cases hact
    | cons f rest =>
      rw [hnext] at hact
      cases hact
      exact .executed hnext
  | updateFromOutput mo =>
    unfold act at hact
    cases holdest : e.executed with
    | nil =>
      rw [holdest] at hact
      cases hact
    | cons f rest =>
      rw [holdest] at hact
      simp only [bind_eq_ok, pure_eq_ok] at hact
      obtain ⟨⟨update, s⟩, hupdate, rfl⟩ := hact
      exact .updated holdest hupdate

theorem Engine.act_queues (h : WellQueued [] e.state) (hact : e.act cfg svc a = .ok e') :
    WellQueued [] e'.state := by
  cases Engine.acts hact with
  | upkeep _ hqueues => exact hqueues h
  | scheduled hstep =>
    obtain ⟨p, q, hpasses⟩ := schedule_passes h hstep
    exact hpasses.queues
  | filled => exact h
  | executed _ => exact h
  | updated _ hstep =>
    obtain ⟨failed, t, u, hparts⟩ := updateFromOutput_parts hstep
    exact hparts.queues h

theorem State.Initial.queues (h : s.Initial) : WellQueued [] s := by
  have hqueued : s.queued [] = [] := by
    unfold State.queued
    rw [h.waiting, h.skippedWaiting]
    rfl
  refine ⟨?_, ?_, ?_, ?_⟩
  · rw [h.running, hqueued]
    exact List.nodup_nil
  · rw [h.running, hqueued]
    exact nofun
  · rw [h.running]
    exact nofun
  · rw [hqueued]
    exact nofun

theorem Engine.Reached.queues (h : Engine.Reached cfg svc Q e) : WellQueued [] e.state := by
  induction h with
  | start hinitial => exact hinitial.queues
  | act _ _ hact ih => exact Engine.act_queues ih hact

theorem Engine.Reached.forall_inFlight {I : InFlight σ → Prop} (h : Engine.Reached cfg svc Q e)
    (hnew : ∀ e throttlePrefills out s, Engine.Reached cfg svc Q e → Q e (.schedule throttlePrefills) →
      Scheduler.schedule cfg svc throttlePrefills e.state = .ok (out, s) →
      I { before := e.state, out })
    (hfill : ∀ (e : Engine σ) f drafts, I f → I (f.fill svc e.state e.drafted (e.stamp drafts))) :
    ∀ f ∈ e.inFlight, I f := by
  induction h with
  | start _ => exact List.forall_mem_nil _
  | @act e e' a hreached hQ hact ih =>
    unfold Engine.inFlight at ih ⊢
    cases Engine.acts hact with
    | upkeep _ _ => exact ih
    | scheduled hstep =>
      dsimp only
      rw [← List.append_assoc, List.forall_mem_append]
      refine ⟨ih, ?_⟩
      rw [List.forall_mem_singleton]
      exact hnew e _ _ _ hreached hQ hstep
    | filled =>
      rw [List.forall_mem_append] at ih ⊢
      refine ⟨ih.1, ?_⟩
      intro f hf
      obtain ⟨j, hj, rfl⟩ := List.mem_iff_getElem.mp hf
      rw [List.getElem_modify]
      rw [List.length_modify] at hj
      split_ifs
      · exact hfill e _ _ (ih.2 _ (List.getElem_mem hj))
      · exact ih.2 _ (List.getElem_mem hj)
    | executed hnext =>
      dsimp only
      rw [List.append_assoc, List.singleton_append, ← hnext]
      exact ih
    | updated holdest _ =>
      rw [holdest, List.cons_append, List.forall_mem_cons] at ih
      exact ih.2

end ChampionRuntime.Scheduler
