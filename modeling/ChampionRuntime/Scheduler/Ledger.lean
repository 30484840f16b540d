import ChampionRuntime.Scheduler.Frames
import ChampionRuntime.Scheduler.StepInvariant

/-!
# What a turn books

The accounts of a step are the tokens it gave out, the budgets and the turns of the long
prefills. A turn of either loop leaves them alone, takes back what a victim had, or books
one request.
-/
namespace ChampionRuntime.Scheduler

open Lib
open scoped List

variable {σ : Type} {cfg : Config} {svc : Services σ} {ctx : StepContext} {s₀ : State σ}
  {p q p' : Pass σ} {id victim : RequestId} {n : ℤ}

/-- The bounds that the configuration checks. -/
structure Config.Checked (cfg : Config) : Prop where
  maxNumScheduledTokens : 0 ≤ cfg.maxNumScheduledTokens
  decodePrefillTokenBudget : 1 ≤ cfg.decodePrefillTokenBudget
  idlePrefillTokenBudget : 1 ≤ cfg.idlePrefillTokenBudget
  maxLongPrefillsPerStep : 1 ≤ cfg.maxLongPrefillsPerStep

/-- The accounts of the two passes are the same. -/
structure Pass.SameLedger (p q : Pass σ) : Prop where
  tokens : q.numScheduledTokens = p.numScheduledTokens
  budget : q.tokenBudget = p.tokenBudget
  prefill : q.prefillTokensScheduled = p.prefillTokensScheduled
  inputs : q.scheduledEncoderInputs = p.scheduledEncoderInputs
  encoder : q.encoderComputeBudget = p.encoderComputeBudget
  pauseState : q.pauseState = p.pauseState
  steady : p.toState.Steady q.toState

theorem Pass.SameLedger.refl (p : Pass σ) : p.SameLedger p :=
  ⟨rfl, rfl, rfl, rfl, rfl, rfl, .refl _⟩

theorem Pass.SameLedger.trans (h : p.SameLedger q) (h' : q.SameLedger p') : p.SameLedger p' where
  tokens := h'.tokens.trans h.tokens
  budget := h'.budget.trans h.budget
  prefill := h'.prefill.trans h.prefill
  inputs := h'.inputs.trans h.inputs
  encoder := h'.encoder.trans h.encoder
  pauseState := h'.pauseState.trans h.pauseState
  steady := h.steady.trans h'.steady

theorem Pass.SameLedger.withServices (p : Pass σ) (services : σ) :
    p.SameLedger { p with services } :=
  ⟨rfl, rfl, rfl, rfl, rfl, rfl, rfl, rfl, rfl⟩

theorem Pass.SameLedger.passOver (p : Pass σ) (longPrefillGateSkips reqIndex : ℕ) :
    p.SameLedger { p with longPrefillGateSkips, reqIndex } :=
  ⟨rfl, rfl, rfl, rfl, rfl, rfl, rfl, rfl, rfl⟩

/-- The tokens of a request are booked, and maybe as prefill tokens. -/
structure Pass.Books (cfg : Config) (p q : Pass σ) (id : RequestId) (n : ℤ) (asPrefill : Bool) :
    Prop where
  tokens : q.numScheduledTokens = p.numScheduledTokens.set id n
  budget : q.tokenBudget = p.tokenBudget - n
  prefill : q.prefillTokensScheduled =
    if asPrefill then p.prefillTokensScheduled + n else p.prefillTokensScheduled
  pauseState : q.pauseState = p.pauseState
  currentStep : q.currentStep = p.currentStep
  controller : q.acceptanceLengthController = p.acceptanceLengthController
  turns : q.longPrefillLastScheduled =
    if asPrefill = true ∧ isLongPrefillRequest cfg (p.request id) = true then
      Function.update p.longPrefillLastScheduled id (some p.currentStep)
    else p.longPrefillLastScheduled

/-- The encoder inputs of a plan are booked, and the budget is what the plan leaves. -/
structure Pass.BooksEncoder (p q : Pass σ) (id : RequestId) (plan : EncoderPlan) : Prop where
  inputs : q.scheduledEncoderInputs =
    if plan.encoderInputsToSchedule ≠ [] then
      p.scheduledEncoderInputs.set id plan.encoderInputsToSchedule
    else p.scheduledEncoderInputs
  budget : q.encoderComputeBudget =
    if plan.encoderInputsToSchedule ≠ [] then plan.encoderComputeBudget else p.encoderComputeBudget

/-- What a step gave a victim is taken back, but for its prefill tokens. -/
structure Pass.TakesBack (p q : Pass σ) (victim : RequestId) : Prop where
  lowest : lowestPriority p.toState = some victim
  listed : victim ∈ p.scheduledRunningReqs
  tokens : q.numScheduledTokens = p.numScheduledTokens.erase victim
  budget : q.tokenBudget = p.tokenBudget + (p.numScheduledTokens.get? victim).getD 0
  prefill : q.prefillTokensScheduled = p.prefillTokensScheduled
  inputs : q.scheduledEncoderInputs = p.scheduledEncoderInputs.erase victim
  encoder : q.encoderComputeBudget = p.encoderComputeBudget +
    (p.request victim).encoderEmbeds ((p.scheduledEncoderInputs.get? victim).getD [])
  pauseState : q.pauseState = p.pauseState
  steady : p.toState.Steady q.toState

theorem evict_ledger (h : p.evict cfg svc = .ok (victim, q)) :
    p.SameLedger q ∨ cfg.policy = .priority ∧ p.TakesBack q victim := by
  obtain ⟨taken, htake, rfl⟩ := evict_eq_ok h
  unfold Pass.takeVictim at htake
  cases hpolicy : cfg.policy with
  | fcfs =>
    rw [hpolicy] at htake
    obtain ⟨last, -, hpair⟩ := Option.map_eq_some_iff.mp htake
    cases hpair
    exact .inl ⟨rfl, rfl, rfl, rfl, rfl, rfl, rfl, rfl, rfl⟩
  | priority =>
    rw [hpolicy] at htake
    obtain ⟨lowest, hlowest, hpair⟩ := Option.map_eq_some_iff.mp htake
    rw [Prod.mk.injEq] at hpair
    obtain ⟨rfl, hq⟩ := hpair
    split_ifs at hq with hlisted
    · subst hq
      exact .inr ⟨rfl, hlowest, hlisted, rfl, rfl, rfl, rfl, rfl, rfl, rfl, rfl, rfl⟩
    · subst hq
      exact .inl ⟨rfl, rfl, rfl, rfl, rfl, rfl, rfl, rfl, rfl⟩

/-- The passes that `makeRoom` preempts a request in. -/
def roomEvictions (cfg : Config) (svc : Services σ) (id : RequestId) (numNewTokens : ℤ) :
    ℕ → Pass σ → List (Pass σ)
  | 0, _ => []
  | fuel + 1, p =>
    let (allocated, services) := svc.allocateSlots p.services id {
      request := p.request id
      numNewTokens
      numLookaheadTokens := cfg.numLookaheadTokens }
    let p := { p with services }
    if allocated then []
    else
      p :: match p.evict cfg svc with
        | .ok (victim, q) => if victim = id then [] else roomEvictions cfg svc id numNewTokens fuel q
        | .error _ => []

/-- A chain of preemptions: the first list are the passes they start in. -/
inductive Evictions (cfg : Config) (svc : Services σ) (ctx : StepContext) (s₀ : State σ) :
    List (Pass σ) → Pass σ → Pass σ → Prop
  | nil {p q : Pass σ} (hsame : p.SameLedger q) : Evictions cfg svc ctx s₀ [] p q
  | cons {es : List (Pass σ)} {p e q p' : Pass σ} {victim : RequestId} (hsame : p.SameLedger e)
      (hinv : RunInv cfg ctx s₀ e) (hevict : e.evict cfg svc = .ok (victim, q))
      (hrest : Evictions cfg svc ctx s₀ es q p') : Evictions cfg svc ctx s₀ (e :: es) p p'

theorem Evictions.ofSame {es : List (Pass σ)} (hsame : p.SameLedger q)
    (h : Evictions cfg svc ctx s₀ es q p') : Evictions cfg svc ctx s₀ es p p' := by
  cases h with
  | nil hsame' => exact .nil (hsame.trans hsame')
  | cons hsame' hinv hevict hrest => exact .cons (hsame.trans hsame') hinv hevict hrest

theorem makeRoom_evictions {fuel : ℕ} {allocated : Bool} (h : RoomInv cfg ctx s₀ id p)
    (hroom : makeRoom cfg svc id n fuel p = .ok (allocated, p')) :
    Evictions cfg svc ctx s₀ (roomEvictions cfg svc id n fuel p) p p' := by
  induction fuel generalizing p with
  | zero =>
    cases hroom
    exact .nil (.refl _)
  | succ fuel ih =>
    rw [makeRoom] at hroom
    rw [roomEvictions]
    dsimp only at hroom ⊢
    split_ifs at hroom ⊢ with hallocated
    · cases hroom
      exact .nil (.withServices p _)
    · simp only [bind_eq_ok] at hroom
      obtain ⟨⟨victim, q⟩, hevict, hroom⟩ := hroom
      obtain ⟨hrun, hother, -, -, -⟩ := evict_spec (h.withServices _) hevict
      rw [hevict]
      refine Evictions.cons (.withServices p _) (h.withServices _).toRunInv hevict ?_
      dsimp only at hroom ⊢
      split_ifs at hroom ⊢ with hvictim
      · cases hroom
        exact .nil (.refl _)
      · exact ih (hother hvictim) hroom

theorem Evictions.prefill {es : List (Pass σ)} (h : Evictions cfg svc ctx s₀ es p p') :
    p'.prefillTokensScheduled = p.prefillTokensScheduled := by
  induction h with
  | nil hsame => exact hsame.prefill
  | cons hsame _ hevict _ ih =>
    rw [ih, ← hsame.prefill]
    rcases evict_ledger hevict with heq | ⟨-, htaken⟩
    · exact heq.prefill
    · exact htaken.prefill

/-- The passes a turn preempts a request in. -/
def turnEvictions (cfg : Config) (svc : Services σ) (ctx : StepContext) (id : RequestId)
    (p : Pass σ) : List (Pass σ) :=
  if passesOver ctx p id then []
  else if gated cfg ctx p id then []
  else if cfg.enableDecodeAwarePrefill ∧ (p.request id).isPrefillChunk ∧
      ctx.prefillTokenBudget - p.prefillTokensScheduled ≤ 0 then []
  else
    match cutRunning cfg svc p id (runningTokens cfg ctx p id) with
    | .error _ => []
    | .ok (plan, p) =>
      if plan.numNewTokens = 0 then []
      else roomEvictions cfg svc id plan.numNewTokens p.running.length p

/-- How a turn of the loop over the running queue ends. -/
inductive RunningTurn (cfg : Config) (svc : Services σ) (ctx : StepContext) (s₀ : State σ)
    (id : RequestId) (p : Pass σ) : Pass σ → Prop
  | passed {q : Pass σ} (hsame : p.SameLedger q) : RunningTurn cfg svc ctx s₀ id p q
  | refused {q : Pass σ} (hroom : Evictions cfg svc ctx s₀ (turnEvictions cfg svc ctx id p) p q) :
      RunningTurn cfg svc ctx s₀ id p q
  | booked {q : Pass σ} {plan : EncoderPlan}
      (hroom : Evictions cfg svc ctx s₀ (turnEvictions cfg svc ctx id p) p q)
      (hinv : RoomInv cfg ctx s₀ id q) (hgate : gated cfg ctx q id = false)
      (hbudget : cfg.enableDecodeAwarePrefill = true → (q.request id).isPrefillChunk = true →
        q.prefillTokensScheduled + plan.numNewTokens ≤ ctx.prefillTokenBudget)
      (hencoder : plan.encoderComputeBudget = p.encoderComputeBudget -
        (q.request id).encoderEmbeds plan.encoderInputsToSchedule) :
      RunningTurn cfg svc ctx s₀ id p (commitRunning cfg q id plan)

theorem commitRunning_books (q : Pass σ) (id : RequestId) (plan : EncoderPlan) :
    q.Books cfg (commitRunning cfg q id plan) id plan.numNewTokens
      (cfg.enableDecodeAwarePrefill ∧ (q.request id).isPrefillChunk) := by
  refine ⟨rfl, rfl, ?_, rfl, rfl, rfl, ?_⟩
  · unfold commitRunning
    simp only [decide_eq_true_eq]
  · unfold commitRunning
    simp only [decide_eq_true_eq]

theorem commitRunning_booksEncoder (q : Pass σ) (id : RequestId) (plan : EncoderPlan) :
    q.BooksEncoder (commitRunning cfg q id plan) id plan :=
  ⟨rfl, rfl⟩

theorem cutRunning_encoder {plan : EncoderPlan} (h : cutRunning cfg svc p id n = .ok (plan, p')) :
    plan.encoderComputeBudget = p.encoderComputeBudget -
      (p.request id).encoderEmbeds plan.encoderInputsToSchedule := by
  simp only [cutRunning, bind_eq_ok, pure_eq_ok, Prod.mk.injEq] at h
  obtain ⟨⟨tried, services⟩, htry, rfl, rfl⟩ := h
  have hbudget := tryScheduleEncoderInputs_budget cfg svc htry
  dsimp only
  split_ifs
  · exact hbudget
  · exact hbudget

theorem cutAdmission_encoder {cached : CachedTokens} {plan : EncoderPlan}
    (h : cutAdmission cfg svc p id cached n = .ok (some plan, q)) :
    plan.encoderComputeBudget = p.encoderComputeBudget -
      (p.request id).encoderEmbeds plan.encoderInputsToSchedule := by
  simp only [cutAdmission, bind_eq_ok] at h
  obtain ⟨⟨tried, services⟩, htry, h⟩ := h
  have hbudget := tryScheduleEncoderInputs_budget cfg svc htry
  dsimp only at h
  by_cases hzero : tried.numNewTokens = 0
  · rw [if_pos hzero] at h
    cases h
  rw [if_neg hzero] at h
  by_cases hmamba : cfg.needMambaBlockAlignedSplit = true
  · rw [if_pos hmamba] at h
    split_ifs at h
    · cases h
    · cases h
      exact hbudget
  · rw [if_neg hmamba, if_neg hzero] at h
    cases h
    exact hbudget

variable (ctx) in
theorem runningTokens_le_budget (haware : cfg.enableDecodeAwarePrefill = true)
    (hchunk : (p.request id).isPrefillChunk = true) :
    runningTokens cfg ctx p id ≤ ctx.prefillTokenBudget - p.prefillTokensScheduled := by
  unfold runningTokens
  extract_lets r budgeted wanted capped least final
  have hbudgeted : budgeted := ⟨haware, hchunk⟩
  apply (min_le_left _ _).trans
  unfold final
  rw [if_pos hbudgeted]
  exact min_le_right _ _

theorem runningTurn_cases {flow : Flow} (h : RunInv cfg ctx s₀ p)
    (hid : p.running[p.reqIndex]? = some id)
    (hturn : runningTurn cfg svc ctx id p = .ok (flow, p')) :
    RunningTurn cfg svc ctx s₀ id p p' := by
  unfold runningTurn at hturn
  dsimp only at hturn
  split_ifs at hturn with hover hgate hbudget
  · cases hturn
    exact .passed (.passOver p _ _)
  · cases hturn
    exact .passed (.passOver p _ _)
  · cases hturn
    exact .passed (.passOver p _ _)
  · simp only [bind_eq_ok] at hturn
    obtain ⟨⟨plan, q⟩, hcut, hturn⟩ := hturn
    obtain ⟨⟨services, rfl⟩, hle⟩ := cutRunning_spec hcut
    have hservices : p.SameLedger { p with services } := .withServices p services
    dsimp only at hturn
    split_ifs at hturn with hzero
    · cases hturn
      exact .passed (hservices.trans (.passOver _ _ _))
    · simp only [bind_eq_ok] at hturn
      obtain ⟨⟨allocated, q⟩, hroom, hturn⟩ := hturn
      have hready := (roomInv_of_index h hid).withServices services
      have hlist : turnEvictions cfg svc ctx id p = roomEvictions cfg svc id plan.numNewTokens
          p.running.length { p with services } := by
        unfold turnEvictions
        rw [if_neg hover, if_neg hgate, if_neg hbudget, hcut]
        dsimp only
        rw [if_neg hzero]
      have hchain := (makeRoom_evictions hready hroom).ofSame hservices
      rw [← hlist] at hchain
      obtain ⟨hrun, hfinal, -⟩ := makeRoom_spec hready le_rfl hroom
      cases allocated with
      | false =>
        cases hturn
        exact .refused hchain
      | true =>
        cases hturn
        rw [if_pos rfl] at hfinal
        have hsame : q.request id = p.request id := by
          have hp := h.unchanged id (List.mem_of_mem_take hready.here) hready.unscheduled
          have hq := hrun.unchanged id (List.mem_of_mem_take hfinal.here) hfinal.unscheduled
          exact hq.trans hp.symm
        apply RunningTurn.booked hchain hfinal
        · unfold gated
          rw [hsame]
          simpa [gated] using hgate
        · intro haware hchunk
          rw [hsame] at hchunk
          have hwant := runningTokens_le_budget ctx haware hchunk
          have hleft : ¬ ctx.prefillTokenBudget - p.prefillTokensScheduled ≤ 0 := by
            intro hnone
            exact hbudget ⟨haware, hchunk, hnone⟩
          rw [hchain.prefill]
          omega
        · rw [hsame]
          exact cutRunning_encoder hcut

/-- The passes at the head of the loop, and those its turns preempt a request in. -/
def runningVisits (cfg : Config) (svc : Services σ) (ctx : StepContext) :
    ℕ → Pass σ → List (Pass σ) × List (Pass σ)
  | 0, p => ([p], [])
  | fuel + 1, p =>
    match p.running[p.reqIndex]? with
    | none => ([p], [])
    | some id =>
      if p.tokenBudget ≤ 0 then ([p], [])
      else
        let evictions := turnEvictions cfg svc ctx id p
        match runningTurn cfg svc ctx id p with
        | .error _ => ([p], evictions)
        | .ok (flow, q) =>
          let rest := runningVisits cfg svc ctx fuel q
          (p :: flow.visits rest.1, evictions ++ flow.visits rest.2)

theorem runningLoop_keeps {I G : Pass σ → Prop}
    (hturn : ∀ p id p', RunInv cfg ctx s₀ p → I p → RunningTurn cfg svc ctx s₀ id p p' →
      (∀ e ∈ turnEvictions cfg svc ctx id p, G e) → I p')
    {fuel : ℕ} (h : RunInv cfg ctx s₀ p) (hI : I p)
    (hG : ∀ e ∈ (runningVisits cfg svc ctx fuel p).2, G e) :
    (∀ v ∈ (runningVisits cfg svc ctx fuel p).1, I v) ∧
      ∀ p', runningLoop cfg svc ctx fuel p = .ok p' → I p' := by
  induction fuel generalizing p with
  | zero =>
    refine ⟨?_, ?_⟩
    · intro v hv
      rw [List.mem_singleton.mp hv]
      exact hI
    · intro p' hloop
      cases hloop
      exact hI
  | succ fuel ih =>
    rw [runningVisits] at hG ⊢
    rw [runningLoop]
    have hhere : ∀ v ∈ [p], I v := by
      intro v hv
      rw [List.mem_singleton.mp hv]
      exact hI
    have hstop : ∀ p', (.ok p : Except String (Pass σ)) = .ok p' → I p' := by
      intro p' heq
      cases heq
      exact hI
    cases hid : p.running[p.reqIndex]? with
    | none => exact ⟨hhere, hstop⟩
    | some id =>
      rw [hid] at hG
      dsimp only at hG ⊢
      by_cases hbudget : p.tokenBudget ≤ 0
      · rw [if_pos hbudget, if_pos hbudget]
        exact ⟨hhere, hstop⟩
      · rw [if_neg hbudget] at hG
        rw [if_neg hbudget, if_neg hbudget]
        cases hstep : runningTurn cfg svc ctx id p with
        | error _ =>
          refine ⟨hhere, ?_⟩
          intro p' hloop
          cases hloop
        | ok turned =>
          obtain ⟨flow, q⟩ := turned
          rw [hstep] at hG
          dsimp only at hG ⊢
          rw [List.forall_mem_append] at hG
          have hq := (runningTurn_spec h hid hstep).1
          have hIq := hturn p id q h hI (runningTurn_cases h hid hstep) hG.1
          cases flow with
          | next =>
            obtain ⟨hvisits, hend⟩ := ih hq hIq hG.2
            refine ⟨?_, hend⟩
            intro v hv
            rcases List.mem_cons.mp hv with rfl | hv
            · exact hI
            · exact hvisits v hv
          | stop =>
            refine ⟨hhere, ?_⟩
            intro p' hloop
            cases hloop
            exact hIq

theorem updateWaitingForRemoteKv_steady (s : State σ) (id : RequestId) :
    s.Steady (s.updateWaitingForRemoteKv id) ∧
      (s.updateWaitingForRemoteKv id).pauseState = s.pauseState ∧
      ((s.updateWaitingForRemoteKv id).request id).mmFeatures = (s.request id).mmFeatures := by
  unfold State.updateWaitingForRemoteKv
  dsimp only
  split_ifs
  · exact ⟨⟨rfl, rfl, rfl⟩, rfl, rfl⟩
  · refine ⟨⟨rfl, rfl, rfl⟩, rfl, ?_⟩
    rw [State.setRequest_self]
  · exact ⟨⟨rfl, rfl, rfl⟩, rfl, rfl⟩

theorem promoteBlocked_steady {s s' : State σ} {promoted : Bool}
    (h : s.promoteBlocked svc id = .ok (promoted, s')) :
    s.Steady s' ∧ s'.pauseState = s.pauseState ∧
      (s'.request id).mmFeatures = (s.request id).mmFeatures := by
  unfold State.promoteBlocked at h
  split_ifs at h with hblocked
  · unfold State.tryPromote at h
    cases hstatus : (s.request id).status with
    | waitingForRemoteKvs =>
      simp only [hstatus] at h
      obtain ⟨hsteady, hpause, hfeatures⟩ := updateWaitingForRemoteKv_steady s id
      split_ifs at h
      · cases h
        refine ⟨hsteady.trans (State.steady_setRequest _ id _), hpause, ?_⟩
        rw [State.setRequest_self]
        exact hfeatures
      · cases h
        refine ⟨hsteady.trans (State.steady_setRequest _ id _), hpause, ?_⟩
        rw [State.setRequest_self]
        exact hfeatures
      · cases h
        exact ⟨.refl s, rfl, rfl⟩
    | waitingForStructuredOutputGrammar =>
      simp only [hstatus] at h
      split at h
      · cases h
        exact ⟨.refl s, rfl, rfl⟩
      · cases h
        exact ⟨⟨rfl, rfl, rfl⟩, rfl, rfl⟩
      · cases h
        refine ⟨⟨rfl, rfl, rfl⟩, rfl, ?_⟩
        rw [State.setRequest_self]
    | waitingForStreamingReq =>
      simp only [hstatus] at h
      split_ifs at h
      cases h
      exact ⟨.refl s, rfl, rfl⟩
    | _ => simp [hstatus] at h
  · cases h
    exact ⟨.refl s, rfl, rfl⟩

/-- A lookup leaves the accounts alone, and what makes a request a long prefill. -/
theorem lookupComputedTokens_ledger {cached : Option CachedTokens}
    (h : lookupComputedTokens cfg svc p id = .ok (cached, q)) :
    p.SameLedger q ∧
      isLongPrefillRequest cfg (q.request id) = isLongPrefillRequest cfg (p.request id) ∧
      (q.request id).mmFeatures = (p.request id).mmFeatures := by
  unfold lookupComputedTokens at h
  dsimp only at h
  by_cases hcomputed : (p.request id).numComputedTokens ≠ 0
  · rw [if_pos hcomputed] at h
    cases h
    exact ⟨.refl _, rfl, rfl⟩
  · rw [if_neg hcomputed] at h
    generalize cachedHits cfg svc id (p.request id) p.services = looked at h
    obtain ⟨hits, boundary, services⟩ := looked
    have hlong : isLongPrefillRequest cfg (Function.update p.request id
        { p.request id with sharedPrefixBoundary := (boundary : ℤ) } id) =
          isLongPrefillRequest cfg (p.request id) := by
      rw [Function.update_self]
      rfl
    have hfeatures : (Function.update p.request id
        { p.request id with sharedPrefixBoundary := (boundary : ℤ) } id).mmFeatures =
          (p.request id).mmFeatures := by
      rw [Function.update_self]
    cases hits with
    | none =>
      cases h
      exact ⟨⟨rfl, rfl, rfl, rfl, rfl, rfl, rfl, rfl, rfl⟩, hlong, hfeatures⟩
    | some found =>
      obtain ⟨numLocal, numExternal, loadKvAsync⟩ := found
      simp only [bind_eq_ok] at h
      obtain ⟨-, -, h⟩ := h
      split_ifs at h <;> cases h <;> exact ⟨⟨rfl, rfl, rfl, rfl, rfl, rfl, rfl, rfl, rfl⟩, hlong, hfeatures⟩

theorem lookWaiting_ledger {cached : Option CachedTokens}
    (h : lookWaiting cfg svc id p = .ok (cached, q)) (hrunning : (p.request id).status ≠ .running) :
    p.SameLedger q ∧ (isLongPrefillRequest cfg (p.request id) = true → cached ≠ none →
        isLongPrefillRequest cfg (q.request id) = true) ∧
      (q.request id).mmFeatures = (p.request id).mmFeatures := by
  simp only [lookWaiting, bind_eq_ok] at h
  obtain ⟨⟨schedulable, s⟩, hpromote, h⟩ := h
  obtain ⟨hsteady, hpause, hfeatures⟩ := promoteBlocked_steady hpromote
  have hpromoted : p.SameLedger { p with toState := s } :=
    ⟨rfl, rfl, rfl, rfl, rfl, hpause, hsteady⟩
  -- a long prefill waits for nothing, so it is not promoted
  have hsame : isLongPrefillRequest cfg (p.request id) = true → s = p.toState := by
    intro hlong
    unfold State.promoteBlocked at hpromote
    have hfree : isBlockedWaitingStatus (p.request id).status = false := by
      unfold isLongPrefillRequest at hlong
      split_ifs at hlong
      rcases of_decide_eq_true hlong with hstatus | hstatus
      · rw [hstatus]
        rfl
      · rw [hstatus]
        rfl
    rw [hfree] at hpromote
    cases hpromote
    rfl
  dsimp only at h
  split_ifs at h with hskip
  · cases h
    exact ⟨hpromoted, fun _ hnone => absurd rfl hnone, hfeatures⟩
  · obtain ⟨hlookup, hkept, hfeatures'⟩ := lookupComputedTokens_ledger h
    refine ⟨hpromoted.trans hlookup, ?_, hfeatures'.trans hfeatures⟩
    intro hlong _
    rw [hkept]
    have hs := hsame hlong
    subst hs
    exact hlong

theorem popRequest_ledger (p : Pass σ) (fromSkipped : Bool) : p.SameLedger (p.popRequest fromSkipped) := by
  cases fromSkipped with
  | true => exact ⟨rfl, rfl, rfl, rfl, rfl, rfl, rfl, rfl, rfl⟩
  | false => exact ⟨rfl, rfl, rfl, rfl, rfl, rfl, rfl, rfl, rfl⟩

variable (cfg) in
theorem popRequest_isLong (p : Pass σ) (fromSkipped : Bool) (id : RequestId) :
    isLongPrefillRequest cfg ((p.popRequest fromSkipped).request id) =
      isLongPrefillRequest cfg (p.request id) := by
  cases fromSkipped with
  | true => rfl
  | false => rfl

theorem admit_books {fromSkipped padded : Bool} {cached : CachedTokens} {plan : EncoderPlan}
    (h : admitRequest cfg p fromSkipped id cached plan padded = .ok q) :
    p.Books cfg q id plan.numNewTokens cfg.enableDecodeAwarePrefill := by
  have hpop := popRequest_ledger p fromSkipped
  have hlong := popRequest_isLong cfg p fromSkipped id
  unfold admitRequest at h
  extract_lets popped r admitted at h
  have hq : ∃ fresh resumed, q = { admitted with
      scheduledNewReqs := fresh
      scheduledResumedReqs := resumed } := by
    split at h
    · cases h
      exact ⟨_, _, rfl⟩
    · split at h
      · cases h
        exact ⟨_, _, rfl⟩
      · cases h
  obtain ⟨fresh, resumed, rfl⟩ := hq
  constructor
  · exact congrArg (·.set id plan.numNewTokens) hpop.tokens
  · exact congrArg (· - plan.numNewTokens) hpop.budget
  · show (if cfg.enableDecodeAwarePrefill = true then popped.prefillTokensScheduled + plan.numNewTokens
      else popped.prefillTokensScheduled) = _
    rw [hpop.prefill]
  · exact hpop.pauseState
  · exact hpop.steady.currentStep
  · exact hpop.steady.controller
  · show (if cfg.enableDecodeAwarePrefill = true ∧ isLongPrefillRequest cfg (popped.request id) = true
      then Function.update popped.longPrefillLastScheduled id (some popped.currentStep)
      else popped.longPrefillLastScheduled) = _
    rw [hlong, hpop.steady.turns, hpop.steady.currentStep]

theorem admit_booksEncoder {fromSkipped padded : Bool} {cached : CachedTokens} {plan : EncoderPlan}
    (h : admitRequest cfg p fromSkipped id cached plan padded = .ok q) :
    p.BooksEncoder q id plan := by
  have hpop := popRequest_ledger p fromSkipped
  have hinputs := hpop.inputs
  have hencoder := hpop.encoder
  unfold admitRequest at h
  extract_lets popped r admitted at h
  have hadmitted : p.BooksEncoder admitted id plan := by
    constructor
    · show (if plan.encoderInputsToSchedule ≠ [] then
        popped.scheduledEncoderInputs.set id plan.encoderInputsToSchedule
        else popped.scheduledEncoderInputs) = _
      rw [hinputs]
    · show (if plan.encoderInputsToSchedule ≠ [] then plan.encoderComputeBudget
        else popped.encoderComputeBudget) = _
      rw [hencoder]
  split at h
  · cases h
    exact ⟨hadmitted.inputs, hadmitted.budget⟩
  · split at h
    · cases h
      exact ⟨hadmitted.inputs, hadmitted.budget⟩
    · cases h

/-- How a turn of the loop over the waiting queues ends. -/
inductive WaitingTurn (cfg : Config) (ctx : StepContext) (id : RequestId) (p : Pass σ) :
    Pass σ → Prop
  | kept {q : Pass σ} (hsame : p.SameLedger q) : WaitingTurn cfg ctx id p q
  | booked {q p' : Pass σ} {n : ℤ} (hsame : p.SameLedger q)
      (hlong : isLongPrefillRequest cfg (p.request id) = true →
        isLongPrefillRequest cfg (q.request id) = true)
      (hbooks : q.Books cfg p' id n cfg.enableDecodeAwarePrefill)
      (hbudget : cfg.enableDecodeAwarePrefill = true →
        q.prefillTokensScheduled + n ≤ ctx.prefillTokenBudget)
      (hencoder : ∃ plan, q.BooksEncoder p' id plan ∧
        plan.encoderComputeBudget = q.encoderComputeBudget -
          (p.request id).encoderEmbeds plan.encoderInputsToSchedule) : WaitingTurn cfg ctx id p p'

theorem admissionTokens_le_budget {r : Request} {cached : CachedTokens} {padded : Bool}
    (haware : cfg.enableDecodeAwarePrefill = true)
    (h : admissionTokens cfg ctx p r cached = some (n, padded)) :
    n ≤ ctx.prefillTokenBudget - p.prefillTokensScheduled ∧
      0 < ctx.prefillTokenBudget - p.prefillTokensScheduled := by
  have hcap : ∀ m n, capAdmission cfg ctx p m = some n →
      n ≤ ctx.prefillTokenBudget - p.prefillTokensScheduled ∧
        0 < ctx.prefillTokenBudget - p.prefillTokensScheduled := by
    intro m n hcap
    unfold capAdmission at hcap
    extract_lets capped least remaining at hcap
    rw [if_pos haware] at hcap
    split_ifs at hcap with hchunked hnone
    rw [← Option.some.inj hcap]
    exact ⟨min_le_right _ _, not_le.mp hnone⟩
  unfold admissionTokens at h
  dsimp only at h
  split_ifs at h
  · obtain ⟨m, hm, hpair⟩ := Option.map_eq_some_iff.mp h
    cases hpair
    exact hcap _ _ hm
  · obtain ⟨m, hm, hpair⟩ := Option.map_eq_some_iff.mp h
    cases hpair
    exact hcap _ _ hm

theorem setAside_ledger (svc : Services σ) (p : Pass σ) (fromSkipped : Bool) (id : RequestId) :
    p.SameLedger (p.setAside svc fromSkipped id) := by
  have hpop := popRequest_ledger p fromSkipped
  exact ⟨hpop.tokens, hpop.budget, hpop.prefill, hpop.inputs, hpop.encoder, hpop.pauseState,
    hpop.steady.currentStep, hpop.steady.turns, hpop.steady.controller⟩

theorem startLoad_ledger (svc : Services σ) (p : Pass σ) (fromSkipped : Bool) (id : RequestId)
    (cached : CachedTokens) : p.SameLedger (startLoad svc p fromSkipped id cached) := by
  have hpop := popRequest_ledger p fromSkipped
  exact ⟨hpop.tokens, hpop.budget, hpop.prefill, hpop.inputs, hpop.encoder, hpop.pauseState,
    hpop.steady.currentStep, hpop.steady.turns, hpop.steady.controller⟩

theorem settleAdmission_ledger {fromSkipped padded : Bool} {cached : CachedTokens}
    {plan : EncoderPlan} {flow : Flow}
    (h : settleAdmission cfg svc fromSkipped id cached plan padded p = .ok (flow, p')) :
    p.SameLedger p' ∨ cached.loadKvAsync = false ∧
      ∃ services, Pass.Books cfg { p with services } p' id plan.numNewTokens
          cfg.enableDecodeAwarePrefill ∧
        Pass.BooksEncoder { p with services } p' id plan := by
  unfold settleAdmission at h
  obtain ⟨services, hservices⟩ : ∃ services,
      (allocateAdmission cfg svc p id cached plan).2 = { p with services } := ⟨_, rfl⟩
  have hsame : p.SameLedger { p with services } := .withServices p services
  dsimp only at h
  rw [hservices] at h
  split_ifs at h with hfull hload
  · cases h
    exact .inl hsame
  · cases h
    exact .inl (hsame.trans (startLoad_ledger svc _ fromSkipped id cached))
  · simp only [bind_eq_ok, pure_eq_ok, Prod.mk.injEq] at h
    obtain ⟨q, hadmit, rfl, rfl⟩ := h
    exact .inr ⟨Bool.not_eq_true _ ▸ hload, services, admit_books hadmit,
      admit_booksEncoder hadmit⟩

theorem waitingTurn_ledger {fromSkipped : Bool} {flow : Flow}
    (hrunning : (p.request id).status ≠ .running)
    (h : waitingTurn cfg svc ctx fromSkipped id p = .ok (flow, p')) :
    WaitingTurn cfg ctx id p p' := by
  simp only [waitingTurn, bind_eq_ok] at h
  obtain ⟨⟨cached, q⟩, hlook, h⟩ := h
  obtain ⟨hlooked, hlong, hfeatures⟩ := lookWaiting_ledger hlook hrunning
  cases cached with
  | none =>
    cases h
    exact .kept (hlooked.trans (setAside_ledger svc q fromSkipped id))
  | some cached =>
    dsimp only [admissionTurn] at h
    by_cases hload : cached.loadKvAsync = true
    · rw [if_pos hload] at h
      simp only [bind_eq_ok] at h
      obtain ⟨-, -, h⟩ := h
      rcases settleAdmission_ledger h with hsame | ⟨hlocal, -⟩
      · exact .kept (hlooked.trans hsame)
      · rw [hload] at hlocal
        cases hlocal
    · rw [if_neg hload] at h
      cases htokens : admissionTokens cfg ctx q (q.request id) cached with
      | none =>
        rw [htokens] at h
        cases h
        exact .kept hlooked
      | some found =>
        obtain ⟨n, padded⟩ := found
        rw [htokens] at h
        simp only [bind_eq_ok, require_eq_ok, decide_eq_true_eq] at h
        obtain ⟨-, hpos, ⟨plan, q'⟩, hcut, h⟩ := h
        obtain ⟨⟨services, rfl⟩, hle⟩ := cutAdmission_spec hcut
        have hsame : p.SameLedger { q with services } :=
          hlooked.trans (.withServices q services)
        dsimp only at h
        cases plan with
        | none =>
          cases h
          exact .kept hsame
        | some plan =>
          rcases settleAdmission_ledger h with hkept | ⟨-, services', hbooks, hinputs⟩
          · exact .kept (hsame.trans hkept)
          · apply WaitingTurn.booked _ _ hbooks
            · intro haware
              obtain ⟨hbudget, -⟩ := admissionTokens_le_budget haware htokens
              have hn := hle plan rfl
              dsimp only
              omega
            · refine ⟨plan, hinputs, ?_⟩
              have hspent := cutAdmission_encoder hcut
              rwa [Request.encoderEmbeds_congr hfeatures] at hspent
            · exact hlooked.trans (.withServices q services')
            · intro hp
              exact hlong hp (Option.some_ne_none cached)

theorem waitingLoop_keeps {I : Pass σ → Prop}
    (hturn : ∀ p id p', WaitInv cfg ctx s₀ p → Untouched s₀ p → id ∈ p.waiting ++ p.skippedWaiting →
      I p → WaitingTurn cfg ctx id p p' → I p')
    {fuel : ℕ} (h : WaitInv cfg ctx s₀ p) (huntouched : Untouched s₀ p) (hI : I p) :
    (∀ visit ∈ waitingVisits cfg svc ctx fuel p, I visit.2) ∧
      ∀ p', waitingLoop cfg svc ctx fuel p = .ok p' → I p' := by
  induction fuel generalizing p with
  | zero =>
    refine ⟨List.forall_mem_nil _, ?_⟩
    intro p' hloop
    cases hloop
    exact hI
  | succ fuel ih =>
    rw [waitingVisits, waitingLoop]
    have hstop : ∀ p', (.ok p : Except String (Pass σ)) = .ok p' → I p' := by
      intro p' heq
      cases heq
      exact hI
    cases hselect : p.selectWaitingQueue cfg svc with
    | none => exact ⟨List.forall_mem_nil _, hstop⟩
    | some selected =>
      obtain ⟨fromSkipped, id⟩ := selected
      have hhead := selectWaitingQueue_spec hselect
      have hid : id ∈ p.waiting ++ p.skippedWaiting := by
        cases fromSkipped with
        | true =>
          rw [if_pos rfl] at hhead
          rw [hhead]
          exact List.mem_append_right _ List.mem_cons_self
        | false =>
          rw [if_neg Bool.false_ne_true] at hhead
          rw [hhead]
          exact List.mem_append_left _ List.mem_cons_self
      dsimp only
      by_cases hbudget : p.tokenBudget ≤ 0
      · rw [if_pos hbudget, if_pos hbudget]
        exact ⟨List.forall_mem_nil _, hstop⟩
      rw [if_neg hbudget, if_neg hbudget]
      by_cases hslots : (cfg.maxNumRunningReqs : ℤ) ≤
          p.running.length + p.numWaitingForStreamingInput
      · rw [if_pos hslots, if_pos hslots]
        exact ⟨List.forall_mem_nil _, hstop⟩
      rw [if_neg hslots, if_neg hslots]
      have hhere : ∀ rest : List (RequestId × Pass σ), (∀ visit ∈ rest, I visit.2) →
          ∀ visit ∈ (id, p) :: rest, I visit.2 := by
        intro rest hrest
        rw [List.forall_mem_cons]
        exact ⟨hI, hrest⟩
      cases hstep : waitingTurn cfg svc ctx fromSkipped id p with
      | error _ =>
        refine ⟨hhere [] (List.forall_mem_nil _), ?_⟩
        intro p' hloop
        cases hloop
      | ok turned =>
        obtain ⟨flow, q⟩ := turned
        have hq := waitingTurn_spec h huntouched hhead hstep
        have hqueued := h.queues.queued id (List.mem_append_left _ hid)
        have hIq := hturn p id q h huntouched hid hI
          (waitingTurn_ledger hqueued.not_running hstep)
        cases flow with
        | next =>
          obtain ⟨hvisits, hend⟩ := ih hq.inv (hq.untouched rfl) hIq
          exact ⟨hhere _ hvisits, hend⟩
        | stop =>
          refine ⟨hhere [] (List.forall_mem_nil _), ?_⟩
          intro p' hloop
          cases hloop
          exact hIq

section Step

variable {I G : Pass σ → Prop} (hsame : ∀ p q : Pass σ, I p → p.SameLedger q → I q)

include hsame

theorem scheduleRunning_keeps
    (hturn : ∀ p id p', RunInv cfg ctx s₀ p → I p → RunningTurn cfg svc ctx s₀ id p p' →
      (∀ e ∈ turnEvictions cfg svc ctx id p, G e) → I p')
    (h : RunInv cfg ctx s₀ p) (hI : I p)
    (hG : ∀ e ∈ (runningVisits cfg svc ctx p.running.length p).2, G e) :
    (∀ v ∈ (runningVisits cfg svc ctx p.running.length p).1, I v) ∧
      ∀ q, scheduleRunning cfg svc ctx p = .ok q → I q := by
  obtain ⟨hheads, hend⟩ := runningLoop_keeps hturn h hI hG
  refine ⟨hheads, ?_⟩
  intro q hrun
  simp only [scheduleRunning, bind_eq_ok] at hrun
  obtain ⟨r, hloop, hrun⟩ := hrun
  have hr := hend r hloop
  cases hloras : cfg.maxLoras with
  | none =>
    rw [hloras] at hrun
    cases hrun
    exact hr
  | some maxLoras =>
    rw [hloras] at hrun
    simp only [bind_eq_ok] at hrun
    obtain ⟨-, -, hrun⟩ := hrun
    cases hrun
    exact hsame r _ hr ⟨rfl, rfl, rfl, rfl, rfl, rfl, rfl, rfl, rfl⟩

theorem scheduleWaiting_keeps
    (hturn : ∀ p id p', WaitInv cfg ctx s₀ p → Untouched s₀ p → id ∈ p.waiting ++ p.skippedWaiting →
      I p → WaitingTurn cfg ctx id p p' → I p')
    (h : RunInv cfg ctx s₀ p) (hI : I p) :
    (∀ visit ∈ admissionVisits cfg svc ctx p, I visit.2) ∧
      ∀ q, scheduleWaiting cfg svc ctx p = .ok q → I q := by
  unfold admissionVisits scheduleWaiting
  by_cases hskip : p.preemptedReqs ≠ [] ∨ p.pauseState ≠ .unpaused
  · rw [if_pos hskip, if_pos hskip]
    refine ⟨List.forall_mem_nil _, ?_⟩
    intro q hq
    cases hq
    exact hI
  · have hnone : p.preemptedReqs = [] := by
      by_contra hpreempted
      exact hskip (.inl hpreempted)
    obtain ⟨hwait, huntouched⟩ := h.waitInv hnone
    obtain ⟨hvisits, hend⟩ := waitingLoop_keeps hturn hwait huntouched hI
    rw [if_neg hskip, if_neg hskip]
    refine ⟨hvisits, ?_⟩
    intro q hq
    simp only [bind_eq_ok, pure_eq_ok] at hq
    obtain ⟨r, hloop, rfl⟩ := hq
    exact hsame r _ (hend r hloop) ⟨rfl, rfl, rfl, rfl, rfl, rfl, rfl, rfl, rfl⟩

end Step

end ChampionRuntime.Scheduler
