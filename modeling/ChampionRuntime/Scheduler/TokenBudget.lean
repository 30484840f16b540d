import ChampionRuntime.Scheduler.PrefillBudget

/-!
# The token budget

No booking is larger than what is left of the budget. Under FCFS a victim has no tokens of the
step, so that nothing is given back either, and a step never owes tokens.
-/
namespace ChampionRuntime.Scheduler

open Lib

variable {σ : Type} {cfg : Config} {svc : Services σ} {ctx : StepContext} {s₀ : State σ}
  {p q p' : Pass σ} {id : RequestId} {n : ℤ}

/-- What a step gave out and what it has left are its budget, and it owes nothing. -/
structure BudgetKept (cfg : Config) (s₀ : State σ) (p : Pass σ) : Prop where
  counted : p.tokenBudget = initialTokenBudget cfg s₀ - scheduledTokens p.numScheduledTokens
  nonneg : 0 ≤ p.tokenBudget

theorem BudgetKept.same (h : BudgetKept cfg s₀ p) (hsame : p.SameLedger q) :
    BudgetKept cfg s₀ q := by
  constructor
  · rw [hsame.budget, hsame.tokens]
    exact h.counted
  · rw [hsame.budget]
    exact h.nonneg

theorem BudgetKept.books {asPrefill : Bool} (h : BudgetKept cfg s₀ p)
    (hbooks : p.Books cfg q id n asPrefill) (hnone : p.numScheduledTokens.get? id = none)
    (hleft : n ≤ p.tokenBudget) : BudgetKept cfg s₀ q := by
  constructor
  · rw [hbooks.budget, hbooks.tokens, scheduledTokens_set hnone, h.counted]
    omega
  · rw [hbooks.budget]
    omega

theorem Evictions.same_of_fcfs {es : List (Pass σ)} (hpolicy : cfg.policy = .fcfs)
    (h : Evictions cfg svc ctx s₀ es p q) : p.SameLedger q := by
  induction h with
  | nil hsame => exact hsame
  | cons hsame _ hevict _ ih =>
    rcases evict_ledger hevict with heq | ⟨hpriority, -⟩
    · exact (hsame.trans heq).trans ih
    · rw [hpolicy] at hpriority
      cases hpriority

theorem runningTokens_le_tokenBudget (cfg : Config) (ctx : StepContext) (p : Pass σ)
    (id : RequestId) : runningTokens cfg ctx p id ≤ p.tokenBudget := by
  unfold runningTokens
  extract_lets r budgeted wanted capped least final
  have hleast : least ≤ p.tokenBudget := min_le_right _ _
  apply (min_le_left _ _).trans
  unfold final
  split_ifs
  · exact (min_le_left _ _).trans hleast
  · exact hleast

theorem runningTurn_budgetKept {flow : Flow} (hpolicy : cfg.policy = .fcfs)
    (h : RunInv cfg ctx s₀ p) (hkept : BudgetKept cfg s₀ p)
    (hid : p.running[p.reqIndex]? = some id)
    (hturn : runningTurn cfg svc ctx id p = .ok (flow, p')) : BudgetKept cfg s₀ p' := by
  unfold runningTurn at hturn
  dsimp only at hturn
  split_ifs at hturn
  · cases hturn
    exact hkept.same (.passOver p _ _)
  · cases hturn
    exact hkept.same (.passOver p _ _)
  · cases hturn
    exact hkept.same (.passOver p _ _)
  · simp only [bind_eq_ok] at hturn
    obtain ⟨⟨plan, q⟩, hcut, hturn⟩ := hturn
    obtain ⟨⟨services, rfl⟩, hle⟩ := cutRunning_spec hcut
    have hservices : p.SameLedger { p with services } := .withServices p services
    dsimp only at hturn
    split_ifs at hturn with hzero
    · cases hturn
      exact hkept.same (hservices.trans (.passOver _ _ _))
    · simp only [bind_eq_ok] at hturn
      obtain ⟨⟨allocated, q⟩, hroom, hturn⟩ := hturn
      have hready := (roomInv_of_index h hid).withServices services
      have hsame := hservices.trans ((makeRoom_evictions hready hroom).same_of_fcfs hpolicy)
      obtain ⟨-, hfinal, -⟩ := makeRoom_spec hready le_rfl hroom
      have hq := hkept.same hsame
      cases allocated with
      | false =>
        cases hturn
        exact hq
      | true =>
        cases hturn
        rw [if_pos rfl] at hfinal
        apply hq.books (commitRunning_books q id plan) hfinal.unscheduled
        -- a request wants no more than is left, and making room changes nothing of that
        have hwant := runningTokens_le_tokenBudget cfg ctx p id
        have hnonneg := hkept.nonneg
        rw [hsame.budget]
        omega

theorem runningLoop_budgetKept {fuel : ℕ} (hpolicy : cfg.policy = .fcfs)
    (h : RunInv cfg ctx s₀ p) (hkept : BudgetKept cfg s₀ p)
    (hloop : runningLoop cfg svc ctx fuel p = .ok p') : BudgetKept cfg s₀ p' := by
  induction fuel generalizing p with
  | zero =>
    cases hloop
    exact hkept
  | succ fuel ih =>
    rw [runningLoop] at hloop
    cases hid : p.running[p.reqIndex]? with
    | none =>
      rw [hid] at hloop
      cases hloop
      exact hkept
    | some id =>
      rw [hid] at hloop
      dsimp only at hloop
      split_ifs at hloop
      · cases hloop
        exact hkept
      · simp only [bind_eq_ok] at hloop
        obtain ⟨⟨flow, q⟩, hturn, hloop⟩ := hloop
        have hq := runningTurn_budgetKept hpolicy h hkept hid hturn
        cases flow with
        | next => exact ih (runningTurn_spec h hid hturn).1 hq hloop
        | stop =>
          cases hloop
          exact hq

theorem scheduleRunning_budgetKept (hpolicy : cfg.policy = .fcfs) (h : RunInv cfg ctx s₀ p)
    (hkept : BudgetKept cfg s₀ p) (hrun : scheduleRunning cfg svc ctx p = .ok p') :
    BudgetKept cfg s₀ p' := by
  simp only [scheduleRunning, bind_eq_ok] at hrun
  obtain ⟨q, hloop, hrun⟩ := hrun
  have hq := runningLoop_budgetKept hpolicy h hkept hloop
  cases hloras : cfg.maxLoras with
  | none =>
    rw [hloras] at hrun
    cases hrun
    exact hq
  | some maxLoras =>
    rw [hloras] at hrun
    simp only [bind_eq_ok] at hrun
    obtain ⟨-, -, hrun⟩ := hrun
    cases hrun
    exact hq.same ⟨rfl, rfl, rfl, rfl, rfl, rfl, rfl, rfl, rfl⟩

theorem admissionTokens_le_tokenBudget {r : Request} {cached : CachedTokens} {padded : Bool}
    (h : admissionTokens cfg ctx p r cached = some (n, padded)) : n ≤ p.tokenBudget := by
  have hcap : ∀ m n, capAdmission cfg ctx p m = some n → n ≤ p.tokenBudget := by
    intro m n hcap
    unfold capAdmission at hcap
    extract_lets capped least remaining at hcap
    have hleast : least ≤ p.tokenBudget := min_le_right _ _
    split_ifs at hcap
    · rw [← Option.some.inj hcap]
      exact (min_le_left _ _).trans hleast
    · rw [← Option.some.inj hcap]
      exact hleast
  unfold admissionTokens at h
  dsimp only at h
  split_ifs at h
  · obtain ⟨m, hm, hpair⟩ := Option.map_eq_some_iff.mp h
    cases hpair
    exact hcap _ _ hm
  · obtain ⟨m, hm, hpair⟩ := Option.map_eq_some_iff.mp h
    cases hpair
    exact hcap _ _ hm

theorem waitingTurn_budgetKept {fromSkipped : Bool} {flow : Flow} (hkept : BudgetKept cfg s₀ p)
    (hrunning : (p.request id).status ≠ .running) (hnone : p.numScheduledTokens.get? id = none)
    (hturn : waitingTurn cfg svc ctx fromSkipped id p = .ok (flow, p')) :
    BudgetKept cfg s₀ p' := by
  simp only [waitingTurn, bind_eq_ok] at hturn
  obtain ⟨⟨cached, q⟩, hlook, hturn⟩ := hturn
  obtain ⟨hlooked, -⟩ := lookWaiting_ledger hlook hrunning
  have hq := hkept.same hlooked
  cases cached with
  | none =>
    cases hturn
    exact hq.same (setAside_ledger svc q fromSkipped id)
  | some cached =>
    dsimp only [admissionTurn] at hturn
    by_cases hload : cached.loadKvAsync = true
    · rw [if_pos hload] at hturn
      simp only [bind_eq_ok] at hturn
      obtain ⟨-, -, hturn⟩ := hturn
      rcases settleAdmission_ledger hturn with hsame | ⟨hlocal, -⟩
      · exact hq.same hsame
      · rw [hload] at hlocal
        cases hlocal
    · rw [if_neg hload] at hturn
      cases htokens : admissionTokens cfg ctx q (q.request id) cached with
      | none =>
        rw [htokens] at hturn
        cases hturn
        exact hq
      | some found =>
        obtain ⟨n, padded⟩ := found
        rw [htokens] at hturn
        simp only [bind_eq_ok, require_eq_ok, decide_eq_true_eq] at hturn
        obtain ⟨-, hpos, ⟨plan, q'⟩, hcut, hturn⟩ := hturn
        obtain ⟨⟨services, rfl⟩, hle⟩ := cutAdmission_spec hcut
        have hq' : BudgetKept cfg s₀ { q with services } :=
          hq.same (.withServices q services)
        dsimp only at hturn
        cases plan with
        | none =>
          cases hturn
          exact hq'
        | some plan =>
          rcases settleAdmission_ledger hturn with hsame | ⟨-, services', hbooks, -⟩
          · exact hq'.same hsame
          · have hadmit : BudgetKept cfg s₀ { q with services := services' } :=
              hq.same (.withServices q services')
            apply hadmit.books hbooks
            · show q.numScheduledTokens.get? id = none
              rw [hlooked.tokens]
              exact hnone
            · have hleft := admissionTokens_le_tokenBudget htokens
              have hn := hle plan rfl
              dsimp only
              omega

theorem waitingLoop_budgetKept {fuel : ℕ} (h : WaitInv cfg ctx s₀ p) (huntouched : Untouched s₀ p)
    (hkept : BudgetKept cfg s₀ p) (hloop : waitingLoop cfg svc ctx fuel p = .ok p') :
    BudgetKept cfg s₀ p' := by
  induction fuel generalizing p with
  | zero =>
    cases hloop
    exact hkept
  | succ fuel ih =>
    rw [waitingLoop] at hloop
    cases hselect : p.selectWaitingQueue cfg svc with
    | none =>
      rw [hselect] at hloop
      cases hloop
      exact hkept
    | some selected =>
      obtain ⟨fromSkipped, id⟩ := selected
      rw [hselect] at hloop
      dsimp only at hloop
      split_ifs at hloop
      · cases hloop
        exact hkept
      · cases hloop
        exact hkept
      · simp only [bind_eq_ok] at hloop
        obtain ⟨⟨flow, q⟩, hturn, hloop⟩ := hloop
        have hhead := selectWaitingQueue_spec hselect
        have hid : id ∈ p.queued p.stepSkippedWaiting :=
          (popRequest_perm hhead p.stepSkippedWaiting).mem_iff.mpr List.mem_cons_self
        have hq := waitingTurn_budgetKept hkept (h.queues.queued id hid).not_running
          (h.nothing_yet hid).1 hturn
        cases flow with
        | next =>
          have hturned := waitingTurn_spec h huntouched hhead hturn
          exact ih hturned.inv (hturned.untouched rfl) hq hloop
        | stop =>
          cases hloop
          exact hq

theorem scheduleWaiting_budgetKept (h : RunInv cfg ctx s₀ p) (hkept : BudgetKept cfg s₀ p)
    (hwait : scheduleWaiting cfg svc ctx p = .ok p') : BudgetKept cfg s₀ p' := by
  unfold scheduleWaiting at hwait
  by_cases hskip : p.preemptedReqs ≠ [] ∨ p.pauseState ≠ .unpaused
  · rw [if_pos hskip] at hwait
    cases hwait
    exact hkept
  · rw [if_neg hskip] at hwait
    have hnone : p.preemptedReqs = [] := by
      by_contra hpreempted
      exact hskip (.inl hpreempted)
    simp only [bind_eq_ok, pure_eq_ok] at hwait
    obtain ⟨q, hloop, rfl⟩ := hwait
    obtain ⟨hinv, huntouched⟩ := h.waitInv hnone
    have hq := waitingLoop_budgetKept hinv huntouched hkept hloop
    exact hq.same ⟨rfl, rfl, rfl, rfl, rfl, rfl, rfl, rfl, rfl⟩

theorem beginStep_budgetKept (hchecked : cfg.Checked) (throttlePrefills : Bool) (s : State σ) :
    BudgetKept cfg s (beginStep cfg throttlePrefills s).2 := by
  refine ⟨(sub_zero _).symm, ?_⟩
  show 0 ≤ initialTokenBudget cfg { s with currentStep := s.currentStep + 1 }
  unfold initialTokenBudget
  split_ifs
  · exact le_rfl
  · exact hchecked.maxNumScheduledTokens

/-- Over every run under FCFS: behind the loops of a step its budget is what it gave out and
what is left, so that the step passes the checks of both. -/
theorem token_budget_kept {throttlePrefills : Bool} {Q : Engine σ → Action σ → Prop} {e : Engine σ}
    (hreached : Engine.Reached cfg svc Q e) (hpolicy : cfg.policy = .fcfs) (hchecked : cfg.Checked)
    (hloops : runLoops cfg svc throttlePrefills e.state = .ok (ctx, p)) :
    scheduledTokens p.numScheduledTokens + p.tokenBudget = initialTokenBudget cfg e.state ∧
      0 ≤ p.tokenBudget ∧ scheduledTokens p.numScheduledTokens ≤ cfg.maxNumScheduledTokens := by
  have hbegin : RunInv cfg _ e.state (beginStep cfg throttlePrefills e.state).2 :=
    beginStep_spec hreached.queues
  simp only [runLoops, bind_eq_ok, pure_eq_ok, Prod.mk.injEq] at hloops
  obtain ⟨q, hrun, r, hwait, -, rfl⟩ := hloops
  have hq := scheduleRunning_budgetKept hpolicy hbegin
    (beginStep_budgetKept hchecked throttlePrefills e.state) hrun
  obtain ⟨hcounted, hnonneg⟩ :=
    scheduleWaiting_budgetKept (scheduleRunning_spec hbegin hrun) hq hwait
  have hinitial : initialTokenBudget cfg e.state ≤ cfg.maxNumScheduledTokens := by
    unfold initialTokenBudget
    split_ifs
    · exact hchecked.maxNumScheduledTokens
    · exact le_rfl
  refine ⟨?_, hnonneg, ?_⟩
  · omega
  · omega

/-- Two prompts are admitted in one step. -/
theorem two_prompts_budget_kept :
    ∃ (e : Engine (List Bool)) (ctx : StepContext) (p : Pass (List Bool)),
      runLoops oneTurn .scripted false e.state = .ok (ctx, p) ∧
      p.numScheduledTokens.items.length = 2 ∧
      scheduledTokens p.numScheduledTokens + p.tokenBudget = initialTokenBudget oneTurn e.state ∧
      0 ≤ p.tokenBudget ∧ scheduledTokens p.numScheduledTokens ≤ oneTurn.maxNumScheduledTokens := by
  have hstart : Engine.Reached oneTurn .scripted (fun _ _ => True) { state := emptyState [] } :=
    .start (emptyState_initial [])
  have hfirst := hstart.act (a := .addRequest "a" (prompt 10) none) trivial rfl
  have hsecond := hfirst.act (a := .addRequest "b" (prompt 10) none) trivial rfl
  have hchecked : oneTurn.Checked := ⟨by decide, by decide, by decide, by decide⟩
  obtain ⟨e, hreached, ctx, p, hloops, hlength⟩ : ∃ e, Engine.Reached oneTurn .scripted
      (fun _ _ => True) e ∧ ∃ ctx p,
      runLoops oneTurn .scripted false e.state = .ok (ctx, p) ∧
      p.numScheduledTokens.items.length = 2 :=
    ⟨_, hsecond, _, _, rfl, by decide⟩
  exact ⟨e, ctx, p, hloops, hlength, token_budget_kept hreached rfl hchecked hloops⟩

end ChampionRuntime.Scheduler
