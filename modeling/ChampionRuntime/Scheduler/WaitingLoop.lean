import ChampionRuntime.Scheduler.WaitingInvariant

/-!
# The loop over the waiting queues

Every turn keeps the invariant, and the loop comes to its end. The drafts it adds are
the placeholders of padded admissions.
-/
namespace ChampionRuntime.Scheduler

open Lib
open scoped List

variable {σ : Type} {cfg : Config} {svc : Services σ} {ctx : StepContext} {s₀ : State σ}

/-- A pass that took the head of a queue and put it aside. -/
structure PutAside (p : Pass σ) (fromSkipped : Bool) (id : RequestId) (q : Pass σ) : Prop where
  running : q.running = p.running
  requests : q.requests = p.requests
  waiting : q.waiting = (p.popRequest fromSkipped).waiting
  skippedWaiting : q.skippedWaiting = (p.popRequest fromSkipped).skippedWaiting
  aside : q.stepSkippedWaiting ~ id :: p.stepSkippedWaiting
  tokens : q.numScheduledTokens = p.numScheduledTokens
  drafts : q.scheduledSpecDecodeTokens = p.scheduledSpecDecodeTokens
  request : ∀ id', id' ≠ id → q.request id' = p.request id'
  queued : (q.request id).Queued

theorem PutAside.perm {p q : Pass σ} {fromSkipped : Bool} {id : RequestId}
    (hq : PutAside p fromSkipped id q)
    (hhead : if fromSkipped then p.skippedWaiting = id :: p.skippedWaiting.tail
      else p.waiting = id :: p.waiting.tail) :
    q.queued q.stepSkippedWaiting ~ p.queued p.stepSkippedWaiting := by
  calc q.queued q.stepSkippedWaiting
      _ = (p.popRequest fromSkipped).queued q.stepSkippedWaiting := by
        unfold State.queued
        rw [hq.waiting, hq.skippedWaiting]
      _ ~ (p.popRequest fromSkipped).queued (id :: p.stepSkippedWaiting) :=
        hq.aside.append_left _
      _ ~ id :: (p.popRequest fromSkipped).queued p.stepSkippedWaiting := List.perm_middle
      _ ~ p.queued p.stepSkippedWaiting := (popRequest_perm hhead _).symm

theorem WaitInv.putAside {p q : Pass σ} {fromSkipped : Bool} {id : RequestId}
    (h : WaitInv cfg ctx s₀ p)
    (hhead : if fromSkipped then p.skippedWaiting = id :: p.skippedWaiting.tail
      else p.waiting = id :: p.waiting.tail)
    (hq : PutAside p fromSkipped id q) : WaitInv cfg ctx s₀ q := by
  have hperm := hq.perm hhead
  have hid : id ∈ p.queued p.stepSkippedWaiting :=
    (popRequest_perm hhead _).mem_iff.mpr List.mem_cons_self
  have hne : ∀ id' ∈ p.running, id' ≠ id := by
    intro id' hid' heq
    exact h.queues.not_mem_queued hid' (heq ▸ hid)
  refine ⟨⟨?_, ?_, ?_⟩, ?_, ?_, ?_⟩
  · apply h.queues.move
    · rw [hq.running]
      exact (hperm.append_left _).subperm
    · intro id' _ hid'
      rwa [hq.requests]
    · intro id' hid'
      rw [hq.running] at hid'
      rw [hq.request id' (hne id' hid')]
      exact h.queues.running id' hid'
    · intro id' hid'
      by_cases heq : id' = id
      · rw [heq]
        exact hq.queued
      · rw [hq.request id' heq]
        exact h.queues.queued id' (hperm.mem_iff.mp hid')
  · rw [hq.tokens, hq.running]
    exact h.scheduled
  · rw [hq.tokens, hq.drafts]
    exact h.drafted
  · rw [hq.running]
    exact h.old
  · rw [hq.tokens]
    exact h.ungated
  · intro id' n hn
    rw [hq.tokens] at hn
    rw [hq.drafts, hq.request id' (hne id' (h.scheduled id' n hn))]
    exact h.since id' n hn

/-! What a pop leaves alone. -/

section Pop

variable (p : Pass σ) (fromSkipped : Bool)

@[simp] theorem popRequest_running : (p.popRequest fromSkipped).running = p.running := by
  cases fromSkipped <;> rfl

@[simp] theorem popRequest_requests : (p.popRequest fromSkipped).requests = p.requests := by
  cases fromSkipped <;> rfl

@[simp] theorem popRequest_request : (p.popRequest fromSkipped).request = p.request := by
  cases fromSkipped <;> rfl

@[simp] theorem popRequest_stepSkippedWaiting :
    (p.popRequest fromSkipped).stepSkippedWaiting = p.stepSkippedWaiting := by
  cases fromSkipped <;> rfl

@[simp] theorem popRequest_numScheduledTokens :
    (p.popRequest fromSkipped).numScheduledTokens = p.numScheduledTokens := by
  cases fromSkipped <;> rfl

@[simp] theorem popRequest_scheduledSpecDecodeTokens :
    (p.popRequest fromSkipped).scheduledSpecDecodeTokens = p.scheduledSpecDecodeTokens := by
  cases fromSkipped <;> rfl

end Pop

theorem setAside_putAside {p : Pass σ} {fromSkipped : Bool} {id : RequestId}
    (hqueued : (p.request id).Queued) : PutAside p fromSkipped id (p.setAside svc fromSkipped id) where
  running := popRequest_running p fromSkipped
  requests := popRequest_requests p fromSkipped
  waiting := rfl
  skippedWaiting := rfl
  aside := by
    rw [← popRequest_stepSkippedWaiting p fromSkipped]
    exact svc.queues.prepend_perm _ id _
  tokens := popRequest_numScheduledTokens p fromSkipped
  drafts := popRequest_scheduledSpecDecodeTokens p fromSkipped
  request id' _ := congrFun (popRequest_request p fromSkipped) id'
  queued := (popRequest_request p fromSkipped).symm ▸ hqueued

theorem startLoad_putAside {p : Pass σ} {fromSkipped : Bool} {id : RequestId} {cached : CachedTokens} :
    PutAside p fromSkipped id (startLoad svc p fromSkipped id cached) where
  running := popRequest_running p fromSkipped
  requests := popRequest_requests p fromSkipped
  waiting := rfl
  skippedWaiting := rfl
  aside := by
    rw [← popRequest_stepSkippedWaiting p fromSkipped]
    exact svc.queues.prepend_perm _ id _
  tokens := popRequest_numScheduledTokens p fromSkipped
  drafts := popRequest_scheduledSpecDecodeTokens p fromSkipped
  request id' hne := by
    unfold startLoad
    dsimp only
    rw [Function.update_of_ne hne, popRequest_request]
  queued := by
    unfold startLoad
    dsimp only
    rw [Function.update_self, popRequest_request]
    exact ⟨by simp, rfl⟩

theorem capAdmission_le {p : Pass σ} {n m : ℤ} (h : capAdmission cfg ctx p n = some m) : m ≤ n := by
  unfold capAdmission at h
  extract_lets capped least remaining at h
  have hcapped : capped ≤ n := by
    unfold capped
    split_ifs with hcap
    · exact hcap.2.2.le
    · exact le_rfl
  have hleast : least ≤ n := (min_le_left _ _).trans hcapped
  split_ifs at h
  · rw [← Option.some.inj h]
    exact (min_le_left _ _).trans hleast
  · rw [← Option.some.inj h]
    exact hleast

/-- A padded admission was to have one token, and has `num_spec_tokens` more at most. -/
theorem admissionTokens_padded {p : Pass σ} {r : Request} {cached : CachedTokens} {n : ℤ}
    (h : admissionTokens cfg ctx p r cached = some (n, true)) :
    padsSpecDecode cfg p (r.numTokens - cached.numComputedTokens) = true ∧
      capAdmission cfg ctx p (1 + cfg.numSpecTokens) = some n ∧
      (1 + cfg.numSpecTokens : ℤ) ≤ p.tokenBudget := by
  unfold admissionTokens at h
  dsimp only at h
  split_ifs at h with hdefer hpads hroom
  · obtain ⟨m, hcap, hpair⟩ := Option.map_eq_some_iff.mp h
    cases hpair
    rw [not_or, not_lt] at hroom
    exact ⟨hpads, hcap, hroom.1⟩
  · obtain ⟨m, -, hpair⟩ := Option.map_eq_some_iff.mp h
    cases hpair

theorem cutAdmission_spec {p q : Pass σ} {id : RequestId} {cached : CachedTokens} {n : ℤ}
    {plan : Option EncoderPlan} (h : cutAdmission cfg svc p id cached n = .ok (plan, q)) :
    (∃ services, q = { p with services }) ∧
      ∀ found, plan = some found → found.numNewTokens ≤ max n 0 := by
  simp only [cutAdmission, bind_eq_ok] at h
  obtain ⟨⟨tried, services⟩, htry, h⟩ := h
  have hencoder := tryScheduleEncoderInputs_le cfg svc htry
  dsimp only at h
  by_cases hzero : tried.numNewTokens = 0
  · rw [if_pos hzero] at h
    cases h
    exact ⟨⟨services, rfl⟩, fun found hfound => by cases hfound⟩
  · rw [if_neg hzero] at h
    generalize hcut : (if cfg.needMambaBlockAlignedSplit then _ else _ : EncoderPlan) = cut at h
    have hle : cut.numNewTokens ≤ max n 0 := by
      rw [← hcut]
      split_ifs
      · exact (mambaBlockAlignedSplit_le cfg _ _ _ _).trans (max_le hencoder (le_max_right n 0))
      · exact hencoder
    split_ifs at h
    · cases h
      exact ⟨⟨services, rfl⟩, fun found hfound => by cases hfound⟩
    · cases h
      refine ⟨⟨services, rfl⟩, ?_⟩
      intro found hfound
      rwa [← Option.some.inj hfound]

/-- What is known of a request when it is admitted. -/
structure Admissible (cfg : Config) (s₀ : State σ) (id : RequestId) (cached : CachedTokens)
    (padded : Bool) : Prop where
  sampled : padded = true → 0 < cfg.numSampledTokensPerStep
  since : (s₀.request id).numComputedTokens ≤ cached.numComputedTokens + 1

theorem numSampledTokensPerStep_le (cfg : Config) : cfg.numSampledTokensPerStep ≤ 1 := by
  unfold Config.numSampledTokensPerStep
  split_ifs <;> decide

section Admit

variable {p q : Pass σ} {fromSkipped : Bool} {id : RequestId} {cached : CachedTokens}
  {plan : EncoderPlan} {padded : Bool}

/-- An admitted request runs, with the drafts of the padding. -/
structure Admitted (cfg : Config) (p : Pass σ) (fromSkipped : Bool) (id : RequestId)
    (cached : CachedTokens) (n : ℤ) (padded : Bool) (q : Pass σ) : Prop where
  running : q.running = p.running ++ [id]
  requests : q.requests = p.requests
  waiting : q.waiting = (p.popRequest fromSkipped).waiting
  skippedWaiting : q.skippedWaiting = (p.popRequest fromSkipped).skippedWaiting
  aside : q.stepSkippedWaiting = p.stepSkippedWaiting
  tokens : q.numScheduledTokens = p.numScheduledTokens.set id n
  drafts : q.scheduledSpecDecodeTokens =
    if padded then p.scheduledSpecDecodeTokens.set id (List.replicate cfg.numSpecTokens .placeholder)
    else p.scheduledSpecDecodeTokens
  request : ∀ id', id' ≠ id → q.request id' = p.request id'
  admitted : q.request id = { p.request id with
    status := .running
    numComputedTokens := cached.numComputedTokens }

theorem admitRequest_admitted (h : admitRequest cfg p fromSkipped id cached plan padded = .ok q) :
    Admitted cfg p fromSkipped id cached plan.numNewTokens padded q := by
  unfold admitRequest at h
  extract_lets popped r admitted at h
  have hq : ∃ fresh resumed, q = { admitted with
      scheduledNewReqs := fresh
      scheduledResumedReqs := resumed } := by
    split at h
    · cases h
      exact ⟨_, _, rfl⟩
    · split at h
      · cases h
        exact ⟨_, _, rfl⟩
      · cases h
  obtain ⟨fresh, resumed, rfl⟩ := hq
  refine ⟨?_, ?_, rfl, rfl, ?_, ?_, ?_, ?_, ?_⟩
  · exact congrArg (· ++ [id]) (popRequest_running p fromSkipped)
  · exact popRequest_requests p fromSkipped
  · exact popRequest_stepSkippedWaiting p fromSkipped
  · exact congrArg (·.set id plan.numNewTokens) (popRequest_numScheduledTokens p fromSkipped)
  · dsimp only [admitted, popped]
    rw [popRequest_scheduledSpecDecodeTokens]
  · intro id' hne
    dsimp only [admitted]
    rw [Function.update_of_ne hne, popRequest_request]
  · dsimp only [admitted]
    rw [Function.update_self]
    dsimp only [r, popped]
    rw [popRequest_request]

variable {n : ℤ}

theorem Admitted.get?_drafts (hq : Admitted cfg p fromSkipped id cached n padded q)
    (hnone : p.scheduledSpecDecodeTokens.get? id = none) (id' : RequestId) :
    q.scheduledSpecDecodeTokens.get? id' =
      if id' = id then
        if padded then some (List.replicate cfg.numSpecTokens DraftToken.placeholder) else none
      else p.scheduledSpecDecodeTokens.get? id' := by
  rw [hq.drafts]
  cases padded with
  | true =>
    rw [if_pos rfl, Keyed.get?_set]
    rfl
  | false =>
    rw [if_neg Bool.false_ne_true, if_neg Bool.false_ne_true]
    by_cases hid : id' = id
    · rw [if_pos hid, hid, hnone]
    · rw [if_neg hid]

theorem WaitInv.nothing_yet (h : WaitInv cfg ctx s₀ p) (hid : id ∈ p.queued p.stepSkippedWaiting) :
    p.numScheduledTokens.get? id = none ∧ p.scheduledSpecDecodeTokens.get? id = none := by
  have hnone : p.numScheduledTokens.get? id = none := by
    cases hn : p.numScheduledTokens.get? id with
    | none => rfl
    | some n => exact absurd hid (h.queues.not_mem_queued (h.scheduled id n hn))
  refine ⟨hnone, ?_⟩
  cases hdrafts : p.scheduledSpecDecodeTokens.get? id with
  | none => rfl
  | some drafts =>
    obtain ⟨n, hn⟩ := h.drafted id drafts hdrafts
    rw [hnone] at hn
    cases hn

theorem WaitInv.admitted (h : WaitInv cfg ctx s₀ p)
    (hhead : if fromSkipped then p.skippedWaiting = id :: p.skippedWaiting.tail
      else p.waiting = id :: p.waiting.tail)
    (hadm : Admissible cfg s₀ id cached padded)
    (hq : Admitted cfg p fromSkipped id cached n padded q) : WaitInv cfg ctx s₀ q := by
  have hpop := popRequest_perm hhead p.stepSkippedWaiting
  have hid : id ∈ p.queued p.stepSkippedWaiting := hpop.mem_iff.mpr List.mem_cons_self
  obtain ⟨hnothing, hundrafted⟩ := h.nothing_yet hid
  have hne : ∀ id' ∈ p.running, id' ≠ id := by
    intro id' hid' heq
    exact h.queues.not_mem_queued hid' (heq ▸ hid)
  have htokens : ∀ id', q.numScheduledTokens.get? id' =
      if id' = id then some n else p.numScheduledTokens.get? id' := by
    intro id'
    rw [hq.tokens, Keyed.get?_set]
  have hdrafts := hq.get?_drafts hundrafted
  have hqueue : q.queued q.stepSkippedWaiting =
      (p.popRequest fromSkipped).queued p.stepSkippedWaiting := by
    unfold State.queued
    rw [hq.waiting, hq.skippedWaiting, hq.aside]
  have hperm : q.running ++ q.queued q.stepSkippedWaiting ~
      p.running ++ p.queued p.stepSkippedWaiting := by
    rw [hq.running, hqueue, List.append_assoc, List.singleton_append]
    exact hpop.symm.append_left _
  have hleft : ∀ id' ∈ q.queued q.stepSkippedWaiting, id' ≠ id := by
    intro id' hid' heq
    rw [hqueue] at hid'
    have hnd := hpop.nodup_iff.mp h.queues.nodup.of_append_right
    exact (List.nodup_cons.mp hnd).1 (heq ▸ hid')
  refine ⟨⟨?_, ?_, ?_⟩, ?_, ?_, ?_⟩
  · apply h.queues.move hperm.subperm
    · intro id' _ hid'
      rwa [hq.requests]
    · intro id' hid'
      by_cases heq : id' = id
      · rw [heq, hq.admitted]
      · rw [hq.running, List.mem_append, List.mem_singleton] at hid'
        rw [hq.request id' heq]
        exact h.queues.running id' (hid'.resolve_right heq)
    · intro id' hid'
      rw [hq.request id' (hleft id' hid')]
      apply h.queues.queued id'
      rw [hqueue] at hid'
      exact hpop.mem_iff.mpr (List.mem_cons_of_mem id hid')
  · intro id' n' hn'
    rw [htokens] at hn'
    rw [hq.running, List.mem_append, List.mem_singleton]
    split_ifs at hn' with heq
    · exact .inr heq
    · exact .inl (h.scheduled id' n' hn')
  · intro id' ds hds
    rw [hdrafts] at hds
    rw [htokens]
    split_ifs at hds ⊢ with heq
    · exact ⟨n, rfl⟩
    · exact h.drafted id' ds hds
  · intro id' hid'
    rw [hq.running]
    exact List.mem_append_left _ (h.old id' hid')
  · intro haware id' hold n' hn' hlong
    rw [htokens, if_neg (hne id' (h.old id' hold))] at hn'
    exact h.ungated haware id' hold n' hn' hlong
  · intro id' n' hn'
    rw [htokens] at hn'
    unfold draftsOf
    rw [hdrafts]
    split_ifs at hn' ⊢ with heq hpadded
    · rw [heq, hq.admitted]
      refine ⟨hadm.since, fun hzero => ?_⟩
      have hsampled := hadm.sampled hpadded
      omega
    · rw [heq, hq.admitted]
      exact ⟨hadm.since, fun _ hne' => absurd rfl hne'⟩
    · rw [hq.request id' heq]
      exact h.since id' n' hn'

end Admit

/-- The turn of a request admits it padded: to `n` tokens by the caps, `plan.numNewTokens`
behind the cuts. -/
structure PaddedAdmission (cfg : Config) (svc : Services σ) (ctx : StepContext) (id : RequestId)
    (p : Pass σ) (cached : CachedTokens) (q : Pass σ) (n : ℤ) (plan : EncoderPlan) : Prop where
  looked : lookWaiting cfg svc id p = .ok (some cached, q)
  local_only : cached.loadKvAsync = false
  padded : admissionTokens cfg ctx q (q.request id) cached = some (n, true)
  allocated : ∃ q', cutAdmission cfg svc q id cached n = .ok (some plan, q') ∧
    (allocateAdmission cfg svc q' id cached plan).1 = true

theorem padsSpecDecode_spec {p : Pass σ} {n : ℤ} (h : padsSpecDecode cfg p n = true) :
    n = 1 ∧ 0 < cfg.numSampledTokensPerStep := by
  simp only [padsSpecDecode, decide_eq_true_eq] at h
  exact ⟨h.2.2.1, h.2.1⟩

theorem settleAdmission_cases {p p' : Pass σ} {fromSkipped : Bool} {id : RequestId}
    {cached : CachedTokens} {plan : EncoderPlan} {padded : Bool} {flow : Flow}
    (h : settleAdmission cfg svc fromSkipped id cached plan padded p = .ok (flow, p')) :
    (flow = .stop ∧ ∃ services, p' = { p with services }) ∨
      (flow = .next ∧ cached.loadKvAsync = true ∧ PutAside p fromSkipped id p') ∨
      (flow = .next ∧ cached.loadKvAsync = false ∧
        (allocateAdmission cfg svc p id cached plan).1 = true ∧
        Admitted cfg p fromSkipped id cached plan.numNewTokens padded p') := by
  unfold settleAdmission at h
  obtain ⟨services, hservices⟩ : ∃ services,
      (allocateAdmission cfg svc p id cached plan).2 = { p with services } := ⟨_, rfl⟩
  dsimp only at h
  rw [hservices] at h
  split_ifs at h with hfull hload
  · cases h
    exact .inl ⟨rfl, services, rfl⟩
  · cases h
    refine .inr (.inl ⟨rfl, hload, ?_⟩)
    have haside : PutAside { p with services } fromSkipped id
        (startLoad svc { p with services } fromSkipped id cached) := startLoad_putAside
    cases fromSkipped <;> exact ⟨haside.running, haside.requests, haside.waiting,
      haside.skippedWaiting, haside.aside, haside.tokens, haside.drafts, haside.request,
      haside.queued⟩
  · simp only [bind_eq_ok, pure_eq_ok, Prod.mk.injEq] at h
    obtain ⟨q, hadmit, rfl, rfl⟩ := h
    refine .inr (.inr ⟨rfl, Bool.not_eq_true _ ▸ hload, Bool.not_eq_false _ ▸ hfull, ?_⟩)
    have hq := admitRequest_admitted hadmit
    cases fromSkipped <;> exact ⟨hq.running, hq.requests, hq.waiting, hq.skippedWaiting, hq.aside,
      hq.tokens, hq.drafts, hq.request, hq.admitted⟩

/-- The three ends of a turn, for the pass `q` behind the look at the request. -/
inductive TurnEnd (cfg : Config) (svc : Services σ) (ctx : StepContext) (s₀ : State σ)
    (fromSkipped : Bool) (id : RequestId) (p q : Pass σ) : Flow → Pass σ → Prop
  | stopped (services : σ) : TurnEnd cfg svc ctx s₀ fromSkipped id p q .stop { q with services }
  | putAside (p' : Pass σ) (haside : PutAside q fromSkipped id p') :
      TurnEnd cfg svc ctx s₀ fromSkipped id p q .next p'
  | admitted (p' : Pass σ) (cached : CachedTokens) (plan : EncoderPlan) (padded : Bool)
      (hadmissible : Admissible cfg s₀ id cached padded)
      (hadmitted : Admitted cfg q fromSkipped id cached plan.numNewTokens padded p')
      (hpadded : padded = true → ∃ looked n, PaddedAdmission cfg svc ctx id p cached looked n plan) :
      TurnEnd cfg svc ctx s₀ fromSkipped id p q .next p'

theorem Looked.withServices {p q : Pass σ} {id : RequestId} (h : Looked p id q) (services : σ) :
    Looked p id { q with services } :=
  ⟨⟨h.running, h.waiting, h.skippedWaiting, h.requests, h.request, h.lookedAt⟩,
    h.stepSkippedWaiting, h.tokens, h.drafts⟩

theorem admissible_of_tokens {p q : Pass σ} {id : RequestId} {cached : CachedTokens} {n : ℤ}
    {padded : Bool} (hlooked : Looked p id q) (huntouched : p.request id = s₀.request id)
    (hfrom : (q.request id).numComputedTokens ≤ cached.numComputedTokens)
    (htokens : admissionTokens cfg ctx q (q.request id) cached = some (n, padded)) :
    Admissible cfg s₀ id cached padded := by
  refine ⟨fun hpadded => ?_, ?_⟩
  · subst hpadded
    exact (padsSpecDecode_spec (admissionTokens_padded htokens).1).2
  · have hcomputed := hlooked.lookedAt.le_computed
    rw [huntouched] at hcomputed
    omega

theorem PaddedAdmission.admitted {p q p' : Pass σ} {fromSkipped : Bool} {id : RequestId}
    {cached : CachedTokens} {n : ℤ} {plan : EncoderPlan} {flow : Flow}
    (h : PaddedAdmission cfg svc ctx id p cached q n plan)
    (hturn : waitingTurn cfg svc ctx fromSkipped id p = .ok (flow, p')) :
    flow = .next ∧ p'.running = q.running ++ [id] ∧
      p'.numScheduledTokens.get? id = some plan.numNewTokens ∧
      p'.scheduledSpecDecodeTokens.get? id =
        some (List.replicate cfg.numSpecTokens DraftToken.placeholder) := by
  obtain ⟨q', hcut, hallocated⟩ := h.allocated
  obtain ⟨⟨services, rfl⟩, -⟩ := cutAdmission_spec hcut
  simp only [waitingTurn, h.looked, bind_eq_ok] at hturn
  obtain ⟨_, ⟨⟩, hturn⟩ := hturn
  dsimp only [admissionTurn] at hturn
  rw [h.local_only, if_neg Bool.false_ne_true, h.padded] at hturn
  simp only [hcut, bind_eq_ok] at hturn
  obtain ⟨-, -, _, ⟨⟩, hturn⟩ := hturn
  dsimp only [settleAdmission] at hturn
  rw [hallocated, h.local_only, if_neg Bool.noConfusion, if_neg Bool.false_ne_true] at hturn
  simp only [bind_eq_ok, pure_eq_ok, Prod.mk.injEq] at hturn
  obtain ⟨_, hadmit, rfl, rfl⟩ := hturn
  have hq := admitRequest_admitted hadmit
  refine ⟨rfl, hq.running, ?_, ?_⟩
  · rw [hq.tokens, Keyed.get?_set, if_pos rfl]
  · rw [hq.drafts, if_pos rfl, Keyed.get?_set, if_pos rfl]

theorem waitingTurn_cases {p p' : Pass σ} {fromSkipped : Bool} {id : RequestId} {flow : Flow}
    (hqueued : (p.request id).Queued) (huntouched : p.request id = s₀.request id)
    (h : waitingTurn cfg svc ctx fromSkipped id p = .ok (flow, p')) :
    ∃ q, Looked p id q ∧ TurnEnd cfg svc ctx s₀ fromSkipped id p q flow p' := by
  simp only [waitingTurn, bind_eq_ok] at h
  obtain ⟨⟨cached, q⟩, hlook, h⟩ := h
  obtain ⟨hlooked, hfrom⟩ := lookWaiting_spec hlook
  have hqueued' : (q.request id).Queued := hlooked.lookedAt.queued hqueued
  cases cached with
  | none =>
    cases h
    exact ⟨q, hlooked, .putAside _ (setAside_putAside hqueued')⟩
  | some cached =>
    dsimp only [admissionTurn] at h
    by_cases hload : cached.loadKvAsync = true
    · rw [if_pos hload] at h
      simp only [bind_eq_ok] at h
      obtain ⟨-, -, h⟩ := h
      refine ⟨q, hlooked, ?_⟩
      rcases settleAdmission_cases h with
        ⟨rfl, services, rfl⟩ | ⟨rfl, -, haside⟩ | ⟨-, hlocal, -⟩
      · exact .stopped services
      · exact .putAside _ haside
      · rw [hload] at hlocal
        cases hlocal
    · rw [if_neg hload] at h
      cases htokens : admissionTokens cfg ctx q (q.request id) cached with
      | none =>
        rw [htokens] at h
        cases h
        exact ⟨p', hlooked, .stopped p'.services⟩
      | some found =>
        obtain ⟨n, padded⟩ := found
        rw [htokens] at h
        simp only [bind_eq_ok, require_eq_ok, decide_eq_true_eq] at h
        obtain ⟨-, hpos, ⟨plan, q'⟩, hcut, h⟩ := h
        obtain ⟨⟨services, hq'⟩, hle⟩ := cutAdmission_spec hcut
        have hlooked' : Looked p id q' := hq' ▸ hlooked.withServices services
        have hsame : q'.request = q.request := by rw [hq']
        refine ⟨q', hlooked', ?_⟩
        dsimp only at h
        cases plan with
        | none =>
          cases h
          exact .stopped p'.services
        | some plan =>
          have hadmissible := admissible_of_tokens hlooked huntouched (hfrom cached rfl) htokens
          rcases settleAdmission_cases h with
            ⟨rfl, services', rfl⟩ | ⟨-, hload', -⟩ | ⟨rfl, hlocal, hallocated, hadmitted⟩
          · exact .stopped services'
          · exact absurd hload' hload
          · refine .admitted p' cached plan padded hadmissible hadmitted ?_
            intro hpadded
            exact ⟨q, n, hlook, hlocal, hpadded ▸ htokens, q', hcut, hallocated⟩

theorem WaitInv.withServices {p : Pass σ} (h : WaitInv cfg ctx s₀ p) (services : σ) :
    WaitInv cfg ctx s₀ { p with services } where
  queues := ⟨h.queues.nodup, h.queues.registered, h.queues.running, h.queues.queued⟩
  scheduled := h.scheduled
  drafted := h.drafted
  old := h.old
  ungated := h.ungated
  since := h.since

theorem Looked.head {p q : Pass σ} {fromSkipped : Bool} {id : RequestId} (hq : Looked p id q)
    (hhead : if fromSkipped then p.skippedWaiting = id :: p.skippedWaiting.tail
      else p.waiting = id :: p.waiting.tail) :
    if fromSkipped then q.skippedWaiting = id :: q.skippedWaiting.tail
    else q.waiting = id :: q.waiting.tail := by
  rwa [hq.skippedWaiting, hq.waiting]

theorem popRequest_queues {p : Pass σ} {fromSkipped : Bool} {id : RequestId}
    (hnodup : (p.waiting ++ p.skippedWaiting).Nodup)
    (hhead : if fromSkipped then p.skippedWaiting = id :: p.skippedWaiting.tail
      else p.waiting = id :: p.waiting.tail) :
    (∀ id' ∈ (p.popRequest fromSkipped).waiting ++ (p.popRequest fromSkipped).skippedWaiting,
      id' ∈ p.waiting ++ p.skippedWaiting ∧ id' ≠ id) ∧
    (p.popRequest fromSkipped).waiting.length + (p.popRequest fromSkipped).skippedWaiting.length + 1 =
      p.waiting.length + p.skippedWaiting.length := by
  have hperm := popRequest_perm hhead []
  unfold State.queued at hperm
  rw [List.append_nil, List.append_nil] at hperm
  have hleft := List.nodup_cons.mp (hperm.nodup_iff.mp hnodup)
  constructor
  · intro id' hid'
    refine ⟨hperm.mem_iff.mpr (List.mem_cons_of_mem id hid'), ?_⟩
    intro heq
    exact hleft.1 (heq ▸ hid')
  · have hlength := hperm.length_eq
    simp only [List.length_append, List.length_cons] at hlength
    omega

/-- What the step has for a request stays. -/
def Pass.KeepsEntry (p p' : Pass σ) (id : RequestId) : Prop :=
  id ∈ p'.running ∧ p'.numScheduledTokens.get? id = p.numScheduledTokens.get? id ∧
    p'.scheduledSpecDecodeTokens.get? id = p.scheduledSpecDecodeTokens.get? id

/-- A request padded in the turn that begins with `p`, as it stands in `p'`. -/
def PaddedEntry (cfg : Config) (svc : Services σ) (ctx : StepContext) (id : RequestId)
    (p p' : Pass σ) (drafts : List DraftToken) : Prop :=
  ∃ cached q n plan, PaddedAdmission cfg svc ctx id p cached q n plan ∧
    p'.numScheduledTokens.get? id = some plan.numNewTokens ∧
    drafts = List.replicate cfg.numSpecTokens DraftToken.placeholder

/-- What a turn keeps, and what it makes of the queues. -/
structure TurnKeeps (cfg : Config) (svc : Services σ) (ctx : StepContext) (s₀ : State σ)
    (id : RequestId) (p : Pass σ) (flow : Flow) (p' : Pass σ) : Prop where
  inv : WaitInv cfg ctx s₀ p'
  untouched : flow = .next → Untouched s₀ p'
  shorter : flow = .next → p'.waiting.length + p'.skippedWaiting.length <
    p.waiting.length + p.skippedWaiting.length
  kept : ∀ id' ∈ p.running, p.KeepsEntry p' id'
  padded : ∀ id' drafts, id' ∉ p.running → p'.scheduledSpecDecodeTokens.get? id' = some drafts →
    id' = id ∧ PaddedEntry cfg svc ctx id p p' drafts

theorem mem_queues_of_head {p : Pass σ} {fromSkipped : Bool} {id : RequestId}
    (hhead : if fromSkipped then p.skippedWaiting = id :: p.skippedWaiting.tail
      else p.waiting = id :: p.waiting.tail) : id ∈ p.waiting ++ p.skippedWaiting := by
  cases fromSkipped with
  | true =>
    rw [if_pos rfl] at hhead
    rw [hhead]
    exact List.mem_append_right _ List.mem_cons_self
  | false =>
    rw [if_neg Bool.false_ne_true] at hhead
    rw [hhead]
    exact List.mem_append_left _ List.mem_cons_self

theorem waitingTurn_spec {p p' : Pass σ} {fromSkipped : Bool} {id : RequestId} {flow : Flow}
    (h : WaitInv cfg ctx s₀ p) (huntouched : Untouched s₀ p)
    (hhead : if fromSkipped then p.skippedWaiting = id :: p.skippedWaiting.tail
      else p.waiting = id :: p.waiting.tail)
    (hturn : waitingTurn cfg svc ctx fromSkipped id p = .ok (flow, p')) :
    TurnKeeps cfg svc ctx s₀ id p flow p' := by
  have hpop := popRequest_perm hhead p.stepSkippedWaiting
  have hid : id ∈ p.queued p.stepSkippedWaiting := hpop.mem_iff.mpr List.mem_cons_self
  obtain ⟨q, hlooked, hend⟩ :=
    waitingTurn_cases (h.queues.queued id hid) (huntouched id (mem_queues_of_head hhead)) hturn
  have hq : WaitInv cfg ctx s₀ q := h.looked hid hlooked
  have hhead' := hlooked.head hhead
  have hid' : id ∈ q.queued q.stepSkippedWaiting :=
    (popRequest_perm hhead' _).mem_iff.mpr List.mem_cons_self
  have hnodup : (q.waiting ++ q.skippedWaiting).Nodup :=
    hq.queues.nodup.of_append_right.of_append_left
  obtain ⟨hleft, hlength⟩ := popRequest_queues hnodup hhead'
  rw [hlooked.waiting, hlooked.skippedWaiting] at hlength
  -- the requests that are left in the queues were not looked at
  have hsame : ∀ id', id' ∈ q.waiting ++ q.skippedWaiting → id' ≠ id →
      q.request id' = s₀.request id' := by
    intro id' hmem hne
    rw [hlooked.request id' hne]
    apply huntouched
    rwa [hlooked.waiting, hlooked.skippedWaiting] at hmem
  -- a pass with the same entries keeps those of the running requests and has no others
  have hentries : ∀ r : Pass σ, r.running = q.running →
      r.numScheduledTokens = q.numScheduledTokens →
      r.scheduledSpecDecodeTokens = q.scheduledSpecDecodeTokens →
      (∀ id' ∈ p.running, p.KeepsEntry r id') ∧ ∀ id' drafts, id' ∉ p.running →
        r.scheduledSpecDecodeTokens.get? id' = some drafts →
        id' = id ∧ PaddedEntry cfg svc ctx id p r drafts := by
    intro r hrunning htokens hdrafts
    rw [hlooked.running] at hrunning
    rw [hlooked.tokens] at htokens
    rw [hlooked.drafts] at hdrafts
    constructor
    · intro id' hmem
      exact ⟨hrunning ▸ hmem, congrArg (·.get? id') htokens, congrArg (·.get? id') hdrafts⟩
    · intro id' drafts hnot hsome
      rw [hdrafts] at hsome
      obtain ⟨n, hn⟩ := h.drafted id' drafts hsome
      exact absurd (h.scheduled id' n hn) hnot
  cases hend with
  | stopped services =>
    obtain ⟨hkept, hpadded⟩ := hentries { q with services } rfl rfl rfl
    exact ⟨hq.withServices services, nofun, nofun, hkept, hpadded⟩
  | putAside _ haside =>
    obtain ⟨hkept, hpadded⟩ := hentries p' haside.running haside.tokens haside.drafts
    refine ⟨hq.putAside hhead' haside, ?_, ?_, hkept, hpadded⟩
    · intro _ id' hmem
      rw [haside.waiting, haside.skippedWaiting] at hmem
      obtain ⟨hmem, hne⟩ := hleft id' hmem
      rw [haside.request id' hne]
      exact hsame id' hmem hne
    · intro _
      rw [haside.waiting, haside.skippedWaiting]
      omega
  | admitted _ cached plan padded hadmissible hadmitted hpadded =>
    obtain ⟨hkept, hnone⟩ := hentries q rfl rfl rfl
    have hne : ∀ id' ∈ p.running, id' ≠ id := by
      intro id' hmem heq
      exact h.queues.not_mem_queued hmem (heq ▸ hid)
    have hdrafts := hadmitted.get?_drafts (hq.nothing_yet hid').2
    refine ⟨hq.admitted hhead' hadmissible hadmitted, ?_, ?_, ?_, ?_⟩
    · intro _ id' hmem
      rw [hadmitted.waiting, hadmitted.skippedWaiting] at hmem
      obtain ⟨hmem, hne⟩ := hleft id' hmem
      rw [hadmitted.request id' hne]
      exact hsame id' hmem hne
    · intro _
      rw [hadmitted.waiting, hadmitted.skippedWaiting]
      omega
    · intro id' hmem
      obtain ⟨hrunning, htokens, hsamedrafts⟩ := hkept id' hmem
      refine ⟨?_, ?_, ?_⟩
      · rw [hadmitted.running]
        exact List.mem_append_left _ hrunning
      · rw [hadmitted.tokens, Keyed.get?_set, if_neg (hne id' hmem), htokens]
      · rw [hdrafts, if_neg (hne id' hmem), hsamedrafts]
    · intro id' drafts hnot hsome
      rw [hdrafts] at hsome
      split_ifs at hsome with heq hpad
      · obtain ⟨looked, n, hadmission⟩ := hpadded hpad
        refine ⟨heq, cached, looked, n, plan, hadmission, ?_, (Option.some.inj hsome).symm⟩
        rw [hadmitted.tokens, Keyed.get?_set, if_pos rfl]
      · obtain ⟨hid'', -⟩ := hnone id' drafts hnot hsome
        exact absurd hid'' heq

def Flow.visits {α : Type} (rest : List α) : Flow → List α
  | .next => rest
  | .stop => []

/-- The turns of the loop, each with the pass it starts in. -/
def waitingVisits (cfg : Config) (svc : Services σ) (ctx : StepContext) :
    ℕ → Pass σ → List (RequestId × Pass σ)
  | 0, _ => []
  | fuel + 1, p =>
    match p.selectWaitingQueue cfg svc with
    | none => []
    | some (fromSkipped, id) =>
      if p.tokenBudget ≤ 0 then []
      else if (cfg.maxNumRunningReqs : ℤ) ≤ p.running.length + p.numWaitingForStreamingInput then []
      else
        (id, p) ::
          match waitingTurn cfg svc ctx fromSkipped id p with
          | .ok (flow, p') => flow.visits (waitingVisits cfg svc ctx fuel p')
          | .error _ => []

theorem waitingVisits_cons {fuel : ℕ} {p q : Pass σ} {fromSkipped : Bool} {id : RequestId}
    {flow : Flow} (hselect : p.selectWaitingQueue cfg svc = some (fromSkipped, id))
    (hbudget : ¬ p.tokenBudget ≤ 0)
    (hslots : ¬ (cfg.maxNumRunningReqs : ℤ) ≤ p.running.length + p.numWaitingForStreamingInput)
    (hturn : waitingTurn cfg svc ctx fromSkipped id p = .ok (flow, q)) :
    waitingVisits cfg svc ctx (fuel + 1) p =
      (id, p) :: flow.visits (waitingVisits cfg svc ctx fuel q) := by
  rw [waitingVisits, hselect]
  dsimp only
  rw [if_neg hbudget, if_neg hslots, hturn]

/-- What the loop keeps, and what it adds: the entries of the padded admissions. -/
structure LoopKeeps (cfg : Config) (svc : Services σ) (ctx : StepContext) (s₀ : State σ)
    (fuel : ℕ) (p p' : Pass σ) : Prop where
  inv : WaitInv cfg ctx s₀ p'
  kept : ∀ id ∈ p.running, p.KeepsEntry p' id
  padded : ∀ id drafts, id ∉ p.running → p'.scheduledSpecDecodeTokens.get? id = some drafts →
    ∃ visit ∈ waitingVisits cfg svc ctx fuel p, visit.1 = id ∧
      PaddedEntry cfg svc ctx id visit.2 p' drafts
  admits : ∀ visit ∈ waitingVisits cfg svc ctx fuel p, ∀ cached q n plan,
    PaddedAdmission cfg svc ctx visit.1 visit.2 cached q n plan → visit.1 ∉ p.running ∧
      p'.numScheduledTokens.get? visit.1 = some plan.numNewTokens ∧
      p'.scheduledSpecDecodeTokens.get? visit.1 =
        some (List.replicate cfg.numSpecTokens DraftToken.placeholder)

theorem LoopKeeps.refl {fuel : ℕ} {p : Pass σ} (h : WaitInv cfg ctx s₀ p)
    (hvisits : waitingVisits cfg svc ctx fuel p = []) : LoopKeeps cfg svc ctx s₀ fuel p p := by
  refine ⟨h, fun id hid => ⟨hid, rfl, rfl⟩, ?_, ?_⟩
  · intro id drafts hnot hsome
    obtain ⟨n, hn⟩ := h.drafted id drafts hsome
    exact absurd (h.scheduled id n hn) hnot
  · rw [hvisits]
    exact List.forall_mem_nil _

theorem LoopKeeps.cons {fuel : ℕ} {p q p' : Pass σ} {id : RequestId}
    (hq : TurnKeeps cfg svc ctx s₀ id p .next q)
    (hpadded : ∀ cached looked n plan, PaddedAdmission cfg svc ctx id p cached looked n plan →
      id ∉ p.running ∧ id ∈ q.running ∧ q.numScheduledTokens.get? id = some plan.numNewTokens ∧
        q.scheduledSpecDecodeTokens.get? id =
          some (List.replicate cfg.numSpecTokens DraftToken.placeholder))
    (hvisits : waitingVisits cfg svc ctx (fuel + 1) p = (id, p) :: waitingVisits cfg svc ctx fuel q)
    (hrest : LoopKeeps cfg svc ctx s₀ fuel q p') :
    LoopKeeps cfg svc ctx s₀ (fuel + 1) p p' := by
  refine ⟨hrest.inv, ?_, ?_, ?_⟩
  · intro id' hid'
    obtain ⟨hrunning, htokens, hdrafts⟩ := hq.kept id' hid'
    obtain ⟨hrunning', htokens', hdrafts'⟩ := hrest.kept id' hrunning
    exact ⟨hrunning', htokens'.trans htokens, hdrafts'.trans hdrafts⟩
  · intro id' drafts hnot hsome
    rw [hvisits]
    by_cases hid' : id' ∈ q.running
    · obtain ⟨-, htokens, hdrafts⟩ := hrest.kept id' hid'
      obtain ⟨rfl, cached, looked, n, plan, hadmission, hentry, hplaceholders⟩ :=
        hq.padded id' drafts hnot (hdrafts.symm.trans hsome)
      exact ⟨(id', p), List.mem_cons_self, rfl, cached, looked, n, plan, hadmission,
        htokens.trans hentry, hplaceholders⟩
    · obtain ⟨visit, hvisit, hentry⟩ := hrest.padded id' drafts hid' hsome
      exact ⟨visit, List.mem_cons_of_mem _ hvisit, hentry⟩
  · rw [hvisits, List.forall_mem_cons]
    constructor
    · intro cached looked n plan hadmission
      obtain ⟨hnot, hid', htokens, hdrafts⟩ := hpadded cached looked n plan hadmission
      obtain ⟨-, htokens', hdrafts'⟩ := hrest.kept id hid'
      exact ⟨hnot, htokens'.trans htokens, hdrafts'.trans hdrafts⟩
    · intro visit hvisit cached looked n plan hadmission
      obtain ⟨hnot, hentry⟩ := hrest.admits visit hvisit cached looked n plan hadmission
      exact ⟨fun hid' => hnot (hq.kept visit.1 hid').1, hentry⟩

theorem waitingLoop_spec {fuel : ℕ} {p p' : Pass σ} (h : WaitInv cfg ctx s₀ p)
    (huntouched : Untouched s₀ p) (hloop : waitingLoop cfg svc ctx fuel p = .ok p') :
    LoopKeeps cfg svc ctx s₀ fuel p p' := by
  induction fuel generalizing p with
  | zero =>
    cases hloop
    exact .refl h rfl
  | succ fuel ih =>
    rw [waitingLoop] at hloop
    cases hselect : p.selectWaitingQueue cfg svc with
    | none =>
      rw [hselect] at hloop
      cases hloop
      exact .refl h (by rw [waitingVisits, hselect])
    | some selected =>
      obtain ⟨fromSkipped, id⟩ := selected
      rw [hselect] at hloop
      dsimp only at hloop
      split_ifs at hloop with hbudget hslots
      · cases hloop
        exact .refl h (by rw [waitingVisits, hselect]; exact if_pos hbudget)
      · cases hloop
        exact .refl h (by rw [waitingVisits, hselect]; exact (if_neg hbudget).trans (if_pos hslots))
      · simp only [bind_eq_ok] at hloop
        obtain ⟨⟨flow, q⟩, hturn, hloop⟩ := hloop
        have hhead := selectWaitingQueue_spec hselect
        have hq := waitingTurn_spec h huntouched hhead hturn
        have hvisits : waitingVisits cfg svc ctx (fuel + 1) p = _ :=
          waitingVisits_cons hselect hbudget hslots hturn
        have hid : id ∉ p.running := by
          intro hid
          apply h.queues.not_mem_queued hid
          exact List.mem_append_left _ (mem_queues_of_head hhead)
        have hpadded : ∀ cached looked n plan,
            PaddedAdmission cfg svc ctx id p cached looked n plan → flow = .next ∧
              id ∉ p.running ∧ id ∈ q.running ∧
              q.numScheduledTokens.get? id = some plan.numNewTokens ∧
              q.scheduledSpecDecodeTokens.get? id =
                some (List.replicate cfg.numSpecTokens DraftToken.placeholder) := by
          intro cached looked n plan hadmission
          obtain ⟨hflow, hrunning, hentry⟩ := hadmission.admitted hturn
          refine ⟨hflow, hid, ?_, hentry⟩
          rw [hrunning]
          exact List.mem_append_right _ (List.mem_singleton_self id)
        cases flow with
        | next =>
          have hrest := ih hq.inv (hq.untouched rfl) hloop
          apply LoopKeeps.cons hq _ hvisits hrest
          intro cached looked n plan hadmission
          exact (hpadded cached looked n plan hadmission).2
        | stop =>
          cases hloop
          refine ⟨hq.inv, hq.kept, ?_, ?_⟩
          · intro id' drafts hnot hsome
            obtain ⟨rfl, hentry⟩ := hq.padded id' drafts hnot hsome
            rw [hvisits]
            exact ⟨(id', p), List.mem_cons_self, rfl, hentry⟩
          · rw [hvisits, List.forall_mem_cons]
            refine ⟨?_, List.forall_mem_nil _⟩
            intro cached looked n plan hadmission
            have hflow := (hpadded cached looked n plan hadmission).1
            cases hflow

theorem waitingLoop_fuel {fuel more : ℕ} {p : Pass σ} (h : WaitInv cfg ctx s₀ p)
    (huntouched : Untouched s₀ p) (hfuel : p.waiting.length + p.skippedWaiting.length ≤ fuel) :
    waitingLoop cfg svc ctx (fuel + more) p = waitingLoop cfg svc ctx fuel p := by
  induction fuel generalizing p with
  | zero =>
    have hempty : p.selectWaitingQueue cfg svc = none := by
      have hwaiting : p.waiting = [] := List.length_eq_zero_iff.mp (by omega)
      have hskipped : p.skippedWaiting = [] := List.length_eq_zero_iff.mp (by omega)
      unfold State.selectWaitingQueue
      rw [hwaiting, hskipped]
    cases more with
    | zero => rfl
    | succ more => simp only [waitingLoop, hempty]
  | succ fuel ih =>
    rw [Nat.add_right_comm, waitingLoop, waitingLoop]
    cases hselect : p.selectWaitingQueue cfg svc with
    | none => rfl
    | some selected =>
      obtain ⟨fromSkipped, id⟩ := selected
      dsimp only
      split_ifs with hbudget hslots
      · rfl
      · rfl
      · cases hturn : waitingTurn cfg svc ctx fromSkipped id p with
        | error e => rfl
        | ok turned =>
          obtain ⟨flow, q⟩ := turned
          have hq := waitingTurn_spec h huntouched (selectWaitingQueue_spec hselect) hturn
          cases flow with
          | next =>
            have hshorter := hq.shorter rfl
            have hleft : q.waiting.length + q.skippedWaiting.length ≤ fuel := by omega
            exact ih hq.inv (hq.untouched rfl) hleft
          | stop => rfl

end ChampionRuntime.Scheduler
