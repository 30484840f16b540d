import ChampionRuntime.Scheduler.WaitingQueue
import ChampionRuntime.Scheduler.RunningLoop

/-!
# The invariant of the loop over the waiting queues

What looking at a request may change, and what every turn is to keep.
-/
namespace ChampionRuntime.Scheduler

open Lib
open scoped List

variable {σ : Type} {cfg : Config} {svc : Services σ} {ctx : StepContext} {s₀ : State σ}

/-- What looking at a waiting request may change of it. -/
structure Request.LookedAt (r r' : Request) : Prop where
  queued : r.Queued → r'.Queued
  numTokens : r'.numTokens = r.numTokens
  specTokenIds : r'.specTokenIds = r.specTokenIds
  le_computed : r.numComputedTokens ≤ r'.numComputedTokens + 1

theorem Request.LookedAt.refl (r : Request) : r.LookedAt r :=
  ⟨id, rfl, rfl, by omega⟩

/-- A state after looking at a request: the queues and the other requests stay. -/
structure State.Looked (s : State σ) (id : RequestId) (s' : State σ) : Prop where
  running : s'.running = s.running
  waiting : s'.waiting = s.waiting
  skippedWaiting : s'.skippedWaiting = s.skippedWaiting
  requests : s'.requests = s.requests
  request : ∀ id', id' ≠ id → s'.request id' = s.request id'
  lookedAt : (s.request id).LookedAt (s'.request id)

theorem State.Looked.refl (s : State σ) (id : RequestId) : s.Looked id s :=
  ⟨rfl, rfl, rfl, rfl, fun _ _ => rfl, .refl _⟩

theorem State.Looked.trans {s s' s'' : State σ} {id : RequestId} (h : s.Looked id s')
    (h' : s'.Looked id s'')
    (hcomputed : (s''.request id).numComputedTokens = (s'.request id).numComputedTokens) :
    s.Looked id s'' where
  running := h'.running.trans h.running
  waiting := h'.waiting.trans h.waiting
  skippedWaiting := h'.skippedWaiting.trans h.skippedWaiting
  requests := h'.requests.trans h.requests
  request id' hne := (h'.request id' hne).trans (h.request id' hne)
  lookedAt := {
    queued := fun hqueued => h'.lookedAt.queued (h.lookedAt.queued hqueued)
    numTokens := h'.lookedAt.numTokens.trans h.lookedAt.numTokens
    specTokenIds := h'.lookedAt.specTokenIds.trans h.lookedAt.specTokenIds
    le_computed := hcomputed ▸ h.lookedAt.le_computed }

theorem State.looked_setRequest (s : State σ) (id : RequestId) {r : Request}
    (h : (s.request id).LookedAt r) : s.Looked id (s.setRequest id r) :=
  ⟨rfl, rfl, rfl, rfl, fun _ hne => s.setRequest_of_ne hne r, (s.setRequest_self id r).symm ▸ h⟩

theorem Request.lookedAt_status (r : Request) {status : RequestStatus}
    (hrunning : status ≠ .running) (hfinished : status.isFinished = false) :
    r.LookedAt { r with status } where
  queued _ := ⟨hrunning, hfinished⟩
  numTokens := rfl
  specTokenIds := rfl
  le_computed := Int.le_add_one le_rfl

theorem updateWaitingForRemoteKv_looked (s : State σ) (id : RequestId) :
    s.Looked id (s.updateWaitingForRemoteKv id) := by
  unfold State.updateWaitingForRemoteKv
  dsimp only
  split_ifs with hfailed hfull
  · exact ⟨rfl, rfl, rfl, rfl, fun _ _ => rfl, .refl _⟩
  · refine ⟨rfl, rfl, rfl, rfl, fun _ hne => s.setRequest_of_ne hne _, ?_⟩
    dsimp only
    rw [s.setRequest_self]
    refine ⟨fun hqueued => ⟨hqueued.not_running, hqueued.not_finished⟩, rfl, rfl, ?_⟩
    dsimp only
    omega
  · exact ⟨rfl, rfl, rfl, rfl, fun _ _ => rfl, .refl _⟩

/-- Promotion changes the status, and takes a token from a fully loaded request. -/
theorem tryPromote_looked {s s' : State σ} {id : RequestId} {promoted : Bool}
    (h : s.tryPromote svc id = .ok (promoted, s')) : s.Looked id s' := by
  unfold State.tryPromote at h
  cases hstatus : (s.request id).status with
  | waitingForRemoteKvs =>
    simp only [hstatus] at h
    split_ifs at h with hwaits hpreempted
    · cases h
      apply (updateWaitingForRemoteKv_looked s id).trans
      · exact State.looked_setRequest _ id (Request.lookedAt_status _ (by decide) rfl)
      · rw [State.setRequest_self]
    · cases h
      apply (updateWaitingForRemoteKv_looked s id).trans
      · exact State.looked_setRequest _ id (Request.lookedAt_status _ (by decide) rfl)
      · rw [State.setRequest_self]
    · cases h
      exact .refl _ _
  | waitingForStructuredOutputGrammar =>
    simp only [hstatus] at h
    split at h
    · cases h
      exact .refl _ _
    · cases h
      exact ⟨rfl, rfl, rfl, rfl, fun _ _ => rfl, .refl _⟩
    · cases h
      exact State.looked_setRequest s id (Request.lookedAt_status _ (by decide) rfl)
  | waitingForStreamingReq =>
    simp only [hstatus] at h
    split_ifs at h with hqueue
    cases h
    exact .refl _ _
  | _ => simp [hstatus] at h

/-- A pass after looking at a request: what the step gave stays, too. -/
structure Looked (p : Pass σ) (id : RequestId) (q : Pass σ) : Prop
    extends State.Looked p.toState id q.toState where
  stepSkippedWaiting : q.stepSkippedWaiting = p.stepSkippedWaiting
  tokens : q.numScheduledTokens = p.numScheduledTokens
  drafts : q.scheduledSpecDecodeTokens = p.scheduledSpecDecodeTokens

theorem lookupComputedTokens_spec {p q : Pass σ} {id : RequestId} {cached : Option CachedTokens}
    (h : lookupComputedTokens cfg svc p id = .ok (cached, q)) :
    Looked p id q ∧ (q.request id).numComputedTokens = (p.request id).numComputedTokens ∧
      ∀ c, cached = some c → (p.request id).numComputedTokens ≤ c.numComputedTokens := by
  unfold lookupComputedTokens at h
  dsimp only at h
  by_cases hcomputed : (p.request id).numComputedTokens ≠ 0
  · rw [if_pos hcomputed] at h
    cases h
    refine ⟨⟨.refl _ _, rfl, rfl, rfl⟩, rfl, ?_⟩
    intro c hc
    cases hc
    exact le_rfl
  · rw [if_neg hcomputed] at h
    generalize cachedHits cfg svc id (p.request id) p.services = looked at h
    obtain ⟨hits, boundary, services⟩ := looked
    have hlooked : ∀ services, Looked p id { p with
        services
        request := Function.update p.request id
          { p.request id with sharedPrefixBoundary := boundary } } := by
      intro services
      refine ⟨⟨rfl, rfl, rfl, rfl, fun _ hne => Function.update_of_ne hne _ _, ?_⟩, rfl, rfl, rfl⟩
      dsimp only
      rw [Function.update_self]
      exact ⟨fun hqueued => ⟨hqueued.not_running, hqueued.not_finished⟩, rfl, rfl,
        Int.le_add_one le_rfl⟩
    have hself : (Function.update p.request id { p.request id with
        sharedPrefixBoundary := (boundary : ℤ) } id).numComputedTokens =
          (p.request id).numComputedTokens := by
      rw [Function.update_self]
    cases hits with
    | none =>
      cases h
      exact ⟨hlooked services, hself, fun c hc => by cases hc⟩
    | some found =>
      obtain ⟨numLocal, numExternal, loadKvAsync⟩ := found
      simp only [bind_eq_ok] at h
      obtain ⟨-, -, h⟩ := h
      split_ifs at h
      all_goals
        cases h
        refine ⟨hlooked _, hself, ?_⟩
        intro c hc
      all_goals first
        | (cases hc
           exact (not_not.mp hcomputed).le.trans (Int.natCast_nonneg _))
        | cases hc

theorem lookWaiting_spec {p q : Pass σ} {id : RequestId} {cached : Option CachedTokens}
    (h : lookWaiting cfg svc id p = .ok (cached, q)) :
    Looked p id q ∧
      ∀ c, cached = some c → (q.request id).numComputedTokens ≤ c.numComputedTokens := by
  simp only [lookWaiting, bind_eq_ok] at h
  obtain ⟨⟨schedulable, s⟩, hpromote, h⟩ := h
  have hlooked : p.toState.Looked id s := by
    unfold State.promoteBlocked at hpromote
    split_ifs at hpromote with hblocked
    · exact tryPromote_looked hpromote
    · cases hpromote
      exact .refl _ _
  dsimp only at h
  split_ifs at h with hskip
  · cases h
    exact ⟨⟨hlooked, rfl, rfl, rfl⟩, fun c hc => by cases hc⟩
  · obtain ⟨hlookup, hcomputed, hfrom⟩ := lookupComputedTokens_spec h
    refine ⟨⟨hlooked.trans hlookup.toLooked hcomputed, hlookup.stepSkippedWaiting, hlookup.tokens,
      hlookup.drafts⟩, ?_⟩
    intro c hc
    rw [hcomputed]
    exact hfrom c hc

/-- The invariant of the loop over the waiting queues. `s₀` is the state the step began in:
its running requests still run, and those scheduled went through the gate. -/
structure WaitInv (cfg : Config) (ctx : StepContext) (s₀ : State σ) (p : Pass σ) : Prop
    extends PassInv p where
  old : ∀ id ∈ s₀.running, id ∈ p.running
  ungated : cfg.enableDecodeAwarePrefill = true → ∀ id ∈ s₀.running, ∀ n,
    p.numScheduledTokens.get? id = some n → isLongPrefillRequest cfg (s₀.request id) = true →
    id ∈ ctx.selectedLongPrefillIds
  since : ∀ id n, p.numScheduledTokens.get? id = some n →
    (s₀.request id).numComputedTokens ≤ (p.request id).numComputedTokens + 1 ∧
      (cfg.numSampledTokensPerStep = 0 → draftsOf p.scheduledSpecDecodeTokens id ≠ [] →
        (s₀.request id).numComputedTokens ≤ (p.request id).numComputedTokens)

/-- The requests in the queues are as they were when the step began. -/
def Untouched (s₀ : State σ) (p : Pass σ) : Prop :=
  ∀ id ∈ p.waiting ++ p.skippedWaiting, p.request id = s₀.request id

theorem selectWaitingQueue_spec {s : State σ} {fromSkipped : Bool} {id : RequestId}
    (h : s.selectWaitingQueue cfg svc = some (fromSkipped, id)) :
    if fromSkipped then s.skippedWaiting = id :: s.skippedWaiting.tail
    else s.waiting = id :: s.waiting.tail := by
  unfold State.selectWaitingQueue at h
  split at h
  · cases h
  · rename_i hskipped
    cases h
    simp [hskipped]
  · rename_i hwaiting _
    cases h
    simp [hwaiting]
  · rename_i hskipped
    cases h
    simp [hskipped]
  · rename_i hwaiting hskipped
    split_ifs at h
    · cases h
      simp [hwaiting]
    · cases h
      simp [hskipped]

theorem popRequest_perm {p : Pass σ} {fromSkipped : Bool} {id : RequestId}
    (hhead : if fromSkipped then p.skippedWaiting = id :: p.skippedWaiting.tail
      else p.waiting = id :: p.waiting.tail) (aside : List RequestId) :
    p.queued aside ~ id :: (p.popRequest fromSkipped).queued aside := by
  unfold State.queued Pass.popRequest
  cases fromSkipped with
  | true =>
    rw [if_pos rfl] at hhead ⊢
    dsimp only
    rw [hhead, List.tail_cons, List.append_assoc, List.append_assoc]
    exact List.perm_middle
  | false =>
    rw [if_neg Bool.false_ne_true] at hhead ⊢
    dsimp only
    rw [hhead, List.tail_cons]
    exact .refl _

theorem WaitInv.looked {p q : Pass σ} {id : RequestId} (h : WaitInv cfg ctx s₀ p)
    (hid : id ∈ p.queued p.stepSkippedWaiting) (hq : Looked p id q) : WaitInv cfg ctx s₀ q := by
  have hne : ∀ id' ∈ p.running, id' ≠ id := by
    intro id' hid' heq
    exact h.queues.not_mem_queued hid' (heq ▸ hid)
  refine ⟨⟨?_, ?_, ?_⟩, ?_, ?_, ?_⟩
  · rw [hq.stepSkippedWaiting]
    apply h.queues.stay hq.running hq.waiting hq.skippedWaiting
    · intro id' hid'
      rwa [hq.requests]
    · intro id' hid'
      rw [hq.request id' (hne id' hid')]
      exact h.queues.running id' hid'
    · intro id' hid'
      by_cases heq : id' = id
      · rw [heq]
        exact hq.lookedAt.queued (h.queues.queued id hid)
      · rw [hq.request id' heq]
        exact h.queues.queued id' hid'
  · rw [hq.tokens, hq.running]
    exact h.scheduled
  · rw [hq.tokens, hq.drafts]
    exact h.drafted
  · rw [hq.running]
    exact h.old
  · rw [hq.tokens]
    exact h.ungated
  · intro id' n hn
    rw [hq.tokens] at hn
    rw [hq.drafts, hq.request id' (hne id' (h.scheduled id' n hn))]
    exact h.since id' n hn

end ChampionRuntime.Scheduler
