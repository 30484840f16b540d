import ChampionRuntime.Scheduler.UpdateLoop

/-!
# What stays as it is

The step counter, the turns of the long prefills and the acceptance-length controller
change in `schedule` and behind the loop of `update_from_output` only.
-/
namespace ChampionRuntime.Scheduler

open Lib

variable {σ : Type} {cfg : Config} {svc : Services σ}

/-- The step counter, the turns and the controller are those of `s`. -/
structure State.Steady (s s' : State σ) : Prop where
  currentStep : s'.currentStep = s.currentStep
  turns : s'.longPrefillLastScheduled = s.longPrefillLastScheduled
  controller : s'.acceptanceLengthController = s.acceptanceLengthController

namespace State

theorem Steady.refl (s : State σ) : s.Steady s := ⟨rfl, rfl, rfl⟩

theorem Steady.trans {s t s' : State σ} (h : s.Steady t) (h' : t.Steady s') : s.Steady s' where
  currentStep := h'.currentStep.trans h.currentStep
  turns := h'.turns.trans h.turns
  controller := h'.controller.trans h.controller

theorem steady_foldl {β : Type} {step : State σ → β → State σ} (hstep : ∀ (s : State σ) b, s.Steady (step s b))
    (bs : List β) (s : State σ) : s.Steady (bs.foldl step s) := by
  induction bs generalizing s with
  | nil => exact .refl s
  | cons b bs ih => exact (hstep s b).trans (ih (step s b))

theorem steady_foldlM {β : Type} {step : State σ → β → Except String (State σ)}
    (hstep : ∀ (s : State σ) b s', step s b = .ok s' → s.Steady s') {bs : List β} {s s' : State σ}
    (h : bs.foldlM step s = .ok s') : s.Steady s' := by
  apply foldlM_keeps (I := s.Steady) _ (.refl s) h
  intro s₁ b s₂ h₁ h₂
  exact h₁.trans (hstep s₁ b s₂ h₂)

theorem steady_setRequest (s : State σ) (id : RequestId) (r : Request) : s.Steady (s.setRequest id r) :=
  ⟨rfl, rfl, rfl⟩

theorem steady_enqueueWaitingRequest (svc : Services σ) (s : State σ) (id : RequestId) :
    s.Steady (s.enqueueWaitingRequest svc id) := by
  unfold enqueueWaitingRequest
  split_ifs
  · exact ⟨rfl, rfl, rfl⟩
  · exact ⟨rfl, rfl, rfl⟩

theorem steady_finishRequest (s : State σ) (status : RequestStatus) (id : RequestId) :
    s.Steady (s.finishRequest svc status id) := by
  unfold finishRequest freeRequest
  dsimp only
  split_ifs <;> exact ⟨rfl, rfl, rfl⟩

theorem steady_finishRequests (s : State σ) (ids : List RequestId) (status : RequestStatus) :
    s.Steady (s.finishRequests svc ids status) := by
  unfold finishRequests
  extract_lets valid running waiting streaming cleared
  have hcleared : s.Steady cleared := ⟨rfl, rfl, rfl⟩
  exact hcleared.trans (steady_foldl (fun s id => steady_finishRequest s status id) valid cleared)

theorem steady_updateRequestAsSession (s : State σ) (id : RequestId) (update : StreamingUpdate) :
    s.Steady (s.updateRequestAsSession id update) := ⟨rfl, rfl, rfl⟩

theorem steady_addRequest {s s' : State σ} {id : RequestId} {r : Request}
    {update : Option StreamingUpdate} (h : s.addRequest svc id r update = .ok s') : s.Steady s' := by
  unfold addRequest at h
  by_cases hknown : id ∈ s.requests
  · rw [if_pos hknown] at h
    by_cases hblocked : (s.request id).status ≠ .waitingForStreamingReq
    · rw [if_pos hblocked] at h
      cases hqueue : (s.request id).streamingQueue with
      | none =>
        rw [hqueue] at h
        cases h
      | some queue =>
        rw [hqueue] at h
        cases h
        exact steady_setRequest s id _
    · rw [if_neg hblocked] at h
      cases update with
      | none =>
        cases h
        exact steady_finishRequests s [id] .finishedAborted
      | some update =>
        cases h
        exact steady_updateRequestAsSession s id update
  · rw [if_neg hknown] at h
    cases h
    have henqueued := (steady_setRequest s id _).trans (steady_enqueueWaitingRequest svc
      (s.setRequest id (if r.resumable = true then { r with streamingQueue := some [] } else r)) id)
    exact ⟨henqueued.currentStep, henqueued.turns, henqueued.controller⟩

theorem steady_preemptRequest {s s' : State σ} {id : RequestId} {drop : Bool}
    (h : s.preemptRequest svc id drop = .ok s') : s.Steady s' := by
  simp only [preemptRequest, bind_eq_ok, pure_eq_ok] at h
  obtain ⟨-, -, rfl⟩ := h
  exact ⟨rfl, rfl, rfl⟩

theorem steady_preemptRunning {s s' : State σ} (h : s.preemptRunning svc = .ok s') : s.Steady s' := by
  have hcleared : s.Steady { s with running := [] } := ⟨rfl, rfl, rfl⟩
  exact hcleared.trans (steady_foldlM (fun _ _ _ hstep => steady_preemptRequest hstep) h)

theorem steady_updateDraftTokenIds (s : State σ) (drafts : List (RequestId × List DraftToken)) :
    s.Steady (s.updateDraftTokenIds svc drafts) := by
  unfold updateDraftTokenIds
  apply steady_foldl
  intro s p
  dsimp only
  split_ifs
  · exact .refl s
  · exact steady_setRequest s _ _
  · exact steady_setRequest s _ _
  · exact steady_setRequest s _ _

theorem steady_updateFromKvXferFinished {mo : ModelRunnerOutput} {s s' : State σ}
    (h : s.updateFromKvXferFinished mo = .ok s') : s.Steady s' := by
  have hfree : ∀ (s : State σ) id s', s.freeBlocks id = .ok s' → s.Steady s' := by
    intro s id s' h
    simp only [freeBlocks, bind_eq_ok, pure_eq_ok] at h
    obtain ⟨-, -, -, -, rfl⟩ := h
    exact ⟨rfl, rfl, rfl⟩
  simp only [updateFromKvXferFinished, bind_eq_ok] at h
  obtain ⟨t, hrecving, hsending⟩ := h
  have ht : s.Steady t := by
    apply steady_foldlM _ hrecving
    intro s id s' hstep
    split_ifs at hstep
    · cases hstep
      exact ⟨rfl, rfl, rfl⟩
    · exact hfree s id s' hstep
  exact ht.trans (steady_foldlM hfree hsending)

end State

open State

variable {out : SchedulerOutput} {mo : ModelRunnerOutput} {failed : List RequestId}

theorem steady_handleInvalidBlocks {invalid : List ℕ} {tokens : Dict RequestId ℤ} {s s' : State σ}
    (h : handleInvalidBlocks cfg svc invalid tokens s = (failed, s')) : s.Steady s' := by
  have hfold : ∀ (ids : List RequestId) (p : List RequestId × List ℕ × State σ),
      p.2.2.Steady (ids.foldl (truncateInvalid cfg svc invalid tokens) p).2.2 := by
    intro ids
    induction ids with
    | nil => exact fun p => .refl p.2.2
    | cons id ids ih =>
      intro p
      have hfirst : p.2.2.Steady (truncateInvalid cfg svc invalid tokens p id).2.2 := by
        unfold truncateInvalid
        dsimp only
        split_ifs
        · exact .refl p.2.2
        · exact steady_setRequest p.2.2 id _
      exact hfirst.trans (ih _)
  unfold handleInvalidBlocks at h
  dsimp only at h
  generalize hasync : (s.skippedWaiting.filter fun id =>
    (s.request id).status = .waitingForRemoteKvs).foldl (truncateInvalid cfg svc invalid tokens)
      ([], [], s) = async at h
  have ht : s.Steady async.2.2 := by
    rw [← hasync]
    exact hfold _ ([], [], s)
  have hu := ht.trans (hfold async.2.2.running ([], [], async.2.2))
  split_ifs at h
  · cases h
    exact ⟨hu.currentStep, hu.turns, hu.controller⟩
  · cases h
    exact hu

theorem steady_handleStoppedRequest (s : State σ) (id : RequestId) :
    s.Steady (s.handleStoppedRequest svc id) := by
  unfold handleStoppedRequest
  dsimp only
  split_ifs
  · exact ⟨rfl, rfl, rfl⟩
  · cases (s.request id).streamingQueue.getD [] with
    | nil =>
      have hset : s.Steady { s.setRequest id { s.request id with
            status := RequestStatus.waitingForStreamingReq } with
          numWaitingForStreamingInput := s.numWaitingForStreamingInput + 1 } := ⟨rfl, rfl, rfl⟩
      exact hset.trans (steady_enqueueWaitingRequest svc _ id)
    | cons next queue =>
      cases next with
      | none => exact ⟨rfl, rfl, rfl⟩
      | some update =>
        have hset : s.Steady ((s.setRequest id { s.request id with
            streamingQueue := some queue }).updateRequestAsSession id update) := ⟨rfl, rfl, rfl⟩
        exact hset.trans (steady_enqueueWaitingRequest svc _ id)

theorem steady_takeOutput (mo : ModelRunnerOutput) (id : RequestId) (generated : List ℤ)
    (u : UpdatePass σ) : u.toState.Steady (takeOutput cfg svc mo id generated u).toState := by
  unfold takeOutput
  extract_lets statusBefore
  generalize receiveOutput cfg svc mo id generated (u.request id) u.services = received
  obtain ⟨stopped, r, services⟩ := received
  have hset : u.toState.Steady { u.toState.setRequest id r with services } := ⟨rfl, rfl, rfl⟩
  dsimp only
  split_ifs
  · exact hset.trans (steady_handleStoppedRequest _ id)
  · exact hset.trans (steady_handleStoppedRequest _ id)
  · exact hset

variable (cfg) in
theorem steady_verifyDrafts (out : SchedulerOutput) (id : RequestId) (stale : Bool)
    (generated : List ℤ) (u : UpdatePass σ) :
    u.toState.Steady (verifyDrafts cfg out id stale generated u).toState := by
  obtain ⟨r, hr, -⟩ := verifyDrafts_else cfg out id stale generated u
  rw [hr]
  exact steady_setRequest u.toState id r

theorem steady_updateRequest {u u' : UpdatePass σ} {p : RequestId × ℤ}
    (h : updateRequest cfg svc out mo failed u p = .ok u') : u.toState.Steady u'.toState := by
  have hdrained := steady_setRequest u.toState p.1 ((u.request p.1).drain p.2)
  obtain ⟨-, hturn⟩ := updateRequest_turned h
  cases hturn with
  | gone _ => exact .refl _
  | passed _ _ => exact hdrained
  | silent _ _ _ => exact hdrained
  | received generated _ _ _ =>
    have hverified := steady_verifyDrafts cfg out p.1
      (decide (0 < (u.request p.1).numStaleOutputTokens)) generated (u.drained p)
    exact (hdrained.trans hverified).trans (steady_takeOutput mo p.1 generated _)

theorem steady_foldlM_updateRequest {rest : List (RequestId × ℤ)} {u u' : UpdatePass σ}
    (h : rest.foldlM (updateRequest cfg svc out mo failed) u = .ok u') :
    u.toState.Steady u'.toState := by
  induction rest generalizing u with
  | nil =>
    cases h
    exact .refl _
  | cons first rest ih =>
    rw [List.foldlM_cons, bind_eq_ok] at h
    obtain ⟨v, hfirst, h⟩ := h
    exact (steady_updateRequest hfirst).trans (ih h)

section Update

variable {s t s' : State σ} {u : UpdatePass σ} {update : Option Decoding.AcceptanceLengthUpdate}

theorem UpdateParts.steady_loop (h : UpdateParts cfg svc out mo s failed t u update s') :
    s.Steady u.toState := by
  have hloop : t.Steady u.toState := steady_foldlM_updateRequest h.loop
  have hloads := h.loads
  split_ifs at hloads
  · exact (steady_handleInvalidBlocks hloads).trans hloop
  · cases hloads
    exact hloop

theorem UpdateParts.steady_observed (h : UpdateParts cfg svc out mo s failed t u update s') :
    ∃ controller,
      u.observeBatch = .ok (update, { u.toState with acceptanceLengthController := controller }) ∧
      State.Steady { u.toState with acceptanceLengthController := controller } s' := by
  obtain ⟨controller, hobserve, errors, hfinished⟩ := h.observed
  have hclosed : State.Steady { u.toState with acceptanceLengthController := controller }
      (u.closed controller) := ⟨rfl, rfl, rfl⟩
  exact ⟨controller, hobserve, (hclosed.trans (steady_finishRequests _ errors _)).trans
    (steady_updateFromKvXferFinished hfinished)⟩

theorem UpdateParts.turns (h : UpdateParts cfg svc out mo s failed t u update s') :
    s'.currentStep = s.currentStep ∧ s'.longPrefillLastScheduled = s.longPrefillLastScheduled := by
  obtain ⟨controller, -, hobserved⟩ := h.steady_observed
  exact ⟨hobserved.currentStep.trans h.steady_loop.currentStep,
    hobserved.turns.trans h.steady_loop.turns⟩

end Update

end ChampionRuntime.Scheduler
