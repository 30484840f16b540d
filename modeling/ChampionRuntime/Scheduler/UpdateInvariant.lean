import ChampionRuntime.Scheduler.Upkeep

/-!
# What the update of a step keeps

A failed load takes computed tokens from a request, and no more. A request that takes its
output goes on as it stands, or stops: then it is freed, or waits for more input.
-/
namespace ChampionRuntime.Scheduler

open Lib
open scoped List

variable {σ : Type} {cfg : Config} {svc : Services σ}

/-- Requests lost computed tokens; nothing else that the queues rest on changed. -/
structure State.LoadsFailed (s s' : State σ) : Prop where
  running : s'.running = s.running
  waiting : s'.waiting = s.waiting
  skippedWaiting : s'.skippedWaiting = s.skippedWaiting
  requests : s'.requests = s.requests
  truncated : ∀ id, ∃ computed, s'.request id = { s.request id with numComputedTokens := computed }

theorem State.LoadsFailed.refl (s : State σ) : s.LoadsFailed s :=
  ⟨rfl, rfl, rfl, rfl, fun _ => ⟨_, rfl⟩⟩

theorem State.LoadsFailed.trans {s t s' : State σ} (h : s.LoadsFailed t) (h' : t.LoadsFailed s') :
    s.LoadsFailed s' where
  running := h'.running.trans h.running
  waiting := h'.waiting.trans h.waiting
  skippedWaiting := h'.skippedWaiting.trans h.skippedWaiting
  requests := h'.requests.trans h.requests
  truncated id := by
    obtain ⟨computed, hfirst⟩ := h.truncated id
    obtain ⟨computed', hsecond⟩ := h'.truncated id
    exact ⟨computed', by rw [hsecond, hfirst]⟩

variable (cfg svc)

theorem truncateInvalid_loadsFailed (invalid : List ℕ) (tokens : Dict RequestId ℤ)
    (p : List RequestId × List ℕ × State σ) (id : RequestId) :
    p.2.2.LoadsFailed (truncateInvalid cfg svc invalid tokens p id).2.2 := by
  unfold truncateInvalid
  dsimp only
  split_ifs
  · exact .refl p.2.2
  · refine ⟨rfl, rfl, rfl, rfl, fun id' => ?_⟩
    by_cases heq : id' = id
    · rw [heq, State.setRequest_self]
      exact ⟨_, rfl⟩
    · rw [p.2.2.setRequest_of_ne heq]
      exact ⟨_, rfl⟩

theorem foldl_truncateInvalid_loadsFailed (invalid : List ℕ) (tokens : Dict RequestId ℤ)
    (ids : List RequestId) (p : List RequestId × List ℕ × State σ) :
    p.2.2.LoadsFailed (ids.foldl (truncateInvalid cfg svc invalid tokens) p).2.2 := by
  induction ids generalizing p with
  | nil => exact .refl p.2.2
  | cons id ids ih =>
    rw [List.foldl_cons]
    exact (truncateInvalid_loadsFailed cfg svc invalid tokens p id).trans (ih _)

variable {cfg svc}

theorem handleInvalidBlocks_spec {invalid : List ℕ} {tokens : Dict RequestId ℤ}
    {failed : List RequestId} {s s' : State σ}
    (h : handleInvalidBlocks cfg svc invalid tokens s = (failed, s')) : s.LoadsFailed s' := by
  unfold handleInvalidBlocks at h
  dsimp only at h
  generalize hasync : (s.skippedWaiting.filter fun id =>
    (s.request id).status = .waitingForRemoteKvs).foldl (truncateInvalid cfg svc invalid tokens)
      ([], [], s) = async at h
  have ht : s.LoadsFailed async.2.2 := by
    rw [← hasync]
    exact foldl_truncateInvalid_loadsFailed cfg svc invalid tokens _ ([], [], s)
  have hu := ht.trans (foldl_truncateInvalid_loadsFailed cfg svc invalid tokens
    async.2.2.running ([], [], async.2.2))
  split_ifs at h
  · cases h
    exact ⟨hu.running, hu.waiting, hu.skippedWaiting, hu.requests, hu.truncated⟩
  · cases h
    exact hu

/-- What the output makes of a request: one that does not stop keeps its status. -/
structure Request.Received (stopped : Bool) (r r' : Request) : Prop where
  computed : r'.numComputedTokens = r.numComputedTokens
  status : stopped = false → r'.status = r.status

theorem updateRequestWithOutput_spec (generated : List ℤ) (r : Request) :
    r.Received (updateRequestWithOutput cfg svc generated r).2.1
      (updateRequestWithOutput cfg svc generated r).2.2 := by
  induction generated generalizing r with
  | nil => exact ⟨rfl, fun _ => rfl⟩
  | cons token generated ih =>
    rw [updateRequestWithOutput]
    dsimp only
    split
    · exact ⟨rfl, nofun⟩
    · obtain ⟨hcomputed, hstatus⟩ := ih
        { r with numTokens := r.numTokens + 1, outputTokenIds := r.outputTokenIds ++ [token] }
      exact ⟨hcomputed, hstatus⟩

theorem appendOutput_spec (cfg : Config) (svc : Services σ) (mo : ModelRunnerOutput)
    (id : RequestId) (generated : List ℤ) (r : Request) :
    r.Received (appendOutput cfg svc mo id generated r).2.1
      (appendOutput cfg svc mo id generated r).2.2 := by
  unfold appendOutput
  split_ifs
  · exact updateRequestWithOutput_spec generated r
  · exact ⟨rfl, nofun⟩
  · exact ⟨rfl, fun _ => rfl⟩

theorem receiveOutput_spec {mo : ModelRunnerOutput} {id : RequestId} {generated : List ℤ}
    {r r' : Request} {s s' : σ} {stopped : Bool}
    (h : receiveOutput cfg svc mo id generated r s = (stopped, r', s')) : r.Received stopped r' := by
  have hreceived := appendOutput_spec cfg svc mo id generated r
  unfold receiveOutput at h
  dsimp only at h
  by_cases hadvance : (appendOutput cfg svc mo id generated r).1 ≠ [] ∧
      svc.shouldAdvance s id (appendOutput cfg svc mo id generated r).2.2 = true
  · rw [if_pos hadvance] at h
    split_ifs at h
    · cases h
      exact hreceived
    · cases h
      exact ⟨hreceived.computed, nofun⟩
  · rw [if_neg hadvance] at h
    cases h
    exact hreceived

inductive State.Stopped (s : State σ) (id : RequestId) (s' : State σ) : Prop
  | freed (honly : s.OnlyAt id s') (hrequests : ∀ id' ∈ s'.requests, id' ∈ s.requests)
  | waits (hrunning : s'.running = s.running) (hrequests : s'.requests = s.requests)
      (hother : ∀ id', id' ≠ id → s'.request id' = s.request id')
      (hqueued : s'.queued [] ~ id :: s.queued [])
      (hid : (s'.request id).Queued)

theorem stopped_of_enqueue {s t : State σ} {id : RequestId} (ht : s.OnlyAt id t)
    (hrequests : t.requests = s.requests)
    (hid : (t.request id).Queued) :
    s.Stopped id (t.enqueueWaitingRequest svc id) := by
  obtain ⟨hrunning, hsame, hrequest⟩ := enqueueWaitingRequest_else svc t id
  have hqueued : t.queued [] = s.queued [] := by
    unfold State.queued
    rw [ht.waiting, ht.skippedWaiting]
  apply State.Stopped.waits
  · exact hrunning.trans ht.running
  · exact hsame.trans hrequests
  · intro id' hne
    rw [hrequest]
    exact ht.request id' hne
  · rw [← hqueued]
    exact enqueueWaitingRequest_perm svc t id
  · rw [hrequest]
    exact hid

theorem handleStoppedRequest_stopped (svc : Services σ) (s : State σ) (id : RequestId) :
    s.Stopped id (s.handleStoppedRequest svc id) := by
  unfold State.handleStoppedRequest
  dsimp only
  by_cases hresumable : (s.request id).resumable = false
  · rw [if_pos hresumable]
    exact .freed (freeRequest_onlyAt svc s id false) (fun _ hid => mem_freeRequest hid)
  · rw [if_neg hresumable]
    cases (s.request id).streamingQueue.getD [] with
    | nil =>
      have honly := setRequest_onlyAt s id
        { s.request id with status := RequestStatus.waitingForStreamingReq }
      apply stopped_of_enqueue
      · exact ⟨rfl, rfl, rfl, fun _ _ hid => hid, honly.request⟩
      · rfl
      · show ((s.setRequest id _).request id).Queued
        rw [State.setRequest_self]
        exact ⟨by simp, rfl⟩
    | cons next queue =>
      have honly := setRequest_onlyAt s id { s.request id with streamingQueue := some queue }
      cases next with
      | none =>
        have hfree := freeRequest_onlyAt svc
          (s.setRequest id { s.request id with streamingQueue := some queue }) id false
        apply State.Stopped.freed
        · refine ⟨rfl, rfl, rfl, hfree.requests, ?_⟩
          intro id' hne
          exact (hfree.request id' hne).trans (honly.request id' hne)
        · exact fun _ hid => mem_freeRequest (s := s.setRequest id _) hid
      | some update =>
        apply stopped_of_enqueue
        · refine ⟨rfl, rfl, rfl, fun _ _ hid => hid, ?_⟩
          intro id' hne
          exact (State.setRequest_of_ne _ hne _).trans (honly.request id' hne)
        · rfl
        · show ((State.setRequest _ id _).request id).Queued
          rw [State.setRequest_self]
          exact Request.updateAsSession_queued _ update

theorem State.Stopped.moves {s s' : State σ} {id : RequestId} (h : s.Stopped id s') :
    s'.running = s.running ∧ ∀ id', id' ≠ id →
      (id' ∈ s'.requests ↔ id' ∈ s.requests) ∧ s'.request id' = s.request id' := by
  cases h with
  | freed honly hrequests =>
    exact ⟨honly.running, fun id' hne =>
      ⟨⟨hrequests id', honly.requests id' hne⟩, honly.request id' hne⟩⟩
  | waits hrunning hrequests hother _ _ =>
    exact ⟨hrunning, fun id' hne => ⟨by rw [hrequests], hother id' hne⟩⟩

end ChampionRuntime.Scheduler
