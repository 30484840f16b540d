import ChampionRuntime.Scheduler.Update
import ChampionRuntime.Scheduler.StepInvariant

/-!
# The invariant outside a step

Requests that come, finish, are preempted or get their drafts keep the invariant of the
queues.
-/
namespace ChampionRuntime.Scheduler

open Lib
open scoped List

variable {σ : Type} {cfg : Config} {svc : Services σ}

/-- Only the request `id` changes, and it may leave the dictionary. -/
structure State.OnlyAt (s : State σ) (id : RequestId) (s' : State σ) : Prop where
  running : s'.running = s.running
  waiting : s'.waiting = s.waiting
  skippedWaiting : s'.skippedWaiting = s.skippedWaiting
  requests : ∀ id', id' ≠ id → id' ∈ s.requests → id' ∈ s'.requests
  request : ∀ id', id' ≠ id → s'.request id' = s.request id'

theorem WellQueued.onlyAt {aside : List RequestId} {s s' : State σ} {id : RequestId}
    (h : WellQueued aside s) (hid : id ∉ s.running ++ s.queued aside) (hs : s.OnlyAt id s') :
    WellQueued aside s' := by
  have hne : ∀ id' ∈ s.running ++ s.queued aside, id' ≠ id := by
    intro id' hid' heq
    exact hid (heq ▸ hid')
  have hqueued : s'.queued aside = s.queued aside := by
    unfold State.queued
    rw [hs.waiting, hs.skippedWaiting]
  apply h.move
  · rw [hs.running, hqueued]
  · rw [hs.running, hqueued]
    intro id' hid'
    exact hs.requests id' (hne id' hid')
  · rw [hs.running]
    intro id' hid'
    rw [hs.request id' (hne id' (List.mem_append_left _ hid'))]
    exact h.running id' hid'
  · rw [hqueued]
    intro id' hid'
    rw [hs.request id' (hne id' (List.mem_append_right _ hid'))]
    exact h.queued id' hid'

theorem freeRequest_onlyAt (svc : Services σ) (s : State σ) (id : RequestId) (delayed : Bool) :
    s.OnlyAt id (s.freeRequest svc id delayed) := by
  refine ⟨rfl, rfl, rfl, ?_, fun _ _ => rfl⟩
  intro id' hne hid'
  unfold State.freeRequest
  dsimp only
  split_ifs
  · exact hid'
  · simpa using ⟨hid', hne⟩

theorem mem_freeRequest {s : State σ} {id id' : RequestId} {delayed : Bool}
    (h : id' ∈ (s.freeRequest svc id delayed).requests) : id' ∈ s.requests := by
  unfold State.freeRequest at h
  dsimp only at h
  split_ifs at h
  · exact h
  · exact List.mem_of_mem_filter h

theorem finishRequest_onlyAt (svc : Services σ) (s : State σ) (status : RequestStatus) (id : RequestId) :
    s.OnlyAt id (s.finishRequest svc status id) := by
  unfold State.finishRequest
  dsimp only
  split_ifs
  all_goals
    refine ⟨rfl, rfl, rfl, (freeRequest_onlyAt svc _ id _).requests, ?_⟩
    intro id' hne
    exact Function.update_of_ne hne _ _

theorem finishRequest_request (s : State σ) (status : RequestStatus) (id id' : RequestId) :
    (s.finishRequest svc status id).request id' =
      if id' = id then { s.request id with status } else s.request id' := by
  by_cases hid : id' = id
  · rw [if_pos hid, hid]
    unfold State.finishRequest
    dsimp only
    split_ifs
    all_goals exact Function.update_self _ _ _
  · rw [if_neg hid, (finishRequest_onlyAt svc s status id).request id' hid]

theorem finishRequest_requests {s : State σ} {status : RequestStatus} {id id' : RequestId}
    (h : id' ∈ (s.finishRequest svc status id).requests) : id' ∈ s.requests := by
  unfold State.finishRequest at h
  dsimp only at h
  split_ifs at h
  all_goals exact mem_freeRequest h

section Fold

variable (svc) (ids : List RequestId) (status : RequestStatus)

theorem foldl_finishRequest_request (s : State σ) (id : RequestId) :
    (ids.foldl (fun s id => s.finishRequest svc status id) s).request id =
      if id ∈ ids then { s.request id with status } else s.request id := by
  induction ids generalizing s with
  | nil => simp
  | cons first ids ih =>
    rw [List.foldl_cons, ih, finishRequest_request]
    by_cases hfirst : id = first
    · simp [hfirst]
    · simp [hfirst]

theorem foldl_finishRequest_requests {s : State σ} {id : RequestId}
    (h : id ∈ (ids.foldl (fun s id => s.finishRequest svc status id) s).requests) :
    id ∈ s.requests := by
  induction ids generalizing s with
  | nil => exact h
  | cons first ids ih => exact finishRequest_requests (ih h)

theorem foldl_finishRequest_spec {s : State σ} (h : WellQueued [] s)
    (hids : ∀ id ∈ ids, id ∉ s.running ++ s.queued []) :
    WellQueued [] (ids.foldl (fun s id => s.finishRequest svc status id) s) ∧
      (ids.foldl (fun s id => s.finishRequest svc status id) s).running = s.running := by
  induction ids generalizing s with
  | nil => exact ⟨h, rfl⟩
  | cons first ids ih =>
    obtain ⟨hfirst, hids⟩ := List.forall_mem_cons.mp hids
    have honly := finishRequest_onlyAt svc s status first
    have hqueues : (s.finishRequest svc status first).running ++
        (s.finishRequest svc status first).queued [] = s.running ++ s.queued [] := by
      unfold State.queued
      rw [honly.running, honly.waiting, honly.skippedWaiting]
    have hrest := ih (h.onlyAt hfirst honly) (fun id hid => hqueues ▸ hids id hid)
    exact ⟨hrest.1, hrest.2.trans honly.running⟩

end Fold

/-- Whether `finish_requests` finishes a request. -/
def State.Finishes (s : State σ) (ids : List RequestId) (id : RequestId) : Prop :=
  id ∈ ids ∧ id ∈ s.requests ∧ (s.request id).status.isFinished = false

instance (s : State σ) (ids : List RequestId) (id : RequestId) : Decidable (s.Finishes ids id) :=
  inferInstanceAs (Decidable (_ ∧ _ ∧ _))

section Finish

variable {s : State σ} {ids : List RequestId} {status : RequestStatus}

theorem finishRequests_request (s : State σ) (ids : List RequestId) (status : RequestStatus)
    (id : RequestId) : (s.finishRequests svc ids status).request id =
      if s.Finishes ids id then { s.request id with status } else s.request id := by
  unfold State.finishRequests
  dsimp only
  rw [foldl_finishRequest_request]
  by_cases hid : s.Finishes ids id
  · rw [if_pos hid, if_pos]
    simpa [State.Finishes] using hid
  · rw [if_neg hid, if_neg]
    simpa [State.Finishes] using hid

theorem finishRequests_requests {id : RequestId}
    (h : id ∈ (s.finishRequests svc ids status).requests) : id ∈ s.requests := by
  unfold State.finishRequests at h
  dsimp only at h
  have hcleared := foldl_finishRequest_requests svc _ _ h
  exact hcleared

theorem finishRequests_spec (h : WellQueued [] s) :
    WellQueued [] (s.finishRequests svc ids status) ∧
      ∀ id, id ∈ (s.finishRequests svc ids status).running ↔
        id ∈ s.running ∧ ¬ s.Finishes ids id := by
  unfold State.finishRequests
  extract_lets valid running waiting streaming cleared
  have hvalid : ∀ id, id ∈ valid ↔ s.Finishes ids id := by
    intro id
    simp [valid, State.Finishes]
  have hrunning : ∀ id ∈ s.running, id ∈ running ↔ id ∈ valid := by
    intro id hid
    simp [running, h.running id hid]
  have hwaiting : ∀ id ∈ s.queued [], id ∈ waiting ↔ id ∈ valid := by
    intro id hid
    simp [waiting, (h.queued id hid).not_running]
  have hqueued : ∀ id ∈ cleared.queued [], id ∈ s.queued [] ∧ id ∉ waiting := by
    intro id hid
    simp only [State.queued, cleared, List.append_nil, List.mem_append, List.mem_filter,
      decide_eq_true_eq] at hid ⊢
    tauto
  have hran : ∀ id ∈ cleared.running, id ∈ s.running ∧ id ∉ running := by
    intro id hid
    simpa [cleared] using hid
  have hcleared : WellQueued [] cleared := by
    apply h.move
    · apply List.Sublist.subperm
      apply List.Sublist.append List.filter_sublist
      simp only [State.queued, List.append_nil]
      exact List.Sublist.append List.filter_sublist List.filter_sublist
    · exact fun _ _ hid => hid
    · exact fun id hid => h.running id (hran id hid).1
    · exact fun id hid => h.queued id (hqueued id hid).1
  have hout : ∀ id ∈ valid, id ∉ cleared.running ++ cleared.queued [] := by
    intro id hid hmem
    rcases List.mem_append.mp hmem with hmem | hmem
    · obtain ⟨hin, hnot⟩ := hran id hmem
      exact hnot ((hrunning id hin).mpr hid)
    · obtain ⟨hin, hnot⟩ := hqueued id hmem
      exact hnot ((hwaiting id hin).mpr hid)
  obtain ⟨hkept, hsame⟩ := foldl_finishRequest_spec svc valid status hcleared hout
  refine ⟨hkept, fun id => ?_⟩
  rw [hsame]
  constructor
  · intro hid
    obtain ⟨hin, hnot⟩ := hran id hid
    rw [hrunning id hin, hvalid] at hnot
    exact ⟨hin, hnot⟩
  · rintro ⟨hin, hnot⟩
    rw [← hvalid, ← hrunning id hin] at hnot
    simpa [cleared] using ⟨hin, hnot⟩

end Finish

def Request.Fresh (r : Request) : Prop :=
  r.status = .waiting ∨ r.status = .waitingForStructuredOutputGrammar

theorem Request.Fresh.queued {r : Request} (h : r.Fresh) : r.Queued := by
  rcases h with hstatus | hstatus
  · exact ⟨by simp [hstatus], by simp [hstatus, RequestStatus.isFinished]⟩
  · exact ⟨by simp [hstatus], by simp [hstatus, RequestStatus.isFinished]⟩

theorem enqueueWaitingRequest_perm (svc : Services σ) (s : State σ) (id : RequestId) :
    (s.enqueueWaitingRequest svc id).queued [] ~ id :: s.queued [] := by
  unfold State.enqueueWaitingRequest State.queued
  rw [List.append_nil, List.append_nil]
  split_ifs
  · exact ((svc.queues.add_perm s.request id s.skippedWaiting).append_left _).trans List.perm_middle
  · exact (svc.queues.add_perm s.request id s.waiting).append_right _

theorem enqueueWaitingRequest_else (svc : Services σ) (s : State σ) (id : RequestId) :
    (s.enqueueWaitingRequest svc id).running = s.running ∧
      (s.enqueueWaitingRequest svc id).requests = s.requests ∧
      (s.enqueueWaitingRequest svc id).request = s.request := by
  unfold State.enqueueWaitingRequest
  split_ifs
  · exact ⟨rfl, rfl, rfl⟩
  · exact ⟨rfl, rfl, rfl⟩

theorem WellQueued.setQueued {s s' : State σ} {id : RequestId} (h : WellQueued [] s)
    (hs : s.OnlyAt id s') (hrequests : s'.requests = s.requests)
    (hrunning : id ∉ s.running) (hqueued : (s.request id).Queued → (s'.request id).Queued) :
    WellQueued [] s' := by
  apply h.stay hs.running hs.waiting hs.skippedWaiting
  · intro id' hid'
    rwa [hrequests]
  · intro id' hid'
    have hne : id' ≠ id := fun heq => hrunning (heq ▸ hid')
    rw [hs.request id' hne]
    exact h.running id' hid'
  · intro id' hid'
    by_cases heq : id' = id
    · rw [heq] at hid' ⊢
      exact hqueued (h.queued id hid')
    · rw [hs.request id' heq]
      exact h.queued id' hid'

theorem setRequest_onlyAt (s : State σ) (id : RequestId) (r : Request) :
    s.OnlyAt id (s.setRequest id r) :=
  ⟨rfl, rfl, rfl, fun _ _ hid => hid, fun _ hne => s.setRequest_of_ne hne r⟩

theorem Request.updateAsSession_queued (r : Request) (update : StreamingUpdate) :
    (r.updateAsSession update).Queued :=
  ⟨by simp [Request.updateAsSession], rfl⟩

theorem updateRequestAsSession_spec {s : State σ} {id : RequestId} (update : StreamingUpdate)
    (h : WellQueued [] s) (hid : id ∉ s.running) :
    WellQueued [] (s.updateRequestAsSession id update) := by
  have honly := setRequest_onlyAt s id ((s.request id).updateAsSession update)
  have hsame : s.OnlyAt id (s.updateRequestAsSession id update) :=
    ⟨rfl, rfl, rfl, fun _ _ hid => hid, honly.request⟩
  apply h.setQueued hsame rfl hid
  intro _
  have hself : (s.updateRequestAsSession id update).request id =
      (s.request id).updateAsSession update := s.setRequest_self id _
  rw [hself]
  exact (s.request id).updateAsSession_queued update

theorem WellQueued.enqueue {s s' : State σ} {id : RequestId} (h : WellQueued [] s)
    (hnew : id ∉ s.running ++ s.queued []) (hrunning : s'.running = s.running)
    (hqueued : s'.queued [] ~ id :: s.queued [])
    (hrequests : ∀ id' ∈ s'.running ++ s'.queued [], id' ∈ s'.requests)
    (hrequest : ∀ id', id' ≠ id → s'.request id' = s.request id')
    (hid : (s'.request id).Queued) : WellQueued [] s' := by
  have hne : ∀ id' ∈ s.running ++ s.queued [], id' ≠ id := by
    intro id' hid' heq
    exact hnew (heq ▸ hid')
  refine ⟨?_, hrequests, ?_, ?_⟩
  · rw [hrunning]
    apply (hqueued.append_left s.running).nodup_iff.mpr
    apply List.perm_middle.nodup_iff.mpr
    exact List.nodup_cons.mpr ⟨hnew, h.nodup⟩
  · rw [hrunning]
    intro id' hid'
    rw [hrequest id' (hne id' (List.mem_append_left _ hid'))]
    exact h.running id' hid'
  · intro id' hid'
    rcases List.mem_cons.mp (hqueued.mem_iff.mp hid') with heq | hold
    · rw [heq]
      exact hid
    · rw [hrequest id' (hne id' (List.mem_append_right _ hold))]
      exact h.queued id' hold

theorem addRequest_spec {s s' : State σ} {id : RequestId} {r : Request}
    {update : Option StreamingUpdate} (h : WellQueued [] s) (hfresh : r.Fresh)
    (hadd : s.addRequest svc id r update = .ok s') : WellQueued [] s' := by
  unfold State.addRequest at hadd
  by_cases hknown : id ∈ s.requests
  · rw [if_pos hknown] at hadd
    by_cases hblocked : (s.request id).status ≠ .waitingForStreamingReq
    · rw [if_pos hblocked] at hadd
      cases hqueue : (s.request id).streamingQueue with
      | none =>
        rw [hqueue] at hadd
        cases hadd
      | some queue =>
        rw [hqueue] at hadd
        cases hadd
        have honly := setRequest_onlyAt s id
          { s.request id with streamingQueue := some (queue ++ [update]) }
        apply h.stay
        · rfl
        · rfl
        · rfl
        · exact fun _ hid => hid
        · intro id' hid'
          have hstatus := h.running id' hid'
          by_cases heq : id' = id
          · rw [heq] at hstatus ⊢
            rw [State.setRequest_self]
            exact hstatus
          · rw [honly.request id' heq]
            exact hstatus
        · intro id' hid'
          have hqueued := h.queued id' hid'
          by_cases heq : id' = id
          · rw [heq] at hqueued ⊢
            rw [State.setRequest_self]
            exact ⟨hqueued.not_running, hqueued.not_finished⟩
          · rw [honly.request id' heq]
            exact hqueued
    · rw [if_neg hblocked] at hadd
      have hout : id ∉ s.running := by
        intro hid
        exact hblocked (by simp [h.running id hid])
      cases update with
      | none =>
        cases hadd
        exact (finishRequests_spec h).1
      | some update =>
        cases hadd
        exact updateRequestAsSession_spec update h hout
  · rw [if_neg hknown] at hadd
    generalize hr : (if r.resumable then { r with streamingQueue := some [] } else r) = r' at hadd
    have hqueued : r'.Queued := by
      rw [← hr]
      split_ifs
      · exact ⟨hfresh.queued.not_running, hfresh.queued.not_finished⟩
      · exact hfresh.queued
    obtain ⟨hrunning, -, hrequest⟩ := enqueueWaitingRequest_else svc (s.setRequest id r') id
    have hperm := enqueueWaitingRequest_perm svc (s.setRequest id r') id
    have hnew : id ∉ s.running ++ s.queued [] := fun hid => hknown (h.registered id hid)
    cases hadd
    apply h.enqueue hnew
    · exact hrunning
    · exact hperm
    · intro id' hid'
      have hmem : id' ∈ s.running ++ id :: s.queued [] := by
        rw [List.mem_append] at hid' ⊢
        exact hid'.imp (fun hid' => hrunning ▸ hid') (fun hid' => hperm.mem_iff.mp hid')
      rcases List.mem_cons.mp (List.perm_middle.mem_iff.mp hmem) with heq | hold
      · rw [heq]
        exact List.mem_cons_self
      · exact List.mem_cons_of_mem id (h.registered id' hold)
    · intro id' hne
      exact (congrFun hrequest id').trans (s.setRequest_of_ne hne r')
    · show ((State.enqueueWaitingRequest svc (s.setRequest id r') id).request id).Queued
      rw [hrequest, State.setRequest_self]
      exact hqueued

theorem preemptRequest_spec {s s' : State σ} {id : RequestId} (h : WellQueued [] s)
    (hid : id ∉ s.running ++ s.queued []) (hknown : id ∈ s.requests)
    (hpreempt : s.preemptRequest svc id true = .ok s') :
    WellQueued [] s' ∧ s'.running = s.running ∧ s'.queued [] ~ id :: s.queued [] ∧
      s'.requests = s.requests := by
  simp only [State.preemptRequest, bind_eq_ok, pure_eq_ok] at hpreempt
  obtain ⟨-, -, rfl⟩ := hpreempt
  have hperm := svc.queues.prepend_perm
    (s.setRequest id ((s.request id).preempt true)).request id s.waiting
  have hqueued : svc.queues.prepend (s.setRequest id ((s.request id).preempt true)).request id
      s.waiting ++ s.skippedWaiting ++ [] ~ id :: s.queued [] := by
    unfold State.queued
    rw [List.append_nil, List.append_nil]
    exact hperm.append_right _
  have hother : ∀ id', id' ≠ id →
      (s.setRequest id ((s.request id).preempt true)).request id' = s.request id' :=
    fun id' hne => s.setRequest_of_ne hne _
  refine ⟨?_, rfl, hqueued, rfl⟩
  apply h.enqueue hid
  · rfl
  · exact hqueued
  · intro id' hid'
    rcases List.mem_append.mp hid' with hid' | hid'
    · exact h.registered id' (List.mem_append_left _ hid')
    · rcases List.mem_cons.mp (hqueued.mem_iff.mp hid') with heq | hold
      · rw [heq]
        exact hknown
      · exact h.registered id' (List.mem_append_right _ hold)
  · exact hother
  · show ((s.setRequest id ((s.request id).preempt true)).request id).Queued
    rw [State.setRequest_self]
    exact ⟨by simp [Request.preempt], rfl⟩

theorem foldlM_preemptRequest_spec {ids : List RequestId} {s s' : State σ}
    (h : WellQueued [] s) (hnodup : ids.Nodup)
    (hids : ∀ id ∈ ids, id ∉ s.running ++ s.queued [] ∧ id ∈ s.requests)
    (hfold : ids.foldlM (fun s id => s.preemptRequest svc id true) s = .ok s') :
    WellQueued [] s' := by
  induction ids generalizing s with
  | nil =>
    cases hfold
    exact h
  | cons first ids ih =>
    rw [List.foldlM_cons, bind_eq_ok] at hfold
    obtain ⟨t, hfirst, hfold⟩ := hfold
    obtain ⟨hnew, hids⟩ := List.forall_mem_cons.mp hids
    obtain ⟨hfresh, hnodup⟩ := List.nodup_cons.mp hnodup
    obtain ⟨ht, hrunning, hqueued, hrequests⟩ := preemptRequest_spec h hnew.1 hnew.2 hfirst
    refine ih ht hnodup ?_ hfold
    intro id hid
    obtain ⟨hout, hknown⟩ := hids id hid
    have hne : id ≠ first := fun heq => hfresh (heq ▸ hid)
    refine ⟨?_, hrequests ▸ hknown⟩
    rw [hrunning, List.mem_append, hqueued.mem_iff, List.mem_cons]
    rw [List.mem_append] at hout
    tauto

theorem preemptRunning_spec {s s' : State σ} (h : WellQueued [] s)
    (hpreempt : s.preemptRunning svc = .ok s') : WellQueued [] s' := by
  have hcleared : WellQueued [] { s with running := [] } := by
    apply h.move
    · exact (List.sublist_append_right s.running _).subperm
    · exact fun _ _ hid => hid
    · exact nofun
    · exact h.queued
  apply foldlM_preemptRequest_spec hcleared (List.nodup_reverse.mpr h.nodup_running) _ hpreempt
  intro id hid
  rw [List.mem_reverse] at hid
  exact ⟨h.not_mem_queued hid, h.registered id (List.mem_append_left _ hid)⟩

theorem updateDraftTokenIds_spec {s : State σ} (drafts : List (RequestId × List DraftToken))
    (h : WellQueued [] s) : WellQueued [] (s.updateDraftTokenIds svc drafts) := by
  unfold State.updateDraftTokenIds
  induction drafts generalizing s with
  | nil => exact h
  | cons first drafts ih =>
    rw [List.foldl_cons]
    apply ih
    dsimp only
    have hset : ∀ ds, WellQueued []
        (s.setRequest first.1 { s.request first.1 with specTokenIds := ds }) := by
      intro ds
      apply h.stay
      · rfl
      · rfl
      · rfl
      · exact fun _ hid => hid
      · intro id hid
        have hstatus := h.running id hid
        by_cases heq : id = first.1
        · rw [heq] at hstatus ⊢
          rw [State.setRequest_self]
          exact hstatus
        · rw [s.setRequest_of_ne heq]
          exact hstatus
      · intro id hid
        have hqueued := h.queued id hid
        by_cases heq : id = first.1
        · rw [heq] at hqueued ⊢
          rw [State.setRequest_self]
          exact ⟨hqueued.not_running, hqueued.not_finished⟩
        · rw [s.setRequest_of_ne heq]
          exact hqueued
    split_ifs
    · exact h
    · exact hset _
    · exact hset _
    · exact hset _

end ChampionRuntime.Scheduler
