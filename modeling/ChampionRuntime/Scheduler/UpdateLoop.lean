import ChampionRuntime.Scheduler.UpdateInvariant

/-!
# The loop of an update

`update_from_output` takes the scheduled requests one by one. Those that stop stand in the
queues up to its end, so the invariant is about the queues without them.
-/
namespace ChampionRuntime.Scheduler

open Lib
open scoped List

variable {σ : Type} {cfg : Config} {svc : Services σ} {out : SchedulerOutput}
  {mo : ModelRunnerOutput} {failed : List RequestId} {u u' : UpdatePass σ} {id : RequestId} {n : ℤ}

/-- The state without the stopped requests, which leave their queues behind the loop. -/
def UpdatePass.settled (u : UpdatePass σ) : State σ :=
  { u.toState with
    running := u.running.filter (· ∉ u.stoppedRunningReqs)
    waiting := u.waiting.filter (· ∉ u.stoppedPreemptedReqs)
    skippedWaiting := u.skippedWaiting.filter (· ∉ u.stoppedPreemptedReqs) }

theorem UpdatePass.settled_queued (u : UpdatePass σ) :
    u.settled.queued [] = (u.queued []).filter (· ∉ u.stoppedPreemptedReqs) := by
  unfold State.queued settled
  rw [List.append_nil, List.append_nil, List.filter_append]

theorem State.OnlyAt.trans {s t s' : State σ} (h : s.OnlyAt id t) (h' : t.OnlyAt id s') :
    s.OnlyAt id s' where
  running := h'.running.trans h.running
  waiting := h'.waiting.trans h.waiting
  skippedWaiting := h'.skippedWaiting.trans h.skippedWaiting
  requests id' hne hid' := h'.requests id' hne (h.requests id' hne hid')
  request id' hne := (h'.request id' hne).trans (h.request id' hne)

theorem WellQueued.relocate {s s' : State σ} (h : WellQueued [] s)
    (hrunning : s'.running = s.running.filter (· ≠ id))
    (hqueued : (s'.queued []).Subperm (id :: (s.queued []).filter (· ≠ id)))
    (hother : ∀ id', id' ≠ id →
      (id' ∈ s.requests → id' ∈ s'.requests) ∧ s'.request id' = s.request id')
    (hid : id ∈ s'.queued [] → id ∈ s'.requests ∧ (s'.request id).Queued) :
    WellQueued [] s' := by
  have hran : ∀ id' ∈ s'.running, id' ∈ s.running ∧ id' ≠ id := by
    intro id' hmem
    rw [hrunning, List.mem_filter, decide_eq_true_eq] at hmem
    exact hmem
  have hwaits : ∀ id' ∈ s'.queued [], id' ≠ id → id' ∈ s.queued [] := by
    intro id' hmem hne
    rcases List.mem_cons.mp (hqueued.subset hmem) with heq | hold
    · exact absurd heq hne
    · exact List.mem_of_mem_filter hold
  refine ⟨?_, ?_, ?_, ?_⟩
  · have hall : (s.running.filter (· ≠ id) ++ id :: (s.queued []).filter (· ≠ id)).Nodup := by
      apply List.perm_middle.nodup_iff.mpr
      refine List.nodup_cons.mpr ⟨?_, ?_⟩
      · rw [← List.filter_append]
        simp
      · rw [← List.filter_append]
        exact h.nodup.filter _
    rw [hrunning]
    obtain ⟨l, hperm, hsub⟩ := hqueued
    exact (hperm.append_left _).nodup_iff.mp (hall.sublist (hsub.append_left _))
  · intro id' hmem
    by_cases heq : id' = id
    · subst heq
      rcases List.mem_append.mp hmem with hmem | hmem
      · exact absurd rfl (hran id' hmem).2
      · exact (hid hmem).1
    · apply (hother id' heq).1
      apply h.registered
      rcases List.mem_append.mp hmem with hmem | hmem
      · exact List.mem_append_left _ (hran id' hmem).1
      · exact List.mem_append_right _ (hwaits id' hmem heq)
  · intro id' hmem
    obtain ⟨hold, hne⟩ := hran id' hmem
    rw [(hother id' hne).2]
    exact h.running id' hold
  · intro id' hmem
    by_cases heq : id' = id
    · subst heq
      exact (hid hmem).2
    · rw [(hother id' heq).2]
      exact h.queued id' (hwaits id' hmem heq)

theorem UpdatePass.settled_keep (h : WellQueued [] u.settled) (hs : u.toState.OnlyAt id u'.toState)
    (hrequests : u'.requests = u.requests) (hstatus : (u'.request id).status = (u.request id).status)
    (hstopped : u'.stoppedRunningReqs = u.stoppedRunningReqs)
    (hpreempted : u'.stoppedPreemptedReqs = u.stoppedPreemptedReqs) : WellQueued [] u'.settled := by
  have hsame : ∀ id', (u'.request id').status = (u.request id').status := by
    intro id'
    by_cases heq : id' = id
    · rw [heq]
      exact hstatus
    · rw [hs.request id' heq]
  apply h.stay
  · unfold settled
    rw [hs.running, hstopped]
  · unfold settled
    rw [hs.waiting, hpreempted]
  · unfold settled
    rw [hs.skippedWaiting, hpreempted]
  · intro id' hid'
    show id' ∈ u'.requests
    rw [hrequests]
    exact hid'
  · intro id' hid'
    exact (hsame id').trans (h.running id' hid')
  · intro id' hid'
    obtain ⟨hrunning, hfinished⟩ := h.queued id' hid'
    constructor
    · exact (hsame id').trans_ne hrunning
    · exact (congrArg RequestStatus.isFinished (hsame id')).trans hfinished

/-- The queues behind a stopped request: its copies are gone, but for one that it gets. -/
theorem State.Stopped.queued_filter {s s' : State σ} (h : s.Stopped id s')
    (stopped : List RequestId) :
    ((s'.queued []).filter (· ∉ stopped)).Subperm
      (id :: (s.queued []).filter (· ∉ stopped)) := by
  cases h with
  | freed honly _ =>
    have heq : s'.queued [] = s.queued [] := by
      unfold State.queued
      rw [honly.waiting, honly.skippedWaiting]
    rw [heq]
    exact (List.sublist_cons_self _ _).subperm
  | waits _ _ _ hqueued _ =>
    apply ((hqueued.filter _).subperm).trans
    rw [List.filter_cons]
    split_ifs
    · exact List.Subperm.refl _
    · exact (List.sublist_cons_self _ _).subperm

theorem UpdatePass.settled_stop {t : State σ} (h : WellQueued [] u.settled)
    (hknown : id ∈ u.requests) (ht : u.toState.OnlyAt id t) (hrequests : t.requests = u.requests)
    (hstop : t.Stopped id u'.toState)
    (hlists : if (u.request id).status = .running then
        u'.stoppedRunningReqs = id :: u.stoppedRunningReqs ∧
          u'.stoppedPreemptedReqs = u.stoppedPreemptedReqs
      else u'.stoppedRunningReqs = u.stoppedRunningReqs ∧
        u'.stoppedPreemptedReqs = id :: u.stoppedPreemptedReqs) : WellQueued [] u'.settled := by
  obtain ⟨hrunning, hmoves⟩ := hstop.moves
  have hqueues : t.queued [] = u.queued [] := by
    unfold State.queued
    rw [ht.waiting, ht.skippedWaiting]
  have hcons : ∀ (l stopped : List RequestId), l.filter (· ∉ id :: stopped) =
      (l.filter (· ∉ stopped)).filter (· ≠ id) := by
    intro l stopped
    rw [List.filter_filter]
    apply List.filter_congr
    intro id' _
    simp
  have hfree : ∀ l : List RequestId, id ∉ l → l.filter (· ≠ id) = l := by
    intro l hnot
    apply List.filter_eq_self.mpr
    intro id' hid'
    simp only [ne_eq, decide_eq_true_eq]
    rintro rfl
    exact hnot hid'
  have hfiltered := hstop.queued_filter
  rw [hqueues] at hfiltered
  have hother : ∀ id', id' ≠ id → (id' ∈ u.settled.requests → id' ∈ u'.settled.requests) ∧
      u'.settled.request id' = u.settled.request id' := by
    intro id' hne
    obtain ⟨hin, hrequest⟩ := hmoves id' hne
    refine ⟨fun hmem => hin.mpr ?_, hrequest.trans (ht.request id' hne)⟩
    rw [hrequests]
    exact hmem
  by_cases hstatus : (u.request id).status = .running
  · rw [if_pos hstatus] at hlists
    obtain ⟨hstopped, hpreempted⟩ := hlists
    have hnot : id ∉ u.settled.queued [] := fun hmem => (h.queued id hmem).not_running hstatus
    refine h.relocate ?_ ?_ hother ?_
    · unfold settled
      dsimp only
      rw [hrunning, ht.running, hstopped, hcons]
    · rw [hfree _ hnot, settled_queued, settled_queued, hpreempted]
      exact hfiltered _
    · intro hmem
      cases hstop with
      | freed honly _ =>
        have heq : u'.queued [] = u.queued [] := by
          rw [← hqueues]
          unfold State.queued
          rw [honly.waiting, honly.skippedWaiting]
        rw [settled_queued, heq, hpreempted, ← settled_queued] at hmem
        exact absurd hmem hnot
      | waits _ hsame _ _ hqueued =>
        refine ⟨?_, hqueued⟩
        show id ∈ u'.requests
        rw [hsame, hrequests]
        exact hknown
  · rw [if_neg hstatus] at hlists
    obtain ⟨hstopped, hpreempted⟩ := hlists
    have hnot : id ∉ u.settled.running := fun hmem => hstatus (h.running id hmem)
    refine h.relocate ?_ ?_ hother ?_
    · rw [hfree _ hnot]
      unfold settled
      dsimp only
      rw [hrunning, ht.running, hstopped]
    · rw [settled_queued, settled_queued, hpreempted, ← hcons]
      exact hfiltered _
    · intro hmem
      rw [settled_queued, hpreempted] at hmem
      simp at hmem

/-- What verifying its drafts makes of a request. -/
structure Request.Verified (drafts : List DraftToken) (r r' : Request) : Prop where
  status : r'.status = r.status
  lower : r.numComputedTokens - drafts.length ≤ r'.numComputedTokens

variable (cfg) in
theorem verifyDrafts_verified (out : SchedulerOutput) (id : RequestId) (stale : Bool)
    (generated : List ℤ) (u : UpdatePass σ) :
    (u.request id).Verified (draftsOf out.scheduledSpecDecodeTokens id)
      ((verifyDrafts cfg out id stale generated u).request id) := by
  unfold verifyDrafts
  extract_lets drafts numAccepted observed
  have hobserved : observed.toState = u.toState := by
    unfold observed UpdatePass.observe
    split_ifs
    · rfl
    · rfl
  have hdrafts : draftsOf out.scheduledSpecDecodeTokens id = drafts := rfl
  have haccepted : 0 ≤ numAccepted := le_max_right _ _
  rw [hdrafts]
  split_ifs
  · show (u.request id).Verified drafts ((observed.toState.setRequest id
      ((observed.toState.request id).rollBack _)).request id)
    rw [State.setRequest_self, hobserved]
    refine ⟨rfl, ?_⟩
    unfold Request.rollBack
    dsimp only
    split_ifs
    · omega
    · omega
  · exact ⟨rfl, by omega⟩

variable (cfg) in
theorem verifyDrafts_else (out : SchedulerOutput) (id : RequestId) (stale : Bool)
    (generated : List ℤ) (u : UpdatePass σ) : ∃ r,
    (verifyDrafts cfg out id stale generated u).toState = u.toState.setRequest id r ∧
      (verifyDrafts cfg out id stale generated u).stoppedRunningReqs = u.stoppedRunningReqs ∧
      (verifyDrafts cfg out id stale generated u).stoppedPreemptedReqs = u.stoppedPreemptedReqs := by
  unfold verifyDrafts
  extract_lets drafts numAccepted observed
  have hobserved : observed.toState = u.toState ∧
      observed.stoppedRunningReqs = u.stoppedRunningReqs ∧
      observed.stoppedPreemptedReqs = u.stoppedPreemptedReqs := by
    unfold observed UpdatePass.observe
    split_ifs
    · exact ⟨rfl, rfl, rfl⟩
    · exact ⟨rfl, rfl, rfl⟩
  split_ifs
  · refine ⟨(observed.request id).rollBack (drafts.length - numAccepted), ?_, hobserved.2⟩
    show observed.toState.setRequest id _ = _
    rw [hobserved.1]
  · refine ⟨u.request id, ?_, rfl, rfl⟩
    unfold State.setRequest
    rw [Function.update_eq_self]

/-- What a turn takes to be in flight has arrived. -/
def UpdatePass.drained (u : UpdatePass σ) (p : RequestId × ℤ) : UpdatePass σ :=
  { u with toState := u.toState.setRequest p.1 ((u.request p.1).drain p.2) }

/-- The output of the request is not looked at. -/
def UpdatePass.PassesOver (u : UpdatePass σ) (failed : List RequestId) (id : RequestId) : Prop :=
  id ∈ failed ∨ (u.request id).status.isFinished = true ∨
    decide (0 < (u.request id).numStaleOutputTokens) = true ∧ (u.request id).dropStaleOutput = true

/-- The ends of a turn of the loop that does not raise. -/
inductive Turned (cfg : Config) (svc : Services σ) (out : SchedulerOutput)
    (mo : ModelRunnerOutput) (failed : List RequestId) (u : UpdatePass σ) (p : RequestId × ℤ) :
    UpdatePass σ → Prop
  | gone (hgone : p.1 ∉ u.requests) : Turned cfg svc out mo failed u p u
  | passed (hknown : p.1 ∈ u.requests) (hover : u.PassesOver failed p.1) :
    Turned cfg svc out mo failed u p (u.drained p)
  | silent (hknown : p.1 ∈ u.requests) (hlive : ¬ u.PassesOver failed p.1)
    (hsampled : mo.sampledTokenIds p.1 = none) : Turned cfg svc out mo failed u p (u.drained p)
  | received (generated : List ℤ) (hknown : p.1 ∈ u.requests) (hlive : ¬ u.PassesOver failed p.1)
    (hsampled : mo.sampledTokenIds p.1 = some generated) :
    Turned cfg svc out mo failed u p (receiveRequest cfg svc out mo p.1
      (decide (0 < (u.request p.1).numStaleOutputTokens)) generated (u.drained p))

theorem updateRequest_turned {p : RequestId × ℤ}
    (h : updateRequest cfg svc out mo failed u p = .ok u') :
    0 < p.2 ∧ Turned cfg svc out mo failed u p u' := by
  unfold updateRequest at h
  dsimp only at h
  by_cases hpos : p.2 ≤ 0
  · rw [if_pos hpos] at h
    cases h
  rw [if_neg hpos] at h
  refine ⟨not_le.mp hpos, ?_⟩
  by_cases hgone : p.1 ∉ u.requests
  · rw [if_pos hgone] at h
    cases h
    exact .gone hgone
  rw [if_neg hgone] at h
  push Not at hgone
  split_ifs at h with hassert hover
  · cases h
    exact .passed hgone hover
  · cases hsampled : mo.sampledTokenIds p.1 with
    | none =>
      rw [hsampled] at h
      cases h
      exact .silent hgone hover hsampled
    | some generated =>
      rw [hsampled] at h
      cases h
      exact .received generated hgone hover hsampled

theorem updateRequest_other {p : RequestId × ℤ}
    (h : updateRequest cfg svc out mo failed u p = .ok u') {id' : RequestId} (hne : id' ≠ p.1) :
    (id' ∈ u'.requests ↔ id' ∈ u.requests) ∧ u'.request id' = u.request id' := by
  have hdrained : (u.drained p).request id' = u.request id' := u.toState.setRequest_of_ne hne _
  obtain ⟨-, hturn⟩ := updateRequest_turned h
  cases hturn with
  | gone _ => exact ⟨Iff.rfl, rfl⟩
  | passed _ _ => exact ⟨Iff.rfl, hdrained⟩
  | silent _ _ _ => exact ⟨Iff.rfl, hdrained⟩
  | received generated _ _ _ =>
    dsimp only [receiveRequest, takeOutput]
    obtain ⟨r, hv, -⟩ := verifyDrafts_else cfg out p.1
      (decide (0 < (u.request p.1).numStaleOutputTokens)) generated (u.drained p)
    generalize verifyDrafts cfg out p.1 _ generated (u.drained p) = v at hv ⊢
    generalize receiveOutput cfg svc mo p.1 generated (v.request p.1) v.services = received
    obtain ⟨stopped, r', services⟩ := received
    dsimp only
    have hset : (v.toState.setRequest p.1 r').request id' = u.request id' := by
      rw [State.setRequest_of_ne _ hne, hv, State.setRequest_of_ne _ hne, hdrained]
    have hknown : v.requests = u.requests := by rw [hv]; rfl
    cases stopped with
    | false =>
      rw [if_neg Bool.false_ne_true]
      refine ⟨?_, hset⟩
      show id' ∈ v.requests ↔ _
      rw [hknown]
    | true =>
      obtain ⟨-, hmoves⟩ := (handleStoppedRequest_stopped svc
        { v.toState.setRequest p.1 r' with services } p.1).moves
      obtain ⟨hin, hrequest⟩ := hmoves id' hne
      rw [if_pos rfl]
      split_ifs
      · exact ⟨hin.trans (by rw [← hknown]; rfl), hrequest.trans hset⟩
      · exact ⟨hin.trans (by rw [← hknown]; rfl), hrequest.trans hset⟩

theorem updateRequest_spec {p : RequestId × ℤ} (h : WellQueued [] u.settled)
    (hstep : updateRequest cfg svc out mo failed u p = .ok u') : WellQueued [] u'.settled := by
  have honly := setRequest_onlyAt u.toState p.1 ((u.request p.1).drain p.2)
  have hself : (u.drained p).request p.1 = (u.request p.1).drain p.2 := u.toState.setRequest_self p.1 _
  have hdrained : ((u.drained p).request p.1).status = (u.request p.1).status := by
    rw [hself]
    rfl
  obtain ⟨-, hturn⟩ := updateRequest_turned hstep
  cases hturn with
  | gone _ => exact h
  | passed _ _ => exact UpdatePass.settled_keep h honly rfl hdrained rfl rfl
  | silent _ _ _ => exact UpdatePass.settled_keep h honly rfl hdrained rfl rfl
  | received generated hknown _ _ =>
    have hverified := verifyDrafts_verified cfg out p.1
      (decide (0 < (u.request p.1).numStaleOutputTokens)) generated (u.drained p)
    obtain ⟨r, hv, hvstopped, hvpreempted⟩ := verifyDrafts_else cfg out p.1
      (decide (0 < (u.request p.1).numStaleOutputTokens)) generated (u.drained p)
    dsimp only [receiveRequest]
    generalize verifyDrafts cfg out p.1 _ generated (u.drained p) = v at *
    have hstatus : (v.request p.1).status = (u.request p.1).status := hverified.status.trans hdrained
    unfold takeOutput
    extract_lets statusBefore
    generalize hreceive : receiveOutput cfg svc mo p.1 generated (v.request p.1) v.services = received
    obtain ⟨stopped, r', services⟩ := received
    have hreceived := receiveOutput_spec hreceive
    dsimp only
    have htaken : u.toState.OnlyAt p.1 { v.toState.setRequest p.1 r' with services } := by
      have hset := setRequest_onlyAt v.toState p.1 r'
      rw [hv] at hset
      have hall := (honly.trans (setRequest_onlyAt _ p.1 r)).trans hset
      rw [← hv] at hall
      exact ⟨hall.running, hall.waiting, hall.skippedWaiting, hall.requests, hall.request⟩
    have hrequests : v.requests = u.requests := by
      rw [hv]
      rfl
    cases stopped with
    | false =>
      rw [if_neg Bool.false_ne_true]
      refine UpdatePass.settled_keep h htaken hrequests ?_ hvstopped hvpreempted
      show ((v.toState.setRequest p.1 r').request p.1).status = _
      rw [State.setRequest_self, hreceived.status rfl, hstatus]
    | true =>
      have hstop := handleStoppedRequest_stopped svc
        { v.toState.setRequest p.1 r' with services } p.1
      rw [if_pos rfl]
      by_cases hran : (u.request p.1).status = .running
      · rw [if_pos (hstatus.trans hran)]
        refine UpdatePass.settled_stop h hknown htaken hrequests hstop ?_
        rw [if_pos hran]
        exact ⟨congrArg (p.1 :: ·) hvstopped, hvpreempted⟩
      · rw [if_neg (fun heq => hran (hstatus.symm.trans heq))]
        refine UpdatePass.settled_stop h hknown htaken hrequests hstop ?_
        rw [if_neg hran]
        exact ⟨hvstopped, congrArg (p.1 :: ·) hvpreempted⟩

theorem foldlM_updateRequest_spec {rest : List (RequestId × ℤ)} (h : WellQueued [] u.settled)
    (hfold : rest.foldlM (updateRequest cfg svc out mo failed) u = .ok u') :
    WellQueued [] u'.settled := by
  induction rest generalizing u with
  | nil =>
    cases hfold
    exact h
  | cons first rest ih =>
    rw [List.foldlM_cons, bind_eq_ok] at hfold
    obtain ⟨v, hfirst, hfold⟩ := hfold
    exact ih (updateRequest_spec h hfirst) hfold

theorem freeBlocks_spec {s s' : State σ} (h : WellQueued [] s) (hfree : s.freeBlocks id = .ok s') :
    WellQueued [] s' := by
  simp only [State.freeBlocks, bind_eq_ok, require_eq_ok, pure_eq_ok] at hfree
  obtain ⟨-, -, -, hfinished, rfl⟩ := hfree
  have hout : id ∉ s.running ++ s.queued [] := by
    intro hmem
    rcases List.mem_append.mp hmem with hmem | hmem
    · rw [h.running id hmem] at hfinished
      cases hfinished
    · rw [(h.queued id hmem).not_finished] at hfinished
      cases hfinished
  refine h.onlyAt hout ⟨rfl, rfl, rfl, ?_, fun _ _ => rfl⟩
  intro id' hne hid'
  simpa using ⟨hid', hne⟩

theorem foldlM_keeps {β : Type} {I : State σ → Prop} {step : State σ → β → Except String (State σ)}
    (hstep : ∀ s b s', I s → step s b = .ok s' → I s') {ids : List β} {s s' : State σ} (h : I s)
    (hfold : ids.foldlM step s = .ok s') : I s' := by
  induction ids generalizing s with
  | nil =>
    cases hfold
    exact h
  | cons first ids ih =>
    rw [List.foldlM_cons, bind_eq_ok] at hfold
    obtain ⟨t, hfirst, hfold⟩ := hfold
    exact ih (hstep s first t h hfirst) hfold

theorem updateFromKvXferFinished_spec {s s' : State σ} (h : WellQueued [] s)
    (hfinished : s.updateFromKvXferFinished mo = .ok s') : WellQueued [] s' := by
  simp only [State.updateFromKvXferFinished, bind_eq_ok] at hfinished
  obtain ⟨t, hrecving, hsending⟩ := hfinished
  have ht : WellQueued [] t := by
    refine foldlM_keeps (I := WellQueued []) ?_ h hrecving
    intro s₁ id s₂ h₁ hstep
    split_ifs at hstep with hloading
    · cases hstep
      exact ⟨h₁.nodup, h₁.registered, h₁.running, h₁.queued⟩
    · exact freeBlocks_spec h₁ hstep
  exact foldlM_keeps (I := WellQueued []) (fun _ _ _ h₁ hstep => freeBlocks_spec h₁ hstep) ht hsending

theorem observeBatch_state {update : Option Decoding.AcceptanceLengthUpdate} {v : State σ}
    (h : u.observeBatch = .ok (update, v)) : ∃ controller,
    v = { u.toState with acceptanceLengthController := controller } := by
  unfold UpdatePass.observeBatch at h
  cases hcontroller : u.acceptanceLengthController with
  | none =>
    rw [hcontroller] at h
    cases h
    exact ⟨none, by rw [← hcontroller]⟩
  | some controller =>
    rw [hcontroller] at h
    dsimp only at h
    split at h
    · cases h
    · cases h
      exact ⟨_, rfl⟩

/-- The state behind the loop, without the stopped requests. -/
def UpdatePass.closed (u : UpdatePass σ)
    (controller : Option Decoding.AcceptanceLengthController) : State σ :=
  { u.toState with
    running := u.running.filter (· ∉ u.stoppedRunningReqs)
    waiting := u.waiting.filter (· ∉ u.stoppedPreemptedReqs)
    skippedWaiting := u.skippedWaiting.filter (· ∉ u.stoppedPreemptedReqs)
    grammarCompileErrorReqs := []
    acceptanceLengthController := controller }

theorem UpdatePass.closed_queues (h : WellQueued [] u.settled)
    (controller : Option Decoding.AcceptanceLengthController) :
    WellQueued [] (u.closed controller) :=
  ⟨h.nodup, h.registered, h.running, h.queued⟩

/-- The parts of an update that returns: `t` behind the failed loads, `u` behind the loop. -/
structure UpdateParts (cfg : Config) (svc : Services σ) (out : SchedulerOutput)
    (mo : ModelRunnerOutput) (s : State σ) (failed : List RequestId) (t : State σ)
    (u : UpdatePass σ) (update : Option Decoding.AcceptanceLengthUpdate) (s' : State σ) : Prop where
  loads : (if mo.invalidBlockIds ≠ [] then
    handleInvalidBlocks cfg svc mo.invalidBlockIds out.numScheduledTokens s else ([], s)) = (failed, t)
  loop : out.numScheduledTokens.items.foldlM (updateRequest cfg svc out mo failed)
    { toState := t
      adaptivePositionEligible := List.replicate (max 1 cfg.numSpecTokens) 0
      adaptivePositionAccepted := List.replicate (max 1 cfg.numSpecTokens) 0 } = .ok u
  observed : ∃ controller,
    u.observeBatch = .ok (update, { u.toState with acceptanceLengthController := controller }) ∧
    ∃ errors, ((u.closed controller).finishRequests svc errors .finishedError).updateFromKvXferFinished
      mo = .ok s'

theorem updateFromOutput_parts {s s' : State σ} {update : Option Decoding.AcceptanceLengthUpdate}
    (h : updateFromOutput cfg svc out mo s = .ok (update, s')) :
    ∃ failed t u, UpdateParts cfg svc out mo s failed t u update s' := by
  unfold updateFromOutput updateRequests at h
  simp only [bind_eq_ok, pure_eq_ok] at h
  obtain ⟨⟨failed, u⟩, ⟨u', hloop, hu⟩, ⟨update', v⟩, hobserve, w, hfinished, hw⟩ := h
  generalize hloads : (if mo.invalidBlockIds ≠ [] then
    handleInvalidBlocks cfg svc mo.invalidBlockIds out.numScheduledTokens s else ([], s)) =
      loaded at hloop hu
  obtain ⟨failed', t⟩ := loaded
  cases hu
  cases hw
  obtain ⟨controller, rfl⟩ := observeBatch_state hobserve
  exact ⟨_, t, _, hloads, hloop, controller, hobserve, _, hfinished⟩

theorem UpdateParts.loadsFailed {s s' t : State σ}
    {update : Option Decoding.AcceptanceLengthUpdate}
    (h : UpdateParts cfg svc out mo s failed t u update s') : s.LoadsFailed t := by
  have hloads := h.loads
  split_ifs at hloads
  · exact handleInvalidBlocks_spec hloads
  · cases hloads
    exact .refl s

theorem UpdateParts.queues {s s' t : State σ} {update : Option Decoding.AcceptanceLengthUpdate}
    (h : UpdateParts cfg svc out mo s failed t u update s') (hs : WellQueued [] s) :
    WellQueued [] s' := by
  have hfailed := h.loadsFailed
  have hstart : WellQueued [] t := by
    apply hs.stay hfailed.running hfailed.waiting hfailed.skippedWaiting
    · intro id hid
      rwa [hfailed.requests]
    · intro id hid
      obtain ⟨computed, hcomputed⟩ := hfailed.truncated id
      rw [hcomputed]
      exact hs.running id hid
    · intro id hid
      obtain ⟨computed, hcomputed⟩ := hfailed.truncated id
      obtain ⟨hrunning, hfinished⟩ := hs.queued id hid
      rw [hcomputed]
      exact ⟨hrunning, hfinished⟩
  have hloop : WellQueued [] u.settled := by
    refine foldlM_updateRequest_spec ?_ h.loop
    unfold UpdatePass.settled
    simpa using hstart
  obtain ⟨controller, -, errors, hfinished⟩ := h.observed
  exact updateFromKvXferFinished_spec
    (finishRequests_spec (UpdatePass.closed_queues hloop controller)).1 hfinished

end ChampionRuntime.Scheduler
