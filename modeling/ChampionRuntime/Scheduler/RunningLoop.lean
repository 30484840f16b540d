import ChampionRuntime.Scheduler.Preemption

/-!
# The loop over the running queue

Every turn keeps the invariant, and the loop comes to its end.
-/
namespace ChampionRuntime.Scheduler

open Lib

variable {σ : Type} {cfg : Config} {svc : Services σ} {ctx : StepContext} {s₀ : State σ}

theorem cutRunning_spec {p p' : Pass σ} {id : RequestId} {n : ℤ} {plan : EncoderPlan}
    (h : cutRunning cfg svc p id n = .ok (plan, p')) :
    (∃ services, p' = { p with services }) ∧ plan.numNewTokens ≤ max n 0 := by
  simp only [cutRunning, bind_eq_ok, pure_eq_ok, Prod.mk.injEq] at h
  obtain ⟨⟨tried, services⟩, htry, rfl, rfl⟩ := h
  have hencoder := tryScheduleEncoderInputs_le cfg svc htry
  refine ⟨⟨services, rfl⟩, ?_⟩
  dsimp only
  split_ifs
  · have hmamba := mambaBlockAlignedSplit_le cfg (p.request id) tried.numNewTokens 0 0
    dsimp only
    omega
  · exact hencoder

variable (cfg ctx) in
theorem runningTokens_le (p : Pass σ) (id : RequestId) :
    runningTokens cfg ctx p id ≤ (p.request id).numTokensWithSpec +
      (p.request id).numOutputPlaceholders - (p.request id).numComputedTokens := by
  unfold runningTokens
  extract_lets r budgeted wanted capped least last
  have hcapped : capped ≤ wanted := by
    unfold capped
    split_ifs with hcap
    · exact hcap.2.2.le
    · exact le_rfl
  have hlast : last ≤ least := by
    unfold last
    split_ifs
    · exact min_le_left _ _
    · exact le_rfl
  exact (min_le_left _ _).trans (hlast.trans ((min_le_left _ _).trans hcapped))

theorem scheduledDrafts_end {r : Request} {n : ℤ}
    (hn : n ≤ max (r.numTokensWithSpec + r.numOutputPlaceholders - r.numComputedTokens) 0)
    (hne : scheduledDrafts r n ≠ []) : r.DraftsEnd (scheduledDrafts r n) n := by
  have hlength : ((scheduledDrafts r n).length : ℤ) =
      min (max (n + r.numComputedTokens - r.numTokens - r.numOutputPlaceholders) 0)
        r.specTokenIds.length := by
    unfold scheduledDrafts
    rw [List.length_take]
    omega
  have hspec : r.numTokensWithSpec = r.numTokens + r.specTokenIds.length := rfl
  have hpos : 0 < (scheduledDrafts r n).length := List.length_pos_iff.mpr hne
  refine ⟨hne, fun m => ?_⟩
  unfold Request.numPending
  omega

section Commit

variable {id : RequestId} {p : Pass σ} {plan : EncoderPlan}

variable (cfg) in
theorem commitRunning_drafts (p : Pass σ) (id : RequestId) (plan : EncoderPlan)
    (hnone : p.scheduledSpecDecodeTokens.get? id = none) (id' : RequestId) :
    (commitRunning cfg p id plan).scheduledSpecDecodeTokens.get? id' =
      if id' = id then
        if scheduledDrafts (p.request id) plan.numNewTokens ≠ [] then
          some (scheduledDrafts (p.request id) plan.numNewTokens)
        else none
      else p.scheduledSpecDecodeTokens.get? id' := by
  unfold commitRunning
  dsimp only
  by_cases hdrafts : scheduledDrafts (p.request id) plan.numNewTokens ≠ []
  · rw [if_pos hdrafts, Keyed.get?_set, if_pos hdrafts]
  · rw [if_neg hdrafts, if_neg hdrafts]
    split_ifs with hid
    · rw [hid, hnone]
    · rfl

theorem commitRunning_spec (h : RoomInv cfg ctx s₀ id p)
    (hgate : gated cfg ctx p id = false)
    (hn : plan.numNewTokens ≤ max ((p.request id).numTokensWithSpec +
      (p.request id).numOutputPlaceholders - (p.request id).numComputedTokens) 0) :
    RunInv cfg ctx s₀ (commitRunning cfg p id plan) := by
  have hmem : id ∈ p.running := List.mem_of_mem_take h.here
  have hqueued : id ∉ p.queued p.stepSkippedWaiting := h.queues.not_mem_queued hmem
  have hundrafted : p.scheduledSpecDecodeTokens.get? id = none := by
    cases hdrafts : p.scheduledSpecDecodeTokens.get? id with
    | none => rfl
    | some ds =>
      obtain ⟨n, hn⟩ := h.drafted id ds hdrafts
      rw [h.unscheduled] at hn
      cases hn
  have hdrafts := commitRunning_drafts cfg p id plan hundrafted
  have htokens : ∀ id', (commitRunning cfg p id plan).numScheduledTokens.get? id' =
      if id' = id then some plan.numNewTokens else p.numScheduledTokens.get? id' :=
    fun id' => Keyed.get?_set p.numScheduledTokens id plan.numNewTokens id'
  have hrequest : ∀ id', id' ≠ id → (commitRunning cfg p id plan).request id' = p.request id' :=
    fun id' hne => Function.update_of_ne hne _ _
  have hself : (commitRunning cfg p id plan).request id =
      { p.request id with specTokenIds := [] } := Function.update_self _ _ _
  have hfresh := h.unchanged id hmem h.unscheduled
  refine {
    queues := ?_
    scheduled := ?_
    drafted := ?_
    taken := ?_
    listed := ?_
    nodup_listed := ?_
    ends := ?_
    still := h.still
    same := ?_
    unchanged := ?_
    ungated := ?_
    origin := ?_
    kept := ?_
    aside := h.aside }
  · apply h.queues.stay
    · rfl
    · rfl
    · rfl
    · exact fun _ hid' => hid'
    · intro id' hid'
      by_cases heq : id' = id
      · rw [heq, hself]
        exact h.queues.running id hmem
      · rw [hrequest id' heq]
        exact h.queues.running id' hid'
    · intro id' hid'
      have hne : id' ≠ id := fun heq => hqueued (heq ▸ hid')
      rw [hrequest id' hne]
      exact h.queues.queued id' hid'
  · intro id' n hn
    rw [htokens] at hn
    split_ifs at hn with heq
    · exact heq ▸ hmem
    · exact h.scheduled id' n hn
  · intro id' ds hds
    rw [hdrafts] at hds
    rw [htokens]
    split_ifs at hds ⊢ with heq hdrafted
    · exact ⟨_, rfl⟩
    · exact h.drafted id' ds hds
  · intro id' n hn
    rw [htokens] at hn
    split_ifs at hn with heq
    · exact heq ▸ h.here
    · exact List.take_subset_take_left p.running (Nat.le_succ _) (h.taken id' n hn)
  · intro id'
    rw [htokens]
    show id' ∈ p.scheduledRunningReqs ++ [id] ↔ _
    rw [List.mem_append, List.mem_singleton, h.listed]
    split_ifs with heq
    · simp [heq]
    · simp [heq]
  · have hfree : id ∉ p.scheduledRunningReqs := by
      rw [h.listed, h.unscheduled]
      exact Bool.false_ne_true
    show (p.scheduledRunningReqs ++ [id]).Nodup
    apply h.nodup_listed.append (List.nodup_singleton id)
    rw [List.disjoint_singleton]
    exact hfree
  · intro id' ds hds
    rw [hdrafts] at hds
    rw [htokens]
    split_ifs at hds ⊢ with heq hne
    · rw [← Option.some.inj hds, heq, ← hfresh]
      exact ⟨_, rfl, scheduledDrafts_end hn hne⟩
    · exact h.ends id' ds hds
  · intro id' hid'
    by_cases heq : id' = id
    · rw [heq, hself, hfresh]
      exact ⟨[], rfl⟩
    · rw [hrequest id' heq]
      exact h.same id' hid'
  · intro id' hid' hn
    rw [htokens] at hn
    split_ifs at hn with heq
    rw [hrequest id' heq]
    exact h.unchanged id' hid' hn
  · intro haware id' n hn hlong
    rw [htokens] at hn
    split_ifs at hn with heq
    · rw [heq, ← hfresh] at hlong
      rw [heq]
      by_contra hunselected
      simp [gated, haware, hlong, hunselected] at hgate
    · exact h.ungated haware id' n hn hlong
  · intro id' ds hds
    rw [hdrafts] at hds
    split_ifs at hds with heq hne
    · rw [← Option.some.inj hds, heq, ← hfresh]
      exact List.take_prefix _ _
    · exact h.origin id' ds hds
  · intro hnone
    obtain ⟨hrunning, hwaiting, hskipped, hkept⟩ := h.kept hnone
    refine ⟨hrunning, hwaiting, hskipped, ?_⟩
    intro id' hid'
    rw [hrequest id']
    · exact hkept id' hid'
    · intro heq
      apply hqueued
      rw [State.queued, h.aside, hwaiting, hskipped]
      exact heq ▸ hid'

end Commit

theorem roomInv_of_index {id : RequestId} {p : Pass σ} (h : RunInv cfg ctx s₀ p)
    (hid : p.running[p.reqIndex]? = some id) : RoomInv cfg ctx s₀ id p := by
  have hdrop : p.running.drop p.reqIndex = id :: p.running.drop (p.reqIndex + 1) :=
    List.drop_eq_getElem?_toList_append.trans (by rw [hid]; rfl)
  have hahead : id ∈ p.running.drop p.reqIndex := by
    rw [hdrop]
    exact List.mem_cons_self
  refine ⟨h, ?_, ?_, fun _ => hahead⟩
  · have hsplit : (p.running.take p.reqIndex ++ p.running.drop p.reqIndex).Nodup := by
      rw [List.take_append_drop]
      exact h.queues.nodup_running
    cases hn : p.numScheduledTokens.get? id with
    | none => rfl
    | some n => exact absurd hahead ((List.disjoint_of_nodup_append hsplit) (h.taken id n hn))
  · rw [List.take_add_one, hid]
    exact List.mem_append_right _ (List.mem_singleton_self id)

/-- A turn keeps the invariant, and one that goes on comes closer to the end. -/
theorem runningTurn_spec {id : RequestId} {flow : Flow} {p p' : Pass σ} (h : RunInv cfg ctx s₀ p)
    (hid : p.running[p.reqIndex]? = some id)
    (hturn : runningTurn cfg svc ctx id p = .ok (flow, p')) :
    RunInv cfg ctx s₀ p' ∧
      (flow = .next → p'.running.length + p.reqIndex < p.running.length + p'.reqIndex) := by
  unfold runningTurn at hturn
  dsimp only at hturn
  split_ifs at hturn with hover hgate hbudget
  · cases hturn
    exact ⟨h.passOver 1 _ _, fun _ => Nat.lt_succ_self _⟩
  · cases hturn
    exact ⟨h.passOver 1 _ _, fun _ => Nat.lt_succ_self _⟩
  · cases hturn
    exact ⟨h.passOver 1 _ _, fun _ => Nat.lt_succ_self _⟩
  · simp only [bind_eq_ok] at hturn
    obtain ⟨⟨plan, q⟩, hcut, hturn⟩ := hturn
    obtain ⟨⟨services, rfl⟩, hle⟩ := cutRunning_spec hcut
    dsimp only at hturn
    split_ifs at hturn with hzero
    · cases hturn
      exact ⟨h.passOver 1 p.longPrefillGateSkips services, fun _ => Nat.lt_succ_self _⟩
    · simp only [bind_eq_ok] at hturn
      obtain ⟨⟨allocated, q⟩, hroom, hturn⟩ := hturn
      have hwant := runningTokens_le cfg ctx p id
      have hready := (roomInv_of_index h hid).withServices services
      obtain ⟨hrun, hfinal, hleft⟩ := makeRoom_spec hready le_rfl hroom
      cases allocated with
      | false =>
        cases hturn
        exact ⟨hrun, fun hflow => by cases hflow⟩
      | true =>
        cases hturn
        rw [if_pos rfl] at hfinal
        have hsame : q.request id = p.request id := by
          have hp := h.unchanged id (List.mem_of_mem_take hready.here) hready.unscheduled
          have hq := hrun.unchanged id (List.mem_of_mem_take hfinal.here) hfinal.unscheduled
          exact hq.trans hp.symm
        refine ⟨commitRunning_spec hfinal ?_ ?_, fun _ => Nat.lt_succ_of_le hleft⟩
        · unfold gated
          rw [hsame]
          simpa [gated] using hgate
        · rw [hsame]
          exact hle.trans (max_le_max_right 0 hwant)

theorem runningLoop_spec {fuel : ℕ} {p p' : Pass σ} (h : RunInv cfg ctx s₀ p)
    (hloop : runningLoop cfg svc ctx fuel p = .ok p') : RunInv cfg ctx s₀ p' := by
  induction fuel generalizing p with
  | zero =>
    cases hloop
    exact h
  | succ fuel ih =>
    rw [runningLoop] at hloop
    cases hid : p.running[p.reqIndex]? with
    | none =>
      rw [hid] at hloop
      cases hloop
      exact h
    | some id =>
      rw [hid] at hloop
      dsimp only at hloop
      split_ifs at hloop with hbudget
      · cases hloop
        exact h
      · simp only [bind_eq_ok] at hloop
        obtain ⟨⟨flow, q⟩, hturn, hloop⟩ := hloop
        obtain ⟨hq, -⟩ := runningTurn_spec h hid hturn
        cases flow with
        | next => exact ih hq hloop
        | stop =>
          cases hloop
          exact hq

theorem runningLoop_fuel {fuel more : ℕ} {p : Pass σ} (h : RunInv cfg ctx s₀ p)
    (hfuel : p.running.length ≤ fuel + p.reqIndex) :
    runningLoop cfg svc ctx (fuel + more) p = runningLoop cfg svc ctx fuel p := by
  induction fuel generalizing p with
  | zero =>
    have hend : p.running[p.reqIndex]? = none := List.getElem?_eq_none (by omega)
    cases more with
    | zero => rfl
    | succ more => simp only [runningLoop, hend]
  | succ fuel ih =>
    rw [Nat.add_right_comm, runningLoop, runningLoop]
    cases hid : p.running[p.reqIndex]? with
    | none => rfl
    | some id =>
      dsimp only
      split_ifs with hbudget
      · rfl
      · cases hturn : runningTurn cfg svc ctx id p with
        | error e => rfl
        | ok turned =>
          obtain ⟨flow, q⟩ := turned
          obtain ⟨hq, hleft⟩ := runningTurn_spec h hid hturn
          cases flow with
          | next =>
            have hcloser := hleft rfl
            have hshort : q.running.length ≤ fuel + q.reqIndex := by omega
            exact ih hq hshort
          | stop => rfl

end ChampionRuntime.Scheduler
