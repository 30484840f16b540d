import ChampionRuntime.Scheduler.LongPrefillLimit

/-!
# Scheduled drafts fit in the scheduled tokens

The drafts of a step are counted among its tokens, beside the one that is sampled. When
the rejected ones are taken back, no computed token of an earlier step is lost.
-/
namespace ChampionRuntime.Scheduler

open Lib

variable {σ : Type} {cfg : Config} {svc : Services σ} {ctx : StepContext} {out out' : SchedulerOutput}
  {mo : ModelRunnerOutput} {failed : List RequestId} {u u' : UpdatePass σ} {id : RequestId} {n : ℤ}

/-- The drafts of a step fit in its tokens, with `m` tokens beside them. -/
def DraftsFit (m : ℕ) (tokens : Dict RequestId ℤ) (drafts : Dict RequestId (List DraftToken)) :
    Prop :=
  ∀ id ds, drafts.get? id = some ds → ∃ n, tokens.get? id = some n ∧ (ds.length : ℤ) + m ≤ n

/-- Nothing behind the padding decision cuts the padded admission: not the long-prefill
threshold, not the prefill budget that is left, no encoder input and no state to be cached. -/
structure Uncut (cfg : Config) (svc : Services σ) (ctx : StepContext) (id : RequestId)
    (cached : CachedTokens) (p : Pass σ) : Prop where
  threshold : cfg.enableDecodeAwarePrefill = false → 0 < cfg.longPrefillTokenThreshold →
    (1 + cfg.numSpecTokens : ℤ) ≤ cfg.longPrefillTokenThreshold
  budget : cfg.enableDecodeAwarePrefill = true →
    (1 + cfg.numSpecTokens : ℤ) ≤ ctx.prefillTokenBudget - p.prefillTokensScheduled
  encoder : EncoderInputsFit cfg svc id (p.request id) cached.numComputedTokens
    (1 + cfg.numSpecTokens) p.encoderComputeBudget p.services
  mamba : cfg.needMambaBlockAlignedSplit = true →
    EndsAligned cfg (p.request id) (1 + cfg.numSpecTokens)
      cached.numNewLocalComputedTokens cached.numExternalComputedTokens

theorem capAdmission_eq_iff {p : Pass σ} {m : ℤ} (hroom : m ≤ p.tokenBudget)
    (h : capAdmission cfg ctx p m = some n) :
    n = m ↔ (cfg.enableDecodeAwarePrefill = false → 0 < cfg.longPrefillTokenThreshold →
        m ≤ cfg.longPrefillTokenThreshold) ∧
      (cfg.enableDecodeAwarePrefill = true →
        m ≤ ctx.prefillTokenBudget - p.prefillTokensScheduled) := by
  unfold capAdmission at h
  cases haware : cfg.enableDecodeAwarePrefill with
  | true =>
    simp only [haware, Bool.true_eq_false, false_and, if_false, if_true] at h
    split_ifs at h with hchunked hnone
    have hn := Option.some.inj h
    constructor
    · intro heq
      exact ⟨nofun, fun _ => by omega⟩
    · rintro ⟨-, hbudget⟩
      have hle := hbudget rfl
      omega
  | false =>
    simp only [haware, true_and, Bool.false_eq_true, if_false] at h
    by_cases hcap : 0 < cfg.longPrefillTokenThreshold ∧ cfg.longPrefillTokenThreshold < m
    · simp only [if_pos hcap] at h
      split_ifs at h with hchunked
      have hn := Option.some.inj h
      constructor
      · intro heq
        omega
      · rintro ⟨hthreshold, -⟩
        have hle := hthreshold rfl hcap.1
        omega
    · simp only [if_neg hcap] at h
      split_ifs at h with hchunked
      have hn := Option.some.inj h
      refine iff_of_true (by omega) ⟨fun _ hpos => ?_, nofun⟩
      by_contra hlt
      exact hcap ⟨hpos, not_le.mp hlt⟩

theorem cutAdmission_plan {p q : Pass σ} {cached : CachedTokens} {plan : EncoderPlan}
    (h : cutAdmission cfg svc p id cached n = .ok (some plan, q)) : ∃ tried services,
    tryScheduleEncoderInputs cfg svc id (p.request id) cached.numComputedTokens n
      p.encoderComputeBudget p.services = .ok (tried, services) ∧
    plan.numNewTokens = if cfg.needMambaBlockAlignedSplit then
      mambaBlockAlignedSplit cfg (p.request id) tried.numNewTokens
        cached.numNewLocalComputedTokens cached.numExternalComputedTokens
      else tried.numNewTokens := by
  simp only [cutAdmission, bind_eq_ok] at h
  obtain ⟨⟨tried, services⟩, htry, h⟩ := h
  refine ⟨tried, services, htry, ?_⟩
  dsimp only at h
  by_cases hzero : tried.numNewTokens = 0
  · rw [if_pos hzero] at h
    cases h
  rw [if_neg hzero] at h
  by_cases hmamba : cfg.needMambaBlockAlignedSplit = true
  · rw [if_pos hmamba] at h ⊢
    split_ifs at h
    · cases h
    · cases h
      rfl
  · rw [if_neg hmamba] at h ⊢
    rw [if_neg hzero] at h
    cases h
    rfl

section Padded

variable {p q : Pass σ} {cached : CachedTokens} {plan : EncoderPlan}

theorem PaddedAdmission.tokens_le (h : PaddedAdmission cfg svc ctx id p cached q n plan) :
    plan.numNewTokens ≤ 1 + cfg.numSpecTokens := by
  obtain ⟨q', hcut, -⟩ := h.allocated
  have hcap := capAdmission_le (admissionTokens_padded h.padded).2.1
  have hle := (cutAdmission_spec hcut).2 plan rfl
  omega

theorem PaddedAdmission.uncut_iff (h : PaddedAdmission cfg svc ctx id p cached q n plan) :
    plan.numNewTokens = 1 + cfg.numSpecTokens ↔ Uncut cfg svc ctx id cached q := by
  obtain ⟨q', hcut, -⟩ := h.allocated
  obtain ⟨tried, services, htry, hplan⟩ := cutAdmission_plan hcut
  obtain ⟨-, hcap, hroom⟩ := admissionTokens_padded h.padded
  have hcapped := capAdmission_le hcap
  have hcaps := capAdmission_eq_iff hroom hcap
  have htried := tryScheduleEncoderInputs_le cfg svc htry
  have hpos : (0 : ℤ) < 1 + cfg.numSpecTokens := by omega
  have hmamba : plan.numNewTokens ≤ max tried.numNewTokens 0 := by
    rw [hplan]
    split_ifs
    · exact mambaBlockAlignedSplit_le cfg _ _ _ _
    · exact le_max_left _ _
  constructor
  · intro heq
    have hn : n = 1 + cfg.numSpecTokens := by omega
    have hall : tried.numNewTokens = 1 + cfg.numSpecTokens := by omega
    rw [hn] at htry
    obtain ⟨hthreshold, hbudget⟩ := hcaps.mp hn
    refine ⟨hthreshold, hbudget, (tryScheduleEncoderInputs_eq_iff cfg svc hpos htry).mp hall, ?_⟩
    intro hneeded
    rw [if_pos hneeded, hall] at hplan
    exact (mambaBlockAlignedSplit_eq_iff cfg _ hpos _ _).mp (hplan.symm.trans heq)
  · rintro ⟨hthreshold, hbudget, hencoder, haligned⟩
    have hn : n = 1 + cfg.numSpecTokens := hcaps.mpr ⟨hthreshold, hbudget⟩
    rw [hn] at htry
    have hall := (tryScheduleEncoderInputs_eq_iff cfg svc hpos htry).mpr hencoder
    rw [hplan, hall]
    split_ifs with hneeded
    · exact (mambaBlockAlignedSplit_eq_iff cfg _ hpos _ _).mpr (haligned hneeded)
    · rfl

end Padded

/-- Before a step: a running request has `m` tokens left to compute beside its drafts, and no
padded admission of another is cut. -/
def LeavesRoom (cfg : Config) (svc : Services σ) (throttlePrefills : Bool) (s : State σ) (m : ℕ)
    (id : RequestId) : Prop :=
  if id ∈ s.running then (m : ℤ) ≤ (s.request id).numPending
  else
    let (ctx, visits) := stepAdmissions cfg svc throttlePrefills s
    ∀ visit ∈ visits, visit.1 = id → ∀ cached q n plan,
      PaddedAdmission cfg svc ctx id visit.2 cached q n plan → Uncut cfg svc ctx id cached q

theorem StepPasses.fits_iff {throttlePrefills : Bool} {s s' : State σ} {p q : Pass σ}
    {ds : List DraftToken} (h : StepPasses cfg svc throttlePrefills s p q out s')
    (hdrafts : out.scheduledSpecDecodeTokens.get? id = some ds) {m : ℕ}
    (hm : id ∈ s.running ∨ m = 1) :
    (∃ n, out.numScheduledTokens.get? id = some n ∧ (ds.length : ℤ) + m ≤ n) ↔
      LeavesRoom cfg svc throttlePrefills s m id := by
  unfold LeavesRoom
  by_cases hid : id ∈ s.running
  · rw [if_pos hid]
    obtain ⟨-, n, hn, -, hends⟩ := h.running_drafts hid hdrafts
    rw [← hends m, hn]
    simp
  · rw [if_neg hid, hm.resolve_left hid]
    dsimp only
    obtain ⟨visit, hvisit, rfl, cached, looked, n, plan, hadmission, hn, rfl⟩ :=
      h.padded_drafts hid hdrafts
    have hle := hadmission.tokens_le
    rw [List.length_replicate]
    constructor
    · rintro ⟨n', hn', hfit⟩ visit' hvisit' heq cached' looked' m' plan' hadmission'
      rw [← heq] at hadmission'
      obtain ⟨-, hentry, -⟩ := h.padded_entry hvisit' hadmission'
      have hle' := hadmission'.tokens_le
      rw [heq, hn'] at hentry
      rw [← heq]
      apply hadmission'.uncut_iff.mp
      have hsame := Option.some.inj hentry
      push_cast at hfit
      omega
    · intro huncut
      have hfull := hadmission.uncut_iff.mpr (huncut visit hvisit rfl cached looked n plan hadmission)
      exact ⟨plan.numNewTokens, hn, by push_cast; omega⟩

/-- Every request that a step gives drafts has room for the sampled token. -/
def KeepsFit (cfg : Config) (svc : Services σ) (e : Engine σ) : Action σ → Prop
  | .schedule throttlePrefills => ∀ out s, schedule cfg svc throttlePrefills e.state = .ok (out, s) →
      ∀ id, (out.scheduledSpecDecodeTokens.get? id).isSome = true →
        LeavesRoom cfg svc throttlePrefills e.state cfg.numSampledTokensPerStep id
  | _ => True

theorem DraftsFit.sameShape {m : ℕ}
    (h : DraftsFit m out.numScheduledTokens out.scheduledSpecDecodeTokens)
    (hsame : out.SameShape out') :
    DraftsFit m out'.numScheduledTokens out'.scheduledSpecDecodeTokens := by
  intro id drafts hdrafts
  have hlength := hsame.drafts id
  rw [hdrafts, Option.map_some] at hlength
  obtain ⟨drafts', hdrafts', heq⟩ := Option.map_eq_some_iff.mp hlength.symm
  obtain ⟨n, hn, hfit⟩ := h id drafts' hdrafts'
  rw [hsame.tokens, ← heq]
  exact ⟨n, hn, hfit⟩

theorem Engine.Reached.draftsFit {e : Engine σ}
    (h : Engine.Reached cfg svc (KeepsFit cfg svc) e) : ∀ f ∈ e.inFlight,
    DraftsFit cfg.numSampledTokensPerStep f.out.numScheduledTokens
      f.out.scheduledSpecDecodeTokens := by
  refine h.forall_inFlight (I := fun f => DraftsFit cfg.numSampledTokensPerStep
    f.out.numScheduledTokens f.out.scheduledSpecDecodeTokens) ?_ ?_
  · intro e throttlePrefills out s hreached hQ hstep id ds hdrafts
    obtain ⟨p, q, hpasses⟩ := schedule_passes hreached.queues hstep
    apply (hpasses.fits_iff hdrafts _).mpr
    · exact hQ out s hstep id (by rw [hdrafts]; rfl)
    · by_cases hid : id ∈ e.state.running
      · exact .inl hid
      · right
        obtain ⟨visit, -, -, cached, looked, n, plan, hadmission, -⟩ :=
          hpasses.padded_drafts hid hdrafts
        have hsampled := (padsSpecDecode_spec (admissionTokens_padded hadmission.padded).1).2
        have hone := numSampledTokensPerStep_le cfg
        omega
  · intro e f drafts hf
    exact hf.sameShape (updateDraftTokenIdsInOutput_shape svc e.state f.out (e.stamp drafts))

theorem updateRequestAsSession_computed (s : State σ) (id id' : RequestId) (update : StreamingUpdate) :
    ((s.updateRequestAsSession id update).request id').numComputedTokens =
      (s.request id').numComputedTokens := by
  show ((s.setRequest id ((s.request id).updateAsSession update)).request id').numComputedTokens = _
  by_cases heq : id' = id
  · rw [heq, State.setRequest_self]
    rfl
  · rw [s.setRequest_of_ne heq]

theorem handleStoppedRequest_computed (svc : Services σ) (s : State σ) (id id' : RequestId) :
    ((s.handleStoppedRequest svc id).request id').numComputedTokens =
      (s.request id').numComputedTokens := by
  have hset : ∀ r : Request, r.numComputedTokens = (s.request id).numComputedTokens →
      ((s.setRequest id r).request id').numComputedTokens = (s.request id').numComputedTokens := by
    intro r hr
    by_cases heq : id' = id
    · rw [heq, State.setRequest_self, hr]
    · rw [s.setRequest_of_ne heq]
  unfold State.handleStoppedRequest
  dsimp only
  split_ifs
  · rfl
  · cases (s.request id).streamingQueue.getD [] with
    | nil =>
      dsimp only
      rw [(enqueueWaitingRequest_else svc _ id).2.2]
      exact hset _ rfl
    | cons next queue =>
      cases next with
      | none => exact hset _ rfl
      | some update =>
        dsimp only
        rw [(enqueueWaitingRequest_else svc _ id).2.2, updateRequestAsSession_computed]
        exact hset _ rfl

theorem takeOutput_computed (mo : ModelRunnerOutput) (id id' : RequestId) (generated : List ℤ)
    (u : UpdatePass σ) :
    ((takeOutput cfg svc mo id generated u).request id').numComputedTokens =
      (u.request id').numComputedTokens := by
  unfold takeOutput
  extract_lets statusBefore
  generalize hreceive : receiveOutput cfg svc mo id generated (u.request id) u.services = received
  obtain ⟨stopped, r, services⟩ := received
  have hr := (receiveOutput_spec hreceive).computed
  have hset : ((u.toState.setRequest id r).request id').numComputedTokens =
      (u.request id').numComputedTokens := by
    by_cases heq : id' = id
    · rw [heq, State.setRequest_self, hr]
    · rw [u.toState.setRequest_of_ne heq]
  dsimp only
  split_ifs
  · exact (handleStoppedRequest_computed svc _ id id').trans hset
  · exact (handleStoppedRequest_computed svc _ id id').trans hset
  · exact hset

/-- The computed tokens that a turn of the loop leaves: of the request its drafts at most are
taken back, of every other nothing. -/
theorem updateRequest_computed {p : RequestId × ℤ}
    (hstep : updateRequest cfg svc out mo failed u p = .ok u') (id : RequestId) :
    (u.request id).numComputedTokens -
        (if id = p.1 then (draftsOf out.scheduledSpecDecodeTokens p.1).length else 0) ≤
      (u'.request id).numComputedTokens := by
  by_cases heq : id = p.1
  · rw [if_pos heq, heq]
    have hdrained : ((u.drained p).request p.1).numComputedTokens =
        (u.request p.1).numComputedTokens := by
      rw [show (u.drained p).request p.1 = (u.request p.1).drain p.2 from u.toState.setRequest_self _ _]
      rfl
    obtain ⟨-, hturn⟩ := updateRequest_turned hstep
    cases hturn with
    | gone _ => omega
    | passed _ _ => omega
    | silent _ _ _ => omega
    | received generated _ _ _ =>
      have hlower := (verifyDrafts_verified cfg out p.1
        (decide (0 < (u.request p.1).numStaleOutputTokens)) generated (u.drained p)).lower
      unfold receiveRequest
      rw [takeOutput_computed]
      omega
  · rw [if_neg heq, (updateRequest_other hstep heq).2]
    omega

theorem foldlM_updateRequest_computed {rest : List (RequestId × ℤ)}
    (hnodup : (rest.map Prod.fst).Nodup)
    (hfold : rest.foldlM (updateRequest cfg svc out mo failed) u = .ok u') (id : RequestId) :
    (u.request id).numComputedTokens -
        (if id ∈ rest.map Prod.fst then (draftsOf out.scheduledSpecDecodeTokens id).length else 0) ≤
      (u'.request id).numComputedTokens := by
  induction rest generalizing u with
  | nil =>
    cases hfold
    simp
  | cons first rest ih =>
    rw [List.foldlM_cons, bind_eq_ok] at hfold
    obtain ⟨v, hfirst, hfold⟩ := hfold
    rw [List.map_cons, List.nodup_cons] at hnodup
    have hstep := updateRequest_computed hfirst id
    have hrest := ih hnodup.2 hfold
    rw [List.map_cons]
    by_cases heq : id = first.1
    · rw [if_pos heq, ← heq] at hstep
      rw [← heq] at hnodup ⊢
      rw [if_neg hnodup.1] at hrest
      rw [if_pos List.mem_cons_self]
      omega
    · rw [if_neg heq] at hstep
      have hsame : id ∈ first.1 :: rest.map Prod.fst ↔ id ∈ rest.map Prod.fst := by
        rw [List.mem_cons, or_iff_right heq]
      simp only [hsame]
      omega

theorem foldlM_updateRequest_pos {rest : List (RequestId × ℤ)}
    (hfold : rest.foldlM (updateRequest cfg svc out mo failed) u = .ok u') :
    ∀ p ∈ rest, 0 < p.2 := by
  induction rest generalizing u with
  | nil => exact nofun
  | cons first rest ih =>
    rw [List.foldlM_cons, bind_eq_ok] at hfold
    obtain ⟨v, hfirst, hfold⟩ := hfold
    rw [List.forall_mem_cons]
    refine ⟨?_, ih hfold⟩
    by_contra hneg
    unfold updateRequest at hfirst
    dsimp only at hfirst
    rw [if_pos (not_lt.mp hneg)] at hfirst
    cases hfirst

/-- The requests whose loads failed, and the state behind `_handle_invalid_blocks`. -/
def State.failLoads (cfg : Config) (svc : Services σ) (out : SchedulerOutput)
    (mo : ModelRunnerOutput) (s : State σ) : List RequestId × State σ :=
  if mo.invalidBlockIds ≠ [] then
    handleInvalidBlocks cfg svc mo.invalidBlockIds out.numScheduledTokens s
  else ([], s)

theorem updateFromKvXferFinished_request {s s' : State σ}
    (h : s.updateFromKvXferFinished mo = .ok s') : s'.request = s.request := by
  have hfree : ∀ (s₁ : State σ) id s₂, s₁.request = s.request → s₁.freeBlocks id = .ok s₂ →
      s₂.request = s.request := by
    intro s₁ id s₂ h₁ hstep
    simp only [State.freeBlocks, bind_eq_ok, pure_eq_ok] at hstep
    obtain ⟨-, -, -, -, rfl⟩ := hstep
    exact h₁
  simp only [State.updateFromKvXferFinished, bind_eq_ok] at h
  obtain ⟨t, hrecving, hsending⟩ := h
  have ht : t.request = s.request := by
    refine foldlM_keeps (I := fun t => t.request = s.request) ?_ rfl hrecving
    intro s₁ id s₂ h₁ hstep
    split_ifs at hstep
    · cases hstep
      exact h₁
    · exact hfree s₁ id s₂ h₁ hstep
  exact foldlM_keeps (I := fun t => t.request = s.request) hfree ht hsending

theorem UpdateParts.computed {s s' t : State σ} {update : Option Decoding.AcceptanceLengthUpdate}
    (h : UpdateParts cfg svc out mo s failed t u update s')
    (hn : out.numScheduledTokens.get? id = some n) :
    0 < n ∧ ((s.failLoads cfg svc out mo).2.request id).numComputedTokens -
      (draftsOf out.scheduledSpecDecodeTokens id).length ≤ (s'.request id).numComputedTokens := by
  obtain ⟨controller, -, errors, hfinished⟩ := h.observed
  have hend : (s'.request id).numComputedTokens = (u.request id).numComputedTokens := by
    rw [updateFromKvXferFinished_request hfinished, finishRequests_request]
    split_ifs
    · rfl
    · rfl
  have hstart : (s.failLoads cfg svc out mo).2 = t := congrArg Prod.snd h.loads
  have hitem := Keyed.get?_eq_some.mp hn
  have hloop := foldlM_updateRequest_computed out.numScheduledTokens.nodup h.loop id
  rw [if_pos (List.mem_map.mpr ⟨(id, n), hitem, rfl⟩)] at hloop
  rw [hend, hstart]
  exact ⟨foldlM_updateRequest_pos h.loop (id, n) hitem, hloop⟩

theorem UpdateParts.computed_fit {s s' t : State σ}
    {update : Option Decoding.AcceptanceLengthUpdate}
    (h : UpdateParts cfg svc out mo s failed t u update s')
    (hfit : DraftsFit cfg.numSampledTokensPerStep out.numScheduledTokens
      out.scheduledSpecDecodeTokens) (hn : out.numScheduledTokens.get? id = some n) :
    ((s.failLoads cfg svc out mo).2.request id).numComputedTokens + cfg.numSampledTokensPerStep ≤
      (s'.request id).numComputedTokens + n := by
  obtain ⟨hpos, hleft⟩ := h.computed hn
  have hone := numSampledTokensPerStep_le cfg
  unfold draftsOf at hleft
  cases hdrafts : out.scheduledSpecDecodeTokens.get? id with
  | none =>
    rw [hdrafts, Option.getD_none, List.length_nil] at hleft
    omega
  | some ds =>
    obtain ⟨m, hm, hlength⟩ := hfit id ds hdrafts
    rw [hn, Option.some.injEq] at hm
    rw [hdrafts, Option.getD_some] at hleft
    omega

/-- The tokens of the step still stand in the computed ones of a request. The one that a
finished transfer leaves to compute was computed before. -/
def InFlight.Counted (cfg : Config) (f : InFlight σ) (s : State σ) : Prop :=
  ∀ id n, f.out.numScheduledTokens.get? id = some n →
    (f.before.request id).numComputedTokens + n ≤ (s.request id).numComputedTokens + 1 ∧
      (cfg.numSampledTokensPerStep = 0 → draftsOf f.out.scheduledSpecDecodeTokens id ≠ [] →
        (f.before.request id).numComputedTokens + n ≤ (s.request id).numComputedTokens)

theorem InFlight.Counted.of_computed {f f' : InFlight σ} {s s' : State σ} (h : f.Counted cfg s)
    (hbefore : f'.before = f.before) (hshape : f.out.SameShape f'.out)
    (hcomputed : ∀ id, (s'.request id).numComputedTokens = (s.request id).numComputedTokens) :
    f'.Counted cfg s' := by
  intro id n hn
  rw [hshape.tokens] at hn
  obtain ⟨hsince, hexact⟩ := h id n hn
  rw [hbefore, hcomputed]
  refine ⟨hsince, fun hzero hne => hexact hzero ?_⟩
  intro hnone
  apply hne
  have hlength := hshape.length_draftsOf id
  rwa [hnone, List.length_nil, List.length_eq_zero_iff] at hlength

/-- One step at a time: the next is scheduled when the output of the last one is taken back,
and requests are added or preempted between two steps. -/
def OneAtATime (e : Engine σ) : Action σ → Prop
  | .schedule _ | .addRequest _ _ _ | .preemptRunning => e.inFlight = []
  | _ => True

theorem SchedulerOutput.SameShape.refl (out : SchedulerOutput) : out.SameShape out :=
  ⟨rfl, rfl, fun _ => rfl⟩

theorem updateDraftTokenIds_computed (svc : Services σ) (s : State σ)
    (drafts : List (RequestId × List DraftToken)) (id : RequestId) :
    ((s.updateDraftTokenIds svc drafts).request id).numComputedTokens =
      (s.request id).numComputedTokens := by
  unfold State.updateDraftTokenIds
  induction drafts generalizing s with
  | nil => rfl
  | cons first drafts ih =>
    rw [List.foldl_cons, ih]
    have hset : ∀ ds, ((s.setRequest first.1 { s.request first.1 with
        specTokenIds := ds }).request id).numComputedTokens = (s.request id).numComputedTokens := by
      intro ds
      by_cases heq : id = first.1
      · rw [heq, State.setRequest_self]
      · rw [s.setRequest_of_ne heq]
    dsimp only
    split_ifs
    · rfl
    · exact hset _
    · exact hset _
    · exact hset _

/-- In a run of one step after the other the tokens of the step in flight stay counted. -/
theorem Engine.Reached.counted {e : Engine σ} (h : Engine.Reached cfg svc OneAtATime e) :
    e.inFlight.length ≤ 1 ∧ ∀ f ∈ e.inFlight, f.Counted cfg e.state := by
  induction h with
  | start _ => exact ⟨Nat.zero_le _, List.forall_mem_nil _⟩
  | @act e e' a hreached hQ hact ih =>
    obtain ⟨hone, hcounted⟩ := ih
    have hidle : ∀ s : State σ, e.inFlight = [] → ∀ f ∈ e.inFlight, f.Counted cfg s := by
      intro s hnone
      rw [hnone]
      exact List.forall_mem_nil _
    have hsame : ∀ s : State σ,
        (∀ id, (s.request id).numComputedTokens = (e.state.request id).numComputedTokens) →
        ∀ f ∈ e.inFlight, f.Counted cfg s :=
      fun s hcomputed f hf => (hcounted f hf).of_computed rfl (.refl _) hcomputed
    cases a with
    | addRequest id r update =>
      simp only [Engine.act, bind_eq_ok, pure_eq_ok] at hact
      obtain ⟨-, -, s, -, rfl⟩ := hact
      exact ⟨hone, hidle s hQ⟩
    | finishRequests ids finishedStatus =>
      simp only [Engine.act, bind_eq_ok, pure_eq_ok] at hact
      obtain ⟨-, -, rfl⟩ := hact
      refine ⟨hone, hsame _ ?_⟩
      intro id
      rw [finishRequests_request]
      split_ifs <;> rfl
    | setPauseState pauseState =>
      cases hact
      exact ⟨hone, hsame _ fun _ => rfl⟩
    | preemptRunning =>
      simp only [Engine.act, bind_eq_ok, pure_eq_ok] at hact
      obtain ⟨s, -, rfl⟩ := hact
      exact ⟨hone, hidle s hQ⟩
    | serve services =>
      cases hact
      exact ⟨hone, hsame _ fun _ => rfl⟩
    | updateDraftTokenIds drafts =>
      cases hact
      exact ⟨hone, hsame _ (updateDraftTokenIds_computed svc e.state _)⟩
    | schedule throttlePrefills =>
      simp only [Engine.act, bind_eq_ok, pure_eq_ok] at hact
      obtain ⟨⟨out, s⟩, hstep, rfl⟩ := hact
      obtain ⟨p, q, hpasses⟩ := schedule_passes hreached.queues hstep
      have hnone : e.executed ++ e.scheduled = [] := hQ
      unfold Engine.inFlight
      dsimp only
      rw [← List.append_assoc, hnone, List.nil_append]
      refine ⟨le_rfl, ?_⟩
      rw [List.forall_mem_singleton]
      exact fun id n hn => hpasses.since hn
    | updateDraftTokenIdsInOutput i drafts =>
      cases hact
      unfold Engine.inFlight at hone hcounted ⊢
      dsimp only
      rw [List.forall_mem_append] at hcounted ⊢
      refine ⟨?_, hcounted.1, ?_⟩
      · rwa [List.length_append, List.length_modify, ← List.length_append]
      · intro f hf
        obtain ⟨j, hj, rfl⟩ := List.mem_iff_getElem.mp hf
        rw [List.length_modify] at hj
        have hold := hcounted.2 _ (List.getElem_mem hj)
        rw [List.getElem_modify]
        split_ifs
        · exact hold.of_computed rfl (updateDraftTokenIdsInOutput_shape svc _ _ _) fun _ => rfl
        · exact hold
    | execute =>
      unfold Engine.act at hact
      unfold Engine.inFlight at hone hcounted ⊢
      cases hnext : e.scheduled with
      | nil =>
        rw [hnext] at hact
        cases hact
      | cons f rest =>
        rw [hnext] at hact hone hcounted
        cases hact
        dsimp only
        rw [List.append_assoc, List.singleton_append]
        exact ⟨hone, hcounted⟩
    | updateFromOutput mo =>
      unfold Engine.act at hact
      unfold Engine.inFlight at hone ⊢
      cases holdest : e.executed with
      | nil =>
        rw [holdest] at hact
        cases hact
      | cons f rest =>
        rw [holdest] at hact hone
        simp only [bind_eq_ok, pure_eq_ok] at hact
        obtain ⟨⟨update, s⟩, -, rfl⟩ := hact
        rw [List.cons_append, List.length_cons] at hone
        have hnone : rest ++ e.scheduled = [] := List.length_eq_zero_iff.mp (by omega)
        dsimp only
        rw [hnone]
        exact ⟨Nat.zero_le _, List.forall_mem_nil _⟩

/-- The state that a failed load leaves a request in is the one before the update. -/
def LoadStands (cfg : Config) (svc : Services σ) (f : InFlight σ) (mo : ModelRunnerOutput)
    (s : State σ) (id : RequestId) : Prop :=
  ((s.failLoads cfg svc f.out mo).2.request id).numComputedTokens = (s.request id).numComputedTokens

/-- Over every run. In any state a request that a step gives drafts has a token beside them
exactly where there was room for it. Where every step leaves room, an update takes back fewer
tokens than its step gave, but for those sampled; and where there is one step at a time, none
computed before the step. -/
theorem drafts_fit_iff_leavesRoom {throttlePrefills : Bool} {e : Engine σ} {s' : State σ} :
    (Engine.Reached cfg svc (fun _ _ => True) e →
      schedule cfg svc throttlePrefills e.state = .ok (out, s') →
      ∀ id ds, out.scheduledSpecDecodeTokens.get? id = some ds →
        ((∃ n, out.numScheduledTokens.get? id = some n ∧ (ds.length : ℤ) + 1 ≤ n) ↔
          LeavesRoom cfg svc throttlePrefills e.state 1 id)) ∧
    (Engine.Reached cfg svc (KeepsFit cfg svc) e → ∀ f rest update, e.executed = f :: rest →
      updateFromOutput cfg svc f.out mo e.state = .ok (update, s') →
      ∀ id n, f.out.numScheduledTokens.get? id = some n →
        ((e.state.failLoads cfg svc f.out mo).2.request id).numComputedTokens +
          cfg.numSampledTokensPerStep ≤ (s'.request id).numComputedTokens + n) ∧
    (Engine.Reached cfg svc (fun e a => KeepsFit cfg svc e a ∧ OneAtATime e a) e →
      ∀ f rest update, e.executed = f :: rest →
      updateFromOutput cfg svc f.out mo e.state = .ok (update, s') →
      ∀ id n, f.out.numScheduledTokens.get? id = some n → LoadStands cfg svc f mo e.state id →
        (f.before.request id).numComputedTokens ≤ (s'.request id).numComputedTokens) := by
  have holdest : ∀ f rest, e.executed = f :: rest → f ∈ e.inFlight := by
    intro f rest hexecuted
    unfold Engine.inFlight
    rw [hexecuted, List.cons_append]
    exact List.mem_cons_self
  refine ⟨?_, ?_, ?_⟩
  · intro hreached hstep id ds hds
    obtain ⟨p, q, hpasses⟩ := schedule_passes hreached.queues hstep
    have hfits := hpasses.fits_iff hds (.inr rfl)
    simpa only [Nat.cast_one] using hfits
  · intro hreached f rest update hexecuted hstep id n hn
    obtain ⟨failed, t, u, hparts⟩ := updateFromOutput_parts hstep
    exact hparts.computed_fit (hreached.draftsFit f (holdest f rest hexecuted)) hn
  · intro hreached f rest update hexecuted hstep id n hn hstands
    have hf := holdest f rest hexecuted
    have hfit := (hreached.mono fun _ _ hQ => hQ.1).draftsFit f hf
    obtain ⟨hsince, hexact⟩ := (hreached.mono fun _ _ hQ => hQ.2).counted.2 f hf id n hn
    obtain ⟨failed, t, u, hparts⟩ := updateFromOutput_parts hstep
    have hback := hparts.computed_fit hfit hn
    obtain ⟨hpos, hleft⟩ := hparts.computed hn
    unfold LoadStands at hstands
    rw [hstands] at hback hleft
    have hone := numSampledTokensPerStep_le cfg
    by_cases hdrafts : draftsOf f.out.scheduledSpecDecodeTokens id = []
    · rw [hdrafts, List.length_nil] at hleft
      omega
    · by_cases hzero : cfg.numSampledTokensPerStep = 0
      · have hall := hexact hzero hdrafts
        omega
      · omega

theorem keepsFit_of_schedule {throttlePrefills : Bool} {e : Engine σ} {s' : State σ}
    (hstep : schedule cfg svc throttlePrefills e.state = .ok (out, s')) (ids : List RequestId)
    (hids : out.scheduledSpecDecodeTokens.items.map Prod.fst = ids)
    (hroom : ∀ id ∈ ids, LeavesRoom cfg svc throttlePrefills e.state cfg.numSampledTokensPerStep id) :
    KeepsFit cfg svc e (.schedule throttlePrefills) := by
  intro out' s'' hstep' id hid
  rw [hstep] at hstep'
  cases hstep'
  obtain ⟨ds, hds⟩ := Option.isSome_iff_exists.mp hid
  apply hroom
  rw [← hids]
  exact List.mem_map.mpr ⟨_, Keyed.get?_eq_some.mp hds, rfl⟩

theorem leavesRoom_of_running {throttlePrefills : Bool} {s : State σ} {m : ℕ}
    (hid : id ∈ s.running) (hpending : (m : ℤ) ≤ (s.request id).numPending) :
    LeavesRoom cfg svc throttlePrefills s m id := by
  unfold LeavesRoom
  rw [if_pos hid]
  exact hpending

/-- One prefill token beside a decode, two drafts. -/
def oneToken : Config where
  maxNumRunningReqs := 4
  maxNumScheduledTokens := 100
  maxModelLen := 1000
  enableDecodeAwarePrefill := true
  decodePrefillTokenBudget := 1
  numSpecTokens := 2

/-- A decode with two drafts, both rejected, is given three tokens and keeps one. -/
theorem drafts_fit_iff_leavesRoom_decode :
    ∃ (e : Engine (List Bool)) (f : InFlight (List Bool)) (s' : State (List Bool)),
      (f.out.scheduledSpecDecodeTokens.get? "a").map List.length = some 2 ∧
      (∃ n, f.out.numScheduledTokens.get? "a" = some n ∧ (2 : ℤ) + 1 ≤ n) ∧
      (f.before.request "a").numComputedTokens = 1 ∧ (s'.request "a").numComputedTokens = 2 ∧
      ((e.state.failLoads oneToken .scripted f.out (sampling [7])).2.request "a").numComputedTokens +
        oneToken.numSampledTokensPerStep ≤ (s'.request "a").numComputedTokens + 3 ∧
      (f.before.request "a").numComputedTokens ≤ (s'.request "a").numComputedTokens := by
  have hstart : Engine.Reached oneToken .scripted (fun e a => KeepsFit oneToken .scripted e a ∧
      OneAtATime e a) { state := emptyState [] } := .start (emptyState_initial [])
  have hfirst := hstart.act (a := .addRequest "a" (prompt 1) none) ⟨trivial, rfl⟩ rfl
  have hprefill := hfirst.act (a := .schedule false)
    ⟨keepsFit_of_schedule rfl [] rfl (List.forall_mem_nil _), rfl⟩ rfl
  have hran := hprefill.act (a := .execute) ⟨trivial, trivial⟩ rfl
  have hdecoding := hran.act (a := .updateFromOutput (sampling [7])) ⟨trivial, trivial⟩ rfl
  have hdrafted := hdecoding.act (a := .updateDraftTokenIds [("a", [5, 6])]) ⟨trivial, trivial⟩ rfl
  have hstep := hdrafted.act (a := .schedule false) ⟨keepsFit_of_schedule rfl ["a"] rfl
    (List.forall_mem_singleton.mpr (leavesRoom_of_running (by decide) (by decide))), rfl⟩ rfl
  have hverified := hstep.act (a := .execute) ⟨trivial, trivial⟩ rfl
  obtain ⟨e₁, hbefore, hroom, out, s, hschedule, ds, hds, hlength, e, hreached, f, hexecuted, hout,
      update, s', hupdate, hthree, hstands, hone, htwo⟩ :
      ∃ e₁, Engine.Reached oneToken .scripted (fun e a => KeepsFit oneToken .scripted e a ∧
        OneAtATime e a) e₁ ∧ LeavesRoom oneToken .scripted false e₁.state 1 "a" ∧
      ∃ out s, schedule oneToken .scripted false e₁.state = .ok (out, s) ∧
      ∃ ds, out.scheduledSpecDecodeTokens.get? "a" = some ds ∧ ds.length = 2 ∧
      ∃ e, Engine.Reached oneToken .scripted (fun e a => KeepsFit oneToken .scripted e a ∧
        OneAtATime e a) e ∧ ∃ f, e.executed = [f] ∧ f.out = out ∧
      ∃ update s', updateFromOutput oneToken .scripted f.out (sampling [7]) e.state =
          .ok (update, s') ∧
        f.out.numScheduledTokens.get? "a" = some 3 ∧
        LoadStands oneToken .scripted f (sampling [7]) e.state "a" ∧
        (f.before.request "a").numComputedTokens = 1 ∧ (s'.request "a").numComputedTokens = 2 :=
    ⟨_, hdrafted, leavesRoom_of_running (by decide) (by decide), _, _, rfl, _, rfl, rfl,
      _, hverified, _, rfl, rfl, _, _, rfl, rfl, rfl, rfl, rfl⟩
  have hfits := (@drafts_fit_iff_leavesRoom _ _ _ _ (sampling [7]) _ _ _).1
    (hbefore.mono fun _ _ _ => trivial) hschedule "a" ds hds
  have hcounted := (@drafts_fit_iff_leavesRoom _ _ _ out _ false _ _).2.1
    (hreached.mono fun _ _ hQ => hQ.1) f [] update hexecuted hupdate "a" 3 hthree
  have hkept := (@drafts_fit_iff_leavesRoom _ _ _ out _ false _ _).2.2
    hreached f [] update hexecuted hupdate "a" 3 hthree hstands
  refine ⟨e, f, s', ?_, ?_, hone, htwo, hcounted, hkept⟩
  · rw [hout, hds, Option.map_some, hlength]
  · rw [hout]
    have hfit := hfits.mpr hroom
    rwa [hlength] at hfit

def fourTokens : Config where
  maxNumRunningReqs := 4
  maxNumScheduledTokens := 4
  maxModelLen := 1000
  numSpecTokens := 2

/-- A decode runs when a one-token prompt is admitted: it is padded to three tokens, cut to
one, and keeps two drafts. Its rejected drafts take it below no token at all. And two steps in
flight compute a prompt of eight tokens: drafts that come behind the first are scheduled alone. -/
theorem drafts_exceed :
    (∃ (e : Engine (List Bool)) (f : InFlight (List Bool))
      (update : Option Decoding.AcceptanceLengthUpdate) (s' : State (List Bool)),
      Engine.Reached oneToken .scripted OneAtATime e ∧ e.executed = [f] ∧
      (f.out.scheduledSpecDecodeTokens.get? "b").map List.length = some 2 ∧
      f.out.numScheduledTokens.get? "b" = some 1 ∧
      updateFromOutput oneToken .scripted f.out (sampling [7]) e.state = .ok (update, s') ∧
      (s'.request "b").numComputedTokens < (f.before.request "b").numComputedTokens) ∧
    ∃ (e : Engine (List Bool)) (out : SchedulerOutput) (s' : State (List Bool)),
      Engine.Reached fourTokens .scripted (fun _ _ => True) e ∧
      schedule fourTokens .scripted false e.state = .ok (out, s') ∧
      (out.scheduledSpecDecodeTokens.get? "a").map List.length = some 2 ∧
      out.numScheduledTokens.get? "a" = some 2 := by
  constructor
  · have hstart : Engine.Reached oneToken .scripted OneAtATime { state := emptyState [] } :=
      .start (emptyState_initial [])
    have hfirst := hstart.act (a := .addRequest "a" (prompt 1) none) rfl rfl
    have hprefill := hfirst.act (a := .schedule false) rfl rfl
    have hran := hprefill.act (a := .execute) trivial rfl
    have hdecoding := hran.act (a := .updateFromOutput (sampling [7])) trivial rfl
    have hsecond := hdecoding.act (a := .addRequest "b" (prompt 1) none) rfl rfl
    have hstep := hsecond.act (a := .schedule false) rfl rfl
    have hverified := hstep.act (a := .execute) trivial rfl
    exact ⟨_, _, _, _, hverified, rfl, by decide, by decide, rfl, by decide⟩
  · have hstart : Engine.Reached fourTokens .scripted (fun _ _ => True) { state := emptyState [] } :=
      .start (emptyState_initial [])
    have hprompt := hstart.act (a := .addRequest "a" (prompt 8) none) trivial rfl
    have hfirst := hprompt.act (a := .schedule false) trivial rfl
    have hsecond := hfirst.act (a := .schedule false) trivial rfl
    have hran := hsecond.act (a := .execute) trivial rfl
    have hupdated := hran.act (a := .updateFromOutput (sampling [])) trivial rfl
    have hdrafted := hupdated.act (a := .updateDraftTokenIds [("a", [5, 6])]) trivial rfl
    exact ⟨_, _, _, hdrafted, rfl, rfl, rfl⟩

end ChampionRuntime.Scheduler
