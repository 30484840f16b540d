import ChampionRuntime.Scheduler.State
import ChampionRuntime.Lib.Outcome
import Mathlib.Tactic

/-!
# Cuts of a request's new tokens

`_mamba_block_aligned_split` and `_try_schedule_encoder_inputs` end a request's
tokens where a state must be cached or an encoder input cannot be had.
-/
namespace ChampionRuntime.Scheduler

open Lib

variable {σ : Type} (cfg : Config) (svc : Services σ)

/-- Where a chunk that ends before the prefill does is moved to. -/
def alignedEnd (start stop : ℤ) : ℤ :=
  let maxPrefillTokens :=
    if 0 < cfg.longPrefillTokenThreshold then
      min cfg.maxNumScheduledTokens cfg.longPrefillTokenThreshold
    else cfg.maxNumScheduledTokens
  let aligned := stop / cfg.cacheBlockSize * cfg.cacheBlockSize
  if start < aligned ∨ (cfg.cacheBlockSize : ℤ) ≤ maxPrefillTokens then aligned else stop

/-- The positions a chunk must not run past. -/
def mandatoryStops (r : Request) (start stop lastCachePosition : ℤ) : List ℤ :=
  let tailBoundary : ℤ :=
    if cfg.mambaPartialCacheHit then r.numPromptTokens / cfg.hashBlockSize * cfg.hashBlockSize
    else 0
  [if start % cfg.cacheBlockSize ≠ 0 then (start / cfg.cacheBlockSize + 1) * cfg.cacheBlockSize else 0,
    lastCachePosition,
    if lastCachePosition < tailBoundary ∧ tailBoundary < r.numPromptTokens then tailBoundary else 0,
    if start < r.sharedPrefixBoundary ∧ r.sharedPrefixBoundary < stop then
      start + (r.sharedPrefixBoundary - start) / cfg.cacheBlockSize * cfg.cacheBlockSize
    else 0]

def mambaBlockAlignedSplit (r : Request) (numNewTokens : ℤ)
    (numNewLocalComputedTokens numExternalComputedTokens : ℤ) : ℤ :=
  let start := r.numComputedTokens + numNewLocalComputedTokens + numExternalComputedTokens
  let prefillEnd : ℤ := max (r.numPromptTokens : ℤ) (r.numTokens - 1)
  if prefillEnd ≤ start then numNewTokens
  else
    let lastCachePosition : ℤ := r.numTokens - r.numTokens % cfg.cacheBlockSize
    let lastCachePosition :=
      if cfg.useEagle then max (lastCachePosition - cfg.cacheBlockSize) 0 else lastCachePosition
    let stop := start + numNewTokens
    let stop := if stop < prefillEnd then alignedEnd cfg start stop else stop
    let stop := ((mandatoryStops cfg r start stop lastCachePosition).filter fun s =>
      start < s ∧ s < stop).foldl min stop
    max (stop - start) 0

/-- What `_try_schedule_encoder_inputs` returns. -/
structure EncoderPlan where
  encoderInputsToSchedule : List ℕ := []
  numNewTokens : ℤ
  encoderComputeBudget : ℤ
  externalLoadEncoderInput : List ℕ := []

structure EncoderPass where
  plan : EncoderPlan
  mmHashesToSchedule : List String := []
  numEmbedsToSchedule : ℤ := 0

/-- One input of the loop: it goes on with the trackers, or ends with a plan. -/
def tryEncoderInput (id : RequestId) (r : Request) (numComputedTokens shift : ℤ) (i : ℕ)
    (pass : EncoderPass) (s : σ) : Except String ((EncoderPass ⊕ EncoderPlan) × σ) :=
  match r.mmFeatures[i]? with
  | none => .error "list index out of range"
  | some feature =>
    if cfg.isEncoderDecoder ∧ 0 < numComputedTokens then
      if feature.offset = 0 then .ok (.inl pass, s)
      else .error ("Encoder input should be processed at the beginning of " ++
        "the sequence when encoder-decoder models are used.")
    else if ¬ cfg.isEncoderDecoder ∧ feature.identifier ∈ pass.mmHashesToSchedule then
      .ok (.inl pass, s)
    else
      let (cached, s) :=
        if cfg.isEncoderDecoder then (false, s) else svc.checkAndUpdateCache s id r i
      if cached then .ok (.inl pass, s)
      else if cfg.disableChunkedMmInput ∧ numComputedTokens < feature.offset ∧
          numComputedTokens + pass.plan.numNewTokens < feature.offset + feature.length then
        .ok (.inr { pass.plan with
          numNewTokens := max 0 (feature.offset - (numComputedTokens + shift)) }, s)
      else
        let (fits, s) := svc.canAllocateEncoder s id r i pass.plan.encoderComputeBudget
          pass.numEmbedsToSchedule
        if ¬ fits then
          .ok (.inr { pass.plan with
            numNewTokens :=
              if numComputedTokens + shift < feature.offset then
                feature.offset - (numComputedTokens + shift)
              else 0 }, s)
        else if svc.numEmbedsInRange feature (max 0 (numComputedTokens - feature.offset))
            (min (feature.length : ℤ)
              (numComputedTokens + pass.plan.numNewTokens - feature.offset)) = 0 then
          .ok (.inl pass, s)
        else
          let counted : EncoderPass := { pass with
            mmHashesToSchedule := feature.identifier :: pass.mmHashesToSchedule
            numEmbedsToSchedule := pass.numEmbedsToSchedule + feature.numEmbeds }
          if cfg.hasEcConnector ∧ svc.hasCacheItem s feature.identifier then
            .ok (.inl { counted with
              plan.externalLoadEncoderInput := pass.plan.externalLoadEncoderInput ++ [i] }, s)
          else
            .ok (.inl { counted with
              plan.encoderInputsToSchedule := pass.plan.encoderInputsToSchedule ++ [i]
              plan.encoderComputeBudget := pass.plan.encoderComputeBudget - feature.numEmbeds }, s)

/-- The loop over the inputs of the window. -/
def tryEncoderInputs (id : RequestId) (r : Request) (numComputedTokens shift : ℤ) :
    List ℕ → EncoderPass → σ → Except String (EncoderPlan × σ)
  | [], pass, s => .ok (pass.plan, s)
  | i :: is, pass, s => do
    let (step, s) ← tryEncoderInput cfg svc id r numComputedTokens shift i pass s
    match step with
    | .inl pass => tryEncoderInputs id r numComputedTokens shift is pass s
    | .inr plan => return (plan, s)

def tryScheduleEncoderInputs (id : RequestId) (r : Request)
    (numComputedTokens numNewTokens encoderComputeBudget : ℤ) (s : σ) :
    Except String (EncoderPlan × σ) :=
  let plan : EncoderPlan := { numNewTokens, encoderComputeBudget }
  if numNewTokens = 0 ∨ r.hasEncoderInputs = false then .ok (plan, s)
  else
    let shift : ℤ := if cfg.useEagle then 1 else 0
    let window := svc.getMmFeaturesInWindow r.mmFeatures numComputedTokens
      (numComputedTokens + numNewTokens + shift)
    let lo := if cfg.isEncoderDecoder then 0 else window.1
    tryEncoderInputs cfg svc id r numComputedTokens shift (List.range' lo (window.2 - lo)) { plan } s

theorem foldl_min_le (stops : List ℤ) (stop : ℤ) : stops.foldl min stop ≤ stop := by
  induction stops generalizing stop with
  | nil => exact le_rfl
  | cons s stops ih => exact (ih (min stop s)).trans (min_le_left stop s)

theorem alignedEnd_le (start stop : ℤ) : alignedEnd cfg start stop ≤ stop := by
  have hpos : (cfg.cacheBlockSize : ℤ) ≠ 0 := by
    have := cfg.cacheBlockSize_pos
    omega
  have hfloor : stop / cfg.cacheBlockSize * cfg.cacheBlockSize ≤ stop := Int.ediv_mul_le stop hpos
  unfold alignedEnd
  extract_lets maxPrefillTokens aligned
  split_ifs
  · exact hfloor
  · exact le_rfl

theorem mambaBlockAlignedSplit_le (r : Request) (numNewTokens numLocal numExternal : ℤ) :
    mambaBlockAlignedSplit cfg r numNewTokens numLocal numExternal ≤ max numNewTokens 0 := by
  unfold mambaBlockAlignedSplit
  extract_lets start prefillEnd lastCachePosition lastCachePosition' stop stop' last
  split_ifs
  · exact le_max_left _ _
  · have hlast : last ≤ stop' := foldl_min_le _ _
    have hstop : stop' ≤ stop := by
      unfold stop'
      split_ifs
      · exact alignedEnd_le cfg start stop
      · exact le_rfl
    apply max_le_max_right
    omega

theorem tryEncoderInput_spec {id : RequestId} {r : Request} {numComputedTokens shift : ℤ} {i : ℕ}
    {pass : EncoderPass} {s s' : σ} {step : EncoderPass ⊕ EncoderPlan}
    (hwindow : ∃ feature, r.mmFeatures[i]? = some feature ∧
      (feature.offset : ℤ) < numComputedTokens + pass.plan.numNewTokens + shift)
    (h : tryEncoderInput cfg svc id r numComputedTokens shift i pass s = .ok (step, s')) :
    (∃ pass', step = .inl pass' ∧ pass'.plan.numNewTokens = pass.plan.numNewTokens) ∨
      ∃ plan, step = .inr plan ∧ plan.numNewTokens ≤ max pass.plan.numNewTokens 0 ∧
        (0 < pass.plan.numNewTokens → plan.numNewTokens < pass.plan.numNewTokens) := by
  obtain ⟨feature, hfeature, hoffset⟩ := hwindow
  simp only [tryEncoderInput, hfeature] at h
  split_ifs at h
  all_goals
    simp only [Except.ok.injEq, Prod.mk.injEq] at h
    obtain ⟨rfl, -⟩ := h
  all_goals first
    | exact .inl ⟨_, rfl, rfl⟩
    | (refine .inr ⟨_, rfl, ?_⟩
       dsimp only
       constructor
       · omega
       · omega)

theorem tryEncoderInputs_le {id : RequestId} {r : Request} {numComputedTokens shift : ℤ}
    {is : List ℕ} {pass : EncoderPass}
    (hwindow : ∀ i ∈ is, ∃ feature, r.mmFeatures[i]? = some feature ∧
      (feature.offset : ℤ) < numComputedTokens + pass.plan.numNewTokens + shift)
    {s s' : σ} {plan : EncoderPlan}
    (h : tryEncoderInputs cfg svc id r numComputedTokens shift is pass s = .ok (plan, s')) :
    plan.numNewTokens ≤ max pass.plan.numNewTokens 0 := by
  induction is generalizing pass s with
  | nil =>
    cases h
    exact le_max_left _ _
  | cons i is ih =>
    simp only [tryEncoderInputs, bind_eq_ok] at h
    obtain ⟨⟨step, s₁⟩, hstep, h⟩ := h
    have hrest := fun j hj => hwindow j (List.mem_cons_of_mem i hj)
    rcases tryEncoderInput_spec cfg svc (hwindow i List.mem_cons_self) hstep with
      ⟨pass', rfl, hsame⟩ | ⟨plan', rfl, hcut, -⟩
    · rw [← hsame] at hrest ⊢
      exact ih hrest h
    · cases h
      exact hcut

theorem tryEncoderInput_budget {id : RequestId} {r : Request} {numComputedTokens shift budget : ℤ}
    {i : ℕ} {pass : EncoderPass} {s s' : σ} {step : EncoderPass ⊕ EncoderPlan}
    (h : tryEncoderInput cfg svc id r numComputedTokens shift i pass s = .ok (step, s'))
    (hpass : pass.plan.encoderComputeBudget =
      budget - r.encoderEmbeds pass.plan.encoderInputsToSchedule) :
    (∃ pass', step = .inl pass' ∧ pass'.plan.encoderComputeBudget =
        budget - r.encoderEmbeds pass'.plan.encoderInputsToSchedule) ∨
      ∃ plan, step = .inr plan ∧
        plan.encoderComputeBudget = budget - r.encoderEmbeds plan.encoderInputsToSchedule := by
  cases hfeature : r.mmFeatures[i]? with
  | none =>
    simp only [tryEncoderInput, hfeature] at h
    cases h
  | some feature =>
    have hspent : pass.plan.encoderComputeBudget - feature.numEmbeds =
        budget - r.encoderEmbeds (pass.plan.encoderInputsToSchedule ++ [i]) := by
      rw [hpass, Request.encoderEmbeds, Request.encoderEmbeds, List.map_append, List.sum_append,
        List.map_singleton, List.sum_singleton, Request.getNumEncoderEmbeds, hfeature]
      dsimp only
      omega
    simp only [tryEncoderInput, hfeature] at h
    split_ifs at h
    all_goals
      simp only [Except.ok.injEq, Prod.mk.injEq] at h
      obtain ⟨rfl, -⟩ := h
    all_goals first
      | exact .inl ⟨_, rfl, hpass⟩
      | exact .inr ⟨_, rfl, hpass⟩
      | exact .inl ⟨_, rfl, hspent⟩

theorem tryEncoderInputs_budget {id : RequestId} {r : Request} {numComputedTokens shift budget : ℤ}
    {is : List ℕ} {pass : EncoderPass} {s s' : σ} {plan : EncoderPlan}
    (h : tryEncoderInputs cfg svc id r numComputedTokens shift is pass s = .ok (plan, s'))
    (hpass : pass.plan.encoderComputeBudget =
      budget - r.encoderEmbeds pass.plan.encoderInputsToSchedule) :
    plan.encoderComputeBudget = budget - r.encoderEmbeds plan.encoderInputsToSchedule := by
  induction is generalizing pass s with
  | nil =>
    cases h
    exact hpass
  | cons i is ih =>
    simp only [tryEncoderInputs, bind_eq_ok] at h
    obtain ⟨⟨step, s₁⟩, hstep, h⟩ := h
    rcases tryEncoderInput_budget cfg svc hstep hpass with ⟨pass', rfl, hpass'⟩ | ⟨plan', rfl, hplan⟩
    · exact ih h hpass'
    · cases h
      exact hplan

/-- `_try_schedule_encoder_inputs` takes the embeddings of its inputs off the budget. -/
theorem tryScheduleEncoderInputs_budget {id : RequestId} {r : Request}
    {numComputedTokens numNewTokens encoderComputeBudget : ℤ} {s s' : σ} {plan : EncoderPlan}
    (h : tryScheduleEncoderInputs cfg svc id r numComputedTokens numNewTokens encoderComputeBudget s =
      .ok (plan, s')) :
    plan.encoderComputeBudget =
      encoderComputeBudget - r.encoderEmbeds plan.encoderInputsToSchedule := by
  unfold tryScheduleEncoderInputs at h
  extract_lets plan₀ shift window lo at h
  split_ifs at h with hnone
  · simp only [Except.ok.injEq, Prod.mk.injEq] at h
    obtain ⟨rfl, -⟩ := h
    exact (sub_zero _).symm
  · exact tryEncoderInputs_budget cfg svc h (sub_zero _).symm

/-- `_try_schedule_encoder_inputs` gives no more tokens than it is asked for. -/
theorem tryScheduleEncoderInputs_le {id : RequestId} {r : Request}
    {numComputedTokens numNewTokens encoderComputeBudget : ℤ} {s s' : σ} {plan : EncoderPlan}
    (h : tryScheduleEncoderInputs cfg svc id r numComputedTokens numNewTokens encoderComputeBudget s =
      .ok (plan, s')) : plan.numNewTokens ≤ max numNewTokens 0 := by
  unfold tryScheduleEncoderInputs at h
  extract_lets plan₀ shift window lo at h
  split_ifs at h with hnone
  · simp only [Except.ok.injEq, Prod.mk.injEq] at h
    rw [← h.1]
    exact le_max_left _ _
  · apply tryEncoderInputs_le cfg svc _ h
    intro i hi
    rw [List.mem_range'_1] at hi
    apply svc.window_before r.mmFeatures numComputedTokens
    have hinside : i < window.2 := by omega
    exact hinside

/-- Every input of the window is taken, had before or left for later: none ends the loop. -/
def encoderInputsTaken (id : RequestId) (r : Request) (numComputedTokens shift : ℤ) :
    List ℕ → EncoderPass → σ → Prop
  | [], _, _ => True
  | i :: is, pass, s => ∃ pass' s',
      tryEncoderInput cfg svc id r numComputedTokens shift i pass s = .ok (.inl pass', s') ∧
        encoderInputsTaken id r numComputedTokens shift is pass' s'

/-- No encoder input stands in the way of these tokens: the request has none, or the budget and
the encoder cache take all of their window. -/
def EncoderInputsFit (id : RequestId) (r : Request)
    (numComputedTokens numNewTokens encoderComputeBudget : ℤ) (s : σ) : Prop :=
  let shift : ℤ := if cfg.useEagle then 1 else 0
  let window := svc.getMmFeaturesInWindow r.mmFeatures numComputedTokens
    (numComputedTokens + numNewTokens + shift)
  let lo := if cfg.isEncoderDecoder then 0 else window.1
  r.hasEncoderInputs = false ∨
    encoderInputsTaken cfg svc id r numComputedTokens shift (List.range' lo (window.2 - lo))
      { plan := { numNewTokens, encoderComputeBudget } } s

/-- No state is to be cached inside these tokens, and they end where a chunk may end. -/
def EndsAligned (r : Request) (numNewTokens numNewLocalComputedTokens numExternalComputedTokens : ℤ) :
    Prop :=
  let start := r.numComputedTokens + numNewLocalComputedTokens + numExternalComputedTokens
  let prefillEnd : ℤ := max (r.numPromptTokens : ℤ) (r.numTokens - 1)
  let lastCachePosition : ℤ := r.numTokens - r.numTokens % cfg.cacheBlockSize
  let lastCachePosition :=
    if cfg.useEagle then max (lastCachePosition - cfg.cacheBlockSize) 0 else lastCachePosition
  let stop := start + numNewTokens
  prefillEnd ≤ start ∨ (stop < prefillEnd → alignedEnd cfg start stop = stop) ∧
    ∀ s ∈ mandatoryStops cfg r start stop lastCachePosition, ¬ (start < s ∧ s < stop)

theorem foldl_min_eq_iff {stops : List ℤ} {stop : ℤ} (h : ∀ s ∈ stops, s < stop) :
    stops.foldl min stop = stop ↔ stops = [] := by
  constructor
  · intro heq
    cases stops with
    | nil => rfl
    | cons s rest =>
      have hlt := h s List.mem_cons_self
      have hle : rest.foldl min (min stop s) ≤ min stop s := foldl_min_le rest _
      rw [List.foldl_cons] at heq
      omega
  · rintro rfl
    rfl

/-- The Mamba cut leaves the tokens as they are exactly where they end aligned. -/
theorem mambaBlockAlignedSplit_eq_iff (r : Request) {numNewTokens : ℤ} (hpos : 0 < numNewTokens)
    (numLocal numExternal : ℤ) :
    mambaBlockAlignedSplit cfg r numNewTokens numLocal numExternal = numNewTokens ↔
      EndsAligned cfg r numNewTokens numLocal numExternal := by
  unfold mambaBlockAlignedSplit EndsAligned
  extract_lets start prefillEnd cachePosition lastCachePosition stop stop' last
  by_cases hdone : prefillEnd ≤ start
  · rw [if_pos hdone]
    exact iff_of_true rfl (.inl hdone)
  rw [if_neg hdone, or_iff_right hdone]
  have hstop : stop' ≤ stop := by
    unfold stop'
    split_ifs
    · exact alignedEnd_le cfg start stop
    · exact le_rfl
  have hlast : last ≤ stop' := foldl_min_le _ _
  have haligned : stop' = stop ↔ (stop < prefillEnd → alignedEnd cfg start stop = stop) := by
    unfold stop'
    split_ifs with hshort
    · exact ⟨fun heq _ => heq, fun heq => heq hshort⟩
    · exact iff_of_true rfl fun hlt => absurd hlt hshort
  have hstops : stop' = stop → (last = stop' ↔
      ∀ s ∈ mandatoryStops cfg r start stop lastCachePosition, ¬ (start < s ∧ s < stop)) := by
    intro heq
    unfold last
    rw [heq, foldl_min_eq_iff]
    · simp only [List.filter_eq_nil_iff, decide_eq_true_eq]
    · intro s hs
      exact (of_decide_eq_true (List.mem_filter.mp hs).2).2
  constructor
  · intro hkept
    have htight : stop' = stop := by omega
    exact ⟨haligned.mp htight, (hstops htight).mp (by omega)⟩
  · rintro ⟨hends, hfree⟩
    have htight := haligned.mpr hends
    have hnone := (hstops htight).mpr hfree
    omega

theorem tryEncoderInputs_eq_iff {id : RequestId} {r : Request} {numComputedTokens shift : ℤ}
    {is : List ℕ} {pass : EncoderPass} (hpos : 0 < pass.plan.numNewTokens)
    (hwindow : ∀ i ∈ is, ∃ feature, r.mmFeatures[i]? = some feature ∧
      (feature.offset : ℤ) < numComputedTokens + pass.plan.numNewTokens + shift)
    {s s' : σ} {plan : EncoderPlan}
    (h : tryEncoderInputs cfg svc id r numComputedTokens shift is pass s = .ok (plan, s')) :
    plan.numNewTokens = pass.plan.numNewTokens ↔
      encoderInputsTaken cfg svc id r numComputedTokens shift is pass s := by
  induction is generalizing pass s with
  | nil =>
    cases h
    exact iff_of_true rfl trivial
  | cons i is ih =>
    simp only [tryEncoderInputs, bind_eq_ok] at h
    obtain ⟨⟨step, s₁⟩, hstep, h⟩ := h
    have hrest := fun j hj => hwindow j (List.mem_cons_of_mem i hj)
    rcases tryEncoderInput_spec cfg svc (hwindow i List.mem_cons_self) hstep with
      ⟨pass', rfl, hsame⟩ | ⟨plan', rfl, -, hcut⟩
    · rw [← hsame] at hrest hpos ⊢
      rw [ih hpos hrest h, encoderInputsTaken]
      constructor
      · exact fun htaken => ⟨pass', s₁, hstep, htaken⟩
      · rintro ⟨_, _, heq, htaken⟩
        rw [hstep] at heq
        cases heq
        exact htaken
    · cases h
      apply iff_of_false (hcut hpos).ne
      rintro ⟨_, _, heq, -⟩
      rw [hstep] at heq
      cases heq

/-- `_try_schedule_encoder_inputs` leaves the tokens as they are exactly where the inputs fit. -/
theorem tryScheduleEncoderInputs_eq_iff {id : RequestId} {r : Request}
    {numComputedTokens numNewTokens encoderComputeBudget : ℤ} (hpos : 0 < numNewTokens)
    {s s' : σ} {plan : EncoderPlan}
    (h : tryScheduleEncoderInputs cfg svc id r numComputedTokens numNewTokens encoderComputeBudget s =
      .ok (plan, s')) :
    plan.numNewTokens = numNewTokens ↔
      EncoderInputsFit cfg svc id r numComputedTokens numNewTokens encoderComputeBudget s := by
  unfold tryScheduleEncoderInputs at h
  unfold EncoderInputsFit
  dsimp only at h ⊢
  by_cases hnone : r.hasEncoderInputs = false
  · rw [if_pos (.inr hnone)] at h
    obtain ⟨rfl, -⟩ := Prod.mk.inj (Except.ok.inj h)
    exact iff_of_true rfl (.inl hnone)
  · rw [if_neg (by rintro (hzero | hfalse); exacts [hpos.ne' hzero, hnone hfalse])] at h
    rw [or_iff_right hnone]
    refine tryEncoderInputs_eq_iff cfg svc hpos ?_ h
    intro i hi
    rw [List.mem_range'_1] at hi
    have hbefore : i < (svc.getMmFeaturesInWindow r.mmFeatures numComputedTokens
        (numComputedTokens + numNewTokens + if cfg.useEagle = true then 1 else 0)).2 := by omega
    exact svc.window_before _ _ _ _ hbefore

end ChampionRuntime.Scheduler
