import ChampionRuntime.Decoding.ConsistentFeed
import ChampionRuntime.Scheduler.DepthWindow

/-!
# Acceptance accounting

`update_from_output` counts a verified request twice: for the acceptance-length controller,
and as a sample of the MTP instrumentation window. The counts of a step are the sums over
its samples, which makes them consistent, and the window comes to the same ones.
-/
namespace ChampionRuntime.Scheduler

open Lib
open Decoding (AcceptanceLengthController AcceptanceLengthUpdate Observation maxSize)
open Decoding.Observation (countAt)

variable {σ : Type}

/-- A request whose drafts are verified, and its tokens computed before. -/
structure Verification where
  drafts : List DraftToken
  generated : List ℤ
  numComputedTokens : ℤ

/-- An entry of `mtp_samples`. -/
structure MtpSample where
  numDraftTokens : ℕ
  numAccepted : ℤ
  numComputedTokens : ℤ
  numOutputTokens : ℤ

def Verification.sample (cfg : Config) (v : Verification) : MtpSample :=
  let numAccepted : ℤ := max ((v.generated.length : ℤ) - cfg.numSampledTokensPerStep) 0
  { numDraftTokens := v.drafts.length
    numAccepted
    numComputedTokens := v.numComputedTokens
    numOutputTokens := cfg.numSampledTokensPerStep + numAccepted }

section Loop

variable (cfg : Config) (svc : Services σ) (out : SchedulerOutput) (mo : ModelRunnerOutput)

/-- What a turn of the loop verifies: nothing of a request that is gone, stale or skipped. -/
def verification (failed : List RequestId) (u : UpdatePass σ) (p : RequestId × ℤ) :
    Option Verification :=
  let r := u.request p.1
  if p.1 ∉ u.requests ∨ 0 < r.numStaleOutputTokens ∨ p.1 ∈ failed ∨ r.status.isFinished then none
  else
    match mo.sampledTokenIds p.1 with
    | none => none
    | some generated =>
      let drafts := (out.scheduledSpecDecodeTokens.get? p.1).getD []
      if drafts ≠ [] ∧ (generated ≠ [] ∨ cfg.numSampledTokensPerStep = 0) then
        some ⟨drafts, generated, r.numComputedTokens⟩
      else none

/-- What the loop verifies, up to the turn that raises. -/
def loopVerifications (failed : List RequestId) :
    List (RequestId × ℤ) → UpdatePass σ → List Verification
  | [], _ => []
  | p :: rest, u =>
    match updateRequest cfg svc out mo failed u p with
    | .error _ => []
    | .ok u' =>
      (verification cfg out mo failed u p).toList ++ loopVerifications failed rest u'

/-- The requests `update_from_output` verifies, in its order. -/
def verifications (s : State σ) : List Verification :=
  let (failed, s) :=
    if mo.invalidBlockIds ≠ [] then
      handleInvalidBlocks cfg svc mo.invalidBlockIds out.numScheduledTokens s
    else ([], s)
  let positions := List.replicate (max 1 cfg.numSpecTokens) 0
  loopVerifications cfg svc out mo failed out.numScheduledTokens.items
    { toState := s, adaptivePositionEligible := positions, adaptivePositionAccepted := positions }

def mtpSamples (s : State σ) : List MtpSample :=
  (verifications cfg svc out mo s).map (·.sample cfg)

end Loop

namespace MtpSample

variable (x : MtpSample)

/-- What a sample adds at a position that counts from zero. -/
def eligibleAt (i : ℕ) : ℤ :=
  if i < x.numDraftTokens ∧ (i = 0 ∨ (i : ℤ) ≤ x.numAccepted) then 1 else 0

def acceptedAt (i : ℕ) : ℤ :=
  if i < x.numDraftTokens ∧ (i + 1 : ℤ) ≤ x.numAccepted then 1 else 0

/-- At most all drafts are accepted, and there are some but not too many. -/
structure Fits (maxNumSpecTokens : ℕ) : Prop where
  draft_pos : 0 < x.numDraftTokens
  draft_le : x.numDraftTokens ≤ maxNumSpecTokens
  accepted_nonneg : 0 ≤ x.numAccepted
  accepted_le : x.numAccepted ≤ x.numDraftTokens

end MtpSample

/-- The counts of a list of samples, a sum at each position. -/
def eligibleCounts (positions : ℕ) (samples : List MtpSample) : List ℤ :=
  (List.range positions).map fun i => (samples.map (·.eligibleAt i)).sum

def acceptedCounts (positions : ℕ) (samples : List MtpSample) : List ℤ :=
  (List.range positions).map fun i => (samples.map (·.acceptedAt i)).sum

/-- The observation of a step with these samples. -/
def tallied (positions : ℕ) (samples : List MtpSample) : Observation where
  numDrafts := samples.length
  numDraftTokens := (samples.map fun x => (x.numDraftTokens : ℤ)).sum
  numAcceptedTokens := (samples.map (·.numAccepted)).sum
  positionEligible := some (eligibleCounts positions samples)
  positionAccepted := some (acceptedCounts positions samples)

section Consistent

variable {positions maxNumSpecTokens : ℕ} {samples : List MtpSample}

theorem countAt_map_range (f : ℕ → ℤ) (i : ℕ) :
    countAt (some ((List.range positions).map f)) i = if i < positions then f i else 0 := by
  by_cases hi : i < positions <;> simp [countAt, hi]

theorem sum_range_le (n : ℕ) (a : ℤ) (hnonneg : 0 ≤ a) (hle : a ≤ n) :
    ((List.range n).map fun i : ℕ => if (i + 1 : ℤ) ≤ a then (1 : ℤ) else 0).sum = a := by
  induction n generalizing a with
  | zero =>
    simp only [List.range_zero, List.map_nil, List.sum_nil]
    omega
  | succ n ih =>
    rw [List.range_succ, List.map_append, List.sum_append]
    rcases hle.lt_or_eq with hlt | rfl
    · rw [ih a hnonneg (by push_cast at hlt; omega)]
      have hlast : ¬ (n + 1 : ℤ) ≤ a := by
        push_cast at hlt
        omega
      rw [List.map_singleton, if_neg hlast, List.sum_singleton, add_zero]
    · have hinit : (List.range n).map (fun i : ℕ => if (i + 1 : ℤ) ≤ ((n + 1 : ℕ) : ℤ) then (1 : ℤ) else 0) =
          (List.range n).map fun i : ℕ => if (i + 1 : ℤ) ≤ (n : ℤ) then (1 : ℤ) else 0 := by
        apply List.map_congr_left
        intro i hi
        have hi := List.mem_range.mp hi
        rw [if_pos (by push_cast; omega), if_pos (by omega)]
      rw [hinit, ih n (by omega) le_rfl]
      simp

theorem MtpSample.Fits.sum_acceptedAt {x : MtpSample} (h : x.Fits maxNumSpecTokens)
    (hpositions : maxNumSpecTokens ≤ positions) :
    ((List.range positions).map x.acceptedAt).sum = x.numAccepted := by
  have haccepted := h.accepted_le
  have hdraft := h.draft_le
  have heq : (List.range positions).map x.acceptedAt =
      (List.range positions).map fun i : ℕ => if (i + 1 : ℤ) ≤ x.numAccepted then (1 : ℤ) else 0 := by
    apply List.map_congr_left
    intro i _
    unfold MtpSample.acceptedAt
    by_cases hi : (i + 1 : ℤ) ≤ x.numAccepted
    · rw [if_pos ⟨by omega, hi⟩, if_pos hi]
    · rw [if_neg fun hboth => hi hboth.2, if_neg hi]
  rw [heq, sum_range_le positions x.numAccepted h.accepted_nonneg (by omega)]

theorem sum_acceptedCounts (h : ∀ x ∈ samples, x.Fits maxNumSpecTokens)
    (hpositions : maxNumSpecTokens ≤ positions) :
    (acceptedCounts positions samples).sum = (samples.map (·.numAccepted)).sum := by
  unfold acceptedCounts
  induction samples with
  | nil => simp
  | cons x samples ih =>
    obtain ⟨hx, hsamples⟩ := List.forall_mem_cons.mp h
    simp only [List.map_cons, List.sum_cons, List.sum_map_add]
    rw [ih hsamples, hx.sum_acceptedAt hpositions]

theorem MtpSample.acceptedAt_le (x : MtpSample) (i : ℕ) : x.acceptedAt i ≤ x.eligibleAt i := by
  unfold acceptedAt eligibleAt
  split_ifs <;> omega

theorem MtpSample.acceptedAt_nonneg (x : MtpSample) (i : ℕ) : 0 ≤ x.acceptedAt i := by
  unfold acceptedAt
  split_ifs <;> omega

theorem MtpSample.eligibleAt_succ_le (x : MtpSample) (i : ℕ) :
    x.eligibleAt (i + 1) ≤ x.acceptedAt i := by
  unfold eligibleAt
  by_cases hi : i + 1 < x.numDraftTokens ∧ (i + 1 = 0 ∨ ((i + 1 : ℕ) : ℤ) ≤ x.numAccepted)
  · rw [if_pos hi, acceptedAt, if_pos ⟨by omega, by omega⟩]
  · rw [if_neg hi]
    exact x.acceptedAt_nonneg i

theorem tallied_consistent (h : ∀ x ∈ samples, x.Fits maxNumSpecTokens) :
    (tallied (max 1 maxNumSpecTokens) samples).Consistent maxNumSpecTokens where
  vectors := ⟨_, _, rfl, rfl, by simp [eligibleCounts], by simp [acceptedCounts]⟩
  eligibleFirst := by
    have hone : ∀ x ∈ samples, x.eligibleAt 0 = 1 := by
      intro x hx
      exact if_pos ⟨(h x hx).draft_pos, .inl rfl⟩
    rw [tallied, eligibleCounts, countAt_map_range, if_pos (by omega), List.map_congr_left hone]
    simp
  accepted_le_eligible i := by
    rw [tallied, eligibleCounts, acceptedCounts, countAt_map_range, countAt_map_range]
    by_cases hi : i < max 1 maxNumSpecTokens
    · rw [if_pos hi, if_pos hi]
      exact List.sum_le_sum fun x _ => x.acceptedAt_le i
    · rw [if_neg hi, if_neg hi]
  eligible_le_accepted i := by
    have hnonneg : 0 ≤ (samples.map (·.acceptedAt i)).sum := by
      apply List.sum_nonneg
      rw [List.forall_mem_map]
      exact fun x _ => x.acceptedAt_nonneg i
    rw [tallied, eligibleCounts, acceptedCounts, countAt_map_range, countAt_map_range]
    by_cases hi : i + 1 < max 1 maxNumSpecTokens
    · rw [if_pos hi, if_pos (by omega)]
      exact List.sum_le_sum fun x _ => x.eligibleAt_succ_le i
    · rw [if_neg hi]
      split_ifs
      · exact hnonneg
      · exact le_rfl
  accepted_nonneg i := by
    rw [tallied, acceptedCounts, countAt_map_range]
    split_ifs
    · apply List.sum_nonneg
      rw [List.forall_mem_map]
      exact fun x _ => x.acceptedAt_nonneg i
    · exact le_rfl
  acceptedSum := sum_acceptedCounts h (le_max_right _ _)
  accepted_le_draft := List.sum_le_sum fun x hx => (h x hx).accepted_le
  draft_le := by
    have hbound := List.sum_le_card_nsmul (samples.map fun x => (x.numDraftTokens : ℤ))
      (maxNumSpecTokens : ℤ) (by
        rw [List.forall_mem_map]
        intro x hx
        exact_mod_cast (h x hx).draft_le)
    rw [List.length_map, nsmul_eq_mul, mul_comm] at hbound
    exact hbound

end Consistent

section Loop

variable {cfg : Config} {svc : Services σ} {out : SchedulerOutput} {mo : ModelRunnerOutput}
  {failed : List RequestId} {u u' : UpdatePass σ} {positions : ℕ} {samples : List MtpSample}

/-- The samples that count: with no controller, none does. -/
def UpdatePass.fedSamples (u : UpdatePass σ) (samples : List MtpSample) : List MtpSample :=
  if u.acceptanceLengthController.isSome then samples else []

theorem eligibleCounts_concat (positions : ℕ) (samples : List MtpSample) (x : MtpSample) :
    eligibleCounts positions (samples ++ [x]) =
      (eligibleCounts positions samples).mapIdx fun i count => count + x.eligibleAt i := by
  apply List.ext_getElem
  · simp [eligibleCounts]
  · intro i _ _
    simp [eligibleCounts]

theorem acceptedCounts_concat (positions : ℕ) (samples : List MtpSample) (x : MtpSample) :
    acceptedCounts positions (samples ++ [x]) =
      (acceptedCounts positions samples).mapIdx fun i count => count + x.acceptedAt i := by
  apply List.ext_getElem
  · simp [acceptedCounts]
  · intro i _ _
    simp [acceptedCounts]

theorem takeOutput_observation (mo : ModelRunnerOutput) (id : RequestId) (generated : List ℤ)
    (u : UpdatePass σ) : (takeOutput cfg svc mo id generated u).observation = u.observation := by
  unfold takeOutput
  extract_lets statusBefore
  generalize receiveOutput cfg svc mo id generated (u.request id) u.services = received
  obtain ⟨stopped, r, services⟩ := received
  dsimp only
  split_ifs
  · rfl
  · rfl
  · rfl

theorem observe_tallied {v : Verification} (h : u.observation = tallied positions samples)
    (hcontroller : u.acceptanceLengthController.isSome) :
    (u.observe v.drafts (v.sample cfg).numAccepted).observation =
      tallied positions (samples ++ [v.sample cfg]) := by
  have hsome : ¬ u.acceptanceLengthController.isNone = true := by
    rwa [Option.isNone_iff_eq_none, ← ne_eq, ← Option.isSome_iff_ne_none]
  have hlength : (v.sample cfg).numDraftTokens = v.drafts.length := rfl
  have hdrafts := congrArg Observation.numDrafts h
  have hdraftTokens := congrArg Observation.numDraftTokens h
  have haccepted := congrArg Observation.numAcceptedTokens h
  have heligibles := Option.some.inj (congrArg Observation.positionEligible h)
  have haccepteds := Option.some.inj (congrArg Observation.positionAccepted h)
  simp only [UpdatePass.observation, tallied] at hdrafts hdraftTokens haccepted heligibles haccepteds
  unfold UpdatePass.observe
  rw [if_neg hsome]
  unfold UpdatePass.observation tallied
  rw [eligibleCounts_concat, acceptedCounts_concat]
  simp only [hdrafts, hdraftTokens, haccepted, heligibles, haccepteds, List.length_append,
    List.map_append, List.sum_append]
  congr 2
  · simp
  · congr 1
    funext i count
    rw [MtpSample.eligibleAt, hlength]
    split_ifs <;> omega
  · congr 1
    funext i count
    rw [MtpSample.acceptedAt, hlength]
    split_ifs <;> omega

variable (cfg out) in
theorem verifyDrafts_tallied (id : RequestId) (generated : List ℤ)
    (hu : u.observation = tallied positions (u.fedSamples samples)) :
    (verifyDrafts cfg out id false generated u).observation =
      tallied positions (u.fedSamples (samples ++
        if (out.scheduledSpecDecodeTokens.get? id).getD [] ≠ [] ∧
            (generated ≠ [] ∨ cfg.numSampledTokensPerStep = 0) then
          [Verification.sample cfg ⟨(out.scheduledSpecDecodeTokens.get? id).getD [], generated,
            (u.request id).numComputedTokens⟩]
        else [])) := by
  unfold verifyDrafts
  dsimp only
  generalize (out.scheduledSpecDecodeTokens.get? id).getD [] = drafts
  by_cases hverified : drafts ≠ [] ∧ (generated ≠ [] ∨ cfg.numSampledTokensPerStep = 0)
  · rw [if_pos hverified, if_pos ⟨hverified.1, hverified.2, rfl⟩]
    by_cases hcontroller : u.acceptanceLengthController.isSome = true
    · unfold UpdatePass.fedSamples at hu ⊢
      rw [if_pos hcontroller] at hu ⊢
      exact observe_tallied (v := ⟨drafts, generated, (u.request id).numComputedTokens⟩) hu hcontroller
    · have hnone : u.acceptanceLengthController.isNone = true := by
        simpa using hcontroller
      unfold UpdatePass.fedSamples at hu ⊢
      rw [if_neg hcontroller] at hu ⊢
      unfold UpdatePass.observe
      rw [if_pos hnone]
      exact hu
  · have hnot : ¬ (drafts ≠ [] ∧ (generated ≠ [] ∨ cfg.numSampledTokensPerStep = 0) ∧
        false = false) := fun h => hverified ⟨h.1, h.2.1⟩
    rw [if_neg hverified, if_neg hnot, List.append_nil]
    exact hu

theorem updateRequest_tallied {p : RequestId × ℤ}
    (h : updateRequest cfg svc out mo failed u p = .ok u')
    (hu : u.observation = tallied positions (u.fedSamples samples)) :
    u'.observation = tallied positions (u'.fedSamples (samples ++
      (verification cfg out mo failed u p).toList.map (·.sample cfg))) := by
  have hcontroller := (steady_updateRequest h).controller
  have hfed : ∀ samples, u'.fedSamples samples = u.fedSamples samples := by
    intro samples
    unfold UpdatePass.fedSamples
    rw [hcontroller]
  rw [hfed]
  unfold updateRequest at h
  unfold verification
  dsimp only at h ⊢
  by_cases hpos : p.2 ≤ 0
  · rw [if_pos hpos] at h
    cases h
  rw [if_neg hpos] at h
  by_cases hknown : p.1 ∉ u.requests
  · rw [if_pos hknown] at h
    cases h
    rw [if_pos (.inl hknown)]
    simpa using hu
  rw [if_neg hknown] at h
  by_cases hbad : decide (0 < (u.request p.1).numStaleOutputTokens) = true ∧
      ((u.request p.1).drain p.2).numStaleOutputTokens < 0
  · rw [if_pos hbad] at h
    cases h
  rw [if_neg hbad] at h
  by_cases hskip : p.1 ∈ failed ∨ (u.request p.1).status.isFinished = true ∨
      decide (0 < (u.request p.1).numStaleOutputTokens) = true ∧ (u.request p.1).dropStaleOutput = true
  · rw [if_pos hskip] at h
    cases h
    have hnone : p.1 ∉ u.requests ∨ 0 < (u.request p.1).numStaleOutputTokens ∨ p.1 ∈ failed ∨
        (u.request p.1).status.isFinished = true := by
      rcases hskip with hfailed | hfinished | ⟨hstale, -⟩
      · exact .inr (.inr (.inl hfailed))
      · exact .inr (.inr (.inr hfinished))
      · exact .inr (.inl (of_decide_eq_true hstale))
    rw [if_pos hnone]
    change u.observation = _
    simpa using hu
  rw [if_neg hskip] at h
  cases hsampled : mo.sampledTokenIds p.1 with
  | none =>
    rw [hsampled] at h
    cases h
    change u.observation = _
    simpa using hu
  | some generated =>
    rw [hsampled] at h
    cases h
    unfold receiveRequest
    rw [takeOutput_observation]
    by_cases hstale : 0 < (u.request p.1).numStaleOutputTokens
    · rw [if_pos (.inr (.inl hstale))]
      rw [verifyDrafts, if_neg (by simp [hstale])]
      change u.observation = _
      simpa using hu
    · have hlive : ¬ (p.1 ∉ u.requests ∨ 0 < (u.request p.1).numStaleOutputTokens ∨ p.1 ∈ failed ∨
          (u.request p.1).status.isFinished = true) := by
        rintro (hgone | hold | hfailed | hfinished)
        · exact hknown hgone
        · exact hstale hold
        · exact hskip (.inl hfailed)
        · exact hskip (.inr (.inl hfinished))
      rw [if_neg hlive, decide_eq_false hstale]
      have hdrain : ({ u with toState := u.setRequest p.1 ((u.request p.1).drain p.2) } :
          UpdatePass σ).observation = tallied positions (({ u with
            toState := u.setRequest p.1 ((u.request p.1).drain p.2) } : UpdatePass σ).fedSamples
              samples) := hu
      have hdrained := verifyDrafts_tallied cfg out p.1 generated hdrain
      have hcomputed : (({ u with toState := u.setRequest p.1 ((u.request p.1).drain p.2) } :
          UpdatePass σ).request p.1).numComputedTokens = (u.request p.1).numComputedTokens := by
        simp [Request.drain]
      rw [hcomputed] at hdrained
      dsimp only
      by_cases hverified : (out.scheduledSpecDecodeTokens.get? p.1).getD [] ≠ [] ∧
          (generated ≠ [] ∨ cfg.numSampledTokensPerStep = 0)
      · rw [if_pos hverified] at hdrained ⊢
        exact hdrained
      · rw [if_neg hverified] at hdrained ⊢
        exact hdrained

theorem foldlM_updateRequest_tallied {rest : List (RequestId × ℤ)}
    (h : rest.foldlM (updateRequest cfg svc out mo failed) u = .ok u')
    (hu : u.observation = tallied positions (u.fedSamples samples)) :
    u'.observation = tallied positions (u'.fedSamples (samples ++
      (loopVerifications cfg svc out mo failed rest u).map (·.sample cfg))) := by
  induction rest generalizing u samples with
  | nil =>
    cases h
    simpa [loopVerifications] using hu
  | cons p rest ih =>
    rw [List.foldlM_cons, bind_eq_ok] at h
    obtain ⟨v, hturn, h⟩ := h
    have hrest := ih h (updateRequest_tallied hturn hu)
    rwa [List.append_assoc, ← List.map_append,
      show (verification cfg out mo failed u p).toList ++ loopVerifications cfg svc out mo failed rest v =
        loopVerifications cfg svc out mo failed (p :: rest) u by simp [loopVerifications, hturn]] at hrest

theorem updateRequests_tallied {s : State σ}
    (h : updateRequests cfg svc out mo s = .ok (failed, u)) :
    u.observation = tallied (max 1 cfg.numSpecTokens)
        (u.fedSamples (mtpSamples cfg svc out mo s)) ∧
      u.acceptanceLengthController = s.acceptanceLengthController := by
  unfold updateRequests at h
  simp only [bind_eq_ok, pure_eq_ok, Prod.mk.injEq] at h
  obtain ⟨u', hloop, hfailed, rfl⟩ := h
  unfold mtpSamples verifications
  generalize hloads : (if mo.invalidBlockIds ≠ [] then
    handleInvalidBlocks cfg svc mo.invalidBlockIds out.numScheduledTokens s else ([], s)) =
      loaded at hloop hfailed
  obtain ⟨failed', t⟩ := loaded
  have hzero : ∀ positions, List.replicate positions (0 : ℤ) = eligibleCounts positions [] ∧
      List.replicate positions (0 : ℤ) = acceptedCounts positions [] := by
    intro positions
    simp [eligibleCounts, acceptedCounts, List.map_const']
  constructor
  · have htallied : u'.observation = tallied (max 1 cfg.numSpecTokens) (u'.fedSamples ([] ++
        (loopVerifications cfg svc out mo failed' out.numScheduledTokens.items
          { toState := t, adaptivePositionEligible := List.replicate (max 1 cfg.numSpecTokens) 0,
            adaptivePositionAccepted := List.replicate (max 1 cfg.numSpecTokens) 0 }).map
          (·.sample cfg))) := by
      apply foldlM_updateRequest_tallied hloop
      unfold UpdatePass.fedSamples UpdatePass.observation tallied
      rw [ite_self, ← (hzero _).1, ← (hzero _).2]
      rfl
    simpa using htallied
  · rw [(steady_foldlM_updateRequest hloop).controller]
    dsimp only
    split_ifs at hloads
    · exact (steady_handleInvalidBlocks hloads).controller
    · cases hloads
      rfl

end Loop

/-- The loop over the positions from `pos` on; it breaks behind the last draft. -/
def countPositions (draft : ℕ) (accepted : ℤ) : ℕ → List ℤ → List ℤ → List ℤ × List ℤ
  | pos, eligible :: eligibles, count :: counts =>
    if draft < pos then (eligible :: eligibles, count :: counts)
    else
      let (eligibles, counts) := countPositions draft accepted (pos + 1) eligibles counts
      ((if pos = 1 ∨ (pos : ℤ) - 1 ≤ accepted then eligible + 1 else eligible) :: eligibles,
        (if (pos : ℤ) ≤ accepted then count + 1 else count) :: counts)
  | _, eligibles, counts => (eligibles, counts)

theorem countPositions_eq (x : MtpSample) (k : ℕ) {eligibles counts : List ℤ}
    (hlength : eligibles.length = counts.length) :
    countPositions x.numDraftTokens x.numAccepted (k + 1) eligibles counts =
      (eligibles.mapIdx fun i count => count + x.eligibleAt (i + k),
        counts.mapIdx fun i count => count + x.acceptedAt (i + k)) := by
  induction eligibles generalizing counts k with
  | nil =>
    obtain rfl := List.length_eq_zero_iff.mp hlength.symm
    rfl
  | cons eligible eligibles ih =>
    cases counts with
    | nil => simp at hlength
    | cons count counts =>
      rw [countPositions]
      by_cases hbreak : x.numDraftTokens < k + 1
      · have hnone : ∀ i, x.eligibleAt (i + k) = 0 ∧ x.acceptedAt (i + k) = 0 := by
          intro i
          unfold MtpSample.eligibleAt MtpSample.acceptedAt
          exact ⟨if_neg (by omega), if_neg (by omega)⟩
        rw [if_pos hbreak]
        simp [hnone, List.mapIdx_eq_zipIdx_map]
      · have hshift : ∀ i, i + 1 + k = i + (k + 1) := by
          intro i
          omega
        rw [if_neg hbreak, ih (k + 1) (by simpa using hlength), List.mapIdx_cons, List.mapIdx_cons]
        simp only [hshift, Nat.zero_add]
        congr 2
        · unfold MtpSample.eligibleAt
          push_cast
          split_ifs <;> omega
        · unfold MtpSample.acceptedAt
          push_cast
          split_ifs <;> omega

/-- The accumulators of an instrumentation window, with a count for each position. -/
structure MtpWindow (positions : ℕ) where
  steps : ℕ := 0
  batches : ℕ := 0
  draftTokens : ℤ := 0
  acceptedTokens : ℤ := 0
  outputTokens : ℤ := 0
  startedNs : ℕ := 0
  /-- The smallest and the largest context. -/
  context : Option (ℤ × ℤ) := none
  positionEligible : List ℤ
  positionAccepted : List ℤ
  selectedK : Dict ℕ ℕ := Keyed.empty
  activeKFirst : Option ℕ := none
  eligible_length : positionEligible.length = positions
  accepted_length : positionAccepted.length = positions

namespace MtpWindow

variable {positions : ℕ}

/-- `_reset_mtp_window` -/
def reset (positions : ℕ) : MtpWindow positions where
  positionEligible := List.replicate positions 0
  positionAccepted := List.replicate positions 0
  eligible_length := List.length_replicate
  accepted_length := List.length_replicate

theorem countPositions_sample (w : MtpWindow positions) (x : MtpSample) :
    countPositions x.numDraftTokens x.numAccepted 1 w.positionEligible w.positionAccepted =
      (w.positionEligible.mapIdx fun i count => count + x.eligibleAt i,
        w.positionAccepted.mapIdx fun i count => count + x.acceptedAt i) :=
  countPositions_eq x 0 (w.eligible_length.trans w.accepted_length.symm)

theorem length_countPositions (w : MtpWindow positions) (x : MtpSample) :
    (countPositions x.numDraftTokens x.numAccepted 1 w.positionEligible
        w.positionAccepted).1.length = positions ∧
      (countPositions x.numDraftTokens x.numAccepted 1 w.positionEligible
        w.positionAccepted).2.length = positions := by
  rw [countPositions_sample, List.length_mapIdx, List.length_mapIdx]
  exact ⟨w.eligible_length, w.accepted_length⟩

/-- One sample of `_record_mtp_instrumentation`. -/
def addSample (w : MtpWindow positions) (x : MtpSample) : MtpWindow positions :=
  let counts :=
    countPositions x.numDraftTokens x.numAccepted 1 w.positionEligible w.positionAccepted
  { w with
    draftTokens := w.draftTokens + x.numDraftTokens
    acceptedTokens := w.acceptedTokens + x.numAccepted
    outputTokens := w.outputTokens + x.numOutputTokens
    context :=
      match w.context with
      | none => some (x.numComputedTokens, x.numComputedTokens)
      | some (low, high) => some (min low x.numComputedTokens, max high x.numComputedTokens)
    positionEligible := counts.1
    positionAccepted := counts.2
    eligible_length := (length_countPositions w x).1
    accepted_length := (length_countPositions w x).2 }

/-- The accumulators after a scheduler step. -/
def addStep (w : MtpWindow positions) (samples : List MtpSample) (activeNumSpecTokens now : ℕ) :
    MtpWindow positions :=
  let w := { w with
    steps := w.steps + 1
    activeKFirst := some (w.activeKFirst.getD activeNumSpecTokens)
    selectedK := w.selectedK.set activeNumSpecTokens
      ((w.selectedK.get? activeNumSpecTokens).getD 0 + 1) }
  if samples = [] then w
  else
    samples.foldl addSample { w with
      startedNs := if w.startedNs = 0 then now else w.startedNs
      batches := w.batches + samples.length }

theorem foldl_addSample (w : MtpWindow positions) (samples : List MtpSample) :
    (samples.foldl addSample w).positionEligible =
        List.zipWith (· + ·) w.positionEligible (eligibleCounts positions samples) ∧
      (samples.foldl addSample w).positionAccepted =
        List.zipWith (· + ·) w.positionAccepted (acceptedCounts positions samples) := by
  induction samples using List.reverseRecOn with
  | nil =>
    constructor
    · apply List.ext_getElem
      · simp [eligibleCounts, w.eligible_length]
      · intro i _ _
        simp [eligibleCounts]
    · apply List.ext_getElem
      · simp [acceptedCounts, w.accepted_length]
      · intro i _ _
        simp [acceptedCounts]
  | append_singleton samples x ih =>
    obtain ⟨heligible, haccepted⟩ := ih
    rw [List.foldl_append, List.foldl_cons, List.foldl_nil]
    simp only [addSample, countPositions_sample]
    rw [heligible, haccepted, eligibleCounts_concat, acceptedCounts_concat]
    constructor
    · apply List.ext_getElem
      · simp
      · intro i _ _
        simp [add_assoc]
    · apply List.ext_getElem
      · simp
      · intro i _ _
        simp [add_assoc]

theorem addStep_positions (w : MtpWindow positions) (samples : List MtpSample)
    (activeNumSpecTokens now : ℕ) :
    (w.addStep samples activeNumSpecTokens now).positionEligible =
        List.zipWith (· + ·) w.positionEligible (eligibleCounts positions samples) ∧
      (w.addStep samples activeNumSpecTokens now).positionAccepted =
        List.zipWith (· + ·) w.positionAccepted (acceptedCounts positions samples) := by
  unfold addStep
  by_cases hempty : samples = []
  · rw [if_pos hempty, hempty]
    exact foldl_addSample w []
  · rw [if_neg hempty]
    exact foldl_addSample _ samples

end MtpWindow

/-- The record of a full window: its accumulators, of which the ratios are made. -/
structure MtpRecord (positions : ℕ) where
  windowIndex : ℕ
  window : MtpWindow positions
  selectedKRun : Dict ℕ ℕ

/-- The instrumentation state of the scheduler. -/
structure MtpInstrument (positions : ℕ) where
  enabled : Bool
  /-- `mtp_instrument_window` -/
  length : ℕ
  windowIndex : ℕ := 0
  selectedKRun : Dict ℕ ℕ := Keyed.empty
  window : MtpWindow positions := .reset positions

namespace MtpInstrument

variable {positions : ℕ}

/-- `_record_mtp_instrumentation`, with the record it logs. -/
def recordMtpInstrumentation (m : MtpInstrument positions) (samples : List MtpSample)
    (activeNumSpecTokens now : ℕ) : Option (MtpRecord positions) × MtpInstrument positions :=
  if m.enabled = false then (none, m)
  else
    let window := m.window.addStep samples activeNumSpecTokens now
    let selectedKRun := m.selectedKRun.set activeNumSpecTokens
      ((m.selectedKRun.get? activeNumSpecTokens).getD 0 + 1)
    if window.steps < m.length then (none, { m with window, selectedKRun })
    else
      (some ⟨m.windowIndex, window, selectedKRun⟩,
        { m with windowIndex := m.windowIndex + 1, window := .reset positions, selectedKRun })

/-- The window a step was counted in: that of the record, or the one that goes on. -/
def countedWindow (result : Option (MtpRecord positions) × MtpInstrument positions) :
    MtpWindow positions :=
  match result.1 with
  | some record => record.window
  | none => result.2.window

theorem countedWindow_record (m : MtpInstrument positions) (henabled : m.enabled = true)
    (samples : List MtpSample) (activeNumSpecTokens now : ℕ) :
    countedWindow (m.recordMtpInstrumentation samples activeNumSpecTokens now) =
      m.window.addStep samples activeNumSpecTokens now := by
  unfold recordMtpInstrumentation
  rw [if_neg (by simp [henabled])]
  dsimp only
  split_ifs
  · rfl
  · rfl

end MtpInstrument

section Accounting

variable {cfg : Config} {svc : Services σ} {out : SchedulerOutput} {mo : ModelRunnerOutput}
  {failed : List RequestId} {s : State σ} {u : UpdatePass σ}

/-- The controller, if there is one, has a depth for each draft and was fed consistent
batches only; the configuration allows none for a diffusion model. -/
def State.ControllerFed (cfg : Config) (s : State σ) : Prop :=
  ∀ c, s.acceptanceLengthController = some c → c.Fed cfg.numSpecTokens ∧ cfg.isDiffusion = false

/-- A request returns at most a token for each draft and one more, and has no more drafts
than there may be. -/
def Verification.Bounded (cfg : Config) (v : Verification) : Prop :=
  v.generated.length ≤ v.drafts.length + 1 ∧ v.drafts.length ≤ cfg.numSpecTokens

theorem mem_loopVerifications {v : Verification} {rest : List (RequestId × ℤ)}
    (h : v ∈ loopVerifications cfg svc out mo failed rest u) : v.drafts ≠ [] := by
  induction rest generalizing u with
  | nil => simp [loopVerifications] at h
  | cons p rest ih =>
    unfold loopVerifications at h
    cases hturn : updateRequest cfg svc out mo failed u p with
    | error e => simp [hturn] at h
    | ok u' =>
      simp only [hturn, List.mem_append, Option.mem_toList] at h
      rcases h with h | h
      · unfold verification at h
        dsimp only at h
        split_ifs at h
        cases hsampled : mo.sampledTokenIds p.1 with
        | none => simp [hsampled] at h
        | some generated =>
          simp only [hsampled, Option.ite_none_right_eq_some,
            Option.some.injEq] at h
          obtain ⟨⟨hdrafts, -⟩, rfl⟩ := h
          exact hdrafts
      · exact ih h

theorem mtpSamples_fit (hsampled : cfg.isDiffusion = false)
    (h : ∀ v ∈ verifications cfg svc out mo s, v.Bounded cfg) :
    ∀ x ∈ mtpSamples cfg svc out mo s, x.Fits cfg.numSpecTokens := by
  intro x hx
  obtain ⟨v, hv, rfl⟩ := List.mem_map.mp hx
  obtain ⟨hgenerated, hdrafts⟩ := h v hv
  have hne : v.drafts ≠ [] := mem_loopVerifications hv
  have hpos : 0 < v.drafts.length := List.length_pos_iff.mpr hne
  have hone : cfg.numSampledTokensPerStep = 1 := by
    unfold Config.numSampledTokensPerStep
    rw [if_neg (by simp [hsampled])]
  refine ⟨hpos, hdrafts, le_max_right _ _, ?_⟩
  simp only [Verification.sample, hone]
  omega

theorem UpdateParts.updateRequests_eq {t s' : State σ} {update : Option AcceptanceLengthUpdate}
    (h : UpdateParts cfg svc out mo s failed t u update s') :
    updateRequests cfg svc out mo s = .ok (failed, u) := by
  unfold updateRequests
  rw [h.loads]
  dsimp only
  rw [h.loop]
  rfl

theorem UpdateParts.controllerFed {t s' : State σ} {update : Option AcceptanceLengthUpdate}
    (h : UpdateParts cfg svc out mo s failed t u update s') (hs : s.ControllerFed cfg)
    (hconsistent : u.observation.Consistent cfg.numSpecTokens) : s'.ControllerFed cfg := by
  obtain ⟨controller, hobserve, hsteady⟩ := h.steady_observed
  have hkept := h.steady_loop.controller
  intro c' hc'
  rw [hsteady.controller] at hc'
  dsimp only at hc'
  unfold UpdatePass.observeBatch at hobserve
  rw [hkept] at hobserve
  cases hc : s.acceptanceLengthController with
  | none =>
    simp only [hc, Except.ok.injEq, Prod.mk.injEq] at hobserve
    have hnone := congrArg State.acceptanceLengthController hobserve.2
    rw [hkept, hc] at hnone
    dsimp only at hnone
    rw [← hnone] at hc'
    cases hc'
  | some c =>
    obtain ⟨hfed, hdiffusion⟩ := hs c hc
    cases hbatch : c.observeBatch u.observation with
    | mk observed outcome =>
      simp only [hc, hbatch] at hobserve
      cases outcome with
      | error _ => cases hobserve
      | ok update' =>
        simp only [Except.ok.injEq, Prod.mk.injEq] at hobserve
        have hsome := congrArg State.acceptanceLengthController hobserve.2
        dsimp only at hsome
        rw [← hsome] at hc'
        cases hc'
        have hobserved := hfed.observe hconsistent
        rw [hbatch] at hobserved
        exact ⟨hobserved, hdiffusion⟩

/-- Where every verified request is within its bounds, the counts of a step are consistent,
the controller observes them without an exception and stays one that was fed such counts,
and the instrumentation window adds the same counts at each position. -/
theorem acceptance_accounting (hsize : cfg.numSpecTokens ≤ maxSize) (hs : s.ControllerFed cfg)
    (hbounded : ∀ v ∈ verifications cfg svc out mo s, v.Bounded cfg)
    (hloop : updateRequests cfg svc out mo s = .ok (failed, u)) :
    u.observation.Consistent cfg.numSpecTokens ∧
      (∃ update t, u.observeBatch = .ok (update, t)) ∧
      (∀ update s', updateFromOutput cfg svc out mo s = .ok (update, s') → s'.ControllerFed cfg) ∧
      (u.acceptanceLengthController.isSome → ∀ m : MtpInstrument (max 1 cfg.numSpecTokens),
        m.enabled = true → ∀ activeNumSpecTokens now,
        let w := MtpInstrument.countedWindow (m.recordMtpInstrumentation
          (mtpSamples cfg svc out mo s) activeNumSpecTokens now)
        w.positionEligible = List.zipWith (· + ·) m.window.positionEligible u.adaptivePositionEligible ∧
        w.positionAccepted =
          List.zipWith (· + ·) m.window.positionAccepted u.adaptivePositionAccepted) := by
  obtain ⟨htallied, hcontroller⟩ := updateRequests_tallied hloop
  have hconsistent : u.observation.Consistent cfg.numSpecTokens := by
    rw [htallied]
    apply tallied_consistent
    unfold UpdatePass.fedSamples
    cases hc : u.acceptanceLengthController with
    | none => simp
    | some c =>
      obtain ⟨-, hdiffusion⟩ := hs c (hcontroller ▸ hc)
      simpa using mtpSamples_fit hdiffusion hbounded
  refine ⟨hconsistent, ?_, ?_, ?_⟩
  · unfold UpdatePass.observeBatch
    cases hc : u.acceptanceLengthController with
    | none => exact ⟨_, _, rfl⟩
    | some c =>
      obtain ⟨hfed, -⟩ := hs c (hcontroller ▸ hc)
      obtain ⟨c', update, hobserved, -⟩ := (hfed.level hsize).observeBatch hsize hconsistent
      dsimp only
      rw [hobserved]
      exact ⟨_, _, rfl⟩
  · intro update s' hupdate
    obtain ⟨failed', t, u', hparts⟩ := updateFromOutput_parts hupdate
    have hsame := hparts.updateRequests_eq
    rw [hloop] at hsame
    cases hsame
    exact hparts.controllerFed hs hconsistent
  · intro hsome m henabled activeNumSpecTokens now
    have heligible := Option.some.inj (congrArg Observation.positionEligible htallied)
    have haccepted := Option.some.inj (congrArg Observation.positionAccepted htallied)
    unfold UpdatePass.fedSamples at heligible haccepted
    rw [if_pos hsome] at heligible haccepted
    dsimp only
    rw [m.countedWindow_record henabled, heligible, haccepted]
    exact m.window.addStep_positions _ _ _

def decoding : State (List Bool) :=
  { emptyWithController with
    requests := ["a"]
    running := ["a"]
    request := fun _ => { prompt 1 with status := .running, numComputedTokens := 1 } }

def twoDrafted : SchedulerOutput where
  numScheduledTokens := Keyed.empty.set "a" 3
  totalNumScheduledTokens := 3
  scheduledSpecDecodeTokens := Keyed.empty.set "a" [⟨5, some 2⟩, ⟨6, some 2⟩]
  scheduledEncoderInputs := Keyed.empty
  numSpecTokensToSchedule := 2

theorem acceptance_accounting_decode : ∃ u : UpdatePass (List Bool),
    (verifications twoDrafts .scripted twoDrafted (sampling [5, 7]) decoding).length = 1 ∧
      updateRequests twoDrafts .scripted twoDrafted (sampling [5, 7]) decoding = .ok ([], u) ∧
      u.observation.Consistent 2 := by
  obtain ⟨u, hloop⟩ : ∃ u, updateRequests twoDrafts .scripted twoDrafted (sampling [5, 7]) decoding =
      .ok ([], u) := ⟨_, rfl⟩
  have hfed : decoding.ControllerFed twoDrafts := by
    intro c hc
    cases hc
    exact ⟨.init (show AcceptanceLengthController.init 2 1 [2] = .ok _ from rfl), rfl⟩
  have hbounded : ∀ v ∈ verifications twoDrafts .scripted twoDrafted (sampling [5, 7]) decoding,
      v.Bounded twoDrafts := by
    intro v hv
    obtain rfl := List.mem_singleton.mp hv
    exact ⟨by decide, by decide⟩
  have hsize : twoDrafts.numSpecTokens ≤ maxSize := by decide
  exact ⟨u, rfl, hloop, (acceptance_accounting hsize hfed hbounded hloop).1⟩

end Accounting

end ChampionRuntime.Scheduler
