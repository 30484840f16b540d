import ChampionRuntime.Decoding.Controller
import ChampionRuntime.Decoding.GraphCoverage

/-!
# The depth a step selects

`schedule` takes the smaller of the controller's depth and that of the batch-size
schedule. A rung of the ladder has a graph of its own; any other depth depends on
what its bucket holds, and without a separate routine every depth depends on the
largest capture size, which no check compares it with.
-/
namespace ChampionRuntime.Decoding

open Lib

/-- `num_spec_tokens_to_schedule`, by the lookup `build_dynamic_sd_schedule_lookup`
makes of a batch-size schedule. -/
def numSpecTokensToSchedule (controller : AcceptanceLengthController)
    (dynamicSdLookup : Option (ℕ → ℕ)) (numScheduled : ℕ) : ℕ :=
  match dynamicSdLookup with
  | some lookup =>
    if 0 < numScheduled then min controller.numSpecTokens (lookup numScheduled)
    else controller.numSpecTokens
  | none => controller.numSpecTokens

namespace GraphConfig

variable {c : GraphConfig} {m : Manager}

/-- A capture size is rounded up to a query length of the base loop, within the bounds. -/
def RoundsTo (c : GraphConfig) (size queryLen numTokens : ℕ) : Prop :=
  queryLen ∈ c.decodeQueryLens ∧ numTokens = alignUp size queryLen ∧
    numTokens ≤ min c.maxDecodeTokens c.maxCudagraphCaptureSize ∧
    numTokens / queryLen ≤ c.maxNumReqs

/-- The token counts the base loop files descriptors under: the capture sizes of mixed
batches, and what capture sizes are rounded to. -/
def BaseCount (c : GraphConfig) (numTokens : ℕ) : Prop :=
  ∃ size ∈ c.captureSizes, (∃ queryLen, c.RoundsTo size queryLen numTokens) ∨
    c.cudagraphMode.mixedMode ≠ .none ∧ numTokens = size

/-- The smallest base count that holds the batch is one its query length is rounded to. -/
def ServedByBase (c : GraphConfig) (queryLen numTokens : ℕ) : Prop :=
  ∃ size ∈ c.captureSizes, ∃ rounded, c.RoundsTo size queryLen rounded ∧ numTokens ≤ rounded ∧
    ∀ other, c.BaseCount other → numTokens ≤ other → rounded ≤ other

/-- When a batch of `numReqs` requests at a depth has a FULL graph. -/
def Serves (c : GraphConfig) (ladder : List ℕ) (depth numReqs : ℕ) : Prop :=
  if c.cudagraphMode.separateRoutine = true then
    depth ∈ ladder ∨ c.ServedByBase (depth + c.numNewSampledTokens)
      ((depth + c.numNewSampledTokens) * numReqs)
  else ∃ size ∈ c.captureSizes, (depth + c.numNewSampledTokens) * numReqs ≤ size

theorem mem_foldl_baseStep {ps : List (ℕ × ℕ)} {descs : List Descriptor} {desc : Descriptor} :
    desc ∈ ps.foldl c.baseStep descs ↔ desc ∈ descs ∨ ∃ p ∈ ps, desc ∈ c.decodesOf p ∨
      c.cudagraphMode.mixedMode ≠ .none ∧ desc = c.mixedDescriptor p.1 p.2 := by
  induction ps generalizing descs with
  | nil => simp
  | cons p ps ih =>
    have hstep : desc ∈ c.baseStep descs p ↔ desc ∈ descs ∨ desc ∈ c.decodesOf p ∨
        c.cudagraphMode.mixedMode ≠ .none ∧ desc = c.mixedDescriptor p.1 p.2 := by
      unfold baseStep
      split_ifs with hmode
      · rw [List.mem_append, mem_foldl_appendNew, List.mem_singleton]
        tauto
      · rw [mem_foldl_appendNew]
        tauto
    rw [List.foldl_cons, ih, hstep, or_assoc]
    simp only [List.mem_cons, exists_eq_or_imp]

theorem mem_baseDescriptors {desc : Descriptor} :
    desc ∈ c.baseDescriptors ↔ ∃ size ∈ c.captureSizes, ∃ loras ∈ c.loraCaptureCases,
      desc ∈ c.decodesOf (size, loras) ∨
        c.cudagraphMode.mixedMode ≠ .none ∧ desc = c.mixedDescriptor size loras := by
  rw [baseDescriptors, mem_foldl_baseStep]
  simp only [List.not_mem_nil, false_or, rounds, List.mem_product, Prod.exists,
    (List.perm_insertionSort _ _).mem_iff]
  constructor
  · rintro ⟨size, loras, ⟨hsize, hloras⟩, hdesc⟩
    exact ⟨size, hsize, loras, hloras, hdesc⟩
  · rintro ⟨size, hsize, loras, hloras, hdesc⟩
    exact ⟨size, loras, ⟨hsize, hloras⟩, hdesc⟩

theorem mem_decodesOf_iff (hseparate : c.cudagraphMode.separateRoutine = true) {size loras : ℕ}
    {desc : Descriptor} : desc ∈ c.decodesOf (size, loras) ↔ ∃ queryLen numTokens,
      c.RoundsTo size queryLen numTokens ∧
      desc = c.decodeDescriptor queryLen (numTokens / queryLen) numTokens loras := by
  have hmode : c.cudagraphMode.decodeMode ≠ .none := by
    rw [(decodeMode_of_separate hseparate).1]
    decide
  rw [decodesOf, if_pos ⟨hseparate, hmode⟩, List.mem_filterMap]
  refine exists_congr fun queryLen => ?_
  simp only [roundedDescriptor, RoundsTo]
  split_ifs with hbounds
  · refine ⟨fun h => absurd h.2 (by simp), ?_⟩
    rintro ⟨_, ⟨-, rfl, hle, hreqs⟩, -⟩
    omega
  · rw [Option.some.injEq]
    constructor
    · rintro ⟨hmem, rfl⟩
      exact ⟨_, ⟨hmem, rfl, by omega, by omega⟩, rfl⟩
    · rintro ⟨_, ⟨hmem, rfl, -, -⟩, rfl⟩
      exact ⟨hmem, rfl⟩

theorem mem_tokenCounts_base (hseparate : c.cudagraphMode.separateRoutine = true) {loras : ℕ}
    (hcase : loras ∈ c.loraCaptureCases) {numTokens : ℕ} :
    numTokens ∈ tokenCounts c.baseDescriptors ↔ c.BaseCount numTokens := by
  rw [tokenCounts, (List.perm_insertionSort _ _).mem_iff, List.mem_dedup, List.mem_map]
  constructor
  · rintro ⟨desc, hmem, rfl⟩
    obtain ⟨size, hsize, loras, -, hdecode | ⟨hmode, rfl⟩⟩ := mem_baseDescriptors.mp hmem
    · obtain ⟨queryLen, rounded, hrounds, rfl⟩ := (mem_decodesOf_iff hseparate).mp hdecode
      exact ⟨size, hsize, .inl ⟨queryLen, hrounds⟩⟩
    · exact ⟨size, hsize, .inr ⟨hmode, rfl⟩⟩
  · rintro ⟨size, hsize, ⟨queryLen, hrounds⟩ | ⟨hmode, rfl⟩⟩
    · refine ⟨c.decodeDescriptor queryLen (numTokens / queryLen) numTokens loras, ?_, rfl⟩
      exact mem_baseDescriptors.mpr ⟨size, hsize, loras, hcase,
        .inl ((mem_decodesOf_iff hseparate).mpr ⟨queryLen, numTokens, hrounds, rfl⟩)⟩
    · exact ⟨c.mixedDescriptor numTokens loras,
        mem_baseDescriptors.mpr ⟨numTokens, hsize, loras, hcase, .inr ⟨hmode, rfl⟩⟩, rfl⟩

theorem exists_of_dispatch {numReqs numTokens loras : ℕ} {uniformTokenCount : Option ℕ}
    (hcase : loras ∈ m.loraCaptureCases) (hpos : 0 < numTokens)
    (h : (m.dispatch true numReqs numTokens uniformTokenCount loras).cgMode = .full) :
    ∃ descs, m.candidates (numTokens, loras) = some descs ∧ ∃ found ∈ descs,
      isCompatible found numReqs numTokens uniformTokenCount loras = true ∧ found.cgMode = .full := by
  cases hdescs : m.candidates (numTokens, loras) with
  | none =>
    simp [Manager.dispatch, resolveEffectiveLoras_of_mem hcase, hpos, hdescs] at h
  | some descs =>
    rw [dispatch_eq numReqs uniformTokenCount hcase hpos hdescs] at h
    cases hfind : descs.find? fun desc =>
        isCompatible desc numReqs numTokens uniformTokenCount loras with
    | none =>
      rw [hfind] at h
      exact absurd h (by simp)
    | some found =>
      rw [hfind] at h
      have hfits := List.find?_some (p := fun desc =>
        isCompatible desc numReqs numTokens uniformTokenCount loras) hfind
      exact ⟨descs, rfl, found, List.mem_of_find?_eq_some hfind, hfits, h⟩

theorem dispatch_separate_iff (hseparate : c.cudagraphMode.separateRoutine = true)
    (hadapt : c.adaptation = true) (hsampled : 1 ≤ c.numNewSampledTokens)
    (hsizes : c.captureSizes.Nodup) (hloras : c.loraCaptureCases.Nodup)
    (h : c.initCandidates = .ok m) {ladder : List ℕ}
    (hladder : parseAdaptiveSpecDepthLadder c.numSpeculativeTokens c.ladderEnv = .ok ladder)
    {depth numReqs loras : ℕ} (hpos : 1 ≤ numReqs) (hreqs : numReqs ≤ c.maxCapturedReqs)
    (hcase : loras ∈ c.loraCaptureCases) :
    (m.dispatch true numReqs ((depth + c.numNewSampledTokens) * numReqs)
      (some (depth + c.numNewSampledTokens)) loras).cgMode = .full ↔
      depth ∈ ladder ∨ c.ServedByBase (depth + c.numNewSampledTokens)
        ((depth + c.numNewSampledTokens) * numReqs) := by
  obtain ⟨hlens, hne⟩ := adaptiveSpecDecodeQueryLens_eq hadapt hsampled hladder
  obtain ⟨hfull, hmixed⟩ := decodeMode_of_separate hseparate
  have hlen : 0 < depth + c.numNewSampledTokens := by omega
  have htokens := Nat.mul_pos hlen hpos
  obtain ⟨-, hnone⟩ | ⟨queryLens, hlens', hm, hcoverage⟩ := initCandidates_cases h
  · rw [hlens] at hnone
    exact absurd (Except.ok.inj hnone) hne
  rw [hlens] at hlens'
  obtain rfl := Except.ok.inj hlens'
  constructor
  · intro hdispatch
    obtain ⟨descs, hdescs, found, hfound, hfits, hmode⟩ :=
      exists_of_dispatch (hm ▸ hcase : loras ∈ m.loraCaptureCases) htokens hdispatch
    simp only [isCompatible, Bool.and_eq_true, Bool.or_eq_true, decide_eq_true_eq] at hfits
    rw [hm] at hdescs
    rcases (mem_mergedCandidates hdescs).mp hfound with ⟨bucket, hbucket, hin⟩ | ⟨bucket, hbucket, hin⟩
    · obtain ⟨-, queryLen, hlen, _, _, rfl⟩ :=
        (adaptiveDescriptors_spec c _ _).2 found (bucket_mem hbucket hin)
      obtain ⟨depth', hdepth', rfl⟩ := List.mem_map.mp hlen
      have hsame : depth' + c.numNewSampledTokens = depth + c.numNewSampledTokens :=
        Option.some.inj (hfits.1.1.1.resolve_left (Option.some_ne_none _))
      exact .inl (Nat.add_right_cancel hsame ▸ hdepth')
    · obtain ⟨numTokens, hcount, hle, hleast, -, rfl, -⟩ :=
        (lookup_bucketTable (pairwise_tokenCounts _)).mp hbucket
      have hkey := (List.mem_filter.mp hin).2
      simp only [decide_eq_true_eq] at hkey
      obtain ⟨size, hsize, loras', -, hdecode | ⟨-, rfl⟩⟩ :=
        mem_baseDescriptors.mp (List.mem_of_mem_filter hin)
      · obtain ⟨queryLen, rounded, hrounds, rfl⟩ := (mem_decodesOf_iff hseparate).mp hdecode
        have hsame : queryLen = depth + c.numNewSampledTokens :=
          Option.some.inj (hfits.1.1.1.resolve_left (Option.some_ne_none _))
        have hrounded : rounded = numTokens := hkey.1
        subst hsame hrounded
        refine .inr ⟨size, hsize, rounded, hrounds, hle, fun other hother hbatch => ?_⟩
        exact hleast other ((mem_tokenCounts_base hseparate hcase).mpr hother) hbatch
      · exact absurd hmode hmixed
  · intro hserved
    have hfound : ∃ found ∈ m.captureDescs .full,
        m.dispatch true numReqs ((depth + c.numNewSampledTokens) * numReqs)
          (some (depth + c.numNewSampledTokens)) loras = found := by
      rcases hserved with hdepth | ⟨size, hsize, rounded, hrounds, hle, hleast⟩
      · obtain ⟨found, hmem, hdispatch, -⟩ := dispatch_ladder hadapt hseparate hsampled hsizes hloras
          h hladder hdepth hpos hreqs hcase
        exact ⟨found, hmem, hdispatch⟩
      · have hdecode : c.decodeDescriptor (depth + c.numNewSampledTokens)
            (rounded / (depth + c.numNewSampledTokens)) rounded loras ∈ c.baseDescriptors :=
          mem_baseDescriptors.mpr ⟨size, hsize, loras, hcase,
            .inl ((mem_decodesOf_iff hseparate).mpr ⟨_, rounded, hrounds, rfl⟩)⟩
        have hbucket : (buildCandidateRanges c.baseDescriptors c.loraCaptureCases).lookup
            ((depth + c.numNewSampledTokens) * numReqs, loras) =
              some (bucketOf c.baseDescriptors rounded loras) :=
          (lookup_bucketTable (pairwise_tokenCounts c.baseDescriptors)).mpr
            ⟨rounded, mem_tokenCounts hdecode, hle, fun other hother hbatch =>
              hleast other ((mem_tokenCounts_base hseparate hcase).mp hother) hbatch, hcase, rfl,
              List.ne_nil_of_mem (mem_bucketOf_self hdecode)⟩
        obtain ⟨descs, hdescs, hsub⟩ := exists_mergedCandidates (.inr hbucket)
        have hreqsFit : numReqs ≤ rounded / (depth + c.numNewSampledTokens) :=
          (Nat.le_div_iff_mul_le hlen).mpr (by rw [Nat.mul_comm]; exact hle)
        have hfits : isCompatible (c.decodeDescriptor (depth + c.numNewSampledTokens)
            (rounded / (depth + c.numNewSampledTokens)) rounded loras) numReqs
            ((depth + c.numNewSampledTokens) * numReqs) (some (depth + c.numNewSampledTokens))
            loras = true := by
          simp [isCompatible, decodeDescriptor, hreqsFit, hle]
        obtain ⟨found, hmem, hdispatch, -⟩ := dispatch_decode hseparate hsampled hsizes hloras hm
          hcase htokens (by rw [hm]; exact hdescs) (hsub (mem_bucketOf_self hdecode))
          (Option.some_ne_none _) hfits
        exact ⟨found, hmem, hdispatch⟩
    obtain ⟨found, hmem, hdispatch⟩ := hfound
    rw [hm, mem_captureDescs] at hmem
    rw [hdispatch]
    exact hmem.2

/-- Without a separate routine the base loop only appends mixed FULL descriptors. -/
theorem mem_base_full (hmode : c.cudagraphMode = .full) {desc : Descriptor} :
    desc ∈ c.baseDescriptors ↔ ∃ size ∈ c.captureSizes, ∃ loras ∈ c.loraCaptureCases,
      desc = ⟨.full, size, some (min size c.maxNumReqs), none, loras⟩ := by
  rw [mem_baseDescriptors]
  simp [decodesOf, mixedDescriptor, hmode, CudagraphMode.separateRoutine, CudagraphMode.mixedMode]

theorem dispatch_full_iff (hmode : c.cudagraphMode = .full) (hadapt : c.adaptation = true)
    (hsampled : 1 ≤ c.numNewSampledTokens) (h : c.initCandidates = .ok m) {ladder : List ℕ}
    (hladder : parseAdaptiveSpecDepthLadder c.numSpeculativeTokens c.ladderEnv = .ok ladder)
    {depth numReqs loras : ℕ} (hpos : 1 ≤ numReqs) (hreqs : numReqs ≤ c.maxCapturedReqs)
    (hcase : loras ∈ c.loraCaptureCases) :
    (m.dispatch true numReqs ((depth + c.numNewSampledTokens) * numReqs)
      (some (depth + c.numNewSampledTokens)) loras).cgMode = .full ↔
      ∃ size ∈ c.captureSizes, (depth + c.numNewSampledTokens) * numReqs ≤ size := by
  obtain ⟨hlens, hne⟩ := adaptiveSpecDecodeQueryLens_eq hadapt hsampled hladder
  have htokens : 0 < (depth + c.numNewSampledTokens) * numReqs := Nat.mul_pos (by omega) hpos
  obtain ⟨-, hnone⟩ | ⟨queryLens, -, hm, -⟩ := initCandidates_cases h
  · rw [hlens] at hnone
    exact absurd (Except.ok.inj hnone) hne
  have hadaptive : c.adaptiveDescriptors queryLens c.baseDescriptors = [] := by
    simp [adaptiveDescriptors, hmode, CudagraphMode.separateRoutine]
  have hcandidates : ∀ key, m.candidates key =
      (buildCandidateRanges c.baseDescriptors c.loraCaptureCases).lookup key := by
    intro key
    rw [hm, hadaptive]
    rfl
  have hcaseM : loras ∈ m.loraCaptureCases := by
    rw [hm]
    exact hcase
  constructor
  · intro hdispatch
    obtain ⟨descs, hdescs, found, hfound, hfits, -⟩ := exists_of_dispatch hcaseM htokens hdispatch
    rw [hcandidates] at hdescs
    obtain ⟨size, hsize, _, -, rfl⟩ := (mem_base_full hmode).mp (bucket_mem hdescs hfound)
    simp only [isCompatible, Bool.and_eq_true, decide_eq_true_eq] at hfits
    exact ⟨size, hsize, hfits.1.2⟩
  · rintro ⟨size, hsize, hle⟩
    -- the smallest capture size that holds the batch
    have hcounts : ∃ count, count ∈ tokenCounts c.baseDescriptors ∧
        (depth + c.numNewSampledTokens) * numReqs ≤ count :=
      ⟨size, mem_tokenCounts ((mem_base_full hmode).mpr ⟨size, hsize, loras, hcase, rfl⟩), hle⟩
    classical
    obtain ⟨hcount, hbatch⟩ := Nat.find_spec hcounts
    have hleast : ∀ other ∈ tokenCounts c.baseDescriptors,
        (depth + c.numNewSampledTokens) * numReqs ≤ other → Nat.find hcounts ≤ other :=
      fun other hother hfits => Nat.find_min' hcounts ⟨hother, hfits⟩
    generalize Nat.find hcounts = count at hcount hbatch hleast
    rw [tokenCounts, (List.perm_insertionSort _ _).mem_iff, List.mem_dedup, List.mem_map] at hcount
    obtain ⟨_, hmem, rfl⟩ := hcount
    obtain ⟨count, hcount, _, -, rfl⟩ := (mem_base_full hmode).mp hmem
    have hdesc := (mem_base_full hmode).mpr ⟨count, hcount, loras, hcase, rfl⟩
    have hbucket : m.candidates ((depth + c.numNewSampledTokens) * numReqs, loras) =
        some (bucketOf c.baseDescriptors count loras) := by
      rw [hcandidates]
      exact (lookup_bucketTable (pairwise_tokenCounts c.baseDescriptors)).mpr
        ⟨count, mem_tokenCounts hdesc, hbatch, hleast, hcase, rfl,
          List.ne_nil_of_mem (mem_bucketOf_self hdesc)⟩
    have hreqsFit : numReqs ≤ min count c.maxNumReqs := by
      have hle := Nat.le_mul_of_pos_left numReqs (show 0 < depth + c.numNewSampledTokens by omega)
      have hcaptured : numReqs ≤ min c.maxNumReqs 32 := hreqs
      change _ ≤ count at hbatch
      omega
    rw [dispatch_eq numReqs _ hcaseM htokens hbucket]
    cases hfind : (bucketOf c.baseDescriptors count loras).find? fun desc =>
        isCompatible desc numReqs ((depth + c.numNewSampledTokens) * numReqs)
          (some (depth + c.numNewSampledTokens)) loras with
    | none =>
      have hrejects := List.find?_eq_none.mp hfind _ (mem_bucketOf_self hdesc)
      exact absurd (by simp [isCompatible, hbatch, le_min_iff.mp hreqsFit]) hrejects
    | some found =>
      obtain ⟨_, -, _, -, rfl⟩ :=
        (mem_base_full hmode).mp (List.mem_of_mem_filter (List.mem_of_find?_eq_some hfind))
      rfl

theorem mode_of_initCandidates (hadapt : c.adaptation = true) (hsampled : 1 ≤ c.numNewSampledTokens)
    (h : c.initCandidates = .ok m) {ladder : List ℕ}
    (hladder : parseAdaptiveSpecDepthLadder c.numSpeculativeTokens c.ladderEnv = .ok ladder) :
    c.cudagraphMode.separateRoutine = true ∨ c.cudagraphMode = .full := by
  obtain ⟨hlens, hne⟩ := adaptiveSpecDecodeQueryLens_eq hadapt hsampled hladder
  obtain ⟨-, hnone⟩ | ⟨queryLens, -, -, hcoverage⟩ := initCandidates_cases h
  · rw [hlens] at hnone
    exact absurd (Except.ok.inj hnone) hne
  have hgraphs : c.cudagraphMode.hasFullCudagraphs = true := by
    unfold assertGraphCoverage at hcoverage
    simp only [hlens, ok_bind, hne, if_false, bind_eq_ok, require_eq_ok] at hcoverage
    exact hcoverage.choose_spec.1
  cases hmode : c.cudagraphMode <;> rw [hmode] at hgraphs <;> revert hgraphs <;> decide

end GraphConfig

/-- In every state the controller can reach, the batch at the selected depth has a FULL graph
exactly when the depth is served; a rung always is, once decodes have a routine of their own. -/
theorem selected_depth_dispatches_full (c : GraphConfig) (m : Manager) (hadapt : c.adaptation = true)
    (hsampled : 1 ≤ c.numNewSampledTokens) (hsizes : c.captureSizes.Nodup)
    (hloras : c.loraCaptureCases.Nodup) (h : c.initCandidates = .ok m) (ladder : List ℕ)
    (hladder : parseAdaptiveSpecDepthLadder c.numSpeculativeTokens c.ladderEnv = .ok ladder)
    (observationWindow : ℕ) (start controller : AcceptanceLengthController)
    (hstart : AcceptanceLengthController.init c.numSpeculativeTokens observationWindow ladder =
      .ok start) (hreach : start.Reachable controller) (dynamicSdLookup : Option (ℕ → ℕ))
    (numReqs loras : ℕ) (hpos : 1 ≤ numReqs) (hreqs : numReqs ≤ min c.maxNumReqs 32)
    (hcase : loras ∈ c.loraCaptureCases) :
    let depth := numSpecTokensToSchedule controller dynamicSdLookup numReqs
    ((m.dispatch true numReqs ((depth + c.numNewSampledTokens) * numReqs)
        (some (depth + c.numNewSampledTokens)) loras).cgMode = .full ↔ c.Serves ladder depth numReqs) ∧
      (c.cudagraphMode.separateRoutine = true → dynamicSdLookup = none →
        c.Serves ladder depth numReqs) := by
  intro depth
  constructor
  · unfold GraphConfig.Serves
    rcases GraphConfig.mode_of_initCandidates hadapt hsampled h hladder with hseparate | hmode
    · rw [if_pos hseparate]
      exact GraphConfig.dispatch_separate_iff hseparate hadapt hsampled hsizes hloras h hladder hpos
        hreqs hcase
    · have hmixed : ¬ c.cudagraphMode.separateRoutine = true := by rw [hmode]; decide
      rw [if_neg hmixed]
      exact GraphConfig.dispatch_full_iff hmode hadapt hsampled h hladder hpos hreqs hcase
  · intro hseparate hlookup
    obtain ⟨hall, hmem⟩ := AcceptanceLengthController.init_spec hstart
    obtain ⟨-, hdepth⟩ := hreach.mem hmem
    obtain ⟨hladderPos, hmax, -⟩ := ladder_spec hladder
    rw [hall] at hdepth
    have hrung : depth ∈ ladder := by
      subst hlookup
      exact AcceptanceLengthController.mem_ladderOf hladderPos hmax hdepth
    unfold GraphConfig.Serves
    rw [if_pos hseparate]
    exact .inl hrung

/-- The controller of a fresh scheduler with five drafts and a window of eight steps. -/
def freshController : AcceptanceLengthController where
  maxNumSpecTokens := 5
  observationWindow := 8
  depthLadder := [2, 4, 5]
  numSpecTokens := 2
  positionEligible := [0, 0, 0, 0, 0]
  positionAccepted := [0, 0, 0, 0, 0]

theorem init_freshController :
    AcceptanceLengthController.init 5 8 [2, 4, 5] = .ok freshController := by rfl

theorem selected_depth_dispatches_full_served : ∃ m, servedGraphs.initCandidates = .ok m ∧
    (m.dispatch true 3 9 (some 3) 0).cgMode = .full := by
  obtain ⟨m, hm⟩ := exists_ok_of_isSome (x := servedGraphs.initCandidates) (by decide)
  obtain ⟨hiff, hserved⟩ := selected_depth_dispatches_full servedGraphs m rfl (by decide) (by decide)
    (by decide) hm [2, 4, 5] (by decide) 8 freshController freshController init_freshController .start
    none 3 0 (by decide) (by decide) (by decide)
  exact ⟨m, hm, hiff.mpr (hserved rfl rfl)⟩

/-- FULL graphs without a routine for decodes, captured up to eight tokens. -/
def mixedGraphs : GraphConfig := { servedGraphs with
  cudagraphMode := .full
  captureSizes := [1, 2, 4, 8]
  maxCudagraphCaptureSize := 8 }

/-- The coverage check passes, and four requests at the first depth find no graph. -/
theorem full_mode_uncovered : ∃ m, mixedGraphs.initCandidates = .ok m ∧
    AcceptanceLengthController.init 5 8 [2, 4, 5] = .ok freshController ∧
    (let depth := numSpecTokensToSchedule freshController none 4
     (m.dispatch true 4 ((depth + 1) * 4) (some (depth + 1)) 0).cgMode) = .none := by
  have hrun : (mixedGraphs.initCandidates.toOption.map fun m =>
      (m.dispatch true 4 12 (some 3) 0).cgMode) = some .none := by decide
  obtain ⟨m, hm, hmode⟩ := Option.map_eq_some_iff.mp hrun
  exact ⟨m, toOption_eq_some.mp hm, init_freshController, hmode⟩

end ChampionRuntime.Decoding
