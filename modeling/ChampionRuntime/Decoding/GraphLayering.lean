import ChampionRuntime.Decoding.GraphSelection

/-!
# The ladder's graphs before the base ones

The exact decodes of the ladder are looked up in buckets of their own, before those of the
base set. Shapes the base set has are not among them, so the ladder's bucket of a batch may
be a larger one than the base bucket that serves the batch.
-/
namespace ChampionRuntime.Decoding

open Lib

/-- A batch falls into the bucket `size`, and a descriptor of it fits. -/
structure ServedIn (descs : List Descriptor) (numReqs numTokens : ℕ) (uniformTokenCount : Option ℕ)
    (loras size : ℕ) : Prop where
  count : size ∈ tokenCounts descs
  holds : numTokens ≤ size
  least : ∀ other ∈ tokenCounts descs, numTokens ≤ other → size ≤ other
  fits : ∃ desc ∈ descs, desc.numTokens = size ∧
    isCompatible desc numReqs numTokens uniformTokenCount loras = true

theorem ServedIn.unique {descs : List Descriptor} {numReqs numTokens loras size size' : ℕ}
    {uniformTokenCount : Option ℕ}
    (h : ServedIn descs numReqs numTokens uniformTokenCount loras size)
    (h' : ServedIn descs numReqs numTokens uniformTokenCount loras size') : size = size' :=
  le_antisymm (h.least size' h'.count h'.holds) (h'.least size h.count h.holds)

namespace GraphConfig

variable {c : GraphConfig} {m : Manager} {base adaptive : List Descriptor}
  {numReqs numTokens loras size : ℕ} {uniformTokenCount : Option ℕ} {queryLens : List ℕ}

/-- The ladder has a graph of its own for the exact decode: within the bounds, and no
capture size is rounded to it. -/
structure LadderDecode (c : GraphConfig) (queryLens : List ℕ) (queryLen numReqs : ℕ) : Prop where
  separate : c.cudagraphMode.separateRoutine = true
  mem : queryLen ∈ queryLens
  pos : 1 ≤ numReqs
  captured : numReqs ≤ c.maxCapturedReqs
  bounds : queryLen * numReqs ≤ min c.maxDecodeTokens c.maxCudagraphCaptureSize
  outside : ¬ ∃ size ∈ c.captureSizes, c.RoundsTo size queryLen (queryLen * numReqs)

/-- The smallest base count that holds the batch is a capture size of mixed batches, or a
decode of the query length for enough requests. -/
structure BaseServes (c : GraphConfig) (queryLen numReqs numTokens size : ℕ) : Prop where
  count : c.BaseCount size
  holds : numTokens ≤ size
  least : ∀ other, c.BaseCount other → numTokens ≤ other → size ≤ other
  fits : (c.cudagraphMode.mixedMode ≠ .none ∧ size ∈ c.captureSizes) ∨
    (∃ captureSize ∈ c.captureSizes, c.RoundsTo captureSize queryLen size) ∧
      numReqs ≤ size / queryLen

/-- The ladder's next decode is one of the batch's own query length, for enough requests,
and a smaller base count serves the batch. -/
def PassesOver (c : GraphConfig) (queryLens : List ℕ) (queryLen numReqs numTokens : ℕ) : Prop :=
  ∃ exactReqs, c.LadderDecode queryLens queryLen exactReqs ∧ numReqs ≤ exactReqs ∧
    numTokens ≤ queryLen * exactReqs ∧
    (∀ queryLen' numReqs', c.LadderDecode queryLens queryLen' numReqs' →
      numTokens ≤ queryLen' * numReqs' → queryLen * exactReqs ≤ queryLen' * numReqs') ∧
    ∃ size < queryLen * exactReqs, c.BaseServes queryLen numReqs numTokens size

/-- The lookup among the base candidates alone. -/
def baseDispatch (c : GraphConfig) (graphsCaptured : Bool) (numReqs numTokens : ℕ)
    (uniformTokenCount : Option ℕ) (numActiveLoras : ℕ) : Descriptor :=
  (c.manager c.baseDescriptors []).dispatch graphsCaptured numReqs numTokens uniformTokenCount
    numActiveLoras

/-- Where the base lookup finds a graph, the merged one finds one that is padded no further. -/
def NeverDegrades (c : GraphConfig) (m : Manager) (graphsCaptured : Bool) (numReqs numTokens : ℕ)
    (uniformTokenCount : Option ℕ) (numActiveLoras : ℕ) : Prop :=
  let served := c.baseDispatch graphsCaptured numReqs numTokens uniformTokenCount numActiveLoras
  let merged := m.dispatch graphsCaptured numReqs numTokens uniformTokenCount numActiveLoras
  served.cgMode ≠ .none → merged.cgMode ≠ .none ∧ merged.numTokens ≤ served.numTokens

theorem lookup_served (hcase : loras ∈ c.loraCaptureCases) {descs : List Descriptor}
    (h : ServedIn descs numReqs numTokens uniformTokenCount loras size) :
    (buildCandidateRanges descs c.loraCaptureCases).lookup (numTokens, loras) =
        some (bucketOf descs size loras) ∧
      ∃ desc ∈ bucketOf descs size loras,
        isCompatible desc numReqs numTokens uniformTokenCount loras = true := by
  obtain ⟨desc, hdesc, htokens, hfits⟩ := h.fits
  have hloras : desc.numActiveLoras = loras := by
    simp only [isCompatible, Bool.and_eq_true, decide_eq_true_eq] at hfits
    exact hfits.2
  have hmem : desc ∈ bucketOf descs size loras := by
    rw [← htokens, ← hloras]
    exact mem_bucketOf_self hdesc
  refine ⟨?_, desc, hmem, hfits⟩
  apply (lookup_bucketTable (pairwise_tokenCounts descs)).mpr
  exact ⟨size, h.count, h.holds, h.least, hcase, rfl, List.ne_nil_of_mem hmem⟩

theorem servedIn_of_lookup {descs bucket : List Descriptor} {desc : Descriptor}
    (h : (buildCandidateRanges descs c.loraCaptureCases).lookup (numTokens, loras) = some bucket)
    (hmem : desc ∈ bucket)
    (hfits : isCompatible desc numReqs numTokens uniformTokenCount loras = true) :
    ServedIn descs numReqs numTokens uniformTokenCount loras desc.numTokens := by
  obtain ⟨size, hcount, hle, hleast, -, rfl, -⟩ :=
    (lookup_bucketTable (pairwise_tokenCounts descs)).mp h
  have hkey := (List.mem_filter.mp hmem).2
  simp only [decide_eq_true_eq] at hkey
  rw [hkey.1]
  exact ⟨hcount, hle, hleast, desc, List.mem_of_mem_filter hmem, hkey.1, hfits⟩

theorem dispatch_manager (base adaptive : List Descriptor) (numReqs : ℕ)
    (uniformTokenCount : Option ℕ) (hpos : 0 < numTokens) {numActiveLoras : ℕ}
    (heffective : resolveEffectiveLoras c.loraCaptureCases numActiveLoras = loras)
    (hcase : loras ∈ c.loraCaptureCases) :
    let found := (c.manager base adaptive).dispatch true numReqs numTokens uniformTokenCount
      numActiveLoras
    (found ∈ adaptive ∧ ServedIn adaptive numReqs numTokens uniformTokenCount loras found.numTokens) ∨
      ((∀ size, ¬ ServedIn adaptive numReqs numTokens uniformTokenCount loras size) ∧
        ((found ∈ base ∧ ServedIn base numReqs numTokens uniformTokenCount loras found.numTokens) ∨
          (∀ size, ¬ ServedIn base numReqs numTokens uniformTokenCount loras size) ∧
            found.cgMode = .none)) := by
  intro found
  have hfound : found = (((mergedCandidates (buildCandidateRanges base c.loraCaptureCases)
      (buildCandidateRanges adaptive c.loraCaptureCases) (numTokens, loras)).bind fun descs =>
        descs.find? fun desc => isCompatible desc numReqs numTokens uniformTokenCount loras)).getD
          ⟨.none, numTokens, some numReqs, none, loras⟩ := by
    simp only [found, Manager.dispatch, manager, heffective, hpos, and_self, if_true]
  by_cases hadaptive : ∃ size, ServedIn adaptive numReqs numTokens uniformTokenCount loras size
  · obtain ⟨size, hserved⟩ := hadaptive
    obtain ⟨hlookup, desc, hmem, hfits⟩ := lookup_served hcase hserved
    obtain ⟨added, hadded, -⟩ := foldl_appendNew (bucketOf adaptive size loras)
      (((buildCandidateRanges base c.loraCaptureCases).lookup (numTokens, loras)).getD [])
    cases hfind : (bucketOf adaptive size loras).find? fun desc =>
        isCompatible desc numReqs numTokens uniformTokenCount loras with
    | none => exact absurd hfits (List.find?_eq_none.mp hfind desc hmem)
    | some first =>
      have hfirst : found = first := by
        rw [hfound, mergedCandidates, hlookup]
        dsimp only
        rw [hadded, Option.bind_some, List.find?_append, hfind]
        rfl
      have hin := List.mem_of_find?_eq_some hfind
      have hfitsFirst := List.find?_some (p := fun desc =>
        isCompatible desc numReqs numTokens uniformTokenCount loras) hfind
      rw [hfirst]
      exact .inl ⟨List.mem_of_mem_filter hin, servedIn_of_lookup hlookup hin hfitsFirst⟩
  · push Not at hadaptive
    -- whatever fits among the merged candidates is a base descriptor
    have hfromBase : ∀ descs, mergedCandidates (buildCandidateRanges base c.loraCaptureCases)
        (buildCandidateRanges adaptive c.loraCaptureCases) (numTokens, loras) = some descs →
        ∀ desc ∈ descs, isCompatible desc numReqs numTokens uniformTokenCount loras = true →
          desc ∈ base ∧ ServedIn base numReqs numTokens uniformTokenCount loras desc.numTokens := by
      intro descs hdescs desc hmem hfits
      rcases (mem_mergedCandidates hdescs).mp hmem with ⟨bucket, hbucket, hin⟩ | ⟨bucket, hbucket, hin⟩
      · exact absurd (servedIn_of_lookup hbucket hin hfits) (hadaptive _)
      · exact ⟨bucket_mem hbucket hin, servedIn_of_lookup hbucket hin hfits⟩
    have hmerges : ∀ {bucket : List Descriptor},
        (buildCandidateRanges adaptive c.loraCaptureCases).lookup (numTokens, loras) = some bucket ∨
          (buildCandidateRanges base c.loraCaptureCases).lookup (numTokens, loras) = some bucket →
        ∃ descs, mergedCandidates (buildCandidateRanges base c.loraCaptureCases)
          (buildCandidateRanges adaptive c.loraCaptureCases) (numTokens, loras) = some descs ∧
            bucket ⊆ descs := exists_mergedCandidates
    refine .inr ⟨hadaptive, ?_⟩
    cases hdescs : mergedCandidates (buildCandidateRanges base c.loraCaptureCases)
        (buildCandidateRanges adaptive c.loraCaptureCases) (numTokens, loras) with
    | none =>
      refine .inr ⟨?_, ?_⟩
      · intro size hserved
        obtain ⟨hlookup, -⟩ := lookup_served hcase hserved
        obtain ⟨descs, hsome, -⟩ := hmerges (.inr hlookup)
        rw [hdescs] at hsome
        cases hsome
      · rw [hfound, hdescs]
        rfl
    | some descs =>
      cases hfind : descs.find? fun desc =>
          isCompatible desc numReqs numTokens uniformTokenCount loras with
      | none =>
        refine .inr ⟨?_, ?_⟩
        · intro size hserved
          obtain ⟨hlookup, desc, hmem, hfits⟩ := lookup_served hcase hserved
          obtain ⟨descs', hsome, hsub⟩ := hmerges (.inr hlookup)
          rw [hdescs] at hsome
          cases hsome
          exact List.find?_eq_none.mp hfind desc (hsub hmem) hfits
        · rw [hfound, hdescs, Option.bind_some, hfind]
          rfl
      | some first =>
        have hfirst : found = first := by
          rw [hfound, hdescs, Option.bind_some, hfind]
          rfl
        have hfitsFirst := List.find?_some (p := fun desc =>
          isCompatible desc numReqs numTokens uniformTokenCount loras) hfind
        rw [hfirst]
        exact .inl (hfromBase descs hdescs first (List.mem_of_find?_eq_some hfind) hfitsFirst)

theorem mem_foldl_outside {new descs : List Descriptor} {desc : Descriptor} :
    desc ∈ new.foldl (fun descs desc => if desc ∈ base then descs else appendNew descs desc) descs ↔
      desc ∈ descs ∨ desc ∈ new ∧ desc ∉ base := by
  induction new generalizing descs with
  | nil => simp
  | cons first new ih =>
    rw [List.foldl_cons, ih]
    split_ifs with hbase
    · rw [List.mem_cons]
      constructor
      · rintro (hold | ⟨hnew, hout⟩)
        · exact .inl hold
        · exact .inr ⟨.inr hnew, hout⟩
      · rintro (hold | ⟨rfl | hnew, hout⟩)
        · exact .inl hold
        · exact absurd hbase hout
        · exact .inr ⟨hnew, hout⟩
    · have happend : desc ∈ appendNew descs first ↔ desc ∈ descs ∨ desc = first := by
        have hone : desc ∈ [first].foldl appendNew descs ↔ desc ∈ descs ∨ desc ∈ [first] :=
          mem_foldl_appendNew descs [first]
        rwa [List.mem_singleton] at hone
      rw [happend, List.mem_cons]
      constructor
      · rintro ((hold | rfl) | ⟨hnew, hout⟩)
        · exact .inl hold
        · exact .inr ⟨.inl rfl, hbase⟩
        · exact .inr ⟨.inr hnew, hout⟩
      · rintro (hold | ⟨rfl | hnew, hout⟩)
        · exact .inl (.inl hold)
        · exact .inl (.inr rfl)
        · exact .inr ⟨hnew, hout⟩

theorem decode_mem_base (hseparate : c.cudagraphMode.separateRoutine = true)
    (hcase : loras ∈ c.loraCaptureCases) {queryLen : ℕ} (hlen : 0 < queryLen) :
    c.decodeDescriptor queryLen numReqs (queryLen * numReqs) loras ∈ c.baseDescriptors ↔
      ∃ size ∈ c.captureSizes, c.RoundsTo size queryLen (queryLen * numReqs) := by
  rw [mem_baseDescriptors]
  constructor
  · rintro ⟨size, hsize, loras', -, hdecode | ⟨-, hmixed⟩⟩
    · obtain ⟨queryLen', numTokens, hrounds, heq⟩ := (mem_decodesOf_iff hseparate).mp hdecode
      simp only [decodeDescriptor, Descriptor.mk.injEq, Option.some.injEq, true_and] at heq
      obtain ⟨rfl, -, rfl, -⟩ := heq
      exact ⟨size, hsize, hrounds⟩
    · simp [decodeDescriptor, mixedDescriptor] at hmixed
  · rintro ⟨size, hsize, hrounds⟩
    refine ⟨size, hsize, loras, hcase, .inl ((mem_decodesOf_iff hseparate).mpr ⟨_, _, hrounds, ?_⟩)⟩
    rw [Nat.mul_div_cancel_left _ hlen]

theorem mem_adaptiveDescriptors (hlen : ∀ queryLen ∈ queryLens, 0 < queryLen)
    {desc : Descriptor} :
    desc ∈ c.adaptiveDescriptors queryLens c.baseDescriptors ↔
      ∃ queryLen exactReqs, ∃ loras ∈ c.loraCaptureCases, c.LadderDecode queryLens queryLen exactReqs ∧
        desc = c.decodeDescriptor queryLen exactReqs (queryLen * exactReqs) loras := by
  unfold adaptiveDescriptors
  by_cases hseparate : c.cudagraphMode.separateRoutine = true
  · have hmode : c.cudagraphMode.decodeMode ≠ .none := by
      rw [(decodeMode_of_separate hseparate).1]
      decide
    by_cases hne : queryLens = []
    · rw [if_neg (by simp [hne])]
      constructor
      · intro h
        cases h
      · rintro ⟨queryLen, _, _, -, hladder, -⟩
        have hmem := hladder.mem
        rw [hne] at hmem
        cases hmem
    rw [if_pos ⟨hne, hseparate, hmode⟩, mem_foldl_outside, List.mem_filterMap]
    simp only [List.not_mem_nil, false_or, ladderShapes, List.mem_product, Prod.exists,
      List.mem_range'_1]
    constructor
    · rintro ⟨⟨queryLen, exactReqs, loras, ⟨hmem, hreqs, hcase⟩, hexact⟩, hout⟩
      obtain rfl := exactDescriptor_eq_some hexact
      rw [decode_mem_base hseparate hcase (hlen queryLen hmem)] at hout
      simp only [exactDescriptor] at hexact
      split_ifs at hexact with hbounds
      exact ⟨queryLen, exactReqs, loras, hcase,
        ⟨hseparate, hmem, hreqs.1, by omega, by omega, hout⟩, rfl⟩
    · rintro ⟨queryLen, exactReqs, loras, hcase, hladder, rfl⟩
      have hbounds := hladder.bounds
      have hcaptured := hladder.captured
      have hpos := hladder.pos
      refine ⟨⟨queryLen, exactReqs, loras, ⟨hladder.mem, by omega, hcase⟩, ?_⟩, ?_⟩
      · simp only [exactDescriptor]
        rw [if_neg (by omega)]
      · rw [decode_mem_base hseparate hcase (hlen queryLen hladder.mem)]
        exact hladder.outside
  · rw [if_neg fun h => hseparate h.2.1]
    constructor
    · intro h
      cases h
    · rintro ⟨_, _, _, -, hladder, -⟩
      exact absurd hladder.separate hseparate

theorem mem_tokenCounts_iff {descs : List Descriptor} {count : ℕ} :
    count ∈ tokenCounts descs ↔ ∃ desc ∈ descs, desc.numTokens = count := by
  rw [tokenCounts, (List.perm_insertionSort _ _).mem_iff, List.mem_dedup, List.mem_map]

theorem servedIn_adaptive_iff (hlen : ∀ queryLen ∈ queryLens, 0 < queryLen)
    (hcase : loras ∈ c.loraCaptureCases) :
    ServedIn (c.adaptiveDescriptors queryLens c.baseDescriptors) numReqs numTokens
        uniformTokenCount loras size ↔
      ∃ queryLen exactReqs, uniformTokenCount = some queryLen ∧
        c.LadderDecode queryLens queryLen exactReqs ∧ size = queryLen * exactReqs ∧
        numReqs ≤ exactReqs ∧ numTokens ≤ size ∧
        ∀ queryLen' numReqs', c.LadderDecode queryLens queryLen' numReqs' →
          numTokens ≤ queryLen' * numReqs' → size ≤ queryLen' * numReqs' := by
  have hcounts : ∀ count, count ∈ tokenCounts (c.adaptiveDescriptors queryLens c.baseDescriptors) ↔
      ∃ queryLen exactReqs, c.LadderDecode queryLens queryLen exactReqs ∧
        count = queryLen * exactReqs := by
    intro count
    rw [mem_tokenCounts_iff]
    constructor
    · rintro ⟨desc, hdesc, rfl⟩
      obtain ⟨queryLen, exactReqs, _, -, hladder, rfl⟩ := (mem_adaptiveDescriptors hlen).mp hdesc
      exact ⟨queryLen, exactReqs, hladder, rfl⟩
    · rintro ⟨queryLen, exactReqs, hladder, rfl⟩
      exact ⟨_, (mem_adaptiveDescriptors hlen).mpr ⟨queryLen, exactReqs, loras, hcase, hladder, rfl⟩, rfl⟩
  constructor
  · intro h
    obtain ⟨desc, hdesc, htokens, hfits⟩ := h.fits
    obtain ⟨queryLen, exactReqs, _, -, hladder, rfl⟩ := (mem_adaptiveDescriptors hlen).mp hdesc
    simp only [isCompatible, decodeDescriptor, Bool.and_eq_true, Bool.or_eq_true,
      decide_eq_true_eq, Option.some_ne_none, false_or, Option.all_some] at hfits
    obtain ⟨⟨⟨huniform, hreqs⟩, -⟩, -⟩ := hfits
    refine ⟨queryLen, exactReqs, (of_decide_eq_true huniform).symm, hladder, htokens.symm, hreqs, h.holds, ?_⟩
    intro queryLen' numReqs' hladder' hle
    exact h.least _ ((hcounts _).mpr ⟨_, _, hladder', rfl⟩) hle
  · rintro ⟨queryLen, exactReqs, rfl, hladder, rfl, hreqs, hle, hleast⟩
    refine ⟨(hcounts _).mpr ⟨_, _, hladder, rfl⟩, hle, ?_, ?_⟩
    · intro other hother hbatch
      obtain ⟨queryLen', numReqs', hladder', rfl⟩ := (hcounts _).mp hother
      exact hleast _ _ hladder' hbatch
    · refine ⟨_, (mem_adaptiveDescriptors hlen).mpr ⟨queryLen, exactReqs, loras, hcase, hladder, rfl⟩,
        rfl, ?_⟩
      simp [isCompatible, decodeDescriptor, hreqs, hle]

theorem servedIn_base_iff (hseparate : c.cudagraphMode.separateRoutine = true)
    (hcase : loras ∈ c.loraCaptureCases) {queryLen : ℕ} :
    ServedIn c.baseDescriptors numReqs numTokens (some queryLen) loras size ↔
      c.BaseServes queryLen numReqs numTokens size := by
  have hcounts : ∀ count, count ∈ tokenCounts c.baseDescriptors ↔ c.BaseCount count :=
    fun count => mem_tokenCounts_base hseparate hcase
  obtain ⟨-, hmixed⟩ := decodeMode_of_separate hseparate
  constructor
  · intro h
    refine ⟨(hcounts _).mp h.count, h.holds,
      fun other hother => h.least other ((hcounts _).mpr hother), ?_⟩
    obtain ⟨desc, hdesc, rfl, hfits⟩ := h.fits
    obtain ⟨captureSize, hsize, _, -, hdecode | ⟨hmode, rfl⟩⟩ := mem_baseDescriptors.mp hdesc
    · obtain ⟨queryLen', rounded, hrounds, rfl⟩ := (mem_decodesOf_iff hseparate).mp hdecode
      simp only [isCompatible, decodeDescriptor, Bool.and_eq_true, Bool.or_eq_true,
        decide_eq_true_eq, Option.some_ne_none, false_or, Option.all_some, Option.some.injEq] at hfits
      obtain ⟨⟨⟨rfl, hreqs⟩, -⟩, -⟩ := hfits
      exact .inr ⟨⟨captureSize, hsize, hrounds⟩, hreqs⟩
    · exact .inl ⟨hmode, hsize⟩
  · intro h
    have hle := h.holds
    refine ⟨(hcounts _).mpr h.count, hle,
      fun other hother => h.least other ((hcounts _).mp hother), ?_⟩
    rcases h.fits with ⟨hmode, hsize⟩ | ⟨⟨captureSize, hsize, hrounds⟩, hreqs⟩
    · refine ⟨c.mixedDescriptor size loras,
        mem_baseDescriptors.mpr ⟨size, hsize, loras, hcase, .inr ⟨hmode, rfl⟩⟩, rfl, ?_⟩
      simp [isCompatible, mixedDescriptor, hmixed, hle]
    · refine ⟨c.decodeDescriptor queryLen (size / queryLen) size loras,
        mem_baseDescriptors.mpr ⟨captureSize, hsize, loras, hcase,
          .inl ((mem_decodesOf_iff hseparate).mpr ⟨_, _, hrounds, rfl⟩)⟩, rfl, ?_⟩
      simp [isCompatible, decodeDescriptor, hreqs, hle]

theorem cgMode_base {desc : Descriptor} (h : desc ∈ c.baseDescriptors) : desc.cgMode ≠ .none := by
  obtain ⟨size, -, loras, -, hdecode | ⟨hmode, rfl⟩⟩ := mem_baseDescriptors.mp h
  · obtain ⟨_, _, _, rfl⟩ := mem_decodesOf hdecode
    unfold decodesOf at hdecode
    split_ifs at hdecode with hseparate
    · exact hseparate.2
    · cases hdecode
  · exact hmode

theorem queryLens_pos (h : c.adaptiveSpecDecodeQueryLens = .ok queryLens) :
    ∀ queryLen ∈ queryLens, 0 < queryLen := by
  unfold adaptiveSpecDecodeQueryLens at h
  split_ifs at h
  · cases h
    exact fun _ hmem => absurd hmem List.not_mem_nil
  · simp only [bind_eq_ok, require_eq_ok, decide_eq_true_eq, pure_eq_ok] at h
    obtain ⟨_, -, _, hsampled, ladder, -, _, -, rfl⟩ := h
    intro queryLen hmem
    obtain ⟨depth, -, rfl⟩ := List.mem_map.mp hmem
    omega

theorem baseDispatch_none {graphsCaptured : Bool} {numActiveLoras : ℕ}
    (h : ¬ (graphsCaptured = true ∧ 0 < numTokens ∧
      resolveEffectiveLoras c.loraCaptureCases numActiveLoras ∈ c.loraCaptureCases)) :
    (c.baseDispatch graphsCaptured numReqs numTokens uniformTokenCount numActiveLoras).cgMode =
      .none := by
  have hfound : ∀ m : Manager, m.candidates = (c.manager c.baseDescriptors []).candidates →
      m.loraCaptureCases = c.loraCaptureCases →
      (m.dispatch graphsCaptured numReqs numTokens uniformTokenCount numActiveLoras).cgMode = .none := by
    intro m hcandidates hcases
    unfold Manager.dispatch
    rw [hcases, hcandidates]
    dsimp only
    by_cases hcaptured : graphsCaptured = true ∧ 0 < numTokens
    · rw [if_pos hcaptured]
      have hnone : (c.manager c.baseDescriptors []).candidates
          (numTokens, resolveEffectiveLoras c.loraCaptureCases numActiveLoras) = none := by
        cases hlookup : (buildCandidateRanges c.baseDescriptors c.loraCaptureCases).lookup
            (numTokens, resolveEffectiveLoras c.loraCaptureCases numActiveLoras) with
        | none => exact hlookup
        | some bucket =>
          obtain ⟨_, -, -, -, hcase, -⟩ :=
            (lookup_bucketTable (pairwise_tokenCounts c.baseDescriptors)).mp hlookup
          exact absurd ⟨hcaptured.1, hcaptured.2, hcase⟩ h
      rw [hnone]
      rfl
    · rw [if_neg hcaptured]
      rfl
  exact hfound _ rfl rfl

theorem baseDescriptors_of_eager (h : c.initCandidates = .ok m) :
    c.baseDescriptors = [] ∨ ∃ queryLens, c.adaptiveSpecDecodeQueryLens = .ok queryLens ∧
      m = c.manager c.baseDescriptors (c.adaptiveDescriptors queryLens c.baseDescriptors) := by
  unfold initCandidates at h
  split_ifs at h with heager
  · left
    apply List.eq_nil_iff_forall_not_mem.mpr
    intro desc hdesc
    have hmode := cgMode_base hdesc
    obtain ⟨size, hsize, loras, -, hdecode | ⟨hmixed, -⟩⟩ := mem_baseDescriptors.mp hdesc
    · rcases heager with hnone | hnil
      · simp [decodesOf, hnone, CudagraphMode.separateRoutine] at hdecode
      · rw [hnil] at hsize
        cases hsize
    · rcases heager with hnone | hnil
      · rw [hnone] at hmixed
        exact hmixed rfl
      · rw [hnil] at hsize
        cases hsize
  · simp only [bind_eq_ok] at h
    obtain ⟨queryLens, hlens, h⟩ := h
    split_ifs at h with hempty
    · exact .inl hempty.1
    · simp only [bind_eq_ok, pure_eq_ok] at h
      obtain ⟨_, -, rfl⟩ := h
      exact .inr ⟨queryLens, hlens, rfl⟩

theorem baseDispatch_cases (numReqs : ℕ) (uniformTokenCount : Option ℕ) (hpos : 0 < numTokens) {numActiveLoras : ℕ}
    (heffective : resolveEffectiveLoras c.loraCaptureCases numActiveLoras = loras)
    (hcase : loras ∈ c.loraCaptureCases) :
    let found := c.baseDispatch true numReqs numTokens uniformTokenCount numActiveLoras
    (found ∈ c.baseDescriptors ∧
        ServedIn c.baseDescriptors numReqs numTokens uniformTokenCount loras found.numTokens) ∨
      (∀ size, ¬ ServedIn c.baseDescriptors numReqs numTokens uniformTokenCount loras size) ∧
        found.cgMode = .none := by
  rcases dispatch_manager c.baseDescriptors [] numReqs uniformTokenCount hpos heffective hcase with
    ⟨hnil, -⟩ | ⟨-, hbase⟩
  · cases hnil
  · exact hbase

/-- The merged lookup of a batch is no worse than the base lookup exactly when the ladder
does not pass over a base count that serves it. -/
theorem layering_keeps_iff (h : c.initCandidates = .ok m)
    (hlens : c.adaptiveSpecDecodeQueryLens = .ok queryLens) (graphsCaptured : Bool)
    (numReqs numTokens : ℕ) (uniformTokenCount : Option ℕ) (numActiveLoras : ℕ) :
    c.NeverDegrades m graphsCaptured numReqs numTokens uniformTokenCount numActiveLoras ↔
      ¬ ((graphsCaptured = true ∧ 0 < numTokens ∧
          resolveEffectiveLoras c.loraCaptureCases numActiveLoras ∈ c.loraCaptureCases) ∧
        ∃ queryLen, uniformTokenCount = some queryLen ∧
          c.PassesOver queryLens queryLen numReqs numTokens) := by
  have hlen := queryLens_pos hlens
  by_cases hkey : graphsCaptured = true ∧ 0 < numTokens ∧
      resolveEffectiveLoras c.loraCaptureCases numActiveLoras ∈ c.loraCaptureCases
  · obtain ⟨rfl, hpos, hcase⟩ := hkey
    have hserved := baseDispatch_cases numReqs uniformTokenCount hpos rfl hcase
    unfold NeverDegrades
    dsimp only at hserved ⊢
    generalize hbase : c.baseDispatch true numReqs numTokens uniformTokenCount numActiveLoras = served
      at hserved ⊢
    constructor
    · rintro hkeeps ⟨-, queryLen, rfl, exactReqs, hladder, hreqs, hle, hleast, size, hlt, hserves⟩
      have hbaseServes := (servedIn_base_iff hladder.separate hcase).mpr hserves
      have hadaptive := (servedIn_adaptive_iff hlen hcase).mpr
        ⟨queryLen, exactReqs, rfl, hladder, rfl, hreqs, hle, hleast⟩
      rcases hserved with ⟨hmem, hin⟩ | ⟨hnone, -⟩
      · obtain ⟨-, hpadded⟩ := hkeeps (cgMode_base hmem)
        have hsize := hin.unique hbaseServes
        rcases baseDescriptors_of_eager h with hnil | ⟨queryLens', hlens', rfl⟩
        · rw [hnil] at hmem
          cases hmem
        rw [hlens] at hlens'
        obtain rfl := Except.ok.inj hlens'
        rcases dispatch_manager c.baseDescriptors
            (c.adaptiveDescriptors queryLens c.baseDescriptors) numReqs (some queryLen) hpos rfl
            hcase with ⟨-, hmerged⟩ | ⟨hnone, -⟩
        · have hexact := hmerged.unique hadaptive
          omega
        · exact hnone _ hadaptive
      · exact hnone _ hbaseServes
    · intro hnot hgraph
      rcases hserved with ⟨hmem, hin⟩ | ⟨-, hnone⟩
      · rcases baseDescriptors_of_eager h with hnil | ⟨queryLens', hlens', rfl⟩
        · rw [hnil] at hmem
          cases hmem
        rw [hlens] at hlens'
        obtain rfl := Except.ok.inj hlens'
        rcases dispatch_manager c.baseDescriptors
            (c.adaptiveDescriptors queryLens c.baseDescriptors) numReqs uniformTokenCount hpos rfl
            hcase with
          ⟨hmerged, hexact⟩ | ⟨-, ⟨hmerged, hsame⟩ | ⟨hno, -⟩⟩
        · obtain ⟨queryLen, exactReqs, huniform, hladder, hsize, hreqs, hle, hleast⟩ :=
            (servedIn_adaptive_iff hlen hcase).mp hexact
          constructor
          · obtain ⟨_, _, _, -, -, heq⟩ := (mem_adaptiveDescriptors hlen).mp hmerged
            rw [heq]
            change c.cudagraphMode.decodeMode ≠ .none
            rw [(decodeMode_of_separate hladder.separate).1]
            decide
          · by_contra hlarger
            subst huniform
            apply hnot
            refine ⟨⟨rfl, hpos, hcase⟩, queryLen, rfl, exactReqs, hladder, hreqs, ?_, ?_, served.numTokens,
              by omega, (servedIn_base_iff hladder.separate hcase).mp hin⟩
            · rwa [← hsize]
            · rwa [← hsize]
        · exact ⟨cgMode_base hmerged, (hsame.unique hin).le⟩
        · exact absurd hin (hno _)
      · exact absurd hnone hgraph
  · constructor
    · rintro - ⟨hcaptured, -⟩
      exact hkey hcaptured
    · intro _ hgraph
      exact absurd (baseDispatch_none hkey) hgraph

end GraphConfig

/-- One rung, and two capture sizes that are rounded to one and four requests. -/
def oneRung : GraphConfig := { servedGraphs with
  captureSizes := [1, 24]
  ladderEnv := some "5" }

/-- A batch of two requests is looked up in the ladder's own bucket. -/
theorem layering_keeps_iff_exact : ∃ m, oneRung.initCandidates = .ok m ∧
    oneRung.NeverDegrades m true 2 12 (some 6) 0 := by
  obtain ⟨m, hm⟩ := exists_ok_of_isSome (x := oneRung.initCandidates) (by decide)
  have hlens : oneRung.adaptiveSpecDecodeQueryLens = .ok [6] := by decide
  refine ⟨m, hm, (GraphConfig.layering_keeps_iff hm hlens true 2 12 (some 6) 0).mpr ?_⟩
  rintro ⟨-, queryLen, hqueryLen, exactReqs, -, -, -, hleast, size, hlt, hserves⟩
  have hexact : oneRung.LadderDecode [6] 6 2 := by
    refine ⟨by decide, by decide, by decide, by decide, by decide, ?_⟩
    rintro ⟨captureSize, hsize, -, hrounded, -⟩
    revert hrounded
    revert captureSize
    decide
  have hle := hleast 6 2 hexact le_rfl
  have hholds := hserves.holds
  omega

/-- One request that the base set has an exact graph for is padded to two. -/
theorem exact_decode_passed_over : ∃ m, oneRung.initCandidates = .ok m ∧
    (oneRung.baseDispatch true 1 6 (some 6) 0).cgMode = .full ∧
    (oneRung.baseDispatch true 1 6 (some 6) 0).numTokens = 6 ∧
    (m.dispatch true 1 6 (some 6) 0).numTokens = 12 ∧
    ¬ oneRung.NeverDegrades m true 1 6 (some 6) 0 := by
  have hrun : (oneRung.initCandidates.toOption.map fun m =>
      (m.dispatch true 1 6 (some 6) 0).numTokens) = some 12 := by decide
  obtain ⟨m, hm, htokens⟩ := Option.map_eq_some_iff.mp hrun
  have hbase : (oneRung.baseDispatch true 1 6 (some 6) 0).numTokens = 6 := by decide
  refine ⟨m, toOption_eq_some.mp hm, by decide, hbase, htokens, ?_⟩
  intro hkeeps
  obtain ⟨-, hle⟩ := hkeeps (by decide)
  rw [hbase, htokens] at hle
  omega

end ChampionRuntime.Decoding
