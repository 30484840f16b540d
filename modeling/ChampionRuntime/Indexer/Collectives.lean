import ChampionRuntime.Indexer.CandidateMerge
import ChampionRuntime.Indexer.PrefillChunks

/-!
# The all-gathers of a batch

`DeepseekV32IndexerMetadataBuilder.build` and then the B12X branches of
`sparse_attn_indexer`, as one rank runs them on a batch. Context parallelism is
refused with key compression, so lengths are not compressed here.
-/
namespace ChampionRuntime.Indexer

open Lib

/-- A request of the batch; the host knows an upper bound of its length. -/
structure BatchRequest where
  numComputed : ℕ
  queryLen : ℕ
  boundSlack : ℕ

def BatchRequest.seqLen (r : BatchRequest) : ℕ := r.numComputed + r.queryLen

def BatchRequest.seqLenUpperBound (r : BatchRequest) : ℕ := r.seqLen + r.boundSlack

structure IndexerSettings where
  dcp : DcpMerge
  useB12x : Bool
  useFlattening : Bool
  numSpeculativeTokens : ℕ
  maxPrefillBufferSize : ℕ
  /-- `VLLM_SPARSE_INDEXER_MAX_LOGITS_MB` -/
  maxLogitsMb : ℕ
  /-- `_get_b12x_paged_indexer_supertile_k()` -/
  supertileK : ℕ

structure Split where
  numDecodes : ℕ
  numPrefills : ℕ
  numDecodeTokens : ℕ
  numPrefillTokens : ℕ

/-- What the two functions call outside the overlays: the reordered batch's
split, the canonical local lengths, and the scorer of a rank, which sees the
rows from a token on with their local lengths. -/
structure Externals where
  splitDecodesAndPrefills : List BatchRequest → Split
  getDcpLocalSeqLens : ℤ → ℕ → ℕ → ℕ → ℤ
  runB12xPagedTopk : ℕ → ℕ → List ℤ → RankBuffers

/-- An all-gather of candidate rows: the first token, the rows, the number of
tokens each row attends to on all ranks together, and what the rank sends. -/
structure AllGather where
  tokenStart : ℕ
  rows : ℕ
  contexts : List ℤ
  sent : RankBuffers

def AllGather.shape (a : AllGather) : ℕ × ℕ × List ℤ := (a.tokenStart, a.rows, a.contexts)

/-- The all-gathers of a run, and the error that ended it. -/
structure Trace where
  issued : List AllGather
  raised : Option String

/-- The lengths that the host formula of the metadata kernel localizes. -/
def kernelLocalLen (lenPerToken dcpRank dcpWorld dcpInterleave : ℕ) : ℕ :=
  if 1 < dcpWorld then
    let base := lenPerToken / dcpInterleave / dcpWorld * dcpInterleave
    let remainder := lenPerToken - base * dcpWorld
    base + min (remainder - dcpRank * dcpInterleave) dcpInterleave
  else lenPerToken

/-- `DeepseekV32IndexerPrefillChunkMetadata`; of `cu_seqlen_ks` and
`cu_seqlen_ke` only the differences are used. -/
structure ChunkMetadata where
  tokenStart : ℕ
  tokenEnd : ℕ
  numReqs : ℕ
  contexts : List ℕ
  localLens : List ℕ
  localTotalSeqLens : ℤ

section build

variable (e : Externals) (b : IndexerSettings) (reqs : List BatchRequest)

def queryStartLoc (i : ℕ) : ℕ := ((reqs.take i).map BatchRequest.queryLen).sum

def requestSlice (start stop : ℕ) : List BatchRequest := (reqs.drop start).take (stop - start)

/-- The tokens that each query row of the requests may attend to. -/
def tokenContexts (rs : List BatchRequest) : List ℕ :=
  rs.flatMap fun r => (List.range r.queryLen).map fun offset => r.numComputed + 1 + offset

def keepEmptyDcpChunk : Bool := b.useB12x && decide (1 < b.dcp.dcpWorldSize) && b.dcp.globalTopk

def buildPrefillChunkMetadata (dcpRank : ℕ) (spec : ChunkSpec) : Option ChunkMetadata :=
  let slice := requestSlice reqs spec.reqStart spec.reqStop
  let totalSeqLens := (slice.map BatchRequest.seqLenUpperBound).sum
  if totalSeqLens = 0 ∧ keepEmptyDcpChunk b = false then none
  else
    let localTotalSeqLens : ℤ :=
      if 1 < b.dcp.dcpWorldSize then
        (slice.map fun r => e.getDcpLocalSeqLens r.seqLen b.dcp.dcpWorldSize dcpRank
          b.dcp.cpKvCacheInterleaveSize).sum
      else totalSeqLens
    let contexts :=
      ((tokenContexts slice).drop spec.queryStart).take (spec.queryStop - spec.queryStart)
    some
      { tokenStart := queryStartLoc reqs spec.reqStart + spec.queryStart
        tokenEnd := queryStartLoc reqs spec.reqStart + spec.queryStop
        numReqs := spec.reqStop - spec.reqStart
        contexts := contexts
        localLens := contexts.map fun len =>
          kernelLocalLen len dcpRank b.dcp.dcpWorldSize b.dcp.cpKvCacheInterleaveSize
        localTotalSeqLens := localTotalSeqLens }

/-- The chunks that `build` asks for; with B12X each request is cut alone,
against the supertile. -/
def chunkSpecs (numDecodes numPrefills : ℕ) : List ChunkSpec :=
  let prefills := requestSlice reqs numDecodes (numDecodes + numPrefills)
  let maxLogitsBytes := b.maxLogitsMb * 1024 * 1024
  if b.useB12x then
    prefills.zipIdx.flatMap fun p =>
      splitIndexerPrefillChunks [b.supertileK] [p.1.queryLen] b.maxPrefillBufferSize
        maxLogitsBytes (numDecodes + p.2)
  else
    splitIndexerPrefillChunks (prefills.map BatchRequest.seqLenUpperBound)
      (prefills.map BatchRequest.queryLen) b.maxPrefillBufferSize maxLogitsBytes numDecodes

/-- The decode lengths before they are localized, as rows of `nextN` columns. -/
structure DecodeTensors where
  batchSize : ℕ
  nextN : ℕ
  contexts : List ℤ
  requiresPadding : Bool

/-- `_prepare_decode_tensors`, with the leading column that `build` adds to
one-dimensional lengths. -/
def prepareDecodeTensors (decodes : List BatchRequest) (numDecodeTokens : ℕ) : DecodeTensors :=
  let decodeLens := decodes.map BatchRequest.queryLen
  let numDecodes := decodes.length
  let maxDecodeLen := decodeLens.foldr max 0
  let minDecodeLen := decodeLens.foldr min maxDecodeLen
  let nextN := 1 + b.numSpeculativeTokens
  let useNative := !b.useFlattening && decide (maxDecodeLen ≤ nextN)
  if !useNative ∧ 1 < maxDecodeLen then
    if minDecodeLen = maxDecodeLen then
      { batchSize := numDecodes * maxDecodeLen
        nextN := 1
        contexts := decodes.flatMap fun r =>
          (List.range maxDecodeLen).map fun i : ℕ => (r.seqLen : ℤ) - maxDecodeLen + i + 1
        requiresPadding := false }
    else
      let expandedOffsets := decodes.zipIdx.flatMap fun p =>
        List.replicate p.1.queryLen
          ((p.1.seqLen : ℤ) - p.1.queryLen - queryStartLoc decodes p.2)
      let expanded := expandedOffsets.zipIdx.map fun p => p.1 + (p.2 : ℤ) + 1
      { batchSize := numDecodeTokens
        nextN := 1
        contexts := (expanded ++ List.replicate numDecodeTokens 0).take numDecodeTokens
        requiresPadding := false }
  else if useNative && decide (1 < nextN) then
    { batchSize := numDecodes
      nextN := maxDecodeLen
      contexts := decodes.flatMap fun r =>
        (List.range maxDecodeLen).map fun j : ℕ => (r.seqLen : ℤ) - maxDecodeLen + 1 + j
      requiresPadding := decide (minDecodeLen ≠ maxDecodeLen) }
  else
    { batchSize := numDecodes
      nextN := 1
      contexts := decodes.map fun r => (r.seqLen : ℤ)
      requiresPadding := decide (minDecodeLen ≠ maxDecodeLen) }

/-- `_merge_b12x_dcp_topk` up to its all-gather. -/
def mergeStep (dcpRank tokenStart rows : ℕ) (contexts : List ℤ) (buffers : RankBuffers) :
    Except String (List AllGather) :=
  if b.dcp.dcpWorldSize = 1 ∨ rows * b.dcp.topkTokens = 0 then .ok []
  else do
    assertB12xDcp2Supported b.dcp dcpRank
    return [⟨tokenStart, rows, contexts, convertLocalTopkToGlobal b.dcp.dcpWorldSize dcpRank
      b.dcp.cpKvCacheInterleaveSize buffers⟩]

def clearedBuffers : RankBuffers := ⟨fun _ _ => -1, fun _ _ => Binary32.negInf⟩

/-- `masked_fill_` of the rows without keys. -/
def maskRows (noKv : ℕ → Bool) (buffers : RankBuffers) : RankBuffers where
  topkIndices row col := if noKv row then -1 else buffers.topkIndices row col
  topkScores row col := if noKv row then Binary32.negInf else buffers.topkScores row col

def prefillStep (dcpRank : ℕ) (c : ChunkMetadata) : Except String (List AllGather) :=
  let rows := c.tokenEnd - c.tokenStart
  let contexts : List ℤ := c.contexts.map fun len : ℕ => (len : ℤ)
  if c.numReqs ≠ 1 then
    .error ("B12X sparse prefill requires single-request chunks so " ++
      "the page table can be row-shared without packing.")
  else if 1 < b.dcp.dcpWorldSize then
    if c.localTotalSeqLens = 0 then mergeStep b dcpRank c.tokenStart rows contexts clearedBuffers
    else
      let noKv row := decide (c.localLens.getD row 0 = 0)
      let scored := e.runB12xPagedTopk dcpRank c.tokenStart (c.localLens.map fun n : ℕ => (n : ℤ))
      mergeStep b dcpRank c.tokenStart rows contexts (maskRows noKv scored)
  else .ok []

/-- `str(value)` -/
def boolText (value : Bool) : String := if value then "True" else "False"

def decodeStep (dcpRank : ℕ) (d : DecodeTensors) (numDecodeTokens : ℕ) :
    Except String (List AllGather) :=
  if d.requiresPadding = true ∨ numDecodeTokens ≠ d.batchSize * d.nextN then
    .error ("b12x sparse indexer decode requires an unpadded rank-1 " ++
      "seq_lens contract after native-spec normalization; " ++
      "refusing to fall back to DeepGEMM. requires_padding=" ++
      boolText d.requiresPadding ++
      ", seq_lens_shape=" ++ tupleText [d.batchSize, d.nextN] ++
      ", normalized_seq_lens_shape=" ++ tupleText [d.batchSize, d.nextN] ++
      ", num_decode_tokens=" ++ toString numDecodeTokens ++ ".")
  else if 1 < b.dcp.dcpWorldSize then
    let seqLens := d.contexts.map fun len => e.getDcpLocalSeqLens len b.dcp.dcpWorldSize dcpRank
      b.dcp.cpKvCacheInterleaveSize
    mergeStep b dcpRank 0 numDecodeTokens d.contexts (e.runB12xPagedTopk dcpRank 0 seqLens)
  else .ok []

def runSteps : List (Except String (List AllGather)) → Trace
  | [] => ⟨[], none⟩
  | .error message :: _ => ⟨[], some message⟩
  | .ok gathers :: steps => ⟨gathers ++ (runSteps steps).issued, (runSteps steps).raised⟩

/-- The steps of the two functions that can issue an all-gather or raise. -/
def batchSteps (dcpRank : ℕ) : List (Except String (List AllGather)) :=
  let s := e.splitDecodesAndPrefills reqs
  let supported : Except String (List AllGather) :=
    if b.dcp.dcpWorldSize = 1 then .ok []
    else (assertB12xDcp2Supported b.dcp dcpRank).map fun _ => []
  let prefill :=
    if 0 < s.numPrefills then
      ((chunkSpecs b reqs s.numDecodes s.numPrefills).filterMap
        (buildPrefillChunkMetadata e b reqs dcpRank)).map (prefillStep e b dcpRank)
    else []
  let decode :=
    if 0 < s.numDecodes then
      let d := prepareDecodeTensors b (reqs.take s.numDecodes) s.numDecodeTokens
      [decodeStep e b dcpRank d s.numDecodeTokens]
    else []
  supported :: (prefill ++ decode)

def indexBatch (dcpRank : ℕ) : Trace :=
  let s := e.splitDecodesAndPrefills reqs
  if s.numDecodes + s.numPrefills = reqs.length ∧
      s.numDecodeTokens + s.numPrefillTokens = (reqs.map BatchRequest.queryLen).sum then
    runSteps (batchSteps e b reqs dcpRank)
  else ⟨[], some "AssertionError"⟩

end build

/-- Two ranks issue the same all-gathers in a step, or raise the same error. -/
def Agree (x y : Except String (List AllGather)) : Prop :=
  x.map (List.map AllGather.shape) = y.map (List.map AllGather.shape)

theorem Agree.refl (x : Except String (List AllGather)) : Agree x x := rfl

theorem runSteps_agree {xs ys : List (Except String (List AllGather))}
    (h : List.Forall₂ Agree xs ys) :
    (runSteps xs).issued.map AllGather.shape = (runSteps ys).issued.map AllGather.shape ∧
      (runSteps xs).raised = (runSteps ys).raised := by
  induction h with
  | nil => exact ⟨rfl, rfl⟩
  | @cons x y xs ys hxy _ ih =>
    cases x with
    | error message =>
      cases y with
      | error message' =>
        obtain rfl : message = message' := Except.error.inj hxy
        exact ⟨rfl, rfl⟩
      | ok gathers => exact absurd hxy (by simp [Agree, Except.map])
    | ok gathers =>
      cases y with
      | error message => exact absurd hxy (by simp [Agree, Except.map])
      | ok gathers' =>
        have hshape : gathers.map AllGather.shape = gathers'.map AllGather.shape :=
          Except.ok.inj hxy
        refine ⟨?_, ih.2⟩
        simp only [runSteps, List.map_append]
        rw [hshape, ih.1]

section agreement

variable {e : Externals} {b : IndexerSettings} {reqs : List BatchRequest} {r r' : ℕ}

theorem supported_rank (hr : r < b.dcp.dcpWorldSize) (hr' : r' < b.dcp.dcpWorldSize) :
    assertB12xDcp2Supported b.dcp r = assertB12xDcp2Supported b.dcp r' := by
  simp only [assertB12xDcp2Supported, hr, hr', decide_true, require_true]

theorem mergeStep_agree (hr : r < b.dcp.dcpWorldSize) (hr' : r' < b.dcp.dcpWorldSize)
    (tokenStart rows : ℕ) (contexts : List ℤ) (x y : RankBuffers) :
    Agree (mergeStep b r tokenStart rows contexts x) (mergeStep b r' tokenStart rows contexts y) := by
  unfold mergeStep
  split_ifs
  · exact Agree.refl _
  · rw [supported_rank hr hr']
    cases assertB12xDcp2Supported b.dcp r' with
    | error message => rfl
    | ok _ => rfl

/-- Of a chunk, only the local lengths depend on the rank. -/
structure SameChunk (c c' : ChunkMetadata) : Prop where
  tokenStart : c.tokenStart = c'.tokenStart
  tokenEnd : c.tokenEnd = c'.tokenEnd
  numReqs : c.numReqs = c'.numReqs
  contexts : c.contexts = c'.contexts

theorem chunks_same (specs : List ChunkSpec) :
    List.Forall₂ SameChunk (specs.filterMap (buildPrefillChunkMetadata e b reqs r))
      (specs.filterMap (buildPrefillChunkMetadata e b reqs r')) := by
  induction specs with
  | nil => exact .nil
  | cons spec specs ih =>
    rw [List.filterMap_cons, List.filterMap_cons]
    by_cases hskip : ((requestSlice reqs spec.reqStart spec.reqStop).map
        BatchRequest.seqLenUpperBound).sum = 0 ∧ keepEmptyDcpChunk b = false
    · simpa only [buildPrefillChunkMetadata, hskip, and_self, if_true] using ih
    · simp only [buildPrefillChunkMetadata, hskip, if_false]
      exact .cons ⟨rfl, rfl, rfl, rfl⟩ ih

theorem prefillStep_agree (hr : r < b.dcp.dcpWorldSize) (hr' : r' < b.dcp.dcpWorldSize)
    {c c' : ChunkMetadata} (h : SameChunk c c') :
    Agree (prefillStep e b r c) (prefillStep e b r' c') := by
  obtain ⟨hstart, hend, hreqs, hcontexts⟩ := h
  simp only [prefillStep, hstart, hend, hreqs, hcontexts]
  -- an empty shard sends padding where another rank sends its selection
  split_ifs
  all_goals first | exact Agree.refl _ | exact mergeStep_agree hr hr' _ _ _ _ _

theorem decodeStep_agree (hr : r < b.dcp.dcpWorldSize) (hr' : r' < b.dcp.dcpWorldSize)
    (d : DecodeTensors) (n : ℕ) : Agree (decodeStep e b r d n) (decodeStep e b r' d n) := by
  unfold decodeStep
  split_ifs
  · exact Agree.refl _
  · exact mergeStep_agree hr hr' _ _ _ _ _
  · exact Agree.refl _

theorem batchSteps_agree (hr : r < b.dcp.dcpWorldSize) (hr' : r' < b.dcp.dcpWorldSize) :
    List.Forall₂ Agree (batchSteps e b reqs r) (batchSteps e b reqs r') := by
  refine .cons ?_ (List.rel_append ?_ ?_)
  · rw [supported_rank hr hr']
    exact Agree.refl _
  · split_ifs
    · rw [List.forall₂_map_left_iff, List.forall₂_map_right_iff]
      exact (chunks_same _).imp fun _ _ h => prefillStep_agree hr hr' h
    · exact .nil
  · split_ifs
    · exact .cons (decodeStep_agree hr hr' _ _) .nil
    · exact .nil

theorem indexBatch_agree (hr : r < b.dcp.dcpWorldSize) (hr' : r' < b.dcp.dcpWorldSize) :
    (indexBatch e b reqs r).issued.map AllGather.shape =
        (indexBatch e b reqs r').issued.map AllGather.shape ∧
      (indexBatch e b reqs r).raised = (indexBatch e b reqs r').raised := by
  unfold indexBatch
  dsimp only
  split_ifs
  · exact runSteps_agree (batchSteps_agree hr hr')
  · exact ⟨rfl, rfl⟩

end agreement

/-- Every row has a context, and where the rank holds no token of it, the rank
sends padding. -/
def PadsEmptyRows (b : IndexerSettings) (dcpRank : ℕ) (a : AllGather) : Prop :=
  ∀ row < a.rows, ∃ context, a.contexts[row]? = some context ∧
    (getDcpLocalKRows context.toNat b.dcp.dcpWorldSize dcpRank b.dcp.cpKvCacheInterleaveSize = 0 →
      ∀ col, a.sent.topkIndices row col = -1 ∧ a.sent.topkScores row col = Binary32.negInf)

/-- The canonical helper counts the tokens of a rank; a negative length has none. -/
def CountsLocalTokens (e : Externals) : Prop :=
  ∀ W rank I, rank < W → 1 ≤ I →
    (∀ len : ℕ, e.getDcpLocalSeqLens len W rank I = getDcpLocalKRows len W rank I) ∧
      ∀ len < 0, e.getDcpLocalSeqLens len W rank I ≤ 0

/-- The scorer selects positions below the length of a row, or none. -/
def SelectsWithinRows (e : Externals) : Prop :=
  ∀ rank tokenStart (lens : List ℤ) row len, lens[row]? = some len → ∀ col,
    (e.runB12xPagedTopk rank tokenStart lens).topkIndices row col < 0 ∨
      (e.runB12xPagedTopk rank tokenStart lens).topkIndices row col < len

section padding

variable {e : Externals} {b : IndexerSettings} {reqs : List BatchRequest} {r : ℕ}

theorem mem_runSteps {P : AllGather → Prop} {steps : List (Except String (List AllGather))}
    (h : ∀ gathers, .ok gathers ∈ steps → ∀ a ∈ gathers, P a) :
    ∀ a ∈ (runSteps steps).issued, P a := by
  induction steps with
  | nil => simp [runSteps]
  | cons step steps ih =>
    cases step with
    | error message => simp [runSteps]
    | ok gathers =>
      intro a ha
      rcases List.mem_append.mp ha with ha | ha
      · exact h gathers (by simp) a ha
      · exact ih (fun gathers' hmem => h gathers' (by simp [hmem])) a ha

theorem mem_mergeStep {tokenStart rows : ℕ} {contexts : List ℤ} {buffers : RankBuffers}
    {gathers : List AllGather} (h : mergeStep b r tokenStart rows contexts buffers = .ok gathers)
    {a : AllGather} (ha : a ∈ gathers) :
    assertB12xDcp2Supported b.dcp r = .ok () ∧
      a = ⟨tokenStart, rows, contexts, convertLocalTopkToGlobal b.dcp.dcpWorldSize r
        b.dcp.cpKvCacheInterleaveSize buffers⟩ := by
  unfold mergeStep at h
  split_ifs at h
  · obtain rfl := Except.ok.inj h
    simp at ha
  · obtain ⟨u, hu, h⟩ := bind_eq_ok.mp h
    rw [pure_eq_ok] at h
    subst h
    exact ⟨hu, List.mem_singleton.mp ha⟩

theorem supported_spec (h : assertB12xDcp2Supported b.dcp r = .ok ()) :
    1 < b.dcp.dcpWorldSize ∧ r < b.dcp.dcpWorldSize ∧ b.dcp.cpKvCacheInterleaveSize = 1 := by
  simp only [assertB12xDcp2Supported, bind_eq_ok, require_eq_ok, decide_eq_true_eq] at h
  obtain ⟨-, hW, -, hr, -, hI, -⟩ := h
  refine ⟨?_, hr, hI⟩
  simp only [supportedWorldSizes, List.mem_cons, List.not_mem_nil, or_false] at hW
  omega

theorem convert_negative {W I row col : ℕ} {buffers : RankBuffers}
    (h : buffers.topkIndices row col < 0) :
    (convertLocalTopkToGlobal W r I buffers).topkIndices row col = -1 ∧
      (convertLocalTopkToGlobal W r I buffers).topkScores row col = Binary32.negInf := by
  simp only [convertLocalTopkToGlobal, globalIdx, h.not_ge, if_false, and_self]

theorem kernelLocalLen_eq {W I : ℕ} (hW : 1 < W) (hI : 1 ≤ I) (len : ℕ) :
    kernelLocalLen len r W I = getDcpLocalKRows len W r I := by
  simp only [kernelLocalLen, getDcpLocalKRows, hW, if_true, hW.not_ge, if_false,
    show max 1 I = I by omega]

theorem chunk_contexts {numDecodes numPrefills : ℕ} (hb12x : b.useB12x = true) {c : ChunkMetadata}
    (h : c ∈ (chunkSpecs b reqs numDecodes numPrefills).filterMap
      (buildPrefillChunkMetadata e b reqs r)) :
    c.contexts.length = c.tokenEnd - c.tokenStart ∧
      c.localLens = c.contexts.map fun len =>
        kernelLocalLen len r b.dcp.dcpWorldSize b.dcp.cpKvCacheInterleaveSize := by
  obtain ⟨spec, hspec, hbuild⟩ := List.mem_filterMap.mp h
  simp only [chunkSpecs, hb12x, if_true, List.mem_flatMap] at hspec
  obtain ⟨⟨request, i⟩, hrequest, hspec⟩ := hspec
  obtain ⟨hstart, hstop, hlt, hle, -⟩ := mem_single hspec
  have hwithin : spec.queryStop ≤ request.queryLen := hle
  have hslice : requestSlice reqs spec.reqStart spec.reqStop = [request] := by
    have hget := List.mk_mem_zipIdx_iff_getElem?.mp hrequest
    rw [requestSlice, List.getElem?_take] at hget
    split_ifs at hget
    rw [List.getElem?_drop] at hget
    obtain ⟨hlt', hget⟩ := List.getElem?_eq_some_iff.mp hget
    rw [hstart, hstop, requestSlice, Nat.add_sub_cancel_left, List.drop_eq_getElem_cons hlt', hget]
    rfl
  simp only [buildPrefillChunkMetadata, hslice] at hbuild
  split_ifs at hbuild
  all_goals
    obtain rfl := Option.some.inj hbuild
    refine ⟨?_, rfl⟩
    simp only [tokenContexts, List.flatMap_cons, List.flatMap_nil, List.append_nil,
      List.length_take, List.length_drop, List.length_map, List.length_range]
    omega

theorem prefillStep_pads {numDecodes numPrefills : ℕ} (hb12x : b.useB12x = true)
    {c : ChunkMetadata} (hc : c ∈ (chunkSpecs b reqs numDecodes numPrefills).filterMap
      (buildPrefillChunkMetadata e b reqs r))
    {gathers : List AllGather} (h : prefillStep e b r c = .ok gathers) {a : AllGather}
    (ha : a ∈ gathers) : PadsEmptyRows b r a := by
  obtain ⟨hlength, hlocal⟩ := chunk_contexts hb12x hc
  have hrow : ∀ row < c.tokenEnd - c.tokenStart, ∃ len, c.contexts[row]? = some len ∧
      (c.contexts.map fun len : ℕ => (len : ℤ))[row]? = some (len : ℤ) ∧
      c.localLens.getD row 0 =
        kernelLocalLen len r b.dcp.dcpWorldSize b.dcp.cpKvCacheInterleaveSize := by
    intro row hrow
    have hget : c.contexts[row]? = some c.contexts[row] := List.getElem?_eq_getElem (by omega)
    exact ⟨c.contexts[row], hget, by simp [hget], by simp [hlocal, hget]⟩
  unfold prefillStep at h
  dsimp only at h
  split_ifs at h with hone hW hempty
  · obtain ⟨-, rfl⟩ := mem_mergeStep h ha
    intro row hlt
    obtain ⟨len, -, hcontext, -⟩ := hrow row hlt
    exact ⟨len, hcontext, fun _ col => convert_negative (by decide : (-1 : ℤ) < 0)⟩
  · obtain ⟨hsupported, rfl⟩ := mem_mergeStep h ha
    obtain ⟨-, -, hI⟩ := supported_spec hsupported
    intro row hlt
    obtain ⟨len, -, hcontext, hlen⟩ := hrow row hlt
    refine ⟨len, hcontext, fun hnone col => convert_negative ?_⟩
    rw [kernelLocalLen_eq hW (by omega)] at hlen
    rw [Int.toNat_natCast] at hnone
    simp only [maskRows, hlen, hnone, decide_true, if_true]
    decide
  · obtain rfl := Except.ok.inj h
    simp at ha

theorem length_prepareDecodeTensors (decodes : List BatchRequest) (n : ℕ) :
    (prepareDecodeTensors b decodes n).contexts.length =
      (prepareDecodeTensors b decodes n).batchSize * (prepareDecodeTensors b decodes n).nextN := by
  have hflat (f : BatchRequest → ℕ → ℤ) (k : ℕ) :
      (decodes.flatMap fun r => (List.range k).map (f r)).length = decodes.length * k := by
    rw [List.length_flatMap]
    simp
  unfold prepareDecodeTensors
  dsimp only
  split_ifs
  · exact (hflat _ _).trans (Nat.mul_one _).symm
  · simp
  · exact hflat _ _
  · simp

theorem decodeStep_pads (hlocal : CountsLocalTokens e) (hscorer : SelectsWithinRows e)
    {decodes : List BatchRequest} {n : ℕ} {gathers : List AllGather}
    (h : decodeStep e b r (prepareDecodeTensors b decodes n) n = .ok gathers) {a : AllGather}
    (ha : a ∈ gathers) : PadsEmptyRows b r a := by
  have hlength := length_prepareDecodeTensors (b := b) decodes n
  unfold decodeStep at h
  dsimp only at h
  split_ifs at h with hrefused hW
  · have hshape := not_not.mp (not_or.mp hrefused).2
    obtain ⟨hsupported, rfl⟩ := mem_mergeStep h ha
    obtain ⟨-, hr, hI⟩ := supported_spec hsupported
    obtain ⟨hcount, hneg⟩ := hlocal _ r _ hr hI.ge
    intro row hlt
    have hrow : row < (prepareDecodeTensors b decodes n).contexts.length := by
      rw [hlength, ← hshape]
      exact hlt
    have hget := List.getElem?_eq_getElem hrow
    generalize (prepareDecodeTensors b decodes n).contexts[row] = context at hget
    refine ⟨context, hget, fun hnone col => convert_negative ?_⟩
    -- the localized length of the row is not positive, so the scorer selects nothing
    have hempty : e.getDcpLocalSeqLens context b.dcp.dcpWorldSize r
        b.dcp.cpKvCacheInterleaveSize ≤ 0 := by
      rcases lt_or_ge context 0 with hc | hc
      · exact hneg context hc
      · obtain ⟨len, rfl⟩ := Int.eq_ofNat_of_zero_le hc
        rw [Int.toNat_natCast] at hnone
        rw [hcount len, hnone]
        exact le_rfl
    have hlens : ((prepareDecodeTensors b decodes n).contexts.map fun len =>
        e.getDcpLocalSeqLens len b.dcp.dcpWorldSize r b.dcp.cpKvCacheInterleaveSize)[row]? =
        some (e.getDcpLocalSeqLens context b.dcp.dcpWorldSize r
          b.dcp.cpKvCacheInterleaveSize) := by
      simp [hget]
    rcases hscorer r 0 _ row _ hlens col with hid | hid
    · exact hid
    · exact hid.trans_le hempty
  · obtain rfl := Except.ok.inj h
    simp at ha

theorem indexBatch_pads (hb12x : b.useB12x = true) (hlocal : CountsLocalTokens e)
    (hscorer : SelectsWithinRows e) :
    ∀ a ∈ (indexBatch e b reqs r).issued, PadsEmptyRows b r a := by
  unfold indexBatch
  dsimp only
  split_ifs
  · refine mem_runSteps fun gathers hstep a ha => ?_
    rcases List.mem_cons.mp hstep with hstep | hstep
    · -- the check issues nothing
      have hnone : gathers = [] := by
        split_ifs at hstep
        · exact Except.ok.inj hstep
        · cases hcheck : assertB12xDcp2Supported b.dcp r with
          | error message => simp [hcheck, Except.map] at hstep
          | ok _ =>
            rw [hcheck] at hstep
            exact Except.ok.inj hstep
      simp [hnone] at ha
    · rcases List.mem_append.mp hstep with hstep | hstep
      · split_ifs at hstep
        · obtain ⟨c, hc, hstep⟩ := List.mem_map.mp hstep
          exact prefillStep_pads hb12x hc hstep ha
        · simp at hstep
      · split_ifs at hstep
        · exact decodeStep_pads hlocal hscorer (List.mem_singleton.mp hstep).symm ha
        · simp at hstep
  · simp

end padding

/-- On any batch all ranks issue the same all-gathers in the same order, and a
rank sends padding for the rows it holds no token of. -/
theorem ranks_issue_same_collectives (e : Externals) (b : IndexerSettings)
    (hb12x : b.useB12x = true) (hlocal : CountsLocalTokens e) (hscorer : SelectsWithinRows e)
    (reqs : List BatchRequest) (r r' : ℕ) (hr : r < b.dcp.dcpWorldSize)
    (hr' : r' < b.dcp.dcpWorldSize) :
    (indexBatch e b reqs r).issued.map AllGather.shape =
        (indexBatch e b reqs r').issued.map AllGather.shape ∧
      (indexBatch e b reqs r).raised = (indexBatch e b reqs r').raised ∧
      ∀ a ∈ (indexBatch e b reqs r).issued, PadsEmptyRows b r a := by
  obtain ⟨hissued, hraised⟩ := indexBatch_agree hr hr'
  exact ⟨hissued, hraised, indexBatch_pads hb12x hlocal hscorer⟩

/-- The first request decodes; equal scores select the first positions of a row. -/
def twoRankExternals : Externals where
  splitDecodesAndPrefills reqs :=
    ⟨1, reqs.length - 1, ((reqs.take 1).map BatchRequest.queryLen).sum,
      ((reqs.drop 1).map BatchRequest.queryLen).sum⟩
  getDcpLocalSeqLens len W rank I := getDcpLocalKRows len.toNat W rank I
  runB12xPagedTopk _ _ lens :=
    { topkIndices := fun row col => if (col : ℤ) < lens.getD row 0 then col else -1
      topkScores := fun _ _ => 0x3f800000#32 }

def twoRankSettings : IndexerSettings where
  dcp := ⟨2, 1, false, true, 512, 1024, 0⟩
  useB12x := true
  useFlattening := false
  numSpeculativeTokens := 0
  maxPrefillBufferSize := 1024
  maxLogitsMb := 1
  supertileK := 512

/-- The second rank holds nothing of a request of one token. -/
theorem ranks_issue_same_collectives_two_ranks :
    (indexBatch twoRankExternals twoRankSettings [⟨0, 1, 0⟩, ⟨0, 3, 0⟩] 0).issued.map
        AllGather.shape = [(1, 3, [1, 2, 3]), (0, 1, [1])] ∧
      (indexBatch twoRankExternals twoRankSettings [⟨0, 1, 0⟩, ⟨0, 3, 0⟩] 0).issued.map
        AllGather.shape =
      (indexBatch twoRankExternals twoRankSettings [⟨0, 1, 0⟩, ⟨0, 3, 0⟩] 1).issued.map
        AllGather.shape := by
  refine ⟨by decide, (ranks_issue_same_collectives twoRankExternals twoRankSettings rfl ?_ ?_
    [⟨0, 1, 0⟩, ⟨0, 3, 0⟩] 0 1 (by decide) (by decide)).1⟩
  · intro W rank I _ _
    refine ⟨fun len => rfl, fun len hlen => ?_⟩
    have hzero : getDcpLocalKRows 0 W rank I = 0 := by simp [getDcpLocalKRows]
    simp only [twoRankExternals, Int.toNat_of_nonpos hlen.le, hzero]
    decide
  · intro rank tokenStart lens row len hlen col
    simp only [twoRankExternals, List.getD_eq_getElem?_getD, hlen, Option.getD_some]
    split_ifs with hcol
    · exact .inr hcol
    · exact .inl (by decide)

end ChampionRuntime.Indexer
