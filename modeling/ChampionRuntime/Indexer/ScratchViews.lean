import ChampionRuntime.Indexer.Profile

/-!
# Views into the indexer scratch

The views that `_materialize_indexer_paged_scratch` and
`_materialize_indexer_contiguous_scratch` make from their layouts. A layout
sizes its regions from the caps; the views are shaped from the caps and the
layout again.
-/
namespace ChampionRuntime.Indexer

open Lib

inductive Dtype where
  | uint8
  | int32
  | int64
  | uint64
  | float32
  /-- `caps.k_dtype`, by its element size -/
  | key (nbytes : ℕ)

/-- `dtype_nbytes` -/
def Dtype.nbytes : Dtype → ℕ
  | uint8 => 1
  | int32 => 4
  | int64 => 8
  | uint64 => 8
  | float32 => 4
  | key nbytes => nbytes

/-- `materialize_scratch_view` at the offset of the region. -/
def scratchView {ι : Type} (region : ι) (shape : List ℕ) (dtype : Dtype) : View ι :=
  ⟨region, shape, dtype.nbytes⟩

/-- Views that are made under a condition only. -/
def viewsWhen {ι : Type} (condition : Bool) (views : List (View ι)) : List (View ι) :=
  if condition then views else []

theorem map_viewsWhen_sublist {ι : Type} (condition : Bool) (views : List (View ι)) :
    ((viewsWhen condition views).map View.region).Sublist (views.map View.region) := by
  cases condition with
  | false => exact List.nil_sublist _
  | true => exact List.Sublist.refl _

theorem mem_viewsWhen {ι : Type} {condition : Bool} {views : List (View ι)} {view : View ι} :
    view ∈ viewsWhen condition views ↔ condition = true ∧ view ∈ views := by
  cases condition <;> simp [viewsWhen]

section Paged

/-- The offset of a region in the layout. -/
def ScratchLayout.offset (p : Planner) (layout : ScratchLayout) : Region → ℕ :=
  regionOffset p.align layout.geometry.size regions

variable (p : Planner) (caps : PagedScratchCaps) (layout : ScratchLayout)

def gatherViews : List (View Region) :=
  let gatherKRows := layout.geometry.gatherKRows
  viewsWhen (0 < gatherKRows)
    [scratchView .gatherKQuant [gatherKRows, headDim] .uint8,
      scratchView .gatherKScale [gatherKRows, contiguousScaleBytes] .uint8]

def outputViews : List (View Region) :=
  [scratchView .contiguousLengths [caps.maxQRows] .int32,
    scratchView .runtimeLengths [caps.maxQRows] .int32,
    scratchView .tileLogits [layout.geometry.tileLogitsElements] .float32,
    scratchView .topkValues [caps.maxQRows, caps.topk] .float32,
    scratchView .topkIndices [caps.maxQRows, caps.topk] .int32]

def carryViews : List (View Region) :=
  let foldCarryChunks := if 1 < layout.geometry.maxChunks then 2 else 0
  viewsWhen (foldCarryChunks ≠ 0)
    [scratchView .candidateValues [foldCarryChunks, caps.maxQRows, caps.topk] .float32,
      scratchView .candidateIndices [foldCarryChunks, caps.maxQRows, caps.topk] .int32]

def foldViews : List (View Region) :=
  let slices := layout.geometry.twoLevelFoldSlices
  viewsWhen (0 < slices)
    [scratchView .twoLevelFoldValues [caps.maxQRows, slices, caps.topk] .float32,
      scratchView .twoLevelFoldIndices [caps.maxQRows, slices, caps.topk] .int32,
      scratchView .twoLevelFoldLengths [caps.maxQRows] .int32]

def widthViews : List (View Region) := [scratchView .activeWidth [1] .int32]

def fusedViews : List (View Region) :=
  let packElements := layout.geometry.fusedPackElements
  let stateWords := layout.geometry.fusedStateWords
  viewsWhen (0 < packElements ∧ 0 < stateWords)
    [scratchView .fusedPackValues [packElements] .float32,
      scratchView .fusedPackIndices [packElements] .int32,
      scratchView .fusedMergeState [stateWords] .int32]

def msaViews : List (View Region) :=
  let heads := caps.numIdxHeads
  let rows := caps.maxQRows
  let width := caps.maxPageTableWidth
  let maxPagesEven := if width % 2 ≠ 0 then width + 1 else width
  let maxBlocks := max 1 ((width * caps.pageSize + p.msaBlockTokens - 1) / p.msaBlockTokens)
  viewsWhen caps.msaEnabled
    [scratchView .msaPageScores [heads, rows, maxPagesEven] .float32,
      scratchView .msaBlockScores [heads, rows, maxBlocks] .float32,
      scratchView .msaQ2kIndices [heads, rows, caps.topk] .int32,
      scratchView .msaTopkScoreScratch [heads, rows, maxBlocks] .float32,
      scratchView .msaTopkValues [heads, rows, caps.topk] .float32,
      scratchView .msaTopkIndices [heads, rows, caps.topk] .int64,
      scratchView .msaSortValues [heads, rows, caps.topk] .int32,
      scratchView .msaSortIndices [heads, rows, caps.topk] .int64,
      scratchView .msaExpandedPageTable [heads * rows, width] .int32,
      scratchView .msaExpandedSeqlens [heads * rows] .int32]

/-- `_materialize_indexer_paged_scratch` -/
def materializePagedScratch : List (View Region) :=
  gatherViews layout ++ outputViews caps layout ++ carryViews caps layout ++
    foldViews caps layout ++ widthViews ++ fusedViews layout ++ msaViews p caps

variable {p caps layout}

theorem pagedViews_sublist :
    ((materializePagedScratch p caps layout).map View.region).Sublist regions := by
  have hgather : ((gatherViews layout).map View.region).Sublist [.gatherKQuant, .gatherKScale] :=
    map_viewsWhen_sublist _ _
  have hcarry : ((carryViews caps layout).map View.region).Sublist
      [.candidateValues, .candidateIndices] := map_viewsWhen_sublist _ _
  have hfold : ((foldViews caps layout).map View.region).Sublist
      [.twoLevelFoldValues, .twoLevelFoldIndices, .twoLevelFoldLengths] :=
    map_viewsWhen_sublist _ _
  have hfused : ((fusedViews layout).map View.region).Sublist
      [.fusedPackValues, .fusedPackIndices, .fusedMergeState] := map_viewsWhen_sublist _ _
  have hmsa : ((msaViews p caps).map View.region).Sublist
      [.msaPageScores, .msaBlockScores, .msaQ2kIndices, .msaTopkScoreScratch, .msaTopkValues,
        .msaTopkIndices, .msaSortValues, .msaSortIndices, .msaExpandedPageTable,
        .msaExpandedSeqlens] := map_viewsWhen_sublist _ _
  unfold materializePagedScratch
  simp only [List.map_append]
  exact (((((hgather.append (List.Sublist.refl _)).append hcarry).append hfold).append
    (List.Sublist.refl _)).append hfused).append hmsa

theorem pagedViews_nbytes (hlayout : indexerPagedScratchLayout p caps = .ok layout) :
    ∀ view ∈ materializePagedScratch p caps layout,
      view.nbytes = layout.geometry.size view.region := by
  obtain ⟨-, hgeometry, -⟩ := layout_eq_ok hlayout
  have hrows : layout.geometry.maxQRows = caps.maxQRows := by rw [hgeometry]; rfl
  have htopk : layout.geometry.topk = caps.topk := by rw [hgeometry]; rfl
  have hwidth : layout.geometry.maxPageTableWidth = caps.maxPageTableWidth := by rw [hgeometry]; rfl
  have hpage : layout.geometry.pageSize = caps.pageSize := by rw [hgeometry]; rfl
  have hmsa : layout.geometry.msaEnabled = caps.msaEnabled := by rw [hgeometry]; rfl
  have hheads : layout.geometry.numIdxHeads = caps.numIdxHeads := by rw [hgeometry]; rfl
  have hblock : layout.geometry.msaBlockTokens = p.msaBlockTokens := by rw [hgeometry]; rfl
  intro view hview
  simp only [materializePagedScratch, List.mem_append, or_assoc] at hview
  rcases hview with hview | hview | hview | hview | hview | hview | hview
  · obtain ⟨-, hview⟩ := mem_viewsWhen.mp hview
    fin_cases hview <;> simp [scratchView, View.nbytes, Dtype.nbytes, Geometry.size]
  · fin_cases hview <;>
      simp [scratchView, View.nbytes, Dtype.nbytes, Geometry.size, hrows, htopk]
  · obtain ⟨-, hview⟩ := mem_viewsWhen.mp hview
    fin_cases hview <;>
      simp [scratchView, View.nbytes, Dtype.nbytes, Geometry.size, Geometry.foldCarryChunks, hrows,
        htopk, Nat.mul_assoc]
  · obtain ⟨hslices, hview⟩ := mem_viewsWhen.mp hview
    have hne : layout.geometry.twoLevelFoldSlices ≠ 0 := (of_decide_eq_true hslices).ne'
    fin_cases hview <;>
      simp [scratchView, View.nbytes, Dtype.nbytes, Geometry.size, hrows, htopk, hne,
        Nat.mul_left_comm, Nat.mul_assoc]
  · fin_cases hview
    rfl
  · obtain ⟨-, hview⟩ := mem_viewsWhen.mp hview
    fin_cases hview <;> simp [scratchView, View.nbytes, Dtype.nbytes, Geometry.size]
  · obtain ⟨henabled, hview⟩ := mem_viewsWhen.mp hview
    have hon : layout.geometry.msaEnabled = true := hmsa.trans henabled
    fin_cases hview <;>
      simp [scratchView, View.nbytes, Dtype.nbytes, Geometry.size, Geometry.msaPageScoreElements,
        Geometry.msaBlockScoreElements, Geometry.msaQ2kElements, Geometry.msaExpandedRows, hon,
        hrows, htopk, hwidth, hpage, hheads, hblock, Nat.mul_assoc]

theorem pagedScratch_safe (hlayout : indexerPagedScratchLayout p caps = .ok layout) :
    SafeViews p.align layout.nbytes (layout.offset p) (materializePagedScratch p caps layout) := by
  have hnodup : regions.Nodup := by decide
  obtain ⟨-, -, hnbytes⟩ := layout_eq_ok hlayout
  apply SafeViews.of_fit p.align_pos (pagedViews_sublist.nodup hnodup)
  · exact fun view _ => mem_regions view.region
  · exact fun view hview => (pagedViews_nbytes hlayout view hview).le
  · rw [hnbytes]
    exact le_max_left _ _

end Paged

/-- `B12XIndexerContiguousScratchCaps` after its `__post_init__`. -/
structure ContiguousScratchCaps where
  maxQRows : ℕ
  maxKRows : ℕ
  topk : ℕ
  kDtype : Dtype
  supertileK : ℕ
  prefillBlockK : ℕ := 256
  msaEnabled : Bool := false
  numIdxHeads : ℕ := 1
  maxQRows_pos : 0 < maxQRows
  maxKRows_pos : 0 < maxKRows
  decodeBlock_dvd : 64 ∣ maxKRows
  topk_pos : 0 < topk
  prefillBlockK_eq : prefillBlockK = 256
  prefillBlockK_dvd : prefillBlockK ∣ supertileK
  prefillBlockK_le : prefillBlockK ≤ supertileK
  numIdxHeads_pos : 0 < numIdxHeads

def contiguousBlockQ : ℕ := 32

/-- `_INDEXER_CONTIGUOUS_TMA_DESC_WORDS` -/
def tmaDescWords : ℕ := 16

inductive ContiguousRegion where
  | kQuant
  | kScale
  | dummyLogits
  | tileLogits
  | lengths
  | topkValues
  | topkIndices
  | candidateValues
  | candidateIndices
  | metadataKStart
  | metadataKEnd
  | kTmaDesc
  | kTmaDescPtrs
  | kTmaPrefillDesc
  | kTmaPrefillDescPtrs
  | msaBlockScores
  | msaQ2kIndices
  | msaTopkScoreScratch
  | msaTopkValues
  | msaTopkIndices
  | msaSortValues
  | msaSortIndices
  deriving DecidableEq

/-- The regions in the order of the layout. -/
def contiguousRegions : List ContiguousRegion :=
  [.kQuant, .kScale, .dummyLogits, .tileLogits, .lengths, .topkValues, .topkIndices,
    .candidateValues, .candidateIndices, .metadataKStart, .metadataKEnd, .kTmaDesc, .kTmaDescPtrs,
    .kTmaPrefillDesc, .kTmaPrefillDescPtrs, .msaBlockScores, .msaQ2kIndices, .msaTopkScoreScratch,
    .msaTopkValues, .msaTopkIndices, .msaSortValues, .msaSortIndices]

theorem mem_contiguousRegions (region : ContiguousRegion) : region ∈ contiguousRegions := by
  cases region <;> decide

section Contiguous

variable (p : Planner) (caps : ContiguousScratchCaps)

namespace ContiguousScratchCaps

def maxChunkTiles : ℕ :=
  min (max 1 (caps.supertileK / caps.prefillBlockK))
    ((caps.maxKRows + caps.prefillBlockK - 1) / caps.prefillBlockK)

def tileLogitsElements : ℕ :=
  max 1 ((caps.maxQRows + contiguousBlockQ - 1) / contiguousBlockQ * caps.maxChunkTiles *
    contiguousBlockQ * caps.prefillBlockK)

def maxBlocks : ℕ := max 1 ((caps.maxKRows + p.msaBlockTokens - 1) / p.msaBlockTokens)

def msaBlockScoreElements : ℕ :=
  if caps.msaEnabled then caps.numIdxHeads * caps.maxQRows * caps.maxBlocks p else 0

def msaQ2kElements : ℕ :=
  if caps.msaEnabled then caps.numIdxHeads * caps.maxQRows * caps.topk else 0

/-- The bytes `_indexer_contiguous_scratch_layout` reserves for a region. -/
def size : ContiguousRegion → ℕ
  | .kQuant => caps.maxKRows * headDim * caps.kDtype.nbytes
  | .kScale => caps.maxKRows * contiguousScaleBytes * Dtype.uint8.nbytes
  | .dummyLogits => Dtype.float32.nbytes
  | .tileLogits => caps.tileLogitsElements * Dtype.float32.nbytes
  | .lengths => caps.maxQRows * Dtype.int32.nbytes
  | .topkValues => caps.maxQRows * caps.topk * Dtype.float32.nbytes
  | .topkIndices => caps.maxQRows * caps.topk * Dtype.int32.nbytes
  | .candidateValues => 2 * caps.maxQRows * caps.topk * Dtype.float32.nbytes
  | .candidateIndices => 2 * caps.maxQRows * caps.topk * Dtype.int32.nbytes
  | .metadataKStart => caps.maxQRows * Dtype.int32.nbytes
  | .metadataKEnd => caps.maxQRows * Dtype.int32.nbytes
  | .kTmaDesc => tmaDescWords * Dtype.uint64.nbytes
  | .kTmaDescPtrs => Dtype.int64.nbytes
  | .kTmaPrefillDesc => tmaDescWords * Dtype.uint64.nbytes
  | .kTmaPrefillDescPtrs => Dtype.int64.nbytes
  | .msaBlockScores => caps.msaBlockScoreElements p * Dtype.float32.nbytes
  | .msaQ2kIndices => caps.msaQ2kElements * Dtype.int32.nbytes
  | .msaTopkScoreScratch => caps.msaBlockScoreElements p * Dtype.float32.nbytes
  | .msaTopkValues => caps.msaQ2kElements * Dtype.float32.nbytes
  | .msaTopkIndices => caps.msaQ2kElements * Dtype.int64.nbytes
  | .msaSortValues => caps.msaQ2kElements * Dtype.int32.nbytes
  | .msaSortIndices => caps.msaQ2kElements * Dtype.int64.nbytes

end ContiguousScratchCaps

/-- `_B12XIndexerContiguousScratchLayout` -/
structure ContiguousLayout where
  nbytes : ℕ
  maxKRows : ℕ
  maxChunkTiles : ℕ
  tileLogitsElements : ℕ
  offset : ContiguousRegion → ℕ

def indexerContiguousScratchLayout : ContiguousLayout where
  nbytes := max (regionsEnd p.align (caps.size p) contiguousRegions) p.align
  maxKRows := caps.maxKRows
  maxChunkTiles := caps.maxChunkTiles
  tileLogitsElements := caps.tileLogitsElements
  offset := regionOffset p.align (caps.size p) contiguousRegions

variable (layout : ContiguousLayout)

def contiguousBaseViews : List (View ContiguousRegion) :=
  let maxKRows := max layout.maxKRows 1
  [scratchView .kQuant [maxKRows, headDim] caps.kDtype,
    scratchView .kScale [maxKRows, contiguousScaleBytes] .uint8,
    scratchView .dummyLogits [1, 1] .float32,
    scratchView .tileLogits [layout.tileLogitsElements] .float32,
    scratchView .lengths [caps.maxQRows] .int32,
    scratchView .topkValues [caps.maxQRows, caps.topk] .float32,
    scratchView .topkIndices [caps.maxQRows, caps.topk] .int32,
    scratchView .candidateValues [2, caps.maxQRows, caps.topk] .float32,
    scratchView .candidateIndices [2, caps.maxQRows, caps.topk] .int32,
    scratchView .metadataKStart [caps.maxQRows] .int32,
    scratchView .metadataKEnd [caps.maxQRows] .int32,
    scratchView .kTmaDesc [tmaDescWords] .uint64,
    scratchView .kTmaDescPtrs [1] .int64,
    scratchView .kTmaPrefillDesc [tmaDescWords] .uint64,
    scratchView .kTmaPrefillDescPtrs [1] .int64]

def contiguousMsaViews : List (View ContiguousRegion) :=
  let heads := caps.numIdxHeads
  let rows := caps.maxQRows
  let maxKRows := max layout.maxKRows 1
  let maxBlocks := max 1 ((maxKRows + p.msaBlockTokens - 1) / p.msaBlockTokens)
  viewsWhen caps.msaEnabled
    [scratchView .msaBlockScores [heads, rows, maxBlocks] .float32,
      scratchView .msaQ2kIndices [heads, rows, caps.topk] .int32,
      scratchView .msaTopkScoreScratch [heads, rows, maxBlocks] .float32,
      scratchView .msaTopkValues [heads, rows, caps.topk] .float32,
      scratchView .msaTopkIndices [heads, rows, caps.topk] .int64,
      scratchView .msaSortValues [heads, rows, caps.topk] .int32,
      scratchView .msaSortIndices [heads, rows, caps.topk] .int64]

/-- `_materialize_indexer_contiguous_scratch` -/
def materializeContiguousScratch : List (View ContiguousRegion) :=
  contiguousBaseViews caps layout ++ contiguousMsaViews p caps layout

variable {p caps layout}

theorem contiguousViews_sublist :
    ((materializeContiguousScratch p caps layout).map View.region).Sublist contiguousRegions := by
  have hmsa : ((contiguousMsaViews p caps layout).map View.region).Sublist
      [.msaBlockScores, .msaQ2kIndices, .msaTopkScoreScratch, .msaTopkValues, .msaTopkIndices,
        .msaSortValues, .msaSortIndices] := map_viewsWhen_sublist _ _
  unfold materializeContiguousScratch
  rw [List.map_append]
  exact (List.Sublist.refl _).append hmsa

theorem contiguousViews_nbytes :
    ∀ view ∈ materializeContiguousScratch p caps (indexerContiguousScratchLayout p caps),
      view.nbytes = caps.size p view.region := by
  have hrows : max caps.maxKRows 1 = caps.maxKRows := max_eq_left caps.maxKRows_pos
  intro view hview
  rcases List.mem_append.mp hview with hview | hview
  · fin_cases hview <;>
      simp [scratchView, View.nbytes, ContiguousScratchCaps.size, indexerContiguousScratchLayout,
        hrows, Nat.mul_assoc]
  · obtain ⟨henabled, hview⟩ := mem_viewsWhen.mp hview
    fin_cases hview <;>
      simp [scratchView, View.nbytes, ContiguousScratchCaps.size,
        ContiguousScratchCaps.msaBlockScoreElements, ContiguousScratchCaps.msaQ2kElements,
        ContiguousScratchCaps.maxBlocks, indexerContiguousScratchLayout, henabled, hrows,
        Nat.mul_assoc]

theorem contiguousScratch_safe (p : Planner) (caps : ContiguousScratchCaps) :
    SafeViews p.align (indexerContiguousScratchLayout p caps).nbytes
      (indexerContiguousScratchLayout p caps).offset
      (materializeContiguousScratch p caps (indexerContiguousScratchLayout p caps)) := by
  have hnodup : contiguousRegions.Nodup := by decide
  apply SafeViews.of_fit p.align_pos (contiguousViews_sublist.nodup hnodup)
  · exact fun view _ => mem_contiguousRegions view.region
  · exact fun view hview => (contiguousViews_nbytes view hview).le
  · exact le_max_left _ _

end Contiguous

/-- No two buffers of a scratch share a byte, whatever the caps. -/
theorem scratch_views_safe (p : Planner) :
    (∀ caps layout, indexerPagedScratchLayout p caps = .ok layout →
      SafeViews p.align layout.nbytes (layout.offset p) (materializePagedScratch p caps layout)) ∧
    ∀ caps, SafeViews p.align (indexerContiguousScratchLayout p caps).nbytes
      (indexerContiguousScratchLayout p caps).offset
      (materializeContiguousScratch p caps (indexerContiguousScratchLayout p caps)) :=
  ⟨fun _ _ hlayout => pagedScratch_safe hlayout, contiguousScratch_safe p⟩

/-- A served plan that chunks its rows: the carry has its two halves. -/
theorem scratch_views_safe_served :
    ∃ layout, indexerPagedScratchLayout tiledPlanner
        (reservedCaps tiledPlanner (servedSettings 131072 2048 true) true) = .ok layout ∧
      SafeViews 1024 layout.nbytes (layout.offset tiledPlanner)
        (materializePagedScratch tiledPlanner
          (reservedCaps tiledPlanner (servedSettings 131072 2048 true) true) layout) := by
  have hlayout : ∃ layout, indexerPagedScratchLayout tiledPlanner
      (reservedCaps tiledPlanner (servedSettings 131072 2048 true) true) = .ok layout :=
    ⟨_, rfl⟩
  obtain ⟨layout, hlayout⟩ := hlayout
  exact ⟨layout, hlayout, (scratch_views_safe tiledPlanner).1 _ layout hlayout⟩

end ChampionRuntime.Indexer
