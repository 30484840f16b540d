import ChampionRuntime.Lib.Outcome
import ChampionRuntime.Lib.Regions

/-!
# Scratch plans of the paged indexer

`plan_indexer_scratch` for a paged source: the supertile, the route, and the
regions of `_indexer_paged_scratch_layout` in their order.
-/
namespace ChampionRuntime.Indexer

open Lib

inductive Route where
  | auto
  | fused
  | tiled
  | packedContiguous
  deriving DecidableEq

inductive Mode where
  | decode
  | prefill
  deriving DecidableEq

/-- What the planner reads from outside the overlays: the device, the constants
of the scratch layout, and the choices of the kernels it plans for. -/
structure Planner where
  /-- `B12X_PAGED_INDEX_SUPERTILE_K`, when it is set -/
  supertileEnv : Option ℤ
  /-- `B12X_FUSED_INDEXER` is not `"0"` -/
  fusedEnabled : Bool
  /-- `SCRATCH_ALIGN_BYTES` -/
  align : ℕ
  align_pos : 0 < align
  numSms : ℕ
  /-- `MSA_BLOCK_TOKENS` -/
  msaBlockTokens : ℕ
  /-- top-k, rows, width and heads -/
  resolveFusedIndexerPath : ℕ → ℕ → ℕ → ℕ → Bool
  numQHeadTiles : ℕ → ℕ
  /-- the pack elements and the state words -/
  fusedIndexerScratchCapacity : ℕ → ℕ → ℕ → ℕ × ℕ
  resolveContiguousPrefillBlockK : ℕ → ℕ → ℕ → Option ℕ

/-- `B12XIndexerPagedScratchCaps` after its `__post_init__`. -/
structure PagedScratchCaps where
  numQHeads : ℕ
  maxQRows : ℕ
  maxPageTableWidth : ℕ
  topk : ℕ
  pageSize : ℕ := 64
  pagedTileLogitsKRows : ℕ := 0
  mode : Mode
  sharedPageTable : Bool
  route : Route := .auto
  msaEnabled : Bool := false
  numIdxHeads : ℕ := 1
  numQHeads_pos : 0 < numQHeads
  maxQRows_pos : 0 < maxQRows
  maxPageTableWidth_pos : 0 < maxPageTableWidth
  topk_pos : 0 < topk
  pageSize_pos : 0 < pageSize := by decide
  numIdxHeads_pos : 0 < numIdxHeads := by decide

def supertileDefault : ℕ := 32768

def tileBlockQ : ℕ := 32

def tileBlockK : ℕ := 512

def headDim : ℕ := 128

def contiguousScaleBytes : ℕ := 4

def twoLevelSliceTokens : ℕ := 16384

def twoLevelMaxSlices : ℕ := 32

/-- Rounding up to whole blocks, `(n + block - 1) // block * block`. -/
def wholeBlocks (n block : ℕ) : ℕ := (n + block - 1) / block * block

/-- `_resolve_indexer_paged_supertile_tokens` -/
def resolveSupertileTokens (env : Option ℤ) (rawTokens capacityTokens : ℕ) : ℕ :=
  let chosen : ℤ × Bool :=
    if rawTokens = 0 then
      match env with
      | none => (supertileDefault, true)
      | some raw => (raw, false)
    else (rawTokens, false)
  let tokens := wholeBlocks (max chosen.1 tileBlockK).toNat tileBlockK
  if chosen.2 then min tokens (max (wholeBlocks (max capacityTokens 1) tileBlockK) tileBlockK)
  else tokens

/-- Whether the fused path is available for the caps. -/
def fusedAvailable (p : Planner) (caps : PagedScratchCaps) : Bool :=
  p.fusedEnabled &&
    p.resolveFusedIndexerPath caps.topk caps.maxQRows (caps.maxPageTableWidth * caps.pageSize)
      caps.numQHeads &&
    decide (p.numQHeadTiles caps.numQHeads ∈ [1, 2, 4])

def decodeOnly (caps : PagedScratchCaps) : Bool :=
  !(caps.sharedPageTable || decide (caps.mode = .prefill))

def chosenRoute (p : Planner) (caps : PagedScratchCaps) : Route :=
  match caps.route with
  | .auto =>
    if decodeOnly caps then if fusedAvailable p caps then .fused else .tiled
    else .packedContiguous
  | route => route

/-- `_resolve_indexer_paged_route` -/
def resolveRoute (p : Planner) (caps : PagedScratchCaps) (supertileTokens : ℕ) :
    Except String Route := do
  let route := chosenRoute p caps
  match route with
  | .packedContiguous =>
    let prefillBlockK :=
      (p.resolveContiguousPrefillBlockK caps.maxQRows supertileTokens caps.numQHeads).getD 256
    require (supertileTokens % prefillBlockK = 0)
      ("packed-contiguous paged indexer route requires supertile_tokens " ++
        "divisible by prefill_block_k, got supertile_tokens=" ++ toString supertileTokens ++
        ", prefill_block_k=" ++ toString prefillBlockK)
  | .fused =>
    require (decodeOnly caps) "fused paged indexer route is decode-only"
    require (fusedAvailable p caps)
      ("fused paged indexer route is not available for the planned caps: max_q_rows=" ++
        toString caps.maxQRows ++ ", topk=" ++ toString caps.topk ++ ", width=" ++
        toString (caps.maxPageTableWidth * caps.pageSize) ++ ", num_q_heads=" ++
        toString caps.numQHeads)
  | .tiled => pure ()
  | .auto => pure ()
  return route

inductive Region where
  | gatherKQuant
  | gatherKScale
  | contiguousLengths
  | runtimeLengths
  | tileLogits
  | topkValues
  | topkIndices
  | candidateValues
  | candidateIndices
  | twoLevelFoldValues
  | twoLevelFoldIndices
  | twoLevelFoldLengths
  | activeWidth
  | fusedPackValues
  | fusedPackIndices
  | fusedMergeState
  | msaPageScores
  | msaBlockScores
  | msaQ2kIndices
  | msaTopkScoreScratch
  | msaTopkValues
  | msaTopkIndices
  | msaSortValues
  | msaSortIndices
  | msaExpandedPageTable
  | msaExpandedSeqlens
  deriving DecidableEq

/-- The regions in the order of the layout. -/
def regions : List Region :=
  [.gatherKQuant, .gatherKScale, .contiguousLengths, .runtimeLengths, .tileLogits, .topkValues,
    .topkIndices, .candidateValues, .candidateIndices, .twoLevelFoldValues, .twoLevelFoldIndices,
    .twoLevelFoldLengths, .activeWidth, .fusedPackValues, .fusedPackIndices, .fusedMergeState,
    .msaPageScores, .msaBlockScores, .msaQ2kIndices, .msaTopkScoreScratch, .msaTopkValues,
    .msaTopkIndices, .msaSortValues, .msaSortIndices, .msaExpandedPageTable, .msaExpandedSeqlens]

theorem mem_regions (region : Region) : region ∈ regions := by
  cases region <;> decide

/-- What the sizes of the regions are computed from. -/
structure Geometry where
  maxQRows : ℕ
  topk : ℕ
  maxPageTableWidth : ℕ
  pageSize : ℕ
  supertileTokens : ℕ
  maxChunks : ℕ
  gatherKRows : ℕ
  fusedPackElements : ℕ
  fusedStateWords : ℕ
  msaEnabled : Bool
  numIdxHeads : ℕ
  msaBlockTokens : ℕ

namespace Geometry

variable (g : Geometry)

def tileLogitsElements : ℕ :=
  max 1 ((g.maxQRows + tileBlockQ - 1) / tileBlockQ * (g.supertileTokens / tileBlockK) *
    tileBlockQ * tileBlockK)

/-- Two halves once a row takes more than one chunk. -/
def foldCarryChunks : ℕ := if 1 < g.maxChunks then 2 else 0

def twoLevelFoldSlices : ℕ :=
  if 2 * twoLevelSliceTokens ≤ g.maxPageTableWidth * g.pageSize then twoLevelMaxSlices else 0

def msaPageScoreElements : ℕ :=
  if g.msaEnabled then
    g.numIdxHeads * g.maxQRows *
      (if g.maxPageTableWidth % 2 ≠ 0 then g.maxPageTableWidth + 1 else g.maxPageTableWidth)
  else 0

def msaBlockScoreElements : ℕ :=
  if g.msaEnabled then
    g.numIdxHeads * g.maxQRows *
      max 1 ((g.maxPageTableWidth * g.pageSize + g.msaBlockTokens - 1) / g.msaBlockTokens)
  else 0

def msaQ2kElements : ℕ := if g.msaEnabled then g.numIdxHeads * g.maxQRows * g.topk else 0

def msaExpandedRows : ℕ := if g.msaEnabled then g.numIdxHeads * g.maxQRows else 0

/-- The bytes of a region; fp32 and int32 take four, int64 eight. -/
def size : Region → ℕ
  | .gatherKQuant => g.gatherKRows * headDim
  | .gatherKScale => g.gatherKRows * contiguousScaleBytes
  | .contiguousLengths => g.maxQRows * 4
  | .runtimeLengths => g.maxQRows * 4
  | .tileLogits => g.tileLogitsElements * 4
  | .topkValues => g.maxQRows * g.topk * 4
  | .topkIndices => g.maxQRows * g.topk * 4
  | .candidateValues => g.foldCarryChunks * g.maxQRows * g.topk * 4
  | .candidateIndices => g.foldCarryChunks * g.maxQRows * g.topk * 4
  | .twoLevelFoldValues => g.twoLevelFoldSlices * g.maxQRows * g.topk * 4
  | .twoLevelFoldIndices => g.twoLevelFoldSlices * g.maxQRows * g.topk * 4
  | .twoLevelFoldLengths => if g.twoLevelFoldSlices ≠ 0 then g.maxQRows * 4 else 0
  | .activeWidth => 4
  | .fusedPackValues => g.fusedPackElements * 4
  | .fusedPackIndices => g.fusedPackElements * 4
  | .fusedMergeState => g.fusedStateWords * 4
  | .msaPageScores => g.msaPageScoreElements * 4
  | .msaBlockScores => g.msaBlockScoreElements * 4
  | .msaQ2kIndices => g.msaQ2kElements * 4
  | .msaTopkScoreScratch => g.msaBlockScoreElements * 4
  | .msaTopkValues => g.msaQ2kElements * 4
  | .msaTopkIndices => g.msaQ2kElements * 8
  | .msaSortValues => g.msaQ2kElements * 4
  | .msaSortIndices => g.msaQ2kElements * 8
  | .msaExpandedPageTable => g.msaExpandedRows * g.maxPageTableWidth * 4
  | .msaExpandedSeqlens => g.msaExpandedRows * 4

end Geometry

/-- `_B12XIndexerPagedScratchLayout`; the offsets follow from the geometry. -/
structure ScratchLayout where
  route : Route
  geometry : Geometry
  nbytes : ℕ

def geometryOf (p : Planner) (caps : PagedScratchCaps) (supertileTokens : ℕ) (route : Route) :
    Geometry :=
  let supertilePages := max 1 (supertileTokens / caps.pageSize)
  let fused :=
    if route = .fused then p.fusedIndexerScratchCapacity caps.maxQRows caps.topk p.numSms else (0, 0)
  { maxQRows := caps.maxQRows
    topk := caps.topk
    maxPageTableWidth := caps.maxPageTableWidth
    pageSize := caps.pageSize
    supertileTokens := supertileTokens
    maxChunks := max 1 ((caps.maxPageTableWidth + supertilePages - 1) / supertilePages)
    gatherKRows := if route = .packedContiguous then supertileTokens else 0
    fusedPackElements := fused.1
    fusedStateWords := fused.2
    msaEnabled := caps.msaEnabled
    numIdxHeads := caps.numIdxHeads
    msaBlockTokens := p.msaBlockTokens }

def supertileOf (p : Planner) (caps : PagedScratchCaps) : ℕ :=
  resolveSupertileTokens p.supertileEnv caps.pagedTileLogitsKRows
    (caps.maxPageTableWidth * caps.pageSize)

def indexerPagedScratchLayout (p : Planner) (caps : PagedScratchCaps) :
    Except String ScratchLayout := do
  let supertileTokens := supertileOf p caps
  require (supertileTokens % caps.pageSize = 0)
    ("paged indexer supertile width must be divisible by page_size, got supertile_tokens=" ++
      toString supertileTokens ++ ", page_size=" ++ toString caps.pageSize)
  let route ← resolveRoute p caps supertileTokens
  let geometry := geometryOf p caps supertileTokens route
  return { route, geometry, nbytes := max (regionsEnd p.align geometry.size regions) p.align }

theorem layout_eq_ok {p : Planner} {caps : PagedScratchCaps} {layout : ScratchLayout}
    (h : indexerPagedScratchLayout p caps = .ok layout) :
    resolveRoute p caps (supertileOf p caps) = .ok layout.route ∧
      layout.geometry = geometryOf p caps (supertileOf p caps) layout.route ∧
      layout.nbytes = max (regionsEnd p.align layout.geometry.size regions) p.align := by
  simp only [indexerPagedScratchLayout, bind_eq_ok, pure_eq_ok] at h
  obtain ⟨-, -, route, hroute, rfl⟩ := h
  exact ⟨hroute, rfl, rfl⟩

theorem route_of_resolve {p : Planner} {caps : PagedScratchCaps} {supertileTokens : ℕ}
    {route : Route} (h : resolveRoute p caps supertileTokens = .ok route) :
    route = chosenRoute p caps := by
  unfold resolveRoute at h
  generalize chosenRoute p caps = chosen at h
  cases chosen with
  | auto => exact Except.ok.inj h.symm
  | tiled => exact Except.ok.inj h.symm
  | fused =>
    simp only [bind_eq_ok, pure_eq_ok] at h
    obtain ⟨-, -, -, -, rfl⟩ := h
    rfl
  | packedContiguous =>
    simp only [bind_eq_ok, pure_eq_ok] at h
    obtain ⟨-, -, rfl⟩ := h
    rfl

/-- One geometry holds as much as another in every respect. -/
structure Geometry.Le (g g' : Geometry) : Prop where
  maxQRows : g.maxQRows ≤ g'.maxQRows
  topk : g.topk = g'.topk
  supertileTokens : g.supertileTokens ≤ g'.supertileTokens
  carry : g.foldCarryChunks ≤ g'.foldCarryChunks
  slices : g.twoLevelFoldSlices ≤ g'.twoLevelFoldSlices
  gatherKRows : g.gatherKRows ≤ g'.gatherKRows
  fusedPackElements : g.fusedPackElements ≤ g'.fusedPackElements
  fusedStateWords : g.fusedStateWords ≤ g'.fusedStateWords
  noMsa : g.msaEnabled = false

theorem Geometry.tileLogitsElements_mono {g g' : Geometry} (h : g.Le g') :
    g.tileLogitsElements ≤ g'.tileLogitsElements := by
  have hrows : (g.maxQRows + tileBlockQ - 1) / tileBlockQ ≤
      (g'.maxQRows + tileBlockQ - 1) / tileBlockQ :=
    Nat.div_le_div_right (by have := h.maxQRows; omega)
  have htiles : g.supertileTokens / tileBlockK ≤ g'.supertileTokens / tileBlockK :=
    Nat.div_le_div_right h.supertileTokens
  unfold tileLogitsElements
  gcongr

theorem Geometry.size_mono {g g' : Geometry} (h : g.Le g') (region : Region) :
    g.size region ≤ g'.size region := by
  have hrows := h.maxQRows
  have hmsa := h.noMsa
  have hslots : ∀ {m n : ℕ}, m ≤ n → m * g.maxQRows * g.topk * 4 ≤ n * g'.maxQRows * g'.topk * 4 := by
    intro m n hmn
    rw [← h.topk]
    gcongr
  cases region with
  | gatherKQuant => exact Nat.mul_le_mul_right _ h.gatherKRows
  | gatherKScale => exact Nat.mul_le_mul_right _ h.gatherKRows
  | contiguousLengths => exact Nat.mul_le_mul_right _ hrows
  | runtimeLengths => exact Nat.mul_le_mul_right _ hrows
  | tileLogits => exact Nat.mul_le_mul_right _ (tileLogitsElements_mono h)
  | topkValues => simpa [size] using hslots (le_refl 1)
  | topkIndices => simpa [size] using hslots (le_refl 1)
  | candidateValues => exact hslots h.carry
  | candidateIndices => exact hslots h.carry
  | twoLevelFoldValues => exact hslots h.slices
  | twoLevelFoldIndices => exact hslots h.slices
  | twoLevelFoldLengths =>
    have hslices := h.slices
    simp only [size]
    split_ifs <;> omega
  | activeWidth => exact le_rfl
  | fusedPackValues => exact Nat.mul_le_mul_right _ h.fusedPackElements
  | fusedPackIndices => exact Nat.mul_le_mul_right _ h.fusedPackElements
  | fusedMergeState => exact Nat.mul_le_mul_right _ h.fusedStateWords
  | _ => simp [size, msaPageScoreElements, msaBlockScoreElements, msaQ2kElements,
      msaExpandedRows, hmsa]

end ChampionRuntime.Indexer
