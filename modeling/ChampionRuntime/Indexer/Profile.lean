import ChampionRuntime.Indexer.PrefillChunks
import ChampionRuntime.Indexer.Scratch

/-!
# The profile reservation

The profile branch of `sparse_attn_indexer` plans one decode and one prefill
call of its own making, and the workspace they take is all a run gets. It is
enough when its rows reach those of a decode batch and its page table, which
the cap leaves unpadded, is not one page short of the fold.
-/
namespace ChampionRuntime.Indexer

open Lib

structure Settings where
  maxModelLen : ℕ
  maxNumBatchedTokens : ℕ
  topkTokens : ℕ
  numQHeads : ℕ
  /-- `VLLM_SPARSE_INDEXER_MAX_LOGITS_MB` -/
  maxLogitsMb : ℕ
  /-- `VLLM_R17_PROFILE_DRAFTER_CAP` -/
  pagetableCap : Bool
  topkTokens_pos : 0 < topkTokens
  numQHeads_pos : 0 < numQHeads

def pagedIndexPageSize : ℕ := 64

/-- `_get_b12x_indexer_paged_supertile_k` -/
def indexerPagedSupertileK (env : Option ℤ) : ℕ :=
  let tokens : ℤ := env.getD supertileDefault
  wholeBlocks (max tokens tileBlockK).toNat tileBlockK

/-- `get_max_prefill_buffer_size` -/
def maxPrefillBufferSize (maxModelLen : ℕ) : ℕ := maxModelLen * 40

def alignIndexerBlockTableWidth (maxNumBlocksPerReq blockSize : ℕ) : ℕ :=
  if blockSize ≤ 128 then
    let alignment := 128 / blockSize
    (maxNumBlocksPerReq + alignment - 1) / alignment * alignment
  else maxNumBlocksPerReq

/-- The pages a request of the model's length takes. -/
def modelPages (s : Settings) : ℕ :=
  (s.maxModelLen + pagedIndexPageSize - 1) / pagedIndexPageSize

/-- The width of the runner's block table. -/
def blockTableWidth (s : Settings) : ℕ :=
  alignIndexerBlockTableWidth (modelPages s) pagedIndexPageSize

/-- The rows the budget lets into a call. -/
def profileMaxQRows (p : Planner) (s : Settings) : ℕ :=
  max 1 (s.maxLogitsMb * 1024 * 1024 / 4 / max 1 (indexerPagedSupertileK p.supertileEnv))

/-- `_get_b12x_paged_indexer_profile_q_rows` -/
def profileQRows (p : Planner) (s : Settings) : ℕ :=
  min (max 1 s.maxNumBatchedTokens) (profileMaxQRows p s)

/-- `_get_b12x_paged_indexer_profile_k_rows`, on the sequence lengths the model passes. -/
def profileKRows (p : Planner) (s : Settings) : ℕ :=
  let knownKRows := max s.maxModelLen (maxPrefillBufferSize s.maxModelLen)
  if 0 < knownKRows then knownKRows else indexerPagedSupertileK p.supertileEnv

/-- `_r17_capped_profile_k_rows` -/
def cappedProfileKRows (kRows maxModelLen : ℕ) : ℕ := min kRows (max 1 maxModelLen)

def reservedKRows (p : Planner) (s : Settings) : ℕ :=
  if s.pagetableCap then cappedProfileKRows (profileKRows p s) s.maxModelLen else profileKRows p s

def reservedWidth (p : Planner) (s : Settings) : ℕ :=
  max 1 ((max 1 (reservedKRows p s) + pagedIndexPageSize - 1) / pagedIndexPageSize)

/-- The caps of a call as the layer passes them to `plan_indexer_scratch`. -/
def callCaps (s : Settings) (sharedPageTable : Bool) (rows width : ℕ) (hrows : 0 < rows)
    (hwidth : 0 < width) : PagedScratchCaps where
  numQHeads := s.numQHeads
  maxQRows := rows
  maxPageTableWidth := width
  topk := s.topkTokens
  mode := if sharedPageTable then .prefill else .decode
  sharedPageTable := sharedPageTable
  numQHeads_pos := s.numQHeads_pos
  maxQRows_pos := hrows
  maxPageTableWidth_pos := hwidth
  topk_pos := s.topkTokens_pos

theorem profileQRows_pos (p : Planner) (s : Settings) : 0 < profileQRows p s := by
  unfold profileQRows profileMaxQRows
  omega

theorem reservedWidth_pos (p : Planner) (s : Settings) : 0 < reservedWidth p s := by
  unfold reservedWidth
  omega

/-- `_reserve_b12x_paged_indexer_scratch` in the profile branch. -/
def reservedCaps (p : Planner) (s : Settings) (sharedPageTable : Bool) : PagedScratchCaps :=
  callCaps s sharedPageTable (profileQRows p s) (reservedWidth p s) (profileQRows_pos p s)
    (reservedWidth_pos p s)

/-- The rows of a call: a chunk of one prefill request, scored against the budget
of a supertile, or the tokens of a decode batch. -/
inductive CallRows (p : Planner) (s : Settings) : Bool → ℕ → Prop where
  | prefill {queryLen requestOffset : ℕ} {c : ChunkSpec} (hlen : queryLen ≤ s.maxNumBatchedTokens)
      (hmem : c ∈ splitIndexerPrefillChunks [indexerPagedSupertileK p.supertileEnv] [queryLen]
        (maxPrefillBufferSize s.maxModelLen) (s.maxLogitsMb * 1024 * 1024) requestOffset) :
      CallRows p s true (c.queryStop - c.queryStart)
  | decode {rows : ℕ} (hrows : rows ≤ s.maxNumBatchedTokens) : CallRows p s false rows

def comparedRoute (sharedPageTable : Bool) : Route :=
  if sharedPageTable then .packedContiguous else .tiled

/-- No call of a run plans more bytes than were reserved for its kind. -/
def Dominated (p : Planner) (s : Settings) : Prop :=
  ∀ (sharedPageTable : Bool) (rows width : ℕ) (hrows : 0 < rows) (hwidth : 0 < width),
    CallRows p s sharedPageTable rows → width ≤ blockTableWidth s →
    ∀ layout reserved : ScratchLayout,
      indexerPagedScratchLayout p (callCaps s sharedPageTable rows width hrows hwidth) = .ok layout →
      layout.route = comparedRoute sharedPageTable →
      indexerPagedScratchLayout p (reservedCaps p s sharedPageTable) = .ok reserved →
      layout.nbytes ≤ reserved.nbytes

/-- A page table holds as many whole blocks of a tile as another, and the fold
appears for it no sooner. -/
structure WidthLe (width width' : ℕ) : Prop where
  blocks : (width + 7) / 8 ≤ (width' + 7) / 8
  fold : 512 ≤ width → 512 ≤ width'

theorem WidthLe.of_le {width width' : ℕ} (h : width ≤ width') : WidthLe width width' :=
  ⟨by omega, by omega⟩

section Width

variable {p : Planner} {s : Settings} {shared : Bool} {rows rows' width width' : ℕ}
  {hrows : 0 < rows} {hrows' : 0 < rows'} {hwidth : 0 < width} {hwidth' : 0 < width'}

theorem supertileOf_none (henv : p.supertileEnv = none) :
    supertileOf p (callCaps s shared rows width hrows hwidth) =
      min 32768 ((width + 7) / 8 * 512) := by
  simp only [supertileOf, callCaps, resolveSupertileTokens, henv, if_true, wholeBlocks,
    supertileDefault, tileBlockK]
  omega

theorem supertileOf_some {raw : ℤ} (henv : p.supertileEnv = some raw) :
    supertileOf p (callCaps s shared rows width hrows hwidth) =
      (max raw 512 + 511).toNat / 512 * 512 := by
  simp only [supertileOf, callCaps, resolveSupertileTokens, henv, if_true, wholeBlocks,
    tileBlockK, Bool.false_eq_true, if_false]
  omega

theorem exists_supertileOf (p : Planner) (s : Settings) (shared : Bool) (hrows : 0 < rows)
    (hwidth : 0 < width) : ∃ blocks, 0 < blocks ∧
      supertileOf p (callCaps s shared rows width hrows hwidth) = blocks * 512 := by
  cases henv : p.supertileEnv with
  | none =>
    rw [supertileOf_none henv]
    exact ⟨min 64 ((width + 7) / 8), by omega, by omega⟩
  | some raw =>
    rw [supertileOf_some henv]
    exact ⟨(max raw 512 + 511).toNat / 512, by omega, rfl⟩

theorem supertileOf_mono (h : WidthLe width width') :
    supertileOf p (callCaps s shared rows width hrows hwidth) ≤
      supertileOf p (callCaps s shared rows' width' hrows' hwidth') := by
  have hblocks := h.blocks
  cases henv : p.supertileEnv with
  | none =>
    rw [supertileOf_none henv, supertileOf_none henv]
    omega
  | some raw => simp only [supertileOf_some henv, le_refl]

theorem chunks_mono (h : WidthLe width width')
    (hchunk : supertileOf p (callCaps s shared rows width hrows hwidth) < width * 64) :
    supertileOf p (callCaps s shared rows' width' hrows' hwidth') < width' * 64 := by
  have hblocks := h.blocks
  cases henv : p.supertileEnv with
  | none =>
    rw [supertileOf_none henv, min_lt_iff] at hchunk
    have hlong : 512 < width := by omega
    have hlong' : 512 < width' := by omega
    rw [supertileOf_none henv, min_lt_iff]
    exact .inl (by omega)
  | some raw =>
    simp only [supertileOf_some henv] at hchunk ⊢
    omega

theorem one_lt_maxChunks {supertileTokens blocks : ℕ} (hpos : 0 < blocks)
    (hblocks : supertileTokens = blocks * 512) (route : Route) :
    1 < (geometryOf p (callCaps s shared rows width hrows hwidth) supertileTokens route).maxChunks ↔
      supertileTokens < width * 64 := by
  have hpages : max 1 (supertileTokens / 64) = blocks * 8 := by omega
  change 1 < max 1 ((width + max 1 (supertileTokens / 64) - 1) / max 1 (supertileTokens / 64)) ↔ _
  rw [hpages, lt_max_iff, Nat.lt_iff_add_one_le (n := (width + blocks * 8 - 1) / (blocks * 8)),
    Nat.le_div_iff_mul_le (by omega)]
  omega

theorem foldCarryChunks_geometryOf (route : Route) :
    (geometryOf p (callCaps s shared rows width hrows hwidth)
      (supertileOf p (callCaps s shared rows width hrows hwidth)) route).foldCarryChunks =
      if supertileOf p (callCaps s shared rows width hrows hwidth) < width * 64 then 2 else 0 := by
  obtain ⟨blocks, hpos, hblocks⟩ := exists_supertileOf p s shared hrows hwidth
  exact if_congr (one_lt_maxChunks hpos hblocks route) rfl rfl

theorem twoLevelFoldSlices_geometryOf (supertileTokens : ℕ) (route : Route) :
    (geometryOf p (callCaps s shared rows width hrows hwidth) supertileTokens
      route).twoLevelFoldSlices = if 512 ≤ width then 32 else 0 := by
  simp only [Geometry.twoLevelFoldSlices, geometryOf, callCaps, twoLevelSliceTokens,
    twoLevelMaxSlices]
  exact if_congr (by omega) rfl rfl

/-- A call of no more rows on a narrower table plans no larger regions, if the wider
one is planned for the same route or the narrower one needs no fused state. -/
theorem geometryLe {route route' : Route} (hrowsLe : rows ≤ rows')
    (hsupertile : supertileOf p (callCaps s shared rows width hrows hwidth) ≤
      supertileOf p (callCaps s shared rows' width' hrows' hwidth'))
    (hchunk : supertileOf p (callCaps s shared rows width hrows hwidth) < width * 64 →
      supertileOf p (callCaps s shared rows' width' hrows' hwidth') < width' * 64)
    (hfold : 512 ≤ width → 512 ≤ width')
    (hfused : route ≠ .fused) (hpacked : route = .packedContiguous → route' = .packedContiguous) :
    (geometryOf p (callCaps s shared rows width hrows hwidth)
      (supertileOf p (callCaps s shared rows width hrows hwidth)) route).Le
    (geometryOf p (callCaps s shared rows' width' hrows' hwidth')
      (supertileOf p (callCaps s shared rows' width' hrows' hwidth')) route') where
  maxQRows := hrowsLe
  topk := rfl
  supertileTokens := hsupertile
  carry := by
    rw [foldCarryChunks_geometryOf, foldCarryChunks_geometryOf]
    split_ifs with hnarrow hwide hwide
    · exact le_rfl
    · exact absurd (hchunk hnarrow) hwide
    · exact Nat.zero_le _
    · exact le_rfl
  slices := by
    rw [twoLevelFoldSlices_geometryOf, twoLevelFoldSlices_geometryOf]
    split_ifs with hnarrow hwide hwide
    · exact le_rfl
    · exact absurd (hfold hnarrow) hwide
    · exact Nat.zero_le _
    · exact le_rfl
  gatherKRows := by
    by_cases hroute : route = .packedContiguous
    · simp only [geometryOf, hroute, hpacked hroute, if_true, hsupertile]
    · simp only [geometryOf, hroute, if_false, Nat.zero_le]
  fusedPackElements := by simp only [geometryOf, hfused, if_false, Nat.zero_le]
  fusedStateWords := by simp only [geometryOf, hfused, if_false, Nat.zero_le]
  noMsa := rfl

theorem size_twoLevelFoldValues (supertileTokens : ℕ) (route : Route) :
    (geometryOf p (callCaps s shared rows width hrows hwidth) supertileTokens route).size
      .twoLevelFoldValues = (if 512 ≤ width then 32 else 0) * rows * s.topkTokens * 4 := by
  rw [← twoLevelFoldSlices_geometryOf (p := p) (s := s) supertileTokens route]
  rfl

end Width

theorem blockTableWidth_eq (s : Settings) : blockTableWidth s = (modelPages s + 1) / 2 * 2 := by
  simp [blockTableWidth, alignIndexerBlockTableWidth, pagedIndexPageSize]

theorem profileKRows_eq (p : Planner) {s : Settings} (hlen : 0 < s.maxModelLen) :
    profileKRows p s = s.maxModelLen * 40 := by
  have hbuffer : maxPrefillBufferSize s.maxModelLen = s.maxModelLen * 40 := rfl
  simp only [profileKRows]
  rw [if_pos (by omega)]
  omega

theorem reservedWidth_capped {p : Planner} {s : Settings} (hlen : 0 < s.maxModelLen)
    (hcap : s.pagetableCap = true) : reservedWidth p s = modelPages s := by
  have hrows := profileKRows_eq p hlen
  simp only [reservedWidth, reservedKRows, hcap, if_true, cappedProfileKRows, modelPages,
    pagedIndexPageSize]
  omega

theorem reservedWidth_uncapped {p : Planner} {s : Settings} (hlen : 0 < s.maxModelLen)
    (hcap : s.pagetableCap = false) :
    reservedWidth p s = (s.maxModelLen * 40 + 63) / 64 := by
  simp only [reservedWidth, reservedKRows, hcap, Bool.false_eq_true, if_false,
    profileKRows_eq p hlen, pagedIndexPageSize]
  omega

/-- The rows of a decode batch fit the logits budget, and the unpadded page table
is not the one width whose padding brings in the fold. -/
def ReservationReaches (p : Planner) (s : Settings) : Prop :=
  s.maxNumBatchedTokens ≤ profileMaxQRows p s ∧
    (s.pagetableCap = true → modelPages s ≠ 2 * twoLevelSliceTokens / pagedIndexPageSize - 1)

instance (p : Planner) (s : Settings) : Decidable (ReservationReaches p s) :=
  inferInstanceAs (Decidable (_ ∧ _))

theorem CallRows.le_profileQRows {p : Planner} {s : Settings} {shared : Bool} {rows : ℕ}
    (h : CallRows p s shared rows) (hbudget : s.maxNumBatchedTokens ≤ profileMaxQRows p s) :
    rows ≤ profileQRows p s := by
  unfold profileQRows
  cases h with
  | decode hrows => omega
  | prefill hlen hmem =>
    obtain ⟨-, -, -, -, hrows⟩ := mem_single hmem
    omega

theorem widthLe_reserved {p : Planner} {s : Settings} {width : ℕ} (hwidth : 0 < width)
    (hle : width ≤ blockTableWidth s) (hreach : ReservationReaches p s) :
    WidthLe width (reservedWidth p s) := by
  have hfold := hreach.2
  rw [blockTableWidth_eq] at hle
  have hlen : 0 < s.maxModelLen := by
    by_contra hzero
    simp only [modelPages, pagedIndexPageSize] at hle
    omega
  cases hcap : s.pagetableCap with
  | true =>
    have hne := hfold hcap
    rw [reservedWidth_capped hlen hcap]
    simp only [twoLevelSliceTokens, pagedIndexPageSize] at hne
    constructor <;> omega
  | false =>
    rw [reservedWidth_uncapped hlen hcap]
    simp only [modelPages, pagedIndexPageSize] at hle
    constructor <;> omega

theorem nbytes_le {p : Planner} {caps caps' : PagedScratchCaps} {layout layout' : ScratchLayout}
    (h : indexerPagedScratchLayout p caps = .ok layout)
    (h' : indexerPagedScratchLayout p caps' = .ok layout')
    (hle : layout.geometry.Le layout'.geometry) : layout.nbytes ≤ layout'.nbytes := by
  obtain ⟨-, -, hbytes⟩ := layout_eq_ok h
  obtain ⟨-, -, hbytes'⟩ := layout_eq_ok h'
  rw [hbytes, hbytes']
  exact max_le_max_right _
    (regionsEnd_mono p.align_pos fun region _ => Geometry.size_mono hle region)

theorem dominated_of_reaches {p : Planner} {s : Settings} (hreach : ReservationReaches p s) :
    Dominated p s := by
  intro shared rows width hrows hwidth hcall hle layout reserved hlayout hroute hreserved
  have hwider := widthLe_reserved hwidth hle hreach
  obtain ⟨-, hgeometry, -⟩ := layout_eq_ok hlayout
  obtain ⟨hresolve, hgeometry', -⟩ := layout_eq_ok hreserved
  refine nbytes_le hlayout hreserved ?_
  rw [hgeometry, hgeometry']
  apply geometryLe (hcall.le_profileQRows hreach.1) (supertileOf_mono hwider) (chunks_mono hwider)
    hwider.fold
  · rw [hroute]
    cases shared <;> decide
  · intro hpacked
    rw [hroute] at hpacked
    cases shared with
    | true => rw [route_of_resolve hresolve]; rfl
    | false => exact absurd hpacked (by decide)

theorem blockTableWidth_pos {s : Settings} (hlen : 0 < s.maxModelLen) : 0 < blockTableWidth s := by
  rw [blockTableWidth_eq]
  simp only [modelPages, pagedIndexPageSize]
  omega

/-- The caps of the largest decode batch, on the table of the runner. -/
def widestDecodeCaps (s : Settings) (hlen : 0 < s.maxModelLen) (hrows : 0 < s.maxNumBatchedTokens) :
    PagedScratchCaps :=
  callCaps s false s.maxNumBatchedTokens (blockTableWidth s) hrows (blockTableWidth_pos hlen)

/-- Tables so wide that a row of the runner's takes a second chunk and the fold. -/
def WideTables (p : Planner) (s : Settings) : Prop :=
  512 ≤ blockTableWidth s ∧ indexerPagedSupertileK p.supertileEnv < blockTableWidth s * 64

theorem exists_layout_of_tiled {p : Planner} {s : Settings} {rows width : ℕ} {hrows : 0 < rows}
    {hwidth : 0 < width} (hroute : chosenRoute p (callCaps s false rows width hrows hwidth) = .tiled) :
    ∃ layout, indexerPagedScratchLayout p (callCaps s false rows width hrows hwidth) = .ok layout ∧
      layout.route = .tiled := by
  obtain ⟨blocks, -, hblocks⟩ := exists_supertileOf p s false hrows hwidth
  have hpages : supertileOf p (callCaps s false rows width hrows hwidth) %
      (callCaps s false rows width hrows hwidth).pageSize = 0 := by
    change _ % 64 = 0
    omega
  have hresolve : resolveRoute p (callCaps s false rows width hrows hwidth)
      (supertileOf p (callCaps s false rows width hrows hwidth)) = .ok .tiled := by
    simp only [resolveRoute, hroute]
    rfl
  simp only [indexerPagedScratchLayout, hpages, decide_true, require_true, ok_bind, hresolve]
  exact ⟨_, rfl, rfl⟩

/-- A region that grows by the alignment at least shows in the bytes of the plan. -/
theorem nbytes_lt {p : Planner} {caps caps' : PagedScratchCaps} {layout layout' : ScratchLayout}
    (h : indexerPagedScratchLayout p caps = .ok layout)
    (h' : indexerPagedScratchLayout p caps' = .ok layout')
    (hle : layout.geometry.Le layout'.geometry) (region : Region)
    (hgrown : layout.geometry.size region + p.align ≤ layout'.geometry.size region) :
    layout.nbytes < layout'.nbytes := by
  obtain ⟨-, hgeometry, hbytes⟩ := layout_eq_ok h
  obtain ⟨-, -, hbytes'⟩ := layout_eq_ok h'
  have hlt := regionsEnd_lt p.align_pos
    (fun region (_ : region ∈ regions) => Geometry.size_mono hle region) (mem_regions region)
    (alignUp_lt p.align_pos hgrown)
  have hone : p.align ≤ regionsEnd p.align layout.geometry.size regions := by
    refine (align_le_alignUp p.align_pos ?_).trans
      (alignUp_le_regionsEnd p.align_pos _ (mem_regions .contiguousLengths))
    have hrows := caps.maxQRows_pos
    rw [hgeometry]
    exact Nat.mul_pos hrows (by decide)
  rw [hbytes, hbytes']
  omega

theorem supertileOf_le (p : Planner) (s : Settings) {rows width : ℕ} (hrows : 0 < rows)
    (hwidth : 0 < width) :
    supertileOf p (callCaps s false rows width hrows hwidth) ≤
      indexerPagedSupertileK p.supertileEnv := by
  cases henv : p.supertileEnv with
  | none =>
    rw [supertileOf_none henv]
    exact Nat.min_le_left _ _
  | some raw =>
    rw [supertileOf_some henv]
    simp only [indexerPagedSupertileK, wholeBlocks, tileBlockK, Option.getD_some]
    omega

theorem supertileOf_wide {p : Planner} (s : Settings) {rows width : ℕ} (hrows : 0 < rows)
    (hwidth : 0 < width) (hwide : indexerPagedSupertileK p.supertileEnv < width * 64) :
    supertileOf p (callCaps s false rows width hrows hwidth) =
      indexerPagedSupertileK p.supertileEnv := by
  cases henv : p.supertileEnv with
  | none =>
    have hdefault : indexerPagedSupertileK none = 32768 := by decide
    rw [henv, hdefault] at hwide
    rw [supertileOf_none henv, hdefault]
    omega
  | some raw =>
    rw [supertileOf_some henv]
    simp only [indexerPagedSupertileK, wholeBlocks, tileBlockK, Option.getD_some]
    omega

/-- The largest decode batch plans more than was reserved once its rows exceed the budget
or its padded table is the first to need the fold. -/
theorem exceeds_of_not_reaches {p : Planner} {s : Settings} (hlen : 0 < s.maxModelLen)
    (hbatch : 0 < s.maxNumBatchedTokens) (halign : p.align ≤ s.topkTokens * 4)
    (hroute : chosenRoute p (widestDecodeCaps s hlen hbatch) = .tiled)
    (hreservedRoute : chosenRoute p (reservedCaps p s false) = .tiled)
    (hwide : s.pagetableCap = true ∨ WideTables p s) (hreach : ¬ ReservationReaches p s) :
    ¬ Dominated p s := by
  intro hdominated
  obtain ⟨layout, hlayout, hlayoutRoute⟩ := exists_layout_of_tiled hroute
  obtain ⟨reserved, hreserved, hreservedRoute⟩ := exists_layout_of_tiled hreservedRoute
  have hle := hdominated false _ _ hbatch (blockTableWidth_pos hlen) (.decode le_rfl) le_rfl layout
    reserved hlayout hlayoutRoute hreserved
  obtain ⟨-, hgeometry, -⟩ := layout_eq_ok hlayout
  obtain ⟨-, hgeometry', -⟩ := layout_eq_ok hreserved
  have hrows : profileQRows p s ≤ s.maxNumBatchedTokens := by
    unfold profileQRows
    omega
  have hgeometries : reserved.geometry.Le layout.geometry := by
    rw [hgeometry, hgeometry', hreservedRoute, hlayoutRoute]
    rcases hwide with hcap | ⟨hfold, hchunk⟩
    · have hnarrow : WidthLe (reservedWidth p s) (blockTableWidth s) := by
        rw [reservedWidth_capped hlen hcap, blockTableWidth_eq]
        exact .of_le (by omega)
      exact geometryLe hrows (supertileOf_mono hnarrow) (chunks_mono hnarrow) hnarrow.fold
        (by decide) (by decide)
    · have hsame := supertileOf_wide s hbatch (blockTableWidth_pos hlen) hchunk
      refine geometryLe hrows ?_ (fun _ => ?_) (fun _ => hfold) (by decide) (by decide)
      · rw [hsame]
        exact supertileOf_le p s _ _
      · rw [hsame]
        exact hchunk
  have hbound := hle.not_gt
  by_cases hbudget : s.maxNumBatchedTokens ≤ profileMaxQRows p s
  · -- the fold is the only region that appears between the two widths
    have hfold : s.pagetableCap = true ∧ modelPages s = 511 := by
      by_contra hnone
      refine hreach ⟨hbudget, fun hcap hpages => hnone ⟨hcap, ?_⟩⟩
      simpa [twoLevelSliceTokens, pagedIndexPageSize] using hpages
    refine hbound (nbytes_lt hreserved hlayout hgeometries .twoLevelFoldValues ?_)
    have hslots : s.topkTokens ≤ s.maxNumBatchedTokens * s.topkTokens :=
      Nat.le_mul_of_pos_left _ hbatch
    have hnarrow : ¬ 512 ≤ reservedWidth p s := by
      rw [reservedWidth_capped hlen hfold.1, hfold.2]
      decide
    have hpadded : 512 ≤ blockTableWidth s := by rw [blockTableWidth_eq, hfold.2]
    rw [hgeometry, hgeometry']
    rw [size_twoLevelFoldValues, size_twoLevelFoldValues, if_neg hnarrow, if_pos hpadded,
      Nat.zero_mul, Nat.zero_mul, Nat.mul_assoc 32]
    omega
  · refine hbound (nbytes_lt hreserved hlayout hgeometries .topkValues ?_)
    have hfewer : profileQRows p s + 1 ≤ s.maxNumBatchedTokens := by
      unfold profileQRows
      omega
    have hmore := Nat.mul_le_mul_right s.topkTokens hfewer
    rw [hgeometry, hgeometry']
    change profileQRows p s * s.topkTokens * 4 + p.align ≤
      s.maxNumBatchedTokens * s.topkTokens * 4
    rw [Nat.succ_mul] at hmore
    omega

/-- The reservation dominates every call of a run exactly when it reaches the rows of
the decode batches and the fold of the padded table. -/
theorem reservation_dominates (p : Planner) (s : Settings) :
    (ReservationReaches p s → Dominated p s) ∧
      ∀ (hlen : 0 < s.maxModelLen) (hbatch : 0 < s.maxNumBatchedTokens),
        p.align ≤ s.topkTokens * 4 → chosenRoute p (widestDecodeCaps s hlen hbatch) = .tiled →
        chosenRoute p (reservedCaps p s false) = .tiled →
        s.pagetableCap = true ∨ WideTables p s → (Dominated p s ↔ ReservationReaches p s) := by
  refine ⟨dominated_of_reaches, fun hlen hbatch halign hroute hreserved hwide => ?_⟩
  refine ⟨fun hdominated => ?_, dominated_of_reaches⟩
  by_contra hreach
  exact exceeds_of_not_reaches hlen hbatch halign hroute hreserved hwide hreach hdominated

/-- A planner without the fused path, whose regions start at multiples of a kibibyte. -/
def tiledPlanner : Planner where
  supertileEnv := none
  fusedEnabled := false
  align := 1024
  align_pos := by decide
  numSms := 48
  msaBlockTokens := 64
  resolveFusedIndexerPath := fun _ _ _ _ => false
  numQHeadTiles := fun heads => heads / 16
  fusedIndexerScratchCapacity := fun _ _ _ => (0, 0)
  resolveContiguousPrefillBlockK := fun _ _ _ => none

def servedSettings (maxModelLen maxNumBatchedTokens : ℕ) (pagetableCap : Bool) : Settings where
  maxModelLen := maxModelLen
  maxNumBatchedTokens := maxNumBatchedTokens
  topkTokens := 2048
  numQHeads := 64
  maxLogitsMb := 512
  pagetableCap := pagetableCap
  topkTokens_pos := by decide
  numQHeads_pos := by decide

theorem reservation_dominates_served :
    Dominated tiledPlanner (servedSettings 131072 2048 true) ∧
      ¬ Dominated tiledPlanner (servedSettings 131072 8192 false) := by
  refine ⟨(reservation_dominates _ _).1 (by decide), fun hdominated => ?_⟩
  have hreach := ((reservation_dominates tiledPlanner (servedSettings 131072 8192 false)).2
    (by decide) (by decide) (by decide) (by decide) (by decide)
    (.inr ⟨by decide, by decide⟩)).mp hdominated
  exact absurd hreach (by decide)

/-- A model length of 511 pages under the cap: the table of the runner has one page more,
and a decode batch needs the fold that was not reserved. -/
theorem capped_reservation_exceeded : ¬ Dominated tiledPlanner (servedSettings 32704 2048 true) :=
  exceeds_of_not_reaches (by decide) (by decide) (by decide) (by decide) (by decide)
    (.inl (by decide)) (by decide)

end ChampionRuntime.Indexer
