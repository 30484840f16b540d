import ChampionRuntime.Indexer.Profile
import ChampionRuntime.Lib.Slices

/-!
# The slices of the two-level fold

`index_topk_fp8` caps the slices of a long row at 32 and the plan reserves as
many, but the slices are counted chunk by chunk: a supertile that is not a whole
number of slices wide takes one slice more than its share.
-/
namespace ChampionRuntime.Indexer

open Lib

/-- A page table bound to the scratch of a plan, as `build_indexer_paged_binding` admits it. -/
structure PagedBinding (layout : ScratchLayout) where
  qRows : ℕ
  pageTableWidth : ℕ
  outputPhysicalSlots : Bool
  qRows_le : qRows ≤ layout.geometry.maxQRows
  width_le : pageTableWidth ≤ layout.geometry.maxPageTableWidth

/-- `_resolve_supertile_k`, on the supertile the scratch was planned with. -/
def resolveSupertileK (supertileK : ℕ) : ℕ := wholeBlocks (max supertileK tileBlockK) tileBlockK

def supertilePages (layout : ScratchLayout) : ℕ :=
  max 1 (resolveSupertileK layout.geometry.supertileTokens / pagedIndexPageSize)

/-- The tokens of a slice: 16K, or a 32nd of the row in whole pages when that is more. -/
def sliceTokens (widthTokens : ℕ) : ℕ :=
  let minSlice := widthTokens ⌈/⌉ twoLevelMaxSlices
  if twoLevelSliceTokens < minSlice then minSlice ⌈/⌉ pagedIndexPageSize * pagedIndexPageSize
  else twoLevelSliceTokens

def chunkSplits (width supertilePages slice c : ℕ) : ℕ :=
  max 1 ((chunkLen width supertilePages c * pagedIndexPageSize) ⌈/⌉ slice)

/-- The loop over the chunks: the slices of each and the first of them, and how many
there are in the end. -/
def planSlices (width supertilePages : ℕ) : List (ℕ × ℕ) × ℕ :=
  let slice := sliceTokens (width * pagedIndexPageSize)
  (List.range (max 1 (width ⌈/⌉ supertilePages))).foldl
    (fun planned c =>
      let splits := chunkSplits width supertilePages slice c
      (planned.1 ++ [(splits, planned.2)], planned.2 + splits))
    ([], 0)

/-- `get_indexer_two_level_fold_buffers`, with the capacity it returns. -/
def getIndexerTwoLevelFoldBuffers (layout : ScratchLayout) (rowCount totalSlices : ℕ) :
    Except String ℕ := do
  let capacitySlices := layout.geometry.twoLevelFoldSlices
  require (capacitySlices ≠ 0) "paged indexer scratch is missing two-level fold buffers"
  require (rowCount ≤ layout.geometry.maxQRows)
    ("row_count " ++ toString rowCount ++ " exceeds paged fold capacity " ++
      toString layout.geometry.maxQRows)
  require (0 < totalSlices ∧ totalSlices ≤ capacitySlices)
    ("total_slices " ++ toString totalSlices ++ " exceeds paged fold capacity " ++
      toString capacitySlices)
  return capacitySlices

theorem getIndexerTwoLevelFoldBuffers_eq_ok {layout : ScratchLayout}
    {rowCount totalSlices capacity : ℕ}
    (h : getIndexerTwoLevelFoldBuffers layout rowCount totalSlices = .ok capacity) :
    totalSlices ≤ layout.geometry.twoLevelFoldSlices := by
  simp only [getIndexerTwoLevelFoldBuffers, bind_eq_ok, require_eq_ok, decide_eq_true_eq] at h
  obtain ⟨-, -, -, -, -, hle, -⟩ := h
  exact hle.2

theorem getIndexerTwoLevelFoldBuffers_ok {layout : ScratchLayout} {rowCount totalSlices : ℕ}
    (hreserved : layout.geometry.twoLevelFoldSlices ≠ 0)
    (hrows : rowCount ≤ layout.geometry.maxQRows) (hpos : 0 < totalSlices)
    (hle : totalSlices ≤ layout.geometry.twoLevelFoldSlices) :
    getIndexerTwoLevelFoldBuffers layout rowCount totalSlices =
      .ok layout.geometry.twoLevelFoldSlices := by
  simp only [getIndexerTwoLevelFoldBuffers, ne_eq, hreserved, not_false_eq_true, hrows, hpos, hle,
    and_self, decide_true, require_true, ok_bind]
  rfl

/-- The slices of the chunks and the stride they are written at. -/
structure TwoLevelPlan where
  twoLevelSlices : List (ℕ × ℕ)
  totalSlices : ℕ
  foldCapacitySlices : ℕ

namespace PagedBinding

variable {layout : ScratchLayout} (b : PagedBinding layout)

/-- The rows are scored in supertiles and long enough for the fold. -/
def TakesFold : Prop :=
  b.qRows ≠ 0 ∧ layout.route ≠ .fused ∧ b.outputPhysicalSlots = false ∧
    2 * twoLevelSliceTokens ≤ b.pageTableWidth * pagedIndexPageSize

instance : Decidable b.TakesFold := inferInstanceAs (Decidable (_ ∧ _))

/-- The slices `index_topk_fp8` plans for the page table. -/
def totalSlices : ℕ := (planSlices b.pageTableWidth (supertilePages layout)).2

/-- The slice planning of `index_topk_fp8`. -/
def planTwoLevel : Except String (Option TwoLevelPlan) :=
  if b.TakesFold then do
    let planned := planSlices b.pageTableWidth (supertilePages layout)
    let capacity ← getIndexerTwoLevelFoldBuffers layout b.qRows planned.2
    return some ⟨planned.1, planned.2, capacity⟩
  else return none

end PagedBinding

theorem planSlices_spec (width supertilePages : ℕ) :
    let slice := sliceTokens (width * pagedIndexPageSize)
    planSlices width supertilePages =
      ((List.range (max 1 (width ⌈/⌉ supertilePages))).map fun c =>
          (chunkSplits width supertilePages slice c,
            ∑ c' ∈ Finset.range c, chunkSplits width supertilePages slice c'),
        ∑ c ∈ Finset.range (max 1 (width ⌈/⌉ supertilePages)),
          chunkSplits width supertilePages slice c) := by
  intro slice
  unfold planSlices
  generalize max 1 (width ⌈/⌉ supertilePages) = chunks
  induction chunks with
  | zero => rfl
  | succ n ih =>
    simp only [List.range_succ, List.foldl_append, List.map_append, Finset.sum_range_succ] at ih ⊢
    rw [ih]
    rfl

/-- A slice in pages: 256, or a 32nd of the table. -/
def slicePages (width : ℕ) : ℕ := max 256 (width ⌈/⌉ 32)

theorem sliceTokens_eq (width : ℕ) : sliceTokens (width * 64) = slicePages width * 64 := by
  have hmin : (width * 64) ⌈/⌉ twoLevelMaxSlices = width * 2 := by
    rw [Nat.ceilDiv_eq_add_pred_div, twoLevelMaxSlices]
    omega
  have hpages : (width * 2) ⌈/⌉ pagedIndexPageSize = (width + 31) / 32 := by
    rw [Nat.ceilDiv_eq_add_pred_div, pagedIndexPageSize]
    omega
  have hslice : slicePages width = max 256 ((width + 31) / 32) := rfl
  simp only [sliceTokens, hmin, hpages, hslice]
  by_cases hwide : twoLevelSliceTokens < width * 2
  · rw [if_pos hwide]
    simp only [twoLevelSliceTokens, pagedIndexPageSize] at hwide ⊢
    omega
  · rw [if_neg hwide]
    simp only [twoLevelSliceTokens] at hwide ⊢
    omega

/-- What 32 slices hold when none of them crosses a supertile. -/
def foldPages (width supertilePages : ℕ) : ℕ :=
  let perChunk := supertilePages ⌈/⌉ slicePages width
  32 / perChunk * supertilePages + 32 % perChunk * slicePages width

theorem planSlices_le_iff {width supertilePages : ℕ} (hwidth : 0 < width)
    (hpages : 0 < supertilePages) :
    (planSlices width supertilePages).2 ≤ 32 ↔ width ≤ foldPages width supertilePages := by
  have hslice : 0 < slicePages width := by
    unfold slicePages
    omega
  have hsplits : ∀ c, chunkSplits width supertilePages (sliceTokens (width * pagedIndexPageSize)) c =
      max 1 (chunkLen width supertilePages c ⌈/⌉ slicePages width) := by
    intro c
    simp only [chunkSplits, pagedIndexPageSize]
    rw [sliceTokens_eq, ceilDiv_mul_right (by decide) _ hslice]
  simp only [planSlices_spec, hsplits, sum_slices hwidth hpages hslice]
  exact slices_le_iff hpages hslice 32

theorem planSlices_pos (width supertilePages : ℕ) : 0 < (planSlices width supertilePages).2 := by
  rw [planSlices_spec]
  change 0 < ∑ c ∈ Finset.range _, chunkSplits width supertilePages _ c
  apply Finset.sum_pos
  · intro c _
    unfold chunkSplits
    omega
  · exact ⟨0, Finset.mem_range.mpr (by omega)⟩

/-- The fold is not taken, or the table is no wider than what the slices hold. -/
def PagedBinding.FoldHolds {layout : ScratchLayout} (b : PagedBinding layout) : Prop :=
  b.TakesFold → b.pageTableWidth ≤ foldPages b.pageTableWidth (supertilePages layout)

instance {layout : ScratchLayout} (b : PagedBinding layout) : Decidable b.FoldHolds :=
  inferInstanceAs (Decidable (_ → _))

theorem supertilePages_pos (layout : ScratchLayout) : 0 < supertilePages layout := by
  unfold supertilePages
  omega

section Plan

variable {p : Planner} {caps : PagedScratchCaps} {layout : ScratchLayout}

/-- A page table that takes the fold lies on a plan that reserved its 32 slices. -/
theorem reserved_of_takesFold (hplan : indexerPagedScratchLayout p caps = .ok layout)
    (hpage : caps.pageSize = 64) {b : PagedBinding layout} (htakes : b.TakesFold) :
    layout.geometry.twoLevelFoldSlices = 32 := by
  have hwidth := b.width_le
  have hlong := htakes.2.2.2
  obtain ⟨-, hgeometry, -⟩ := layout_eq_ok hplan
  rw [hgeometry] at hwidth ⊢
  simp only [geometryOf, hpage, Geometry.twoLevelFoldSlices, twoLevelSliceTokens,
    twoLevelMaxSlices, pagedIndexPageSize] at hwidth hlong ⊢
  rw [if_pos (by omega)]

theorem planTwoLevel_eq_ok (hplan : indexerPagedScratchLayout p caps = .ok layout)
    (hpage : caps.pageSize = 64) {b : PagedBinding layout} (htakes : b.TakesFold)
    {plan : Option TwoLevelPlan} (h : b.planTwoLevel = .ok plan) : b.totalSlices ≤ 32 := by
  have hreserved := reserved_of_takesFold hplan hpage htakes
  rw [PagedBinding.planTwoLevel, if_pos htakes, bind_eq_ok] at h
  obtain ⟨capacity, hbuffers, -⟩ := h
  rw [← hreserved]
  exact getIndexerTwoLevelFoldBuffers_eq_ok hbuffers

theorem exists_planTwoLevel (hplan : indexerPagedScratchLayout p caps = .ok layout)
    (hpage : caps.pageSize = 64) (b : PagedBinding layout)
    (hle : b.TakesFold → b.totalSlices ≤ 32) : ∃ plan, b.planTwoLevel = .ok plan := by
  by_cases htakes : b.TakesFold
  · have hreserved := reserved_of_takesFold hplan hpage htakes
    have hslices : 0 < b.totalSlices := planSlices_pos _ _
    have hbuffers := getIndexerTwoLevelFoldBuffers_ok (by omega) b.qRows_le hslices
      (hreserved ▸ hle htakes)
    refine ⟨some ⟨(planSlices b.pageTableWidth (supertilePages layout)).1, b.totalSlices,
      layout.geometry.twoLevelFoldSlices⟩, ?_⟩
    rw [PagedBinding.planTwoLevel, if_pos htakes]
    change (getIndexerTwoLevelFoldBuffers layout b.qRows b.totalSlices >>= _) = _
    rw [hbuffers]
    rfl
  · refine ⟨none, ?_⟩
    rw [PagedBinding.planTwoLevel, if_neg htakes]
    rfl

/-- The planned slices stay within the reserved ones, and the fold buffers are handed out,
exactly when the table is no wider than 32 slices that keep to their supertiles. -/
theorem fold_within_reserved_iff (hplan : indexerPagedScratchLayout p caps = .ok layout)
    (hpage : caps.pageSize = 64) (b : PagedBinding layout) :
    ((b.TakesFold → b.totalSlices ≤ layout.geometry.twoLevelFoldSlices) ∧
        ∃ plan, b.planTwoLevel = .ok plan) ↔
      b.FoldHolds := by
  have hiff : b.TakesFold → (b.totalSlices ≤ 32 ↔
      b.pageTableWidth ≤ foldPages b.pageTableWidth (supertilePages layout)) := by
    intro htakes
    have hlong := htakes.2.2.2
    refine planSlices_le_iff ?_ (supertilePages_pos layout)
    simp only [twoLevelSliceTokens, pagedIndexPageSize] at hlong
    omega
  constructor
  · rintro ⟨-, plan, hok⟩ htakes
    exact (hiff htakes).mp (planTwoLevel_eq_ok hplan hpage htakes hok)
  · intro hholds
    have hle : b.TakesFold → b.totalSlices ≤ 32 := fun htakes => (hiff htakes).mpr (hholds htakes)
    refine ⟨fun htakes => ?_, exists_planTwoLevel hplan hpage b hle⟩
    rw [reserved_of_takesFold hplan hpage htakes]
    exact hle htakes

/-- With the default supertile the fold holds up to 8192 pages, and again for the few
widths whose slices are a supertile long. -/
theorem foldHolds_default_iff (hplan : indexerPagedScratchLayout p caps = .ok layout)
    (hpage : caps.pageSize = 64) (henv : p.supertileEnv = none)
    (harg : caps.pagedTileLogitsKRows = 0) {b : PagedBinding layout} (htakes : b.TakesFold) :
    b.FoldHolds ↔
      b.pageTableWidth ≤ 8192 ∨ 16352 < b.pageTableWidth ∧ b.pageTableWidth ≤ 16384 := by
  have hlong := htakes.2.2.2
  have hwidth := b.width_le
  simp only [twoLevelSliceTokens, pagedIndexPageSize] at hlong
  have hpages : supertilePages layout = 512 := by
    obtain ⟨-, hgeometry, -⟩ := layout_eq_ok hplan
    rw [hgeometry] at hwidth
    simp only [geometryOf] at hwidth
    simp only [supertilePages, hgeometry, geometryOf, supertileOf, henv, harg, hpage,
      resolveSupertileTokens, resolveSupertileK, wholeBlocks, supertileDefault, tileBlockK,
      pagedIndexPageSize, if_true]
    omega
  have hslice : slicePages b.pageTableWidth = max 256 ((b.pageTableWidth + 31) / 32) := rfl
  have hper : 512 ⌈/⌉ slicePages b.pageTableWidth = if b.pageTableWidth ≤ 16352 then 2 else 1 := by
    rw [Nat.ceilDiv_eq_add_pred_div]
    split_ifs with hshort
    · rw [Nat.div_eq_iff (by omega)]
      omega
    · rw [Nat.div_eq_iff (by omega)]
      omega
  simp only [PagedBinding.FoldHolds, htakes, forall_const, foldPages, hpages, hper]
  split_ifs with hshort <;> omega

end Plan

/-- The prefill table of a run at a preset's length, as the profile plans it. -/
def presetCaps (maxModelLen : ℕ) (pagetableCap : Bool) : PagedScratchCaps :=
  reservedCaps tiledPlanner (servedSettings maxModelLen 2048 pagetableCap) true

def fullBinding (layout : ScratchLayout) : PagedBinding layout where
  qRows := layout.geometry.maxQRows
  pageTableWidth := layout.geometry.maxPageTableWidth
  outputPhysicalSlots := false
  qRows_le := le_rfl
  width_le := le_rfl

/-- A preset of 320000 tokens has its slices, with the page tables of its model length. -/
theorem fold_within_reserved_iff_short :
    ∃ layout, indexerPagedScratchLayout tiledPlanner (presetCaps 320000 true) = .ok layout ∧
      ((fullBinding layout).TakesFold →
        (fullBinding layout).totalSlices ≤ layout.geometry.twoLevelFoldSlices) ∧
      ∃ plan, (fullBinding layout).planTwoLevel = .ok plan := by
  obtain ⟨layout, hplan⟩ : ∃ layout,
      indexerPagedScratchLayout tiledPlanner (presetCaps 320000 true) = .ok layout := ⟨_, rfl⟩
  have hwidth : (fullBinding layout).pageTableWidth = 5000 := by
    change layout.geometry.maxPageTableWidth = 5000
    rw [(layout_eq_ok hplan).2.1]
    rfl
  refine ⟨layout, hplan, (fold_within_reserved_iff hplan rfl (fullBinding layout)).mpr ?_⟩
  intro htakes
  exact (foldHolds_default_iff hplan rfl rfl rfl htakes).mpr (.inl (by omega)) htakes

/-- A preset of 650000 tokens plans two slices in each of its twenty supertiles, and the
call raises. -/
theorem fold_exceeds_reserved :
    ∃ layout, indexerPagedScratchLayout tiledPlanner (presetCaps 650000 true) = .ok layout ∧
      (fullBinding layout).pageTableWidth = 10157 ∧ layout.geometry.twoLevelFoldSlices = 32 ∧
      (fullBinding layout).TakesFold ∧ (fullBinding layout).totalSlices = 40 ∧
      (fullBinding layout).planTwoLevel = .error "total_slices 40 exceeds paged fold capacity 32" :=
  ⟨_, rfl, rfl, rfl, by decide, rfl, rfl⟩

end ChampionRuntime.Indexer
