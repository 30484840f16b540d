import ChampionRuntime.Indexer.TiledTopk
import ChampionRuntime.Indexer.TwoLevelFold

/-!
# Folding the supertiles of a row

`index_topk_fp8` scores a row supertile by supertile. With slices planned, each slice of a
supertile is selected from into its own slots, and one pass over all the slots ends the fold;
otherwise the selection so far is carried from supertile to supertile.
-/
namespace ChampionRuntime.Indexer

open Lib

variable {β : Type}

def pagedIndexTileBlockQ : ℕ := 32

/-- A scoring in supertiles, wide enough for the fold, whose slice plan fits what is reserved. -/
structure SupertileTopk where
  qRows : ℕ
  pageTableWidth : ℕ
  supertileTokens : ℕ
  topkBlockK : ℕ
  topk : ℕ
  foldCapacitySlices : ℕ
  supertile_pos : 0 < supertileTokens
  supertile_blocks : supertileTokens % tileBlockK = 0
  block : topkBlockK = 256 ∨ topkBlockK = 512
  topk_mem : topk ∈ tiledSupportedTopk
  wide : 2 * twoLevelSliceTokens ≤ pageTableWidth * pagedIndexPageSize
  fits : (planSlices pageTableWidth (max 1 (supertileTokens / pagedIndexPageSize))).2 ≤
    foldCapacitySlices

namespace SupertileTopk

variable (p : SupertileTopk)

def supertilePages : ℕ := max 1 (p.supertileTokens / pagedIndexPageSize)

def numChunks : ℕ := max 1 (p.pageTableWidth ⌈/⌉ p.supertilePages)

def supertileKTiles : ℕ := p.supertileTokens / p.topkBlockK

def chunkStartToken (c : ℕ) : ℕ := c * p.supertilePages * pagedIndexPageSize

def chunkWidthTokens (c : ℕ) : ℕ :=
  chunkLen p.pageTableWidth p.supertilePages c * pagedIndexPageSize

/-- `two_level_slices[chunk_idx]` -/
def twoLevelSlice (c : ℕ) : ℕ × ℕ := (planSlices p.pageTableWidth p.supertilePages).1.getD c (0, 0)

def totalSlices : ℕ := (planSlices p.pageTableWidth p.supertilePages).2

/-- The balanced extent of a slice, in whole blocks. -/
def splitExtent (c : ℕ) : ℕ :=
  p.chunkWidthTokens c ⌈/⌉ (p.twoLevelSlice c).1 ⌈/⌉ p.topkBlockK * p.topkBlockK

/-- What the launches of a chunk have in common. -/
def chunkLaunch (c extent splits stride base : ℕ) : TiledLaunch where
  isTiled := true
  topk := p.topk
  blockQ := pagedIndexTileBlockQ
  blockK := p.topkBlockK
  numQRows := p.qRows
  inputStride := 0
  numKTiles := p.supertileKTiles
  tileKOffset := 0
  inputIndexOffset := p.chunkStartToken c
  inputExtent := extent
  outputIndexOffset := p.chunkStartToken c
  extentSplits := splits
  outputPageSize := 1
  outputRowStride := stride
  outputRowBase := base

/-- The launch over the slices of a chunk. -/
def sliceLaunch (c : ℕ) : TiledLaunch :=
  p.chunkLaunch c (p.splitExtent c) (p.twoLevelSlice c).1 p.foldCapacitySlices
    (p.twoLevelSlice c).2

def carryLaunch (c : ℕ) : TiledLaunch := p.chunkLaunch c (p.chunkWidthTokens c) 1 1 0

/-- The tensors of a chunk; `tileLogits` is what the scorer leaves for it. -/
def chunkTensors (tileLogits : ℕ → ℕ → WithBot β) (lengths : ℕ → ℕ) (carry : Option (ℕ → Slot β))
    (c : ℕ) : TopkTensors β where
  input := tileLogits c
  lengths := lengths
  carry := carry
  outputPageTable := none

section Runs

variable (select : RadixSelector β) (tileLogits : ℕ → ℕ → WithBot β) (lengths : ℕ → ℕ)

/-- The loop over the first chunks, into the fold buffer. -/
def foldChunks (fold : ℕ → Slot β) (chunks : ℕ) : Except String (ℕ → Slot β) :=
  (List.range chunks).foldlM (fun fold c =>
    runTiledTopk select (p.sliceLaunch c) (chunkTensors tileLogits lengths none c) fold) fold

def twoLevelTopk (fold final : ℕ → Slot β) : Except String (ℕ → Slot β) := do
  let candidates ← p.foldChunks select tileLogits lengths fold p.numChunks
  runRowTopk select p.topk p.qRows (p.foldCapacitySlices * p.topk) candidates
    (fun _ => p.totalSlices * p.topk) final

/-- The carry chain over the first chunks. A launch reads one half of the carry buffers and
writes the other, and the last one writes the result. -/
def carryChunks (buffers : ℕ → ℕ → Slot β) (chunks : ℕ) : Except String (Option (ℕ → Slot β)) :=
  (List.range chunks).foldlM (fun carry c => do
    let out ← runTiledTopk select (p.carryLaunch c) (chunkTensors tileLogits lengths carry c)
      (buffers c)
    return some out) none

end Runs

/-- The slices of all chunks: the chunk, and the number of the slice in it. -/
def slices : List (ℕ × ℕ) :=
  (List.range p.numChunks).flatMap fun c => (List.range (p.twoLevelSlice c).1).map fun s => (c, s)

/-- The slot of a slice among those of its row. -/
def sliceSlot (slice : ℕ × ℕ) : ℕ := (p.twoLevelSlice slice.1).2 + slice.2

theorem twoLevelSlice_eq {c : ℕ} (hc : c < p.numChunks) :
    let splits := chunkSplits p.pageTableWidth p.supertilePages
      (sliceTokens (p.pageTableWidth * pagedIndexPageSize))
    p.twoLevelSlice c = (splits c, ∑ c' ∈ Finset.range c, splits c') := by
  have hspec := planSlices_spec p.pageTableWidth p.supertilePages
  dsimp only at hspec
  rw [twoLevelSlice, hspec, List.getD_eq_getElem _ _ (by simpa [numChunks] using hc)]
  simp

theorem totalSlices_eq :
    p.totalSlices = ∑ c ∈ Finset.range p.numChunks, chunkSplits p.pageTableWidth p.supertilePages
      (sliceTokens (p.pageTableWidth * pagedIndexPageSize)) c := by
  have hspec := planSlices_spec p.pageTableWidth p.supertilePages
  dsimp only at hspec
  rw [totalSlices, hspec, numChunks]

theorem totalSlices_le : p.totalSlices ≤ p.foldCapacitySlices := p.fits

theorem splits_pos {c : ℕ} (hc : c < p.numChunks) : 0 < (p.twoLevelSlice c).1 := by
  rw [p.twoLevelSlice_eq hc]
  dsimp only
  unfold chunkSplits
  omega

theorem slices_map_sliceSlot : p.slices.map p.sliceSlot = List.range p.totalSlices := by
  rw [totalSlices_eq, range_sum, slices, List.map_flatMap]
  apply List.flatMap_congr
  intro c hc
  rw [List.map_map, p.twoLevelSlice_eq (List.mem_range.mp hc)]
  apply List.map_congr_left
  intro s _
  rw [Function.comp_apply, sliceSlot, p.twoLevelSlice_eq (List.mem_range.mp hc)]

theorem mem_slices {c s : ℕ} :
    (c, s) ∈ p.slices ↔ c < p.numChunks ∧ s < (p.twoLevelSlice c).1 := by
  simp [slices]

theorem sliceSlot_lt {slice : ℕ × ℕ} (h : slice ∈ p.slices) : p.sliceSlot slice < p.totalSlices := by
  rw [← List.mem_range, ← slices_map_sliceSlot]
  exact List.mem_map_of_mem h

theorem base_add_splits_le {c n : ℕ} (hc : c < n) (hn : n < p.numChunks) :
    (p.twoLevelSlice c).2 + (p.twoLevelSlice c).1 ≤ (p.twoLevelSlice n).2 := by
  rw [p.twoLevelSlice_eq hn, p.twoLevelSlice_eq (hc.trans hn)]
  dsimp only
  rw [← Finset.sum_range_succ]
  exact Finset.sum_le_sum_of_subset (Finset.range_subset_range.mpr hc)

theorem supertilePages_tokens : p.supertilePages * pagedIndexPageSize = p.supertileTokens := by
  have hpos := p.supertile_pos
  have hblocks := p.supertile_blocks
  unfold supertilePages
  simp only [pagedIndexPageSize, tileBlockK] at hblocks ⊢
  omega

theorem supertilePages_pos' : 0 < p.supertilePages := by
  unfold supertilePages
  omega

theorem chunkStartToken_eq (c : ℕ) : p.chunkStartToken c = c * p.supertileTokens := by
  rw [chunkStartToken, Nat.mul_assoc, supertilePages_tokens]

theorem topkBlockK_pos : 0 < p.topkBlockK := by
  rcases p.block with hblock | hblock <;> omega

theorem supertileKTiles_tokens : p.supertileKTiles * p.topkBlockK = p.supertileTokens := by
  have hblocks := p.supertile_blocks
  unfold supertileKTiles
  simp only [tileBlockK] at hblocks
  rcases p.block with hblock | hblock <;> rw [hblock] <;> omega

theorem supertileKTiles_pos : 0 < p.supertileKTiles := by
  have htokens := p.supertileKTiles_tokens
  have hpos := p.supertile_pos
  by_contra hzero
  rw [Nat.eq_zero_of_not_pos hzero, Nat.zero_mul] at htokens
  omega

theorem pageTableWidth_pos : 0 < p.pageTableWidth := by
  have hwide := p.wide
  simp only [twoLevelSliceTokens, pagedIndexPageSize] at hwide
  omega

theorem mul_pages_lt {c : ℕ} (hc : c < p.numChunks) : c * p.supertilePages < p.pageTableWidth := by
  have hchunks : 0 < p.pageTableWidth ⌈/⌉ p.supertilePages :=
    ceilDiv_pos p.pageTableWidth_pos p.supertilePages_pos'
  rw [numChunks, max_eq_right hchunks] at hc
  by_contra hle
  have hfits : p.pageTableWidth ⌈/⌉ p.supertilePages ≤ c := by
    rw [ceilDiv_le_iff_le_mul p.supertilePages_pos', Nat.mul_comm]
    exact not_lt.mp hle
  omega

theorem chunkWidthTokens_pos {c : ℕ} (hc : c < p.numChunks) : 0 < p.chunkWidthTokens c := by
  have hstart := p.mul_pages_lt hc
  have hpages := p.supertilePages_pos'
  unfold chunkWidthTokens chunkLen
  rw [Nat.succ_mul]
  simp only [pagedIndexPageSize]
  omega

theorem chunk_end (c : ℕ) (hc : c < p.numChunks) {length : ℕ}
    (hlength : length ≤ p.pageTableWidth * pagedIndexPageSize) {reach : ℕ}
    (hreach : p.chunkWidthTokens c ≤ reach) :
    min length (min (c * p.supertileTokens + reach) ((c + 1) * p.supertileTokens)) =
      min length ((c + 1) * p.supertileTokens) := by
  have hstart := p.mul_pages_lt hc
  have htokens := p.supertilePages_tokens
  have hcells : c * p.supertileTokens = c * p.supertilePages * pagedIndexPageSize := by
    rw [Nat.mul_assoc, htokens]
  unfold chunkWidthTokens chunkLen at hreach
  rw [Nat.succ_mul] at hreach ⊢
  simp only [pagedIndexPageSize] at *
  omega

theorem length_le_chunks {length : ℕ} (hlength : length ≤ p.pageTableWidth * pagedIndexPageSize) :
    length ≤ p.numChunks * p.supertileTokens := by
  have hpages : p.pageTableWidth ≤ p.supertilePages * p.numChunks :=
    (ceilDiv_le_iff_le_mul p.supertilePages_pos').mp (le_max_right _ _)
  calc length
    _ ≤ p.pageTableWidth * pagedIndexPageSize := hlength
    _ ≤ p.supertilePages * p.numChunks * pagedIndexPageSize := Nat.mul_le_mul_right _ hpages
    _ = p.numChunks * p.supertileTokens := by rw [← p.supertilePages_tokens]; ring

theorem splitExtent_pos {c : ℕ} (hc : c < p.numChunks) : 0 < p.splitExtent c :=
  Nat.mul_pos (ceilDiv_pos (ceilDiv_pos (p.chunkWidthTokens_pos hc) (p.splits_pos hc))
    p.topkBlockK_pos) p.topkBlockK_pos

theorem chunkWidthTokens_le {c : ℕ} (hc : c < p.numChunks) :
    p.chunkWidthTokens c ≤ (p.twoLevelSlice c).1 * p.splitExtent c := by
  have hsplits := p.splits_pos hc
  have hshare := (ceilDiv_le_iff_le_mul hsplits).mp (le_refl (p.chunkWidthTokens c ⌈/⌉ _))
  have hblocks := (ceilDiv_le_iff_le_mul p.topkBlockK_pos).mp
    (le_refl (p.chunkWidthTokens c ⌈/⌉ (p.twoLevelSlice c).1 ⌈/⌉ p.topkBlockK))
  calc p.chunkWidthTokens c
    _ ≤ (p.twoLevelSlice c).1 * (p.chunkWidthTokens c ⌈/⌉ (p.twoLevelSlice c).1) := hshare
    _ ≤ (p.twoLevelSlice c).1 * p.splitExtent c := by
      apply Nat.mul_le_mul_left
      rw [splitExtent, Nat.mul_comm]
      exact hblocks

theorem sliceLaunch_blocked {c : ℕ} (hc : c < p.numChunks) : (p.sliceLaunch c).Blocked where
  isTiled := rfl
  block := p.block
  extent_pos := p.splitExtent_pos hc
  blocks := by
    intro split _
    change split * p.splitExtent c = p.topkBlockK * (split * (p.splitExtent c / p.topkBlockK))
    rw [splitExtent, Nat.mul_div_cancel _ p.topkBlockK_pos]
    ring
  tileKOffset := rfl
  outputIndexOffset := rfl

theorem carryLaunch_blocked {c : ℕ} (hc : c < p.numChunks) : (p.carryLaunch c).Blocked where
  isTiled := rfl
  block := p.block
  extent_pos := p.chunkWidthTokens_pos hc
  blocks := by
    intro split hsplit
    obtain rfl : split = 0 := Nat.lt_one_iff.mp hsplit
    rw [Nat.zero_mul, Nat.zero_mul, Nat.mul_zero]
  tileKOffset := rfl
  outputIndexOffset := rfl

theorem flatMap_splits {c : ℕ} (hc : c < p.numChunks) {length : ℕ}
    (hlength : length ≤ p.pageTableWidth * pagedIndexPageSize) :
    ((List.range (p.twoLevelSlice c).1).flatMap fun s =>
        List.Ico ((p.sliceLaunch c).splitOffset s) ((p.sliceLaunch c).splitEnd s length)) =
      List.Ico (c * p.supertileTokens) (min length ((c + 1) * p.supertileTokens)) := by
  have hend : ∀ s, (p.sliceLaunch c).splitEnd s length =
      min (min length ((c + 1) * p.supertileTokens))
        (c * p.supertileTokens + (s + 1) * p.splitExtent c) := by
    intro s
    change min length (min (p.chunkStartToken c + s * p.splitExtent c + p.splitExtent c)
      (p.chunkStartToken c + p.supertileKTiles * p.topkBlockK)) = _
    rw [chunkStartToken_eq, supertileKTiles_tokens, Nat.succ_mul, Nat.succ_mul]
    omega
  have hoffset : ∀ s, (p.sliceLaunch c).splitOffset s =
      c * p.supertileTokens + s * p.splitExtent c := by
    intro s
    change p.chunkStartToken c + s * p.splitExtent c = _
    rw [chunkStartToken_eq]
  simp only [hend, hoffset]
  rw [flatMap_Ico, ← p.chunk_end c hc hlength (p.chunkWidthTokens_le hc)]
  congr 1
  omega

theorem flatMap_slices {length : ℕ} (hlength : length ≤ p.pageTableWidth * pagedIndexPageSize) :
    (p.slices.flatMap fun slice => List.Ico ((p.sliceLaunch slice.1).splitOffset slice.2)
      ((p.sliceLaunch slice.1).splitEnd slice.2 length)) = List.range length := by
  have hchunks := p.length_le_chunks hlength
  calc (p.slices.flatMap fun slice => List.Ico ((p.sliceLaunch slice.1).splitOffset slice.2)
      ((p.sliceLaunch slice.1).splitEnd slice.2 length))
    _ = (List.range p.numChunks).flatMap fun c =>
        List.Ico (0 + c * p.supertileTokens)
          (min length (0 + (c + 1) * p.supertileTokens)) := by
      rw [slices, List.flatMap_assoc]
      apply List.flatMap_congr
      intro c hc
      rw [Nat.zero_add, Nat.zero_add, ← p.flatMap_splits (List.mem_range.mp hc) hlength,
        List.flatMap_map]
    _ = List.Ico 0 (min length (0 + p.numChunks * p.supertileTokens)) := flatMap_Ico _ _ _ _
    _ = List.range length := by
      rw [Nat.zero_add, min_eq_left hchunks, List.Ico.zero_bot]

end SupertileTopk

end ChampionRuntime.Indexer
