import ChampionRuntime.Lib.Buffers
import ChampionRuntime.Lib.Outcome
import ChampionRuntime.Lib.Selection
import Mathlib.Data.List.GetD
import Mathlib.Data.List.Intervals
import Mathlib.Order.WithBot

/-!
# The tiled top-k kernel

One block of the kernel selects from one extent of a row, and from the slots carried over from
an earlier launch. The values are those of any linear order with `-inf` below them. Every row
starts at zero, as it does in the launches of the paged indexer. Positions, rows and addresses
are not cut to 32 bits: the kernel computes them as `Int32`, so the launches are those whose
tensors have fewer than `2 ^ 31` elements. The radix selection is a parameter: its atomic
counters leave the order open.
-/
namespace ChampionRuntime.Indexer

open Lib

variable {β : Type}

/-- A value, with `⊥` for `-inf`, and a global index. -/
abbrev Slot (β : Type) := WithBot β × ℤ

/-- What is emitted where there are no candidates left. -/
def paddedSlot : Slot β := (⊥, -1)

/-- The virtual indices that the radix passes leave in shared memory. -/
abbrev RadixSelector (β : Type) := ℕ → List (WithBot β) → List ℕ

structure TiledLaunch where
  isTiled : Bool
  topk : ℕ
  blockQ : ℕ
  blockK : ℕ
  numQRows : ℕ
  inputStride : ℕ
  numKTiles : ℕ
  tileKOffset : ℕ
  inputIndexOffset : ℕ
  inputExtent : ℕ
  outputIndexOffset : ℕ
  extentSplits : ℕ
  outputPageSize : ℕ
  outputRowStride : ℕ
  outputRowBase : ℕ

structure TopkTensors (β : Type) where
  input : ℕ → WithBot β
  lengths : ℕ → ℕ
  /-- `carry_values` and `carry_indices`, unless `is_first` -/
  carry : Option (ℕ → Slot β)
  outputPageTable : Option (ℕ → ℕ → ℤ)

namespace TiledLaunch

variable (l : TiledLaunch)

def dataBid (bid : ℕ) : ℕ := if 1 < l.extentSplits then bid / l.extentSplits else bid

def splitId (bid : ℕ) : ℕ :=
  if 1 < l.extentSplits then bid - l.dataBid bid * l.extentSplits else 0

/-- The first position of a split's extent. -/
def splitOffset (split : ℕ) : ℕ := l.inputIndexOffset + split * l.inputExtent

/-- The end of the tiles that are there; a rounded extent may go beyond them. -/
def tiledEnd (split : ℕ) : ℤ :=
  l.splitOffset split +
    (l.numKTiles - (l.tileKOffset + split * (l.inputExtent / l.blockK) : ℕ) : ℤ) * l.blockK

/-- `row_start` and `length` after the clip to the extent. -/
def clip (split length : ℕ) : ℕ × ℕ :=
  if 0 < l.inputExtent then
    let clippedStart : ℤ := max 0 (l.splitOffset split)
    let extentEnd : ℤ := l.splitOffset split + l.inputExtent
    let chunkEnd := if l.isTiled then min extentEnd (l.tiledEnd split) else extentEnd
    let clippedEnd := min (length : ℤ) chunkEnd
    if clippedStart < clippedEnd then
      ((clippedStart - l.splitOffset split).toNat, (clippedEnd - clippedStart).toNat)
    else (0, 0)
  else (0, length)

def outRow (bid : ℕ) : ℕ :=
  let row := l.dataBid bid * l.outputRowStride + l.outputRowBase
  if 1 < l.extentSplits then row + l.splitId bid else row

def rowBase (bid : ℕ) : ℕ :=
  if l.isTiled then
    let tileSize := l.blockQ * l.blockK
    let qTileIdx := l.dataBid bid / l.blockQ
    let qLocal := l.dataBid bid - qTileIdx * l.blockQ
    let tileOffset := l.tileKOffset + l.splitId bid * (l.inputExtent / l.blockK)
    qTileIdx * l.numKTiles * tileSize + tileOffset * tileSize + qLocal * l.blockK
  else l.dataBid bid * l.inputStride

/-- `_load_topk_input_from_row_base`: the address of a position of a row. -/
def inputAddress (rowBase logicalK : ℕ) : ℕ :=
  if l.isTiled then
    let blockWidth := if l.blockK = 256 then 256 else 512
    rowBase + logicalK / blockWidth * (l.blockQ * l.blockK) + logicalK % blockWidth
  else rowBase + logicalK

section Block

variable (t : TopkTensors β) (bid : ℕ)

def loadValueVirtual (vidx : ℕ) : WithBot β :=
  let window := l.clip (l.splitId bid) (t.lengths (l.dataBid bid))
  match t.carry with
  | none => t.input (l.inputAddress (l.rowBase bid) (window.1 + vidx))
  | some carry =>
    if vidx < window.2 then t.input (l.inputAddress (l.rowBase bid) (window.1 + vidx))
    else (carry (l.outRow bid * l.topk + (vidx - window.2))).1

/-- The physical position of a logical one. -/
def physicalIndex (table : ℕ → ℕ → ℤ) (gidx : ℤ) : ℤ :=
  if 0 ≤ gidx then
    let pageCol := gidx.toNat / l.outputPageSize
    let pageOffset := gidx.toNat - pageCol * l.outputPageSize
    let pageId := table bid pageCol
    if 0 ≤ pageId then pageId * l.outputPageSize + pageOffset else -1
  else -1

def emitGlobalIndexVirtual (vidx : ℕ) : ℤ :=
  let window := l.clip (l.splitId bid) (t.lengths (l.dataBid bid))
  let own : ℤ := window.1 + vidx + (l.outputIndexOffset + l.splitId bid * l.inputExtent : ℕ)
  let gidx :=
    match t.carry with
    | none => own
    | some carry =>
      if vidx < window.2 then own else (carry (l.outRow bid * l.topk + (vidx - window.2))).2
  match t.outputPageTable with
  | none => gidx
  | some table => l.physicalIndex bid table gidx

def totalLen : ℕ :=
  let window := l.clip (l.splitId bid) (t.lengths (l.dataBid bid))
  if t.carry.isSome then window.2 + l.topk else window.2

/-- What a block writes to its row of the output. -/
def kernel (select : RadixSelector β) : List (Slot β) :=
  let slot vidx := (l.loadValueVirtual t bid vidx, l.emitGlobalIndexVirtual t bid vidx)
  if l.topk < l.totalLen t bid then
    (select l.topk ((List.range (l.totalLen t bid)).map (l.loadValueVirtual t bid))).map slot
  else
    (List.range l.topk).map fun i => if i < l.totalLen t bid then slot i else paddedSlot

end Block

/-- The blocks of a launch write one after the other; the order does not matter. -/
def launch (select : RadixSelector β) (t : TopkTensors β) (out : ℕ → Slot β) : ℕ → Slot β :=
  writeRows l.outRow (fun bid => l.kernel t bid select) l.topk
    (List.range (l.numQRows * l.extentSplits)) out

end TiledLaunch

/-- `_SUPPORTED_TOPK` of the tiled kernel -/
def tiledSupportedTopk : List ℕ := [512, 1024, 2048]

def validateSupportedTopk (topk : ℕ) (caller : String) : Except String Unit :=
  require (topk ∈ tiledSupportedTopk)
    (caller ++ " supports topk values (512, 1024, 2048), got topk=" ++ toString topk)

/-- `run_tiled_topk` with `zero_row_start` -/
def runTiledTopk (select : RadixSelector β) (l : TiledLaunch) (t : TopkTensors β)
    (out : ℕ → Slot β) : Except String (ℕ → Slot β) := do
  validateSupportedTopk l.topk "run_tiled_topk"
  if 1 < l.extentSplits then
    require (0 < l.inputExtent) "extent_splits > 1 requires a per-slice input_extent"
    require t.carry.isNone "extent_splits > 1 does not fold carries"
    require t.outputPageTable.isNone "extent_splits > 1 emits logical indices only"
  require (l.outputRowBase + l.extentSplits ≤ l.outputRowStride)
    ("output_row_base + extent_splits must fit within output_row_stride, got " ++
      toString l.outputRowBase ++ " + " ++ toString l.extentSplits ++ " > " ++
      toString l.outputRowStride)
  require (0 < l.numKTiles) "Cannot determine num_k_tiles"
  return l.launch select t out

/-- The launch of `run_row_topk` over `numQRows` rows of `width` candidates. -/
def rowLaunch (topk numQRows width : ℕ) : TiledLaunch where
  isTiled := false
  topk := topk
  blockQ := 1
  blockK := 1
  numQRows := numQRows
  inputStride := width
  numKTiles := 0
  tileKOffset := 0
  inputIndexOffset := 0
  inputExtent := width
  outputIndexOffset := 0
  extentSplits := 1
  outputPageSize := 1
  outputRowStride := 1
  outputRowBase := 0

/-- `run_row_topk` over candidates, with their indices as `output_gather_table` -/
def runRowTopk (select : RadixSelector β) (topk numQRows width : ℕ) (candidates : ℕ → Slot β)
    (lengths : ℕ → ℕ) (out : ℕ → Slot β) : Except String (ℕ → Slot β) := do
  validateSupportedTopk topk "run_row_topk"
  return (rowLaunch topk numQRows width).launch select
    { input := fun address => (candidates address).1
      lengths := lengths
      carry := none
      outputPageTable := some fun row col => (candidates (row * width + col)).2 } out

theorem runTiledTopk_eq_ok (select : RadixSelector β) {l : TiledLaunch} {t : TopkTensors β}
    (out : ℕ → Slot β) (htopk : l.topk ∈ tiledSupportedTopk)
    (hsplits : 1 < l.extentSplits → 0 < l.inputExtent ∧ t.carry = none)
    (htable : t.outputPageTable = none)
    (hfits : l.outputRowBase + l.extentSplits ≤ l.outputRowStride) (htiles : 0 < l.numKTiles) :
    runTiledTopk select l t out = .ok (l.launch select t out) := by
  unfold runTiledTopk validateSupportedTopk
  rw [decide_eq_true htopk, decide_eq_true hfits, decide_eq_true htiles, htable]
  split_ifs with hmany
  · obtain ⟨hextent, hcarry⟩ := hsplits hmany
    rw [decide_eq_true hextent, hcarry]
    rfl
  · rfl

/-- Selected candidates, or all of them and padding. -/
def emitTopk (select : RadixSelector β) (k : ℕ) (candidates : List (Slot β)) : List (Slot β) :=
  if k < candidates.length then
    (select k (candidates.map Prod.fst)).map fun v => candidates.getD v paddedSlot
  else candidates ++ List.replicate (k - candidates.length) paddedSlot

section Selector

variable [LinearOrder β]

/-- The selected positions are distinct and hold the largest values. -/
structure ExactSelector (select : RadixSelector β) : Prop where
  length : ∀ {k values}, k < values.length → (select k values).length = k
  nodup : ∀ {k values}, k < values.length → (select k values).Nodup
  lt : ∀ {k values}, k < values.length → ∀ i ∈ select k values, i < values.length
  greatest : ∀ {k values}, k < values.length → ∀ i ∈ select k values, ∀ j < values.length,
    j ∉ select k values → values.getD j ⊥ ≤ values.getD i ⊥

variable {select : RadixSelector β} {k : ℕ} (hselect : ExactSelector select)
include hselect

theorem length_emitTopk (candidates : List (Slot β)) :
    (emitTopk select k candidates).length = k := by
  unfold emitTopk
  split_ifs with hlong
  · rw [List.length_map, hselect.length (by simpa using hlong)]
  · rw [List.length_append, List.length_replicate]
    omega

theorem selectsPadded_emitTopk (candidates : List (Slot β)) :
    SelectsPadded Prod.fst paddedSlot k candidates (emitTopk select k candidates) := by
  have hpad : ∀ slot : Slot β, (paddedSlot : Slot β).1 ≤ slot.1 := fun _ => bot_le
  unfold emitTopk
  split_ifs with hlong
  · have hvalues : k < (candidates.map Prod.fst).length := by simpa using hlong
    refine .of_selects hpad hlong.le ⟨?_, ?_⟩
    · rw [List.length_map, hselect.length hvalues, min_eq_left hlong.le]
    · obtain ⟨selected, hselected⟩ : ∃ s, select k (candidates.map Prod.fst) = s := ⟨_, rfl⟩
      have hnodup := hselect.nodup hvalues
      have hlt := hselect.lt hvalues
      have hgreatest := hselect.greatest hvalues
      rw [hselected, List.length_map] at *
      have hall : (List.range candidates.length).Perm
          (selected ++ (List.range candidates.length).filter (· ∉ selected)) := by
        rw [List.perm_ext_iff_of_nodup List.nodup_range]
        · intro i
          simp only [List.mem_append, List.mem_filter, List.mem_range, decide_eq_true_eq]
          by_cases hi : i ∈ selected
          · simp [hi, hlt i hi]
          · simp [hi]
        · refine hnodup.append (List.nodup_range.filter _) ?_
          intro i hi hrest
          simp [hi] at hrest
      have hwhole : candidates =
          (List.range candidates.length).map fun v => candidates.getD v paddedSlot := by
        apply List.ext_getElem
        · simp
        · intro i hi _
          simp [List.getElem?_eq_getElem hi]
      have hvalue : ∀ v, (candidates.map Prod.fst).getD v ⊥ =
          (candidates.getD v paddedSlot).1 := by
        intro v
        exact List.getD_map candidates paddedSlot Prod.fst
      refine ⟨((List.range candidates.length).filter (· ∉ selected)).map fun v =>
        candidates.getD v paddedSlot, ?_, ?_⟩
      · rw [← List.map_append]
        nth_rewrite 1 [hwhole]
        exact hall.map _
      · intro a ha b hb
        obtain ⟨i, hi, rfl⟩ := List.mem_map.mp ha
        obtain ⟨j, hj, rfl⟩ := List.mem_map.mp hb
        simp only [List.mem_filter, List.mem_range, decide_eq_true_eq] at hj
        have hle := hgreatest i hi j hj.1 hj.2
        rwa [hvalue, hvalue] at hle
  · exact .of_short hpad (not_lt.mp hlong)

theorem mem_emitTopk {candidates : List (Slot β)} {slot : Slot β}
    (h : slot ∈ emitTopk select k candidates) : slot ∈ candidates ∨ slot = paddedSlot := by
  obtain ⟨m, -, hselects⟩ := selectsPadded_emitTopk hselect (k := k) candidates
  rcases List.mem_append.mp (hselects.subset h) with hslot | hpad
  · exact .inl hslot
  · exact .inr (List.eq_of_mem_replicate hpad)

/-- The slots with values come first, and only padding after them. -/
def PaddedLast (slots : List (Slot β)) : Prop :=
  ∃ real m, slots = real ++ List.replicate m paddedSlot ∧ ∀ slot ∈ real, slot.1 ≠ ⊥

/-- What equals the last selected value is left at the end, as the radix passes leave it. -/
def TiesLast (select : RadixSelector β) : Prop :=
  ∀ k values, k < values.length → ∃ last above ties, select k values = above ++ ties ∧
    (∀ i ∈ above, last < values.getD i ⊥) ∧ ∀ i ∈ ties, values.getD i ⊥ = last

theorem paddedLast_emitTopk (hties : TiesLast select) {candidates : List (Slot β)}
    (hpadded : ∀ slot ∈ candidates, slot.1 = ⊥ → slot = paddedSlot)
    (hshort : candidates.length ≤ k → PaddedLast candidates) :
    PaddedLast (emitTopk select k candidates) := by
  unfold emitTopk
  split_ifs with hlong
  · have hvalues : k < (candidates.map Prod.fst).length := by simpa using hlong
    obtain ⟨last, above, ties, hselected, habove, hlast⟩ := hties k _ hvalues
    have hlt := hselect.lt hvalues
    have hvalue : ∀ v, (candidates.map Prod.fst).getD v ⊥ = (candidates.getD v paddedSlot).1 :=
      fun v => List.getD_map candidates paddedSlot Prod.fst
    rw [hselected, List.length_map] at hlt
    simp only [hvalue] at habove hlast
    rw [hselected, List.map_append]
    by_cases hbot : last = ⊥
    · refine ⟨above.map fun v => candidates.getD v paddedSlot, ties.length, ?_, ?_⟩
      · rw [List.append_cancel_left_eq, List.eq_replicate_iff]
        refine ⟨List.length_map _, ?_⟩
        intro slot hslot
        obtain ⟨i, hi, rfl⟩ := List.mem_map.mp hslot
        apply hpadded _ _ ((hlast i hi).trans hbot)
        rw [List.getD_eq_getElem _ _ (hlt i (List.mem_append_right _ hi))]
        exact List.getElem_mem _
      · intro slot hslot
        obtain ⟨i, hi, rfl⟩ := List.mem_map.mp hslot
        exact ((habove i hi).bot_lt).ne'
    · refine ⟨_, 0, (List.append_nil _).symm, ?_⟩
      intro slot hslot
      rcases List.mem_append.mp hslot with hslot | hslot
      · obtain ⟨i, hi, rfl⟩ := List.mem_map.mp hslot
        exact ((habove i hi).bot_lt).ne'
      · obtain ⟨i, hi, rfl⟩ := List.mem_map.mp hslot
        rw [hlast i hi]
        exact hbot
  · obtain ⟨real, m, hcandidates, hreal⟩ := hshort (not_lt.mp hlong)
    refine ⟨real, m + (k - candidates.length), ?_, hreal⟩
    rw [List.replicate_add, ← List.append_assoc, ← hcandidates]

namespace TiledLaunch

variable (l : TiledLaunch) (t : TopkTensors β) (bid : ℕ)

omit [LinearOrder β] hselect in
/-- The candidates of a block, with what would be emitted for them. -/
def candidates : List (Slot β) :=
  (List.range (l.totalLen t bid)).map fun vidx =>
    (l.loadValueVirtual t bid vidx, l.emitGlobalIndexVirtual t bid vidx)

theorem kernel_eq : l.kernel t bid select = emitTopk select l.topk (l.candidates t bid) := by
  have hlength : (l.candidates t bid).length = l.totalLen t bid := by simp [candidates]
  have hget : ∀ i < l.totalLen t bid, (l.candidates t bid).getD i paddedSlot =
      (l.loadValueVirtual t bid i, l.emitGlobalIndexVirtual t bid i) := by
    intro i hi
    simp [candidates, hi]
  unfold kernel emitTopk
  rw [hlength]
  dsimp only
  split_ifs with hlong
  · have hvalues : (l.candidates t bid).map Prod.fst =
        (List.range (l.totalLen t bid)).map (l.loadValueVirtual t bid) := by
      rw [candidates, List.map_map]
      rfl
    rw [hvalues]
    apply List.map_congr_left
    intro v hv
    have hlt := hselect.lt (by simpa using hlong) v hv
    rw [List.length_map, List.length_range] at hlt
    exact (hget v hlt).symm
  · apply List.ext_getElem
    · simp only [List.length_map, List.length_range, List.length_append, List.length_replicate,
        hlength]
      omega
    · intro i _ _
      rw [List.getElem_map, List.getElem_range]
      split_ifs with hi
      · rw [List.getElem_append_left (by omega), ← hget i hi, List.getD_eq_getElem _ _ (by omega)]
      · rw [List.getElem_append_right (by omega), List.getElem_replicate]

theorem length_kernel : (l.kernel t bid select).length = l.topk := by
  rw [kernel_eq hselect, length_emitTopk hselect]

end TiledLaunch

end Selector

namespace TiledLaunch

variable (l : TiledLaunch)

def blockOf (row split : ℕ) : ℕ := row * l.extentSplits + split

variable {row split : ℕ} (hsplit : split < l.extentSplits)
include hsplit

theorem dataBid_blockOf : l.dataBid (l.blockOf row split) = row := by
  unfold dataBid blockOf
  split_ifs with hsplits
  · rw [Nat.mul_comm, Nat.mul_add_div (by omega), Nat.div_eq_of_lt hsplit, Nat.add_zero]
  · obtain rfl : split = 0 := by omega
    rw [show l.extentSplits = 1 by omega, Nat.mul_one, Nat.add_zero]

theorem splitId_blockOf : l.splitId (l.blockOf row split) = split := by
  unfold splitId
  rw [l.dataBid_blockOf hsplit]
  unfold blockOf
  split_ifs with hsplits <;> omega

theorem outRow_blockOf :
    l.outRow (l.blockOf row split) = row * l.outputRowStride + l.outputRowBase + split := by
  unfold outRow
  rw [l.dataBid_blockOf hsplit, l.splitId_blockOf hsplit]
  dsimp only
  split_ifs with hsplits <;> omega

omit hsplit

theorem exists_blockOf {bid : ℕ} (h : bid < l.numQRows * l.extentSplits) :
    ∃ row < l.numQRows, ∃ split < l.extentSplits, l.blockOf row split = bid := by
  have hpos : 0 < l.extentSplits := by
    by_contra hzero
    rw [Nat.eq_zero_of_not_pos hzero, Nat.mul_zero] at h
    omega
  refine ⟨bid / l.extentSplits, ?_, bid % l.extentSplits, Nat.mod_lt _ hpos, ?_⟩
  · rw [Nat.div_lt_iff_lt_mul hpos]
    exact h
  · exact Nat.div_add_mod' bid l.extentSplits

theorem blockOf_lt (hrow : row < l.numQRows) (hsplit : split < l.extentSplits) :
    l.blockOf row split < l.numQRows * l.extentSplits := by
  have hle := Nat.mul_le_mul_right l.extentSplits (Nat.succ_le_of_lt hrow)
  rw [Nat.succ_mul] at hle
  unfold blockOf
  omega

theorem stride_inj {stride a b row row' : ℕ} (ha : a < stride) (hb : b < stride)
    (h : row * stride + a = row' * stride + b) : row = row' ∧ a = b := by
  have hrow : row = row' := by
    have hdiv := congrArg (· / stride) h
    simpa only [Nat.mul_comm _ stride, Nat.mul_add_div (by omega : stride > 0),
      Nat.div_eq_of_lt ha, Nat.div_eq_of_lt hb, Nat.add_zero] using hdiv
  subst hrow
  exact ⟨rfl, Nat.add_left_cancel h⟩

section Launch

variable [LinearOrder β] {select : RadixSelector β} (hselect : ExactSelector select)
  (t : TopkTensors β) (out : ℕ → Slot β)
include hselect

theorem rowOf_launch (hfits : l.outputRowBase + l.extentSplits ≤ l.outputRowStride)
    (hrow : row < l.numQRows) (hsplit : split < l.extentSplits) :
    rowOf l.topk (l.launch select t out) (row * l.outputRowStride + l.outputRowBase + split) =
      emitTopk select l.topk (l.candidates t (l.blockOf row split)) := by
  rw [← kernel_eq hselect, ← l.outRow_blockOf hsplit]
  have hinj : Set.InjOn l.outRow {b | b ∈ List.range (l.numQRows * l.extentSplits)} := by
    intro b hb b' hb' heq
    obtain ⟨row, -, split, hsplit, rfl⟩ := l.exists_blockOf (List.mem_range.mp hb)
    obtain ⟨row', -, split', hsplit', rfl⟩ := l.exists_blockOf (List.mem_range.mp hb')
    rw [l.outRow_blockOf hsplit, l.outRow_blockOf hsplit', Nat.add_assoc, Nat.add_assoc] at heq
    obtain ⟨rfl, hsame⟩ := stride_inj (by omega) (by omega) heq
    rw [Nat.add_left_cancel hsame]
  exact rowOf_writeRows l.outRow _ (fun b _ => length_kernel hselect l t b) out hinj
    (List.mem_range.mpr (l.blockOf_lt hrow hsplit))

theorem rowOf_launch_of_ne {r : ℕ} (hne : ∀ row < l.numQRows, ∀ split < l.extentSplits,
    r ≠ row * l.outputRowStride + l.outputRowBase + split) :
    rowOf l.topk (l.launch select t out) r = rowOf l.topk out r := by
  apply rowOf_writeRows_of_ne l.outRow _ fun b _ => length_kernel hselect l t b
  intro b hb
  obtain ⟨row, hrow, split, hsplit, rfl⟩ := l.exists_blockOf (List.mem_range.mp hb)
  rw [l.outRow_blockOf hsplit]
  exact hne row hrow split hsplit

end Launch

/-- Where the scorer leaves the logit of a position of the supertile. -/
def tileAddress (blockQ blockK numKTiles row logicalK : ℕ) : ℕ :=
  row / blockQ * numKTiles * (blockQ * blockK) + logicalK / blockK * (blockQ * blockK) +
    (row - row / blockQ * blockQ) * blockK + logicalK % blockK

/-- The end of a split: that of its extent, of the tiles or of the row. -/
def splitEnd (split length : ℕ) : ℕ :=
  min length (min (l.splitOffset split + l.inputExtent)
    (l.inputIndexOffset + l.numKTiles * l.blockK))

/-- A tiled launch whose splits start at whole blocks. -/
structure Blocked : Prop where
  isTiled : l.isTiled = true
  block : l.blockK = 256 ∨ l.blockK = 512
  extent_pos : 0 < l.inputExtent
  blocks : ∀ split < l.extentSplits,
    split * l.inputExtent = l.blockK * (split * (l.inputExtent / l.blockK))
  tileKOffset : l.tileKOffset = 0
  outputIndexOffset : l.outputIndexOffset = l.inputIndexOffset

variable {l} (h : l.Blocked)
include h

theorem Blocked.blockK_pos : 0 < l.blockK := by
  rcases h.block with hblock | hblock <;> omega

theorem Blocked.tiledEnd_eq (hsplit : split < l.extentSplits) :
    l.tiledEnd split = (l.inputIndexOffset + l.numKTiles * l.blockK : ℕ) := by
  unfold tiledEnd splitOffset
  rw [h.tileKOffset, h.blocks split hsplit, Nat.zero_add]
  push_cast
  ring

theorem Blocked.clip_eq (hsplit : split < l.extentSplits) (length : ℕ) :
    l.clip split length = (0, l.splitEnd split length - l.splitOffset split) := by
  unfold clip splitEnd
  rw [if_pos h.extent_pos, h.tiledEnd_eq hsplit]
  dsimp only
  rw [if_pos h.isTiled]
  generalize l.inputIndexOffset + l.numKTiles * l.blockK = tiles
  split_ifs with hlt
  · rw [Prod.mk.injEq]
    omega
  · rw [Prod.mk.injEq]
    omega

theorem Blocked.inputAddress_eq (hsplit : split < l.extentSplits) (i : ℕ) :
    l.inputAddress (l.rowBase (l.blockOf row split)) i =
      tileAddress l.blockQ l.blockK l.numKTiles row (split * l.inputExtent + i) := by
  have hwidth : (if l.blockK = 256 then 256 else 512) = l.blockK := by
    rcases h.block with hblock | hblock <;> simp [hblock]
  unfold inputAddress rowBase tileAddress
  rw [if_pos h.isTiled, if_pos h.isTiled, hwidth, l.dataBid_blockOf hsplit,
    l.splitId_blockOf hsplit, h.tileKOffset, h.blocks split hsplit, Nat.mul_add_div h.blockK_pos,
    Nat.mul_add_mod]
  dsimp only
  ring

variable (row) (t : TopkTensors β) (htable : t.outputPageTable = none)
include htable

theorem Blocked.candidates_eq (hcarry : t.carry = none) (hsplit : split < l.extentSplits) :
    l.candidates t (l.blockOf row split) =
      (List.Ico (l.splitOffset split) (l.splitEnd split (t.lengths row))).map fun p =>
        (t.input (tileAddress l.blockQ l.blockK l.numKTiles row (p - l.inputIndexOffset)), (p : ℤ)) := by
  unfold candidates totalLen
  rw [hcarry, l.splitId_blockOf hsplit, l.dataBid_blockOf hsplit, h.clip_eq hsplit, List.Ico,
    List.range'_eq_map_range, List.map_map]
  apply List.map_congr_left
  intro i _
  unfold loadValueVirtual emitGlobalIndexVirtual
  rw [hcarry, htable, l.splitId_blockOf hsplit, l.dataBid_blockOf hsplit,
    h.clip_eq hsplit, h.outputIndexOffset]
  dsimp only [Function.comp_apply]
  rw [Nat.zero_add, h.inputAddress_eq hsplit, splitOffset, Nat.add_assoc,
    Nat.add_sub_cancel_left]
  push_cast
  congr 1
  ring

theorem Blocked.candidates_carry {carry : ℕ → Slot β} (hcarry : t.carry = some carry)
    (hsplits : l.extentSplits = 1) :
    l.candidates t row =
      ((List.Ico l.inputIndexOffset (l.splitEnd 0 (t.lengths row))).map fun p =>
          (t.input (tileAddress l.blockQ l.blockK l.numKTiles row (p - l.inputIndexOffset)), (p : ℤ))) ++
        rowOf l.topk carry (row * l.outputRowStride + l.outputRowBase) := by
  have hsplit : 0 < l.extentSplits := by omega
  have hblock : row = l.blockOf row 0 := by
    rw [blockOf, hsplits, Nat.mul_one, Nat.add_zero]
  have hoffset : l.splitOffset 0 = l.inputIndexOffset := by
    rw [splitOffset, Nat.zero_mul, Nat.add_zero]
  have hdata : l.dataBid row = row := by
    nth_rewrite 1 [hblock]
    exact l.dataBid_blockOf hsplit
  have hid : l.splitId row = 0 := by
    nth_rewrite 1 [hblock]
    exact l.splitId_blockOf hsplit
  have hout : l.outRow row = row * l.outputRowStride + l.outputRowBase := by
    nth_rewrite 1 [hblock]
    exact l.outRow_blockOf hsplit
  have haddress : ∀ i, l.inputAddress (l.rowBase row) i = tileAddress l.blockQ l.blockK l.numKTiles row i := by
    intro i
    nth_rewrite 1 [hblock]
    rw [h.inputAddress_eq hsplit, Nat.zero_mul, Nat.zero_add]
  unfold candidates totalLen
  rw [hcarry, hid, hdata, h.clip_eq hsplit, hoffset, Option.isSome_some, if_pos rfl, List.range_add,
    List.map_append, List.map_map, List.Ico, List.range'_eq_map_range, List.map_map]
  congr 1
  · apply List.map_congr_left
    intro i hi
    rw [List.mem_range] at hi
    unfold loadValueVirtual emitGlobalIndexVirtual
    rw [hcarry, htable, hid, hdata, h.clip_eq hsplit, hoffset, h.outputIndexOffset]
    dsimp only [Function.comp_apply]
    rw [if_pos hi, if_pos hi, Nat.zero_add, haddress, Nat.add_sub_cancel_left]
    push_cast
    congr 1
    ring
  · unfold rowOf
    apply List.map_congr_left
    intro i _
    unfold loadValueVirtual emitGlobalIndexVirtual
    rw [hcarry, htable, hid, hdata, h.clip_eq hsplit, hoffset]
    dsimp only [Function.comp_apply]
    rw [if_neg (by omega), if_neg (by omega), hout, Nat.add_sub_cancel_left]

end TiledLaunch

theorem candidates_rowLaunch (topk numQRows width : ℕ) (t : TopkTensors β) (row : ℕ)
    {slots : ℕ → Slot β} (hinput : t.input = fun address => (slots address).1)
    (hcarry : t.carry = none)
    (htable : t.outputPageTable = some fun row col => (slots (row * width + col)).2)
    (hlength : t.lengths row ≤ width) :
    (rowLaunch topk numQRows width).candidates t row =
      (List.range (t.lengths row)).map fun v => ((slots (row * width + v)).1,
        if 0 ≤ (slots (row * width + v)).2 then (slots (row * width + v)).2 else -1) := by
  have hclip : (rowLaunch topk numQRows width).clip 0 (t.lengths row) = (0, t.lengths row) := by
    simp only [TiledLaunch.clip, TiledLaunch.splitOffset, rowLaunch, Bool.false_eq_true, if_false]
    split_ifs
    all_goals apply Prod.ext <;> dsimp only <;> omega
  have hdata : (rowLaunch topk numQRows width).dataBid row = row := rfl
  have hid : (rowLaunch topk numQRows width).splitId row = 0 := rfl
  unfold TiledLaunch.candidates TiledLaunch.totalLen
  rw [hcarry, hid, hdata, hclip]
  apply List.map_congr_left
  intro v _
  unfold TiledLaunch.loadValueVirtual TiledLaunch.emitGlobalIndexVirtual
  rw [hcarry, htable, hid, hdata, hclip, hinput]
  simp [TiledLaunch.physicalIndex, TiledLaunch.inputAddress, TiledLaunch.rowBase, rowLaunch,
    TiledLaunch.dataBid]

end ChampionRuntime.Indexer
