import ChampionRuntime.Lib.AtomicPrefix
import ChampionRuntime.Lib.Interleave

/-!
# Which rank holds a token

Decode context parallelism deals the tokens of a request to the ranks in blocks
of the cache interleave. Two kernels of `sparse_utils.py` and a host function of
`sparse_attn_indexer.py` each compute with that placement. Triton divides
integers toward zero.
-/
namespace ChampionRuntime.Indexer

open Lib Lib.AtomicPrefix

/-- `_get_dcp_local_k_rows`; a natural difference is the maximum with zero. -/
def getDcpLocalKRows (kRows dcpWorldSize dcpRank cpKvCacheInterleaveSize : ℕ) : ℕ :=
  if dcpWorldSize ≤ 1 then kRows
  else
    let interleave := max 1 cpKvCacheInterleaveSize
    let base := kRows / interleave / dcpWorldSize * interleave
    let remainder := kRows - base * dcpWorldSize
    let rankRemainder := min (remainder - dcpRank * interleave) interleave
    base + rankRemainder

/-- The id that `_convert_dcp_local_topk_to_global_kernel` stores. -/
def globalIdx (dcpWorldSize dcpRank cpKvCacheInterleaveSize : ℕ) (localIdx : ℤ) : ℤ :=
  let interleaveBlock := localIdx.tdiv cpKvCacheInterleaveSize
  let interleaveOffset := localIdx.tmod cpKvCacheInterleaveSize
  let globalIdx :=
    (interleaveBlock * dcpWorldSize + dcpRank) * cpKvCacheInterleaveSize + interleaveOffset
  if 0 ≤ localIdx then globalIdx else -1

def owningRank (dcpSize dcpInterleave : ℕ) (tok : ℤ) : ℤ := (tok.tdiv dcpInterleave).tmod dcpSize

def localIdx (dcpSize dcpInterleave : ℕ) (tok : ℤ) : ℤ :=
  tok.tdiv (dcpSize * dcpInterleave) * dcpInterleave + tok.tmod dcpInterleave

theorem globalIdx_natCast (W r I l : ℕ) :
    globalIdx W r I (l : ℤ) = (Interleave.position W I r l : ℕ) := by
  simp only [globalIdx, Interleave.position, ← Int.ofNat_tdiv, ← Int.ofNat_tmod]
  rw [if_pos (Int.natCast_nonneg l)]
  push_cast
  rfl

theorem owningRank_natCast (W I t : ℕ) :
    owningRank W I (t : ℤ) = (Interleave.owner W I t : ℕ) := by
  simp only [owningRank, Interleave.owner, ← Int.ofNat_tdiv, ← Int.ofNat_tmod]

theorem localIdx_natCast (W I t : ℕ) :
    localIdx W I (t : ℤ) = (Interleave.place W I t : ℕ) := by
  simp only [localIdx, Interleave.place, ← Nat.cast_mul, ← Int.ofNat_tdiv, ← Int.ofNat_tmod]
  push_cast
  rfl

theorem getDcpLocalKRows_eq {W r I : ℕ} (hI : 0 < I) (hr : r < W) (k : ℕ) :
    getDcpLocalKRows k W r I = Interleave.ownedBelow W I r k := by
  have hI' : max 1 I = I := by omega
  by_cases hW : W ≤ 1
  · -- a single rank owns everything
    obtain rfl : W = 1 := by omega
    obtain rfl : r = 0 := by omega
    have hmod := Nat.mod_lt k hI
    have hk := Nat.div_add_mod' k I
    simp only [getDcpLocalKRows, hW, if_true, Interleave.ownedBelow, Nat.div_one, Nat.mul_one,
      Nat.zero_mul]
    omega
  · simp only [getDcpLocalKRows, hW, if_false, hI', Interleave.ownedBelow]

/-- The constants of a launch of `_convert_req_index_to_global_index_kernel`. -/
structure KernelShape where
  maxNumBlocksPerReq : ℕ
  blockSize : ℕ
  blockN : ℕ
  dcpSize : ℕ
  dcpRank : ℕ
  dcpInterleave : ℕ

/-- One lane of the kernel; `none` is `is_invalid_tok`. There is no prefill
workspace on this path. -/
def convertToken (k : KernelShape) (blockTable : ℕ → ℤ) (tok : ℤ) : Option ℤ :=
  let isRemote := owningRank k.dcpSize k.dcpInterleave tok ≠ k.dcpRank
  let blockId := (localIdx k.dcpSize k.dcpInterleave tok).tdiv k.blockSize
  let inblockOff := (localIdx k.dcpSize k.dcpInterleave tok).tmod k.blockSize
  let validBlock := blockId < k.maxNumBlocksPerReq ∧ 0 ≤ blockId
  let base := if validBlock ∧ ¬isRemote then blockTable blockId.toNat else 0
  if tok < 0 ∨ ¬validBlock ∨ isRemote then none else some (base * k.blockSize + inblockOff)

/-- The columns of a row that one program covers. -/
def tile (blockN : ℕ) (toks : List ℤ) (tileId : ℕ) : List ℤ :=
  (toks.drop (tileId * blockN)).take blockN

def tileLanes (k : KernelShape) (blockTable : ℕ → ℤ) (toks : List ℤ) (tileId : ℕ) :
    List (Option ℤ) :=
  (tile k.blockN toks tileId).map (convertToken k blockTable)

/-- A row of `req_id` and `token_indices`. -/
structure TokenRow where
  reqId : ℕ
  tokenIndices : List ℤ

structure FilterArgs where
  rows : List TokenRow
  blockTable : ℕ → ℕ → ℤ
  maxNumBlocksPerReq : ℕ
  dcpSize : ℕ
  dcpRank : ℕ
  cpKvCacheInterleaveSize : ℕ := 1
  blockSize : ℕ := 64
  numTopkTokens : ℕ := 2048
  blockN : ℕ := 128
  returnValidCounts : Bool := false
  compactValidToFront : Bool := true

structure Filtered where
  out : List (List ℤ)
  validCounts : Option (List ℕ)
  deriving DecidableEq

/-- A launch that stores each result in its own column. -/
def storeInPlace (k : KernelShape) (a : FilterArgs) : Filtered where
  out := a.rows.map fun row =>
    row.tokenIndices.map fun tok => (convertToken k (a.blockTable row.reqId) tok).getD (-1)
  validCounts :=
    if a.returnValidCounts then
      some (a.rows.map fun row =>
        (row.tokenIndices.filterMap (convertToken k (a.blockTable row.reqId))).length)
    else none

/-- `triton_convert_req_index_to_global_index` without a prefill workspace. -/
def convertReqIndexToGlobalIndex (a : FilterArgs) : Filtered :=
  storeInPlace ⟨a.maxNumBlocksPerReq, a.blockSize, a.blockN, 1, 0, 1⟩ a

namespace FilterArgs

def shape (a : FilterArgs) : KernelShape :=
  ⟨a.maxNumBlocksPerReq, a.blockSize, a.blockN, a.dcpSize, a.dcpRank, a.cpKvCacheInterleaveSize⟩

def tilesPerRow (a : FilterArgs) : ℕ := a.numTopkTokens / a.blockN

/-- The asserted conditions; a remainder by zero raises as well. -/
def Checked (a : FilterArgs) : Prop :=
  1 ≤ a.dcpSize ∧ a.dcpRank < a.dcpSize ∧ 0 < a.cpKvCacheInterleaveSize ∧
    a.blockSize % a.cpKvCacheInterleaveSize = 0 ∧
    (∀ row ∈ a.rows, row.tokenIndices.length = a.numTopkTokens) ∧
    0 < a.blockN ∧ a.numTopkTokens % a.blockN = 0

instance (a : FilterArgs) : Decidable a.Checked := by
  unfold Checked
  infer_instance

def row (a : FilterArgs) (tokenId : ℕ) : TokenRow := a.rows.getD tokenId ⟨0, []⟩

def lanes (a : FilterArgs) (tokenId tileId : ℕ) : List (Option ℤ) :=
  tileLanes a.shape (a.blockTable (a.row tokenId).reqId) (a.row tokenId).tokenIndices tileId

/-- A schedule of the launch's programs, one for each row and tile. -/
def Schedules (a : FilterArgs) (schedule : List (ℕ × Event ℕ)) : Prop :=
  ∀ tokenId < a.rows.length,
    Interleaves (a.lanes tokenId) (List.range a.tilesPerRow) (eventsOf tokenId schedule)

end FilterArgs

/-- `triton_filter_and_convert_dcp_index` when the programs of the compacting
launch take effect in the order of `schedule`. -/
def filterAndConvertDcpIndex (a : FilterArgs) (schedule : List (ℕ × Event ℕ)) :
    Option Filtered :=
  if ¬a.Checked then none
  else if a.dcpSize = 1 then some (convertReqIndexToGlobalIndex a)
  else if a.compactValidToFront then
    let state := launch a.lanes (-1) schedule
    some
      { out := (List.range a.rows.length).map fun tokenId =>
          (List.range a.numTopkTokens).map (state tokenId).out
        validCounts :=
          if a.returnValidCounts then
            some ((List.range a.rows.length).map fun tokenId => (state tokenId).next)
          else none }
  else some (storeInPlace a.shape a)

/-- The cache slot of a token that this rank owns and has a block for. -/
def FilterArgs.ownedSlot (a : FilterArgs) (reqId : ℕ) : ℤ → Option ℤ
  | .ofNat t =>
    let place := Interleave.place a.dcpSize a.cpKvCacheInterleaveSize t
    if Interleave.owner a.dcpSize a.cpKvCacheInterleaveSize t = a.dcpRank ∧
        place / a.blockSize < a.maxNumBlocksPerReq then
      some (a.blockTable reqId (place / a.blockSize) * a.blockSize + (place % a.blockSize : ℕ))
    else none
  | .negSucc _ => none

/-- The slots fill the first cells, in some order, and the rest is padding. -/
def Compacted (slots cells : List ℤ) : Prop :=
  ∃ front : List ℤ, front.Perm slots ∧
    cells = front ++ List.replicate (cells.length - slots.length) (-1)

theorem convertToken_neg (k : KernelShape) (table : ℕ → ℤ) {tok : ℤ} (h : tok < 0) :
    convertToken k table tok = none := by
  simp [convertToken, h]

theorem convertToken_natCast (k : KernelShape) (table : ℕ → ℤ) (t : ℕ) :
    convertToken k table (t : ℤ) =
      if Interleave.owner k.dcpSize k.dcpInterleave t = k.dcpRank ∧
          Interleave.place k.dcpSize k.dcpInterleave t / k.blockSize < k.maxNumBlocksPerReq then
        some (table (Interleave.place k.dcpSize k.dcpInterleave t / k.blockSize) * k.blockSize +
          (Interleave.place k.dcpSize k.dcpInterleave t % k.blockSize : ℕ))
      else none := by
  simp only [convertToken, owningRank_natCast, localIdx_natCast, ← Int.ofNat_tdiv,
    ← Int.ofNat_tmod, Int.toNat_natCast, Nat.cast_lt, Nat.cast_inj, Int.natCast_nonneg, and_true,
    (Int.natCast_nonneg t).not_gt, false_or, ne_eq, not_not]
  generalize Interleave.place k.dcpSize k.dcpInterleave t = place
  by_cases howner : Interleave.owner k.dcpSize k.dcpInterleave t = k.dcpRank
  · by_cases hblock : place / k.blockSize < k.maxNumBlocksPerReq
    · simp only [howner, hblock, not_true_eq_false, or_false, if_false, and_self, if_true]
    · simp only [howner, hblock, not_false_eq_true, true_or, if_true, and_false, if_false]
  · simp only [howner, not_false_eq_true, or_true, if_true, false_and, if_false]

theorem convertToken_shape (a : FilterArgs) (reqId : ℕ) :
    convertToken a.shape (a.blockTable reqId) = a.ownedSlot reqId := by
  funext tok
  cases tok with
  | ofNat t => exact convertToken_natCast _ _ t
  | negSucc t => exact convertToken_neg _ _ (Int.negSucc_lt_zero t)

/-- With one rank the two kernels place tokens alike, whatever the interleave. -/
theorem convertToken_single {a : FilterArgs} (hW : a.dcpSize = 1) (hr : a.dcpRank = 0)
    (reqId : ℕ) :
    convertToken ⟨a.maxNumBlocksPerReq, a.blockSize, a.blockN, 1, 0, 1⟩ (a.blockTable reqId) =
      a.ownedSlot reqId := by
  have hplace (I t : ℕ) : Interleave.place 1 I t = t := by
    rw [Interleave.place, Nat.one_mul, Nat.div_add_mod']
  have howner (I t : ℕ) : Interleave.owner 1 I t = 0 := Nat.mod_one _
  funext tok
  cases tok with
  | ofNat t =>
    rw [Int.ofNat_eq_natCast, convertToken_natCast]
    simp only [FilterArgs.ownedSlot, hW, hr, hplace, howner]
  | negSucc t => exact convertToken_neg _ _ (Int.negSucc_lt_zero t)

theorem packed_tileLanes (k : KernelShape) (table : ℕ → ℤ) (toks : List ℤ) (n : ℕ) :
    packed (tileLanes k table toks) (List.range n) =
      (toks.take (n * k.blockN)).filterMap (convertToken k table) := by
  induction n with
  | zero => simp [packed]
  | succ n ih =>
    rw [List.range_succ, packed_append, ih, Nat.succ_mul, List.take_add, List.filterMap_append]
    simp only [packed, tileLanes, tile, List.flatMap_cons, List.flatMap_nil, List.append_nil,
      List.reduceOption, List.filterMap_map, Function.id_comp]

theorem map_getD_range {α : Type*} (l : List α) (fill : α) {n : ℕ} (h : l.length ≤ n) :
    (List.range n).map (fun p => l[p]?.getD fill) = l ++ List.replicate (n - l.length) fill := by
  apply List.ext_getElem
  · simp
    omega
  · intro p hp hp'
    rw [List.getElem_map, List.getElem_range, List.getElem_append]
    split
    · next hlt => rw [List.getElem?_eq_getElem hlt, Option.getD_some]
    · next hge => rw [List.getElem?_eq_none (by omega), Option.getD_none, List.getElem_replicate]

namespace FilterArgs

variable {a : FilterArgs} {schedule : List (ℕ × Event ℕ)}

theorem map_row (a : FilterArgs) : (List.range a.rows.length).map a.row = a.rows := by
  apply List.ext_getElem
  · simp
  · intro i hi hi'
    simp [row, hi']

def slots (a : FilterArgs) (row : TokenRow) : List ℤ :=
  row.tokenIndices.filterMap (a.ownedSlot row.reqId)

theorem row_compacted (hchecked : a.Checked) (hs : a.Schedules schedule) {tokenId : ℕ}
    (hrow : tokenId < a.rows.length) :
    Compacted (a.slots (a.row tokenId))
        ((List.range a.numTopkTokens).map (launch a.lanes (-1) schedule tokenId).out) ∧
      (launch a.lanes (-1) schedule tokenId).next = (a.slots (a.row tokenId)).length := by
  obtain ⟨-, -, -, -, hwidth, hblock, hdvd⟩ := hchecked
  have hlength : (a.row tokenId).tokenIndices.length = a.numTopkTokens := by
    apply hwidth
    simp [row, hrow]
  have htiles : a.tilesPerRow * a.blockN = a.numTopkTokens :=
    Nat.div_mul_cancel (Nat.dvd_of_mod_eq_zero hdvd)
  obtain ⟨order, hperm, hnext, hout⟩ :=
    run_interleaving (-1) (hs tokenId hrow) List.nodup_range
  have hpacked : (packed (a.lanes tokenId) order).Perm (a.slots (a.row tokenId)) := by
    have hflat : packed (a.lanes tokenId) (List.range a.tilesPerRow) =
        a.slots (a.row tokenId) := by
      have hall := packed_tileLanes a.shape (a.blockTable (a.row tokenId).reqId)
        (a.row tokenId).tokenIndices a.tilesPerRow
      rw [show a.shape.blockN = a.blockN from rfl, htiles, ← hlength, List.take_length,
        convertToken_shape] at hall
      exact hall
    exact hflat ▸ hperm.flatMap_right _
  have hle : (packed (a.lanes tokenId) order).length ≤ a.numTopkTokens := by
    rw [hpacked.length_eq, ← hlength]
    exact List.length_filterMap_le _ _
  rw [launch_row]
  refine ⟨⟨_, hpacked, ?_⟩, by rw [hnext, hpacked.length_eq]⟩
  rw [funext hout, map_getD_range _ _ hle, ← hpacked.length_eq]
  simp

end FilterArgs

theorem checked_of_filter {a : FilterArgs} {schedule : List (ℕ × Event ℕ)} {r : Filtered}
    (h : filterAndConvertDcpIndex a schedule = some r) : a.Checked := by
  by_contra hchecked
  simp [filterAndConvertDcpIndex, hchecked] at h

theorem filter_compacts {a : FilterArgs} {schedule : List (ℕ × Event ℕ)} {r : Filtered}
    (hW : a.dcpSize ≠ 1) (hc : a.compactValidToFront = true) (hs : a.Schedules schedule)
    (h : filterAndConvertDcpIndex a schedule = some r) :
    List.Forall₂ (fun row cells => Compacted (a.slots row) cells) a.rows r.out ∧
      r.validCounts =
        if a.returnValidCounts then some (a.rows.map fun row => (a.slots row).length) else none := by
  have hchecked := checked_of_filter h
  rw [filterAndConvertDcpIndex, if_neg (not_not.mpr hchecked), if_neg hW, if_pos hc] at h
  obtain rfl := Option.some.inj h
  constructor
  · conv_lhs => rw [← a.map_row]
    rw [List.forall₂_map_left_iff, List.forall₂_map_right_iff, List.forall₂_same]
    intro tokenId hmem
    exact (FilterArgs.row_compacted hchecked hs (List.mem_range.mp hmem)).1
  · have hcounts : (List.range a.rows.length).map
        (fun tokenId => (launch a.lanes (-1) schedule tokenId).next) =
        a.rows.map fun row => (a.slots row).length := by
      conv_rhs => rw [← a.map_row]
      rw [List.map_map]
      refine List.map_congr_left fun tokenId hmem => ?_
      exact (FilterArgs.row_compacted hchecked hs (List.mem_range.mp hmem)).2
    simp only [hcounts]

theorem filter_single {a : FilterArgs} {schedule : List (ℕ × Event ℕ)} {r : Filtered}
    (hW : a.dcpSize = 1) (h : filterAndConvertDcpIndex a schedule = some r) :
    r.out = a.rows.map (fun row =>
        row.tokenIndices.map fun tok => (a.ownedSlot row.reqId tok).getD (-1)) ∧
      r.validCounts =
        if a.returnValidCounts then some (a.rows.map fun row => (a.slots row).length) else none := by
  have hchecked := checked_of_filter h
  have hrank : a.dcpRank = 0 := by
    have := hchecked.2.1
    omega
  rw [filterAndConvertDcpIndex, if_neg (not_not.mpr hchecked), if_pos hW] at h
  obtain rfl := Option.some.inj h
  simp only [convertReqIndexToGlobalIndex, storeInPlace, convertToken_single hW hrank]
  exact ⟨trivial, rfl⟩

/-- The two index maps are inverse, each token has one owner, and the host's
counts are those of the owned tokens. -/
structure Partitioned (W I : ℕ) : Prop where
  local_of_global : ∀ r < W, ∀ l : ℕ,
    owningRank W I (globalIdx W r I l) = r ∧ localIdx W I (globalIdx W r I l) = l
  global_of_local : ∀ t : ℕ, ∃ r < W, ∃ l : ℕ,
    owningRank W I t = r ∧ localIdx W I t = l ∧ globalIdx W r I l = t
  unique_owner : ∀ t : ℕ, ∃! r, r < W ∧ ∃ l : ℕ, globalIdx W r I l = t
  local_rows : ∀ k, ∀ r < W,
    getDcpLocalKRows k W r I = ((Finset.range k).filter fun t : ℕ => owningRank W I t = r).card
  all_rows : ∀ k, ∑ r ∈ Finset.range W, getDcpLocalKRows k W r I = k

theorem partitioned {W I : ℕ} (hW : 1 ≤ W) (hI : 1 ≤ I) : Partitioned W I where
  local_of_global r hr l := by
    rw [globalIdx_natCast, owningRank_natCast, localIdx_natCast, Interleave.owner_position hI hr,
      Interleave.place_position hI hr]
    exact ⟨rfl, rfl⟩
  global_of_local t := by
    refine ⟨Interleave.owner W I t, Interleave.owner_lt hW I t, Interleave.place W I t,
      owningRank_natCast W I t, localIdx_natCast W I t, ?_⟩
    rw [globalIdx_natCast, Interleave.position_place hI]
  unique_owner t := by
    refine ⟨Interleave.owner W I t, ⟨Interleave.owner_lt hW I t, Interleave.place W I t, ?_⟩, ?_⟩
    · rw [globalIdx_natCast, Interleave.position_place hI]
    · rintro r ⟨hr, l, hl⟩
      rw [globalIdx_natCast, Nat.cast_inj] at hl
      rw [← hl, Interleave.owner_position hI hr]
  local_rows k r hr := by
    simp only [owningRank_natCast, Nat.cast_inj]
    rw [getDcpLocalKRows_eq hI hr, Interleave.card_owned hI hr]
  all_rows k := by
    rw [Finset.sum_congr rfl fun r hr => getDcpLocalKRows_eq hI (Finset.mem_range.mp hr) k]
    exact Interleave.sum_ownedBelow hW hI k

/-- Several ranks compact their owned slots in whatever order the tiles reserve
their ranges; a single rank leaves every slot in its own column. -/
theorem ownership_partition :
    (∀ W I : ℕ, 1 ≤ W → 1 ≤ I → Partitioned W I) ∧
      ∀ (a : FilterArgs) (schedule : List (ℕ × Event ℕ)) (r : Filtered),
        a.compactValidToFront = true → a.Schedules schedule →
        filterAndConvertDcpIndex a schedule = some r →
        (a.dcpSize ≠ 1 →
          List.Forall₂ (fun row cells => Compacted (a.slots row) cells) a.rows r.out) ∧
        (a.dcpSize = 1 → r.out = a.rows.map fun row =>
          row.tokenIndices.map fun tok => (a.ownedSlot row.reqId tok).getD (-1)) ∧
        r.validCounts =
          if a.returnValidCounts then some (a.rows.map fun row => (a.slots row).length)
          else none := by
  refine ⟨fun W I hW hI => partitioned hW hI, fun a schedule r hc hs h => ?_⟩
  by_cases hW : a.dcpSize = 1
  · obtain ⟨hout, hcounts⟩ := filter_single hW h
    exact ⟨fun hne => absurd hW hne, fun _ => hout, hcounts⟩
  · obtain ⟨hout, hcounts⟩ := filter_compacts hW hc hs h
    exact ⟨fun _ => hout, fun heq => absurd heq hW, hcounts⟩

/-- Two tiles of rank one of two; the second tile reserves first. -/
def racingArgs : FilterArgs where
  rows := [⟨0, [3, 2, -1, 5]⟩]
  blockTable _ block := block + 7
  maxNumBlocksPerReq := 4
  dcpSize := 2
  dcpRank := 1
  blockSize := 2
  numTopkTokens := 4
  blockN := 2
  returnValidCounts := true

def racingSchedule : List (ℕ × Event ℕ) :=
  [(0, .reserve 1), (0, .store 1 1), (0, .reserve 0), (0, .store 0 0), (0, .store 1 0),
    (0, .store 0 1)]

theorem schedules_racing : racingArgs.Schedules racingSchedule := by
  intro tokenId htoken
  obtain rfl : tokenId = 0 := by simpa [racingArgs] using htoken
  refine ⟨by decide, fun t ht => ?_⟩
  have ht' : t < 2 := List.mem_range.mp ht
  interval_cases t
  · exact ⟨[.store 0 0, .store 0 1], by decide, by decide⟩
  · exact ⟨[.store 1 1, .store 1 0], by decide, by decide⟩

theorem ownership_partition_racing :
    Partitioned 2 1 ∧ List.Forall₂ (fun row cells => Compacted (racingArgs.slots row) cells)
      racingArgs.rows [[16, 15, -1, -1]] :=
  ⟨ownership_partition.1 2 1 (by decide) (by decide),
    (ownership_partition.2 racingArgs racingSchedule ⟨[[16, 15, -1, -1]], some [2]⟩ rfl
      schedules_racing (by decide)).1 (by decide)⟩

def singleRankArgs : FilterArgs where
  rows := [⟨0, [-1, 5]⟩]
  blockTable _ _ := 3
  maxNumBlocksPerReq := 4
  dcpSize := 1
  dcpRank := 0
  numTopkTokens := 2
  blockN := 2

theorem single_rank_keeps_gap :
    ¬∀ (a : FilterArgs) (schedule : List (ℕ × Event ℕ)) (r : Filtered), 1 ≤ a.dcpSize →
      a.compactValidToFront = true → a.Schedules schedule →
      filterAndConvertDcpIndex a schedule = some r →
      List.Forall₂ (fun row cells => Compacted (a.slots row) cells) a.rows r.out := by
  intro h
  have hs : singleRankArgs.Schedules
      [(0, .reserve 0), (0, .store 0 0), (0, .store 0 1)] := by
    intro tokenId htoken
    obtain rfl : tokenId = 0 := by simpa [singleRankArgs] using htoken
    refine ⟨by decide, fun t ht => ?_⟩
    obtain rfl : t = 0 := Nat.lt_one_iff.mp (List.mem_range.mp ht)
    exact ⟨[.store 0 0, .store 0 1], by decide, by decide⟩
  have hcompact := h singleRankArgs _ ⟨[[-1, 197]], none⟩ (by decide) rfl hs (by decide)
  obtain ⟨front, hperm, hcells⟩ := (List.forall₂_cons.mp hcompact).1
  have hslots : singleRankArgs.slots ⟨0, [-1, 5]⟩ = [197] := by decide
  rw [hslots] at hperm hcells
  rw [List.perm_singleton.mp hperm] at hcells
  exact absurd hcells (by decide)

end ChampionRuntime.Indexer
