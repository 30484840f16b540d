import ChampionRuntime.Indexer.Ownership
import ChampionRuntime.Lib.Binary32
import ChampionRuntime.Lib.Buffers
import ChampionRuntime.Lib.Outcome
import ChampionRuntime.Lib.TopK

/-!
# The candidate merge of the B12X ranks

`_merge_b12x_dcp_topk`: each rank converts its local selection to global token
ids, packs ids and score bits, gathers the buffers of all ranks and selects
again from the candidates of a row. A tensor is a function of its indices, and a
contiguous buffer a function of the address. The kernels compute addresses as `int32`,
so the buffers are those of fewer than `2 ^ 31` words.
-/
namespace ChampionRuntime.Indexer

open Lib

/-- The scalar arguments and settings that the merge reads. -/
structure DcpMerge where
  dcpWorldSize : ℕ
  cpKvCacheInterleaveSize : ℕ
  usePcp : Bool
  /-- `VLLM_DCP_GLOBAL_TOPK` -/
  globalTopk : Bool
  topkTokens : ℕ
  maxModelLen : ℕ
  rows : ℕ

/-- The selection of one rank: `topk_indices` and `topk_scores`. -/
structure RankBuffers where
  topkIndices : ℕ → ℕ → ℤ
  topkScores : ℕ → ℕ → BitVec 32

def getEffectivePcpWorldSize (usePcp : Bool) : ℕ := if usePcp then 2 else 1

def supportedWorldSizes : List ℕ := [2, 4]

def supportedTopk : List ℕ := [512, 1024, 2048]

def maxExactFloatTokenId : ℕ := 2 ^ 24

/-- A tuple of integers as Python prints it. -/
def tupleText (values : List ℕ) : String :=
  "(" ++ ", ".intercalate (values.map fun n => toString n) ++ ")"

/-- `_assert_b12x_dcp2_supported` on the values; the types of the buffers hold
here by construction. -/
def assertB12xDcp2Supported (m : DcpMerge) (dcpRank : ℕ) : Except String Unit := do
  require (m.dcpWorldSize ∈ supportedWorldSizes)
    ("The O14/R17 B12X source port supports " ++ tupleText supportedWorldSizes ++
      "; got decode_context_parallel_size=" ++ toString m.dcpWorldSize ++ ".")
  require (dcpRank < m.dcpWorldSize)
    ("B12X DCP rank must be in range(dcp_world_size)=" ++
      toString (List.range m.dcpWorldSize) ++ ", got " ++ toString dcpRank ++ ".")
  require (m.cpKvCacheInterleaveSize = 1)
    ("The O14/R17 B12X DCP2 source port supports only cp_kv_cache_interleave_size=1, got " ++
      toString m.cpKvCacheInterleaveSize ++ ".")
  require (getEffectivePcpWorldSize m.usePcp ≤ 1)
    ("B12X DCP2 global candidate merge is incompatible with PCP; " ++
      "prefill_context_parallel_size must be 1, got " ++
      toString (getEffectivePcpWorldSize m.usePcp) ++ ".")
  require m.globalTopk
    ("B12X DCP2 requires exact global candidate merge; " ++
      "VLLM_DCP_GLOBAL_TOPK=0 is unsupported.")
  require (m.topkTokens ∈ supportedTopk)
    ("B12X DCP2 stable merge supports index_topk in " ++ tupleText supportedTopk ++
      ", got " ++ toString m.topkTokens ++ ".")
  require (m.maxModelLen < maxExactFloatTokenId)
    ("B12X DCP2 stable merge stores global ids exactly in fp32 candidate " ++
      "pairs and therefore requires max_model_len < " ++ toString maxExactFloatTokenId ++
      "; got " ++ toString m.maxModelLen ++ ".")

/-- `_convert_dcp_local_topk_to_global_kernel` over the buffers. -/
def convertLocalTopkToGlobal (dcpWorldSize dcpRank cpKvCacheInterleaveSize : ℕ)
    (b : RankBuffers) : RankBuffers where
  topkIndices row col :=
    globalIdx dcpWorldSize dcpRank cpKvCacheInterleaveSize (b.topkIndices row col)
  topkScores row col :=
    if 0 ≤ b.topkIndices row col then b.topkScores row col else Binary32.negInf

/-- The `candidates` buffer, of shape `(rows, 2, topk_tokens)`. -/
def packCandidates (topkTokens : ℕ) (b : RankBuffers) (address : ℕ) : BitVec 32 :=
  let col := address % topkTokens
  let channel := address / topkTokens % 2
  let row := address / topkTokens / 2
  if channel = 0 then BitVec.ofInt 32 (b.topkIndices row col) else b.topkScores row col

/-- An all-gather along the first dimension: the buffers of `size` words, rank
after rank. -/
def allGather (size : ℕ) (send : ℕ → ℕ → BitVec 32) (address : ℕ) : BitVec 32 :=
  send (address / size) (address % size)

/-- `_b12x_dcp_unpack_gathered_candidates_kernel`: the id and the score bits at
one offset of a row. -/
def unpackGatheredCandidates (rows topkTokens : ℕ) (gathered : ℕ → BitVec 32)
    (row offset : ℕ) : BitVec 32 × BitVec 32 :=
  let rank := offset / topkTokens
  let localOffset := offset - rank * topkTokens
  let rawRow := rank * rows + row
  let rawBase := rawRow * 2 * topkTokens + localOffset
  (gathered rawBase, gathered (rawBase + topkTokens))

/-- A row of `stable_candidates`: scores, and ids converted to fp32. -/
def stableCandidates (m : DcpMerge) (gathered : ℕ → BitVec 32) (row : ℕ) :
    List (BitVec 32 × BitVec 32) :=
  (List.range (m.dcpWorldSize * m.topkTokens)).map fun offset =>
    let unpacked := unpackGatheredCandidates m.rows m.topkTokens gathered row offset
    (unpacked.2, Binary32.ofInt unpacked.1.toInt)

/-- The buffer that every rank holds after the all-gather. -/
def gatheredCandidates (m : DcpMerge) (buffers : ℕ → RankBuffers) : ℕ → BitVec 32 :=
  allGather (m.rows * 2 * m.topkTokens) fun rank =>
    packCandidates m.topkTokens
      (convertLocalTopkToGlobal m.dcpWorldSize rank m.cpKvCacheInterleaveSize (buffers rank))

/-- `stable_topk_from_gathered_candidates_cutedsl` on one row. -/
abbrev FinalSelector := ℕ → List (BitVec 32 × BitVec 32) → List ℤ

def mergedRow (select : FinalSelector) (m : DcpMerge) (buffers : ℕ → RankBuffers) (row : ℕ) :
    List ℤ :=
  select m.topkTokens (stableCandidates m (gatheredCandidates m buffers) row)

/-- `_merge_b12x_dcp_topk` on one rank; the result is `topk_indices`. -/
def mergeB12xDcpTopk (select : FinalSelector) (m : DcpMerge) (dcpRank : ℕ)
    (buffers : ℕ → RankBuffers) : Except String (ℕ → List ℤ) := do
  if m.dcpWorldSize = 1 ∨ m.rows * m.topkTokens = 0 then
    return fun row => (List.range m.topkTokens).map ((buffers dcpRank).topkIndices row)
  assertB12xDcp2Supported m dcpRank
  return mergedRow select m buffers

abbrev Candidate := BitVec 32 × ℤ

/-- The higher score first, then the lower id. -/
def RanksBefore (a b : Candidate) : Prop :=
  Binary32.units b.1 < Binary32.units a.1 ∨
    Binary32.units a.1 = Binary32.units b.1 ∧ a.2 ≤ b.2

instance : DecidableRel RanksBefore := fun a b => by
  unfold RanksBefore
  infer_instance

instance : IsTrans Candidate RanksBefore where
  trans a b c hab hbc := by
    rcases hab with hab | ⟨hab, hid⟩
    · rcases hbc with hbc | ⟨hbc, -⟩
      · exact .inl (hbc.trans hab)
      · exact .inl (hbc ▸ hab)
    · rcases hbc with hbc | ⟨hbc, hid'⟩
      · exact .inl (hab.symm ▸ hbc)
      · exact .inr ⟨hab.trans hbc, hid.trans hid'⟩

instance : Std.Total RanksBefore where
  total a b := by
    rcases lt_trichotomy (Binary32.units a.1) (Binary32.units b.1) with h | h | h
    · exact .inr (.inl h)
    · rcases le_total a.2 b.2 with hid | hid
      · exact .inl (.inr ⟨h, hid⟩)
      · exact .inr (.inr ⟨h.symm, hid⟩)
    · exact .inl (.inl h)

theorem ids_eq_of_before {a b : Candidate} (hab : RanksBefore a b) (hba : RanksBefore b a) :
    a.2 = b.2 := by
  rcases hab with hab | ⟨hab, hid⟩
  · rcases hba with hba | ⟨hba, -⟩
    · exact absurd hab hba.asymm
    · exact absurd hba hab.ne
  · rcases hba with hba | ⟨-, hid'⟩
    · exact absurd hab.symm hba.ne'
    · exact le_antisymm hid hid'

/-- The candidate that a pair of fp32 values stands for. -/
def decode (pair : BitVec 32 × BitVec 32) : Candidate := (pair.1, Binary32.toInt pair.2)

/-- What the merge relies on: the selection by score, ties by the lower id, of
pairs whose scores are finite or minus infinity. -/
def StableSelector (select : FinalSelector) : Prop :=
  ∀ k (pairs : List (BitVec 32 × BitVec 32)),
    (∀ pair ∈ pairs, Binary32.isFinite pair.1 = true ∨ pair.1 = Binary32.negInf) →
      select k pairs = (topK RanksBefore k (pairs.map decode)).map Prod.snd

/-- The tokens of a row of `length` tokens. -/
def rowCandidates (score : ℕ → BitVec 32) (length : ℕ) : List Candidate :=
  (List.range length).map fun t : ℕ => (score t, (t : ℤ))

/-- The tokens of a row that one rank holds, under their local indices. -/
def localCandidates (W rank I : ℕ) (score : ℕ → BitVec 32) (length : ℕ) : List Candidate :=
  (List.range (getDcpLocalKRows length W rank I)).map fun l : ℕ =>
    (score (globalIdx W rank I l).toNat, (l : ℤ))

/-- A row of a rank's buffers: the first `k` of the local tokens, then padding. -/
def LocallySelected (k : ℕ) (b : RankBuffers) (row : ℕ) (tokens : List Candidate) : Prop :=
  ∃ pads : List (BitVec 32),
    ((List.range k).map fun col => (b.topkScores row col, b.topkIndices row col)) =
      topK RanksBefore k tokens ++ pads.map fun score => (score, -1)

/-- What the kernel reads at an offset of a row is what the offset's rank packed. -/
theorem unpack_gathered {rows K : ℕ} (b : ℕ → RankBuffers) {row rank col : ℕ}
    (hrow : row < rows) (hcol : col < K) :
    unpackGatheredCandidates rows K
        (allGather (rows * 2 * K) fun rank => packCandidates K (b rank)) row (rank * K + col) =
      (BitVec.ofInt 32 ((b rank).topkIndices row col), (b rank).topkScores row col) := by
  have hK : 0 < K := by omega
  have hrank : (rank * K + col) / K = rank := by
    rw [Nat.add_comm, Nat.add_mul_div_right _ _ hK, Nat.div_eq_of_lt hcol, Nat.zero_add]
  have hlocal : rank * K + col - rank * K = col := by omega
  have hstep : (row + 1) * 2 * K ≤ rows * 2 * K :=
    Nat.mul_le_mul_right K (Nat.mul_le_mul_right 2 hrow)
  have hbase : (rank * rows + row) * 2 * K + col = row * 2 * K + col + rank * (rows * 2 * K) := by
    ring
  have hsize : 0 < rows * 2 * K := by
    have : row * 2 * K < rows * 2 * K := by
      calc row * 2 * K < (row + 1) * 2 * K := by
            apply Nat.mul_lt_mul_of_pos_right _ hK
            omega
        _ ≤ rows * 2 * K := hstep
    omega
  have hrows : (row + 1) * 2 * K = row * 2 * K + K + K := by ring
  have hodd : (row * 2 + 1) * K = row * 2 * K + K := by ring
  have hread (n : ℕ) (h : n < rows * 2 * K) :
      allGather (rows * 2 * K) (fun rank => packCandidates K (b rank)) (n + rank * (rows * 2 * K)) =
        packCandidates K (b rank) n := by
    rw [allGather, Nat.add_mul_div_right _ _ hsize, Nat.div_eq_of_lt h, Nat.zero_add,
      Nat.add_mul_mod_self_right, Nat.mod_eq_of_lt h]
  have hpack (n : ℕ) : packCandidates K (b rank) (n * K + col) =
      if n % 2 = 0 then BitVec.ofInt 32 ((b rank).topkIndices (n / 2) col)
      else (b rank).topkScores (n / 2) col := by
    rw [packCandidates, Nat.add_comm, Nat.add_mul_div_right _ _ hK, Nat.div_eq_of_lt hcol,
      Nat.zero_add, Nat.add_mul_mod_self_right, Nat.mod_eq_of_lt hcol]
  simp only [unpackGatheredCandidates, hrank, hlocal, hbase]
  rw [show row * 2 * K + col + rank * (rows * 2 * K) + K =
      (row * 2 + 1) * K + col + rank * (rows * 2 * K) by ring,
    hread _ (by omega), hread _ (by omega), hpack, hpack, if_pos (by omega), if_neg (by omega),
    show row * 2 / 2 = row by omega, show (row * 2 + 1) / 2 = row by omega]

/-- The candidates that a rank packs for a row. -/
def packedRow (K : ℕ) (b : RankBuffers) (row : ℕ) : List Candidate :=
  (List.range K).map fun col => (b.topkScores row col, b.topkIndices row col)

/-- Ids below `2 ^ 24` come out of the gathered buffer and through fp32 unchanged. -/
theorem decode_stableCandidates (m : DcpMerge) (buffers : ℕ → RankBuffers) {row : ℕ}
    (hrow : row < m.rows)
    (hids : ∀ rank < m.dcpWorldSize, ∀ c ∈ packedRow m.topkTokens
      (convertLocalTopkToGlobal m.dcpWorldSize rank m.cpKvCacheInterleaveSize (buffers rank)) row,
      c.2.natAbs < 2 ^ 24) :
    (stableCandidates m (gatheredCandidates m buffers) row).map decode =
      (List.range m.dcpWorldSize).flatMap fun rank => packedRow m.topkTokens
        (convertLocalTopkToGlobal m.dcpWorldSize rank m.cpKvCacheInterleaveSize (buffers rank))
        row := by
  rw [stableCandidates, range_mul, List.map_map, List.map_flatMap]
  refine List.flatMap_congr fun rank hrank => ?_
  rw [packedRow, List.map_map]
  refine List.map_congr_left fun col hcol => ?_
  have hid := hids rank (List.mem_range.mp hrank) _ (List.mem_map_of_mem hcol)
  simp only [Function.comp_apply, gatheredCandidates, decode,
    unpack_gathered _ hrow (List.mem_range.mp hcol)]
  rw [BitVec.toInt_ofInt, Int.bmod_eq_of_le (by omega) (by omega), Binary32.toInt_ofInt hid]

/-- The tokens of a row that one rank holds, under their global ids. -/
def shardCandidates (W rank I : ℕ) (score : ℕ → BitVec 32) (length : ℕ) : List Candidate :=
  (List.range (getDcpLocalKRows length W rank I)).map fun l : ℕ =>
    (score (Interleave.position W I rank l), (Interleave.position W I rank l : ℤ))

theorem flatMap_position_perm {W I : ℕ} (hW : 0 < W) (hI : 0 < I) (length : ℕ) :
    ((List.range W).flatMap fun rank =>
      (List.range (getDcpLocalKRows length W rank I)).map (Interleave.position W I rank)).Perm
      (List.range length) := by
  refine (List.perm_ext_iff_of_nodup ?_ List.nodup_range).mpr fun t => ?_
  · rw [List.nodup_flatMap]
    constructor
    · intro rank hrank
      exact List.nodup_range.map (Interleave.position_injective hI (List.mem_range.mp hrank))
    · refine (List.nodup_range (n := W)).imp_of_mem ?_
      intro a b ha hb hab
      -- a token of both shards would have two owners
      simp only [Function.onFun, List.disjoint_left, List.mem_map]
      rintro t ⟨l, -, rfl⟩ ⟨l', -, h⟩
      have howner := congrArg (Interleave.owner W I) h
      rw [Interleave.owner_position hI (List.mem_range.mp hb),
        Interleave.owner_position hI (List.mem_range.mp ha)] at howner
      exact hab howner.symm
  · simp only [List.mem_flatMap, List.mem_map, List.mem_range]
    constructor
    · rintro ⟨rank, hrank, l, hl, rfl⟩
      rw [getDcpLocalKRows_eq hI hrank] at hl
      exact (Interleave.position_lt_iff hI hrank).mpr hl
    · intro ht
      have howner := Interleave.owner_lt hW I t
      refine ⟨_, howner, Interleave.place W I t, ?_, Interleave.position_place hI t⟩
      rw [getDcpLocalKRows_eq hI howner]
      refine (Interleave.position_lt_iff hI howner).mp ?_
      rwa [Interleave.position_place hI]

theorem shards_perm {W I : ℕ} (hW : 0 < W) (hI : 0 < I) (score : ℕ → BitVec 32) (length : ℕ) :
    ((List.range W).flatMap fun rank => shardCandidates W rank I score length).Perm
      (rowCandidates score length) := by
  have h := (flatMap_position_perm hW hI length).map fun t => (score t, (t : ℤ))
  rwa [List.map_flatMap, show ((List.range W).flatMap fun rank =>
      ((List.range (getDcpLocalKRows length W rank I)).map (Interleave.position W I rank)).map
        fun t => (score t, (t : ℤ))) =
      (List.range W).flatMap fun rank => shardCandidates W rank I score length by
    simp only [List.map_map]
    rfl] at h

theorem separates_rowCandidates (score : ℕ → BitVec 32) (length : ℕ) :
    Separates RanksBefore (rowCandidates score length) := by
  intro a ha b hb hab hba
  simp only [rowCandidates, List.mem_map] at ha hb
  obtain ⟨t, -, rfl⟩ := ha
  obtain ⟨u, -, rfl⟩ := hb
  obtain rfl : t = u := Int.ofNat_inj.mp (ids_eq_of_before hab hba)
  rfl

/-- Converting a rank's selection gives the selection from its shard: the map to
global ids keeps the order of the ids. -/
theorem packedRow_converted {W I rank K row length : ℕ} {b : RankBuffers}
    {score : ℕ → BitVec 32} (hI : 0 < I) (hrank : rank < W)
    (h : LocallySelected K b row (localCandidates W rank I score length)) :
    ∃ n, packedRow K (convertLocalTopkToGlobal W rank I b) row =
      topK RanksBefore K (shardCandidates W rank I score length) ++
        List.replicate n (Binary32.negInf, -1) := by
  obtain ⟨pads, hsel⟩ := h
  let convert : Candidate → Candidate := fun c =>
    (if 0 ≤ c.2 then c.1 else Binary32.negInf, globalIdx W rank I c.2)
  have hpacked : packedRow K (convertLocalTopkToGlobal W rank I b) row =
      ((List.range K).map fun col => (b.topkScores row col, b.topkIndices row col)).map convert := by
    rw [packedRow, List.map_map]
    rfl
  have hshard : (localCandidates W rank I score length).map convert =
      shardCandidates W rank I score length := by
    rw [localCandidates, List.map_map, shardCandidates]
    refine List.map_congr_left fun l _ => ?_
    simp only [Function.comp_apply, convert, globalIdx_natCast, Int.toNat_natCast,
      Int.natCast_nonneg, if_true]
  have horder : ∀ a ∈ localCandidates W rank I score length,
      ∀ c ∈ localCandidates W rank I score length,
      RanksBefore a c ↔ RanksBefore (convert a) (convert c) := by
    intro a ha c hc
    simp only [localCandidates, List.mem_map] at ha hc
    obtain ⟨l, -, rfl⟩ := ha
    obtain ⟨l', -, rfl⟩ := hc
    have hle : l ≤ l' ↔ Interleave.position W I rank l ≤ Interleave.position W I rank l' := by
      have hlt (x y : ℕ) (hxy : x < y) := Interleave.position_lt_position hI hrank hxy
      constructor
      · intro hll
        rcases hll.lt_or_eq with hlt' | rfl
        · exact (hlt l l' hlt').le
        · exact le_rfl
      · intro hpos
        by_contra hgt
        exact absurd (hlt l' l (by omega)) (by omega)
    simp only [RanksBefore, convert, globalIdx_natCast, Int.natCast_nonneg, if_true, Nat.cast_le,
      hle]
  refine ⟨pads.length, ?_⟩
  rw [hpacked, hsel, List.map_append, ← topK_map convert K horder, hshard, List.map_map]
  congr 1
  rw [show convert ∘ (fun score => (score, -1)) = fun _ => (Binary32.negInf, -1) by
    funext score
    simp [convert, globalIdx], List.map_const']

def padding : Candidate := (Binary32.negInf, -1)

theorem before_padding {c : Candidate} (h : Binary32.isFinite c.1 = true) :
    RanksBefore c padding ∧ ¬RanksBefore padding c := by
  have hlt := Binary32.units_negInf_lt h
  refine ⟨.inl hlt, ?_⟩
  rintro (h' | ⟨h', -⟩)
  · exact absurd h' hlt.asymm
  · exact absurd h' hlt.ne

theorem separates_padded {n : ℕ} {l : List Candidate} (hsep : Separates RanksBefore l)
    (hfinite : ∀ c ∈ l, Binary32.isFinite c.1 = true) :
    Separates RanksBefore (l ++ List.replicate n padding) := by
  intro a ha b hb hab hba
  rcases List.mem_append.mp ha with ha | ha
  · rcases List.mem_append.mp hb with hb | hb
    · exact hsep a ha b hb hab hba
    · obtain rfl := List.eq_of_mem_replicate hb
      exact absurd hba (before_padding (hfinite a ha)).2
  · obtain rfl := List.eq_of_mem_replicate ha
    rcases List.mem_append.mp hb with hb | hb
    · exact absurd hab (before_padding (hfinite b hb)).2
    · exact (List.eq_of_mem_replicate hb).symm

/-- The candidates of a row with padding behind them: the padding is selected
only when the candidates run out. -/
theorem topK_padded {k n : ℕ} {l : List Candidate} (hsep : Separates RanksBefore l)
    (hfinite : ∀ c ∈ l, Binary32.isFinite c.1 = true) (hn : k ≤ l.length + n) :
    topK RanksBefore k (l ++ List.replicate n padding) =
      topK RanksBefore k l ++ List.replicate (k - l.length) padding := by
  have hself : RanksBefore padding padding := (Std.Total.total _ _).elim id id
  rw [topK_append_of_before (separates_padded hsep hfinite), List.Pairwise.insertionSort_eq,
    List.take_append, List.take_of_length_le, List.take_replicate, length_topK]
  · congr 2
    omega
  · rw [length_topK]
    exact min_le_left _ _
  · exact List.pairwise_replicate.mpr (.inr hself)
  · intro a ha b hb
    obtain rfl := List.eq_of_mem_replicate hb
    exact (before_padding (hfinite a ha)).1

/-- What every rank holds after the merge of a row. -/
def rowTopK (k : ℕ) (score : ℕ → BitVec 32) (length : ℕ) : List ℤ :=
  (topK RanksBefore k (rowCandidates score length)).map Prod.snd ++
    List.replicate (k - length) (-1)

def shards (m : DcpMerge) (score : ℕ → BitVec 32) (length : ℕ) : List (List Candidate) :=
  (List.range m.dcpWorldSize).map fun rank =>
    shardCandidates m.dcpWorldSize rank m.cpKvCacheInterleaveSize score length

/-- The candidates of a row in the gathered buffer. -/
def gatheredRow (m : DcpMerge) (buffers : ℕ → RankBuffers) (row : ℕ) : List Candidate :=
  (List.range m.dcpWorldSize).flatMap fun rank => packedRow m.topkTokens
    (convertLocalTopkToGlobal m.dcpWorldSize rank m.cpKvCacheInterleaveSize (buffers rank)) row

/-- Each rank's selection from its shard, one rank after another. -/
def preselected (m : DcpMerge) (score : ℕ → BitVec 32) (length : ℕ) : List Candidate :=
  ((shards m score length).map (topK RanksBefore m.topkTokens)).flatten

section merge

variable {select : FinalSelector} {m : DcpMerge} {buffers : ℕ → RankBuffers} {row length : ℕ}
  {score : ℕ → BitVec 32}

/-- The hypotheses on one row: its scores are finite, its ids fit into fp32,
and every rank selected from the tokens it holds. -/
structure Selected (m : DcpMerge) (buffers : ℕ → RankBuffers) (row : ℕ)
    (score : ℕ → BitVec 32) (length : ℕ) : Prop where
  finite : ∀ t < length, Binary32.isFinite (score t) = true
  length_le : length ≤ 2 ^ 24
  selection : ∀ rank < m.dcpWorldSize, LocallySelected m.topkTokens (buffers rank) row
    (localCandidates m.dcpWorldSize rank m.cpKvCacheInterleaveSize score length)

theorem Selected.token (h : Selected m buffers row score length) {c : Candidate}
    (hc : c ∈ rowCandidates score length) :
    Binary32.isFinite c.1 = true ∧ c.2.natAbs < 2 ^ 24 := by
  have hlength := h.length_le
  simp only [rowCandidates, List.mem_map, List.mem_range] at hc
  obtain ⟨t, ht, rfl⟩ := hc
  refine ⟨h.finite t ht, ?_⟩
  rw [Int.natAbs_natCast]
  omega

theorem shards_flatten_perm (hW : 0 < m.dcpWorldSize) (hI : 0 < m.cpKvCacheInterleaveSize)
    (score : ℕ → BitVec 32) (length : ℕ) :
    (shards m score length).flatten.Perm (rowCandidates score length) := by
  simpa only [shards, List.flatMap_def] using shards_perm hW hI score length

theorem preselected_subset (hW : 0 < m.dcpWorldSize) (hI : 0 < m.cpKvCacheInterleaveSize)
    (score : ℕ → BitVec 32) (length : ℕ) :
    preselected m score length ⊆ rowCandidates score length := by
  refine List.Subset.trans ?_ (shards_flatten_perm hW hI score length).subset
  intro c hc
  simp only [preselected, List.mem_flatten, List.mem_map] at hc ⊢
  obtain ⟨_, ⟨shard, hshard, rfl⟩, hc⟩ := hc
  exact ⟨shard, hshard, topK_subset _ _ hc⟩

theorem topK_preselected (hW : 0 < m.dcpWorldSize) (hI : 0 < m.cpKvCacheInterleaveSize)
    (score : ℕ → BitVec 32) (length : ℕ) :
    topK RanksBefore m.topkTokens (preselected m score length) =
      topK RanksBefore m.topkTokens (rowCandidates score length) := by
  have hperm := shards_flatten_perm hW hI score length
  have hsep := separates_rowCandidates score length
  rw [preselected, topK_parts (hsep.of_subset hperm.subset)]
  exact topK_perm hsep hperm

/-- The gathered candidates of a row are the selections of the shards and padding. -/
theorem gatheredRow_perm (hI : 0 < m.cpKvCacheInterleaveSize)
    (h : Selected m buffers row score length) :
    ∃ n, (gatheredRow m buffers row).Perm
      (preselected m score length ++ List.replicate n padding) := by
  have hconverted : ∀ rank, ∃ n, rank < m.dcpWorldSize → packedRow m.topkTokens
      (convertLocalTopkToGlobal m.dcpWorldSize rank m.cpKvCacheInterleaveSize (buffers rank)) row =
      topK RanksBefore m.topkTokens
        (shardCandidates m.dcpWorldSize rank m.cpKvCacheInterleaveSize score length) ++
        List.replicate n padding := by
    intro rank
    by_cases hrank : rank < m.dcpWorldSize
    · obtain ⟨n, hn⟩ := packedRow_converted hI hrank (h.selection rank hrank)
      exact ⟨n, fun _ => hn⟩
    · exact ⟨0, fun hlt => absurd hlt hrank⟩
  choose n hn using hconverted
  let pads := (List.range m.dcpWorldSize).flatMap fun rank => List.replicate (n rank) padding
  have hpads : pads = List.replicate pads.length padding := by
    refine List.eq_replicate_of_mem fun c hc => ?_
    obtain ⟨rank, -, hc⟩ := List.mem_flatMap.mp hc
    exact List.eq_of_mem_replicate hc
  refine ⟨pads.length, ?_⟩
  rw [gatheredRow, List.flatMap_congr fun rank hrank => hn rank (List.mem_range.mp hrank), ← hpads,
    preselected, shards, List.map_map, ← List.flatMap_def]
  exact (List.flatMap_append_perm _ _ _).symm

theorem mem_gatheredRow (hW : 0 < m.dcpWorldSize) (hI : 0 < m.cpKvCacheInterleaveSize)
    (h : Selected m buffers row score length) {c : Candidate} (hc : c ∈ gatheredRow m buffers row) :
    c ∈ rowCandidates score length ∨ c = padding := by
  obtain ⟨n, hperm⟩ := gatheredRow_perm hI h
  rcases List.mem_append.mp (hperm.mem_iff.mp hc) with hc | hc
  · exact .inl (preselected_subset hW hI score length hc)
  · exact .inr (List.eq_of_mem_replicate hc)

theorem decode_gathered (hW : 0 < m.dcpWorldSize) (hI : 0 < m.cpKvCacheInterleaveSize)
    (hrow : row < m.rows) (h : Selected m buffers row score length) :
    (stableCandidates m (gatheredCandidates m buffers) row).map decode =
      gatheredRow m buffers row := by
  refine decode_stableCandidates m buffers hrow fun rank hrank c hc => ?_
  have hmem : c ∈ gatheredRow m buffers row :=
    List.mem_flatMap.mpr ⟨rank, List.mem_range.mpr hrank, hc⟩
  rcases mem_gatheredRow hW hI h hmem with hc | rfl
  · exact (h.token hc).2
  · decide

theorem mergedRow_eq (hselect : StableSelector select) (hW : 0 < m.dcpWorldSize)
    (hI : 0 < m.cpKvCacheInterleaveSize) (hrow : row < m.rows)
    (h : Selected m buffers row score length) :
    mergedRow select m buffers row = rowTopK m.topkTokens score length := by
  have hdecode := decode_gathered hW hI hrow h
  have hscores : ∀ pair ∈ stableCandidates m (gatheredCandidates m buffers) row,
      Binary32.isFinite pair.1 = true ∨ pair.1 = Binary32.negInf := by
    intro pair hpair
    rcases mem_gatheredRow hW hI h (hdecode ▸ List.mem_map_of_mem hpair) with hc | hc
    · exact .inl (h.token hc).1
    · exact .inr (congrArg Prod.fst hc)
  obtain ⟨n, hperm⟩ := gatheredRow_perm hI h
  have hsub := preselected_subset hW hI score length
  have hsep := (separates_rowCandidates score length).of_subset hsub
  have hfinite : ∀ c ∈ preselected m score length, Binary32.isFinite c.1 = true := fun c hc =>
    (h.token (hsub hc)).1
  have htop := topK_preselected hW hI score length
  have hcount : m.topkTokens ≤ (preselected m score length).length + n := by
    have hlen := hperm.length_eq
    rw [List.length_append, List.length_replicate] at hlen
    rw [← hlen, ← hdecode, List.length_map, stableCandidates, List.length_map, List.length_range]
    exact Nat.le_mul_of_pos_left _ hW
  have hpad : m.topkTokens - (preselected m score length).length = m.topkTokens - length := by
    have hlen := congrArg List.length htop
    rw [length_topK, length_topK, rowCandidates, List.length_map, List.length_range] at hlen
    omega
  rw [mergedRow, hselect _ _ hscores, hdecode, topK_perm (separates_padded hsep hfinite) hperm,
    topK_padded hsep hfinite hcount, htop, hpad, rowTopK, List.map_append, List.map_replicate]
  rfl

end merge

/-- Merging the ranks' selections gives the selection from the unsharded row. -/
theorem dcp_merge_exact (select : FinalSelector) (hselect : StableSelector select) (m : DcpMerge)
    (hW : m.dcpWorldSize ∈ supportedWorldSizes) (hI : 0 < m.cpKvCacheInterleaveSize)
    (hmax : m.maxModelLen < 2 ^ 24) (buffers : ℕ → RankBuffers) (score : ℕ → ℕ → BitVec 32)
    (length : ℕ → ℕ) (hlength : ∀ row < m.rows, length row ≤ m.maxModelLen)
    (hfinite : ∀ row < m.rows, ∀ t < length row, Binary32.isFinite (score row t) = true)
    (hlocal : ∀ row < m.rows, ∀ rank < m.dcpWorldSize,
      LocallySelected m.topkTokens (buffers rank) row (localCandidates m.dcpWorldSize rank
        m.cpKvCacheInterleaveSize (score row) (length row))) :
    (∀ row < m.rows,
      mergedRow select m buffers row = rowTopK m.topkTokens (score row) (length row)) ∧
      (∀ dcpRank out, mergeB12xDcpTopk select m dcpRank buffers = .ok out →
        ∀ row < m.rows, out row = rowTopK m.topkTokens (score row) (length row)) ∧
      ∀ id : ℕ, id < 2 ^ 24 → Binary32.toInt (Binary32.ofInt id) = id := by
  have hW' : 1 < m.dcpWorldSize := by
    simp only [supportedWorldSizes, List.mem_cons, List.not_mem_nil, or_false] at hW
    omega
  have hrows : ∀ row < m.rows,
      mergedRow select m buffers row = rowTopK m.topkTokens (score row) (length row) := by
    intro row hrow
    refine mergedRow_eq hselect (by omega) hI hrow
      ⟨hfinite row hrow, ?_, fun rank hrank => hlocal row hrow rank hrank⟩
    exact (hlength row hrow).trans hmax.le
  refine ⟨hrows, fun dcpRank out h row hrow => ?_, fun id hid => Binary32.toInt_ofInt (by simpa)⟩
  rw [mergeB12xDcpTopk] at h
  split_ifs at h with hskip
  · -- only an empty width is skipped
    have hwidth : m.topkTokens = 0 := by
      rcases hskip with h1 | h0
      · omega
      · exact (Nat.mul_eq_zero.mp h0).resolve_left (by omega)
    rw [pure_eq_ok] at h
    rw [← h, hwidth]
    simp [rowTopK, topK]
  · obtain ⟨-, -, h⟩ := bind_eq_ok.mp h
    rw [pure_eq_ok] at h
    rw [← h]
    exact hrows row hrow

/-- Three tokens on two ranks; the first and the last tie. -/
def twoRankMerge : DcpMerge := ⟨2, 1, false, true, 2, 1024, 1⟩

def twoRankScore (t : ℕ) : BitVec 32 := if t = 1 then 0x40000000#32 else 0x3f800000#32

def twoRankBuffers (rank : ℕ) : RankBuffers where
  topkIndices _ col := if rank = 0 then col else if col = 0 then 0 else -1
  topkScores _ col :=
    if rank = 0 then 0x3f800000#32 else if col = 0 then 0x40000000#32 else Binary32.negInf

theorem dcp_merge_exact_two_ranks :
    rowTopK 2 twoRankScore 3 = [1, 0] ∧
      mergedRow (fun k pairs => (topK RanksBefore k (pairs.map decode)).map Prod.snd)
        twoRankMerge twoRankBuffers 0 = rowTopK 2 twoRankScore 3 := by
  refine ⟨by decide, (dcp_merge_exact _ (fun _ _ _ => rfl) twoRankMerge (by decide) (by decide)
    (by decide) twoRankBuffers (fun _ => twoRankScore) (fun _ => 3) (by decide) ?_ ?_).1 0
    (by decide)⟩
  · intro row _ t _
    unfold twoRankScore
    split_ifs <;> decide
  · intro row hrow rank hrank
    obtain rfl : row = 0 := Nat.lt_one_iff.mp hrow
    have hrank' : rank < 2 := hrank
    interval_cases rank
    · exact ⟨[], by decide⟩
    · exact ⟨[Binary32.negInf], by decide⟩

end ChampionRuntime.Indexer
