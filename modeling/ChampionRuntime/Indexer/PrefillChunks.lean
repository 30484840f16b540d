import Mathlib.Data.List.Basic
import Mathlib.Tactic

/-!
# Prefill chunks

`split_indexer_prefill_chunks` of `indexer.py`: requests are taken together as
long as their tokens fit the workspace and their logits the budget, and a chunk
that exceeds the budget alone is cut along its query rows.
-/
namespace ChampionRuntime.Indexer

/-- A pair of slices: the requests, and the query rows counted from the first of
them. -/
structure ChunkSpec where
  reqStart : ℕ
  reqStop : ℕ
  queryStart : ℕ
  queryStop : ℕ
  deriving DecidableEq

/-- `range(0, stop, step)` -/
def rangeStep (stop step : ℕ) : List ℕ :=
  (List.range ((stop + step - 1) / step)).map (· * step)

/-- The query rows, the tokens and the end of a chunk, and the requests behind it. -/
structure Taken where
  chunkM : ℕ
  chunkN : ℕ
  stop : ℕ
  left : List (ℕ × ℕ)

/-- The inner loop: take pairs of a query length and a sequence length while they fit. -/
def takeRequests (workspaceSize maxLogitsElems : ℕ) (chunkM chunkN stop : ℕ) :
    List (ℕ × ℕ) → Taken
  | [] => ⟨chunkM, chunkN, stop, []⟩
  | (q, s) :: left =>
    if chunkN + s ≤ workspaceSize ∧ (chunkM + q) * (chunkN + s) ≤ maxLogitsElems then
      takeRequests workspaceSize maxLogitsElems (chunkM + q) (chunkN + s) (stop + 1) left
    else ⟨chunkM, chunkN, stop, (q, s) :: left⟩

def maxQueryRows (maxLogitsElems chunkM chunkN : ℕ) : ℕ :=
  if 0 < chunkN then max 1 (maxLogitsElems / chunkN) else max 1 chunkM

def subChunks (maxLogitsElems requestOffset start : ℕ) (t : Taken) : List ChunkSpec :=
  let maxQ := maxQueryRows maxLogitsElems t.chunkM t.chunkN
  (rangeStep t.chunkM maxQ).map fun qOff =>
    ⟨start + requestOffset, t.stop + requestOffset, qOff, qOff + min maxQ (t.chunkM - qOff)⟩

/-- The outer loop; each pass takes a request at least. -/
def splitFrom (workspaceSize maxLogitsElems requestOffset : ℕ) :
    ℕ → ℕ → List (ℕ × ℕ) → List ChunkSpec
  | 0, _, _ => []
  | _ + 1, _, [] => []
  | fuel + 1, start, (q, s) :: left =>
    let taken := takeRequests workspaceSize maxLogitsElems 0 0 start ((q, s) :: left)
    let taken := if taken.stop = start then ⟨q, s, start + 1, left⟩ else taken
    subChunks maxLogitsElems requestOffset start taken ++
      splitFrom workspaceSize maxLogitsElems requestOffset fuel taken.stop taken.left

def splitIndexerPrefillChunks (seqLensCpu queryLensCpu : List ℕ)
    (workspaceSize maxLogitsBytes requestOffset : ℕ) : List ChunkSpec :=
  splitFrom workspaceSize (maxLogitsBytes / 4) requestOffset seqLensCpu.length 0
    (queryLensCpu.zip seqLensCpu)

/-- A single request is one chunk whether it fits or not, cut along its rows. -/
theorem splitIndexerPrefillChunks_single (s q workspaceSize maxLogitsBytes requestOffset : ℕ) :
    splitIndexerPrefillChunks [s] [q] workspaceSize maxLogitsBytes requestOffset =
      subChunks (maxLogitsBytes / 4) requestOffset 0 ⟨q, s, 1, []⟩ := by
  simp only [splitIndexerPrefillChunks, List.length_singleton, List.zip_cons_cons,
    List.zip_nil_right, splitFrom, takeRequests, Nat.zero_add, List.append_nil]
  by_cases hfits : s ≤ workspaceSize ∧ q * s ≤ maxLogitsBytes / 4
  · simp only [hfits, and_self, if_true, one_ne_zero, if_false]
  · simp only [hfits, if_false, if_true]

theorem lt_of_mem_rangeStep {stop step i : ℕ} (hstep : 0 < step) (h : i ∈ rangeStep stop step) :
    i < stop := by
  simp only [rangeStep, List.mem_map, List.mem_range] at h
  obtain ⟨n, hn, rfl⟩ := h
  have hle := (Nat.le_div_iff_mul_le hstep).mp (Nat.succ_le_of_lt hn)
  rw [Nat.succ_mul] at hle
  omega

theorem maxQueryRows_pos (maxLogitsElems chunkM chunkN : ℕ) :
    0 < maxQueryRows maxLogitsElems chunkM chunkN := by
  unfold maxQueryRows
  split_ifs <;> omega

/-- A chunk of a single request has a row, and no more rows than the budget lets through. -/
theorem mem_single {s q workspaceSize maxLogitsBytes requestOffset : ℕ} {c : ChunkSpec}
    (h : c ∈ splitIndexerPrefillChunks [s] [q] workspaceSize maxLogitsBytes requestOffset) :
    c.reqStart = requestOffset ∧ c.reqStop = requestOffset + 1 ∧ c.queryStart < c.queryStop ∧
      c.queryStop ≤ q ∧
      c.queryStop - c.queryStart ≤ min q (maxQueryRows (maxLogitsBytes / 4) q s) := by
  rw [splitIndexerPrefillChunks_single, subChunks] at h
  obtain ⟨i, hi, rfl⟩ := List.mem_map.mp h
  have hpos := maxQueryRows_pos (maxLogitsBytes / 4) q s
  have hlt : i < q := lt_of_mem_rangeStep hpos hi
  dsimp only
  omega

end ChampionRuntime.Indexer
