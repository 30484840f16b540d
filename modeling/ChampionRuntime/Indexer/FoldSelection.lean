import ChampionRuntime.Indexer.SupertileFold

/-!
# What the fold selects

With an exact selector the slots that a slice leaves are a selection from its positions, filled
up with padding. A selection from such selections is one from the whole row, whichever way the
row was cut, so the fold and the carry chain end with the same values.
-/
namespace ChampionRuntime.Indexer

open Lib

variable {β : Type}

def scoredSlot (score : ℕ → β) (position : ℕ) : Slot β := (score position, position)

/-- The positions with the `k` largest scores of a row, and padding when there are fewer. -/
def TopkRow [LinearOrder β] (k : ℕ) (score : ℕ → β) (length : ℕ) (slots : List (Slot β)) : Prop :=
  ∃ chosen, Selects score k (List.range length) chosen ∧
    slots.Perm (chosen.map (scoredSlot score) ++ List.replicate (k - chosen.length) paddedSlot)

section Rows

variable [LinearOrder β] {k : ℕ} {score : ℕ → β} {length : ℕ} {slots slots' : List (Slot β)}

theorem TopkRow.of_selectsPadded
    (h : SelectsPadded Prod.fst paddedSlot k ((List.range length).map (scoredSlot score)) slots) :
    TopkRow k score length slots := by
  have hreal : ∀ slot ∈ (List.range length).map (scoredSlot score),
      (paddedSlot : Slot β).1 < slot.1 := by
    intro slot hslot
    obtain ⟨position, -, rfl⟩ := List.mem_map.mp hslot
    exact WithBot.bot_lt_coe _
  obtain ⟨chosen, hchosen, hperm⟩ := h.exists_chosen hreal
  have hvalue : ∀ slot ∈ (List.range length).map (scoredSlot score),
      (score slot.2.toNat : WithBot β) = slot.1 := by
    intro slot hslot
    obtain ⟨position, -, rfl⟩ := List.mem_map.mp hslot
    rfl
  have hpositions := hchosen.map (fun position => (score position : WithBot β))
    (fun slot => slot.2.toNat) hvalue
  have hrange : ((List.range length).map (scoredSlot score)).map (fun slot => slot.2.toNat) =
      List.range length := by
    rw [List.map_map]
    exact List.map_id _
  rw [hrange] at hpositions
  have hback : (chosen.map fun slot => slot.2.toNat).map (scoredSlot score) = chosen := by
    rw [List.map_map]
    nth_rewrite 2 [← List.map_id chosen]
    apply List.map_congr_left
    intro slot hslot
    obtain ⟨position, -, rfl⟩ := List.mem_map.mp (hchosen.subset hslot)
    rfl
  refine ⟨chosen.map fun slot => slot.2.toNat, ?_, ?_⟩
  · exact hpositions.of_le_iff fun a b => WithBot.coe_le_coe
  · rw [hback, List.length_map]
    exact hperm

theorem TopkRow.values_perm (h : TopkRow k score length slots)
    (h' : TopkRow k score length slots') : (slots.map Prod.fst).Perm (slots'.map Prod.fst) := by
  obtain ⟨chosen, hchosen, hperm⟩ := h
  obtain ⟨chosen', hchosen', hperm'⟩ := h'
  have hlength : chosen.length = chosen'.length := by rw [hchosen.1, hchosen'.1]
  have hscores : (chosen.map score).Perm (chosen'.map score) :=
    hchosen.values.trans hchosen'.values.symm
  have hfst : ∀ positions : List ℕ, (positions.map (scoredSlot score)).map Prod.fst =
      (positions.map score).map WithBot.some := by
    intro positions
    rw [List.map_map, List.map_map]
    rfl
  refine (hperm.map Prod.fst).trans (List.Perm.trans ?_ (hperm'.map Prod.fst).symm)
  rw [List.map_append, List.map_append, hfst, hfst, hlength]
  exact (hscores.map _).append_right _

end Rows

namespace SupertileTopk

variable (p : SupertileTopk)

/-- The scorer left the scores of the rows in the tiles of each chunk. -/
def Scored (tileLogits : ℕ → ℕ → WithBot β) (score : ℕ → ℕ → β) (lengths : ℕ → ℕ) : Prop :=
  ∀ c < p.numChunks, ∀ row < p.qRows, ∀ j < p.supertileTokens,
    p.chunkStartToken c + j < lengths row →
      tileLogits c (TiledLaunch.tileAddress pagedIndexTileBlockQ p.topkBlockK p.supertileKTiles row j) =
        score row (p.chunkStartToken c + j)

/-- The row is no longer than the page table. -/
def Fits (lengths : ℕ → ℕ) : Prop :=
  ∀ row < p.qRows, lengths row ≤ p.pageTableWidth * pagedIndexPageSize

/-- What a slice of a row has to select from. -/
def sliceSlots (score : ℕ → β) (length : ℕ) (slice : ℕ × ℕ) : List (Slot β) :=
  (List.Ico ((p.sliceLaunch slice.1).splitOffset slice.2)
    ((p.sliceLaunch slice.1).splitEnd slice.2 length)).map (scoredSlot score)

/-- What a chunk of a row has to select from. -/
def chunkSlots (score : ℕ → β) (length c : ℕ) : List (Slot β) :=
  (List.Ico (0 + c * p.supertileTokens) (min length (0 + (c + 1) * p.supertileTokens))).map
    (scoredSlot score)

def carriedSlots (carry : Option (ℕ → Slot β)) (row : ℕ) : List (Slot β) :=
  match carry with
  | none => []
  | some out => rowOf p.topk out row

theorem flatMap_sliceSlots (score : ℕ → β) {length : ℕ}
    (hlength : length ≤ p.pageTableWidth * pagedIndexPageSize) :
    p.slices.flatMap (p.sliceSlots score length) = (List.range length).map (scoredSlot score) := by
  rw [← p.flatMap_slices hlength, List.map_flatMap]
  rfl

theorem flatMap_chunkSlots (score : ℕ → β) {length : ℕ}
    (hlength : length ≤ p.pageTableWidth * pagedIndexPageSize) :
    (List.range p.numChunks).flatMap (p.chunkSlots score length) =
      (List.range length).map (scoredSlot score) := by
  have hchunks := p.length_le_chunks hlength
  calc (List.range p.numChunks).flatMap (p.chunkSlots score length)
    _ = ((List.range p.numChunks).flatMap fun c => List.Ico (0 + c * p.supertileTokens)
        (min length (0 + (c + 1) * p.supertileTokens))).map (scoredSlot score) := by
      rw [List.map_flatMap]
      rfl
    _ = (List.Ico 0 (min length (0 + p.numChunks * p.supertileTokens))).map (scoredSlot score) := by
      rw [flatMap_Ico]
    _ = (List.range length).map (scoredSlot score) := by
      rw [Nat.zero_add, min_eq_left hchunks, List.Ico.zero_bot]

section Runs

variable {p} {tileLogits : ℕ → ℕ → WithBot β} {score : ℕ → ℕ → β} {lengths : ℕ → ℕ}
  (hscored : p.Scored tileLogits score lengths) {c row : ℕ}

include hscored in
theorem map_scored (hc : c < p.numChunks) (hrow : row < p.qRows) {low high : ℕ}
    (hlow : p.chunkStartToken c ≤ low) (hhigh : high ≤ p.chunkStartToken c + p.supertileTokens)
    (hlength : high ≤ lengths row) :
    ((List.Ico low high).map fun position =>
        (tileLogits c (TiledLaunch.tileAddress pagedIndexTileBlockQ p.topkBlockK p.supertileKTiles
          row (position - p.chunkStartToken c)), (position : ℤ))) =
      (List.Ico low high).map (scoredSlot (score row)) := by
  apply List.map_congr_left
  intro position hposition
  rw [List.Ico.mem] at hposition
  rw [hscored c hc row hrow _ (by omega) (by omega), Nat.add_sub_cancel' (by omega)]
  rfl

include hscored in
theorem candidates_sliceLaunch {slice : ℕ × ℕ} (hslice : slice ∈ p.slices) (hrow : row < p.qRows) :
    (p.sliceLaunch slice.1).candidates (chunkTensors tileLogits lengths none slice.1)
        ((p.sliceLaunch slice.1).blockOf row slice.2) =
      p.sliceSlots (score row) (lengths row) slice := by
  obtain ⟨hc, hs⟩ := p.mem_slices.mp hslice
  rw [(p.sliceLaunch_blocked hc).candidates_eq row (chunkTensors tileLogits lengths none slice.1) rfl
    rfl hs, sliceSlots]
  apply map_scored hscored hc hrow
  · exact Nat.le_add_right _ _
  · rw [← p.supertileKTiles_tokens]
    exact (min_le_right _ _).trans (min_le_right _ _)
  · exact min_le_left _ _

variable [LinearOrder β] {select : RadixSelector β} (hselect : ExactSelector select)
include hselect hscored

/-- After the first chunks the slots of their slices hold what the slices select. -/
theorem foldChunks_eq_ok (fold : ℕ → Slot β) {n : ℕ} (hn : n ≤ p.numChunks) :
    ∃ folded, p.foldChunks select tileLogits lengths fold n = .ok folded ∧
      ∀ slice ∈ p.slices, slice.1 < n → ∀ row < p.qRows,
        rowOf p.topk folded (row * p.foldCapacitySlices + p.sliceSlot slice) =
          emitTopk select p.topk (p.sliceSlots (score row) (lengths row) slice) := by
  induction n with
  | zero => exact ⟨fold, rfl, fun _ _ h => absurd h (Nat.not_lt_zero _)⟩
  | succ n ih =>
    obtain ⟨folded, hfolded, hslots⟩ := ih (by omega)
    have hn' : n < p.numChunks := hn
    have hlast : (n, (p.twoLevelSlice n).1 - 1) ∈ p.slices :=
      p.mem_slices.mpr ⟨hn', Nat.sub_lt (p.splits_pos hn') Nat.one_pos⟩
    have hfits : (p.twoLevelSlice n).2 + (p.twoLevelSlice n).1 ≤ p.foldCapacitySlices := by
      have hslot := p.sliceSlot_lt hlast
      have hcapacity := p.totalSlices_le
      have hpos := p.splits_pos hn'
      unfold sliceSlot at hslot
      dsimp only at hslot
      omega
    have hrun : runTiledTopk select (p.sliceLaunch n) (chunkTensors tileLogits lengths none n)
        folded = .ok ((p.sliceLaunch n).launch select
          (chunkTensors tileLogits lengths none n) folded) :=
      runTiledTopk_eq_ok select folded p.topk_mem (fun _ => ⟨p.splitExtent_pos hn', rfl⟩) rfl
        hfits p.supertileKTiles_pos
    refine ⟨(p.sliceLaunch n).launch select (chunkTensors tileLogits lengths none n) folded, ?_, ?_⟩
    · rw [foldChunks, List.range_succ, List.foldlM_append]
      change (p.foldChunks select tileLogits lengths fold n >>= _) = _
      rw [hfolded, ok_bind, List.foldlM_cons, hrun]
      rfl
    · intro slice hslice hlt row hrow
      obtain ⟨hc, hs⟩ := p.mem_slices.mp hslice
      rcases Nat.lt_succ_iff_lt_or_eq.mp hlt with hbefore | hlast
      · -- the slots of the chunk come after those of the chunks before
        rw [← hslots slice hslice hbefore row hrow]
        apply TiledLaunch.rowOf_launch_of_ne (p.sliceLaunch n) hselect
        intro row' _ split hsplit heq
        have hsplit' : split < (p.twoLevelSlice n).1 := hsplit
        have hbase := p.base_add_splits_le hbefore hn'
        have hslot := p.sliceSlot_lt hslice
        have hcapacity := p.totalSlices_le
        change row * p.foldCapacitySlices + p.sliceSlot slice =
          row' * p.foldCapacitySlices + (p.twoLevelSlice n).2 + split at heq
        rw [Nat.add_assoc] at heq
        obtain ⟨-, hsame⟩ := TiledLaunch.stride_inj (by omega) (by omega) heq
        unfold sliceSlot at hsame
        omega
      · subst hlast
        rw [← candidates_sliceLaunch hscored hslice hrow, sliceSlot, ← Nat.add_assoc]
        exact TiledLaunch.rowOf_launch (p.sliceLaunch slice.1) hselect _ folded hfits hrow hs

theorem twoLevelTopk_eq_ok (fold final : ℕ → Slot β) :
    ∃ folded, p.twoLevelTopk select tileLogits lengths fold final = .ok folded ∧
      ∀ row < p.qRows, rowOf p.topk folded row =
        emitTopk select p.topk (p.slices.flatMap fun slice =>
          emitTopk select p.topk (p.sliceSlots (score row) (lengths row) slice)) := by
  obtain ⟨candidates, hcandidates, hslots⟩ :=
    foldChunks_eq_ok hscored hselect fold (le_refl p.numChunks)
  let t : TopkTensors β :=
    { input := fun address => (candidates address).1
      lengths := fun _ => p.totalSlices * p.topk
      carry := none
      outputPageTable :=
        some fun row col => (candidates (row * (p.foldCapacitySlices * p.topk) + col)).2 }
  let l := rowLaunch p.topk p.qRows (p.foldCapacitySlices * p.topk)
  refine ⟨l.launch select t final, ?_, ?_⟩
  · rw [twoLevelTopk, hcandidates, ok_bind, runRowTopk, validateSupportedTopk,
      decide_eq_true p.topk_mem]
    rfl
  · intro row hrow
    have hview : ((List.range (p.totalSlices * p.topk)).map fun v =>
          candidates (row * (p.foldCapacitySlices * p.topk) + v)) =
        p.slices.flatMap fun slice =>
          emitTopk select p.topk (p.sliceSlots (score row) (lengths row) slice) := by
      rw [← Nat.mul_assoc, map_range_mul, ← slices_map_sliceSlot, List.flatMap_map]
      apply List.flatMap_congr
      intro slice hslice
      exact hslots slice hslice (p.mem_slices.mp hslice).1 row hrow
    have hindex : ∀ v < p.totalSlices * p.topk,
        0 ≤ (candidates (row * (p.foldCapacitySlices * p.topk) + v)).2 ∨
          (candidates (row * (p.foldCapacitySlices * p.topk) + v)).2 = -1 := by
      intro v hv
      have hmem := List.mem_map_of_mem
        (f := fun v => candidates (row * (p.foldCapacitySlices * p.topk) + v))
        (List.mem_range.mpr hv)
      rw [hview, List.mem_flatMap] at hmem
      obtain ⟨slice, -, hslot⟩ := hmem
      rcases mem_emitTopk hselect hslot with hslot | hslot
      · obtain ⟨position, -, heq⟩ := List.mem_map.mp hslot
        rw [← heq]
        exact .inl (Int.natCast_nonneg position)
      · rw [hslot]
        exact .inr rfl
    have hlast := TiledLaunch.rowOf_launch l hselect t final le_rfl hrow Nat.one_pos
    have hblock : l.blockOf row 0 = row := Nat.mul_one row
    have hrowOf : row * l.outputRowStride + l.outputRowBase + 0 = row := Nat.mul_one row
    rw [hblock, hrowOf, candidates_rowLaunch p.topk p.qRows _ t row rfl rfl rfl
      (Nat.mul_le_mul_right _ p.totalSlices_le)] at hlast
    rw [← hview]
    refine hlast.trans (congrArg (emitTopk select p.topk) ?_)
    apply List.map_congr_left
    intro v hv
    rcases hindex v (List.mem_range.mp hv) with hreal | hpad
    · rw [if_pos hreal]
    · rw [if_neg (by omega), ← hpad]

omit hselect [LinearOrder β] in
theorem candidates_carryLaunch (hfits : p.Fits lengths) (hc : c < p.numChunks)
    (hrow : row < p.qRows) (carry : Option (ℕ → Slot β)) :
    (p.carryLaunch c).candidates (chunkTensors tileLogits lengths carry c) row =
      p.chunkSlots (score row) (lengths row) c ++ p.carriedSlots carry row := by
  have hblocked := p.carryLaunch_blocked hc
  have hend : (p.carryLaunch c).splitEnd 0 (lengths row) =
      min (lengths row) (0 + (c + 1) * p.supertileTokens) := by
    change min (lengths row) (min (p.chunkStartToken c + 0 * p.chunkWidthTokens c +
      p.chunkWidthTokens c) (p.chunkStartToken c + p.supertileKTiles * p.topkBlockK)) = _
    rw [chunkStartToken_eq, supertileKTiles_tokens, Nat.zero_mul, Nat.add_zero, ← Nat.succ_mul,
      Nat.zero_add]
    exact p.chunk_end c hc (hfits row hrow) le_rfl
  have hstart : p.chunkStartToken c = 0 + c * p.supertileTokens := by
    rw [chunkStartToken_eq, Nat.zero_add]
  have hpositions : ((List.Ico (p.chunkStartToken c)
        ((p.carryLaunch c).splitEnd 0 (lengths row))).map fun position =>
          (tileLogits c (TiledLaunch.tileAddress pagedIndexTileBlockQ p.topkBlockK
            p.supertileKTiles row (position - p.chunkStartToken c)), (position : ℤ))) =
      p.chunkSlots (score row) (lengths row) c := by
    rw [hend, chunkSlots, ← hstart]
    apply map_scored hscored hc hrow le_rfl
    · rw [chunkStartToken_eq, ← Nat.succ_mul, Nat.zero_add]
      exact min_le_right _ _
    · exact min_le_left _ _
  rw [← hpositions]
  cases carry with
  | none =>
    have hcandidates := hblocked.candidates_eq row (chunkTensors tileLogits lengths none c) rfl rfl
      Nat.one_pos
    have hblock : (p.carryLaunch c).blockOf row 0 = row := Nat.mul_one row
    have hoffset : (p.carryLaunch c).splitOffset 0 = p.chunkStartToken c := by
      change p.chunkStartToken c + 0 * _ = _
      rw [Nat.zero_mul, Nat.add_zero]
    rw [hblock, hoffset] at hcandidates
    rw [carriedSlots, List.append_nil]
    exact hcandidates
  | some out =>
    have hcandidates := hblocked.candidates_carry row (chunkTensors tileLogits lengths (some out) c)
      rfl rfl rfl
    have hslots : row * (p.carryLaunch c).outputRowStride + (p.carryLaunch c).outputRowBase = row :=
      Nat.mul_one row
    rw [hslots] at hcandidates
    exact hcandidates

theorem carryChunks_succ (hfits : p.Fits lengths) (buffers : ℕ → ℕ → Slot β) {n : ℕ}
    (hn : n < p.numChunks) {carry : Option (ℕ → Slot β)}
    (h : p.carryChunks select tileLogits lengths buffers n = .ok carry) :
    ∃ carried, p.carryChunks select tileLogits lengths buffers (n + 1) = .ok (some carried) ∧
      ∀ row < p.qRows, rowOf p.topk carried row = emitTopk select p.topk
        (p.chunkSlots (score row) (lengths row) n ++ p.carriedSlots carry row) := by
  let t := chunkTensors tileLogits lengths carry n
  have hrun : runTiledTopk select (p.carryLaunch n) t (buffers n) =
      .ok ((p.carryLaunch n).launch select t (buffers n)) :=
    runTiledTopk_eq_ok select (buffers n) p.topk_mem (fun h => absurd h (lt_irrefl 1)) rfl le_rfl
      p.supertileKTiles_pos
  refine ⟨(p.carryLaunch n).launch select t (buffers n), ?_, ?_⟩
  · rw [carryChunks, List.range_succ, List.foldlM_append]
    change (p.carryChunks select tileLogits lengths buffers n >>= _) = _
    rw [h, ok_bind, List.foldlM_cons, hrun]
    rfl
  · intro row hrow
    have hlast := TiledLaunch.rowOf_launch (p.carryLaunch n) hselect t (buffers n) le_rfl hrow
      Nat.one_pos
    have hblock : (p.carryLaunch n).blockOf row 0 = row := Nat.mul_one row
    have hslots : row * (p.carryLaunch n).outputRowStride + (p.carryLaunch n).outputRowBase + 0 =
        row := Nat.mul_one row
    rw [hblock, hslots, candidates_carryLaunch hscored hfits hn hrow] at hlast
    exact hlast

theorem carryChunks_eq_ok (hfits : p.Fits lengths) (buffers : ℕ → ℕ → Slot β) {n : ℕ}
    (hn : n < p.numChunks) :
    ∃ carried, p.carryChunks select tileLogits lengths buffers (n + 1) = .ok (some carried) ∧
      ∀ row < p.qRows, SelectsPadded Prod.fst paddedSlot p.topk
        ((List.range (n + 1)).flatMap (p.chunkSlots (score row) (lengths row)))
        (rowOf p.topk carried row) := by
  induction n with
  | zero =>
    have hstart : p.carryChunks select tileLogits lengths buffers 0 = .ok none := rfl
    obtain ⟨carried, hcarried, hslots⟩ :=
      carryChunks_succ hscored hselect hfits buffers hn hstart
    refine ⟨carried, hcarried, fun row hrow => ?_⟩
    rw [hslots row hrow, carriedSlots, List.append_nil, List.range_one, List.flatMap_singleton]
    exact selectsPadded_emitTopk hselect _
  | succ n ih =>
    obtain ⟨before, hbefore, hslots⟩ := ih (by omega)
    obtain ⟨carried, hcarried, hslots'⟩ := carryChunks_succ hscored hselect hfits buffers hn hbefore
    refine ⟨carried, hcarried, fun row hrow => ?_⟩
    rw [List.range_succ, List.flatMap_append, List.flatMap_singleton, hslots' row hrow]
    have hlast := selectsPadded_emitTopk hselect (k := p.topk)
      (p.chunkSlots (score row) (lengths row) (n + 1) ++ rowOf p.topk before row)
    exact (hslots row hrow).of_part (hlast.perm List.perm_append_comm)

omit hscored in
theorem paddedLast_slices (hties : TiesLast select) (score : ℕ → β) (length : ℕ) :
    PaddedLast (emitTopk select p.topk (p.slices.flatMap fun slice =>
      emitTopk select p.topk (p.sliceSlots score length slice))) := by
  have hreal : ∀ slice, ∀ slot ∈ p.sliceSlots score length slice, slot.1 ≠ ⊥ := by
    intro slice slot hslot
    obtain ⟨position, -, rfl⟩ := List.mem_map.mp hslot
    exact WithBot.coe_ne_bot
  have hslice : ∀ slice, PaddedLast (emitTopk select p.topk (p.sliceSlots score length slice)) := by
    intro slice
    apply paddedLast_emitTopk hselect hties
    · intro slot hslot hbot
      exact absurd hbot (hreal slice slot hslot)
    · intro _
      exact ⟨_, 0, (List.append_nil _).symm, hreal slice⟩
  apply paddedLast_emitTopk hselect hties
  · intro slot hslot hbot
    obtain ⟨slice, -, hslot⟩ := List.mem_flatMap.mp hslot
    exact (mem_emitTopk hselect hslot).resolve_left fun hmem => hreal slice slot hmem hbot
  · intro hshort
    have hpos : 0 < p.topk := by
      have hmem := p.topk_mem
      simp only [tiledSupportedTopk, List.mem_cons, List.not_mem_nil, or_false] at hmem
      omega
    -- two slices leave more slots than are kept
    match hslices : p.slices with
    | [] => exact ⟨[], 0, by simp, by simp⟩
    | [slice] =>
      rw [List.flatMap_singleton]
      exact hslice slice
    | first :: second :: rest =>
      rw [hslices, List.flatMap_cons, List.flatMap_cons, List.length_append, List.length_append,
        length_emitTopk hselect, length_emitTopk hselect] at hshort
      omega

/-- The slices of all chunks read every position of a row once and each leaves its slots in its
own place. The fold over them ends with the largest scores of the row, like the carry chain, and
with padding only where the row has no more positions. -/
theorem twoLevelTopk_exact (hfits : p.Fits lengths) (fold final : ℕ → Slot β)
    (buffers : ℕ → ℕ → Slot β) :
    (∀ row < p.qRows, (p.slices.flatMap fun slice =>
        (p.sliceLaunch slice.1).candidates (chunkTensors tileLogits lengths none slice.1)
          ((p.sliceLaunch slice.1).blockOf row slice.2)) =
      (List.range (lengths row)).map (scoredSlot (score row))) ∧
    (p.slices.map p.sliceSlot = List.range p.totalSlices ∧
      ∀ slice ∈ p.slices, ∀ row, (p.sliceLaunch slice.1).outRow
          ((p.sliceLaunch slice.1).blockOf row slice.2) =
        row * p.foldCapacitySlices + p.sliceSlot slice) ∧
    ∃ folded carried, p.twoLevelTopk select tileLogits lengths fold final = .ok folded ∧
      p.carryChunks select tileLogits lengths buffers p.numChunks = .ok (some carried) ∧
      ∀ row < p.qRows, TopkRow p.topk (score row) (lengths row) (rowOf p.topk folded row) ∧
        TopkRow p.topk (score row) (lengths row) (rowOf p.topk carried row) ∧
        ((rowOf p.topk folded row).map Prod.fst).Perm ((rowOf p.topk carried row).map Prod.fst) ∧
        (TiesLast select → PaddedLast (rowOf p.topk folded row)) := by
  refine ⟨?_, ⟨p.slices_map_sliceSlot, ?_⟩, ?_⟩
  · intro row hrow
    rw [← p.flatMap_sliceSlots (score row) (hfits row hrow)]
    apply List.flatMap_congr
    intro slice hslice
    exact candidates_sliceLaunch hscored hslice hrow
  · intro slice hslice row
    have hsplit := (p.mem_slices.mp hslice).2
    rw [(p.sliceLaunch slice.1).outRow_blockOf hsplit, sliceSlot, ← Nat.add_assoc]
    rfl
  · obtain ⟨folded, hfolded, hslots⟩ := twoLevelTopk_eq_ok hscored hselect fold final
    have hlast : p.numChunks - 1 < p.numChunks := by
      have hpos : 0 < p.numChunks := Nat.lt_of_lt_of_le Nat.one_pos (le_max_left _ _)
      omega
    obtain ⟨carried, hcarried, hchain⟩ := carryChunks_eq_ok hscored hselect hfits buffers hlast
    rw [Nat.sub_add_cancel (by omega)] at hcarried hchain
    refine ⟨folded, carried, hfolded, hcarried, fun row hrow => ?_⟩
    have hfold : TopkRow p.topk (score row) (lengths row) (rowOf p.topk folded row) := by
      apply TopkRow.of_selectsPadded
      rw [hslots row hrow, ← p.flatMap_sliceSlots (score row) (hfits row hrow)]
      have hparts : List.Forall₂ (SelectsPadded Prod.fst paddedSlot p.topk)
          (p.slices.map (p.sliceSlots (score row) (lengths row)))
          (p.slices.map fun slice =>
            emitTopk select p.topk (p.sliceSlots (score row) (lengths row) slice)) := by
        rw [List.forall₂_map_left_iff, List.forall₂_map_right_iff, List.forall₂_same]
        exact fun slice _ => selectsPadded_emitTopk hselect _
      exact .of_parts hparts (selectsPadded_emitTopk hselect _)
    have hcarry : TopkRow p.topk (score row) (lengths row) (rowOf p.topk carried row) := by
      apply TopkRow.of_selectsPadded
      rw [← p.flatMap_chunkSlots (score row) (hfits row hrow)]
      exact hchain row hrow
    refine ⟨hfold, hcarry, hfold.values_perm hcarry, fun hties => ?_⟩
    rw [hslots row hrow]
    exact paddedLast_slices hselect hties (score row) (lengths row)

end Runs

end SupertileTopk

def sortedSelect (k : ℕ) (values : List (WithBot ℕ)) : List ℕ :=
  ((List.range values.length).insertionSort fun i j =>
    values.getD j ⊥ ≤ values.getD i ⊥).take k

theorem exactSelector_sortedSelect : ExactSelector sortedSelect where
  length := by
    intro k values hk
    simp [sortedSelect, hk.le]
  nodup := by
    intro k values _
    have hperm := List.perm_insertionSort (fun i j => values.getD j ⊥ ≤ values.getD i ⊥)
      (List.range values.length)
    exact (hperm.nodup_iff.mpr List.nodup_range).sublist (List.take_sublist k _)
  lt := by
    intro k values _ i hi
    exact List.mem_range.mp ((List.mem_insertionSort _).mp (List.mem_of_mem_take hi))
  greatest := by
    intro k values _ i hi j hj hnot
    have hsorted := List.pairwise_insertionSort (fun i j => values.getD j ⊥ ≤ values.getD i ⊥)
      (List.range values.length)
    rw [← List.take_append_drop k (List.insertionSort _ _), List.pairwise_append] at hsorted
    apply hsorted.2.2 i hi j
    have hmem := (List.mem_insertionSort fun i j => values.getD j ⊥ ≤ values.getD i ⊥).mpr
      (List.mem_range.mpr hj)
    rw [← List.take_append_drop k (List.insertionSort _ _), List.mem_append] at hmem
    exact hmem.resolve_left hnot

/-- One row over a page table of three chunks. -/
def threeChunks : SupertileTopk where
  qRows := 1
  pageTableWidth := 625
  supertileTokens := 16384
  topkBlockK := 512
  topk := 512
  foldCapacitySlices := 32
  supertile_pos := by decide
  supertile_blocks := by decide
  block := .inr rfl
  topk_mem := by decide
  wide := by decide
  fits := by decide

/-- The position of the first row that the scorer leaves its score of at an address. -/
def firstRowPosition (blockQ blockK address : ℕ) : ℕ :=
  address / (blockQ * blockK) * blockK + address % (blockQ * blockK)

theorem firstRowPosition_tileAddress {blockQ blockK : ℕ} (hq : 0 < blockQ) (hk : 0 < blockK)
    (numKTiles j : ℕ) :
    firstRowPosition blockQ blockK (TiledLaunch.tileAddress blockQ blockK numKTiles 0 j) = j := by
  have haddress : TiledLaunch.tileAddress blockQ blockK numKTiles 0 j =
      j % blockK + blockQ * blockK * (j / blockK) := by
    rw [TiledLaunch.tileAddress, Nat.zero_div, Nat.zero_mul, Nat.zero_mul, Nat.zero_add,
      Nat.zero_sub, Nat.zero_mul, Nat.add_zero, Nat.add_comm, Nat.mul_comm (j / blockK)]
  have hsmall : j % blockK < blockQ * blockK :=
    (Nat.mod_lt j hk).trans_le (Nat.le_mul_of_pos_left blockK hq)
  rw [firstRowPosition, haddress, Nat.add_mul_div_left _ _ (Nat.mul_pos hq hk),
    Nat.div_eq_of_lt hsmall, Nat.zero_add, Nat.add_mul_mod_self_left, Nat.mod_eq_of_lt hsmall,
    Nat.div_add_mod']

/-- 39000 tokens, every score below 1000 many times. -/
theorem threeChunks_exact :
    ∃ tileLogits folded carried,
      threeChunks.twoLevelTopk sortedSelect tileLogits (fun _ => 39000) (fun _ => paddedSlot)
        (fun _ => paddedSlot) = .ok folded ∧
      threeChunks.carryChunks sortedSelect tileLogits (fun _ => 39000) (fun _ _ => paddedSlot) 3 =
        .ok (some carried) ∧
      TopkRow 512 (· % 1000) 39000 (rowOf 512 folded 0) ∧
      TopkRow 512 (· % 1000) 39000 (rowOf 512 carried 0) ∧
      ((rowOf 512 folded 0).map Prod.fst).Perm ((rowOf 512 carried 0).map Prod.fst) := by
  let tileLogits (c address : ℕ) : WithBot ℕ :=
    ((threeChunks.chunkStartToken c + firstRowPosition pagedIndexTileBlockQ 512 address) % 1000 : ℕ)
  have hscored : threeChunks.Scored tileLogits (fun _ position => position % 1000)
      fun _ => 39000 := by
    intro c _ row hrow j _ _
    obtain rfl : row = 0 := Nat.lt_one_iff.mp hrow
    have hposition : firstRowPosition pagedIndexTileBlockQ 512 (TiledLaunch.tileAddress
        pagedIndexTileBlockQ 512 threeChunks.supertileKTiles 0 j) = j :=
      firstRowPosition_tileAddress (by decide) (by decide) _ j
    change (((threeChunks.chunkStartToken c + firstRowPosition pagedIndexTileBlockQ 512
      (TiledLaunch.tileAddress pagedIndexTileBlockQ 512 threeChunks.supertileKTiles 0 j)) % 1000 : ℕ) :
        WithBot ℕ) = ((threeChunks.chunkStartToken c + j) % 1000 : ℕ)
    rw [hposition]
  have hfits : threeChunks.Fits fun _ => 39000 := fun _ _ => show 39000 ≤ 625 * 64 by decide
  obtain ⟨-, -, folded, carried, hfolded, hcarried, hrows⟩ :=
    SupertileTopk.twoLevelTopk_exact hscored exactSelector_sortedSelect hfits
      (fun _ => paddedSlot) (fun _ => paddedSlot) fun _ _ => paddedSlot
  obtain ⟨hrow, hrow', hperm, -⟩ := hrows 0 Nat.one_pos
  exact ⟨tileLogits, folded, carried, hfolded, hcarried, hrow, hrow', hperm⟩

end ChampionRuntime.Indexer
