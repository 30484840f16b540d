import ChampionRuntime.Indexer.RadixSelect

/-!
# When the top-k kernel is exact

Whatever the order of the threads, a block selects distinct positions of its row. Their scores
are the largest of the row exactly when the candidates that shared memory takes of the
threshold bin always suffice.
-/
namespace ChampionRuntime.Indexer

open Lib

variable {β : Type} [LinearOrder β]

section Selector

variable {keys : RadixKeys β} {order : ThreadOrder} {values : List (WithBot β)} {topk : ℕ}

theorem selects_of_suffices (hsuffice : CandidatesSuffice keys topk values)
    (order : ThreadOrder) (hlt : topk < values.length) (hcap : topk < smemCands) :
    Selects (valueAt values) topk (List.range values.length)
      (radixSelector keys order topk values) := by
  obtain ⟨t, above, chosen, heq, habove, hover, hreach, hchosen, -⟩ :=
    radixSelector_spec keys order hlt hcap
  have hinter := order.interleaved 0 .candidates (binThreads keys values t)
  have hperm := hinter.perm.trans (binThreads_perm keys values t)
  have hties : Selects (valueAt values) (topk - (aboveBin keys values t).length)
      (order.arrange 0 .candidates (binThreads keys values t)) chosen := by
    apply hchosen.of_stored (by rw [List.take_append_drop])
    intro v hv
    by_cases hrest : (aboveBin keys values t).length < topk
    · exact hsuffice t hrest hreach _ hinter v hv
    · rw [Nat.sub_eq_zero_of_le (not_lt.mp hrest)]
      exact Nat.zero_le _
  rw [heq]
  exact selects_pass (fun a _ b _ hlt => valueAt_le_of_binAt_lt hlt) habove hperm hover hreach hties

/-- The radix passes leave what equals the last selected value at the end. -/
theorem radixSelector_tiesLast (keys : RadixKeys β) (order : ThreadOrder)
    (hlt : topk < values.length) (hcap : topk < smemCands) :
    ∃ last above ties, radixSelector keys order topk values = above ++ ties ∧
      (∀ i ∈ above, last < values.getD i ⊥) ∧ ∀ i ∈ ties, values.getD i ⊥ = last := by
  obtain ⟨t, above, chosen, heq, habove, -, -, -, hends⟩ := radixSelector_spec keys order hlt hcap
  have hgreater : ∀ a ∈ above, ∀ b ∈ insideBin keys values t, valueAt values b < valueAt values a := by
    intro a ha b hb
    have hbins : binAt keys values b < binAt keys values a :=
      (of_decide_eq_true (List.mem_filter.mp hb).2).trans_lt
        (of_decide_eq_true (List.mem_filter.mp (habove.mem_iff.mp ha)).2)
    refine lt_of_le_of_ne (valueAt_le_of_binAt_lt hbins) fun hvalues => ?_
    exact hbins.ne (congrArg (fun x => (keys.bin x : ℕ)) hvalues)
  have hwhole := hends.pass (List.filter_subset_self _) hgreater
  rw [← heq] at hwhole
  obtain ⟨last, -, above', ties, hparts, habove', hties⟩ := hwhole
  exact ⟨valueAt values last, above', ties, hparts, habove', hties⟩

/-- The threads come to the candidates in a given order, and elsewhere one after the other. -/
def ThreadOrder.collecting (threads : List (List ℕ)) (collected : List ℕ)
    (h : Interleaved threads collected) : ThreadOrder where
  arrange pass counter visits :=
    if pass = 0 ∧ counter = .candidates ∧ visits = threads then collected else visits.flatten
  interleaved := by
    intro pass counter visits
    split_ifs with hfirst
    · rw [hfirst.2.2]
      exact h
    · exact interleaved_flatten visits

theorem ThreadOrder.arrange_collecting {threads : List (List ℕ)} {collected : List ℕ}
    (h : Interleaved threads collected) :
    (ThreadOrder.collecting threads collected h).arrange 0 .candidates threads = collected :=
  if_pos ⟨rfl, rfl, rfl⟩

theorem bin_unique {t t' : ℕ} (hover : (aboveBin keys values t).length ≤ topk)
    (hreach : topk < (aboveBin keys values t).length + (insideBin keys values t).length)
    (hover' : (aboveBin keys values t').length ≤ topk)
    (hreach' : topk < (aboveBin keys values t').length + (insideBin keys values t').length) :
    t = t' := by
  have hle : ∀ t, ((List.range values.length).countP fun v => t ≤ binAt keys values v) =
      (aboveBin keys values t).length + (insideBin keys values t).length :=
    countP_le_digit (binAt keys values) _
  have hsucc : ∀ t, ((List.range values.length).countP fun v => t + 1 ≤ binAt keys values v) =
      (aboveBin keys values t).length := countP_succ_le (binAt keys values) _
  rw [← hle] at hreach hreach'
  rw [← hsucc] at hover hover'
  exact threshold_unique hreach hover hreach' hover'

theorem suffices_of_selects (hlt : topk < values.length) (hcap : topk < smemCands)
    (h : ∀ order, Selects (valueAt values) topk (List.range values.length)
      (radixSelector keys order topk values)) : CandidatesSuffice keys topk values := by
  intro t hrest hreach collected hinter v hv
  have hperm := hinter.perm.trans (binThreads_perm keys values t)
  have hnodup : collected.Nodup := hperm.nodup_iff.mpr (List.nodup_range.filter _)
  obtain ⟨t', above, chosen, heq, habove, hover', hreach', hchosen, -⟩ :=
    radixSelector_spec keys (ThreadOrder.collecting _ collected hinter) hlt hcap
  obtain rfl := bin_unique hrest.le hreach hover' hreach'
  rw [ThreadOrder.arrange_collecting] at hchosen
  have hlength : chosen.length = topk - (aboveBin keys values t).length := by
    have hdrop := List.length_pos_of_mem hv
    rw [List.length_drop] at hdrop
    rw [hchosen.1, List.length_take]
    omega
  have hin : v ∈ insideBin keys values t := hperm.mem_iff.mp (List.mem_of_mem_drop hv)
  obtain ⟨hrow, hbin⟩ := List.mem_filter.mp hin
  have hout : v ∉ above ++ chosen := by
    rw [List.mem_append, not_or]
    constructor
    · intro hmem
      have hgt := of_decide_eq_true (List.mem_filter.mp (habove.mem_iff.mp hmem)).2
      exact absurd (of_decide_eq_true hbin) hgt.ne'
    · intro hmem
      have hsplit := List.take_append_drop smemCands collected ▸ hnodup
      exact (List.nodup_append.mp hsplit).2.2 v (hchosen.subset hmem) v hv rfl
  have hwhole := h (ThreadOrder.collecting _ collected hinter)
  rw [heq] at hwhole
  have hall : ∀ u ∈ chosen, valueAt values v ≤ valueAt values u := fun u hu =>
    hwhole.greatest (List.mem_append_right above hu) hrow hout
  obtain ⟨-, left, hparts, -⟩ := hchosen
  rw [hparts.countP_eq, List.countP_append, List.countP_eq_length.mpr, hlength]
  · exact Nat.le_add_right _ _
  · exact fun u hu => decide_eq_true (hall u hu)

end Selector

namespace TiledLaunch

variable (l : TiledLaunch) (t : TopkTensors β) (bid : ℕ)

/-- The scores of a block, its own positions first and the carried ones after them. -/
def rowValues : List (WithBot β) := (List.range (l.totalLen t bid)).map (l.loadValueVirtual t bid)

def selected (select : RadixSelector β) : List ℕ :=
  if l.topk < l.totalLen t bid then select l.topk (l.rowValues t bid)
  else List.range (l.totalLen t bid)

def slotAt (vidx : ℕ) : Slot β := (l.loadValueVirtual t bid vidx, l.emitGlobalIndexVirtual t bid vidx)

/-- A block selects distinct positions with the largest scores, and writes them and padding. -/
structure ExactRow (select : RadixSelector β) : Prop where
  nodup : (l.selected t bid select).Nodup
  inside : ∀ v ∈ l.selected t bid select, v < l.totalLen t bid
  scores : ((l.selected t bid select).map (l.loadValueVirtual t bid)).Perm
    (topValues (l.loadValueVirtual t bid) l.topk (List.range (l.totalLen t bid)))
  written : l.kernel t bid select = (l.selected t bid select).map (l.slotAt t bid) ++
    List.replicate (l.topk - (l.selected t bid select).length) paddedSlot
  short : l.totalLen t bid ≤ l.topk → l.selected t bid select = List.range (l.totalLen t bid)

/-- A block is exact in every order of its threads, and two orders differ in equal scores only. -/
structure RowContract (keys : RadixKeys β) : Prop where
  exact : ∀ order, l.ExactRow t bid (radixSelector keys order)
  independent : ∀ order order' v u,
    v ∈ l.selected t bid (radixSelector keys order) →
    v ∉ l.selected t bid (radixSelector keys order') →
    u ∈ l.selected t bid (radixSelector keys order') →
    u ∉ l.selected t bid (radixSelector keys order) →
    l.loadValueVirtual t bid v = l.loadValueVirtual t bid u

variable {l t bid} {select : RadixSelector β}

omit [LinearOrder β] in
theorem length_rowValues : (l.rowValues t bid).length = l.totalLen t bid := by
  simp [rowValues]

omit [LinearOrder β] in
theorem valueAt_rowValues {v : ℕ} (hv : v < l.totalLen t bid) :
    valueAt (l.rowValues t bid) v = l.loadValueVirtual t bid v := by
  rw [valueAt, List.getD_eq_getElem _ _ (by rwa [length_rowValues])]
  simp [rowValues]

theorem selects_range_congr {kept : List ℕ} :
    Selects (valueAt (l.rowValues t bid)) l.topk (List.range (l.totalLen t bid)) kept ↔
      Selects (l.loadValueVirtual t bid) l.topk (List.range (l.totalLen t bid)) kept := by
  have hvalue : ∀ v ∈ List.range (l.totalLen t bid),
      valueAt (l.rowValues t bid) v = l.loadValueVirtual t bid v :=
    fun v hv => valueAt_rowValues (List.mem_range.mp hv)
  constructor
  · intro h
    simpa using h.map (l.loadValueVirtual t bid) id fun v hv => (hvalue v hv).symm
  · intro h
    simpa using h.map (valueAt (l.rowValues t bid)) id hvalue

theorem exactRow_of_selects
    (h : Selects (l.loadValueVirtual t bid) l.topk (List.range (l.totalLen t bid))
      (l.selected t bid select)) : l.ExactRow t bid select where
  nodup := h.nodup List.nodup_range
  inside := fun v hv => List.mem_range.mp (h.subset hv)
  scores := h.values
  written := by
    have hlength := h.1
    rw [List.length_range] at hlength
    unfold kernel
    unfold selected at hlength ⊢
    split_ifs at hlength ⊢ with hlong
    · rw [hlength, min_eq_left hlong.le, Nat.sub_self, List.replicate_zero, List.append_nil]
      rfl
    · rw [List.length_range]
      apply List.ext_getElem
      · simp only [List.length_map, List.length_append, List.length_range, List.length_replicate]
        omega
      · intro i hi hi'
        simp only [List.getElem_map, List.getElem_range]
        by_cases hin : i < l.totalLen t bid
        · rw [if_pos hin, List.getElem_append_left (by simpa using hin)]
          simp [slotAt]
        · rw [if_neg hin, List.getElem_append_right (by simpa using hin)]
          simp
  short := fun hshort => if_neg (not_lt.mpr hshort)

theorem ExactRow.selects (h : l.ExactRow t bid select) :
    Selects (l.loadValueVirtual t bid) l.topk (List.range (l.totalLen t bid))
      (l.selected t bid select) :=
  .of_values h.nodup (fun v hv => List.mem_range.mpr (h.inside v hv)) h.scores

theorem ExactRow.exchange {select' : RadixSelector β} (h : l.ExactRow t bid select)
    (h' : l.ExactRow t bid select') {v u : ℕ} (hv : v ∈ l.selected t bid select)
    (hv' : v ∉ l.selected t bid select') (hu : u ∈ l.selected t bid select')
    (hu' : u ∉ l.selected t bid select) :
    l.loadValueVirtual t bid v = l.loadValueVirtual t bid u := by
  apply le_antisymm
  · exact h'.selects.greatest hu (List.mem_range.mpr (h.inside v hv)) hv'
  · exact h.selects.greatest hv (List.mem_range.mpr (h'.inside u hu)) hu'

theorem topk_lt_smemCands (htopk : l.topk ∈ tiledSupportedTopk) : l.topk < smemCands := by
  have hall : ∀ k ∈ tiledSupportedTopk, k < smemCands := by decide
  exact hall l.topk htopk

theorem exactRow_of_suffices {keys : RadixKeys β} (htopk : l.topk ∈ tiledSupportedTopk)
    (hsuffice : CandidatesSuffice keys l.topk (l.rowValues t bid)) (order : ThreadOrder) :
    l.ExactRow t bid (radixSelector keys order) := by
  apply exactRow_of_selects
  unfold selected
  split_ifs with hlong
  · have h := selects_of_suffices hsuffice order (by rwa [length_rowValues])
      (topk_lt_smemCands htopk)
    rw [length_rowValues] at h
    exact selects_range_congr.mp h
  · exact .of_le (by simpa using hlong)

theorem suffices_of_exactRow {keys : RadixKeys β} (htopk : l.topk ∈ tiledSupportedTopk)
    (hexact : ∀ order, l.ExactRow t bid (radixSelector keys order)) :
    CandidatesSuffice keys l.topk (l.rowValues t bid) := by
  by_cases hlong : l.topk < l.totalLen t bid
  · apply suffices_of_selects (by rwa [length_rowValues]) (topk_lt_smemCands htopk)
    intro order
    have h := (hexact order).selects
    rw [selected, if_pos hlong] at h
    rw [length_rowValues]
    exact selects_range_congr.mpr h
  · -- a short row passes the size at no bin
    intro bin _ hreach
    have hsize := (filter_digit_perm (binAt keys (l.rowValues t bid))
      (List.range (l.rowValues t bid).length) bin).length_eq
    simp only [List.length_append, List.length_range, length_rowValues] at hsize
    simp only [aboveBin, insideBin, length_rowValues] at hreach
    omega

/-- The kernel keeps its contract on a row exactly when the candidates that shared memory
takes suffice in every order. -/
theorem rowContract_iff (keys : RadixKeys β) (l : TiledLaunch) (t : TopkTensors β) (bid : ℕ)
    (htopk : l.topk ∈ tiledSupportedTopk) :
    l.RowContract t bid keys ↔ CandidatesSuffice keys l.topk (l.rowValues t bid) := by
  constructor
  · intro h
    exact suffices_of_exactRow htopk h.exact
  · intro hsuffice
    have hexact := exactRow_of_suffices htopk hsuffice
    refine ⟨hexact, fun order order' v u hv hv' hu hu' => ?_⟩
    exact (hexact order).exchange (hexact order') hv hv' hu hu'

end TiledLaunch

/-- The rank of a score, above `-inf`. -/
def scoreRank : WithBot (Fin 2) → ℕ
  | none => 0
  | some score => score.val + 1

theorem scoreRank_strictMono : StrictMono scoreRank := by
  intro a b h
  cases a with
  | bot =>
    cases b with
    | bot => exact absurd h (lt_irrefl _)
    | coe b => exact Nat.succ_pos _
  | coe a =>
    cases b with
    | bot => exact absurd h not_lt_bot
    | coe b =>
      have hlt : a < b := WithBot.coe_lt_coe.mp h
      exact Nat.succ_lt_succ hlt

theorem scoreRank_small (a : WithBot (Fin 2)) : scoreRank a < 2 ^ 32 := by
  cases a with
  | bot => exact Nat.pow_pos (by decide)
  | coe score => exact (Nat.succ_lt_succ score.isLt).trans (by decide)

/-- Scores like `1.0` and `1.001`, whose half-precision patterns have the same upper byte. -/
def sameBinKeys : RadixKeys (Fin 2) where
  bin := fun _ => 0
  key := fun score => ⟨scoreRank score, scoreRank_small score⟩
  bin_mono := fun _ _ _ => le_rfl
  key_strictMono := fun _ _ h => scoreRank_strictMono h

/-- A row with the larger score at one position. -/
def peakRow (width peak : ℕ) : TopkTensors (Fin 2) where
  input address := ((if address = peak then 1 else 0 : Fin 2) : WithBot (Fin 2))
  lengths := fun _ => width
  carry := none
  outputPageTable := none

theorem clip_rowLaunch (topk numQRows width : ℕ) :
    (rowLaunch topk numQRows width).clip 0 width = (0, width) := by
  simp only [TiledLaunch.clip, TiledLaunch.splitOffset, rowLaunch, Bool.false_eq_true, if_false]
  split_ifs
  all_goals apply Prod.ext <;> dsimp only <;> omega

theorem totalLen_peakRow (width peak : ℕ) :
    (rowLaunch 512 1 width).totalLen (peakRow width peak) 0 = width :=
  congrArg Prod.snd (clip_rowLaunch 512 1 width)

theorem load_peakRow (width peak v : ℕ) :
    (rowLaunch 512 1 width).loadValueVirtual (peakRow width peak) 0 v =
      ((if v = peak then 1 else 0 : Fin 2) : WithBot (Fin 2)) := by
  change (peakRow width peak).input ((rowLaunch 512 1 width).inputAddress
    ((rowLaunch 512 1 width).rowBase 0) (((rowLaunch 512 1 width).clip 0 width).1 + v)) = _
  rw [clip_rowLaunch]
  simp [peakRow, TiledLaunch.inputAddress, TiledLaunch.rowBase, TiledLaunch.dataBid, rowLaunch]

section Peak

variable {width peak : ℕ}

theorem aboveBin_peakRow : aboveBin sameBinKeys
    ((rowLaunch 512 1 width).rowValues (peakRow width peak) 0) 0 = [] := by
  rw [aboveBin, List.filter_eq_nil_iff]
  intro v _ h
  exact absurd (of_decide_eq_true h) (Nat.lt_irrefl 0)

theorem insideBin_peakRow : insideBin sameBinKeys
    ((rowLaunch 512 1 width).rowValues (peakRow width peak) 0) 0 = List.range width := by
  rw [insideBin, TiledLaunch.length_rowValues, totalLen_peakRow, List.filter_eq_self]
  intro v _
  exact decide_eq_true rfl

theorem flatten_binThreads_peakRow : ∃ before, (binThreads sameBinKeys
    ((rowLaunch 512 1 4097).rowValues (peakRow 4097 4095) 0) 0).flatten = before ++ [4095] := by
  have hvisit : scanFrom 4097 1023 = [1023, 2047, 3071, 4095] := by
    rw [scanFrom_eq]
    simp [strideFrom, threadsPerCta]
  have hthreads : rowThreads 4097 =
      (List.range 1023).map (scanFrom 4097) ++ [[1023, 2047, 3071, 4095]] := by
    have hrange : List.range threadsPerCta = List.range 1023 ++ [1023] := List.range_succ
    rw [rowThreads, hrange, List.map_append, List.map_singleton, hvisit]
  have hlength : ((rowLaunch 512 1 4097).rowValues (peakRow 4097 4095) 0).length = 4097 := by
    rw [TiledLaunch.length_rowValues, totalLen_peakRow]
  have hlast : (([[1023, 2047, 3071, 4095]] : List (List ℕ)).map fun thread =>
      thread.filter fun v => binAt sameBinKeys
        ((rowLaunch 512 1 4097).rowValues (peakRow 4097 4095) 0) v = 0).flatten =
      [1023, 2047, 3071] ++ [4095] := rfl
  rw [binThreads, hlength, hthreads, List.map_append, List.flatten_append, hlast,
    ← List.append_assoc]
  exact ⟨_, rfl⟩

theorem suffices_fails_peakRow : ¬CandidatesSuffice sameBinKeys 512
    ((rowLaunch 512 1 4097).rowValues (peakRow 4097 4095) 0) := by
  intro hsuffice
  obtain ⟨before, hbefore⟩ := flatten_binThreads_peakRow
  have hinter := interleaved_flatten (binThreads sameBinKeys
    ((rowLaunch 512 1 4097).rowValues (peakRow 4097 4095) 0) 0)
  have hperm := binThreads_perm sameBinKeys
    ((rowLaunch 512 1 4097).rowValues (peakRow 4097 4095) 0) 0
  rw [insideBin_peakRow, hbefore] at hperm
  rw [hbefore] at hinter
  have hlength : before.length = 4096 := by
    have hsize := hperm.length_eq
    rw [List.length_append, List.length_range] at hsize
    simpa using hsize
  have hnodup := hperm.nodup_iff.mpr List.nodup_range
  have hdrop : (before ++ [4095]).drop smemCands = [4095] := List.drop_left' hlength
  have htake : (before ++ [4095]).take smemCands = before := List.take_left' hlength
  have h := hsuffice 0 (by simp [aboveBin_peakRow]) (by simp [aboveBin_peakRow, insideBin_peakRow])
    _ hinter 4095 (by simp [hdrop])
  have hvalue : ∀ v < 4097, valueAt ((rowLaunch 512 1 4097).rowValues (peakRow 4097 4095) 0) v =
      ((if v = 4095 then 1 else 0 : Fin 2) : WithBot (Fin 2)) := by
    intro v hv
    rw [TiledLaunch.valueAt_rowValues (by rwa [totalLen_peakRow]), load_peakRow]
  rw [htake, aboveBin_peakRow, List.countP_eq_zero.mpr] at h
  · exact absurd h (by decide)
  · intro v hv hle
    have hmem : v ∈ before ++ [4095] := List.mem_append_left _ hv
    have hlt : v < 4097 := List.mem_range.mp (hperm.mem_iff.mp hmem)
    have hne : v ≠ 4095 := by
      rintro rfl
      exact (List.nodup_append.mp hnodup).2.2 4095 hv 4095 (by simp) rfl
    have hle := of_decide_eq_true hle
    rw [hvalue v hlt, hvalue 4095 (by decide), if_neg hne, if_pos rfl] at hle
    exact absurd hle (by decide)

end Peak

/-- One score above 4096 others in its bin is reserved last and dropped. -/
theorem larger_score_dropped :
    ¬(rowLaunch 512 1 4097).RowContract (peakRow 4097 4095) 0 sameBinKeys := by
  intro h
  exact suffices_fails_peakRow (TiledLaunch.suffices_of_exactRow (by decide) h.exact)

/-- A bin of 600 scores fits. -/
theorem row_of_600_exact : (rowLaunch 512 1 600).RowContract (peakRow 600 7) 0 sameBinKeys := by
  apply (TiledLaunch.rowContract_iff sameBinKeys (rowLaunch 512 1 600) (peakRow 600 7) 0
    (by decide)).mpr
  apply candidatesSuffice_of_le
  intro t _ _
  have hle := List.length_filter_le
    (fun v => decide (binAt sameBinKeys ((rowLaunch 512 1 600).rowValues (peakRow 600 7) 0) v = t))
    (List.range ((rowLaunch 512 1 600).rowValues (peakRow 600 7) 0).length)
  rw [List.length_range, TiledLaunch.length_rowValues, totalLen_peakRow] at hle
  rw [insideBin, TiledLaunch.length_rowValues, totalLen_peakRow]
  exact hle.trans (by decide)

end ChampionRuntime.Indexer
