import ChampionRuntime.Lib.Selection
import Mathlib.Algebra.BigOperators.Intervals

/-!
# Selection by digits

The histogram of a digit, summed from above, shows at which digit a selection of
the largest elements ends. The elements above that digit are all selected, those
below it are not, and a selection is left to be made among those that have it.
-/
namespace ChampionRuntime.Lib

variable {α : Type*} {digit : α → ℕ} {l kept : List α} {k width : ℕ}

def histogram (digit : α → ℕ) (l : List α) (b : ℕ) : ℕ := l.countP fun a => digit a = b

/-- Every counter takes in the one `step` above it. -/
def scanStage (width step : ℕ) (counts : ℕ → ℕ) (i : ℕ) : ℕ :=
  if i < width - step then counts i + counts (i + step) else counts i

/-- The sums from above, in stages of doubling steps. -/
def suffixScan (width stages : ℕ) (counts : ℕ → ℕ) : ℕ → ℕ :=
  (List.range stages).foldl (fun counts stage => scanStage width (2 ^ stage) counts) counts

theorem suffixScan_succ (width stages : ℕ) (counts : ℕ → ℕ) :
    suffixScan width (stages + 1) counts =
      scanStage width (2 ^ stages) (suffixScan width stages counts) := by
  rw [suffixScan, List.range_succ, List.foldl_append]
  rfl

theorem suffixScan_eq_sum {counts : ℕ → ℕ} (hzero : ∀ i, width ≤ i → counts i = 0)
    (stages i : ℕ) :
    suffixScan width stages counts i = ∑ x ∈ Finset.range (2 ^ stages), counts (i + x) := by
  induction stages generalizing i with
  | zero => simp [suffixScan]
  | succ stages ih =>
    have hpow : 2 ^ (stages + 1) = 2 ^ stages + 2 ^ stages := by rw [pow_succ]; omega
    rw [suffixScan_succ, scanStage, ih, ih, hpow, Finset.sum_range_add]
    split_ifs with hinside
    · simp only [Nat.add_assoc]
    · have hbeyond : ∑ x ∈ Finset.range (2 ^ stages), counts (i + (2 ^ stages + x)) = 0 := by
        apply Finset.sum_eq_zero
        intro x _
        exact hzero _ (by omega)
      rw [hbeyond, Nat.add_zero]

theorem sum_histogram (n i : ℕ) (hlt : ∀ a ∈ l, digit a < i + n) :
    ∑ x ∈ Finset.range n, histogram digit l (i + x) = l.countP fun a => i ≤ digit a := by
  induction l with
  | nil => simp [histogram]
  | cons a l ih =>
    obtain ⟨ha, hl⟩ := List.forall_mem_cons.mp hlt
    have hone : ∑ x ∈ Finset.range n, (if digit a = i + x then 1 else 0) =
        if i ≤ digit a then 1 else 0 := by
      split_ifs with hle
      · rw [Finset.sum_eq_single (digit a - i)]
        · rw [if_pos (by omega)]
        · intro x _ hne
          exact if_neg (by omega)
        · intro hout
          exact absurd (Finset.mem_range.mpr (by omega)) hout
      · apply Finset.sum_eq_zero
        intro x _
        exact if_neg (by omega)
    have hsplit : ∀ x, histogram digit (a :: l) (i + x) =
        histogram digit l (i + x) + if digit a = i + x then 1 else 0 := by
      intro x
      simp [histogram, List.countP_cons]
    simp only [hsplit, Finset.sum_add_distrib, ih hl, hone, List.countP_cons, decide_eq_true_eq]

theorem suffixScan_histogram {stages : ℕ} (hstages : width ≤ 2 ^ stages)
    (hdigit : ∀ a ∈ l, digit a < width) (i : ℕ) :
    suffixScan width stages (histogram digit l) i = l.countP fun a => i ≤ digit a := by
  have hzero : ∀ j, width ≤ j → histogram digit l j = 0 := by
    intro j hj
    rw [histogram, List.countP_eq_zero]
    intro a ha hequal
    have hlt := hdigit a ha
    have heq := of_decide_eq_true hequal
    omega
  rw [suffixScan_eq_sum hzero]
  apply sum_histogram
  intro a ha
  have hlt := hdigit a ha
  omega

/-- The digit from which on there are more than `k` elements, but not above it. -/
def threshold (width k : ℕ) (counts : ℕ → ℕ) : ℕ :=
  ((List.range width).find? fun i => k < counts i && counts (i + 1) ≤ k).getD 0

theorem threshold_spec {counts : ℕ → ℕ} (hfirst : k < counts 0) (hlast : counts width ≤ k) :
    threshold width k counts < width ∧ k < counts (threshold width k counts) ∧
      counts (threshold width k counts + 1) ≤ k := by
  have hsome : ((List.range width).find? fun i => k < counts i && counts (i + 1) ≤ k).isSome := by
    rw [List.find?_isSome]
    have hexists : ∃ i, counts i ≤ k := ⟨width, hlast⟩
    have hpos : Nat.find hexists ≠ 0 := by
      intro hzero
      have hle := Nat.find_spec hexists
      rw [hzero] at hle
      omega
    obtain ⟨i, hi⟩ := Nat.exists_eq_succ_of_ne_zero hpos
    have hwidth : Nat.find hexists ≤ width := Nat.find_min' hexists hlast
    have hbefore := Nat.find_min hexists (m := i) (by omega)
    have hafter := Nat.find_spec hexists
    rw [hi] at hafter
    refine ⟨i, List.mem_range.mpr (by omega), ?_⟩
    simp only [Bool.and_eq_true, decide_eq_true_eq]
    exact ⟨not_le.mp hbefore, hafter⟩
  obtain ⟨i, hi⟩ := Option.isSome_iff_exists.mp hsome
  have hmem := List.mem_range.mp (List.mem_of_find?_eq_some hi)
  have hcond := List.find?_some hi
  simp only [Bool.and_eq_true, decide_eq_true_eq] at hcond
  rw [threshold, hi]
  exact ⟨hmem, hcond⟩

theorem countP_le_of_le (digit : α → ℕ) (l : List α) {i j : ℕ} (h : i ≤ j) :
    (l.countP fun a => j ≤ digit a) ≤ l.countP fun a => i ≤ digit a := by
  apply List.countP_mono_left
  intro a _ hle
  have := of_decide_eq_true hle
  exact decide_eq_true (by omega)

theorem threshold_unique {i j : ℕ} (hi : k < l.countP fun a => i ≤ digit a)
    (hi' : (l.countP fun a => i + 1 ≤ digit a) ≤ k) (hj : k < l.countP fun a => j ≤ digit a)
    (hj' : (l.countP fun a => j + 1 ≤ digit a) ≤ k) : i = j := by
  rcases Nat.lt_trichotomy i j with hlt | heq | hgt
  · have hle := countP_le_of_le digit l (show i + 1 ≤ j from hlt)
    omega
  · exact heq
  · have hle := countP_le_of_le digit l (show j + 1 ≤ i from hgt)
    omega

section Selects

variable {β : Type*} [LinearOrder β] {value : α → β} {t : ℕ}

theorem filter_digit_perm (digit : α → ℕ) (l : List α) (t : ℕ) :
    l.Perm (l.filter (fun a => t < digit a) ++ (l.filter (fun a => digit a = t) ++
      l.filter fun a => digit a < t)) := by
  have hsplit := (List.filter_append_perm (fun a => decide (t < digit a)) l).symm
  have hrest := (List.filter_append_perm (fun a => decide (digit a = t))
    (l.filter fun a => !decide (t < digit a))).symm
  rw [List.filter_filter, List.filter_filter] at hrest
  have hequal : (l.filter fun a => decide (digit a = t) && !decide (t < digit a)) =
      l.filter fun a => digit a = t := by
    apply List.filter_congr
    intro a _
    by_cases heq : digit a = t <;> simp [heq]
  have hbelow : (l.filter fun a => !decide (digit a = t) && !decide (t < digit a)) =
      l.filter fun a => digit a < t := by
    apply List.filter_congr
    intro a _
    rw [Bool.eq_iff_iff]
    simp only [Bool.and_eq_true, Bool.not_eq_true', decide_eq_false_iff_not, decide_eq_true_eq]
    omega
  rw [hequal, hbelow] at hrest
  exact hsplit.trans (hrest.append_left _)

/-- A selection is made of what is above a digit and a selection among what has it. -/
theorem Selects.of_digit (hdigit : ∀ a ∈ l, ∀ b ∈ l, digit b < digit a → value b ≤ value a)
    (habove : (l.filter fun a => t < digit a).length ≤ k)
    (hreach : k ≤ (l.filter fun a => t < digit a).length + (l.filter fun a => digit a = t).length)
    (h : Selects value (k - (l.filter fun a => t < digit a).length)
      (l.filter fun a => digit a = t) kept) :
    Selects value k l (l.filter (fun a => t < digit a) ++ kept) := by
  obtain ⟨hlength, left, hperm, hle⟩ := h
  have hall := filter_digit_perm digit l t
  have hsize := hall.length_eq
  simp only [List.length_append] at hsize
  refine ⟨?_, left ++ l.filter fun a => digit a < t, ?_, ?_⟩
  · rw [List.length_append, hlength]
    omega
  · calc l.Perm _ := hall
      _ |>.Perm (l.filter (fun a => t < digit a) ++ ((kept ++ left) ++
          l.filter fun a => digit a < t)) := (hperm.append_right _).append_left _
      _ |>.Perm _ := by simp only [List.append_assoc]; exact .refl _
  · have hties : ∀ a ∈ kept ++ left, a ∈ l ∧ digit a = t := by
      intro a ha
      simpa using hperm.mem_iff.mpr ha
    intro a ha b hb
    rcases List.mem_append.mp ha with ha | ha
    · obtain ⟨hal, hat⟩ := List.mem_filter.mp ha
      have hat := of_decide_eq_true hat
      rcases List.mem_append.mp hb with hb | hb
      · obtain ⟨hbl, hbt⟩ := hties b (List.mem_append_right _ hb)
        exact hdigit a hal b hbl (by omega)
      · obtain ⟨hbl, hbt⟩ := List.mem_filter.mp hb
        have hbt := of_decide_eq_true hbt
        exact hdigit a hal b hbl (by omega)
    · obtain ⟨hal, hat⟩ := hties a (List.mem_append_left _ ha)
      rcases List.mem_append.mp hb with hb | hb
      · exact hle a ha b hb
      · obtain ⟨hbl, hbt⟩ := List.mem_filter.mp hb
        have hbt := of_decide_eq_true hbt
        exact hdigit a hal b hbl (by omega)

theorem Selects.take (hequal : ∀ a ∈ l, ∀ b ∈ l, value b ≤ value a) :
    Selects value k l (l.take k) := by
  refine ⟨List.length_take, l.drop k, by rw [List.take_append_drop], ?_⟩
  intro a ha b hb
  exact hequal a (List.mem_of_mem_take ha) b (List.mem_of_mem_drop hb)

theorem Selects.zero (l : List α) : Selects value 0 l [] :=
  ⟨by simp, l, .refl _, by simp⟩

theorem Selects.of_stored {stored dropped : List α} (h : Selects value k stored kept)
    (hperm : l.Perm (stored ++ dropped))
    (henough : ∀ b ∈ dropped, k ≤ stored.countP fun a => value b ≤ value a) :
    Selects value k l kept := by
  obtain ⟨hlength, left, hparts, hle⟩ := h
  refine ⟨?_, left ++ dropped, ?_, ?_⟩
  · rw [hlength, hperm.length_eq, List.length_append]
    cases dropped with
    | nil => simp
    | cons b dropped =>
      have hk := (henough b List.mem_cons_self).trans List.countP_le_length
      omega
  · calc l.Perm _ := hperm
      _ |>.Perm ((kept ++ left) ++ dropped) := hparts.append_right _
      _ |>.Perm _ := by rw [List.append_assoc]
  · intro a ha b hb
    rcases List.mem_append.mp hb with hb | hb
    · exact hle a ha b hb
    · -- were `a` smaller, only the other kept elements could be no smaller than `b`
      by_contra hsmall
      have hcount := hparts.countP_eq fun c => decide (value b ≤ value c)
      have hk := henough b hb
      rw [hcount, List.countP_append] at hk
      have hleft : left.countP (fun c => decide (value b ≤ value c)) = 0 := by
        rw [List.countP_eq_zero]
        intro c hc hbc
        exact hsmall ((of_decide_eq_true hbc).trans (hle a ha c hc))
      have hkept : kept.countP (fun c => decide (value b ≤ value c)) < kept.length := by
        apply lt_of_le_of_ne List.countP_le_length
        intro hall
        exact hsmall (of_decide_eq_true (List.countP_eq_length.mp hall a ha))
      omega

theorem Selects.of_values (hnodup : kept.Nodup) (hsubset : kept ⊆ l)
    (hvalues : (kept.map value).Perm (topValues value k l)) : Selects value k l kept := by
  obtain ⟨left, hparts⟩ : ∃ left, l.Perm (kept ++ left) := by
    obtain ⟨sub, hsub, hsublist⟩ := hnodup.subperm hsubset
    obtain ⟨rest, hrest⟩ := hsublist.exists_perm_append
    exact ⟨rest, hrest.trans (hsub.append_right rest)⟩
  have hsort := List.perm_insertionSort (· ≥ ·) (l.map value)
  have hsorted := List.pairwise_insertionSort (· ≥ ·) (l.map value)
  have hlength := hvalues.length_eq
  rw [List.length_map, topValues, List.length_take, List.length_insertionSort, List.length_map]
    at hlength
  refine ⟨hlength, left, hparts, ?_⟩
  have hleft : (left.map value).Perm (((l.map value).insertionSort (· ≥ ·)).drop k) := by
    have hwhole : (kept.map value ++ left.map value).Perm
        (topValues value k l ++ ((l.map value).insertionSort (· ≥ ·)).drop k) := by
      rw [← List.map_append, topValues, List.take_append_drop]
      exact ((hparts.map value).symm).trans hsort.symm
    exact (List.perm_append_left_iff _).mp (hwhole.trans (hvalues.symm.append_right _))
  intro a ha b hb
  rw [← List.take_append_drop k ((l.map value).insertionSort (· ≥ ·))] at hsorted
  apply (List.pairwise_append.mp hsorted).2.2
  · exact hvalues.mem_iff.mp (List.mem_map_of_mem ha)
  · exact hleft.mem_iff.mp (List.mem_map_of_mem hb)

theorem Selects.greatest (h : Selects value k l kept) {a b : α} (ha : a ∈ kept) (hb : b ∈ l)
    (hout : b ∉ kept) : value b ≤ value a := by
  obtain ⟨-, left, hparts, hle⟩ := h
  rcases List.mem_append.mp (hparts.mem_iff.mp hb) with hmem | hmem
  · exact absurd hmem hout
  · exact hle a ha b hmem

theorem Selects.nodup (h : Selects value k l kept) (hl : l.Nodup) : kept.Nodup := by
  obtain ⟨-, left, hparts, -⟩ := h
  exact (List.nodup_append.mp (hparts.nodup_iff.mp hl)).1

end Selects

/-- Lists merged, each one in its own order. -/
structure Interleaved (threads : List (List α)) (merged : List α) : Prop where
  perm : merged.Perm threads.flatten
  sublist : ∀ thread ∈ threads, thread.Sublist merged

theorem interleaved_flatten (threads : List (List α)) : Interleaved threads threads.flatten :=
  ⟨.refl _, fun _ hmem => List.sublist_flatten_of_mem hmem⟩

end ChampionRuntime.Lib
