import Mathlib.Algebra.BigOperators.Intervals
import Mathlib.Algebra.Order.Floor.Div
import Mathlib.Data.List.Intervals
import Mathlib.Data.Nat.Cast.Order.Ring

/-!
# Chunks cut into slices

A row of `width` cells is cut into chunks of `size` cells, and each chunk into
slices of at most `slice` cells. No slice crosses a chunk, so a row takes more
slices than its width alone asks for.
-/
namespace ChampionRuntime.Lib

/-- The cells of a chunk; the last one may be shorter. -/
def chunkLen (width size c : ℕ) : ℕ := min ((c + 1) * size) width - c * size

theorem chunkLen_full {width size c : ℕ} (h : (c + 1) * size ≤ width) :
    chunkLen width size c = size := by
  rw [chunkLen, min_eq_left h, Nat.succ_mul]
  omega

theorem chunkLen_last (width size : ℕ) (hsize : 0 < size) :
    chunkLen width size (width / size) = width % size := by
  have hlt := Nat.lt_div_mul_add (a := width) hsize
  have hdiv := Nat.div_add_mod' width size
  rw [chunkLen, Nat.succ_mul, min_eq_right hlt.le]
  omega

theorem ceilDiv_mul_right {k : ℕ} (hk : 0 < k) (a : ℕ) {b : ℕ} (hb : 0 < b) :
    (a * k) ⌈/⌉ (b * k) = a ⌈/⌉ b := by
  apply eq_of_forall_ge_iff
  intro c
  rw [ceilDiv_le_iff_le_mul (Nat.mul_pos hb hk), ceilDiv_le_iff_le_mul hb, Nat.mul_right_comm,
    Nat.mul_le_mul_right_iff hk]

theorem ceilDiv_pos {a b : ℕ} (ha : 0 < a) (hb : 0 < b) : 0 < a ⌈/⌉ b := by
  by_contra hzero
  have hle := (ceilDiv_le_iff_le_mul (α := ℕ) (b := a) (c := 0) hb).mp (by omega)
  omega

theorem ceilDiv_eq (width : ℕ) {size : ℕ} (hsize : 0 < size) :
    width ⌈/⌉ size = width / size + if width % size = 0 then 0 else 1 := by
  have hdiv := Nat.div_add_mod' width size
  have hlt := Nat.mod_lt width hsize
  apply eq_of_forall_ge_iff
  intro c
  rw [ceilDiv_le_iff_le_mul hsize]
  split_ifs with hzero
  · rw [Nat.add_zero, Nat.mul_comm size c]
    rw [hzero, Nat.add_zero] at hdiv
    nth_rewrite 1 [← hdiv]
    exact Nat.mul_le_mul_right_iff hsize
  · rw [← Nat.lt_iff_add_one_le, Nat.div_lt_iff_lt_mul hsize, Nat.mul_comm size c]
    constructor
    · intro hle
      refine lt_of_le_of_ne hle ?_
      rintro rfl
      exact hzero (Nat.mul_mod_left c size)
    · exact Nat.le_of_lt

theorem sum_slices {width size slice : ℕ} (hwidth : 0 < width) (hsize : 0 < size)
    (hslice : 0 < slice) :
    ∑ c ∈ Finset.range (max 1 (width ⌈/⌉ size)), max 1 (chunkLen width size c ⌈/⌉ slice) =
      width / size * (size ⌈/⌉ slice) + (width % size) ⌈/⌉ slice := by
  have hchunks : 0 < width ⌈/⌉ size := ceilDiv_pos hwidth hsize
  have hfull : ∀ c ∈ Finset.range (width / size),
      max 1 (chunkLen width size c ⌈/⌉ slice) = size ⌈/⌉ slice := by
    intro c hc
    have hle : (c + 1) * size ≤ width :=
      (Nat.mul_le_mul_right size (Finset.mem_range.mp hc)).trans (Nat.div_mul_le_self width size)
    rw [chunkLen_full hle]
    exact max_eq_right (ceilDiv_pos hsize hslice)
  rw [max_eq_right hchunks, ceilDiv_eq width hsize]
  by_cases hzero : width % size = 0
  · rw [if_pos hzero, Nat.add_zero, Finset.sum_congr rfl hfull, hzero]
    simp
  · rw [if_neg hzero, Finset.sum_range_succ, Finset.sum_congr rfl hfull, chunkLen_last _ _ hsize,
      max_eq_right (ceilDiv_pos (Nat.pos_of_ne_zero hzero) hslice)]
    simp

/-- What `count` slices hold when a chunk takes `perChunk` of them: the chunks they fill,
and a slice's worth for each of the rest. -/
theorem slices_le_iff {width size slice : ℕ} (hsize : 0 < size) (hslice : 0 < slice) (count : ℕ) :
    width / size * (size ⌈/⌉ slice) + (width % size) ⌈/⌉ slice ≤ count ↔
      width ≤ count / (size ⌈/⌉ slice) * size + count % (size ⌈/⌉ slice) * slice := by
  obtain ⟨perChunk, hper⟩ : ∃ k, size ⌈/⌉ slice = k := ⟨_, rfl⟩
  have hpos : 0 < perChunk := hper ▸ ceilDiv_pos hsize hslice
  have hholds : size ≤ slice * perChunk := (ceilDiv_le_iff_le_mul hslice).mp hper.le
  have hrest : (width % size) ⌈/⌉ slice ≤ perChunk :=
    (ceilDiv_le_iff_le_mul hslice).mpr ((Nat.mod_lt _ hsize).le.trans hholds)
  have hwidth := Nat.div_add_mod' width size
  have hcount := Nat.div_add_mod' count perChunk
  have hmod := Nat.mod_lt width hsize
  have hmod' := Nat.mod_lt count hpos
  rw [hper]
  rcases Nat.lt_trichotomy (width / size) (count / perChunk) with hlt | heq | hgt
  · -- a chunk to spare takes the rest
    have hslices := Nat.mul_le_mul_right perChunk (Nat.succ_le_of_lt hlt)
    have hcells := Nat.mul_le_mul_right size (Nat.succ_le_of_lt hlt)
    rw [Nat.succ_mul] at hslices hcells
    exact iff_of_true (by omega) (by omega)
  · -- the slices that are left take the rest
    have hleft : (width % size) ⌈/⌉ slice ≤ count % perChunk ↔
        width % size ≤ count % perChunk * slice := by
      rw [ceilDiv_le_iff_le_mul hslice, Nat.mul_comm slice]
    rw [heq] at hwidth ⊢
    constructor <;> intro hle <;> have := hleft <;> omega
  · -- a chunk too many
    have hslices := Nat.mul_le_mul_right perChunk (Nat.succ_le_of_lt hgt)
    have hcells := Nat.mul_le_mul_right size (Nat.succ_le_of_lt hgt)
    rw [Nat.succ_mul] at hslices hcells
    have hshort : count % perChunk * slice < size := by
      by_contra hlong
      have hfits : size ⌈/⌉ slice ≤ count % perChunk := by
        rw [ceilDiv_le_iff_le_mul hslice, Nat.mul_comm]
        exact not_lt.mp hlong
      omega
    exact iff_of_false (by omega) (by omega)

theorem flatMap_Ico (start extent top n : ℕ) :
    ((List.range n).flatMap fun s =>
        List.Ico (start + s * extent) (min top (start + (s + 1) * extent))) =
      List.Ico start (min top (start + n * extent)) := by
  induction n with
  | zero =>
    rw [List.range_zero, List.flatMap_nil, Nat.zero_mul, Nat.add_zero,
      List.Ico.eq_nil_of_le (min_le_right _ _)]
  | succ n ih =>
    rw [List.range_succ, List.flatMap_append, ih, List.flatMap_singleton, Nat.succ_mul]
    rcases Nat.le_total top (start + n * extent) with hend | hmore
    · rw [min_eq_left hend, min_eq_left (by omega), List.Ico.eq_nil_of_le hend, List.append_nil]
    · rw [min_eq_right hmore]
      exact List.Ico.append_consecutive (by omega) (by omega)

end ChampionRuntime.Lib
