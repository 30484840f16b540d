import Mathlib.Data.List.Sort
import Mathlib.Tactic

/-!
# Keeping the largest

A selection keeps `k` of the elements of a list, or all if there are fewer, and
leaves none that is larger than one it keeps. Which of equal elements it keeps
is open, so selections are compared by their values, and made in parts: what is
left out of a part is not missed in the whole, not even when the selections of
the parts are filled up with a least element.
-/
namespace ChampionRuntime.Lib

variable {α β : Type*} [LinearOrder β] {value : α → β} {k : ℕ} {l m kept out : List α}

variable (value k l kept) in
/-- `kept` are `k` elements of `l` with the largest values. -/
def Selects : Prop :=
  kept.length = min k l.length ∧
    ∃ left, l.Perm (kept ++ left) ∧ ∀ a ∈ kept, ∀ b ∈ left, value b ≤ value a

theorem Selects.of_le (h : l.length ≤ k) : Selects value k l l :=
  ⟨by omega, [], by simp, by simp⟩

theorem Selects.perm (h : Selects value k l kept) (hl : l.Perm m) (hkept : kept.Perm out) :
    Selects value k m out := by
  obtain ⟨hlength, left, hperm, hle⟩ := h
  refine ⟨?_, left, ?_, ?_⟩
  · rw [← hkept.length_eq, ← hl.length_eq, hlength]
  · exact hl.symm.trans (hperm.trans (hkept.append_right left))
  · intro a ha
    exact hle a (hkept.mem_iff.mpr ha)

theorem Selects.subset (h : Selects value k l kept) : kept ⊆ l := by
  obtain ⟨-, left, hperm, -⟩ := h
  intro a ha
  exact hperm.mem_iff.mpr (List.mem_append_left left ha)

theorem Selects.of_part (hpart : Selects value k l kept) (hwhole : Selects value k (kept ++ m) out) :
    Selects value k (l ++ m) out := by
  obtain ⟨hlength, left, hperm, hle⟩ := hpart
  obtain ⟨hlength', left', hperm', hle'⟩ := hwhole
  have hsize := hperm.length_eq
  rw [List.length_append] at hsize
  refine ⟨?_, left' ++ left, ?_, ?_⟩
  · rw [hlength', List.length_append, List.length_append, hlength]
    omega
  · calc (l ++ m).Perm ((kept ++ left) ++ m) := hperm.append_right m
      _ |>.Perm ((kept ++ m) ++ left) := by
          rw [List.append_assoc, List.append_assoc]
          exact List.perm_append_comm.append_left _
      _ |>.Perm ((out ++ left') ++ left) := hperm'.append_right left
      _ |>.Perm (out ++ (left' ++ left)) := by rw [List.append_assoc]
  · intro a ha b hb
    rcases List.mem_append.mp hb with hb | hb
    · exact hle' a ha b hb
    · -- the part kept `k` elements no smaller than `b`; were `a` smaller, they would all be
      -- among the selected, which are no more
      by_contra hsmall
      rw [not_le] at hsmall
      have hfull : kept.length = k := by
        have := List.length_pos_of_mem hb
        omega
      have hcount := hperm'.countP_eq fun c => decide (value b ≤ value c)
      rw [List.countP_append, List.countP_append] at hcount
      have hkept : kept.countP (fun c => decide (value b ≤ value c)) = k := by
        refine Eq.trans (List.countP_eq_length.mpr fun c hc => ?_) hfull
        simpa using hle c hc b hb
      have hleft : left'.countP (fun c => decide (value b ≤ value c)) = 0 := by
        refine List.countP_eq_zero.mpr fun c hc => ?_
        simpa using (hle' a ha c hc).trans_lt hsmall
      have hout : out.countP (fun c => decide (value b ≤ value c)) < out.length := by
        refine lt_of_le_of_ne List.countP_le_length fun hall => ?_
        have hlarge := List.countP_eq_length.mp hall a ha
        exact absurd (of_decide_eq_true hlarge) (not_le.mpr hsmall)
      omega

variable (value k l) in
/-- The `k` largest values of the elements, in descending order. -/
def topValues : List β := ((l.map value).insertionSort (· ≥ ·)).take k

theorem Selects.values (h : Selects value k l kept) :
    (kept.map value).Perm (topValues value k l) := by
  obtain ⟨hlength, left, hperm, hle⟩ := h
  have hsort : (l.map value).insertionSort (· ≥ ·) =
      (kept.map value).insertionSort (· ≥ ·) ++ (left.map value).insertionSort (· ≥ ·) := by
    have hperm' : ((l.map value).insertionSort (· ≥ ·)).Perm
        ((kept.map value).insertionSort (· ≥ ·) ++ (left.map value).insertionSort (· ≥ ·)) := by
      calc ((l.map value).insertionSort (· ≥ ·)).Perm (l.map value) :=
            List.perm_insertionSort _ _
        _ |>.Perm (kept.map value ++ left.map value) := by
            rw [← List.map_append]
            exact hperm.map value
        _ |>.Perm _ := (List.perm_insertionSort _ _).symm.append (List.perm_insertionSort _ _).symm
    have hsorted : ((kept.map value).insertionSort (· ≥ ·) ++
        (left.map value).insertionSort (· ≥ ·)).Pairwise (· ≥ ·) := by
      refine List.pairwise_append.mpr
        ⟨List.pairwise_insertionSort _ _, List.pairwise_insertionSort _ _, ?_⟩
      intro x hx y hy
      obtain ⟨a, ha, rfl⟩ := List.mem_map.mp ((List.mem_insertionSort _).mp hx)
      obtain ⟨b, hb, rfl⟩ := List.mem_map.mp ((List.mem_insertionSort _).mp hy)
      exact hle a ha b hb
    exact hperm'.eq_of_pairwise (fun a b _ _ hab hba => le_antisymm hba hab)
      (List.pairwise_insertionSort _ _) hsorted
  have htake : topValues value k l = (kept.map value).insertionSort (· ≥ ·) := by
    have hsize := hperm.length_eq
    rw [List.length_append] at hsize
    rw [topValues, hsort, List.take_append, List.length_insertionSort, List.length_map]
    by_cases hk : k ≤ l.length
    · rw [show k - kept.length = 0 by omega, List.take_zero, List.append_nil,
        List.take_of_length_le (by rw [List.length_insertionSort, List.length_map]; omega)]
    · obtain rfl : left = [] := List.eq_nil_of_length_eq_zero (by omega)
      rw [List.map_nil, List.insertionSort_nil, List.take_nil, List.append_nil,
        List.take_of_length_le (by rw [List.length_insertionSort, List.length_map]; omega)]
  rw [htake]
  exact (List.perm_insertionSort _ _).symm

/-- The elements of a kind that is larger than the rest are selected before the rest. -/
theorem Selects.filter {p : α → Bool} (h : Selects value k l kept)
    (hp : ∀ a ∈ l, ∀ b ∈ l, p a = true → p b = false → value b < value a) :
    Selects value k (l.filter p) (kept.filter p) := by
  obtain ⟨hlength, left, hperm, hle⟩ := h
  have hfilter := hperm.filter p
  rw [List.filter_append] at hfilter
  refine ⟨?_, left.filter p, hfilter, ?_⟩
  · have hsize := hfilter.length_eq
    have hkept := List.length_filter_le p kept
    have hwhole := List.length_filter_le p l
    rw [List.length_append] at hsize
    cases hleft : left.filter p with
    | nil =>
      rw [hleft, List.length_nil] at hsize
      omega
    | cons a rest =>
      -- an element of the kind was left, so no other was kept
      obtain ⟨ha, hpa⟩ := List.mem_filter.mp (hleft ▸ List.mem_cons_self : a ∈ left.filter p)
      have hall : kept.filter p = kept := by
        refine List.filter_eq_self.mpr fun b hb => ?_
        by_contra hpb
        have hmem : ∀ c, c ∈ kept ++ left → c ∈ l := fun c => hperm.mem_iff.mpr
        exact absurd (hle b hb a ha) (not_le.mpr (hp a (hmem a (List.mem_append_right _ ha)) b
          (hmem b (List.mem_append_left _ hb)) hpa (by simpa using hpb)))
      have hsize' := hperm.length_eq
      have hpos := List.length_pos_of_mem ha
      rw [List.length_append] at hsize'
      rw [hall] at hsize ⊢
      omega
  · intro a ha b hb
    exact hle a (List.mem_filter.mp ha).1 b (List.mem_filter.mp hb).1

theorem Selects.map {γ : Type*} (value' : γ → β) (f : α → γ) (h : Selects value k l kept)
    (hf : ∀ a ∈ l, value' (f a) = value a) : Selects value' k (l.map f) (kept.map f) := by
  obtain ⟨hlength, left, hperm, hle⟩ := h
  have hmem : ∀ a, a ∈ kept ++ left → a ∈ l := fun a => hperm.mem_iff.mpr
  refine ⟨by simpa using hlength, left.map f, ?_, ?_⟩
  · rw [← List.map_append]
    exact hperm.map f
  · intro x hx y hy
    obtain ⟨a, ha, rfl⟩ := List.mem_map.mp hx
    obtain ⟨b, hb, rfl⟩ := List.mem_map.mp hy
    rw [hf a (hmem a (List.mem_append_left left ha)), hf b (hmem b (List.mem_append_right kept hb))]
    exact hle a ha b hb

theorem Selects.of_le_iff {γ : Type*} [LinearOrder γ] {value' : α → γ} (h : Selects value k l kept)
    (hle : ∀ a b, value a ≤ value b ↔ value' a ≤ value' b) : Selects value' k l kept := by
  obtain ⟨hlength, left, hperm, hmost⟩ := h
  exact ⟨hlength, left, hperm, fun a ha b hb => (hle b a).mp (hmost a ha b hb)⟩

section Padded

variable {pad : α}

/-- `out` is selected from `l` and enough of a least element. -/
def SelectsPadded (value : α → β) (pad : α) (k : ℕ) (l out : List α) : Prop :=
  ∃ m, k ≤ m ∧ Selects value k (l ++ List.replicate m pad) out

theorem SelectsPadded.length (h : SelectsPadded value pad k l out) : out.length = k := by
  obtain ⟨m, hm, hlength, -⟩ := h
  rw [hlength, List.length_append, List.length_replicate]
  omega

theorem SelectsPadded.of_short (hpad : ∀ a, value pad ≤ value a) (h : l.length ≤ k) :
    SelectsPadded value pad k l (l ++ List.replicate (k - l.length) pad) := by
  refine ⟨k, le_rfl, ?_, List.replicate l.length pad, ?_, ?_⟩
  · rw [List.length_append, List.length_append, List.length_replicate, List.length_replicate]
    omega
  · rw [List.append_assoc, ← List.replicate_add, Nat.sub_add_cancel h]
  · intro a _ b hb
    rw [List.eq_of_mem_replicate hb]
    exact hpad a

theorem SelectsPadded.of_selects (hpad : ∀ a, value pad ≤ value a) (hlong : k ≤ l.length)
    (h : Selects value k l out) : SelectsPadded value pad k l out := by
  obtain ⟨hlength, left, hperm, hle⟩ := h
  refine ⟨k, le_rfl, ?_, left ++ List.replicate k pad, ?_, ?_⟩
  · rw [hlength, List.length_append]
    omega
  · rw [← List.append_assoc]
    exact hperm.append_right _
  · intro a ha b hb
    rcases List.mem_append.mp hb with hb | hb
    · exact hle a ha b hb
    · rw [List.eq_of_mem_replicate hb]
      exact hpad a

theorem SelectsPadded.perm (h : SelectsPadded value pad k l out) (hl : l.Perm m) :
    SelectsPadded value pad k m out := by
  obtain ⟨n, hn, h⟩ := h
  exact ⟨n, hn, h.perm (hl.append_right _) (.refl _)⟩

theorem SelectsPadded.of_part (hpart : SelectsPadded value pad k l kept)
    (hwhole : SelectsPadded value pad k (kept ++ m) out) :
    SelectsPadded value pad k (l ++ m) out := by
  obtain ⟨n, hn, hpart⟩ := hpart
  obtain ⟨n', hn', hwhole⟩ := hwhole
  rw [List.append_assoc] at hwhole
  refine ⟨n + n', by omega, (hpart.of_part hwhole).perm ?_ (.refl _)⟩
  rw [List.replicate_add, List.append_assoc, List.append_assoc, ← List.append_assoc _ m,
    ← List.append_assoc m]
  exact (List.perm_append_comm.append_right _).append_left l

/-- A selection from the filled up selections of the parts is one from the whole. -/
theorem SelectsPadded.of_parts {parts selections : List (List α)}
    (hparts : List.Forall₂ (SelectsPadded value pad k) parts selections) :
    SelectsPadded value pad k selections.flatten out →
      SelectsPadded value pad k parts.flatten out := by
  suffices hany : ∀ front, SelectsPadded value pad k (front ++ selections.flatten) out →
      SelectsPadded value pad k (front ++ parts.flatten) out from hany []
  induction hparts with
  | nil => exact fun _ h => h
  | @cons part selection parts selections hpart _ ih =>
    intro front h
    rw [List.flatten_cons] at h ⊢
    have hfront : SelectsPadded value pad k (front ++ (selection ++ parts.flatten)) out := by
      have := ih (front ++ selection) (by rwa [List.append_assoc])
      rwa [List.append_assoc] at this
    have hmoved : (front ++ (selection ++ parts.flatten)).Perm
        (selection ++ (front ++ parts.flatten)) := by
      rw [← List.append_assoc, ← List.append_assoc]
      exact List.perm_append_comm.append_right _
    have hback : (part ++ (front ++ parts.flatten)).Perm (front ++ (part ++ parts.flatten)) := by
      rw [← List.append_assoc, ← List.append_assoc]
      exact List.perm_append_comm.append_right _
    exact (hpart.of_part (hfront.perm hmoved)).perm hback

theorem SelectsPadded.exists_chosen (hreal : ∀ a ∈ l, value pad < value a)
    (h : SelectsPadded value pad k l out) : ∃ chosen, Selects value k l chosen ∧
      out.Perm (chosen ++ List.replicate (k - chosen.length) pad) := by
  have hfull := h.length
  obtain ⟨m, -, h⟩ := h
  have hsubset := h.subset
  have hfilter := h.filter (p := fun a => decide (value pad < value a)) fun a _ b _ ha hb =>
    (not_lt.mp (of_decide_eq_false hb)).trans_lt (of_decide_eq_true ha)
  have hwhole : (l ++ List.replicate m pad).filter (fun a => decide (value pad < value a)) = l := by
    rw [List.filter_append, List.filter_eq_self.mpr fun a ha => decide_eq_true (hreal a ha),
      List.filter_eq_nil_iff.mpr ?_, List.append_nil]
    intro a ha
    rw [List.eq_of_mem_replicate ha]
    simp
  rw [hwhole] at hfilter
  refine ⟨_, hfilter, ?_⟩
  have hrest : out.filter (fun a => !decide (value pad < value a)) = List.replicate
      (k - (out.filter fun a => decide (value pad < value a)).length) pad := by
    rw [List.eq_replicate_iff]
    constructor
    · have hparts := (List.filter_append_perm (fun a => decide (value pad < value a)) out).length_eq
      rw [List.length_append] at hparts
      omega
    · intro a ha
      obtain ⟨hmem, hsmall⟩ := List.mem_filter.mp ha
      rcases List.mem_append.mp (hsubset hmem) with hl | hpad
      · simp [hreal a hl] at hsmall
      · exact List.eq_of_mem_replicate hpad
  rw [← hrest]
  exact (List.filter_append_perm _ out).symm

end Padded

end ChampionRuntime.Lib
