import Mathlib.Algebra.BigOperators.Group.List.Basic
import Mathlib.Algebra.Order.BigOperators.Group.List
import Mathlib.Order.Interval.Set.Disjoint
import Mathlib.Tactic
import Mathlib.Order.CompletePartialOrder

/-!
# Regions placed one after another

Each region is followed by the padding that brings the cursor back to the
alignment, so the end of the last region is the sum of the aligned sizes. A
view gives the start of a region a shape; views that fit their regions do not
overlap.
-/
namespace ChampionRuntime.Lib

variable {ι : Type*} {align : ℕ}

def alignUp (n align : ℕ) : ℕ := (n + align - 1) / align * align

theorem le_alignUp (halign : 0 < align) (n : ℕ) : n ≤ alignUp n align := by
  have hlt := Nat.lt_div_mul_add (a := n + align - 1) halign
  unfold alignUp
  omega

theorem alignUp_mono {m n : ℕ} (h : m ≤ n) (align : ℕ) : alignUp m align ≤ alignUp n align :=
  Nat.mul_le_mul_right _ (Nat.div_le_div_right (by omega))

/-- Sizes that differ by the alignment at least are not padded to the same size. -/
theorem alignUp_lt {m n : ℕ} (halign : 0 < align) (h : m + align ≤ n) :
    alignUp m align < alignUp n align := by
  have hstep : alignUp (m + align) align = alignUp m align + align := by
    unfold alignUp
    rw [show m + align + align - 1 = m + align - 1 + align by omega, Nat.add_div_right _ halign,
      Nat.succ_mul]
  have hmono := alignUp_mono h align
  omega

theorem alignUp_mul_add (halign : 0 < align) (k n : ℕ) :
    alignUp (k * align + n) align = k * align + alignUp n align := by
  unfold alignUp
  rw [show k * align + n + align - 1 = n + align - 1 + k * align by omega,
    Nat.add_mul_div_right _ _ halign, Nat.add_mul, Nat.add_comm]

def regionsEnd (align : ℕ) (size : ι → ℕ) (regions : List ι) : ℕ :=
  regions.foldl (fun cursor region => alignUp (cursor + size region) align) 0

theorem regionsEnd_eq_sum (halign : 0 < align) (size : ι → ℕ) (regions : List ι) :
    regionsEnd align size regions =
      (regions.map fun region => alignUp (size region) align).sum := by
  suffices hfrom : ∀ k, regions.foldl
      (fun cursor region => alignUp (cursor + size region) align) (k * align) =
      k * align + (regions.map fun region => alignUp (size region) align).sum by
    simpa [regionsEnd] using hfrom 0
  induction regions with
  | nil => simp
  | cons region regions ih =>
    intro k
    have hnext : alignUp (k * align + size region) align =
        (k + (size region + align - 1) / align) * align := by
      rw [alignUp_mul_add halign, alignUp, Nat.add_mul]
    rw [List.foldl_cons, hnext, ih, List.map_cons, List.sum_cons, Nat.add_mul, alignUp,
      Nat.add_assoc]

theorem align_le_alignUp (halign : 0 < align) {n : ℕ} (hpos : 0 < n) : align ≤ alignUp n align :=
  calc align = alignUp 1 align := by
        rw [alignUp, Nat.add_sub_cancel_left, Nat.div_self halign, Nat.one_mul]
    _ ≤ alignUp n align := alignUp_mono hpos align

theorem alignUp_le_regionsEnd (halign : 0 < align) (size : ι → ℕ) {regions : List ι} {region : ι}
    (hmem : region ∈ regions) :
    alignUp (size region) align ≤ regionsEnd align size regions := by
  rw [regionsEnd_eq_sum halign]
  exact List.single_le_sum (fun _ _ => Nat.zero_le _) _ (List.mem_map_of_mem hmem)

theorem regionsEnd_mono (halign : 0 < align) {size size' : ι → ℕ} {regions : List ι}
    (h : ∀ region ∈ regions, size region ≤ size' region) :
    regionsEnd align size regions ≤ regionsEnd align size' regions := by
  rw [regionsEnd_eq_sum halign, regionsEnd_eq_sum halign]
  exact List.sum_le_sum fun region hmem => alignUp_mono (h region hmem) align

theorem regionsEnd_lt (halign : 0 < align) {size size' : ι → ℕ} {regions : List ι}
    (h : ∀ region ∈ regions, size region ≤ size' region) {grown : ι} (hmem : grown ∈ regions)
    (hlt : alignUp (size grown) align < alignUp (size' grown) align) :
    regionsEnd align size regions < regionsEnd align size' regions := by
  rw [regionsEnd_eq_sum halign, regionsEnd_eq_sum halign]
  exact List.sum_lt_sum _ _ (fun region hmem => alignUp_mono (h region hmem) align)
    ⟨grown, hmem, hlt⟩

theorem dvd_alignUp (n align : ℕ) : align ∣ alignUp n align := Nat.dvd_mul_left _ _

theorem dvd_regionsEnd (halign : 0 < align) (size : ι → ℕ) (regions : List ι) :
    align ∣ regionsEnd align size regions := by
  rw [regionsEnd_eq_sum halign]
  apply List.dvd_sum
  intro n hn
  obtain ⟨region, -, rfl⟩ := List.mem_map.mp hn
  exact dvd_alignUp _ _

theorem regionsEnd_append (halign : 0 < align) (size : ι → ℕ) (regions more : List ι) :
    regionsEnd align size (regions ++ more) =
      regionsEnd align size regions + regionsEnd align size more := by
  simp only [regionsEnd_eq_sum halign, List.map_append, List.sum_append]

/-- Two positions of one list that hold different elements are not the same position. -/
theorem append_singleton_prefix_of_le {regions front front' : List ι} {region other : ι}
    (hne : region ≠ other) (h : front ++ [region] <+: regions) (h' : front' ++ [other] <+: regions)
    (hle : front.length ≤ front'.length) : front ++ [region] <+: front' := by
  have hlength : (front ++ [region]).length = front.length + 1 := by simp
  have hlength' : (front' ++ [other]).length = front'.length + 1 := by simp
  have hprefix : front ++ [region] <+: front' ++ [other] :=
    List.prefix_of_prefix_length_le h h' (by omega)
  rcases List.prefix_concat_iff.mp hprefix with hequal | hinside
  · obtain ⟨-, hlast⟩ := List.append_inj' hequal rfl
    exact absurd (List.singleton_inj.mp hlast) hne
  · exact hinside

section Offsets

variable [DecidableEq ι] {size : ι → ℕ} {regions : List ι} {region other : ι}

def regionOffset (align : ℕ) (size : ι → ℕ) (regions : List ι) (region : ι) : ℕ :=
  regionsEnd align size (regions.takeWhile (· ≠ region))

theorem dvd_regionOffset (halign : 0 < align) (size : ι → ℕ) (regions : List ι) (region : ι) :
    align ∣ regionOffset align size regions region := dvd_regionsEnd halign size _

theorem takeWhile_prefix_of_mem (hmem : region ∈ regions) :
    regions.takeWhile (· ≠ region) ++ [region] <+: regions := by
  induction regions with
  | nil => cases hmem
  | cons head regions ih =>
    by_cases hhead : head = region
    · subst hhead
      simp
    · have htail := ih (List.mem_of_ne_of_mem (Ne.symm hhead) hmem)
      rw [List.takeWhile_cons_of_pos (by simpa using hhead), List.cons_append]
      exact List.cons_prefix_cons.mpr ⟨rfl, htail⟩

theorem regionOffset_add_size_le (halign : 0 < align) {reached : List ι}
    (h : regions.takeWhile (· ≠ region) ++ [region] <+: reached) :
    regionOffset align size regions region + size region ≤ regionsEnd align size reached := by
  obtain ⟨rest, rfl⟩ := h
  have hsize : size region ≤ regionsEnd align size [region] := by
    rw [regionsEnd_eq_sum halign]
    simpa using le_alignUp halign (size region)
  rw [regionsEnd_append halign, regionsEnd_append halign, regionOffset]
  omega

theorem regionOffset_separated (halign : 0 < align) (hmem : region ∈ regions)
    (hother : other ∈ regions) (hne : region ≠ other) :
    regionOffset align size regions region + size region ≤ regionOffset align size regions other ∨
      regionOffset align size regions other + size other ≤
        regionOffset align size regions region := by
  have hregion := takeWhile_prefix_of_mem hmem
  have hbehind := takeWhile_prefix_of_mem hother
  rcases Nat.le_total (regions.takeWhile (· ≠ region)).length
    (regions.takeWhile (· ≠ other)).length with hle | hle
  · have hbefore := append_singleton_prefix_of_le hne hregion hbehind hle
    exact .inl (regionOffset_add_size_le halign hbefore)
  · have hbefore := append_singleton_prefix_of_le hne.symm hbehind hregion hle
    exact .inr (regionOffset_add_size_le halign hbefore)

end Offsets

/-- The start of a region as an array of this shape. -/
structure View (ι : Type*) where
  region : ι
  shape : List ℕ
  itemBytes : ℕ

namespace View

variable (offset : ι → ℕ) (view : View ι)

def nbytes : ℕ := view.shape.prod * view.itemBytes

def bytes : Set ℕ := Set.Ico (offset view.region) (offset view.region + view.nbytes)

/-- The bytes of an entry along the first axis. -/
def entryBytes (i : ℕ) : Set ℕ :=
  let stride := view.shape.tail.prod * view.itemBytes
  Set.Ico (offset view.region + i * stride) (offset view.region + i * stride + stride)

variable {offset view} {first i j : ℕ}

theorem entryBytes_subset (hfirst : view.shape.head? = some first) (hi : i < first) :
    view.entryBytes offset i ⊆ view.bytes offset := by
  obtain ⟨rest, hshape⟩ : ∃ rest, view.shape = first :: rest := List.head?_eq_some_iff.mp hfirst
  have hnbytes : view.nbytes = first * (rest.prod * view.itemBytes) := by
    rw [nbytes, hshape, List.prod_cons, Nat.mul_assoc]
  have hfits : (i + 1) * (rest.prod * view.itemBytes) ≤ first * (rest.prod * view.itemBytes) :=
    Nat.mul_le_mul_right _ hi
  rw [Nat.add_mul, Nat.one_mul] at hfits
  intro byte hbyte
  simp only [entryBytes, hshape, List.tail_cons, Set.mem_Ico] at hbyte
  simp only [bytes, hnbytes, Set.mem_Ico]
  omega

theorem entryBytes_disjoint (hne : i ≠ j) :
    Disjoint (view.entryBytes offset i) (view.entryBytes offset j) := by
  have key : ∀ {m n : ℕ}, m < n →
      (m + 1) * (view.shape.tail.prod * view.itemBytes) ≤
        n * (view.shape.tail.prod * view.itemBytes) :=
    fun hlt => Nat.mul_le_mul_right _ hlt
  rw [Set.disjoint_left]
  intro byte hi hj
  simp only [entryBytes, Set.mem_Ico] at hi hj
  rcases Nat.lt_or_gt_of_ne hne with hlt | hgt
  · have hstep := key hlt
    rw [Nat.add_mul, Nat.one_mul] at hstep
    omega
  · have hstep := key hgt
    rw [Nat.add_mul, Nat.one_mul] at hstep
    omega

end View

/-- Views into one buffer of `nbytes` bytes that can all be written at once. -/
structure SafeViews (align nbytes : ℕ) (offset : ι → ℕ) (views : List (View ι)) : Prop where
  aligned : ∀ view ∈ views, align ∣ offset view.region
  inside : ∀ view ∈ views, view.bytes offset ⊆ Set.Ico 0 nbytes
  disjoint : views.Pairwise fun view other => Disjoint (view.bytes offset) (other.bytes offset)
  /-- the entries of a view along its first axis are buffers of their own -/
  entries : ∀ view ∈ views, ∀ first, view.shape.head? = some first → ∀ i < first,
    view.entryBytes offset i ⊆ view.bytes offset ∧
      ∀ j < first, i ≠ j → Disjoint (view.entryBytes offset i) (view.entryBytes offset j)

/-- Views of different regions that are no larger than their regions are safe. -/
theorem SafeViews.of_fit [DecidableEq ι] (halign : 0 < align) {size : ι → ℕ} {regions : List ι}
    {views : List (View ι)} {nbytes : ℕ} (hnodup : (views.map View.region).Nodup)
    (hmem : ∀ view ∈ views, view.region ∈ regions)
    (hfit : ∀ view ∈ views, view.nbytes ≤ size view.region)
    (hend : regionsEnd align size regions ≤ nbytes) :
    SafeViews align nbytes (regionOffset align size regions) views where
  aligned := fun view _ => dvd_regionOffset halign size regions view.region
  inside := by
    intro view hview byte hbyte
    have hle : regionOffset align size regions view.region + size view.region ≤
        regionsEnd align size regions :=
      regionOffset_add_size_le halign (takeWhile_prefix_of_mem (hmem view hview))
    have hsize := hfit view hview
    simp only [View.bytes, Set.mem_Ico] at hbyte
    simp only [Set.mem_Ico]
    omega
  disjoint := by
    apply (List.pairwise_map.mp hnodup).imp_of_mem
    intro view other hview hother hne
    have hseparated : regionOffset align size regions view.region + size view.region ≤
        regionOffset align size regions other.region ∨
        regionOffset align size regions other.region + size other.region ≤
          regionOffset align size regions view.region :=
      regionOffset_separated halign (hmem view hview) (hmem other hother) hne
    have hsize := hfit view hview
    have hsize' := hfit other hother
    rw [Set.disjoint_left]
    intro byte hbyte hbyte'
    simp only [View.bytes, Set.mem_Ico] at hbyte hbyte'
    omega
  entries := by
    intro view _ first hfirst i hi
    exact ⟨View.entryBytes_subset hfirst hi, fun j _ hne => View.entryBytes_disjoint hne⟩

end ChampionRuntime.Lib
