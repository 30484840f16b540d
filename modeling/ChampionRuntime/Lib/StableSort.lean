import Mathlib.Data.List.Sort
import Mathlib.Tactic.Common

/-!
# Stable sorting and filters

Sorting by insertion keeps the order of elements that compare alike, so it commutes with
filters. The first `k` of a sorted list of two parts need no more than the first `k` of
the sorted second part.
-/
namespace ChampionRuntime.Lib

variable {α : Type*} (r : α → α → Prop) [DecidableRel r]

/-- An element that goes before the whole list goes before each of its parts. -/
theorem orderedInsert_of_forall_rel {a : α} {l : List α} (h : ∀ b ∈ l, r a b) :
    l.orderedInsert r a = a :: l := by
  cases l with
  | nil => rfl
  | cons b l => exact List.orderedInsert_cons_of_le r l (h b (by simp))

section Filter

variable [IsTrans α r] (p : α → Bool)

theorem filter_orderedInsert {l : List α} (hl : l.Pairwise r) (a : α) :
    (l.orderedInsert r a).filter p =
      if p a then (l.filter p).orderedInsert r a else l.filter p := by
  induction l with
  | nil => cases h : p a <;> simp [h]
  | cons b l ih =>
    obtain ⟨hb, hl⟩ := List.pairwise_cons.mp hl
    by_cases hab : r a b
    · have hall : ∀ c ∈ b :: l, r a c := by
        intro c hc
        rcases List.mem_cons.mp hc with rfl | hc
        · exact hab
        · exact IsTrans.trans a b c hab (hb c hc)
      have hkept : ∀ c ∈ (b :: l).filter p, r a c := fun c hc => hall c (List.mem_of_mem_filter hc)
      rw [orderedInsert_of_forall_rel r hall, orderedInsert_of_forall_rel r hkept, List.filter_cons]
    · rw [List.orderedInsert_of_not_le r l hab, List.filter_cons, List.filter_cons, ih hl]
      by_cases hpb : p b = true
      · rw [if_pos hpb, if_pos hpb]
        by_cases hpa : p a = true
        · rw [if_pos hpa, if_pos hpa, List.orderedInsert_of_not_le r _ hab]
        · rw [if_neg hpa, if_neg hpa]
      · rw [if_neg hpb, if_neg hpb]

theorem filter_insertionSort [Std.Total r] (l : List α) :
    (l.insertionSort r).filter p = (l.filter p).insertionSort r := by
  induction l with
  | nil => rfl
  | cons a l ih =>
    rw [List.insertionSort_cons, filter_orderedInsert r p (List.pairwise_insertionSort r l), ih,
      List.filter_cons]
    split_ifs
    · rw [List.insertionSort_cons]
    · rfl

end Filter

theorem orderedInsert_concat {a w : α} (h : r a w) (l : List α) :
    (l ++ [w]).orderedInsert r a = l.orderedInsert r a ++ [w] := by
  induction l with
  | nil => exact List.orderedInsert_cons_of_le r [] h
  | cons b l ih =>
    by_cases hab : r a b
    · rw [List.cons_append, List.orderedInsert_cons_of_le r _ hab,
        List.orderedInsert_cons_of_le r _ hab]
      rfl
    · rw [List.cons_append, List.orderedInsert_of_not_le r _ hab,
        List.orderedInsert_of_not_le r _ hab, ih]
      rfl

theorem insertionSort_concat {l : List α} {w : α} (h : ∀ a ∈ l, r a w) :
    (l ++ [w]).insertionSort r = l.insertionSort r ++ [w] := by
  induction l with
  | nil => rfl
  | cons a l ih =>
    obtain ⟨ha, hl⟩ := List.forall_mem_cons.mp h
    rw [List.cons_append, List.insertionSort_cons, ih hl, orderedInsert_concat r ha,
      List.insertionSort_cons]

theorem take_filter_of_forall {p : α → Bool} {l : List α} {k : ℕ} (h : ∀ a ∈ l.take k, p a) :
    (l.filter p).take k = l.take k := by
  induction l generalizing k with
  | nil => rfl
  | cons a l ih =>
    cases k with
    | zero => rfl
    | succ k =>
      rw [List.take_succ_cons, List.forall_mem_cons] at h
      rw [List.filter_cons_of_pos h.1, List.take_succ_cons, List.take_succ_cons, ih h.2]

theorem mem_take_filter {p : α → Bool} {l : List α} {k m : ℕ} (hkm : k ≤ m) {a : α}
    (ha : a ∈ l.take k) (hp : p a) : a ∈ (l.filter p).take m := by
  induction l generalizing k m with
  | nil => simp at ha
  | cons b l ih =>
    cases k with
    | zero => simp at ha
    | succ k =>
      cases m with
      | zero => omega
      | succ m =>
        rw [List.take_succ_cons] at ha
        by_cases hb : p b = true
        · rw [List.filter_cons_of_pos hb, List.take_succ_cons]
          rcases List.mem_cons.mp ha with rfl | ha
          · exact List.mem_cons_self
          · exact List.mem_cons_of_mem b (ih (by omega) ha)
        · rw [List.filter_cons_of_neg hb]
          rcases List.mem_cons.mp ha with rfl | ha
          · exact absurd hp hb
          · exact ih (by omega) ha

/-- Of the second part no more than the first `m ≥ k` are needed for the first `k`. -/
theorem take_insertionSort_append [DecidableEq α] [Std.Total r] [IsTrans α r] {a b : List α}
    (hdisjoint : ∀ x ∈ b, x ∉ a) {k m : ℕ} (hkm : k ≤ m) :
    ((a ++ b.filter fun x => x ∈ (b.insertionSort r).take m).insertionSort r).take k =
      ((a ++ b).insertionSort r).take k := by
  have hfilter : a ++ b.filter (fun x => x ∈ (b.insertionSort r).take m) =
      (a ++ b).filter fun x => x ∈ a ∨ x ∈ (b.insertionSort r).take m := by
    rw [List.filter_append]
    congr 1
    · rw [List.filter_eq_self.mpr]
      intro x hx
      simp [hx]
    · apply List.filter_congr
      intro x hx
      simp [hdisjoint x hx]
  have hsecond : b = (a ++ b).filter fun x => x ∉ a := by
    rw [List.filter_append, List.filter_eq_nil_iff.mpr (by simp), List.nil_append,
      List.filter_eq_self.mpr]
    intro x hx
    simp [hdisjoint x hx]
  rw [hfilter, ← filter_insertionSort]
  apply take_filter_of_forall
  intro x hx
  by_cases ha : x ∈ a
  · simp [ha]
  · have hmem : x ∈ (b.insertionSort r).take m := by
      rw [hsecond, ← filter_insertionSort]
      exact mem_take_filter hkm hx (by simp [ha])
    simp [hmem]

/-- An element of the second part is not among the first `k` if `k` elements of the first
part go before it. -/
theorem not_mem_take_insertionSort_append [DecidableEq α] [Std.Total r] [IsTrans α r]
    {a b : List α} (hdisjoint : ∀ x ∈ b, x ∉ a) (hb : b.Nodup) {w : α} (hw : w ∈ b) {k : ℕ}
    (hk : k ≤ (a.filter fun x => r x w).length) : w ∉ ((a ++ b).insertionSort r).take k := by
  have hwa := hdisjoint w hw
  have hfirst : a.filter (fun x => (x ∈ a ∧ r x w) ∨ x = w) = a.filter fun x => r x w := by
    apply List.filter_congr
    intro x hx
    have hne : x ≠ w := fun h => hwa (h ▸ hx)
    simp [hx, hne]
  have hsecond : b.filter (fun x => (x ∈ a ∧ r x w) ∨ x = w) = [w] := by
    have heq : b.filter (fun x => (x ∈ a ∧ r x w) ∨ x = w) = b.filter (· = w) := by
      apply List.filter_congr
      intro x hx
      simp [hdisjoint x hx]
    rw [heq, List.filter_eq, List.count_eq_one_of_mem hb hw]
    rfl
  intro hmem
  have hkept := mem_take_filter (p := fun x => (x ∈ a ∧ r x w) ∨ x = w) le_rfl hmem (by simp)
  rw [filter_insertionSort, List.filter_append, hfirst, hsecond,
    insertionSort_concat r (by simp), List.take_append_of_le_length
      (by rwa [List.length_insertionSort])] at hkept
  have hin := List.mem_filter.mp ((List.mem_insertionSort r).mp (List.mem_of_mem_take hkept))
  exact hwa hin.1

end ChampionRuntime.Lib
