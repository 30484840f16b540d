import Mathlib.Data.List.Sort
import Mathlib.Tactic

/-!
# The first elements in an order

The first `k` elements of a list in a total order that tells its elements apart
do not depend on how the list is arranged, and they can be selected in parts:
an element among the first `k` of the whole is among the first `k` of its part.
-/
namespace ChampionRuntime.Lib

variable {α β : Type*} (r : α → α → Prop) [DecidableRel r]

def topK (k : ℕ) (l : List α) : List α := (l.insertionSort r).take k

/-- The order tells the elements of the list apart. -/
def Separates (l : List α) : Prop := ∀ a ∈ l, ∀ b ∈ l, r a b → r b a → a = b

variable {r}

omit [DecidableRel r] in
theorem Separates.of_subset {l m : List α} (h : Separates r m) (hlm : l ⊆ m) : Separates r l :=
  fun a ha b hb => h a (hlm ha) b (hlm hb)

theorem length_topK (k : ℕ) (l : List α) : (topK r k l).length = min k l.length := by
  simp [topK]

theorem topK_subset (k : ℕ) (l : List α) : topK r k l ⊆ l := fun _ h =>
  (List.mem_insertionSort r).mp (List.mem_of_mem_take h)

theorem topK_map {s : β → β → Prop} [DecidableRel s] (f : α → β) (k : ℕ) {l : List α}
    (h : ∀ a ∈ l, ∀ b ∈ l, r a b ↔ s (f a) (f b)) : topK s k (l.map f) = (topK r k l).map f := by
  rw [topK, topK, ← List.map_insertionSort r s f l h, List.map_take]

variable [IsTrans α r] [Std.Total r]

theorem pairwise_topK (k : ℕ) (l : List α) : (topK r k l).Pairwise r :=
  (List.pairwise_insertionSort r l).sublist (List.take_sublist k _)

theorem exists_rest (k : ℕ) (l : List α) :
    ∃ rest, l.Perm (topK r k l ++ rest) ∧ ∀ a ∈ topK r k l, ∀ b ∈ rest, r a b := by
  have hsorted := List.pairwise_insertionSort r l
  rw [← List.take_append_drop k (l.insertionSort r), List.pairwise_append] at hsorted
  refine ⟨(l.insertionSort r).drop k, ?_, hsorted.2.2⟩
  rw [topK, List.take_append_drop]
  exact (List.perm_insertionSort r l).symm

theorem insertionSort_eq {l m : List α} (hsep : Separates r l) (hperm : m.Perm l)
    (hsorted : m.Pairwise r) : l.insertionSort r = m := by
  have hperm' : (l.insertionSort r).Perm m := (List.perm_insertionSort r l).trans hperm.symm
  refine hperm'.eq_of_pairwise ?_ (List.pairwise_insertionSort r l) hsorted
  intro a b ha hb hab hba
  exact hsep a ((List.mem_insertionSort r).mp ha) b (hperm.mem_iff.mp hb) hab hba

/-- A sorted part of the right length with nothing before it elsewhere is the
selection. -/
theorem topK_eq {k : ℕ} {l t rest : List α} (hsep : Separates r l) (hperm : l.Perm (t ++ rest))
    (hsorted : t.Pairwise r) (hrest : ∀ a ∈ t, ∀ b ∈ rest, r a b)
    (hlength : t.length = min k l.length) : topK r k l = t := by
  have hall : l.insertionSort r = t ++ rest.insertionSort r := by
    refine insertionSort_eq hsep ?_ ?_
    · exact ((List.perm_insertionSort r rest).append_left t).trans hperm.symm
    · refine List.pairwise_append.mpr ⟨hsorted, List.pairwise_insertionSort r rest, ?_⟩
      intro a ha b hb
      exact hrest a ha b ((List.mem_insertionSort r).mp hb)
  rw [topK, hall]
  by_cases hk : k ≤ l.length
  · rw [min_eq_left hk] at hlength
    rw [← hlength, List.take_left]
  · have hlen := hperm.length_eq
    rw [List.length_append, hlength, min_eq_right (by omega)] at hlen
    obtain rfl : rest = [] := List.eq_nil_of_length_eq_zero (by omega)
    rw [List.insertionSort_nil, List.append_nil, List.take_of_length_le (by omega)]

theorem topK_perm {k : ℕ} {l m : List α} (hsep : Separates r l) (hperm : m.Perm l) :
    topK r k m = topK r k l := by
  have hsort : l.insertionSort r = m.insertionSort r :=
    insertionSort_eq hsep ((List.perm_insertionSort r m).trans hperm)
      (List.pairwise_insertionSort r m)
  rw [topK, topK, hsort]

theorem topK_append {k : ℕ} {l m : List α} (hsep : Separates r (l ++ m)) :
    topK r k (topK r k l ++ m) = topK r k (l ++ m) := by
  obtain ⟨rest, hperm, hrest⟩ := exists_rest (r := r) k l
  obtain ⟨lost, hperm', hlost⟩ := exists_rest (r := r) k (topK r k l ++ m)
  have hwhole : (l ++ m).Perm (topK r k (topK r k l ++ m) ++ (lost ++ rest)) := by
    calc (l ++ m).Perm ((topK r k l ++ rest) ++ m) := hperm.append_right m
      _ |>.Perm ((topK r k l ++ m) ++ rest) := by
          rw [List.append_assoc, List.append_assoc]
          exact List.perm_append_comm.append_left _
      _ |>.Perm ((topK r k (topK r k l ++ m) ++ lost) ++ rest) := hperm'.append_right rest
      _ |>.Perm (topK r k (topK r k l ++ m) ++ (lost ++ rest)) := by rw [List.append_assoc]
  refine (topK_eq hsep hwhole (pairwise_topK k _) ?_ ?_).symm
  · intro a ha b hb
    rcases List.mem_append.mp hb with hb | hb
    · exact hlost a ha b hb
    · -- `k` elements of the part come before `b`; were `b` before `a`, they and `a` would be
      -- `k + 1` selected elements
      by_contra hab
      have hba : r b a := (Std.Total.total b a).resolve_right hab
      have hfull : (topK r k l).length = k := by
        have h1 := hperm.length_eq
        have h2 := length_topK (r := r) k l
        have h3 := List.length_pos_of_mem hb
        rw [List.length_append] at h1
        omega
      have hbefore : ∀ c ∈ topK r k l, ¬r a c := by
        intro c hc hac
        exact hab (IsTrans.trans a c b hac (hrest c hc b hb))
      have hcount := hperm'.countP_eq fun c => decide ¬r a c
      rw [List.countP_append, List.countP_append] at hcount
      have hpart : (topK r k l).countP (fun c => decide ¬r a c) = k := by
        refine Eq.trans (List.countP_eq_length.mpr fun c hc => ?_) hfull
        simpa using hbefore c hc
      have hnone : lost.countP (fun c => decide ¬r a c) = 0 := by
        refine List.countP_eq_zero.mpr fun c hc => ?_
        simpa using hlost a ha c hc
      have hself : r a a := (Std.Total.total a a).elim id id
      have hfew : (topK r k (topK r k l ++ m)).countP (fun c => decide ¬r a c) <
          (topK r k (topK r k l ++ m)).length := by
        refine List.countP_lt_length_iff.mpr ⟨a, ha, ?_⟩
        simpa using hself
      have hmost : (topK r k (topK r k l ++ m)).length ≤ k := by
        rw [length_topK]
        exact min_le_left _ _
      omega
  · rw [length_topK, List.length_append, List.length_append, length_topK]
    omega

theorem topK_flatten {k : ℕ} {parts : List (List α)} {l : List α}
    (hsep : Separates r (l ++ parts.flatten)) :
    topK r k (l ++ (parts.map (topK r k)).flatten) = topK r k (l ++ parts.flatten) := by
  induction parts generalizing l with
  | nil => simp
  | cons p parts ih =>
    simp only [List.map_cons, List.flatten_cons] at hsep ⊢
    have hswap : ∀ a b c : List α, (a ++ (b ++ c)).Perm (b ++ (a ++ c)) := fun a b c => by
      rw [← List.append_assoc, ← List.append_assoc]
      exact List.perm_append_comm.append_right c
    have hsub : l ++ (parts.map (topK r k)).flatten ⊆ l ++ parts.flatten := by
      refine List.append_subset.mpr ⟨List.subset_append_left _ _, ?_⟩
      refine List.Subset.trans ?_ (List.subset_append_right _ _)
      intro a ha
      simp only [List.mem_flatten, List.mem_map] at ha ⊢
      obtain ⟨_, ⟨q, hq, rfl⟩, ha⟩ := ha
      exact ⟨q, hq, topK_subset k q ha⟩
    have hall : p ++ (l ++ (parts.map (topK r k)).flatten) ⊆ l ++ (p ++ parts.flatten) := by
      intro a ha
      rcases List.mem_append.mp ha with ha | ha
      · simp [ha]
      · have := hsub ha
        simp only [List.mem_append] at this ⊢
        tauto
    have htop : topK r k p ++ (l ++ (parts.map (topK r k)).flatten) ⊆
        p ++ (l ++ (parts.map (topK r k)).flatten) :=
      List.append_subset.mpr ⟨fun a ha => List.mem_append_left _ (topK_subset k p ha),
        List.subset_append_right _ _⟩
    calc topK r k (l ++ (topK r k p ++ (parts.map (topK r k)).flatten))
        = topK r k (topK r k p ++ (l ++ (parts.map (topK r k)).flatten)) :=
          topK_perm (hsep.of_subset (List.Subset.trans htop hall)) (hswap _ _ _)
      _ = topK r k (p ++ (l ++ (parts.map (topK r k)).flatten)) :=
          topK_append (hsep.of_subset hall)
      _ = topK r k ((l ++ p) ++ (parts.map (topK r k)).flatten) := by
          refine topK_perm (hsep.of_subset ?_) ?_
          · intro a ha
            refine hall ?_
            simp only [List.mem_append] at ha ⊢
            tauto
          · rw [List.append_assoc]
            exact hswap p l _
      _ = topK r k ((l ++ p) ++ parts.flatten) := by
          apply ih
          rwa [List.append_assoc]
      _ = topK r k (l ++ (p ++ parts.flatten)) := by rw [List.append_assoc]

theorem topK_parts {k : ℕ} {parts : List (List α)} (hsep : Separates r parts.flatten) :
    topK r k (parts.map (topK r k)).flatten = topK r k parts.flatten := by
  simpa using topK_flatten (l := []) (by simpa using hsep)

theorem topK_append_of_before {k : ℕ} {l m : List α} (hsep : Separates r (l ++ m))
    (h : ∀ a ∈ l, ∀ b ∈ m, r a b) : topK r k (l ++ m) = (topK r k l ++ m.insertionSort r).take k := by
  have hsort : (l ++ m).insertionSort r = l.insertionSort r ++ m.insertionSort r := by
    refine insertionSort_eq hsep ?_ (List.pairwise_append.mpr
      ⟨List.pairwise_insertionSort r l, List.pairwise_insertionSort r m, ?_⟩)
    · exact (List.perm_insertionSort r l).append (List.perm_insertionSort r m)
    · intro a ha b hb
      exact h a ((List.mem_insertionSort r).mp ha) b ((List.mem_insertionSort r).mp hb)
  rw [topK, topK, hsort, List.take_append, List.take_append, List.take_take, min_self,
    List.length_take]
  by_cases hk : k ≤ (l.insertionSort r).length
  · rw [min_eq_left hk, Nat.sub_eq_zero_of_le hk, Nat.sub_self]
  · rw [min_eq_right (by omega)]

end ChampionRuntime.Lib
