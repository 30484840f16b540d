import Mathlib.Data.List.Forall2
import Mathlib.Data.List.Sort
import Mathlib.Order.Lattice

/-!
# Sorting by a key

A stable sort by a key: with distinct keys the result does not depend on the
order of the list, lists that agree on the keys are sorted alike, and a part
that is later than the rest stays behind it.
-/
namespace ChampionRuntime.Lib

variable {α β κ : Type*} [LinearOrder κ]

/-- `sorted(l, key=key)` -/
def sortBy (key : α → κ) (l : List α) : List α := l.insertionSort fun a b => key a ≤ key b

variable {key : α → κ} {l l' : List α}

theorem perm_sortBy (key : α → κ) (l : List α) : (sortBy key l).Perm l :=
  List.perm_insertionSort _ _

theorem pairwise_sortBy (key : α → κ) (l : List α) :
    (sortBy key l).Pairwise fun a b => key a ≤ key b :=
  List.pairwise_insertionSort _ _

theorem sortBy_eq_of_perm (h : l.Perm l') (hd : (l.map key).Nodup) : sortBy key l = sortBy key l' := by
  have hperm : (sortBy key l).Perm (sortBy key l') :=
    (perm_sortBy key l).trans (h.trans (perm_sortBy key l').symm)
  apply hperm.eq_of_pairwise _ (pairwise_sortBy key l) (pairwise_sortBy key l')
  intro a b ha hb hab hba
  have ha : a ∈ l := (perm_sortBy key l).mem_iff.mp ha
  have hb : b ∈ l := h.mem_iff.mpr ((perm_sortBy key l').mem_iff.mp hb)
  exact List.inj_on_of_nodup_map hd ha hb (le_antisymm hab hba)

theorem forall₂_orderedInsert {key' : β → κ} {R : α → β → Prop} {l : List α} {l' : List β}
    (hkey : ∀ a b, R a b → key a = key' b) {a : α} {b : β} (hab : R a b) (h : List.Forall₂ R l l') :
    List.Forall₂ R (l.orderedInsert (fun a b => key a ≤ key b) a)
      (l'.orderedInsert (fun a b => key' a ≤ key' b) b) := by
  induction h with
  | nil => exact .cons hab .nil
  | @cons c d l l' hcd hrest ih =>
    rw [List.orderedInsert_cons, List.orderedInsert_cons, hkey a b hab, hkey c d hcd]
    split_ifs
    · exact .cons hab (.cons hcd hrest)
    · exact .cons hcd ih

theorem forall₂_sortBy {key' : β → κ} {R : α → β → Prop} {l : List α} {l' : List β}
    (hkey : ∀ a b, R a b → key a = key' b) (h : List.Forall₂ R l l') :
    List.Forall₂ R (sortBy key l) (sortBy key' l') := by
  induction h with
  | nil => exact .nil
  | cons hab _ ih => exact forall₂_orderedInsert hkey hab ih

theorem orderedInsert_append {a : α} (h : ∀ b ∈ l', key a < key b) :
    (l ++ l').orderedInsert (fun a b => key a ≤ key b) a =
      l.orderedInsert (fun a b => key a ≤ key b) a ++ l' := by
  induction l with
  | nil =>
    cases l' with
    | nil => rfl
    | cons b l' =>
      rw [List.nil_append, List.orderedInsert_cons, if_pos (h b List.mem_cons_self).le]
      rfl
  | cons c l ih =>
    rw [List.cons_append, List.orderedInsert_cons, List.orderedInsert_cons, ih]
    split_ifs <;> rfl

theorem sortBy_append (h : ∀ a ∈ l, ∀ b ∈ l', key a < key b) :
    sortBy key (l ++ l') = sortBy key l ++ sortBy key l' := by
  induction l with
  | nil => rfl
  | cons a l ih =>
    have hlater : ∀ b ∈ sortBy key l', key a < key b := by
      intro b hb
      exact h a List.mem_cons_self b ((perm_sortBy key l').mem_iff.mp hb)
    change (sortBy key (l ++ l')).orderedInsert (fun a b => key a ≤ key b) a = _
    rw [ih fun c hc => h c (List.mem_cons_of_mem _ hc), orderedInsert_append hlater]
    rfl

end ChampionRuntime.Lib
