import Mathlib.Data.List.Sort
import Mathlib.Tactic

/-!
# Insertion-ordered collections with one item for each key

A dictionary whose items carry their own keys. An item put under a key that is
there replaces the old one in its place; any other is appended. Sorted by key,
the items depend on the lookups only.
-/
namespace ChampionRuntime.Lib

variable {α κ : Type}

structure Keyed (key : α → κ) where
  items : List α
  nodup : (items.map key).Nodup

namespace Keyed

variable {key : α → κ}

section Sorted

variable [LinearOrder κ]

def sortItems (key : α → κ) (items : List α) : List α :=
  items.insertionSort fun a b => key a ≤ key b

theorem perm_sortItems (items : List α) : (sortItems key items).Perm items :=
  List.perm_insertionSort _ _

theorem sortItems_eq_of_perm {items items' : List α} (h : items.Perm items')
    (hnd : (items.map key).Nodup) : sortItems key items = sortItems key items' := by
  have hperm : (sortItems key items).Perm (sortItems key items') :=
    (perm_sortItems items).trans (h.trans (perm_sortItems items').symm)
  have : Std.Total fun a b : α => key a ≤ key b := ⟨fun a b => le_total (key a) (key b)⟩
  have : IsTrans α fun a b : α => key a ≤ key b := ⟨fun _ _ _ => le_trans⟩
  refine hperm.eq_of_pairwise ?_ (List.pairwise_insertionSort _ items)
    (List.pairwise_insertionSort _ items')
  intro a b ha hb hab hba
  have ha' : a ∈ items := (perm_sortItems items).mem_iff.mp ha
  have hb' : b ∈ items := h.mem_iff.mpr ((perm_sortItems items').mem_iff.mp hb)
  exact List.inj_on_of_nodup_map hnd ha' hb' (le_antisymm hab hba)

theorem nodup_sortItems (s : Keyed key) : ((sortItems key s.items).map key).Nodup :=
  ((perm_sortItems s.items).map key).nodup_iff.mpr s.nodup

end Sorted

def empty : Keyed key := ⟨[], List.nodup_nil⟩

variable [DecidableEq κ]

def find? (s : Keyed key) (k : κ) : Option α := s.items.find? fun a => key a = k

def erase (s : Keyed key) (k : κ) : Keyed key :=
  ⟨s.items.filter fun a => key a ≠ k, s.nodup.sublist (List.filter_sublist.map key)⟩

private theorem map_key_replace (items : List α) (a : α) :
    (items.map fun b => if key b = key a then a else b).map key = items.map key := by
  rw [List.map_map]
  refine List.map_congr_left fun b _ => ?_
  by_cases h : key b = key a <;> simp [h]

def insert (s : Keyed key) (a : α) : Keyed key :=
  if h : key a ∈ s.items.map key then
    ⟨s.items.map fun b => if key b = key a then a else b, by
      rw [map_key_replace]
      exact s.nodup⟩
  else
    ⟨s.items ++ [a], by
      rw [List.map_append, List.nodup_append]
      refine ⟨s.nodup, List.nodup_singleton _, ?_⟩
      rintro k hk k' hk' rfl
      rw [List.map_singleton, List.mem_singleton] at hk'
      exact h (hk' ▸ hk)⟩

/-- The items put in one after the other. -/
def ofList (items : List α) : Keyed key := items.foldl (fun s a => s.insert a) empty

variable {s t : Keyed key} {a : α} {k k' : κ}

theorem find?_eq_some : s.find? k = some a ↔ a ∈ s.items ∧ key a = k := by
  constructor
  · intro h
    exact ⟨List.mem_of_find?_eq_some h, by simpa using List.find?_some h⟩
  · rintro ⟨hmem, rfl⟩
    cases hfound : s.find? (key a) with
    | none =>
      have hne := List.find?_eq_none.mp hfound a hmem
      simp at hne
    | some b =>
      have hb : b ∈ s.items := List.mem_of_find?_eq_some hfound
      have hkey : key b = key a := by simpa using List.find?_some hfound
      rw [List.inj_on_of_nodup_map s.nodup hb hmem hkey]

theorem key_of_find? (h : s.find? k = some a) : key a = k := (find?_eq_some.mp h).2

theorem mem_keys : k ∈ s.items.map key ↔ (s.find? k).isSome = true := by
  rw [Option.isSome_iff_exists, List.mem_map]
  exact exists_congr fun a => find?_eq_some.symm

@[simp] theorem find?_empty (k : κ) : (empty : Keyed key).find? k = none := rfl

@[simp] theorem find?_erase (s : Keyed key) (k k' : κ) :
    (s.erase k).find? k' = if k' = k then none else s.find? k' := by
  ext b
  rw [find?_eq_some]
  by_cases h : k' = k
  · simp only [erase, List.mem_filter, h, if_true, reduceCtorEq, iff_false]
    rintro ⟨⟨-, hne⟩, heq⟩
    simp [heq] at hne
  · simp only [erase, List.mem_filter, h, if_false, find?_eq_some]
    constructor
    · rintro ⟨⟨hb, -⟩, heq⟩
      exact ⟨hb, heq⟩
    · rintro ⟨hb, heq⟩
      exact ⟨⟨hb, by simp [heq, h]⟩, heq⟩

theorem mem_insert {b : α} :
    b ∈ (s.insert a).items ↔ b = a ∨ (b ∈ s.items ∧ key b ≠ key a) := by
  unfold insert
  split_ifs with h
  · simp only [List.mem_map]
    constructor
    · rintro ⟨c, hc, rfl⟩
      by_cases hkey : key c = key a
      · exact .inl (if_pos hkey)
      · rw [if_neg hkey]
        exact .inr ⟨hc, hkey⟩
    · rintro (rfl | ⟨hb, hkey⟩)
      · obtain ⟨c, hc, hkey⟩ := List.mem_map.mp h
        exact ⟨c, hc, if_pos hkey⟩
      · exact ⟨b, hb, if_neg hkey⟩
  · simp only [List.mem_append, List.mem_singleton]
    constructor
    · rintro (hb | rfl)
      · exact .inr ⟨hb, fun hkey => h (hkey ▸ List.mem_map_of_mem hb)⟩
      · exact .inl rfl
    · rintro (rfl | ⟨hb, -⟩)
      · exact .inr rfl
      · exact .inl hb

@[simp] theorem find?_insert (s : Keyed key) (a : α) (k : κ) :
    (s.insert a).find? k = if k = key a then some a else s.find? k := by
  ext b
  rw [find?_eq_some, mem_insert]
  by_cases h : k = key a
  · subst h
    simp only [if_true, Option.some.injEq]
    constructor
    · rintro ⟨rfl | ⟨-, hne⟩, heq⟩
      · rfl
      · exact absurd heq hne
    · rintro rfl
      exact ⟨.inl rfl, rfl⟩
  · simp only [h, if_false, find?_eq_some]
    constructor
    · rintro ⟨rfl | ⟨hb, -⟩, heq⟩
      · exact absurd heq.symm h
      · exact ⟨hb, heq⟩
    · rintro ⟨hb, heq⟩
      exact ⟨.inr ⟨hb, fun hkey => h (heq ▸ hkey)⟩, heq⟩

def filter (s : Keyed key) (keep : α → Bool) : Keyed key :=
  ⟨s.items.filter keep, s.nodup.sublist (List.filter_sublist.map key)⟩

@[simp] theorem find?_filter (s : Keyed key) (keep : α → Bool) (k : κ) :
    (s.filter keep).find? k = (s.find? k).filter keep := by
  ext b
  rw [find?_eq_some, Option.filter_eq_some_iff, find?_eq_some]
  simp only [filter, List.mem_filter]
  tauto

theorem isSome_find?_ofList (items : List α) (k : κ) :
    ((ofList items : Keyed key).find? k).isSome = true ↔ k ∈ items.map key := by
  have hfold : ∀ (items : List α) (s : Keyed key),
      ((items.foldl (fun s a => s.insert a) s).find? k).isSome = true ↔
        k ∈ items.map key ∨ (s.find? k).isSome = true := by
    intro items
    induction items with
    | nil => simp
    | cons b items ih =>
      intro s
      rw [List.foldl_cons, ih, find?_insert]
      by_cases h : k = key b <;> simp [h]
  rw [ofList, hfold, find?_empty]
  simp

theorem find?_ofList (items : List α) (k : κ) :
    (ofList items : Keyed key).find? k = items.reverse.find? fun a => key a = k := by
  induction items using List.reverseRecOn with
  | nil => rfl
  | append_singleton items a ih =>
    have hlast : (ofList (items ++ [a]) : Keyed key) = (ofList items).insert a := by
      rw [ofList, List.foldl_append]
      rfl
    rw [hlast, find?_insert, ih, List.reverse_append, List.reverse_singleton,
      List.singleton_append, List.find?_cons]
    by_cases h : k = key a
    · simp [h]
    · simp [h, Ne.symm h]

theorem mem_ofList {items : List α} {a : α} : a ∈ (ofList items : Keyed key).items ↔
    (items.reverse.find? fun b => key b = key a) = some a := by
  rw [← find?_ofList, find?_eq_some]
  exact (and_iff_left rfl).symm

theorem mem_of_find?_ofList {items : List α} {k : κ} {a : α}
    (h : (ofList items : Keyed key).find? k = some a) : a ∈ items ∧ key a = k := by
  have hkey := key_of_find? h
  rw [find?_ofList] at h
  exact ⟨List.mem_reverse.mp (List.mem_of_find?_eq_some h), hkey⟩

theorem ofList_items {items : List α} (hnd : (items.map key).Nodup) :
    (ofList items : Keyed key).items = items := by
  have hfold : ∀ (items : List α) (s : Keyed key), ((s.items ++ items).map key).Nodup →
      (items.foldl (fun s a => s.insert a) s).items = s.items ++ items := by
    intro items
    induction items with
    | nil => simp
    | cons b items ih =>
      intro s hnd
      have hnot : key b ∉ s.items.map key := by
        rw [List.map_append, List.nodup_append] at hnd
        intro hmem
        exact hnd.2.2 _ hmem _ (by simp) rfl
      have hinsert : (s.insert b).items = s.items ++ [b] := by rw [insert, dif_neg hnot]
      rw [List.foldl_cons, ih, hinsert, List.append_assoc, List.singleton_append]
      rw [hinsert]
      simpa using hnd
  simpa [ofList, empty] using hfold items empty (by simpa [empty] using hnd)

theorem perm_of_find?_eq (h : ∀ k, s.find? k = t.find? k) : s.items.Perm t.items := by
  refine (List.perm_ext_iff_of_nodup s.nodup.of_map t.nodup.of_map).mpr fun a => ?_
  have hs := find?_eq_some (s := s) (a := a) (k := key a)
  have ht := find?_eq_some (s := t) (a := a) (k := key a)
  simp only [and_true] at hs ht
  rw [← hs, ← ht, h]

theorem items_insert_of_new (h : s.find? (key a) = none) : (s.insert a).items = s.items ++ [a] := by
  have hnew : key a ∉ s.items.map key := by
    rw [mem_keys, h]
    exact Bool.false_ne_true
  rw [insert, dif_neg hnew]

theorem perm_cons_erase (h : s.find? k = some a) : s.items.Perm (a :: (s.erase k).items) := by
  have hkey := key_of_find? h
  have hnew : (s.erase k).find? (key a) = none := by
    rw [find?_erase, if_pos hkey]
  have hagain : ∀ k', s.find? k' = ((s.erase k).insert a).find? k' := by
    intro k'
    rw [find?_insert, find?_erase, hkey]
    split_ifs with heq
    · rw [heq, h]
    · rfl
  have hperm := perm_of_find?_eq hagain
  rw [items_insert_of_new hnew] at hperm
  exact hperm.trans (List.perm_append_singleton a _)

theorem perm_erase_of_none (h : s.find? k = none) : (s.erase k).items.Perm s.items := by
  apply perm_of_find?_eq
  intro k'
  rw [find?_erase]
  split_ifs with heq
  · rw [heq, h]
  · rfl

section Sums

variable {M : Type} [AddCommMonoid M] (f : α → M)

theorem sum_insert_of_new (h : s.find? (key a) = none) :
    ((s.insert a).items.map f).sum = (s.items.map f).sum + f a := by
  rw [items_insert_of_new h, List.map_append, List.sum_append, List.map_singleton,
    List.sum_singleton]

theorem sum_eq_add_sum_erase (h : s.find? k = some a) :
    (s.items.map f).sum = f a + ((s.erase k).items.map f).sum := by
  rw [((perm_cons_erase h).map f).sum_eq, List.map_cons, List.sum_cons]

theorem sum_erase_of_none (h : s.find? k = none) :
    ((s.erase k).items.map f).sum = (s.items.map f).sum :=
  ((perm_erase_of_none h).map f).sum_eq

end Sums

section Lookups

variable [LinearOrder κ]

theorem sortItems_congr (h : ∀ k, s.find? k = t.find? k) :
    sortItems key s.items = sortItems key t.items :=
  sortItems_eq_of_perm (perm_of_find?_eq h) s.nodup

theorem find?_ofList_sortItems (s : Keyed key) (k : κ) :
    (ofList (sortItems key s.items) : Keyed key).find? k = s.find? k := by
  ext a
  rw [find?_eq_some, find?_eq_some, ofList_items s.nodup_sortItems,
    (perm_sortItems s.items).mem_iff]

end Lookups

end Keyed

end ChampionRuntime.Lib
