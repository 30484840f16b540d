import Mathlib.Data.List.Nodup

/-!
# Association lists with distinct keys

A list of pairs with distinct keys is a finite map: looking a key up finds the
pair that is there, whatever the order of the list.
-/
namespace ChampionRuntime.Lib

variable {α β : Type} [BEq α] [LawfulBEq α] {l l' : List (α × β)} {a : α} {b : β}

theorem mem_of_lookup_eq_some (h : l.lookup a = some b) : (a, b) ∈ l := by
  obtain ⟨before, after, hsplit, -⟩ := List.lookup_eq_some_iff.mp h
  simp [hsplit]

theorem lookup_eq_some_iff_mem (hnd : (l.map Prod.fst).Nodup) :
    l.lookup a = some b ↔ (a, b) ∈ l := by
  refine ⟨mem_of_lookup_eq_some, fun hmem => ?_⟩
  cases hfound : l.lookup a with
  | none =>
    have hne := List.lookup_eq_none_iff.mp hfound (a, b) hmem
    simp at hne
  | some found =>
    have heq := List.inj_on_of_nodup_map hnd (mem_of_lookup_eq_some hfound) hmem rfl
    rw [(Prod.mk.inj heq).2]

theorem lookup_eq_of_perm (h : l.Perm l') (hnd : (l.map Prod.fst).Nodup) (a : α) :
    l.lookup a = l'.lookup a := by
  ext b
  rw [lookup_eq_some_iff_mem hnd, lookup_eq_some_iff_mem ((h.map Prod.fst).nodup_iff.mp hnd),
    h.mem_iff]

end ChampionRuntime.Lib
