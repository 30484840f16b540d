import ChampionRuntime.Lib.Assoc
import Mathlib.Data.List.Sort
import Mathlib.Tactic

/-!
# Buckets

Increasing sizes cut the numbers below the last of them into ranges, and every
number of a range is served by the size that ends it. A table that is filled
range by range finds for a number the smallest size that still holds it.
-/
namespace ChampionRuntime.Lib

/-- The numbers from `start` on, each with the size that serves it. -/
def assign (start : ℕ) : List ℕ → List (ℕ × ℕ)
  | [] => []
  | size :: sizes =>
    (List.range' start (size + 1 - start)).map (fun n => (n, size)) ++ assign (size + 1) sizes

theorem mem_assign {sizes : List ℕ} (hsorted : sizes.Pairwise (· < ·)) {start n size : ℕ}
    (hstart : ∀ size ∈ sizes, start ≤ size) :
    (n, size) ∈ assign start sizes ↔
      start ≤ n ∧ size ∈ sizes ∧ n ≤ size ∧ ∀ other ∈ sizes, n ≤ other → size ≤ other := by
  induction sizes generalizing start with
  | nil => simp [assign]
  | cons first sizes ih =>
    obtain ⟨hfirst, hrest⟩ := List.pairwise_cons.mp hsorted
    have hle := hstart first List.mem_cons_self
    simp only [assign, List.mem_append, List.mem_map, List.mem_range'_1, Prod.mk.injEq,
      ih hrest fun size hmem => hfirst size hmem]
    constructor
    · rintro (⟨m, hm, rfl, rfl⟩ | ⟨hbehind, hmem, hle, hleast⟩)
      · refine ⟨hm.1, List.mem_cons_self, by omega, ?_⟩
        intro other hother _
        rcases List.mem_cons.mp hother with rfl | hother
        · exact le_rfl
        · exact (hfirst other hother).le
      · have hlt := hfirst size hmem
        refine ⟨by omega, List.mem_cons_of_mem _ hmem, hle, ?_⟩
        intro other hother hn
        rcases List.mem_cons.mp hother with rfl | hother
        · omega
        · exact hleast other hother hn
    · rintro ⟨hstart, hmem, hle, hleast⟩
      by_cases hn : n ≤ first
      · have hsize := hleast first List.mem_cons_self hn
        rcases List.mem_cons.mp hmem with rfl | hmem
        · exact .inl ⟨n, by omega, rfl, rfl⟩
        · exact absurd (hfirst size hmem) (by omega)
      · rcases List.mem_cons.mp hmem with rfl | hmem
        · omega
        · refine .inr ⟨by omega, hmem, hle, fun other hother => ?_⟩
          exact hleast other (List.mem_cons_of_mem _ hother)

theorem lookup_of_unique {α β : Type} [BEq α] [LawfulBEq α] {l : List (α × β)} {a : α} {b : β}
    (hmem : (a, b) ∈ l) (hunique : ∀ b', (a, b') ∈ l → b' = b) : l.lookup a = some b := by
  cases hfound : l.lookup a with
  | none =>
    have hne := List.lookup_eq_none_iff.mp hfound (a, b) hmem
    simp at hne
  | some found => rw [hunique found (mem_of_lookup_eq_some hfound)]

section Table

variable {α κ : Type} (bucket : ℕ → κ → List α)

/-- The table of the buckets that hold something, for each number and each kind. -/
def bucketTable (sizes : List ℕ) (kinds : List κ) : List ((ℕ × κ) × List α) :=
  (assign 0 sizes).flatMap fun (n, size) =>
    kinds.filterMap fun kind =>
      if bucket size kind = [] then none else some ((n, kind), bucket size kind)

variable {bucket} {sizes : List ℕ} {kinds : List κ} {n : ℕ} {kind : κ} {found : List α}

theorem mem_bucketTable (hsorted : sizes.Pairwise (· < ·)) :
    ((n, kind), found) ∈ bucketTable bucket sizes kinds ↔
      ∃ size ∈ sizes, n ≤ size ∧ (∀ other ∈ sizes, n ≤ other → size ≤ other) ∧ kind ∈ kinds ∧
        found = bucket size kind ∧ found ≠ [] := by
  simp only [bucketTable, List.mem_flatMap, List.mem_filterMap, Prod.exists,
    mem_assign hsorted fun _ _ => Nat.zero_le _]
  constructor
  · rintro ⟨m, size, ⟨-, hmem, hle, hleast⟩, kind', hkind, hbucket⟩
    split_ifs at hbucket with hempty
    simp only [Option.some.injEq, Prod.mk.injEq] at hbucket
    obtain ⟨⟨rfl, rfl⟩, rfl⟩ := hbucket
    exact ⟨size, hmem, hle, hleast, hkind, rfl, hempty⟩
  · rintro ⟨size, hmem, hle, hleast, hkind, rfl, hne⟩
    exact ⟨n, size, ⟨Nat.zero_le _, hmem, hle, hleast⟩, kind, hkind, by rw [if_neg hne]⟩

variable [DecidableEq κ]

theorem lookup_bucketTable (hsorted : sizes.Pairwise (· < ·)) :
    (bucketTable bucket sizes kinds).lookup (n, kind) = some found ↔
      ∃ size ∈ sizes, n ≤ size ∧ (∀ other ∈ sizes, n ≤ other → size ≤ other) ∧ kind ∈ kinds ∧
        found = bucket size kind ∧ found ≠ [] := by
  rw [← mem_bucketTable hsorted]
  refine ⟨mem_of_lookup_eq_some, fun hmem => lookup_of_unique hmem fun found' hmem' => ?_⟩
  obtain ⟨size, hsize, hle, hleast, -, rfl, -⟩ := (mem_bucketTable hsorted).mp hmem
  obtain ⟨size', hsize', hle', hleast', -, rfl, -⟩ := (mem_bucketTable hsorted).mp hmem'
  rw [le_antisymm (hleast size' hsize' hle') (hleast' size hsize hle)]

theorem lookup_bucketTable_self (hsorted : sizes.Pairwise (· < ·)) (hsize : n ∈ sizes)
    (hkind : kind ∈ kinds) (hne : bucket n kind ≠ []) :
    (bucketTable bucket sizes kinds).lookup (n, kind) = some (bucket n kind) :=
  (lookup_bucketTable hsorted).mpr ⟨n, hsize, le_rfl, fun _ _ h => h, hkind, rfl, hne⟩

end Table

end ChampionRuntime.Lib
