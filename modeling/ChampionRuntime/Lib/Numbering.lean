import Mathlib.Data.List.Sort
import Mathlib.Data.List.Range
import Mathlib.Tactic

/-!
# Numbered events in chronological order

A list of events sorted by time, ties by number, shows the numbers one to `n`
in order exactly when no number is skipped and no later number has an earlier
time.
-/
namespace ChampionRuntime.Lib

variable {α β : Type*} [LinearOrder β] {num : α → ℤ} {time : α → β} {l : List α}

/-- `list(range(1, n + 1))`. -/
def oneTo (n : ℕ) : List ℤ := (List.range n).map fun i : ℕ => (i : ℤ) + 1

theorem length_oneTo (n : ℕ) : (oneTo n).length = n := by simp [oneTo]

theorem mem_oneTo {n : ℕ} {k : ℤ} : k ∈ oneTo n ↔ 1 ≤ k ∧ k ≤ n := by
  simp only [oneTo, List.mem_map, List.mem_range]
  constructor
  · rintro ⟨i, hi, rfl⟩
    omega
  · rintro ⟨h1, hn⟩
    exact ⟨(k - 1).toNat, by omega, by omega⟩

theorem pairwise_oneTo (n : ℕ) : (oneTo n).Pairwise (· < ·) := by
  rw [oneTo, List.pairwise_map]
  exact List.pairwise_lt_range.imp fun h => by omega

theorem nodup_oneTo (n : ℕ) : (oneTo n).Nodup := (pairwise_oneTo n).imp fun h => ne_of_lt h

theorem perm_oneTo {numbers : List ℤ} (hnd : numbers.Nodup) (hpos : ∀ k ∈ numbers, 1 ≤ k)
    (hle : ∀ k ∈ numbers, k ≤ numbers.length) : numbers.Perm (oneTo numbers.length) := by
  have hsub : numbers.Subperm (oneTo numbers.length) :=
    List.subperm_of_subset hnd fun k hk => mem_oneTo.mpr ⟨hpos k hk, hle k hk⟩
  exact hsub.perm_of_length_le (length_oneTo _).le

/-- The order in which numbered events are listed. -/
def ListedBefore (time : α → β) (num : α → ℤ) (a b : α) : Prop :=
  time a < time b ∨ time a = time b ∧ num a ≤ num b

theorem ListedBefore.time_le {a b : α} (h : ListedBefore time num a b) : time a ≤ time b := by
  rcases h with h | ⟨h, -⟩
  · exact h.le
  · exact h.le

theorem numbered_iff (hsorted : l.Pairwise (ListedBefore time num))
    (hpos : ∀ a ∈ l, 1 ≤ num a) (hnd : (l.map num).Nodup) :
    l.map num = oneTo l.length ↔
      (∀ a ∈ l, num a ≤ l.length) ∧
        ∀ a ∈ l, ∀ b ∈ l, num a < num b → time a ≤ time b := by
  constructor
  · intro h
    have hlt : l.Pairwise fun a b => num a < num b := by
      rw [← List.pairwise_map, h]
      exact pairwise_oneTo _
    refine ⟨fun a ha => ?_, fun a ha b hb hab => ?_⟩
    · have hmem : num a ∈ oneTo l.length := h ▸ List.mem_map_of_mem ha
      exact (mem_oneTo.mp hmem).2
    · -- of two events the one with the smaller number stands first
      have hboth := List.Pairwise.and hlt hsorted
      obtain ⟨i, hi, rfl⟩ := List.getElem_of_mem ha
      obtain ⟨j, hj, rfl⟩ := List.getElem_of_mem hb
      rcases lt_trichotomy i j with hij | rfl | hji
      · exact (List.pairwise_iff_getElem.mp hboth i j hi hj hij).2.time_le
      · exact le_rfl
      · exact absurd (List.pairwise_iff_getElem.mp hboth j i hj hi hji).1 hab.not_gt
  · rintro ⟨hle, htime⟩
    have hpos' : ∀ k ∈ l.map num, 1 ≤ k := by
      intro k hk
      obtain ⟨a, ha, rfl⟩ := List.mem_map.mp hk
      exact hpos a ha
    have hle' : ∀ k ∈ l.map num, k ≤ (l.map num).length := by
      intro k hk
      obtain ⟨a, ha, rfl⟩ := List.mem_map.mp hk
      simpa using hle a ha
    have hperm : (l.map num).Perm (oneTo l.length) := by
      simpa using perm_oneTo hnd hpos' hle'
    have hnum : (l.map num).Pairwise (· ≤ ·) := by
      rw [List.pairwise_map]
      refine hsorted.imp_of_mem fun {a b} ha hb hab => ?_
      by_contra hlt
      rcases hab with hab | ⟨-, hab⟩
      · exact absurd (htime b hb a ha (not_le.mp hlt)) hab.not_ge
      · exact hlt hab
    exact hperm.eq_of_pairwise' hnum ((pairwise_oneTo _).imp le_of_lt)

end ChampionRuntime.Lib
