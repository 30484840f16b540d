import Mathlib.Data.List.Nodup
import Mathlib.Data.Set.Function
import Mathlib.Tactic

/-!
# Rows of a flat buffer

A tensor of rows of one width is a function of the address. A row is written as a whole, and
what is written for several rows is read back when no row is written for two of them.
-/
namespace ChampionRuntime.Lib

variable {V ι : Type*} {width : ℕ}

theorem range_mul (W K : ℕ) :
    List.range (W * K) = (List.range W).flatMap fun rank => (List.range K).map (rank * K + ·) := by
  induction W with
  | zero => simp
  | succ W ih =>
    rw [List.range_succ, List.flatMap_append, ← ih, Nat.succ_mul, List.range_add]
    simp

theorem range_sum (n : ℕ) (size : ℕ → ℕ) :
    List.range (∑ c ∈ Finset.range n, size c) =
      (List.range n).flatMap fun c =>
        (List.range (size c)).map (∑ c' ∈ Finset.range c, size c' + ·) := by
  induction n with
  | zero => rfl
  | succ n ih =>
    rw [Finset.sum_range_succ, List.range_add, ih, List.range_succ, List.flatMap_append]
    simp

/-- The cells from an address on are replaced. -/
def writeSlots (out : ℕ → V) (base : ℕ) (slots : List V) (address : ℕ) : V :=
  if base ≤ address then (slots[address - base]?).getD (out address) else out address

def rowOf (width : ℕ) (out : ℕ → V) (row : ℕ) : List V :=
  (List.range width).map fun i => out (row * width + i)

@[simp] theorem length_rowOf (out : ℕ → V) (row : ℕ) : (rowOf width out row).length = width := by
  simp [rowOf]

theorem rowOf_writeSlots_self (out : ℕ → V) (row : ℕ) {slots : List V}
    (hlength : slots.length = width) :
    rowOf width (writeSlots out (row * width) slots) row = slots := by
  apply List.ext_getElem
  · rw [length_rowOf, hlength]
  · intro i _ hi
    simp [rowOf, writeSlots, List.getElem?_eq_getElem hi]

theorem rowOf_writeSlots_of_ne (out : ℕ → V) {row other : ℕ} (hne : other ≠ row) {slots : List V}
    (hlength : slots.length = width) :
    rowOf width (writeSlots out (row * width) slots) other = rowOf width out other := by
  apply List.map_congr_left
  intro i hi
  rw [List.mem_range] at hi
  unfold writeSlots
  split_ifs with hbase
  · -- the address lies a row or more after the base
    have hlt : row < other := by
      by_contra hle
      have hrows := Nat.mul_le_mul_right width (show other + 1 ≤ row by omega)
      rw [Nat.succ_mul] at hrows
      omega
    have hrows := Nat.mul_le_mul_right width (show row + 1 ≤ other from hlt)
    rw [Nat.succ_mul] at hrows
    rw [List.getElem?_eq_none (by omega), Option.getD_none]
  · rfl

section Writes

variable (row : ι → ℕ) (slots : ι → List V) {blocks : List ι}

/-- What a launch writes, block after block. -/
def writeRows (width : ℕ) (blocks : List ι) (out : ℕ → V) : ℕ → V :=
  blocks.foldl (fun out b => writeSlots out (row b * width) (slots b)) out

variable (hlength : ∀ b ∈ blocks, (slots b).length = width)
include hlength

theorem rowOf_writeRows_of_ne (out : ℕ → V) {r : ℕ} (hne : ∀ b ∈ blocks, r ≠ row b) :
    rowOf width (writeRows row slots width blocks out) r = rowOf width out r := by
  induction blocks generalizing out with
  | nil => rfl
  | cons b blocks ih =>
    rw [List.forall_mem_cons] at hlength hne
    rw [writeRows, List.foldl_cons, ← writeRows, ih hlength.2 _ hne.2,
      rowOf_writeSlots_of_ne out hne.1 hlength.1]

theorem rowOf_writeRows (out : ℕ → V) (hinj : Set.InjOn row {b | b ∈ blocks}) {b : ι}
    (hmem : b ∈ blocks) : rowOf width (writeRows row slots width blocks out) (row b) = slots b := by
  induction blocks generalizing out with
  | nil => cases hmem
  | cons a blocks ih =>
    rw [List.forall_mem_cons] at hlength
    rw [writeRows, List.foldl_cons, ← writeRows]
    by_cases hlater : b ∈ blocks
    · exact ih hlength.2 _ (hinj.mono fun _ h => List.mem_cons_of_mem a h) hlater
    · obtain rfl : b = a := (List.mem_cons.mp hmem).resolve_right hlater
      rw [rowOf_writeRows_of_ne row slots hlength.2, rowOf_writeSlots_self _ _ hlength.1]
      intro b' hb' heq
      have hsame : b = b' := hinj List.mem_cons_self (List.mem_cons_of_mem b hb') heq
      exact hlater (hsame ▸ hb')

end Writes

theorem map_range_mul (out : ℕ → V) (first count : ℕ) :
    ((List.range (count * width)).map fun i => out (first * width + i)) =
      (List.range count).flatMap fun i => rowOf width out (first + i) := by
  rw [range_mul, List.map_flatMap]
  apply List.flatMap_congr
  intro i _
  rw [List.map_map]
  apply List.map_congr_left
  intro j _
  rw [Function.comp_apply, Nat.add_mul, Nat.add_assoc]

end ChampionRuntime.Lib
