import Mathlib.Algebra.BigOperators.Group.Finset.Basic
import Mathlib.Data.Finset.Card
import Mathlib.Order.Interval.Finset.Nat
import Mathlib.Tactic

/-!
# Block-cyclic placement

Consecutive positions are dealt to `W` owners in blocks of `I`. A position is
determined by its owner and its place among the owner's positions, and the
positions of one owner below a bound are its first places.
-/
namespace ChampionRuntime.Lib.Interleave

variable {W I : ℕ}

def owner (W I t : ℕ) : ℕ := t / I % W

/-- The place of a position among those of its owner. -/
def place (W I t : ℕ) : ℕ := t / (W * I) * I + t % I

def position (W I r l : ℕ) : ℕ := (l / I * W + r) * I + l % I

theorem owner_lt (hW : 0 < W) (I t : ℕ) : owner W I t < W := Nat.mod_lt _ hW

theorem position_div (hI : 0 < I) (r l : ℕ) : position W I r l / I = l / I * W + r := by
  rw [position, Nat.add_comm, Nat.add_mul_div_right _ _ hI, Nat.div_eq_of_lt (Nat.mod_lt l hI),
    Nat.zero_add]

theorem position_mod (r l : ℕ) : position W I r l % I = l % I := by
  rw [position, Nat.add_comm, Nat.add_mul_mod_self_right, Nat.mod_mod]

theorem owner_position {r : ℕ} (hI : 0 < I) (hr : r < W) (l : ℕ) :
    owner W I (position W I r l) = r := by
  rw [owner, position_div hI, Nat.add_comm, Nat.add_mul_mod_self_right, Nat.mod_eq_of_lt hr]

theorem place_position {r : ℕ} (hI : 0 < I) (hr : r < W) (l : ℕ) :
    place W I (position W I r l) = l := by
  have hblock : position W I r l / (W * I) = l / I := by
    rw [Nat.mul_comm, ← Nat.div_div_eq_div_mul, position_div hI, Nat.add_comm,
      Nat.add_mul_div_right _ _ (by omega), Nat.div_eq_of_lt hr, Nat.zero_add]
  rw [place, hblock, position_mod]
  exact Nat.div_add_mod' l I

theorem place_div (hI : 0 < I) (t : ℕ) : place W I t / I = t / I / W := by
  rw [place, Nat.add_comm, Nat.add_mul_div_right _ _ hI, Nat.div_eq_of_lt (Nat.mod_lt t hI),
    Nat.zero_add, Nat.mul_comm, Nat.div_div_eq_div_mul]

theorem place_mod (t : ℕ) : place W I t % I = t % I := by
  rw [place, Nat.add_comm, Nat.add_mul_mod_self_right, Nat.mod_mod]

theorem position_place (hI : 0 < I) (t : ℕ) :
    position W I (owner W I t) (place W I t) = t := by
  rw [position, place_div hI, place_mod, owner, Nat.div_add_mod', Nat.div_add_mod']

theorem position_injective {r : ℕ} (hI : 0 < I) (hr : r < W) :
    Function.Injective (position W I r) :=
  Function.LeftInverse.injective fun l => place_position hI hr l

theorem position_lt_position {r l m : ℕ} (hI : 0 < I) (hr : r < W) (h : l < m) :
    position W I r l < position W I r m := by
  have hblocks : l / I ≤ m / I := Nat.div_le_div_right h.le
  rcases hblocks.lt_or_eq with hlt | heq
  · have hlow : position W I r l < (l / I * W + r + 1) * I := by
      rw [position, Nat.succ_mul]
      exact Nat.add_lt_add_left (Nat.mod_lt l hI) _
    have hstep : l / I * W + r + 1 ≤ m / I * W + r := by
      have := Nat.mul_le_mul_right W (Nat.succ_le_of_lt hlt)
      rw [Nat.succ_mul] at this
      omega
    exact hlow.trans_le ((Nat.mul_le_mul_right I hstep).trans (Nat.le_add_right _ _))
  · have hl := Nat.div_add_mod' l I
    have hm := Nat.div_add_mod' m I
    rw [heq] at hl
    simp only [position, heq]
    omega

/-- How many of the first `k` positions an owner holds: the full rounds, then
the part of its block that the last round reaches. -/
def ownedBelow (W I r k : ℕ) : ℕ :=
  k / I / W * I + min (k - k / I / W * I * W - r * I) I

theorem last_round {r j i : ℕ} (hi : i < I) :
    min (j * I + i - r * I) I = if r < j then I else if r = j then i else 0 := by
  split_ifs with hlt heq
  · have := Nat.mul_le_mul_right I (Nat.succ_le_of_lt hlt)
    rw [Nat.succ_mul] at this
    omega
  · subst heq
    omega
  · have := Nat.mul_le_mul_right I (show j + 1 ≤ r by omega)
    rw [Nat.succ_mul] at this
    omega

theorem position_lt_iff {r l k : ℕ} (hI : 0 < I) (hr : r < W) :
    position W I r l < k ↔ l < ownedBelow W I r k := by
  have hrounds : k / I / W * W + k / I % W = k / I := Nat.div_add_mod' _ _
  have hk : k / I * I + k % I = k := Nat.div_add_mod' _ _
  have hl : l / I * I + l % I = l := Nat.div_add_mod' _ _
  have hi : k % I < I := Nat.mod_lt k hI
  have hb : l % I < I := Nat.mod_lt l hI
  have hj : k / I % W < W := Nat.mod_lt _ (by omega)
  have hrest : k - k / I / W * I * W = k / I % W * I + k % I := by
    have : k / I / W * I * W + k / I % W * I = k / I * I := by
      calc k / I / W * I * W + k / I % W * I = (k / I / W * W + k / I % W) * I := by ring
        _ = k / I * I := by rw [hrounds]
    omega
  rw [ownedBelow, hrest, last_round hi, position]
  generalize k / I / W = q at *
  generalize k / I % W = j at *
  generalize l / I = a at *
  generalize k % I = i at *
  generalize l % I = b at *
  rw [← hk, ← hl, ← hrounds]
  -- the blocks are compared first, then the places inside one block
  rcases lt_trichotomy a q with haq | rfl | hqa
  · have hblock : a * W + r + 1 ≤ q * W + j := by
      have := Nat.mul_le_mul_right W (Nat.succ_le_of_lt haq)
      rw [Nat.succ_mul] at this
      omega
    have h1 := Nat.mul_le_mul_right I hblock
    have h2 := Nat.mul_le_mul_right I (Nat.succ_le_of_lt haq)
    rw [Nat.succ_mul] at h1 h2
    constructor <;> intro _ <;> omega
  · rcases lt_trichotomy r j with hrj | rfl | hjr
    · have h1 := Nat.mul_le_mul_right I (show a * W + r + 1 ≤ a * W + j by omega)
      rw [Nat.succ_mul] at h1
      simp only [hrj, if_true]
      constructor <;> intro _ <;> omega
    · simp only [lt_irrefl, if_false, if_true]
      omega
    · have h1 := Nat.mul_le_mul_right I (show a * W + j + 1 ≤ a * W + r by omega)
      rw [Nat.succ_mul] at h1
      simp only [hjr.not_gt, hjr.ne', if_false]
      constructor <;> intro _ <;> omega
  · have hblock : q * W + j + 1 ≤ a * W + r := by
      have := Nat.mul_le_mul_right W (Nat.succ_le_of_lt hqa)
      rw [Nat.succ_mul] at this
      omega
    have h1 := Nat.mul_le_mul_right I hblock
    have h2 := Nat.mul_le_mul_right I (Nat.succ_le_of_lt hqa)
    rw [Nat.succ_mul] at h1 h2
    split_ifs <;> constructor <;> intro _ <;> omega

theorem image_position {r : ℕ} (hI : 0 < I) (hr : r < W) (k : ℕ) :
    (Finset.range (ownedBelow W I r k)).image (position W I r) =
      (Finset.range k).filter fun t => owner W I t = r := by
  ext t
  simp only [Finset.mem_image, Finset.mem_range, Finset.mem_filter]
  constructor
  · rintro ⟨l, hl, rfl⟩
    exact ⟨(position_lt_iff hI hr).mpr hl, owner_position hI hr l⟩
  · rintro ⟨ht, rfl⟩
    refine ⟨place W I t, (position_lt_iff hI hr).mp ?_, position_place hI t⟩
    rwa [position_place hI]

theorem card_owned {r : ℕ} (hI : 0 < I) (hr : r < W) (k : ℕ) :
    ((Finset.range k).filter fun t => owner W I t = r).card = ownedBelow W I r k := by
  rw [← image_position hI hr, Finset.card_image_of_injective _ (position_injective hI hr),
    Finset.card_range]

theorem sum_ownedBelow (hW : 0 < W) (hI : 0 < I) (k : ℕ) :
    ∑ r ∈ Finset.range W, ownedBelow W I r k = k := by
  have hmaps : ∀ t ∈ Finset.range k, owner W I t ∈ Finset.range W := fun t _ =>
    Finset.mem_range.mpr (owner_lt hW I t)
  calc ∑ r ∈ Finset.range W, ownedBelow W I r k
      = ∑ r ∈ Finset.range W, ((Finset.range k).filter fun t => owner W I t = r).card :=
        Finset.sum_congr rfl fun r hr => (card_owned hI (Finset.mem_range.mp hr) k).symm
    _ = (Finset.range k).card := (Finset.card_eq_sum_card_fiberwise hmaps).symm
    _ = k := Finset.card_range k

end ChampionRuntime.Lib.Interleave
