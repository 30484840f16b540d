import Mathlib.Data.Nat.Log
import Mathlib.Tactic

/-!
# Binary32 bit patterns

A finite pattern stands for an integer number of units of the smallest positive
value. The infinities continue the scale by one exponent, so that patterns other
than a NaN compare as integers.
-/
namespace ChampionRuntime.Lib.Binary32

def magnitude (bits : BitVec 32) : ℕ := bits.toNat % 2 ^ 31

def exponent (bits : BitVec 32) : ℕ := magnitude bits / 2 ^ 23

def fraction (bits : BitVec 32) : ℕ := magnitude bits % 2 ^ 23

def isFinite (bits : BitVec 32) : Bool := exponent bits < 255

/-- The value of a finite pattern in units of the smallest positive value. -/
def units (bits : BitVec 32) : ℤ :=
  let size : ℕ :=
    if exponent bits = 0 then fraction bits
    else (2 ^ 23 + fraction bits) * 2 ^ (exponent bits - 1)
  if 2 ^ 31 ≤ bits.toNat then -size else size

def negInf : BitVec 32 := 0xff800000#32

/-- The 24-bit significand of an integer whose leading bit is bit `e`, rounded
to the nearest, ties to even. A carry out of it raises the exponent. -/
def significand (n e : ℕ) : ℕ :=
  if e ≤ 23 then n * 2 ^ (23 - e)
  else
    let unit := 2 ^ (e - 23)
    let low := n / unit
    let rest := n % unit
    if 2 * rest < unit then low
    else if unit < 2 * rest then low + 1
    else if low % 2 = 0 then low else low + 1

/-- The conversion of an integer to binary32. -/
def ofInt (n : ℤ) : BitVec 32 :=
  let sign := if n < 0 then 2 ^ 31 else 0
  let e := Nat.log 2 n.natAbs
  BitVec.ofNat 32 (sign + if n = 0 then 0 else (e + 126) * 2 ^ 23 + significand n.natAbs e)

/-- The integer that an integral value stands for. -/
def toInt (bits : BitVec 32) : ℤ := units bits / 2 ^ 149

theorem units_negInf_lt {bits : BitVec 32} (h : isFinite bits = true) :
    units negInf < units bits := by
  have hexp : exponent bits ≤ 254 := by
    simp only [isFinite, decide_eq_true_eq] at h
    omega
  have hfrac : fraction bits < 2 ^ 23 := Nat.mod_lt _ (by decide)
  have hsize : (if exponent bits = 0 then fraction bits
      else (2 ^ 23 + fraction bits) * 2 ^ (exponent bits - 1)) < 2 ^ 24 * 2 ^ 253 := by
    split_ifs
    · exact hfrac.trans_le (by decide)
    · calc (2 ^ 23 + fraction bits) * 2 ^ (exponent bits - 1)
          < 2 ^ 24 * 2 ^ (exponent bits - 1) :=
            Nat.mul_lt_mul_of_pos_right (by omega) (by positivity)
        _ ≤ 2 ^ 24 * 2 ^ 253 :=
            Nat.mul_le_mul_left _ (Nat.pow_le_pow_right (by decide) (by omega))
  have hneg : units negInf = -(2 ^ 24 * 2 ^ 253) := by decide
  rw [hneg, units]
  generalize (if exponent bits = 0 then fraction bits
      else (2 ^ 23 + fraction bits) * 2 ^ (exponent bits - 1)) = size at *
  split_ifs <;> omega

theorem significand_bounds {n : ℕ} (h0 : n ≠ 0) (h : n < 2 ^ 24) :
    significand n (Nat.log 2 n) = n * 2 ^ (23 - Nat.log 2 n) ∧
      2 ^ 23 ≤ n * 2 ^ (23 - Nat.log 2 n) ∧ n * 2 ^ (23 - Nat.log 2 n) < 2 ^ 24 := by
  have he : Nat.log 2 n ≤ 23 := Nat.lt_succ_iff.mp (Nat.log_lt_of_lt_pow h0 h)
  have hlow : 2 ^ Nat.log 2 n ≤ n := Nat.pow_log_le_self 2 h0
  have hhigh : n < 2 ^ (Nat.log 2 n + 1) := Nat.lt_pow_succ_log_self (by decide) n
  have hpos : 0 < 2 ^ (23 - Nat.log 2 n) := by positivity
  refine ⟨by rw [significand, if_pos he], ?_, ?_⟩
  · calc 2 ^ 23 = 2 ^ Nat.log 2 n * 2 ^ (23 - Nat.log 2 n) := by
          rw [← pow_add, Nat.add_sub_cancel' he]
      _ ≤ n * 2 ^ (23 - Nat.log 2 n) := Nat.mul_le_mul_right _ hlow
  · calc n * 2 ^ (23 - Nat.log 2 n) < 2 ^ (Nat.log 2 n + 1) * 2 ^ (23 - Nat.log 2 n) :=
          Nat.mul_lt_mul_of_pos_right hhigh hpos
      _ = 2 ^ 24 := by
          rw [← pow_add]
          congr 1
          omega

theorem units_ofInt {n : ℤ} (h : n.natAbs < 2 ^ 24) : units (ofInt n) = n * 2 ^ 149 := by
  by_cases h0 : n = 0
  · subst h0
    decide
  have hne : n.natAbs ≠ 0 := Int.natAbs_ne_zero.mpr h0
  obtain ⟨hsig, hlow, hhigh⟩ := significand_bounds hne h
  have he : Nat.log 2 n.natAbs ≤ 23 := Nat.lt_succ_iff.mp (Nat.log_lt_of_lt_pow hne h)
  have hscale : n.natAbs * 2 ^ (23 - Nat.log 2 n.natAbs) * 2 ^ (Nat.log 2 n.natAbs + 126) =
      n.natAbs * 2 ^ 149 := by
    rw [Nat.mul_assoc, ← pow_add]
    congr 2
    omega
  have hbits : (ofInt n).toNat = (if n < 0 then 2 ^ 31 else 0) +
      ((Nat.log 2 n.natAbs + 126) * 2 ^ 23 + significand n.natAbs (Nat.log 2 n.natAbs)) := by
    simp only [ofInt, h0, if_false, BitVec.toNat_ofNat]
    apply Nat.mod_eq_of_lt
    split_ifs <;> omega
  rw [hsig] at hbits
  generalize n.natAbs * 2 ^ (23 - Nat.log 2 n.natAbs) = s at *
  generalize Nat.log 2 n.natAbs = e at *
  have hmag : magnitude (ofInt n) = (e + 126) * 2 ^ 23 + s := by
    rw [magnitude, hbits]
    split_ifs <;> omega
  have hexp : exponent (ofInt n) = e + 127 := by
    rw [exponent, hmag]
    omega
  have hfrac : 2 ^ 23 + fraction (ofInt n) = s := by
    rw [fraction, hmag]
    omega
  have hsign : 2 ^ 31 ≤ (ofInt n).toNat ↔ n < 0 := by
    rw [hbits]
    split_ifs with hn
    · simp [hn]
    · simp only [hn, iff_false]
      omega
  have hsize : ((if exponent (ofInt n) = 0 then fraction (ofInt n)
      else (2 ^ 23 + fraction (ofInt n)) * 2 ^ (exponent (ofInt n) - 1) : ℕ) : ℤ) =
      n.natAbs * 2 ^ 149 := by
    rw [hexp, if_neg (by omega), hfrac, show e + 127 - 1 = e + 126 by omega, hscale]
    push_cast
    rfl
  simp only [units, hsign]
  rw [hsize]
  split_ifs with hn
  · rw [← neg_mul, Int.ofNat_natAbs_of_nonpos hn.le, neg_neg]
  · rw [Int.natAbs_of_nonneg (by omega)]

theorem toInt_ofInt {n : ℤ} (h : n.natAbs < 2 ^ 24) : toInt (ofInt n) = n := by
  rw [toInt, units_ofInt h]
  exact Int.mul_ediv_cancel n (by positivity)

end ChampionRuntime.Lib.Binary32
