import ChampionRuntime.Lib.Json
import Mathlib.Algebra.Order.Floor.Ring
import Mathlib.Data.Int.Log
import Mathlib.Data.List.Sort
import Mathlib.Data.Rat.Floor

/-!
# Binary64 arithmetic and the order of Python numbers

Results are rounded to the nearest binary64 value, ties to the even
significand. An integer and a float compare by their exact values, and every
comparison with a not-a-number is false. The sign of a zero is not kept, since
no comparison sees it.
-/
namespace ChampionRuntime.Lib.Json

/-- The nearest integer, ties to the even one. -/
def roundHalfEven (q : ℚ) : ℤ :=
  let low := ⌊q⌋
  let rest := q - low
  if rest < 1 / 2 then low
  else if 1 / 2 < rest then low + 1
  else if low % 2 = 0 then low else low + 1

theorem roundHalfEven_mem (q : ℚ) : q - 1 < roundHalfEven q ∧ (roundHalfEven q : ℚ) ≤ q + 1 := by
  have hlow := Int.floor_le q
  have hhigh := Int.lt_floor_add_one q
  unfold roundHalfEven
  dsimp only
  split_ifs
  all_goals
    push_cast
    constructor <;> linarith

namespace PyFloat

/-- The exponent of the last place of a 53-bit significand; subnormal values
share the smallest one. -/
def lastPlace (q : ℚ) : ℤ := max (Int.log 2 |q| - 52) (-1074)

def ofRat (q : ℚ) : PyFloat :=
  let unit : ℚ := 2 ^ lastPlace q
  let rounded := roundHalfEven (q / unit) * unit
  if 2 ^ 1024 ≤ |rounded| then .inf (decide (rounded < 0)) else .finite rounded

def lt : PyFloat → PyFloat → Bool
  | finite a, finite b => decide (a < b)
  | finite _, inf negative => !negative
  | inf negative, finite _ => negative
  | inf negative, inf negative' => negative && !negative'
  | nan, _ => false
  | _, nan => false

def add : PyFloat → PyFloat → PyFloat
  | finite a, finite b => ofRat (a + b)
  | finite _, inf negative => inf negative
  | inf negative, finite _ => inf negative
  | inf negative, inf negative' => if negative = negative' then inf negative else nan
  | nan, _ => nan
  | _, nan => nan

def half : PyFloat → PyFloat
  | finite a => ofRat (a / 2)
  | x => x

/-- The part at the front of a list in which every two neighbours are related. -/
def splitRun (related : PyFloat → PyFloat → Bool) (x : PyFloat) :
    List PyFloat → List PyFloat × List PyFloat
  | [] => ([x], [])
  | y :: ys =>
    if related x y then
      let split := splitRun related y ys
      (x :: split.1, split.2)
    else ([x], y :: ys)

/-- The ascending run a list starts with, or its descending one the other way round. -/
def countRun : List PyFloat → List PyFloat × List PyFloat
  | [] => ([], [])
  | [x] => ([x], [])
  | x :: y :: ys =>
    if lt y x then
      let split := splitRun (fun a b => lt b a) x (y :: ys)
      (split.1.reverse, split.2)
    else splitRun (fun a b => !lt b a) x (y :: ys)

/-- The place of a value behind all that it is not less than, by halving. -/
def bisect (pivot : PyFloat) (ordered : List PyFloat) : ℕ → ℕ → ℕ → ℕ
  | 0, left, _ => left
  | fuel + 1, left, right =>
    if left < right then
      let middle := left + (right - left) / 2
      if lt pivot (ordered.getD middle nan) then bisect pivot ordered fuel left middle
      else bisect pivot ordered fuel (middle + 1) right
    else left

def insertAt (ordered : List PyFloat) (pivot : PyFloat) : List PyFloat :=
  let place := bisect pivot ordered ordered.length 0 ordered.length
  ordered.take place ++ pivot :: ordered.drop place

/-- `sorted`, as it treats fewer than 64 values: the run they start with, and the others
put in by halving. The order is only of interest where a not-a-number is among them. -/
def sorted (values : List PyFloat) : List PyFloat :=
  (countRun values).2.foldl insertAt (countRun values).1

theorem splitRun_append (related : PyFloat → PyFloat → Bool) (x : PyFloat) (ys : List PyFloat) :
    (splitRun related x ys).1 ++ (splitRun related x ys).2 = x :: ys := by
  induction ys generalizing x with
  | nil => rfl
  | cons y ys ih =>
    rw [splitRun]
    split
    · exact congrArg (x :: ·) (ih y)
    · rfl

theorem countRun_perm (values : List PyFloat) :
    ((countRun values).1 ++ (countRun values).2).Perm values := by
  match values with
  | [] => exact .refl _
  | [x] => exact .refl _
  | x :: y :: ys =>
    rw [countRun]
    split
    · refine ((List.reverse_perm _).append_right _).trans ?_
      rw [splitRun_append]
    · rw [splitRun_append]

theorem insertAt_perm (ordered : List PyFloat) (pivot : PyFloat) :
    (insertAt ordered pivot).Perm (pivot :: ordered) := by
  refine List.perm_middle.trans ?_
  rw [List.take_append_drop]

theorem sorted_perm (values : List PyFloat) : (sorted values).Perm values := by
  have hfold : ∀ rest ordered : List PyFloat,
      (rest.foldl insertAt ordered).Perm (ordered ++ rest) := by
    intro rest
    induction rest with
    | nil =>
      intro ordered
      rw [List.foldl_nil, List.append_nil]
    | cons pivot rest ih =>
      intro ordered
      refine (ih _).trans (((insertAt_perm ordered pivot).append_right rest).trans ?_)
      exact List.perm_middle.symm
  exact (hfold _ _).trans (countRun_perm values)

/-- `statistics.median` of a list of floats; the empty list has none. -/
def median (values : List PyFloat) : Option PyFloat :=
  let ordered := sorted values
  let middle := ordered.length / 2
  if ordered.length % 2 = 1 then ordered[middle]?
  else
    match ordered[middle - 1]?, ordered[middle]? with
    | some a, some b => some (half (add a b))
    | _, _ => none

end PyFloat

namespace Number

/-- The value of a number in the extended order floats are compared in. -/
def exact : Number → PyFloat
  | int n => .finite n
  | float x => x

def lt (a b : Number) : Bool := PyFloat.lt a.exact b.exact

/-- `float(value)`; an integer beyond the finite range raises. -/
def toFloat? : Number → Option PyFloat
  | int n =>
    match PyFloat.ofRat n with
    | .inf _ => none
    | x => some x
  | float x => some x

end Number

namespace PyFloat

/-- `a >= b` -/
def ge : PyFloat → PyFloat → Bool
  | finite a, finite b => decide (b ≤ a)
  | finite _, inf negative => negative
  | inf negative, finite _ => !negative
  | inf negative, inf negative' => !negative || negative'
  | nan, _ => false
  | _, nan => false

theorem ge_iff {a b : PyFloat} : ge a b = true ↔ lt a b = false ∧ a ≠ nan ∧ b ≠ nan := by
  cases a with
  | nan => simp [ge]
  | finite p => cases b <;> simp [ge, lt]
  | inf negative =>
    cases b with
    | nan => simp [ge]
    | finite q => simp [ge, lt]
    | inf negative' => cases negative <;> cases negative' <;> decide

theorem ofRat_ne_nan (q : ℚ) : ofRat q ≠ nan := by
  unfold ofRat
  dsimp only
  split_ifs <;> simp

/-- Rounding moves a value by less than its last place, so a bounded one stays finite. -/
theorem exists_ofRat_eq_finite {q : ℚ} (n : ℕ) (hq : |q| ≤ 2 ^ n) (hn : n ≤ 1022) :
    ∃ r, ofRat q = .finite r ∧ |r| ≤ 2 ^ (n + 1) := by
  have hplace : lastPlace q ≤ n := by
    have hlog : Int.log 2 |q| ≤ n := by
      rcases (abs_nonneg q).eq_or_lt with hzero | hpos
      · rw [← hzero, Int.log_of_right_le_zero _ le_rfl]
        omega
      · by_contra hlarge
        have hpow : ((2 : ℕ) : ℚ) ^ Int.log 2 |q| ≤ |q| := Int.zpow_log_le_self (by norm_num) hpos
        have hstep : (2 : ℚ) ^ (n + 1 : ℤ) ≤ 2 ^ Int.log 2 |q| :=
          zpow_le_zpow_right₀ (by norm_num) (by omega)
        have hlast : (2 : ℚ) ^ (n + 1 : ℤ) ≤ 2 ^ (n : ℤ) := by
          calc (2 : ℚ) ^ (n + 1 : ℤ)
            _ ≤ 2 ^ Int.log 2 |q| := hstep
            _ ≤ |q| := by exact_mod_cast hpow
            _ ≤ 2 ^ (n : ℤ) := by rwa [zpow_natCast]
        exact absurd hlast (zpow_lt_zpow_right₀ (by norm_num) (by omega)).not_ge
    unfold lastPlace
    omega
  have hunit : (0 : ℚ) < 2 ^ lastPlace q := zpow_pos (by norm_num) _
  have hunitle : (2 : ℚ) ^ lastPlace q ≤ 2 ^ n := by
    rw [← zpow_natCast]
    exact zpow_le_zpow_right₀ (by norm_num) hplace
  obtain ⟨hlow, hhigh⟩ := roundHalfEven_mem (q / 2 ^ lastPlace q)
  have hbelow : q - 2 ^ lastPlace q <
      roundHalfEven (q / 2 ^ lastPlace q) * 2 ^ lastPlace q := by
    calc q - 2 ^ lastPlace q
      _ = (q / 2 ^ lastPlace q - 1) * 2 ^ lastPlace q := by field_simp
      _ < _ := mul_lt_mul_of_pos_right hlow hunit
  have habove : roundHalfEven (q / 2 ^ lastPlace q) * 2 ^ lastPlace q ≤ q + 2 ^ lastPlace q := by
    calc (roundHalfEven (q / 2 ^ lastPlace q) : ℚ) * 2 ^ lastPlace q
      _ ≤ (q / 2 ^ lastPlace q + 1) * 2 ^ lastPlace q := mul_le_mul_of_nonneg_right hhigh hunit.le
      _ = q + 2 ^ lastPlace q := by field_simp
  have hbound : |(roundHalfEven (q / 2 ^ lastPlace q) : ℚ) * 2 ^ lastPlace q| ≤ 2 ^ (n + 1) := by
    obtain ⟨hleft, hright⟩ := abs_le.mp hq
    rw [abs_le, pow_succ]
    constructor <;> linarith
  have hsmall : (2 : ℚ) ^ (n + 1) < 2 ^ 1024 := pow_lt_pow_right₀ (by norm_num) (by omega)
  refine ⟨_, ?_, hbound⟩
  unfold ofRat
  dsimp only
  rw [if_neg (hbound.trans_lt hsmall).not_ge]

/-- Neither a not-a-number nor the negative infinity. -/
def Bounded (x : PyFloat) : Prop := x ≠ nan ∧ x ≠ inf true

theorem half_add_ne_nan {a b : PyFloat} (ha : a.Bounded) (hb : b.Bounded) : half (add a b) ≠ nan := by
  have hsum : add a b ≠ nan := by
    cases a with
    | nan => exact absurd rfl ha.1
    | finite p =>
      cases b with
      | nan => exact absurd rfl hb.1
      | finite q => exact ofRat_ne_nan _
      | inf negative => simp [add]
    | inf negative =>
      cases b with
      | nan => exact absurd rfl hb.1
      | finite q => simp [add]
      | inf negative' =>
        cases negative with
        | true => exact absurd rfl ha.2
        | false =>
          cases negative' with
          | true => exact absurd rfl hb.2
          | false => simp [add]
  cases hadd : add a b with
  | nan => exact absurd hadd hsum
  | finite q => exact ofRat_ne_nan _
  | inf negative => simp [half]

theorem median_ne_nan {values : List PyFloat} {m : PyFloat} (hvalues : ∀ x ∈ values, x.Bounded)
    (h : median values = some m) : m ≠ nan := by
  have hordered : ∀ x ∈ sorted values, x.Bounded := by
    intro x hx
    exact hvalues x ((sorted_perm values).mem_iff.mp hx)
  unfold median at h
  dsimp only at h
  split_ifs at h
  · exact (hordered m (List.mem_of_getElem? h)).1
  · split at h
    · rename_i a b ha hb
      cases h
      exact half_add_ne_nan (hordered a (List.mem_of_getElem? ha))
        (hordered b (List.mem_of_getElem? hb))
    · cases h

end PyFloat

namespace Number

def IsFinite (n : Number) : Prop := ∃ q, n.exact = .finite q

theorem finite_of_toFloat?_int {n : ℤ} {x : PyFloat} (h : (int n).toFloat? = some x) :
    ∃ q, x = .finite q := by
  delta toFloat? at h
  dsimp only at h
  cases hround : PyFloat.ofRat n with
  | nan => exact absurd hround (PyFloat.ofRat_ne_nan _)
  | inf negative =>
    rw [hround] at h
    cases h
  | finite q =>
    rw [hround] at h
    exact ⟨q, (Option.some.inj h).symm⟩

/-- `a >= b` -/
def ge (a b : Number) : Bool := PyFloat.ge a.exact b.exact

end Number

end ChampionRuntime.Lib.Json
