import ChampionRuntime.Lib.Binary64

/-!
# Differences of Python numbers

Two integers are subtracted exactly and any other numbers as floats, for which an integer
beyond the finite range raises. A difference of floats is finite only when both of them are.
-/
namespace ChampionRuntime.Lib.Json

namespace PyFloat

def neg : PyFloat → PyFloat
  | finite q => finite (-q)
  | inf negative => inf !negative
  | nan => nan

def sub (a b : PyFloat) : PyFloat := add a (neg b)

/-- `abs(x)` -/
def magnitude : PyFloat → PyFloat
  | finite q => finite |q|
  | inf _ => inf false
  | nan => nan

@[simp] theorem lt_nan (a : PyFloat) : lt a nan = false := by
  cases a <;> rfl

theorem sub_finite_ne_nan (p q : ℚ) : sub (finite p) (finite q) ≠ nan := ofRat_ne_nan _

theorem finite_of_ge_magnitude_sub {a b : PyFloat} {t : ℚ}
    (h : ge (finite t) (sub a b).magnitude = true) : (∃ p, a = finite p) ∧ ∃ q, b = finite q := by
  cases a with
  | nan => cases h
  | finite p =>
    cases b with
    | nan => cases h
    | finite q => exact ⟨⟨p, rfl⟩, q, rfl⟩
    | inf negative => cases h
  | inf negative =>
    cases b with
    | nan => cases h
    | finite q => cases h
    | inf negative' => cases negative <;> cases negative' <;> cases h

end PyFloat

namespace Number

/-- `a - b` -/
def sub? (a b : Number) : Option Number :=
  match a, b with
  | int m, int n => some (.int (m - n))
  | a, b => do
    let x ← a.toFloat?
    let y ← b.toFloat?
    some (.float (x.sub y))

/-- `abs(n)` -/
def magnitude : Number → Number
  | int n => .int |n|
  | float x => .float x.magnitude

theorem isFinite_int (n : ℤ) : (Number.int n).IsFinite := ⟨n, rfl⟩

theorem isFinite_iff_toFloat? {n : Number} {x : PyFloat} (h : n.toFloat? = some x) :
    n.IsFinite ↔ ∃ q, x = .finite q := by
  cases n with
  | int n => exact iff_of_true (isFinite_int n) (finite_of_toFloat?_int h)
  | float y =>
    rw [← Option.some.inj h]
    exact Iff.rfl

theorem sub?_eq_some {a b d : Number} (h : sub? a b = some d) :
    (∃ m n, a = .int m ∧ b = .int n ∧ d = .int (m - n)) ∨
      ∃ x y, a.toFloat? = some x ∧ b.toFloat? = some y ∧ d = .float (x.sub y) := by
  unfold sub? at h
  split at h
  · exact .inl ⟨_, _, rfl, rfl, (Option.some.inj h).symm⟩
  · simp only [Option.bind_eq_bind, Option.bind_eq_some_iff, Option.some.injEq] at h
    obtain ⟨x, hx, y, hy, rfl⟩ := h
    exact .inr ⟨x, y, hx, hy, rfl⟩

theorem sub?_ne_nan {a b d : Number} (ha : a.IsFinite) (hb : b.IsFinite) (h : sub? a b = some d) :
    d.exact ≠ .nan := by
  rcases sub?_eq_some h with ⟨m, n, -, -, rfl⟩ | ⟨x, y, hx, hy, rfl⟩
  · nofun
  · obtain ⟨p, rfl⟩ := (isFinite_iff_toFloat? hx).mp ha
    obtain ⟨q, rfl⟩ := (isFinite_iff_toFloat? hy).mp hb
    exact PyFloat.sub_finite_ne_nan p q

theorem magnitude_ne_nan {d : Number} (h : d.exact ≠ .nan) : d.magnitude.exact ≠ .nan := by
  cases d with
  | int n => nofun
  | float x =>
    cases x with
    | nan => exact absurd rfl h
    | finite q => nofun
    | inf negative => nofun

theorem finite_of_ge_magnitude {a b d : Number} {t : ℚ} (h : sub? a b = some d)
    (hd : ge (.float (.finite t)) d.magnitude = true) : a.IsFinite ∧ b.IsFinite := by
  rcases sub?_eq_some h with ⟨m, n, rfl, rfl, -⟩ | ⟨x, y, hx, hy, rfl⟩
  · exact ⟨isFinite_int m, isFinite_int n⟩
  · rw [isFinite_iff_toFloat? hx, isFinite_iff_toFloat? hy]
    exact PyFloat.finite_of_ge_magnitude_sub hd

end Number

end ChampionRuntime.Lib.Json
