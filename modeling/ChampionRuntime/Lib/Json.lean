import Mathlib.Data.Rat.Defs

/-!
# JSON values as a Python program holds them

A JSON number is either an unbounded integer or a float; the float keeps its
exact value, and the two infinities and the not-a-number are separate, since
the Python reader produces them. Objects are insertion-ordered field lists.
Strings are sequences of Unicode scalar values.
-/
namespace ChampionRuntime.Lib.Json

/-- A binary64 value; `finite` carries the exact rational it denotes. -/
inductive PyFloat where
  | finite (q : ℚ)
  | inf (negative : Bool)
  | nan
  deriving DecidableEq, Repr

inductive Number where
  | int (n : ℤ)
  | float (x : PyFloat)
  deriving DecidableEq, Repr

inductive Value where
  | null
  | bool (b : Bool)
  | num (n : Number)
  | str (s : String)
  | arr (items : List Value)
  | obj (fields : List (String × Value))
  deriving Repr, Inhabited

end ChampionRuntime.Lib.Json
