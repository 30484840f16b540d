import ChampionRuntime.Lib.PyText

/-!
# Integers from text

`int` of a text: optional whitespace around an optional sign and decimal digits
of any script, single underscores between the digits, and no more digits than
the interpreter converts.
-/
namespace ChampionRuntime.Lib.PyText

/-- The characters for the digit zero; the other nine digits of a script follow its zero. -/
def decimalZeros : List ℕ :=
  [0x30, 0x660, 0x6f0, 0x7c0, 0x966, 0x9e6, 0xa66, 0xae6, 0xb66, 0xbe6, 0xc66, 0xce6, 0xd66, 0xde6,
    0xe50, 0xed0, 0xf20, 0x1040, 0x1090, 0x17e0, 0x1810, 0x1946, 0x19d0, 0x1a80, 0x1a90, 0x1b50,
    0x1bb0, 0x1c40, 0x1c50, 0xa620, 0xa8d0, 0xa900, 0xa9d0, 0xa9f0, 0xaa50, 0xabf0, 0xff10, 0x104a0,
    0x10d30, 0x11066, 0x110f0, 0x11136, 0x111d0, 0x112f0, 0x11450, 0x114d0, 0x11650, 0x116c0,
    0x11730, 0x118e0, 0x11950, 0x11c50, 0x11d50, 0x11da0, 0x11f50, 0x16a60, 0x16ac0, 0x16b50,
    0x1d7ce, 0x1d7d8, 0x1d7e2, 0x1d7ec, 0x1d7f6, 0x1e140, 0x1e2f0, 0x1e4f0, 0x1e950, 0x1fbf0]

def decimalValue (c : Char) : Option ℕ :=
  (decimalZeros.find? fun low => inRange low (low + 9) c).map (c.toNat - ·)

/-- The whitespace `int` ignores, which leaves out the four separators `str.strip` also removes. -/
def isIntSpace (c : Char) : Bool := isSpace c && !inRange 0x1c 0x1f c

/-- `sys.get_int_max_str_digits()` -/
def maxStrDigits : ℕ := 4300

/-- Digits with single underscores between them: the value and how many there are. -/
def readDigits (value count : ℕ) (afterDigit : Bool) : List Char → Option (ℕ × ℕ)
  | [] => if afterDigit then some (value, count) else none
  | c :: s =>
    if c = '_' then if afterDigit then readDigits value count false s else none
    else
      match decimalValue c with
      | some digit => readDigits (value * 10 + digit) (count + 1) true s
      | none => none

def readNatural (s : List Char) : Option ℕ :=
  match readDigits 0 0 false s with
  | some (value, count) => if count ≤ maxStrDigits then some value else none
  | none => none

/-- `int(text)` -/
def pyInt (s : List Char) : Option ℤ :=
  match (s.dropWhile isIntSpace).rdropWhile isIntSpace with
  | '-' :: digits => (readNatural digits).map fun n => -(n : ℤ)
  | '+' :: digits => (readNatural digits).map fun n => (n : ℤ)
  | digits => (readNatural digits).map fun n => (n : ℤ)

example : pyInt " -1_0 ".toList = some (-10) := by decide

end ChampionRuntime.Lib.PyText
