import ChampionRuntime.Lib.Split
import Mathlib.Data.List.DropRight
import Mathlib.Tactic

/-!
# Python text

The character tables and the string methods of the modelled scripts. A text is
a list of Unicode scalar values. The whitespace of `str.strip` and `\s`, the
line boundaries of `str.splitlines`, the case-insensitive images of the ASCII
letters and the case foldings that produce ASCII characters are finite tables.
-/
namespace ChampionRuntime.Lib.PyText

def inRange (low high : ℕ) (c : Char) : Bool := low ≤ c.toNat && c.toNat ≤ high

/-- `str.isspace`, which is also `\s`. -/
def isSpace (c : Char) : Bool :=
  inRange 0x9 0xd c || inRange 0x1c 0x20 c || c.toNat == 0x85 || c.toNat == 0xa0 ||
    c.toNat == 0x1680 || inRange 0x2000 0x200a c || c.toNat == 0x2028 || c.toNat == 0x2029 ||
    c.toNat == 0x202f || c.toNat == 0x205f || c.toNat == 0x3000

/-- The line boundaries of `str.splitlines`. -/
def isLineBreak (c : Char) : Bool :=
  inRange 0xa 0xd c || inRange 0x1c 0x1e c || c.toNat == 0x85 || c.toNat == 0x2028 ||
    c.toNat == 0x2029

def isLower (c : Char) : Bool := inRange 0x61 0x7a c

def isUpper (c : Char) : Bool := inRange 0x41 0x5a c

def isDigit (c : Char) : Bool := inRange 0x30 0x39 c

def isLowerOrDigit (c : Char) : Bool := isLower c || isDigit c

def isHexLower (c : Char) : Bool := isDigit c || inRange 0x61 0x66 c

def isAscii (c : Char) : Bool := c.toNat < 128

def lowerAscii (c : Char) : Char := if isUpper c then Char.ofNat (c.toNat + 32) else c

/-- The ASCII letter a character stands for under `re.IGNORECASE`; four further
characters take part besides the 52 letters. -/
def ignoreCase (c : Char) : Char :=
  if c.toNat == 0x130 || c.toNat == 0x131 then 'i'
  else if c.toNat == 0x17f then 's'
  else if c.toNat == 0x212a then 'k'
  else lowerAscii c

/-- `str.casefold` of one character, with `_` for every character that is not a
lower-case ASCII letter or a digit afterwards. -/
def foldForKey (c : Char) : List Char :=
  match c.toNat with
  | 0xdf => ['s', 's']
  | 0x130 => ['i', '_']
  | 0x149 => ['_', 'n']
  | 0x17f => ['s']
  | 0x1f0 => ['j', '_']
  | 0x1e96 => ['h', '_']
  | 0x1e97 => ['t', '_']
  | 0x1e98 => ['w', '_']
  | 0x1e99 => ['y', '_']
  | 0x1e9a => ['a', '_']
  | 0x1e9e => ['s', 's']
  | 0x212a => ['k']
  | 0xfb00 => ['f', 'f']
  | 0xfb01 => ['f', 'i']
  | 0xfb02 => ['f', 'l']
  | 0xfb03 => ['f', 'f', 'i']
  | 0xfb04 => ['f', 'f', 'l']
  | 0xfb05 => ['s', 't']
  | 0xfb06 => ['s', 't']
  | _ => if isLowerOrDigit (lowerAscii c) then [lowerAscii c] else ['_']

def dropTrailing (p : Char → Bool) (s : List Char) : List Char := s.rdropWhile p

def strip (s : List Char) : List Char := dropTrailing isSpace (s.dropWhile isSpace)

/-- `str.strip(c)`. -/
def stripChar (c : Char) (s : List Char) : List Char :=
  dropTrailing (· == c) (s.dropWhile (· == c))

def removeprefix (lead s : List Char) : List Char :=
  if lead.isPrefixOf s then s.drop lead.length else s

/-- The text `part` occurs in `text`. -/
def occurs (part text : List Char) : Bool := text.tails.any fun tail => part.isPrefixOf tail

/-- The parts between line boundaries; a return and a newline count as two. -/
def segments (s : List Char) : List (List Char) := splitWhere isLineBreak s

/-- `str.splitlines` of a text without returns. A last line that is empty is none. -/
def splitlines (s : List Char) : List (List Char) :=
  if (segments s).getLast? = some [] then (segments s).dropLast else segments s

/-- The line ends that a file opened as text is read with. -/
def universalNewlines : List Char → List Char
  | '\r' :: '\n' :: rest => '\n' :: universalNewlines rest
  | '\r' :: rest => '\n' :: universalNewlines rest
  | c :: rest => c :: universalNewlines rest
  | [] => []

theorem universalNewlines_of_not_mem {s : List Char} (h : '\r' ∉ s) : universalNewlines s = s := by
  induction s with
  | nil => rfl
  | cons c s ih =>
    obtain ⟨hc, hs⟩ : c ≠ '\r' ∧ '\r' ∉ s := by simpa [eq_comm] using h
    rw [universalNewlines, ih hs]
    · rintro rest rfl _
      exact hc rfl
    · exact hc

end ChampionRuntime.Lib.PyText
