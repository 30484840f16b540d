import ChampionRuntime.Lib.Regex

/-!
# Shell-style patterns

`fnmatch.fnmatchcase`: a pattern is translated into a regular expression that has
to match the whole name. A bracket that is never closed stands for itself.
-/
namespace ChampionRuntime.Lib.Glob

open Regex

/-- The members of a bracket, with ranges; a range that runs backwards is empty. -/
def setMember : List Char → Char → Bool
  | low :: '-' :: high :: rest, c =>
    (low.toNat ≤ c.toNat && c.toNat ≤ high.toNat) || setMember rest c
  | x :: rest, c => x == c || setMember rest c
  | [], _ => false

/-- The text up to the closing bracket, which may be the first member itself. -/
def setBody : List Char → Option (List Char × List Char)
  | ']' :: rest =>
    match rest.dropWhile (· != ']') with
    | _ :: after => some (']' :: rest.takeWhile (· != ']'), after)
    | [] => none
  | text =>
    match text.dropWhile (· != ']') with
    | _ :: after => some (text.takeWhile (· != ']'), after)
    | [] => none

/-- The character class after an opening bracket, and what follows it. -/
def readSet : List Char → Option (Regex × List Char)
  | '!' :: text => (setBody text).map fun r => (cls fun c => !setMember r.1 c, r.2)
  | text => (setBody text).map fun r => (cls (setMember r.1), r.2)

/-- `fnmatch.translate`; every round uses up a character. -/
def translate : ℕ → List Char → Regex
  | 0, _ => empty
  | _, [] => empty
  | fuel + 1, c :: rest =>
    if c = '*' then seq (star (cls fun _ => true)) (translate fuel rest)
    else if c = '?' then seq (cls fun _ => true) (translate fuel rest)
    else if c = '[' then
      match readSet rest with
      | some (set, after) => seq set (translate fuel after)
      | none => seq (char '[') (translate fuel rest)
    else seq (char c) (translate fuel rest)

def fnmatchcase (name pattern : List Char) : Bool :=
  (translate pattern.length pattern).fullmatch name

example : fnmatchcase "refs/tags/v1.2".toList "refs/tags/v*".toList = true := by decide

example : fnmatchcase "refs/heads/dev".toList "refs/heads/[!a-d]*".toList = false := by
  decide

end ChampionRuntime.Lib.Glob
