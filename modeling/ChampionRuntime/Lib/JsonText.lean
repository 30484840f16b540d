import ChampionRuntime.Lib.Binary64
import ChampionRuntime.Lib.JsonTree
import ChampionRuntime.Lib.PyText
import Mathlib.Data.Nat.Digits.Defs

/-!
# JSON text

Writing follows `json.dumps` with ASCII output; a layout says what stands after
a bracket, a comma or a colon. Reading follows `json.loads`: an object keeps
the last of two fields of one name, at the place of the first, unless the
caller refuses duplicates, and `NaN` and the infinities are read unless the
caller refuses them. An escaped surrogate without its partner has no scalar
value and is refused here.
-/
namespace ChampionRuntime.Lib.Json

open PyText

def isWs (c : Char) : Bool := c == ' ' || c == '\t' || c == '\n' || c == '\r'

def skipWs (s : List Char) : List Char := s.dropWhile isWs

structure Layout where
  /-- after an opening bracket or a comma of the level, and before a closing one -/
  gap : ℕ → List Char
  afterColon : List Char
  gap_ws : ∀ n, ∀ c ∈ gap n, isWs c = true
  afterColon_ws : ∀ c ∈ afterColon, isWs c = true

/-- `indent=2`. -/
def Layout.indented : Layout where
  gap n := '\n' :: List.replicate (2 * n) ' '
  afterColon := [' ']
  gap_ws := by
    intro n c hc
    rcases List.mem_cons.mp hc with rfl | hc
    · rfl
    · rw [List.eq_of_mem_replicate hc]
      rfl
  afterColon_ws := by simp [isWs]

/-- `separators=(",", ":")`. -/
def Layout.compact : Layout where
  gap _ := []
  afterColon := []
  gap_ws := by simp
  afterColon_ws := by simp

def digitChar (d : ℕ) : Char := Char.ofNat (48 + d)

def natText (n : ℕ) : List Char :=
  if n = 0 then ['0'] else (Nat.digits 10 n).reverse.map digitChar

def intText (n : ℤ) : List Char :=
  if n < 0 then '-' :: natText n.natAbs else natText n.natAbs

/-- The integer and the exponent of ten of the nearest decimal with `p` digits. -/
def decimalOf (q : ℚ) (p : ℕ) : ℤ × ℤ :=
  let exponent := Int.log 10 q - p + 1
  (roundHalfEven (q / 10 ^ exponent), exponent)

/-- The shortest decimal that is read back as the same float. -/
def shortestDecimal (q : ℚ) : ℤ × ℤ :=
  ((List.range 17).map fun p => decimalOf q (p + 1)).find? (fun d =>
    PyFloat.ofRat (d.1 * 10 ^ d.2) = .finite q) |>.getD (decimalOf q 17)

def dropZeros (digits : List Char) : List Char := dropTrailing (· == '0') digits

/-- `repr` of a positive float. -/
def positiveFloatText (q : ℚ) : List Char :=
  let (m, exponent) := shortestDecimal q
  let all := natText m.toNat
  let digits := dropZeros all
  let point : ℤ := all.length + exponent
  if -4 < point ∧ point ≤ 16 then
    if point ≤ 0 then ['0', '.'] ++ List.replicate (-point).toNat '0' ++ digits
    else if (digits.length : ℤ) ≤ point then
      digits ++ List.replicate (point - digits.length).toNat '0' ++ ['.', '0']
    else digits.take point.toNat ++ '.' :: digits.drop point.toNat
  else
    let tail := if digits.length = 1 then [] else '.' :: digits.drop 1
    let power := natText (point - 1).natAbs
    let padded := if power.length < 2 then '0' :: power else power
    digits.take 1 ++ tail ++ ['e', if point - 1 < 0 then '-' else '+'] ++ padded

def floatText : PyFloat → List Char
  | .finite q =>
    if q = 0 then ['0', '.', '0']
    else if q < 0 then '-' :: positiveFloatText (-q) else positiveFloatText q
  | .inf negative => if negative then "-Infinity".toList else "Infinity".toList
  | .nan => "NaN".toList

def hexDigit (d : ℕ) : Char := if d < 10 then Char.ofNat (48 + d) else Char.ofNat (87 + d)

def hex4 (n : ℕ) : List Char :=
  [hexDigit (n / 4096 % 16), hexDigit (n / 256 % 16), hexDigit (n / 16 % 16), hexDigit (n % 16)]

def escapeUnit (n : ℕ) : List Char := '\\' :: 'u' :: hex4 n

def escapeChar (c : Char) : List Char :=
  if c = '"' then ['\\', '"']
  else if c = '\\' then ['\\', '\\']
  else if c = '\n' then ['\\', 'n']
  else if c = '\r' then ['\\', 'r']
  else if c = '\t' then ['\\', 't']
  else if c.toNat = 0xc then ['\\', 'f']
  else if c.toNat = 0x8 then ['\\', 'b']
  else if 0x20 ≤ c.toNat ∧ c.toNat ≤ 0x7e then [c]
  else if c.toNat < 0x10000 then escapeUnit c.toNat
  else
    escapeUnit (0xd800 + (c.toNat - 0x10000) / 0x400) ++
      escapeUnit (0xdc00 + (c.toNat - 0x10000) % 0x400)

def quote (s : String) : List Char := '"' :: (s.toList.flatMap escapeChar ++ ['"'])

def numberText : Number → List Char
  | .int n => intText n
  | .float x => floatText x

section Render

variable (L : Layout)

mutual

def render : ℕ → Value → List Char
  | _, .null => "null".toList
  | _, .bool b => if b then "true".toList else "false".toList
  | _, .num n => numberText n
  | _, .str s => quote s
  | _, .arr [] => ['[', ']']
  | level, .arr (v :: items) =>
    '[' :: (L.gap (level + 1) ++ render (level + 1) v ++ renderItems level items)
  | _, .obj [] => ['{', '}']
  | level, .obj ((k, v) :: fields) =>
    '{' :: (L.gap (level + 1) ++ quote k ++ ':' :: L.afterColon ++ render (level + 1) v ++
      renderFields level fields)

def renderItems : ℕ → List Value → List Char
  | level, [] => L.gap level ++ [']']
  | level, v :: items =>
    ',' :: (L.gap (level + 1) ++ render (level + 1) v ++ renderItems level items)

def renderFields : ℕ → Fields → List Char
  | level, [] => L.gap level ++ ['}']
  | level, (k, v) :: fields =>
    ',' :: (L.gap (level + 1) ++ quote k ++ ':' :: L.afterColon ++ render (level + 1) v ++
      renderFields level fields)

end

end Render

def dumps (v : Value) : List Char := render .indented 0 v.sortKeys

def hexValue (c : Char) : Option ℕ :=
  if isDigit c then some (c.toNat - 48)
  else if inRange 0x61 0x66 c then some (c.toNat - 87)
  else if inRange 0x41 0x46 c then some (c.toNat - 55)
  else none

def simpleEscape (c : Char) : Option ℕ :=
  if c = '"' ∨ c = '\\' ∨ c = '/' then some c.toNat
  else if c = 'n' then some 0xa
  else if c = 'r' then some 0xd
  else if c = 't' then some 0x9
  else if c = 'f' then some 0xc
  else if c = 'b' then some 0x8
  else none

def hex4Value (a b c d : Char) : Option ℕ := do
  let a ← hexValue a
  let b ← hexValue b
  let c ← hexValue c
  let d ← hexValue d
  some (((a * 16 + b) * 16 + c) * 16 + d)

/-- The code units of a string up to its closing quote. -/
def units : List Char → Option (List ℕ × List Char)
  | [] => none
  | c :: rest =>
    if c = '"' then some ([], rest)
    else if c = '\\' then
      match rest with
      | 'u' :: x :: y :: z :: w :: rest => do
        let unit ← hex4Value x y z w
        let (more, rest) ← units rest
        some (unit :: more, rest)
      | e :: rest => do
        let unit ← simpleEscape e
        let (more, rest) ← units rest
        some (unit :: more, rest)
      | [] => none
    else if c.toNat < 0x20 then none
    else do
      let (more, rest) ← units rest
      some (c.toNat :: more, rest)

theorem units_plain {c : Char} (hquote : c ≠ '"') (hslash : c ≠ '\\') (hlow : ¬ c.toNat < 0x20)
    (t : List Char) : units (c :: t) = (units t).map fun r => (c.toNat :: r.1, r.2) := by
  rw [units.eq_def]
  simp only [if_neg hquote, if_neg hslash, if_neg hlow]
  cases units t <;> rfl

def isHigh (n : ℕ) : Bool := 0xd800 ≤ n && n < 0xdc00

def isLow (n : ℕ) : Bool := 0xdc00 ≤ n && n < 0xe000

/-- Surrogate pairs are joined; a lone surrogate is refused. -/
def joinUnits : List ℕ → Option (List Char)
  | [] => some []
  | [n] => if isHigh n || isLow n then none else some [Char.ofNat n]
  | n :: m :: rest =>
    if isHigh n && isLow m then
      (joinUnits rest).map (Char.ofNat (0x10000 + (n - 0xd800) * 0x400 + (m - 0xdc00)) :: ·)
    else if isHigh n || isLow n then none
    else (joinUnits (m :: rest)).map (Char.ofNat n :: ·)

def readString (s : List Char) : Option (String × List Char) := do
  let (found, rest) ← units s
  let chars ← joinUnits found
  some (String.ofList chars, rest)

def natOf (digits : List Char) : ℕ :=
  digits.foldl (fun acc c => 10 * acc + (c.toNat - 48)) 0

/-- The digits after the point, if there are any. -/
def readFraction (s : List Char) : Option (List Char) × List Char :=
  match s with
  | '.' :: rest =>
    if (rest.takeWhile isDigit).isEmpty then (none, s)
    else (some (rest.takeWhile isDigit), rest.dropWhile isDigit)
  | _ => (none, s)

def signedExponent (s : List Char) : Bool × List Char :=
  match s with
  | '+' :: rest => (false, rest)
  | '-' :: rest => (true, rest)
  | _ => (false, s)

def readExponent (s : List Char) : Option ℤ × List Char :=
  match s with
  | e :: tail =>
    if e = 'e' ∨ e = 'E' then
      let (negative, rest) := signedExponent tail
      let digits := rest.takeWhile isDigit
      if digits.isEmpty then (none, s)
      else (some (if negative then -(natOf digits : ℤ) else natOf digits), rest.dropWhile isDigit)
    else (none, s)
  | [] => (none, s)

def signed (negative : Bool) (n : ℕ) : ℤ := if negative then -(n : ℤ) else n

/-- What follows the integer digits of a number. -/
def readNumberTail (negative : Bool) (digits rest : List Char) : Number × List Char :=
  let (fraction, rest) := readFraction rest
  let (exponent, rest) := readExponent rest
  if fraction.isNone && exponent.isNone then (.int (signed negative (natOf digits)), rest)
  else
    let fraction := fraction.getD []
    let value : ℚ := signed negative (natOf (digits ++ fraction)) *
      10 ^ (exponent.getD 0 - fraction.length)
    (.float (PyFloat.ofRat value), rest)

def readUnsigned (negative : Bool) (s : List Char) : Option (Number × List Char) :=
  match s with
  | c :: rest =>
    if c = '0' then some (readNumberTail negative ['0'] rest)
    else if isDigit c then
      some (readNumberTail negative (c :: rest.takeWhile isDigit) (rest.dropWhile isDigit))
    else none
  | [] => none

def readNumber (s : List Char) : Option (Number × List Char) :=
  match s with
  | '-' :: rest => readUnsigned true rest
  | _ => readUnsigned false s

def dropLiteral (literal s : List Char) : Option (List Char) :=
  if literal.isPrefixOf s then some (s.drop literal.length) else none

/-- `NaN`, `Infinity` and `-Infinity`. -/
def readConstant (s : List Char) : Option (Value × List Char) :=
  match dropLiteral "NaN".toList s with
  | some rest => some (.num (.float .nan), rest)
  | none =>
    match dropLiteral "Infinity".toList s with
    | some rest => some (.num (.float (.inf false)), rest)
    | none => (dropLiteral "-Infinity".toList s).map fun rest =>
        (.num (.float (.inf true)), rest)

/-- How a caller of `json.loads` turns pairs into an object, and whether it
takes the constants that are not JSON. -/
structure Reader where
  object : Fields → Option Value
  constants : Bool

def setField (fields : Fields) (k : String) (v : Value) : Fields :=
  if fields.any (fun f => f.1 == k) then fields.map fun f => if f.1 == k then (k, v) else f
  else fields ++ [(k, v)]

theorem lookup_map_replace (fields : Fields) (k : String) (v : Value) (k' : String) :
    (fields.map fun f => if f.1 == k then (k, v) else f).lookup k' =
      if k' = k then (fields.lookup k).map fun _ => v else fields.lookup k' := by
  induction fields with
  | nil => simp
  | cons f fields ih =>
    obtain ⟨name, value⟩ := f
    by_cases hname : name = k
    · subst hname
      by_cases hk : k' = name
      · simp [hk]
      · have hbeq : (k' == name) = false := by simp [hk]
        simp only [List.map_cons, beq_self_eq_true, if_true, List.lookup_cons, hbeq, ih, hk, if_false]
    · have hbeq : (name == k) = false := by simp [hname]
      have hbeq' : (k == name) = false := by simp [Ne.symm hname]
      by_cases hk : k' = name
      · subst hk
        simp [hname]
      · have hskip : (k' == name) = false := by simp [hk]
        simp only [List.map_cons, hbeq, Bool.false_eq_true, if_false, List.lookup_cons, hskip, ih,
          hbeq']

theorem lookup_setField (fields : Fields) (k : String) (v : Value) (k' : String) :
    (setField fields k v).lookup k' = if k' = k then some v else fields.lookup k' := by
  by_cases hany : fields.any (fun f => f.1 == k) = true
  · rw [setField, if_pos hany, lookup_map_replace]
    by_cases hk : k' = k
    · obtain ⟨f, hf, hfk⟩ := List.any_eq_true.mp hany
      have hne : fields.lookup k ≠ none := by
        rw [ne_eq, List.lookup_eq_none_iff]
        intro hnone
        simpa [beq_iff_eq.mp hfk] using hnone f hf
      obtain ⟨w, hw⟩ := Option.ne_none_iff_exists'.mp hne
      rw [if_pos hk, if_pos hk, hw, Option.map_some]
    · rw [if_neg hk, if_neg hk]
  · have hnone : fields.lookup k = none := by
      rw [List.lookup_eq_none_iff]
      intro f hf
      have hne : ¬ k = f.1 := fun h => hany (List.any_eq_true.mpr ⟨f, hf, by simp [h]⟩)
      simp [hne]
    rw [setField, if_neg hany, List.lookup_append]
    by_cases hk : k' = k
    · simp [hk, hnone]
    · have hbeq : (k' == k) = false := by simp [hk]
      simp [hk, List.lookup_cons, hbeq]

theorem setField_eq_self {fields : Fields} {k : String} {v : Value} :
    setField fields k v = fields ↔ k ∈ keys fields ∧ ∀ f ∈ fields, f.1 = k → f = (k, v) := by
  have hany : fields.any (fun f => f.1 == k) = true ↔ k ∈ keys fields := by
    simp [keys, List.any_eq_true]
  by_cases hk : k ∈ keys fields
  · rw [setField, if_pos (hany.mpr hk)]
    simp only [hk, true_and]
    conv_lhs => rhs; rw [← List.map_id fields]
    rw [List.map_inj_left]
    refine forall₂_congr fun f _ => ?_
    by_cases hf : f.1 = k
    · simp only [hf, beq_self_eq_true, if_true, id_eq, forall_const]
      exact eq_comm
    · simp [hf]
  · rw [setField, if_neg (fun h => hk (hany.mp h))]
    simp [hk]

theorem mem_setField_of_ne {fields : Fields} {k : String} {v : Value} {f : String × Value}
    (hne : f.1 ≠ k) : f ∈ setField fields k v ↔ f ∈ fields := by
  unfold setField
  split_ifs
  · rw [List.mem_map]
    constructor
    · rintro ⟨g, hg, heq⟩
      by_cases hgk : g.1 = k
      · rw [if_pos (by simpa using hgk)] at heq
        exact absurd (congrArg Prod.fst heq).symm hne
      · rw [if_neg (by simpa using hgk)] at heq
        exact heq ▸ hg
    · intro hf
      exact ⟨f, hf, if_neg (by simpa using hne)⟩
  · rw [List.mem_append, List.mem_singleton]
    refine or_iff_left ?_
    rintro rfl
    exact hne rfl

theorem setField_setField_self (fields : Fields) (k : String) (v : Value) :
    setField (setField fields k v) k v = setField fields k v := by
  rw [setField_eq_self]
  unfold setField
  split_ifs with hany
  · constructor
    · obtain ⟨f, hf, hfk⟩ := List.any_eq_true.mp hany
      exact List.mem_map.mpr ⟨(k, v), List.mem_map.mpr ⟨f, hf, if_pos hfk⟩, rfl⟩
    · intro f hf hfk
      obtain ⟨g, -, rfl⟩ := List.mem_map.mp hf
      by_cases hg : g.1 = k
      · simp [hg]
      · simp [hg] at hfk
  · constructor
    · simp [keys]
    · intro f hf hfk
      rcases List.mem_append.mp hf with hf | hf
      · exact absurd (List.any_eq_true.mpr ⟨f, hf, by simpa using hfk⟩) hany
      · exact List.mem_singleton.mp hf

theorem setField_eq_self_of_ne {fields : Fields} {k k' : String} {v v' : Value} (hne : k ≠ k')
    (h : setField fields k v = fields) :
    setField (setField fields k' v') k v = setField fields k' v' := by
  rw [setField_eq_self] at h ⊢
  obtain ⟨hk, hfields⟩ := h
  obtain ⟨f, hf, rfl⟩ := List.mem_map.mp hk
  refine ⟨List.mem_map.mpr ⟨f, (mem_setField_of_ne hne).mpr hf, rfl⟩, fun g hg hgk => ?_⟩
  exact hfields g ((mem_setField_of_ne (hgk ▸ hne)).mp hg) hgk

/-- `dict(pairs)`. -/
def dictOfPairs (pairs : Fields) : Fields :=
  pairs.foldl (fun fields f => setField fields f.1 f.2) []

/-- `json.loads` without hooks. -/
def Reader.plain : Reader where
  object pairs := some (.obj (dictOfPairs pairs))
  constants := true

section Read

variable (R : Reader)

def readScalar (s : List Char) : Option (Value × List Char) :=
  match dropLiteral "null".toList s with
  | some rest => some (.null, rest)
  | none =>
    match dropLiteral "true".toList s with
    | some rest => some (.bool true, rest)
    | none =>
      match dropLiteral "false".toList s with
      | some rest => some (.bool false, rest)
      | none =>
        match readNumber s with
        | some (n, rest) => some (.num n, rest)
        | none => if R.constants then readConstant s else none

mutual

def readValue : ℕ → List Char → Option (Value × List Char)
  | 0, _ => none
  | _ + 1, [] => none
  | fuel + 1, c :: rest =>
    if c = '"' then (readString rest).map fun r => (.str r.1, r.2)
    else if c = '[' then
      if (skipWs rest).head? = some ']' then some (.arr [], (skipWs rest).tail)
      else (readItems fuel (skipWs rest)).map fun r => (.arr r.1, r.2)
    else if c = '{' then
      if (skipWs rest).head? = some '}' then
        (R.object []).map fun v => (v, (skipWs rest).tail)
      else (readFields fuel (skipWs rest)).bind fun r => (R.object r.1).map fun v => (v, r.2)
    else readScalar R (c :: rest)

def readItems : ℕ → List Char → Option (List Value × List Char)
  | 0, _ => none
  | fuel + 1, s => do
    let (v, rest) ← readValue fuel s
    match skipWs rest with
    | ']' :: rest => some ([v], rest)
    | ',' :: rest => (readItems fuel (skipWs rest)).map fun r => (v :: r.1, r.2)
    | _ => none

def readFields : ℕ → List Char → Option (Fields × List Char)
  | 0, _ => none
  | fuel + 1, s =>
    match s with
    | '"' :: rest => do
      let (k, rest) ← readString rest
      match skipWs rest with
      | ':' :: rest => do
        let (v, rest) ← readValue fuel (skipWs rest)
        match skipWs rest with
        | '}' :: rest => some ([(k, v)], rest)
        | ',' :: rest => (readFields fuel (skipWs rest)).map fun r => ((k, v) :: r.1, r.2)
        | _ => none
      | _ => none
    | _ => none

end

/-- `json.loads`; a text of `n` characters nests at most `n` values. -/
def loads (s : List Char) : Option Value := do
  let (v, rest) ← readValue R (s.length + 1) (skipWs s)
  if skipWs rest = [] then some v else none

end Read

end ChampionRuntime.Lib.Json
