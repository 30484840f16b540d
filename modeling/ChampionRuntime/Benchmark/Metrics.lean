import ChampionRuntime.Lib.Dict
import ChampionRuntime.Lib.JsonText
import ChampionRuntime.Lib.Outcome
import ChampionRuntime.Lib.PyLines

/-!
# Server metrics

`parse_prometheus` of `probe.py` adds up the lines of a scrape that its pattern matches. The
readings of a text are what its lines are counted for; the parser totals them by name.
-/
namespace ChampionRuntime.Benchmark.Probe

open Lib Lib.PyText
open Lib.Json (PyFloat)

def isNameStart (c : Char) : Bool := isLower c || isUpper c || c == '_' || c == ':'

def isNameChar (c : Char) : Bool := isNameStart c || isDigit c

/-- `[-+]?(?:[0-9]+(?:\.[0-9]*)?|\.[0-9]+)(?:[eE][-+]?[0-9]+)?`, with the number it stands for. -/
def decimalValue (s : List Char) : Option ℚ :=
  let (negative, unsigned) := Json.signedExponent s
  let digits := unsigned.takeWhile isDigit
  let (fraction, rest) :=
    match unsigned.dropWhile isDigit with
    | '.' :: rest => (rest.takeWhile isDigit, rest.dropWhile isDigit)
    | rest => ([], rest)
  let (exponent, rest) := Json.readExponent rest
  if digits ++ fraction = [] ∨ rest ≠ [] then none
  else
    some (Json.signed negative (Json.natOf (digits ++ fraction)) *
      10 ^ (exponent.getD 0 - fraction.length))

/-- `(?:\{[^}]*\})?`; a brace that is never closed can only be left to what follows. -/
def dropLabels (s : List Char) : List Char :=
  match s with
  | '{' :: rest =>
    match rest.dropWhile (· != '}') with
    | _ :: after => after
    | [] => s
  | _ => s

/-- `\s+` and the number up to the end of the line. -/
def readValue (s : List Char) : Option ℚ :=
  if s.head?.any isSpace then decimalValue (s.dropWhile isSpace) else none

/-- `METRIC.fullmatch(line)` with its two groups, the second one read as a number. A name ends
where no name character follows, since the pattern goes on with none. -/
def matchMetric (line : List Char) : Option (List Char × ℚ) :=
  let name := line.takeWhile isNameChar
  if name.head?.any isNameStart then
    (readValue (dropLabels (line.dropWhile isNameChar))).map fun q => (name, q)
  else none

def isFinite : PyFloat → Bool
  | .finite _ => true
  | _ => false

/-- A `ProbeError` of the parser. -/
structure MetricsError where
  text : String
  deriving DecidableEq

def nonFinite (name : List Char) : MetricsError :=
  ⟨"non-finite Prometheus value for " ++ String.ofList name⟩

abbrev Totals := Dict (List Char) PyFloat

/-- `totals[name] = totals.get(name, 0.0) + value` -/
def addTo (totals : Totals) (name : List Char) (value : PyFloat) : Totals :=
  totals.set name (((totals.get? name).getD (.finite 0)).add value)

def parseLine (totals : Totals) (rawLine : List Char) : Except MetricsError Totals :=
  let line := strip rawLine
  if line = [] ∨ line.head? = some '#' then .ok totals
  else
    match matchMetric line with
    | none => .ok totals
    | some (name, number) =>
      let value := PyFloat.ofRat number
      if isFinite value then .ok (addTo totals name value) else .error (nonFinite name)

/-- `parse_prometheus`; splitting into lines takes a return and a newline for one boundary. -/
def parsePrometheus (text : List Char) : Except MetricsError Totals :=
  (splitlines (universalNewlines text)).foldlM parseLine Keyed.empty

abbrev Reading := List Char × PyFloat

def reading (rawLine : List Char) : Option Reading :=
  let line := strip rawLine
  if line = [] ∨ line.head? = some '#' then none
  else (matchMetric line).map fun found => (found.1, .ofRat found.2)

/-- What the lines of a text are counted for, a line ending at any line boundary. -/
def readings (text : List Char) : List Reading := (segments text).filterMap reading

/-- The floating-point sum of the values of one metric; a metric without readings has none. -/
def total (name : List Char) (rs : List Reading) : Option PyFloat :=
  let values := (rs.filter fun r => r.1 = name).map Prod.snd
  if values = [] then none else some (values.foldl PyFloat.add (.finite 0))

theorem total_append_singleton (name : List Char) (rs : List Reading) (r : Reading) :
    total name (rs ++ [r]) =
      if r.1 = name then some (((total name rs).getD (.finite 0)).add r.2) else total name rs := by
  unfold total
  by_cases hname : r.1 = name
  · simp only [List.filter_append, List.filter_singleton, hname, decide_true, cond_true,
      List.map_append, List.map_singleton, if_true]
    rw [if_neg (by simp), List.foldl_append]
    split_ifs with hvalues
    · rw [hvalues]
      rfl
    · rfl
  · rw [if_neg hname, List.filter_append, List.filter_singleton, decide_eq_false hname, cond_false,
      List.append_nil]

/-- The totals are those of the readings so far. -/
def Totalled (totals : Totals) (rs : List Reading) : Prop := ∀ name, totals.get? name = total name rs

theorem Totalled.addTo {totals : Totals} {rs : List Reading} (h : Totalled totals rs)
    (r : Reading) : Totalled (addTo totals r.1 r.2) (rs ++ [r]) := by
  intro name
  rw [Probe.addTo, Keyed.get?_set, total_append_singleton]
  by_cases hname : r.1 = name
  · rw [if_pos hname.symm, if_pos hname, h r.1, hname]
  · rw [if_neg (Ne.symm hname), if_neg hname, h name]

theorem parseLine_eq (totals : Totals) (rawLine : List Char) : parseLine totals rawLine =
    match reading rawLine with
    | none => .ok totals
    | some r => if isFinite r.2 then .ok (addTo totals r.1 r.2) else .error (nonFinite r.1) := by
  unfold parseLine reading
  dsimp only
  split_ifs
  · rfl
  · cases matchMetric (strip rawLine) <;> rfl

/-- What a parse of the lines comes to: the first value that is not finite ends it, and
without one the readings are totalled. -/
def Counts (rs : List Reading) (before : List Reading) : Except MetricsError Totals → Prop
  | .error e => ∃ r, rs.find? (fun r => !isFinite r.2) = some r ∧ e = nonFinite r.1
  | .ok totals => rs.find? (fun r => !isFinite r.2) = none ∧ Totalled totals (before ++ rs)

theorem foldlM_parseLine (lines : List (List Char)) : ∀ {totals : Totals} {before : List Reading},
    Totalled totals before →
      Counts (lines.filterMap reading) before (lines.foldlM parseLine totals) := by
  induction lines with
  | nil =>
    intro totals before h
    refine ⟨rfl, ?_⟩
    rwa [List.filterMap_nil, List.append_nil]
  | cons line lines ih =>
    intro totals before h
    rw [List.foldlM_cons, parseLine_eq]
    cases hread : reading line with
    | none =>
      rw [List.filterMap_cons_none hread]
      exact ih h
    | some r =>
      rw [List.filterMap_cons_some hread]
      by_cases hfinite : isFinite r.2 = true
      · have hrest := ih (h.addTo r)
        simp only [hfinite, if_true]
        change Counts _ _ (lines.foldlM parseLine _)
        cases hresult : lines.foldlM parseLine (addTo totals r.1 r.2) with
        | error e =>
          rw [hresult] at hrest
          obtain ⟨r', hfind, he⟩ := hrest
          exact ⟨r', by rw [List.find?_cons_of_neg (by simp [hfinite]), hfind], he⟩
        | ok totals' =>
          rw [hresult] at hrest
          obtain ⟨hfind, htotals⟩ := hrest
          refine ⟨by rw [List.find?_cons_of_neg (by simp [hfinite]), hfind], ?_⟩
          rwa [List.append_assoc] at htotals
      · simp only [hfinite]
        exact ⟨r, List.find?_cons_of_pos (by simp [hfinite]), rfl⟩

/-- A line boundary too many adds an empty line, which is counted for nothing. -/
theorem filterMap_reading_splitlines (text : List Char) :
    (splitlines (universalNewlines text)).filterMap reading = readings text := by
  have hskip : ∀ lines : List (List Char),
      lines.filterMap reading = (lines.filter (· != [])).filterMap reading := by
    intro lines
    rw [List.filterMap_filter]
    apply List.filterMap_congr
    intro line _
    split_ifs with hne
    · rfl
    · obtain rfl : line = [] := by simpa using hne
      rfl
  rw [hskip, splitlines_universalNewlines, ← hskip, readings]

theorem parsePrometheus_counts (text : List Char) :
    Counts (readings text) [] (parsePrometheus text) := by
  rw [← filterMap_reading_splitlines]
  apply foldlM_parseLine
  intro name
  rfl

end ChampionRuntime.Benchmark.Probe
