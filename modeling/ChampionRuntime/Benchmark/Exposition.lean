import ChampionRuntime.Benchmark.Metrics

/-!
# The exposition format

A document of the Prometheus text format as the lines it consists of, each with its blanks, and
the text it is sent as. Only a newline ends a line, a quoted label value holds any character,
and a value is written in any of the notations of the format. The samples of a document are
compared with what `parsePrometheus` counts.
-/
namespace ChampionRuntime.Benchmark.Probe

open Lib Lib.PyText
open Lib.Json (PyFloat)

def isBlank (c : Char) : Bool := c == ' ' || c == '\t'

abbrev Blanks := {s : List Char // ∀ c ∈ s, isBlank c = true}

def escapeLabel (c : Char) : List Char :=
  if c = '\\' then ['\\', '\\']
  else if c = '"' then ['\\', '"']
  else if c = '\n' then ['\\', 'n']
  else [c]

structure Label where
  beforeName : Blanks
  name : List Char
  afterName : Blanks
  beforeValue : Blanks
  value : List Char
  afterValue : Blanks
  name_start : name.head?.any (fun c => isLower c || isUpper c || c == '_') = true
  name_chars : ∀ c ∈ name, (isLower c || isUpper c || c == '_' || isDigit c) = true

def Label.text (l : Label) : List Char :=
  l.beforeName ++ l.name ++ l.afterName ++ ['='] ++ l.beforeValue ++ ['"'] ++
    l.value.flatMap escapeLabel ++ ['"'] ++ l.afterValue

/-- The labels of a sample between their braces. -/
structure LabelSet where
  beforeBrace : Blanks
  labels : List Label
  trailingComma : Bool
  beforeClosing : Blanks
  afterBrace : Blanks
  comma_follows : trailingComma = true → labels ≠ []

def LabelSet.inside (l : LabelSet) : List Char :=
  joinWith ',' (l.labels.map Label.text) ++ (if l.trailingComma then [','] else []) ++
    l.beforeClosing

/-- What stands between the name and the value of a sample. -/
inductive Middle where
  | gap (blanks : Blanks) (ne : blanks.val ≠ [])
  | labels (set : LabelSet)

def Middle.text : Middle → List Char
  | .gap blanks _ => blanks
  | .labels set => set.beforeBrace ++ '{' :: (set.inside ++ '}' :: set.afterBrace)

/-- A value as it is written and the float it stands for: `NaN`, `+Inf`, or a number of which a
plain decimal stands for the nearest float. -/
structure SampleValue where
  text : List Char
  value : PyFloat
  text_ne : text ≠ []
  text_solid : ∀ c ∈ text, isSpace c = false
  decimal : ∀ q, decimalValue text = some q → value = .ofRat q

structure Timestamp where
  gap : Blanks
  negative : Bool
  digits : List Char
  gap_ne : gap.val ≠ []
  digits_ne : digits ≠ []
  digits_chars : ∀ c ∈ digits, isDigit c = true

def Timestamp.text (t : Timestamp) : List Char :=
  t.gap ++ (if t.negative then ['-'] else []) ++ t.digits

structure Sample where
  lead : Blanks
  name : List Char
  middle : Middle
  value : SampleValue
  timestamp : Option Timestamp
  trail : Blanks
  name_start : name.head?.any isNameStart = true
  name_chars : ∀ c ∈ name, isNameChar c = true

def Sample.tail (s : Sample) : List Char := s.value.text ++ (s.timestamp.map Timestamp.text).getD []

def Sample.text (s : Sample) : List Char :=
  s.lead ++ (s.name ++ (s.middle.text ++ s.tail)) ++ s.trail

inductive Line where
  | sample (s : Sample)
  | comment (lead : Blanks) (body : List Char) (one_line : '\n' ∉ body)
  | blank (blanks : Blanks)

def Line.text : Line → List Char
  | .sample s => s.text
  | .comment lead body _ => lead ++ '#' :: body
  | .blank blanks => blanks

abbrev Document := List Line

namespace Document

def text (d : Document) : List Char := d.flatMap fun line => line.text ++ ['\n']

def samples (d : Document) : List Sample :=
  d.filterMap fun
    | .sample s => some s
    | _ => none

end Document

/-- The parser refuses a sample that is not finite, or totals all samples of every metric. -/
def CountsEverySample (d : Document) : Prop :=
  match parsePrometheus d.text with
  | .error e => ∃ s ∈ d.samples, e = nonFinite s.name ∧ isFinite s.value.value = false
  | .ok totals => ∀ name, totals.get? name = total name (d.samples.map fun s => (s.name, s.value.value))

/-- A set of labels that the pattern takes for one: the brace follows the name, no label value
holds a closing brace, and blanks follow. -/
def Middle.Plain : Middle → Prop
  | .gap _ _ => True
  | .labels set => set.beforeBrace.val = [] ∧ (∀ l ∈ set.labels, '}' ∉ l.value) ∧ set.afterBrace.val ≠ []

instance : DecidablePred Middle.Plain
  | .gap _ _ => inferInstanceAs (Decidable True)
  | .labels set => inferInstanceAs (Decidable (set.beforeBrace.val = [] ∧
      (∀ l ∈ set.labels, '}' ∉ l.value) ∧ set.afterBrace.val ≠ []))

/-- A sample without a timestamp whose value is a plain decimal. -/
def Sample.Plain (s : Sample) : Prop :=
  s.middle.Plain ∧ (decimalValue s.value.text).isSome = true ∧ s.timestamp.isNone = true

instance (s : Sample) : Decidable s.Plain :=
  inferInstanceAs (Decidable (s.middle.Plain ∧ (decimalValue s.value.text).isSome = true ∧
    s.timestamp.isNone = true))

/-- The line holds none of the characters other than a newline that end a line for Python. -/
def Line.Unbroken (line : Line) : Prop := ∀ c ∈ line.text, isLineBreak c = false

instance (line : Line) : Decidable line.Unbroken :=
  List.decidableBAll (fun c => isLineBreak c = false) line.text

/-- What a line is counted for: a plain sample for itself, any other unbroken line for nothing,
and a broken one for what its pieces look like. -/
def Line.counted (line : Line) : List Reading :=
  if line.Unbroken then
    match line with
    | .sample s => if s.Plain then [(s.name, s.value.value)] else []
    | _ => []
  else readings line.text

def Document.counted (d : Document) : List Reading := d.flatMap Line.counted

/-- The pattern takes every line for what it is. -/
def Document.Plain (d : Document) : Prop :=
  (∀ line ∈ d, line.Unbroken) ∧ ∀ s ∈ d.samples, s.Plain

/-- No line is broken, every sample is finite, and no metric has two of them. -/
structure Document.Distinct (d : Document) : Prop where
  unbroken : ∀ line ∈ d, line.Unbroken
  finite : ∀ s ∈ d.samples, isFinite s.value.value = true
  names : (d.samples.map Sample.name).Nodup

/-- What is counted stands for the samples: a value that is not finite is that of a sample, and
when there is none the metrics have the totals that all their samples have. -/
def Document.Accounted (d : Document) : Prop :=
  match d.counted.find? (fun r => !isFinite r.2) with
  | some r => ∃ s ∈ d.samples, s.name = r.1 ∧ isFinite s.value.value = false
  | none => ∀ name, total name d.counted = total name (d.samples.map fun s => (s.name, s.value.value))

def isNumeral (c : Char) : Bool :=
  isDigit c || c == '+' || c == '-' || c == '.' || c == 'e' || c == 'E'

theorem isNumeral_of_isDigit {c : Char} (h : isDigit c = true) : isNumeral c = true := by
  simp [isNumeral, h]

theorem isNumeral_of_mem_takeWhile {s : List Char} : ∀ c ∈ s.takeWhile isDigit, isNumeral c = true :=
  fun _ hc => isNumeral_of_isDigit (List.mem_takeWhile_imp hc)

theorem signedExponent_split (s : List Char) :
    ∃ sign, s = sign ++ (Json.signedExponent s).2 ∧ ∀ c ∈ sign, isNumeral c = true := by
  unfold Json.signedExponent
  split
  · exact ⟨['+'], rfl, by simp [isNumeral]⟩
  · exact ⟨['-'], rfl, by simp [isNumeral]⟩
  · exact ⟨[], rfl, by simp⟩

theorem readExponent_split (s : List Char) :
    ∃ part, s = part ++ (Json.readExponent s).2 ∧ ∀ c ∈ part, isNumeral c = true := by
  unfold Json.readExponent
  split
  · rename_i e tail
    dsimp only
    by_cases he : e = 'e' ∨ e = 'E'
    · rw [if_pos he]
      by_cases hdigits : ((Json.signedExponent tail).2.takeWhile isDigit).isEmpty = true
      · rw [if_pos hdigits]
        exact ⟨[], rfl, by simp⟩
      · rw [if_neg hdigits]
        obtain ⟨sign, hsign, hnumeral⟩ := signedExponent_split tail
        refine ⟨e :: (sign ++ (Json.signedExponent tail).2.takeWhile isDigit), ?_, ?_⟩
        · rw [List.cons_append, List.append_assoc, List.takeWhile_append_dropWhile, ← hsign]
        · intro c hc
          rcases List.mem_cons.mp hc with rfl | hc
          · rcases he with rfl | rfl <;> rfl
          · rcases List.mem_append.mp hc with hc | hc
            · exact hnumeral c hc
            · exact isNumeral_of_mem_takeWhile c hc
    · rw [if_neg he]
      exact ⟨[], rfl, by simp⟩
  · exact ⟨[], rfl, by simp⟩

theorem decimalValue_eq_none {s : List Char} {c : Char} (hc : isNumeral c = false) (hmem : c ∈ s) :
    decimalValue s = none := by
  have hnot : ∀ {part : List Char}, (∀ x ∈ part, isNumeral x = true) → c ∉ part := by
    intro part hpart hin
    rw [hpart c hin] at hc
    cases hc
  obtain ⟨sign, hsign, hnumeral⟩ := signedExponent_split s
  have hunsigned : c ∈ (Json.signedExponent s).2 := by
    rw [hsign] at hmem
    exact (List.mem_append.mp hmem).resolve_left (hnot hnumeral)
  have hpoint : c ∈ (Json.signedExponent s).2.dropWhile isDigit := by
    rw [← List.takeWhile_append_dropWhile (p := isDigit) (l := (Json.signedExponent s).2)] at hunsigned
    exact (List.mem_append.mp hunsigned).resolve_left (hnot isNumeral_of_mem_takeWhile)
  have hend : ∀ rest : List Char, c ∈ rest → (Json.readExponent rest).2 ≠ [] := by
    intro rest hrest hnil
    obtain ⟨part, hpart, hall⟩ := readExponent_split rest
    rw [hpart, hnil, List.append_nil] at hrest
    exact hnot hall hrest
  unfold decimalValue
  dsimp only
  apply if_pos
  right
  apply hend
  split
  · rename_i rest heq
    rw [heq] at hpoint
    have hrest : c ∈ rest := by
      rcases List.mem_cons.mp hpoint with rfl | h
      · cases hc
      · exact h
    rw [← List.takeWhile_append_dropWhile (p := isDigit) (l := rest)] at hrest
    exact (List.mem_append.mp hrest).resolve_left (hnot isNumeral_of_mem_takeWhile)
  · exact hpoint

theorem isBlank_iff {c : Char} : isBlank c = true ↔ c = ' ' ∨ c = '\t' := by
  simp [isBlank]

theorem isSpace_of_isBlank {c : Char} (h : isBlank c = true) : isSpace c = true := by
  rcases isBlank_iff.mp h with rfl | rfl <;> rfl

theorem not_isNumeral_of_isBlank {c : Char} (h : isBlank c = true) : isNumeral c = false := by
  rcases isBlank_iff.mp h with rfl | rfl <;> rfl

theorem not_isNameChar_of_isBlank {c : Char} (h : isBlank c = true) : isNameChar c = false := by
  rcases isBlank_iff.mp h with rfl | rfl <;> rfl

theorem not_isSpace_of_isNameChar {c : Char} (h : isNameChar c = true) : isSpace c = false := by
  by_contra hspace
  simp only [isNameChar, isNameStart, isLower, isUpper, isDigit, isSpace, inRange, Bool.or_eq_true,
    Bool.and_eq_true, decide_eq_true_eq, beq_iff_eq, Bool.not_eq_false] at h hspace
  rcases h with (((h | h) | rfl) | rfl) | h
  · omega
  · omega
  · exact absurd hspace (by decide)
  · exact absurd hspace (by decide)
  · omega

theorem isSpace_of_mem_blanks (b : Blanks) : ∀ c ∈ b.val, isSpace c = true :=
  fun c hc => isSpace_of_isBlank (b.property c hc)

theorem not_mem_blanks {c : Char} (hc : isBlank c = false) (b : Blanks) : c ∉ b.val := by
  intro hmem
  rw [b.property c hmem] at hc
  cases hc

theorem mem_escapeLabel {c x : Char} (hx : x ≠ '\\' ∧ x ≠ '"' ∧ x ≠ 'n' ∧ x ≠ '\n') :
    x ∈ escapeLabel c ↔ x = c := by
  unfold escapeLabel
  split_ifs with h h h
  · subst h
    simp [hx]
  · subst h
    simp [hx]
  · subst h
    simp [hx]
  · simp

theorem mem_joinWith {c sep : Char} (hc : c ≠ sep) (parts : List (List Char)) :
    c ∈ joinWith sep parts ↔ ∃ part ∈ parts, c ∈ part := by
  induction parts with
  | nil => simp [joinWith]
  | cons part parts ih =>
    cases parts with
    | nil => simp [joinWith]
    | cons next parts =>
      rw [joinWith, List.mem_append, List.mem_cons, ih, List.exists_mem_cons_iff]
      simp [hc]

theorem Label.closing_mem (l : Label) : '}' ∈ l.text ↔ '}' ∈ l.value := by
  have hblank : ∀ b : Blanks, '}' ∉ b.val := not_mem_blanks rfl
  have hname : '}' ∉ l.name := by
    intro hmem
    exact absurd (l.name_chars _ hmem) (by decide)
  have hvalue : '}' ∈ l.value.flatMap escapeLabel ↔ '}' ∈ l.value := by
    simp only [List.mem_flatMap, mem_escapeLabel (x := '}') (by decide), exists_eq_right']
  simp [Label.text, hblank, hname, hvalue]

theorem LabelSet.closing_mem (set : LabelSet) :
    '}' ∈ set.inside ↔ ∃ l ∈ set.labels, '}' ∈ l.value := by
  have hblank : ∀ b : Blanks, '}' ∉ b.val := not_mem_blanks rfl
  rw [LabelSet.inside, List.mem_append, List.mem_append, mem_joinWith (by decide)]
  simp only [List.mem_map, exists_exists_and_eq_and, Label.closing_mem, hblank, or_false]
  split_ifs <;> simp

section Solid

variable {y : Char} {tail : List Char} (hy : isSpace y = false)

include hy

theorem readValue_solid : readValue (y :: tail) = none := by
  rw [readValue, if_neg (by simp [hy])]

theorem readValue_blanks {b : Blanks} (hb : b.val ≠ []) :
    readValue (b.val ++ y :: tail) = decimalValue (y :: tail) := by
  obtain ⟨c, rest, heq⟩ := List.exists_cons_of_ne_nil hb
  have hc : isSpace c = true := isSpace_of_mem_blanks b c (by simp [heq])
  rw [readValue, if_pos (by simp [heq, hc]), List.dropWhile_append_of_pos (isSpace_of_mem_blanks b),
    List.dropWhile_cons_of_neg (by simp [hy])]

end Solid

theorem mem_dropWhile {c : Char} {p : Char → Bool} (hc : p c = false) {s : List Char} (h : c ∈ s) :
    c ∈ s.dropWhile p := by
  rw [← List.takeWhile_append_dropWhile (p := p) (l := s)] at h
  refine (List.mem_append.mp h).resolve_left fun htake => ?_
  rw [List.mem_takeWhile_imp htake] at hc
  cases hc

theorem readValue_eq_none {s : List Char} {c : Char} (hspace : isSpace c = false)
    (hc : isNumeral c = false) (hmem : c ∈ s) : readValue s = none := by
  unfold readValue
  split_ifs
  · exact decimalValue_eq_none hc (mem_dropWhile hspace hmem)
  · rfl

theorem dropLabels_of_ne {c : Char} (hc : c ≠ '{') (s : List Char) : dropLabels (c :: s) = c :: s := by
  unfold dropLabels
  split
  · rename_i heq
    exact absurd (List.cons.inj heq).1 hc
  · rfl

theorem dropLabels_closed {inner : List Char} (h : '}' ∉ inner) (s : List Char) :
    dropLabels ('{' :: (inner ++ '}' :: s)) = s := by
  have hinner : ∀ c ∈ inner, (c != '}') = true := by
    intro c hc
    rw [bne_iff_ne]
    rintro rfl
    exact h hc
  have hdrop : (inner ++ '}' :: s).dropWhile (· != '}') = '}' :: s := by
    rw [List.dropWhile_append_of_pos hinner]
    simp
  simp only [dropLabels, hdrop]

theorem Middle.head (m : Middle) : ∃ c rest, m.text = c :: rest ∧ isNameChar c = false := by
  cases m with
  | gap b hb =>
    obtain ⟨c, rest, heq⟩ := List.exists_cons_of_ne_nil hb
    exact ⟨c, rest, heq, not_isNameChar_of_isBlank (b.property c (by simp [heq]))⟩
  | labels set =>
    rw [Middle.text]
    cases hbefore : set.beforeBrace.val with
    | nil => exact ⟨'{', _, rfl, rfl⟩
    | cons c rest =>
      refine ⟨c, _, rfl, not_isNameChar_of_isBlank (set.beforeBrace.property c ?_)⟩
      simp [hbefore]

theorem Middle.readValue_plain {m : Middle} (h : m.Plain) {y : Char} (hy : isSpace y = false)
    (tail : List Char) :
    readValue (dropLabels (m.text ++ y :: tail)) = decimalValue (y :: tail) := by
  cases m with
  | gap b hb =>
    obtain ⟨c, rest, heq⟩ := List.exists_cons_of_ne_nil hb
    have hc : c ≠ '{' := by
      rintro rfl
      exact not_mem_blanks (c := '{') rfl b (by simp [heq])
    rw [Middle.text, heq, List.cons_append, dropLabels_of_ne hc, ← List.cons_append, ← heq,
      readValue_blanks hy hb]
  | labels set =>
    obtain ⟨hbefore, hvalues, hafter⟩ := h
    have hinside : '}' ∉ set.inside := by
      rw [LabelSet.closing_mem]
      rintro ⟨l, hl, hmem⟩
      exact hvalues l hl hmem
    rw [Middle.text, hbefore, List.nil_append, List.cons_append, List.append_assoc,
      List.cons_append, dropLabels_closed hinside, readValue_blanks hy hafter]

/-- Any other middle leaves something in front of the value that no pattern of a value takes. -/
theorem Middle.readValue_not_plain {m : Middle} (h : ¬ m.Plain) {y : Char} (hy : isSpace y = false)
    (tail : List Char) : readValue (dropLabels (m.text ++ y :: tail)) = none := by
  cases m with
  | gap b hb => exact absurd trivial h
  | labels set =>
    rw [Middle.text]
    cases hbefore : set.beforeBrace.val with
    | cons c rest =>
      have hc : c ≠ '{' := by
        rintro rfl
        exact not_mem_blanks (c := '{') rfl set.beforeBrace (by simp [hbefore])
      rw [List.cons_append, List.cons_append, dropLabels_of_ne hc]
      exact readValue_eq_none (c := '{') rfl rfl (by simp)
    | nil =>
      rw [List.nil_append, List.cons_append, List.append_assoc, List.cons_append]
      by_cases hinside : '}' ∈ set.inside
      · obtain ⟨inner, rest, heq, hfirst⟩ := List.eq_append_cons_of_mem hinside
        rw [heq, List.append_assoc, List.cons_append, dropLabels_closed hfirst]
        exact readValue_eq_none (c := '}') rfl rfl (by simp)
      · rw [dropLabels_closed hinside]
        by_cases hafter : set.afterBrace.val = []
        · rw [hafter, List.nil_append, readValue_solid hy]
        · refine absurd ⟨hbefore, ?_, hafter⟩ h
          intro l hl hmem
          exact hinside (set.closing_mem.mpr ⟨l, hl, hmem⟩)

/-- A list without blanks at its ends stays when blanks around it are stripped. -/
theorem strip_around {a core b : List Char} (ha : ∀ c ∈ a, isSpace c = true)
    (hb : ∀ c ∈ b, isSpace c = true) {x y : Char} {m : List Char} (hx : isSpace x = false)
    (hy : isSpace y = false) (hfirst : core.head? = some x) (hlast : core = m ++ [y]) :
    strip (a ++ core ++ b) = core := by
  have htrail : dropTrailing isSpace b = [] := List.rdropWhile_eq_nil_iff.mpr hb
  obtain ⟨rest, hrest⟩ : ∃ rest, core = x :: rest := by
    cases core with
    | nil => cases hfirst
    | cons c rest => exact ⟨rest, by rw [Option.some.inj hfirst]⟩
  have hdrop : (core ++ b).dropWhile isSpace = core ++ b := by
    rw [hrest, List.cons_append, List.dropWhile_cons_of_neg (by simp [hx])]
  rw [List.append_assoc, strip_append_of_space ha, strip, hdrop, hlast, List.append_assoc,
    List.singleton_append, dropTrailing_append hy, htrail]

namespace Sample

variable (s : Sample)

theorem tail_first : ∃ y rest, s.tail = y :: rest ∧ isSpace y = false := by
  obtain ⟨y, rest, heq⟩ := List.exists_cons_of_ne_nil s.value.text_ne
  exact ⟨y, _, by rw [tail, heq, List.cons_append], s.value.text_solid y (by simp [heq])⟩

theorem tail_last : ∃ m y, s.tail = m ++ [y] ∧ isSpace y = false := by
  unfold tail
  cases s.timestamp with
  | none =>
    obtain ⟨m, y, heq⟩ := List.eq_nil_or_concat' s.value.text |>.resolve_left s.value.text_ne
    exact ⟨m, y, by simpa using heq, s.value.text_solid y (by simp [heq])⟩
  | some t =>
    obtain ⟨m, y, heq⟩ := List.eq_nil_or_concat' t.digits |>.resolve_left t.digits_ne
    refine ⟨s.value.text ++ (t.gap ++ (if t.negative then ['-'] else []) ++ m), y, ?_, ?_⟩
    · simp [Timestamp.text, heq]
    · have hdigit := t.digits_chars y (by simp [heq])
      exact not_isSpace_of_isNameChar (by simp [isNameChar, hdigit])

theorem decimalValue_tail :
    decimalValue s.tail = if s.timestamp.isNone then decimalValue s.value.text else none := by
  unfold tail
  cases s.timestamp with
  | none => simp
  | some t =>
    obtain ⟨c, rest, heq⟩ := List.exists_cons_of_ne_nil t.gap_ne
    have hc := not_isNumeral_of_isBlank (t.gap.property c (by simp [heq]))
    exact decimalValue_eq_none hc (by simp [Timestamp.text, heq])

theorem name_first : ∃ c rest, s.name = c :: rest ∧ isNameStart c = true := by
  have hstart := s.name_start
  cases hname : s.name with
  | nil =>
    rw [hname] at hstart
    cases hstart
  | cons c rest =>
    rw [hname] at hstart
    exact ⟨c, rest, rfl, by simpa using hstart⟩

theorem matchMetric_eq : matchMetric (s.name ++ (s.middle.text ++ s.tail)) =
    (readValue (dropLabels (s.middle.text ++ s.tail))).map fun q => (s.name, q) := by
  obtain ⟨c, rest, hmiddle, hc⟩ := s.middle.head
  have htake : (s.name ++ (s.middle.text ++ s.tail)).takeWhile isNameChar = s.name := by
    rw [List.takeWhile_append_of_pos s.name_chars, hmiddle, List.cons_append,
      List.takeWhile_cons_of_neg (by simp [hc]), List.append_nil]
  have hdrop : (s.name ++ (s.middle.text ++ s.tail)).dropWhile isNameChar =
      s.middle.text ++ s.tail := by
    rw [List.dropWhile_append_of_pos s.name_chars, hmiddle, List.cons_append,
      List.dropWhile_cons_of_neg (by simp [hc])]
  simp only [matchMetric, htake, hdrop, s.name_start, if_true]

theorem matchMetric_map : (matchMetric (s.name ++ (s.middle.text ++ s.tail))).map
      (fun found => (found.1, PyFloat.ofRat found.2)) =
    if s.Plain then some (s.name, s.value.value) else none := by
  obtain ⟨y, rest, htail, hy⟩ := s.tail_first
  rw [matchMetric_eq]
  by_cases hmiddle : s.middle.Plain
  · have hread : readValue (dropLabels (s.middle.text ++ s.tail)) = decimalValue s.tail := by
      rw [htail, Middle.readValue_plain hmiddle hy]
    rw [hread, decimalValue_tail]
    cases hstamp : s.timestamp with
    | some t => simp [Plain, hstamp]
    | none =>
      cases hvalue : decimalValue s.value.text with
      | none => simp [Plain, hvalue]
      | some q => simp [Plain, hmiddle, hstamp, hvalue, s.value.decimal q hvalue]
  · rw [htail, Middle.readValue_not_plain hmiddle hy, if_neg (fun h => hmiddle h.1)]
    rfl

theorem reading_text : reading s.text = if s.Plain then some (s.name, s.value.value) else none := by
  obtain ⟨c, rest, hname, hstart⟩ := s.name_first
  obtain ⟨m, y, htail, hy⟩ := s.tail_last
  have hspace : isSpace c = false := not_isSpace_of_isNameChar (by simp [isNameChar, hstart])
  have hstrip : strip s.text = s.name ++ (s.middle.text ++ s.tail) := by
    refine strip_around (isSpace_of_mem_blanks s.lead) (isSpace_of_mem_blanks s.trail) hspace hy
      (m := s.name ++ (s.middle.text ++ m)) ?_ ?_
    · rw [hname]
      rfl
    · rw [htail]
      simp
  unfold reading
  dsimp only
  rw [hstrip, if_neg, matchMetric_map]
  rw [hname]
  rintro (hnil | hcomment)
  · cases hnil
  · obtain rfl : c = '#' := Option.some.inj hcomment
    cases hstart

end Sample

namespace Line

/-- Only the quoted values and the comments hold white space that is no blank. -/
theorem not_mem_newline (line : Line) : '\n' ∉ line.text := by
  have hblank : ∀ b : Blanks, '\n' ∉ b.val := not_mem_blanks rfl
  cases line with
  | comment lead body hbody => simp [text, hblank, hbody]
  | blank b => exact hblank b
  | sample s =>
    have hname : '\n' ∉ s.name := fun h => absurd (s.name_chars _ h) (by decide)
    have hvalue : '\n' ∉ s.value.text := fun h => absurd (s.value.text_solid _ h) (by decide)
    have hstamp : '\n' ∉ (s.timestamp.map Timestamp.text).getD [] := by
      cases s.timestamp with
      | none => simp
      | some t =>
        have hdigits : '\n' ∉ t.digits := fun h => absurd (t.digits_chars _ h) (by decide)
        have hsign : '\n' ∉ (if t.negative then ['-'] else []) := by split_ifs <;> simp
        simp [Timestamp.text, hblank, hdigits, hsign]
    have hmiddle : '\n' ∉ s.middle.text := by
      cases s.middle with
      | gap b _ => exact hblank b
      | labels set =>
        have hlabel : ∀ l ∈ set.labels, '\n' ∉ l.text := by
          intro l _
          have hlabelName : '\n' ∉ l.name := fun h => absurd (l.name_chars _ h) (by decide)
          have hescaped : '\n' ∉ l.value.flatMap escapeLabel := by
            rw [List.mem_flatMap]
            rintro ⟨c, -, hc⟩
            unfold escapeLabel at hc
            split_ifs at hc with h1 h2 h3
            · simp at hc
            · simp at hc
            · simp at hc
            · exact h3 (List.mem_singleton.mp hc).symm
          simp [Label.text, hblank, hlabelName, hescaped]
        have hinside : '\n' ∉ set.inside := by
          rw [LabelSet.inside, List.mem_append, List.mem_append, mem_joinWith (by decide)]
          simp only [List.mem_map, exists_exists_and_eq_and, hblank, or_false]
          split_ifs <;> simpa using hlabel
        simp [Middle.text, hblank, hinside]
    simp [text, Sample.text, Sample.tail, hblank, hname, hvalue, hstamp, hmiddle]

theorem reading_comment (lead : Blanks) (body : List Char) :
    reading (lead.val ++ '#' :: body) = none := by
  unfold reading
  dsimp only
  rw [strip_append_of_space (isSpace_of_mem_blanks lead), strip_cons rfl]
  simp

theorem reading_blank (b : Blanks) : reading b.val = none := by
  unfold reading
  dsimp only
  rw [strip_eq_nil_of_space (isSpace_of_mem_blanks b)]
  simp

theorem readings_text (line : Line) : readings line.text = line.counted := by
  unfold counted
  split_ifs with hunbroken
  · have hone : readings line.text = (reading line.text).toList := by
      rw [readings, segments, splitWhere_of_none hunbroken]
      cases hread : reading line.text with
      | none => rw [List.filterMap_cons_none hread]; rfl
      | some r => rw [List.filterMap_cons_some hread]; rfl
    rw [hone]
    cases line with
    | sample s =>
      rw [text, Sample.reading_text]
      dsimp only
      split_ifs <;> rfl
    | comment lead body h => rw [text, reading_comment]; rfl
    | blank b => rw [text, reading_blank]; rfl
  · rfl

end Line

namespace Document

theorem readings_text (d : Document) : readings d.text = d.counted := by
  have hbreak : ∀ c : Char, (c == '\n') = true → isLineBreak c = true := by
    intro c hc
    rw [eq_of_beq hc]
    rfl
  have hsplit : splitWhere (· == '\n') d.text = d.map Line.text ++ [[]] := by
    have hnewline : ∀ line ∈ d.map Line.text, '\n' ∉ line := by
      intro line hline
      obtain ⟨l, -, rfl⟩ := List.mem_map.mp hline
      exact l.not_mem_newline
    have hlines := splitOnChar_lines hnewline
    rwa [List.flatMap_map] at hlines
  have hempty : readings [] = [] := rfl
  unfold readings segments at hempty ⊢
  rw [splitWhere_flatMap hbreak, hsplit, List.filterMap_flatMap, List.flatMap_append,
    List.flatMap_singleton, hempty, List.append_nil, List.flatMap_map, counted]
  exact List.flatMap_congr fun line _ => line.readings_text

end Document

theorem nonFinite_injective : Function.Injective nonFinite := by
  intro a b h
  have htext := congrArg String.toList (MetricsError.mk.inj h)
  rw [String.toList_append, String.toList_append] at htext
  have hname := List.append_cancel_left htext
  rwa [String.toList_ofList, String.toList_ofList] at hname

section Accounts

variable {d : Document}

theorem accounted_of_counts (h : CountsEverySample d) : d.Accounted := by
  have hparse := parsePrometheus_counts d.text
  rw [Document.readings_text] at hparse
  unfold CountsEverySample at h
  unfold Document.Accounted
  cases hresult : parsePrometheus d.text with
  | error e =>
    rw [hresult] at h hparse
    obtain ⟨r, hfind, rfl⟩ := hparse
    obtain ⟨s, hs, hname, hvalue⟩ := h
    rw [hfind]
    exact ⟨s, hs, (nonFinite_injective hname).symm, hvalue⟩
  | ok totals =>
    rw [hresult] at h hparse
    obtain ⟨hfind, htotals⟩ := hparse
    rw [hfind]
    intro name
    rw [← h name, htotals name]
    rfl

theorem counts_of_accounted (h : d.Accounted) : CountsEverySample d := by
  have hparse := parsePrometheus_counts d.text
  rw [Document.readings_text] at hparse
  unfold Document.Accounted at h
  unfold CountsEverySample
  cases hresult : parsePrometheus d.text with
  | error e =>
    rw [hresult] at hparse
    obtain ⟨r, hfind, rfl⟩ := hparse
    rw [hfind] at h
    obtain ⟨s, hs, hname, hvalue⟩ := h
    exact ⟨s, hs, congrArg nonFinite hname.symm, hvalue⟩
  | ok totals =>
    rw [hresult] at hparse
    obtain ⟨hfind, htotals⟩ := hparse
    rw [hfind] at h
    intro name
    rw [htotals name, ← h name]
    rfl

end Accounts

theorem total_eq_none_iff {name : List Char} {rs : List Reading} :
    total name rs = none ↔ ∀ r ∈ rs, r.1 ≠ name := by
  unfold total
  simp only [ite_eq_left_iff, reduceCtorEq, imp_false, not_not, List.map_eq_nil_iff,
    List.filter_eq_nil_iff, decide_eq_true_eq, ne_eq]

theorem counted_of_unbroken {d : Document} (hunbroken : ∀ line ∈ d, line.Unbroken) :
    d.counted = (d.samples.filter fun s => s.Plain).map fun s => (s.name, s.value.value) := by
  induction d with
  | nil => rfl
  | cons line d ih =>
    have hline := hunbroken line List.mem_cons_self
    have hrest := ih fun l hl => hunbroken l (List.mem_cons_of_mem _ hl)
    have hcons : Document.counted (line :: d) = line.counted ++ Document.counted d := List.flatMap_cons
    rw [hcons, hrest]
    cases line with
    | sample s =>
      have hsamples : Document.samples (.sample s :: d) = s :: Document.samples d := rfl
      have hcounted : (Line.sample s).counted = if s.Plain then [(s.name, s.value.value)] else [] :=
        if_pos hline
      rw [hsamples, hcounted]
      by_cases hs : s.Plain
      · simp only [hs, if_true, List.filter_cons, decide_true, List.map_cons, List.singleton_append]
      · simp only [hs, if_false, List.filter_cons, decide_false, Bool.false_eq_true, List.nil_append]
    | comment lead body h =>
      have hcounted : (Line.comment lead body h).counted = [] := if_pos hline
      rw [hcounted]
      rfl
    | blank b =>
      have hcounted : (Line.blank b).counted = [] := if_pos hline
      rw [hcounted]
      rfl

theorem countsEverySample_of_plain {d : Document} (h : d.Plain) : CountsEverySample d := by
  apply counts_of_accounted
  rw [Document.Accounted, counted_of_unbroken h.1,
    List.filter_eq_self.mpr fun s hs => decide_eq_true (h.2 s hs)]
  split
  · rename_i r hfind
    obtain ⟨s, hs, rfl⟩ := List.mem_map.mp (List.mem_of_find?_eq_some hfind)
    exact ⟨s, hs, rfl, by simpa using List.find?_some hfind⟩
  · exact fun name => rfl

/-- A sample that is not plain is missing in the total of its metric. -/
theorem plain_of_countsEverySample {d : Document} (hdistinct : d.Distinct)
    (h : CountsEverySample d) : d.Plain := by
  refine ⟨hdistinct.unbroken, fun s hs => ?_⟩
  by_contra hplain
  have haccounted := accounted_of_counts h
  have hfinite : ((d.samples.filter fun s => s.Plain).map fun s => (s.name, s.value.value)).find?
      (fun r => !isFinite r.2) = none := by
    rw [List.find?_eq_none]
    intro r hr
    obtain ⟨s', hs', rfl⟩ := List.mem_map.mp hr
    simp [hdistinct.finite s' (List.mem_filter.mp hs').1]
  rw [Document.Accounted, counted_of_unbroken hdistinct.unbroken, hfinite] at haccounted
  have hmissing : total s.name ((d.samples.filter fun s => s.Plain).map fun s =>
      (s.name, s.value.value)) = none := by
    rw [total_eq_none_iff]
    intro r hr
    obtain ⟨s', hs', rfl⟩ := List.mem_map.mp hr
    obtain ⟨hmem, hdecide⟩ := List.mem_filter.mp hs'
    intro hname
    obtain rfl := List.inj_on_of_nodup_map hdistinct.names hmem hs hname
    exact hplain (of_decide_eq_true hdecide)
  have hnone : total s.name (d.samples.map fun s => (s.name, s.value.value)) = none :=
    (haccounted s.name).symm.trans hmissing
  exact total_eq_none_iff.mp hnone _ (List.mem_map_of_mem hs) rfl

/-- Nothing is lost where every line is plain, and of lines that are not broken, with one finite
sample of each metric, only there. In general, nothing is lost exactly when what is counted
stands for the samples. -/
theorem counts_every_sample_iff (d : Document) :
    (d.Plain → CountsEverySample d) ∧ (d.Distinct → (CountsEverySample d ↔ d.Plain)) ∧
      (CountsEverySample d ↔ d.Accounted) :=
  ⟨countsEverySample_of_plain,
    fun hdistinct => ⟨plain_of_countsEverySample hdistinct, countsEverySample_of_plain⟩,
    accounted_of_counts, counts_of_accounted⟩

def noBlanks : Blanks := ⟨[], by simp⟩

def oneBlank : Blanks := ⟨[' '], by simp [isBlank]⟩

/-- The sample `a` of value 1 with one label. -/
def labelledSample (labelValue : List Char) : Sample where
  lead := noBlanks
  name := ['a']
  middle := .labels ⟨noBlanks, [⟨noBlanks, ['b'], noBlanks, noBlanks, labelValue, noBlanks,
    rfl, List.forall_mem_singleton.mpr rfl⟩], false, noBlanks, oneBlank, nofun⟩
  value := ⟨['1'], .ofRat 1, by simp, List.forall_mem_singleton.mpr rfl, by
    intro q hq
    have hone : decimalValue ['1'] = some (Json.signed false (Json.natOf ['1']) *
      (10 : ℚ) ^ (0 : ℤ)) := rfl
    obtain rfl := Option.some.inj (hone.symm.trans hq)
    simp [Json.signed, Json.natOf]⟩
  timestamp := none
  trail := noBlanks
  name_start := rfl
  name_chars := List.forall_mem_singleton.mpr rfl

theorem counts_every_sample_iff_labelled :
    CountsEverySample [.comment noBlanks ['x'] (by simp), .sample (labelledSample ['{', ','])] := by
  refine (counts_every_sample_iff _).1 ⟨fun line hline => ?_, fun s hs => ?_⟩
  · rcases List.mem_pair.mp hline with rfl | rfl <;> decide
  · obtain rfl : s = labelledSample ['{', ','] := List.mem_singleton.mp hs
    decide

/-- `a{b="x}"} 1` -/
def bracedSample : Sample := labelledSample ['x', '}']

/-- The sample is counted for nothing, so its metric is missing. -/
theorem braced_sample_lost : ¬ CountsEverySample [.sample bracedSample] := by
  intro hcounts
  have h := accounted_of_counts hcounts
  have hcounted : Document.counted [.sample bracedSample] = [] := by decide
  rw [Document.Accounted, hcounted] at h
  have hnone : (none : Option PyFloat) = total ['a'] [(['a'], .ofRat 1)] := h ['a']
  simp [total] at hnone

end ChampionRuntime.Benchmark.Probe
