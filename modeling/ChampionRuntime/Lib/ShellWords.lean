import ChampionRuntime.Lib.PyText
import ChampionRuntime.Lib.Split

/-!
# The words of a shell line

How a POSIX shell reads one line. Quotes and blanks make words, operators end
them, a number sign at the start of a word starts a comment. From the first
expansion on (a parameter, a substitution, a pattern or a tilde) the words depend
on the machine, so the rest of the line is handed over as it stands.
-/
namespace ChampionRuntime.Lib.ShellWords

open PyText

inductive Token where
  | word (text : List Char)
  /-- one character of an operator -/
  | operator (symbol : Char)
  /-- an expansion, with what its word held before it and the rest of the line -/
  | live (quoted : Bool) (begun rest : List Char)
  deriving DecidableEq, Repr

/-- The quoting that the next character stands under. -/
inductive Mode where
  | plain | escaped | single | double | doubleEscaped | comment
  deriving DecidableEq, Repr

def isBlank (c : Char) : Bool := c == ' ' || c == '\t'

def isOperator (c : Char) : Bool := ['|', '&', ';', '<', '>', '(', ')', '\n'].contains c

def isQuote (c : Char) : Bool := ['\'', '"', '\\'].contains c

/-- Characters that can start an expansion inside a word. -/
def isExpansion (c : Char) : Bool := ['$', '`', '*', '?', '['].contains c

/-- What follows a dollar sign that is not literal. -/
def namesParameter : List Char → Bool
  | [] => false
  | c :: _ => isUpper c || isLower c || isDigit c ||
      ['_', '{', '(', '@', '*', '#', '?', '-', '$', '!'].contains c

/-- An expansion starts at this character, outside quotes. -/
def startsExpansion (begun : Option (List Char)) (c : Char) (rest : List Char) : Bool :=
  if c == '$' then namesParameter rest || rest.head? == some '\'' || rest.head? == some '"'
  else isExpansion c || (c == '~' && begun.isNone)

def ended : Option (List Char) → List Token
  | none => []
  | some text => [.word text]

def push (begun : Option (List Char)) (c : Char) : Option (List Char) :=
  some (begun.getD [] ++ [c])

/-- The tokens of a line behind a word that may have begun; none where a quote is
left open. A backslash before a newline joins two lines. -/
def read : Mode → Option (List Char) → List Char → Option (List Token)
  | .plain, begun, [] => some (ended begun)
  | .plain, begun, c :: rest =>
    if startsExpansion begun c rest then some [.live false (begun.getD []) (c :: rest)]
    else if c == '\\' then read .escaped begun rest
    else if c == '\'' then read .single (some (begun.getD [])) rest
    else if c == '"' then read .double (some (begun.getD [])) rest
    else if isBlank c then (read .plain none rest).map (ended begun ++ ·)
    else if isOperator c then (read .plain none rest).map (ended begun ++ .operator c :: ·)
    else if c == '#' && begun.isNone then read .comment none rest
    else read .plain (push begun c) rest
  | .escaped, begun, [] => some (ended (push begun '\\'))
  | .escaped, begun, c :: rest =>
    if c == '\n' then read .plain begun rest else read .plain (push begun c) rest
  | .single, _, [] => none
  | .single, begun, c :: rest =>
    if c == '\'' then read .plain begun rest else read .single (push begun c) rest
  | .double, _, [] => none
  | .double, begun, c :: rest =>
    if c == '"' then read .plain begun rest
    else if c == '\\' then read .doubleEscaped begun rest
    else if c == '`' || (c == '$' && namesParameter rest) then
      some [.live true (begun.getD []) (c :: rest)]
    else read .double (push begun c) rest
  | .doubleEscaped, _, [] => none
  | .doubleEscaped, begun, c :: rest =>
    if c == '\n' then read .double begun rest
    else if ['$', '`', '"', '\\'].contains c then read .double (push begun c) rest
    else read .double (push (push begun '\\') c) rest
  | .comment, _, [] => some []
  | .comment, _, c :: rest =>
    if c == '\n' then (read .plain none rest).map (.operator c :: ·) else read .comment none rest

theorem read_plain_cons (begun : Option (List Char)) (c : Char) (rest : List Char) :
    read .plain begun (c :: rest) =
      if startsExpansion begun c rest then some [.live false (begun.getD []) (c :: rest)]
      else if c == '\\' then read .escaped begun rest
      else if c == '\'' then read .single (some (begun.getD [])) rest
      else if c == '"' then read .double (some (begun.getD [])) rest
      else if isBlank c then (read .plain none rest).map (ended begun ++ ·)
      else if isOperator c then (read .plain none rest).map (ended begun ++ .operator c :: ·)
      else if c == '#' && begun.isNone then read .comment none rest
      else read .plain (push begun c) rest := rfl

theorem read_single_cons (begun : Option (List Char)) (c : Char) (rest : List Char) :
    read .single begun (c :: rest) =
      if c == '\'' then read .plain begun rest else read .single (push begun c) rest := rfl

theorem read_double_cons (begun : Option (List Char)) (c : Char) (rest : List Char) :
    read .double begun (c :: rest) =
      if c == '"' then read .plain begun rest
      else if c == '\\' then read .doubleEscaped begun rest
      else if c == '`' || (c == '$' && namesParameter rest) then
        some [.live true (begun.getD []) (c :: rest)]
      else read .double (push begun c) rest := rfl

def reservedWords : List (List Char) :=
  ["!", "\x7b", "\x7d", "case", "do", "done", "elif", "else", "esac", "fi", "for", "if", "in", "then",
    "until", "while"].map String.toList

/-- The first word is the name of a command, not an assignment or a reserved word. -/
def isCommandName (word : List Char) : Bool :=
  !word.isEmpty && !word.contains '=' && !reservedWords.contains word

def startsCommand : List Token → Bool
  | .word text :: _ => isCommandName text
  | .live _ _ _ :: _ => true
  | _ => false

section Command

variable (expand : Bool → List Char → List Char → Option (List (List Char)))

/-- The words of a command without operators; the machine says what the words are
from the first expansion on. -/
def commandWords : List Token → Option (List (List Char))
  | [] => some []
  | .word text :: tokens => (commandWords tokens).map (text :: ·)
  | .operator _ :: _ => none
  | .live quoted begun rest :: _ => expand quoted begun rest

/-- The words that a line runs, where it is one simple command. -/
def simpleCommand (line : List Char) : Option (List (List Char)) :=
  (read .plain none line).bind fun tokens =>
    if startsCommand tokens then commandWords expand tokens else none

end Command

/-- `shlex.quote`. -/
def isQuoteSafe (c : Char) : Bool :=
  isUpper c || isLower c || isDigit c || ['_', '@', '%', '+', '=', ':', ',', '.', '/', '-'].contains c

def quote (text : List Char) : List Char :=
  if text.isEmpty then ['\'', '\'']
  else if text.all isQuoteSafe then text
  else '\'' :: ((text.flatMap fun c => if c == '\'' then "'\"'\"'".toList else [c]) ++ ['\''])

/-- A character that stands for itself inside a word. -/
def isPlain (c : Char) : Bool := !isBlank c && !isOperator c && !isQuote c && !isExpansion c

def isPlainWord (word : List Char) : Bool :=
  word.all isPlain && word.head?.any fun c => c != '#' && c != '~'

/-- The sent characters are read as the beginning of this word, whatever follows. -/
def Begins (sent word : List Char) : Prop :=
  ∀ rest, read .plain none (sent ++ rest) = read .plain (some word) rest

/-- The sent characters are read as this word where a blank or nothing follows. -/
def Spells (sent word : List Char) : Prop :=
  ∀ rest, rest.head? ∈ [none, some ' '] →
    read .plain none (sent ++ rest) = read .plain (some word) rest

variable {expand : Bool → List Char → List Char → Option (List (List Char))}
variable {c : Char} {word begun rest line : List Char}

theorem isPlain_spec (h : isPlain c = true) : isBlank c = false ∧ isOperator c = false ∧
    isExpansion c = false ∧ c ≠ '\\' ∧ c ≠ '\'' ∧ c ≠ '"' ∧ c ≠ '$' := by
  simp only [isPlain, Bool.and_eq_true, Bool.not_eq_true'] at h
  obtain ⟨⟨⟨hblank, hoperator⟩, hquote⟩, hexpansion⟩ := h
  refine ⟨hblank, hoperator, hexpansion, ?_, ?_, ?_, ?_⟩ <;> rintro rfl
  · exact absurd hquote (by decide)
  · exact absurd hquote (by decide)
  · exact absurd hquote (by decide)
  · exact absurd hexpansion (by decide)

theorem read_plain_char (h : isPlain c = true) :
    read .plain (some begun) (c :: rest) = read .plain (some (begun ++ [c])) rest := by
  obtain ⟨hblank, hoperator, hexpansion, hback, hsingle, hdouble, hdollar⟩ := isPlain_spec h
  simp [read_plain_cons, startsExpansion, push, hblank, hoperator, hexpansion, hback, hsingle,
    hdouble, hdollar]

theorem read_plain_chars (h : word.all isPlain = true) :
    read .plain (some begun) (word ++ rest) = read .plain (some (begun ++ word)) rest := by
  induction word generalizing begun with
  | nil => simp
  | cons c word ih =>
    simp only [List.all_cons, Bool.and_eq_true] at h
    rw [List.cons_append, read_plain_char h.1, ih h.2, List.append_assoc, List.singleton_append]

theorem begins_of_plain (h : isPlainWord word = true) : Begins word word := by
  intro rest
  cases word with
  | nil => simp [isPlainWord] at h
  | cons c word =>
    simp only [isPlainWord, List.all_cons, List.head?_cons, Option.any_some, Bool.and_eq_true,
      bne_iff_ne] at h
    obtain ⟨⟨hc, hword⟩, hcomment, htilde⟩ := h
    obtain ⟨hblank, hoperator, hexpansion, hback, hsingle, hdouble, hdollar⟩ := isPlain_spec hc
    have hfirst : read .plain none (c :: (word ++ rest)) =
        read .plain (some [c]) (word ++ rest) := by
      simp [read_plain_cons, startsExpansion, push, hblank, hoperator, hexpansion, hback, hsingle,
        hdouble, hdollar, hcomment, htilde]
    rw [List.cons_append, hfirst, read_plain_chars hword, List.singleton_append]

theorem isPlain_of_quoteSafe (h : isQuoteSafe c = true) : isPlain c = true := by
  by_contra hplain
  have hspecial : c ∈ [' ', '\t', '|', '&', ';', '<', '>', '(', ')', '\n', '\'', '"', '\\', '$',
      '`', '*', '?', '['] := by
    simp only [isPlain, isBlank, isOperator, isQuote, isExpansion, Bool.and_eq_true,
      Bool.not_eq_true', Bool.or_eq_false_iff, beq_eq_false_iff_ne, List.contains_eq_mem,
      decide_eq_false_iff_not] at hplain
    simp only [List.mem_cons, List.not_mem_nil, or_false] at hplain ⊢
    tauto
  have hmeta : ∀ x ∈ [' ', '\t', '|', '&', ';', '<', '>', '(', ')', '\n', '\'', '"', '\\', '$',
      '`', '*', '?', '['], isQuoteSafe x = false := List.forall_iff_forall_mem.mp (by decide)
  rw [hmeta c hspecial] at h
  cases h

theorem read_single (text : List Char) :
    read .single (some begun)
        ((text.flatMap fun c => if c == '\'' then "'\"'\"'".toList else [c]) ++ '\'' :: rest) =
      read .plain (some (begun ++ text)) rest := by
  induction text generalizing begun with
  | nil => simp [read_single_cons]
  | cons c text ih =>
    by_cases hc : c = '\''
    · subst hc
      simpa [read_single_cons, read_plain_cons, read_double_cons, startsExpansion, isExpansion,
        push, List.append_assoc] using @ih (begun ++ ['\''])
    · simpa [read_single_cons, push, hc, List.append_assoc] using @ih (begun ++ [c])

/-- The shell reads a quoted text back, behind anything that a word began with. -/
theorem read_quote (text : List Char) :
    read .plain (some begun) (quote text ++ rest) = read .plain (some (begun ++ text)) rest := by
  unfold quote
  split_ifs with hempty hsafe
  · rw [List.isEmpty_iff.mp hempty]
    simp [read_plain_cons, read_single_cons, startsExpansion, isExpansion]
  · exact read_plain_chars (List.all_eq_true.mpr fun c hc =>
      isPlain_of_quoteSafe (List.all_eq_true.mp hsafe c hc))
  · rw [List.cons_append, List.append_assoc, List.singleton_append, ← read_single]
    simp [read_plain_cons, startsExpansion, isExpansion]

theorem Begins.append_quote {sent : List Char} (h : Begins sent word) (text : List Char) :
    Begins (sent ++ quote text) (word ++ text) := by
  intro rest
  rw [List.append_assoc, h, read_quote]

theorem Begins.spells {sent : List Char} (h : Begins sent word) : Spells sent word :=
  fun rest _ => h rest

theorem spells_of_plain (h : isPlainWord word = true) : Spells word word :=
  (begins_of_plain h).spells

theorem Begins.spells_dollar {sent : List Char} (h : Begins sent word) :
    Spells (sent ++ ['$']) (word ++ ['$']) := by
  intro rest hrest
  have hliteral : namesParameter rest = false ∧ rest.head? ≠ some '\'' ∧ rest.head? ≠ some '"' := by
    cases rest with
    | nil => simp [namesParameter]
    | cons c rest =>
      obtain rfl : c = ' ' := by simpa using hrest
      simp [namesParameter, isUpper, isLower, isDigit, inRange]
  rw [List.append_assoc, h, List.singleton_append]
  simp [read_plain_cons, startsExpansion, isBlank, isOperator, push, hliteral]

theorem isPlainWord_append {tail : List Char} (h : isPlainWord word = true)
    (htail : tail.all isPlain = true) : isPlainWord (word ++ tail) = true := by
  cases word with
  | nil => simp [isPlainWord] at h
  | cons c word =>
    simp only [isPlainWord, Bool.and_eq_true, List.cons_append, List.head?_cons, List.all_cons,
      List.all_append] at h ⊢
    exact ⟨⟨h.1.1, h.1.2, htail⟩, h.2⟩

theorem read_blank : read .plain (some word) (' ' :: rest) =
    (read .plain none rest).map (.word word :: ·) := by
  simp [read_plain_cons, startsExpansion, isExpansion, isBlank, ended]

theorem read_special (word rest : List Char) (h : (isBlank c || isOperator c) = true) :
    ∃ f : List Token → List Token, (∀ tokens, f tokens = .word word :: tokens ∨
        f tokens = .word word :: .operator c :: tokens) ∧
      read .plain (some word) (c :: rest) = (read .plain none rest).map f := by
  have hspecial : c ∈ [' ', '\t', '|', '&', ';', '<', '>', '(', ')', '\n'] := by
    simpa [isBlank, isOperator, or_assoc] using h
  have hexpansion : startsExpansion (some word) c rest = false ∧ c ≠ '\\' ∧ c ≠ '\'' ∧ c ≠ '"' := by
    simp only [List.mem_cons, List.not_mem_nil, or_false] at hspecial
    rcases hspecial with rfl | rfl | rfl | rfl | rfl | rfl | rfl | rfl | rfl | rfl <;>
      simp [startsExpansion, isExpansion]
  obtain ⟨hexpansion, hback, hsingle, hdouble⟩ := hexpansion
  by_cases hblank : isBlank c = true
  · refine ⟨(.word word :: ·), fun _ => .inl rfl, ?_⟩
    simp [read_plain_cons, hexpansion, hback, hsingle, hdouble, hblank, ended]
  · refine ⟨(.word word :: .operator c :: ·), fun _ => .inr rfl, ?_⟩
    have hoperator : isOperator c = true := by simpa [hblank] using h
    simp [read_plain_cons, hexpansion, hback, hsingle, hdouble, hblank, hoperator, ended]

theorem joinWith_cons_append (sent : List Char) (before : List (List Char)) (tail : List Char)
    (after : List (List Char)) :
    joinWith ' ' (sent :: (before ++ tail :: after)) =
      sent ++ ' ' :: joinWith ' ' (before ++ tail :: after) := by
  cases before <;> rfl

theorem read_before {before words : List (List Char)} (h : List.Forall₂ Spells before words)
    (sent : List Char) (after : List (List Char)) :
    read .plain none (joinWith ' ' (before ++ sent :: after)) =
      (read .plain none (joinWith ' ' (sent :: after))).map (words.map Token.word ++ ·) := by
  induction h with
  | nil => simp
  | @cons first word before words hspells _ ih =>
    rw [List.cons_append, joinWith_cons_append, hspells _ (by simp), read_blank, ih,
      Option.map_map]
    rfl

theorem read_spelled {sent words : List (List Char)} (h : List.Forall₂ Spells sent words) :
    read .plain none (joinWith ' ' sent) = some (words.map Token.word) := by
  induction h with
  | nil => rfl
  | @cons first word sent words hspells hsent ih =>
    cases hsent with
    | nil =>
      have hread := hspells [] (by simp)
      rw [List.append_nil] at hread
      rw [joinWith, hread]
      rfl
    | cons _ _ =>
      rw [joinWith, hspells _ (by simp), read_blank, ih]
      rfl

theorem commandWords_words
    (expand : Bool → List Char → List Char → Option (List (List Char)))
    (words : List (List Char)) (tokens : List Token) :
    commandWords expand (words.map Token.word ++ tokens) =
      (commandWords expand tokens).map (words ++ ·) := by
  induction words with
  | nil => simp
  | cons word words ih => simp [commandWords, ih, Function.comp_def]

theorem simpleCommand_spelled {sent words : List (List Char)}
    (h : List.Forall₂ Spells sent words) (hname : words.head?.any isCommandName = true) :
    simpleCommand expand (joinWith ' ' sent) = some words := by
  have hwords := commandWords_words expand words []
  rw [List.append_nil] at hwords
  cases words with
  | nil => simp at hname
  | cons word words =>
    rw [simpleCommand, read_spelled h, Option.bind_some, List.map_cons, startsCommand,
      if_pos (by simpa using hname), ← List.map_cons, hwords]
    simp [commandWords]

theorem word_ends_at_special {before words after arrived : List (List Char)}
    {start tail : List Char} (h : List.Forall₂ Spells before words)
    (hstart : isPlainWord start = true) (hc : (isBlank c || isOperator c) = true)
    (harrived : simpleCommand expand (joinWith ' ' (before ++ (start ++ c :: tail) :: after)) =
      some arrived) : ∃ more, arrived = words ++ start :: more := by
  obtain ⟨remaining, hremaining⟩ : ∃ remaining,
      joinWith ' ' ((start ++ c :: tail) :: after) = start ++ c :: remaining := by
    cases after with
    | nil => exact ⟨tail, rfl⟩
    | cons next after => exact ⟨tail ++ ' ' :: joinWith ' ' (next :: after), by simp [joinWith]⟩
  obtain ⟨f, hf, hread⟩ := read_special start remaining hc
  rw [simpleCommand, read_before h, hremaining, begins_of_plain hstart, hread, Option.map_map,
    Option.bind_map] at harrived
  obtain ⟨tokens, -, htokens⟩ := Option.bind_eq_some_iff.mp harrived
  simp only [Function.comp_apply] at htokens
  split_ifs at htokens with _
  rw [commandWords_words] at htokens
  obtain ⟨more, hmore, rfl⟩ := Option.map_eq_some_iff.mp htokens
  rcases hf tokens with hword | hword <;> rw [hword] at hmore
  · obtain ⟨more, -, rfl⟩ := Option.map_eq_some_iff.mp hmore
    exact ⟨more, rfl⟩
  · cases hmore

end ChampionRuntime.Lib.ShellWords
