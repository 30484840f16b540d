import ChampionRuntime.Launch.FleetCluster
import ChampionRuntime.Lib.PyLines

/-!
# One line of the cluster configuration

The renderer splits a newline-ended line at the other line boundaries of the text
and strips what it finds; the shell trims the front of the line and removes two
kinds of quotes. A line is clean when it leaves nothing to these differences.
-/
namespace ChampionRuntime.Launch

open Lib Lib.PyText

/-- The setting of a line, for a line that the renderer accepts. -/
def lineSetting (raw : Text) : Option (Text × Text) :=
  if isComment (strip raw) then none
  else some (nameOf (strip raw), unquote (strip (valueOf (strip raw))))

/-- A line without a setting, or with a setting of a proper name. -/
def Accepted (raw : Text) : Prop :=
  isComment (strip raw) = true ∨
    ∃ name value, strip raw = name ++ '=' :: value ∧ isEnvName name = true

theorem takeWhile_ne_append {c : Char} {a : List Char} (h : c ∉ a) (b : List Char) :
    (a ++ c :: b).takeWhile (· != c) = a ∧ (a ++ c :: b).dropWhile (· != c) = c :: b := by
  have hall : ∀ x ∈ a, (x != c) = true := by
    intro x hx
    rw [bne_iff_ne]
    rintro rfl
    exact h hx
  rw [List.takeWhile_append_of_pos hall, List.dropWhile_append_of_pos hall]
  simp

theorem nameOf_append {name value : Text} (h : '=' ∉ name) :
    nameOf (name ++ '=' :: value) = name := (takeWhile_ne_append h value).1

theorem valueOf_append {name value : Text} (h : '=' ∉ name) :
    valueOf (name ++ '=' :: value) = value := by
  rw [valueOf, (takeWhile_ne_append h value).2, List.tail_cons]

theorem eq_nameOf_append {line : Text} (h : line.contains '=' = true) :
    line = nameOf line ++ '=' :: valueOf line := by
  obtain ⟨a, b, rfl, ha⟩ := List.eq_append_cons_of_mem (List.contains_iff_mem.mp h)
  rw [nameOf_append ha, valueOf_append ha]

theorem loadLine_eq_ok {values values' : Settings} {number : ℕ} {raw : Text}
    (h : loadLine values number raw = .ok values') :
    Accepted raw ∧ values' = values ++ (lineSetting raw).toList ∧
      ((names values).Nodup → (names values').Nodup) := by
  dsimp only [loadLine] at h
  split_ifs at h with hcomment
  · obtain rfl := Except.ok.inj h
    exact ⟨.inl hcomment, by simp [lineSetting, hcomment], id⟩
  · simp only [bind_eq_ok, require_eq_ok, pure_eq_ok, Bool.and_eq_true, Bool.not_eq_true',
      List.contains_eq_mem, decide_eq_true_eq, decide_eq_false_iff_not] at h
    obtain ⟨_, hequals, _, ⟨hname, hfresh⟩, _, -, _, -, _, -, rfl⟩ := h
    refine ⟨.inr ⟨_, _, eq_nameOf_append (by simpa using hequals), hname⟩, ?_, fun hnd => ?_⟩
    · simp [lineSetting, hcomment]
    · rw [names, List.map_append, List.map_singleton]
      refine List.nodup_append.mpr ⟨hnd, List.nodup_singleton _, ?_⟩
      rintro name hname' _ hsingle rfl
      rw [List.mem_singleton] at hsingle
      rw [hsingle] at hname'
      exact hfresh hname'

theorem loadLines_eq_ok {lines : List Text} : ∀ {values out : Settings} {number : ℕ},
    loadLines values number lines = .ok out →
      (∀ raw ∈ lines, Accepted raw) ∧ out = values ++ lines.filterMap lineSetting ∧
        ((names values).Nodup → (names out).Nodup) := by
  induction lines with
  | nil =>
    intro values out number h
    obtain rfl := Except.ok.inj h
    simp
  | cons raw lines ih =>
    intro values out number h
    simp only [loadLines, bind_eq_ok] at h
    obtain ⟨mid, hmid, hout⟩ := h
    obtain ⟨hraw, rfl, hnd⟩ := loadLine_eq_ok hmid
    obtain ⟨hlines, rfl, hnd'⟩ := ih hout
    refine ⟨List.forall_mem_cons.mpr ⟨hraw, hlines⟩, ?_, fun h => hnd' (hnd h)⟩
    cases hsetting : lineSetting raw <;> simp [hsetting]

/-- The settings on a line of the file, as the renderer sees them. -/
def settingsIn (line : Text) : Settings := (segments line).filterMap lineSetting

theorem accepted_nil : Accepted [] := .inl rfl

/-- Every line boundary of a text that is no newline lies inside a newline-ended
line. -/
theorem segments_lines (text : Text) :
    segments text = (splitOnChar '\n' text).flatMap segments := by
  refine splitWhere_flatMap (fun c hc => ?_) text
  rw [beq_iff_eq] at hc
  subst hc
  decide

theorem filterMap_filter {lines : List Text} :
    (lines.filter (· != [])).filterMap lineSetting = lines.filterMap lineSetting := by
  rw [List.filterMap_filter]
  refine List.filterMap_congr fun line _ => ?_
  by_cases h : line = []
  · subst h
    rfl
  · simp [h]

theorem loadCluster_eq_ok {text : Text} {values : Settings} (h : loadCluster text = .ok values) :
    (∀ line ∈ splitOnChar '\n' text, ∀ part ∈ segments line, Accepted part) ∧
      values = (splitOnChar '\n' text).flatMap settingsIn ∧ (names values).Nodup ∧
      (∀ name ∈ requiredSite, name ∈ names values) ∧
      fourUnique (splitOnChar ',' (setting values "CHAMPION_HOSTS")) = true ∧
      fourUnique (splitOnChar ',' (setting values "CHAMPION_FABRIC_IPS")) = true := by
  simp only [loadCluster, bind_eq_ok, require_eq_ok, pure_eq_ok, List.isEmpty_iff,
    List.filter_eq_nil_iff, Bool.not_eq_true', Bool.not_eq_false, List.contains_iff_mem] at h
  obtain ⟨found, hfound, _, hmissing, _, hhosts, _, hfabric, rfl⟩ := h
  obtain ⟨haccepted, hvalues, hnd⟩ := loadLines_eq_ok hfound
  have hsame := splitlines_universalNewlines text
  refine ⟨fun line hline part hpart => ?_, ?_, hnd (by simp [names]), hmissing, hhosts, hfabric⟩
  · by_cases hne : part = []
    · subst hne
      exact accepted_nil
    · have hmem : part ∈ (segments text).filter (· != []) := by
        rw [List.mem_filter, segments_lines, List.mem_flatMap]
        exact ⟨⟨line, hline, hpart⟩, by simpa using hne⟩
      rw [← hsame] at hmem
      exact haccepted part (List.mem_of_mem_filter hmem)
  · rw [hvalues, List.nil_append, ← filterMap_filter, hsame, filterMap_filter, segments_lines]
    rw [List.filterMap_flatMap]
    rfl

theorem quoted_iff {quote : Char} {value : Text} :
    quoted quote value = true ↔ ∃ middle, value = quote :: (middle ++ [quote]) := by
  simp only [quoted, Bool.and_eq_true, decide_eq_true_eq, beq_iff_eq]
  constructor
  · rintro ⟨⟨hlength, hhead⟩, hlast⟩
    obtain ⟨rest, rfl⟩ := List.head?_eq_some_iff.mp hhead
    cases rest using List.reverseRecOn with
    | nil => simp at hlength
    | append_singleton middle last =>
      refine ⟨middle, ?_⟩
      rw [← List.cons_append, List.getLast?_concat] at hlast
      rw [Option.some.inj hlast]
  · rintro ⟨middle, rfl⟩
    refine ⟨⟨by simp, by simp⟩, ?_⟩
    rw [← List.cons_append, List.getLast?_concat]

@[simp] theorem inner_quoted (quote : Char) (middle : Text) :
    inner (quote :: (middle ++ [quote])) = middle := by
  simp [inner]

theorem inner_ne {quote : Char} {value : Text} (h : quoted quote value = true) :
    inner value ≠ value := by
  obtain ⟨middle, rfl⟩ := quoted_iff.mp h
  rw [inner_quoted]
  intro heq
  have hlength := congrArg List.length heq
  simp only [List.length_cons, List.length_append, List.length_nil] at hlength
  omega

theorem mem_shellUnquote {quote c : Char} {value : Text} (hc : c ≠ quote) (h : c ∈ value) :
    c ∈ shellUnquote quote value := by
  unfold shellUnquote
  split_ifs with hquoted
  · obtain ⟨middle, rfl⟩ := quoted_iff.mp hquoted
    rw [inner_quoted]
    simpa [hc] using h
  · exact h

theorem unquote_eq (value : Text) : unquote value =
    if quoted '"' value then inner value else shellUnquote '\'' value := by
  unfold unquote shellUnquote
  by_cases h : quoted '"' value = true <;> simp [h]

theorem mem_unquote {c : Char} {value : Text} (hdouble : c ≠ '"') (hsingle : c ≠ '\'')
    (h : c ∈ value) : c ∈ unquote value := by
  rw [unquote_eq]
  split_ifs with hquoted
  · have hmem := mem_shellUnquote hdouble h
    rwa [shellUnquote, if_pos hquoted] at hmem
  · exact mem_shellUnquote hsingle h

theorem inner_sublist (value : Text) : (inner value).Sublist value :=
  (List.dropLast_sublist _).trans (List.tail_sublist _)

theorem shellUnquote_sublist (quote : Char) (value : Text) :
    (shellUnquote quote value).Sublist value := by
  unfold shellUnquote
  split_ifs
  · exact inner_sublist value
  · exact List.Sublist.refl _

theorem unquote_sublist (value : Text) : (unquote value).Sublist value := by
  unfold unquote
  split_ifs
  · exact inner_sublist value
  · exact List.Sublist.refl _

/-- A pair of single quotes directly inside a pair of double quotes. -/
def Nested (value : Text) : Prop :=
  quoted '"' value = true ∧ quoted '\'' (inner value) = true

theorem shellUnquote_eq_unquote_iff {value : Text} :
    shellUnquote '\'' (shellUnquote '"' value) = unquote value ↔ ¬ Nested value := by
  rw [unquote_eq]
  by_cases hdouble : quoted '"' value = true
  · rw [show shellUnquote '"' value = inner value by rw [shellUnquote, if_pos hdouble],
      if_pos hdouble]
    simp only [Nested, hdouble, true_and]
    constructor
    · intro heq hsingle
      rw [shellUnquote, if_pos hsingle] at heq
      exact inner_ne hsingle heq
    · intro hsingle
      rw [shellUnquote, if_neg hsingle]
  · rw [show shellUnquote '"' value = value by rw [shellUnquote, if_neg hdouble],
      if_neg hdouble]
    simp [Nested, hdouble]

theorem strip_quoted {quote : Char} {value : Text} (hspace : isSpace quote = false)
    (h : quoted quote value = true) : strip value = value := by
  obtain ⟨middle, rfl⟩ := quoted_iff.mp h
  exact strip_eq_self hspace hspace middle

/-- A value that both readers take as it stands. -/
structure CleanValue (value : Text) : Prop where
  null : '\x00' ∉ value
  oneLine : ∀ c ∈ value, isLineBreak c = false
  stripped : strip value = value
  quotes : ¬ Nested value

theorem dropNull_eq_self {line : Text} (h : '\x00' ∉ line) : dropNull line = line := by
  refine List.filter_eq_self.mpr fun c hc => ?_
  rw [bne_iff_ne]
  rintro rfl
  exact h hc

theorem double_not_space : isSpace '"' = false := by decide

theorem single_not_space : isSpace '\'' = false := by decide

/-- The readers agree on a value, and nothing is hidden behind it, exactly when it
is clean. -/
theorem value_agrees_iff {value first : Text} {rest : List Text}
    (hsegments : segments value = first :: rest) :
    (shellUnquote '\'' (shellUnquote '"' (dropNull value)) = unquote (strip first) ∧
      rest.filterMap lineSetting = []) ↔ CleanValue value := by
  constructor
  · rintro ⟨heq, -⟩
    have hfirst : ∀ c ∈ first, isLineBreak c = false :=
      not_mem_of_splitWhere (by rw [← segments, hsegments]; simp)
    have hright : ∀ c ∈ unquote (strip first), c ∈ first := fun c hc =>
      ((unquote_sublist _).trans (strip_sublist _)).subset hc
    have hline : ∀ c ∈ value, isLineBreak c = false := by
      intro c hc
      by_contra hbreak
      rw [Bool.not_eq_false] at hbreak
      have hmem : c ∈ dropNull value := by
        refine List.mem_filter.mpr ⟨hc, ?_⟩
        rw [bne_iff_ne]
        rintro rfl
        revert hbreak
        decide
      have hkept : c ∈ shellUnquote '\'' (shellUnquote '"' (dropNull value)) := by
        refine mem_shellUnquote ?_ (mem_shellUnquote ?_ hmem) <;> rintro rfl <;> revert hbreak <;>
          decide
      rw [heq] at hkept
      rw [hfirst c (hright c hkept)] at hbreak
      cases hbreak
    obtain rfl : first = value := by
      rw [segments, splitWhere_of_none hline] at hsegments
      exact (List.cons.inj hsegments).1.symm
    have hnull : '\x00' ∉ first := by
      intro hmem
      have hkept : '\x00' ∈ unquote (strip first) :=
        mem_unquote (by decide) (by decide) (mem_strip (by decide) hmem)
      rw [← heq] at hkept
      have hleft := ((shellUnquote_sublist _ _).trans (shellUnquote_sublist _ _)).subset hkept
      simp [dropNull] at hleft
    rw [dropNull_eq_self hnull] at heq
    have hstrip : strip first = first := by
      by_contra hne
      have hdouble : quoted '"' first = false := by
        by_contra h
        exact hne (strip_quoted double_not_space (by simpa using h))
      have hsingle : quoted '\'' first = false := by
        by_contra h
        exact hne (strip_quoted single_not_space (by simpa using h))
      simp only [shellUnquote, hdouble, hsingle, Bool.false_eq_true, if_false] at heq
      have hle : first.length ≤ (strip first).length := by
        conv_lhs => rw [heq]
        exact (unquote_sublist _).length_le
      exact hne ((strip_sublist first).eq_of_length_le hle)
    rw [hstrip] at heq
    exact ⟨hnull, hline, hstrip, shellUnquote_eq_unquote_iff.mp heq⟩
  · intro h
    rw [segments, splitWhere_of_none h.oneLine] at hsegments
    obtain ⟨rfl, rfl⟩ := List.cons.inj hsegments
    rw [dropNull_eq_self h.null, h.stripped]
    exact ⟨shellUnquote_eq_unquote_iff.mpr h.quotes, rfl⟩

theorem isNameChar_spec {c : Char} (h : isNameChar c = true) :
    isSpace c = false ∧ c ≠ '=' ∧ c ≠ '#' ∧ c ≠ '\x00' := by
  refine ⟨?_, ?_, ?_, ?_⟩
  · simp only [isNameChar, isUpper, isDigit, isSpace, inRange, Bool.or_eq_true, Bool.and_eq_true,
      decide_eq_true_eq, beq_iff_eq, Bool.or_eq_false_iff, Bool.and_eq_false_iff,
      decide_eq_false_iff_not, beq_eq_false_iff_ne] at h ⊢
    rcases h with h | rfl
    · omega
    · decide
  all_goals
    rintro rfl
    revert h
    decide

theorem envName_cons {name : Text} (h : isEnvName name = true) : ∃ c rest, name = c :: rest ∧
    isUpper c = true ∧ ∀ x ∈ name, isNameChar x = true := by
  cases name with
  | nil => cases h
  | cons c rest =>
    simp only [isEnvName, Bool.and_eq_true, List.all_eq_true] at h
    exact ⟨c, rest, rfl, h.1, List.forall_mem_cons.mpr ⟨by simp [isNameChar, h.1], h.2⟩⟩

theorem not_lineBreak_of_not_space {c : Char} (h : isSpace c = false) : isLineBreak c = false := by
  by_contra hbreak
  rw [isSpace_of_isLineBreak (by simpa using hbreak)] at h
  cases h

section EnvName

variable {name : Text} (hname : isEnvName name = true)

include hname

theorem envName_no_equals : '=' ∉ name := by
  obtain ⟨c, rest, -, -, hchars⟩ := envName_cons hname
  exact fun hmem => (isNameChar_spec (hchars _ hmem)).2.1 rfl

theorem strip_setting (value : Text) :
    strip (name ++ '=' :: value) = name ++ '=' :: dropTrailing isSpace value := by
  obtain ⟨c, rest, rfl, -, hchars⟩ := envName_cons hname
  rw [List.cons_append, strip_cons (isNameChar_spec (hchars c (by simp))).1,
    dropTrailing_append (by decide)]
  rfl

theorem not_comment_setting (value : Text) : isComment (name ++ '=' :: value) = false := by
  obtain ⟨c, rest, rfl, -, hchars⟩ := envName_cons hname
  have hhash := (isNameChar_spec (hchars c (by simp))).2.2.1
  simp [isComment, hhash]

theorem lineSetting_setting (value : Text) :
    lineSetting (name ++ '=' :: value) = some (name, unquote (strip value)) := by
  have hequals := envName_no_equals hname
  simp only [lineSetting, strip_setting hname, not_comment_setting hname, nameOf_append hequals,
    valueOf_append hequals, strip_dropTrailing]
  rfl

theorem settingsIn_setting {value first : Text} {rest : List Text}
    (h : segments value = first :: rest) : settingsIn (name ++ '=' :: value) =
      (name, unquote (strip first)) :: rest.filterMap lineSetting := by
  obtain ⟨c, tail, -, -, hchars⟩ := envName_cons hname
  have hline : ∀ x ∈ name ++ ['='], isLineBreak x = false := by
    intro x hx
    rcases List.mem_append.mp hx with hx | hx
    · exact not_lineBreak_of_not_space (isNameChar_spec (hchars x hx)).1
    · rw [List.mem_singleton.mp hx]
      decide
  have hsegments : segments (name ++ '=' :: value) = (name ++ '=' :: first) :: rest := by
    have happend := splitWhere_append_left hline h
    simpa [segments] using happend
  rw [settingsIn, hsegments, List.filterMap_cons, lineSetting_setting hname]

theorem isIdentifier_of_envName : isIdentifier name = true := by
  obtain ⟨c, rest, rfl, hupper, hchars⟩ := envName_cons hname
  simp only [isIdentifier, isLetter, hupper, Bool.true_or, Bool.true_and, List.all_eq_true]
  intro x hx
  have hchar := hchars x (by simp [hx])
  simp only [isNameChar, Bool.or_eq_true] at hchar ⊢
  rcases hchar with (h | h) | h <;> simp [h]

end EnvName

theorem settingsIn_append_space {space line : Text} (h : ∀ c ∈ space, isSpace c = true) :
    settingsIn (space ++ line) = settingsIn line ∧
      ((∀ part ∈ segments (space ++ line), Accepted part) →
        ∀ part ∈ segments line, Accepted part) := by
  induction space with
  | nil => exact ⟨rfl, id⟩
  | cons c space ih =>
    obtain ⟨hc, hspace⟩ := List.forall_mem_cons.mp h
    obtain ⟨hsettings, haccepted⟩ := ih hspace
    obtain ⟨part, parts, hsplit⟩ :=
      List.exists_cons_of_ne_nil (splitWhere_ne_nil (p := isLineBreak) (space ++ line))
    rw [List.cons_append, ← hsettings]
    unfold settingsIn segments at *
    rw [hsplit] at haccepted ⊢
    by_cases hbreak : isLineBreak c = true
    · rw [splitWhere, if_pos hbreak, hsplit]
      exact ⟨rfl, fun hall => haccepted fun p hp => hall p (List.mem_cons_of_mem _ hp)⟩
    · have hstrip := strip_cons_of_space hc part
      rw [splitWhere, if_neg hbreak, hsplit]
      refine ⟨by simp [List.filterMap_cons, lineSetting, hstrip], fun hall => haccepted ?_⟩
      intro p hp
      rcases List.mem_cons.mp hp with rfl | hp
      · have hfirst := hall (c :: p) (by simp)
        rwa [Accepted, hstrip] at hfirst
      · exact hall p (List.mem_cons_of_mem _ hp)

/-- An accepted line that starts with neither white space nor a comment is a
setting. -/
theorem setting_of_first {c : Char} {rest : Text} (hspace : isSpace c = false) (hhash : c ≠ '#')
    (h : ∀ part ∈ segments (c :: rest), Accepted part) :
    ∃ name value, c :: rest = name ++ '=' :: value ∧ isEnvName name = true := by
  have hbreak := not_lineBreak_of_not_space hspace
  obtain ⟨part, parts, hsplit⟩ :=
    List.exists_cons_of_ne_nil (splitWhere_ne_nil (p := isLineBreak) rest)
  have hsegments : segments (c :: rest) = (c :: part) :: parts := by
    rw [segments, splitWhere, if_neg (by simp [hbreak]), hsplit]
  have hstrip := strip_cons hspace part
  rcases h (c :: part) (by simp [hsegments]) with hcomment | ⟨name, value, heq, hname⟩
  · rw [hstrip] at hcomment
    simp [isComment, hhash] at hcomment
  · obtain ⟨trail, htrail⟩ : dropTrailing isSpace part <+: part := List.rdropWhile_prefix _ _
    obtain ⟨tail, htail⟩ := splitWhere_head hsplit
    refine ⟨name, value ++ trail ++ tail, ?_, hname⟩
    rw [hstrip] at heq
    calc c :: rest = c :: part ++ tail := by rw [List.cons_append, htail]
      _ = c :: (dropTrailing isSpace part ++ trail) ++ tail := by rw [htrail]
      _ = (name ++ '=' :: value) ++ trail ++ tail := by rw [← List.cons_append, heq]
      _ = name ++ '=' :: (value ++ trail ++ tail) := by simp

section Lines

variable (S : Shell)

/-- What the shell does with a line: nothing, an assignment, or a failure. -/
def lineAssignment (line : Text) : Except FleetError (Option (Text × Text)) :=
  let line := line.dropWhile S.space
  if isComment line then .ok none
  else do
    let name := nameOf line
    require (isIdentifier name && !S.readonly name) (.assignment name)
    pure (if S.dynamic name then none else some (name, shellValue line))

/-- A line that both readers take in the same way. -/
inductive CleanLine (line : Text) : Prop
  | blank (h : line.dropWhile S.space = [])
  | comment (h : (line.dropWhile S.space).head? = some '#')
    (hparts : ∀ part ∈ segments (line.dropWhile S.space), isComment (strip part) = true)
  | setting (name value : Text) (h : line.dropWhile S.space = name ++ '=' :: value)
    (hname : isEnvName name = true) (hvalue : CleanValue value)
    (hreadonly : S.readonly name = false) (hdynamic : S.dynamic name = false)

variable {S}

theorem settingsIn_eq_nil {line : Text} :
    settingsIn line = [] ↔ ∀ part ∈ segments line, isComment (strip part) = true := by
  rw [settingsIn, List.filterMap_eq_nil_iff]
  refine forall₂_congr fun part _ => ?_
  unfold lineSetting
  split_ifs with h <;> simp [h]

theorem space_null : S.space '\x00' = false := by
  rw [S.space_ascii _ (by decide)]
  decide

theorem space_hash : S.space '#' = false := by
  rw [S.space_ascii _ (by decide)]
  decide

theorem dropWhile_dropNull (line : Text) : (dropNull line).dropWhile S.space =
    (dropNull (line.dropWhile S.space)).dropWhile S.space := by
  have hspace : ∀ c ∈ line.takeWhile S.space, S.space c = true := fun c hc =>
    List.mem_takeWhile_imp hc
  have hnull : dropNull (line.takeWhile S.space) = line.takeWhile S.space := by
    refine dropNull_eq_self fun hmem => ?_
    have htrue := hspace _ hmem
    rw [space_null] at htrue
    cases htrue
  conv_lhs => rw [← List.takeWhile_append_dropWhile (p := S.space) (l := line)]
  rw [dropNull, List.filter_append, ← dropNull, ← dropNull, hnull,
    List.dropWhile_append_of_pos hspace]

theorem lineAssignment_setting {line name value : Text} (hname : isEnvName name = true)
    (h : line.dropWhile S.space = name ++ '=' :: value) :
    lineAssignment S (dropNull line) = (do
      require (!S.readonly name) (.assignment name)
      pure (if S.dynamic name then none
        else some (name, shellUnquote '\'' (shellUnquote '"' (dropNull value))))) := by
  obtain ⟨c, rest, hcons, -, hchars⟩ := envName_cons hname
  have hnull : dropNull (name ++ '=' :: value) = name ++ '=' :: dropNull value := by
    have hkeep : dropNull name = name :=
      dropNull_eq_self fun hmem => (isNameChar_spec (hchars _ hmem)).2.2.2 rfl
    rw [dropNull, List.filter_append, ← dropNull, hkeep]
    rfl
  have hfirst : S.space c = false := by
    by_contra hspace
    have hle := S.space_le c (by simpa using hspace)
    rw [(isNameChar_spec (hchars c (by simp [hcons]))).1] at hle
    cases hle
  have hline : (dropNull line).dropWhile S.space = name ++ '=' :: dropNull value := by
    rw [dropWhile_dropNull, h, hnull, hcons, List.cons_append,
      List.dropWhile_cons_of_neg (by simp [hfirst])]
  have hequals := envName_no_equals hname
  have hcontains : (name ++ '=' :: dropNull value).contains '=' = true := by simp
  simp only [lineAssignment, hline, not_comment_setting hname, nameOf_append hequals,
    isIdentifier_of_envName hname, Bool.true_and, shellValue, shellValueOf, hcontains, if_true,
    valueOf_append hequals]
  rfl

theorem lineAssignment_comment {line : Text} (h : isComment (line.dropWhile S.space) = true) :
    lineAssignment S (dropNull line) = .ok none := by
  have hcomment : isComment ((dropNull line).dropWhile S.space) = true := by
    rw [dropWhile_dropNull]
    cases hline : line.dropWhile S.space with
    | nil => rfl
    | cons c rest =>
      rw [hline] at h
      obtain rfl : c = '#' := by simpa [isComment] using h
      have hnull : dropNull ('#' :: rest) = '#' :: dropNull rest := rfl
      rw [hnull, List.dropWhile_cons_of_neg (by simp [space_hash])]
      rfl
  rw [lineAssignment]
  simp only [hcomment, if_true]

theorem lineAssignment_odd {line rest : Text} {c : Char} (h : line.dropWhile S.space = c :: rest)
    (hspace : S.space c = false) (hc : isSpace c = true) (found : Option (Text × Text)) :
    lineAssignment S (dropNull line) ≠ .ok found := by
  have hne : ∀ {x : Char}, isSpace x = false → c ≠ x := by
    rintro x hx rfl
    rw [hx] at hc
    cases hc
  have hline : (dropNull line).dropWhile S.space = c :: dropNull rest := by
    rw [dropWhile_dropNull, h, dropNull, List.filter_cons_of_pos (by simpa using hne (x := '\x00') (by decide)),
      List.dropWhile_cons_of_neg (by simp [hspace])]
    rfl
  have hname : nameOf (c :: dropNull rest) = c :: nameOf (dropNull rest) := by
    rw [nameOf, List.takeWhile_cons_of_pos (by simpa using hne (x := '=') (by decide))]
    rfl
  have hletter : isLetter c = false := by
    simp only [isSpace, isLetter, isUpper, isLower, inRange, Bool.or_eq_true, Bool.and_eq_true,
      decide_eq_true_eq, beq_iff_eq, Bool.or_eq_false_iff, Bool.and_eq_false_iff,
      decide_eq_false_iff_not, beq_eq_false_iff_ne] at hc ⊢
    refine ⟨by omega, ?_⟩
    rintro rfl
    revert hc
    decide
  have hcomment : isComment (c :: dropNull rest) = false := by
    simpa [isComment] using hne (x := '#') (by decide)
  simp [lineAssignment, hline, hcomment, hname, isIdentifier, hletter, require]

theorem cleanLine_setting_iff {line name value : Text} (hname : isEnvName name = true)
    (hline : line.dropWhile S.space = name ++ '=' :: value) : CleanLine S line ↔
      CleanValue value ∧ S.readonly name = false ∧ S.dynamic name = false := by
  constructor
  · intro hclean
    cases hclean with
    | blank h => simp [hline] at h
    | comment h =>
      have hcomment := not_comment_setting hname value
      rw [hline] at h
      simp [isComment, h] at hcomment
    | setting name' value' h hname' hvalue hreadonly hdynamic =>
      rw [hline] at h
      obtain rfl : name = name' := by
        have heq := congrArg nameOf h
        rwa [nameOf_append (envName_no_equals hname), nameOf_append (envName_no_equals hname')]
          at heq
      obtain rfl : value = value' := by simpa using h
      exact ⟨hvalue, hreadonly, hdynamic⟩
  · rintro ⟨hvalue, hreadonly, hdynamic⟩
    exact .setting name value hline hname hvalue hreadonly hdynamic

theorem CleanLine.first {line rest : Text} {c : Char} (h : CleanLine S line)
    (hline : line.dropWhile S.space = c :: rest) : c = '#' ∧
      (∀ part ∈ segments (c :: rest), isComment (strip part) = true) ∨ isNameChar c = true := by
  cases h with
  | blank h => simp [hline] at h
  | comment h hparts =>
    rw [hline] at h hparts
    exact .inl ⟨by simpa using h, hparts⟩
  | setting name value h hname =>
    obtain ⟨x, tail, rfl, -, hchars⟩ := envName_cons hname
    rw [hline] at h
    obtain ⟨rfl, -⟩ := List.cons.inj h
    exact .inr (hchars c (by simp))

theorem settingsIn_dropWhile (line : Text) :
    settingsIn line = settingsIn (line.dropWhile S.space) ∧
      ((∀ part ∈ segments line, Accepted part) →
        ∀ part ∈ segments (line.dropWhile S.space), Accepted part) := by
  have hspace : ∀ c ∈ line.takeWhile S.space, isSpace c = true := fun c hc =>
    S.space_le c (List.mem_takeWhile_imp hc)
  have happend := @settingsIn_append_space (line.takeWhile S.space) (line.dropWhile S.space) hspace
  rwa [List.takeWhile_append_dropWhile] at happend

/-- What an accepted line can be, behind the white space that the shell trims. -/
theorem line_cases {line : Text} (haccepted : ∀ part ∈ segments line, Accepted part) :
    isComment (line.dropWhile S.space) = true ∨
      (∃ c rest, line.dropWhile S.space = c :: rest ∧ S.space c = false ∧ isSpace c = true) ∨
      ∃ name value, line.dropWhile S.space = name ++ '=' :: value ∧ isEnvName name = true := by
  have haccepted := (settingsIn_dropWhile (S := S) line).2 haccepted
  cases hline : line.dropWhile S.space with
  | nil => exact .inl rfl
  | cons c rest =>
    have hfirst : S.space c = false := by
      have hnot := List.head?_dropWhile_not S.space line
      rw [hline] at hnot
      simpa using hnot
    by_cases hhash : c = '#'
    · subst hhash
      exact .inl rfl
    · by_cases hc : isSpace c = true
      · exact .inr (.inl ⟨c, rest, rfl, hfirst, hc⟩)
      · rw [hline] at haccepted
        exact .inr (.inr (setting_of_first (by simpa using hc) hhash haccepted))

theorem cleanLine_iff {line : Text} (haccepted : ∀ part ∈ segments line, Accepted part) :
    (∃ found, lineAssignment S (dropNull line) = .ok found ∧ found.toList = settingsIn line) ↔
      CleanLine S line := by
  rw [(settingsIn_dropWhile (S := S) line).1]
  rcases line_cases (S := S) haccepted with hcomment | ⟨c, rest, hline, hfirst, hc⟩ |
    ⟨name, value, hline, hname⟩
  · rw [lineAssignment_comment hcomment]
    constructor
    · rintro ⟨found, hfound, hnone⟩
      obtain rfl := Except.ok.inj hfound
      simp only [isComment, Bool.or_eq_true, List.isEmpty_iff, beq_iff_eq] at hcomment
      rcases hcomment with hblank | hhash
      · exact .blank hblank
      · exact .comment hhash (settingsIn_eq_nil.mp hnone.symm)
    · intro hclean
      refine ⟨none, rfl, (settingsIn_eq_nil.mpr ?_).symm⟩
      cases hline : line.dropWhile S.space with
      | nil => simp [segments, splitWhere, strip, dropTrailing, isComment]
      | cons c rest =>
        rcases hclean.first hline with ⟨-, hparts⟩ | hname
        · exact hparts
        · rw [hline] at hcomment
          obtain rfl : c = '#' := by simpa [isComment] using hcomment
          exact absurd rfl (isNameChar_spec hname).2.2.1
  · constructor
    · rintro ⟨found, hfound, -⟩
      exact absurd hfound (lineAssignment_odd hline hfirst hc found)
    · intro hclean
      rcases hclean.first hline with ⟨rfl, -⟩ | hname
      · exact absurd hc (by decide)
      · rw [(isNameChar_spec hname).1] at hc
        cases hc
  · obtain ⟨first, parts, hsegments⟩ :=
      List.exists_cons_of_ne_nil (splitWhere_ne_nil (p := isLineBreak) value)
    rw [lineAssignment_setting hname hline, cleanLine_setting_iff hname hline, hline,
      settingsIn_setting hname hsegments, ← value_agrees_iff hsegments]
    cases S.readonly name <;> cases S.dynamic name <;> simp [require, pure, Except.pure]

theorem settingsIn_of_assignment {line name value : Text}
    (haccepted : ∀ part ∈ segments line, Accepted part)
    (h : lineAssignment S (dropNull line) = .ok (some (name, value))) :
    ∃ value' rest, settingsIn line = (name, value') :: rest := by
  rw [(settingsIn_dropWhile (S := S) line).1]
  rcases line_cases (S := S) haccepted with hcomment | ⟨c, rest, hline, hfirst, hc⟩ |
    ⟨name', value', hline, hname⟩
  · rw [lineAssignment_comment hcomment] at h
    cases h
  · exact absurd h (lineAssignment_odd hline hfirst hc _)
  · obtain ⟨first, parts, hsegments⟩ :=
      List.exists_cons_of_ne_nil (splitWhere_ne_nil (p := isLineBreak) value')
    rw [lineAssignment_setting hname hline] at h
    obtain ⟨-, -, h⟩ := bind_eq_ok.mp h
    have hsome := Except.ok.inj h
    split_ifs at hsome
    obtain ⟨rfl, -⟩ := Prod.mk.inj (Option.some.inj hsome)
    exact ⟨_, _, by rw [hline, settingsIn_setting hname hsegments]⟩

end Lines

end ChampionRuntime.Launch
