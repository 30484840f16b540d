import ChampionRuntime.Lib.PyText

/-!
# White space around texts and the lines of a text file

How `strip` meets the parts of a text, and what reading a file with universal
line ends and splitting it into lines has in common with splitting its text at
every line boundary.
-/
namespace ChampionRuntime.Lib.PyText

theorem strip_cons_of_space {c : Char} (hc : isSpace c = true) (s : List Char) :
    strip (c :: s) = strip s := by
  rw [strip, List.dropWhile_cons_of_pos hc, strip]

theorem dropTrailing_append {p : Char → Bool} {x : Char} (hx : p x = false) (a m : List Char) :
    dropTrailing p (a ++ x :: m) = a ++ x :: dropTrailing p m := by
  unfold dropTrailing
  induction m using List.reverseRecOn with
  | nil => rw [List.rdropWhile_nil, List.rdropWhile_concat_neg _ _ _ (by simp [hx])]
  | append_singleton m y ih =>
    rw [show a ++ x :: (m ++ [y]) = (a ++ x :: m) ++ [y] by simp]
    by_cases hy : p y = true
    · rw [List.rdropWhile_concat_pos _ _ _ hy, List.rdropWhile_concat_pos _ _ _ hy, ih]
    · rw [List.rdropWhile_concat_neg _ _ _ hy, List.rdropWhile_concat_neg _ _ _ hy]
      simp

/-- What is dropped behind a text starts at or after a character of the class. -/
theorem dropTrailing_append_sep {p : Char → Bool} {x : Char} (hx : p x = true) {a : List Char}
    (ha : dropTrailing p a = a) (m : List Char) :
    ∃ rest, dropTrailing p (a ++ x :: m) = a ++ rest ∧ (rest = [] ∨ ∃ m', rest = x :: m') := by
  unfold dropTrailing at ha ⊢
  induction m using List.reverseRecOn with
  | nil => exact ⟨[], by rw [List.rdropWhile_concat_pos _ _ _ hx, ha, List.append_nil], .inl rfl⟩
  | append_singleton m y ih =>
    rw [show a ++ x :: (m ++ [y]) = (a ++ x :: m) ++ [y] by simp]
    by_cases hy : p y = true
    · rwa [List.rdropWhile_concat_pos _ _ _ hy]
    · rw [List.rdropWhile_concat_neg _ _ _ hy]
      exact ⟨x :: (m ++ [y]), by simp, .inr ⟨_, rfl⟩⟩

theorem strip_cons {x : Char} (hx : isSpace x = false) (m : List Char) :
    strip (x :: m) = x :: dropTrailing isSpace m := by
  rw [strip, List.dropWhile_cons_of_neg (by simp [hx])]
  exact dropTrailing_append hx [] m

theorem strip_eq_nil_of_space {s : List Char} (h : ∀ c ∈ s, isSpace c = true) : strip s = [] := by
  rw [strip, List.dropWhile_eq_nil_iff.mpr h]
  exact List.rdropWhile_nil _

theorem space_or_first (s : List Char) : (∀ c ∈ s, isSpace c = true) ∨
    ∃ a x m, s = a ++ x :: m ∧ (∀ c ∈ a, isSpace c = true) ∧ isSpace x = false := by
  induction s with
  | nil => exact .inl (by simp)
  | cons c s ih =>
    by_cases hc : isSpace c = true
    · rcases ih with hall | ⟨a, x, m, rfl, ha, hx⟩
      · exact .inl (List.forall_mem_cons.mpr ⟨hc, hall⟩)
      · exact .inr ⟨c :: a, x, m, rfl, List.forall_mem_cons.mpr ⟨hc, ha⟩, hx⟩
    · exact .inr ⟨[], c, s, rfl, by simp, by simpa using hc⟩

theorem strip_append_of_space {a : List Char} (h : ∀ c ∈ a, isSpace c = true) (s : List Char) :
    strip (a ++ s) = strip s := by
  rw [strip, List.dropWhile_append_of_pos h, strip]

theorem strip_dropTrailing (s : List Char) : strip (dropTrailing isSpace s) = strip s := by
  rcases space_or_first s with hall | ⟨a, x, m, rfl, ha, hx⟩
  · have hnil : dropTrailing isSpace s = [] := List.rdropWhile_eq_nil_iff.mpr hall
    rw [hnil, strip_eq_nil_of_space hall]
    rfl
  · rw [dropTrailing_append hx, strip_append_of_space ha, strip_append_of_space ha, strip_cons hx,
      strip_cons hx]
    simp only [dropTrailing, List.rdropWhile_idempotent]

theorem strip_sublist (s : List Char) : (strip s).Sublist s :=
  (List.rdropWhile_prefix _ _).sublist.trans (List.dropWhile_suffix _).sublist

theorem mem_strip {c : Char} {s : List Char} (hc : isSpace c = false) (h : c ∈ s) :
    c ∈ strip s := by
  obtain ⟨a, m, rfl⟩ := List.append_of_mem h
  rcases space_or_first a with hall | ⟨b, x, k, rfl, hb, hx⟩
  · rw [strip_append_of_space hall, strip_cons hc]
    simp
  · rw [List.append_assoc, strip_append_of_space hb, List.cons_append, strip_cons hx,
      dropTrailing_append hc]
    simp

theorem strip_eq_self {x y : Char} (hx : isSpace x = false) (hy : isSpace y = false)
    (m : List Char) : strip (x :: (m ++ [y])) = x :: (m ++ [y]) := by
  rw [strip_cons hx, dropTrailing_append hy]
  rfl

theorem isSpace_of_isLineBreak {c : Char} (h : isLineBreak c = true) : isSpace c = true := by
  simp only [isLineBreak, isSpace, inRange, Bool.or_eq_true, Bool.and_eq_true, decide_eq_true_eq,
    beq_iff_eq] at h ⊢
  omega

theorem splitlines_filter (s : List Char) :
    (splitlines s).filter (· != []) = (segments s).filter (· != []) := by
  unfold splitlines
  split_ifs with h
  · obtain ⟨init, hinit⟩ := List.getLast?_eq_some_iff.mp h
    simp [hinit]
  · rfl

/-- Reading the line ends only changes which segments after the first are empty. -/
theorem segments_universalNewlines (s : List Char) : ∃ first rest rest',
    segments (universalNewlines s) = first :: rest ∧ segments s = first :: rest' ∧
      rest.filter (· != []) = rest'.filter (· != []) := by
  have hnewline : isLineBreak '\n' = true := by decide
  have hreturn : isLineBreak '\r' = true := by decide
  induction s using universalNewlines.induct with
  | case1 s ih =>
    obtain ⟨first, rest, rest', hleft, hright, hsame⟩ := ih
    refine ⟨[], first :: rest, [] :: first :: rest', ?_, ?_, ?_⟩
    · simp only [universalNewlines, segments, splitWhere, hnewline, if_true]
      exact congrArg _ hleft
    · simp only [segments, splitWhere, hnewline, hreturn, if_true]
      exact congrArg _ (congrArg _ hright)
    · simp [List.filter_cons, hsame]
  | case2 s hne ih =>
    obtain ⟨first, rest, rest', hleft, hright, hsame⟩ := ih
    refine ⟨[], first :: rest, first :: rest', ?_, ?_, ?_⟩
    · rw [universalNewlines]
      · simp only [segments, splitWhere, hnewline, if_true]
        exact congrArg _ hleft
      · exact hne
    · simp only [segments, splitWhere, hreturn, if_true]
      exact congrArg _ hright
    · simp [List.filter_cons, hsame]
  | case3 c s hpair hsingle ih =>
    obtain ⟨first, rest, rest', hleft, hright, hsame⟩ := ih
    have hstep : universalNewlines (c :: s) = c :: universalNewlines s := by
      rw [universalNewlines]
      · exact hpair
      · exact hsingle
    rw [hstep]
    unfold segments at hleft hright ⊢
    by_cases hc : isLineBreak c = true
    · refine ⟨[], first :: rest, first :: rest', ?_, ?_, ?_⟩
      · rw [splitWhere, if_pos hc, hleft]
      · rw [splitWhere, if_pos hc, hright]
      · simp [List.filter_cons, hsame]
    · refine ⟨c :: first, rest, rest', ?_, ?_, hsame⟩
      · rw [splitWhere, if_neg hc, hleft]
      · rw [splitWhere, if_neg hc, hright]
  | case4 => exact ⟨[], [], [], rfl, rfl, rfl⟩

/-- The lines of a text file and the segments of its text differ in empty ones. -/
theorem splitlines_universalNewlines (s : List Char) :
    (splitlines (universalNewlines s)).filter (· != []) = (segments s).filter (· != []) := by
  obtain ⟨first, rest, rest', hleft, hright, hsame⟩ := segments_universalNewlines s
  rw [splitlines_filter, hleft, hright, List.filter_cons, List.filter_cons, hsame]

end ChampionRuntime.Lib.PyText
