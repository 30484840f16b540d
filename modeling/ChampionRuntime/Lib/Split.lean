import Mathlib.Data.List.Basic
import Mathlib.Data.List.TakeWhile
import Mathlib.Tactic

/-!
# Splitting at a separator and joining again

`str.split(c)` and `c.join(...)` over a one-character separator.
-/
namespace ChampionRuntime.Lib

variable {sep : Char}

/-- The parts between the characters of a class. -/
def splitWhere (p : Char → Bool) : List Char → List (List Char)
  | [] => [[]]
  | c :: s =>
    if p c then [] :: splitWhere p s
    else
      match splitWhere p s with
      | [] => [[c]]
      | part :: parts => (c :: part) :: parts

/-- `str.split(sep)`; the empty text has one empty part. -/
def splitOnChar (sep : Char) (s : List Char) : List (List Char) := splitWhere (· == sep) s

/-- `sep.join(parts)`. -/
def joinWith (sep : Char) : List (List Char) → List Char
  | [] => []
  | [part] => part
  | part :: next :: parts => part ++ sep :: joinWith sep (next :: parts)

theorem joinWith_cons_of_ne_nil (part : List Char) {parts : List (List Char)} (hne : parts ≠ []) :
    joinWith sep (part :: parts) = part ++ sep :: joinWith sep parts := by
  cases parts with
  | nil => exact absurd rfl hne
  | cons next parts => rfl

section Where

variable {p q : Char → Bool}

theorem splitWhere_nil : splitWhere p [] = [[]] := rfl

theorem splitWhere_cons_pos {c : Char} (hc : p c = true) (s : List Char) :
    splitWhere p (c :: s) = [] :: splitWhere p s := if_pos hc

theorem splitWhere_cons_neg {c : Char} (hc : p c = false) {s part : List Char}
    {parts : List (List Char)} (hs : splitWhere p s = part :: parts) :
    splitWhere p (c :: s) = (c :: part) :: parts :=
  (if_neg (by simp [hc])).trans (by rw [hs])

theorem exists_splitWhere (s : List Char) :
    ∃ part parts, splitWhere p s = part :: parts := by
  induction s with
  | nil => exact ⟨[], [], splitWhere_nil⟩
  | cons c s ih =>
    cases hc : p c with
    | true => exact ⟨[], splitWhere p s, splitWhere_cons_pos hc s⟩
    | false =>
      obtain ⟨part, parts, hs⟩ := ih
      exact ⟨c :: part, parts, splitWhere_cons_neg hc hs⟩

theorem splitWhere_ne_nil (s : List Char) : splitWhere p s ≠ [] := by
  obtain ⟨part, parts, hs⟩ := exists_splitWhere (p := p) s
  rw [hs]
  exact List.cons_ne_nil part parts

theorem splitWhere_append_left {a : List Char} (h : ∀ c ∈ a, p c = false) {s first : List Char}
    {rest : List (List Char)} (hs : splitWhere p s = first :: rest) :
    splitWhere p (a ++ s) = (a ++ first) :: rest := by
  induction a with
  | nil => exact hs
  | cons c a ih =>
    obtain ⟨hc, ha⟩ := List.forall_mem_cons.mp h
    exact splitWhere_cons_neg hc (ih ha)

theorem splitWhere_append {part : List Char} (h : ∀ c ∈ part, p c = false) {c : Char}
    (hc : p c = true) (s : List Char) :
    splitWhere p (part ++ c :: s) = part :: splitWhere p s := by
  rw [splitWhere_append_left h (splitWhere_cons_pos hc s), List.append_nil]

theorem splitWhere_of_none {part : List Char} (h : ∀ c ∈ part, p c = false) :
    splitWhere p part = [part] := by
  have hsplit := splitWhere_append_left h (splitWhere_nil (p := p))
  rwa [List.append_nil] at hsplit

theorem splitWhere_append_sep {c : Char} (hc : p c = true) (a s : List Char) :
    splitWhere p (a ++ c :: s) = splitWhere p a ++ splitWhere p s := by
  induction a with
  | nil => rw [List.nil_append, splitWhere_cons_pos hc, splitWhere_nil, List.singleton_append]
  | cons x a ih =>
    cases hx : p x with
    | true => rw [List.cons_append, splitWhere_cons_pos hx, splitWhere_cons_pos hx, ih, List.cons_append]
    | false =>
      obtain ⟨part, parts, hsplit⟩ := exists_splitWhere (p := p) a
      rw [hsplit, List.cons_append] at ih
      rw [List.cons_append, splitWhere_cons_neg hx hsplit, splitWhere_cons_neg hx ih,
        List.cons_append]

theorem splitWhere_head {s first : List Char} {rest : List (List Char)}
    (h : splitWhere p s = first :: rest) : first <+: s := by
  induction s generalizing first rest with
  | nil =>
    obtain ⟨rfl, -⟩ := List.cons.inj h
    exact List.prefix_rfl
  | cons c s ih =>
    cases hc : p c with
    | true =>
      rw [splitWhere_cons_pos hc] at h
      obtain ⟨rfl, -⟩ := List.cons.inj h
      exact List.nil_prefix
    | false =>
      obtain ⟨part, parts, hsplit⟩ := exists_splitWhere (p := p) s
      rw [splitWhere_cons_neg hc hsplit] at h
      obtain ⟨rfl, -⟩ := List.cons.inj h
      exact List.cons_prefix_cons.mpr ⟨rfl, ih hsplit⟩

theorem not_mem_of_splitWhere {s part : List Char} (h : part ∈ splitWhere p s) :
    ∀ c ∈ part, p c = false := by
  induction s generalizing part with
  | nil =>
    obtain rfl := List.mem_singleton.mp h
    simp
  | cons x s ih =>
    cases hx : p x with
    | true =>
      rw [splitWhere_cons_pos hx] at h
      rcases List.mem_cons.mp h with rfl | h
      · simp
      · exact ih h
    | false =>
      obtain ⟨first, rest, hsplit⟩ := exists_splitWhere (p := p) s
      rw [splitWhere_cons_neg hx hsplit] at h
      rcases List.mem_cons.mp h with rfl | h
      · exact List.forall_mem_cons.mpr ⟨hx, ih (by simp [hsplit])⟩
      · exact ih (by simp [hsplit, h])

theorem splitWhere_flatMap (hpq : ∀ c, p c = true → q c = true) (s : List Char) :
    splitWhere q s = (splitWhere p s).flatMap (splitWhere q) := by
  induction s with
  | nil => rfl
  | cons c s ih =>
    cases hp : p c with
    | true =>
      rw [splitWhere_cons_pos hp, splitWhere_cons_pos (hpq c hp), List.flatMap_cons,
        splitWhere_nil, List.singleton_append, ih]
    | false =>
      obtain ⟨part, parts, hsplit⟩ := exists_splitWhere (p := p) s
      have hq : splitWhere q s = splitWhere q part ++ parts.flatMap (splitWhere q) := by
        rw [ih, hsplit, List.flatMap_cons]
      rw [splitWhere_cons_neg hp hsplit, List.flatMap_cons]
      obtain ⟨first, rest, hfirst⟩ := exists_splitWhere (p := q) part
      cases hqc : q c with
      | true =>
        rw [splitWhere_cons_pos hqc, splitWhere_cons_pos hqc, hq, List.cons_append]
      | false =>
        rw [hfirst, List.cons_append] at hq
        rw [splitWhere_cons_neg hqc hq, splitWhere_cons_neg hqc hfirst, List.cons_append]

end Where

theorem splitOnChar_append {part : List Char} (h : sep ∉ part) (s : List Char) :
    splitOnChar sep (part ++ sep :: s) = part :: splitOnChar sep s := by
  refine splitWhere_append (fun c hc => ?_) (by simp) s
  rw [beq_eq_false_iff_ne]
  rintro rfl
  exact h hc

theorem splitOnChar_of_not_mem {part : List Char} (h : sep ∉ part) :
    splitOnChar sep part = [part] := by
  refine splitWhere_of_none fun c hc => ?_
  rw [beq_eq_false_iff_ne]
  rintro rfl
  exact h hc

theorem mem_splitOnChar_between {part before after : List Char} (h : sep ∉ part)
    (hbefore : before = [] ∨ ∃ init, before = init ++ [sep])
    (hafter : after = [] ∨ ∃ rest, after = sep :: rest) :
    part ∈ splitOnChar sep (before ++ part ++ after) := by
  have hpart : part ∈ splitOnChar sep (part ++ after) := by
    rcases hafter with rfl | ⟨rest, rfl⟩
    · rw [List.append_nil, splitOnChar_of_not_mem h]
      exact List.mem_singleton_self part
    · rw [splitOnChar_append h]
      exact List.mem_cons_self
  rcases hbefore with rfl | ⟨init, rfl⟩
  · exact hpart
  · rw [List.append_assoc, List.append_assoc, List.singleton_append, splitOnChar,
      splitWhere_append_sep (by simp)]
    exact List.mem_append_right _ hpart

theorem splitOnChar_joinWith {parts : List (List Char)} (hne : parts ≠ [])
    (h : ∀ part ∈ parts, sep ∉ part) : splitOnChar sep (joinWith sep parts) = parts := by
  induction parts with
  | nil => exact absurd rfl hne
  | cons part parts ih =>
    obtain ⟨hpart, hparts⟩ := List.forall_mem_cons.mp h
    cases parts with
    | nil => exact splitOnChar_of_not_mem hpart
    | cons next parts =>
      rw [joinWith_cons_of_ne_nil part (by simp), splitOnChar_append hpart, ih (by simp) hparts]

theorem joinWith_splitOnChar (s : List Char) : joinWith sep (splitOnChar sep s) = s := by
  induction s with
  | nil => rfl
  | cons c s ih =>
    obtain ⟨part, parts, hsplit⟩ := exists_splitWhere (p := (· == sep)) s
    unfold splitOnChar at ih ⊢
    cases hc : c == sep with
    | true =>
      rw [splitWhere_cons_pos (p := (· == sep)) hc, joinWith_cons_of_ne_nil [] (splitWhere_ne_nil s),
        ih, eq_of_beq hc]
      rfl
    | false =>
      rw [splitWhere_cons_neg (p := (· == sep)) hc hsplit]
      rw [hsplit] at ih
      cases parts with
      | nil => exact congrArg (c :: ·) ih
      | cons next parts => exact congrArg (c :: ·) ih

theorem joinWith_append {parts parts' : List (List Char)} (hne : parts ≠ []) (hne' : parts' ≠ []) :
    joinWith sep (parts ++ parts') = joinWith sep parts ++ sep :: joinWith sep parts' := by
  induction parts with
  | nil => exact absurd rfl hne
  | cons part parts ih =>
    cases parts with
    | nil => exact joinWith_cons_of_ne_nil part hne'
    | cons next parts =>
      rw [List.cons_append, joinWith_cons_of_ne_nil part (by simp), ih (by simp),
        joinWith_cons_of_ne_nil part (by simp), List.append_assoc, List.cons_append]

theorem splitOnChar_joinWith_append {parts : List (List Char)} (hne : parts ≠ [])
    (h : ∀ part ∈ parts, sep ∉ part) (s : List Char) :
    splitOnChar sep (joinWith sep parts ++ sep :: s) = parts ++ splitOnChar sep s := by
  induction parts with
  | nil => exact absurd rfl hne
  | cons part parts ih =>
    obtain ⟨hpart, hparts⟩ := List.forall_mem_cons.mp h
    cases parts with
    | nil =>
      rw [List.singleton_append]
      exact splitOnChar_append hpart s
    | cons next parts =>
      rw [joinWith_cons_of_ne_nil part (by simp), List.append_assoc, List.cons_append,
        splitOnChar_append hpart, ih (by simp) hparts]
      rfl

theorem splitOnChar_lines {lines : List (List Char)} (h : ∀ line ∈ lines, sep ∉ line) :
    splitOnChar sep (lines.flatMap fun line => line ++ [sep]) = lines ++ [[]] := by
  induction lines with
  | nil => rfl
  | cons line lines ih =>
    obtain ⟨hline, hlines⟩ := List.forall_mem_cons.mp h
    rw [List.flatMap_cons, List.append_assoc, List.singleton_append, splitOnChar_append hline,
      ih hlines]
    rfl

/-- The text before the first `mark` and the text after it; both are absent
when the text before would be empty. -/
def splitAtFirst (mark : Char) (s : List Char) : Option (List Char × List Char) :=
  match s.takeWhile (· != mark), s.dropWhile (· != mark) with
  | [], _ => none
  | _, [] => none
  | before, _ :: after => some (before, after)

end ChampionRuntime.Lib
