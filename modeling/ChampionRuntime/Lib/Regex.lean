import ChampionRuntime.Lib.PyText

/-!
# Regular expressions as Python's `re` matches them

A cursor is the character before a position and the text from it on. Running an
expression lists every cursor a match may stop at, in the order of preference;
searching tries every position. Repetition stops when nothing is consumed.
-/
namespace ChampionRuntime.Lib

inductive Regex where
  | empty
  | cls (p : Char → Bool)
  | seq (a b : Regex)
  | alt (a b : Regex)
  | star (a : Regex)
  /-- `\b`, over the given word characters -/
  | boundary (word : Char → Bool)
  /-- `^` -/
  | start
  /-- `$`, which also matches before a final newline -/
  | stop
  /-- `(?!...)` -/
  | notAhead (a : Regex)

namespace Regex

structure Cursor where
  before : Option Char
  rest : List Char
  deriving DecidableEq, Repr

/-- The cursors after any number of repetitions, the longest first. -/
def iterate (step : Cursor → List Cursor) : ℕ → Cursor → List Cursor
  | 0, c => [c]
  | fuel + 1, c =>
    ((step c).filter fun d => d.rest.length < c.rest.length).flatMap (iterate step fuel) ++ [c]

def run : Regex → Cursor → List Cursor
  | empty, c => [c]
  | cls p, c =>
    match c.rest with
    | x :: rest => if p x then [⟨some x, rest⟩] else []
    | [] => []
  | seq a b, c => (run a c).flatMap (run b)
  | alt a b, c => run a c ++ run b c
  | star a, c => iterate (run a) c.rest.length c
  | boundary word, c => if c.before.any word != c.rest.head?.any word then [c] else []
  | start, c => if c.before.isNone then [c] else []
  | stop, c => if c.rest = [] ∨ c.rest = ['\n'] then [c] else []
  | notAhead a, c => if (run a c).isEmpty then [c] else []

def fullmatch (r : Regex) (s : List Char) : Bool :=
  (run r ⟨none, s⟩).any fun c => c.rest.isEmpty

def searchFrom (r : Regex) : Option Char → List Char → Bool
  | before, [] => !(run r ⟨before, []⟩).isEmpty
  | before, x :: rest => !(run r ⟨before, x :: rest⟩).isEmpty || searchFrom r (some x) rest

def search (r : Regex) (s : List Char) : Bool := searchFrom r none s

def char (c : Char) : Regex := cls (· == c)

def lit : List Char → Regex
  | [] => empty
  | c :: rest => seq (char c) (lit rest)

/-- A lower-case literal under `re.IGNORECASE`. -/
def litIgnoreCase : List Char → Regex
  | [] => empty
  | c :: rest => seq (cls fun x => PyText.ignoreCase x == c) (litIgnoreCase rest)

def plus (a : Regex) : Regex := seq a (star a)

def opt (a : Regex) : Regex := alt a empty

def times : ℕ → Regex → Regex
  | 0, _ => empty
  | n + 1, a => seq a (times n a)

section Consumption

/-- Every match passes over a character of the class. -/
def Needs (p : Char → Bool) (r : Regex) : Prop :=
  ∀ c d, d ∈ run r c → ∃ x ∈ c.rest, p x = true

theorem iterate_suffix {step : Cursor → List Cursor}
    (hstep : ∀ c d, d ∈ step c → d.rest <:+ c.rest) (fuel : ℕ) :
    ∀ c d, d ∈ iterate step fuel c → d.rest <:+ c.rest := by
  induction fuel with
  | zero =>
    intro c d hd
    rw [List.mem_singleton.mp hd]
  | succ fuel ih =>
    intro c d hd
    rcases List.mem_append.mp hd with hd | hd
    · obtain ⟨mid, hmid, hd⟩ := List.mem_flatMap.mp hd
      exact (ih mid d hd).trans (hstep c mid (List.mem_of_mem_filter hmid))
    · rw [List.mem_singleton.mp hd]

theorem run_suffix (r : Regex) : ∀ c d, d ∈ run r c → d.rest <:+ c.rest := by
  induction r with
  | empty =>
    intro c d hd
    rw [List.mem_singleton.mp hd]
  | cls p =>
    intro c d hd
    simp only [run] at hd
    split at hd
    · rename_i x rest heq
      split at hd
      · rw [List.mem_singleton.mp hd, heq]
        exact List.suffix_cons x rest
      · simp at hd
    · simp at hd
  | seq a b iha ihb =>
    intro c d hd
    obtain ⟨mid, hmid, hd⟩ := List.mem_flatMap.mp hd
    exact (ihb mid d hd).trans (iha c mid hmid)
  | alt a b iha ihb =>
    intro c d hd
    rcases List.mem_append.mp hd with hd | hd
    · exact iha c d hd
    · exact ihb c d hd
  | star a iha => exact fun c d hd => iterate_suffix iha _ c d hd
  | boundary word | start | stop | notAhead a _ =>
    intro c d hd
    simp only [run] at hd
    split at hd
    · rw [List.mem_singleton.mp hd]
    · simp at hd

theorem Needs.cls {p q : Char → Bool} (h : ∀ x, q x = true → p x = true) : Needs p (cls q) := by
  intro c d hd
  simp only [run] at hd
  split at hd
  · rename_i x rest heq
    split at hd
    · rename_i hq
      exact ⟨x, by simp [heq], h x hq⟩
    · simp at hd
  · simp at hd

theorem Needs.seq_left {p : Char → Bool} {a : Regex} (h : Needs p a) (b : Regex) :
    Needs p (seq a b) := by
  intro c d hd
  obtain ⟨mid, hmid, -⟩ := List.mem_flatMap.mp hd
  exact h c mid hmid

theorem Needs.seq_right {p : Char → Bool} {b : Regex} (a : Regex) (h : Needs p b) :
    Needs p (seq a b) := by
  intro c d hd
  obtain ⟨mid, hmid, hd⟩ := List.mem_flatMap.mp hd
  obtain ⟨x, hx, hp⟩ := h mid d hd
  exact ⟨x, (run_suffix a c mid hmid).subset hx, hp⟩

theorem Needs.search_eq_false {p : Char → Bool} {r : Regex} (h : Needs p r) {s : List Char}
    (hs : ∀ x ∈ s, p x = false) : search r s = false := by
  have hrun : ∀ before t, (∀ x ∈ t, p x = false) → run r ⟨before, t⟩ = [] := by
    intro before t ht
    refine List.eq_nil_iff_forall_not_mem.mpr fun d hd => ?_
    obtain ⟨x, hx, hp⟩ := h _ d hd
    simp [ht x hx] at hp
  have hfrom : ∀ before t, (∀ x ∈ t, p x = false) → searchFrom r before t = false := by
    intro before t
    induction t generalizing before with
    | nil =>
      intro ht
      simp [searchFrom, hrun before [] ht]
    | cons x t ih =>
      intro ht
      simp only [searchFrom, hrun before _ ht, List.isEmpty_nil, Bool.not_true, Bool.false_or]
      exact ih (some x) fun y hy => ht y (by simp [hy])
  exact hfrom none s hs

end Consumption

theorem fullmatch_times_cls {p : Char → Bool} {n : ℕ} {s : List Char} :
    fullmatch (times n (cls p)) s = true ↔ s.length = n ∧ ∀ c ∈ s, p c = true := by
  have hrun : ∀ before, ((run (times n (cls p)) ⟨before, s⟩).any fun c => c.rest.isEmpty) = true ↔
      s.length = n ∧ ∀ c ∈ s, p c = true := by
    induction n generalizing s with
    | zero =>
      intro before
      simp only [times, run, List.any_cons, List.any_nil, Bool.or_false, List.isEmpty_iff,
        List.length_eq_zero_iff, iff_self_and]
      rintro rfl
      simp
    | succ n ih =>
      intro before
      cases s with
      | nil => simp [times, run]
      | cons x s =>
        by_cases hx : p x = true
        · simp only [times, run, hx, if_true, List.flatMap_cons, List.flatMap_nil, List.append_nil,
            ih, List.length_cons, Nat.add_right_cancel_iff, List.forall_mem_cons, true_and]
        · simp [times, run, hx]
  exact hrun none

end Regex

end ChampionRuntime.Lib
