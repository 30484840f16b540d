import ChampionRuntime.Correctness.Comparison
import ChampionRuntime.Lib.Assoc

/-!
# What an accepted comparison shows

A difference that is not a number is above no tolerance, and a row that a later one of its key
replaces is not looked at. An accepted pair of documents agrees in every row when all its
log-probabilities are finite and the comparison would accept the replaced rows as well, and
only then.
-/
namespace ChampionRuntime.Correctness

open Lib
open Lib.Json (Number PyFloat)

/-- `|y - x| <= TOLERANCE + 1e-12`, for the difference that is computed -/
def Within (x y : Number) : Prop :=
  ∃ d, Number.sub? y x = some d ∧ Number.ge (.float tolerance) d.magnitude = true

/-- The second candidate is within the tolerance of the first. -/
def NearTie (row : TeacherRow) : Prop :=
  ∃ gap, nearTieGap row = .ok gap ∧ Number.ge (.float tolerance) gap = true

structure TeacherRow.Matches (expected actual : TeacherRow) : Prop where
  key_eq : actual.key = expected.key
  prefix_eq : actual.prefixTokens = expected.prefixTokens
  tokens_eq : actual.topkTokenIds.toFinset = expected.topkTokenIds.toFinset
  close : ∀ token x y, (token, x) ∈ expected.topk → (token, y) ∈ actual.topk → Within x y
  top : actual.topkTokenIds.head? = expected.topkTokenIds.head? ∨
    actual.topkTokenIds.head? = expected.topkTokenIds[1]? ∧ NearTie expected

structure FreeRow.Matches (expected actual : FreeRow) : Prop where
  key_eq : actual.key = expected.key
  semantic : actual.semanticValid = true
  schema : actual.schemaValid = true
  text_eq : actual.tokenIds = expected.tokenIds → actual.text = expected.text
  shared : actual.tokenIds ≠ expected.tokenIds →
    ∃ start, start ≠ [] ∧ start <+: expected.tokenIds ∧ start <+: actual.tokenIds

/-- Every row of either document has a counterpart in the other. -/
structure Sound (reference candidate : Document) : Prop where
  candidateRows : ∀ actual ∈ candidate.teacherForced,
    ∃ expected ∈ reference.teacherForced, expected.Matches actual
  referenceRows : ∀ expected ∈ reference.teacherForced,
    ∃ actual ∈ candidate.teacherForced, expected.Matches actual
  candidateRuns : ∀ actual ∈ candidate.freeGeneration,
    ∃ expected ∈ reference.freeGeneration, expected.Matches actual
  referenceRuns : ∀ expected ∈ reference.freeGeneration,
    ∃ actual ∈ candidate.freeGeneration, expected.Matches actual

def TeacherRow.Finite (row : TeacherRow) : Prop := ∀ x ∈ row.topkLogprobs, x.IsFinite

theorem tolerance_eq : tolerance = .finite (7205759403936909 / 144115188075855872) := by
  decide +kernel

theorem ge_tolerance_iff {d : Number} :
    Number.ge (.float tolerance) d = true ↔ exceeds d = false ∧ d.exact ≠ .nan := by
  have htol : tolerance ≠ .nan := by
    rw [tolerance_eq]
    nofun
  unfold exceeds Number.lt Number.ge
  rw [PyFloat.ge_iff]
  exact and_congr_right fun _ => and_iff_right htol

theorem within_iff {x y : Number} :
    Within x y ↔ x.IsFinite ∧ y.IsFinite ∧ ∃ d, Number.sub? y x = some d ∧
      exceeds d.magnitude = false := by
  constructor
  · rintro ⟨d, hd, hge⟩
    have hexceeds := (ge_tolerance_iff.mp hge).1
    rw [tolerance_eq] at hge
    obtain ⟨hy, hx⟩ := Number.finite_of_ge_magnitude hd hge
    exact ⟨hx, hy, d, hd, hexceeds⟩
  · rintro ⟨hx, hy, d, hd, hexceeds⟩
    have hnan := Number.magnitude_ne_nan (Number.sub?_ne_nan hy hx hd)
    exact ⟨d, hd, ge_tolerance_iff.mpr ⟨hexceeds, hnan⟩⟩

theorem difference_eq_ok {x y d : Number} : difference x y = .ok d ↔ Number.sub? x y = some d := by
  unfold difference
  cases Number.sub? x y <;> simp

/-- The lead of finite log-probabilities is within the tolerance or exceeds it. -/
theorem nearTie_iff {row : TeacherRow} (hfinite : row.Finite) :
    NearTie row ↔ ∃ gap, nearTieGap row = .ok gap ∧ exceeds gap = false := by
  have hnumber : ∀ gap, nearTieGap row = .ok gap → gap.exact ≠ .nan := by
    intro gap hgap
    unfold nearTieGap at hgap
    split at hgap
    · rename_i x y rest hrow
      rw [difference_eq_ok] at hgap
      exact Number.sub?_ne_nan (hfinite x (by simp [hrow])) (hfinite y (by simp [hrow])) hgap
    · cases hgap
  constructor
  · rintro ⟨gap, hgap, hge⟩
    exact ⟨gap, hgap, (ge_tolerance_iff.mp hge).1⟩
  · rintro ⟨gap, hgap, hexceeds⟩
    exact ⟨gap, hgap, ge_tolerance_iff.mpr ⟨hexceeds, hnumber gap hgap⟩⟩

/-- The comparison of two rows goes through. -/
def Accepts {α : Type} (compare : α → α → Except CompareError Bool) (expected actual : α) : Prop :=
  ∃ told, compare expected actual = .ok told

theorem anyExceeds_eq_false {actualProbs pairs : List (ℕ × Number)} :
    anyExceeds actualProbs pairs = .ok false ↔ ∀ token x, (token, x) ∈ pairs →
      ∃ y d, actualProbs.lookup token = some y ∧ Number.sub? y x = some d ∧
        exceeds d.magnitude = false := by
  induction pairs with
  | nil => simp [anyExceeds]
  | cons pair pairs ih =>
    obtain ⟨token, x⟩ := pair
    have hhead : anyExceeds actualProbs ((token, x) :: pairs) = .ok false ↔
        (∃ y d, actualProbs.lookup token = some y ∧ Number.sub? y x = some d ∧
          exceeds d.magnitude = false) ∧ anyExceeds actualProbs pairs = .ok false := by
      rw [anyExceeds]
      cases hlookup : actualProbs.lookup token with
      | none => simp
      | some y =>
        simp only [bind_eq_ok, difference_eq_ok, Option.some.injEq]
        constructor
        · rintro ⟨d, hd, h⟩
          cases hexceeds : exceeds d.magnitude with
          | true => simp [hexceeds] at h
          | false =>
            simp only [hexceeds, Bool.false_eq_true, if_false] at h
            exact ⟨⟨y, d, rfl, hd, hexceeds⟩, h⟩
        · rintro ⟨⟨_, d, rfl, hd, hexceeds⟩, h⟩
          refine ⟨d, hd, ?_⟩
          rwa [hexceeds, if_neg Bool.false_ne_true]
    rw [hhead, ih]
    constructor
    · rintro ⟨hfirst, hrest⟩ token' x' hmem
      rcases List.mem_cons.mp hmem with heq | hmem
      · obtain ⟨rfl, rfl⟩ := Prod.mk.inj heq
        exact hfirst
      · exact hrest token' x' hmem
    · intro h
      exact ⟨h token x List.mem_cons_self, fun token' x' hmem =>
        h token' x' (List.mem_cons_of_mem _ hmem)⟩

theorem accepts_teacher_iff {expected actual : TeacherRow} :
    Accepts compareTeacher expected actual ↔
      actual.prefixTokens = expected.prefixTokens ∧
        actual.topkTokenIds.toFinset = expected.topkTokenIds.toFinset ∧
        anyExceeds actual.topk expected.topk = .ok false ∧
        (actual.topkTokenIds.head? = expected.topkTokenIds.head? ∨
          actual.topkTokenIds.head? = expected.topkTokenIds[1]? ∧
            ∃ gap, nearTieGap expected = .ok gap ∧ exceeds gap = false) := by
  constructor
  · rintro ⟨told, h⟩
    simp only [compareTeacher, bind_eq_ok, require_eq_ok] at h
    obtain ⟨-, hstart, -, htokens, far, hany, -, hfar, h⟩ := h
    obtain rfl : far = false := by simpa using hfar
    refine ⟨of_decide_eq_true hstart, of_decide_eq_true htokens, hany, ?_⟩
    split_ifs at h with htop
    · exact .inl htop
    · obtain ⟨gap, hgap, h⟩ := bind_eq_ok.mp h
      obtain ⟨_, hswap, -⟩ := bind_eq_ok.mp h
      simp only [require_eq_ok, Bool.and_eq_true, decide_eq_true_eq, Bool.not_eq_true'] at hswap
      exact .inr ⟨hswap.1, gap, hgap, hswap.2⟩
  · rintro ⟨hstart, htokens, hany, htop⟩
    unfold Accepts compareTeacher
    rw [decide_eq_true hstart, require_true, ok_bind, decide_eq_true htokens, require_true,
      ok_bind, hany, ok_bind, Bool.not_false, require_true, ok_bind]
    split_ifs with hsame
    · exact ⟨false, rfl⟩
    · obtain ⟨hrunner, gap, hgap, hexceeds⟩ := htop.resolve_left hsame
      refine ⟨true, ?_⟩
      rw [hgap, ok_bind, decide_eq_true hrunner, hexceeds]
      rfl

section Rows

variable {expected actual : TeacherRow}

theorem map_fst_topk {row : TeacherRow}
    (hlength : row.topkTokenIds.length = row.topkLogprobs.length) :
    row.topk.map Prod.fst = row.topkTokenIds := List.map_fst_zip hlength.le

theorem map_snd_topk {row : TeacherRow}
    (hlength : row.topkTokenIds.length = row.topkLogprobs.length) :
    row.topk.map Prod.snd = row.topkLogprobs := List.map_snd_zip hlength.ge

theorem exists_mem_topk {row : TeacherRow}
    (hlength : row.topkTokenIds.length = row.topkLogprobs.length) {token : ℕ}
    (h : token ∈ row.topkTokenIds) : ∃ x, (token, x) ∈ row.topk := by
  rw [← map_fst_topk hlength, List.mem_map] at h
  obtain ⟨⟨_, x⟩, hmem, rfl⟩ := h
  exact ⟨x, hmem⟩

theorem mem_logprobs_of_mem_topk {row : TeacherRow} {token : ℕ} {x : Number}
    (h : (token, x) ∈ row.topk) : x ∈ row.topkLogprobs := (List.of_mem_zip h).2

theorem lookup_topk {row : TeacherRow}
    (hlength : row.topkTokenIds.length = row.topkLogprobs.length) {token : ℕ} {x : Number} :
    row.topk.lookup token = some x ↔ (token, x) ∈ row.topk := by
  apply lookup_eq_some_iff_mem
  rw [map_fst_topk hlength]
  exact row.ids_nodup

variable (hkey : actual.key = expected.key)
  (hexpected : expected.topkTokenIds.length = expected.topkLogprobs.length)
  (hactual : actual.topkTokenIds.length = actual.topkLogprobs.length)
include hexpected hactual

theorem close_iff (htokens : actual.topkTokenIds.toFinset = expected.topkTokenIds.toFinset) :
    (∀ token x y, (token, x) ∈ expected.topk → (token, y) ∈ actual.topk → Within x y) ↔
      expected.Finite ∧ actual.Finite ∧ anyExceeds actual.topk expected.topk = .ok false := by
  have hsame : ∀ token, token ∈ actual.topkTokenIds ↔ token ∈ expected.topkTokenIds := by
    intro token
    rw [← List.mem_toFinset, htokens, List.mem_toFinset]
  rw [anyExceeds_eq_false]
  constructor
  · intro hclose
    refine ⟨?_, ?_, ?_⟩
    · intro x hx
      rw [← map_snd_topk hexpected, List.mem_map] at hx
      obtain ⟨⟨token, _⟩, hmem, rfl⟩ := hx
      obtain ⟨y, hy⟩ := exists_mem_topk hactual ((hsame token).mpr (List.of_mem_zip hmem).1)
      exact (within_iff.mp (hclose token _ y hmem hy)).1
    · intro y hy
      rw [← map_snd_topk hactual, List.mem_map] at hy
      obtain ⟨⟨token, _⟩, hmem, rfl⟩ := hy
      obtain ⟨x, hx⟩ := exists_mem_topk hexpected ((hsame token).mp (List.of_mem_zip hmem).1)
      exact (within_iff.mp (hclose token x _ hx hmem)).2.1
    · intro token x hmem
      obtain ⟨y, hy⟩ := exists_mem_topk hactual ((hsame token).mpr (List.of_mem_zip hmem).1)
      obtain ⟨-, -, d, hd, hexceeds⟩ := within_iff.mp (hclose token x y hmem hy)
      exact ⟨y, d, (lookup_topk hactual).mpr hy, hd, hexceeds⟩
  · rintro ⟨hfinite, hfinite', hany⟩ token x y hx hy
    obtain ⟨y', d, hfound, hd, hexceeds⟩ := hany token x hx
    obtain rfl : y = y' := Option.some.inj (((lookup_topk hactual).mpr hy).symm.trans hfound)
    exact within_iff.mpr ⟨hfinite x (mem_logprobs_of_mem_topk hx),
      hfinite' y (mem_logprobs_of_mem_topk hy), d, hd, hexceeds⟩

include hkey

/-- Two rows match when the comparison accepts them and all their log-probabilities are
finite. -/
theorem TeacherRow.matches_iff :
    expected.Matches actual ↔
      Accepts compareTeacher expected actual ∧ expected.Finite ∧ actual.Finite := by
  rw [accepts_teacher_iff]
  constructor
  · intro h
    obtain ⟨hfinite, hfinite', hany⟩ := (close_iff hexpected hactual h.tokens_eq).mp h.close
    refine ⟨⟨h.prefix_eq, h.tokens_eq, hany, ?_⟩, hfinite, hfinite'⟩
    exact h.top.imp_right fun ⟨hrunner, htie⟩ => ⟨hrunner, (nearTie_iff hfinite).mp htie⟩
  · rintro ⟨⟨hstart, htokens, hany, htop⟩, hfinite, hfinite'⟩
    have hclose := (close_iff hexpected hactual htokens).mpr ⟨hfinite, hfinite', hany⟩
    refine ⟨hkey, hstart, htokens, hclose, ?_⟩
    exact htop.imp_right fun ⟨hrunner, htie⟩ => ⟨hrunner, (nearTie_iff hfinite).mpr htie⟩

end Rows

theorem sharedTokens_eq_zero_iff (left right : List ℕ) :
    sharedTokens left right = 0 ↔ ¬∃ start, start ≠ [] ∧ start <+: left ∧ start <+: right := by
  constructor
  · rintro hzero ⟨start, hne, hleft, hright⟩
    cases start with
    | nil => exact hne rfl
    | cons token start =>
      obtain ⟨lefts, rfl⟩ := hleft
      obtain ⟨rights, rfl⟩ := hright
      simp [sharedTokens] at hzero
  · intro hnone
    cases left with
    | nil => rfl
    | cons token lefts =>
      cases right with
      | nil => rfl
      | cons token' rights =>
        rw [sharedTokens]
        split_ifs with heq
        · subst heq
          exact absurd ⟨[token], List.cons_ne_nil _ _, ⟨lefts, rfl⟩, rights, rfl⟩ hnone
        · rfl

theorem FreeRow.matches_iff {expected actual : FreeRow} (hkey : actual.key = expected.key) :
    expected.Matches actual ↔ Accepts compareFree expected actual := by
  have haccepts : Accepts compareFree expected actual ↔
      (expected.tokenIds ≠ actual.tokenIds →
          ¬sharedTokens expected.tokenIds actual.tokenIds = 0) ∧
        (actual.semanticValid = true ∧ actual.schemaValid = true) ∧
        (expected.tokenIds = actual.tokenIds → actual.text = expected.text) := by
    unfold Accepts compareFree
    by_cases hsame : expected.tokenIds = actual.tokenIds
    · simp [bind_eq_ok, hsame]
    · simp [bind_eq_ok, hsame]
  rw [haccepts, sharedTokens_eq_zero_iff, not_not]
  constructor
  · intro h
    exact ⟨fun hne => h.shared hne.symm, ⟨h.semantic, h.schema⟩, fun heq => h.text_eq heq.symm⟩
  · rintro ⟨hshared, ⟨hsemantic, hschema⟩, htext⟩
    exact ⟨hkey, hsemantic, hschema, fun heq => htext heq.symm, fun hne => hshared hne.symm⟩

section Compared

variable {α κ : Type} [DecidableEq κ] {key : α → κ} {rows : List α} {row : α}

/-- Another row, later in the list, has the key. -/
def Replaced (key : α → κ) (rows : List α) (row : α) : Prop :=
  row ∈ rows ∧ (rows.reverse.find? fun r => key r = key row) ≠ some row

variable {compare : α → α → Except CompareError Bool} {left right : Keyed key}

theorem accepts_of_compareRows {count : ℕ} (h : compareRows compare left right = .ok count)
    {expected : α} (hmem : expected ∈ left.items) :
    ∃ actual, right.find? (key expected) = some actual ∧ Accepts compare expected actual := by
  obtain ⟨before, after, hround⟩ := step_of_foldlM_eq_ok h hmem
  cases hfound : right.find? (key expected) with
  | none => simp [hfound] at hround
  | some actual =>
    simp only [hfound, bind_eq_ok] at hround
    obtain ⟨told, htold, -⟩ := hround
    exact ⟨actual, rfl, told, htold⟩

theorem accepts_of_sameKeys {count : ℕ} (hkeys : sameKeys left right = true)
    (h : compareRows compare left right = .ok count) {actual : α} (hmem : actual ∈ right.items) :
    ∃ expected, left.find? (key actual) = some expected ∧ Accepts compare expected actual := by
  have hkey : key actual ∈ left.items.map key := by
    rw [← List.mem_toFinset, of_decide_eq_true hkeys, List.mem_toFinset]
    exact List.mem_map_of_mem hmem
  obtain ⟨expected, hexpected, heq⟩ := List.mem_map.mp hkey
  refine ⟨expected, Keyed.find?_eq_some.mpr ⟨hexpected, heq⟩, ?_⟩
  obtain ⟨other, hother, haccepts⟩ := accepts_of_compareRows h hexpected
  rw [heq, Keyed.find?_eq_some.mpr ⟨hmem, rfl⟩] at hother
  rwa [Option.some.inj hother]

/-- Every row of either list has a counterpart when it is one of those compared, or is accepted
beside another row of its key. -/
theorem counterparts_iff {lefts rights : List α} {count : ℕ} (good : α → Prop)
    (agree : α → α → Prop)
    (hkeys : sameKeys (Keyed.ofList lefts : Keyed key) (Keyed.ofList rights) = true)
    (h : compareRows compare (Keyed.ofList lefts : Keyed key) (Keyed.ofList rights) = .ok count)
    (hkey : ∀ expected actual, agree expected actual → key actual = key expected)
    (hagree : ∀ expected ∈ lefts, ∀ actual ∈ rights, key actual = key expected →
      (agree expected actual ↔ Accepts compare expected actual ∧ good expected ∧ good actual)) :
    ((∀ actual ∈ rights, ∃ expected ∈ lefts, agree expected actual) ∧
        ∀ expected ∈ lefts, ∃ actual ∈ rights, agree expected actual) ↔
      ((∀ expected ∈ lefts, good expected) ∧ ∀ actual ∈ rights, good actual) ∧
        (∀ actual, Replaced key rights actual →
          ∃ expected ∈ lefts, key actual = key expected ∧ Accepts compare expected actual) ∧
        ∀ expected, Replaced key lefts expected →
          ∃ actual ∈ rights, key actual = key expected ∧ Accepts compare expected actual := by
  constructor
  · rintro ⟨hrights, hlefts⟩
    refine ⟨⟨?_, ?_⟩, ?_, ?_⟩
    · intro expected hmem
      obtain ⟨actual, hmem', hpair⟩ := hlefts expected hmem
      exact ((hagree expected hmem actual hmem' (hkey _ _ hpair)).mp hpair).2.1
    · intro actual hmem
      obtain ⟨expected, hmem', hpair⟩ := hrights actual hmem
      exact ((hagree expected hmem' actual hmem (hkey _ _ hpair)).mp hpair).2.2
    · rintro actual ⟨hmem, -⟩
      obtain ⟨expected, hmem', hpair⟩ := hrights actual hmem
      have haccepts := (hagree expected hmem' actual hmem (hkey _ _ hpair)).mp hpair
      exact ⟨expected, hmem', hkey _ _ hpair, haccepts.1⟩
    · rintro expected ⟨hmem, -⟩
      obtain ⟨actual, hmem', hpair⟩ := hlefts expected hmem
      have haccepts := (hagree expected hmem actual hmem' (hkey _ _ hpair)).mp hpair
      exact ⟨actual, hmem', hkey _ _ hpair, haccepts.1⟩
  · rintro ⟨⟨hgood, hgood'⟩, hrights, hlefts⟩
    have hpair : ∀ expected ∈ lefts, ∀ actual ∈ rights, key actual = key expected →
        Accepts compare expected actual → agree expected actual :=
      fun expected hmem actual hmem' heq haccepts =>
        (hagree expected hmem actual hmem' heq).mpr
          ⟨haccepts, hgood expected hmem, hgood' actual hmem'⟩
    constructor
    · intro actual hmem
      have hfound : ∃ expected ∈ lefts, key actual = key expected ∧
          Accepts compare expected actual := by
        by_cases hlast : actual ∈ (Keyed.ofList rights : Keyed key).items
        · obtain ⟨expected, hexpected, haccepts⟩ := accepts_of_sameKeys hkeys h hlast
          obtain ⟨hmem', heq⟩ := Keyed.mem_of_find?_ofList hexpected
          exact ⟨expected, hmem', heq.symm, haccepts⟩
        · exact hrights actual ⟨hmem, fun hlast' => hlast (Keyed.mem_ofList.mpr hlast')⟩
      obtain ⟨expected, hmem', heq, haccepts⟩ := hfound
      exact ⟨expected, hmem', hpair expected hmem' actual hmem heq haccepts⟩
    · intro expected hmem
      have hfound : ∃ actual ∈ rights, key actual = key expected ∧
          Accepts compare expected actual := by
        by_cases hlast : expected ∈ (Keyed.ofList lefts : Keyed key).items
        · obtain ⟨actual, hactual, haccepts⟩ := accepts_of_compareRows h hlast
          obtain ⟨hmem', heq⟩ := Keyed.mem_of_find?_ofList hactual
          exact ⟨actual, hmem', heq, haccepts⟩
        · exact hlefts expected ⟨hmem, fun hlast' => hlast (Keyed.mem_ofList.mpr hlast')⟩
      obtain ⟨actual, hmem', heq, haccepts⟩ := hfound
      exact ⟨actual, hmem', hpair expected hmem actual hmem' heq haccepts⟩

end Compared

/-- All log-probabilities are finite, and every replaced row is one that the comparison accepts
beside some row of its key. -/
structure Covered (reference candidate : Document) : Prop where
  referenceFinite : ∀ row ∈ reference.teacherForced, row.Finite
  candidateFinite : ∀ row ∈ candidate.teacherForced, row.Finite
  candidateRows : ∀ actual, Replaced TeacherRow.key candidate.teacherForced actual →
    ∃ expected ∈ reference.teacherForced,
      actual.key = expected.key ∧ Accepts compareTeacher expected actual
  referenceRows : ∀ expected, Replaced TeacherRow.key reference.teacherForced expected →
    ∃ actual ∈ candidate.teacherForced,
      actual.key = expected.key ∧ Accepts compareTeacher expected actual
  candidateRuns : ∀ actual, Replaced FreeRow.key candidate.freeGeneration actual →
    ∃ expected ∈ reference.freeGeneration,
      actual.key = expected.key ∧ Accepts compareFree expected actual
  referenceRuns : ∀ expected, Replaced FreeRow.key reference.freeGeneration expected →
    ∃ actual ∈ candidate.freeGeneration,
      actual.key = expected.key ∧ Accepts compareFree expected actual

theorem length_eq_of_validateLengths {d : Document} (h : validateLengths d = .ok ())
    {row : TeacherRow} (hmem : row ∈ d.teacherForced) :
    row.topkTokenIds.length = row.topkLogprobs.length := by
  have hall := require_eq_ok.mp h
  simpa using List.all_eq_true.mp hall row hmem

theorem compareCorrectness_eq_ok {reference candidate : Document} {report : Report}
    (h : compareCorrectness reference candidate = .ok report) :
    (validateLengths reference = .ok () ∧ validateLengths candidate = .ok ()) ∧
      (sameKeys (teacherRows reference) (teacherRows candidate) = true ∧
        ∃ swaps, compareRows compareTeacher (teacherRows reference) (teacherRows candidate) =
          .ok swaps) ∧
      sameKeys (freeRows reference) (freeRows candidate) = true ∧
        ∃ divergent, compareRows compareFree (freeRows reference) (freeRows candidate) =
          .ok divergent := by
  simp only [compareCorrectness, bind_eq_ok, require_eq_ok] at h
  obtain ⟨-, -, _, hreference, _, hcandidate, -, hteacher, swaps, hswaps, -, hfree, divergent,
    hdivergent, -⟩ := h
  exact ⟨⟨hreference, hcandidate⟩, ⟨hteacher, swaps, hswaps⟩, hfree, divergent, hdivergent⟩

/-- Accepted documents agree in every row exactly when their log-probabilities are finite and
the rows that later ones replace would have been accepted as well. -/
theorem compareCorrectness_sound_iff {reference candidate : Document} {report : Report}
    (h : compareCorrectness reference candidate = .ok report) :
    Sound reference candidate ↔ Covered reference candidate := by
  obtain ⟨⟨hreference, hcandidate⟩, ⟨hteacher, swaps, hswaps⟩, hfree, divergent, hdivergent⟩ :=
    compareCorrectness_eq_ok h
  have hrows := counterparts_iff TeacherRow.Finite TeacherRow.Matches hteacher hswaps
    (fun _ _ hpair => hpair.key_eq)
    fun expected hmem actual hmem' heq => TeacherRow.matches_iff heq
      (length_eq_of_validateLengths hreference hmem)
      (length_eq_of_validateLengths hcandidate hmem')
  have hruns := counterparts_iff (fun _ => True) FreeRow.Matches hfree hdivergent
    (fun _ _ hpair => hpair.key_eq)
    fun expected _ actual _ heq => by rw [FreeRow.matches_iff heq, and_true, and_true]
  constructor
  · intro hsound
    obtain ⟨⟨hfinite, hfinite'⟩, hcandidateRows, hreferenceRows⟩ :=
      hrows.mp ⟨hsound.candidateRows, hsound.referenceRows⟩
    obtain ⟨-, hcandidateRuns, hreferenceRuns⟩ :=
      hruns.mp ⟨hsound.candidateRuns, hsound.referenceRuns⟩
    exact ⟨hfinite, hfinite', hcandidateRows, hreferenceRows, hcandidateRuns, hreferenceRuns⟩
  · intro hcovered
    obtain ⟨hcandidateRows, hreferenceRows⟩ :=
      hrows.mpr ⟨⟨hcovered.referenceFinite, hcovered.candidateFinite⟩,
        hcovered.candidateRows, hcovered.referenceRows⟩
    obtain ⟨hcandidateRuns, hreferenceRuns⟩ :=
      hruns.mpr ⟨⟨fun _ _ => trivial, fun _ _ => trivial⟩,
        hcovered.candidateRuns, hcovered.referenceRuns⟩
    exact ⟨hcandidateRows, hreferenceRows, hcandidateRuns, hreferenceRuns⟩

def sampleDigest (letter : Char) : String := String.ofList (List.replicate 64 letter)

def sampleSubject : Subject where
  imageDigest := "sha256:" ++ sampleDigest 'a'
  buildLockId := sampleDigest 'b'
  modelId := sampleDigest 'c'
  sidecarId := sampleDigest 'd'
  presetId := sampleDigest 'e'
  tokenizerId := sampleDigest 'f'
  samplingId := sampleDigest '1'

def sampleDocument (x : Number) (hmax : Number.lt (.int 0) x = false) : Document where
  subject := sampleSubject
  teacherForced := [{
    promptId := "prose"
    position := 3
    prefixTokens := [1, 2, 3]
    topkTokenIds := [10, 11]
    topkLogprobs := [x, x]
    promptId_ne := by decide
    prefixTokens_ne := by decide
    ids_length := by decide
    ids_nodup := by decide
    logprobs_length := le_rfl
    logprobs_max := by simpa using hmax }]
  freeGeneration := [{
    promptId := "prose"
    seed := 7
    tokenIds := [5, 6]
    text := "ok"
    semanticValid := true
    schemaValid := true
    promptId_ne := by decide }]
  temperatureZero := []

def notedDocument : Document := sampleDocument (.float (.finite (-1))) rfl

def unnotedDocument : Document := sampleDocument (.float .nan) rfl

theorem not_replaced_singleton {α κ : Type} [DecidableEq κ] {key : α → κ} {row row' : α} :
    ¬ Replaced key [row] row' := by
  rintro ⟨hmem, hfind⟩
  rw [List.mem_singleton.mp hmem] at hfind
  simp at hfind

theorem compareCorrectness_noted_sound :
    (∃ report, compareCorrectness notedDocument notedDocument = .ok report) ∧
      Sound notedDocument notedDocument := by
  have haccepted : (compareCorrectness notedDocument notedDocument).toOption.isSome = true := by
    decide +kernel
  obtain ⟨report, h⟩ := exists_ok_of_isSome haccepted
  have hfinite : ∀ row ∈ notedDocument.teacherForced, row.Finite := by
    intro row hrow x hx
    rw [List.mem_singleton.mp hrow] at hx
    rcases List.mem_pair.mp hx with rfl | rfl
    · exact ⟨-1, rfl⟩
    · exact ⟨-1, rfl⟩
  exact ⟨⟨report, h⟩, (compareCorrectness_sound_iff h).mpr ⟨hfinite, hfinite,
    fun _ hrow => absurd hrow not_replaced_singleton, fun _ hrow => absurd hrow not_replaced_singleton,
    fun _ hrow => absurd hrow not_replaced_singleton, fun _ hrow => absurd hrow not_replaced_singleton⟩⟩

/-- A candidate without any numbers is accepted. -/
theorem unnoted_accepted :
    (∃ report, compareCorrectness notedDocument unnotedDocument = .ok report) ∧
      ¬Sound notedDocument unnotedDocument := by
  have haccepted : (compareCorrectness notedDocument unnotedDocument).toOption.isSome = true := by
    decide +kernel
  refine ⟨exists_ok_of_isSome haccepted, ?_⟩
  intro hsound
  obtain ⟨expected, hmem, hmatches⟩ := hsound.candidateRows _ List.mem_cons_self
  rw [List.mem_singleton.mp hmem] at hmatches
  have hclose := hmatches.close 10 (.float (.finite (-1))) (.float .nan) List.mem_cons_self
    List.mem_cons_self
  obtain ⟨q, hq⟩ := (within_iff.mp hclose).2.1
  cases hq

end ChampionRuntime.Correctness
