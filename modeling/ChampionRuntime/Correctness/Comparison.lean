import ChampionRuntime.Lib.Difference
import ChampionRuntime.Lib.Keyed
import ChampionRuntime.Lib.Outcome
import Mathlib.Data.Finset.Dedup

/-!
# Comparing correctness documents

`verify_correctness.py` compares two captured documents that the schema accepts. Rows are kept
in dictionaries, one for each key, and a difference of log-probabilities is refused when it is
above the tolerance. Token ids are the integers that the schema admits, whichever way they are
written; the patterns of the identifiers are left out.
-/
namespace ChampionRuntime.Correctness

open Lib
open Lib.Json (Number PyFloat)

structure Subject where
  imageDigest : String
  buildLockId : String
  modelId : String
  sidecarId : String
  presetId : String
  tokenizerId : String
  samplingId : String
  deriving DecidableEq

/-- A row of `teacher_forced`. -/
structure TeacherRow where
  promptId : String
  position : ℕ
  prefixTokens : List ℕ
  topkTokenIds : List ℕ
  topkLogprobs : List Number
  promptId_ne : promptId ≠ ""
  prefixTokens_ne : prefixTokens ≠ []
  ids_length : 2 ≤ topkTokenIds.length
  ids_nodup : topkTokenIds.Nodup
  logprobs_length : 2 ≤ topkLogprobs.length
  /-- `maximum: 0`, which a not-a-number does not exceed -/
  logprobs_max : ∀ x ∈ topkLogprobs, Number.lt (.int 0) x = false

/-- A row of `free_generation`. -/
structure FreeRow where
  promptId : String
  seed : ℤ
  tokenIds : List ℕ
  text : String
  semanticValid : Bool
  schemaValid : Bool
  promptId_ne : promptId ≠ ""

/-- A row of `temperature_zero`. -/
structure ZeroRow where
  promptId : String
  run : ℕ
  outputSha256 : String
  promptId_ne : promptId ≠ ""
  run_bounds : 1 ≤ run ∧ run ≤ 10

structure Document where
  subject : Subject
  teacherForced : List TeacherRow
  freeGeneration : List FreeRow
  temperatureZero : List ZeroRow

def TeacherRow.key (row : TeacherRow) : String × ℕ := (row.promptId, row.position)

def FreeRow.key (row : FreeRow) : String × ℤ := (row.promptId, row.seed)

/-- `zip(row["topk_token_ids"], row["topk_logprobs"])` -/
def TeacherRow.topk (row : TeacherRow) : List (ℕ × Number) := row.topkTokenIds.zip row.topkLogprobs

inductive CompareError where
  | correctness (text : String)
  /-- a `CorrectnessError` whose text goes on with the key of the row -/
  | teacherRow (text : String) (key : String × ℕ)
  | freeRow (text : String) (key : String × ℤ)
  | lookupError
  | overflowError
  deriving DecidableEq

/-- What `_validate` checks beyond the schema. -/
def validateLengths (d : Document) : Except CompareError Unit :=
  require (d.teacherForced.all fun row => row.topkTokenIds.length = row.topkLogprobs.length)
    (.correctness "top-k token and logprob lengths differ")

/-- `TOLERANCE + 1e-12` -/
def tolerance : PyFloat := (PyFloat.ofRat (5 / 100)).add (PyFloat.ofRat (1 / 10 ^ 12))

/-- `d > TOLERANCE + 1e-12` -/
def exceeds (d : Number) : Bool := Number.lt (.float tolerance) d

def difference (x y : Number) : Except CompareError Number :=
  match Number.sub? x y with
  | some d => .ok d
  | none => .error .overflowError

/-- `any(abs(actual_probs[token] - value) > TOLERANCE + 1e-12 for token, value in ...)` -/
def anyExceeds (actualProbs : List (ℕ × Number)) : List (ℕ × Number) → Except CompareError Bool
  | [] => .ok false
  | (token, value) :: rest =>
    match actualProbs.lookup token with
    | none => .error .lookupError
    | some x => do
      let d ← difference x value
      if exceeds d.magnitude then .ok true else anyExceeds actualProbs rest

def nearTieGap (expected : TeacherRow) : Except CompareError Number :=
  match expected.topkLogprobs with
  | x :: y :: _ => difference x y
  | _ => .error .lookupError

/-- The comparison of two rows of one key; it tells a swap of the top tokens. -/
def compareTeacher (expected actual : TeacherRow) : Except CompareError Bool := do
  require (actual.prefixTokens = expected.prefixTokens)
    (.teacherRow "teacher-forced prefix mismatch" expected.key)
  require (actual.topkTokenIds.toFinset = expected.topkTokenIds.toFinset)
    (.teacherRow "top-k candidate set mismatch" expected.key)
  let far ← anyExceeds actual.topk expected.topk
  require (!far) (.teacherRow "logprob tolerance exceeded" expected.key)
  if actual.topkTokenIds.head? = expected.topkTokenIds.head? then .ok false
  else do
    let gap ← nearTieGap expected
    require (actual.topkTokenIds.head? = expected.topkTokenIds[1]? && !exceeds gap)
      (.teacherRow "top-1 swap is not the exact near-tie runner-up" expected.key)
    .ok true

def sharedTokens : List ℕ → List ℕ → ℕ
  | left :: lefts, right :: rights => if left = right then sharedTokens lefts rights + 1 else 0
  | _, _ => 0

/-- The comparison of two runs of one key; it tells a divergence. -/
def compareFree (expected actual : FreeRow) : Except CompareError Bool := do
  let diverged : Bool := expected.tokenIds ≠ actual.tokenIds
  require (!(diverged && sharedTokens expected.tokenIds actual.tokenIds == 0))
    (.freeRow "free-generation diverged before a shared prefix" expected.key)
  require (actual.semanticValid && actual.schemaValid)
    (.freeRow "free-generation semantic/schema validation failed" expected.key)
  require (diverged || actual.text = expected.text)
    (.freeRow "free-generation text changed without token divergence" expected.key)
  .ok diverged

section Rows

variable {α κ : Type} [DecidableEq κ] {key : α → κ}

/-- `set(left) == set(right)` -/
def sameKeys (left right : Keyed key) : Bool :=
  (left.items.map key).toFinset = (right.items.map key).toFinset

/-- The loop over the rows of the left dictionary, with the number of rows that tell something. -/
def compareRows (compare : α → α → Except CompareError Bool) (left right : Keyed key) :
    Except CompareError ℕ :=
  left.items.foldlM (fun count expected =>
    match right.find? (key expected) with
    | none => .error .lookupError
    | some actual => do
      let told ← compare expected actual
      .ok (count + told.toNat)) 0

end Rows

/-- `Counter(hashes).most_common(1)[0]`: the first of the most frequent hashes. -/
def mostCommon (hashes : List String) : Option (String × ℕ) :=
  hashes.reverse.dedup.reverse.foldl (fun best hash =>
    match best with
    | some (_, count) => if count < hashes.count hash then some (hash, hashes.count hash) else best
    | none => some (hash, hashes.count hash)) none

structure Report where
  subject : Subject
  positions : ℕ
  allowedTop1Swaps : ℕ
  runs : ℕ
  semanticOnlyAfterDivergence : ℕ
  zeroRuns : ℕ
  modal : Option (String × ℕ)

def teacherRows (d : Document) : Keyed TeacherRow.key := Keyed.ofList d.teacherForced

def freeRows (d : Document) : Keyed FreeRow.key := Keyed.ofList d.freeGeneration

def compareCorrectness (reference candidate : Document) : Except CompareError Report := do
  require (reference.subject = candidate.subject)
    (.correctness "subject mismatch between reference and candidate")
  validateLengths reference
  validateLengths candidate
  require (sameKeys (teacherRows reference) (teacherRows candidate))
    (.correctness "teacher-forced positions do not match")
  let swaps ← compareRows compareTeacher (teacherRows reference) (teacherRows candidate)
  require (sameKeys (freeRows reference) (freeRows candidate))
    (.correctness "free-generation run identities differ")
  let divergent ← compareRows compareFree (freeRows reference) (freeRows candidate)
  .ok {
    subject := candidate.subject
    positions := (teacherRows reference).items.length
    allowedTop1Swaps := swaps
    runs := (freeRows candidate).items.length
    semanticOnlyAfterDivergence := divergent
    zeroRuns := candidate.temperatureZero.length
    modal := mostCommon (candidate.temperatureZero.map ZeroRow.outputSha256) }

end ChampionRuntime.Correctness
