import ChampionRuntime.Lib.Binary64
import ChampionRuntime.Lib.Numbering
import ChampionRuntime.Lib.Outcome
import ChampionRuntime.Publication.Receipt
import Mathlib.Data.Prod.Lex
import Mathlib.Data.String.Basic

/-!
# The battery evaluator

`scripts/evaluate_battery.py`: the attempts of one benchmark are listed by
creation time, have to be numbered from one without a gap, and the first
required valid ones are measured against the floors of the baselines.
-/
namespace ChampionRuntime.Benchmark

open Lib Lib.Json Publication

/-- The fields of an attempt record the evaluator reads. -/
structure AttemptRecord where
  createdAt : Option String := none
  attempt : Option ℤ := none
  baselinesSha256 : Option String := none
  subject : Option Subject := none
  profile : Option String := none
  rawSha256 : Option String := none
  valid : Option Bool := none
  invalidation : Option String := none
  completed : Option Bool := none
  metrics : List (String × Value) := []

structure Limits where
  individualFloor : Number
  medianFloor : Number
  deriving DecidableEq, Repr

structure Baselines where
  maxAttempts : ℕ
  requiredValidBatteries : ℕ
  profiles : List (String × List (String × Limits))
  deriving DecidableEq, Repr

def invalidations : List String :=
  ["idle-preflight", "foreign-traffic", "unexpected-api-connection", "runtime-health-failure",
    "gpu-clock-cap-changed", "client-failure-before-acceptance"]

/-- The exceptions the evaluator does not raise itself. -/
inductive Uncaught where
  | attributeError | keyError (profile : Option String) | overflowError | statisticsError
  deriving DecidableEq, Repr

inductive BatteryError where
  | attemptCount (maximum : ℕ)
  | notChronological
  | baselinesHash
  | attemptSubject
  | attemptProfile
  | pinIdentity
  | rawHash
  | validInvalidated
  | validIncomplete
  | unknownInvalidation
  | exhausted
  | missingMetric (metric : String)
  | individualThreshold (metric : String)
  | medianThreshold (metric : String)
  | uncaught (exception : Uncaught)
  deriving DecidableEq, Repr

/-- The text of the raised error; the evaluator gives none to an uncaught one. -/
def BatteryError.message : BatteryError → Option String
  | attemptCount maximum =>
    some ("battery requires one through " ++ toString maximum ++ " attempts")
  | notChronological => some "attempts must be complete and chronological from one"
  | baselinesHash => some "baselines hash mismatch"
  | attemptSubject => some "attempt subject mismatch"
  | attemptProfile => some "profile mismatch"
  | pinIdentity => some "Fast battery requires the authenticated pin identity"
  | rawHash => some "raw attempt hash is required"
  | validInvalidated => some "valid attempt cannot have an invalidation"
  | validIncomplete => some "valid attempt must be complete"
  | unknownInvalidation => some "unknown invalidation class"
  | exhausted => some "fewer than three valid batteries after five attempts"
  | missingMetric metric => some ("missing numeric metric " ++ metric)
  | individualThreshold metric => some ("individual threshold failed for " ++ metric)
  | medianThreshold metric => some ("median threshold failed for " ++ metric)
  | uncaught _ => none

/-- The two documents the evaluator returns, both with the result `PROVISIONAL`. -/
inductive Evaluation where
  | incomplete (validAttempts : ℕ) (rawSha256 : List String) (subject : Option Subject)
  | complete (profile : String) (subject : Option Subject) (baselinesSha256 : String)
      (selectedAttempts : List (Option ℤ)) (rawSha256 : List String)
      (medians : List (String × PyFloat))

/-- `item.get("created_at", "")`. -/
def recordTime (item : AttemptRecord) : String := item.createdAt.getD ""

/-- `item.get("attempt", 0)`. -/
def recordNumber (item : AttemptRecord) : ℤ := item.attempt.getD 0

def sortKey (item : AttemptRecord) : String ×ₗ ℤ := toLex (recordTime item, recordNumber item)

def chronological (attempts : List AttemptRecord) : List AttemptRecord :=
  attempts.insertionSort fun a b => sortKey a ≤ sortKey b

def rawHash (item : AttemptRecord) : Except BatteryError String :=
  match item.rawSha256 with
  | some raw => if raw.length = 64 then .ok raw else .error .rawHash
  | none => .error .rawHash

def checkValidity (item : AttemptRecord) : Except BatteryError Unit :=
  if item.valid = some true then do
    require item.invalidation.isNone .validInvalidated
    require (item.completed == some true) .validIncomplete
  else
    require (item.invalidation.any invalidations.contains) .unknownInvalidation

/-- The hash of one attempt, after the checks on its validity. -/
def checkAttempt (item : AttemptRecord) : Except BatteryError String := do
  let raw ← rawHash item
  checkValidity item
  pure raw

/-- `isinstance(value, (int, float))`, which a Boolean passes as well. -/
def numericMetric : Option Value → Option Number
  | some (.num n) => some n
  | some (.bool b) => some (.int (if b then 1 else 0))
  | _ => none

def measured (metric : String) (floor : Number) (item : AttemptRecord) :
    Except BatteryError PyFloat :=
  match numericMetric (item.metrics.lookup metric) with
  | none => .error (.missingMetric metric)
  | some value =>
    if value.lt floor then .error (.individualThreshold metric)
    else
      match value.toFloat? with
      | some x => .ok x
      | none => .error (.uncaught .overflowError)

def metricMedian (selected : List AttemptRecord) (entry : String × Limits) :
    Except BatteryError (String × PyFloat) := do
  let (metric, limits) := entry
  let values ← selected.mapM (measured metric limits.individualFloor)
  match PyFloat.median values with
  | none => .error (.uncaught .statisticsError)
  | some median =>
    if Number.lt (.float median) limits.medianFloor then .error (.medianThreshold metric)
    else .ok (metric, median)

/-- A dictionary's field that must be there and not empty; a missing dictionary
has no fields to ask for. -/
def hasPin : Option Subject → Except BatteryError Unit
  | none => .error (.uncaught .attributeError)
  | some subject =>
    require (match subject .pinId with
      | some pin => pin ≠ ""
      | none => false) .pinIdentity

def isValid (item : AttemptRecord) : Bool := item.valid == some true

/-- The identities every attempt of one evaluation shares. -/
def checkShared (first : AttemptRecord) (ordered : List AttemptRecord)
    (expectedBaselineHash : String) : Except BatteryError Unit := do
  require (ordered.all fun item => item.baselinesSha256 == some expectedBaselineHash)
    .baselinesHash
  require (ordered.all fun item => decide (item.subject = first.subject)) .attemptSubject
  require (ordered.all fun item => item.profile == first.profile) .attemptProfile
  if first.profile = some "fast-320k" then hasPin first.subject

/-- The evaluation of attempts that are numbered in chronological order. -/
def evaluateOrdered (first : AttemptRecord) (ordered : List AttemptRecord)
    (baselines : Baselines) (expectedBaselineHash : String) :
    Except BatteryError Evaluation := do
  checkShared first ordered expectedBaselineHash
  let rawHashes ← ordered.mapM checkAttempt
  let selected := (ordered.filter isValid).take baselines.requiredValidBatteries
  if selected.length < baselines.requiredValidBatteries then
    if ordered.length = baselines.maxAttempts then .error .exhausted
    else .ok (.incomplete selected.length rawHashes first.subject)
  else
    match first.profile.bind fun name => (baselines.profiles.lookup name).map (name, ·) with
    | none => .error (.uncaught (.keyError first.profile))
    | some (profile, metricPolicy) =>
      let medians ← metricPolicy.mapM (metricMedian selected)
      pure (.complete profile first.subject expectedBaselineHash (selected.map (·.attempt))
        rawHashes medians)

def evaluateAttempts (attempts : List AttemptRecord) (baselines : Baselines)
    (expectedBaselineHash : String) : Except BatteryError Evaluation :=
  if attempts.length > baselines.maxAttempts then .error (.attemptCount baselines.maxAttempts)
  else
    let ordered := chronological attempts
    match ordered with
    | [] => .error (.attemptCount baselines.maxAttempts)
    | first :: _ =>
      if ordered.map (·.attempt) = (oneTo ordered.length).map some then
        evaluateOrdered first ordered baselines expectedBaselineHash
      else .error .notChronological

section Order

theorem perm_chronological (attempts : List AttemptRecord) :
    (chronological attempts).Perm attempts := List.perm_insertionSort _ _

theorem pairwise_chronological (attempts : List AttemptRecord) :
    (chronological attempts).Pairwise (ListedBefore recordTime recordNumber) := by
  refine (List.pairwise_insertionSort (fun a b => sortKey a ≤ sortKey b) attempts).imp ?_
  intro a b h
  exact Prod.Lex.le_iff.mp h

theorem evaluateAttempts_eq {attempts : List AttemptRecord} (hne : attempts ≠ [])
    (baselines : Baselines) (hcount : attempts.length ≤ baselines.maxAttempts) (hash : String) :
    ∃ first ∈ attempts, evaluateAttempts attempts baselines hash =
      if (chronological attempts).map (·.attempt) = (oneTo attempts.length).map some then
        evaluateOrdered first (chronological attempts) baselines hash
      else .error .notChronological := by
  have hlen := (perm_chronological attempts).length_eq
  have hpos : 0 < (chronological attempts).length := hlen ▸ List.length_pos_iff.mpr hne
  unfold evaluateAttempts
  rw [if_neg (by omega)]
  simp only
  split
  · rename_i h
    simp [h] at hpos
  · rename_i first _ h
    rw [hlen]
    exact ⟨first, (perm_chronological attempts).mem_iff.mp (by simp [h]), rfl⟩

end Order

section Completion

/-- What the evaluator asks of the records themselves, whatever their numbers:
the identities they share, the checks of every record and the floors of the
valid ones. -/
structure RecordsPass (records : List AttemptRecord) (baselines : Baselines) (hash : String) :
    Prop where
  baselinesHash : ∀ record ∈ records, record.baselinesSha256 = some hash
  pinned : ∀ record ∈ records, record.profile = some "fast-320k" →
    hasPin record.subject = .ok ()
  wellFormed : ∀ record ∈ records, ∃ raw, checkAttempt record = .ok raw
  floors : ∀ record ∈ records, ∃ name policy, record.profile = some name ∧
    baselines.profiles.lookup name = some policy ∧
    ∀ entry ∈ policy, ∃ median,
      metricMedian ((chronological records).filter isValid) entry = .ok median

theorem checkShared_eq_ok {first : AttemptRecord} {ordered : List AttemptRecord} {hash : String} :
    checkShared first ordered hash = .ok () ↔
      (∀ item ∈ ordered, item.baselinesSha256 = some hash) ∧
        (∀ item ∈ ordered, item.subject = first.subject) ∧
        (∀ item ∈ ordered, item.profile = first.profile) ∧
        (first.profile = some "fast-320k" → hasPin first.subject = .ok ()) := by
  simp only [checkShared, bind_eq_ok, require_eq_ok, List.all_eq_true, beq_iff_eq,
    decide_eq_true_eq, exists_and_left, exists_const]
  split
  · rename_i hfast
    simp [hfast]
  · rename_i hfast
    simp [hfast]

section

variable {first : AttemptRecord} {records : List AttemptRecord} {baselines : Baselines}
  {hash : String}

/-- With exactly the required number of valid attempts, all of them are selected. -/
theorem evaluateOrdered_of_enough (hvalid : ((chronological records).filter isValid).length =
    baselines.requiredValidBatteries) {result : Evaluation}
    (h : evaluateOrdered first (chronological records) baselines hash = .ok result) :
    ∃ profile subject baselinesSha256 rawSha256 medians,
      result = .complete profile subject baselinesSha256
        (((chronological records).filter isValid).map (·.attempt)) rawSha256 medians := by
  have henough : ¬ ((chronological records).filter isValid).length <
      baselines.requiredValidBatteries := by omega
  simp only [evaluateOrdered, List.take_of_length_le hvalid.le, if_neg henough] at h
  obtain ⟨_, -, h⟩ := bind_eq_ok.mp h
  obtain ⟨rawHashes, -, h⟩ := bind_eq_ok.mp h
  split at h
  · cases h
  · rename_i profile _ _
    obtain ⟨medians, -, h⟩ := bind_eq_ok.mp h
    exact ⟨profile, _, _, rawHashes, medians, (pure_eq_ok.mp h).symm⟩

/-- Then the evaluation completes exactly when the records share one subject and
one profile and pass the checks made of them. -/
theorem evaluateOrdered_ok_iff (hfirst : first ∈ records)
    (hvalid : ((chronological records).filter isValid).length =
      baselines.requiredValidBatteries) (hash : String) :
    (∃ result, evaluateOrdered first (chronological records) baselines hash = .ok result) ↔
      (∀ record ∈ records, record.subject = first.subject) ∧
        (∀ record ∈ records, record.profile = first.profile) ∧
        RecordsPass records baselines hash := by
  have henough : ¬ ((chronological records).filter isValid).length <
      baselines.requiredValidBatteries := by omega
  have hmem : ∀ record, record ∈ chronological records ↔ record ∈ records := fun _ =>
    (perm_chronological records).mem_iff
  simp only [evaluateOrdered, List.take_of_length_le hvalid.le, if_neg henough]
  constructor
  · rintro ⟨result, h⟩
    obtain ⟨⟨⟩, hshared, h⟩ := bind_eq_ok.mp h
    obtain ⟨rawHashes, hraw, h⟩ := bind_eq_ok.mp h
    obtain ⟨hbaselines, hsubject, hprofile, hpin⟩ := checkShared_eq_ok.mp hshared
    have hprofile' : ∀ record ∈ records, record.profile = first.profile := fun record hr =>
      hprofile record ((hmem record).mpr hr)
    have hsubject' : ∀ record ∈ records, record.subject = first.subject := fun record hr =>
      hsubject record ((hmem record).mpr hr)
    split at h
    · cases h
    rename_i name policy hlookup
    obtain ⟨medians, hmedians, -⟩ := bind_eq_ok.mp h
    obtain ⟨name', hname, hpolicy⟩ := Option.bind_eq_some_iff.mp hlookup
    obtain ⟨policy', hpolicy, heq⟩ := Option.map_eq_some_iff.mp hpolicy
    cases heq
    refine ⟨hsubject', hprofile', ?_⟩
    refine ⟨fun record hr => hbaselines record ((hmem record).mpr hr), fun record hr hfast => ?_,
      fun record hr => ?_, fun record hr => ⟨name, policy, ?_, hpolicy, fun entry he => ?_⟩⟩
    · rw [hsubject' record hr]
      exact hpin ((hprofile' record hr).symm.trans hfast)
    · obtain ⟨raw, -, hchecked⟩ := mem_of_mapM_eq_ok hraw ((hmem record).mpr hr)
      exact ⟨raw, hchecked⟩
    · rw [hprofile' record hr, hname]
    · obtain ⟨median, -, hmedian⟩ := mem_of_mapM_eq_ok hmedians he
      exact ⟨median, hmedian⟩
  · rintro ⟨hsubject, hprofile, hpass⟩
    obtain ⟨name, policy, hname, hpolicy, hentries⟩ := hpass.floors first hfirst
    have hshared : checkShared first (chronological records) hash = .ok () :=
      checkShared_eq_ok.mpr ⟨fun record hr => hpass.baselinesHash record ((hmem record).mp hr),
        fun record hr => hsubject record ((hmem record).mp hr),
        fun record hr => hprofile record ((hmem record).mp hr), hpass.pinned first hfirst⟩
    obtain ⟨rawHashes, hraw⟩ := exists_mapM_eq_ok fun record hr =>
      hpass.wellFormed record ((hmem record).mp hr)
    obtain ⟨medians, hmedians⟩ := exists_mapM_eq_ok hentries
    simp only [hshared, hraw, ok_bind, hname, Option.bind_some, hpolicy, Option.map_some,
      hmedians, pure_eq_ok, exists_eq']

end

end Completion

end ChampionRuntime.Benchmark
