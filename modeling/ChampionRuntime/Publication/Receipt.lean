import ChampionRuntime.Lib.Json
import Mathlib.Data.Fintype.Pi
import Mathlib.Data.Fintype.Basic
import Mathlib.Tactic

/-!
# Attested receipts and the publication status document

The types follow `schemas/receipt.schema.json` and `schemas/status.schema.json`,
which every receipt and status document satisfies before the gate sees it.
Receipt fields that the gate never reads (`schema_version`, `command`,
`evidence` and the remaining metadata) are left out.
-/
namespace ChampionRuntime.Publication

open Lib.Json

/-- The identities a subject may carry; the schemas admit no other key. -/
inductive SubjectKey where
  | sourceReleaseId | buildSubjectId | buildLockId | sourceManifestId | imageDigest
  | modelId | sidecarId | presetId | pinId | tokenizerId | samplingId | runId
  deriving DecidableEq, Repr

namespace SubjectKey

def all : List SubjectKey :=
  [sourceReleaseId, buildSubjectId, buildLockId, sourceManifestId, imageDigest,
    modelId, sidecarId, presetId, pinId, tokenizerId, samplingId, runId]

theorem mem_all (k : SubjectKey) : k ∈ all := by cases k <;> decide

instance : Fintype SubjectKey := ⟨⟨all, by decide⟩, fun k => mem_all k⟩

/-- The key as it is spelled in a receipt. -/
def text : SubjectKey → String
  | sourceReleaseId => "source_release_id"
  | buildSubjectId => "build_subject_id"
  | buildLockId => "build_lock_id"
  | sourceManifestId => "source_manifest_id"
  | imageDigest => "image_digest"
  | modelId => "model_id"
  | sidecarId => "sidecar_id"
  | presetId => "preset_id"
  | pinId => "pin_id"
  | tokenizerId => "tokenizer_id"
  | samplingId => "sampling_id"
  | runId => "run_id"

end SubjectKey

/-- A subject dictionary. Two dictionaries are equal when they agree at every
key, whatever order their entries were inserted in. -/
abbrev Subject := SubjectKey → Option String

namespace Subject

/-- `{key: subject[key] for key in keys}`. -/
def project (keys : List SubjectKey) (subject : Subject) : Subject :=
  fun k => if k ∈ keys then subject k else none

/-- Every entry of `base` is an entry of `candidate`. -/
def covers (candidate base : Subject) : Bool :=
  decide (∀ k, base k ≠ none → candidate k = base k)

theorem covers_iff {candidate base : Subject} :
    candidate.covers base = true ↔ ∀ k v, base k = some v → candidate k = some v := by
  simp only [covers, decide_eq_true_eq]
  constructor
  · intro h k v hk
    rw [h k (by simp [hk]), hk]
  · intro h k hk
    obtain ⟨v, hv⟩ := Option.ne_none_iff_exists'.mp hk
    rw [h k v hv, hv]

theorem project_of_mem {keys : List SubjectKey} {subject : Subject} {k : SubjectKey}
    (h : k ∈ keys) : project keys subject k = subject k := if_pos h

end Subject

inductive Outcome where
  | pass | fail | provisional
  deriving DecidableEq, Repr

inductive RightsStatus where
  | verified | unknown | denied
  deriving DecidableEq, Repr

/-- The metadata fields the gate reads; every one of them is optional. -/
structure Metadata where
  profile : Option String := none
  attempt : Option Number := none
  valid : Option Bool := none
  thresholdsPassed : Option Bool := none
  medianThresholdPassed : Option Bool := none
  normalizedOutputsEqual : Option Bool := none
  rightsStatus : Option RightsStatus := none
  registryLicenseCleared : Option Bool := none
  registryDigest : Option String := none
  deriving DecidableEq, Repr

structure Receipt where
  receiptId : String
  receiptType : String
  createdAt : String
  subject : Subject
  result : Outcome
  metadata : Metadata
  deriving DecidableEq

/-- A receipt authenticated to a trusted workflow identity. -/
structure VerifiedReceipt where
  receipt : Receipt
  repository : String
  workflow : String
  ref : String
  attestedSubjectSha256 : String
  runnerConstraintsSource : String
  deriving DecidableEq

/-- What a caller may hand to the gate: the pool check refuses anything that
is not an authenticated receipt. -/
inductive PoolItem where
  | verified (item : VerifiedReceipt)
  | raw (receipt : Receipt)
  deriving DecidableEq

inductive ClaimStatus where
  | pending | passed | failed | blocked | notApplicable
  deriving DecidableEq, Repr

structure ClaimEntry where
  claim : String
  profile : Option String
  status : ClaimStatus
  subject : Subject
  receiptIds : List String
  reason : Option String
  deriving DecidableEq

structure Status where
  schemaVersion : String
  updatedAt : String
  claims : List ClaimEntry
  deriving DecidableEq

end ChampionRuntime.Publication
