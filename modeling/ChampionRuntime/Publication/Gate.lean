import ChampionRuntime.Lib.Outcome
import ChampionRuntime.Publication.Receipt
import Mathlib.Data.List.Dedup
import Mathlib.Data.List.Sort

/-!
# The publication gate

`scripts/gate_status.py`: a claim is derived from a pool of attested receipts,
and `promote` writes the derived subject and the cited receipt identifiers into
one entry of the status document, after deriving again every entry that is
already passed from the receipts it cites.
-/
namespace ChampionRuntime.Publication

open Lib Lib.Json

def profiles : List String := ["fast-320k", "balanced-650k", "large-1m"]

def sourceTypes : List String :=
  ["source-closure", "provenance-license", "source-component-license", "source-secret-scan",
    "large-file-scan"]

def buildTypes : List String :=
  ["build-produced", "verify-image", "sbom", "container-license", "image-secret-scan"]

def liveTypes : List String := ["launch", "verify-runtime", "correctness", "stability"]

def licenseTypes : List String := ["checkpoint-license", "sidecar-license"]

def sourceKeys : List SubjectKey := [.sourceReleaseId]

/-- `BUILD_KEYS[:-1]`, the identities two builds of one source share. -/
def stableKeys : List SubjectKey :=
  [.sourceReleaseId, .buildSubjectId, .buildLockId, .sourceManifestId]

def buildKeys : List SubjectKey := stableKeys ++ [.imageDigest]

def liveKeys : List SubjectKey := buildKeys ++ [.modelId, .sidecarId, .presetId, .runId]

inductive GateError where
  | notAttested
  | duplicateReceipt
  | expectedOne (receiptType : String) (found : ℕ)
  | didNotPass (receiptType : String)
  | emptyChain
  | missingIdentities (missing : List SubjectKey)
  | subjectMismatch
  | unknownRights
  | licenseSubjectMissing (key : SubjectKey)
  | cleanBuildSourceMismatch
  | unknownProfile (profile : String)
  | expectedOnePassing (profile kind : String)
  | liveBuildMismatch
  | liveModelMismatch
  | batterySubjectMismatch
  | tooManyAttempts
  | attemptNumber
  | duplicateAttempt
  | validAttempts (found : ℕ)
  | thresholdFailed
  | medianThresholdFailed
  | suiteSubjectMismatch
  | notBitReproducible
  | twoBuildOutputs
  | buildLacks (digest kind : String)
  | bitSourceMismatch
  | bitBuildMismatch
  | comparisonSubjectMismatch
  | anonymousSubjectMismatch
  | registryClearanceAbsent
  | registryPublicationMismatch
  | registryDigestMismatch
  | registryReadbackMismatch
  | unknownClaim (claim : String)
  | missingEvidence
  | unsupportedPassed (cause : GateError)
  | stalePassed
  | claimEntry (claim : String) (profile : Option String)
  deriving DecidableEq, Repr

/-- `repr` of a text without quotes or escapes, as all identifiers here are. -/
def quoted (s : String) : String := "'" ++ s ++ "'"

def GateError.message : GateError → String
  | notAttested => "every receipt must be attested and issuer-verified"
  | duplicateReceipt => "duplicate attested receipt"
  | expectedOne receiptType found =>
    "expected exactly one " ++ receiptType ++ " receipt, found " ++ toString found
  | didNotPass receiptType => receiptType ++ " did not pass"
  | emptyChain => "receipt chain is empty"
  | missingIdentities missing =>
    "receipt subject is missing identities: [" ++
      ", ".intercalate (missing.map fun k => quoted k.text) ++ "]"
  | subjectMismatch => "receipt subject mismatch across evidence chain"
  | unknownRights => "model or sidecar has unknown rights"
  | licenseSubjectMissing key => "license receipt subject is missing " ++ key.text
  | cleanBuildSourceMismatch => "clean-build source subject mismatch"
  | unknownProfile profile => "unknown profile: " ++ profile
  | expectedOnePassing profile kind =>
    "expected one passing " ++ profile ++ " " ++ kind ++ " receipt"
  | liveBuildMismatch => "live-launch build subject mismatch"
  | liveModelMismatch => "live-launch model subject mismatch"
  | batterySubjectMismatch => "battery subject mismatch with live-launch chain"
  | tooManyAttempts => "benchmark exceeds five attempts"
  | attemptNumber => "battery attempt number must be an integer from one through five"
  | duplicateAttempt => "duplicate benchmark attempt"
  | validAttempts found =>
    "benchmark requires exactly three valid attempts; found " ++ toString found
  | thresholdFailed => "valid battery failed an individual threshold"
  | medianThresholdFailed => "battery median threshold did not pass"
  | suiteSubjectMismatch => "three-profile suite subject mismatch"
  | notBitReproducible => "builds are source-equivalent only; bit reproducibility did not pass"
  | twoBuildOutputs => "bit reproducibility requires two distinct build outputs"
  | buildLacks digest kind =>
    "build " ++ digest ++ " lacks one passing " ++ kind ++ " receipt"
  | bitSourceMismatch => "bit reproducibility source subject mismatch"
  | bitBuildMismatch => "bit reproducibility build subject mismatch"
  | comparisonSubjectMismatch => "build comparison subject mismatch"
  | anonymousSubjectMismatch => "anonymous readback subject mismatch"
  | registryClearanceAbsent => "registry license clearance is absent"
  | registryPublicationMismatch => "registry publication subject mismatch"
  | registryDigestMismatch => "registry digest is absent or does not match image subject"
  | registryReadbackMismatch => "registry readback subject mismatch"
  | unknownClaim claim => "unknown claim: " ++ claim
  | missingEvidence => "manually edited or stale passed status references missing evidence"
  | unsupportedPassed cause => "manually edited or unsupported passed status: " ++ cause.message
  | stalePassed => "manually edited or stale passed status"
  | claimEntry claim profile =>
    "status must contain exactly one claim entry for (" ++ quoted claim ++ ", " ++
      (profile.map quoted).getD "None" ++ ")"

/-- A derived claim: its subject and the identifiers of the cited receipts. -/
abbrev Derivation := Except GateError (Subject × List String)

abbrev Pool := List VerifiedReceipt

def ids (items : Pool) : List String := items.map fun item => item.receipt.receiptId

/-- `_pool`. -/
def poolOf (receipts : List PoolItem) : Except GateError Pool := do
  let pool ← receipts.mapM fun
    | .verified item => .ok item
    | .raw _ => .error .notAttested
  require (decide (ids pool).Nodup) .duplicateReceipt
  pure pool

def hasType (receiptType : String) (item : VerifiedReceipt) : Bool :=
  item.receipt.receiptType == receiptType

def ofType (pool : Pool) (receiptType : String) : Pool := pool.filter (hasType receiptType)

/-- `_profile`. -/
def hasProfile (profile : String) (item : VerifiedReceipt) : Bool :=
  item.receipt.metadata.profile == some profile

def onlyPass (found : Pool) (miscounted : ℕ → GateError) (failed : GateError) :
    Except GateError VerifiedReceipt :=
  match found with
  | [item] => if item.receipt.result = .pass then .ok item else .error failed
  | _ => .error (miscounted found.length)

def onePass (pool : Pool) (receiptType : String) : Except GateError VerifiedReceipt :=
  onlyPass (ofType pool receiptType) (.expectedOne receiptType) (.didNotPass receiptType)

/-- `_common_subject`: the projection of the first subject, which every further
receipt of the chain has to repeat. -/
def commonSubject (items : Pool) (keys : List SubjectKey) : Except GateError Subject :=
  match items with
  | [] => .error .emptyChain
  | first :: rest => do
    let missing := keys.filter fun k => (first.receipt.subject k).isNone
    require missing.isEmpty (.missingIdentities missing)
    let subject := Subject.project keys first.receipt.subject
    require (rest.all fun item => item.receipt.subject.covers subject) .subjectMismatch
    pure subject

def deriveSource (pool : Pool) : Derivation := do
  let items ← sourceTypes.mapM (onePass pool)
  let subject ← commonSubject items sourceKeys
  pure (subject, ids items)

def licensedIdentity (item : VerifiedReceipt) (key : SubjectKey) : Except GateError String :=
  match item.receipt.subject key with
  | some value => .ok value
  | none => .error (.licenseSubjectMissing key)

def modelSubject (model sidecar : String) : Subject
  | .modelId => some model
  | .sidecarId => some sidecar
  | _ => none

def deriveModel (pool : Pool) : Derivation := do
  let checkpoint ← onePass pool "checkpoint-license"
  let sidecar ← onePass pool "sidecar-license"
  require ([checkpoint, sidecar].all fun item =>
    item.receipt.metadata.rightsStatus == some .verified) .unknownRights
  let modelId ← licensedIdentity checkpoint .modelId
  let sidecarId ← licensedIdentity sidecar .sidecarId
  pure (modelSubject modelId sidecarId, ids [checkpoint, sidecar])

def deriveClean (pool : Pool) : Derivation := do
  let (source, sourceIds) ← deriveSource pool
  let items ← buildTypes.mapM (onePass pool)
  let subject ← commonSubject items buildKeys
  require (subject .sourceReleaseId == source .sourceReleaseId) .cleanBuildSourceMismatch
  pure (subject, sourceIds ++ ids items)

def liveKinds (profile : String) : List String :=
  liveTypes ++ if profile = "fast-320k" then ["pin-state"] else []

def liveSubjectKeys (profile : String) : List SubjectKey :=
  liveKeys ++ if profile = "fast-320k" then [.pinId] else []

/-- The passing receipt of one kind among those of the profile. -/
def profilePass (pool : Pool) (profile kind : String) : Except GateError VerifiedReceipt :=
  onlyPass ((ofType pool kind).filter (hasProfile profile))
    (fun _ => .expectedOnePassing profile kind) (.expectedOnePassing profile kind)

def deriveLive (pool : Pool) (profile : String) : Derivation := do
  require (profiles.contains profile) (.unknownProfile profile)
  let (clean, cleanIds) ← deriveClean pool
  let (model, modelIds) ← deriveModel pool
  let items ← (liveKinds profile).mapM (profilePass pool profile)
  let subject ← commonSubject items (liveSubjectKeys profile)
  require (subject.covers clean) .liveBuildMismatch
  require (subject.covers model) .liveModelMismatch
  pure (subject, cleanIds ++ modelIds ++ ids items)

/-- `isinstance(number, int) and 1 <= number <= 5`; an integral float is refused. -/
def attemptInRange : Option Number → Bool
  | some (.int n) => decide (1 ≤ n ∧ n ≤ 5)
  | _ => false

def isValidAttempt (item : VerifiedReceipt) : Bool := item.receipt.metadata.valid == some true

def checkThresholds (item : VerifiedReceipt) : Except GateError Unit := do
  require (item.receipt.result == .pass && item.receipt.metadata.thresholdsPassed == some true)
    .thresholdFailed
  require (item.receipt.metadata.medianThresholdPassed == some true) .medianThresholdFailed

def profileAttempts (pool : Pool) (profile : String) : Pool :=
  (ofType pool "battery").filter (hasProfile profile)

def deriveBenchmark (pool : Pool) (profile : String) : Derivation := do
  let (live, liveIds) ← deriveLive pool profile
  let attempts := profileAttempts pool profile
  require (attempts.all fun item => item.receipt.subject.covers live) .batterySubjectMismatch
  require (decide (attempts.length ≤ 5)) .tooManyAttempts
  let numbers := attempts.map fun item => item.receipt.metadata.attempt
  require (numbers.all attemptInRange) .attemptNumber
  require (decide numbers.Nodup) .duplicateAttempt
  let valid := attempts.filter isValidAttempt
  require (valid.length == 3) (.validAttempts valid.length)
  let _ ← valid.mapM checkThresholds
  pure (live, liveIds ++ ids attempts)

def suiteKeys : List SubjectKey := buildKeys ++ [.modelId, .sidecarId]

/-- The three-profile suite: one benchmark per profile, sharing everything that
does not belong to one preset or run. -/
def deriveSuite (pool : Pool) : Derivation := do
  let results ← profiles.mapM (deriveBenchmark pool)
  let shared := Subject.project suiteKeys ((results.head?.map Prod.fst).getD fun _ => none)
  require (results.tail.all fun result => result.1.covers shared) .suiteSubjectMismatch
  pure (shared, results.flatMap Prod.snd)

/-- `sorted(digests)` over the distinct image digests of the produced builds. -/
def comparedDigests (pool : Pool) : Except GateError (List String) := do
  let digests := ((ofType pool "build-produced").map fun item =>
    item.receipt.subject .imageDigest).dedup
  require (digests.length == 2 && !digests.contains none) .twoBuildOutputs
  pure (digests.reduceOption.insertionSort (· ≤ ·))

def hasDigest (digest : String) (item : VerifiedReceipt) : Bool :=
  item.receipt.subject .imageDigest == some digest

/-- The build chain of one of the compared images. -/
def buildChain (pool : Pool) (source : Subject) (digest : String) :
    Except GateError (Subject × Pool) := do
  let items ← buildTypes.mapM fun kind =>
    onlyPass ((ofType pool kind).filter (hasDigest digest))
      (fun _ => .buildLacks digest kind) (.buildLacks digest kind)
  let subject ← commonSubject items buildKeys
  require (subject .sourceReleaseId == source .sourceReleaseId) .bitSourceMismatch
  pure (subject, items)

def deriveBitReproducible (pool : Pool) : Derivation := do
  let comparison ← onePass pool "build-comparison"
  require (comparison.receipt.metadata.normalizedOutputsEqual == some true) .notBitReproducible
  let (source, sourceIds) ← deriveSource pool
  let digests ← comparedDigests pool
  let chains ← digests.mapM (buildChain pool source)
  let stable := Subject.project stableKeys ((chains.head?.map Prod.fst).getD fun _ => none)
  require (chains.tail.all fun chain => chain.1.covers stable) .bitBuildMismatch
  require (comparison.receipt.subject.covers stable) .comparisonSubjectMismatch
  pure (stable, sourceIds ++ ids (chains.flatMap Prod.snd) ++ ids [comparison])

def anonymousTypes : List String :=
  ["anonymous-configure", "anonymous-build", "anonymous-verify", "anonymous-live-fast"]

def deriveAnonymous (pool : Pool) : Derivation := do
  let (live, liveIds) ← deriveLive pool "fast-320k"
  let items ← anonymousTypes.mapM (onePass pool)
  let subject ← commonSubject items buildKeys
  require (buildKeys.all fun k => subject k == live k) .anonymousSubjectMismatch
  pure (subject, liveIds ++ ids items)

def derivePublished (pool : Pool) : Derivation := do
  let (clean, cleanIds) ← deriveClean pool
  let license ← onePass pool "registry-license"
  let publication ← onePass pool "registry-publish"
  require (license.receipt.metadata.registryLicenseCleared == some true) .registryClearanceAbsent
  let subject ← commonSubject [license, publication] buildKeys
  require (decide (subject = clean)) .registryPublicationMismatch
  require ([license, publication].all fun item =>
    item.receipt.metadata.registryDigest == subject .imageDigest) .registryDigestMismatch
  pure (subject, cleanIds ++ ids [license, publication])

def deriveReadback (pool : Pool) : Derivation := do
  let (published, publishedIds) ← derivePublished pool
  let readback ← onePass pool "registry-readback"
  let subject ← commonSubject [readback] buildKeys
  require (decide (subject = published)) .registryReadbackMismatch
  pure (subject, publishedIds ++ ids [readback])

inductive ClaimName where
  | sourceComplete | modelLicense | cleanBuild | liveLaunch | benchmarkReproduced
  | threeProfileSuite | bitReproducible | anonymousReadback | convenienceImagePublished
  | convenienceImageReadback
  deriving DecidableEq, Repr

def ClaimName.ofText? (claim : String) : Option ClaimName :=
  if claim = "source-complete" then some .sourceComplete
  else if claim = "model-license" then some .modelLicense
  else if claim = "clean-build" then some .cleanBuild
  else if claim = "live-launch" then some .liveLaunch
  else if claim = "benchmark-reproduced" then some .benchmarkReproduced
  else if claim = "three-profile-suite" then some .threeProfileSuite
  else if claim = "bit-reproducible" then some .bitReproducible
  else if claim = "anonymous-readback" then some .anonymousReadback
  else if claim = "convenience-image-published" then some .convenienceImagePublished
  else if claim = "convenience-image-readback" then some .convenienceImageReadback
  else none

def deriveClaim (claim : ClaimName) (pool : Pool) (profile : Option String) : Derivation :=
  match claim with
  | .sourceComplete => deriveSource pool
  | .modelLicense => deriveModel pool
  | .cleanBuild => deriveClean pool
  | .liveLaunch => deriveLive pool (profile.getD "")
  | .benchmarkReproduced => deriveBenchmark pool (profile.getD "")
  | .threeProfileSuite => deriveSuite pool
  | .bitReproducible => deriveBitReproducible pool
  | .anonymousReadback => deriveAnonymous pool
  | .convenienceImagePublished => derivePublished pool
  | .convenienceImageReadback => deriveReadback pool

def derive (claim : String) (pool : Pool) (profile : Option String) : Derivation :=
  match ClaimName.ofText? claim with
  | some name => deriveClaim name pool profile
  | none => .error (.unknownClaim claim)

/-- The two lists have the same elements, as `set(a) == set(b)` decides. -/
def sameElements (a b : List String) : Bool := a.all b.contains && b.all a.contains

/-- The receipts of the pool whose identifier is listed. -/
def citedBy (receiptIds : List String) (pool : Pool) : Pool :=
  pool.filter fun item => receiptIds.contains item.receipt.receiptId

/-- The re-derivation of one passed entry from the receipts it cites. -/
def recheck (pool : Pool) (existing : ClaimEntry) : Except GateError Unit :=
  let existingPool := citedBy existing.receiptIds pool
  if sameElements (ids existingPool) existing.receiptIds then
    match derive existing.claim existingPool existing.profile with
    | .error cause => .error (.unsupportedPassed cause)
    | .ok (subject, cited) =>
      require (decide (existing.subject = subject) && sameElements existing.receiptIds cited)
        .stalePassed
  else .error .missingEvidence

def claimKey (item : ClaimEntry) : String × Option String := (item.claim, item.profile)

/-- `target.update(...)` followed by dropping the reason; `dict.fromkeys` keeps
the first occurrence of each identifier. -/
def passedEntry (item : ClaimEntry) (subject : Subject) (cited : List String) : ClaimEntry :=
  { item with status := .passed, subject := subject, receiptIds := cited.eraseDups, reason := none }

/-- `now or datetime.now(...)`. -/
def stamp (now : Option String) (clock : String) : String :=
  match now with
  | some text => if text = "" then clock else text
  | none => clock

/-- The entry of the promoted claim is rewritten, every other entry is kept. -/
def setEntry (status : Status) (wanted : String × Option String) (subject : Subject)
    (cited : List String) (updatedAt : String) : Status :=
  { status with
    updatedAt := updatedAt
    claims := status.claims.map fun item =>
      if claimKey item = wanted then passedEntry item subject cited else item }

def promote (status : Status) (claim : String) (receipts : List PoolItem)
    (profile : Option String) (now : Option String) (clock : String) :
    Except GateError Status := do
  let pool ← poolOf receipts
  let _ ← (status.claims.filter fun item => item.status == .passed).mapM (recheck pool)
  let (subject, cited) ← derive claim pool profile
  let found := status.claims.filter fun item => claimKey item = (claim, profile)
  require (found.length == 1) (.claimEntry claim profile)
  pure (setEntry status (claim, profile) subject cited (stamp now clock))

end ChampionRuntime.Publication
