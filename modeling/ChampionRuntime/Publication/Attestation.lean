import ChampionRuntime.Lib.Glob
import ChampionRuntime.Receipts.Contract
import ChampionRuntime.Receipts.SourceTree

/-!
# Attestation of receipts

`scripts/verify_attestation.py`: what the GitHub verifier printed is reduced to a
small claim set, which is compared with the issuer policy, the receipt bytes and
the evidence files. The verifier's output is a JSON value, as the script receives
it from its `verifier` argument.
-/
namespace ChampionRuntime.Publication.Attestation

open Lib Lib.Json Lib.PyText Receipts

/-- The fields of `publication/trusted-issuers.json` that the script reads. -/
structure Policy where
  repository : String
  workflow : String
  issuer : String
  refs : List String
  /-- `runner_policy.cryptographically_proven_by_dsse` -/
  dsseProof : Value
  /-- `runner_policy.enforcement` -/
  enforcement : String

/-- The files below the evidence root, links followed as `is_file` follows them. -/
structure EvidenceRoot where
  isFile : Path → Bool
  isSymlink : Path → Bool
  read : Path → Bytes

inductive AttestationError where
  | unsafePath (value : String)
  | missingEvidence (value : String)
  | noSubject
  | malformedIdentity
  | missingClaims
  | missingOutput
  | missingFields (missing : List String)
  | notVerified
  | noEnvelope
  | digestMismatch
  | untrusted (field : String)
  | untrustedRef
  /-- a `TypeError` of `fnmatchcase`, which the script does not catch -/
  | refNotText
  | contract (cause : ContractError)
  /-- a `KeyError` of the evidence loop, which the schema excludes -/
  | evidenceShape
  | evidenceMismatch (value : String)
  | runnerPolicy
  deriving DecidableEq, Repr

def AttestationError.message : AttestationError → String
  | unsafePath value => "unsafe evidence path: " ++ value
  | missingEvidence value => "missing evidence file: " ++ value
  | noSubject => "verified statement lacks one SHA-256 subject"
  | malformedIdentity => "certificate workflow identity is malformed"
  | missingClaims => "GitHub verifier output is missing required claims"
  | missingOutput => "missing verifier output"
  | missingFields missing => "verifier output missing authenticated fields: " ++ listText missing
  | notVerified => "attestation is not verified"
  | noEnvelope => "DSSE envelope is missing"
  | digestMismatch => "attested subject digest does not match receipt bytes"
  | untrusted field => "untrusted " ++ field
  | untrustedRef => "untrusted ref"
  | refNotText => "expected string or bytes-like object"
  | contract _ => "receipt contract"
  | evidenceShape => "evidence"
  | evidenceMismatch value => "evidence hash mismatch: " ++ value
  | runnerPolicy => "runner policy must not claim unsupported DSSE proof"

/-- `bool(value)`. -/
def truthy : Value → Bool
  | .null => false
  | .bool b => b
  | .num (.int n) => n != 0
  | .num (.float (.finite q)) => q != 0
  | .num (.float _) => true
  | .str s => s != ""
  | .arr items => !items.isEmpty
  | .obj fields => !fields.isEmpty

/-- `value == text`. -/
def isText (text : String) : Value → Bool
  | .str s => s == text
  | _ => false

/-- `value is flag`. -/
def isFlag (flag : Bool) : Value → Bool
  | .bool b => b == flag
  | _ => false

@[simp] theorem isText_eq_true {text : String} {v : Value} :
    isText text v = true ↔ v = .str text := by
  cases v <;> simp [isText]

@[simp] theorem isFlag_eq_true {flag : Bool} {v : Value} :
    isFlag flag v = true ↔ v = .bool flag := by
  cases v <;> simp [isFlag]

/-- `value[key]`, with a missing key and a value without keys both reported as
missing claims. -/
def index (v : Value) (key : String) : Except AttestationError Value :=
  match v with
  | .obj fields =>
    match fields.lookup key with
    | some found => .ok found
    | none => .error .missingClaims
  | _ => .error .missingClaims

def get (fields : Fields) (key : String) : Value := (fields.lookup key).getD .null

/-- `fields.get(key) or default`. -/
def getOr (fields : Fields) (key : String) (default : Value) : Value :=
  if truthy (get fields key) then get fields key else default

def subjectDigest : Value → Option String
  | .obj subject =>
    match get subject "digest" with
    | .obj digest =>
      match get digest "sha256" with
      | .str sha256 => some sha256
      | _ => none
    | _ => none
  | _ => none

/-- The set of digests of the statement's subjects. Iterating over an object or a
text gives texts, which are no subjects. -/
def subjectDigests : Value → Except AttestationError (List String)
  | .arr subjects => .ok (subjects.filterMap subjectDigest).dedup
  | .obj _ => .ok []
  | .str _ => .ok []
  | _ => .error .missingClaims

structure WorkflowIdentity where
  repository : List Char
  workflow : List Char
  ref : List Char
  deriving DecidableEq, Repr

def githubUrl : List Char := "https://github.com/".toList

def workflowDirectory : List Char := ".github/workflows/".toList

/-- The groups of
`https://github\.com/([^/]+/[^/]+)/(\.github/workflows/[^@]+)@(refs/.+)`. -/
def parseIdentity (s : List Char) : Option WorkflowIdentity := do
  let rest ← dropLiteral githubUrl s
  let (owner, rest) ← splitAtFirst '/' rest
  let (name, rest) ← splitAtFirst '/' rest
  let rest ← dropLiteral workflowDirectory rest
  let (file, ref) ← splitAtFirst '@' rest
  let tail ← dropLiteral "refs/".toList ref
  if tail ≠ [] ∧ '\n' ∉ tail then
    some ⟨owner ++ '/' :: name, workflowDirectory ++ file, ref⟩
  else none

/-- The text the identity is parsed from; the matcher refuses other values. -/
def identityText (certificate : Fields) : Except AttestationError (List Char) :=
  match getOr certificate "subjectAlternativeName" (get certificate "certificateIdentity") with
  | .str s => .ok s.toList
  | other => if truthy other then .error .missingClaims else .ok []

/-- The repository the script goes on with. -/
def sourceRepository (certificate : Fields) (identity : WorkflowIdentity) : List Char :=
  match get certificate "sourceRepositoryUri" with
  | .str uri => removeprefix githubUrl uri.toList
  | _ => identity.repository

def sourceRef (certificate : Fields) (identity : WorkflowIdentity) : Value :=
  getOr certificate "sourceRepositoryRef" (.str (String.ofList identity.ref))

def defaultIssuer : String := "https://token.actions.githubusercontent.com"

def envelopePresent (entry : Fields) : Except AttestationError Bool :=
  match (entry.lookup "attestation").getD (.obj []) with
  | .obj attestation => .ok (truthy (get attestation "bundle"))
  | _ => .error .missingClaims

/-- The claim set of one entry of the verified GitHub result. -/
def normalizedEntry (entry : Fields) : Except AttestationError Fields := do
  let verification ← index (.obj entry) "verificationResult"
  let signature ← index verification "signature"
  let certificate ← index signature "certificate"
  let statement ← index verification "statement"
  let subjects ← index statement "subject"
  let digests ← subjectDigests subjects
  match digests, certificate with
  | [digest], .obj certificate => do
    let text ← identityText certificate
    match parseIdentity text with
    | none => .error .malformedIdentity
    | some identity => do
      let envelope ← envelopePresent entry
      pure [("verified", .bool true), ("subject_sha256", .str digest),
        ("repository", .str (String.ofList (sourceRepository certificate identity))),
        ("workflow", .str (String.ofList identity.workflow)),
        ("ref", sourceRef certificate identity),
        ("issuer", getOr certificate "issuer" (.str defaultIssuer)),
        ("envelope_present", .bool envelope)]
  | [_], _ => .error .missingClaims
  | _, _ => .error .noSubject

def requiredFields : List String :=
  ["verified", "subject_sha256", "repository", "workflow", "ref", "issuer", "envelope_present"]

def completeFields : Value → Except AttestationError Fields
  | .obj fields => do
    let missing := requiredFields.filter fun k => !(keys fields).contains k
    require missing.isEmpty (.missingFields (sortTexts missing))
    pure fields
  | _ => .error .missingOutput

def normalizedVerification (payload : Value) : Except AttestationError Fields :=
  match payload with
  | .arr [.obj entry] =>
    if (keys entry).contains "verificationResult" then do
      let fields ← normalizedEntry entry
      completeFields (.obj fields)
    else completeFields (.obj entry)
  | .arr [entry] => completeFields entry
  | _ => completeFields payload

structure VerifiedReceipt where
  receipt : Fields
  repository : String
  workflow : String
  ref : String
  attestedSubjectSha256 : String
  runnerConstraintsSource : String

/-- The loop over the policy's patterns; nothing is matched when there is none. -/
def trustedRef (ref : Value) (refs : List String) : Except AttestationError String :=
  match ref, refs with
  | _, [] => .error .untrustedRef
  | .str s, refs =>
    if refs.any fun pattern => Glob.fnmatchcase s.toList pattern.toList then .ok s
    else .error .untrustedRef
  | _, _ => .error .refNotText

def safeEvidence (root : EvidenceRoot) (value : String) : Except AttestationError Path :=
  match relativePath? value with
  | none => .error (.unsafePath value)
  | some path =>
    if root.isFile path && !root.isSymlink path then .ok path else .error (.missingEvidence value)

section Verify

variable (P : Primitives) (root : EvidenceRoot)

def checkEvidence (item : Value) : Except AttestationError Unit :=
  match item with
  | .obj fields =>
    match fields.lookup "path", fields.lookup "sha256" with
    | some (.str value), some sha256 => do
      let path ← safeEvidence root value
      require (isText (P.sha256 (root.read path)) sha256) (.evidenceMismatch value)
    | _, _ => .error .evidenceShape
  | _ => .error .evidenceShape

def checkEvidenceList (receipt : Fields) : Except AttestationError Unit :=
  match receipt.lookup "evidence" with
  | some (.arr items) => do
    let _ ← items.mapM (checkEvidence P root)
    pure ()
  | _ => .error .evidenceShape

/-- The comparisons of `verify_attestation` with the policy and the digest of the
receipt, which give the ref. -/
def trustedClaims (policy : Policy) (actualDigest : String) (payload : Value) :
    Except AttestationError String := do
  let result ← normalizedVerification payload
  require (isFlag true (get result "verified")) .notVerified
  require (isFlag true (get result "envelope_present")) .noEnvelope
  require (isText actualDigest (get result "subject_sha256")) .digestMismatch
  require (isText policy.repository (get result "repository")) (.untrusted "repository")
  require (isText policy.workflow (get result "workflow")) (.untrusted "workflow")
  require (isText policy.issuer (get result "issuer")) (.untrusted "issuer")
  trustedRef (get result "ref") policy.refs

/-- `verify_attestation`, from the verifier's output on. -/
def verifyAttestation (policy : Policy) (receiptBytes : Bytes) (payload : Value) :
    Except AttestationError VerifiedReceipt := do
  let ref ← trustedClaims policy (P.sha256 receiptBytes) payload
  let receipt ← (loadReceipt P receiptBytes).mapError .contract
  checkEvidenceList P root receipt
  require (isFlag false policy.dsseProof) .runnerPolicy
  pure { receipt, repository := policy.repository, workflow := policy.workflow, ref,
         attestedSubjectSha256 := P.sha256 receiptBytes,
         runnerConstraintsSource := policy.enforcement }

end Verify

end ChampionRuntime.Publication.Attestation
