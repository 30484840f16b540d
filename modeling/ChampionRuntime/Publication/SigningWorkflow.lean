import ChampionRuntime.Publication.Attestation

/-!
# The workflow that signed an accepted attestation

The subject alternative name of the certificate names the signing workflow. Its
path is compared with the policy, while its repository and ref only count when
the certificate has no source repository fields of its own.
-/
namespace ChampionRuntime.Publication.Attestation

open Lib Lib.Json Lib.PyText Receipts

/-- A list of entries that each have a verification result. -/
def GhShaped (payload : Value) : Prop :=
  ∃ entries, payload = .arr entries ∧
    ∀ entry ∈ entries, ∃ fields, entry = .obj fields ∧ "verificationResult" ∈ keys fields

def singleEntry : Value → Option Fields
  | .arr [.obj entry] => some entry
  | _ => none

def certificateOf (payload : Value) : Option Fields := do
  let entry ← singleEntry payload
  let verification ← (index (.obj entry) "verificationResult").toOption
  let signature ← (index verification "signature").toOption
  match (index signature "certificate").toOption with
  | some (.obj certificate) => some certificate
  | _ => none

/-- The workflow that signed, as the subject alternative name encodes it. -/
def signingWorkflow (certificate : Fields) : Option WorkflowIdentity :=
  (identityText certificate).toOption.bind parseIdentity

/-- The digests of the statement's subjects. -/
def attestedDigests (payload : Value) : Option (List String) := do
  let entry ← singleEntry payload
  let verification ← (index (.obj entry) "verificationResult").toOption
  let statement ← (index verification "statement").toOption
  let subjects ← (index statement "subject").toOption
  (subjectDigests subjects).toOption

/-- A ref that one of the policy's patterns matches. -/
def RefAllowed (policy : Policy) (ref : List Char) : Prop :=
  ∃ pattern ∈ policy.refs, Glob.fnmatchcase ref pattern.toList = true

/-- The signing workflow is the policy's, at an allowed ref, and the statement is
about the receipt. -/
def TrustedSigner (P : Primitives) (policy : Policy) (receiptBytes : Bytes) (payload : Value) :
    Prop :=
  ∃ certificate identity, certificateOf payload = some certificate ∧
    signingWorkflow certificate = some identity ∧
    String.ofList identity.repository = policy.repository ∧
    String.ofList identity.workflow = policy.workflow ∧ RefAllowed policy identity.ref ∧
    attestedDigests payload = some [P.sha256 receiptBytes]

/-- The source repository field is absent or names the signing repository, and the
source ref is absent or the signing ref is allowed as well. -/
def SourceFieldsAgree (policy : Policy) (payload : Value) : Prop :=
  ∃ certificate identity, certificateOf payload = some certificate ∧
    signingWorkflow certificate = some identity ∧
    (∀ uri, get certificate "sourceRepositoryUri" = .str uri →
      removeprefix githubUrl uri.toList = identity.repository) ∧
    (truthy (get certificate "sourceRepositoryRef") = true → RefAllowed policy identity.ref)

theorem normalizedEntry_eq_ok {entry result : Fields} (h : normalizedEntry entry = .ok result) :
    ∃ certificate identity digest envelope,
      certificateOf (.arr [.obj entry]) = some certificate ∧
      signingWorkflow certificate = some identity ∧
      attestedDigests (.arr [.obj entry]) = some [digest] ∧
      result = [("verified", .bool true), ("subject_sha256", .str digest),
        ("repository", .str (String.ofList (sourceRepository certificate identity))),
        ("workflow", .str (String.ofList identity.workflow)),
        ("ref", sourceRef certificate identity),
        ("issuer", getOr certificate "issuer" (.str defaultIssuer)),
        ("envelope_present", .bool envelope)] := by
  simp only [normalizedEntry, bind_eq_ok] at h
  obtain ⟨verification, hverification, signature, hsignature, certificate, hcertificate, statement,
    hstatement, subjects, hsubjects, digests, hdigests, h⟩ := h
  split at h
  · rename_i digest certificate
    simp only [bind_eq_ok] at h
    obtain ⟨text, htext, h⟩ := h
    split at h
    · cases h
    · rename_i identity hidentity
      simp only [bind_eq_ok, pure_eq_ok] at h
      obtain ⟨envelope, -, rfl⟩ := h
      refine ⟨certificate, identity, digest, envelope, ?_, ?_, ?_, rfl⟩
      · simp [certificateOf, singleEntry, hverification, hsignature, hcertificate,
          Except.toOption]
      · simp [signingWorkflow, htext, hidentity, Except.toOption]
      · simp [attestedDigests, singleEntry, hverification, hstatement, hsubjects, hdigests,
          Except.toOption]
  · cases h
  · cases h

theorem completeFields_eq_ok {v : Value} {fields : Fields} (h : completeFields v = .ok fields) :
    v = .obj fields := by
  cases v with
  | obj found =>
    simp only [completeFields, bind_eq_ok, pure_eq_ok] at h
    obtain ⟨-, -, rfl⟩ := h
    rfl
  | _ => cases h

theorem normalizedVerification_eq_ok {payload : Value} (hgh : GhShaped payload) {result : Fields}
    (h : normalizedVerification payload = .ok result) :
    ∃ entry, payload = .arr [.obj entry] ∧ normalizedEntry entry = .ok result := by
  obtain ⟨entries, rfl, hentries⟩ := hgh
  match entries, hentries with
  | [], _ => cases h
  | [entry], hentries =>
    obtain ⟨fields, rfl, hkey⟩ := hentries entry (by simp)
    simp only [normalizedVerification, List.contains_iff_mem, hkey, if_true, bind_eq_ok] at h
    obtain ⟨found, hfound, hcomplete⟩ := h
    obtain rfl := Value.obj.inj (completeFields_eq_ok hcomplete)
    exact ⟨fields, rfl, hfound⟩
  | first :: second :: rest, _ => simp [normalizedVerification, completeFields] at h

theorem trustedRef_eq_ok {ref : Value} {refs : List String} {text : String}
    (h : trustedRef ref refs = .ok text) :
    ref = .str text ∧ ∃ pattern ∈ refs, Glob.fnmatchcase text.toList pattern.toList = true := by
  unfold trustedRef at h
  split at h
  · cases h
  · rename_i s _
    split_ifs at h with hany
    obtain rfl := Except.ok.inj h
    exact ⟨rfl, List.any_eq_true.mp hany⟩
  · cases h

section Accepted

variable {P : Primitives} {root : EvidenceRoot} {policy : Policy} {receiptBytes : Bytes}
  {payload : Value} {verified : VerifiedReceipt}

theorem verifyAttestation_eq_ok
    (h : verifyAttestation P root policy receiptBytes payload = .ok verified) :
    ∃ result, normalizedVerification payload = .ok result ∧
      get result "subject_sha256" = .str (P.sha256 receiptBytes) ∧
      get result "repository" = .str policy.repository ∧
      get result "workflow" = .str policy.workflow ∧
      ∃ ref, get result "ref" = .str ref ∧ RefAllowed policy ref.toList := by
  simp only [verifyAttestation, trustedClaims, bind_eq_ok, require_eq_ok, isText_eq_true] at h
  obtain ⟨ref, ⟨result, hresult, _, -, _, -, _, hdigest, _, hrepository, _, hworkflow, _, -, href⟩,
    -⟩ := h
  obtain ⟨htext, hallowed⟩ := trustedRef_eq_ok href
  exact ⟨result, hresult, hdigest, hrepository, hworkflow, ref, htext, hallowed⟩

theorem accepted_claims (hgh : GhShaped payload)
    (h : verifyAttestation P root policy receiptBytes payload = .ok verified) :
    ∃ certificate identity ref, certificateOf payload = some certificate ∧
      signingWorkflow certificate = some identity ∧
      attestedDigests payload = some [P.sha256 receiptBytes] ∧
      String.ofList (sourceRepository certificate identity) = policy.repository ∧
      String.ofList identity.workflow = policy.workflow ∧
      sourceRef certificate identity = .str ref ∧ RefAllowed policy ref.toList := by
  obtain ⟨result, hresult, hdigest, hrepository, hworkflow, ref, href, hallowed⟩ :=
    verifyAttestation_eq_ok h
  obtain ⟨entry, rfl, hentry⟩ := normalizedVerification_eq_ok hgh hresult
  obtain ⟨certificate, identity, digest, envelope, hcertificate, hidentity, hdigests, rfl⟩ :=
    normalizedEntry_eq_ok hentry
  refine ⟨certificate, identity, ref, hcertificate, hidentity, ?_, Value.str.inj hrepository,
    Value.str.inj hworkflow, href, hallowed⟩
  rw [hdigests, show digest = P.sha256 receiptBytes from Value.str.inj hdigest]

theorem sourceRepository_eq_iff {certificate : Fields} {identity : WorkflowIdentity} :
    sourceRepository certificate identity = identity.repository ↔
      ∀ uri, get certificate "sourceRepositoryUri" = .str uri →
        removeprefix githubUrl uri.toList = identity.repository := by
  unfold sourceRepository
  split
  · rename_i uri huri
    constructor
    · rintro heq uri' huri'
      obtain rfl := Value.str.inj (huri.symm.trans huri')
      exact heq
    · exact fun hall => hall uri huri
  · rename_i hother
    simp only [true_iff]
    exact fun uri huri => absurd huri (hother uri)

/-- An accepted output is signed by the trusted workflow exactly when its source
fields, where it has any, do not stand in for another signer. -/
theorem trustedSigner_iff (hgh : GhShaped payload)
    (h : verifyAttestation P root policy receiptBytes payload = .ok verified) :
    TrustedSigner P policy receiptBytes payload ↔ SourceFieldsAgree policy payload := by
  obtain ⟨certificate, identity, ref, hcertificate, hidentity, hdigests, hrepository, hworkflow,
    href, hallowed⟩ := accepted_claims hgh h
  constructor
  · rintro ⟨certificate', identity', hcertificate', hidentity', hrepository', -, hallowed', -⟩
    obtain rfl := Option.some.inj (hcertificate.symm.trans hcertificate')
    obtain rfl := Option.some.inj (hidentity.symm.trans hidentity')
    refine ⟨certificate, identity, hcertificate, hidentity, ?_, fun _ => hallowed'⟩
    exact sourceRepository_eq_iff.mp (String.ofList_injective (hrepository.trans hrepository'.symm))
  · rintro ⟨certificate', identity', hcertificate', hidentity', huri, hsource⟩
    obtain rfl := Option.some.inj (hcertificate.symm.trans hcertificate')
    obtain rfl := Option.some.inj (hidentity.symm.trans hidentity')
    refine ⟨certificate, identity, hcertificate, hidentity, ?_, hworkflow, ?_, hdigests⟩
    · rw [← hrepository, sourceRepository_eq_iff.mpr huri]
    · by_cases htruthy : truthy (get certificate "sourceRepositoryRef") = true
      · exact hsource htruthy
      · rw [sourceRef, getOr, if_neg htruthy] at href
        rw [← Value.str.inj href, String.toList_ofList] at hallowed
        exact hallowed

end Accepted

/-- The receipt of `exampleBody`. -/
def exampleReceipt : Fields :=
  [("schema_version", .str "1.0.0"), ("receipt_type", .str "verify-source"),
    ("command", .str "verify-source"), ("created_at", .str "2026-08-23T12:00:00Z"),
    ("subject", .obj [("source_release_id",
      .str "aaaaaaaaaaaaaaaaaaaaaaaaaaaaaaaaaaaaaaaaaaaaaaaaaaaaaaaaaaaaaaaa")]),
    ("evidence", .arr []), ("result", .str "PASS"),
    ("metadata", .obj [("attempt", .num (.int 1))]), ("receipt_id", .str exampleId)]

def exampleReceiptText : String :=
  String.ofList (render .compact 0 (.obj exampleReceipt) ++ ['\n'])

def exampleReceiptBytes : Bytes := exampleReceiptText.toByteArray.data.toList

def exampleReceiptDigest : String :=
  "5af266c2c76d9933901e21abae8ac8709aa9e1f58a7ec4df5b9f7f66b8a966c5"

/-- SHA-256 of the receipt file and of the canonical body. -/
def fileDigest (bytes : Bytes) : String :=
  if bytes = exampleReceiptBytes then exampleReceiptDigest else exampleDigest bytes

def filePrimitives : Primitives := { examplePrimitives with sha256 := fileDigest }

/-- `publication/trusted-issuers.json`. -/
def trustedIssuers : Policy where
  repository := "0xdfi/glm-5.2-dgx-spark-vllm027"
  workflow := ".github/workflows/attest-evidence.yml"
  issuer := "https://token.actions.githubusercontent.com"
  refs := ["refs/heads/main", "refs/tags/v*"]
  dsseProof := .bool false
  enforcement := "committed-workflow-policy"

def emptyRoot : EvidenceRoot where
  isFile _ := false
  isSymlink _ := false
  read _ := []

/-- The certificate of a run of the trusted repository's main branch, signed by
the workflow that the subject alternative name gives. -/
def mainCertificate (subjectAlternativeName : String) : Fields :=
  [("subjectAlternativeName", .str subjectAlternativeName),
    ("issuer", .str "https://token.actions.githubusercontent.com"),
    ("sourceRepositoryUri", .str "https://github.com/0xdfi/glm-5.2-dgx-spark-vllm027"),
    ("sourceRepositoryRef", .str "refs/heads/main")]

def ghOutput (certificate : Fields) : Value :=
  .arr [.obj [("attestation", .obj [("bundle", .obj [("mediaType", .str "application/json")])]),
    ("verificationResult", .obj [("signature", .obj [("certificate", .obj certificate)]),
      ("statement", .obj [("subject", .arr [.obj [("name", .str "receipt.json"),
        ("digest", .obj [("sha256", .str exampleReceiptDigest)])]])])])]]

def trustedName : String :=
  "https://github.com/0xdfi/glm-5.2-dgx-spark-vllm027/.github/workflows/attest-evidence.yml" ++
  "@refs/heads/main"

/-- A reusable workflow called at the ref of a pull request. -/
def otherRefName : String :=
  "https://github.com/0xdfi/glm-5.2-dgx-spark-vllm027/.github/workflows/attest-evidence.yml" ++
  "@refs/pull/2/merge"

def otherRepositoryName : String :=
  "https://github.com/other/shared/.github/workflows/attest-evidence.yml@refs/heads/main"

theorem ghShaped_ghOutput (certificate : Fields) : GhShaped (ghOutput certificate) := by
  refine ⟨_, rfl, fun entry hentry => ?_⟩
  rw [List.mem_singleton.mp hentry]
  exact ⟨_, rfl, by simp [keys]⟩

theorem unique_exampleReceipt : (Value.obj exampleReceipt).Unique := by
  refine .obj (by decide) ?_
  simp only [exampleReceipt, List.forall_mem_cons, List.not_mem_nil, false_implies, implies_true,
    and_true]
  refine ⟨.str _, .str _, .str _, .str _, .obj (by decide) ?_, .arr (by simp), .str _,
    .obj (by decide) ?_, .str _⟩
  · simpa using .str _
  · simpa using .num _

theorem exampleReceipt_verified :
    (verifyReceipt filePrimitives (.obj exampleReceipt)).toOption.isSome = true ∧
      '\r' ∉ exampleReceiptText.toList := by
  rw [exampleReceiptText, String.toList_ofList]
  decide +kernel

/-- Whatever passes the comparisons is accepted, as the receipt has no evidence. -/
theorem accepted_of_claims {payload : Value} {ref : String}
    (h : trustedClaims trustedIssuers exampleReceiptDigest payload = .ok ref) :
    ∃ verified, verifyAttestation filePrimitives emptyRoot trustedIssuers exampleReceiptBytes
      payload = .ok verified := by
  obtain ⟨out, hout⟩ := exists_ok_of_isSome exampleReceipt_verified.1
  have hload : loadReceipt filePrimitives exampleReceiptBytes = .ok exampleReceipt :=
    loadReceipt_render (L := .compact) unique_exampleReceipt hout String.toList_ofList
      exampleReceipt_verified.2
  have hdigest : filePrimitives.sha256 exampleReceiptBytes = exampleReceiptDigest := by
    rw [show filePrimitives.sha256 = fileDigest from rfl, fileDigest, if_pos rfl]
  simp only [verifyAttestation, hdigest, h, hload]
  exact ⟨_, rfl⟩

theorem claims_mainCertificate : ∀ name ∈ [trustedName, otherRefName, otherRepositoryName],
    trustedClaims trustedIssuers exampleReceiptDigest (ghOutput (mainCertificate name)) =
      .ok "refs/heads/main" := by
  decide

theorem trustedSigner_iff_main :
    TrustedSigner filePrimitives trustedIssuers exampleReceiptBytes
      (ghOutput (mainCertificate trustedName)) := by
  obtain ⟨verified, hverified⟩ := accepted_of_claims (claims_mainCertificate trustedName (by simp))
  refine (trustedSigner_iff (ghShaped_ghOutput _) hverified).mpr ?_
  refine ⟨mainCertificate trustedName, ⟨"0xdfi/glm-5.2-dgx-spark-vllm027".toList,
    ".github/workflows/attest-evidence.yml".toList, "refs/heads/main".toList⟩, rfl,
    by decide, ?_, ?_⟩
  · intro uri huri
    rw [← show _ = uri from Value.str.inj huri]
    decide
  · exact fun _ => ⟨"refs/heads/main", by decide, by decide⟩

/-- A workflow of the trusted repository at the ref of a pull request, and a
workflow of another repository, are both accepted on the strength of the source
fields. -/
theorem foreign_signers_accepted :
    (∃ verified, verifyAttestation filePrimitives emptyRoot trustedIssuers exampleReceiptBytes
        (ghOutput (mainCertificate otherRefName)) = .ok verified) ∧
      GhShaped (ghOutput (mainCertificate otherRefName)) ∧
      ¬ TrustedSigner filePrimitives trustedIssuers exampleReceiptBytes
        (ghOutput (mainCertificate otherRefName)) ∧
    (∃ verified, verifyAttestation filePrimitives emptyRoot trustedIssuers exampleReceiptBytes
        (ghOutput (mainCertificate otherRepositoryName)) = .ok verified) ∧
      GhShaped (ghOutput (mainCertificate otherRepositoryName)) ∧
      ¬ TrustedSigner filePrimitives trustedIssuers exampleReceiptBytes
        (ghOutput (mainCertificate otherRepositoryName)) := by
  refine ⟨accepted_of_claims (claims_mainCertificate otherRefName (by simp)), ghShaped_ghOutput _, ?_,
    accepted_of_claims (claims_mainCertificate otherRepositoryName (by simp)), ghShaped_ghOutput _, ?_⟩
  · rintro ⟨certificate, identity, hcertificate, hidentity, -, -, ⟨pattern, hpattern, hmatch⟩, -⟩
    obtain rfl : mainCertificate otherRefName = certificate := Option.some.inj hcertificate
    have hsigner : signingWorkflow (mainCertificate otherRefName) =
        some ⟨"0xdfi/glm-5.2-dgx-spark-vllm027".toList,
          ".github/workflows/attest-evidence.yml".toList, "refs/pull/2/merge".toList⟩ := by
      decide
    obtain rfl := Option.some.inj (hsigner.symm.trans hidentity)
    have hnone : ∀ pattern ∈ trustedIssuers.refs,
        Glob.fnmatchcase "refs/pull/2/merge".toList pattern.toList = false := by
      decide
    rw [hnone pattern hpattern] at hmatch
    cases hmatch
  · rintro ⟨certificate, identity, hcertificate, hidentity, hrepository, -⟩
    obtain rfl : mainCertificate otherRepositoryName = certificate := Option.some.inj hcertificate
    have hsigner : signingWorkflow (mainCertificate otherRepositoryName) =
        some ⟨"other/shared".toList, ".github/workflows/attest-evidence.yml".toList,
          "refs/heads/main".toList⟩ := by
      decide
    obtain rfl := Option.some.inj (hsigner.symm.trans hidentity)
    exact absurd hrepository (by decide)

end ChampionRuntime.Publication.Attestation
