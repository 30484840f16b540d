import ChampionRuntime.Lib.Glob
import ChampionRuntime.Lib.PyInt
import ChampionRuntime.Lib.Utf8
import ChampionRuntime.Licensing.Provenance
import ChampionRuntime.Publication.Attestation

/-!
# The licence audit

`scripts/audit_licenses.py` up to the list of findings. The file system, the answers of
`git`, the digest, the word characters of `\b` and the reader of TOML are parameters; a
date of a TOML document has no value here. A set is run through in the order in which its
members were put in.
-/
namespace ChampionRuntime.Licensing

open Lib Lib.Json Lib.PyText
open Publication.Attestation (get truthy isText)
open Receipts (Bytes posixParts)

def baseCommit : String := "d1aca44241a5100bf7af6a5388985cb42ffca4cd"

def baseRepository : String := "https://github.com/0xdfi/glm-5.2-dgx-spark-vllm027.git"

/-- `REQUIRED_FIELDS`, sorted as a message lists them. -/
def requiredFields : List String :=
  ["base_sha256", "classification", "copyright", "evidence", "license", "modified_by",
    "origin_commit", "origin_path", "origin_repository", "path", "target_sha256"]

def reuseIgnoredNames : List String := ["LICENSE", "REUSE.toml"]

/-- `[0-9a-f]{64}` -/
def isSha256 (text : String) : Bool :=
  ((Regex.cls isHexLower).times 64).fullmatch text.toList

/-- `[0-9a-f]{40}` -/
def isGitSha (text : String) : Bool :=
  ((Regex.cls isHexLower).times 40).fullmatch text.toList

/-- What is wrong with an entry of the records. -/
inductive EntryDefect where
  | notAnObject
  | missingFields (fields : List String)
  | unknownFields (fields : List String)
  | invalidPath

/-- What is wrong with the record or the file of a path. -/
inductive PathDefect where
  | unknownClassification (found : Value)
  | empty (field : String)
  | notTextOrNull (field : String)
  | originCommit
  | digest (field : String)
  | evidence
  | malformedReceipt
  | recursiveReceipt
  | receiptDigest
  | noAssertion
  | handle
  | projectCopyright
  | mustUseApache (classification : Classification)
  | mustRetainMit (classification : Classification)
  | mustUseBsd
  | notAtBase
  | baseDigest
  | originRepository
  | originIdentifiers
  | mitNotice
  | requires (field : String)
  | modifier
  | duplicate
  | cannotStat
  | notRegular
  | staleTarget
  | reuseLicense (found ledger : Value)
  | reuseCopyright
  | attribution

inductive Finding where
  | ledgerShape
  | entry (index : ℕ) (defect : EntryDefect)
  | path (path : String) (defect : PathDefect)
  | selfRecords
  | absent (paths : List String)
  | surplus (paths : List String)
  | unreadableProjection
  | projection
  | unreadableReuse
  | reuseVersion
  | missingText (license : String)
  | baseLicense
  | unreadableMit
  | mitText
  | rootLicense
  | unreadableLicense
  | componentsNoAssertion
  | componentsShape
  | schemaWithoutEnum
  | schemaEnum
  | notice

/-- `AuditError`, which `main` reports as its only finding. -/
inductive AuditError where
  | cannotLoad (path : String)
  | git (arguments : List String)
  | unsafePath (path : String)

/-- The exceptions the audit does not catch. -/
inductive AuditException where
  | typeError
  | attributeError
  | keyError (key : String)
  | osError (path : String)
  | unicodeDecodeError (path : String)
  deriving DecidableEq, Repr

inductive Raised where
  | refused (error : AuditError)
  | uncaught (exception : AuditException)

/-- How Python writes a value, the reason a file of the tree could not be read, and what
git printed. -/
structure AuditPrinter where
  repr : Value → String
  unreadable : String → String
  stderr : List String → String

namespace AuditPrinter

variable (P : AuditPrinter)

def textList (texts : List String) : String := P.repr (.arr (texts.map .str))

def git (arguments : List String) : String :=
  "git " ++ " ".intercalate arguments ++ " failed: " ++ P.stderr arguments

end AuditPrinter

def EntryDefect.message (P : AuditPrinter) : EntryDefect → String
  | notAnObject => "must be an object"
  | missingFields fields => "missing fields " ++ P.textList fields
  | unknownFields fields => "unknown fields " ++ P.textList fields
  | invalidPath => "invalid path"

def PathDefect.message (P : AuditPrinter) (path : String) : PathDefect → String
  | unknownClassification found => "unknown classification " ++ P.repr found
  | empty field => field ++ " must be non-empty"
  | notTextOrNull field => field ++ " must be a string or null"
  | originCommit => "origin_commit must be a lowercase full Git SHA or null"
  | digest field => field ++ " must be a lowercase SHA-256"
  | evidence => "evidence must be an array"
  | malformedReceipt => "malformed evidence receipt"
  | recursiveReceipt => "recursive ledger/projection evidence hash is forbidden"
  | receiptDigest => "evidence sha256 is invalid"
  | noAssertion => "NOASSERTION is forbidden"
  | handle => "@dfi is forbidden; use dfi / 0xdfi"
  | projectCopyright => "project copyright must be exactly " ++ P.repr (.str owner)
  | mustUseApache classification => classification.text ++ " must use Apache-2.0"
  | mustRetainMit classification => classification.text ++ " must retain MIT"
  | mustUseBsd => "BSD license text must use BSD-3-Clause"
  | notAtBase => "existing-mit path was not present at " ++ baseCommit
  | baseDigest => "existing-mit base_sha256 does not match " ++ baseCommit
  | originRepository => "existing-mit origin repository changed"
  | originIdentifiers => "existing-mit origin identifiers changed"
  | mitNotice => "unnamed MIT notice must be preserved exactly"
  | requires field => "retained upstream record requires " ++ field
  | modifier => "upstream derivative must record modification by " ++ Licensing.modifier
  | duplicate => "duplicate provenance record"
  | cannotStat => "cannot stat distributed path: " ++ P.unreadable path
  | notRegular => "distributed paths must be regular files"
  | staleTarget => "target_sha256 is stale"
  | reuseLicense found ledger => "REUSE license " ++ P.repr found ++ " != ledger license " ++
      P.repr ledger
  | reuseCopyright => "REUSE copyright does not match ledger"
  | attribution => "forbidden @dfi attribution"

def Finding.message (P : AuditPrinter) : Finding → String
  | ledgerShape => ledgerPath ++ ": invalid top-level ledger shape"
  | entry index defect => "record[" ++ toString index ++ "]: " ++ defect.message P
  | path file defect => file ++ ": " ++ defect.message P file
  | selfRecords => "ledger/projection target-hash records are forbidden"
  | absent paths => "distributed paths absent from provenance: " ++ ", ".intercalate paths
  | surplus paths => "provenance records for absent paths: " ++ ", ".intercalate paths
  | unreadableProjection => "cannot read " ++ projectionPath ++ ": " ++ P.unreadable projectionPath
  | projection => projectionPath ++ ": non-deterministic or stale projection"
  | unreadableReuse => "REUSE.toml: " ++ P.unreadable "REUSE.toml"
  | reuseVersion => "REUSE.toml: version must be 1"
  | missingText license => "missing canonical REUSE license text: LICENSES/" ++ license ++ ".txt"
  | baseLicense => P.git ["show", baseCommit ++ ":LICENSE"]
  | unreadableMit => P.unreadable "LICENSES/MIT.txt"
  | mitText => "LICENSES/MIT.txt does not preserve the d1aca44 MIT text exactly"
  | rootLicense => "root LICENSE is not Apache-2.0"
  | unreadableLicense => "LICENSE: " ++ P.unreadable "LICENSE"
  | componentsNoAssertion => "compliance/container-components.json contains NOASSERTION"
  | componentsShape => "compliance/container-components.json has invalid shape"
  | schemaWithoutEnum => "schemas/provenance.schema.json has no classification enum"
  | schemaEnum => "provenance schema classification enum is stale"
  | notice => "NOTICE names upstream content that is not distributed"

def AuditError.message (P : AuditPrinter) : AuditError → String
  | cannotLoad path => "cannot load " ++ path ++ ": " ++ P.unreadable path
  | git arguments => P.git arguments
  | unsafePath path => "Git returned unsafe path: " ++ path

def raise {α : Type} (e : AuditException) : Except Raised α := .error (.uncaught e)

/-- The findings of a check that did not hold. -/
def findingUnless (holds : Bool) (finding : Finding) : List Finding := if holds then [] else [finding]

/-- A dictionary and a list have no hash. -/
def hashable : Value → Bool
  | .arr _ | .obj _ => false
  | _ => true

def number? : Value → Option Number
  | .num n => some n
  | .bool b => some (.int (if b then 1 else 0))
  | _ => none

def rational? : Number → Option ℚ
  | .int n => some n
  | .float (.finite q) => some q
  | .float _ => none

def numberEq (x y : Number) : Bool :=
  match rational? x, rational? y with
  | some p, some q => p == q
  | none, none => x == y && x != .float .nan
  | _, _ => false

def numberLt (x y : Number) : Bool :=
  match rational? x, rational? y with
  | some p, some q => p < q
  | some _, none => y == .float (.inf false)
  | none, some _ => x == .float (.inf true)
  | none, none => x == .float (.inf true) && y == .float (.inf false)

mutual

/-- `v == w`. -/
def pyEq : Value → Value → Bool
  | .null, w => match w with
    | .null => true
    | _ => false
  | .str s, w => isText s w
  | .num n, w => match number? w with
    | some m => numberEq n m
    | none => false
  | .bool b, w => match number? w with
    | some m => numberEq (.int (if b then 1 else 0)) m
    | none => false
  | .arr items, w => match w with
    | .arr others => pyEqItems items others
    | _ => false
  | .obj fields, w => match w with
    | .obj others => fields.length == others.length && pyEqFields fields others
    | _ => false

def pyEqItems : List Value → List Value → Bool
  | [], others => others.isEmpty
  | v :: items, others => match others with
    | w :: others => pyEq v w && pyEqItems items others
    | [] => false

def pyEqFields : Fields → Fields → Bool
  | [], _ => true
  | (k, v) :: fields, others =>
    (match others.lookup k with
      | some w => pyEq v w
      | none => false) && pyEqFields fields others

end

/-- What a loop over a value runs through. -/
def members : Value → Except Raised (List Value)
  | .arr items => .ok items
  | .obj fields => .ok (fields.map fun f => .str f.1)
  | .str s => .ok (s.toList.map fun c => .str (String.singleton c))
  | _ => raise .typeError

/-- `part in json.dumps(value, sort_keys=True)` for a part without a blank, which the
blanks between two tokens cannot hide. -/
def mentions (part : String) (value : Value) : Bool :=
  occurs part.toList (render .compact 0 value.sortKeys)

structure Libraries where
  sha256 : Bytes → String
  /-- `\w` -/
  word : Char → Bool
  /-- `tomllib.loads` -/
  toml : List Char → Option Fields

/-- A Git working tree, with paths below its root. -/
structure WorkTree where
  repo : Repository
  /-- `git show` -/
  shown : String → Option Bytes
  /-- `lstat`, if it answers: whether the path is a regular file -/
  regular : String → Option Bool
  isFile : String → Bool
  read : String → Option Bytes

inductive Unreadable where
  | os
  | unicode

namespace WorkTree

variable (T : WorkTree)

def readText (path : String) : Except Unreadable (List Char) :=
  match T.read path with
  | none => .error .os
  | some bytes =>
    match decode bytes with
    | none => .error .unicode
    | some text => .ok (universalNewlines text)

def loadJson (path : String) : Except Raised Value :=
  match T.readText path with
  | .error .os => .error (.refused (.cannotLoad path))
  | .error .unicode => raise (.unicodeDecodeError path)
  | .ok text =>
    match loads .plain text with
    | none => .error (.refused (.cannotLoad path))
    | some value => .ok value

def isAbsolute (path : String) : Bool := path.toList.head? == some '/'

/-- `tracked_paths`, without repetitions. -/
def tracked : Except Raised (List String) := do
  let paths ← (T.repo.index.map IndexEntry.path).mapM fun path =>
    if isAbsolute path ∨ ".." ∈ posixParts path then .error (.refused (.unsafePath path))
    else .ok (asPosix path)
  .ok paths.eraseDups

/-- `git_blob_sha256`. -/
def blobSha256 (L : Libraries) (revision path : String) : Except Raised (Option String) :=
  match T.repo.revParse (revision ++ ":" ++ path) with
  | none => .ok none
  | some oid =>
    match T.repo.blob oid with
    | none => .error (.refused (.git ["cat-file", "blob", oid]))
    | some bytes => .ok (some (L.sha256 bytes))

end WorkTree

/-- `record[key]`. -/
def Record.item (r : Record) (key : String) : Except Raised Value :=
  match r.get key with
  | none => raise (.keyError key)
  | some value => .ok value

/-- `record.get(key) == text`, where the text may be absent. -/
def Record.agrees (r : Record) (key : String) : Option String → Bool
  | none =>
    match r.get key with
    | none | some .null => true
    | some _ => false
  | some text => r.holds key text

def sortTexts (texts : List String) : List String := texts.insertionSort (· ≤ ·)

def fieldFindings (index : ℕ) (fields : Fields) : List Finding :=
  let missing := requiredFields.filter fun key => !(keys fields).contains key
  let extra := sortTexts ((keys fields).filter fun key => !requiredFields.contains key)
  findingUnless missing.isEmpty (.entry index (.missingFields missing)) ++
    findingUnless extra.isEmpty (.entry index (.unknownFields extra))

def knownClassification : Value → Option Classification
  | .str text => Classification.ofText? text
  | _ => none

def classificationFindings (r : Record) : Except Raised (List Finding) :=
  let found := get r.fields "classification"
  if hashable found then
    .ok (findingUnless (knownClassification found).isSome
      (.path r.path (.unknownClassification found)))
  else raise .typeError

def textFindings (r : Record) (key : String) : List Finding :=
  match r.get key with
  | some (.str text) => findingUnless (text != "") (.path r.path (.empty key))
  | _ => [.path r.path (.empty key)]

def textOrNullFindings (r : Record) (key : String) : List Finding :=
  match get r.fields key with
  | .null | .str _ => []
  | _ => [.path r.path (.notTextOrNull key)]

def originCommitFindings (r : Record) : List Finding :=
  match get r.fields "origin_commit" with
  | .null => []
  | .str text => findingUnless (isGitSha text) (.path r.path .originCommit)
  | _ => [.path r.path .originCommit]

/-- The check of a digest; only that of the base may be missing. -/
def digestFindings (r : Record) (key : String) : List Finding :=
  match get r.fields key with
  | .null => findingUnless (key == "base_sha256") (.path r.path (.digest key))
  | .str text => findingUnless (isSha256 text) (.path r.path (.digest key))
  | _ => [.path r.path (.digest key)]

def receiptFindings (path : String) : Value → Except Raised (List Finding)
  | .obj fields =>
    if (keys fields).contains "path" && (keys fields).contains "sha256" &&
        (keys fields).all ["path", "sha256"].contains then
      if hashable (get fields "path") then
        let recursive := selfExemptPaths.any fun exempt => isText exempt (get fields "path")
        let digest := match get fields "sha256" with
          | .str text => isSha256 text
          | _ => false
        .ok (findingUnless (!recursive) (.path path .recursiveReceipt) ++
          findingUnless digest (.path path .receiptDigest))
      else raise .typeError
    else .ok [.path path .malformedReceipt]
  | _ => .ok [.path path .malformedReceipt]

def evidenceFindings (r : Record) : Except Raised (List Finding) :=
  match r.get "evidence" with
  | some (.arr receipts) => do
    let findings ← receipts.mapM (receiptFindings r.path)
    .ok findings.flatten
  | _ => .ok [.path r.path .evidence]

/-- The checks of the fields of a record that has a path. -/
def recordFindings (r : Record) : Except Raised (List Finding) := do
  let classification ← classificationFindings r
  let evidence ← evidenceFindings r
  .ok (classification ++ ["copyright", "license"].flatMap (textFindings r) ++
    ["origin_repository", "origin_path", "modified_by"].flatMap (textOrNullFindings r) ++
    originCommitFindings r ++ ["base_sha256", "target_sha256"].flatMap (digestFindings r) ++
    evidence)

/-- `validate_record_shape`: the findings, and the record if it has a path. -/
def validateRecordShape (index : ℕ) : Value → Except Raised (List Finding × Option Record)
  | .obj fields =>
    match h : fields.lookup "path" with
    | some (.str path) =>
      if path = "" ∨ WorkTree.isAbsolute path ∨ ".." ∈ posixParts path then
        .ok (fieldFindings index fields ++ [.entry index .invalidPath], none)
      else do
        let findings ← recordFindings ⟨fields, path, h⟩
        .ok (fieldFindings index fields ++ findings, some ⟨fields, path, h⟩)
    | _ => .ok (fieldFindings index fields ++ [.entry index .invalidPath], none)
  | _ => .ok ([.entry index .notAnObject], none)

section Classified

variable (L : Libraries) (T : WorkTree)

/-- The origin of a record that counts as existing at the base commit. -/
def existingMitFindings (r : Record) (c : Classification) (copyright : Value) :
    Except Raised (List Finding) :=
  if c = .existingMit then do
    let base ← T.blobSha256 L baseCommit r.path
    .ok (findingUnless base.isSome (.path r.path .notAtBase) ++
      findingUnless (r.agrees "base_sha256" base) (.path r.path .baseDigest) ++
      findingUnless (r.holds "origin_repository" baseRepository) (.path r.path .originRepository) ++
      findingUnless (r.holds "origin_commit" baseCommit && r.holds "origin_path" r.path)
        (.path r.path .originIdentifiers) ++
      findingUnless (isText "Copyright (c) 2026" copyright) (.path r.path .mitNotice))
  else .ok []

def ownedClassifications : List Classification :=
  [.projectApache, .generatedEvidence, .licenseTextApache, .licenseTextBsd3Clause]

def apacheClassifications : List Classification :=
  [.projectApache, .generatedEvidence, .licenseTextApache]

def mitClassifications : List Classification := [.existingMit, .contributedMit, .licenseTextMit]

def retainedClassifications : List Classification :=
  [.contributedMit, .upstreamUnmodified, .upstreamDerivative]

def retainedFields : List String :=
  ["origin_repository", "origin_commit", "origin_path", "base_sha256"]

def validateClassification (r : Record) (c : Classification) : Except Raised (List Finding) := do
  let license ← r.item "license"
  let copyright ← r.item "copyright"
  let existing ← existingMitFindings L T r c copyright
  .ok (findingUnless (!isText "NOASSERTION" license) (.path r.path .noAssertion) ++
    findingUnless (!mentions "@dfi" (.obj r.fields)) (.path r.path .handle) ++
    findingUnless (!ownedClassifications.contains c || isText owner copyright)
      (.path r.path .projectCopyright) ++
    findingUnless (!apacheClassifications.contains c || isText "Apache-2.0" license)
      (.path r.path (.mustUseApache c)) ++
    findingUnless (!mitClassifications.contains c || isText "MIT" license)
      (.path r.path (.mustRetainMit c)) ++
    findingUnless (c != .licenseTextBsd3Clause || isText "BSD-3-Clause" license)
      (.path r.path .mustUseBsd) ++
    existing ++
    (if retainedClassifications.contains c then retainedFields.flatMap fun key =>
      findingUnless (truthy (get r.fields key)) (.path r.path (.requires key)) else []) ++
    findingUnless (c != .upstreamDerivative || r.holds "modified_by" modifier)
      (.path r.path .modifier))

/-- The checks of a classification that is known. -/
def classifiedFindings (r : Record) : Except Raised (List Finding) :=
  match knownClassification (get r.fields "classification") with
  | none => .ok []
  | some c => validateClassification L T r c

/-- One round of the loop over the records. -/
def auditRecord (state : List Finding × Records) (item : Value × ℕ) :
    Except Raised (List Finding × Records) := do
  let (shape, found) ← validateRecordShape item.2 item.1
  match found with
  | none => .ok (state.1 ++ shape, state.2)
  | some r => do
    let classified ← classifiedFindings L T r
    let repeated := findingUnless (state.2.find? r.path).isNone (.path r.path .duplicate)
    .ok (state.1 ++ shape ++ repeated ++ classified, state.2.insert r)

def auditRecords (items : List Value) : Except Raised (List Finding × Records) :=
  items.zipIdx.foldlM (auditRecord L T) ([], Keyed.empty)

end Classified

section Files

variable (L : Libraries) (T : WorkTree)

/-- The round of the loop over the files of the records. -/
def fileFindings (r : Record) : Except Raised (List Finding) :=
  match T.regular r.path with
  | none => .ok [.path r.path .cannotStat]
  | some false => .ok [.path r.path .notRegular]
  | some true =>
    match T.read r.path with
    | none => raise (.osError r.path)
    | some bytes => .ok (findingUnless (r.holds "target_sha256" (L.sha256 bytes))
        (.path r.path .staleTarget))

/-- What the tracked paths and the records have in common, and what they have not. -/
def coverageFindings (records : Records) (tracked : List String) :
    Except Raised (List Finding) := do
  let expected := tracked.filter fun path => !selfExemptPaths.contains path
  let recorded := records.items.map Record.path
  let missing := sortTexts (expected.filter fun path => !recorded.contains path)
  let extra := sortTexts (recorded.filter fun path => !expected.contains path)
  let common := (Keyed.sortItems Record.path records.items).filter fun r => expected.contains r.path
  let files ← common.mapM (fileFindings L T)
  .ok (findingUnless (!selfExemptPaths.any recorded.contains) .selfRecords ++
    findingUnless missing.isEmpty (.absent missing) ++
    findingUnless extra.isEmpty (.surplus extra) ++ files.flatten)

end Files

/-- The fields of an entry that the projection includes. -/
def includedFields : Value → Except Raised (Option Fields)
  | .obj fields =>
    if isText Classification.generatedEvidence.text (get fields "classification") then .ok none
    else
      match get fields "path" with
      | .arr _ | .obj _ => raise .typeError
      | .str path => .ok (if subjectExcludedPaths.contains path then none else some fields)
      | _ => .ok (some fields)
  | _ => raise .attributeError

def withPath (fields : Fields) : Except Raised (Value × Fields) :=
  match fields.lookup "path" with
  | none => raise (.keyError "path")
  | some path => .ok (path, fields)

/-- `a < b` for the paths of two entries. -/
def pathLt (a b : Value) : Except Raised Bool :=
  match a, b with
  | .str s, .str t => .ok (s < t)
  | _, _ =>
    match number? a, number? b with
    | some x, some y => .ok (numberLt x y)
    | _, _ => raise .typeError

def insertByPath (f : Value × Fields) :
    List (Value × Fields) → Except Raised (List (Value × Fields))
  | [] => .ok [f]
  | g :: rest => do
    let less ← pathLt g.1 f.1
    if less then do
      let rest ← insertByPath f rest
      .ok (g :: rest)
    else .ok (f :: g :: rest)

def sortByPath : List (Value × Fields) → Except Raised (List (Value × Fields))
  | [] => .ok []
  | f :: rest => do
    let rest ← sortByPath rest
    insertByPath f rest

/-- `json_bytes` of a payload with these entries. -/
def payloadBytes (entries : List Fields) : Bytes :=
  let payload := Value.obj [("schema_version", .str "1.0.0"),
    ("records", .arr (entries.map .obj))]
  (String.ofList (dumps payload ++ ['\n'])).toByteArray.data.toList

/-- `json_bytes(projection_for(ledger))` of a ledger with any entries. -/
def expectedProjection (items : List Value) : Except Raised Bytes := do
  let included ← items.mapM includedFields
  let entries ← (included.filterMap id).mapM withPath
  let sorted ← sortByPath entries
  .ok (payloadBytes (sorted.map Prod.snd))

def projectionFindings (T : WorkTree) (items : List Value) : Except Raised (List Finding) := do
  let expected ← expectedProjection items
  match T.read projectionPath with
  | none => .ok [.unreadableProjection]
  | some actual => .ok (findingUnless (actual == expected) .projection)

def annotationMatches (pattern path : String) : Bool :=
  pattern == "**" || Glob.fnmatchcase path.toList pattern.toList

/-- One of the patterns matches; those after it are not looked at. -/
def anyMatches (path : String) : List Value → Except Raised Bool
  | [] => .ok false
  | .str pattern :: rest => if annotationMatches pattern path then .ok true else anyMatches path rest
  | _ :: _ => raise .typeError

def patternsOf (table : Fields) : Except Raised (List Value) :=
  match table.lookup "path" with
  | none => .ok []
  | some (.str pattern) => .ok [.str pattern]
  | some patterns => members patterns

def selectLicensing (path : String) (selected : Value × Value) :
    Value → Except Raised (Value × Value)
  | .obj table => do
    let patterns ← patternsOf table
    let found ← anyMatches path patterns
    .ok (if found then (get table "SPDX-License-Identifier",
      get table "SPDX-FileCopyrightText") else selected)
  | _ => raise .attributeError

def annotationsOf (reuse : Fields) : Except Raised (List Value) :=
  match reuse.lookup "annotations" with
  | none => .ok []
  | some annotations => members annotations

/-- `reuse_license_for`: of the annotations that match, the last. -/
def reuseLicenseFor (reuse : Fields) (path : String) : Except Raised (Value × Value) := do
  let annotations ← annotationsOf reuse
  annotations.foldlM (selectLicensing path) (.null, .null)

def reuseIgnored (path : String) : Bool :=
  let name := (posixParts path).getLast?.getD ""
  reuseIgnoredNames.contains name || "LICENSE-".toList.isPrefixOf name.toList ||
    "LICENSES/".toList.isPrefixOf path.toList

def reuseRecordFindings (reuse : Fields) (r : Record) : Except Raised (List Finding) :=
  if reuseIgnored r.path then .ok []
  else do
    let (license, copyright) ← reuseLicenseFor reuse r.path
    .ok (findingUnless (pyEq license (get r.fields "license"))
        (.path r.path (.reuseLicense license (get r.fields "license"))) ++
      findingUnless (pyEq copyright (get r.fields "copyright")) (.path r.path .reuseCopyright))

/-- The document `REUSE.toml`, which is empty if it cannot be read. -/
def loadReuse (L : Libraries) (T : WorkTree) : Except Raised (List Finding × Fields) :=
  match T.readText "REUSE.toml" with
  | .error .os => .ok ([.unreadableReuse], [])
  | .error .unicode => raise (.unicodeDecodeError "REUSE.toml")
  | .ok text =>
    match L.toml text with
    | none => .ok ([.unreadableReuse], [])
    | some reuse => .ok ([], reuse)

def reuseFindings (L : Libraries) (T : WorkTree) (records : Records) :
    Except Raised (List Finding) := do
  let (unread, reuse) ← loadReuse L T
  let findings ← (Keyed.sortItems Record.path records.items).mapM (reuseRecordFindings reuse)
  .ok (unread ++ findingUnless (pyEq (get reuse "version") (.num (.int 1))) .reuseVersion ++
    findings.flatten)

section Texts

variable (T : WorkTree)

/-- The path of a licence text; an absolute name leaves the directory. -/
def licenseText (license : String) : String :=
  if WorkTree.isAbsolute license then license ++ ".txt" else "LICENSES/" ++ license ++ ".txt"

def licenseName (r : Record) : Except Raised (Option String) :=
  match get r.fields "license" with
  | .str license => .ok (some license)
  | value => if hashable value then .ok none else raise .typeError

def licenseFindings (records : Records) : Except Raised (List Finding) := do
  let names ← records.items.mapM licenseName
  .ok ((names.filterMap id).eraseDups.flatMap fun license =>
    findingUnless (T.isFile (licenseText license)) (.missingText license))

def mitFindings : List Finding :=
  match T.shown (baseCommit ++ ":LICENSE") with
  | none => [.baseLicense]
  | some original =>
    match T.read "LICENSES/MIT.txt" with
    | none => [.unreadableMit]
    | some preserved => findingUnless (original == preserved) .mitText

def rootLicenseFindings : Except Raised (List Finding) :=
  match T.readText "LICENSE" with
  | .error .os => .ok [.unreadableLicense]
  | .error .unicode => raise (.unicodeDecodeError "LICENSE")
  | .ok text => .ok (findingUnless
      ("Apache License\nVersion 2.0, January 2004".toList.isPrefixOf text) .rootLicense)

def componentFindings : Except Raised (List Finding) := do
  let components ← T.loadJson "compliance/container-components.json"
  let shape := match components with
    | .obj fields => match get fields "components" with
      | .arr _ => true
      | _ => false
    | _ => false
  .ok (findingUnless (!mentions "NOASSERTION" components) .componentsNoAssertion ++
    findingUnless shape .componentsShape)

/-- `value[key]`, if the value is a dictionary that has the key. -/
def subscript (key : String) : Value → Option Value
  | .obj fields => fields.lookup key
  | _ => none

/-- `set(value)`, if the value can be run through and its members have hashes. -/
def setOf (value : Value) : Option (List Value) :=
  match members value with
  | .ok items => if items.all hashable then some items else none
  | .error _ => none

def schemaClasses (schema : Value) : Option (List Value) :=
  (subscript "$defs" schema).bind fun value => (subscript "record" value).bind fun value =>
    (subscript "properties" value).bind fun value => (subscript "classification" value).bind
      fun value => (subscript "enum" value).bind setOf

def schemaFindings : Except Raised (List Finding) := do
  let schema ← T.loadJson "schemas/provenance.schema.json"
  match schemaClasses schema with
  | none => .ok [.schemaWithoutEnum]
  | some classes => .ok (findingUnless (classes.all (fun c => (knownClassification c).isSome) &&
      Classification.known.all fun c => classes.any (isText c.text)) .schemaEnum)

/-- The bytes of an ASCII text occur; replacing what cannot be decoded moves none of them. -/
def occursIn (part : String) (bytes : Bytes) : Bool :=
  bytes.tails.any fun tail => (encode part.toList).isPrefixOf tail

def noticeFindings (records : Records) : Except Raised (List Finding) :=
  match T.read "NOTICE" with
  | none => raise (.osError "NOTICE")
  | some bytes =>
    let upstream := records.items.any fun r =>
      r.classified .upstreamUnmodified || r.classified .upstreamDerivative
    .ok (findingUnless (upstream || !(occursIn "vLLM" bytes || occursIn "B12X" bytes)) .notice)

end Texts

section Attribution

open Regex
open Receipts (space oneOf)

variable (word : Char → Bool)

/-- `(?:#|//|/\*|\*|;|<!--)` -/
def commentOpening : Regex :=
  alt (char '#') <| alt (lit "//".toList) <| alt (lit "/*".toList) <| alt (char '*') <|
    alt (char ';') (lit "<!--".toList)

/-- `@dfi\b` -/
def handle : Regex := seq (litIgnoreCase "@dfi".toList) (boundary word)

/-- `(?:SPDX-FileCopyrightText:\s*)?Copyright(?: \(c\))?\s+\d{4}\s+@dfi\b` -/
def copyrightLine : Regex :=
  seq (opt (seq (litIgnoreCase "spdx-filecopyrighttext:".toList) (star space))) <|
    seq (litIgnoreCase "copyright".toList) <| seq (opt (litIgnoreCase " (c)".toList)) <|
    seq (plus space) <| seq (times 4 (cls fun c => (decimalValue c).isSome)) <|
    seq (plus space) (handle word)

/-- `(?:name|author|owner|modified_by):\s*["']?@dfi\b` -/
def nameLine : Regex :=
  seq (alt (litIgnoreCase "name".toList) <| alt (litIgnoreCase "author".toList) <|
    alt (litIgnoreCase "owner".toList) (litIgnoreCase "modified_by".toList)) <|
    seq (char ':') <| seq (star space) <| seq (opt (oneOf "\"'")) (handle word)

/-- `FORBIDDEN_ATTRIBUTION` after its `^`. -/
def forbiddenAttribution : Regex :=
  seq (star space) <| seq (opt (seq commentOpening (star space))) <|
    alt (copyrightLine word) (nameLine word)

/-- Where `^` matches under `re.MULTILINE`. -/
def lineStarts : Option Char → List Char → List Cursor
  | before, [] => if before.all (· == '\n') then [⟨before, []⟩] else []
  | before, c :: rest =>
    (if before.all (· == '\n') then [⟨before, c :: rest⟩] else []) ++ lineStarts (some c) rest

def attributes (text : List Char) : Bool :=
  (lineStarts none text).any fun cursor => !(run (forbiddenAttribution word) cursor).isEmpty

def attributionFindings (T : WorkTree) (path : String) : Except Raised (List Finding) :=
  if T.isFile path then
    match T.readText path with
    | .error .os => raise (.osError path)
    | .error .unicode => .ok []
    | .ok text => .ok (findingUnless (!attributes word text) (.path path .attribution))
  else .ok []

/-- The attributions in the tracked files, which only a strict audit looks for. -/
def strictFindings (T : WorkTree) (strict : Bool) (tracked : List String) :
    Except Raised (List Finding) :=
  if strict then do
    let findings ← (sortTexts tracked).mapM (attributionFindings word T)
    .ok findings.flatten
  else .ok []

end Attribution

section Audit

variable (L : Libraries) (T : WorkTree)

/-- The entries of a ledger of the top-level shape. -/
def ledgerItems : Value → Option (List Value)
  | .obj fields =>
    if isText "1.0.0" (get fields "schema_version") then
      match get fields "records" with
      | .arr items => some items
      | _ => none
    else none
  | _ => none

/-- What `audit` finds in the entries of the ledger. -/
def auditItems (strict : Bool) (items : List Value) : Except Raised (List Finding) := do
  let (found, records) ← auditRecords L T items
  let tracked ← T.tracked
  let coverage ← coverageFindings L T records tracked
  let projection ← projectionFindings T items
  let reuse ← reuseFindings L T records
  let licenses ← licenseFindings T records
  let root ← rootLicenseFindings T
  let components ← componentFindings T
  let schema ← schemaFindings T
  let notice ← noticeFindings T records
  let attributions ← strictFindings L.word T strict tracked
  .ok (found ++ coverage ++ projection ++ reuse ++ licenses ++ mitFindings T ++ root ++
    components ++ schema ++ notice ++ attributions)

def audit (strict : Bool) : Except Raised (List Finding) := do
  let ledger ← T.loadJson ledgerPath
  match ledgerItems ledger with
  | none => .ok [.ledgerShape]
  | some items => auditItems L T strict items

end Audit

end ChampionRuntime.Licensing
