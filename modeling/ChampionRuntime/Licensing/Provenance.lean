import ChampionRuntime.Lib.JsonText
import ChampionRuntime.Lib.Keyed
import ChampionRuntime.Lib.Outcome
import ChampionRuntime.Receipts.SourceTree
import Mathlib.Data.List.MinMax
import Mathlib.Data.Prod.Lex

/-!
# The provenance ledger

`scripts/register_provenance.py`. The answers of `git` and the digest are
parameters. A record is a JSON object that has a path; the other fields of the
ledger document are dropped when it is written.
-/
namespace ChampionRuntime.Licensing

open Lib Lib.Json Lib.PyText
open Receipts (Bytes posixParts)

def owner : String := "Copyright 2026 dfi / 0xdfi"

def modifier : String := "dfi / 0xdfi"

def legacyBaseCommit : String := "d1aca44241a5100bf7af6a5388985cb42ffca4cd"

def legacyRepository : String := "https://github.com/0xdfi/glm-5.2-dgx-spark-vllm027.git"

def spdxRepository : String := "https://github.com/spdx/license-list-data"

def ledgerPath : String := "compliance/provenance.json"

def projectionPath : String := "compliance/source-provenance.json"

def selfExemptPaths : List String := [ledgerPath, projectionPath]

def subjectExcludedPaths : List String :=
  selfExemptPaths ++ ["docs/release-status.md", "publication/status.json"]

inductive Classification where
  | projectApache
  | existingMit
  | contributedMit
  | upstreamUnmodified
  | upstreamDerivative
  | generatedEvidence
  | licenseTextApache
  | licenseTextMit
  | licenseTextBsd3Clause
  deriving DecidableEq, Repr

namespace Classification

def text : Classification → String
  | projectApache => "project-apache"
  | existingMit => "existing-mit"
  | contributedMit => "contributed-mit"
  | upstreamUnmodified => "upstream-unmodified"
  | upstreamDerivative => "upstream-derivative"
  | generatedEvidence => "generated-evidence"
  | licenseTextApache => "license-text-apache"
  | licenseTextMit => "license-text-mit"
  | licenseTextBsd3Clause => "license-text-bsd-3-clause"

/-- `KNOWN_CLASSIFICATIONS`, sorted as a message lists them. -/
def known : List Classification :=
  [contributedMit, existingMit, generatedEvidence, licenseTextApache, licenseTextBsd3Clause,
    licenseTextMit, projectApache, upstreamDerivative, upstreamUnmodified]

def ofText? (s : String) : Option Classification := known.find? fun c => c.text == s

/-- `POLICY`: the copyright and the licence of a fresh record. -/
def policy : Classification → Option (String × String)
  | projectApache => some (owner, "Apache-2.0")
  | existingMit => some ("Copyright (c) 2026", "MIT")
  | generatedEvidence => some (owner, "Apache-2.0")
  | licenseTextApache => some (owner, "Apache-2.0")
  | licenseTextMit => some ("Copyright (c) 2026", "MIT")
  | licenseTextBsd3Clause => some (owner, "BSD-3-Clause")
  | _ => none

def requiresPreseededRecord : List Classification :=
  [contributedMit, upstreamUnmodified, upstreamDerivative]

/-- The classifications whose records name the modifier. -/
def namesModifier : List Classification := [projectApache, existingMit, upstreamDerivative]

/-- The file of a licence text in its origin. -/
def suffix? : Classification → Option String
  | licenseTextApache => some "Apache-2.0.txt"
  | licenseTextBsd3Clause => some "BSD-3-Clause.txt"
  | _ => none

theorem text_injective {c d : Classification} (h : c.text = d.text) : c = d := by
  cases c <;> cases d <;> first | rfl | exact absurd h (by decide)

end Classification

inductive CheckError where
  | staleRemoved (path : String)
  | absent (path : String)
  | relicense (path : String) (found : Option Value) (declared : Classification)
  | staleTarget (path : String)
  | unreadableProjection
  | projection

inductive ProvenanceError where
  | git (arguments : List String)
  | stagedRequired
  | unsafePath (path : String)
  | mapEntry (item : String)
  | unknownClassification (text : String)
  | conflicting (lead : String)
  | malformedRename
  | malformedPath
  | cannotLoad
  | schemaVersion
  | recordsNotArray
  | recordWithoutPath
  | duplicateRecord (path : String)
  | selfRecords
  | indexEntry (path : String)
  | preseeded (path : String) (classification : Classification)
  | removedAbsent (path : String)
  | unclassified (path : String)
  | relicense (path : String) (found : Option Value) (declared : Classification)
  | modifiedUnmodified (path : String)
  | check (errors : List CheckError)

/-- The exceptions the script does not raise itself. -/
inductive Uncaught where
  | indexError | typeError | keyError (key : String)
  deriving DecidableEq, Repr

inductive Failure where
  | refused (error : ProvenanceError)
  | uncaught (exception : Uncaught)

/-- How Python writes a text, a field of a record, an error of the reader and
what git printed. -/
structure Printer where
  repr : String → String
  str : Option Value → String
  reader : String
  stderr : List String → String

def relicenseMessage (P : Printer) (path : String) (found : Option Value)
    (declared : Classification) : String :=
  "refusing to relicense " ++ path ++ ": ledger has " ++ P.str found ++ ", map declares " ++
    declared.text

def CheckError.message (P : Printer) : CheckError → String
  | staleRemoved path => "stale removed provenance record: " ++ path
  | absent path => "staged distributed path is absent from provenance: " ++ path
  | relicense path found declared => relicenseMessage P path found declared
  | staleTarget path => "stale target_sha256 for staged path: " ++ path
  | unreadableProjection => "cannot read " ++ projectionPath ++ ": " ++ P.reader
  | projection => projectionPath ++ " is not the deterministic ledger projection"

def ProvenanceError.message (P : Printer) : ProvenanceError → String
  | git arguments => "git " ++ " ".intercalate arguments ++ " failed: " ++ P.stderr arguments
  | stagedRequired => "--staged is required"
  | unsafePath path => "unsafe repository path: " ++ P.repr path
  | mapEntry item => "classification map entry must be PATH=CLASSIFICATION: " ++ P.repr item
  | unknownClassification text => "unknown classification " ++ P.repr text ++
      "; expected one of: " ++ ", ".intercalate (Classification.known.map Classification.text)
  | conflicting lead => "conflicting classifications for " ++ P.repr lead
  | malformedRename => "malformed staged rename/copy record"
  | malformedPath => "malformed staged path record"
  | cannotLoad => "cannot load " ++ ledgerPath ++ ": " ++ P.reader
  | schemaVersion => ledgerPath ++ ": unsupported or missing schema_version"
  | recordsNotArray => ledgerPath ++ ": records must be an array"
  | recordWithoutPath => ledgerPath ++ ": every record requires a path"
  | duplicateRecord path => ledgerPath ++ ": duplicate record for " ++ path
  | selfRecords => "ledger/projection target-hash records are forbidden"
  | indexEntry path => "staged distributed path is absent or conflicted: " ++ path
  | preseeded path classification => path ++ ": " ++ classification.text ++
      " requires a pre-seeded record with explicit upstream copyright, license, origin, and " ++
      "base hash"
  | removedAbsent path => "removed distributed path is absent from ledger: " ++ path
  | unclassified path => path ++ ": explicit classification required via --classification-map"
  | relicense path found declared => relicenseMessage P path found declared
  | modifiedUnmodified path =>
      path ++ ": modified bytes cannot retain upstream-unmodified classification"
  | check errors => "\n".intercalate (errors.map (CheckError.message P))

variable {α : Type}

def refuse (e : ProvenanceError) : Except Failure α := .error (.refused e)

/-- `PurePosixPath(value).as_posix()` of a relative path. -/
def asPosix (value : String) : String :=
  match posixParts value with
  | [] => "."
  | parts => String.ofList (joinWith '/' (parts.map String.toList))

def validatePath (value : String) : Except Failure String :=
  if value = "" ∨ value.toList.head? = some '/' ∨ ".." ∈ posixParts value ∨
      value.toList.getLast? = some '/' then refuse (.unsafePath value)
  else .ok (asPosix value)

/-- The classifications by path, with distinct paths. -/
abbrev ClassificationMap := List (String × Classification)

/-- One entry of a map, read: what stands before the first `=` and after it. -/
def parseItem (item : List Char) : Except Failure (String × Classification) :=
  if '=' ∈ item then do
    let lead := item.takeWhile (· != '=')
    let classification := (item.dropWhile (· != '=')).drop 1
    let lead ← validatePath (String.ofList (dropTrailing (· == '/') (strip lead)))
    match Classification.ofText? (String.ofList (strip classification)) with
    | none => refuse (.unknownClassification (String.ofList (strip classification)))
    | some declared => .ok (lead, declared)
  else refuse (.mapEntry (String.ofList item))

def addItem (result : ClassificationMap) (item : List Char) :
    Except Failure ClassificationMap := do
  let (lead, declared) ← parseItem item
  match result.lookup lead with
  | none => .ok (result ++ [(lead, declared)])
  | some previous => if previous = declared then .ok result else refuse (.conflicting lead)

def parseClassificationMaps (values : List String) : Except Failure ClassificationMap :=
  (values.flatMap fun value => (splitOnChar ',' value.toList).filter (· ≠ [])).foldlM addItem []

/-- `classification_for`: of the paths at or above the given one, the longest. -/
def classificationFor (path : String) (mapping : ClassificationMap) : Option Classification :=
  let candidates := mapping.filter fun entry =>
    path == entry.1 || (entry.1 ++ "/").toList.isPrefixOf path.toList
  (candidates.argmax fun entry => toLex (entry.1.length, entry.1)).map Prod.snd

/-- A staged change: the status letter, the old path and the new one. -/
structure Change where
  code : Char
  old : Option String
  new : Option String
  deriving DecidableEq, Repr

/-- The changes in the fields of `--name-status -z`. -/
def parseChanges : List String → Except Failure (List Change)
  | [] => .ok []
  | status :: rest =>
    match status.toList.head? with
    | none => .error (.uncaught .indexError)
    | some code =>
      if code = 'R' ∨ code = 'C' then
        match rest with
        | old :: new :: rest => do
          let old ← validatePath old
          let new ← validatePath new
          let changes ← parseChanges rest
          .ok (⟨code, some old, some new⟩ :: changes)
        | _ => refuse .malformedRename
      else
        match rest with
        | path :: rest => do
          let path ← validatePath path
          let changes ← parseChanges rest
          .ok ((if code = 'D' then ⟨code, some path, none⟩ else ⟨code, none, some path⟩) :: changes)
        | [] => refuse .malformedPath

/-- The fields of the output, the last one being empty after its terminator. -/
def stagedFields (raw : List Char) : List String :=
  let fields := (splitOnChar '\x00' raw).map String.ofList
  if fields.getLast? = some "" then fields.dropLast else fields

/-- An entry of `git ls-files --stage`. -/
structure IndexEntry where
  path : String
  stage : ℕ
  oid : String
  deriving DecidableEq, Repr

/-- The answers of `git`; an answer that is absent is a command that failed. -/
structure Repository where
  /-- `git diff --cached --name-status -z --find-renames` -/
  diff : Option (List Char)
  /-- the entries of `git ls-files` -/
  index : List IndexEntry
  /-- the paths a pathspec selects -/
  pathspec : String → Option (String → Bool)
  /-- `git cat-file blob` -/
  blob : String → Option Bytes
  /-- `git rev-parse --verify` -/
  revParse : String → Option String
  /-- `git remote get-url origin` -/
  origin : Option String

namespace Repository

variable (repo : Repository)

def stagedChanges : Except Failure (List Change) :=
  match repo.diff with
  | none => refuse (.git ["diff", "--cached", "--name-status", "-z", "--find-renames"])
  | some raw => parseChanges (stagedFields raw)

def catFile (oid : String) : Except Failure Bytes :=
  match repo.blob oid with
  | none => refuse (.git ["cat-file", "blob", oid])
  | some bytes => .ok bytes

def indexBytes (path : String) : Except Failure Bytes :=
  match repo.pathspec path with
  | none => refuse (.git ["ls-files", "--stage", "-z", "--", path])
  | some selects =>
    match repo.index.filter fun e => selects e.path && e.stage == 0 && e.path == path with
    | [entry] => repo.catFile entry.oid
    | _ => refuse (.indexEntry path)

def revisionBytes (revision path : String) : Except Failure (Option Bytes) :=
  match repo.revParse (revision ++ ":" ++ path) with
  | none => .ok none
  | some oid => (repo.catFile oid).map some

def headBytes (path : String) : Except Failure (Option Bytes) := repo.revisionBytes "HEAD" path

def headCommit : Option String := repo.revParse "HEAD"

/-- `git ls-files -z`, sorted. -/
def trackedPaths : List String := (repo.index.map IndexEntry.path).insertionSort (· ≤ ·)

end Repository

structure Record where
  fields : Fields
  path : String
  path_field : fields.lookup "path" = some (.str path)

namespace Record

def get (r : Record) (key : String) : Option Value := r.fields.lookup key

/-- `record["path"] = path`. -/
def setPath (r : Record) (path : String) : Record where
  fields := setField r.fields "path" (.str path)
  path := path
  path_field := by simp [lookup_setField]

/-- `record[key] = text`. -/
def setText (r : Record) (key text : String) (h : key ≠ "path") : Record where
  fields := setField r.fields key (.str text)
  path := r.path
  path_field := by rw [lookup_setField, if_neg h.symm, r.path_field]

@[simp] theorem path_setPath (r : Record) (path : String) : (r.setPath path).path = path := rfl

@[simp] theorem path_setText (r : Record) (key text : String) (h : key ≠ "path") :
    (r.setText key text h).path = r.path := rfl

@[simp] theorem get_setPath (r : Record) (path key : String) :
    (r.setPath path).get key = if key = "path" then some (.str path) else r.get key :=
  lookup_setField _ _ _ _

@[simp] theorem get_setText (r : Record) (key text key' : String) (h : key ≠ "path") :
    (r.setText key text h).get key' = if key' = key then some (.str text) else r.get key' :=
  lookup_setField _ _ _ _

/-- `record.get(key) == text`. -/
def holds (r : Record) (key text : String) : Bool :=
  match r.get key with
  | some (.str s) => s == text
  | _ => false

theorem holds_iff {r : Record} {key text : String} :
    r.holds key text = true ↔ r.get key = some (.str text) := by
  unfold holds
  split <;> simp_all

def classified (r : Record) (c : Classification) : Bool := r.holds "classification" c.text

end Record

abbrev Records := Keyed Record.path

def optional : Option String → Value
  | none => .null
  | some s => .str s

/-- Where the bytes of a fresh record come from. -/
structure Origin where
  repository : Option String
  commit : Option String
  path : String
  content : Option Bytes

section Digest

variable (sha256 : Bytes → String) (repo : Repository)

/-- The origin of a fresh record, which is the head's unless the classification
names another. -/
def originFor (path : String) (classification : Classification) : Except Failure Origin := do
  let content ← repo.headBytes path
  let commit := if content.isSome then repo.headCommit else none
  let origin : Origin := ⟨repo.origin, commit, path, content⟩
  if classification = .existingMit then do
    let legacy ← repo.revisionBytes legacyBaseCommit path
    match legacy with
    | none => .ok origin
    | some bytes => .ok ⟨some legacyRepository, some legacyBaseCommit, path, some bytes⟩
  else if classification = .licenseTextMit ∧ path = "LICENSES/MIT.txt" then do
    let legacy ← repo.revisionBytes legacyBaseCommit "LICENSE"
    .ok ⟨some legacyRepository, some legacyBaseCommit, "LICENSE", legacy⟩
  else if "license-text-".toList.isPrefixOf classification.text.toList then do
    let bytes ← repo.indexBytes path
    match classification.suffix? with
    | none => .error (.uncaught (.keyError classification.text))
    | some suffix => .ok ⟨some spdxRepository, none, "text/" ++ suffix, some bytes⟩
  else .ok origin

def newRecord (path : String) (classification : Classification) : Except Failure Record := do
  if classification ∈ Classification.requiresPreseededRecord then
    refuse (.preseeded path classification)
  else
    match classification.policy with
    | none => .error (.uncaught (.keyError classification.text))
    | some (copyright, license) => do
      let origin ← originFor repo path classification
      .ok {
        fields := [
          ("path", .str path),
          ("classification", .str classification.text),
          ("copyright", .str copyright),
          ("license", .str license),
          ("origin_repository", optional origin.repository),
          ("origin_commit", optional origin.commit),
          ("origin_path", .str origin.path),
          ("base_sha256", optional (origin.content.map sha256)),
          ("target_sha256", .str ""),
          ("modified_by", .str modifier),
          ("evidence", .arr [])]
        path := path
        path_field := rfl }

def subjectIncluded (r : Record) : Bool :=
  !r.classified .generatedEvidence && !subjectExcludedPaths.contains r.path

/-- `normalized_payload`: the records by path. -/
def normalizedPayload (records : List Record) : List Record := Keyed.sortItems Record.path records

def projectionFor (ledger : List Record) : List Record :=
  normalizedPayload (ledger.filter subjectIncluded)

/-- `json_bytes` of a payload with these records. -/
def jsonBytes (records : List Record) : Bytes :=
  let payload := Value.obj [("schema_version", .str "1.0.0"),
    ("records", .arr (records.map fun r => .obj r.fields))]
  (String.ofList (dumps payload ++ ['\n'])).toByteArray.data.toList

/-- The object of a record that has a path. -/
def readRecord : Value → Except Failure Record
  | .obj fields =>
    match h : fields.lookup "path" with
    | some (.str path) => .ok ⟨fields, path, h⟩
    | _ => refuse .recordWithoutPath
  | _ => refuse .recordWithoutPath

/-- The records of a ledger, whose paths must differ from those seen before. -/
def readRecords : List String → List Value → Except Failure (List Record)
  | _, [] => .ok []
  | seen, v :: rest => do
    let record ← readRecord v
    let path ← validatePath record.path
    require (!seen.contains path) (.refused (.duplicateRecord path))
    let records ← readRecords (path :: seen) rest
    .ok (record :: records)

/-- `load_ledger` of the text of the file, which is absent if it cannot be read. -/
def loadLedger (text : Option (List Char)) : Except Failure (List Record) :=
  match text.bind (loads .plain) with
  | none => refuse .cannotLoad
  | some (.obj fields) =>
    match fields.lookup "schema_version" with
    | some (.str "1.0.0") =>
      match fields.lookup "records" with
      | some (.arr items) => readRecords [] items
      | _ => refuse .recordsNotArray
    | _ => refuse .schemaVersion
  | some _ => refuse .schemaVersion

def Change.exempt (c : Change) : Bool :=
  (c.old.any selfExemptPaths.contains) || (c.new.any selfExemptPaths.contains)

/-- The path whose record the change takes away. -/
def Change.removed (c : Change) : Option String :=
  if c.code = 'D' ∨ c.code = 'R' then c.old else none

/-- The record the change takes away, and the records without it. -/
def popOld (records : Records) (c : Change) : Except Failure (Option Record × Records) :=
  match c.removed with
  | none => .ok (none, records)
  | some path =>
    match records.find? path with
    | none => refuse (.removedAbsent path)
    | some prior => .ok (some prior, records.erase path)

/-- The record to go on with: the given one if its classification is the
declared one, else a fresh one. -/
def baseRecord (path : String) (declared : Classification) :
    Option Record → Except Failure Record
  | none => newRecord sha256 repo path declared
  | some r =>
    if r.classified declared then .ok r
    else refuse (.relicense path (r.get "classification") declared)

/-- The bytes of a file that counts as unmodified stay those of its record. A
set does not take a list or an object as a member. -/
def checkUnmodified (path : String) (declared : Classification) (previous : Option Value)
    (digest : String) : Except Failure Unit :=
  if declared = .upstreamUnmodified then
    match previous with
    | none | some .null => .ok ()
    | some (.str s) => require (s == digest) (.refused (.modifiedUnmodified path))
    | some (.arr _) | some (.obj _) => .error (.uncaught .typeError)
    | some _ => refuse (.modifiedUnmodified path)
  else .ok ()

/-- The record at its path with the digest of the staged bytes. -/
def stamp (r : Record) (path digest : String) (declared : Classification) : Record :=
  let r := (r.setPath path).setText "target_sha256" digest (by decide)
  if declared ∈ Classification.namesModifier then r.setText "modified_by" modifier (by decide)
  else r

def registered (mapping : ClassificationMap) (path : String) (found : Option Record) :
    Except Failure Record :=
  match classificationFor path mapping with
  | none => refuse (.unclassified path)
  | some declared => do
    let record ← baseRecord sha256 repo path declared found
    let bytes ← repo.indexBytes path
    checkUnmodified path declared (record.get "target_sha256") (sha256 bytes)
    .ok (stamp record path (sha256 bytes) declared)

/-- One round of the loop of `update_ledger`. -/
def updateChange (mapping : ClassificationMap) (records : Records) (c : Change) :
    Except Failure Records :=
  if c.exempt then .ok records
  else do
    let (prior, records) ← popOld records c
    match c.new with
    | none => .ok records
    | some path => do
      let found := if c.code = 'R' then prior else records.find? path
      let record ← registered sha256 repo mapping path found
      .ok (records.insert record)

/-- The tracked paths no staged change leads to, without the ledger files. -/
def unstagedPaths (changes : List Change) : List String :=
  repo.trackedPaths.filter fun path =>
    !selfExemptPaths.contains path && !(changes.filterMap Change.new).contains path

def addition (path : String) : Change := ⟨'A', none, some path⟩

/-- An empty ledger is filled with the tracked paths that are not staged. -/
def bootstrap (ledger : List Record) (changes : List Change) : Except Failure (List Change) :=
  if ledger.isEmpty then do
    let added ← (unstagedPaths repo changes).mapM validatePath
    .ok (changes ++ added.map addition)
  else .ok changes

def updateLedger (ledger : List Record) (changes : List Change) (mapping : ClassificationMap) :
    Except Failure (List Record) := do
  let changes ← bootstrap repo ledger changes
  let records ← changes.foldlM (updateChange sha256 repo mapping) (Keyed.ofList ledger)
  .ok (normalizedPayload records.items)

/-- What `verify_check` reports about the new path of a change. -/
def checkNew (mapping : ClassificationMap) (records : Records) (path : String) :
    Except Failure (List CheckError) :=
  match records.find? path with
  | none => .ok [.absent path]
  | some r => do
    let relicensed := match classificationFor path mapping with
      | none => []
      | some declared =>
        if r.classified declared then []
        else [.relicense path (r.get "classification") declared]
    let bytes ← repo.indexBytes path
    let stale := if r.holds "target_sha256" (sha256 bytes) then [] else [.staleTarget path]
    .ok (relicensed ++ stale)

/-- A record is left of a path the change takes away. -/
def checkRemoved (records : Records) (c : Change) : List CheckError :=
  match c.removed with
  | none => []
  | some path => if (records.find? path).isSome then [.staleRemoved path] else []

/-- One round of the loop of `verify_check`. -/
def checkChange (mapping : ClassificationMap) (records : Records) (c : Change) :
    Except Failure (List CheckError) :=
  if c.exempt then .ok []
  else
    match c.new with
    | none => .ok (checkRemoved records c)
    | some path => do
      let errors ← checkNew sha256 repo mapping records path
      .ok (checkRemoved records c ++ errors)

def checkProjection (ledger : List Record) : Option Bytes → List CheckError
  | none => [.unreadableProjection]
  | some bytes => if bytes = jsonBytes (projectionFor ledger) then [] else [.projection]

/-- `verify_check`, with the bytes of the projection file. -/
def verifyCheck (ledger : List Record) (changes : List Change) (mapping : ClassificationMap)
    (projection : Option Bytes) : Except Failure Unit := do
  let errors ← changes.mapM (checkChange sha256 repo mapping (Keyed.ofList ledger))
  match errors.flatten ++ checkProjection ledger projection with
  | [] => .ok ()
  | errors => refuse (.check errors)

structure Arguments where
  staged : Bool
  classificationMap : List String
  check : Bool

/-- The two files below `compliance/`: the ledger's text and the projection. -/
structure Files where
  ledger : Option (List Char)
  projection : Option Bytes

inductive Done where
  | checked
  | written (ledger projection : Bytes) (changes : ℕ)

def Done.message : Done → String
  | checked => "provenance-check: PASS"
  | written _ _ changes => "provenance-register: PASS (" ++ toString changes ++ " staged change(s))"

/-- `main` up to the report of an error. -/
def main (args : Arguments) (files : Files) : Except Failure Done := do
  require args.staged (.refused .stagedRequired)
  let mapping ← parseClassificationMaps args.classificationMap
  let changes ← repo.stagedChanges
  let ledger ← loadLedger files.ledger
  require (!ledger.any fun r => selfExemptPaths.contains r.path) (.refused .selfRecords)
  if args.check then do
    verifyCheck sha256 repo ledger changes mapping files.projection
    .ok .checked
  else do
    let updated ← updateLedger sha256 repo ledger changes mapping
    -- the bootstrap extends the list of changes the message counts
    let counted ← bootstrap repo ledger changes
    .ok (.written (jsonBytes updated) (jsonBytes (projectionFor updated)) counted.length)

end Digest

end ChampionRuntime.Licensing
