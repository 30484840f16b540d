import ChampionRuntime.Lib.Json
import ChampionRuntime.Lib.KeySort
import ChampionRuntime.Scans.ObjectListing
import Mathlib.Data.Prod.Lex
import Mathlib.Data.String.Basic

/-!
# The secret scan

`scan_secrets.sh` looks for lines that its patterns match in the blobs of a history or the files
of a bundle. The baseline of a source scan acknowledges findings one by one; what it may
acknowledge is checked against the baseline's own commit.
-/
namespace ChampionRuntime.Scans.Secrets

open Lib Lib.PyText
open Lib.Json (Value)

/-- A finding, and likewise an entry of a baseline. -/
structure Entry where
  rule : String
  object : Name
  path : Path
  line : ℤ
  deriving DecidableEq

def privateNetwork : String := "private-network"

/-- An entry of `RULES` with the search of its pattern. -/
structure Pattern where
  rule : String
  search : List Char → Bool

/-- The patterns, what `private_path_scan_view` makes of a line, and whether a line holds the
beginning of a URL. -/
structure Scanner where
  patterns : List Pattern
  privatePathScanView : List Char → List Char
  hasUrl : List Char → Bool

/-- The rule matches the line, which is not one of pinned versions. -/
def Scanner.hits (scanner : Scanner) (pattern : Pattern) (line : List Char) : Bool :=
  if pattern.rule = privateNetwork ∧ occurs ['=', '='] line = true ∧ scanner.hasUrl line = false then
    false
  else
    pattern.search (if pattern.rule = "private-path" then scanner.privatePathScanView line else line)

/-- A blob or a file: its name, its path and its text. -/
abbrev Record := Name × Path × List Char

def Scanner.recordFindings (scanner : Scanner) (record : Record) : List Entry :=
  let (object, path, text) := record
  if '\x00' ∈ text then []
  else
    ((splitlines (universalNewlines text)).zipIdx 1).flatMap fun (line, number) =>
      (scanner.patterns.filter fun pattern => scanner.hits pattern line).map fun pattern =>
        ⟨pattern.rule, object, path, number⟩

/-- An element joins a list that does not hold it yet. -/
def addNew {α : Type} [DecidableEq α] (l : List α) (a : α) : List α := if a ∈ l then l else l ++ [a]

def Scanner.findings (scanner : Scanner) (records : List Record) : List Entry :=
  (records.flatMap scanner.recordFindings).foldl addNew []

structure Git where
  /-- what a revision that can be resolved reaches -/
  history : String → Option History
  /-- `git_commit_exists` -/
  commitExists : String → Bool
  isAncestor : String → String → Bool
  index : List IndexEntry
  /-- `git cat-file blob`, decoded; empty for what is no blob -/
  content : Name → List Char

def Git.sourceBlobs (git : Git) (revision : String) : List Record :=
  let values := (git.history revision).elim [] (fun h => listedPairs h.revList) ++
    stagedPairs git.index
  (values.foldl addNew []).map fun (object, path) => (object, path, git.content object)

abbrev Fields := List (String × Value)

/-- `set(fields) == keys` -/
def hasKeys (fields : Fields) (keys : List String) : Bool :=
  (fields.all fun field => keys.contains field.1) &&
    keys.all fun key => fields.any fun field => field.1 == key

def baselineKeys : List String := ["schema_version", "base_commit_scope", "justification", "accepted"]

def itemKeys : List String := ["rule", "object", "path", "line"]

/-- `[0-9a-f]{40}` -/
def isObjectId (s : String) : Bool := s.toList.length = 40 && s.toList.all isHexLower

/-- Relative, without a parent directory and without wildcards. -/
def isSafePath (path : List Char) : Bool :=
  path.head? ≠ some '/' && !(splitOnChar '/' path).contains ['.', '.'] &&
    path.all fun c => c ∉ "*?[".toList

def isVersion : Option Value → Bool
  | some (.str s) => s == "1.0.0"
  | _ => false

def isJustification : Option Value → Bool
  | some (.str s) => 20 ≤ (strip s.toList).length
  | _ => false

def isPrivateNetwork : Option Value → Bool
  | some (.str s) => s == privateNetwork
  | _ => false

def objectOf : Option Value → Option Name
  | some (.str s) => if isObjectId s then some s.toList else none
  | _ => none

def pathOf : Option Value → Option Path
  | some (.str s) => if isSafePath s.toList then some s.toList else none
  | _ => none

def lineOf : Option Value → Option ℤ
  | some (.num (.int n)) => if 1 ≤ n then some n else none
  | _ => none

def scopeErrors (git : Git) (revision : String) : Option Value → List String
  | some (.str scope) =>
    if isObjectId scope = false then ["baseline base_commit_scope must be one full lowercase Git commit"]
    else if git.commitExists scope = false then
      ["baseline base_commit_scope is unavailable in the scanned repository"]
    else if git.commitExists revision = false ∨ git.isAncestor scope revision = false then
      ["baseline scope is not an ancestor of the scanned revision"]
    else []
  | _ => ["baseline base_commit_scope must be one full lowercase Git commit"]

/-- The lines with a blank of a listing, as objects and paths. -/
def scopedPairs (output : List Char) : List (Name × Path) :=
  ((splitlines (universalNewlines output)).filter fun line => line.contains ' ').map partitionSpace

def scopedObjects (git : Git) : Option Value → List (Name × Path)
  | some (.str scope) =>
    if isObjectId scope && git.commitExists scope then
      (git.history scope).elim [] fun h => scopedPairs h.revList
    else []
  | _ => []

def fieldErrors (label : String) (fields : Fields) : List String :=
  (if isPrivateNetwork (fields.lookup "rule") then []
    else [label ++ " may acknowledge only private-network"]) ++
  (if (objectOf (fields.lookup "object")).isSome then []
    else [label ++ " object must be one exact Git blob ID"]) ++
  (if (pathOf (fields.lookup "path")).isSome then []
    else [label ++ " path must be one exact safe path without wildcards"]) ++
  (if (lineOf (fields.lookup "line")).isSome then []
    else [label ++ " line must be one exact positive integer"])

/-- The tuple of an item whose fields are all right. -/
def entryOf (fields : Fields) : Option Entry :=
  if isPrivateNetwork (fields.lookup "rule") then do
    let object ← objectOf (fields.lookup "object")
    let path ← pathOf (fields.lookup "path")
    let line ← lineOf (fields.lookup "line")
    some ⟨privateNetwork, object, path, line⟩
  else none

abbrev BaselineState := List Entry × List String

def acceptFields (reachable : List (Name × Path)) (label : String) (state : BaselineState)
    (fields : Fields) : BaselineState :=
  let errors := state.2 ++ fieldErrors label fields
  match entryOf fields with
  | none => (state.1, errors)
  | some entry =>
    (addNew state.1 entry, errors ++
      (if entry ∈ state.1 then [label ++ " duplicates another baseline tuple"] else []) ++
      if (entry.object, entry.path) ∈ reachable then []
      else [label ++ " object/path is not reachable from base_commit_scope"])

/-- The body of the loop over the accepted items. -/
def acceptItem (reachable : List (Name × Path)) (state : BaselineState) (numbered : Value × ℕ) :
    BaselineState :=
  let label := "baseline accepted[" ++ toString numbered.2 ++ "]"
  match numbered.1 with
  | .obj fields =>
    if hasKeys fields itemKeys then acceptFields reachable label state fields
    else (state.1, state.2 ++ [label ++ " must contain exactly rule, object, path, line"])
  | _ => (state.1, state.2 ++ [label ++ " must contain exactly rule, object, path, line"])

def headErrors (git : Git) (revision : String) (fields : Fields) : List String :=
  (if isVersion (fields.lookup "schema_version") then []
    else ["baseline schema_version must be 1.0.0"]) ++
  scopeErrors git revision (fields.lookup "base_commit_scope") ++
  (if isJustification (fields.lookup "justification") then []
    else ["baseline requires a substantive non-secret justification"])

def payloadEntries (git : Git) (revision : String) (payload : Value) : BaselineState :=
  let refused : BaselineState :=
    ([], ["baseline must contain exactly schema_version, base_commit_scope, justification, accepted"])
  match payload with
  | .obj fields =>
    if hasKeys fields baselineKeys then
      let errors := headErrors git revision fields
      match fields.lookup "accepted" with
      | some (.arr (item :: items)) =>
        ((item :: items).zipIdx).foldl
          (acceptItem (scopedObjects git (fields.lookup "base_commit_scope"))) ([], errors)
      | _ => ([], errors ++ ["baseline accepted must be a non-empty array"])
    else refused
  | _ => refused

/-- A file: what its JSON text is loaded as, or why it cannot be loaded. -/
abbrev BaselineFile := Except String Value

def baselineEntries (git : Git) (revision : String) : Option BaselineFile → BaselineState
  | none => ([], [])
  | some (.error e) => ([], ["cannot load exact history baseline: " ++ e])
  | some (.ok payload) => payloadEntries git revision payload

inductive Mode where
  | source
  | image
  deriving DecidableEq

/-- The arguments of a scan and what it finds in its environment. -/
structure Scan where
  mode : Mode
  revision : String
  git : Git
  /-- the files under the root of an image scan -/
  bundle : List Record
  scanner : Scanner
  baselineArgument : Option BaselineFile
  /-- the baseline that the scanned repository brings along -/
  defaultBaseline : Option BaselineFile

structure Report where
  passed : Bool
  acceptedBaseline : List Entry
  baselineErrors : List String
  findings : List Entry

namespace Scan

variable (s : Scan)

def findings : List Entry :=
  s.scanner.findings (match s.mode with
    | .source => s.git.sourceBlobs s.revision
    | .image => s.bundle)

def baselineFile : Option BaselineFile :=
  match s.mode with
  | .source => s.baselineArgument.orElse fun _ => s.defaultBaseline
  | .image => s.baselineArgument

def baseline : BaselineState :=
  if s.mode ≠ .source ∧ s.baselineFile.isSome then
    ([], ["history baseline is accepted only in source mode"])
  else baselineEntries s.git s.revision s.baselineFile

end Scan

def rowKey (e : Entry) : Lex (String × Lex (ℤ × Lex (String × String))) :=
  toLex (String.ofList e.path, toLex (e.line, toLex (e.rule, String.ofList e.object)))

def tupleKey (e : Entry) : Lex (String × Lex (String × Lex (String × ℤ))) :=
  toLex (e.rule, toLex (String.ofList e.object, toLex (String.ofList e.path, e.line)))

def staleError (e : Entry) : String :=
  "stale or mismatched baseline tuple: " ++ e.rule ++ " " ++ String.ofList e.object ++ " " ++
    String.ofList e.path ++ ":" ++ toString e.line

def Scan.report (s : Scan) : Report :=
  let rows := sortBy rowKey s.findings
  let (baseline, errors) := s.baseline
  let stale := sortBy tupleKey (baseline.filter fun e => e ∉ rows)
  let baselineErrors := errors ++ stale.map staleError
  let accepted := rows.filter fun row => row ∈ baseline
  let unaccepted := rows.filter fun row => row ∉ baseline
  ⟨unaccepted.isEmpty && baselineErrors.isEmpty, accepted, baselineErrors, unaccepted⟩

end ChampionRuntime.Scans.Secrets
