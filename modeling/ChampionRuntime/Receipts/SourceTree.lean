import ChampionRuntime.Lib.Split
import ChampionRuntime.Receipts.Content
import Mathlib.Data.List.Dedup

/-!
# Content identities of a source tree

`champion_runtime/receipts.py` from `_tracked_paths` on. A tree lists the
entries below its root, as `lstat` sees them, with every parent being a
directory. Enumeration is either what `git ls-files` prints or a recursive walk,
whose order the operating system chooses.
-/
namespace ChampionRuntime.Receipts

open Lib Lib.Json

/-- A file name: never empty, never a dot name, never with a slash. -/
def isName (s : String) : Bool := s != "" && s != "." && s != ".." && !s.toList.contains '/'

abbrev Name := { s : String // isName s = true }

abbrev Path := List Name

def pathChars (path : Path) : List Char := joinWith '/' (path.map fun name => name.val.toList)

/-- `as_posix()` of a relative path. -/
def pathText (path : Path) : String := if path = [] then "." else String.ofList (pathChars path)

/-- What `lstat` reports. -/
inductive Kind where
  | file (bytes : Bytes)
  | dir
  | symlink
  | other
  deriving DecidableEq, Repr

structure Tree where
  entries : List (Path × Kind)
  nodup : (entries.map Prod.fst).Nodup
  below : ∀ e ∈ entries, e.1 ≠ []
  parents : ∀ e ∈ entries, ∀ parent name, parent ≠ [] → e.1 = parent ++ [name] →
    (parent, Kind.dir) ∈ entries

def Tree.lookup (T : Tree) (path : Path) : Option Kind := T.entries.lookup path

/-- The entries strictly below a directory. -/
def Tree.under (T : Tree) (directory : Path) : List Path :=
  (T.entries.map Prod.fst).filter fun p => directory.isPrefixOf p && p != directory

/-- The answers of the two `git` commands. -/
inductive GitAnswer where
  /-- `rev-parse` failed; `dotGit` says whether the root has a `.git` entry -/
  | notAWorkTree (dotGit : Bool)
  /-- `rev-parse` printed something else than `true` -/
  | outsideWorkTree
  | listFailed
  /-- the records of `ls-files -z`; a record that is no UTF-8 is absent -/
  | listed (records : List (Option String))
  deriving DecidableEq, Repr

/-- A source root. The walk lists the entries below a directory in an order of
its own. -/
structure Checkout where
  name : String
  isDir : Bool
  tree : Tree
  git : GitAnswer
  walk : Path → List Path
  walk_perm : ∀ directory, (walk directory).Perm (tree.under directory)

inductive SourceError where
  | rootMissing (root : String)
  | gitFailed (root : String)
  | notUtf8
  | gitOutsideRoot (path : String)
  | inputMissing (path : String)
  | symbolicLink (path : String)
  | sourceNotRegular (path : String)
  | inputNotRegular (path : String)
  | noFiles (root : String)
  | buildOutsideRoot (value : String)
  | notStable (path : String)
  | buildMissing (path : String)
  | buildNotRegular (path : String)
  | noBuildInput
  | receipt (cause : ReceiptError)
  /-- an `OSError` the code does not catch: a parent is no directory -/
  | notADirectory (path : String)
  deriving DecidableEq, Repr

def SourceError.message : SourceError → String
  | rootMissing root => "source root does not exist or is not a directory: " ++ root
  | gitFailed root => "Git file enumeration failed for source root: " ++ root
  | notUtf8 => "Git returned a non-UTF-8 tracked path"
  | gitOutsideRoot path => "Git returned a path outside source root: " ++ path
  | inputMissing path => "input does not exist: " ++ path
  | symbolicLink path => "symbolic link is not allowed: " ++ path
  | sourceNotRegular path => "source input is not a regular file: " ++ path
  | inputNotRegular path => "input is not a regular file: " ++ path
  | noFiles root => "source root contains no distributed files: " ++ root
  | buildOutsideRoot value => "build input must stay within source root: " ++ value
  | notStable path => "not a stable build input: " ++ path
  | buildMissing path => "build input does not exist: " ++ path
  | buildNotRegular path => "build input is not a regular file: " ++ path
  | noBuildInput => "build subject requires at least one consumed input"
  | receipt cause => cause.message
  | notADirectory path => "Not a directory: " ++ path

/-- The components of `PurePosixPath(text)`. -/
def posixParts (text : String) : List String :=
  ((splitOnChar '/' text.toList).map String.ofList).filter fun part => part != "" && part != "."

/-- The path of a relative text that never goes up. -/
def relativePath? (text : String) : Option Path :=
  if text.toList.head? = some '/' then none
  else (posixParts text).mapM fun part =>
    if h : isName part = true then some ⟨part, h⟩ else none

def sourceExcludedTopLevel : List String :=
  [".git", ".mypy_cache", ".pytest_cache", ".ruff_cache", ".venv", "evidence"]

def sourceExcludedFiles : List String :=
  ["docs/release-status.md", "compliance/provenance.json", "publication/status.json"]

def endsWith (suffix text : String) : Bool := suffix.toList.isSuffixOf text.toList

def isSourcePath (path : Path) : Bool :=
  match path with
  | [] => false
  | first :: _ =>
    !sourceExcludedTopLevel.contains first.val && !sourceExcludedFiles.contains (pathText path) &&
      !(path.map Subtype.val).contains "__pycache__" &&
      !(endsWith ".pyc" (pathText path) || endsWith ".pyo" (pathText path))

/-- The walk of `_lstat_within_root` over the components that are left. -/
def lstatFrom (T : Tree) (relative : Path) : Kind → Path → List Name → Except SourceError Kind
  | kind, _, [] => .ok kind
  | kind, done, name :: rest =>
    match T.lookup (done ++ [name]) with
    | none =>
      if kind = .dir then .error (.inputMissing (pathText relative))
      else .error (.notADirectory (pathText relative))
    | some .symlink => .error (.symbolicLink (pathText relative))
    | some found => lstatFrom T relative found (done ++ [name]) rest

def lstatWithinRoot (T : Tree) (path : Path) : Except SourceError Kind :=
  lstatFrom T path .dir [] path

/-- One record of `git ls-files`. -/
def trackedPath (record : Option String) : Except SourceError Path :=
  match record with
  | none => .error .notUtf8
  | some text =>
    match relativePath? text with
    | some path => .ok path
    | none => .error (.gitOutsideRoot text)

def trackedPaths (C : Checkout) : Except SourceError (Option (List Path)) :=
  match C.git with
  | .notAWorkTree dotGit => if dotGit then .error (.gitFailed C.name) else .ok none
  | .outsideWorkTree => .ok none
  | .listFailed => .error (.gitFailed C.name)
  | .listed records => do
    let paths ← (records.filter fun record => record != some "").mapM trackedPath
    pure (some paths)

def candidatePaths (C : Checkout) : Except SourceError (List Path) := do
  let tracked ← trackedPaths C
  pure (tracked.getD (C.walk []))

/-- A candidate that is distributed and a regular file. -/
def sourceFile (T : Tree) (path : Path) : Except SourceError (Option Path) :=
  if isSourcePath path then do
    let kind ← lstatWithinRoot T path
    match kind with
    | .file _ => .ok (some path)
    | .dir => .ok none
    | _ => .error (.sourceNotRegular (pathText path))
  else .ok none

def sourcePaths (C : Checkout) : Except SourceError (List Path) := do
  let candidates ← candidatePaths C
  let files ← candidates.mapM (sourceFile C.tree)
  pure files.reduceOption

/-- `sorted(set(paths), key=as_posix)`. -/
def sortedPaths (paths : List Path) : List Path :=
  paths.dedup.insertionSort fun a b => pathText a ≤ pathText b

section Identities

variable (P : Primitives)

def contentEntry (T : Tree) (path : Path) : Except SourceError (String × Value) := do
  let kind ← lstatWithinRoot T path
  match kind with
  | .file bytes => .ok (pathText path, .str (P.sha256 bytes))
  | _ => .error (.inputNotRegular (pathText path))

def contentMap (T : Tree) (paths : List Path) : Except SourceError Fields :=
  (sortedPaths paths).mapM (contentEntry P T)

/-- The digest of the canonical content map, which must not be empty. -/
def contentId (files : Fields) (empty : SourceError) : Except SourceError String := do
  require (!files.isEmpty) empty
  match canonicalBytes P (.obj files) with
  | .ok bytes => .ok (P.sha256 bytes)
  | .error cause => .error (.receipt cause)

def sourceReleaseId (C : Checkout) : Except SourceError String := do
  require C.isDir (.rootMissing C.name)
  let paths ← sourcePaths C
  let files ← contentMap P C.tree paths
  contentId P files (.noFiles C.name)

/-- The text `part` occurs in `text`. -/
def occursIn (part text : String) : Bool :=
  text.toList.tails.any fun tail => part.toList.isPrefixOf tail

/-- A nested entry of a consumed directory. -/
def nestedInput (T : Tree) (path : Path) : Except SourceError (Option Path) :=
  if isSourcePath path then do
    let kind ← lstatWithinRoot T path
    match kind with
    | .file _ => .ok (some path)
    | .dir => .ok none
    | _ => .error (.buildNotRegular (pathText path))
  else .error (.notStable (pathText path))

/-- A missing input is reported as a build input, by the text of its message;
an error of the operating system is not caught. -/
def buildCause (path : Path) : SourceError → SourceError
  | .notADirectory text => .notADirectory text
  | cause =>
    if occursIn "does not exist" cause.message then .buildMissing (pathText path) else cause

/-- The files one consumed path expands to. -/
def expandInput (C : Checkout) (value : String) : Except SourceError (List Path) :=
  match relativePath? value with
  | none => .error (.buildOutsideRoot value)
  | some path =>
    if isSourcePath path then
      match lstatWithinRoot C.tree path with
      | .error cause => .error (buildCause path cause)
      | .ok .dir => do
        let files ← (C.walk path).mapM (nestedInput C.tree)
        pure files.reduceOption
      | .ok (.file _) => .ok [path]
      | .ok _ => .error (.buildNotRegular (pathText path))
    else .error (.notStable (pathText path))

def resolveConsumedPaths (C : Checkout) (consumed : List String) :
    Except SourceError (List Path) := do
  let expanded ← consumed.mapM (expandInput C)
  pure expanded.flatten

def buildSubjectId (C : Checkout) (consumed : List String) : Except SourceError String := do
  require C.isDir (.rootMissing C.name)
  let paths ← resolveConsumedPaths C consumed
  let files ← contentMap P C.tree paths
  contentId P files .noBuildInput

end Identities

end ChampionRuntime.Receipts
