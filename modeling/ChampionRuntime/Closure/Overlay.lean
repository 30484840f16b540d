import ChampionRuntime.Lib.Binary64
import ChampionRuntime.Receipts.SourceTree

/-!
# The overlay closure

The three verifiers of the runtime overlays: `verify_source` of
`scripts/verify_image.py`, `_verify_runtime_manifest` of `scripts/verify_source.py`
and `_verify_exact` of `tools/import_runtime.py`. The manifests are given as they
are parsed. A link above the directories that are searched counts as the directory
it leads to.
-/
namespace ChampionRuntime.Closure

open Lib Lib.Json Receipts

inductive Package where
  | vllm | b12x
  deriving DecidableEq, Repr

def packages : List Package := [.vllm, .b12x]

def Package.name : Package → Name
  | vllm => ⟨"vllm", by decide⟩
  | b12x => ⟨"b12x", by decide⟩

def Package.text (package : Package) : String := package.name.val

structure OverlayEntry where
  path : String
  sha256 : String
  deriving DecidableEq, Repr

structure OverlayList where
  fileCount : Number
  files : List OverlayEntry

/-- What the verifiers read of the manifests. -/
structure Manifests where
  /-- the bytes of `overlay-files.json` -/
  overlayBytes : Bytes
  overlay : Package → OverlayList
  /-- `build_a.sha256` -/
  buildA : String
  /-- `manifests.python_source_sha256` of `build-lock.json` -/
  pythonSource : String
  /-- `effective_champion` of `o14-import.json` -/
  effectiveCount : Package → Number
  patch : String
  patchSha256 : String

def runtimePath : Path := [⟨"runtime", by decide⟩]

def overlaysName : Name := ⟨"overlays", by decide⟩

def manifestsName : Name := ⟨"manifests", by decide⟩

def kernelsName : Name := ⟨"kernels", by decide⟩

def patchesName : Name := ⟨"patches", by decide⟩

def nativeName : Name := ⟨"native", by decide⟩

/-- The root of a source context, which has the runtime below `runtime`, or of an
extracted bundle, which has the overlays and manifests at the top. -/
structure SourceRoot where
  tree : Tree
  /-- the regular file at a path that leaves the tree or goes through a link -/
  elsewhere : String → Option Bytes
  /-- what is parsed from the manifests of a directory -/
  manifests : Path → Manifests

def runtimeManifests : Path := runtimePath ++ [manifestsName]

def meetsLink (T : Tree) (path : Path) : Bool :=
  path.inits.any fun p => T.lookup p == some .symlink

namespace SourceRoot

variable (R : SourceRoot)

/-- The regular file that the system finds at a path below the root. -/
def fileOf (path : Path) : Option Bytes :=
  if meetsLink R.tree path then R.elsewhere (pathText path)
  else match R.tree.lookup path with
    | some (.file bytes) => some bytes
    | _ => none

/-- The regular file at `base / relative`. -/
def fileAt (base : Path) (relative : String) : Option Bytes :=
  match relativePath? relative with
  | some rest => R.fileOf (base ++ rest)
  | none =>
    if relative.toList.head? = some '/' then R.elsewhere relative
    else R.elsewhere (pathText base ++ "/" ++ relative)

/-- `prefix` of `verify_source`. -/
def base : Path := if R.tree.lookup [overlaysName] = some .dir then [] else runtimePath

/-- `manifests` of `verify_source`. -/
def manifestsDir : Path :=
  if R.tree.lookup [manifestsName] = some .dir then [manifestsName] else runtimeManifests

end SourceRoot

/-- `overlays/<package>` below the base. -/
def managedRoot (base : Path) (package : Package) : Path := base ++ [overlaysName, package.name]

/-- `overlays/<package>/<package>` below the base. -/
def packageDir (base : Path) (package : Package) : Path := managedRoot base package ++ [package.name]

inductive VerifyError where
  | manifestHash
  | effectiveCount (package : Package)
  | listCount (package : Package)
  | unsafePath (path : String)
  | overlayMismatch (package : Package) (path : String)
  | buildAMismatch
  | buildAV1
  | patchMismatch
  | privatePattern (path : Path)
  /-- an `OSError` of `read_bytes` -/
  | unreadable (path : String)
  deriving DecidableEq, Repr

def VerifyError.message : VerifyError → String
  | manifestHash => "overlay manifest hash does not match build lock"
  | effectiveCount package =>
    package.text ++ " overlay count does not match pinned effective champion"
  | listCount package => package.text ++ " overlay count does not match its file list"
  | unsafePath path => "unsafe path: " ++ path
  | overlayMismatch package path => package.text ++ " overlay mismatch: " ++ path
  | buildAMismatch => "Build A v0 mismatch"
  | buildAV1 => "Build A v1 is forbidden"
  | patchMismatch => "native patch mismatch"
  | privatePattern path => "private path or credential pattern: " ++ pathText path
  | unreadable path => "No such file or directory: " ++ path

/-- `==` of two numbers. -/
def sameNumber (a b : Number) : Bool := a.exact != .nan && a.exact == b.exact

def buildAV1Name (path : Path) : Bool :=
  path.getLast?.any fun name => occursIn "builda_bmm_v1" name.val

/-- Compiled files, which are not searched for private text. -/
def isCompiled (path : Path) : Bool :=
  (path.map Subtype.val).contains "__pycache__" || path.getLast?.any fun name =>
    [".pyc", ".pyo"].any fun suffix => endsWith suffix name.val && suffix.length < name.val.length

section Verifiers

-- SHA-256, and the search for private paths and keys
variable (sha256 : Bytes → String) (isPrivate : Bytes → Bool) (R : SourceRoot) (M : Manifests)

/-- `path.is_file()` and the digest of an entry. -/
def entryMatches (base : Path) (package : Package) (entry : OverlayEntry) : Bool :=
  (R.fileAt (packageDir base package) entry.path).any fun bytes => sha256 bytes == entry.sha256

/-- `base / entry["path"]` is compared as it stands. -/
def sourceEntry (base : Path) (package : Package) (entry : OverlayEntry) :
    Except VerifyError Unit :=
  require (entryMatches sha256 R base package entry) (.overlayMismatch package entry.path)

/-- The path has to pass `safe` first. -/
def imageEntry (base : Path) (package : Package) (entry : OverlayEntry) :
    Except VerifyError Unit := do
  require (relativePath? entry.path).isSome (.unsafePath entry.path)
  sourceEntry sha256 R base package entry

def countChecks (package : Package) : Except VerifyError Unit := do
  require (sameNumber (M.overlay package).fileCount (M.effectiveCount package))
    (.effectiveCount package)
  require (sameNumber (M.overlay package).fileCount (.int (M.overlay package).files.length))
    (.listCount package)

/-- The loop over the packages and their entries. -/
def overlayChecks (entryCheck : Package → OverlayEntry → Except VerifyError Unit) :
    Except VerifyError Unit :=
  packages.forM fun package => do
    countChecks M package
    (M.overlay package).files.forM (entryCheck package)

/-- A file that has to be there with a digest. -/
def digestCheck (base : Path) (relative digest : String) (mismatch : VerifyError) :
    Except VerifyError Unit :=
  match R.fileAt base relative with
  | none => .error (.unreadable relative)
  | some bytes => require (sha256 bytes == digest) mismatch

def privateCheck (path : Path) : Except VerifyError Unit :=
  require (isCompiled path || !(R.fileOf path).any isPrivate) (.privatePattern path)

/-- `verify_source` of `verify_image.py`. -/
def verifySource : Except VerifyError Unit := do
  let M := R.manifests R.manifestsDir
  require (sha256 M.overlayBytes == M.pythonSource) .manifestHash
  overlayChecks M (imageEntry sha256 R R.base)
  digestCheck sha256 R R.base "kernels/builda_bmm_v0.py" M.buildA .buildAMismatch
  require (!(R.tree.under R.base).any buildAV1Name) .buildAV1
  if R.tree.lookup runtimePath = some .dir then
    digestCheck sha256 R [] M.patch M.patchSha256 .patchMismatch
  else
    digestCheck sha256 R R.base "patches/native/champion-sm121.patch" M.patchSha256 .patchMismatch
  (R.tree.under R.base).forM (privateCheck isPrivate R)

def verifyRuntimeManifest : Except VerifyError Unit := do
  let M := R.manifests runtimeManifests
  require (sha256 M.overlayBytes == M.pythonSource) .manifestHash
  overlayChecks M (sourceEntry sha256 R runtimePath)
  digestCheck sha256 R runtimePath "kernels/builda_bmm_v0.py" M.buildA .buildAMismatch
  require (!(R.tree.under runtimePath).any fun path => buildAV1Name path && (R.fileOf path).isSome)
    .buildAV1

end Verifiers

inductive ImportError where
  | missing (path : String)
  | differs (path : String)
  | members (missing extras : List String)
  | buildAV1
  deriving DecidableEq, Repr

abbrev Expected := List (String × Bytes)

def managedRoots : List Path :=
  packages.map (managedRoot runtimePath) ++
    [runtimePath ++ [kernelsName], runtimePath ++ [patchesName, nativeName]]

section Importer

variable (R : SourceRoot)

/-- `path.is_symlink()` -/
def isLink (relative : String) : Bool :=
  (relativePath? relative).any fun path => R.tree.lookup path == some .symlink

def verifyMember (member : String × Bytes) : Except ImportError Unit :=
  match R.fileAt [] member.1 with
  | none => .error (.missing member.1)
  | some bytes => do
    require (!isLink R member.1) (.missing member.1)
    require (bytes == member.2) (.differs member.1)

def actualMembers (roots : List Path) : List String :=
  roots.flatMap fun directory =>
    ((R.tree.under directory).filter fun path => (R.fileOf path).isSome).map pathText

/-- The expected paths below the managed roots. -/
def managedExpected (roots : List Path) (expected : Expected) : List String :=
  (expected.map Prod.fst).filter fun path => roots.any fun root =>
    path == pathText root || (pathText root ++ "/").toList.isPrefixOf path.toList

def without (a b : List String) : List String :=
  (a.filter fun path => !b.contains path).dedup.insertionSort (· ≤ ·)

/-- The part of `_verify_exact` that compares files and members. -/
def verifyMembers (roots : List Path) (expected : Expected) : Except ImportError Unit := do
  expected.forM (verifyMember R)
  let missing := without (managedExpected roots expected) (actualMembers R roots)
  let extras := without (actualMembers R roots) (managedExpected roots expected)
  require (missing.isEmpty && extras.isEmpty) (.members missing extras)

def verifyExact (expected : Expected) : Except ImportError Unit := do
  verifyMembers R managedRoots expected
  require (!(actualMembers R managedRoots).any (occursIn "builda_bmm_v1")) .buildAV1

end Importer

end ChampionRuntime.Closure
