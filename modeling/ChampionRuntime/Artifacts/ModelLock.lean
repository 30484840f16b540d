import ChampionRuntime.Lib.FileTree
import ChampionRuntime.Receipts.SourceTree

/-!
# Model files against their lock

`scripts/verify_model.py`: every file of a lock is looked up component by
component below the model directory, without a link on the way, and compared
with the locked size and digest.
-/
namespace ChampionRuntime.Artifacts

open Lib Lib.Json Lib.PyText Receipts

inductive ModelVerificationError where
  | unsupportedVersion
  | unsafePath (path : String)
  | missing (path : String)
  | symbolicLink (path : String)
  | notRegular (path : String)
  | artifactType (expected : String)
  | incompleteManifest
  | noFiles
  | malformedEntry (index : ℕ)
  | invalidPath
  | invalidChecksum (path : String)
  | sizeMismatch (path : String)
  | hashMismatch (path : String)
  /-- an `OSError` the loop does not catch: a component is below something that is no directory -/
  | notADirectory (path : String)
  deriving DecidableEq

/-- The text of the raised error, up to the lock's own path and the values compared. -/
def ModelVerificationError.message : ModelVerificationError → String
  | unsupportedVersion => "unsupported or missing schema_version"
  | unsafePath path => "unsafe artifact path: " ++ quoted path
  | missing path => "missing artifact: " ++ path
  | symbolicLink path => "symbolic-link artifact is forbidden: " ++ path
  | notRegular path => "artifact is not a regular file: " ++ path
  | artifactType expected => "expected artifact_type " ++ quoted expected
  | incompleteManifest => "complete whole-file checksum manifest is unavailable"
  | noFiles => "complete manifest has no files"
  | malformedEntry index => "malformed integrity.files[" ++ toString index ++ "]"
  | invalidPath => "duplicate or invalid path "
  | invalidChecksum path => "invalid checksum entry for " ++ path
  | sizeMismatch path => path ++ ": size mismatch"
  | hashMismatch path => path ++ ": SHA-256 mismatch"
  | notADirectory path => "Not a directory: " ++ path

def parts (path : Path) : List String := path.map Subtype.val

theorem isPiece_of_mem_parts {path : Path} {piece : String} (h : piece ∈ parts path) :
    FileTree.IsPiece piece := by
  obtain ⟨name, -, rfl⟩ := List.mem_map.mp h
  have hname := name.property
  simp only [isName, Bool.and_eq_true, bne_iff_ne] at hname
  exact ⟨hname.1.1.1, hname.1.1.2, hname.1.2⟩

section Lookup

variable (T : FileTree Bytes) (links : ℕ) (root : List String)

/-- The loop of `safe_artifact` over the components that are left. -/
def lstatParts (relative : Path) : List String → List String → Except ModelVerificationError Unit
  | _, [] => .ok ()
  | done, part :: rest =>
    match T.lstat links root (done ++ [part]) with
    | none =>
      if T.lstat links root done = some .dir then .error (.missing (pathText relative))
      else .error (.notADirectory (pathText relative))
    | some node =>
      if node.isLink then .error (.symbolicLink (pathText relative))
      else lstatParts relative (done ++ [part]) rest

def safeArtifact (value : String) : Except ModelVerificationError Path :=
  match relativePath? value with
  | none => .error (.unsafePath value)
  | some relative => do
    require (relative ≠ []) (.unsafePath value)
    lstatParts T links root relative [] (parts relative)
    require ((T.stat links root (parts relative)).any FileNode.isFile) (.notRegular (pathText relative))
    return relative

/-- What a file that was looked up holds. -/
def readArtifact (relative : Path) : Bytes :=
  ((T.stat links root (parts relative)).bind FileNode.bytes?).getD []

variable {T} {links} {root}

/-- The components looked at so far are no links. -/
def Reached (T : FileTree Bytes) (root done : List String) : Prop :=
  done = [] ∨ ∃ node ∈ T.node (root ++ done), node.isLink = false

theorem lstat_next {done : List String} {part : String} (hdone : Reached T root done)
    (hpieces : ∀ piece ∈ done, FileTree.IsPiece piece) :
    T.lstat links root (done ++ [part]) = T.node (root ++ (done ++ [part])) := by
  have hwalk : T.walk links root done = some (root ++ done) := by
    rcases hdone with rfl | ⟨node, hnode, hlink⟩
    · obtain ⟨follow, hfollow⟩ := FileTree.walk_eq T links
      rw [hfollow, FileTree.walkWith, List.append_nil]
    · exact FileTree.walk_of_node links hnode hlink hpieces
  unfold FileTree.lstat
  rw [List.getLast?_append_of_ne_nil _ (by simp), List.dropLast_concat, hwalk]
  simp

theorem lstatParts_ok {relative : Path} {done rest : List String} (hdone : Reached T root done)
    (hpieces : ∀ piece ∈ done ++ rest, FileTree.IsPiece piece) :
    lstatParts T links root relative done rest = .ok () ↔ rest = [] ∨ Reached T root (done ++ rest) := by
  induction rest generalizing done with
  | nil => simp [lstatParts]
  | cons part rest ih =>
    have hsplit : done ++ part :: rest = done ++ [part] ++ rest := by simp
    rw [lstatParts, lstat_next hdone fun piece hmem => hpieces piece (by simp [hmem])]
    rw [hsplit] at hpieces ⊢
    constructor
    · intro h
      right
      cases hnode : T.node (root ++ (done ++ [part])) with
      | none =>
        rw [hnode] at h
        dsimp only at h
        split_ifs at h
      | some node =>
        rw [hnode] at h
        dsimp only at h
        split_ifs at h with hlink
        have hreached : Reached T root (done ++ [part]) := .inr ⟨node, hnode, by simpa using hlink⟩
        rcases (ih hreached hpieces).mp h with rfl | hrest
        · rwa [List.append_nil]
        · exact hrest
    · intro h
      rcases h with h | h | ⟨last, hlast, hlink⟩
      · cases h
      · simp at h
      · have hreached : ∃ node ∈ T.node (root ++ (done ++ [part])), node.isLink = false := by
          by_cases hrest : rest = []
          · rw [hrest, List.append_nil] at hlast
            exact ⟨last, hlast, hlink⟩
          · rw [← List.append_assoc] at hlast
            exact ⟨.dir, FileTree.node_of_append (by rw [hlast]; simp) hrest, rfl⟩
        obtain ⟨node, hnode, hnolink⟩ := hreached
        rw [Option.mem_def] at hnode
        rw [hnode]
        dsimp only
        rw [if_neg (by simp [hnolink])]
        exact (ih (.inr ⟨node, hnode, hnolink⟩) hpieces).mpr (.inr (.inr ⟨last, hlast, hlink⟩))

theorem safeArtifact_eq_ok {value : String} {path : Path} :
    safeArtifact T links root value = .ok path ↔ relativePath? value = some path ∧ path ≠ [] ∧
      ∃ bytes, T.node (root ++ parts path) = some (.file bytes) := by
  unfold safeArtifact
  cases hrelative : relativePath? value with
  | none => simp
  | some relative =>
    have hpieces : ∀ piece ∈ [] ++ parts relative, FileTree.IsPiece piece :=
      fun piece hmem => isPiece_of_mem_parts hmem
    simp only [bind_eq_ok, require_eq_ok, decide_eq_true_eq, pure_eq_ok, Option.some.injEq]
    constructor
    · rintro ⟨_, hne, _, hparts, _, hfile, rfl⟩
      refine ⟨rfl, hne, ?_⟩
      have hparts_ne : parts relative ≠ [] := by
        rwa [parts, Ne, List.map_eq_nil_iff]
      rcases (lstatParts_ok (.inl rfl) hpieces).mp hparts with hnil | hnil | ⟨node, hnode, hlink⟩
      · exact absurd hnil hparts_ne
      · exact absurd hnil hparts_ne
      · rw [List.nil_append] at hnode
        rw [FileTree.stat, FileTree.walk_of_node links hnode hlink hpieces, Option.bind_some, hnode] at hfile
        cases node with
        | file bytes => exact ⟨bytes, hnode⟩
        | dir => cases hfile
        | link absolute target => cases hfile
        | special bytes => cases hfile
    · rintro ⟨rfl, hne, bytes, hnode⟩
      refine ⟨(), hne, (), ?_, (), ?_, rfl⟩
      · exact (lstatParts_ok (.inl rfl) hpieces).mpr (.inr (.inr ⟨_, hnode, rfl⟩))
      · rw [FileTree.stat, FileTree.walk_of_node links hnode rfl hpieces, Option.bind_some, hnode]
        rfl

theorem readArtifact_eq {path : Path} {bytes : Bytes}
    (h : T.node (root ++ parts path) = some (.file bytes)) : readArtifact T links root path = bytes := by
  have hwalk := FileTree.walk_of_node links h rfl fun piece hmem => isPiece_of_mem_parts hmem
  rw [readArtifact, FileTree.stat, hwalk, Option.bind_some, h]
  rfl

end Lookup

/-- An entry of a lock's manifest that names a file. -/
structure LockedFile where
  path : String
  sha256 : String
  size : ℤ
  deriving DecidableEq

/-- The shape of one manifest entry, with the paths seen before it. -/
def lockedFile (seen : List String) (index : ℕ) (item : Value) :
    Except ModelVerificationError LockedFile :=
  match item with
  | .obj fields =>
    if (keys fields).insertionSort (· ≤ ·) = ["path", "sha256", "size"] then
      match fields.lookup "path" with
      | some (.str path) => do
        require (!seen.contains path) .invalidPath
        match fields.lookup "sha256", fields.lookup "size" with
        | some (.str sha256), some (.num (.int size)) => do
          require (sha256Pattern.fullmatch sha256.toList && decide (0 ≤ size)) (.invalidChecksum path)
          return { path, sha256, size }
        | some (.str sha256), some (.bool size) => do
          require (sha256Pattern.fullmatch sha256.toList) (.invalidChecksum path)
          return { path, sha256, size := if size then 1 else 0 }
        | _, _ => .error (.invalidChecksum path)
      | _ => .error .invalidPath
    else .error (.malformedEntry index)
  | _ => .error (.malformedEntry index)

section Verify

variable (sha256 : Bytes → String) (T : FileTree Bytes) (links : ℕ) (root : List String)

/-- The comparison of one entry with the file. -/
def verifyFile (entry : LockedFile) : Except ModelVerificationError LockedFile := do
  let path ← safeArtifact T links root entry.path
  let bytes := readArtifact T links root path
  require ((bytes.length : ℤ) = entry.size) (.sizeMismatch entry.path)
  require (sha256 bytes = entry.sha256) (.hashMismatch entry.path)
  return entry

/-- The loop of `verify_lock`. -/
def verifyFiles : List String → ℕ → List Value → Except ModelVerificationError (List LockedFile)
  | _, _, [] => .ok []
  | seen, index, item :: items => do
    let entry ← lockedFile seen index item
    let verified ← verifyFile sha256 T links root entry
    let rest ← verifyFiles (entry.path :: seen) (index + 1) items
    return verified :: rest

/-- `verify_lock`, on the fields of the lock -/
def verifyLock (lock : Fields) (expectedType : String) :
    Except ModelVerificationError (List LockedFile) := do
  require (match lock.lookup "schema_version" with
    | some (.str version) => version == "1.0.0"
    | _ => false) .unsupportedVersion
  require (match lock.lookup "artifact_type" with
    | some (.str artifactType) => artifactType == expectedType
    | _ => false) (.artifactType expectedType)
  match lock.lookup "integrity" with
  | some (.obj integrity) => do
    require (match integrity.lookup "status" with
      | some (.str status) => status == "complete"
      | _ => false) .incompleteManifest
    match integrity.lookup "files" with
    | some (.arr (item :: items)) => verifyFiles sha256 T links root [] 0 (item :: items)
    | _ => .error .noFiles
  | _ => .error .incompleteManifest

variable {sha256} {T} {links} {root}

/-- The digest of an entry is that of the regular file it names below the root. -/
def DigestStands (sha256 : Bytes → String) (T : FileTree Bytes) (root : List String)
    (path digest : String) : Prop :=
  ∃ relative bytes, relativePath? path = some relative ∧ relative ≠ [] ∧
    T.node (root ++ parts relative) = some (.file bytes) ∧ sha256 bytes = digest

theorem verifyFile_eq_ok {entry verified : LockedFile} :
    verifyFile sha256 T links root entry = .ok verified ↔ verified = entry ∧
      ∃ relative bytes, relativePath? entry.path = some relative ∧ relative ≠ [] ∧
        T.node (root ++ parts relative) = some (.file bytes) ∧ (bytes.length : ℤ) = entry.size ∧
        sha256 bytes = entry.sha256 := by
  simp only [verifyFile, bind_eq_ok, require_eq_ok, decide_eq_true_eq, pure_eq_ok]
  constructor
  · rintro ⟨path, hpath, _, hsize, _, hhash, rfl⟩
    obtain ⟨hrelative, hne, bytes, hnode⟩ := safeArtifact_eq_ok.mp hpath
    rw [readArtifact_eq hnode] at hsize hhash
    exact ⟨rfl, path, bytes, hrelative, hne, hnode, hsize, hhash⟩
  · rintro ⟨rfl, path, bytes, hrelative, hne, hnode, hsize, hhash⟩
    refine ⟨path, safeArtifact_eq_ok.mpr ⟨hrelative, hne, bytes, hnode⟩, (), ?_, (), ?_, rfl⟩
    · rwa [readArtifact_eq hnode]
    · rwa [readArtifact_eq hnode]

/-- The digest of a file stands exactly when the comparison passes for some size. -/
theorem digestStands_iff {path digest : String} : DigestStands sha256 T root path digest ↔
    ∃ size, verifyFile sha256 T links root ⟨path, digest, size⟩ = .ok ⟨path, digest, size⟩ := by
  simp only [verifyFile_eq_ok, true_and]
  constructor
  · rintro ⟨relative, bytes, hrelative, hne, hnode, hhash⟩
    exact ⟨bytes.length, relative, bytes, hrelative, hne, hnode, rfl, hhash⟩
  · rintro ⟨_, relative, bytes, hrelative, hne, hnode, -, hhash⟩
    exact ⟨relative, bytes, hrelative, hne, hnode, hhash⟩

end Verify

end ChampionRuntime.Artifacts
