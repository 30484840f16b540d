import ChampionRuntime.Artifacts.ModelLock
import ChampionRuntime.Publication.Attestation
import ChampionRuntime.Receipts.SourceIdentity

/-!
# Where an evidence file stands

The evidence check asks the file system about the whole path: the last component
must be a regular file and no link, and the components before it are followed
wherever they lead. The two sibling checks look at every component.
-/
namespace ChampionRuntime.Artifacts

open Lib Receipts Publication

variable {T : FileTree Bytes} {links : ℕ} {root : List String} {value : String} {path : Path}

/-- The evidence root as the file system shows it. -/
def evidenceRoot (T : FileTree Bytes) (links : ℕ) (root : List String) : Attestation.EvidenceRoot where
  isFile path := (T.stat links root (parts path)).any FileNode.isFile
  isSymlink path := (T.lstat links root (parts path)).any FileNode.isLink
  read path := readArtifact T links root path

/-- What `lstat` reports, without a link's target. -/
def kindOf : FileNode Bytes → Kind
  | .dir => .dir
  | .file bytes => .file bytes
  | .link _ _ => .symlink
  | .special _ => .other

/-- The source tree lists what the file system has below the root. -/
def Shows (tree : Tree) (T : FileTree Bytes) (root : List String) : Prop :=
  ∀ path, path ≠ [] → tree.lookup path = (T.node (root ++ parts path)).map kindOf

/-- The path is a regular file that stands below the root, and its bytes are what is read. -/
def Confined (T : FileTree Bytes) (links : ℕ) (root : List String) (path : Path) : Prop :=
  path ≠ [] ∧ ∃ bytes, T.node (root ++ parts path) = some (.file bytes) ∧
    (evidenceRoot T links root).read path = bytes

/-- The evidence path is below the root, and no component before its last is a link. -/
def Straight (T : FileTree Bytes) (root : List String) (path : Path) : Prop :=
  path ≠ [] ∧ T.NoLinkAbove root (parts path)

theorem safeEvidence_eq_ok : Attestation.safeEvidence (evidenceRoot T links root) value = .ok path ↔
    relativePath? value = some path ∧ (∃ bytes, T.stat links root (parts path) = some (.file bytes)) ∧
      ∀ node ∈ T.lstat links root (parts path), node.isLink = false := by
  have hfile : ∀ path, (evidenceRoot T links root).isFile path = true ↔
      ∃ bytes, T.stat links root (parts path) = some (.file bytes) := by
    intro path
    rw [evidenceRoot, Option.any_eq_true]
    constructor
    · rintro ⟨node, hnode, hisfile⟩
      cases node with
      | file bytes => exact ⟨bytes, hnode⟩
      | dir => cases hisfile
      | link absolute target => cases hisfile
      | special bytes => cases hisfile
    · rintro ⟨bytes, hnode⟩
      exact ⟨_, hnode, rfl⟩
  unfold Attestation.safeEvidence
  cases hrelative : relativePath? value with
  | none => simp
  | some relative =>
    dsimp only
    split_ifs with hchecks
    · rw [Bool.and_eq_true, Bool.not_eq_true', hfile, evidenceRoot, Option.any_eq_false] at hchecks
      constructor
      · rintro ⟨rfl⟩
        exact ⟨rfl, hchecks.1, hchecks.2⟩
      · rintro ⟨hsame, -, -⟩
        rw [Option.some.inj hsame]
    · constructor
      · intro h
        cases h
      · rintro ⟨hsame, hstat, hlstat⟩
        obtain rfl := Option.some.inj hsame
        apply absurd _ hchecks
        rw [Bool.and_eq_true, Bool.not_eq_true', hfile, evidenceRoot, Option.any_eq_false]
        exact ⟨hstat, hlstat⟩

/-- What the evidence check accepts stands below the root exactly when its path is straight. -/
theorem confined_iff_straight
    (h : Attestation.safeEvidence (evidenceRoot T links root) value = .ok path) :
    Confined T links root path ↔ Straight T root path := by
  obtain ⟨-, ⟨bytes, hstat⟩, hlstat⟩ := safeEvidence_eq_ok.mp h
  have hstands := FileTree.stat_stands_iff hstat hlstat fun piece hmem => isPiece_of_mem_parts hmem
  constructor
  · rintro ⟨hne, found, hnode, -⟩
    exact ⟨hne, FileTree.noLinkAbove_of_node (by rw [hnode]; simp)⟩
  · rintro ⟨hne, habove⟩
    have hnode := hstands.mpr habove
    exact ⟨hne, bytes, hnode, readArtifact_eq hnode⟩

theorem lstatWithinRoot_file_iff {tree : Tree} (hshows : Shows tree T root) (hne : path ≠ [])
    {bytes : Bytes} : lstatWithinRoot tree path = .ok (.file bytes) ↔
      T.node (root ++ parts path) = some (.file bytes) := by
  have hlookup := hshows path hne
  constructor
  · intro h
    have hfound := (lstatFrom_eq_ok (by simp) h).2 hne
    rw [List.nil_append, hlookup, Option.map_eq_some_iff] at hfound
    obtain ⟨node, hnode, hkind⟩ := hfound
    cases node with
    | file bytes' =>
      cases hkind
      exact hnode
    | dir => cases hkind
    | link absolute target => cases hkind
    | special bytes' => cases hkind
  · intro hnode
    rw [hnode] at hlookup
    exact lstatFrom_of_lookup (by simp) hne hlookup .dir

/-- An evidence file is confined to the root, as the two sibling checks would have it,
exactly when no component of its path before the last is a link. -/
theorem evidence_confined_iff
    (h : Attestation.safeEvidence (evidenceRoot T links root) value = .ok path) :
    (Confined T links root path ↔ Straight T root path) ∧
      (safeArtifact T links root value = .ok path ↔ Straight T root path) ∧
      ∀ tree, Shows tree T root → path ≠ [] →
        ((∃ bytes, lstatWithinRoot tree path = .ok (.file bytes)) ↔ Straight T root path) := by
  have hconfined := confined_iff_straight h
  obtain ⟨hrelative, -, -⟩ := safeEvidence_eq_ok.mp h
  have hstands : Confined T links root path ↔
      path ≠ [] ∧ ∃ bytes, T.node (root ++ parts path) = some (.file bytes) := by
    constructor
    · rintro ⟨hne, bytes, hnode, -⟩
      exact ⟨hne, bytes, hnode⟩
    · rintro ⟨hne, bytes, hnode⟩
      exact ⟨hne, bytes, hnode, readArtifact_eq hnode⟩
  refine ⟨hconfined, ?_, ?_⟩
  · rw [safeArtifact_eq_ok, ← hconfined, hstands]
    simp [hrelative]
  · intro tree hshows hne
    rw [← hconfined, hstands]
    constructor
    · rintro ⟨bytes, hfound⟩
      exact ⟨hne, bytes, (lstatWithinRoot_file_iff hshows hne).mp hfound⟩
    · rintro ⟨-, bytes, hnode⟩
      exact ⟨bytes, (lstatWithinRoot_file_iff hshows hne).mpr hnode⟩

/-- A root with a file and with a link to a directory outside of it. -/
def linkedTree : FileTree Bytes where
  node path :=
    if path = [] ∨ path = ["ev"] ∨ path = ["out"] then some .dir
    else if path = ["ev", "a"] then some (.file [1])
    else if path = ["ev", "sub"] then some (.link true ["out"])
    else if path = ["out", "f"] then some (.file [2])
    else none
  root := rfl
  parent dir name h := by
    have hcases : dir ++ [name] = ["ev"] ∨ dir ++ [name] = ["out"] ∨ dir ++ [name] = ["ev", "a"] ∨
        dir ++ [name] = ["ev", "sub"] ∨ dir ++ [name] = ["out", "f"] := by
      by_contra hno
      push Not at hno
      apply h
      simp [hno]
    have hdir : dir = (dir ++ [name]).dropLast := by simp
    rcases hcases with hcase | hcase | hcase | hcase | hcase
    all_goals
      rw [hcase] at hdir
      rw [hdir]
      decide

theorem evidence_confined_iff_plain :
    Attestation.safeEvidence (evidenceRoot linkedTree 40 ["ev"]) "a" = .ok [⟨"a", by decide⟩] ∧
      (Confined linkedTree 40 ["ev"] [⟨"a", by decide⟩] ↔
        Straight linkedTree ["ev"] [⟨"a", by decide⟩]) := by
  have haccepted : Attestation.safeEvidence (evidenceRoot linkedTree 40 ["ev"]) "a" =
      .ok [⟨"a", by decide⟩] := by decide
  exact ⟨haccepted, (evidence_confined_iff haccepted).1⟩

/-- The file behind the linked directory is accepted and read, though it is outside the
root, and the sibling check of the model files refuses it. -/
theorem evidence_behind_link :
    Attestation.safeEvidence (evidenceRoot linkedTree 40 ["ev"]) "sub/f" =
        .ok [⟨"sub", by decide⟩, ⟨"f", by decide⟩] ∧
      (evidenceRoot linkedTree 40 ["ev"]).read [⟨"sub", by decide⟩, ⟨"f", by decide⟩] = [2] ∧
      linkedTree.node ["ev", "sub"] = some (.link true ["out"]) ∧
      linkedTree.node ["out", "f"] = some (.file [2]) ∧
      ¬ Confined linkedTree 40 ["ev"] [⟨"sub", by decide⟩, ⟨"f", by decide⟩] ∧
      safeArtifact linkedTree 40 ["ev"] "sub/f" = .error (.symbolicLink "sub/f") := by
  refine ⟨by decide, by decide, rfl, rfl, ?_, by decide⟩
  rintro ⟨-, bytes, hnode, -⟩
  have hnone : linkedTree.node (["ev"] ++ ["sub", "f"]) = none := by decide
  rw [show parts [⟨"sub", by decide⟩, ⟨"f", by decide⟩] = ["sub", "f"] from rfl, hnone] at hnode
  cases hnode

end ChampionRuntime.Artifacts
