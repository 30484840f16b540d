import ChampionRuntime.Licensing.Certified
import ChampionRuntime.Licensing.Coverage

/-!
# The ledger from commit to commit

Registering every commit keeps the ledger up to date with the tree, as long as no rename or
copy crosses between a ledger file and another path. On a checkout of the last tree the audit
then finds nothing to say about paths and digests.
-/
namespace ChampionRuntime.Licensing

open Lib Lib.Json
open Receipts (Bytes)

variable {sha256 : Bytes → String} {blob : String → Option Bytes} {mapping : ClassificationMap}
  {ledger updated : List Record} {extended : List Change} {added : List String}

/-- The records are those of the tracked files of the tree, with the digests of its objects. -/
structure UpToDate (sha256 : Bytes → String) (blob : String → Option Bytes) (ledger : List Record)
    (T : Tree) : Prop where
  tracks : Tracks ledger T
  once : (ledger.map Record.path).Nodup
  digests : ∀ path e, T.lookup path = some e → path ∉ selfExemptPaths → ∃ r ∈ ledger,
    r.path = path ∧ ∃ bytes, blob e.oid = some bytes ∧
      r.get "target_sha256" = some (.str (sha256 bytes))

namespace Staging

variable {S : Staging}

theorem Pass.new_of_touched (hP : S.Pass sha256 mapping ledger extended added updated) {path : String}
    (hmem : path ∈ extended.flatMap Change.touched) (htree : path ∈ S.tree.paths) :
    ∃ c ∈ extended, c.exempt = false ∧ c.new = some path := by
  obtain ⟨c, hc, htouched⟩ := List.mem_flatMap.mp hmem
  obtain ⟨hexempt, htouched⟩ := Change.mem_touched.mp htouched
  refine ⟨c, hc, hexempt, ?_⟩
  apply htouched.resolve_left
  intro hremoved
  rcases hP.extension.mem_change.mp hc with hstaged | ⟨p, -, rfl⟩
  · obtain ⟨r, hr, rfl⟩ := mem_changes.mp hstaged
    exact (S.removed_of_change hr hremoved).2 htree
  · simp [addition, Change.removed] at hremoved

/-- A path that the pass leaves alone is the same in both trees, and so is its record. -/
theorem Pass.upToDate (hP : S.Pass sha256 mapping ledger extended added updated)
    (h : UpToDate sha256 S.repo.blob ledger S.head)
    (hcross : ∀ r ∈ S.records, r.crosses = false) : UpToDate sha256 S.repo.blob updated S.tree where
  tracks := hP.tracks h.tracks hcross
  once := hP.once
  digests := by
    intro path e htree hself
    by_cases hmem : path ∈ extended.flatMap Change.touched
    · have hpath : path ∈ S.tree.paths := Tree.mem_paths.mpr (by simp [htree])
      obtain ⟨c, hc, hexempt, hnew⟩ := hP.new_of_touched hmem hpath
      exact hP.digest_new hc hexempt hnew htree
    · have hsame : S.head.lookup path = some e := by
        rw [← htree]
        by_contra hne
        obtain ⟨c, hc, hexempt, htouched⟩ := touched_of_ne hcross hself hne
        exact hmem (List.mem_flatMap.mpr ⟨c, hP.extension.mem_change.mpr (.inl hc),
          Change.mem_touched.mpr ⟨hexempt, htouched⟩⟩)
      obtain ⟨r, hr, hpath, hdigest⟩ := h.digests path e hsame hself
      have hfound := hP.frame path hmem
      rw [(recordAt_eq_some_of_nodup h.once).mpr ⟨hr, hpath⟩] at hfound
      exact ⟨r, ((recordAt_eq_some_of_nodup hP.once).mp hfound).1, hpath, hdigest⟩

end Staging

/-- The ledgers and trees that commits lead to, each registered on the tree of the one before. -/
inductive Registered (sha256 : Bytes → String) (blob : String → Option Bytes)
    (ledger₀ : List Record) (T₀ : Tree) : List Record → Tree → Prop
  | start : Registered sha256 blob ledger₀ T₀ ledger₀ T₀
  | commit {ledger updated : List Record} {S : Staging} {mapping : ClassificationMap}
      (hbefore : Registered sha256 blob ledger₀ T₀ ledger S.head) (hblob : S.repo.blob = blob)
      (hcross : ∀ r ∈ S.records, r.crosses = false)
      (hregister : S.register sha256 mapping ledger = .ok updated) :
      Registered sha256 blob ledger₀ T₀ updated S.tree

theorem Registered.upToDate {ledger₀ : List Record} {T₀ T : Tree}
    (hstart : UpToDate sha256 blob ledger₀ T₀) (h : Registered sha256 blob ledger₀ T₀ ledger T) :
    UpToDate sha256 blob ledger T := by
  induction h with
  | start => exact hstart
  | commit _ hblob hcross hregister ih =>
    obtain ⟨extended, added, hP⟩ := Staging.register_eq_ok _ hregister
    subst hblob
    exact hP.upToDate ih hcross

/-- The working tree has the tracked files of a tree, as regular files with their objects. -/
structure CheckedOut (blob : String → Option Bytes) (T : Tree) (W : WorkTree)
    (tracked : List String) : Prop where
  listed : W.tracked = .ok tracked
  paths : ∀ path, path ∈ tracked ↔ path ∈ T.paths
  files : ∀ path e, T.lookup path = some e → path ∉ selfExemptPaths →
    W.regular path = some true ∧ W.read path = blob e.oid

variable {L : Libraries} {T : Tree} {W : WorkTree} {tracked : List String}

theorem UpToDate.fileFindings (h : UpToDate L.sha256 blob ledger T)
    (hout : CheckedOut blob T W tracked) {r : Record} (hr : r ∈ ledger) :
    fileFindings L W r.reread = .ok [] := by
  obtain ⟨htree, hself⟩ := (h.tracks r.path).mp (List.mem_map_of_mem hr)
  obtain ⟨e, he⟩ := Option.isSome_iff_exists.mp (Tree.mem_paths.mp htree)
  obtain ⟨s, hs, hpath, bytes, hbytes, htarget⟩ := h.digests r.path e he hself
  obtain rfl := List.inj_on_of_nodup_map h.once hs hr hpath
  obtain ⟨hregular, hread⟩ := hout.files s.path e he hself
  have hholds : s.reread.holds "target_sha256" (L.sha256 bytes) = true := by
    apply Record.holds_iff.mpr
    have hentry : s.reread.get "target_sha256" = (s.get "target_sha256").map Value.sortKeys :=
      lookup_entry s "target_sha256"
    rw [hentry, htarget]
    rfl
  have hpath' : s.reread.path = s.path := rfl
  simp only [Licensing.fileFindings, hpath', hregular, hread, hbytes, hholds, findingUnless, if_true]

/-- The records of an up-to-date ledger and the tracked files of a checkout are the same. -/
theorem UpToDate.coverageFindings (h : UpToDate L.sha256 blob ledger T)
    (hout : CheckedOut blob T W tracked) :
    coverageFindings L W (Keyed.ofList (ledger.map Record.reread)) tracked = .ok [] := by
  have hnodup : ((ledger.map Record.reread).map Record.path).Nodup := by
    rw [map_path_reread]
    exact h.once
  have hitems := Keyed.ofList_items hnodup
  have hmem : ∀ path, path ∈ ledger.map Record.path ↔ path ∈ tracked ∧ path ∉ selfExemptPaths := by
    intro path
    rw [hout.paths]
    exact h.tracks path
  have hfiles : ∀ r ∈ Keyed.sortItems Record.path (ledger.map Record.reread),
      Licensing.fileFindings L W r = .ok [] := by
    intro r hr
    obtain ⟨s, hs, rfl⟩ := List.mem_map.mp ((Keyed.perm_sortItems _).mem_iff.mp hr)
    exact h.fileFindings hout hs
  have hself : selfExemptPaths.any (ledger.map Record.path).contains = false := by
    rw [List.any_eq_false]
    intro path hpath hrecorded
    exact ((hmem path).mp (List.contains_iff_mem.mp hrecorded)).2 hpath
  have hmissing : ((tracked.filter fun path => !selfExemptPaths.contains path).filter fun path =>
      !(ledger.map Record.path).contains path) = [] := by
    rw [List.filter_eq_nil_iff]
    intro path hpath
    have hrecorded := (hmem path).mpr (by simpa using hpath)
    simpa using hrecorded
  have hextra : ((ledger.map Record.path).filter fun path =>
      !(tracked.filter fun path => !selfExemptPaths.contains path).contains path) = [] := by
    rw [List.filter_eq_nil_iff]
    intro path hpath
    simpa using (hmem path).mp hpath
  unfold Licensing.coverageFindings
  rw [hitems, map_path_reread]
  extract_lets expected recorded missing extra common
  have hcommon : common.mapM (Licensing.fileFindings L W) = .ok (common.map fun _ => []) :=
    mapM_eq_ok_map fun r hr => hfiles r (List.mem_of_mem_filter hr)
  have hflat : (common.map fun _ => ([] : List Finding)).flatten = [] := by
    rw [List.flatten_eq_nil_iff]
    intro findings hfindings
    obtain ⟨r, -, rfl⟩ := List.mem_map.mp hfindings
    rfl
  have hnomissing : missing = [] := sortTexts_eq_nil.mpr hmissing
  have hnoextra : extra = [] := sortTexts_eq_nil.mpr hextra
  rw [hcommon, ok_bind, hflat, hnomissing, hnoextra]
  simp [recorded, hself, findingUnless]

/-- After any sequence of registered commits the ledger is that of the last tree, and on a
checkout of it the audit finds nothing in the paths and the digests. -/
theorem registered_commits_covered {ledger₀ : List Record} {T₀ : Tree}
    (hstart : UpToDate L.sha256 blob ledger₀ T₀)
    (hrun : Registered L.sha256 blob ledger₀ T₀ ledger T) (hout : CheckedOut blob T W tracked) :
    UpToDate L.sha256 blob ledger T ∧
      coverageFindings L W (Keyed.ofList (ledger.map Record.reread)) tracked = .ok [] := by
  have hlast := hrun.upToDate hstart
  exact ⟨hlast, hlast.coverageFindings hout⟩

def ledgerFiles : Tree where
  entries := [(ledgerPath, ⟨"100644", "1"⟩), (projectionPath, ⟨"100644", "2"⟩)]
  nodup := by decide
  paths_ok := by decide

def addSource : Staging where
  repo := exampleRepository exampleHead [.added "src/old.py"]
  head := ledgerFiles
  tree := exampleHead
  records := [.added "src/old.py"]
  describes := .of_entries (by decide) (by decide) (by decide) (by decide)
  diff_eq := rfl
  index_eq := rfl

/-- The working tree with the moved source file. -/
def sourceCheckout : WorkTree where
  repo := moveSource.repo
  shown _ := none
  regular _ := some true
  isFile _ := true
  read path := (movedSource.lookup path).bind fun e => moveSource.repo.blob e.oid

theorem ledgerFiles_upToDate : UpToDate countDigest moveSource.repo.blob [] ledgerFiles where
  tracks := by
    intro path
    simp only [Tree.paths, ledgerFiles, selfExemptPaths, List.map_nil, List.map_cons]
    tauto
  once := List.nodup_nil
  digests := by
    intro path e he hself
    have hpath : path ∈ ledgerFiles.paths := Tree.mem_paths.mpr (by simp [he])
    exact absurd hpath hself

theorem two_commits_registered : ∃ ledger,
    Registered countDigest moveSource.repo.blob [] ledgerFiles ledger movedSource := by
  have heval : ((addSource.register countDigest [("src", .projectApache)] []) >>= fun ledger =>
      moveSource.register countDigest [("src", .projectApache)] ledger).toOption.isSome = true := by
    simp only [Staging.register, Staging.stagedChanges_eq, ok_bind]
    decide +kernel
  obtain ⟨last, hrun⟩ := exists_ok_of_isSome heval
  obtain ⟨first, hadded, hmoved⟩ := bind_eq_ok.mp hrun
  have hfirst : Registered countDigest moveSource.repo.blob [] ledgerFiles first exampleHead :=
    .commit (S := addSource) .start rfl (by decide) hadded
  exact ⟨last, .commit (S := moveSource) hfirst rfl (by decide) hmoved⟩

theorem sourceCheckout_checkedOut : CheckedOut moveSource.repo.blob movedSource sourceCheckout
    [ledgerPath, projectionPath, "src/new.py"] where
  listed := rfl
  paths _ := Iff.rfl
  files path e he _ := by
    have hread : sourceCheckout.read path = (movedSource.lookup path).bind fun e =>
      moveSource.repo.blob e.oid := rfl
    rw [hread, he]
    exact ⟨rfl, rfl⟩

/-- The source file is added and then moved. -/
theorem moved_source_covered : ∃ ledger, UpToDate countDigest moveSource.repo.blob ledger movedSource ∧
    coverageFindings exampleLibraries sourceCheckout (Keyed.ofList (ledger.map Record.reread))
      [ledgerPath, projectionPath, "src/new.py"] = .ok [] := by
  obtain ⟨ledger, hrun⟩ := two_commits_registered
  have hstart : UpToDate exampleLibraries.sha256 moveSource.repo.blob [] ledgerFiles :=
    ledgerFiles_upToDate
  exact ⟨ledger, registered_commits_covered hstart hrun sourceCheckout_checkedOut⟩

end ChampionRuntime.Licensing
