import ChampionRuntime.Receipts.Inverse
import ChampionRuntime.Receipts.SourceTree
import Mathlib.Data.List.ReduceOption

/-!
# Content identities depend on exactly the path-to-content map

The content map of a set of paths is sorted and free of repetitions, so it only
sees which paths are listed and what they hold. The digest of its canonical form
gives the map back, as long as no two byte strings at hand collide.
-/
namespace ChampionRuntime.Receipts

open Lib Lib.Json

variable {P : Primitives}

theorem name_no_slash (name : Name) : '/' ∉ name.val.toList := by
  have h := name.2
  simp only [isName, Bool.and_eq_true, Bool.not_eq_true', ← Bool.not_eq_true,
    List.contains_iff_mem] at h
  exact h.2

theorem name_ne_dot (name : Name) : name.val ≠ "." := by
  have h := name.2
  simp only [isName, Bool.and_eq_true, bne_iff_ne] at h
  exact h.1.1.2

theorem splitOnChar_pathChars {path : Path} (h : path ≠ []) :
    splitOnChar '/' (pathChars path) = path.map fun name => name.val.toList := by
  refine splitOnChar_joinWith (by rwa [Ne, List.map_eq_nil_iff]) fun part hpart => ?_
  obtain ⟨name, -, rfl⟩ := List.mem_map.mp hpart
  exact name_no_slash name

theorem pathText_injective : Function.Injective pathText := by
  have hdot : ∀ {q : Path}, q ≠ [] → String.ofList (pathChars q) ≠ "." := by
    intro q hq h
    have hchars : pathChars q = ['.'] := by
      have := congrArg String.toList h
      simpa using this
    have hsplit := splitOnChar_pathChars hq
    rw [hchars] at hsplit
    cases q with
    | nil => exact hq rfl
    | cons name rest =>
      have hname : ['.'] = name.val.toList := (List.cons.inj hsplit).1
      exact name_ne_dot name (String.toList_injective (by rw [← hname]; rfl))
  intro p q h
  unfold pathText at h
  split_ifs at h with hp hq hq
  · rw [hp, hq]
  · exact absurd h.symm (hdot hq)
  · exact absurd h (hdot hp)
  · have hchars := congrArg (splitOnChar '/') (String.ofList_injective h)
    rw [splitOnChar_pathChars hp, splitOnChar_pathChars hq] at hchars
    refine List.map_injective_iff.mpr (fun a b hab => ?_) hchars
    exact Subtype.ext (String.toList_injective hab)

theorem sortedPaths_congr {paths paths' : List Path} (h : ∀ p, p ∈ paths ↔ p ∈ paths') :
    sortedPaths paths = sortedPaths paths' := by
  have hperm : paths.dedup.Perm paths'.dedup :=
    (List.perm_ext_iff_of_nodup (List.nodup_dedup _) (List.nodup_dedup _)).mpr fun p => by
      rw [List.mem_dedup, List.mem_dedup, h p]
  unfold sortedPaths
  refine ((List.perm_insertionSort _ _).trans
    (hperm.trans (List.perm_insertionSort _ _).symm)).eq_of_pairwise ?_
    (pairwise_texts _) (pairwise_texts _)
  intro a b _ _ hab hba
  exact pathText_injective (le_antisymm hab hba)
where
  pairwise_texts (l : List Path) : (l.insertionSort fun a b => pathText a ≤ pathText b).Pairwise
      fun a b => pathText a ≤ pathText b := by
    have htotal : Std.Total fun a b : Path => pathText a ≤ pathText b :=
      ⟨fun a b => le_total (pathText a) (pathText b)⟩
    have htrans : IsTrans Path fun a b => pathText a ≤ pathText b :=
      ⟨fun _ _ _ h h' => String.le_trans h h'⟩
    exact List.pairwise_insertionSort _ l

theorem mem_sortedPaths {paths : List Path} {p : Path} : p ∈ sortedPaths paths ↔ p ∈ paths := by
  rw [sortedPaths, (List.perm_insertionSort _ _).mem_iff, List.mem_dedup]

theorem nodup_sortedPaths (paths : List Path) : (sortedPaths paths).Nodup :=
  (List.perm_insertionSort _ _).nodup_iff.mpr (List.nodup_dedup _)

section Lstat

variable {T : Tree}

theorem lstatFrom_eq_ok {relative : Path} {rest : List Name} : ∀ {kind found : Kind} {done : Path},
    kind ≠ .symlink → lstatFrom T relative kind done rest = .ok found →
      found ≠ .symlink ∧ (rest ≠ [] → T.lookup (done ++ rest) = some found) := by
  induction rest with
  | nil =>
    intro kind found done hkind h
    rw [← Except.ok.inj h]
    exact ⟨hkind, fun hne => absurd rfl hne⟩
  | cons name rest ih =>
    intro kind found done _ h
    unfold lstatFrom at h
    split at h
    · split_ifs at h
    · cases h
    · rename_i k hlink hk
      obtain ⟨hfound, hlookup⟩ := ih hlink h
      refine ⟨hfound, fun _ => ?_⟩
      by_cases hrest : rest = []
      · subst hrest
        rw [← Except.ok.inj h]
        exact hk
      · simpa using hlookup hrest

theorem mem_of_lookup {path : Path} {kind : Kind} (h : T.lookup path = some kind) :
    (path, kind) ∈ T.entries := mem_of_lookup_eq_some h

theorem lookup_of_mem {path : Path} {kind : Kind} (h : (path, kind) ∈ T.entries) :
    T.lookup path = some kind := (lookup_eq_some_iff_mem T.nodup).mpr h

theorem lookup_parent {rest : List Name} : ∀ {done : Path} {kind : Kind}, done ≠ [] → rest ≠ [] →
    (done ++ rest, kind) ∈ T.entries → T.lookup done = some .dir := by
  induction rest using List.reverseRecOn with
  | nil => exact fun _ h => absurd rfl h
  | append_singleton rest name ih =>
    intro done kind hdone _ hmem
    have hparent := T.parents _ hmem (done ++ rest) name (by simp [hdone]) (by simp)
    by_cases hrest : rest = []
    · subst hrest
      exact lookup_of_mem (by simpa using hparent)
    · exact ih hdone hrest hparent

theorem lstatFrom_of_lookup {relative : Path} {found : Kind} (hlink : found ≠ .symlink)
    {rest : List Name} : ∀ {done : Path}, rest ≠ [] → T.lookup (done ++ rest) = some found →
      ∀ kind, lstatFrom T relative kind done rest = .ok found := by
  induction rest with
  | nil => exact fun h => absurd rfl h
  | cons name rest ih =>
    intro done _ hfound kind
    by_cases hrest : rest = []
    · subst hrest
      simp only [lstatFrom, hfound]
    · have happend : done ++ name :: rest = (done ++ [name]) ++ rest := by simp
      rw [happend] at hfound
      have hparent := lookup_parent (by simp) hrest (mem_of_lookup hfound)
      simp only [lstatFrom, hparent]
      exact ih hrest hfound _

theorem lstat_eq_ok {path : Path} {kind : Kind} (hne : path ≠ []) :
    lstatWithinRoot T path = .ok kind ↔ T.lookup path = some kind ∧ kind ≠ .symlink := by
  constructor
  · intro h
    obtain ⟨hlink, hlookup⟩ := lstatFrom_eq_ok (by simp) h
    exact ⟨by simpa using hlookup hne, hlink⟩
  · rintro ⟨hlookup, hlink⟩
    exact lstatFrom_of_lookup hlink hne (by simpa using hlookup) .dir

theorem lookup_nil : T.lookup [] = none := by
  cases h : T.lookup [] with
  | none => rfl
  | some kind => exact absurd rfl (T.below _ (mem_of_lookup h))

theorem lstat_eq_file {path : Path} {bytes : Bytes} :
    lstatWithinRoot T path = .ok (.file bytes) ↔ T.lookup path = some (.file bytes) := by
  by_cases hne : path = []
  · subst hne
    simp [lstatWithinRoot, lstatFrom, lookup_nil]
  · simp [lstat_eq_ok hne]

theorem mem_under {directory path : Path} : path ∈ T.under directory ↔
    (∃ kind, T.lookup path = some kind) ∧ directory <+: path ∧ path ≠ directory := by
  simp only [Tree.under, List.mem_filter, List.mem_map, Bool.and_eq_true, bne_iff_ne,
    List.isPrefixOf_iff_prefix]
  refine and_congr_left fun _ => ?_
  constructor
  · rintro ⟨e, he, rfl⟩
    exact ⟨e.2, lookup_of_mem he⟩
  · rintro ⟨kind, hlookup⟩
    exact ⟨(path, kind), mem_of_lookup hlookup, rfl⟩

end Lstat

def fileBytes (T : Tree) (path : Path) : Bytes :=
  match T.lookup path with
  | some (.file bytes) => bytes
  | _ => []

/-- Which paths are listed, and what they hold. -/
def Holds (T : Tree) (paths : List Path) (path : Path) (bytes : Bytes) : Prop :=
  path ∈ paths ∧ T.lookup path = some (.file bytes)

def AllFiles (T : Tree) (paths : List Path) : Prop :=
  ∀ path ∈ paths, ∃ bytes, T.lookup path = some (.file bytes)

def contentFields (P : Primitives) (T : Tree) (paths : List Path) : Fields :=
  (sortedPaths paths).map fun path => (pathText path, .str (P.sha256 (fileBytes T path)))

theorem fileBytes_of_lookup {T : Tree} {path : Path} {bytes : Bytes}
    (h : T.lookup path = some (.file bytes)) : fileBytes T path = bytes := by
  rw [fileBytes, h]

theorem contentEntry_eq_ok {T : Tree} {path : Path} {entry : String × Value} :
    contentEntry P T path = .ok entry ↔ ∃ bytes, T.lookup path = some (.file bytes) ∧
      entry = (pathText path, .str (P.sha256 bytes)) := by
  simp only [contentEntry, bind_eq_ok]
  constructor
  · rintro ⟨kind, hkind, hentry⟩
    cases kind with
    | file bytes => exact ⟨bytes, lstat_eq_file.mp hkind, (Except.ok.inj hentry).symm⟩
    | dir => cases hentry
    | symlink => cases hentry
    | other => cases hentry
  · rintro ⟨bytes, hlookup, rfl⟩
    exact ⟨.file bytes, lstat_eq_file.mpr hlookup, rfl⟩

theorem contentMap_eq_ok {T : Tree} {paths : List Path} {files : Fields} :
    contentMap P T paths = .ok files ↔
      AllFiles T paths ∧ files = contentFields P T paths := by
  have hmap (hfiles : AllFiles T paths) :
      contentMap P T paths = .ok (contentFields P T paths) := by
    refine mapM_eq_ok_map fun path hpath => ?_
    obtain ⟨bytes, hlookup⟩ := hfiles path (mem_sortedPaths.mp hpath)
    exact contentEntry_eq_ok.mpr ⟨bytes, hlookup, by rw [fileBytes_of_lookup hlookup]⟩
  constructor
  · intro h
    have hfiles : AllFiles T paths := by
      intro path hpath
      obtain ⟨entry, -, hentry⟩ := mem_of_mapM_eq_ok h (mem_sortedPaths.mpr hpath)
      obtain ⟨bytes, hlookup, -⟩ := contentEntry_eq_ok.mp hentry
      exact ⟨bytes, hlookup⟩
    exact ⟨hfiles, Except.ok.inj (h.symm.trans (hmap hfiles))⟩
  · rintro ⟨hfiles, rfl⟩
    exact hmap hfiles

section ContentMaps

variable {T T' : Tree} {paths paths' : List Path}

theorem contentFields_congr (hall : AllFiles T paths) (hall' : AllFiles T' paths')
    (h : ∀ p bytes, Holds T paths p bytes ↔ Holds T' paths' p bytes) :
    contentFields P T paths = contentFields P T' paths' := by
  have hmem : ∀ p, p ∈ paths ↔ p ∈ paths' := by
    intro p
    constructor
    · intro hp
      obtain ⟨bytes, hbytes⟩ := hall p hp
      exact ((h p bytes).mp ⟨hp, hbytes⟩).1
    · intro hp
      obtain ⟨bytes, hbytes⟩ := hall' p hp
      exact ((h p bytes).mpr ⟨hp, hbytes⟩).1
  unfold contentFields
  rw [← sortedPaths_congr hmem]
  refine List.map_congr_left fun p hp => ?_
  obtain ⟨bytes, hbytes⟩ := hall p (mem_sortedPaths.mp hp)
  have hbytes' := ((h p bytes).mp ⟨mem_sortedPaths.mp hp, hbytes⟩).2
  rw [fileBytes_of_lookup hbytes, fileBytes_of_lookup hbytes']

theorem keys_contentFields : keys (contentFields P T paths) =
    (sortedPaths paths).map pathText := by
  simp [keys, contentFields, Function.comp_def]

theorem unique_contentFields : (Value.obj (contentFields P T paths)).Unique := by
  refine .obj ?_ fun f hf => ?_
  · rw [keys_contentFields]
    exact (nodup_sortedPaths paths).map pathText_injective
  · obtain ⟨p, -, rfl⟩ := List.mem_map.mp hf
    exact .str _

theorem normalFields_contentFields :
    Value.normalFields (contentFields P T paths) = contentFields P T paths := by
  rw [Value.normalFields_eq_map, contentFields, List.map_map]
  rfl

/-- Maps with one normal form list the same paths, with contents of one digest. -/
theorem mem_of_normal_eq (hnormal : (Value.obj (contentFields P T paths)).normal =
      (Value.obj (contentFields P T' paths')).normal) {p : Path} (hp : p ∈ paths) :
    p ∈ paths' ∧ P.sha256 (fileBytes T p) = P.sha256 (fileBytes T' p) := by
  simp only [Value.normal, normalFields_contentFields, Value.obj.injEq] at hnormal
  have hmem : (pathText p, Value.str (P.sha256 (fileBytes T p))) ∈ contentFields P T' paths' := by
    rw [← (perm_sortByKey _).mem_iff, ← hnormal, (perm_sortByKey _).mem_iff]
    exact List.mem_map.mpr ⟨p, mem_sortedPaths.mpr hp, rfl⟩
  obtain ⟨q, hq, hentry⟩ := List.mem_map.mp hmem
  obtain ⟨htext, hdigest⟩ := Prod.mk.inj hentry
  obtain rfl := pathText_injective htext
  exact ⟨mem_sortedPaths.mp hq, (Value.str.inj hdigest).symm⟩

/-- The byte strings that an identity digests: the files and the canonical map. -/
def Digested (P : Primitives) (T : Tree) (paths : List Path) (atHand : Set Bytes) : Prop :=
  (∀ path bytes, Holds T paths path bytes → bytes ∈ atHand) ∧
    ∀ bytes, P.rfc8785 (.obj (contentFields P T paths)) = .ok bytes → bytes ∈ atHand

theorem contentId_eq_ok {files : Fields} {empty : SourceError} {id : String} :
    contentId P files empty = .ok id ↔ files ≠ [] ∧
      ∃ bytes, canonicalBytes P (.obj files) = .ok bytes ∧ id = P.sha256 bytes := by
  simp only [contentId, bind_eq_ok, require_eq_ok, Bool.not_eq_true', List.isEmpty_eq_false_iff]
  constructor
  · rintro ⟨_, hne, hid⟩
    refine ⟨hne, ?_⟩
    split at hid
    · rename_i bytes hbytes
      exact ⟨bytes, hbytes, (Except.ok.inj hid).symm⟩
    · cases hid
  · rintro ⟨hne, bytes, hbytes, rfl⟩
    exact ⟨(), hne, by rw [hbytes]⟩

variable {atHand : Set Bytes}

theorem holds_of_contentId_eq (hc : CanonicalForm P.rfc8785) (hs : Set.InjOn P.sha256 atHand)
    (hin : Digested P T paths atHand) (hin' : Digested P T' paths' atHand)
    (hall' : AllFiles T' paths') {empty empty' : SourceError} {id : String}
    (h : contentId P (contentFields P T paths) empty = .ok id)
    (h' : contentId P (contentFields P T' paths') empty' = .ok id) {p : Path} {bytes : Bytes}
    (hp : Holds T paths p bytes) : Holds T' paths' p bytes := by
  obtain ⟨-, canonical, hcanonical, rfl⟩ := contentId_eq_ok.mp h
  obtain ⟨-, canonical', hcanonical', hid⟩ := contentId_eq_ok.mp h'
  have hcanonical := (canonicalBytes_eq_ok.mp hcanonical).2
  have hcanonical' := (canonicalBytes_eq_ok.mp hcanonical').2
  have hsame := hs (hin.2 _ hcanonical) (hin'.2 _ hcanonical') hid
  have hnormal := hc.injective unique_contentFields unique_contentFields hcanonical
    (hsame ▸ hcanonical')
  obtain ⟨hmem, hdigest⟩ := mem_of_normal_eq hnormal hp.1
  obtain ⟨bytes', hbytes'⟩ := hall' p hmem
  rw [fileBytes_of_lookup hp.2, fileBytes_of_lookup hbytes'] at hdigest
  rw [hs (hin.1 p bytes hp) (hin'.1 p bytes' ⟨hmem, hbytes'⟩) hdigest]
  exact ⟨hmem, hbytes'⟩

/-- Two identities agree exactly when the same paths are listed with the same
contents. -/
theorem contentId_eq_iff (hc : CanonicalForm P.rfc8785) (hs : Set.InjOn P.sha256 atHand)
    (hin : Digested P T paths atHand) (hin' : Digested P T' paths' atHand)
    (hall : AllFiles T paths) (hall' : AllFiles T' paths') {empty empty' : SourceError}
    {id id' : String} (h : contentId P (contentFields P T paths) empty = .ok id)
    (h' : contentId P (contentFields P T' paths') empty' = .ok id') :
    id = id' ↔ ∀ p bytes, Holds T paths p bytes ↔ Holds T' paths' p bytes := by
  constructor
  · rintro rfl p bytes
    exact ⟨holds_of_contentId_eq hc hs hin hin' hall' h h',
      holds_of_contentId_eq hc hs hin' hin hall h' h⟩
  · intro hsame
    rw [contentFields_congr hall hall' hsame] at h
    obtain ⟨-, bytes, hbytes, rfl⟩ := contentId_eq_ok.mp h
    obtain ⟨-, bytes', hbytes', rfl⟩ := contentId_eq_ok.mp h'
    rw [Except.ok.inj (hbytes.symm.trans hbytes')]

end ContentMaps

def Plain (kind : Kind) : Prop := kind = .dir ∨ ∃ bytes, kind = .file bytes

theorem isSourcePath_ne_nil {path : Path} (h : isSourcePath path = true) : path ≠ [] := by
  rintro rfl
  cases h

theorem plainEntry_eq_ok {T : Tree} {path : Path} {cause : SourceError} {out : Option Path}
    (hne : path ≠ []) : (do
      let kind ← lstatWithinRoot T path
      match kind with
      | .file _ => .ok (some path)
      | .dir => .ok none
      | _ => .error cause : Except SourceError (Option Path)) = .ok out ↔
    ∃ kind, T.lookup path = some kind ∧ Plain kind ∧
      out = if kind = .dir then none else some path := by
  rw [bind_eq_ok]
  refine exists_congr fun kind => ?_
  rw [lstat_eq_ok hne, and_assoc]
  refine and_congr_right fun _ => ?_
  cases kind <;> simp [Plain, eq_comm]

theorem sourceFile_eq_ok {T : Tree} {path : Path} {out : Option Path}
    (h : isSourcePath path = true) : sourceFile T path = .ok out ↔
      ∃ kind, T.lookup path = some kind ∧ Plain kind ∧
        out = if kind = .dir then none else some path := by
  rw [sourceFile, if_pos h]
  exact plainEntry_eq_ok (isSourcePath_ne_nil h)

theorem nestedInput_eq_ok {T : Tree} {path : Path} {out : Option Path} :
    nestedInput T path = .ok out ↔ isSourcePath path = true ∧
      ∃ kind, T.lookup path = some kind ∧ Plain kind ∧
        out = if kind = .dir then none else some path := by
  unfold nestedInput
  split_ifs with h
  · refine (plainEntry_eq_ok (isSourcePath_ne_nil h)).trans ?_
    simp [h]
  · simp [h]

section Release

variable {C : Checkout} {paths : List Path}

/-- The files that a release distributes, with their contents. -/
def Distributed (C : Checkout) (path : Path) (bytes : Bytes) : Prop :=
  ∃ candidates, candidatePaths C = .ok candidates ∧ path ∈ candidates ∧
    isSourcePath path = true ∧ C.tree.lookup path = some (.file bytes)

/-- The enumeration succeeds, and its included entries are no links. -/
def Listable (C : Checkout) : Prop :=
  ∃ candidates, candidatePaths C = .ok candidates ∧ ∀ path ∈ candidates,
    isSourcePath path = true → ∃ kind, C.tree.lookup path = some kind ∧ Plain kind

theorem mem_sourcePaths (h : sourcePaths C = .ok paths) (path : Path) :
    path ∈ paths ↔ ∃ bytes, Distributed C path bytes := by
  simp only [sourcePaths, bind_eq_ok, pure_eq_ok] at h
  obtain ⟨candidates, hcandidates, files, hfiles, rfl⟩ := h
  rw [List.reduceOption_mem_iff]
  constructor
  · intro hmem
    obtain ⟨candidate, hcandidate, hfile⟩ := mem_result_of_mapM_eq_ok hfiles hmem
    by_cases hsource : isSourcePath candidate = true
    · obtain ⟨kind, hlookup, hplain, hout⟩ := (sourceFile_eq_ok hsource).mp hfile
      rcases hplain with rfl | ⟨bytes, rfl⟩
      · simp at hout
      · obtain rfl : path = candidate := by simpa using hout
        exact ⟨bytes, candidates, hcandidates, hcandidate, hsource, hlookup⟩
    · simp [sourceFile, hsource] at hfile
  · rintro ⟨bytes, candidates', hcandidates', hmem, hsource, hlookup⟩
    obtain rfl := Except.ok.inj (hcandidates.symm.trans hcandidates')
    obtain ⟨out, hout, hfile⟩ := mem_of_mapM_eq_ok hfiles hmem
    obtain ⟨kind, hkind, -, rfl⟩ := (sourceFile_eq_ok hsource).mp hfile
    obtain rfl := Option.some.inj (hlookup.symm.trans hkind)
    simpa using hout

theorem exists_sourcePaths (h : Listable C) : ∃ paths, sourcePaths C = .ok paths := by
  obtain ⟨candidates, hcandidates, hplain⟩ := h
  have hfiles : ∃ files, candidates.mapM (sourceFile C.tree) = .ok files := by
    refine exists_mapM_eq_ok fun path hpath => ?_
    by_cases hsource : isSourcePath path = true
    · obtain ⟨kind, hlookup, hkind⟩ := hplain path hpath hsource
      exact ⟨_, (sourceFile_eq_ok hsource).mpr ⟨kind, hlookup, hkind, rfl⟩⟩
    · exact ⟨none, by simp [sourceFile, hsource]⟩
  obtain ⟨files, hfiles⟩ := hfiles
  exact ⟨files.reduceOption, by simp [sourcePaths, hcandidates, hfiles, pure, Except.pure]⟩

theorem holds_sourcePaths (h : sourcePaths C = .ok paths) (path : Path) (bytes : Bytes) :
    Holds C.tree paths path bytes ↔ Distributed C path bytes := by
  rw [Holds, mem_sourcePaths h]
  constructor
  · rintro ⟨⟨bytes', candidates, hcandidates, hmem, hsource, -⟩, hlookup⟩
    exact ⟨candidates, hcandidates, hmem, hsource, hlookup⟩
  · intro hd
    obtain ⟨-, -, -, -, hlookup⟩ := id hd
    exact ⟨⟨bytes, hd⟩, hlookup⟩

theorem allFiles_sourcePaths (h : sourcePaths C = .ok paths) : AllFiles C.tree paths := by
  intro path hpath
  obtain ⟨bytes, hd⟩ := (mem_sourcePaths h path).mp hpath
  exact ⟨bytes, ((holds_sourcePaths h path bytes).mpr hd).2⟩

theorem sourceReleaseId_eq_ok {id : String} : sourceReleaseId P C = .ok id ↔
    C.isDir = true ∧ ∃ paths, sourcePaths C = .ok paths ∧
      contentId P (contentFields P C.tree paths) (.noFiles C.name) = .ok id := by
  simp only [sourceReleaseId, bind_eq_ok, require_eq_ok, contentMap_eq_ok]
  constructor
  · rintro ⟨_, hdir, paths, hpaths, files, ⟨-, rfl⟩, hid⟩
    exact ⟨hdir, paths, hpaths, hid⟩
  · rintro ⟨hdir, paths, hpaths, hid⟩
    exact ⟨(), hdir, paths, hpaths, _, ⟨allFiles_sourcePaths hpaths, rfl⟩, hid⟩

end Release

section Build

variable {C : Checkout} {value : String} {consumed : List String} {paths : List Path}

/-- A consumed path names an included file, or a directory of included entries. -/
def Consumable (T : Tree) (value : String) : Prop :=
  ∃ path, relativePath? value = some path ∧ (∃ kind, T.lookup path = some kind) ∧
    ∀ p kind, path <+: p → T.lookup p = some kind → isSourcePath p = true ∧ Plain kind

/-- The files that the consumed paths expand to, with their contents. -/
def Consumed (T : Tree) (consumed : List String) (path : Path) (bytes : Bytes) : Prop :=
  ∃ value ∈ consumed, ∃ directory, relativePath? value = some directory ∧ directory <+: path ∧
    T.lookup path = some (.file bytes)

theorem eq_of_file_prefix {T : Tree} {path p : Path} {bytes : Bytes} {kind : Kind}
    (hfile : T.lookup path = some (.file bytes)) (hp : path <+: p)
    (hlookup : T.lookup p = some kind) : p = path := by
  obtain ⟨rest, rfl⟩ := hp
  by_contra hne
  have hrest : rest ≠ [] := fun h => hne (by simp [h])
  have hparent := lookup_parent (T.below _ (mem_of_lookup hfile)) hrest (mem_of_lookup hlookup)
  rw [hfile] at hparent
  cases hparent

theorem nested_spec {directory : Path} {found : List (Option Path)}
    (hfound : (C.walk directory).mapM (nestedInput C.tree) = .ok found) {p : Path} {kind : Kind}
    (hp : directory <+: p) (hne : p ≠ directory) (hlookup : C.tree.lookup p = some kind) :
    isSourcePath p = true ∧ Plain kind ∧ (if kind = .dir then none else some p) ∈ found := by
  have hwalk := (C.walk_perm directory).mem_iff.mpr (mem_under.mpr ⟨⟨kind, hlookup⟩, hp, hne⟩)
  obtain ⟨out, hout, hnested⟩ := mem_of_mapM_eq_ok hfound hwalk
  obtain ⟨hsource, kind', hkind, hplain, rfl⟩ := nestedInput_eq_ok.mp hnested
  obtain rfl := Option.some.inj (hlookup.symm.trans hkind)
  exact ⟨hsource, hplain, hout⟩

theorem mem_nested {directory : Path} {found : List (Option Path)}
    (hfound : (C.walk directory).mapM (nestedInput C.tree) = .ok found)
    (hdir : C.tree.lookup directory = some .dir) (p : Path) :
    p ∈ found.reduceOption ↔ directory <+: p ∧ ∃ bytes, C.tree.lookup p = some (.file bytes) := by
  rw [List.reduceOption_mem_iff]
  constructor
  · intro hmem
    obtain ⟨q, hq, hnested⟩ := mem_result_of_mapM_eq_ok hfound hmem
    obtain ⟨-, kind, hlookup, hplain, hout⟩ := nestedInput_eq_ok.mp hnested
    obtain ⟨-, hleading, -⟩ := mem_under.mp ((C.walk_perm directory).mem_iff.mp hq)
    rcases hplain with rfl | ⟨bytes, rfl⟩
    · simp at hout
    · obtain rfl : p = q := by simpa using hout
      exact ⟨hleading, bytes, hlookup⟩
  · rintro ⟨hleading, bytes, hlookup⟩
    have hne : p ≠ directory := by
      rintro rfl
      rw [hdir] at hlookup
      cases hlookup
    simpa using (nested_spec hfound hleading hne hlookup).2.2

theorem consumed_singleton {T : Tree} {path : Path} (hpath : relativePath? value = some path)
    (p : Path) : (∃ bytes, Consumed T [value] p bytes) ↔
      path <+: p ∧ ∃ bytes, T.lookup p = some (.file bytes) := by
  constructor
  · rintro ⟨bytes, value', hvalue, directory, hdirectory, hleading, hlookup⟩
    obtain rfl := List.mem_singleton.mp hvalue
    obtain rfl := Option.some.inj (hpath.symm.trans hdirectory)
    exact ⟨hleading, bytes, hlookup⟩
  · rintro ⟨hleading, bytes, hlookup⟩
    exact ⟨bytes, value, by simp, path, hpath, hleading, hlookup⟩

theorem expandInput_spec {files : List Path} (h : expandInput C value = .ok files) :
    Consumable C.tree value ∧
      ∀ path, path ∈ files ↔ ∃ bytes, Consumed C.tree [value] path bytes := by
  unfold expandInput at h
  split at h
  · cases h
  rename_i path hpath
  simp only [consumed_singleton hpath]
  split_ifs at h with hsource
  split at h
  · cases h
  · rename_i hlstat
    have hdir := ((lstat_eq_ok (isSourcePath_ne_nil hsource)).mp hlstat).1
    simp only [bind_eq_ok, pure_eq_ok] at h
    obtain ⟨found, hfound, rfl⟩ := h
    refine ⟨⟨path, hpath, ⟨_, hdir⟩, fun p kind hp hlookup => ?_⟩, mem_nested hfound hdir⟩
    by_cases hne : p = path
    · subst hne
      obtain rfl := Option.some.inj (hdir.symm.trans hlookup)
      exact ⟨hsource, .inl rfl⟩
    · obtain ⟨hsource', hplain, -⟩ := nested_spec hfound hp hne hlookup
      exact ⟨hsource', hplain⟩
  · rename_i bytes hlstat
    have hfile := lstat_eq_file.mp hlstat
    obtain rfl := Except.ok.inj h
    refine ⟨⟨path, hpath, ⟨_, hfile⟩, fun p kind hp hlookup => ?_⟩, fun p => ?_⟩
    · obtain rfl := eq_of_file_prefix hfile hp hlookup
      obtain rfl := Option.some.inj (hfile.symm.trans hlookup)
      exact ⟨hsource, .inr ⟨bytes, rfl⟩⟩
    · rw [List.mem_singleton]
      constructor
      · rintro rfl
        exact ⟨List.prefix_rfl, bytes, hfile⟩
      · rintro ⟨hleading, bytes', hlookup⟩
        exact eq_of_file_prefix hfile hleading hlookup
  · cases h

theorem exists_expandInput (h : Consumable C.tree value) :
    ∃ files, expandInput C value = .ok files := by
  obtain ⟨path, hpath, ⟨kind, hlookup⟩, hbelow⟩ := h
  obtain ⟨hsource, hplain⟩ := hbelow path kind List.prefix_rfl hlookup
  have hne := isSourcePath_ne_nil hsource
  simp only [expandInput, hpath, hsource, if_true]
  rcases hplain with rfl | ⟨bytes, rfl⟩
  · rw [(lstat_eq_ok hne).mpr ⟨hlookup, by simp⟩]
    have hfound : ∃ found, (C.walk path).mapM (nestedInput C.tree) = .ok found := by
      refine exists_mapM_eq_ok fun p hp => ?_
      obtain ⟨⟨kind, hkind⟩, hleading, -⟩ := mem_under.mp ((C.walk_perm path).mem_iff.mp hp)
      obtain ⟨hsource', hplain'⟩ := hbelow p kind hleading hkind
      exact ⟨_, nestedInput_eq_ok.mpr ⟨hsource', kind, hkind, hplain', rfl⟩⟩
    obtain ⟨found, hfound⟩ := hfound
    exact ⟨found.reduceOption, by simp [hfound, pure, Except.pure]⟩
  · rw [lstat_eq_file.mpr hlookup]
    exact ⟨[path], rfl⟩

theorem resolveConsumedPaths_spec (h : resolveConsumedPaths C consumed = .ok paths) :
    (∀ value ∈ consumed, Consumable C.tree value) ∧
      ∀ path, path ∈ paths ↔ ∃ bytes, Consumed C.tree consumed path bytes := by
  simp only [resolveConsumedPaths, bind_eq_ok, pure_eq_ok] at h
  obtain ⟨expanded, hexpanded, rfl⟩ := h
  refine ⟨fun value hvalue => ?_, fun path => ?_⟩
  · obtain ⟨files, -, hfiles⟩ := mem_of_mapM_eq_ok hexpanded hvalue
    exact (expandInput_spec hfiles).1
  · rw [List.mem_flatten]
    constructor
    · rintro ⟨files, hfiles, hpath⟩
      obtain ⟨value, hvalue, hexpand⟩ := mem_result_of_mapM_eq_ok hexpanded hfiles
      obtain ⟨bytes, value', hvalue', hrest⟩ := ((expandInput_spec hexpand).2 path).mp hpath
      obtain rfl := List.mem_singleton.mp hvalue'
      exact ⟨bytes, value', hvalue, hrest⟩
    · rintro ⟨bytes, value, hvalue, hrest⟩
      obtain ⟨files, hfiles, hexpand⟩ := mem_of_mapM_eq_ok hexpanded hvalue
      exact ⟨files, hfiles,
        ((expandInput_spec hexpand).2 path).mpr ⟨bytes, value, by simp, hrest⟩⟩

theorem exists_resolveConsumedPaths (h : ∀ value ∈ consumed, Consumable C.tree value) :
    ∃ paths, resolveConsumedPaths C consumed = .ok paths := by
  obtain ⟨expanded, hexpanded⟩ := exists_mapM_eq_ok fun value hvalue =>
    exists_expandInput (h value hvalue)
  exact ⟨expanded.flatten, by simp [resolveConsumedPaths, hexpanded, pure, Except.pure]⟩

theorem holds_consumedPaths (h : resolveConsumedPaths C consumed = .ok paths) (path : Path)
    (bytes : Bytes) : Holds C.tree paths path bytes ↔ Consumed C.tree consumed path bytes := by
  rw [Holds, (resolveConsumedPaths_spec h).2]
  constructor
  · rintro ⟨⟨bytes', value, hvalue, directory, hdirectory, hleading, -⟩, hlookup⟩
    exact ⟨value, hvalue, directory, hdirectory, hleading, hlookup⟩
  · intro hconsumed
    obtain ⟨-, -, -, -, -, hlookup⟩ := id hconsumed
    exact ⟨⟨bytes, hconsumed⟩, hlookup⟩

theorem allFiles_consumedPaths (h : resolveConsumedPaths C consumed = .ok paths) :
    AllFiles C.tree paths := by
  intro path hpath
  obtain ⟨bytes, hconsumed⟩ := ((resolveConsumedPaths_spec h).2 path).mp hpath
  exact ⟨bytes, ((holds_consumedPaths h path bytes).mpr hconsumed).2⟩

theorem buildSubjectId_eq_ok {id : String} : buildSubjectId P C consumed = .ok id ↔
    C.isDir = true ∧ ∃ paths, resolveConsumedPaths C consumed = .ok paths ∧
      contentId P (contentFields P C.tree paths) .noBuildInput = .ok id := by
  simp only [buildSubjectId, bind_eq_ok, require_eq_ok, contentMap_eq_ok]
  constructor
  · rintro ⟨_, hdir, paths, hpaths, files, ⟨-, rfl⟩, hid⟩
    exact ⟨hdir, paths, hpaths, hid⟩
  · rintro ⟨hdir, paths, hpaths, hid⟩
    exact ⟨(), hdir, paths, hpaths, _, ⟨allFiles_consumedPaths hpaths, rfl⟩, hid⟩

theorem buildSubjectId_congr {C' : Checkout} {consumed' : List String} {id : String}
    (h : buildSubjectId P C consumed = .ok id) (hdir : C'.isDir = true)
    (hall : ∀ value ∈ consumed', Consumable C'.tree value)
    (hsame : ∀ path bytes, Consumed C.tree consumed path bytes ↔
      Consumed C'.tree consumed' path bytes) : buildSubjectId P C' consumed' = .ok id := by
  obtain ⟨-, paths, hpaths, hid⟩ := buildSubjectId_eq_ok.mp h
  obtain ⟨paths', hpaths'⟩ := exists_resolveConsumedPaths hall
  refine buildSubjectId_eq_ok.mpr ⟨hdir, paths', hpaths', ?_⟩
  rwa [← contentFields_congr (allFiles_consumedPaths hpaths) (allFiles_consumedPaths hpaths')]
  intro path bytes
  rw [holds_consumedPaths hpaths, holds_consumedPaths hpaths', hsame]

theorem consumable_of_buildSubjectId {id : String} (h : buildSubjectId P C consumed = .ok id) :
    C.isDir = true ∧ ∀ value ∈ consumed, Consumable C.tree value := by
  obtain ⟨hdir, paths, hpaths, -⟩ := buildSubjectId_eq_ok.mp h
  exact ⟨hdir, (resolveConsumedPaths_spec hpaths).1⟩

theorem Consumable.inside {T : Tree} {directory inner : String} {d f : Path} {kind : Kind}
    (h : Consumable T directory) (hd : relativePath? directory = some d)
    (hf : relativePath? inner = some f) (hleading : d <+: f) (hlookup : T.lookup f = some kind) :
    Consumable T inner := by
  obtain ⟨d', hd', -, hbelow⟩ := h
  obtain rfl := Option.some.inj (hd.symm.trans hd')
  exact ⟨f, hf, ⟨kind, hlookup⟩, fun p k hp => hbelow p k (hleading.trans hp)⟩

theorem consumed_inside {T : Tree} {directory inner : String} {d f : Path}
    (hmem : directory ∈ consumed) (hd : relativePath? directory = some d)
    (hf : relativePath? inner = some f) (hleading : d <+: f) (path : Path) (bytes : Bytes) :
    Consumed T (inner :: consumed) path bytes ↔ Consumed T consumed path bytes := by
  constructor
  · rintro ⟨value, hvalue, q, hq, hqp, hlookup⟩
    rcases List.mem_cons.mp hvalue with rfl | hvalue
    · obtain rfl := Option.some.inj (hf.symm.trans hq)
      exact ⟨directory, hmem, d, hd, hleading.trans hqp, hlookup⟩
    · exact ⟨value, hvalue, q, hq, hqp, hlookup⟩
  · rintro ⟨value, hvalue, hrest⟩
    exact ⟨value, List.mem_cons_of_mem _ hvalue, hrest⟩

end Build

/-- Both identities are functions of the path-to-content map, and the digest
gives the map back. The enumeration back end, the order of a walk, entries that
are not distributed, and repeated or overlapping consumed paths do not show. -/
theorem identities_of_content {atHand : Set Bytes} (hc : CanonicalForm P.rfc8785)
    (hs : Set.InjOn P.sha256 atHand) :
    (∀ A B : Checkout, ∀ idA idB : String, sourceReleaseId P A = .ok idA →
      sourceReleaseId P B = .ok idB →
      (∀ paths, sourcePaths A = .ok paths → Digested P A.tree paths atHand) →
      (∀ paths, sourcePaths B = .ok paths → Digested P B.tree paths atHand) →
      (idA = idB ↔ ∀ path bytes, Distributed A path bytes ↔ Distributed B path bytes)) ∧
    (∀ A B : Checkout, ∀ id : String, sourceReleaseId P A = .ok id → B.isDir = true → Listable B →
      (∀ path bytes, Distributed A path bytes ↔ Distributed B path bytes) →
      sourceReleaseId P B = .ok id) ∧
    (∀ C C' : Checkout, ∀ consumed consumed' : List String, ∀ id : String,
      buildSubjectId P C consumed = .ok id → C'.isDir = true →
      (∀ value ∈ consumed', Consumable C'.tree value) →
      (∀ path bytes, Consumed C.tree consumed path bytes ↔
        Consumed C'.tree consumed' path bytes) → buildSubjectId P C' consumed' = .ok id) ∧
    (∀ C C' : Checkout, ∀ consumed consumed' : List String, ∀ id : String,
      C.tree = C'.tree → C.isDir = C'.isDir → (∀ value, value ∈ consumed ↔ value ∈ consumed') →
      (buildSubjectId P C consumed = .ok id ↔ buildSubjectId P C' consumed' = .ok id)) ∧
    (∀ C : Checkout, ∀ consumed : List String, ∀ directory inner : String, ∀ d f : Path,
      ∀ kind : Kind, ∀ id : String, directory ∈ consumed → relativePath? directory = some d →
      relativePath? inner = some f → d <+: f → C.tree.lookup f = some kind →
      (buildSubjectId P C (inner :: consumed) = .ok id ↔
        buildSubjectId P C consumed = .ok id)) := by
  have hreorder : ∀ C C' : Checkout, ∀ consumed consumed' : List String, ∀ id : String,
      C.tree = C'.tree → C.isDir = C'.isDir → (∀ value, value ∈ consumed ↔ value ∈ consumed') →
      buildSubjectId P C consumed = .ok id → buildSubjectId P C' consumed' = .ok id := by
    intro C C' consumed consumed' id htree hdir hmem h
    obtain ⟨hisDir, hall⟩ := consumable_of_buildSubjectId h
    refine buildSubjectId_congr h (hdir ▸ hisDir) (fun value hvalue => ?_) fun path bytes => ?_
    · exact htree ▸ hall value ((hmem value).mpr hvalue)
    · simp only [Consumed, htree, hmem]
  refine ⟨?_, ?_, ?_, ?_, ?_⟩
  · intro A B idA idB hA hB hinA hinB
    obtain ⟨-, pathsA, hpathsA, hidA⟩ := sourceReleaseId_eq_ok.mp hA
    obtain ⟨-, pathsB, hpathsB, hidB⟩ := sourceReleaseId_eq_ok.mp hB
    rw [contentId_eq_iff hc hs (hinA _ hpathsA) (hinB _ hpathsB) (allFiles_sourcePaths hpathsA)
      (allFiles_sourcePaths hpathsB) hidA hidB]
    simp only [holds_sourcePaths hpathsA, holds_sourcePaths hpathsB]
  · intro A B id hA hdir hlist hsame
    obtain ⟨-, pathsA, hpathsA, hid⟩ := sourceReleaseId_eq_ok.mp hA
    obtain ⟨pathsB, hpathsB⟩ := exists_sourcePaths hlist
    have hfields : contentFields P A.tree pathsA = contentFields P B.tree pathsB := by
      refine contentFields_congr (allFiles_sourcePaths hpathsA) (allFiles_sourcePaths hpathsB) ?_
      simpa only [holds_sourcePaths hpathsA, holds_sourcePaths hpathsB] using hsame
    obtain ⟨hne, hbytes⟩ := contentId_eq_ok.mp hid
    refine sourceReleaseId_eq_ok.mpr ⟨hdir, pathsB, hpathsB, contentId_eq_ok.mpr ?_⟩
    rw [← hfields]
    exact ⟨hne, hbytes⟩
  · intro C C' consumed consumed' id h hdir hall hsame
    exact buildSubjectId_congr h hdir hall hsame
  · intro C C' consumed consumed' id htree hdir hmem
    exact ⟨hreorder C C' consumed consumed' id htree hdir hmem,
      hreorder C' C consumed' consumed id htree.symm hdir.symm fun value => (hmem value).symm⟩
  · intro C consumed directory inner d f kind id hdirectory hd hf hleading hlookup
    have hsame := consumed_inside (T := C.tree) hdirectory hd hf hleading
    constructor
    · intro h
      obtain ⟨hisDir, hall⟩ := consumable_of_buildSubjectId h
      exact buildSubjectId_congr h hisDir
        (fun value hvalue => hall value (List.mem_cons_of_mem _ hvalue)) hsame
    · intro h
      obtain ⟨hisDir, hall⟩ := consumable_of_buildSubjectId h
      refine buildSubjectId_congr h hisDir (fun value hvalue => ?_) fun path bytes =>
        (hsame path bytes).symm
      rcases List.mem_cons.mp hvalue with rfl | hvalue
      · exact (hall directory hdirectory).inside hd hf hleading hlookup
      · exact hall value hvalue

theorem isName_runtime : isName "runtime" = true := by decide

def runtimeDir : Path := [⟨"runtime", isName_runtime⟩]

def exampleFile : Path := [⟨"runtime", isName_runtime⟩, ⟨"example.py", by decide⟩]

def evidenceDir : Path := [⟨"evidence", by decide⟩]

def evidenceFile : Path := [⟨"evidence", by decide⟩, ⟨"result.json", by decide⟩]

def exampleContent : Bytes := "answer = 42\n".toByteArray.data.toList

/-- The tree of a checkout, in which the evidence may hold anything. -/
def exampleTree (evidence : Bytes) : Tree where
  entries := [(runtimeDir, .dir), (exampleFile, .file exampleContent), (evidenceDir, .dir),
    (evidenceFile, .file evidence)]
  nodup := by simp [runtimeDir, exampleFile, evidenceDir, evidenceFile]
  below := by simp [runtimeDir, exampleFile, evidenceDir, evidenceFile]
  parents := by
    intro e he parent name hne heq
    simp only [List.mem_cons, List.not_mem_nil, or_false] at he
    have hparent : parent = e.1.dropLast := by simp [heq]
    rcases he with rfl | rfl | rfl | rfl <;> subst hparent <;>
      simp [runtimeDir, exampleFile, evidenceDir, evidenceFile] at hne ⊢

def trackedCheckout : Checkout where
  name := "/work/tree"
  isDir := true
  tree := exampleTree []
  git := .listed [some "runtime/example.py", some ""]
  walk := (exampleTree []).under
  walk_perm _ := .refl _

def walkedCheckout : Checkout where
  name := "/srv/copy"
  isDir := true
  tree := exampleTree exampleContent
  git := .notAWorkTree false
  walk directory := ((exampleTree exampleContent).under directory).reverse
  walk_perm _ := List.reverse_perm _

def exampleContentDigest : String :=
  "0a775022744f64c352863f165f2e125898419999bc57c83204772036d0ef6b2e"

def exampleMapText : String :=
  "\x7b\"runtime/example.py\":\"" ++ exampleContentDigest ++ "\"\x7d"

def exampleTreeId : String := "b370bd4402ade2fe4497932fde7783042b91f8aeda626ff7d6a1e976c5defdaf"

/-- SHA-256 of the two byte strings that the checkouts digest. -/
def exampleTreePrimitives : Primitives where
  unicodeWord _ := false
  rfc8785 := compactJson
  sha256 bytes :=
    if bytes = exampleContent then exampleContentDigest
    else if bytes = exampleMapText.toByteArray.data.toList then exampleTreeId
    else "0000000000000000000000000000000000000000000000000000000000000000"

theorem exampleTree_lookup (evidence : Bytes) :
    (exampleTree evidence).lookup exampleFile = some (.file exampleContent) := rfl

/-- What the two checkouts list, where the walk finds every entry, and the
identities of the first. -/
theorem runs_example :
    (candidatePaths trackedCheckout = .ok [exampleFile] ∧
        sourceReleaseId exampleTreePrimitives trackedCheckout = .ok exampleTreeId ∧
        buildSubjectId exampleTreePrimitives trackedCheckout ["runtime"] = .ok exampleTreeId) ∧
      (candidatePaths walkedCheckout = .ok [evidenceFile, evidenceDir, exampleFile, runtimeDir] ∧
        ∀ p ∈ [evidenceFile, evidenceDir, exampleFile, runtimeDir], isSourcePath p = true →
          p = exampleFile ∨ walkedCheckout.tree.lookup p = some .dir) ∧
      isSourcePath exampleFile = true ∧
      exampleTreePrimitives.sha256 exampleContent ≠
        exampleTreePrimitives.sha256 exampleMapText.toByteArray.data.toList ∧
      relativePath? "runtime" = some runtimeDir ∧
      relativePath? "runtime/example.py" = some exampleFile := by
  refine ⟨⟨?_, ?_, ?_⟩, ⟨?_, ?_⟩, ?_, ?_, ?_, ?_⟩ <;> decide +kernel

theorem distributed_tracked (path : Path) (bytes : Bytes) :
    Distributed trackedCheckout path bytes ↔ path = exampleFile ∧ bytes = exampleContent := by
  have hlookup : trackedCheckout.tree.lookup exampleFile = some (.file exampleContent) :=
    exampleTree_lookup _
  constructor
  · rintro ⟨candidates, hcandidates, hmem, -, hfound⟩
    obtain rfl := Except.ok.inj (runs_example.1.1.symm.trans hcandidates)
    obtain rfl := List.mem_singleton.mp hmem
    rw [hlookup] at hfound
    simpa using hfound.symm
  · rintro ⟨rfl, rfl⟩
    exact ⟨_, runs_example.1.1, by simp, runs_example.2.2.1, hlookup⟩

theorem distributed_walked (path : Path) (bytes : Bytes) :
    Distributed walkedCheckout path bytes ↔ path = exampleFile ∧ bytes = exampleContent := by
  obtain ⟨hwalk, hsource⟩ := runs_example.2.1
  have hlookup : walkedCheckout.tree.lookup exampleFile = some (.file exampleContent) :=
    exampleTree_lookup _
  constructor
  · rintro ⟨candidates, hcandidates, hmem, hpath, hfound⟩
    obtain rfl := Except.ok.inj (hwalk.symm.trans hcandidates)
    rcases hsource path hmem hpath with rfl | hdir
    · rw [hlookup] at hfound
      simpa using hfound.symm
    · rw [hdir] at hfound
      cases hfound
  · rintro ⟨rfl, rfl⟩
    exact ⟨_, hwalk, by simp, runs_example.2.2.1, hlookup⟩

theorem listable_walked : Listable walkedCheckout := by
  obtain ⟨hwalk, hsource⟩ := runs_example.2.1
  refine ⟨_, hwalk, fun path hmem hpath => ?_⟩
  rcases hsource path hmem hpath with rfl | hdir
  · exact ⟨_, exampleTree_lookup _, .inr ⟨_, rfl⟩⟩
  · exact ⟨_, hdir, .inl rfl⟩

theorem identities_of_content_example :
    sourceReleaseId exampleTreePrimitives walkedCheckout = .ok exampleTreeId ∧
      buildSubjectId exampleTreePrimitives trackedCheckout ["runtime/example.py", "runtime"] =
        .ok exampleTreeId := by
  obtain ⟨htracked, -, -, hdistinct, hdirectory, hfile⟩ := runs_example
  have hinj : Set.InjOn exampleTreePrimitives.sha256
      {exampleContent, exampleMapText.toByteArray.data.toList} := by
    exact Set.injOn_pair.mpr fun h => absurd h hdistinct
  obtain ⟨-, hrelease, -, -, hoverlap⟩ :=
    identities_of_content (P := exampleTreePrimitives) canonicalForm_compactJson hinj
  refine ⟨?_, ?_⟩
  · refine hrelease trackedCheckout walkedCheckout _ htracked.2.1 rfl listable_walked ?_
    exact fun path bytes => (distributed_tracked path bytes).trans
      (distributed_walked path bytes).symm
  · exact (hoverlap trackedCheckout ["runtime"] "runtime" "runtime/example.py" runtimeDir
      exampleFile (.file exampleContent) exampleTreeId (by simp) hdirectory hfile
      (by decide) (exampleTree_lookup _)).mpr htracked.2.2

end ChampionRuntime.Receipts
