import ChampionRuntime.Closure.Overlay
import ChampionRuntime.Receipts.SourceIdentity
import Mathlib.Data.List.Infix

/-!
# What the overlay verifiers establish

An accepted tree holds every listed file. That it holds no others, and that the
list names each file once, is left to the tree and the manifest.
-/
namespace ChampionRuntime.Closure

open Lib Lib.Json Receipts

theorem toList_pathText {path : Path} (h : path ≠ []) :
    (pathText path).toList = pathChars path := by
  rw [pathText, if_neg h, String.toList_ofList]

theorem map_names_ne_nil {path : Path} (h : path ≠ []) :
    (path.map fun name => name.val.toList) ≠ [] := by
  rwa [Ne, List.map_eq_nil_iff]

theorem no_slash_names (path : Path) :
    ∀ part ∈ path.map fun name => name.val.toList, '/' ∉ part := by
  intro part hpart
  obtain ⟨name, -, rfl⟩ := List.mem_map.mp hpart
  exact name_no_slash name

theorem pathText_append {d rest : Path} (hd : d ≠ []) (hrest : rest ≠ []) :
    pathText (d ++ rest) = pathText d ++ "/" ++ pathText rest := by
  refine String.toList_injective ?_
  rw [toList_pathText (by simp [hd]), String.toList_append, String.toList_append,
    toList_pathText hd, toList_pathText hrest, pathChars, List.map_append,
    joinWith_append (map_names_ne_nil hd) (map_names_ne_nil hrest)]
  simp [pathChars]

theorem map_names_injective {p q : Path}
    (h : (p.map fun name => name.val.toList) = q.map fun name => name.val.toList) : p = q :=
  List.map_injective_iff.mpr (fun _ _ hab => Subtype.ext (String.toList_injective hab)) h

theorem exists_of_pathText_append {d p : Path} {text : String} (hd : d ≠ []) (hp : p ≠ [])
    (h : pathText p = pathText d ++ "/" ++ text) :
    ∃ rest, rest ≠ [] ∧ p = d ++ rest ∧ pathText rest = text := by
  have hchars := congrArg (fun t => splitOnChar '/' t.toList) h
  simp only [toList_pathText hp, toList_pathText hd, String.toList_append] at hchars
  rw [splitOnChar_pathChars hp, List.append_assoc, pathChars,
    show "/".toList ++ text.toList = '/' :: text.toList from rfl,
    splitOnChar_joinWith_append (map_names_ne_nil hd) (no_slash_names d),
    List.map_eq_append_iff] at hchars
  obtain ⟨d', rest, rfl, hd', hrest⟩ := hchars
  obtain rfl := map_names_injective hd'
  have hne : rest ≠ [] := by
    rintro rfl
    exact splitWhere_ne_nil _ hrest.symm
  refine ⟨rest, hne, rfl, String.toList_injective ?_⟩
  rw [toList_pathText hne, pathChars, hrest, joinWith_splitOnChar]

theorem relativePath_pathText {path : Path} (h : path ≠ []) :
    relativePath? (pathText path) = some path := by
  have hnames : ∀ path : Path, (path.map Subtype.val).mapM
      (fun part => if h : isName part = true then some (⟨part, h⟩ : Name) else none) =
        some path := by
    intro path
    induction path with
    | nil => rfl
    | cons name path ih =>
      rw [List.map_cons, List.mapM_cons, dif_pos name.2, ih]
      rfl
  have hparts : posixParts (pathText path) = path.map Subtype.val := by
    rw [posixParts, toList_pathText h, splitOnChar_pathChars h, List.map_map,
      show (String.ofList ∘ fun name : Name => name.val.toList) = Subtype.val from
        funext fun name => String.ofList_toList, List.filter_eq_self]
    intro part hpart
    obtain ⟨name, -, rfl⟩ := List.mem_map.mp hpart
    have hname := name.2
    simp only [isName, Bool.and_eq_true, bne_iff_ne] at hname
    simp [hname.1.1.1, hname.1.1.2]
  have hhead : (pathText path).toList.head? ≠ some '/' := by
    obtain ⟨name, rest, rfl⟩ := List.exists_cons_of_ne_nil h
    have hslash := name_no_slash name
    intro hslash'
    have hsplit := splitOnChar_pathChars h
    rw [toList_pathText h] at hslash'
    obtain ⟨tail, htail⟩ : ∃ tail, pathChars (name :: rest) = '/' :: tail := by
      cases hchars : pathChars (name :: rest) with
      | nil => simp [hchars] at hslash'
      | cons c tail => exact ⟨tail, by simpa [hchars] using hslash'⟩
    rw [htail, splitOnChar, splitWhere, if_pos (by decide), List.map_cons] at hsplit
    have hempty := (List.cons.inj hsplit).1
    have hname := name.2
    rw [show name.val = "" from String.toList_injective hempty.symm] at hname
    exact absurd hname (by decide)
  rw [relativePath?, if_neg hhead, hparts, hnames]

variable {R : SourceRoot} {M : Manifests} {sha256 : Bytes → String} {isPrivate : Bytes → Bool}

theorem meetsLink_of_lookup {T : Tree} {path : Path} {kind : Kind}
    (h : T.lookup path = some kind) : meetsLink T path = true ↔ kind = .symlink := by
  have hpath : path ∈ path.inits := (List.mem_inits _ _).mpr List.prefix_rfl
  simp only [meetsLink, List.any_eq_true, beq_iff_eq]
  constructor
  · rintro ⟨p, hp, hlink⟩
    obtain ⟨rest, rfl⟩ := (List.mem_inits _ _).mp hp
    by_cases hrest : rest = []
    · subst hrest
      rw [List.append_nil] at h
      exact Option.some.inj (h.symm.trans hlink)
    · have hparent := lookup_parent (T.below _ (mem_of_lookup hlink)) hrest (mem_of_lookup h)
      rw [hparent] at hlink
      cases hlink
  · rintro rfl
    exact ⟨path, hpath, h⟩

theorem fileOf_of_file {path : Path} {bytes : Bytes}
    (h : R.tree.lookup path = some (.file bytes)) : R.fileOf path = some bytes := by
  have hlink : meetsLink R.tree path ≠ true := by
    rw [ne_eq, meetsLink_of_lookup h]
    exact fun hkind => by cases hkind
  rw [SourceRoot.fileOf, if_neg hlink, h]

theorem fileOf_eq_some {path : Path} {bytes : Bytes} (hlink : meetsLink R.tree path = false) :
    R.fileOf path = some bytes ↔ R.tree.lookup path = some (.file bytes) := by
  refine ⟨fun h => ?_, fileOf_of_file⟩
  rw [SourceRoot.fileOf, if_neg (by simp [hlink])] at h
  cases hlookup : R.tree.lookup path with
  | none => simp [hlookup] at h
  | some kind => cases kind <;> simp_all

theorem fileAt_pathText {base rest : Path} (h : rest ≠ []) :
    R.fileAt base (pathText rest) = R.fileOf (base ++ rest) := by
  rw [SourceRoot.fileAt, relativePath_pathText h]

/-- The root has a directory of its own for what the build takes from `runtime`. -/
def SourceRoot.TopLevel (R : SourceRoot) : Prop :=
  R.tree.lookup [overlaysName] = some .dir ∨ R.tree.lookup [manifestsName] = some .dir

theorem base_eq (h : ¬ R.TopLevel) : R.base = runtimePath := if_neg fun htop => h (.inl htop)

theorem manifestsDir_eq (h : ¬ R.TopLevel) : R.manifestsDir = runtimeManifests :=
  if_neg fun htop => h (.inr htop)

theorem packageDir_ne_nil (package : Package) : packageDir runtimePath package ≠ [] := by
  simp [packageDir]

theorem overlayChecks_eq_ok {entryCheck : Package → OverlayEntry → Except VerifyError Unit} :
    overlayChecks M entryCheck = .ok () ↔ ∀ package, countChecks M package = .ok () ∧
      ∀ entry ∈ (M.overlay package).files, entryCheck package entry = .ok () := by
  have hall : ∀ package, package ∈ packages := by
    intro package
    cases package <;> decide
  rw [overlayChecks, forM_eq_ok]
  simp only [hall, forall_const, bind_eq_ok, forM_eq_ok]
  exact forall_congr' fun package => ⟨fun ⟨_, h⟩ => h, fun h => ⟨_, h⟩⟩

theorem sourceEntry_eq_ok {base : Path} {package : Package} {entry : OverlayEntry} :
    sourceEntry sha256 R base package entry = .ok () ↔
      entryMatches sha256 R base package entry = true := require_eq_ok

theorem imageEntry_eq_ok {base : Path} {package : Package} {entry : OverlayEntry} :
    imageEntry sha256 R base package entry = .ok () ↔ (relativePath? entry.path).isSome = true ∧
      entryMatches sha256 R base package entry = true := by
  rw [imageEntry, bind_eq_ok, ← sourceEntry_eq_ok]
  simp

/-- Every listed file is below the base with its digest. -/
def PresentBelow (sha256 : Bytes → String) (R : SourceRoot) (base : Path) (M : Manifests) : Prop :=
  ∀ package, ∀ entry ∈ (M.overlay package).files, entryMatches sha256 R base package entry = true

/-- Every listed file is where the build copies from, with its digest. -/
abbrev Present (sha256 : Bytes → String) (R : SourceRoot) (M : Manifests) : Prop :=
  PresentBelow sha256 R runtimePath M

theorem present_of_verifySource (htop : ¬ R.TopLevel) (h : verifySource sha256 isPrivate R = .ok ()) :
    Present sha256 R (R.manifests runtimeManifests) := by
  simp only [verifySource, bind_eq_ok] at h
  obtain ⟨_, -, _, hchecks, -⟩ := h
  rw [base_eq htop, manifestsDir_eq htop, overlayChecks_eq_ok] at hchecks
  exact fun package entry hentry => (imageEntry_eq_ok.mp ((hchecks package).2 entry hentry)).2

theorem present_of_verifyRuntimeManifest (h : verifyRuntimeManifest sha256 R = .ok ()) :
    Present sha256 R (R.manifests runtimeManifests) := by
  simp only [verifyRuntimeManifest, bind_eq_ok] at h
  obtain ⟨_, -, _, hchecks, -⟩ := h
  rw [overlayChecks_eq_ok] at hchecks
  exact fun package entry hentry => sourceEntry_eq_ok.mp ((hchecks package).2 entry hentry)

def listed (M : Manifests) (package : Package) : List String :=
  (M.overlay package).files.map OverlayEntry.path

/-- The directory that the build copies holds exactly the listed files. -/
structure Exact (sha256 : Bytes → String) (R : SourceRoot) (M : Manifests) (package : Package) :
    Prop where
  once : (listed M package).Nodup
  members : ∀ text, text ∈ listed M package ↔ ∃ rest bytes, rest ≠ [] ∧
    R.tree.lookup (packageDir runtimePath package ++ rest) = some (.file bytes) ∧
    pathText rest = text
  digests : ∀ entry ∈ (M.overlay package).files, ∀ rest bytes, pathText rest = entry.path →
    R.tree.lookup (packageDir runtimePath package ++ rest) = some (.file bytes) →
    sha256 bytes = entry.sha256

theorem present_of_exact (h : ∀ package, Exact sha256 R M package) : Present sha256 R M := by
  intro package entry hentry
  obtain ⟨rest, bytes, hne, hfile, htext⟩ :=
    ((h package).members entry.path).mp (List.mem_map_of_mem hentry)
  rw [entryMatches, ← htext, fileAt_pathText hne, fileOf_of_file hfile, Option.any_some,
    (h package).digests entry hentry rest bytes htext hfile]
  exact beq_self_eq_true _

/-- The listed paths are written as the tree writes them, and meet no link. -/
def Canonical (R : SourceRoot) (M : Manifests) (package : Package) : Prop :=
  ∀ entry ∈ (M.overlay package).files, ∃ rest, rest ≠ [] ∧ pathText rest = entry.path ∧
    meetsLink R.tree (packageDir runtimePath package ++ rest) = false

/-- No regular file of the directory is missing from the list. -/
def NoStray (R : SourceRoot) (M : Manifests) (package : Package) : Prop :=
  ∀ rest bytes, rest ≠ [] →
    R.tree.lookup (packageDir runtimePath package ++ rest) = some (.file bytes) →
    pathText rest ∈ listed M package

theorem Present.file (h : Present sha256 R M) {package : Package} {entry : OverlayEntry}
    (hentry : entry ∈ (M.overlay package).files) {rest : Path} (hne : rest ≠ [])
    (htext : pathText rest = entry.path)
    (hlink : meetsLink R.tree (packageDir runtimePath package ++ rest) = false) :
    ∃ bytes, R.tree.lookup (packageDir runtimePath package ++ rest) = some (.file bytes) ∧
      sha256 bytes = entry.sha256 := by
  have hmatch := h package entry hentry
  rw [entryMatches, ← htext, fileAt_pathText hne, Option.any_eq_true] at hmatch
  obtain ⟨bytes, hfile, hdigest⟩ := hmatch
  exact ⟨bytes, (fileOf_eq_some hlink).mp hfile, eq_of_beq hdigest⟩

/-- Where the listed files are present, the directory is exact as far as the list is
canonical, without repetition and complete. -/
theorem Present.exact_iff (h : Present sha256 R M) (package : Package) :
    Exact sha256 R M package ↔
      (listed M package).Nodup ∧ Canonical R M package ∧ NoStray R M package := by
  constructor
  · intro hexact
    refine ⟨hexact.once, fun entry hentry => ?_, fun rest bytes hne hfile => ?_⟩
    · obtain ⟨rest, bytes, hne, hfile, htext⟩ :=
        (hexact.members entry.path).mp (List.mem_map_of_mem hentry)
      refine ⟨rest, hne, htext, ?_⟩
      rw [← Bool.not_eq_true, meetsLink_of_lookup hfile]
      exact fun hkind => by cases hkind
    · exact (hexact.members _).mpr ⟨rest, bytes, hne, hfile, rfl⟩
  · rintro ⟨honce, hcanonical, hstray⟩
    refine ⟨honce, fun text => ⟨fun htext => ?_, ?_⟩, ?_⟩
    · obtain ⟨entry, hentry, rfl⟩ := List.mem_map.mp htext
      obtain ⟨rest, hne, htext, hlink⟩ := hcanonical entry hentry
      obtain ⟨bytes, hfile, -⟩ := h.file hentry hne htext hlink
      exact ⟨rest, bytes, hne, hfile, htext⟩
    · rintro ⟨rest, bytes, hne, hfile, rfl⟩
      exact hstray rest bytes hne hfile
    · intro entry hentry rest bytes htext hfile
      obtain ⟨rest', hne, htext', hlink⟩ := hcanonical entry hentry
      obtain rfl := pathText_injective (htext'.trans htext.symm)
      obtain ⟨bytes', hfile', hdigest⟩ := h.file hentry hne htext' hlink
      obtain rfl : bytes' = bytes := by simpa using hfile'.symm.trans hfile
      exact hdigest

end ChampionRuntime.Closure
