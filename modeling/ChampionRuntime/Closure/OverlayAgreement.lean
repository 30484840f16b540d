import ChampionRuntime.Closure.OverlayClosure

/-!
# Three verifiers and one manifest

The importer compares the trees in both directions; the other two verifiers only
look the listed files up. They agree where the trees hold nothing else.
-/
namespace ChampionRuntime.Closure

open Lib Lib.Json Receipts

def overlayRoots : List Path := packages.map (managedRoot runtimePath)

def memberPath (package : Package) (path : String) : String :=
  pathText (packageDir runtimePath package) ++ "/" ++ path

/-- The closure that the importer compares with, for the entries of a manifest: its
contents have the listed digests. -/
structure Describes (sha256 : Bytes → String) (M : Manifests) (expected : Expected) : Prop where
  once : (expected.map Prod.fst).Nodup
  entries : ∀ package, ∀ entry ∈ (M.overlay package).files,
    ∃ content, (memberPath package entry.path, content) ∈ expected ∧
      sha256 content = entry.sha256
  members : ∀ member ∈ expected, ∃ package, ∃ entry ∈ (M.overlay package).files,
    member.1 = memberPath package entry.path

/-- The loop over the entries of both packages. -/
def overlayPass (M : Manifests) (entryCheck : Package → OverlayEntry → Except VerifyError Unit) :
    Except VerifyError Unit :=
  packages.forM fun package => (M.overlay package).files.forM (entryCheck package)

/-- No other file lies below the managed root, as a file or behind a link. -/
def NoOther (R : SourceRoot) (M : Manifests) (package : Package) : Prop :=
  ∀ path ∈ R.tree.under (managedRoot runtimePath package), (R.fileOf path).isSome = true →
    ∃ rest, path = packageDir runtimePath package ++ rest ∧ pathText rest ∈ listed M package

variable {R : SourceRoot} {M : Manifests} {sha256 : Bytes → String} {expected : Expected}

theorem overlayPass_eq_ok {entryCheck : Package → OverlayEntry → Except VerifyError Unit} :
    overlayPass M entryCheck = .ok () ↔ ∀ package, ∀ entry ∈ (M.overlay package).files,
      entryCheck package entry = .ok () := by
  have hall : ∀ package, package ∈ packages := by
    intro package
    cases package <;> decide
  simp only [overlayPass, forM_eq_ok, hall, forall_const]

theorem verifyMember_eq_ok {member : String × Bytes} : verifyMember R member = .ok () ↔
    R.fileAt [] member.1 = some member.2 ∧ isLink R member.1 = false := by
  unfold verifyMember
  cases R.fileAt [] member.1 with
  | none => simp
  | some bytes =>
    simp only [bind_eq_ok, require_eq_ok, Bool.not_eq_true', beq_iff_eq, Option.some.injEq]
    constructor
    · rintro ⟨_, hlink, hbytes⟩
      exact ⟨hbytes, hlink⟩
    · rintro ⟨hbytes, hlink⟩
      exact ⟨(), hlink, hbytes⟩

theorem without_isEmpty {a b : List String} :
    (without a b).isEmpty = true ↔ ∀ text ∈ a, text ∈ b := by
  rw [without, List.isEmpty_iff, ← List.length_eq_zero_iff, List.length_insertionSort,
    List.length_eq_zero_iff, List.dedup_eq_nil, List.filter_eq_nil_iff]
  simp

theorem verifyMembers_eq_ok {roots : List Path} : verifyMembers R roots expected = .ok () ↔
    (∀ member ∈ expected, verifyMember R member = .ok ()) ∧
      ∀ text, text ∈ managedExpected roots expected ↔ text ∈ actualMembers R roots := by
  simp only [verifyMembers, bind_eq_ok, require_eq_ok, Bool.and_eq_true, without_isEmpty]
  constructor
  · rintro ⟨_, hmembers, hmissing, hextras⟩
    exact ⟨forM_eq_ok.mp hmembers, fun text => ⟨hmissing text, hextras text⟩⟩
  · rintro ⟨hmembers, hsame⟩
    exact ⟨(), forM_eq_ok.mpr hmembers, fun text => (hsame text).mp, fun text => (hsame text).mpr⟩

theorem mem_actualMembers {roots : List Path} {text : String} :
    text ∈ actualMembers R roots ↔ ∃ root ∈ roots, ∃ path ∈ R.tree.under root,
      (R.fileOf path).isSome = true ∧ pathText path = text := by
  simp only [actualMembers, List.mem_flatMap, List.mem_map, List.mem_filter, and_assoc]

theorem mem_overlayRoots {root : Path} :
    root ∈ overlayRoots ↔ ∃ package, root = managedRoot runtimePath package := by
  simp only [overlayRoots, List.mem_map]
  constructor
  · rintro ⟨package, -, rfl⟩
    exact ⟨package, rfl⟩
  · rintro ⟨package, rfl⟩
    exact ⟨package, by cases package <;> decide, rfl⟩

theorem mem_managedExpected (hdescribes : Describes sha256 M expected) {text : String} :
    text ∈ managedExpected overlayRoots expected ↔
      ∃ package, ∃ entry ∈ (M.overlay package).files, text = memberPath package entry.path := by
  simp only [managedExpected, List.mem_filter, List.mem_map]
  constructor
  · rintro ⟨⟨member, hmember, rfl⟩, -⟩
    exact hdescribes.members member hmember
  · rintro ⟨package, entry, hentry, rfl⟩
    obtain ⟨content, hcontent, -⟩ := hdescribes.entries package entry hentry
    refine ⟨⟨_, hcontent, rfl⟩, List.any_eq_true.mpr ⟨managedRoot runtimePath package,
      mem_overlayRoots.mpr ⟨package, rfl⟩, ?_⟩⟩
    have hroot : managedRoot runtimePath package ≠ [] := by simp [managedRoot]
    rw [Bool.or_eq_true, List.isPrefixOf_iff_prefix, memberPath, packageDir,
      pathText_append hroot (by simp)]
    exact .inr ⟨(pathText [package.name] ++ "/" ++ entry.path).toList, by
      simp only [String.toList_append, List.append_assoc]⟩

theorem ne_nil_of_under {root path : Path} (h : path ∈ R.tree.under root) : path ≠ [] := by
  obtain ⟨⟨kind, hkind⟩, -⟩ := mem_under.mp h
  exact R.tree.below _ (mem_of_lookup hkind)

theorem package_of_under {package package' : Package} {rest : Path}
    (h : packageDir runtimePath package ++ rest ∈
      R.tree.under (managedRoot runtimePath package')) : package = package' := by
  obtain ⟨-, hprefix', -⟩ := mem_under.mp h
  cases package <;> cases package' <;> first
    | rfl
    | exact absurd hprefix' (by
        simp [packageDir, managedRoot, runtimePath, List.cons_prefix_cons, Package.name])

theorem closed_of_verifyMembers (hdescribes : Describes sha256 M expected)
    (h : verifyMembers R overlayRoots expected = .ok ()) :
    Present sha256 R M ∧ ∀ package, Canonical R M package ∧ NoOther R M package := by
  obtain ⟨hmembers, hsame⟩ := verifyMembers_eq_ok.mp h
  have hentry : ∀ package, ∀ entry ∈ (M.overlay package).files, ∃ rest, rest ≠ [] ∧
      pathText rest = entry.path ∧
      meetsLink R.tree (packageDir runtimePath package ++ rest) = false ∧
      ∃ content, R.fileOf (packageDir runtimePath package ++ rest) = some content ∧
        sha256 content = entry.sha256 := by
    intro package entry hentry
    obtain ⟨content, hcontent, hdigest⟩ := hdescribes.entries package entry hentry
    obtain ⟨root, hroot, path, hunder, -, htext⟩ := mem_actualMembers.mp <| (hsame _).mp <|
      (mem_managedExpected hdescribes).mpr ⟨package, entry, hentry, rfl⟩
    obtain ⟨rest, hne, rfl, hrest⟩ :=
      exists_of_pathText_append (packageDir_ne_nil package) (ne_nil_of_under hunder) htext
    obtain ⟨hfile, hlink⟩ := verifyMember_eq_ok.mp (hmembers _ hcontent)
    rw [memberPath, ← hrest, ← pathText_append (packageDir_ne_nil package) hne] at hfile hlink
    rw [fileAt_pathText (by simp [hne]), List.nil_append] at hfile
    rw [isLink, relativePath_pathText (by simp [hne]), Option.any_some] at hlink
    obtain ⟨⟨kind, hkind⟩, -⟩ := mem_under.mp hunder
    refine ⟨rest, hne, hrest, ?_, content, hfile, hdigest⟩
    rw [← Bool.not_eq_true, meetsLink_of_lookup hkind]
    rintro rfl
    simp [hkind] at hlink
  refine ⟨fun package entry hmem => ?_, fun package => ⟨fun entry hmem => ?_, fun path hunder
    hfile => ?_⟩⟩
  · obtain ⟨rest, hne, hrest, -, content, hfile, hdigest⟩ := hentry package entry hmem
    rw [entryMatches, ← hrest, fileAt_pathText hne, hfile, Option.any_some, hdigest]
    exact beq_self_eq_true _
  · obtain ⟨rest, hne, hrest, hlink, -⟩ := hentry package entry hmem
    exact ⟨rest, hne, hrest, hlink⟩
  · obtain ⟨package', entry, hmem, htext⟩ := (mem_managedExpected hdescribes).mp <|
      (hsame _).mpr <| mem_actualMembers.mpr
        ⟨_, mem_overlayRoots.mpr ⟨package, rfl⟩, path, hunder, hfile, rfl⟩
    obtain ⟨rest, -, rfl, hrest⟩ :=
      exists_of_pathText_append (packageDir_ne_nil package') (ne_nil_of_under hunder) htext
    obtain rfl := package_of_under hunder
    exact ⟨rest, rfl, hrest ▸ List.mem_map_of_mem hmem⟩

theorem verifyMembers_of_closed (hdescribes : Describes sha256 M expected)
    {atHand : Set Bytes} (hsha : Set.InjOn sha256 atHand)
    (hexpected : ∀ member ∈ expected, member.2 ∈ atHand)
    (hfiles : ∀ path bytes, R.fileOf path = some bytes → bytes ∈ atHand)
    (hpresent : Present sha256 R M)
    (hclosed : ∀ package, Canonical R M package ∧ NoOther R M package) :
    verifyMembers R overlayRoots expected = .ok () := by
  have hentry : ∀ package, ∀ entry ∈ (M.overlay package).files, ∃ rest bytes, rest ≠ [] ∧
      memberPath package entry.path = pathText (packageDir runtimePath package ++ rest) ∧
      R.tree.lookup (packageDir runtimePath package ++ rest) = some (.file bytes) ∧
      sha256 bytes = entry.sha256 := by
    intro package entry hentry
    obtain ⟨rest, hne, htext, hlink⟩ := (hclosed package).1 entry hentry
    obtain ⟨bytes, hfile, hdigest⟩ := hpresent.file hentry hne htext hlink
    refine ⟨rest, bytes, hne, ?_, hfile, hdigest⟩
    rw [memberPath, ← htext, pathText_append (packageDir_ne_nil package) hne]
  refine verifyMembers_eq_ok.mpr ⟨fun member hmember => ?_, fun text => ?_⟩
  · obtain ⟨package, entry, hmem, htext⟩ := hdescribes.members member hmember
    obtain ⟨content, hcontent, hdigest⟩ := hdescribes.entries package entry hmem
    obtain ⟨rest, bytes, hne, hpath, hfile, hdigest'⟩ := hentry package entry hmem
    have hsame : content = member.2 := by
      rw [← htext] at hcontent
      have hlookup := (lookup_eq_some_iff_mem hdescribes.once).mpr hcontent
      have hlookup' := (lookup_eq_some_iff_mem hdescribes.once).mpr hmember
      exact Option.some.inj (hlookup.symm.trans hlookup')
    have hbytes : bytes = member.2 := hsha (hfiles _ _ (fileOf_of_file hfile))
      (hexpected member hmember) (by rw [hdigest', ← hdigest, hsame])
    refine verifyMember_eq_ok.mpr ?_
    rw [htext, hpath, fileAt_pathText (by simp [hne]), List.nil_append, isLink,
      relativePath_pathText (by simp [hne]), Option.any_some, hfile]
    exact ⟨hbytes ▸ fileOf_of_file hfile, by simp⟩
  · rw [mem_managedExpected hdescribes, mem_actualMembers]
    constructor
    · rintro ⟨package, entry, hmem, rfl⟩
      obtain ⟨rest, bytes, hne, hpath, hfile, -⟩ := hentry package entry hmem
      refine ⟨_, mem_overlayRoots.mpr ⟨package, rfl⟩, _, mem_under.mpr ⟨⟨_, hfile⟩, ?_, ?_⟩,
        by rw [fileOf_of_file hfile]; rfl, hpath.symm⟩
      · exact ⟨package.name :: rest, by simp [packageDir]⟩
      · simp [packageDir]
    · rintro ⟨root, hroot, path, hunder, hfile, rfl⟩
      obtain ⟨package, rfl⟩ := mem_overlayRoots.mp hroot
      obtain ⟨rest, rfl, hlisted⟩ := (hclosed package).2 path hunder hfile
      obtain ⟨entry, hmem, htext⟩ := List.mem_map.mp hlisted
      obtain ⟨rest', hne, htext', -⟩ := (hclosed package).1 entry hmem
      obtain rfl := pathText_injective (htext'.trans htext)
      exact ⟨package, entry, hmem, by
        rw [memberPath, ← htext', pathText_append (packageDir_ne_nil package) hne]⟩

theorem sourcePass_iff :
    overlayPass M (sourceEntry sha256 R runtimePath) = .ok () ↔ Present sha256 R M := by
  simp only [overlayPass_eq_ok, sourceEntry_eq_ok, PresentBelow]

/-- Every listed path passes `safe`. -/
def SafePaths (M : Manifests) : Prop :=
  ∀ package, ∀ entry ∈ (M.overlay package).files, (relativePath? entry.path).isSome = true

theorem imagePass_iff {base : Path} :
    overlayPass M (imageEntry sha256 R base) = .ok () ↔
      SafePaths M ∧ PresentBelow sha256 R base M := by
  simp only [overlayPass_eq_ok, imageEntry_eq_ok, SafePaths, PresentBelow]
  exact ⟨fun h => ⟨fun p e he => (h p e he).1, fun p e he => (h p e he).2⟩,
    fun h p e he => ⟨h.1 p e he, h.2 p e he⟩⟩

theorem safePaths_of_canonical (h : ∀ package, Canonical R M package) : SafePaths M := by
  intro package entry hentry
  obtain ⟨rest, hne, htext, -⟩ := h package entry hentry
  rw [← htext, relativePath_pathText hne]
  rfl

/-- The two verifiers establish the exact closure exactly where the list is canonical
and without repetition, the directories hold no unlisted file, and a root with its own
overlays or manifests has the listed files below `runtime` as well. They agree with the
importer exactly where a tree with all listed files holds nothing else, and the files of
a root with its own overlays match there exactly if they match below `runtime`. -/
theorem overlay_closure_iff {atHand : Set Bytes} (isPrivate : Bytes → Bool)
    (hdescribes : Describes sha256 M expected) (hsha : Set.InjOn sha256 atHand)
    (hexpected : ∀ member ∈ expected, member.2 ∈ atHand)
    (hfiles : ∀ path bytes, R.fileOf path = some bytes → bytes ∈ atHand) :
    (verifySource sha256 isPrivate R = .ok () ∨ verifyRuntimeManifest sha256 R = .ok () →
      ((∀ package, Exact sha256 R (R.manifests runtimeManifests) package) ↔
        (∀ package, (listed (R.manifests runtimeManifests) package).Nodup ∧
          Canonical R (R.manifests runtimeManifests) package ∧
          NoStray R (R.manifests runtimeManifests) package) ∧
        (R.TopLevel → Present sha256 R (R.manifests runtimeManifests)))) ∧
    (((overlayPass M (imageEntry sha256 R R.base) = .ok () ↔
          verifyMembers R overlayRoots expected = .ok ()) ∧
        (overlayPass M (sourceEntry sha256 R runtimePath) = .ok () ↔
          verifyMembers R overlayRoots expected = .ok ())) ↔
      (Present sha256 R M → ∀ package, Canonical R M package ∧ NoOther R M package) ∧
        (R.tree.lookup [overlaysName] = some .dir →
          (SafePaths M ∧ PresentBelow sha256 R [] M ↔ Present sha256 R M))) := by
  refine ⟨fun haccepted => ?_, ?_⟩
  · constructor
    · intro hexact
      have hpresent := present_of_exact hexact
      exact ⟨fun package => (hpresent.exact_iff package).mp (hexact package), fun _ => hpresent⟩
    · rintro ⟨hclosed, htop⟩ package
      have hpresent : Present sha256 R (R.manifests runtimeManifests) := by
        by_cases h : R.TopLevel
        · exact htop h
        · exact haccepted.elim (present_of_verifySource h) present_of_verifyRuntimeManifest
      exact (hpresent.exact_iff package).mpr (hclosed package)
  · rw [imagePass_iff, sourcePass_iff]
    constructor
    · rintro ⟨himage, hsource⟩
      refine ⟨fun hpresent => (closed_of_verifyMembers hdescribes (hsource.mp hpresent)).2,
        fun htop => ?_⟩
      rw [hsource, ← himage, SourceRoot.base, if_pos htop]
    · rintro ⟨hclosed, htop⟩
      have hsource : Present sha256 R M ↔ verifyMembers R overlayRoots expected = .ok () :=
        ⟨fun hpresent => verifyMembers_of_closed hdescribes hsha hexpected hfiles hpresent
          (hclosed hpresent), fun h => (closed_of_verifyMembers hdescribes h).1⟩
      refine ⟨?_, hsource⟩
      rw [← hsource, SourceRoot.base]
      split
      · rename_i h
        exact htop h
      · exact ⟨And.right, fun hpresent =>
          ⟨safePaths_of_canonical fun package => (hclosed hpresent package).1, hpresent⟩⟩

/-- The parent of every entry is a directory of the list. -/
def parentsListed (entries : List (Path × Kind)) : Bool :=
  entries.all fun e => e.1 != [] &&
    (e.1.dropLast == [] || entries.contains (e.1.dropLast, Kind.dir))

def treeOf (entries : List (Path × Kind)) (hnodup : (entries.map Prod.fst).Nodup)
    (hparents : parentsListed entries = true) : Tree where
  entries := entries
  nodup := hnodup
  below e he := by
    have h := List.all_eq_true.mp hparents e he
    simp only [Bool.and_eq_true, bne_iff_ne] at h
    exact h.1
  parents e he parent name hne heq := by
    have h := List.all_eq_true.mp hparents e he
    simpa [heq, hne] using h

def kernelsDir : Path := runtimePath ++ [kernelsName]

def patchesDir : Path := runtimePath ++ [patchesName]

def nativeDir : Path := patchesDir ++ [nativeName]

def vllmDir : Path := packageDir runtimePath .vllm

/-- The entries of a source context with empty files. -/
def contextEntries : List (Path × Kind) :=
  [(runtimePath, .dir), (runtimePath ++ [overlaysName], .dir),
    (managedRoot runtimePath .vllm, .dir), (vllmDir, .dir),
    (vllmDir ++ [⟨"a.py", by decide⟩], .file []),
    (kernelsDir, .dir), (kernelsDir ++ [⟨"builda_bmm_v0.py", by decide⟩], .file []),
    (patchesDir, .dir), (nativeDir, .dir),
    (nativeDir ++ [⟨"champion-sm121.patch", by decide⟩], .file [])]

def strayEntry : Path × Kind := (vllmDir ++ [⟨"extra.py", by decide⟩], .file [])

def emptyDigest : String := "e3b0c44298fc1c149afbf4c8996fb92427ae41e4649b934ca495991b7852b855"

def overlayText : String :=
  "\x7b\"b12x\":\x7b\"file_count\":0,\"files\":[]\x7d,\"build_a\":\x7b\"sha256\":\"" ++
  emptyDigest ++ "\"\x7d,\"vllm\":\x7b\"file_count\":1,\"files\":[\x7b\"path\":\"a.py\"," ++
  "\"sha256\":\"" ++
  emptyDigest ++ "\"\x7d]\x7d\x7d\n"

def overlayTextDigest : String := "b84fb574414a254f61c3f484341c932e715f7e8f0b76d1972cabf4469493851b"

/-- SHA-256 of the empty file and of the manifest. -/
def contextDigest (bytes : Bytes) : String :=
  if bytes = [] then emptyDigest
  else if bytes = overlayText.toByteArray.data.toList then overlayTextDigest
  else "0000000000000000000000000000000000000000000000000000000000000000"

def contextManifests : Manifests where
  overlayBytes := overlayText.toByteArray.data.toList
  overlay
    | .vllm => ⟨.int 1, [⟨"a.py", emptyDigest⟩]⟩
    | .b12x => ⟨.int 0, []⟩
  buildA := emptyDigest
  pythonSource := overlayTextDigest
  effectiveCount
    | .vllm => .int 1
    | .b12x => .int 0
  patch := "runtime/patches/native/champion-sm121.patch"
  patchSha256 := emptyDigest

def exactRoot : SourceRoot where
  tree := treeOf contextEntries (by decide) (by decide)
  elsewhere _ := none
  manifests _ := contextManifests

def strayRoot : SourceRoot where
  tree := treeOf (strayEntry :: contextEntries) (by decide) (by decide)
  elsewhere _ := none
  manifests _ := contextManifests

def contextExpected : Expected := [("runtime/overlays/vllm/vllm/a.py", [])]

theorem describes_context : Describes contextDigest contextManifests contextExpected where
  once := by simp [contextExpected]
  entries package entry hentry := by
    cases package with
    | vllm =>
      obtain rfl := List.mem_singleton.mp hentry
      exact ⟨[], by decide, rfl⟩
    | b12x => cases hentry
  members member hmember := by
    obtain rfl := List.mem_singleton.mp hmember
    exact ⟨.vllm, _, List.mem_singleton_self _, by decide⟩

theorem file_of_exactRoot {path : Path} {bytes : Bytes} (h : exactRoot.fileOf path = some bytes) :
    (path, Kind.file bytes) ∈ contextEntries ∧ bytes = [] := by
  unfold SourceRoot.fileOf at h
  split_ifs at h with hlink
  · cases h
  · cases hlookup : exactRoot.tree.lookup path with
    | none => simp [hlookup] at h
    | some kind =>
      have hmem : (path, kind) ∈ contextEntries := mem_of_lookup hlookup
      have hempty : ∀ e ∈ contextEntries, e.2 = .dir ∨ e.2 = .file [] := by decide
      rcases hempty _ hmem with rfl | rfl <;> simp_all

theorem overlay_of_exactRoot {package : Package} {path : Path} {bytes : Bytes}
    (h : exactRoot.fileOf path = some bytes) (hroot : managedRoot runtimePath package <+: path) :
    package = .vllm ∧ path = vllmDir ++ [⟨"a.py", by decide⟩] := by
  obtain ⟨hmem, rfl⟩ := file_of_exactRoot h
  have hall : ∀ e ∈ contextEntries, e.2 = .file [] → ∀ package ∈ packages,
      (managedRoot runtimePath package).isPrefixOf e.1 = true →
      package = .vllm ∧ e.1 = vllmDir ++ [⟨"a.py", by decide⟩] := by
    decide
  exact hall _ hmem rfl package (by cases package <;> decide)
    (List.isPrefixOf_iff_prefix.mpr hroot)

theorem listed_exactRoot {package : Package} {rest : Path} {bytes : Bytes}
    (h : exactRoot.fileOf (packageDir runtimePath package ++ rest) = some bytes) :
    pathText rest ∈ listed contextManifests package := by
  obtain ⟨rfl, hpath⟩ := overlay_of_exactRoot h
    ((List.prefix_append _ [package.name]).trans (List.prefix_append _ rest))
  obtain rfl := List.append_cancel_left hpath
  decide

theorem canonical_exactRoot (package : Package) : Canonical exactRoot contextManifests package := by
  intro entry hentry
  cases package with
  | vllm =>
    obtain rfl := List.mem_singleton.mp hentry
    exact ⟨[⟨"a.py", by decide⟩], by simp, by decide, by decide⟩
  | b12x => cases hentry

theorem overlay_closure_iff_exactRoot :
    (∀ package, Exact contextDigest exactRoot contextManifests package) ∧
      (overlayPass contextManifests (sourceEntry contextDigest exactRoot runtimePath) = .ok () ↔
        verifyMembers exactRoot overlayRoots contextExpected = .ok ()) := by
  have haccepted : verifySource contextDigest (fun _ => false) exactRoot =
      .ok () := by
    decide +kernel
  obtain ⟨hexact, hagree⟩ := overlay_closure_iff (M := contextManifests) (R := exactRoot)
    (fun _ => false) describes_context (Set.injOn_singleton contextDigest [])
    (by simp [contextExpected]) fun path bytes h => (file_of_exactRoot h).2
  have htop : ¬ exactRoot.TopLevel := by
    simp only [SourceRoot.TopLevel]
    decide
  refine ⟨(hexact (.inl haccepted)).mpr ⟨fun package => ⟨?_, canonical_exactRoot package, ?_⟩,
    fun h => absurd h htop⟩,
    (hagree.mpr ⟨fun _ package => ⟨canonical_exactRoot package, ?_⟩,
      fun h => absurd (Or.inl h) htop⟩).2⟩
  · cases package <;> decide
  · exact fun rest bytes _ hfile => listed_exactRoot (fileOf_of_file hfile)
  · intro path hunder hfile
    obtain ⟨bytes, hbytes⟩ := Option.isSome_iff_exists.mp hfile
    obtain ⟨rfl, rfl⟩ := overlay_of_exactRoot hbytes (mem_under.mp hunder).2.1
    exact ⟨_, rfl, listed_exactRoot hbytes⟩

/-- A file that no manifest lists: both verifiers accept the tree, the directory that
is copied is not the listed one, and the importer rejects it. -/
theorem stray_file_accepted :
    verifySource contextDigest (fun _ => false) strayRoot = .ok () ∧
    verifyRuntimeManifest contextDigest strayRoot = .ok () ∧
    ¬ Exact contextDigest strayRoot contextManifests .vllm ∧
    verifyMembers strayRoot overlayRoots contextExpected =
      .error (.members [] ["runtime/overlays/vllm/vllm/extra.py"]) := by
  refine ⟨by decide +kernel, by decide +kernel, fun hexact => ?_, by decide +kernel⟩
  have hfile : strayRoot.tree.lookup (vllmDir ++ [⟨"extra.py", by decide⟩]) = some (.file []) := rfl
  have hlisted := (hexact.members "extra.py").mpr ⟨_, [], by simp, hfile, by decide +kernel⟩
  exact absurd hlisted (by decide +kernel)

end ChampionRuntime.Closure
