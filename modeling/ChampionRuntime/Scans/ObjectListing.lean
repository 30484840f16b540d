import ChampionRuntime.Lib.PyLines

/-!
# Objects that git lists

`git rev-list --objects` names every object that a revision reaches once, a blob or a tree with
one of the paths it has. The scans of the release take the listing apart into lines. Names of
objects and paths are texts; a path that git prints ends at its first newline.
-/
namespace ChampionRuntime.Scans

open Lib Lib.PyText

abbrev Name := List Char

abbrev Path := List Char

/-- An object of a listing; a commit has no path, and the path of a root tree is empty. -/
structure ListedObject where
  object : Name
  path : Option Path
  deriving DecidableEq

def ListedObject.line (o : ListedObject) : List Char :=
  match o.path with
  | none => o.object
  | some path => o.object ++ ' ' :: path.takeWhile (· != '\n')

structure History where
  /-- the blobs in the trees of its commits, under every path they have there -/
  occurs : List (Name × Path)
  listing : List ListedObject
  path_ne : ∀ p ∈ occurs, p.2 ≠ []
  object_hex : ∀ o ∈ listing, ∀ c ∈ o.object, isHexLower c = true
  once : (listing.map ListedObject.object).Nodup
  /-- every blob is listed, with one of its paths -/
  blob_listed : ∀ p ∈ occurs, ∃ path, (p.1, path) ∈ occurs ∧ ⟨p.1, some path⟩ ∈ listing

/-- The output of `git rev-list --objects`. -/
def History.revList (h : History) : List Char := h.listing.flatMap fun o => o.line ++ ['\n']

/-- `line.partition(" ")` without its middle part. -/
def partitionSpace (line : List Char) : Name × Path :=
  (line.takeWhile (· != ' '), (line.dropWhile (· != ' ')).drop 1)

/-- The objects and paths that the lines of a listing give; lines without a path are passed over. -/
def listedPairs (output : List Char) : List (Name × Path) :=
  ((splitlines (universalNewlines output)).map partitionSpace).filter fun p => p.2 ≠ []

/-- An entry of `git ls-files --stage -z`. -/
structure IndexEntry where
  mode : List Char
  object : Name
  stage : ℕ
  path : Path
  deriving DecidableEq

/-- The objects and paths of the entries that are not in conflict. -/
def stagedPairs (index : List IndexEntry) : List (Name × Path) :=
  (index.filter fun entry => entry.stage = 0).map fun entry => (entry.object, entry.path)

theorem hex_of_all {listing : List ListedObject}
    (h : (listing.all fun o => o.object.all isHexLower) = true) :
    ∀ o ∈ listing, ∀ c ∈ o.object, isHexLower c = true :=
  fun o ho => List.all_eq_true.mp (List.all_eq_true.mp h o ho)

/-- No path of the listing holds a character that ends a line for Python. -/
def History.Plain (h : History) : Prop :=
  ∀ o ∈ h.listing, ∀ path, o.path = some path → ∀ c ∈ path, isLineBreak c = false

theorem partitionSpace_line {object path : List Char} (h : ∀ c ∈ object, isHexLower c = true) :
    partitionSpace (object ++ ' ' :: path) = (object, path) := by
  have hobject : ∀ c ∈ object, (c != ' ') = true := by
    intro c hc
    rw [bne_iff_ne]
    rintro rfl
    exact absurd (h ' ' hc) (by decide)
  rw [partitionSpace, List.takeWhile_append_of_pos hobject, List.dropWhile_append_of_pos hobject]
  simp

theorem listedPairs_eq (output : List Char) :
    listedPairs output = ((segments output).map partitionSpace).filter fun p => p.2 ≠ [] := by
  have hskip : ∀ lines : List (List Char), (lines.map partitionSpace).filter (fun p => p.2 ≠ []) =
      ((lines.filter (· != [])).map partitionSpace).filter fun p => p.2 ≠ [] := by
    intro lines
    induction lines with
    | nil => rfl
    | cons line lines ih =>
      by_cases hline : line = []
      · subst hline
        simpa [partitionSpace] using ih
      · have hkeep : (line != []) = true := by simpa using hline
        rw [List.filter_cons_of_pos (p := (· != [])) hkeep, List.map_cons, List.map_cons,
          List.filter_cons, List.filter_cons, ih]
  rw [listedPairs, hskip, splitlines_universalNewlines, ← hskip]

theorem segments_lines {lines : List (List Char)} (h : ∀ line ∈ lines, ∀ c ∈ line, isLineBreak c = false) :
    segments (lines.flatMap fun line => line ++ ['\n']) = lines ++ [[]] := by
  induction lines with
  | nil => rfl
  | cons line lines ih =>
    obtain ⟨hline, hlines⟩ := List.forall_mem_cons.mp h
    have hrest := ih hlines
    unfold segments at hrest ⊢
    rw [List.flatMap_cons, List.append_assoc, List.singleton_append, splitWhere_append hline rfl,
      hrest]
    rfl

theorem mem_listedPairs {h : History} (hplain : h.Plain) {object : Name} {path : Path}
    (hne : path ≠ []) (hlisted : ⟨object, some path⟩ ∈ h.listing) :
    (object, path) ∈ listedPairs h.revList := by
  have hhex : ∀ {c : Char}, isHexLower c = true → isLineBreak c = false := by
    intro c hc
    by_contra hbreak
    simp only [isHexLower, isDigit, inRange, isLineBreak, Bool.or_eq_true, Bool.and_eq_true,
      decide_eq_true_eq, beq_iff_eq, Bool.not_eq_false] at hc hbreak
    omega
  have hlines : ∀ line ∈ h.listing.map ListedObject.line, ∀ c ∈ line, isLineBreak c = false := by
    intro line hline c hc
    obtain ⟨o, ho, rfl⟩ := List.mem_map.mp hline
    unfold ListedObject.line at hc
    split at hc
    · exact hhex (h.object_hex o ho c hc)
    · rename_i shown hpath
      rcases List.mem_append.mp hc with hc | hc
      · exact hhex (h.object_hex o ho c hc)
      · rcases List.mem_cons.mp hc with rfl | hc
        · rfl
        · exact hplain o ho shown hpath c ((List.takeWhile_sublist _).subset hc)
  have hwhole : path.takeWhile (· != '\n') = path := by
    rw [List.takeWhile_eq_self_iff]
    intro c hc
    rw [bne_iff_ne]
    rintro rfl
    exact absurd (hplain _ hlisted path rfl _ hc) (by decide)
  have hline : object ++ ' ' :: path ∈ h.listing.map ListedObject.line := by
    refine List.mem_map.mpr ⟨_, hlisted, ?_⟩
    simp only [ListedObject.line, hwhole]
  have htext : h.revList = (h.listing.map ListedObject.line).flatMap fun line => line ++ ['\n'] := by
    rw [History.revList, List.flatMap_map]
  rw [listedPairs_eq, htext, segments_lines hlines, List.mem_filter]
  refine ⟨List.mem_map.mpr ⟨_, List.mem_append_left _ hline, ?_⟩, by simpa using hne⟩
  exact partitionSpace_line (h.object_hex _ hlisted)

end ChampionRuntime.Scans
