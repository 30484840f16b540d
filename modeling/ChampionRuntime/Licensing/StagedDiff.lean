import ChampionRuntime.Lib.JsonRoundTrip
import ChampionRuntime.Licensing.Provenance

/-!
# What git stages

Trees of tracked paths, the differences between two of them as
`git diff --name-status -z` prints them, and the changes the registrar reads
from that output. A renamed path is gone from the later tree and its new path is
not in the earlier one.
-/
namespace ChampionRuntime.Licensing

open Lib Lib.Json Lib.PyText
open Receipts (isName posixParts)

/-- A path that git tracks: its components are names, and it has no NUL. -/
def isTreePath (path : String) : Bool :=
  ((splitOnChar '/' path.toList).all fun part => isName (String.ofList part)) &&
    !path.toList.contains '\x00'

structure TreeEntry where
  mode : String
  oid : String
  deriving DecidableEq, Repr

structure Tree where
  entries : List (String × TreeEntry)
  nodup : (entries.map Prod.fst).Nodup
  paths_ok : ∀ e ∈ entries, isTreePath e.1 = true

namespace Tree

def paths (T : Tree) : List String := T.entries.map Prod.fst

def lookup (T : Tree) (path : String) : Option TreeEntry := T.entries.lookup path

/-- The index that holds the tree and no conflict. -/
def index (T : Tree) : List IndexEntry := T.entries.map fun e => ⟨e.1, 0, e.2.oid⟩

theorem lookup_eq_some {T : Tree} {path : String} {e : TreeEntry} :
    T.lookup path = some e ↔ (path, e) ∈ T.entries := lookup_eq_some_iff_mem T.nodup

theorem mem_paths {T : Tree} {path : String} :
    path ∈ T.paths ↔ (T.lookup path).isSome = true := by
  rw [Option.isSome_iff_exists, paths, List.mem_map]
  constructor
  · rintro ⟨e, he, rfl⟩
    exact ⟨e.2, lookup_eq_some.mpr he⟩
  · rintro ⟨e, he⟩
    exact ⟨_, lookup_eq_some.mp he, rfl⟩

theorem isTreePath_of_mem {T : Tree} {path : String} (h : path ∈ T.paths) :
    isTreePath path = true := by
  obtain ⟨e, he, rfl⟩ := List.mem_map.mp h
  exact T.paths_ok e he

theorem map_path_index (T : Tree) : T.index.map IndexEntry.path = T.paths := by
  simp [index, paths, List.map_map, Function.comp_def]

end Tree

/-- One line of `--name-status`; renames and copies have a similarity score. -/
inductive DiffRecord where
  | added (path : String)
  | modified (path : String)
  | typeChanged (path : String)
  | deleted (path : String)
  | renamed (score : ℕ) (old new : String)
  | copied (score : ℕ) (old new : String)
  deriving DecidableEq, Repr

def scoreText (score : ℕ) : List Char :=
  List.replicate (3 - (natText score).length) '0' ++ natText score

namespace DiffRecord

def fields : DiffRecord → List (List Char)
  | added path => [['A'], path.toList]
  | modified path => [['M'], path.toList]
  | typeChanged path => [['T'], path.toList]
  | deleted path => [['D'], path.toList]
  | renamed score old new => ['R' :: scoreText score, old.toList, new.toList]
  | copied score old new => ['C' :: scoreText score, old.toList, new.toList]

def change : DiffRecord → Change
  | added path => ⟨'A', none, some path⟩
  | modified path => ⟨'M', none, some path⟩
  | typeChanged path => ⟨'T', none, some path⟩
  | deleted path => ⟨'D', some path, none⟩
  | renamed _ old new => ⟨'R', some old, some new⟩
  | copied _ old new => ⟨'C', some old, some new⟩

def named (r : DiffRecord) : List String := r.change.old.toList ++ r.change.new.toList

/-- The paths at which the two trees differ on account of the line. -/
def touched (r : DiffRecord) : List String := r.change.removed.toList ++ r.change.new.toList

def Between (H I : Tree) : DiffRecord → Prop
  | added path => path ∉ H.paths ∧ path ∈ I.paths
  | modified path | typeChanged path =>
      path ∈ H.paths ∧ path ∈ I.paths ∧ H.lookup path ≠ I.lookup path
  | deleted path => path ∈ H.paths ∧ path ∉ I.paths
  | renamed _ old new => old ∈ H.paths ∧ old ∉ I.paths ∧ new ∉ H.paths ∧ new ∈ I.paths
  | copied _ old new => old ∈ H.paths ∧ new ∉ H.paths ∧ new ∈ I.paths

instance (H I : Tree) : (r : DiffRecord) → Decidable (r.Between H I)
  | added _ | deleted _ => inferInstanceAs (Decidable (_ ∧ _))
  | modified _ | typeChanged _ | copied .. => inferInstanceAs (Decidable (_ ∧ _ ∧ _))
  | renamed .. => inferInstanceAs (Decidable (_ ∧ _ ∧ _ ∧ _))

end DiffRecord

/-- The lines account for every difference of the two trees once. -/
structure Describes (H I : Tree) (records : List DiffRecord) : Prop where
  sound : ∀ r ∈ records, r.Between H I
  nodup : (records.flatMap DiffRecord.touched).Nodup
  complete : ∀ path, H.lookup path ≠ I.lookup path → path ∈ records.flatMap DiffRecord.touched

theorem Describes.of_entries {H I : Tree} {records : List DiffRecord}
    (sound : ∀ r ∈ records, r.Between H I) (nodup : (records.flatMap DiffRecord.touched).Nodup)
    (hhead : ∀ e ∈ H.entries, e ∈ I.entries ∨ e.1 ∈ records.flatMap DiffRecord.touched)
    (htree : ∀ e ∈ I.entries, e ∈ H.entries ∨ e.1 ∈ records.flatMap DiffRecord.touched) :
    Describes H I records := by
  refine ⟨sound, nodup, fun path hne => ?_⟩
  by_contra htouched
  refine hne (Option.ext fun e => ?_)
  rw [Tree.lookup_eq_some, Tree.lookup_eq_some]
  exact ⟨fun h => (hhead _ h).resolve_right htouched, fun h => (htree _ h).resolve_right htouched⟩

/-- The output of `git diff --name-status -z`. -/
def renderDiff (records : List DiffRecord) : List Char :=
  (records.flatMap DiffRecord.fields).flatMap fun field => field ++ ['\x00']

/-- A repository with a head tree, an index tree and their difference. -/
structure Staging where
  repo : Repository
  head : Tree
  tree : Tree
  records : List DiffRecord
  describes : Describes head tree records
  diff_eq : repo.diff = some (renderDiff records)
  index_eq : repo.index = tree.index

theorem getLast?_joinWith {sep : Char} {parts : List (List Char)}
    (h : ∀ part ∈ parts, part ≠ [] ∧ sep ∉ part) : (joinWith sep parts).getLast? ≠ some sep := by
  induction parts with
  | nil => simp [joinWith]
  | cons part parts ih =>
    obtain ⟨⟨hne, hsep⟩, hparts⟩ := List.forall_mem_cons.mp h
    cases parts with
    | nil =>
      intro hlast
      exact hsep (List.mem_of_getLast? hlast)
    | cons next parts =>
      have hjoin : joinWith sep (next :: parts) ≠ [] := by
        have hnext := (hparts next (by simp)).1
        cases parts <;> simp [joinWith, hnext]
      rw [joinWith, List.getLast?_append_of_ne_nil _ (by simp), List.getLast?_cons_of_ne_nil hjoin]
      exact ih hparts

theorem asPosix_of_ne_nil {value : String} (h : posixParts value ≠ []) :
    asPosix value = String.ofList (joinWith '/' ((posixParts value).map String.toList)) := by
  unfold asPosix
  split
  · contradiction
  · rfl

theorem validatePath_of_isTreePath {path : String} (h : isTreePath path = true) :
    validatePath path = .ok path := by
  simp only [isTreePath, Bool.and_eq_true, List.all_eq_true] at h
  obtain ⟨hparts, -⟩ := h
  have hname : ∀ part ∈ splitOnChar '/' path.toList, part ≠ [] ∧ '/' ∉ part ∧
      part ≠ ['.'] ∧ part ≠ ['.', '.'] := by
    intro part hpart
    have hn := hparts part hpart
    refine ⟨?_, ?_, ?_, ?_⟩
    · rintro rfl
      exact absurd hn (by decide)
    · simp only [isName, Bool.and_eq_true, String.toList_ofList] at hn
      simpa using hn.2
    · rintro rfl
      exact absurd hn (by decide)
    · rintro rfl
      exact absurd hn (by decide)
  have hposix : posixParts path = (splitOnChar '/' path.toList).map String.ofList := by
    rw [posixParts, List.filter_eq_self]
    intro part hpart
    obtain ⟨chars, hchars, rfl⟩ := List.mem_map.mp hpart
    obtain ⟨hne, -, hdot, -⟩ := hname chars hchars
    have hne' : String.ofList chars ≠ "" := fun h => hne (String.ofList_injective h)
    have hdot' : String.ofList chars ≠ "." := fun h => hdot (String.ofList_injective h)
    simp [hne', hdot']
  have hjoin : joinWith '/' (splitOnChar '/' path.toList) = path.toList := joinWith_splitOnChar _
  have hsplit : splitOnChar '/' path.toList ≠ [] := splitWhere_ne_nil _
  have hempty : path ≠ "" := by
    rintro rfl
    exact (hname [] (by decide)).1 rfl
  have hfirst : path.toList.head? ≠ some '/' := by
    obtain ⟨part, parts, hcons⟩ := List.exists_cons_of_ne_nil hsplit
    obtain ⟨hne, hslash, -⟩ := hname part (by simp [hcons])
    obtain ⟨c, part, rfl⟩ := List.exists_cons_of_ne_nil hne
    have hc : c ≠ '/' := fun h => hslash (by simp [h])
    rw [← hjoin, hcons]
    cases parts <;> simp [joinWith, hc]
  have hlast : path.toList.getLast? ≠ some '/' := by
    rw [← hjoin]
    exact getLast?_joinWith fun part hpart => ⟨(hname part hpart).1, (hname part hpart).2.1⟩
  have hup : ".." ∉ posixParts path := by
    rw [hposix, List.mem_map]
    rintro ⟨chars, hchars, heq⟩
    exact (hname chars hchars).2.2.2 (String.ofList_injective heq)
  have hne : posixParts path ≠ [] := by
    rw [hposix]
    simpa using hsplit
  rw [validatePath, if_neg (by simp [hempty, hfirst, hlast, hup]), asPosix_of_ne_nil hne, hposix,
    List.map_map, show (String.toList ∘ String.ofList) = id from
      funext fun s => String.toList_ofList, List.map_id, hjoin, String.ofList_toList]

theorem nul_not_mem_scoreText (score : ℕ) : '\x00' ∉ scoreText score := by
  intro hmem
  rcases List.mem_append.mp hmem with hmem | hmem
  · exact absurd (List.eq_of_mem_replicate hmem) (by decide)
  · exact absurd ((natText_spec score).2.1 _ hmem) (by decide)

theorem nul_not_mem_of_isTreePath {path : String} (h : isTreePath path = true) :
    '\x00' ∉ path.toList := by
  simp only [isTreePath, Bool.and_eq_true] at h
  simpa using h.2

theorem nul_not_mem_fields {r : DiffRecord} (h : ∀ path ∈ r.named, isTreePath path = true) :
    ∀ field ∈ r.fields, '\x00' ∉ field := by
  have hnul : ∀ path ∈ r.named, '\x00' ∉ path.toList := fun path hpath =>
    nul_not_mem_of_isTreePath (h path hpath)
  cases r <;>
    simp [DiffRecord.fields, DiffRecord.named, DiffRecord.change, nul_not_mem_scoreText] at hnul ⊢ <;>
    exact hnul

theorem stagedFields_renderDiff {records : List DiffRecord}
    (h : ∀ r ∈ records, ∀ path ∈ r.named, isTreePath path = true) :
    stagedFields (renderDiff records) =
      (records.flatMap DiffRecord.fields).map String.ofList := by
  have hnul : ∀ field ∈ records.flatMap DiffRecord.fields, '\x00' ∉ field := by
    intro field hfield
    obtain ⟨r, hr, hmem⟩ := List.mem_flatMap.mp hfield
    exact nul_not_mem_fields (h r hr) field hmem
  simp [stagedFields, renderDiff, splitOnChar_lines hnul]

theorem parseChanges_pair {code : Char} (hcode : code = 'R' ∨ code = 'C') (score : List Char)
    {old new : String} (hold : isTreePath old = true) (hnew : isTreePath new = true)
    (rest : List String) :
    parseChanges (String.ofList (code :: score) :: old :: new :: rest) =
      (parseChanges rest).map (⟨code, some old, some new⟩ :: ·) := by
  rw [parseChanges, String.toList_ofList, List.head?_cons]
  simp only [if_pos hcode, validatePath_of_isTreePath hold, validatePath_of_isTreePath hnew,
    ok_bind]
  cases parseChanges rest <;> rfl

theorem parseChanges_single {code : Char} (hcode : ¬ (code = 'R' ∨ code = 'C')) {path : String}
    (hpath : isTreePath path = true) (rest : List String) :
    parseChanges (String.ofList [code] :: path :: rest) = (parseChanges rest).map
      ((if code = 'D' then ⟨code, some path, none⟩ else ⟨code, none, some path⟩) :: ·) := by
  rw [parseChanges, String.toList_ofList, List.head?_cons]
  simp only [if_neg hcode, validatePath_of_isTreePath hpath, ok_bind]
  cases parseChanges rest <;> rfl

theorem parseChanges_fields {r : DiffRecord} (h : ∀ path ∈ r.named, isTreePath path = true)
    (rest : List String) :
    parseChanges (r.fields.map String.ofList ++ rest) =
      (parseChanges rest).map (r.change :: ·) := by
  cases r with
  | added path | modified path | typeChanged path | deleted path =>
    have hpath := h path (by simp [DiffRecord.named, DiffRecord.change])
    simp only [DiffRecord.fields, List.map_cons, List.map_nil, String.ofList_toList]
    exact parseChanges_single (by decide) hpath rest
  | renamed score old new | copied score old new =>
    have hold := h old (by simp [DiffRecord.named, DiffRecord.change])
    have hnew := h new (by simp [DiffRecord.named, DiffRecord.change])
    simp only [DiffRecord.fields, List.map_cons, List.map_nil, String.ofList_toList]
    exact parseChanges_pair (by decide) (scoreText score) hold hnew rest

theorem parseChanges_renderDiff {records : List DiffRecord}
    (h : ∀ r ∈ records, ∀ path ∈ r.named, isTreePath path = true) :
    parseChanges (stagedFields (renderDiff records)) = .ok (records.map DiffRecord.change) := by
  rw [stagedFields_renderDiff h]
  induction records with
  | nil => rfl
  | cons r records ih =>
    obtain ⟨hr, hrecords⟩ := List.forall_mem_cons.mp h
    rw [List.flatMap_cons, List.map_append, parseChanges_fields hr, ih hrecords]
    rfl

namespace DiffRecord

variable {H I : Tree} {r : DiffRecord}

theorem Between.isTreePath (h : r.Between H I) : ∀ path ∈ r.named, isTreePath path = true := by
  intro path hpath
  have hmem : path ∈ H.paths ∨ path ∈ I.paths := by
    cases r <;> simp [named, change] at hpath <;> simp only [Between] at h <;>
      rcases hpath with rfl | rfl <;> tauto
  rcases hmem with hmem | hmem <;> exact Tree.isTreePath_of_mem hmem

end DiffRecord

namespace Staging

variable (S : Staging)

def changes : List Change := S.records.map DiffRecord.change

theorem stagedChanges_eq : S.repo.stagedChanges = .ok S.changes := by
  rw [Repository.stagedChanges, S.diff_eq]
  exact parseChanges_renderDiff fun r hr => (S.describes.sound r hr).isTreePath

end Staging

end ChampionRuntime.Licensing
