import ChampionRuntime.Lib.Dict
import ChampionRuntime.Lib.KeySort
import ChampionRuntime.Lib.Outcome
import ChampionRuntime.Scans.ObjectListing
import Mathlib.Data.Prod.Lex
import Mathlib.Data.String.Basic

/-!
# Large and prohibited blobs

`scan_large_files.py` looks at the blobs that git lists for a revision and for the index, each
under the one path it is listed with. A blob with a prohibited suffix is found under that path
or not at all.
-/
namespace ChampionRuntime.Scans.LargeFiles

open Lib Lib.PyText

def maxBytes : ℕ := 10 * 1024 * 1024

def prohibited : List String :=
  [".safetensors", ".bin", ".pt", ".pth", ".whl", ".so", ".tar",
    ".tar.gz", ".tgz", ".zip", ".ckpt", ".gguf", ".onnx", ".dylib"]

/-- `str.casefold`, as far as a suffix of points and small letters can tell. -/
def foldForSuffix (c : Char) : List Char := if c = '.' then ['.'] else foldForKey c

/-- `path.casefold().endswith(PROHIBITED)` -/
def hasProhibitedSuffix (path : Path) : Bool :=
  prohibited.any fun suffix => suffix.toList.isSuffixOf (path.flatMap foldForSuffix)

/-- An object as `git cat-file --batch-check` describes it. -/
structure GitObject where
  name : Name
  kind : List Char
  size : ℕ

def blobKind : List Char := "blob".toList

/-- A repository in which the commands of git succeed. -/
structure Repository where
  /-- what the scanned revision reaches, if it can be resolved -/
  history : Option History
  index : List IndexEntry
  /-- the object that a name given to `git cat-file` stands for -/
  named : Name → Option GitObject
  own_name : ∀ query o, named query = some o → named o.name = some o
  blob_named : ∀ h ∈ history, ∀ p ∈ h.occurs, ∃ size, named p.1 = some ⟨p.1, blobKind, size⟩

inductive ScanError where
  /-- the words of an answer are not three, or the last one is no number -/
  | valueError
  deriving DecidableEq

/-- What an answer of `git cat-file` is taken for: the name, and the kind and the size; the size
is absent when the last word is no number. -/
abbrev Description := Name × List Char × Option ℕ

/-- `str.split()` -/
def words (s : List Char) : List (List Char) := (splitWhere isSpace s).filter (· != [])

inductive Rule where
  | blobOver10Mib
  | prohibitedSuffix
  deriving DecidableEq

def Rule.text : Rule → String
  | .blobOver10Mib => "blob-over-10mib"
  | .prohibitedSuffix => "prohibited-suffix"

structure Finding where
  rule : Rule
  object : Name
  path : Path
  size : ℕ
  deriving DecidableEq

namespace Repository

variable (r : Repository)

/-- The blobs that the scanned revision reaches, under all their paths. -/
def occurrences : List (Name × Path) := r.history.elim [] History.occurs

def candidates : List (Name × Path) :=
  r.history.elim [] (fun h => listedPairs h.revList) ++ stagedPairs r.index

/-- `sorted({oid for oid, _ in candidates})` -/
def names : List Name := sortBy String.ofList (r.candidates.map Prod.fst).dedup

/-- `oid, kind, size = line.split()` of the answer for a name. The line of a name without an
object is the name and the word `missing`. -/
def describe (query : Name) : Except ScanError Description :=
  match r.named query with
  | some o => .ok (o.name, o.kind, some o.size)
  | none =>
    match words query with
    | [name, kind] => .ok (name, kind, none)
    | _ => .error .valueError

def metadata : Except ScanError (Dict Name (List Char × Option ℕ)) :=
  r.names.foldlM (fun metadata query => do
    let (name, description) ← r.describe query
    .ok (metadata.set name description)) Keyed.empty

/-- The candidates that are blobs, with the text of their size as a number. -/
def blobs (metadata : Dict Name (List Char × Option ℕ)) : List (Name × Path × Option ℕ) :=
  r.candidates.filterMap fun (name, path) =>
    match metadata.get? name with
    | some (kind, size) => if kind = blobKind then some (name, path, size) else none
    | none => none

def objects : Except ScanError (List (Name × Path × Option ℕ)) :=
  if r.candidates = [] then .ok []
  else do
    let metadata ← r.metadata
    .ok (r.blobs metadata)

end Repository

def rulesOf (path : Path) (size : ℕ) : List Rule :=
  (if maxBytes < size then [.blobOver10Mib] else []) ++
    if hasProhibitedSuffix path then [.prohibitedSuffix] else []

def Finding.key (f : Finding) : Name × Path × Rule := (f.object, f.path, f.rule)

/-- One finding of the inner loop; `seen` holds the keys of the findings so far. -/
def addFinding (findings : List Finding) (f : Finding) : List Finding :=
  if f.key ∈ findings.map Finding.key then findings else findings ++ [f]

/-- The body of the loop over the objects. -/
def scanObject (findings : List Finding) (object : Name × Path × Option ℕ) :
    Except ScanError (List Finding) :=
  match object with
  | (_, _, none) => .error .valueError
  | (name, path, some size) =>
    .ok ((rulesOf path size).foldl (fun findings rule =>
      addFinding findings ⟨rule, name, path, size⟩) findings)

def sortKey (f : Finding) : Lex (String × Lex (String × String)) :=
  toLex (String.ofList f.path, toLex (f.rule.text, String.ofList f.object))

def Repository.scanRepository (r : Repository) : Except ScanError (List Finding) := do
  let objects ← r.objects
  let findings ← objects.foldlM scanObject []
  .ok (sortBy sortKey findings)

theorem mem_keys_addFinding {findings : List Finding} {f : Finding} {k : Name × Path × Rule} :
    k ∈ (addFinding findings f).map Finding.key ↔ k ∈ findings.map Finding.key ∨ k = f.key := by
  unfold addFinding
  split_ifs with h
  · constructor
    · exact .inl
    · rintro (hk | rfl)
      · exact hk
      · exact h
  · simp

theorem mem_keys_rules (name : Name) (path : Path) (size : ℕ) (k : Name × Path × Rule)
    (rules : List Rule) : ∀ findings : List Finding,
      k ∈ (rules.foldl (fun findings rule => addFinding findings ⟨rule, name, path, size⟩)
        findings).map Finding.key ↔
        k ∈ findings.map Finding.key ∨ ∃ rule ∈ rules, k = (name, path, rule) := by
  induction rules with
  | nil => simp
  | cons rule rules ih =>
    intro findings
    rw [List.foldl_cons, ih, mem_keys_addFinding, List.exists_mem_cons_iff, or_assoc]
    rfl

/-- The loop fails at an object without a size, and otherwise finds the rules that the objects
break. -/
theorem foldlM_scanObject (objects : List (Name × Path × Option ℕ)) : ∀ findings : List Finding,
    match objects.foldlM scanObject findings with
    | .error _ => ∃ o ∈ objects, o.2.2 = none
    | .ok result => (∀ o ∈ objects, o.2.2 ≠ none) ∧ ∀ k, k ∈ result.map Finding.key ↔
        k ∈ findings.map Finding.key ∨ ∃ name path size, (name, path, some size) ∈ objects ∧
          ∃ rule ∈ rulesOf path size, k = (name, path, rule) := by
  induction objects with
  | nil =>
    intro findings
    exact ⟨by simp, by simp⟩
  | cons object objects ih =>
    intro findings
    obtain ⟨name, path, size⟩ := object
    rw [List.foldlM_cons]
    cases size with
    | none => exact ⟨_, List.mem_cons_self, rfl⟩
    | some size =>
      have hrest := ih ((rulesOf path size).foldl (fun findings rule =>
        addFinding findings ⟨rule, name, path, size⟩) findings)
      rw [scanObject, ok_bind]
      cases hresult : objects.foldlM scanObject ((rulesOf path size).foldl (fun findings rule =>
          addFinding findings ⟨rule, name, path, size⟩) findings) with
      | error e =>
        rw [hresult] at hrest
        obtain ⟨o, ho, hsize⟩ := hrest
        exact ⟨o, List.mem_cons_of_mem _ ho, hsize⟩
      | ok result =>
        rw [hresult] at hrest
        obtain ⟨hsized, hkeys⟩ := hrest
        refine ⟨List.forall_mem_cons.mpr ⟨by simp, hsized⟩, fun k => ?_⟩
        rw [hkeys, mem_keys_rules, or_assoc]
        apply or_congr_right
        constructor
        · rintro (hrule | ⟨name', path', size', ho, hrule⟩)
          · exact ⟨name, path, size, List.mem_cons_self, hrule⟩
          · exact ⟨name', path', size', List.mem_cons_of_mem _ ho, hrule⟩
        · rintro ⟨name', path', size', ho, hrule⟩
          rcases List.mem_cons.mp ho with heq | ho
          · cases heq
            exact .inl hrule
          · exact .inr ⟨name', path', size', ho, hrule⟩

namespace Repository

variable {r : Repository}

/-- The scan reads the answers of git without an error. -/
structure Reads (r : Repository) (metadata : Dict Name (List Char × Option ℕ)) : Prop where
  answered : r.metadata = .ok metadata
  sized : ∀ c ∈ r.candidates, metadata.get? c.1 ≠ some (blobKind, none)

def Reports (r : Repository) (rule : Rule) (name : Name) : Prop :=
  ∃ findings, r.scanRepository = .ok findings ∧ ∃ f ∈ findings, f.rule = rule ∧ f.object = name

theorem objects_eq (r : Repository) : r.objects = r.metadata.map r.blobs := by
  unfold objects
  split_ifs with hnil
  · have hmetadata : r.metadata = .ok Keyed.empty := by
      simp only [metadata, names, hnil]
      rfl
    rw [hmetadata, Except.map, blobs, hnil]
    rfl
  · cases r.metadata <;> rfl

theorem mem_blobs {metadata : Dict Name (List Char × Option ℕ)} {name : Name} {path : Path}
    {size : Option ℕ} : (name, path, size) ∈ r.blobs metadata ↔
      (name, path) ∈ r.candidates ∧ metadata.get? name = some (blobKind, size) := by
  rw [blobs, List.mem_filterMap]
  constructor
  · rintro ⟨⟨name', path'⟩, hc, hsome⟩
    dsimp only at hsome
    split at hsome
    · rename_i kind size' hget
      split_ifs at hsome with hkind
      cases hsome
      exact ⟨hc, by rw [hget, hkind]⟩
    · cases hsome
  · rintro ⟨hc, hget⟩
    refine ⟨(name, path), hc, ?_⟩
    simp only [hget, if_true]

/-- A blob is reported when the answers are read and one of its candidates breaks the rule. -/
theorem reports_iff {rule : Rule} {name : Name} : r.Reports rule name ↔
    ∃ metadata, r.Reads metadata ∧ ∃ path size, (name, path) ∈ r.candidates ∧
      metadata.get? name = some (blobKind, some size) ∧ rule ∈ rulesOf path size := by
  unfold Reports
  simp only [scanRepository, bind_eq_ok, objects_eq, Except.ok.injEq]
  constructor
  · rintro ⟨findings, ⟨objects, hobjects, raw, hraw, rfl⟩, f, hf, rfl, rfl⟩
    cases hmetadata : r.metadata with
    | error e =>
      rw [hmetadata] at hobjects
      cases hobjects
    | ok metadata =>
      rw [hmetadata] at hobjects
      obtain rfl := Except.ok.inj hobjects
      have hloop := foldlM_scanObject (r.blobs metadata) []
      rw [hraw] at hloop
      obtain ⟨hsized, hkeys⟩ := hloop
      have hkey : f.key ∈ raw.map Finding.key :=
        List.mem_map_of_mem ((perm_sortBy sortKey raw).mem_iff.mp hf)
      rcases (hkeys f.key).mp hkey with hnil | ⟨name, path, size, ho, rule, hrule, heq⟩
      · simp at hnil
      · obtain ⟨hc, hget⟩ := mem_blobs.mp ho
        cases heq
        refine ⟨metadata, ⟨hmetadata, ?_⟩, f.path, size, hc, hget, hrule⟩
        rintro ⟨name, path⟩ hc hnone
        exact hsized _ (mem_blobs.mpr ⟨hc, hnone⟩) rfl
  · rintro ⟨metadata, ⟨hmetadata, hsized⟩, path, size, hc, hget, hrule⟩
    have hloop := foldlM_scanObject (r.blobs metadata) []
    cases hraw : (r.blobs metadata).foldlM scanObject [] with
    | error e =>
      rw [hraw] at hloop
      obtain ⟨⟨name, path, size⟩, ho, hnone⟩ := hloop
      obtain ⟨hc, hget⟩ := mem_blobs.mp ho
      obtain rfl : size = none := hnone
      exact absurd hget (hsized _ hc)
    | ok raw =>
      rw [hraw] at hloop
      obtain ⟨f, hf, hkey⟩ := List.mem_map.mp ((hloop.2 (name, path, rule)).mpr
        (.inr ⟨name, path, size, mem_blobs.mpr ⟨hc, hget⟩, rule, hrule, rfl⟩))
      cases hkey
      exact ⟨_, ⟨_, by rw [hmetadata]; rfl, raw, hraw, rfl⟩, f,
        (perm_sortBy sortKey raw).mem_iff.mpr hf, rfl, rfl⟩

theorem foldlM_describe (r : Repository) (names : List Name) :
    ∀ start : Dict Name (List Char × Option ℕ),
      match names.foldlM (fun metadata query => do
        let (name, description) ← r.describe query
        .ok (metadata.set name description)) start with
      | .error _ => ∃ query ∈ names, r.describe query = .error .valueError
      | .ok metadata =>
        (∀ name description, metadata.get? name = some description →
          start.get? name = some description ∨
            ∃ query ∈ names, r.describe query = .ok (name, description)) ∧
        (∀ query ∈ names, ∀ answer, r.describe query = .ok answer → metadata.get? answer.1 ≠ none) ∧
        ∀ name, start.get? name ≠ none → metadata.get? name ≠ none := by
  induction names with
  | nil =>
    intro start
    exact ⟨fun name description h => .inl h, by simp, fun name h => h⟩
  | cons query names ih =>
    intro start
    rw [List.foldlM_cons]
    cases hanswer : r.describe query with
    | error e => exact ⟨query, List.mem_cons_self, by rw [hanswer]⟩
    | ok answer =>
      have hrest := ih (start.set answer.1 answer.2)
      rw [ok_bind, ok_bind]
      cases hresult : names.foldlM (fun metadata query => do
          let (name, description) ← r.describe query
          .ok (metadata.set name description)) (start.set answer.1 answer.2) with
      | error e =>
        rw [hresult] at hrest
        obtain ⟨query', hquery', herror⟩ := hrest
        exact ⟨query', List.mem_cons_of_mem _ hquery', herror⟩
      | ok metadata =>
        rw [hresult] at hrest
        obtain ⟨horigin, hasked, hkept⟩ := hrest
        have hthis : metadata.get? answer.1 ≠ none := hkept _ (by simp)
        refine ⟨fun name description h => ?_, ?_, fun name h => hkept name ?_⟩
        · rcases horigin name description h with hstart | ⟨query', hquery', hdescribe⟩
          · rw [Keyed.get?_set] at hstart
            split_ifs at hstart with hname
            · subst hname
              obtain rfl := Option.some.inj hstart
              exact .inr ⟨query, List.mem_cons_self, hanswer⟩
            · exact .inl hstart
          · exact .inr ⟨query', List.mem_cons_of_mem _ hquery', hdescribe⟩
        · refine List.forall_mem_cons.mpr ⟨?_, hasked⟩
          intro answer' h
          obtain rfl := Except.ok.inj (hanswer.symm.trans h)
          exact hthis
        · rw [Keyed.get?_set]
          split_ifs
          · simp
          · exact h

theorem describe_named {query : Name} {o : GitObject} (h : r.named query = some o) :
    r.describe query = .ok (o.name, o.kind, some o.size) := by
  unfold describe
  rw [h]

theorem named_of_describe {query name : Name} {kind : List Char} {size : ℕ}
    (h : r.describe query = .ok (name, kind, some size)) :
    r.named name = some ⟨name, kind, size⟩ := by
  unfold describe at h
  split at h
  · rename_i o hnamed
    cases h
    exact r.own_name query o hnamed
  · split at h <;> cases h

theorem mem_names {name : Name} : name ∈ r.names ↔ ∃ path, (name, path) ∈ r.candidates := by
  rw [names, (perm_sortBy _ _).mem_iff, List.mem_dedup, List.mem_map]
  simp

theorem Reads.named {metadata : Dict Name (List Char × Option ℕ)} (h : r.Reads metadata)
    {name : Name} {kind : List Char} {size : ℕ} (hget : metadata.get? name = some (kind, some size)) :
    r.named name = some ⟨name, kind, size⟩ := by
  have hfold := foldlM_describe r r.names Keyed.empty
  have hanswered := h.answered
  unfold Repository.metadata at hanswered
  rw [hanswered] at hfold
  rcases hfold.1 name _ hget with hempty | ⟨query, -, hdescribe⟩
  · simp at hempty
  · exact named_of_describe hdescribe

/-- The answers are read, and they describe the blob as one. -/
def Described (r : Repository) (name : Name) : Prop :=
  ∃ metadata, r.Reads metadata ∧ ∃ size, metadata.get? name = some (blobKind, some size)

/-- Every blob that the revision reaches under a prohibited path and every one that is too large
is reported. -/
structure Complete (r : Repository) : Prop where
  suffix : ∀ p ∈ r.occurrences, hasProhibitedSuffix p.2 = true → r.Reports .prohibitedSuffix p.1
  size : ∀ p ∈ r.occurrences, ∀ o, r.named p.1 = some o → maxBytes < o.size →
    r.Reports .blobOver10Mib p.1

/-- A blob to report is described and listed, for its suffix under a path with one. -/
structure Covered (r : Repository) : Prop where
  suffix : ∀ p ∈ r.occurrences, hasProhibitedSuffix p.2 = true →
    r.Described p.1 ∧ ∃ path, (p.1, path) ∈ r.candidates ∧ hasProhibitedSuffix path = true
  size : ∀ p ∈ r.occurrences, ∀ o, r.named p.1 = some o → maxBytes < o.size →
    r.Described p.1 ∧ ∃ path, (p.1, path) ∈ r.candidates

theorem mem_rulesOf_large {path : Path} {size : ℕ} :
    .blobOver10Mib ∈ rulesOf path size ↔ maxBytes < size := by
  unfold rulesOf
  split_ifs <;> simp [*]

theorem mem_rulesOf_prohibited {path : Path} {size : ℕ} :
    .prohibitedSuffix ∈ rulesOf path size ↔ hasProhibitedSuffix path = true := by
  unfold rulesOf
  split_ifs <;> simp [*]

theorem reports_prohibited_iff {name : Name} : r.Reports .prohibitedSuffix name ↔
    r.Described name ∧ ∃ path, (name, path) ∈ r.candidates ∧ hasProhibitedSuffix path = true := by
  rw [reports_iff]
  simp only [mem_rulesOf_prohibited]
  constructor
  · rintro ⟨metadata, hreads, path, size, hc, hget, hpath⟩
    exact ⟨⟨metadata, hreads, size, hget⟩, path, hc, hpath⟩
  · rintro ⟨⟨metadata, hreads, size, hget⟩, path, hc, hpath⟩
    exact ⟨metadata, hreads, path, size, hc, hget, hpath⟩

theorem reports_large_iff {name : Name} {o : GitObject} (ho : r.named name = some o) :
    r.Reports .blobOver10Mib name ↔
      maxBytes < o.size ∧ r.Described name ∧ ∃ path, (name, path) ∈ r.candidates := by
  have hsize : ∀ {metadata size}, r.Reads metadata →
      metadata.get? name = some (blobKind, some size) → size = o.size := by
    intro metadata size hreads hget
    obtain rfl := Option.some.inj ((hreads.named hget).symm.trans ho)
    rfl
  rw [reports_iff]
  simp only [mem_rulesOf_large]
  constructor
  · rintro ⟨metadata, hreads, path, size, hc, hget, hlarge⟩
    obtain rfl := hsize hreads hget
    exact ⟨hlarge, ⟨metadata, hreads, _, hget⟩, path, hc⟩
  · rintro ⟨hlarge, ⟨metadata, hreads, size, hget⟩, path, hc⟩
    obtain rfl := hsize hreads hget
    exact ⟨metadata, hreads, path, _, hc, hget, hlarge⟩

/-- The scan is complete exactly when every blob to report is covered by what git lists. -/
theorem scan_complete_iff (r : Repository) : r.Complete ↔ r.Covered := by
  constructor
  · intro h
    refine ⟨fun p hp hpath => reports_prohibited_iff.mp (h.suffix p hp hpath), ?_⟩
    intro p hp o ho hlarge
    exact ((reports_large_iff ho).mp (h.size p hp o ho hlarge)).2
  · intro h
    refine ⟨fun p hp hpath => reports_prohibited_iff.mpr (h.suffix p hp hpath), ?_⟩
    intro p hp o ho hlarge
    exact (reports_large_iff ho).mpr ⟨hlarge, h.size p hp o ho hlarge⟩

/-- When every name asked for is that of an object, the blobs among them are described. -/
theorem described_of_named (hnamed : ∀ name ∈ r.names, (r.named name).isSome = true) {name : Name}
    {path : Path} {size : ℕ} (hblob : r.named name = some ⟨name, blobKind, size⟩)
    (hc : (name, path) ∈ r.candidates) : r.Described name := by
  have hfold := foldlM_describe r r.names Keyed.empty
  cases hmetadata : r.metadata with
  | error e =>
    unfold Repository.metadata at hmetadata
    rw [hmetadata] at hfold
    obtain ⟨query, hquery, herror⟩ := hfold
    obtain ⟨o, ho⟩ := Option.isSome_iff_exists.mp (hnamed query hquery)
    rw [describe_named ho] at herror
    cases herror
  | ok metadata =>
    have hmetadata' := hmetadata
    unfold Repository.metadata at hmetadata'
    rw [hmetadata'] at hfold
    obtain ⟨horigin, hasked, -⟩ := hfold
    have hsized : ∀ name kind size, metadata.get? name = some (kind, size) → size ≠ none := by
      rintro name kind _ hget rfl
      rcases horigin name _ hget with hempty | ⟨query, hquery, hdescribe⟩
      · simp at hempty
      · obtain ⟨o, ho⟩ := Option.isSome_iff_exists.mp (hnamed query hquery)
        rw [describe_named ho] at hdescribe
        cases hdescribe
    have hreads : r.Reads metadata := ⟨hmetadata, fun c _ hget => hsized c.1 _ _ hget rfl⟩
    have hentry : metadata.get? name ≠ none :=
      hasked name (mem_names.mpr ⟨path, hc⟩) _ (describe_named hblob)
    obtain ⟨⟨kind, entrySize⟩, hget⟩ := Option.ne_none_iff_exists'.mp hentry
    obtain ⟨entrySize, rfl⟩ := Option.ne_none_iff_exists'.mp (hsized name kind entrySize hget)
    obtain ⟨rfl, rfl⟩ : kind = blobKind ∧ entrySize = size := by
      have hsame := Option.some.inj ((hreads.named hget).symm.trans hblob)
      cases hsame
      exact ⟨rfl, rfl⟩
    exact ⟨metadata, hreads, entrySize, hget⟩

/-- Every blob that is reached is a candidate, under the path that git lists. -/
theorem exists_candidate (hplain : ∀ h ∈ r.history, h.Plain) {p : Name × Path}
    (hp : p ∈ r.occurrences) : ∃ path, (p.1, path) ∈ r.candidates := by
  unfold occurrences at hp
  cases hhistory : r.history with
  | none =>
    rw [hhistory] at hp
    simp at hp
  | some h =>
    rw [hhistory] at hp
    obtain ⟨path, hoccurs, hlisted⟩ := h.blob_listed p hp
    refine ⟨path, ?_⟩
    rw [candidates, hhistory]
    exact List.mem_append_left _ (mem_listedPairs (hplain h hhistory) (h.path_ne _ hoccurs) hlisted)

/-- In a repository without line boundaries in its paths, where every name asked for is that of
an object, only the suffix under another path is missed. -/
theorem covered_iff_of_plain (hplain : ∀ h ∈ r.history, h.Plain)
    (hnamed : ∀ name ∈ r.names, (r.named name).isSome = true) : r.Covered ↔
      ∀ p ∈ r.occurrences, hasProhibitedSuffix p.2 = true →
        ∃ path, (p.1, path) ∈ r.candidates ∧ hasProhibitedSuffix path = true := by
  have hdescribed : ∀ p ∈ r.occurrences, r.Described p.1 := by
    intro p hp
    obtain ⟨path, hc⟩ := exists_candidate hplain hp
    cases hhistory : r.history with
    | none =>
      rw [occurrences, hhistory] at hp
      simp at hp
    | some h =>
      rw [occurrences, hhistory] at hp
      obtain ⟨size, hblob⟩ := r.blob_named h hhistory p hp
      exact described_of_named hnamed hblob hc
  constructor
  · exact fun h p hp hpath => (h.suffix p hp hpath).2
  · intro h
    exact ⟨fun p hp hpath => ⟨hdescribed p hp, h p hp hpath⟩,
      fun p hp o ho hlarge => ⟨hdescribed p hp, exists_candidate hplain hp⟩⟩

def weights : Name := List.replicate 40 'a'

/-- Two commits; the second one renames `weights.bin` to `notes.txt`. -/
def renamedHistory : History where
  occurs := [(weights, "notes.txt".toList), (weights, "weights.bin".toList)]
  listing := [⟨List.replicate 40 '2', none⟩, ⟨List.replicate 40 '1', none⟩,
    ⟨List.replicate 40 'd', some []⟩, ⟨weights, some "notes.txt".toList⟩,
    ⟨List.replicate 40 'c', some []⟩]
  path_ne := by decide
  object_hex := hex_of_all (by decide)
  once := by decide
  blob_listed := by
    intro p hp
    have hweights : p.1 = weights := by
      rcases List.mem_cons.mp hp with rfl | hp
      · rfl
      · rw [List.mem_singleton.mp hp]
    rw [hweights]
    exact ⟨"notes.txt".toList, .head _, .tail _ (.tail _ (.tail _ (.head _)))⟩

def renamed : Repository where
  history := some renamedHistory
  index := [⟨"100644".toList, weights, 0, "notes.txt".toList⟩]
  named query := if query = weights then some ⟨weights, blobKind, 1⟩ else none
  own_name := by
    intro query o h
    split_ifs at h with hquery
    cases h
    exact if_pos rfl
  blob_named := by
    intro h hh p hp
    obtain rfl := Option.some.inj hh
    have hweights : p.1 = weights := by
      rcases List.mem_cons.mp hp with rfl | hp
      · rfl
      · rw [List.mem_singleton.mp hp]
    exact ⟨1, by rw [hweights, if_pos rfl]⟩

/-- The weights are listed as notes, so nothing is reported. -/
theorem renamed_weights_missed : ¬ renamed.Complete := by
  intro h
  have hreached : (weights, "weights.bin".toList) ∈ renamed.occurrences := .tail _ (.head _)
  have hreported := h.suffix _ hreached (by decide)
  obtain ⟨-, path, hc, hpath⟩ := reports_prohibited_iff.mp hreported
  have hcandidates : renamed.candidates = [(weights, "notes.txt".toList),
      (weights, "notes.txt".toList)] := by decide
  rw [hcandidates] at hc
  have hnotes : path = "notes.txt".toList := by simpa using hc
  rw [hnotes] at hpath
  exact absurd hpath (by decide)

end Repository

end ChampionRuntime.Scans.LargeFiles
