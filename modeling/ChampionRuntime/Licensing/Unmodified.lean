import ChampionRuntime.Lib.Loop
import ChampionRuntime.Licensing.CheckAgreement
import ChampionRuntime.Licensing.CleanAudit

/-!
# Files that count as unmodified

A record of unmodified upstream code is at its base if its target digest is that of the
base, or if it has none yet. The updater compares the staged bytes with the target alone:
a round keeps every record at its base exactly when a first target is the digest of the
base. The audit wants a target in every record, and nothing more.
-/
namespace ChampionRuntime.Licensing

open Lib Lib.Json
open Receipts (Bytes)

def Record.Untargeted (r : Record) : Prop :=
  r.get "target_sha256" = none ∨ r.get "target_sha256" = some .null

/-- What counts as unmodified has the digest of its base, or none. -/
def Record.AtBase (r : Record) : Prop :=
  r.classified .upstreamUnmodified = true →
    r.get "target_sha256" = r.get "base_sha256" ∨ r.Untargeted

section Rounds

variable {sha256 : Bytes → String} {repo : Repository} {mapping : ClassificationMap}
  {records records' : Records} {c : Change}

theorem classification_unique {r : Record} {c d : Classification} (hc : r.classified c = true)
    (hd : r.classified d = true) : c = d := by
  have hsame := (Record.holds_iff.mp hc).symm.trans (Record.holds_iff.mp hd)
  exact Classification.text_injective (Value.str.inj (Option.some.inj hsame))

theorem found_of_unmodified {path : String} {found : Option Record} {r : Record}
    (h : registered sha256 repo mapping path found = .ok r)
    (hr : r.classified .upstreamUnmodified = true) : ∃ s bytes, found = some s ∧
      s.classified .upstreamUnmodified = true ∧ repo.indexBytes path = .ok bytes ∧
      checkUnmodified path .upstreamUnmodified (s.get "target_sha256") (sha256 bytes) = .ok () ∧
      r.get "target_sha256" = some (.str (sha256 bytes)) ∧
      r.get "base_sha256" = s.get "base_sha256" := by
  obtain ⟨declared, base, bytes, hreg⟩ := registered_eq_ok.mp h
  have hresult := hreg.result
  have hbase : base.classified .upstreamUnmodified = true := by
    rw [← classified_stamp base path (sha256 bytes) declared, ← hresult, hr]
  have hbase_eq := hreg.base_eq
  obtain rfl := classification_unique hbase (classified_of_baseRecord hbase_eq)
  cases found with
  | none =>
    simp only [baseRecord, newRecord] at hbase_eq
    rw [if_pos (by decide)] at hbase_eq
    cases hbase_eq
  | some s =>
    obtain ⟨rfl, -⟩ := baseRecord_some hbase_eq
    refine ⟨base, bytes, rfl, hbase, hreg.bytes_eq, hreg.unmodified, ?_, ?_⟩
    · rw [hresult, target_stamp]
    · rw [hresult, get_stamp base path _ _ (by decide) (by decide) (by decide)]

theorem target_of_checkUnmodified {path : String} {previous : Option Value} {digest : String}
    (h : checkUnmodified path .upstreamUnmodified previous digest = .ok ()) :
    previous = none ∨ previous = some .null ∨ previous = some (.str digest) := by
  unfold checkUnmodified at h
  rw [if_pos rfl] at h
  split at h
  · exact .inl rfl
  · exact .inr (.inl rfl)
  · rename_i text
    rw [require_eq_ok, beq_iff_eq] at h
    exact .inr (.inr (by rw [h]))
  · cases h
  · cases h
  · cases h

/-- The change gives no unmodified record a first target other than its base. -/
def Change.StagesBase (sha256 : Bytes → String) (repo : Repository) (records : Records)
    (c : Change) : Prop :=
  ∀ path r bytes, c.exempt = false → c.new = some path → c.found records path = some r →
    r.classified .upstreamUnmodified = true → r.Untargeted → repo.indexBytes path = .ok bytes →
      r.get "base_sha256" = some (.str (sha256 bytes))

def RecordsAtBase (records : Records) : Prop :=
  ∀ path r, records.find? path = some r → r.AtBase

theorem found_atBase (h : RecordsAtBase records) {path : String} {r : Record}
    (hr : c.found records path = some r) : r.AtBase := by
  unfold Change.found at hr
  split_ifs at hr
  · obtain ⟨old, -, hfind⟩ := Option.bind_eq_some_iff.mp hr
    exact h old r hfind
  · rw [Change.find?_without] at hr
    split_ifs at hr
    exact h path r hr

/-- A round that succeeds leaves the records at their bases exactly when it stages a base
where it gives a first target. -/
theorem atBase_updateChange (hrecords : RecordsAtBase records)
    (h : updateChange sha256 repo mapping records c = .ok records') :
    RecordsAtBase records' ↔ c.StagesBase sha256 repo records := by
  rcases updateChange_cases h with ⟨hexempt, rfl⟩ | ⟨hexempt, hround⟩
  · refine ⟨fun _ path r bytes hfalse => ?_, fun _ => hrecords⟩
    rw [hexempt] at hfalse
    cases hfalse
  constructor
  · intro hafter path r bytes _ hnew hfound hclass huntargeted hbytes
    obtain ⟨r', hr', hfind⟩ := hround.find?_new hnew
    have hclass' : r'.classified .upstreamUnmodified = true := by
      obtain ⟨declared, base, staged, hreg⟩ := registered_eq_ok.mp hr'
      have hbase_eq := hreg.base_eq
      rw [hfound] at hbase_eq
      obtain ⟨rfl, -⟩ := baseRecord_some hbase_eq
      rw [hreg.result, classified_stamp, hclass]
    obtain ⟨s, staged, hs, -, hstaged, -, htarget, hbase⟩ := found_of_unmodified hr' hclass'
    obtain rfl := Option.some.inj (hfound.symm.trans hs)
    obtain rfl := Except.ok.inj (hbytes.symm.trans hstaged)
    rw [← hbase, ← htarget]
    rcases hafter path r' hfind hclass' with heq | hnone | hnull
    · exact heq.symm
    · rw [htarget] at hnone
      cases hnone
    · rw [htarget] at hnull
      cases hnull
  · intro hstages path r hfind hclass
    by_cases hnew : c.new = some path
    · obtain ⟨r', hr', hfind'⟩ := hround.find?_new hnew
      obtain rfl := Option.some.inj (hfind.symm.trans hfind')
      obtain ⟨s, bytes, hs, hsclass, hbytes, hguard, htarget, hbase⟩ :=
        found_of_unmodified hr' hclass
      -- a first target is the base by assumption, any other is the one that was there
      left
      rw [htarget, hbase]
      rcases target_of_checkUnmodified hguard with hnone | hnull | hsame
      · exact (hstages path s bytes hexempt hnew hs hsclass (.inl hnone) hbytes).symm
      · exact (hstages path s bytes hexempt hnew hs hsclass (.inr hnull) hbytes).symm
      · rcases found_atBase hrecords hs hsclass with heq | hnone | hnull
        · rw [← heq, hsame]
        · rw [hsame] at hnone
          cases hnone
        · rw [hsame] at hnull
          cases hnull
    · rw [hround.find?_of_ne hnew, Change.find?_without] at hfind
      split_ifs at hfind
      exact hrecords path r hfind hclass

end Rounds

/-- What one call of the updater is given besides the ledger. -/
structure Update where
  repo : Repository
  changes : List Change
  mapping : ClassificationMap

namespace Update

def apply (sha256 : Bytes → String) (ledger : List Record) (u : Update) :
    Except Failure (List Record) :=
  updateLedger sha256 u.repo ledger u.changes u.mapping

/-- Every round of the call stages a base where it gives a first target. -/
def StagesBases (sha256 : Bytes → String) (ledger : List Record) (u : Update) : Prop :=
  ∀ extended, bootstrap u.repo ledger u.changes = .ok extended →
    RoundsMeet (updateChange sha256 u.repo u.mapping) (Change.StagesBase sha256 u.repo)
      (Keyed.ofList ledger) extended

end Update

/-- The records of a ledger are at their bases. -/
def LedgerAtBase (ledger : List Record) : Prop := ∀ r ∈ ledger, r.AtBase

theorem atBase_apply {sha256 : Bytes → String} {ledger updated : List Record} {u : Update}
    (hledger : LedgerAtBase ledger) (hstages : u.StagesBases sha256 ledger)
    (h : u.apply sha256 ledger = .ok updated) : LedgerAtBase updated := by
  obtain ⟨extended, hextended, final, hfinal, rfl⟩ := updateLedger_eq_ok h
  have hstart : RecordsAtBase (Keyed.ofList ledger) := by
    intro path r hr
    exact hledger r (Keyed.mem_of_find?_ofList hr).1
  have hend : RecordsAtBase final :=
    invariant_of_rounds (fun records c records' hrecords hc h =>
      (atBase_updateChange hrecords h).mpr hc) hstart (hstages extended hextended) hfinal
  intro r hr
  have hmem : r ∈ final.items := (Keyed.perm_sortItems final.items).mem_iff.mp hr
  exact hend r.path r (Keyed.find?_eq_some.mpr ⟨hmem, rfl⟩)

/-- After any sequence of calls whose first targets are bases, a clean audit of the ledger
means that what counts as unmodified has the digest of its base. -/
theorem unmodified_at_base (L : Libraries) (T : WorkTree) (strict : Bool) (calls : List Update)
    (ledger final : List Record) (hledger : LedgerAtBase ledger)
    (hcalls : RoundsMeet (Update.apply L.sha256) (Update.StagesBases L.sha256) ledger calls)
    (hrun : calls.foldlM (Update.apply L.sha256) ledger = .ok final) (hholds : T.Holds final)
    (haudit : audit L T strict = .ok []) :
    ∀ r ∈ final, r.classified .upstreamUnmodified = true →
      r.get "target_sha256" = r.get "base_sha256" := by
  intro r hr hclass
  have hfinal : LedgerAtBase final :=
    invariant_of_rounds (fun ledger u updated hledger hu h => atBase_apply hledger hu h) hledger
      hcalls hrun
  obtain ⟨text, htext, -⟩ := target_of_audit hholds haudit hr
  rcases hfinal r hr hclass with heq | hnone | hnull
  · exact heq
  · rw [htext] at hnone
    cases hnone
  · rw [htext] at hnull
    cases hnull

/-- A digest that shows the number of bytes. -/
def countDigest (bytes : Bytes) : String :=
  String.ofList (List.replicate 64 (hexDigit (bytes.length % 16)))

def upstreamBytes : Bytes := [120, 10]

def editedBytes : Bytes := [120, 121, 10]

/-- An explicit record of an upstream file, with the digest of its base and no target. -/
def vendored : Record where
  fields := [("path", .str "src/vendor.py"), ("classification", .str "upstream-unmodified"),
    ("copyright", .str "Copyright upstream"), ("license", .str "MIT"),
    ("origin_repository", .str "https://upstream"),
    ("origin_commit", .str (String.ofList (List.replicate 40 'a'))),
    ("origin_path", .str "vendor.py"), ("base_sha256", .str (countDigest upstreamBytes)),
    ("target_sha256", .null), ("modified_by", .null), ("evidence", .arr [])]
  path := "src/vendor.py"
  path_field := rfl

def vendorRepository (staged : Bytes) : Repository where
  diff := some (renderDiff [.added "src/vendor.py"])
  index := [⟨"src/vendor.py", 0, "1"⟩]
  pathspec path := some (· == path)
  blob _ := some staged
  revParse _ := none
  origin := none

def addVendor (staged : Bytes) : Update where
  repo := vendorRepository staged
  changes := [addition "src/vendor.py"]
  mapping := [("src", .upstreamUnmodified)]

def published (staged : Bytes) : Record :=
  stamp vendored "src/vendor.py" (countDigest staged) .upstreamUnmodified

def reuseText : List Char :=
  ("version = 1\n[[annotations]]\npath = \"**\"\nSPDX-License-Identifier = \"MIT\"\n" ++
    "SPDX-FileCopyrightText = \"Copyright upstream\"\n").toList

def reuseDocument : Fields :=
  [("version", .num (.int 1)), ("annotations", .arr [.obj [("path", .str "**"),
    ("SPDX-License-Identifier", .str "MIT"),
    ("SPDX-FileCopyrightText", .str "Copyright upstream")]])]

def exampleLibraries : Libraries where
  sha256 := countDigest
  word c := PyText.isUpper c || PyText.isLowerOrDigit c || c == '_'
  toml text := if text = reuseText then some reuseDocument else none

def schemaDocument : Value :=
  .obj [("$defs", .obj [("record", .obj [("properties", .obj [("classification",
    .obj [("enum", .arr (Classification.known.map fun c => .str c.text))])])])])]

/-- The working tree after the update: the staged file, the two ledger files and the
documents the audit reads. -/
def vendorTree (staged : Bytes) : WorkTree where
  repo := vendorRepository staged
  shown _ := some []
  regular _ := some true
  isFile _ := true
  read path := [(ledgerPath, jsonBytes [published staged]),
    (projectionPath, jsonBytes (projectionFor [published staged])), ("src/vendor.py", staged),
    ("REUSE.toml", encode reuseText), ("LICENSES/MIT.txt", []),
    ("LICENSE", encode "Apache License\nVersion 2.0, January 2004\n".toList),
    ("compliance/container-components.json", encode "\x7b\"components\": []\x7d".toList),
    ("schemas/provenance.schema.json", encode (dumps schemaDocument ++ ['\n'])),
    ("NOTICE", [])].lookup path

theorem addVendor_run (staged : Bytes) :
    [addVendor staged].foldlM (Update.apply countDigest) [vendored] = .ok [published staged] := rfl

theorem vendored_atBase : LedgerAtBase [vendored] := by
  intro r hr _
  obtain rfl := List.mem_singleton.mp hr
  exact .inr (.inr rfl)

theorem addVendor_stagesBases :
    RoundsMeet (Update.apply countDigest) (Update.StagesBases countDigest) [vendored]
      [addVendor upstreamBytes] := by
  refine ⟨?_, fun _ _ => trivial⟩
  intro extended hextended
  obtain rfl := Except.ok.inj hextended
  refine ⟨?_, fun _ _ => trivial⟩
  intro path r bytes _ hnew hfound _ _ hbytes
  obtain rfl := Option.some.inj hnew
  obtain rfl := Option.some.inj hfound
  obtain rfl := Except.ok.inj hbytes
  rfl

theorem vendorTree_holds (staged : Bytes) : (vendorTree staged).Holds [published staged] := by
  have htextual : (ledgerDocument [published staged]).textual = true := rfl
  exact holds_written rfl (.of_textual htextual) (.of_textual htextual)

def vendorRecords (staged : Bytes) : Records := Keyed.ofList [(published staged).reread]

section Clean

variable {staged : Bytes}

/-- The parts of the audit that are evaluated, on either of the staged files. -/
theorem vendor_checks : ∀ staged ∈ [upstreamBytes, editedBytes],
    isClean (recordFindings (published staged).reread) = true ∧
      isClean (classifiedFindings exampleLibraries (vendorTree staged)
        (published staged).reread) = true ∧
      requiredFields.all (keys (published staged).entry).contains = true ∧
      (keys (published staged).entry).all requiredFields.contains = true ∧
      isClean (coverageFindings exampleLibraries (vendorTree staged) (vendorRecords staged)
        ["src/vendor.py"]) = true ∧
      isClean (reuseRecordFindings reuseDocument (published staged).reread) = true ∧
      isClean (licenseFindings (vendorTree staged) (vendorRecords staged)) = true ∧
      (mitFindings (vendorTree staged)).isEmpty = true ∧
      isClean (rootLicenseFindings (vendorTree staged)) = true ∧
      isClean (componentFindings (vendorTree staged)) = true ∧
      isClean (noticeFindings (vendorTree staged) (vendorRecords staged)) = true ∧
      isClean (strictFindings exampleLibraries.word (vendorTree staged) true
        ["src/vendor.py"]) = true ∧
      '\r' ∉ reuseText ∧
      pyEq (Publication.Attestation.get reuseDocument "version") (.num (.int 1)) = true ∧
      schemaDocument.textual = true ∧
      ((schemaClasses schemaDocument.sortKeys).any fun classes =>
        classes.all (fun c => (knownClassification c).isSome) &&
          Classification.known.all fun c => classes.any (Publication.Attestation.isText c.text)) =
            true := by
  decide +kernel

theorem published_clean (h : staged ∈ [upstreamBytes, editedBytes]) :
    (published staged).Clean exampleLibraries (vendorTree staged) := by
  obtain ⟨hrecord, hclassified, hrequired, hknown, -⟩ := vendor_checks staged h
  have hpath : ¬ ("src/vendor.py" = "" ∨ WorkTree.isAbsolute "src/vendor.py" ∨
      ".." ∈ Receipts.posixParts "src/vendor.py") := by decide
  refine ⟨hpath, ?_, isClean_iff.mp hrecord, isClean_iff.mp hclassified⟩
  intro index
  exact fieldFindings_eq_nil hrequired hknown

theorem coverage_clean (h : staged ∈ [upstreamBytes, editedBytes]) :
    coverageFindings exampleLibraries (vendorTree staged) (vendorRecords staged)
      ["src/vendor.py"] = .ok [] := by
  obtain ⟨-, -, -, -, hcoverage, -⟩ := vendor_checks staged h
  exact isClean_iff.mp hcoverage

theorem projection_clean (staged : Bytes) :
    projectionFindings (vendorTree staged) [.obj (published staged).entry] = .ok [] := by
  have hexpected : expectedProjection [.obj (published staged).entry] =
      .ok (jsonBytes (projectionFor [published staged])) :=
    expectedProjection_written [published staged]
  have hread : (vendorTree staged).read projectionPath =
      some (jsonBytes (projectionFor [published staged])) := rfl
  simp only [projectionFindings, hexpected, ok_bind, hread, beq_self_eq_true, findingUnless, if_true]

theorem reuse_clean (h : staged ∈ [upstreamBytes, editedBytes]) :
    reuseFindings exampleLibraries (vendorTree staged) (vendorRecords staged) = .ok [] := by
  obtain ⟨-, -, -, -, -, hrecord, -, -, -, -, -, -, hreturn, hversion, -⟩ := vendor_checks staged h
  have htext : (vendorTree staged).readText "REUSE.toml" = .ok reuseText :=
    readText_encoded rfl hreturn
  have hload : loadReuse exampleLibraries (vendorTree staged) = .ok ([], reuseDocument) := by
    simp only [loadReuse, htext, exampleLibraries, if_true]
  have hitems : Keyed.sortItems Record.path (vendorRecords staged).items =
      [(published staged).reread] := by
    have hnodup : ([(published staged).reread].map Record.path).Nodup := List.nodup_singleton _
    rw [vendorRecords, Keyed.ofList_items hnodup]
    rfl
  have hfindings : [(published staged).reread].mapM (reuseRecordFindings reuseDocument) =
      .ok [[]] := mapM_eq_ok.mpr (.cons (isClean_iff.mp hrecord) .nil)
  rw [reuseFindings, hload, ok_bind]
  simp only [hitems, hfindings, ok_bind, hversion, findingUnless, if_true]
  rfl

theorem schema_clean (h : staged ∈ [upstreamBytes, editedBytes]) :
    schemaFindings (vendorTree staged) = .ok [] := by
  obtain ⟨-, -, -, -, -, -, -, -, -, -, -, -, -, -, htextual, hclasses⟩ := vendor_checks staged h
  have hload : (vendorTree staged).loadJson "schemas/provenance.schema.json" =
      .ok schemaDocument.sortKeys :=
    loadJson_written rfl (.of_textual htextual) (.of_textual htextual)
  rw [schemaFindings, hload, ok_bind]
  cases hfound : schemaClasses schemaDocument.sortKeys with
  | none =>
    rw [hfound] at hclasses
    cases hclasses
  | some classes =>
    rw [hfound, Option.any_some] at hclasses
    simp only [hclasses, findingUnless, if_true]

theorem documents_clean (h : staged ∈ [upstreamBytes, editedBytes]) :
    licenseFindings (vendorTree staged) (vendorRecords staged) = .ok [] ∧
      mitFindings (vendorTree staged) = [] ∧ rootLicenseFindings (vendorTree staged) = .ok [] ∧
      componentFindings (vendorTree staged) = .ok [] ∧
      noticeFindings (vendorTree staged) (vendorRecords staged) = .ok [] ∧
      strictFindings exampleLibraries.word (vendorTree staged) true ["src/vendor.py"] = .ok [] := by
  obtain ⟨-, -, -, -, -, -, hlicenses, hmit, hroot, hcomponents, hnotice, hstrict, -⟩ :=
    vendor_checks staged h
  exact ⟨isClean_iff.mp hlicenses, List.isEmpty_iff.mp hmit, isClean_iff.mp hroot,
    isClean_iff.mp hcomponents, isClean_iff.mp hnotice, isClean_iff.mp hstrict⟩

theorem vendorTree_clean (h : staged ∈ [upstreamBytes, editedBytes]) :
    audit exampleLibraries (vendorTree staged) true = .ok [] := by
  have hrecords : auditRecords exampleLibraries (vendorTree staged)
      [.obj (published staged).entry] = .ok ([], vendorRecords staged) := by
    refine auditRecords_written [published staged] (List.nodup_singleton _) ?_
    intro r hr
    obtain rfl := List.mem_singleton.mp hr
    exact published_clean h
  have htracked : (vendorTree staged).tracked = .ok ["src/vendor.py"] := rfl
  obtain ⟨hlicenses, hmit, hroot, hcomponents, hnotice, hstrict⟩ := documents_clean h
  rw [audit_written (vendorTree_holds staged), List.map_singleton, auditItems, hrecords, ok_bind]
  simp only [htracked, ok_bind, coverage_clean h, projection_clean, reuse_clean h, hlicenses, hmit,
    hroot, hcomponents, schema_clean h, hnotice, hstrict, List.append_nil]

end Clean

/-- The upstream file itself is published at its base. -/
theorem vendored_published_at_base :
    audit exampleLibraries (vendorTree upstreamBytes) true = .ok [] ∧
      (published upstreamBytes).get "target_sha256" =
        (published upstreamBytes).get "base_sha256" :=
  ⟨vendorTree_clean (by decide), unmodified_at_base exampleLibraries (vendorTree upstreamBytes) true
    [addVendor upstreamBytes] [vendored] [published upstreamBytes] vendored_atBase
    addVendor_stagesBases (addVendor_run upstreamBytes) (vendorTree_holds upstreamBytes)
    (vendorTree_clean (by decide)) (published upstreamBytes) (by simp) (by decide)⟩

/-- Another file in its place is published as unmodified too. -/
theorem edited_published_as_unmodified :
    [addVendor editedBytes].foldlM (Update.apply exampleLibraries.sha256) [vendored] =
        .ok [published editedBytes] ∧
      (vendorTree editedBytes).Holds [published editedBytes] ∧
      audit exampleLibraries (vendorTree editedBytes) true = .ok [] ∧
      (published editedBytes).classified .upstreamUnmodified = true ∧
      (published editedBytes).get "target_sha256" ≠ (published editedBytes).get "base_sha256" := by
  refine ⟨addVendor_run editedBytes, vendorTree_holds editedBytes, vendorTree_clean (by decide),
    by decide, ?_⟩
  intro heq
  have hdigests : countDigest editedBytes = countDigest upstreamBytes :=
    Value.str.inj (Option.some.inj heq)
  exact absurd hdigests (by decide +kernel)

end ChampionRuntime.Licensing
