import ChampionRuntime.Licensing.Unmodified

/-!
# What a clean audit certifies

An audit without findings has compared the ledger with the tree in both directions: the
records are those of the distributed files, one each, with the digests the files have. Two
trees with one ledger then hold the same files, as far as the digest tells files apart.
-/
namespace ChampionRuntime.Licensing

open Lib Lib.Json
open Publication.Attestation (get isText)
open Receipts (Bytes)

variable {L : Libraries} {T : WorkTree} {strict : Bool} {ledger : List Record}
  {records : Records} {tracked : List String}

theorem eq_reread {r s : Record} (h : s.fields = r.entry) : s = r.reread := by
  have hpath : s.path = r.path := by
    have hs := get_of_entry h s.path_field
    exact Value.str.inj (Option.some.inj (hs.symm.trans r.path_field))
  obtain ⟨fields, path, hfield⟩ := s
  subst h hpath
  rfl

/-- The entries of a written ledger are those of the records that are read back, only. -/
theorem eq_map_reread {found ledger : List Record}
    (h : ledger.map (fun r => Value.obj r.entry) = found.map fun s => Value.obj s.fields) :
    found = ledger.map Record.reread := by
  induction ledger generalizing found with
  | nil => exact List.map_eq_nil_iff.mp h.symm
  | cons r ledger ih =>
    cases found with
    | nil => cases h
    | cons s found =>
      obtain ⟨hfields, hrest⟩ := List.cons.inj h
      rw [List.map_cons, eq_reread (Value.obj.inj hfields).symm, ih hrest]

theorem reread_of_clean
    (h : auditRecords L T (ledger.map fun r => .obj r.entry) = .ok ([], records)) :
    records.items = ledger.map Record.reread ∧
      ∀ r ∈ ledger, recordFindings r.reread = .ok [] := by
  obtain ⟨hitems, hfindings⟩ := records_of_clean h
  have heq := eq_map_reread hitems
  refine ⟨heq, fun r hr => hfindings r.reread ?_⟩
  rw [heq]
  exact List.mem_map_of_mem hr

theorem map_path_reread (ledger : List Record) :
    (ledger.map Record.reread).map Record.path = ledger.map Record.path := by
  rw [List.map_map]
  rfl

theorem sortTexts_eq_nil {texts : List String} : sortTexts texts = [] ↔ texts = [] := by
  rw [sortTexts, ← List.length_eq_zero_iff, List.length_insertionSort, List.length_eq_zero_iff]

/-- The records have the paths of the tracked files but for the two ledger files. -/
theorem covers_of_clean (h : coverageFindings L T records tracked = .ok []) (path : String) :
    path ∈ records.items.map Record.path ↔ path ∈ tracked ∧ path ∉ selfExemptPaths := by
  obtain ⟨files, -, h⟩ := bind_eq_ok.mp h
  have hnil := Except.ok.inj h
  simp only [List.append_eq_nil_iff, findingUnless_eq_nil, List.isEmpty_iff, sortTexts_eq_nil,
    List.filter_eq_nil_iff] at hnil
  obtain ⟨⟨⟨-, hmissing⟩, hextra⟩, -⟩ := hnil
  constructor
  · intro hpath
    simpa using hextra path hpath
  · rintro ⟨htracked, hexempt⟩
    simpa using hmissing path (by simpa using ⟨htracked, hexempt⟩)

theorem fileFindings_of_clean (h : coverageFindings L T records tracked = .ok []) {r : Record}
    (hr : r ∈ records.items) : fileFindings L T r = .ok [] := by
  have hcovered := (covers_of_clean h r.path).mp (List.mem_map_of_mem hr)
  obtain ⟨files, hfiles, h⟩ := bind_eq_ok.mp h
  have hnil := Except.ok.inj h
  simp only [List.append_eq_nil_iff] at hnil
  have hcommon : r ∈ (Keyed.sortItems Record.path records.items).filter fun r =>
      (tracked.filter fun path => !selfExemptPaths.contains path).contains r.path := by
    rw [List.mem_filter, (Keyed.perm_sortItems records.items).mem_iff]
    exact ⟨hr, by simpa using hcovered⟩
  obtain ⟨findings, hmem, hfindings⟩ := mem_of_mapM_eq_ok hfiles hcommon
  rw [hfindings, List.flatten_eq_nil_iff.mp hnil.2 findings hmem]

theorem file_of_clean {r : Record} (h : fileFindings L T r = .ok []) :
    T.regular r.path = some true ∧ ∃ bytes, T.read r.path = some bytes ∧
      r.get "target_sha256" = some (.str (L.sha256 bytes)) := by
  unfold fileFindings at h
  split at h
  · simp at h
  · simp at h
  · rename_i hregular
    split at h
    · cases h
    · rename_i bytes hread
      exact ⟨hregular, bytes, hread, Record.holds_iff.mp (findingUnless_eq_nil.mp (Except.ok.inj h))⟩

theorem text_of_textFindings {r : Record} {key : String} (h : textFindings r key = []) :
    ∃ text, r.get key = some (.str text) := by
  unfold textFindings at h
  split at h
  · rename_i text htext
    exact ⟨text, htext⟩
  · cases h

theorem texts_of_recordFindings {r : Record} (h : recordFindings r = .ok []) :
    (∃ copyright, r.get "copyright" = some (.str copyright)) ∧
      ∃ license, r.get "license" = some (.str license) := by
  obtain ⟨classification, -, h⟩ := bind_eq_ok.mp h
  obtain ⟨evidence, -, h⟩ := bind_eq_ok.mp h
  have hnil := Except.ok.inj h
  simp only [List.append_eq_nil_iff, List.flatMap_cons, List.flatMap_nil] at hnil
  obtain ⟨⟨⟨⟨⟨-, hcopyright, hlicense, -⟩, -⟩, -⟩, -⟩, -⟩ := hnil
  exact ⟨text_of_textFindings hcopyright, text_of_textFindings hlicense⟩

theorem get_of_get {r : Record} {key text : String} (h : r.get key = some (.str text)) :
    get r.fields key = .str text := by
  unfold Record.get at h
  rw [Publication.Attestation.get, h]
  rfl

theorem isFile_of_clean (h : licenseFindings T records = .ok []) {r : Record}
    (hr : r ∈ records.items) {license : String} (hlicense : r.get "license" = some (.str license)) :
    T.isFile (licenseText license) = true := by
  obtain ⟨names, hnames, h⟩ := bind_eq_ok.mp h
  have hnil := Except.ok.inj h
  rw [List.flatMap_eq_nil_iff] at hnil
  have hname : licenseName r = .ok (some license) := by
    unfold licenseName
    rw [get_of_get hlicense]
  obtain ⟨name, hmem, hfound⟩ := mem_of_mapM_eq_ok hnames hr
  obtain rfl := Except.ok.inj (hname.symm.trans hfound)
  apply findingUnless_eq_nil.mp
  apply hnil license
  rw [List.mem_eraseDups, List.mem_filterMap]
  exact ⟨some license, hmem, rfl⟩

theorem eq_str_of_pyEq {v : Value} {text : String} (h : pyEq v (.str text) = true) :
    v = .str text := by
  cases v with
  | str s =>
    simp only [pyEq, isText, beq_iff_eq] at h
    rw [h]
  | null | bool | num | arr | obj => simp [pyEq, number?] at h

/-- `REUSE.toml` gives the files of the records their licences and copyrights. -/
theorem reuse_of_clean (h : reuseFindings L T records = .ok []) : ∃ reuse,
    loadReuse L T = .ok ([], reuse) ∧ ∀ r ∈ records.items, ∀ license copyright : String,
      r.get "license" = some (.str license) → r.get "copyright" = some (.str copyright) →
      reuseIgnored r.path = false →
        reuseLicenseFor reuse r.path = .ok (.str license, .str copyright) := by
  obtain ⟨⟨unread, reuse⟩, hload, h⟩ := bind_eq_ok.mp h
  obtain ⟨findings, hfindings, h⟩ := bind_eq_ok.mp h
  have hnil := Except.ok.inj h
  simp only [List.append_eq_nil_iff] at hnil
  obtain ⟨⟨rfl, -⟩, hflat⟩ := hnil
  refine ⟨reuse, hload, ?_⟩
  intro r hr license copyright hlicense hcopyright hread
  have hmem : r ∈ Keyed.sortItems Record.path records.items :=
    (Keyed.perm_sortItems records.items).mem_iff.mpr hr
  obtain ⟨found, hfound, hrecord⟩ := mem_of_mapM_eq_ok hfindings hmem
  obtain rfl := List.flatten_eq_nil_iff.mp hflat found hfound
  unfold reuseRecordFindings at hrecord
  rw [hread, if_neg Bool.false_ne_true] at hrecord
  obtain ⟨⟨selected, holder⟩, hselected, hrecord⟩ := bind_eq_ok.mp hrecord
  have hequal := Except.ok.inj hrecord
  simp only [List.append_eq_nil_iff, findingUnless_eq_nil, get_of_get hlicense,
    get_of_get hcopyright] at hequal
  rw [hselected, eq_str_of_pyEq hequal.1, eq_str_of_pyEq hequal.2]

theorem projection_of_clean
    (h : projectionFindings T (ledger.map fun r => .obj r.entry) = .ok []) :
    T.read projectionPath = some (jsonBytes (projectionFor ledger)) := by
  rw [projectionFindings, expectedProjection_written, ok_bind] at h
  split at h
  · simp at h
  · rename_i actual hread
    have hequal := findingUnless_eq_nil.mp (Except.ok.inj h)
    rw [hread, beq_iff_eq.mp hequal]

/-- The ledger describes the tracked files of the tree, all of them and as they are. -/
structure Certified (L : Libraries) (T : WorkTree) (ledger : List Record) (tracked : List String) :
    Prop where
  distinct : (ledger.map Record.path).Nodup
  covers : ∀ path, path ∈ ledger.map Record.path ↔ path ∈ tracked ∧ path ∉ selfExemptPaths
  current : ∀ r ∈ ledger, T.regular r.path = some true ∧ ∃ bytes, T.read r.path = some bytes ∧
    r.get "target_sha256" = some (.str (L.sha256 bytes))
  licensed : ∀ r ∈ ledger, ∃ license, r.get "license" = some (.str license) ∧
    T.isFile (licenseText license) = true
  reuse : ∃ reuse, loadReuse L T = .ok ([], reuse) ∧ ∀ r ∈ ledger, reuseIgnored r.path = false →
    ∃ license copyright, r.get "license" = some (.str license) ∧
      r.get "copyright" = some (.str copyright) ∧
      reuseLicenseFor reuse r.path = .ok (.str license, .str copyright)
  projected : T.read projectionPath = some (jsonBytes (projectionFor ledger))

theorem CleanParts.certified
    (h : CleanParts L T (ledger.map fun r => .obj r.entry) records tracked) :
    Certified L T ledger tracked := by
  obtain ⟨hitems, hfindings⟩ := reread_of_clean h.rounds
  have hpaths : records.items.map Record.path = ledger.map Record.path := by
    rw [hitems, map_path_reread]
  have hmem : ∀ r ∈ ledger, r.reread ∈ records.items := by
    intro r hr
    rw [hitems]
    exact List.mem_map_of_mem hr
  refine ⟨?_, ?_, ?_, ?_, ?_, projection_of_clean h.projection⟩
  · rw [← hpaths]
    exact records.nodup
  · intro path
    rw [← hpaths]
    exact covers_of_clean h.coverage path
  · intro r hr
    obtain ⟨hregular, bytes, hread, htarget⟩ :=
      file_of_clean (fileFindings_of_clean h.coverage (hmem r hr))
    exact ⟨hregular, bytes, hread, get_of_entry rfl htarget⟩
  · intro r hr
    obtain ⟨-, license, hlicense⟩ := texts_of_recordFindings (hfindings r hr)
    exact ⟨license, get_of_entry rfl hlicense, isFile_of_clean h.licenses (hmem r hr) hlicense⟩
  · obtain ⟨reuse, hload, hselected⟩ := reuse_of_clean h.reuse
    refine ⟨reuse, hload, ?_⟩
    intro r hr hread
    obtain ⟨⟨copyright, hcopyright⟩, license, hlicense⟩ :=
      texts_of_recordFindings (hfindings r hr)
    exact ⟨license, copyright, get_of_entry rfl hlicense, get_of_entry rfl hcopyright,
      hselected r.reread (hmem r hr) license copyright hlicense hcopyright hread⟩

theorem cleanParts_of_audit (hholds : T.Holds ledger) (haudit : audit L T strict = .ok []) :
    ∃ records tracked, CleanParts L T (ledger.map fun r => .obj r.entry) records tracked := by
  rw [audit_written hholds] at haudit
  exact cleanParts_of_auditItems haudit

/-- A clean audit certifies the ledger that the tree holds. -/
theorem clean_audit_certifies (hholds : T.Holds ledger) (haudit : audit L T strict = .ok []) :
    ∃ tracked, T.tracked = .ok tracked ∧ Certified L T ledger tracked := by
  obtain ⟨records, tracked, hparts⟩ := cleanParts_of_audit hholds haudit
  exact ⟨tracked, hparts.paths, hparts.certified⟩

/-- The published file is certified. -/
theorem published_certified : ∃ tracked, (vendorTree upstreamBytes).tracked = .ok tracked ∧
    Certified exampleLibraries (vendorTree upstreamBytes) [published upstreamBytes] tracked :=
  clean_audit_certifies (vendorTree_holds upstreamBytes) (vendorTree_clean (by decide))

theorem Certified.read_of_mem (h : Certified L T ledger tracked) {path : String}
    (hpath : path ∈ tracked) (hexempt : path ∉ selfExemptPaths) : ∃ r ∈ ledger, r.path = path ∧
      ∃ bytes, T.read path = some bytes ∧ r.get "target_sha256" = some (.str (L.sha256 bytes)) := by
  obtain ⟨r, hr, rfl⟩ := List.mem_map.mp ((h.covers path).mpr ⟨hpath, hexempt⟩)
  obtain ⟨-, bytes, hread, htarget⟩ := h.current r hr
  exact ⟨r, hr, rfl, bytes, hread, htarget⟩

/-- A file that comes, goes or gets another digest is found as long as the ledger stays. -/
theorem change_is_found {T' : WorkTree} {strict' : Bool} {tracked' : List String} {path : String}
    (hholds : T.Holds ledger) (haudit : audit L T strict = .ok [])
    (htracked : T.tracked = .ok tracked) (hholds' : T'.Holds ledger)
    (htracked' : T'.tracked = .ok tracked') (hexempt : path ∉ selfExemptPaths)
    (hchanged : ¬ (path ∈ tracked ↔ path ∈ tracked') ∨
      path ∈ tracked ∧ (T.read path).map L.sha256 ≠ (T'.read path).map L.sha256) :
    audit L T' strict' ≠ .ok [] := by
  intro haudit'
  obtain ⟨records, paths, hparts⟩ := cleanParts_of_audit hholds haudit
  obtain ⟨records', paths', hparts'⟩ := cleanParts_of_audit hholds' haudit'
  obtain rfl := Except.ok.inj (htracked.symm.trans hparts.paths)
  obtain rfl := Except.ok.inj (htracked'.symm.trans hparts'.paths)
  have hbefore := hparts.certified
  have hafter := hparts'.certified
  -- both trees have the files of the records
  have hsame : path ∈ tracked ↔ path ∈ tracked' := by
    have hpath := (hbefore.covers path).symm.trans (hafter.covers path)
    simpa [hexempt] using hpath
  rcases hchanged with hchanged | hchanged
  · exact hchanged hsame
  · obtain ⟨hpath, hdigest⟩ := hchanged
    obtain ⟨r, hr, hrpath, bytes, hread, htarget⟩ := hbefore.read_of_mem hpath hexempt
    obtain ⟨-, bytes', hread', htarget'⟩ := hafter.current r hr
    rw [hrpath] at hread'
    have hequal := Value.str.inj (Option.some.inj (htarget.symm.trans htarget'))
    rw [hread, hread'] at hdigest
    exact hdigest (congrArg some hequal)

/-- The tree with another file behind the record. -/
def tamperedTree : WorkTree where
  repo := vendorRepository upstreamBytes
  shown _ := some []
  regular _ := some true
  isFile _ := true
  read path :=
    if path = "src/vendor.py" then some editedBytes else (vendorTree upstreamBytes).read path

theorem tamperedTree_holds : tamperedTree.Holds [published upstreamBytes] := by
  have hne : ledgerPath ≠ "src/vendor.py" := by decide
  have htextual : (ledgerDocument [published upstreamBytes]).textual = true := rfl
  have hread : tamperedTree.read ledgerPath = (vendorTree upstreamBytes).read ledgerPath := by
    simp only [tamperedTree, if_neg hne]
  exact holds_written (hread.trans rfl) (.of_textual htextual) (.of_textual htextual)

/-- The other file is found. -/
theorem tampered_file_is_found : audit exampleLibraries tamperedTree true ≠ .ok [] := by
  have hdigest : ((vendorTree upstreamBytes).read "src/vendor.py").map countDigest ≠
      (tamperedTree.read "src/vendor.py").map countDigest := by decide +kernel
  exact change_is_found (vendorTree_holds upstreamBytes) (vendorTree_clean (by decide)) rfl
    tamperedTree_holds rfl (by decide) (.inr ⟨List.mem_singleton_self _, hdigest⟩)

theorem readRecord_entry (r : Record) : readRecord (.obj r.entry) = .ok r.reread := by
  have hlookup : r.entry.lookup "path" = some (.str r.path) := r.reread.path_field
  simp only [readRecord]
  split
  · rename_i path hpath
    obtain rfl : path = r.path := by
      rw [hlookup] at hpath
      exact (Value.str.inj (Option.some.inj hpath)).symm
    rfl
  · rename_i hno
    exact absurd hlookup (hno r.path)

/-- The path of the record stands as `validate_path` returns it. -/
def Record.Canonical (r : Record) : Prop := validatePath r.path = .ok r.path

theorem readRecords_entries {seen : List String} (hvalid : ∀ r ∈ ledger, r.Canonical)
    (hnd : (ledger.map Record.path).Nodup) (hnew : ∀ r ∈ ledger, r.path ∉ seen) :
    readRecords seen (ledger.map fun r => .obj r.entry) = .ok (ledger.map Record.reread) := by
  induction ledger generalizing seen with
  | nil => rfl
  | cons r ledger ih =>
    obtain ⟨hr, hvalid⟩ := List.forall_mem_cons.mp hvalid
    obtain ⟨hrnew, hnew⟩ := List.forall_mem_cons.mp hnew
    rw [List.map_cons, List.nodup_cons] at hnd
    have hrest : ∀ s ∈ ledger, s.path ∉ r.path :: seen := by
      intro s hs hseen
      rcases List.mem_cons.mp hseen with heq | hseen
      · exact hnd.1 (List.mem_map.mpr ⟨s, hs, heq⟩)
      · exact hnew s hs hseen
    have hpath : validatePath r.reread.path = .ok r.path := hr
    have hunseen : (!seen.contains r.path) = true := by simpa using hrnew
    rw [List.map_cons, List.map_cons, readRecords, readRecord_entry, ok_bind, hpath, ok_bind, hunseen,
      require_true, ok_bind, ih hvalid hnd.2 hrest, ok_bind]

/-- A written ledger is read back with the keys of its records sorted, and writing it again
gives the same bytes. -/
theorem written_ledger_loads (hunique : (ledgerDocument ledger).Unique)
    (hnumbers : (ledgerDocument ledger).Numbers NumberReads)
    (hvalid : ∀ r ∈ ledger, r.Canonical)
    (hnd : (ledger.map Record.path).Nodup) :
    loadLedger ((decode (jsonBytes ledger)).map PyText.universalNewlines) =
        .ok (ledger.map Record.reread) ∧
      jsonBytes (ledger.map Record.reread) = jsonBytes ledger := by
  let fields : Fields :=
    [("schema_version", .str "1.0.0"), ("records", .arr (ledger.map fun r => .obj r.fields))]
  have hitems : Value.sortItems (ledger.map fun r => .obj r.fields) =
      ledger.map fun r => .obj r.entry := by
    rw [Value.sortItems_eq_map, List.map_map]
    rfl
  have hversion : (sortByKey (Value.sortFields fields)).lookup "schema_version" =
      some (.str "1.0.0") := by
    rw [lookup_sortFields]
    rfl
  have hrecords : (sortByKey (Value.sortFields fields)).lookup "records" =
      some (.arr (ledger.map fun r => .obj r.entry)) := by
    rw [← hitems, lookup_sortFields]
    rfl
  have hsorted : (ledgerDocument ledger).sortKeys = .obj (sortByKey (Value.sortFields fields)) := rfl
  have hdecoded : decode (jsonBytes ledger) = some (dumps (ledgerDocument ledger) ++ ['\n']) := by
    rw [jsonBytes_eq]
    exact decode_eq_some.mpr rfl
  constructor
  · simp only [loadLedger, hdecoded, Option.map_some, Option.bind_some,
      loads_written hunique hnumbers, hsorted, hversion, hrecords]
    exact readRecords_entries hvalid hnd fun _ _ => List.not_mem_nil
  · have hwritten := payloadBytes_entries ledger
    rw [← hwritten, jsonBytes, payloadBytes, List.map_map, List.map_map]
    rfl

/-- The published ledger is read back. -/
theorem published_ledger_loads :
    loadLedger ((decode (jsonBytes [published upstreamBytes])).map PyText.universalNewlines) =
        .ok [(published upstreamBytes).reread] ∧
      jsonBytes [(published upstreamBytes).reread] = jsonBytes [published upstreamBytes] := by
  have htextual : (ledgerDocument [published upstreamBytes]).textual = true := rfl
  have hvalid : ∀ r ∈ [published upstreamBytes], r.Canonical := by
    intro r hr
    obtain rfl := List.mem_singleton.mp hr
    rfl
  exact written_ledger_loads (.of_textual htextual) (.of_textual htextual) hvalid
    (List.nodup_singleton _)

end ChampionRuntime.Licensing
