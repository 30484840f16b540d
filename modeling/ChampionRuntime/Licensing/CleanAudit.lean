import ChampionRuntime.Lib.JsonFile
import ChampionRuntime.Licensing.Audit

/-!
# What a clean audit says

An audit without findings has seen a record with a target digest in every entry. It reads
the ledger and expects the projection as the updater writes them.
-/
namespace ChampionRuntime.Licensing

open Lib Lib.Json Lib.PyText
open Publication.Attestation (get truthy isText)
open Receipts (Bytes posixParts)

variable {L : Libraries} {T : WorkTree} {strict : Bool}

section Entries

/-- Nothing is raised and nothing is found. -/
def isClean : Except Raised (List Finding) → Bool
  | .ok [] => true
  | _ => false

theorem isClean_iff {x : Except Raised (List Finding)} : isClean x = true ↔ x = .ok [] := by
  cases x with
  | error e => simp [isClean]
  | ok findings => cases findings <;> simp [isClean]

@[simp] theorem findingUnless_eq_nil {holds : Bool} {finding : Finding} :
    findingUnless holds finding = [] ↔ holds = true := by
  cases holds <;> simp [findingUnless]

theorem fieldFindings_eq_nil {index : ℕ} {fields : Fields}
    (hrequired : requiredFields.all (keys fields).contains = true)
    (hknown : (keys fields).all requiredFields.contains = true) :
    fieldFindings index fields = [] := by
  have hmissing : (requiredFields.filter fun key => !(keys fields).contains key) = [] := by
    rw [List.filter_eq_nil_iff]
    intro key hkey
    simpa using List.all_eq_true.mp hrequired key hkey
  have hextra : ((keys fields).filter fun key => !requiredFields.contains key) = [] := by
    rw [List.filter_eq_nil_iff]
    intro key hkey
    simpa using List.all_eq_true.mp hknown key hkey
  simp only [fieldFindings, hmissing, hextra]
  rfl

theorem get_eq_str {r : Record} {key text : String} (h : get r.fields key = .str text) :
    r.get key = some (.str text) := by
  unfold Publication.Attestation.get at h
  unfold Record.get
  cases hfound : r.fields.lookup key with
  | none =>
    rw [hfound] at h
    cases h
  | some value =>
    rw [hfound] at h
    exact congrArg some h

theorem digest_of_findings {r : Record} {key : String} (hkey : key ≠ "base_sha256")
    (h : digestFindings r key = []) :
    ∃ text, r.get key = some (.str text) ∧ isSha256 text = true := by
  unfold digestFindings at h
  split at h
  · simp [hkey] at h
  · rename_i text htext
    exact ⟨text, get_eq_str htext, findingUnless_eq_nil.mp h⟩
  · cases h

theorem target_of_recordFindings {r : Record} (h : recordFindings r = .ok []) :
    ∃ text, r.get "target_sha256" = some (.str text) ∧ isSha256 text = true := by
  obtain ⟨classification, -, h⟩ := bind_eq_ok.mp h
  obtain ⟨evidence, -, h⟩ := bind_eq_ok.mp h
  have hnil := Except.ok.inj h
  simp only [List.append_eq_nil_iff, List.flatMap_cons, List.flatMap_nil] at hnil
  exact digest_of_findings (by decide) hnil.1.2.2.1

theorem record_of_shape {index : ℕ} {v : Value} {found : Option Record}
    (h : validateRecordShape index v = .ok ([], found)) :
    ∃ r : Record, v = .obj r.fields ∧ found = some r ∧ recordFindings r = .ok [] := by
  unfold validateRecordShape at h
  split at h
  · rename_i fields
    split at h
    · rename_i path hpath
      split_ifs at h
      · simp at h
      · obtain ⟨findings, hfindings, h⟩ := bind_eq_ok.mp h
        simp only [Except.ok.injEq, Prod.mk.injEq, List.append_eq_nil_iff] at h
        rw [h.1.2] at hfindings
        exact ⟨⟨fields, path, hpath⟩, rfl, h.2.symm, hfindings⟩
    · simp at h
  · simp at h

theorem round_of_clean {state state' : List Finding × Records} {item : Value × ℕ}
    (h : auditRecord L T state item = .ok state') (hclean : state'.1 = []) :
    state.1 = [] ∧ ∃ r : Record, item.1 = .obj r.fields ∧ recordFindings r = .ok [] ∧
      state.2.find? r.path = none ∧ state'.2 = state.2.insert r := by
  obtain ⟨⟨shape, found⟩, hshape, h⟩ := bind_eq_ok.mp h
  cases found with
  | none =>
    rw [← Except.ok.inj h] at hclean
    obtain ⟨-, rfl⟩ := List.append_eq_nil_iff.mp hclean
    obtain ⟨r, -, hnone, -⟩ := record_of_shape hshape
    cases hnone
  | some r =>
    simp only at h
    obtain ⟨classified, -, h⟩ := bind_eq_ok.mp h
    have hstate' := Except.ok.inj h
    rw [← hstate'] at hclean
    simp only [List.append_eq_nil_iff, findingUnless_eq_nil, Option.isNone_iff_eq_none] at hclean
    obtain ⟨⟨⟨hstate, rfl⟩, hnew⟩, -⟩ := hclean
    obtain ⟨s, hitem, hs, hfindings⟩ := record_of_shape hshape
    obtain rfl := Option.some.inj hs
    refine ⟨hstate, r, hitem, hfindings, hnew, ?_⟩
    rw [← hstate']

/-- The findings only grow, so every round has put its record behind the others. -/
theorem rounds_of_clean {items : List (Value × ℕ)} {state final : List Finding × Records}
    (h : items.foldlM (auditRecord L T) state = .ok final) (hclean : final.1 = []) :
    state.1 = [] ∧ ∃ records : List Record, final.2.items = state.2.items ++ records ∧
      items.map Prod.fst = records.map (fun r => .obj r.fields) ∧
        ∀ r ∈ records, recordFindings r = .ok [] := by
  induction items generalizing state with
  | nil =>
    rw [← Except.ok.inj h] at hclean ⊢
    exact ⟨hclean, [], (List.append_nil _).symm, rfl, by simp⟩
  | cons item items ih =>
    rw [List.foldlM_cons, bind_eq_ok] at h
    obtain ⟨state', hitem, h⟩ := h
    obtain ⟨hstate', records, hfinal, hitems, hrecords⟩ := ih h
    obtain ⟨hstate, r, hr, hfindings, hnew, hinsert⟩ := round_of_clean hitem hstate'
    refine ⟨hstate, r :: records, ?_, ?_, List.forall_mem_cons.mpr ⟨hfindings, hrecords⟩⟩
    · rw [hfinal, hinsert, Keyed.items_insert_of_new hnew, List.append_assoc,
        List.singleton_append]
    · rw [List.map_cons, List.map_cons, hr, hitems]

theorem records_of_clean {items : List Value} {records : Records}
    (h : auditRecords L T items = .ok ([], records)) :
    items = records.items.map (fun r => .obj r.fields) ∧
      ∀ r ∈ records.items, recordFindings r = .ok [] := by
  obtain ⟨-, added, hitems, hvalues, hfindings⟩ := rounds_of_clean h rfl
  have hadded : records.items = added := hitems
  rw [List.zipIdx_map_fst] at hvalues
  rw [hadded]
  exact ⟨hvalues, hfindings⟩

/-- The parts of an audit that finds nothing in the entries. -/
structure CleanParts (L : Libraries) (T : WorkTree) (items : List Value) (records : Records)
    (tracked : List String) : Prop where
  rounds : auditRecords L T items = .ok ([], records)
  paths : T.tracked = .ok tracked
  coverage : coverageFindings L T records tracked = .ok []
  projection : projectionFindings T items = .ok []
  reuse : reuseFindings L T records = .ok []
  licenses : licenseFindings T records = .ok []

theorem cleanParts_of_auditItems {items : List Value}
    (h : auditItems L T strict items = .ok []) :
    ∃ records tracked, CleanParts L T items records tracked := by
  obtain ⟨⟨found, records⟩, hrecords, h⟩ := bind_eq_ok.mp h
  obtain ⟨tracked, htracked, h⟩ := bind_eq_ok.mp h
  obtain ⟨coverage, hcoverage, h⟩ := bind_eq_ok.mp h
  obtain ⟨projection, hprojection, h⟩ := bind_eq_ok.mp h
  obtain ⟨reuse, hreuse, h⟩ := bind_eq_ok.mp h
  obtain ⟨licenses, hlicenses, h⟩ := bind_eq_ok.mp h
  obtain ⟨root, -, h⟩ := bind_eq_ok.mp h
  obtain ⟨components, -, h⟩ := bind_eq_ok.mp h
  obtain ⟨schema, -, h⟩ := bind_eq_ok.mp h
  obtain ⟨notice, -, h⟩ := bind_eq_ok.mp h
  obtain ⟨attributions, -, h⟩ := bind_eq_ok.mp h
  have hnil := Except.ok.inj h
  simp only [List.append_eq_nil_iff] at hnil
  obtain ⟨⟨⟨⟨⟨⟨⟨⟨⟨⟨rfl, rfl⟩, rfl⟩, rfl⟩, rfl⟩, -⟩, -⟩, -⟩, -⟩, -⟩, -⟩ := hnil
  exact ⟨records, tracked, hrecords, htracked, hcoverage, hprojection, hreuse, hlicenses⟩

theorem target_of_auditItems {items : List Value} (h : auditItems L T strict items = .ok [])
    {v : Value} (hv : v ∈ items) : ∃ r : Record, v = .obj r.fields ∧
      ∃ text, r.get "target_sha256" = some (.str text) ∧ isSha256 text = true := by
  obtain ⟨records, tracked, hparts⟩ := cleanParts_of_auditItems h
  obtain ⟨hitems, hfindings⟩ := records_of_clean hparts.rounds
  rw [hitems] at hv
  obtain ⟨r, hr, rfl⟩ := List.mem_map.mp hv
  exact ⟨r, rfl, target_of_recordFindings (hfindings r hr)⟩

end Entries

section Written

/-- The document whose bytes the updater writes. -/
def ledgerDocument (ledger : List Record) : Value :=
  .obj [("schema_version", .str "1.0.0"), ("records", .arr (ledger.map fun r => .obj r.fields))]

/-- The entry of a record in the document that is read back. -/
def Record.entry (r : Record) : Fields := sortByKey (Value.sortFields r.fields)

theorem lookup_entry (r : Record) (key : String) :
    r.entry.lookup key = (r.get key).map Value.sortKeys := lookup_sortFields r.fields key

theorem get_of_entry {r s : Record} (h : s.fields = r.entry) {key text : String}
    (hs : s.get key = some (.str text)) : r.get key = some (.str text) := by
  unfold Record.get at hs
  rw [h, lookup_entry] at hs
  obtain ⟨value, hvalue, hsorted⟩ := Option.map_eq_some_iff.mp hs
  rw [hvalue]
  cases value with
  | str s => exact congrArg some hsorted
  | null | bool | num | arr | obj => cases hsorted

theorem entry_text {r : Record} {key text : String} (h : r.get key = some (.str text)) :
    get r.entry key = .str text := by
  rw [Publication.Attestation.get, lookup_entry, h]
  rfl

theorem isText_entry (r : Record) (key text : String) :
    isText text (get r.entry key) = r.holds key text := by
  rw [Publication.Attestation.get, lookup_entry, Record.holds]
  cases r.get key with
  | none => rfl
  | some value => cases value <;> rfl

theorem bytes_ofList (text : List Char) :
    (String.ofList text).toByteArray.data.toList = encode text := by
  have hbytes : (String.ofList text).toByteArray = (encode text).toByteArray := by
    rw [← String.utf8Encode_toList, String.toList_ofList, utf8Encode_eq]
  rw [hbytes]
  simp

theorem readText_encoded {path : String} {text : List Char}
    (hread : T.read path = some (encode text)) (hreturn : '\r' ∉ text) :
    T.readText path = .ok text := by
  simp only [WorkTree.readText, hread, decode_eq_some.mpr rfl,
    universalNewlines_of_not_mem hreturn]

theorem jsonBytes_eq (ledger : List Record) :
    jsonBytes ledger = encode (dumps (ledgerDocument ledger) ++ ['\n']) := bytes_ofList _

theorem loadJson_written {path : String} {v : Value}
    (hread : T.read path = some (encode (dumps v ++ ['\n']))) (hu : v.Unique)
    (hn : v.Numbers NumberReads) : T.loadJson path = .ok v.sortKeys := by
  have htext : T.readText path = .ok (universalNewlines (dumps v ++ ['\n'])) := by
    simp only [WorkTree.readText, hread, decode_eq_some.mpr rfl]
  simp only [WorkTree.loadJson, htext, loads_written hu hn]

theorem ledgerItems_written (ledger : List Record) :
    ledgerItems (ledgerDocument ledger).sortKeys = some (ledger.map fun r => .obj r.entry) := by
  let fields : Fields :=
    [("schema_version", .str "1.0.0"), ("records", .arr (ledger.map fun r => .obj r.fields))]
  have hversion : get (sortByKey (Value.sortFields fields)) "schema_version" = .str "1.0.0" := by
    rw [Publication.Attestation.get, lookup_sortFields]
    rfl
  have hitems : Value.sortItems (ledger.map fun r => .obj r.fields) =
      ledger.map fun r => .obj r.entry := by
    rw [Value.sortItems_eq_map, List.map_map]
    rfl
  have hrecords : get (sortByKey (Value.sortFields fields)) "records" =
      .arr (ledger.map fun r => .obj r.entry) := by
    rw [← hitems, Publication.Attestation.get, lookup_sortFields]
    rfl
  have hsorted : (ledgerDocument ledger).sortKeys = .obj (sortByKey (Value.sortFields fields)) := rfl
  simp only [hsorted, ledgerItems, hversion, hrecords]
  rfl

def Record.reread (r : Record) : Record where
  fields := r.entry
  path := r.path
  path_field := by
    rw [lookup_entry, Record.get, r.path_field]
    rfl

/-- Nothing is found in the entry of a record. -/
structure Record.Clean (L : Libraries) (T : WorkTree) (r : Record) : Prop where
  path_ok : ¬ (r.path = "" ∨ WorkTree.isAbsolute r.path ∨ ".." ∈ posixParts r.path)
  fields : ∀ index, fieldFindings index r.entry = []
  record : recordFindings r.reread = .ok []
  classified : classifiedFindings L T r.reread = .ok []

theorem shape_of_clean {r : Record} (h : r.Clean L T) (index : ℕ) :
    validateRecordShape index (.obj r.entry) = .ok ([], some r.reread) := by
  have hlookup : r.entry.lookup "path" = some (.str r.path) := r.reread.path_field
  simp only [validateRecordShape]
  split
  · rename_i path hpath
    obtain rfl : path = r.path := by
      rw [hlookup] at hpath
      exact (Value.str.inj (Option.some.inj hpath)).symm
    have hrecord : recordFindings ⟨r.entry, r.path, hpath⟩ = .ok [] := h.record
    rw [if_neg h.path_ok, hrecord, ok_bind, h.fields]
    rfl
  · rename_i hno
    exact absurd hlookup (hno r.path)

/-- The records of clean entries with distinct paths are put in one after the other. -/
theorem auditRecords_written (ledger : List Record) (hnd : (ledger.map Record.path).Nodup)
    (hclean : ∀ r ∈ ledger, r.Clean L T) :
    auditRecords L T (ledger.map fun r => .obj r.entry) =
      .ok ([], Keyed.ofList (ledger.map Record.reread)) := by
  have hrounds : ∀ (ledger : List Record) (start : ℕ) (records : Records),
      (ledger.map Record.path).Nodup → (∀ r ∈ ledger, r.Clean L T) →
      (∀ r ∈ ledger, records.find? r.path = none) →
      ((ledger.map fun r => Value.obj r.entry).zipIdx start).foldlM (auditRecord L T)
          ([], records) =
        .ok ([], (ledger.map Record.reread).foldl (fun records r => records.insert r) records) := by
    intro ledger
    induction ledger with
    | nil => exact fun _ _ _ _ _ => rfl
    | cons r ledger ih =>
      intro start records hnd hclean hnew
      rw [List.map_cons, List.nodup_cons] at hnd
      obtain ⟨hr, hclean⟩ := List.forall_mem_cons.mp hclean
      obtain ⟨hrnew, hnew⟩ := List.forall_mem_cons.mp hnew
      have hround : auditRecord L T ([], records) (.obj r.entry, start) =
          .ok ([], records.insert r.reread) := by
        have hfree : records.find? r.reread.path = none := hrnew
        simp only [auditRecord, shape_of_clean hr, ok_bind, hr.classified, hfree,
          Option.isNone_none, findingUnless, if_true, List.append_nil]
      rw [List.map_cons, List.zipIdx_cons, List.foldlM_cons, hround, ok_bind,
        ih (start + 1) _ hnd.2 hclean ?_]
      · rfl
      · intro s hs
        rw [Keyed.find?_insert, if_neg, hnew s hs]
        intro heq
        exact hnd.1 (List.mem_map.mpr ⟨s, hs, heq⟩)
  exact hrounds ledger 0 Keyed.empty hnd hclean fun _ _ => rfl

/-- The tree's ledger file, loaded, is the ledger as it is written. -/
def WorkTree.Holds (T : WorkTree) (ledger : List Record) : Prop :=
  T.loadJson ledgerPath = .ok (ledgerDocument ledger).sortKeys

/-- A tree whose ledger file has the bytes of a ledger of dictionaries holds it, if
their numbers are read back. -/
theorem holds_written {ledger : List Record}
    (hread : T.read ledgerPath = some (jsonBytes ledger)) (hu : (ledgerDocument ledger).Unique)
    (hn : (ledgerDocument ledger).Numbers NumberReads) : T.Holds ledger :=
  loadJson_written (hread.trans (congrArg some (jsonBytes_eq ledger))) hu hn

theorem audit_written {ledger : List Record} (h : T.Holds ledger) :
    audit L T strict = auditItems L T strict (ledger.map fun r => .obj r.entry) := by
  rw [audit, h, ok_bind]
  simp only [ledgerItems_written]

theorem target_of_audit {ledger : List Record} (hholds : T.Holds ledger)
    (h : audit L T strict = .ok []) {r : Record} (hr : r ∈ ledger) :
    ∃ text, r.get "target_sha256" = some (.str text) ∧ isSha256 text = true := by
  rw [audit_written hholds] at h
  have hmem : Value.obj r.entry ∈ ledger.map fun r => Value.obj r.entry :=
    List.mem_map_of_mem hr
  obtain ⟨s, hs, text, htext, hdigest⟩ := target_of_auditItems h hmem
  exact ⟨text, get_of_entry (Value.obj.inj hs).symm htext, hdigest⟩

end Written

section Projection

theorem includedFields_entry (r : Record) :
    includedFields (.obj r.entry) = .ok (if subjectIncluded r then some r.entry else none) := by
  have hpath : get r.entry "path" = .str r.path := entry_text r.path_field
  simp only [includedFields, isText_entry, hpath, subjectIncluded, Record.classified]
  by_cases hevidence : r.holds "classification" Classification.generatedEvidence.text = true
  · simp [hevidence]
  · simp [hevidence]

theorem withPath_entry (r : Record) : withPath r.entry = .ok (.str r.path, r.entry) := by
  have hpath : r.entry.lookup "path" = some (.str r.path) := by
    rw [lookup_entry, Record.get, r.path_field]
    rfl
  simp only [withPath, hpath]

def Record.keyed (r : Record) : Value × Fields := (.str r.path, r.entry)

theorem insertByPath_keyed (r : Record) (ledger : List Record) :
    insertByPath r.keyed (ledger.map Record.keyed) =
      .ok ((ledger.orderedInsert (fun a b => a.path ≤ b.path) r).map Record.keyed) := by
  induction ledger with
  | nil => rfl
  | cons s ledger ih =>
    have hless : pathLt s.keyed.1 r.keyed.1 = .ok (decide (s.path < r.path)) := rfl
    rw [List.map_cons, insertByPath, hless, ok_bind, ih]
    by_cases hle : r.path ≤ s.path
    · rw [List.orderedInsert_cons_of_le (fun a b : Record => a.path ≤ b.path) ledger hle,
        decide_eq_false (not_lt.mpr hle)]
      rfl
    · rw [List.orderedInsert_of_not_le (fun a b : Record => a.path ≤ b.path) ledger hle,
        decide_eq_true (not_le.mp hle)]
      rfl

theorem sortByPath_keyed (ledger : List Record) : sortByPath (ledger.map Record.keyed) =
    .ok ((Keyed.sortItems Record.path ledger).map Record.keyed) := by
  induction ledger with
  | nil => rfl
  | cons r ledger ih =>
    rw [List.map_cons, sortByPath, ih, ok_bind, insertByPath_keyed]
    rfl

theorem payloadBytes_entries (ledger : List Record) :
    payloadBytes (ledger.map Record.entry) = jsonBytes ledger := by
  have hsorted : (Value.obj [("schema_version", .str "1.0.0"),
      ("records", .arr ((ledger.map Record.entry).map .obj))]).sortKeys =
        (ledgerDocument ledger).sortKeys := by
    have hentries : (ledger.map Record.entry).map Value.obj =
        (ledger.map fun r => Value.obj r.fields).map Value.sortKeys := by
      rw [List.map_map, List.map_map]
      rfl
    have hagain : Value.sortItems ((ledger.map fun r => Value.obj r.fields).map Value.sortKeys) =
        Value.sortItems (ledger.map fun r => Value.obj r.fields) := by
      rw [Value.sortItems_eq_map, Value.sortItems_eq_map, List.map_map]
      exact List.map_congr_left fun v _ => Value.sortKeys_sortKeys v
    simp only [ledgerDocument, Value.sortKeys, Value.sortFields, hentries, hagain]
  rw [jsonBytes_eq, payloadBytes, bytes_ofList, dumps, dumps, hsorted]

theorem filterMap_included (ledger : List Record) :
    (ledger.map fun r => if subjectIncluded r then some r.entry else none).filterMap id =
      (ledger.filter subjectIncluded).map Record.entry := by
  induction ledger with
  | nil => rfl
  | cons r ledger ih =>
    by_cases hr : subjectIncluded r = true
    · rw [List.map_cons, if_pos hr, List.filterMap_cons, List.filter_cons_of_pos hr, ih]
      rfl
    · rw [List.map_cons, if_neg hr, List.filterMap_cons, List.filter_cons_of_neg hr, ih]
      rfl

theorem expectedProjection_written (ledger : List Record) :
    expectedProjection (ledger.map fun r => .obj r.entry) =
      .ok (jsonBytes (projectionFor ledger)) := by
  have hincluded : (ledger.map fun r => Value.obj r.entry).mapM includedFields =
      .ok (ledger.map fun r => if subjectIncluded r then some r.entry else none) := by
    rw [mapM_eq_ok, List.forall₂_map_left_iff, List.forall₂_map_right_iff, List.forall₂_same]
    exact fun r _ => includedFields_entry r
  have hkeyed : ((ledger.filter subjectIncluded).map Record.entry).mapM withPath =
      .ok ((ledger.filter subjectIncluded).map Record.keyed) := by
    rw [mapM_eq_ok, List.forall₂_map_left_iff, List.forall₂_map_right_iff, List.forall₂_same]
    exact fun r _ => withPath_entry r
  rw [expectedProjection, hincluded, ok_bind, filterMap_included, hkeyed, ok_bind, sortByPath_keyed, ok_bind,
    List.map_map]
  exact congrArg Except.ok (payloadBytes_entries _)

end Projection

end ChampionRuntime.Licensing
