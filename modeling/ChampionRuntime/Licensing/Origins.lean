import ChampionRuntime.Licensing.Coverage

/-!
# Origins after a registration

A record that was there keeps its classification, its licence and its origin,
unless a rename brings the record of another path.
-/
namespace ChampionRuntime.Licensing

open Lib Lib.Json
open Receipts (Bytes)

/-- The fields that say what a file is and where it comes from. -/
def originFields : List String :=
  ["classification", "copyright", "license", "origin_repository", "origin_commit", "origin_path",
    "base_sha256", "evidence"]

/-- The later record says the same about the origin as the earlier one. -/
def Record.Keeps (r r' : Record) : Prop := ∀ key ∈ originFields, r'.get key = r.get key

theorem Record.Keeps.trans {r s t : Record} (h : r.Keeps s) (h' : s.Keeps t) : r.Keeps t :=
  fun key hkey => (h' key hkey).trans (h key hkey)

theorem Record.Keeps.symm {r s : Record} (h : r.Keeps s) : s.Keeps r :=
  fun key hkey => (h key hkey).symm

theorem keeps_stamp (r : Record) (path digest : String) (declared : Classification) :
    r.Keeps (stamp r path digest declared) := by
  intro key hkey
  have hne : ∀ key ∈ originFields, key ≠ "path" ∧ key ≠ "target_sha256" ∧ key ≠ "modified_by" := by
    decide
  obtain ⟨hpath, htarget, hmodified⟩ := hne key hkey
  exact get_stamp r path digest declared hpath htarget hmodified

variable {sha256 : Bytes → String} {repo : Repository} {mapping : ClassificationMap}
  {ledger updated : List Record} {extended : List Change} {added : List String}

theorem keeps_of_registered {path : String} {r r' : Record}
    (h : registered sha256 repo mapping path (some r) = .ok r') : r.Keeps r' := by
  obtain ⟨declared, base, bytes, hr⟩ := registered_eq_ok.mp h
  rw [hr.result, (baseRecord_some hr.base_eq).1]
  exact keeps_stamp r path _ declared

/-- What the ledger says about origins survives the registration. -/
structure KeepsOrigins (S : Staging) (ledger updated : List Record) : Prop where
  prior : ∀ path r r', recordAt ledger path = some r → recordAt updated path = some r' → r.Keeps r'
  renamed : ∀ score old new, .renamed score old new ∈ S.records → recordAt ledger new = none →
    ∀ r', recordAt updated new = some r' → ∃ r, recordAt ledger old = some r ∧ r.Keeps r'
  unnamed : ∀ path, path ∉ S.records.flatMap DiffRecord.named → ∀ r,
    recordAt ledger path = some r → recordAt updated path = some r

namespace Staging

variable {S : Staging}

theorem Extends.mem_changes_of_recordAt (hS : S.Extends ledger extended added) {path : String}
    {r : Record} (h : recordAt ledger path = some r) {c : Change} (hc : c ∈ extended) :
    c ∈ S.changes := by
  rcases hS.mem_change.mp hc with hc | ⟨p, hp, -⟩
  · exact hc
  · have hempty := ((hS.mem p).mp hp).1
    rw [hempty] at h
    cases h

/-- The record at the new path of a rename that is not skipped is made from the
one of the old path. -/
theorem Pass.renamed (hP : S.Pass sha256 mapping ledger extended added updated) {score : ℕ}
    {old new : String} (hmem : .renamed score old new ∈ S.records)
    (hold : old ∉ selfExemptPaths) (hnew : new ∉ selfExemptPaths) :
    ∃ s r', recordAt ledger old = some s ∧ recordAt updated new = some r' ∧ s.Keeps r' := by
  have hexempt : (DiffRecord.renamed score old new).change.exempt = false := by
    simp [DiffRecord.change, Change.exempt, hold, hnew]
  have hc : (DiffRecord.renamed score old new).change ∈ extended :=
    hP.extension.mem_change.mpr (.inl (mem_changes.mpr ⟨_, hmem, rfl⟩))
  obtain ⟨hsome, -⟩ := hP.removed _ hc hexempt old rfl
  obtain ⟨s, hs⟩ := Option.isSome_iff_exists.mp hsome
  obtain ⟨r', hr', hfound⟩ := hP.new _ hc hexempt new rfl
  have hprior : (DiffRecord.renamed score old new).change.found (Keyed.ofList ledger) new = some s :=
    hs
  rw [hprior] at hr'
  exact ⟨s, r', hs, hfound, keeps_of_registered hr'⟩

theorem found_of_not_renamed {r : DiffRecord} (h : ∀ score old new, r ≠ .renamed score old new)
    {path : String} (hnew : r.change.new = some path) :
    r.change.found (Keyed.ofList ledger) path = recordAt ledger path := by
  cases r with
  | renamed score old new => exact absurd rfl (h score old new)
  | deleted => cases hnew
  | _ => rfl

theorem Pass.prior (hP : S.Pass sha256 mapping ledger extended added updated)
    (hrenamed : ∀ score old new, .renamed score old new ∈ S.records → old ∉ selfExemptPaths →
      new ∉ selfExemptPaths → ∀ r s, recordAt ledger new = some r → recordAt ledger old = some s →
        r.Keeps s) {path : String} {r r' : Record} (hr : recordAt ledger path = some r)
    (hr' : recordAt updated path = some r') : r.Keeps r' := by
  by_cases hmem : path ∈ extended.flatMap Change.touched
  · obtain ⟨c, hc, htouched⟩ := List.mem_flatMap.mp hmem
    obtain ⟨hexempt, htouched⟩ := Change.mem_touched.mp htouched
    obtain ⟨record, hrecord, rfl⟩ := mem_changes.mp (hP.extension.mem_changes_of_recordAt hr hc)
    rcases htouched with hremoved | hnew
    · rw [(hP.removed _ hc hexempt path hremoved).2] at hr'
      cases hr'
    · by_cases hren : ∃ score old new, record = .renamed score old new
      · obtain ⟨score, old, new, rfl⟩ := hren
        obtain rfl : new = path := Option.some.inj hnew
        obtain ⟨hold, hnew'⟩ : old ∉ selfExemptPaths ∧ new ∉ selfExemptPaths := by
          simpa [DiffRecord.change, Change.exempt] using hexempt
        obtain ⟨s, r'', hs, hr'', hkeeps⟩ := hP.renamed hrecord hold hnew'
        obtain rfl : r'' = r' := Option.some.inj (hr''.symm.trans hr')
        exact (hrenamed score old new hrecord hold hnew' r s hr hs).trans hkeeps
      · have hfound : record.change.found (Keyed.ofList ledger) path = some r := by
          rw [found_of_not_renamed (fun score old new h => hren ⟨score, old, new, h⟩) hnew, hr]
        obtain ⟨r'', hreg, hr''⟩ := hP.new _ hc hexempt path hnew
        obtain rfl : r'' = r' := Option.some.inj (hr''.symm.trans hr')
        rw [hfound] at hreg
        exact keeps_of_registered hreg
  · rw [hP.frame path hmem, hr] at hr'
    rw [Option.some.inj hr']
    exact fun _ _ => rfl

theorem Pass.renamed_fresh (hP : S.Pass sha256 mapping ledger extended added updated)
    {score : ℕ} {old new : String} (hmem : .renamed score old new ∈ S.records)
    (hnone : recordAt ledger new = none) {r' : Record} (hr' : recordAt updated new = some r') :
    ∃ r, recordAt ledger old = some r ∧ r.Keeps r' := by
  cases hexempt : (DiffRecord.renamed score old new).change.exempt with
  | false =>
    obtain ⟨hold, hnew⟩ : old ∉ selfExemptPaths ∧ new ∉ selfExemptPaths := by
      simpa [DiffRecord.change, Change.exempt] using hexempt
    obtain ⟨s, r'', hs, hr'', hkeeps⟩ := hP.renamed hmem hold hnew
    obtain rfl : r'' = r' := Option.some.inj (hr''.symm.trans hr')
    exact ⟨s, hs, hkeeps⟩
  | true =>
    have htouched : new ∈ (DiffRecord.renamed score old new).touched := by
      simp [DiffRecord.touched, DiffRecord.change]
    rw [hP.frame new (hP.not_mem_touched hmem hexempt htouched), hnone] at hr'
    cases hr'

theorem Pass.unnamed (hP : S.Pass sha256 mapping ledger extended added updated) {path : String}
    (hpath : path ∉ S.records.flatMap DiffRecord.named) {r : Record}
    (hr : recordAt ledger path = some r) : recordAt updated path = some r := by
  rw [hP.frame path, hr]
  intro hmem
  obtain ⟨c, hc, htouched⟩ := List.mem_flatMap.mp hmem
  obtain ⟨record, hrecord, rfl⟩ := mem_changes.mp (hP.extension.mem_changes_of_recordAt hr hc)
  refine hpath (List.mem_flatMap.mpr ⟨record, hrecord, ?_⟩)
  rcases (Change.mem_touched.mp htouched).2 with hremoved | hnew
  · have hold : record.change.old = some path := by
      unfold Change.removed at hremoved
      split_ifs at hremoved
      exact hremoved
    simp [DiffRecord.named, hold]
  · simp [DiffRecord.named, hnew]

end Staging

/-- Registration keeps the origins exactly when every rename onto a path that
has a record finds the same origin at the old path. -/
theorem registration_keeps_origins_iff (sha256 : Bytes → String) (mapping : ClassificationMap)
    (S : Staging) (ledger updated : List Record)
    (h : S.register sha256 mapping ledger = .ok updated) :
    KeepsOrigins S ledger updated ↔
      ∀ score old new, .renamed score old new ∈ S.records → old ∉ selfExemptPaths →
        new ∉ selfExemptPaths → ∀ r s, recordAt ledger new = some r →
          recordAt ledger old = some s → r.Keeps s := by
  obtain ⟨extended, added, hP⟩ := S.register_eq_ok h
  constructor
  · intro hkeeps score old new hmem hold hnew r s hr hs
    obtain ⟨s', r', hs', hr', hkeeps'⟩ := hP.renamed hmem hold hnew
    obtain rfl : s' = s := Option.some.inj (hs'.symm.trans hs)
    exact (hkeeps.prior new r r' hr hr').trans hkeeps'.symm
  · intro hrenamed
    exact {
      prior := fun path r r' => hP.prior hrenamed
      renamed := fun score old new hmem hnone r' => hP.renamed_fresh hmem hnone
      unnamed := fun path hpath r => hP.unnamed hpath }

theorem moveSource_keeps_origins : ∃ updated, moveSource.register exampleDigest
    [("src", .upstreamDerivative)] exampleLedger = .ok updated ∧
      KeepsOrigins moveSource exampleLedger updated := by
  obtain ⟨updated, h⟩ := moveSource_registers
  refine ⟨updated, h, (registration_keeps_origins_iff _ _ moveSource exampleLedger updated h).mpr ?_⟩
  intro score old new hmem _ _ r s hr
  obtain ⟨rfl, rfl, rfl⟩ : score = 100 ∧ old = "src/old.py" ∧ new = "src/new.py" := by
    simpa [moveSource] using hmem
  cases hr

/-- A ledger with an explicit record for the path the source file moves to. -/
def preseededLedger : List Record :=
  [exampleRecord "src/old.py" .upstreamDerivative "Copyright A",
    exampleRecord "src/new.py" .upstreamDerivative "Copyright B"]

/-- The record of the moved file replaces the explicit one. -/
theorem moveSource_loses_origin : ∃ updated, moveSource.register exampleDigest
    [("src", .upstreamDerivative)] preseededLedger = .ok updated ∧
      ¬ KeepsOrigins moveSource preseededLedger updated := by
  have heval : ((moveSource.register exampleDigest [("src", .upstreamDerivative)]
      preseededLedger).toOption.map fun updated =>
        (recordAt updated "src/new.py").map fun r => r.holds "copyright" "Copyright A") =
          some (some true) := by
    rw [Staging.register, moveSource.stagedChanges_eq]
    decide
  obtain ⟨updated, hupdated, hcopyright⟩ := Option.map_eq_some_iff.mp heval
  obtain ⟨r', hr', hholds⟩ := Option.map_eq_some_iff.mp hcopyright
  refine ⟨updated, toOption_eq_some.mp hupdated, fun hkeeps => ?_⟩
  have hkept := hkeeps.prior "src/new.py"
    (exampleRecord "src/new.py" .upstreamDerivative "Copyright B") r' rfl hr' "copyright" (by decide)
  have hexplicit : (exampleRecord "src/new.py" .upstreamDerivative "Copyright B").get "copyright" =
      some (.str "Copyright B") := rfl
  rw [Record.holds_iff.mp hholds, hexplicit] at hkept
  exact absurd (Value.str.inj (Option.some.inj hkept)) (by decide)

end ChampionRuntime.Licensing
