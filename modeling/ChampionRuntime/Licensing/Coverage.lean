import ChampionRuntime.Licensing.Registration

/-!
# Coverage and origins after a registration

The ledger before is compared with the ledger after, for the changes git stages
between two trees. A rename or a copy between a ledger file and another path is
skipped as a whole, so that one of its paths is never accounted for. A rename
onto a path that has a record replaces it by the record of the old path.
-/
namespace ChampionRuntime.Licensing

open Lib Lib.Json
open Receipts (Bytes)

variable {sha256 : Bytes → String} {repo : Repository} {mapping : ClassificationMap}
  {ledger updated : List Record} {changes extended : List Change}

/-- The record of a path; of two records of one path the last one counts. -/
def recordAt (ledger : List Record) (path : String) : Option Record :=
  (Keyed.ofList ledger : Records).find? path

theorem isSome_recordAt {path : String} :
    (recordAt ledger path).isSome = true ↔ path ∈ ledger.map Record.path :=
  Keyed.isSome_find?_ofList ledger path

theorem recordAt_normalizedPayload (records : Records) (path : String) :
    recordAt (normalizedPayload records.items) path = records.find? path :=
  Keyed.find?_ofList_sortItems records path

theorem recordAt_eq_some_of_nodup (hnd : (ledger.map Record.path).Nodup) {path : String}
    {r : Record} : recordAt ledger path = some r ↔ r ∈ ledger ∧ r.path = path := by
  rw [recordAt, Keyed.find?_eq_some, Keyed.ofList_items hnd]

theorem updateLedger_eq_ok (h : updateLedger sha256 repo ledger changes mapping = .ok updated) :
    ∃ extended, bootstrap repo ledger changes = .ok extended ∧ ∃ final : Records,
      extended.foldlM (updateChange sha256 repo mapping) (Keyed.ofList ledger) = .ok final ∧
        updated = normalizedPayload final.items := by
  obtain ⟨extended, hextended, h⟩ := bind_eq_ok.mp h
  obtain ⟨final, hfinal, h⟩ := bind_eq_ok.mp h
  exact ⟨extended, hextended, final, hfinal, (Except.ok.inj h).symm⟩

theorem touched_addition {path : String} (h : path ∉ selfExemptPaths) :
    (addition path).touched = [path] := by
  rw [Change.touched_of_not_exempt (by simpa [addition, Change.exempt] using h)]
  rfl

theorem exists_unique_of_nodup_flatMap {α β : Type} {l : List α} {f : α → List β}
    (hnd : (l.flatMap f).Nodup) {a b : α} (ha : a ∈ l) (hb : b ∈ l) {x : β} (hx : x ∈ f a)
    (hx' : x ∈ f b) : a = b := by
  by_contra hne
  obtain ⟨-, hpairwise⟩ := List.nodup_flatMap.mp hnd
  have : Std.Symm (fun a b => List.Disjoint (f a) (f b)) := ⟨fun _ _ h => h.symm⟩
  exact hpairwise.forall ha hb hne hx hx'

theorem sublist_flatMap {α β : Type} {l : List α} {f g : α → List β}
    (h : ∀ a ∈ l, (f a).Sublist (g a)) : (l.flatMap f).Sublist (l.flatMap g) := by
  induction l with
  | nil => exact .slnil
  | cons a l ih =>
    obtain ⟨ha, hl⟩ := List.forall_mem_cons.mp h
    rw [List.flatMap_cons, List.flatMap_cons]
    exact ha.append (ih hl)

namespace Staging

variable (S : Staging)

theorem mem_changes {S : Staging} {c : Change} : c ∈ S.changes ↔ ∃ r ∈ S.records, r.change = c :=
  List.mem_map

theorem touched_unique {r r' : DiffRecord} (hr : r ∈ S.records) (hr' : r' ∈ S.records)
    {path : String} (h : path ∈ r.touched) (h' : path ∈ r'.touched) : r = r' :=
  exists_unique_of_nodup_flatMap S.describes.nodup hr hr' h h'

theorem new_of_change {r : DiffRecord} (hr : r ∈ S.records) {path : String}
    (h : r.change.new = some path) : path ∈ S.tree.paths := by
  have hsound := S.describes.sound r hr
  cases r <;> simp_all [DiffRecord.change, DiffRecord.Between]

theorem removed_of_change {r : DiffRecord} (hr : r ∈ S.records) {path : String}
    (h : r.change.removed = some path) : path ∈ S.head.paths ∧ path ∉ S.tree.paths := by
  have hsound := S.describes.sound r hr
  cases r <;> simp_all [DiffRecord.change, Change.removed, DiffRecord.Between]

theorem mem_touched_change {r : DiffRecord} {path : String} (h : path ∈ r.change.touched) :
    path ∈ r.touched := by
  obtain ⟨-, h⟩ := Change.mem_touched.mp h
  simpa [DiffRecord.touched, Option.mem_toList] using h

/-- The changes of a pass: the staged ones and, if the ledger was empty, one for
every other tracked path. -/
structure Extends (ledger : List Record) (extended : List Change) (added : List String) : Prop where
  eq : extended = S.changes ++ added.map addition
  nodup : added.Nodup
  mem : ∀ path, path ∈ added ↔ ledger = [] ∧ path ∈ S.tree.paths ∧ path ∉ selfExemptPaths ∧
    path ∉ S.changes.filterMap Change.new

theorem bootstrap_eq_ok (h : bootstrap S.repo ledger S.changes = .ok extended) :
    ∃ added, S.Extends ledger extended added := by
  have htracked : S.repo.trackedPaths.Perm S.tree.paths := by
    rw [Repository.trackedPaths, S.index_eq, Tree.map_path_index]
    exact List.perm_insertionSort _ _
  unfold bootstrap at h
  split_ifs at h with hempty
  · rw [List.isEmpty_iff] at hempty
    have hmem : ∀ path, path ∈ unstagedPaths S.repo S.changes ↔ path ∈ S.tree.paths ∧
        path ∉ selfExemptPaths ∧ path ∉ S.changes.filterMap Change.new := by
      intro path
      rw [unstagedPaths, List.mem_filter, htracked.mem_iff]
      simp
    have hvalid : (unstagedPaths S.repo S.changes).mapM validatePath =
        .ok ((unstagedPaths S.repo S.changes).map id) := mapM_eq_ok_map fun path hpath =>
      validatePath_of_isTreePath (Tree.isTreePath_of_mem ((hmem path).mp hpath).1)
    rw [hvalid, ok_bind, List.map_id, Except.ok.injEq] at h
    refine ⟨_, h.symm, ?_, fun path => by simp [hempty, hmem]⟩
    exact (htracked.nodup_iff.mpr S.tree.nodup).filter _
  · refine ⟨[], by simp [← Except.ok.inj h], List.nodup_nil, fun path => ?_⟩
    rw [List.isEmpty_iff] at hempty
    simp [hempty]

namespace Extends

variable {S : Staging} {added : List String}

theorem mem_change (hS : S.Extends ledger extended added) {c : Change} :
    c ∈ extended ↔ c ∈ S.changes ∨ ∃ path ∈ added, addition path = c := by
  rw [hS.eq, List.mem_append, List.mem_map]

theorem nodup_touched (hS : S.Extends ledger extended added) :
    (extended.flatMap Change.touched).Nodup := by
  have hstaged : (S.changes.flatMap Change.touched).Sublist
      (S.records.flatMap DiffRecord.touched) := by
    rw [changes, List.flatMap_map]
    refine sublist_flatMap fun r _ => ?_
    unfold Change.touched
    split_ifs
    · exact List.nil_sublist _
    · exact List.Sublist.refl _
  have hadded : (added.map addition).flatMap Change.touched = added := by
    rw [List.flatMap_map, List.flatMap_congr fun path hpath =>
      touched_addition ((hS.mem path).mp hpath).2.2.1]
    exact List.flatMap_singleton' added
  rw [hS.eq, List.flatMap_append, hadded, List.nodup_append]
  refine ⟨S.describes.nodup.sublist hstaged, hS.nodup, ?_⟩
  rintro path hpath _ hmem rfl
  obtain ⟨-, htree, -, hnew⟩ := (hS.mem path).mp hmem
  obtain ⟨c, hc, htouched⟩ := List.mem_flatMap.mp hpath
  obtain ⟨r, hr, rfl⟩ := mem_changes.mp hc
  rcases (Change.mem_touched.mp htouched).2 with hremoved | hnew'
  · exact (S.removed_of_change hr hremoved).2 htree
  · exact hnew (List.mem_filterMap.mpr ⟨_, hc, hnew'⟩)

end Extends

/-- `update_ledger` on what git stages. -/
def register (sha256 : Bytes → String) (mapping : ClassificationMap) (ledger : List Record) :
    Except Failure (List Record) := do
  let changes ← S.repo.stagedChanges
  updateLedger sha256 S.repo ledger changes mapping

/-- A successful registration by its lookups before and after. -/
structure Pass (sha256 : Bytes → String) (mapping : ClassificationMap) (ledger : List Record)
    (extended : List Change) (added : List String) (updated : List Record) : Prop where
  extension : S.Extends ledger extended added
  once : (updated.map Record.path).Nodup
  frame : ∀ path, path ∉ extended.flatMap Change.touched →
    recordAt updated path = recordAt ledger path
  new : ∀ c ∈ extended, c.exempt = false → ∀ path, c.new = some path → ∃ r,
    registered sha256 S.repo mapping path (c.found (Keyed.ofList ledger) path) = .ok r ∧
      recordAt updated path = some r
  removed : ∀ c ∈ extended, c.exempt = false → ∀ path, c.removed = some path →
    (recordAt ledger path).isSome = true ∧ recordAt updated path = none

theorem register_eq_ok (h : S.register sha256 mapping ledger = .ok updated) :
    ∃ extended added, S.Pass sha256 mapping ledger extended added updated := by
  rw [register, S.stagedChanges_eq, ok_bind] at h
  obtain ⟨extended, hextended, final, hfinal, rfl⟩ := updateLedger_eq_ok h
  obtain ⟨added, hS⟩ := S.bootstrap_eq_ok hextended
  refine ⟨extended, added, hS, final.nodup_sortItems, ?_, ?_, ?_⟩
  · intro path hpath
    rw [recordAt_normalizedPayload]
    exact run_frame hfinal hpath
  · intro c hc hexempt path hnew
    obtain ⟨r, hr, hfind⟩ := (run_settled hfinal hS.nodup_touched hc hexempt).new path hnew
    exact ⟨r, hr, by rw [recordAt_normalizedPayload, hfind]⟩
  · intro c hc hexempt path hremoved
    rw [recordAt_normalizedPayload]
    exact (run_settled hfinal hS.nodup_touched hc hexempt).removed path hremoved

end Staging

/-- The records are those of the tracked paths, without the ledger files. -/
def Tracks (ledger : List Record) (T : Tree) : Prop :=
  ∀ path, path ∈ ledger.map Record.path ↔ path ∈ T.paths ∧ path ∉ selfExemptPaths

theorem tracks_iff {T : Tree} : Tracks ledger T ↔
    ∀ path, (recordAt ledger path).isSome = true ↔ path ∈ T.paths ∧ path ∉ selfExemptPaths := by
  simp only [Tracks, isSome_recordAt]

/-- One record for every path of the index tree, with the digest of the staged
bytes where the two trees differ. -/
structure Covers (sha256 : Bytes → String) (S : Staging) (updated : List Record) : Prop where
  tracks : Tracks updated S.tree
  once : (updated.map Record.path).Nodup
  digests : ∀ path e, S.tree.lookup path = some e → S.head.lookup path ≠ some e →
    path ∉ selfExemptPaths → ∃ r ∈ updated, r.path = path ∧ ∃ bytes,
      S.repo.blob e.oid = some bytes ∧ r.get "target_sha256" = some (.str (sha256 bytes))

/-- A line that is skipped for one of its paths and not for the other: a rename
between a ledger file and another path, or a copy of a ledger file. -/
def DiffRecord.crosses : DiffRecord → Bool
  | renamed _ old new => selfExemptPaths.contains old != selfExemptPaths.contains new
  | copied _ old new => selfExemptPaths.contains old && !selfExemptPaths.contains new
  | _ => false

theorem DiffRecord.exempt_of_crosses {r : DiffRecord} (h : r.crosses = true) :
    r.change.exempt = true := by
  cases r with
  | renamed score old new =>
    simp only [crosses, bne_iff_ne] at h
    simp only [change, Change.exempt, Option.any_some, Bool.or_eq_true]
    cases hold : selfExemptPaths.contains old <;> simp_all
  | copied score old new => simp_all [crosses, change, Change.exempt]
  | _ => simp [crosses] at h

theorem DiffRecord.mem_selfExempt {r : DiffRecord} (hcross : r.crosses = false)
    (hexempt : r.change.exempt = true) {path : String} (h : path ∈ r.touched) :
    path ∈ selfExemptPaths := by
  rw [← List.contains_iff_mem]
  cases r with
  | renamed score old new =>
    have heq : selfExemptPaths.contains old = selfExemptPaths.contains new := by
      simpa [crosses] using hcross
    have hor : selfExemptPaths.contains old = true ∨ selfExemptPaths.contains new = true := by
      simpa [change, Change.exempt] using hexempt
    have hpath : path = old ∨ path = new := by
      simpa [touched, change, Change.removed] using h
    rcases hpath with rfl | rfl <;> simp_all
  | copied score old new =>
    simp_all [crosses, change, Change.exempt, touched, Change.removed]
    exact hexempt.elim hcross id
  | _ => simp_all [change, Change.exempt, touched, Change.removed]

namespace Staging

variable {S : Staging} {added : List String}

theorem blob_of_indexBytes {path : String} {bytes : Bytes} {e : TreeEntry}
    (h : S.repo.indexBytes path = .ok bytes) (he : S.tree.lookup path = some e) :
    S.repo.blob e.oid = some bytes := by
  unfold Repository.indexBytes at h
  split at h
  · cases h
  · rename_i selects _
    split at h
    · rename_i entry hentry
      have hmem : entry ∈ [entry] := List.mem_singleton_self entry
      rw [← hentry, List.mem_filter, S.index_eq] at hmem
      obtain ⟨hindex, hpath⟩ := hmem
      obtain ⟨⟨p, e'⟩, hp, rfl⟩ := List.mem_map.mp hindex
      have hpath' : p = path := by simp_all
      subst hpath'
      have heq : e' = e := Option.some.inj ((Tree.lookup_eq_some.mpr hp).symm.trans he)
      subst heq
      unfold Repository.catFile at h
      split at h
      · cases h
      · rename_i found hfound
        rw [hfound, Except.ok.inj h]
    · cases h

theorem Pass.not_mem_touched (hP : S.Pass sha256 mapping ledger extended added updated)
    {r : DiffRecord} (hr : r ∈ S.records) (hexempt : r.change.exempt = true) {path : String}
    (h : path ∈ r.touched) : path ∉ extended.flatMap Change.touched := by
  intro hmem
  obtain ⟨c, hc, htouched⟩ := List.mem_flatMap.mp hmem
  rcases hP.extension.mem_change.mp hc with hc | ⟨p, hp, rfl⟩
  · obtain ⟨r', hr', rfl⟩ := mem_changes.mp hc
    have heq := S.touched_unique hr hr' h (mem_touched_change htouched)
    subst heq
    rw [(Change.mem_touched.mp htouched).1] at hexempt
    cases hexempt
  · obtain ⟨-, htree, hself, hnew⟩ := (hP.extension.mem p).mp hp
    rw [touched_addition hself, List.mem_singleton] at htouched
    subst htouched
    rcases List.mem_append.mp h with h | h
    · exact (S.removed_of_change hr (Option.mem_toList.mp h)).2 htree
    · exact hnew (List.mem_filterMap.mpr ⟨_, mem_changes.mpr ⟨r, hr, rfl⟩, Option.mem_toList.mp h⟩)

/-- Without a crossing line, the paths at which the trees differ are touched. -/
theorem touched_of_ne (hcross : ∀ r ∈ S.records, r.crosses = false) {path : String}
    (hself : path ∉ selfExemptPaths) (h : S.head.lookup path ≠ S.tree.lookup path) :
    ∃ c ∈ S.changes, c.exempt = false ∧ (c.removed = some path ∨ c.new = some path) := by
  obtain ⟨r, hr, htouched⟩ := List.mem_flatMap.mp (S.describes.complete path h)
  refine ⟨r.change, mem_changes.mpr ⟨r, hr, rfl⟩, ?_, ?_⟩
  · cases hexempt : r.change.exempt with
    | false => rfl
    | true => exact absurd (DiffRecord.mem_selfExempt (hcross r hr) hexempt htouched) hself
  · simpa [DiffRecord.touched, Option.mem_toList] using htouched

theorem not_exempt_new {c : Change} (h : c.exempt = false) {path : String}
    (hnew : c.new = some path) : path ∉ selfExemptPaths := by
  simp_all [Change.exempt]

theorem Pass.tracks (hP : S.Pass sha256 mapping ledger extended added updated)
    (hledger : Tracks ledger S.head) (hcross : ∀ r ∈ S.records, r.crosses = false) :
    Tracks updated S.tree := by
  rw [tracks_iff] at hledger ⊢
  intro path
  by_cases hmem : path ∈ extended.flatMap Change.touched
  · obtain ⟨c, hc, htouched⟩ := List.mem_flatMap.mp hmem
    obtain ⟨hexempt, htouched⟩ := Change.mem_touched.mp htouched
    rcases hP.extension.mem_change.mp hc with hstaged | ⟨p, hp, rfl⟩
    · obtain ⟨r, hr, rfl⟩ := mem_changes.mp hstaged
      rcases htouched with hremoved | hnew
      · have hgone := (S.removed_of_change hr hremoved).2
        simp [(hP.removed _ hc hexempt path hremoved).2, hgone]
      · obtain ⟨found, -, hfound⟩ := hP.new _ hc hexempt path hnew
        simp [hfound, S.new_of_change hr hnew, not_exempt_new hexempt hnew]
    · have hnew : (addition p).new = some path := by simpa [addition, Change.removed] using htouched
      obtain ⟨found, -, hfound⟩ := hP.new _ hc hexempt path hnew
      obtain ⟨-, htree, hself, -⟩ := (hP.extension.mem p).mp hp
      obtain rfl : p = path := Option.some.inj hnew
      simp [hfound, htree, hself]
  · rw [hP.frame path hmem, hledger path]
    refine and_congr_left fun hself => ?_
    have hsame : S.head.lookup path = S.tree.lookup path := by
      by_contra hne
      obtain ⟨c, hc, hexempt, htouched⟩ := touched_of_ne hcross hself hne
      exact hmem (List.mem_flatMap.mpr ⟨c, hP.extension.mem_change.mpr (.inl hc),
        Change.mem_touched.mpr ⟨hexempt, htouched⟩⟩)
    rw [Tree.mem_paths, Tree.mem_paths, hsame]

/-- A crossing line leaves one of its paths without its record, or with one it
must not have. -/
theorem Pass.not_tracks (hP : S.Pass sha256 mapping ledger extended added updated)
    (hledger : Tracks ledger S.head) {r : DiffRecord} (hr : r ∈ S.records)
    (hcross : r.crosses = true) : ¬ Tracks updated S.tree := by
  rw [tracks_iff] at hledger ⊢
  intro hupdated
  have hexempt := DiffRecord.exempt_of_crosses hcross
  have hsound := S.describes.sound r hr
  have hkept : ∀ path ∈ r.touched, ((path ∈ S.tree.paths ∧ path ∉ selfExemptPaths) ↔
      (path ∈ S.head.paths ∧ path ∉ selfExemptPaths)) := by
    intro path hpath
    rw [← hupdated path, ← hledger path, hP.frame path (hP.not_mem_touched hr hexempt hpath)]
  cases r with
  | renamed score old new =>
    simp only [DiffRecord.Between] at hsound
    have hold := hkept old (by simp [DiffRecord.touched, DiffRecord.change, Change.removed])
    have hnew := hkept new (by simp [DiffRecord.touched, DiffRecord.change, Change.removed])
    simp only [DiffRecord.crosses, bne_iff_ne, ne_eq] at hcross
    by_cases hself : old ∈ selfExemptPaths <;> simp_all
  | copied score old new =>
    simp only [DiffRecord.Between] at hsound
    have hnew := hkept new (by simp [DiffRecord.touched, DiffRecord.change, Change.removed])
    simp_all [DiffRecord.crosses]
  | _ => simp [DiffRecord.crosses] at hcross

theorem Pass.digest_new (hP : S.Pass sha256 mapping ledger extended added updated) {c : Change}
    (hc : c ∈ extended) (hexempt : c.exempt = false) {path : String} (hnew : c.new = some path)
    {e : TreeEntry} (htree : S.tree.lookup path = some e) : ∃ r ∈ updated, r.path = path ∧
      ∃ bytes, S.repo.blob e.oid = some bytes ∧
        r.get "target_sha256" = some (.str (sha256 bytes)) := by
  obtain ⟨r, hr, hfound⟩ := hP.new c hc hexempt path hnew
  obtain ⟨declared, base, bytes, hregisters⟩ := registered_eq_ok.mp hr
  obtain ⟨hmem, hpath⟩ := (recordAt_eq_some_of_nodup hP.once).mp hfound
  refine ⟨r, hmem, hpath, bytes, blob_of_indexBytes hregisters.bytes_eq htree, ?_⟩
  rw [hregisters.result, target_stamp]

theorem Pass.digests (hP : S.Pass sha256 mapping ledger extended added updated)
    (hcross : ∀ r ∈ S.records, r.crosses = false) {path : String} {e : TreeEntry}
    (htree : S.tree.lookup path = some e) (hhead : S.head.lookup path ≠ some e)
    (hself : path ∉ selfExemptPaths) : ∃ r ∈ updated, r.path = path ∧ ∃ bytes,
      S.repo.blob e.oid = some bytes ∧ r.get "target_sha256" = some (.str (sha256 bytes)) := by
  obtain ⟨c, hc, hexempt, htouched⟩ := touched_of_ne hcross hself (htree ▸ hhead)
  have hnew : c.new = some path := by
    refine htouched.resolve_left fun hremoved => ?_
    obtain ⟨r, hr, rfl⟩ := mem_changes.mp hc
    exact (S.removed_of_change hr hremoved).2 (Tree.mem_paths.mpr (by simp [htree]))
  exact hP.digest_new (hP.extension.mem_change.mpr (.inl hc)) hexempt hnew htree

end Staging

/-- Registration keeps the coverage exactly when no line crosses between the
ledger files and the other paths. -/
theorem registration_covers_iff (sha256 : Bytes → String) (mapping : ClassificationMap)
    (S : Staging) (ledger updated : List Record) (hledger : Tracks ledger S.head)
    (h : S.register sha256 mapping ledger = .ok updated) :
    Covers sha256 S updated ↔ ∀ r ∈ S.records, r.crosses = false := by
  obtain ⟨extended, added, hP⟩ := S.register_eq_ok h
  constructor
  · intro hcovers r hr
    by_contra hcross
    rw [Bool.not_eq_false] at hcross
    exact hP.not_tracks hledger hr hcross hcovers.tracks
  · intro hcross
    exact ⟨hP.tracks hledger hcross, hP.once, fun path e => hP.digests hcross⟩

/-- The two ledger files and one source file. -/
def exampleHead : Tree where
  entries := [(ledgerPath, ⟨"100644", "1"⟩), (projectionPath, ⟨"100644", "2"⟩),
    ("src/old.py", ⟨"100644", "3"⟩)]
  nodup := by decide
  paths_ok := by decide

/-- The projection has moved to another path. -/
def movedProjection : Tree where
  entries := [(ledgerPath, ⟨"100644", "1"⟩), ("docs/copy.json", ⟨"100644", "2"⟩),
    ("src/old.py", ⟨"100644", "3"⟩)]
  nodup := by decide
  paths_ok := by decide

/-- The source file has moved to another path. -/
def movedSource : Tree where
  entries := [(ledgerPath, ⟨"100644", "1"⟩), (projectionPath, ⟨"100644", "2"⟩),
    ("src/new.py", ⟨"100644", "3"⟩)]
  nodup := by decide
  paths_ok := by decide

/-- A repository whose index is a tree; an object is the text of its number. -/
def exampleRepository (tree : Tree) (records : List DiffRecord) : Repository where
  diff := some (renderDiff records)
  index := tree.index
  pathspec path := some (· == path)
  blob oid := some (oid.toByteArray.data.toList)
  revParse _ := none
  origin := none

def moveProjection : Staging where
  repo := exampleRepository movedProjection [.renamed 100 projectionPath "docs/copy.json"]
  head := exampleHead
  tree := movedProjection
  records := [.renamed 100 projectionPath "docs/copy.json"]
  describes := .of_entries (by decide) (by decide) (by decide) (by decide)
  diff_eq := rfl
  index_eq := rfl

def moveSource : Staging where
  repo := exampleRepository movedSource [.renamed 100 "src/old.py" "src/new.py"]
  head := exampleHead
  tree := movedSource
  records := [.renamed 100 "src/old.py" "src/new.py"]
  describes := .of_entries (by decide) (by decide) (by decide) (by decide)
  diff_eq := rfl
  index_eq := rfl

/-- A record with the given origin; the digest is that of no bytes. -/
def exampleRecord (path : String) (classification : Classification) (copyright : String) :
    Record where
  fields := [("path", .str path), ("classification", .str classification.text),
    ("copyright", .str copyright), ("target_sha256", .null)]
  path := path
  path_field := rfl

def exampleDigest (bytes : Bytes) : String := toString bytes

def exampleLedger : List Record := [exampleRecord "src/old.py" .upstreamDerivative "Copyright A"]

theorem tracks_exampleLedger : Tracks exampleLedger exampleHead := by
  intro path
  simp only [exampleLedger, exampleRecord, Tree.paths, exampleHead, selfExemptPaths, ledgerPath,
    projectionPath]
  simp
  grind

theorem moveSource_registers : ∃ updated, moveSource.register exampleDigest
    [("src", .upstreamDerivative)] exampleLedger = .ok updated := by
  refine exists_ok_of_isSome ?_
  rw [Staging.register, moveSource.stagedChanges_eq]
  decide

/-- A moved source file is covered. -/
theorem moveSource_covers : ∃ updated, moveSource.register exampleDigest
    [("src", .upstreamDerivative)] exampleLedger = .ok updated ∧
      Covers exampleDigest moveSource updated := by
  obtain ⟨updated, h⟩ := moveSource_registers
  exact ⟨updated, h, (registration_covers_iff _ _ moveSource exampleLedger updated
    tracks_exampleLedger h).mpr (by decide)⟩

/-- A moved ledger file is not: its new path has no record. -/
theorem moveProjection_uncovered : Tracks exampleLedger moveProjection.head ∧
    ∃ updated, moveProjection.register exampleDigest [] exampleLedger = .ok updated ∧
      ¬ Covers exampleDigest moveProjection updated := by
  have heval : moveProjection.register exampleDigest [] exampleLedger = .ok exampleLedger := by
    rw [Staging.register, moveProjection.stagedChanges_eq]
    rfl
  refine ⟨tracks_exampleLedger, exampleLedger, heval, fun hcovers => ?_⟩
  have hmem := (hcovers.tracks "docs/copy.json").mpr ⟨by decide, by decide⟩
  exact absurd hmem (by decide)

end ChampionRuntime.Licensing
