import ChampionRuntime.Licensing.Coverage

/-!
# Registration and check agree

What the updater writes passes the check of the same changes, and updating it
again changes nothing. The invariant of a pass is that the record of every path
it has registered is in place: registering it once more gives the same record.
-/
namespace ChampionRuntime.Licensing

open Lib Lib.Json
open Receipts (Bytes)

variable {sha256 : Bytes → String} {repo : Repository} {mapping : ClassificationMap}

/-- Registering the record of a path again gives the same record. -/
def InPlace (sha256 : Bytes → String) (repo : Repository) (mapping : ClassificationMap)
    (path : String) (r : Record) : Prop :=
  registered sha256 repo mapping path (some r) = .ok r

theorem Record.ext {r s : Record} (hfields : r.fields = s.fields) (hpath : r.path = s.path) :
    r = s := by
  cases r
  cases s
  simp only at hfields hpath
  subst hfields hpath
  rfl

theorem stamp_stamp (r : Record) (path digest : String) (declared : Classification) :
    stamp (stamp r path digest declared) path digest declared = stamp r path digest declared := by
  have hpath : setField (setField r.fields "path" (.str path)) "path" (.str path) =
      setField r.fields "path" (.str path) := setField_setField_self _ _ _
  have htarget := setField_setField_self (setField r.fields "path" (.str path)) "target_sha256"
    (.str digest)
  have hpath' : setField (setField (setField r.fields "path" (.str path)) "target_sha256"
      (.str digest)) "path" (.str path) = setField (setField r.fields "path" (.str path))
        "target_sha256" (.str digest) := setField_eq_self_of_ne (by decide) hpath
  unfold stamp
  split_ifs with hmodifier
  · have hmodified := setField_setField_self (setField (setField r.fields "path" (.str path))
      "target_sha256" (.str digest)) "modified_by" (.str modifier)
    refine Record.ext ?_ rfl
    simp only [Record.setPath, Record.setText]
    rw [setField_eq_self_of_ne (by decide) hpath', setField_eq_self_of_ne (by decide) htarget,
      hmodified]
  · refine Record.ext ?_ rfl
    simp only [Record.setPath, Record.setText]
    rw [hpath', htarget]

theorem classified_of_newRecord {path : String} {c : Classification} {r : Record}
    (h : newRecord sha256 repo path c = .ok r) : r.classified c = true := by
  unfold newRecord at h
  split_ifs at h
  · cases h
  · split at h
    · cases h
    · obtain ⟨origin, -, h⟩ := bind_eq_ok.mp h
      rw [← Except.ok.inj h]
      exact Record.holds_iff.mpr rfl

theorem classified_of_baseRecord {path : String} {declared : Classification}
    {found : Option Record} {base : Record}
    (h : baseRecord sha256 repo path declared found = .ok base) :
    base.classified declared = true := by
  cases found with
  | none => exact classified_of_newRecord h
  | some r =>
    obtain ⟨rfl, hclass⟩ := baseRecord_some h
    exact hclass

theorem classified_stamp (r : Record) (path digest : String) (declared c : Classification) :
    (stamp r path digest declared).classified c = r.classified c := by
  have hget : (stamp r path digest declared).get "classification" = r.get "classification" :=
    get_stamp r path digest declared (by decide) (by decide) (by decide)
  simp only [Record.classified, Record.holds, hget]

theorem checkUnmodified_self (path : String) (declared : Classification) (digest : String) :
    checkUnmodified path declared (some (.str digest)) digest = .ok () := by
  unfold checkUnmodified
  split_ifs <;> simp

theorem inPlace_of_registered {path : String} {found : Option Record} {r : Record}
    (h : registered sha256 repo mapping path found = .ok r) :
    InPlace sha256 repo mapping path r := by
  obtain ⟨declared, base, bytes, hr⟩ := registered_eq_ok.mp h
  have hclass := classified_of_baseRecord hr.base_eq
  have hresult := hr.result
  refine registered_eq_ok.mpr ⟨declared, r, bytes, hr.classified, ?_, hr.bytes_eq, ?_, ?_⟩
  · simp only [baseRecord]
    rw [if_pos (by rw [hresult, classified_stamp, hclass])]
  · rw [hresult, target_stamp, checkUnmodified_self]
  · rw [hresult, stamp_stamp]

theorem InPlace.checks {path : String} {r : Record} (h : InPlace sha256 repo mapping path r) :
    ∃ declared bytes, classificationFor path mapping = some declared ∧
      r.classified declared = true ∧ repo.indexBytes path = .ok bytes ∧
        r.holds "target_sha256" (sha256 bytes) = true := by
  obtain ⟨declared, base, bytes, hr⟩ := registered_eq_ok.mp h
  obtain ⟨rfl, hclass⟩ := baseRecord_some hr.base_eq
  refine ⟨declared, bytes, hr.classified, hclass, hr.bytes_eq, Record.holds_iff.mpr ?_⟩
  rw [hr.result, target_stamp]

theorem InPlace.path_eq {path : String} {r : Record} (h : InPlace sha256 repo mapping path r) :
    r.path = path := path_of_registered h

/-- The record of the path is there and in place. -/
def Present (sha256 : Bytes → String) (repo : Repository) (mapping : ClassificationMap)
    (records : Records) (path : String) : Prop :=
  ∃ r, records.find? path = some r ∧ InPlace sha256 repo mapping path r

section Pass

variable {records records' final : Records} {c : Change} {changes : List Change} {path : String}

theorem updateChange_present (h : updateChange sha256 repo mapping records c = .ok records')
    (hkeep : c.exempt = false → c.removed ≠ some path)
    (hpresent : Present sha256 repo mapping records path) :
    Present sha256 repo mapping records' path := by
  rcases updateChange_cases h with ⟨-, rfl⟩ | ⟨hexempt, hround⟩
  · exact hpresent
  · by_cases hnew : c.new = some path
    · obtain ⟨r, hr, hfound⟩ := hround.find?_new hnew
      exact ⟨r, hfound, inPlace_of_registered hr⟩
    · rw [Present, hround.find?_of_ne hnew, Change.find?_without, if_neg (hkeep hexempt)]
      exact hpresent

theorem updateChange_absent (h : updateChange sha256 repo mapping records c = .ok records')
    (hkeep : c.exempt = false → c.new ≠ some path) (habsent : records.find? path = none) :
    records'.find? path = none := by
  rcases updateChange_cases h with ⟨-, rfl⟩ | ⟨hexempt, hround⟩
  · exact habsent
  · rw [hround.find?_of_ne (hkeep hexempt), Change.find?_without, habsent, ite_self]

theorem run_present (h : changes.foldlM (updateChange sha256 repo mapping) records = .ok final)
    (hkeep : ∀ c ∈ changes, c.exempt = false → c.removed ≠ some path)
    (hpath : Present sha256 repo mapping records path ∨
      ∃ c ∈ changes, c.exempt = false ∧ c.new = some path) :
    Present sha256 repo mapping final path := by
  induction changes generalizing records with
  | nil =>
    rw [← Except.ok.inj h]
    exact hpath.resolve_right (by simp)
  | cons c changes ih =>
    obtain ⟨records', hc, hrest⟩ := run_cons.mp h
    obtain ⟨hkeepc, hkeep⟩ := List.forall_mem_cons.mp hkeep
    refine ih hrest hkeep ?_
    rcases hpath with hpresent | ⟨c', hmem, hexempt, hnew⟩
    · exact .inl (updateChange_present hc hkeepc hpresent)
    · rcases List.mem_cons.mp hmem with rfl | hmem
      · rcases updateChange_cases hc with ⟨htrue, -⟩ | ⟨-, hround⟩
        · rw [hexempt] at htrue
          cases htrue
        · obtain ⟨r, hr, hfound⟩ := hround.find?_new hnew
          exact .inl ⟨r, hfound, inPlace_of_registered hr⟩
      · exact .inr ⟨c', hmem, hexempt, hnew⟩

theorem run_absent (h : changes.foldlM (updateChange sha256 repo mapping) records = .ok final)
    (hkeep : ∀ c ∈ changes, c.exempt = false → c.new ≠ some path)
    (hpath : records.find? path = none ∨
      ∃ c ∈ changes, c.exempt = false ∧ c.removed = some path) :
    final.find? path = none := by
  induction changes generalizing records with
  | nil =>
    rw [← Except.ok.inj h]
    exact hpath.resolve_right (by simp)
  | cons c changes ih =>
    obtain ⟨records', hc, hrest⟩ := run_cons.mp h
    obtain ⟨hkeepc, hkeep⟩ := List.forall_mem_cons.mp hkeep
    refine ih hrest hkeep ?_
    rcases hpath with habsent | ⟨c', hmem, hexempt, hremoved⟩
    · exact .inl (updateChange_absent hc hkeepc habsent)
    · rcases List.mem_cons.mp hmem with rfl | hmem
      · rcases updateChange_cases hc with ⟨htrue, -⟩ | ⟨-, hround⟩
        · rw [hexempt] at htrue
          cases htrue
        · refine .inl ?_
          rw [hround.find?_of_ne (hkeepc hexempt), Change.find?_without, if_pos hremoved]
      · exact .inr ⟨c', hmem, hexempt, hremoved⟩

/-- No path is taken away by one change and registered by another. -/
def Separate (changes : List Change) : Prop :=
  ∀ c ∈ changes, c.exempt = false → ∀ c' ∈ changes, c'.exempt = false →
    ∀ path, c.removed = some path → c'.new ≠ some path

def Change.named (c : Change) : List String := c.old.toList ++ c.new.toList

theorem Change.old_of_removed (h : c.removed = some path) : c.old = some path := by
  unfold removed at h
  split_ifs at h
  exact h

theorem Change.touched_sublist (c : Change) : c.touched.Sublist c.named := by
  unfold touched named removed
  split_ifs
  · exact List.nil_sublist _
  · exact List.Sublist.refl _
  · simp

theorem separate_of_nodup (hnd : (changes.flatMap Change.named).Nodup) : Separate changes := by
  intro c hc _ c' hc' _ path hremoved hnew
  have hold := Change.old_of_removed hremoved
  have hmem : path ∈ c.named := by simp [Change.named, hold]
  have hmem' : path ∈ c'.named := by simp [Change.named, hnew]
  obtain rfl := exists_unique_of_nodup_flatMap hnd hc hc' hmem hmem'
  have hnodup := (List.nodup_flatMap.mp hnd).1 c hc
  simp [Change.named, hold, hnew] at hnodup

/-- The changes of a pass keep apart if the staged ones name distinct paths: an
empty ledger has nothing to take away. -/
theorem separate_of_bootstrap {ledger : List Record} {extended : List Change}
    (hnd : (changes.flatMap Change.named).Nodup)
    (hextended : bootstrap repo ledger changes = .ok extended)
    (h : extended.foldlM (updateChange sha256 repo mapping) (Keyed.ofList ledger) = .ok final) :
    Separate extended := by
  unfold bootstrap at hextended
  split_ifs at hextended with hempty
  · obtain ⟨added, -, hextended⟩ := bind_eq_ok.mp hextended
    obtain rfl := Except.ok.inj hextended
    rw [List.isEmpty_iff] at hempty
    subst hempty
    rw [List.foldlM_append, bind_eq_ok] at h
    obtain ⟨staged, hstaged, -⟩ := h
    have htouched : (changes.flatMap Change.touched).Nodup :=
      hnd.sublist (sublist_flatMap fun c _ => c.touched_sublist)
    intro c hc hexempt c' _ _ path hremoved
    rcases List.mem_append.mp hc with hc | hc
    · have hsome := ((run_settled hstaged htouched hc hexempt).removed path hremoved).1
      simp [Keyed.ofList] at hsome
    · obtain ⟨p, -, rfl⟩ := List.mem_map.mp hc
      simp [addition, Change.removed] at hremoved
  · obtain rfl := Except.ok.inj hextended
    exact separate_of_nodup hnd

theorem checkChange_of_run
    (h : changes.foldlM (updateChange sha256 repo mapping) records = .ok final)
    (hsep : Separate changes) (hc : c ∈ changes) (hrecords : ∀ path, records'.find? path =
      final.find? path) : checkChange sha256 repo mapping records' c = .ok [] := by
  unfold checkChange
  split_ifs with hexempt
  · rfl
  rw [Bool.not_eq_true] at hexempt
  have hremoved : checkRemoved records' c = [] := by
    unfold checkRemoved
    split
    · rfl
    · rename_i path hpath
      have hnone := run_absent h (fun c' hc' hexempt' => hsep c hc hexempt c' hc' hexempt' path hpath)
        (.inr ⟨c, hc, hexempt, hpath⟩)
      rw [hrecords, hnone]
      rfl
  cases hnew : c.new with
  | none => rw [hremoved]
  | some path =>
    have hkeep : ∀ c' ∈ changes, c'.exempt = false → c'.removed ≠ some path :=
      fun c' hc' hexempt' hpath => hsep c' hc' hexempt' c hc hexempt path hpath hnew
    obtain ⟨r, hfound, hplace⟩ := run_present h hkeep (.inr ⟨c, hc, hexempt, hnew⟩)
    obtain ⟨declared, bytes, hdeclared, hclass, hbytes, htarget⟩ := hplace.checks
    simp only [checkNew, hrecords, hfound, hdeclared, hclass, hbytes, htarget, ok_bind, if_true,
      hremoved, List.append_nil]

end Pass

section Again

variable {records records' final : Records} {c : Change} {changes again : List Change}
  {ledger updated : List Record} {path : String}

theorem verifyCheck_of_run
    (h : changes.foldlM (updateChange sha256 repo mapping) records = .ok final)
    (hsep : Separate changes) (hagain : ∀ c ∈ again, c ∈ changes) :
    verifyCheck sha256 repo (normalizedPayload final.items) again mapping
      (some (jsonBytes (projectionFor (normalizedPayload final.items)))) = .ok () := by
  have hchecks : again.mapM (checkChange sha256 repo mapping
      (Keyed.ofList (normalizedPayload final.items))) = .ok (again.map fun _ => []) :=
    mapM_eq_ok_map fun c hc => checkChange_of_run h hsep (hagain c hc)
      (recordAt_normalizedPayload final)
  have hflat : (again.map fun _ => ([] : List CheckError)).flatten = [] := by
    rw [List.flatten_eq_nil_iff]
    simp
  rw [verifyCheck, hchecks, ok_bind, hflat, checkProjection, if_pos rfl, List.append_nil]

/-- The change without a path to take away; a deletion is dropped. -/
def Change.restaged (c : Change) : Option Change :=
  c.new.map fun path => if c.code = 'D' ∨ c.code = 'R' then addition path else c

/-- A ledger file is renamed to another path. -/
def Change.leavesLedger (c : Change) : Bool :=
  (c.code == 'D' || c.code == 'R') && c.old.any selfExemptPaths.contains &&
    c.new.any fun path => !selfExemptPaths.contains path

theorem Change.restaged_spec {c' : Change} (h : c.restaged = some c') :
    c'.removed = none ∧ c'.code ≠ 'R' ∧ c'.new = c.new := by
  obtain ⟨path, hnew, rfl⟩ := Option.map_eq_some_iff.mp h
  split_ifs with hcode
  · exact ⟨rfl, by simp [addition], hnew.symm⟩
  · rw [not_or] at hcode
    exact ⟨by simp [removed, hcode], hcode.2, rfl⟩

theorem Change.exempt_restaged {c' : Change} (h : c.restaged = some c')
    (hleaves : c.leavesLedger = false) (hexempt : c'.exempt = false) : c.exempt = false := by
  obtain ⟨path, hnew, rfl⟩ := Option.map_eq_some_iff.mp h
  split_ifs at hexempt with hcode
  · have hcode' : (c.code == 'D' || c.code == 'R') = true := by simpa using hcode
    have hpath : selfExemptPaths.contains path = false := by
      simpa [addition, exempt] using hexempt
    simp only [leavesLedger, hcode', hnew, Option.any_some, hpath, Bool.not_false, Bool.and_true,
      Bool.true_and] at hleaves
    rw [exempt, hleaves, hnew, Option.any_some, hpath, Bool.or_false]
  · exact hexempt

theorem run_inPlace (hrecords : ∀ path, records.find? path = final.find? path)
    (hagain : ∀ c ∈ again, c.exempt = false → c.removed = none ∧ c.code ≠ 'R' ∧
      ∃ path, c.new = some path ∧ Present sha256 repo mapping final path) :
    ∃ final', again.foldlM (updateChange sha256 repo mapping) records = .ok final' ∧
      ∀ path, final'.find? path = final.find? path := by
  induction again generalizing records with
  | nil => exact ⟨records, rfl, hrecords⟩
  | cons c again ih =>
    obtain ⟨hc, hagain⟩ := List.forall_mem_cons.mp hagain
    cases hexempt : c.exempt with
    | true =>
      have hskip : updateChange sha256 repo mapping records c = .ok records := by
        rw [updateChange, hexempt, if_pos rfl]
      obtain ⟨final', hrun, hfinal⟩ := ih hrecords hagain
      exact ⟨final', run_cons.mpr ⟨records, hskip, hrun⟩, hfinal⟩
    | false =>
      obtain ⟨hremoved, hcode, path, hnew, r, hfound, hplace⟩ := hc hexempt
      have hround : updateChange sha256 repo mapping records c = .ok (records.insert r) := by
        rw [updateChange, hexempt, if_neg (by decide), popOld, hremoved]
        simp only [ok_bind, hnew, if_neg hcode, hrecords, hfound]
        rw [hplace, ok_bind]
      have hinsert : ∀ p, (records.insert r).find? p = final.find? p := by
        intro p
        rw [Keyed.find?_insert, hplace.path_eq]
        split_ifs with hp
        · rw [hp, hfound]
        · exact hrecords p
      obtain ⟨final', hrun, hfinal⟩ := ih hinsert hagain
      exact ⟨final', run_cons.mpr ⟨_, hround, hrun⟩, hfinal⟩

/-- Nothing is added to a ledger that has a record, nor where nothing is left
to add. -/
theorem bootstrap_eq_self (h : ledger ≠ [] ∨ unstagedPaths repo changes = []) :
    bootstrap repo ledger changes = .ok changes := by
  unfold bootstrap
  split_ifs with hempty
  · rw [List.isEmpty_iff] at hempty
    rw [h.resolve_left (not_not_intro hempty)]
    simp [pure, Except.pure, bind, Except.bind]
  · rfl

theorem updateLedger_again
    (h : changes.foldlM (updateChange sha256 repo mapping) records = .ok final)
    (hsep : Separate changes) (hagain : ∀ c ∈ again, c ∈ changes)
    (hleaves : ∀ c ∈ again, c.leavesLedger = false)
    (hempty : normalizedPayload final.items ≠ [] ∨
      unstagedPaths repo (again.filterMap Change.restaged) = []) :
    updateLedger sha256 repo (normalizedPayload final.items) (again.filterMap Change.restaged)
      mapping = .ok (normalizedPayload final.items) := by
  have hplace : ∀ c' ∈ again.filterMap Change.restaged, c'.exempt = false →
      c'.removed = none ∧ c'.code ≠ 'R' ∧
        ∃ path, c'.new = some path ∧ Present sha256 repo mapping final path := by
    intro c' hc' hexempt'
    obtain ⟨c, hc, hrestaged⟩ := List.mem_filterMap.mp hc'
    obtain ⟨hremoved, hcode, hsame⟩ := Change.restaged_spec hrestaged
    have hexempt := Change.exempt_restaged hrestaged (hleaves c hc) hexempt'
    obtain ⟨path, hnew, -⟩ := Option.map_eq_some_iff.mp hrestaged
    refine ⟨hremoved, hcode, path, hsame.trans hnew, ?_⟩
    refine run_present h (fun d hd hexempt' hpath => ?_) (.inr ⟨c, hagain c hc, hexempt, hnew⟩)
    exact hsep d hd hexempt' c (hagain c hc) hexempt path hpath hnew
  obtain ⟨final', hrun, hfinal⟩ := run_inPlace (recordAt_normalizedPayload final) hplace
  rw [updateLedger, bootstrap_eq_self hempty, ok_bind, hrun, ok_bind]
  exact congrArg Except.ok (Keyed.sortItems_congr hfinal)

end Again

/-- The records at the paths of a change, before and after, are evidence. -/
def TouchesEvidence (touched : List String) (before after : String → Option Record) : Prop :=
  ∀ path ∈ touched, ∀ r, before path = some r ∨ after path = some r →
    r.classified .generatedEvidence = true

section Projection

variable {records records' : Records}

theorem projectionFor_normalizedPayload (records : Records) :
    projectionFor (normalizedPayload records.items) =
      Keyed.sortItems Record.path (records.filter subjectIncluded).items := by
  refine Keyed.sortItems_eq_of_perm ((Keyed.perm_sortItems _).filter _) ?_
  exact records.nodup_sortItems.sublist (List.filter_sublist.map _)

theorem projectionFor_congr
    (h : ∀ path, (records.find? path).filter subjectIncluded =
      (records'.find? path).filter subjectIncluded) :
    projectionFor (normalizedPayload records.items) =
      projectionFor (normalizedPayload records'.items) := by
  rw [projectionFor_normalizedPayload, projectionFor_normalizedPayload]
  refine Keyed.sortItems_congr fun path => ?_
  rw [Keyed.find?_filter, Keyed.find?_filter, h]

theorem projectionFor_of_evidence {touched : List String}
    (hframe : ∀ path, path ∉ touched → records'.find? path = records.find? path)
    (hevidence : TouchesEvidence touched records.find? records'.find?) :
    projectionFor (normalizedPayload records'.items) =
      projectionFor (normalizedPayload records.items) := by
  have hfilter : ∀ r : Option Record, (∀ s, r = some s → s.classified .generatedEvidence = true) →
      r.filter subjectIncluded = none := by
    intro r hr
    rw [Option.filter_eq_none_iff]
    intro s hs
    simp [subjectIncluded, hr s hs]
  refine projectionFor_congr fun path => ?_
  by_cases hpath : path ∈ touched
  · rw [hfilter _ fun s hs => hevidence path hpath s (.inr hs),
      hfilter _ fun s hs => hevidence path hpath s (.inl hs)]
  · rw [hframe path hpath]

theorem projectionFor_ofList {ledger : List Record} (hnd : (ledger.map Record.path).Nodup) :
    projectionFor (normalizedPayload (Keyed.ofList ledger : Records).items) =
      projectionFor ledger := by
  rw [Keyed.ofList_items hnd]
  refine Keyed.sortItems_eq_of_perm ((Keyed.perm_sortItems _).filter _) ?_
  exact (((Keyed.perm_sortItems ledger).map _).nodup_iff.mpr hnd).sublist
    (List.filter_sublist.map _)

end Projection

/-- The updater's result passes the check of the same changes; unless a ledger
file is renamed to another path, or an emptied ledger is filled again, updating
it once more gives the same ledger; and changes of evidence alone, in a round or
in a whole pass, leave the projection as it is. -/
theorem register_check_agree (sha256 : Bytes → String) (repo : Repository)
    (mapping : ClassificationMap) (ledger updated : List Record) (changes : List Change)
    (hunique : (ledger.map Record.path).Nodup)
    (hdistinct : (changes.flatMap Change.named).Nodup)
    (h : updateLedger sha256 repo ledger changes mapping = .ok updated) :
    verifyCheck sha256 repo updated changes mapping
        (some (jsonBytes (projectionFor updated))) = .ok () ∧
      ((∀ c ∈ changes, c.leavesLedger = false) →
        (updated ≠ [] ∨ unstagedPaths repo (changes.filterMap Change.restaged) = []) →
          updateLedger sha256 repo updated (changes.filterMap Change.restaged) mapping =
            .ok updated) ∧
      (∀ extended, bootstrap repo ledger changes = .ok extended →
        TouchesEvidence (extended.flatMap Change.touched) (recordAt ledger) (recordAt updated) →
          jsonBytes (projectionFor updated) = jsonBytes (projectionFor ledger)) ∧
      ∀ (records records' : Records) (c : Change),
        updateChange sha256 repo mapping records c = .ok records' →
          TouchesEvidence c.touched records.find? records'.find? →
            jsonBytes (projectionFor (normalizedPayload records'.items)) =
              jsonBytes (projectionFor (normalizedPayload records.items)) := by
  obtain ⟨extended, hextended, final, hfinal, rfl⟩ := updateLedger_eq_ok h
  have hsep := separate_of_bootstrap hdistinct hextended hfinal
  have hstaged : ∀ c ∈ changes, c ∈ extended := by
    intro c hc
    unfold bootstrap at hextended
    split_ifs at hextended
    · obtain ⟨added, -, heq⟩ := bind_eq_ok.mp hextended
      rw [← Except.ok.inj heq]
      exact List.mem_append_left _ hc
    · exact Except.ok.inj hextended ▸ hc
  refine ⟨verifyCheck_of_run hfinal hsep hstaged, ?_, ?_, ?_⟩
  · intro hleaves hempty
    exact updateLedger_again hfinal hsep hstaged hleaves hempty
  · intro extended' hextended' hevidence
    obtain rfl : extended = extended' := Except.ok.inj (hextended.symm.trans hextended')
    rw [← projectionFor_ofList hunique]
    refine congrArg jsonBytes (projectionFor_of_evidence (fun path => run_frame hfinal) ?_)
    intro path hpath r hr
    refine hevidence path hpath r (hr.imp id fun hafter => ?_)
    rw [recordAt_normalizedPayload, hafter]
  · intro records records' c hc hevidence
    exact congrArg jsonBytes (projectionFor_of_evidence (fun path => updateChange_frame hc) hevidence)

theorem moveSource_agrees : ∃ updated, updateLedger exampleDigest moveSource.repo exampleLedger
    moveSource.changes [("src", .upstreamDerivative)] = .ok updated ∧
      verifyCheck exampleDigest moveSource.repo updated moveSource.changes
        [("src", .upstreamDerivative)] (some (jsonBytes (projectionFor updated))) = .ok () := by
  obtain ⟨updated, h⟩ := moveSource_registers
  rw [Staging.register, moveSource.stagedChanges_eq, ok_bind] at h
  exact ⟨updated, h, (register_check_agree exampleDigest moveSource.repo _ exampleLedger updated
    moveSource.changes (by decide) (by decide) h).1⟩

/-- A tree with a file the example ledger has no record of. -/
def readmeTree : Tree where
  entries := [("docs/readme.md", ⟨"100644", "4"⟩)]
  nodup := by decide
  paths_ok := by decide

/-- The only record is deleted; updating the empty ledger again, without the
deletion, adds the other tracked file. -/
theorem emptied_ledger_filled : (exampleLedger.map Record.path).Nodup ∧
    (([⟨'D', some "src/old.py", none⟩] : List Change).flatMap Change.named).Nodup ∧
      updateLedger exampleDigest (exampleRepository readmeTree []) exampleLedger
        [⟨'D', some "src/old.py", none⟩] [("docs", .projectApache)] = .ok [] ∧
      updateLedger exampleDigest (exampleRepository readmeTree []) []
        (([⟨'D', some "src/old.py", none⟩] : List Change).filterMap Change.restaged)
          [("docs", .projectApache)] ≠ .ok [] := by
  refine ⟨by decide, by decide, rfl, fun h => ?_⟩
  have hpaths := congrArg (fun result => result.toOption.map (List.map Record.path)) h
  revert hpaths
  decide

end ChampionRuntime.Licensing
