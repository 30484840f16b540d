import ChampionRuntime.Licensing.StagedDiff

/-!
# What registration does to the records

One round of the loop is described by the lookups before and after it. When no
path is touched twice, a whole pass gives every touched path the record its own
change makes from the ledger before the pass, and leaves the others alone.
-/
namespace ChampionRuntime.Licensing

open Lib Lib.Json
open Receipts (Bytes)

namespace Change

/-- The paths whose records a round may change. -/
def touched (c : Change) : List String :=
  if c.exempt then [] else c.removed.toList ++ c.new.toList

/-- The records without the one the change takes away. -/
def without (c : Change) (records : Records) : Records :=
  match c.removed with
  | none => records
  | some path => records.erase path

def found (c : Change) (records : Records) (path : String) : Option Record :=
  if c.code = 'R' then c.removed.bind records.find? else (c.without records).find? path

variable {c : Change} {records records' : Records} {path : String}

theorem find?_without (c : Change) (records : Records) (path : String) :
    (c.without records).find? path = if c.removed = some path then none else records.find? path := by
  unfold without
  cases c.removed with
  | none => simp
  | some p => simp [eq_comm]

theorem found_congr (h : ∀ p ∈ c.removed.toList ++ c.new.toList, records.find? p = records'.find? p)
    (hnew : c.new = some path) : c.found records path = c.found records' path := by
  unfold found
  split_ifs
  · cases hremoved : c.removed with
    | none => rfl
    | some p => exact h p (by simp [hremoved])
  · rw [find?_without, find?_without, h path (by simp [hnew])]

theorem touched_of_not_exempt (h : c.exempt = false) :
    c.touched = c.removed.toList ++ c.new.toList := by simp [touched, h]

theorem mem_touched : path ∈ c.touched ↔
    c.exempt = false ∧ (c.removed = some path ∨ c.new = some path) := by
  unfold touched
  cases c.exempt <;> simp [Option.mem_toList]

end Change

variable {sha256 : Bytes → String} {repo : Repository} {mapping : ClassificationMap}

theorem path_stamp (r : Record) (path digest : String) (declared : Classification) :
    (stamp r path digest declared).path = path := by
  unfold stamp
  split_ifs <;> rfl

theorem get_stamp (r : Record) (path digest : String) (declared : Classification) {key : String}
    (hpath : key ≠ "path") (htarget : key ≠ "target_sha256") (hmodified : key ≠ "modified_by") :
    (stamp r path digest declared).get key = r.get key := by
  unfold stamp
  split_ifs <;> simp [hpath, htarget, hmodified]

theorem target_stamp (r : Record) (path digest : String) (declared : Classification) :
    (stamp r path digest declared).get "target_sha256" = some (.str digest) := by
  unfold stamp
  split_ifs <;> simp

theorem baseRecord_some {path : String} {declared : Classification} {r base : Record}
    (h : baseRecord sha256 repo path declared (some r) = .ok base) :
    base = r ∧ r.classified declared = true := by
  simp only [baseRecord] at h
  split_ifs at h with hclass
  · exact ⟨(Except.ok.inj h).symm, hclass⟩
  · cases h

/-- A record that is registered is the base record, stamped. -/
structure Registers (sha256 : Bytes → String) (repo : Repository) (mapping : ClassificationMap)
    (path : String) (found : Option Record) (declared : Classification) (base : Record)
    (bytes : Bytes) (r : Record) : Prop where
  classified : classificationFor path mapping = some declared
  base_eq : baseRecord sha256 repo path declared found = .ok base
  bytes_eq : repo.indexBytes path = .ok bytes
  unmodified : checkUnmodified path declared (base.get "target_sha256") (sha256 bytes) = .ok ()
  result : r = stamp base path (sha256 bytes) declared

theorem registered_eq_ok {path : String} {found : Option Record} {r : Record} :
    registered sha256 repo mapping path found = .ok r ↔
      ∃ declared base bytes, Registers sha256 repo mapping path found declared base bytes r := by
  unfold registered
  constructor
  · intro h
    split at h
    · cases h
    · rename_i declared hdeclared
      obtain ⟨base, hbase, h⟩ := bind_eq_ok.mp h
      obtain ⟨bytes, hbytes, h⟩ := bind_eq_ok.mp h
      obtain ⟨_, hunmodified, h⟩ := bind_eq_ok.mp h
      exact ⟨declared, base, bytes, hdeclared, hbase, hbytes, hunmodified, (Except.ok.inj h).symm⟩
  · rintro ⟨declared, base, bytes, hdeclared, hbase, hbytes, hunmodified, rfl⟩
    simp only [hdeclared, hbase, hbytes, ok_bind, hunmodified]

theorem path_of_registered {path : String} {found : Option Record} {r : Record}
    (h : registered sha256 repo mapping path found = .ok r) : r.path = path := by
  obtain ⟨declared, base, bytes, hr⟩ := registered_eq_ok.mp h
  rw [hr.result, path_stamp]

/-- What a round does that is not skipped. -/
structure Round (sha256 : Bytes → String) (repo : Repository) (mapping : ClassificationMap)
    (records : Records) (c : Change) (records' : Records) : Prop where
  removed : ∀ path, c.removed = some path → (records.find? path).isSome = true
  gone : c.new = none → records' = c.without records
  put : ∀ path, c.new = some path → ∃ r,
    registered sha256 repo mapping path (c.found records path) = .ok r ∧
      records' = (c.without records).insert r

section Rounds

variable {records records' final : Records} {c : Change} {changes : List Change}

theorem popOld_eq_ok {prior : Option Record} (h : popOld records c = .ok (prior, records')) :
    (∀ path, c.removed = some path → (records.find? path).isSome = true) ∧
      prior = c.removed.bind records.find? ∧ records' = c.without records := by
  unfold popOld at h
  unfold Change.without
  cases hremoved : c.removed with
  | none =>
    simp only [hremoved, Except.ok.injEq, Prod.mk.injEq] at h
    exact ⟨by simp, h.1.symm, h.2.symm⟩
  | some path =>
    simp only [hremoved] at h
    split at h
    · cases h
    · rename_i r hr
      simp only [Except.ok.injEq, Prod.mk.injEq] at h
      refine ⟨?_, by simp [hr, h.1], h.2.symm⟩
      intro p hp
      rw [← Option.some.inj hp, hr]
      rfl

theorem updateChange_cases (h : updateChange sha256 repo mapping records c = .ok records') :
    (c.exempt = true ∧ records' = records) ∨
      (c.exempt = false ∧ Round sha256 repo mapping records c records') := by
  unfold updateChange at h
  cases hexempt : c.exempt with
  | true =>
    rw [hexempt, if_pos rfl, Except.ok.injEq] at h
    exact .inl ⟨rfl, h.symm⟩
  | false =>
    rw [hexempt, if_neg (by decide)] at h
    obtain ⟨⟨prior, rest⟩, hpop, h⟩ := bind_eq_ok.mp h
    obtain ⟨hremoved, rfl, rfl⟩ := popOld_eq_ok hpop
    refine .inr ⟨rfl, hremoved, ?_, ?_⟩
    · intro hnew
      simp only [hnew, Except.ok.injEq] at h
      exact h.symm
    · intro path hnew
      simp only [hnew] at h
      obtain ⟨r, hr, h⟩ := bind_eq_ok.mp h
      exact ⟨r, hr, (Except.ok.inj h).symm⟩

theorem Round.find?_new (h : Round sha256 repo mapping records c records') {path : String}
    (hnew : c.new = some path) : ∃ r,
      registered sha256 repo mapping path (c.found records path) = .ok r ∧
        records'.find? path = some r := by
  obtain ⟨r, hr, rfl⟩ := h.put path hnew
  exact ⟨r, hr, by simp [path_of_registered hr]⟩

theorem Round.find?_of_ne (h : Round sha256 repo mapping records c records') {path : String}
    (hnew : c.new ≠ some path) : records'.find? path = (c.without records).find? path := by
  cases hc : c.new with
  | none => rw [h.gone hc]
  | some p =>
    obtain ⟨r, hr, rfl⟩ := h.put p hc
    have hne : path ≠ r.path := by
      rw [path_of_registered hr]
      rintro rfl
      exact hnew hc
    rw [Keyed.find?_insert, if_neg hne]

theorem updateChange_frame (h : updateChange sha256 repo mapping records c = .ok records')
    {path : String} (hpath : path ∉ c.touched) : records'.find? path = records.find? path := by
  rcases updateChange_cases h with ⟨-, rfl⟩ | ⟨hexempt, hround⟩
  · rfl
  · rw [Change.mem_touched, not_and, not_or] at hpath
    obtain ⟨hremoved, hnew⟩ := hpath hexempt
    rw [hround.find?_of_ne hnew, Change.find?_without, if_neg hremoved]

theorem run_cons : (c :: changes).foldlM (updateChange sha256 repo mapping) records = .ok final ↔
    ∃ records', updateChange sha256 repo mapping records c = .ok records' ∧
      changes.foldlM (updateChange sha256 repo mapping) records' = .ok final := by
  rw [List.foldlM_cons, bind_eq_ok]

theorem run_frame (h : changes.foldlM (updateChange sha256 repo mapping) records = .ok final)
    {path : String} (hpath : path ∉ changes.flatMap Change.touched) :
    final.find? path = records.find? path := by
  induction changes generalizing records with
  | nil =>
    rw [← Except.ok.inj h]
  | cons c changes ih =>
    obtain ⟨records', hc, hrest⟩ := run_cons.mp h
    rw [List.flatMap_cons, List.mem_append, not_or] at hpath
    rw [ih hrest hpath.2, updateChange_frame hc hpath.1]

/-- What a pass makes of the paths of one change, if no other change touches them. -/
structure Settled (sha256 : Bytes → String) (repo : Repository) (mapping : ClassificationMap)
    (records : Records) (c : Change) (final : Records) : Prop where
  new : ∀ path, c.new = some path → ∃ r,
    registered sha256 repo mapping path (c.found records path) = .ok r ∧
      final.find? path = some r
  removed : ∀ path, c.removed = some path →
    (records.find? path).isSome = true ∧ final.find? path = none

theorem run_settled (h : changes.foldlM (updateChange sha256 repo mapping) records = .ok final)
    (hnd : (changes.flatMap Change.touched).Nodup) (hmem : c ∈ changes)
    (hexempt : c.exempt = false) : Settled sha256 repo mapping records c final := by
  induction changes generalizing records with
  | nil => cases hmem
  | cons c' changes ih =>
    obtain ⟨records', hc', hrest⟩ := run_cons.mp h
    rw [List.flatMap_cons, List.nodup_append] at hnd
    obtain ⟨hnd', hnd, hdisjoint⟩ := hnd
    by_cases heq : c = c'
    · -- the change itself: the rest of the pass touches none of its paths
      subst heq
      have hrest' : ∀ path, path ∈ c.touched → final.find? path = records'.find? path := by
        intro path hpath
        exact run_frame hrest fun hmem => hdisjoint path hpath path hmem rfl
      rcases updateChange_cases hc' with ⟨htrue, -⟩ | ⟨-, hround⟩
      · rw [hexempt] at htrue
        cases htrue
      refine ⟨?_, ?_⟩
      · intro path hnew
        obtain ⟨r, hr, hfind⟩ := hround.find?_new hnew
        exact ⟨r, hr, by rw [hrest' path (Change.mem_touched.mpr ⟨hexempt, .inr hnew⟩), hfind]⟩
      · intro path hremoved
        refine ⟨hround.removed path hremoved, ?_⟩
        have hne : c.new ≠ some path := by
          intro hnew
          rw [Change.touched_of_not_exempt hexempt, hremoved, hnew] at hnd'
          simp at hnd'
        rw [hrest' path (Change.mem_touched.mpr ⟨hexempt, .inl hremoved⟩), hround.find?_of_ne hne,
          Change.find?_without, if_pos hremoved]
    · -- a later change: the first round touches none of its paths
      have hmem' : c ∈ changes := (List.mem_cons.mp hmem).resolve_left heq
      have hsame : ∀ path, path ∈ c.touched → records'.find? path = records.find? path := by
        intro path hpath
        refine updateChange_frame hc' fun hfirst => ?_
        exact hdisjoint path hfirst path (List.mem_flatMap.mpr ⟨c, hmem', hpath⟩) rfl
      have hset := ih hrest hnd hmem'
      rw [Change.touched_of_not_exempt hexempt] at hsame
      refine ⟨?_, ?_⟩
      · intro path hnew
        rw [← Change.found_congr hsame hnew]
        exact hset.new path hnew
      · intro path hremoved
        rw [← hsame path (by simp [hremoved])]
        exact hset.removed path hremoved

end Rounds

end ChampionRuntime.Licensing
