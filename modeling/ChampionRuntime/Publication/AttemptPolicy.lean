import ChampionRuntime.Benchmark.Battery
import ChampionRuntime.Publication.IdentityChain

/-!
# The attempt policy of the gate against the battery evaluator

The gate checks the attempt numbers as a set: at most five, distinct, between
one and five. The evaluator checks them as a sequence: numbered from one
without a gap in the order of their creation. The two agree on the receipts of
an accepted benchmark exactly when that sequence is what the set came from.
-/
namespace ChampionRuntime.Publication

open Lib Lib.Json Benchmark

/-- The record of the attempt a battery receipt attests. -/
structure Corresponds (item : VerifiedReceipt) (record : AttemptRecord) : Prop where
  createdAt : record.createdAt = some item.receipt.createdAt
  attempt : item.receipt.metadata.attempt = record.attempt.map .int
  valid : record.valid = item.receipt.metadata.valid
  profile : record.profile = item.receipt.metadata.profile
  subject : record.subject = some item.receipt.subject

/-- The records correspond to the receipts one by one, in any order. -/
def CorrespondingRecords (attempts : Pool) (records : List AttemptRecord) : Prop :=
  ∃ listed, listed.Perm records ∧ List.Forall₂ Corresponds attempts listed

/-- The evaluator completes the set, so that it refuses it neither as incomplete
nor as out of order, it selects the valid receipts of the gate, and no attempt
number is missing. -/
structure PoliciesAgree (attempts : Pool) (result : Except BatteryError Evaluation) : Prop where
  selected : ∃ profile subject baselines numbers raw medians,
    result = .ok (.complete profile subject baselines numbers raw medians) ∧
      numbers.Perm ((attempts.filter isValidAttempt).map fun item => some (attemptOf item))
  noGap : (attempts.map attemptOf).Perm (oneTo attempts.length)

/-- The attempts are numbered without a gap and in the order of their creation. -/
def NumberedInOrder (attempts : Pool) : Prop :=
  (∀ item ∈ attempts, attemptOf item ≤ attempts.length) ∧
    ∀ a ∈ attempts, ∀ b ∈ attempts, attemptOf a < attemptOf b →
      a.receipt.createdAt ≤ b.receipt.createdAt

/-- The receipts name one subject, also in the identities the gate does not compare. -/
def OneSubject (attempts : Pool) : Prop :=
  ∀ a ∈ attempts, ∀ b ∈ attempts, a.receipt.subject = b.receipt.subject

theorem Corresponds.time {item : VerifiedReceipt} {record : AttemptRecord}
    (h : Corresponds item record) : recordTime record = item.receipt.createdAt := by
  simp [recordTime, h.createdAt]

section Records

variable {attempts : Pool} {listed records : List AttemptRecord}

theorem Corresponds.number (ha : AttemptsAccepted attempts) {item : VerifiedReceipt}
    (hi : item ∈ attempts) {record : AttemptRecord} (h : Corresponds item record) :
    record.attempt = some (attemptOf item) := by
  have hspec := (ha.attemptOf_spec hi).1
  rw [h.attempt, Option.map_eq_some_iff] at hspec
  obtain ⟨n, hn, heq⟩ := hspec
  rw [hn, Number.int.inj heq]

theorem forall₂_exists {α β : Type*} {R : α → β → Prop} {xs : List α} {ys : List β}
    (h : List.Forall₂ R xs ys) :
    (∀ x ∈ xs, ∃ y ∈ ys, R x y) ∧ ∀ y ∈ ys, ∃ x ∈ xs, R x y := by
  induction h with
  | nil => simp
  | @cons x y xs ys hxy _ ih =>
    constructor
    · intro x' hx
      rcases List.mem_cons.mp hx with rfl | hx
      · exact ⟨y, by simp, hxy⟩
      · obtain ⟨y', hy', hr⟩ := ih.1 x' hx
        exact ⟨y', by simp [hy'], hr⟩
    · intro y' hy
      rcases List.mem_cons.mp hy with rfl | hy
      · exact ⟨x, by simp, hxy⟩
      · obtain ⟨x', hx', hr⟩ := ih.2 y' hy
        exact ⟨x', by simp [hx'], hr⟩

theorem forall₂_numbers (ha : AttemptsAccepted attempts) {chosen : Pool} (hsub : chosen ⊆ attempts)
    (h : List.Forall₂ Corresponds chosen listed) :
    listed.map (·.attempt) = chosen.map fun item => some (attemptOf item) := by
  induction h with
  | nil => rfl
  | @cons item record items listed hc _ ih =>
    obtain ⟨hi, hsub⟩ := List.cons_subset.mp hsub
    simp only [List.map_cons, hc.number ha hi, ih hsub]

theorem forall₂_valid (h : List.Forall₂ Corresponds attempts listed) :
    List.Forall₂ Corresponds (attempts.filter isValidAttempt) (listed.filter isValid) := by
  refine List.rel_filter (fun item record hc => ?_) h
  simp [isValidAttempt, isValid, hc.valid]

section

variable {first : AttemptRecord} (hperm : listed.Perm records)
  (hlisted : List.Forall₂ Corresponds attempts listed) (hfirst : first ∈ records)
include hperm hlisted hfirst

/-- The records have the subject of the first of them exactly when the receipts
share one. -/
theorem oneSubject_iff :
    (∀ record ∈ records, record.subject = first.subject) ↔ OneSubject attempts := by
  obtain ⟨hleft, hright⟩ := forall₂_exists hlisted
  constructor
  · intro h a hia b hib
    obtain ⟨ra, hra, hca⟩ := hleft a hia
    obtain ⟨rb, hrb, hcb⟩ := hleft b hib
    apply Option.some_injective
    rw [← hca.subject, ← hcb.subject, h ra (hperm.mem_iff.mp hra), h rb (hperm.mem_iff.mp hrb)]
  · intro h record hr
    obtain ⟨a, hia, hca⟩ := hright record (hperm.mem_iff.mpr hr)
    obtain ⟨b, hib, hcb⟩ := hright first (hperm.mem_iff.mpr hfirst)
    rw [hca.subject, hcb.subject, h a hia b hib]

theorem sameProfile {profile : String}
    (h : ∀ item ∈ attempts, item.receipt.metadata.profile = some profile) :
    ∀ record ∈ records, record.profile = first.profile := by
  obtain ⟨-, hright⟩ := forall₂_exists hlisted
  intro record hr
  obtain ⟨a, hia, hca⟩ := hright record (hperm.mem_iff.mpr hr)
  obtain ⟨b, hib, hcb⟩ := hright first (hperm.mem_iff.mpr hfirst)
  rw [hca.profile, hcb.profile, h a hia, h b hib]

end

variable (ha : AttemptsAccepted attempts) (hperm : listed.Perm records)
  (hlisted : List.Forall₂ Corresponds attempts listed)
include ha hperm hlisted

theorem numbers_chronological :
    ((chronological records).map (·.attempt)).Perm
      (attempts.map fun item => some (attemptOf item)) := by
  rw [← forall₂_numbers ha (List.Subset.refl _) hlisted]
  exact ((perm_chronological records).trans hperm.symm).map _

theorem valid_chronological :
    ((chronological records).filter isValid).length = 3 ∧
      (((chronological records).filter isValid).map (·.attempt)).Perm
        ((attempts.filter isValidAttempt).map fun item => some (attemptOf item)) := by
  have hp := ((perm_chronological records).trans hperm.symm).filter isValid
  have hv := forall₂_valid hlisted
  refine ⟨?_, ?_⟩
  · rw [hp.length_eq, ← hv.length_eq, ha.threeValid]
  · rw [← forall₂_numbers ha (List.filter_subset_self _) hv]
    exact hp.map _

theorem recordNumber_chronological :
    ((chronological records).map recordNumber).Perm (attempts.map attemptOf) := by
  have h := (numbers_chronological ha hperm hlisted).map fun n => n.getD 0
  rw [List.map_map, List.map_map] at h
  exact h

theorem length_chronological : (chronological records).length = attempts.length := by
  simpa using (recordNumber_chronological ha hperm hlisted).length_eq

theorem numbering_iff :
    (chronological records).map (·.attempt) = (oneTo records.length).map some ↔
      NumberedInOrder attempts := by
  have hlen := length_chronological ha hperm hlisted
  have hmem : ∀ record, record ∈ chronological records ↔ record ∈ listed := fun record =>
    ((perm_chronological records).trans hperm.symm).mem_iff
  obtain ⟨hleft, hright⟩ := forall₂_exists hlisted
  have hsome : ∀ record ∈ chronological records, record.attempt = some (recordNumber record) := by
    intro record hr
    obtain ⟨item, hi, hc⟩ := hright record ((hmem record).mp hr)
    simp [recordNumber, hc.number ha hi]
  have hmap : (chronological records).map (·.attempt) =
      ((chronological records).map recordNumber).map some := by
    rw [List.map_map]
    exact List.map_congr_left hsome
  have hnumber : ∀ {item record}, item ∈ attempts → Corresponds item record →
      recordNumber record = attemptOf item := by
    intro item record hi hc
    simp [recordNumber, hc.number ha hi]
  rw [hmap, (List.map_injective_iff.mpr (Option.some_injective ℤ)).eq_iff,
    ← (perm_chronological records).length_eq]
  rw [numbered_iff (pairwise_chronological records)]
  · constructor
    · rintro ⟨hle, htime⟩
      refine ⟨fun item hi => ?_, fun a hia b hib hab => ?_⟩
      · obtain ⟨record, hr, hc⟩ := hleft item hi
        rw [← hnumber hi hc, ← hlen]
        exact hle record ((hmem record).mpr hr)
      · obtain ⟨ra, hra, hca⟩ := hleft a hia
        obtain ⟨rb, hrb, hcb⟩ := hleft b hib
        rw [← hca.time, ← hcb.time]
        refine htime ra ((hmem ra).mpr hra) rb ((hmem rb).mpr hrb) ?_
        rwa [hnumber hia hca, hnumber hib hcb]
    · rintro ⟨hle, htime⟩
      refine ⟨fun record hr => ?_, fun ra hra rb hrb hab => ?_⟩
      · obtain ⟨item, hi, hc⟩ := hright record ((hmem record).mp hr)
        rw [hnumber hi hc, hlen]
        exact hle item hi
      · obtain ⟨a, hia, hca⟩ := hright ra ((hmem ra).mp hra)
        obtain ⟨b, hib, hcb⟩ := hright rb ((hmem rb).mp hrb)
        rw [hca.time, hcb.time]
        refine htime a hia b hib ?_
        rwa [← hnumber hia hca, ← hnumber hib hcb]
  · intro record hr
    obtain ⟨item, hi, hc⟩ := hright record ((hmem record).mp hr)
    rw [hnumber hi hc]
    exact (ha.attemptOf_spec hi).2.1
  · exact (recordNumber_chronological ha hperm hlisted).nodup_iff.mpr ha.nodup_attemptOf

end Records

/-- The gate and the evaluator agree on the attempts of an accepted benchmark
exactly when these are numbered from one without a gap in the order of their
creation, name one subject, and their records pass what the evaluator asks of
the records alone. -/
theorem gate_evaluator_agree_iff {pool : Pool} {profile : String} {subject : Subject}
    {cited : List String} (h : deriveBenchmark pool profile = .ok (subject, cited))
    {records : List AttemptRecord}
    (hrecords : CorrespondingRecords (profileAttempts pool profile) records)
    {baselines : Baselines} (hmax : baselines.maxAttempts = 5)
    (hrequired : baselines.requiredValidBatteries = 3) (hash : String) :
    PoliciesAgree (profileAttempts pool profile) (evaluateAttempts records baselines hash) ↔
      NumberedInOrder (profileAttempts pool profile) ∧
        OneSubject (profileAttempts pool profile) ∧ RecordsPass records baselines hash := by
  obtain ⟨_, -, -, ha, -⟩ := deriveBenchmark_eq_ok.mp h
  obtain ⟨listed, hperm, hlisted⟩ := hrecords
  have hlen : records.length = (profileAttempts pool profile).length := by
    rw [← hperm.length_eq, hlisted.length_eq]
  have hthree : 3 ≤ (profileAttempts pool profile).length :=
    ha.threeValid ▸ List.length_filter_le _ _
  have hfive := ha.atMostFive
  obtain ⟨first, hfirst, heval⟩ := evaluateAttempts_eq
    (List.length_pos_iff.mp (show 0 < records.length by omega)) baselines (by omega) hash
  have hnumbering := numbering_iff ha hperm hlisted
  obtain ⟨hvalid, hselected⟩ := valid_chronological ha hperm hlisted
  have hok := evaluateOrdered_ok_iff hfirst (hvalid.trans hrequired.symm) hash
  have hone := oneSubject_iff hperm hlisted hfirst
  have hprofile := sameProfile hperm hlisted hfirst fun item hi => (mem_profileAttempts.mp hi).2.2
  constructor
  · rintro ⟨⟨_, _, _, _, _, _, hcomplete, -⟩, -⟩
    have hordered : NumberedInOrder (profileAttempts pool profile) := by
      by_contra hno
      rw [hcomplete, if_neg (mt hnumbering.mp hno)] at heval
      cases heval
    rw [hcomplete, if_pos (hnumbering.mpr hordered)] at heval
    obtain ⟨hsubject, -, hpass⟩ := hok.mp ⟨_, heval.symm⟩
    exact ⟨hordered, hone.mp hsubject, hpass⟩
  · rintro ⟨hordered, hsubject, hpass⟩
    rw [if_pos (hnumbering.mpr hordered)] at heval
    obtain ⟨evaluation, hevaluation⟩ := hok.mpr
      ⟨hone.mpr hsubject, hprofile, hpass⟩
    obtain ⟨name, s, b, raw, medians, rfl⟩ :=
      evaluateOrdered_of_enough (hvalid.trans hrequired.symm) hevaluation
    refine ⟨⟨name, s, b, _, raw, medians, heval.trans hevaluation, hselected⟩, ?_⟩
    have hpos : ∀ k ∈ (profileAttempts pool profile).map attemptOf, 1 ≤ k := by
      intro k hk
      obtain ⟨item, hi, rfl⟩ := List.mem_map.mp hk
      exact (ha.attemptOf_spec hi).2.1
    have hle : ∀ k ∈ (profileAttempts pool profile).map attemptOf,
        k ≤ ((profileAttempts pool profile).map attemptOf).length := by
      intro k hk
      obtain ⟨item, hi, rfl⟩ := List.mem_map.mp hk
      simpa using hordered.1 item hi
    simpa using perm_oneTo ha.nodup_attemptOf hpos hle

/-- The Fast batteries with the given numbers, all of them valid. -/
def fastBatteries (numbers : List ℤ) : Pool :=
  numbers.map fun n => batteryReceipt "fast-320k" (toString n) n true

/-- The record a battery receipt of `fastBatteries` was made from. -/
def fastRecord (n : ℤ) : AttemptRecord where
  createdAt := some "2026-08-23T12:00:00Z"
  attempt := some n
  baselinesSha256 := some "4"
  subject := some (testSubject "e")
  profile := some "fast-320k"
  rawSha256 := some "1111111111111111111111111111111111111111111111111111111111111111"
  valid := some true
  completed := some true
  metrics := [("peak_c1", .num (.int 100))]

def fastBaselines : Baselines where
  maxAttempts := 5
  requiredValidBatteries := 3
  profiles := [("fast-320k", [("peak_c1", { individualFloor := .int 90, medianFloor := .int 95 })])]

theorem corresponds_fastRecord (n : ℤ) :
    Corresponds (batteryReceipt "fast-320k" (toString n) n true) (fastRecord n) :=
  ⟨rfl, rfl, rfl, rfl, rfl⟩

theorem correspondingRecords_fast (numbers : List ℤ) :
    CorrespondingRecords (fastBatteries numbers) (numbers.map fastRecord) := by
  refine ⟨numbers.map fastRecord, .refl _, ?_⟩
  simp only [fastBatteries, List.forall₂_map_left_iff, List.forall₂_map_right_iff]
  exact List.forall₂_same.mpr fun n _ => corresponds_fastRecord n

theorem oneSubject_fast (numbers : List ℤ) : OneSubject (fastBatteries numbers) := by
  intro a hia b hib
  obtain ⟨_, -, rfl⟩ := List.mem_map.mp hia
  obtain ⟨_, -, rfl⟩ := List.mem_map.mp hib
  rfl

theorem recordsPass_fast : RecordsPass ([1, 2, 3].map fastRecord) fastBaselines "4" := by
  have hmem : ∀ record ∈ [1, 2, 3].map fastRecord, ∃ n, record = fastRecord n := by
    intro record hr
    obtain ⟨n, -, rfl⟩ := List.mem_map.mp hr
    exact ⟨n, rfl⟩
  refine ⟨?_, ?_, ?_, ?_⟩
  all_goals
    intro record hr
    obtain ⟨n, rfl⟩ := hmem record hr
  · rfl
  · intro _
    rfl
  · exact ⟨_, rfl⟩
  · refine ⟨"fast-320k", _, rfl, rfl, ?_⟩
    intro entry he
    obtain rfl := List.mem_singleton.mp he
    exact exists_ok_of_isSome (by decide +kernel)

theorem gate_evaluator_agree_iff_one_two_three :
    ∃ subject cited,
      deriveBenchmark (fastChain (fastBatteries [1, 2, 3])) "fast-320k" = .ok (subject, cited) ∧
      PoliciesAgree (fastBatteries [1, 2, 3])
        (evaluateAttempts ([1, 2, 3].map fastRecord) fastBaselines "4") := by
  obtain ⟨⟨subject, cited⟩, h⟩ := exists_ok_of_isSome (show (deriveBenchmark
    (fastChain (fastBatteries [1, 2, 3])) "fast-320k").toOption.isSome = true by decide)
  have hattempts : profileAttempts (fastChain (fastBatteries [1, 2, 3])) "fast-320k" =
      fastBatteries [1, 2, 3] := by decide
  refine ⟨subject, cited, h, ?_⟩
  have hiff := gate_evaluator_agree_iff h (hattempts ▸ correspondingRecords_fast [1, 2, 3])
    (show fastBaselines.maxAttempts = 5 from rfl) rfl "4"
  rw [hattempts] at hiff
  exact hiff.mpr ⟨⟨by decide, by decide⟩, oneSubject_fast _, recordsPass_fast⟩

/-- The gate accepts the attempts 1, 3 and 5, whose records the evaluator
refuses: the attempts 2 and 4 are missing from the cited evidence. -/
theorem gate_accepts_hidden_attempts :
    ∃ subject cited,
      deriveBenchmark (fastChain (fastBatteries [1, 3, 5])) "fast-320k" = .ok (subject, cited) ∧
      profileAttempts (fastChain (fastBatteries [1, 3, 5])) "fast-320k" =
        fastBatteries [1, 3, 5] ∧
      CorrespondingRecords (fastBatteries [1, 3, 5]) ([1, 3, 5].map fastRecord) ∧
      evaluateAttempts ([1, 3, 5].map fastRecord) fastBaselines "4" = .error .notChronological ∧
      ¬ PoliciesAgree (fastBatteries [1, 3, 5])
        (evaluateAttempts ([1, 3, 5].map fastRecord) fastBaselines "4") := by
  obtain ⟨⟨subject, cited⟩, h⟩ := exists_ok_of_isSome (show (deriveBenchmark
    (fastChain (fastBatteries [1, 3, 5])) "fast-320k").toOption.isSome = true by decide)
  have hrefused : evaluateAttempts ([1, 3, 5].map fastRecord) fastBaselines "4" =
      .error .notChronological := by rfl
  refine ⟨subject, cited, h, by decide, correspondingRecords_fast _, hrefused, fun hagree => ?_⟩
  obtain ⟨_, _, _, _, _, _, hcomplete, -⟩ := hagree.selected
  cases hrefused.symm.trans hcomplete

end ChampionRuntime.Publication
