import ChampionRuntime.Benchmark.Selection
import ChampionRuntime.Lib.Assoc

/-!
# What the floors guarantee

A value is refused when it is below its floor. A not-a-number is below nothing,
so what acceptance guarantees is the floor for every value that is a number.
-/
namespace ChampionRuntime.Benchmark

open Lib Lib.Json Publication

variable {attempts selected : List AttemptRecord} {baselines : Baselines} {hash metric : String}
  {item : AttemptRecord} {floor : Number}

/-- The value of a metric, when it is numeric. -/
def metricValue (metric : String) (item : AttemptRecord) : Option Number :=
  numericMetric (item.metrics.lookup metric)

/-- No metric of these is a not-a-number. -/
def Ordered (metricPolicy : List (String × Limits)) (selected : List AttemptRecord) : Prop :=
  ∀ entry ∈ metricPolicy, ∀ item ∈ selected, metricValue entry.1 item ≠ some (.float .nan)

theorem measured_eq_ok {x : PyFloat} (h : measured metric floor item = .ok x) :
    ∃ value, metricValue metric item = some value ∧ value.lt floor = false ∧
      value.toFloat? = some x := by
  unfold measured at h
  unfold metricValue
  cases hvalue : numericMetric (item.metrics.lookup metric) with
  | none =>
    rw [hvalue] at h
    cases h
  | some value =>
    rw [hvalue] at h
    dsimp only at h
    cases hlt : value.lt floor with
    | true =>
      rw [hlt] at h
      cases h
    | false =>
      rw [hlt] at h
      cases hfloat : value.toFloat? with
      | none =>
        rw [hfloat] at h
        cases h
      | some y =>
        rw [hfloat] at h
        cases h
        exact ⟨value, rfl, hlt, hfloat⟩

theorem exact_eq_nan {value : Number} (h : value.exact = .nan) : value = .float .nan := by
  cases value with
  | int n => cases h
  | float x => exact congrArg Number.float h

theorem bounded_of_measured {value : Number} {x : PyFloat} (hfloor : Number.IsFinite floor)
    (hlt : value.lt floor = false) (hnan : value ≠ .float .nan) (h : value.toFloat? = some x) :
    x.Bounded := by
  obtain ⟨q, hq⟩ := hfloor
  cases value with
  | int n =>
    obtain ⟨p, rfl⟩ := Number.finite_of_toFloat?_int h
    exact ⟨PyFloat.noConfusion, PyFloat.noConfusion⟩
  | float y =>
    cases h
    refine ⟨fun hy => hnan (congrArg Number.float hy), ?_⟩
    rintro rfl
    rw [Number.lt, hq] at hlt
    cases hlt

/-- The floors of one metric hold of the selected values and of their median. -/
structure MeetsFloors (selected : List AttemptRecord) (entry : String × Limits)
    (reported : String × PyFloat) : Prop where
  name : reported.1 = entry.1
  median : ∃ values, List.Forall₂ (fun item x => ∃ value, metricValue entry.1 item = some value ∧
    value.toFloat? = some x) selected values ∧ PyFloat.median values = some reported.2
  individual : ∀ item ∈ selected, ∃ value, metricValue entry.1 item = some value ∧
    value.ge entry.2.individualFloor = true
  medianFloor : (Number.float reported.2).ge entry.2.medianFloor = true

theorem meetsFloors_iff {entry : String × Limits} {reported : String × PyFloat}
    (hindividual : entry.2.individualFloor.IsFinite) (hmedian : entry.2.medianFloor.IsFinite)
    (h : metricMedian selected entry = .ok reported) :
    MeetsFloors selected entry reported ↔
      ∀ item ∈ selected, metricValue entry.1 item ≠ some (.float .nan) := by
  obtain ⟨metric, limits⟩ := entry
  simp only [metricMedian, bind_eq_ok] at h
  obtain ⟨values, hvalues, h⟩ := h
  have hfloor : ∀ {n : Number}, n.IsFinite → n.exact ≠ .nan := by
    rintro n ⟨q, hq⟩ hnan
    rw [hq] at hnan
    cases hnan
  constructor
  · intro hmeets item hitem hnan
    obtain ⟨value, hvalue, hge⟩ := hmeets.individual item hitem
    rw [hvalue] at hnan
    cases hnan
    cases hge
  · intro hordered
    have hbounded : ∀ x ∈ values, x.Bounded := by
      intro x hx
      obtain ⟨item, hitem, hmeasured⟩ := mem_result_of_mapM_eq_ok hvalues hx
      obtain ⟨value, hvalue, hlt, hfloat⟩ := measured_eq_ok hmeasured
      apply bounded_of_measured hindividual hlt _ hfloat
      rintro rfl
      exact hordered item hitem hvalue
    cases hresult : PyFloat.median values with
    | none =>
      rw [hresult] at h
      cases h
    | some m =>
      rw [hresult] at h
      dsimp only at h
      split_ifs at h with hlt
      cases h
      refine ⟨rfl, ⟨values, ?_, hresult⟩, ?_, ?_⟩
      · apply (mapM_eq_ok.mp hvalues).imp
        intro item x hmeasured
        obtain ⟨value, hvalue, -, hfloat⟩ := measured_eq_ok hmeasured
        exact ⟨value, hvalue, hfloat⟩
      · intro item hitem
        obtain ⟨x, -, hmeasured⟩ := mem_of_mapM_eq_ok hvalues hitem
        obtain ⟨value, hvalue, hlt, -⟩ := measured_eq_ok hmeasured
        refine ⟨value, hvalue, PyFloat.ge_iff.mpr ⟨hlt, ?_, hfloor hindividual⟩⟩
        intro hnan
        rw [exact_eq_nan hnan] at hvalue
        exact hordered item hitem hvalue
      · exact PyFloat.ge_iff.mpr ⟨Bool.eq_false_of_not_eq_true hlt,
          PyFloat.median_ne_nan hbounded hresult, hfloor hmedian⟩

/-- A complete evaluation meets every floor of its profile exactly when no selected
attempt has a not-a-number among the metrics of the profile. -/
theorem floors_iff_ordered {profile baselinesSha256 : String} {subject : Option Subject}
    {selectedAttempts : List (Option ℤ)} {rawSha256 : List String} {medians : List (String × PyFloat)}
    (hfinite : ∀ policy ∈ baselines.profiles, ∀ entry ∈ policy.2,
      entry.2.individualFloor.IsFinite ∧ entry.2.medianFloor.IsFinite)
    (h : evaluateAttempts attempts baselines hash =
      .ok (.complete profile subject baselinesSha256 selectedAttempts rawSha256 medians)) :
    ∃ metricPolicy, baselines.profiles.lookup profile = some metricPolicy ∧
      (List.Forall₂ (MeetsFloors (selectedOf baselines.requiredValidBatteries attempts))
          metricPolicy medians ↔
        Ordered metricPolicy (selectedOf baselines.requiredValidBatteries attempts)) := by
  obtain ⟨-, -, metricPolicy, hpolicy, hmedians⟩ := evaluateAttempts_complete h
  refine ⟨metricPolicy, hpolicy, ?_⟩
  have hlimits := hfinite (profile, metricPolicy) (mem_of_lookup_eq_some hpolicy)
  rw [mapM_eq_ok] at hmedians
  unfold Ordered
  clear hpolicy h
  induction hmedians with
  | nil => simp
  | cons hmedian _ ih =>
    obtain ⟨hentry, hrest⟩ := List.forall_mem_cons.mp hlimits
    have hiff := meetsFloors_iff hentry.1 hentry.2 hmedian
    rw [List.forall₂_cons, List.forall_mem_cons]
    exact and_congr hiff (ih hrest)

/-- A valid attempt of a profile with one floor. -/
def measuredAttempt (value : Number) : AttemptRecord where
  attempt := some 1
  baselinesSha256 := some "b"
  profile := some "decode"
  rawSha256 := some (String.ofList (List.replicate 64 '0'))
  valid := some true
  completed := some true
  metrics := [("tokens_per_second", .num value)]

def decodeBaselines : Baselines :=
  ⟨5, 1, [("decode", [("tokens_per_second", ⟨.int 45, .int 45⟩)])]⟩

theorem decodeBaselines_finite : ∀ policy ∈ decodeBaselines.profiles, ∀ entry ∈ policy.2,
    entry.2.individualFloor.IsFinite ∧ entry.2.medianFloor.IsFinite := by
  intro policy hpolicy entry hentry
  rw [decodeBaselines, List.mem_singleton] at hpolicy
  subst hpolicy
  rw [List.mem_singleton] at hentry
  subst hentry
  exact ⟨⟨45, rfl⟩, ⟨45, rfl⟩⟩

theorem evaluate_nan : evaluateAttempts [measuredAttempt (.float .nan)] decodeBaselines "b" =
    .ok (.complete "decode" none "b" [some 1] [String.ofList (List.replicate 64 '0')]
      [("tokens_per_second", .nan)]) := by
  rfl

theorem floors_iff_ordered_nan : ∃ metricPolicy,
    decodeBaselines.profiles.lookup "decode" = some metricPolicy ∧
      (List.Forall₂ (MeetsFloors (selectedOf 1 [measuredAttempt (.float .nan)])) metricPolicy
          [("tokens_per_second", .nan)] ↔
        Ordered metricPolicy (selectedOf 1 [measuredAttempt (.float .nan)])) :=
  floors_iff_ordered decodeBaselines_finite evaluate_nan

theorem nan_passes_floor :
    evaluateAttempts [measuredAttempt (.float .nan)] decodeBaselines "b" =
      .ok (.complete "decode" none "b" [some 1] [String.ofList (List.replicate 64 '0')]
        [("tokens_per_second", .nan)]) ∧
      selectedOf 1 [measuredAttempt (.float .nan)] = [measuredAttempt (.float .nan)] ∧
      metricValue "tokens_per_second" (measuredAttempt (.float .nan)) = some (.float .nan) ∧
      (Number.float .nan).ge (.int 45) = false :=
  ⟨evaluate_nan, rfl, rfl, rfl⟩

end ChampionRuntime.Benchmark
