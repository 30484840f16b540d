import ChampionRuntime.Decoding.ObservationWindow

/-!
# Consistent batches

The counts of a batch fit together when they come from sequences of drafts that are
accepted up to their first rejection. A controller that is fed such batches only never
raises: its checks pass, and its quotients are small.
-/
namespace ChampionRuntime.Decoding

open Lib
open Lib.Json (PyFloat)

/-- `sys.maxsize`; no list is longer. -/
def maxSize : ℕ := 2 ^ 63 - 1

namespace Observation

/-- The counts of a batch whose drafts are verified one position after another. -/
structure Consistent (maxNumSpecTokens : ℕ) (o : Observation) : Prop where
  vectors : ∃ eligible accepted, o.positionEligible = some eligible ∧
    o.positionAccepted = some accepted ∧ eligible.length = max 1 maxNumSpecTokens ∧
    accepted.length = max 1 maxNumSpecTokens
  eligibleFirst : countAt o.positionEligible 0 = o.numDrafts
  accepted_le_eligible : ∀ i, countAt o.positionAccepted i ≤ countAt o.positionEligible i
  eligible_le_accepted : ∀ i, countAt o.positionEligible (i + 1) ≤ countAt o.positionAccepted i
  accepted_nonneg : ∀ i, 0 ≤ countAt o.positionAccepted i
  acceptedSum : (o.positionAccepted.getD []).sum = o.numAcceptedTokens
  accepted_le_draft : o.numAcceptedTokens ≤ o.numDraftTokens
  draft_le : o.numDraftTokens ≤ maxNumSpecTokens * o.numDrafts

variable {maxNumSpecTokens : ℕ} {o : Observation}

theorem countAt_some {vector : List ℤ} {i : ℕ} (hi : i < vector.length) :
    countAt (some vector) i = vector[i] := by
  simp [countAt, hi]

theorem Consistent.eligible_le (h : o.Consistent maxNumSpecTokens) (i : ℕ) :
    countAt o.positionEligible i ≤ o.numDrafts := by
  induction i with
  | zero => exact h.eligibleFirst.le
  | succ i ih =>
    calc countAt o.positionEligible (i + 1)
      _ ≤ countAt o.positionAccepted i := h.eligible_le_accepted i
      _ ≤ countAt o.positionEligible i := h.accepted_le_eligible i
      _ ≤ o.numDrafts := ih

theorem Consistent.numAccepted_nonneg (h : o.Consistent maxNumSpecTokens) :
    0 ≤ o.numAcceptedTokens := by
  obtain ⟨_, accepted, -, haccepted, -, -⟩ := h.vectors
  rw [← h.acceptedSum, haccepted]
  apply List.sum_nonneg
  intro count hmem
  obtain ⟨i, hi, rfl⟩ := List.mem_iff_getElem.mp hmem
  have hat := h.accepted_nonneg i
  have hcount : countAt (some accepted) i = accepted[i] := countAt_some hi
  rwa [haccepted, hcount] at hat

theorem Consistent.countsValid (h : o.Consistent maxNumSpecTokens) : o.CountsValid := by
  have haccepted := h.numAccepted_nonneg
  have hdraft := h.accepted_le_draft
  have hbound := h.draft_le
  have hdrafts : 0 ≤ o.numDrafts := by
    rw [← h.eligibleFirst]
    exact (h.accepted_nonneg 0).trans (h.accepted_le_eligible 0)
  refine ⟨hdrafts, haccepted.trans hdraft, haccepted, hdraft, ?_⟩
  intro hzero
  rw [hzero, mul_zero] at hbound
  omega

theorem Consistent.positionsValid (h : o.Consistent maxNumSpecTokens)
    (hpos : 0 < maxNumSpecTokens) : o.PositionsValid maxNumSpecTokens := by
  obtain ⟨eligible, accepted, heligible, haccepted, hlength, hlength'⟩ := h.vectors
  unfold PositionsValid
  rw [heligible, haccepted]
  refine ⟨hlength.trans hlength'.symm, by omega, ?_⟩
  intro pair hmem
  obtain ⟨i, hi, rfl⟩ := List.mem_iff_getElem.mp hmem
  rw [List.length_zip] at hi
  have hnonneg := h.accepted_nonneg i
  have hle := h.accepted_le_eligible i
  rw [haccepted, countAt_some (by omega)] at hnonneg
  rw [heligible, haccepted, countAt_some (by omega), countAt_some (by omega)] at hle
  rw [List.getElem_zip]
  exact ⟨hnonneg, hle⟩

end Observation

open Observation

theorem ofRat_finite {q : ℚ} (hnonneg : 0 ≤ q) (hq : q ≤ 2 ^ 63) (negative : Bool) :
    PyFloat.ofRat q ≠ .inf negative := by
  have hbound : |q| ≤ 2 ^ 63 := by rwa [abs_of_nonneg hnonneg]
  obtain ⟨r, hr, -⟩ := PyFloat.exists_ofRat_eq_finite 63 hbound (by decide)
  rw [hr]
  nofun

theorem fitsFloat_of_le {a b : ℤ} (bound : ℕ) (hnonneg : 0 ≤ a) (hb : 0 ≤ b)
    (hle : a ≤ bound * b) (hbound : bound ≤ maxSize) : FitsFloat a b := by
  apply ofRat_finite
  · positivity
  · rcases hb.eq_or_lt with hzero | hpos
    · rw [← hzero]
      norm_num
    · rw [div_le_iff₀ (by exact_mod_cast hpos)]
      calc (a : ℚ)
        _ ≤ bound * b := by exact_mod_cast hle
        _ ≤ 2 ^ 63 * b := by
          apply mul_le_mul_of_nonneg_right
          · exact_mod_cast hbound.trans (Nat.sub_le _ _)
          · exact_mod_cast hb

namespace AcceptanceLengthController

/-- The counters of a controller that was fed consistent batches. -/
structure Level (maxNumSpecTokens : ℕ) (c : AcceptanceLengthController) : Prop where
  maxNumSpecTokens_eq : c.maxNumSpecTokens = maxNumSpecTokens
  maxNumSpecTokens_pos : 0 < maxNumSpecTokens
  sized : c.Sized
  drafts_nonneg : 0 ≤ c.numDrafts
  accepted_nonneg : 0 ≤ c.numAcceptedTokens
  accepted_le : c.numAcceptedTokens ≤ c.numDraftTokens
  draft_le : c.numDraftTokens ≤ maxNumSpecTokens * c.numDrafts
  positions : ∀ i, 0 ≤ c.positionAccepted.getD i 0 ∧
    c.positionAccepted.getD i 0 ≤ c.positionEligible.getD i 0 ∧
    c.positionEligible.getD i 0 ≤ c.numDrafts

/-- A controller with this many depths, that was fed consistent batches only. -/
inductive Fed (maxNumSpecTokens : ℕ) : AcceptanceLengthController → Prop where
  | init {observationWindow : ℕ} {ladder : List ℕ} {c : AcceptanceLengthController}
      (h : init maxNumSpecTokens observationWindow ladder = .ok c) : Fed maxNumSpecTokens c
  | observe {c : AcceptanceLengthController} {o : Observation} (h : Fed maxNumSpecTokens c)
      (ho : o.Consistent maxNumSpecTokens) : Fed maxNumSpecTokens (c.observeBatch o).1

variable {maxNumSpecTokens : ℕ} {c c' : AcceptanceLengthController} {o : Observation}

theorem Sums.level (h : c.Sums []) (hsized : c.Sized) (hmax : c.maxNumSpecTokens = maxNumSpecTokens)
    (hpos : 0 < maxNumSpecTokens) : c.Level maxNumSpecTokens := by
  have hdrafts : c.numDrafts = 0 := h.drafts
  have hdraftTokens : c.numDraftTokens = 0 := h.draftTokens
  have haccepted : c.numAcceptedTokens = 0 := h.acceptedTokens
  refine ⟨hmax, hpos, hsized, hdrafts.ge, haccepted.ge, ?_, ?_, ?_⟩
  · rw [haccepted, hdraftTokens]
  · rw [hdrafts, hdraftTokens, mul_zero]
  · intro i
    rw [h.eligible i, h.accepted i, hdrafts]
    exact ⟨le_rfl, le_rfl, le_rfl⟩

theorem Level.counted (h : c.Level maxNumSpecTokens) (ho : o.Consistent maxNumSpecTokens)
    (hc : Positioned (c.count o) o c') : c'.Level maxNumSpecTokens := by
  have hdrafts := ho.countsValid.1
  have haccepted := ho.numAccepted_nonneg
  have hle := ho.accepted_le_draft
  have hbound := ho.draft_le
  obtain ⟨hmax, hpos, -, hdrafts', haccepted', hle', hbound', hpositions⟩ := h
  have hrest := hc.rest
  refine ⟨?_, hpos, hc.sized, ?_, ?_, ?_, ?_, ?_⟩
  · rw [hrest]
    exact hmax
  · rw [hrest]
    exact add_nonneg hdrafts' hdrafts
  · rw [hrest]
    exact add_nonneg haccepted' haccepted
  · rw [hrest]
    exact add_le_add hle' hle
  · rw [hrest]
    calc c.numDraftTokens + o.numDraftTokens
      _ ≤ maxNumSpecTokens * c.numDrafts + maxNumSpecTokens * o.numDrafts :=
        add_le_add hbound' hbound
      _ = maxNumSpecTokens * (c.numDrafts + o.numDrafts) := (mul_add _ _ _).symm
  · intro i
    have hnumDrafts : c'.numDrafts = c.numDrafts + o.numDrafts := by
      rw [hrest]
      rfl
    obtain ⟨hnonneg, hpair, hfirst⟩ := hpositions i
    have heligible : c'.positionEligible.getD i 0 =
        c.positionEligible.getD i 0 + countAt o.positionEligible i := hc.eligible i
    have hacceptedAt : c'.positionAccepted.getD i 0 =
        c.positionAccepted.getD i 0 + countAt o.positionAccepted i := hc.accepted i
    rw [heligible, hacceptedAt, hnumDrafts]
    exact ⟨add_nonneg hnonneg (ho.accepted_nonneg i),
      add_le_add hpair (ho.accepted_le_eligible i), add_le_add hfirst (ho.eligible_le i)⟩

theorem Level.quotientsFit (h : c.Level maxNumSpecTokens) (hmax : maxNumSpecTokens ≤ maxSize) :
    c.QuotientsFit := by
  have hone : ∀ a b : ℤ, 0 ≤ a → a ≤ b → FitsFloat a b := by
    intro a b hnonneg hle
    apply fitsFloat_of_le 1 hnonneg (hnonneg.trans hle)
    · simpa using hle
    · norm_num [maxSize]
  have hacceptedAt : ∀ {i : ℕ} {a : ℤ}, a ∈ c.positionAccepted[i]? → 0 ≤ a ∧ a ≤ c.numDrafts := by
    intro i a ha
    obtain ⟨hnonneg, hle, hfirst⟩ := h.positions i
    rw [List.getD_eq_getElem?_getD, Option.mem_def.mp ha] at hnonneg hle
    exact ⟨hnonneg, hle.trans hfirst⟩
  refine ⟨?_, ?_, ?_, ?_, ?_⟩
  · exact fitsFloat_of_le _ h.accepted_nonneg h.drafts_nonneg (h.accepted_le.trans h.draft_le) hmax
  · exact fitsFloat_of_le _ (h.accepted_nonneg.trans h.accepted_le) h.drafts_nonneg h.draft_le hmax
  · intro pair hmem _
    obtain ⟨i, hi, rfl⟩ := List.mem_iff_getElem.mp hmem
    rw [List.length_zip] at hi
    obtain ⟨hnonneg, hle, -⟩ := h.positions i
    have heligible : i < c.positionEligible.length := by omega
    have haccepted : i < c.positionAccepted.length := by omega
    simp only [List.getD_eq_getElem?_getD, List.getElem?_eq_getElem heligible,
      List.getElem?_eq_getElem haccepted, Option.getD_some] at hnonneg hle
    rw [List.getElem_zip]
    exact hone _ _ hnonneg hle
  · intro a ha b hb
    obtain ⟨ha, ha'⟩ := hacceptedAt ha
    obtain ⟨hb, hb'⟩ := hacceptedAt hb
    apply fitsFloat_of_le 2 (add_nonneg ha hb) h.drafts_nonneg
    · push_cast
      omega
    · norm_num [maxSize]
  · intro a ha
    obtain ⟨ha, ha'⟩ := hacceptedAt ha
    exact hone _ _ ha ha'

theorem Level.observeBatch (h : c.Level maxNumSpecTokens) (hmax : maxNumSpecTokens ≤ maxSize)
    (ho : o.Consistent maxNumSpecTokens) :
    ∃ c' update, c.observeBatch o = (c', .ok update) ∧ c'.Level maxNumSpecTokens := by
  by_cases hempty : o.numDrafts = 0
  · exact ⟨c, none, observeBatch_empty ho.countsValid hempty, h⟩
  have hpositions := ho.positionsValid h.maxNumSpecTokens_pos
  rw [← h.maxNumSpecTokens_eq] at hpositions
  obtain ⟨observed, hobserved, hpositioned⟩ :=
    observePositions_ok (c := c.count o) h.sized hpositions
  have hlevel := h.counted ho hpositioned
  rw [observeBatch_counted ho.countsValid hempty, hobserved]
  dsimp only
  by_cases hfull : observed.numObservationSteps < observed.effectiveObservationWindow
  · exact ⟨observed, none, if_pos hfull, hlevel⟩
  · obtain ⟨⟨decided, update⟩, hdecided⟩ := decide_ok_iff.mpr (hlevel.quotientsFit hmax)
    refine ⟨decided, some update, ?_, ?_⟩
    · rw [if_neg hfull, hdecided]
    · obtain ⟨_, _, _, _, rfl⟩ := decide_eq_ok hdecided
      obtain ⟨hsums, hsized⟩ := sums_resetWindow
        { observed with numSpecTokens := (observed.target _ _ _ _).1 }
      exact hsums.level hsized hlevel.maxNumSpecTokens_eq hlevel.maxNumSpecTokens_pos

theorem Fed.level (h : c.Fed maxNumSpecTokens) (hmax : maxNumSpecTokens ≤ maxSize) :
    c.Level maxNumSpecTokens := by
  induction h with
  | init h =>
    obtain ⟨htally, -⟩ := init_tally h
    simp only [AcceptanceLengthController.init, bind_eq_ok, require_eq_ok, decide_eq_true_eq,
      pure_eq_ok] at h
    obtain ⟨-, hpos, -, -, rfl⟩ := h
    exact htally.sums.level htally.sized rfl hpos
  | observe _ ho ih =>
    obtain ⟨c', update, hobserved, hlevel⟩ := ih.observeBatch hmax ho
    rw [hobserved]
    exact hlevel

end AcceptanceLengthController

end ChampionRuntime.Decoding
