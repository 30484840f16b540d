import ChampionRuntime.Decoding.Controller

/-!
# The observation window

What the counters of the acceptance-length controller hold between two updates:
the sums over the batches observed since the last one. The counts of a batch are
added before its position vectors are checked, so the sums are kept only by
batches whose vectors pass the check.
-/
namespace ChampionRuntime.Decoding

open Lib
open Lib.Json (PyFloat)

namespace Observation

/-- The counts pass the checks that come before any counter changes. -/
def CountsValid (o : Observation) : Prop :=
  0 ≤ o.numDrafts ∧ 0 ≤ o.numDraftTokens ∧ 0 ≤ o.numAcceptedTokens ∧
    o.numAcceptedTokens ≤ o.numDraftTokens ∧
    (o.numDrafts = 0 → o.numDraftTokens = 0 ∧ o.numAcceptedTokens = 0)

/-- The position vectors pass the checks that come after. -/
def PositionsValid (maxNumSpecTokens : ℕ) (o : Observation) : Prop :=
  match o.positionEligible, o.positionAccepted with
  | none, none => True
  | some eligible, some accepted =>
    eligible.length = accepted.length ∧ eligible.length ≤ maxNumSpecTokens ∧
      ∀ pair ∈ eligible.zip accepted, 0 ≤ pair.2 ∧ pair.2 ≤ pair.1
  | _, _ => False

/-- A vector's count at a position; a missing one counts nothing. -/
def countAt (vector : Option (List ℤ)) (position : ℕ) : ℤ := (vector.getD []).getD position 0

def Unpositioned (o : Observation) : Prop :=
  ∀ position, countAt o.positionEligible position = 0 ∧ countAt o.positionAccepted position = 0

end Observation

open Observation

/-- The quotient of two integers is within the finite range. -/
def FitsFloat (a b : ℤ) : Prop := ∀ negative, PyFloat.ofRat (a / b) ≠ .inf negative

namespace AcceptanceLengthController

/-- The text of the one exception here that is no `ValueError`. -/
def overflowText : String := "integer division result too large for a float"

/-- `observe_batch` ended in a `ValueError`. -/
def RaisesValueError {α : Type} (outcome : Except String α) : Prop :=
  ∃ e, outcome = .error e ∧ e ≠ overflowText

variable {c : AcceptanceLengthController} {o : Observation} {since : List Observation}

/-- The quotients of a decision over these counters. -/
def QuotientsFit (c : AcceptanceLengthController) : Prop :=
  FitsFloat c.numAcceptedTokens c.numDrafts ∧ FitsFloat c.numDraftTokens c.numDrafts ∧
    (∀ pair ∈ c.positionEligible.zip c.positionAccepted, pair.1 ≠ 0 → FitsFloat pair.2 pair.1) ∧
    (∀ a ∈ c.positionAccepted[2]?, ∀ b ∈ c.positionAccepted[3]?, FitsFloat (a + b) c.numDrafts) ∧
    ∀ a ∈ c.positionAccepted[4]?, FitsFloat a c.numDrafts

theorem trueDiv_ok_iff {a b : ℤ} : (∃ x, trueDiv a b = .ok x) ↔ FitsFloat a b := by
  unfold trueDiv FitsFloat
  cases PyFloat.ofRat (a / b) <;> simp

theorem trueDiv_error {a b : ℤ} {e : String} (h : trueDiv a b = .error e) : e = overflowText := by
  unfold trueDiv at h
  split at h
  · exact (Except.error.inj h).symm
  · cases h

theorem tailGain23_ok_iff : (∃ x, c.tailGain23 = .ok x) ↔
    ∀ a ∈ c.positionAccepted[2]?, ∀ b ∈ c.positionAccepted[3]?, FitsFloat (a + b) c.numDrafts := by
  unfold tailGain23
  cases c.positionAccepted[2]? with
  | none => simp
  | some a =>
    cases c.positionAccepted[3]? with
    | none => simp
    | some b => simp [trueDiv_ok_iff]

theorem position4Gain_ok_iff : (∃ x, c.position4Gain = .ok x) ↔
    ∀ a ∈ c.positionAccepted[4]?, FitsFloat a c.numDrafts := by
  unfold position4Gain
  cases c.positionAccepted[4]? with
  | none => simp
  | some a => simp [trueDiv_ok_iff]

theorem rates_ok_iff {pairs : List (ℤ × ℤ)} :
    (∃ rates, (pairs.mapM fun p =>
      if p.1 = 0 then .ok (PyFloat.finite 0) else trueDiv p.2 p.1) = .ok rates) ↔
      ∀ pair ∈ pairs, pair.1 ≠ 0 → FitsFloat pair.2 pair.1 := by
  constructor
  · intro ⟨rates, hrates⟩ pair hmem hne
    obtain ⟨rate, -, hrate⟩ := mem_of_mapM_eq_ok hrates hmem
    rw [if_neg hne] at hrate
    exact trueDiv_ok_iff.mp ⟨rate, hrate⟩
  · intro hfit
    apply exists_mapM_eq_ok
    intro pair hmem
    by_cases hzero : pair.1 = 0
    · exact ⟨_, if_pos hzero⟩
    · obtain ⟨rate, hrate⟩ := trueDiv_ok_iff.mpr (hfit pair hmem hzero)
      exact ⟨rate, by rw [if_neg hzero, hrate]⟩

theorem decide_ok_iff : (∃ decision, c.decide = .ok decision) ↔ c.QuotientsFit := by
  unfold QuotientsFit
  rw [← trueDiv_ok_iff, ← trueDiv_ok_iff, ← rates_ok_iff, ← tailGain23_ok_iff, ← position4Gain_ok_iff]
  simp only [decide, bind_eq_ok, pure_eq_ok]
  constructor
  · rintro ⟨_, _, hmean, _, hdraft, _, hrates, _, htail, _, hgain, -⟩
    exact ⟨⟨_, hmean⟩, ⟨_, hdraft⟩, ⟨_, hrates⟩, ⟨_, htail⟩, ⟨_, hgain⟩⟩
  · rintro ⟨⟨_, hmean⟩, ⟨_, hdraft⟩, ⟨_, hrates⟩, ⟨_, htail⟩, ⟨_, hgain⟩⟩
    exact ⟨_, _, hmean, _, hdraft, _, hrates, _, htail, _, hgain, rfl⟩

theorem decide_raises : RaisesOnly (· = overflowText) c.decide := by
  have hdiv : ∀ a b, RaisesOnly (· = overflowText) (trueDiv a b) := fun _ _ _ => trueDiv_error
  apply RaisesOnly.bind (hdiv _ _)
  intro _ _
  apply RaisesOnly.bind (hdiv _ _)
  intro _ _
  apply RaisesOnly.bind
  · apply RaisesOnly.mapM
    intro pair _
    split_ifs
    · exact RaisesOnly.ok _
    · exact hdiv _ _
  intro _ _
  apply RaisesOnly.bind
  · unfold tailGain23
    split
    · exact hdiv _ _
    · exact RaisesOnly.ok _
  intro _ _
  apply RaisesOnly.bind
  · unfold position4Gain
    split
    · exact hdiv _ _
    · exact RaisesOnly.ok _
  intro _ _
  exact RaisesOnly.ok _

theorem addPositions_ok {eligibles accepteds : List ℤ} {pairs : List (ℤ × ℤ)}
    (hlength : eligibles.length = accepteds.length) (hfit : pairs.length ≤ eligibles.length)
    (hvalid : ∀ pair ∈ pairs, 0 ≤ pair.2 ∧ pair.2 ≤ pair.1) :
    ∃ eligibles' accepteds', addPositions eligibles accepteds pairs =
        ((eligibles', accepteds'), .ok ()) ∧
      eligibles'.length = eligibles.length ∧ accepteds'.length = accepteds.length ∧
      ∀ i, eligibles'.getD i 0 = eligibles.getD i 0 + (pairs.map Prod.fst).getD i 0 ∧
        accepteds'.getD i 0 = accepteds.getD i 0 + (pairs.map Prod.snd).getD i 0 := by
  induction pairs generalizing eligibles accepteds with
  | nil => exact ⟨eligibles, accepteds, by unfold addPositions; simp, rfl, rfl, by simp⟩
  | cons pair pairs ih =>
    obtain ⟨e, a⟩ := pair
    cases eligibles with
    | nil => simp at hfit
    | cons eligible eligibles =>
      cases accepteds with
      | nil => simp at hlength
      | cons accepted accepteds =>
        simp only [List.length_cons, Nat.add_right_cancel_iff] at hlength
        simp only [List.length_cons, Nat.add_le_add_iff_right] at hfit
        obtain ⟨eligibles', accepteds', hadd, heligible, haccepted, hat⟩ :=
          ih hlength hfit fun pair hmem => hvalid pair (List.mem_cons_of_mem _ hmem)
        have hpair := hvalid (e, a) List.mem_cons_self
        refine ⟨(eligible + e) :: eligibles', (accepted + a) :: accepteds', ?_, by simp [heligible],
          by simp [haccepted], ?_⟩
        · rw [addPositions, if_neg (by simp only at hpair; omega), hadd]
        · intro i
          cases i with
          | zero => simp
          | succ i => simpa using hat i

theorem addPositions_error {eligibles accepteds : List ℤ} {pairs : List (ℤ × ℤ)}
    (hlength : eligibles.length = accepteds.length) (hfit : pairs.length ≤ eligibles.length)
    (hinvalid : ¬ ∀ pair ∈ pairs, 0 ≤ pair.2 ∧ pair.2 ≤ pair.1) :
    (addPositions eligibles accepteds pairs).2 =
      .error "Invalid per-position acceptance counts." := by
  induction pairs generalizing eligibles accepteds with
  | nil => simp at hinvalid
  | cons pair pairs ih =>
    obtain ⟨e, a⟩ := pair
    cases eligibles with
    | nil => simp at hfit
    | cons eligible eligibles =>
      cases accepteds with
      | nil => simp at hlength
      | cons accepted accepteds =>
        simp only [List.length_cons, Nat.add_right_cancel_iff] at hlength
        simp only [List.length_cons, Nat.add_le_add_iff_right] at hfit
        rw [addPositions]
        by_cases hpair : e < 0 ∨ a < 0 ∨ e < a
        · rw [if_pos hpair]
        · rw [if_neg hpair]
          apply ih hlength hfit
          intro hrest
          apply hinvalid
          rw [List.forall_mem_cons]
          exact ⟨by simp only; omega, hrest⟩

/-- Both position counters have one entry for each depth. -/
def Sized (c : AcceptanceLengthController) : Prop :=
  c.positionEligible.length = c.maxNumSpecTokens ∧ c.positionAccepted.length = c.maxNumSpecTokens

/-- Everything but the position counters is kept, and these are added to. -/
structure Positioned (c : AcceptanceLengthController) (o : Observation)
    (c' : AcceptanceLengthController) : Prop where
  rest : c' = { c with positionEligible := c'.positionEligible, positionAccepted := c'.positionAccepted }
  sized : c'.Sized
  eligible : ∀ i, c'.positionEligible.getD i 0 =
    c.positionEligible.getD i 0 + countAt o.positionEligible i
  accepted : ∀ i, c'.positionAccepted.getD i 0 =
    c.positionAccepted.getD i 0 + countAt o.positionAccepted i

theorem observePositions_ok (hsized : c.Sized) (h : o.PositionsValid c.maxNumSpecTokens) :
    ∃ c', c.observePositions o = (c', .ok ()) ∧ Positioned c o c' := by
  unfold PositionsValid at h
  unfold observePositions
  cases heligible : o.positionEligible with
  | none =>
    cases haccepted : o.positionAccepted with
    | none => exact ⟨c, rfl, rfl, hsized, by simp [heligible, countAt], by simp [haccepted, countAt]⟩
    | some accepted => simp [heligible, haccepted] at h
  | some eligible =>
    cases haccepted : o.positionAccepted with
    | none => simp [heligible, haccepted] at h
    | some accepted =>
      simp only [heligible, haccepted] at h
      obtain ⟨hsame, hmax, hpairs⟩ := h
      have hzip : (eligible.zip accepted).length = eligible.length := by
        rw [List.length_zip, ← hsame, Nat.min_self]
      obtain ⟨eligibles', accepteds', hadd, hlength, hlength', hat⟩ := addPositions_ok
        (hsized.1.trans hsized.2.symm) (by rw [hzip, hsized.1]; exact hmax) hpairs
      simp only [hsame, ne_eq, not_true_eq_false, if_false, hadd]
      rw [hsame] at hmax
      rw [if_neg (by omega)]
      rw [List.map_fst_zip (by omega), List.map_snd_zip (by omega)] at hat
      refine ⟨_, rfl, rfl, ⟨hlength.trans hsized.1, hlength'.trans hsized.2⟩, ?_, ?_⟩
      · intro i
        simpa [heligible, countAt] using (hat i).1
      · intro i
        simpa [haccepted, countAt] using (hat i).2

theorem observePositions_error (hsized : c.Sized) (h : ¬ o.PositionsValid c.maxNumSpecTokens) :
    RaisesValueError (c.observePositions o).2 := by
  unfold PositionsValid at h
  unfold observePositions
  cases heligible : o.positionEligible with
  | none =>
    cases haccepted : o.positionAccepted with
    | none => simp [heligible, haccepted] at h
    | some accepted => exact ⟨_, rfl, by decide⟩
  | some eligible =>
    cases haccepted : o.positionAccepted with
    | none => exact ⟨_, rfl, by decide⟩
    | some accepted =>
      simp only [heligible, haccepted] at h
      dsimp only
      by_cases hsame : eligible.length = accepted.length
      · rw [if_neg (by omega)]
        by_cases hmax : c.maxNumSpecTokens < eligible.length
        · rw [if_pos hmax]
          exact ⟨_, rfl, by decide⟩
        · rw [if_neg hmax]
          have hzip : (eligible.zip accepted).length = eligible.length := by
            rw [List.length_zip, ← hsame, Nat.min_self]
          have hadd := addPositions_error (hsized.1.trans hsized.2.symm)
            (show (eligible.zip accepted).length ≤ c.positionEligible.length by
              rw [hzip, hsized.1]; omega)
            (fun hpairs => h ⟨hsame, by omega, hpairs⟩)
          exact ⟨_, hadd, by decide⟩
      · rw [if_pos hsame]
        exact ⟨_, rfl, by decide⟩

theorem observePositions_steps (c : AcceptanceLengthController) (o : Observation) :
    (c.observePositions o).1.numObservationSteps = c.numObservationSteps := by
  unfold observePositions
  split
  · rfl
  · split_ifs <;> rfl
  · rfl

theorem observeBatch_rejected (h : ¬ o.CountsValid) :
    (c.observeBatch o).1 = c ∧ RaisesValueError (c.observeBatch o).2 := by
  unfold observeBatch
  by_cases hneg : o.numDrafts < 0 ∨ o.numDraftTokens < 0 ∨ o.numAcceptedTokens < 0
  · rw [if_pos hneg]
    exact ⟨rfl, _, rfl, by decide⟩
  rw [if_neg hneg]
  by_cases hmore : o.numDraftTokens < o.numAcceptedTokens
  · rw [if_pos hmore]
    exact ⟨rfl, _, rfl, by decide⟩
  have hempty : o.numDrafts = 0 ∧ (o.numDraftTokens ≠ 0 ∨ o.numAcceptedTokens ≠ 0) := by
    unfold CountsValid at h
    omega
  rw [if_neg hmore, if_pos hempty.1, if_pos hempty.2]
  exact ⟨rfl, _, rfl, by decide⟩

theorem observeBatch_empty (h : o.CountsValid) (hempty : o.numDrafts = 0) :
    c.observeBatch o = (c, .ok none) := by
  obtain ⟨hdrafts, hdraft, haccepted, hle, hzero⟩ := h
  have hcounts := hzero hempty
  rw [observeBatch, if_neg (by omega), if_neg (by omega), if_pos hempty, if_neg (by omega)]

theorem observeBatch_counted (h : o.CountsValid) (hne : o.numDrafts ≠ 0) :
    c.observeBatch o =
      match (c.count o).observePositions o with
      | (observed, .error e) => (observed, .error e)
      | (observed, .ok ()) =>
        if observed.numObservationSteps < observed.effectiveObservationWindow then
          (observed, .ok none)
        else
          match observed.decide with
          | .error e => (observed, .error e)
          | .ok (decided, update) => (decided, .ok (some update)) := by
  obtain ⟨hdrafts, hdraft, haccepted, hle, -⟩ := h
  rw [observeBatch, if_neg (by omega), if_neg (by omega)]
  exact (if_neg hne).trans rfl

theorem observeBatch_mispositioned (hsized : c.Sized) (h : o.CountsValid) (hne : o.numDrafts ≠ 0)
    (hpositions : ¬ o.PositionsValid c.maxNumSpecTokens) :
    (c.observeBatch o).1 ≠ c ∧ RaisesValueError (c.observeBatch o).2 := by
  rw [observeBatch_counted h hne]
  have hsteps := observePositions_steps (c.count o) o
  have herror := observePositions_error (c := c.count o) hsized hpositions
  cases hobserved : (c.count o).observePositions o with
  | mk observed outcome =>
    rw [hobserved] at hsteps herror
    obtain ⟨e, he, hvalue⟩ := herror
    simp only at he
    subst he
    refine ⟨?_, e, rfl, hvalue⟩
    intro hsame
    dsimp only at hsame hsteps
    rw [hsame] at hsteps
    exact absurd hsteps (Nat.ne_of_lt (Nat.lt_succ_self _))

def nonEmpty (since : List Observation) : ℕ :=
  (since.filter fun o => o.numDrafts ≠ 0).length

/-- Every counter is the sum of its argument over the batches. -/
structure Sums (c : AcceptanceLengthController) (since : List Observation) : Prop where
  steps : c.numObservationSteps = nonEmpty since
  drafts : c.numDrafts = (since.map (·.numDrafts)).sum
  draftTokens : c.numDraftTokens = (since.map (·.numDraftTokens)).sum
  acceptedTokens : c.numAcceptedTokens = (since.map (·.numAcceptedTokens)).sum
  eligible : ∀ i, c.positionEligible.getD i 0 =
    (since.map fun o => countAt o.positionEligible i).sum
  accepted : ∀ i, c.positionAccepted.getD i 0 =
    (since.map fun o => countAt o.positionAccepted i).sum

/-- The state between two updates: the sums since the last one, short of a window. -/
structure Tally (c : AcceptanceLengthController) (since : List Observation) : Prop where
  sized : c.Sized
  sums : c.Sums since
  short : nonEmpty since < c.effectiveObservationWindow

/-- The batches that count once this one was observed. -/
def sinceAfter (since : List Observation) (o : Observation) {update : Type} :
    Except String (Option update) → List Observation
  | .ok none => since ++ [o]
  | .ok (some _) => []
  | .error _ => since

/-- What a call does to a window: a `ValueError` changes nothing, every other call adds
its arguments, and the window is decided when it is full. -/
structure Behaves (c : AcceptanceLengthController) (since : List Observation) (o : Observation) :
    Prop where
  atomic : RaisesValueError (c.observeBatch o).2 → (c.observeBatch o).1 = c
  adds : (c.observeBatch o).2 = .ok none → (c.observeBatch o).1.Sums (since ++ [o])
  updates : (∃ update, (c.observeBatch o).2 = .ok (some update)) ↔
    ¬ RaisesValueError (c.observeBatch o).2 ∧ nonEmpty (since ++ [o]) = c.effectiveObservationWindow
  resets : ∀ update, (c.observeBatch o).2 = .ok (some update) → (c.observeBatch o).1.Sums []

/-- The calls that are handled as they should be: a batch with drafts brings position
vectors that pass their checks, a batch without brings none that count, and the
quotients of a full window are floats. -/
def Meets (c : AcceptanceLengthController) (o : Observation) : Prop :=
  o.CountsValid →
    if o.numDrafts = 0 then o.Unpositioned
    else o.PositionsValid c.maxNumSpecTokens ∧
      (c.effectiveObservationWindow ≤ c.numObservationSteps + 1 →
        ((c.count o).observePositions o).1.QuotientsFit)

theorem nonEmpty_append (since : List Observation) (o : Observation) :
    nonEmpty (since ++ [o]) = nonEmpty since + if o.numDrafts = 0 then 0 else 1 := by
  by_cases h : o.numDrafts = 0 <;> simp [nonEmpty, List.filter_append, h]

theorem Sums.extend {c' : AcceptanceLengthController} (h : c.Sums since) (hne : o.numDrafts ≠ 0)
    (hpositioned : Positioned (c.count o) o c') : c'.Sums (since ++ [o]) := by
  have heligible := hpositioned.eligible
  have haccepted := hpositioned.accepted
  have hrest := hpositioned.rest
  refine ⟨?_, ?_, ?_, ?_, ?_, ?_⟩
  · rw [hrest, nonEmpty_append, if_neg hne, ← h.steps]
    rfl
  · rw [hrest]
    simp [count, h.drafts]
  · rw [hrest]
    simp [count, h.draftTokens]
  · rw [hrest]
    simp [count, h.acceptedTokens]
  · intro i
    rw [heligible i, List.map_append, List.sum_append, ← h.eligible i]
    simp [count]
  · intro i
    rw [haccepted i, List.map_append, List.sum_append, ← h.accepted i]
    simp [count]

theorem Sums.of_empty (h : c.Sums since) (hcounts : o.CountsValid) (hempty : o.numDrafts = 0)
    (hpositions : o.Unpositioned) : c.Sums (since ++ [o]) := by
  obtain ⟨-, -, -, -, hzero⟩ := hcounts
  obtain ⟨hdraft, haccepted⟩ := hzero hempty
  refine ⟨?_, ?_, ?_, ?_, ?_, ?_⟩
  · rw [nonEmpty_append, if_pos hempty, h.steps, Nat.add_zero]
  · simp [h.drafts, hempty]
  · simp [h.draftTokens, hdraft]
  · simp [h.acceptedTokens, haccepted]
  · intro i
    rw [h.eligible i]
    simp [(hpositions i).1]
  · intro i
    rw [h.accepted i]
    simp [(hpositions i).2]

/-- Sums that still hold with an empty batch show that its vectors count nothing. -/
theorem Sums.unpositioned (h : c.Sums since) (h' : c.Sums (since ++ [o])) : o.Unpositioned := by
  intro i
  have heligible := h'.eligible i
  have haccepted := h'.accepted i
  rw [List.map_append, List.sum_append, ← h.eligible i] at heligible
  rw [List.map_append, List.sum_append, ← h.accepted i] at haccepted
  simp only [List.map_cons, List.map_nil, List.sum_cons, List.sum_nil, add_zero] at heligible haccepted
  omega

theorem sums_resetWindow (c : AcceptanceLengthController) :
    c.resetWindow.Sums [] ∧ c.resetWindow.Sized := by
  refine ⟨⟨rfl, rfl, rfl, rfl, ?_, ?_⟩, by simp [Sized, resetWindow]⟩
  · intro i
    by_cases hi : i < c.maxNumSpecTokens <;> simp [resetWindow, hi]
  · intro i
    by_cases hi : i < c.maxNumSpecTokens <;> simp [resetWindow, hi]

theorem Positioned.window {c' : AcceptanceLengthController} (h : Positioned (c.count o) o c') :
    c'.effectiveObservationWindow = c.effectiveObservationWindow ∧
      c'.numObservationSteps = c.numObservationSteps + 1 := by
  rw [h.rest]
  exact ⟨rfl, rfl⟩

theorem Tally.observe_counted (h : c.Tally since) (hcounts : o.CountsValid) (hne : o.numDrafts ≠ 0)
    (hpositions : o.PositionsValid c.maxNumSpecTokens) :
    ∃ c', (c.count o).observePositions o = (c', .ok ()) ∧ Positioned (c.count o) o c' ∧
      ((nonEmpty (since ++ [o]) < c.effectiveObservationWindow ∧
          c.observeBatch o = (c', .ok none)) ∨
        (nonEmpty (since ++ [o]) = c.effectiveObservationWindow ∧
          c.effectiveObservationWindow ≤ c.numObservationSteps + 1 ∧
          c.observeBatch o = match c'.decide with
            | .error e => (c', .error e)
            | .ok (decided, update) => (decided, .ok (some update)))) := by
  obtain ⟨c', hobserved, hpositioned⟩ :=
    observePositions_ok (c := c.count o) h.sized hpositions
  obtain ⟨hwindow, hsteps⟩ := hpositioned.window
  have hcount : nonEmpty (since ++ [o]) = c.numObservationSteps + 1 := by
    rw [nonEmpty_append, if_neg hne, h.sums.steps]
  have hshort := h.short
  rw [← h.sums.steps] at hshort
  refine ⟨c', hobserved, hpositioned, ?_⟩
  rw [observeBatch_counted hcounts hne, hobserved]
  dsimp only
  rw [hwindow, hsteps]
  by_cases hfull : c.numObservationSteps + 1 < c.effectiveObservationWindow
  · exact .inl ⟨by omega, if_pos hfull⟩
  · exact .inr ⟨by omega, by omega, if_neg hfull⟩

theorem not_raises_ok {α : Type} {outcome : Except String α} {a : α} (h : outcome = .ok a) :
    ¬ RaisesValueError outcome := by
  rintro ⟨e, he, -⟩
  rw [h] at he
  cases he

theorem Tally.behaves (h : c.Tally since) (hmeets : c.Meets o) : c.Behaves since o := by
  by_cases hcounts : o.CountsValid
  · have hmeets := hmeets hcounts
    by_cases hempty : o.numDrafts = 0
    · rw [if_pos hempty] at hmeets
      have hshort := h.short
      have hnone := nonEmpty_append since o
      rw [if_pos hempty] at hnone
      have hcall := observeBatch_empty (c := c) hcounts hempty
      refine ⟨?_, ?_, ?_, ?_⟩
      · intro _
        rw [hcall]
      · intro _
        rw [hcall]
        exact h.sums.of_empty hcounts hempty hmeets
      · rw [hcall]
        constructor
        · rintro ⟨update, hupdate⟩
          cases hupdate
        · rintro ⟨-, hfull⟩
          omega
      · intro update hupdate
        rw [hcall] at hupdate
        cases hupdate
    · rw [if_neg hempty] at hmeets
      obtain ⟨hpositions, hfits⟩ := hmeets
      obtain ⟨c', hobserved, hpositioned, hcase⟩ := h.observe_counted hcounts hempty hpositions
      rw [hobserved] at hfits
      rcases hcase with ⟨hshort, hcall⟩ | ⟨hfull, hsteps, hcall⟩
      · refine ⟨?_, ?_, ?_, ?_⟩
        · intro hraises
          exact absurd hraises (not_raises_ok (by rw [hcall]))
        · intro _
          rw [hcall]
          exact h.sums.extend hempty hpositioned
        · rw [hcall]
          constructor
          · rintro ⟨update, hupdate⟩
            cases hupdate
          · rintro ⟨-, hfull⟩
            omega
        · intro update hupdate
          rw [hcall] at hupdate
          cases hupdate
      · obtain ⟨⟨decided, update⟩, hdecided⟩ := decide_ok_iff.mpr (hfits hsteps)
        rw [hdecided] at hcall
        refine ⟨?_, ?_, ?_, ?_⟩
        · intro hraises
          exact absurd hraises (not_raises_ok (by rw [hcall]))
        · intro hnone
          rw [hcall] at hnone
          cases hnone
        · refine ⟨fun _ => ⟨not_raises_ok (by rw [hcall]), hfull⟩, fun _ => ⟨update, by rw [hcall]⟩⟩
        · intro _ _
          rw [hcall]
          obtain ⟨_, _, _, _, rfl⟩ := decide_eq_ok hdecided
          exact (sums_resetWindow _).1
  · obtain ⟨hsame, hraises⟩ := observeBatch_rejected (c := c) hcounts
    obtain ⟨e, he, hvalue⟩ := hraises
    refine ⟨fun _ => hsame, ?_, ?_, ?_⟩
    · intro hnone
      rw [he] at hnone
      cases hnone
    · constructor
      · rintro ⟨update, hupdate⟩
        rw [he] at hupdate
        cases hupdate
      · rintro ⟨hno, -⟩
        exact absurd ⟨e, he, hvalue⟩ hno
    · intro update hupdate
      rw [he] at hupdate
      cases hupdate

theorem Tally.meets (h : c.Tally since) (hbehaves : c.Behaves since o) : c.Meets o := by
  intro hcounts
  by_cases hempty : o.numDrafts = 0
  · rw [if_pos hempty]
    have hcall := observeBatch_empty (c := c) hcounts hempty
    have hsums := hbehaves.adds (by rw [hcall])
    rw [hcall] at hsums
    exact h.sums.unpositioned hsums
  · rw [if_neg hempty]
    have hpositions : o.PositionsValid c.maxNumSpecTokens := by
      by_contra hinvalid
      obtain ⟨hchanged, hraises⟩ := observeBatch_mispositioned h.sized hcounts hempty hinvalid
      exact hchanged (hbehaves.atomic hraises)
    refine ⟨hpositions, ?_⟩
    intro hsteps
    obtain ⟨c', hobserved, -, hcase⟩ := h.observe_counted hcounts hempty hpositions
    rw [hobserved]
    rcases hcase with ⟨hshort, -⟩ | ⟨hfull, -, hcall⟩
    · rw [nonEmpty_append, if_neg hempty, ← h.sums.steps] at hshort
      omega
    · apply decide_ok_iff.mp
      -- a decision that overflows is no `ValueError`, and the full window stays undecided
      cases hdecided : c'.decide with
      | ok decision => exact ⟨decision, rfl⟩
      | error e =>
        rw [hdecided] at hcall
        have hnovalue : ¬ RaisesValueError (c.observeBatch o).2 := by
          rintro ⟨e', he', hvalue⟩
          rw [hcall] at he'
          obtain rfl := Except.error.inj he'
          exact hvalue (decide_raises e hdecided)
        obtain ⟨update, hupdate⟩ := hbehaves.updates.mpr ⟨hnovalue, hfull⟩
        rw [hcall] at hupdate
        cases hupdate

/-- A controller's state over calls that all meet the condition, with the batches
since its last update. -/
inductive Run (start : AcceptanceLengthController) :
    List Observation → AcceptanceLengthController → Prop where
  | start : Run start [] start
  | observe {since : List Observation} {c : AcceptanceLengthController} {o : Observation}
      (h : Run start since c) (hmeets : c.Meets o) :
      Run start (sinceAfter since o (c.observeBatch o).2) (c.observeBatch o).1

theorem effectiveObservationWindow_pos (h : 0 < c.observationWindow) :
    0 < c.effectiveObservationWindow := by
  unfold effectiveObservationWindow
  split_ifs
  · exact h
  · omega

theorem Tally.next (h : c.Tally since) (hpos : 0 < c.observationWindow) (hmeets : c.Meets o) :
    (c.observeBatch o).1.Tally (sinceAfter since o (c.observeBatch o).2) ∧
      0 < (c.observeBatch o).1.observationWindow := by
  have hbehaves := h.behaves hmeets
  by_cases hcounts : o.CountsValid
  · have hmeets := hmeets hcounts
    by_cases hempty : o.numDrafts = 0
    · have hcall := observeBatch_empty (c := c) hcounts hempty
      have hsums := hbehaves.adds (by rw [hcall])
      rw [hcall] at hsums ⊢
      refine ⟨⟨h.sized, hsums, ?_⟩, hpos⟩
      change nonEmpty (since ++ [o]) < c.effectiveObservationWindow
      rw [nonEmpty_append, if_pos hempty]
      exact h.short
    · rw [if_neg hempty] at hmeets
      obtain ⟨hpositions, hfits⟩ := hmeets
      obtain ⟨c', hobserved, hpositioned, hcase⟩ := h.observe_counted hcounts hempty hpositions
      have hkept : c'.observationWindow = c.observationWindow := by
        rw [hpositioned.rest]
        rfl
      rcases hcase with ⟨hshort, hcall⟩ | ⟨-, hsteps, hcall⟩
      · have hsums := hbehaves.adds (by rw [hcall])
        rw [hcall] at hsums ⊢
        refine ⟨⟨hpositioned.sized, hsums, ?_⟩, by rwa [hkept]⟩
        rw [hpositioned.window.1]
        exact hshort
      · rw [hobserved] at hfits
        obtain ⟨⟨decided, update⟩, hdecided⟩ := decide_ok_iff.mpr (hfits hsteps)
        rw [hdecided] at hcall
        rw [hcall]
        obtain ⟨_, _, _, _, rfl⟩ := decide_eq_ok hdecided
        obtain ⟨hsums, hsized⟩ := sums_resetWindow
          { c' with numSpecTokens := (c'.target _ _ _ _).1 }
        have hwindow : 0 < c'.observationWindow := by rwa [hkept]
        exact ⟨⟨hsized, hsums, effectiveObservationWindow_pos hwindow⟩, hwindow⟩
  · obtain ⟨hsame, e, he, -⟩ := observeBatch_rejected (c := c) hcounts
    rw [he, hsame]
    exact ⟨h, hpos⟩

theorem Run.tally {start : AcceptanceLengthController} (hstart : start.Tally [])
    (hpos : 0 < start.observationWindow) (h : Run start since c) :
    c.Tally since ∧ 0 < c.observationWindow := by
  induction h with
  | start => exact ⟨hstart, hpos⟩
  | observe _ hmeets ih => exact ih.1.next ih.2 hmeets

theorem init_tally {maxNumSpecTokens observationWindow : ℕ} {ladder : List ℕ}
    (h : init maxNumSpecTokens observationWindow ladder = .ok c) :
    c.Tally [] ∧ 0 < c.observationWindow := by
  simp only [init, bind_eq_ok, require_eq_ok, decide_eq_true_eq, pure_eq_ok] at h
  obtain ⟨-, -, -, hpos, rfl⟩ := h
  obtain ⟨hsums, hsized⟩ := sums_resetWindow {
    maxNumSpecTokens
    observationWindow
    depthLadder := ladderOf maxNumSpecTokens ladder
    numSpecTokens := (ladderOf maxNumSpecTokens ladder).headD maxNumSpecTokens
    positionEligible := List.replicate maxNumSpecTokens 0
    positionAccepted := List.replicate maxNumSpecTokens 0 }
  exact ⟨⟨hsized, hsums, effectiveObservationWindow_pos hpos⟩, hpos⟩

/-- In every run of calls that meet the condition the counters are the sums since the
last update, and the next call behaves exactly when it meets the condition, too. -/
theorem observeBatch_behaves_iff_meets {maxNumSpecTokens observationWindow : ℕ} {ladder : List ℕ}
    {start : AcceptanceLengthController}
    (hinit : init maxNumSpecTokens observationWindow ladder = .ok start) (hrun : Run start since c) :
    c.Sums since ∧ nonEmpty since < c.effectiveObservationWindow ∧
      ∀ o, c.Behaves since o ↔ c.Meets o := by
  obtain ⟨htally, hpos⟩ := init_tally hinit
  obtain ⟨h, -⟩ := hrun.tally htally hpos
  exact ⟨h.sums, h.short, fun o => ⟨h.meets, h.behaves⟩⟩

/-- The controller of the shipped ladder. -/
def shipped : AcceptanceLengthController where
  maxNumSpecTokens := 5
  observationWindow := 4
  depthLadder := [2, 4, 5]
  numSpecTokens := 2
  positionEligible := List.replicate 5 0
  positionAccepted := List.replicate 5 0

theorem shipped_init : init 5 4 [2, 4, 5] = .ok shipped := by
  have hladder : ladderOf 5 [2, 4, 5] = [2, 4, 5] := by decide
  simp only [init, hladder]
  rfl

theorem observeBatch_behaves_iff_meets_shipped :
    shipped.Behaves [] ⟨1, 3, 2, some [1, 1, 1], some [1, 1, 0]⟩ := by
  refine ((observeBatch_behaves_iff_meets shipped_init .start).2.2 _).mpr fun _ => ?_
  rw [if_neg (by decide)]
  have hopen : ¬ shipped.effectiveObservationWindow ≤ shipped.numObservationSteps + 1 := by decide
  exact ⟨⟨rfl, by decide, by decide⟩, fun hfull => absurd hfull hopen⟩

/-- The third position's pair is refused after the counts and two positions were added. -/
theorem observeBatch_half_counted : ∃ o : Observation, ∃ c,
    init 5 4 [2, 4, 5] = .ok shipped ∧
      shipped.observeBatch o = (c, .error "Invalid per-position acceptance counts.") ∧
      RaisesValueError (shipped.observeBatch o).2 ∧ c.numObservationSteps = 1 ∧
      c.positionEligible = [1, 1, 0, 0, 0] ∧ (shipped.observeBatch o).1 ≠ shipped := by
  refine ⟨⟨1, 3, 2, some [1, 1, 1], some [1, 1, 2]⟩, _, shipped_init, rfl, ⟨_, rfl, by decide⟩, rfl,
    rfl, ?_⟩
  intro hsame
  exact absurd (congrArg numObservationSteps hsame) (by decide)

end AcceptanceLengthController

end ChampionRuntime.Decoding
