import ChampionRuntime.Decoding.DepthLadder
import ChampionRuntime.Lib.Binary64

/-!
# The acceptance-length controller

`AcceptanceLengthController` of `acceptance_length.py`: it adds up the batches of
an observation window and moves along the depth ladder when the window is full.
-/
namespace ChampionRuntime.Decoding

open Lib
open Lib.Json (PyFloat)

structure AcceptanceLengthUpdate where
  previousNumSpecTokens : ℕ
  numSpecTokens : ℕ
  meanNumAcceptedTokens : PyFloat
  meanNumDraftTokens : PyFloat
  rawTargetNumSpecTokens : ℕ
  acceptanceRatchet : Bool
  decisionReason : String
  positionConditionalAcceptance : List PyFloat
  observationWindow : ℕ
  tailGain23 : PyFloat
  position4Gain : PyFloat

structure Observation where
  numDrafts : ℤ
  numDraftTokens : ℤ
  numAcceptedTokens : ℤ
  positionEligible : Option (List ℤ) := none
  positionAccepted : Option (List ℤ) := none

structure AcceptanceLengthController where
  maxNumSpecTokens : ℕ
  observationWindow : ℕ
  depthLadder : List ℕ
  numSpecTokens : ℕ
  numObservationSteps : ℕ := 0
  numDrafts : ℤ := 0
  numDraftTokens : ℤ := 0
  numAcceptedTokens : ℤ := 0
  positionEligible : List ℤ
  positionAccepted : List ℤ

namespace AcceptanceLengthController

/-- The ladder of the constructor: the rungs in range, or every depth, with the
maximum as the last rung. -/
def ladderOf (maxNumSpecTokens : ℕ) (depthLadder : List ℕ) : List ℕ :=
  let inRange := (depthLadder.filter fun depth => 1 ≤ depth ∧ depth ≤ maxNumSpecTokens).dedup
  let sorted := inRange.insertionSort (· ≤ ·)
  let ladder := if sorted = [] then List.range' 1 maxNumSpecTokens else sorted
  if ladder.getLast? = some maxNumSpecTokens then ladder else ladder ++ [maxNumSpecTokens]

def init (maxNumSpecTokens observationWindow : ℕ) (depthLadder : List ℕ) :
    Except String AcceptanceLengthController := do
  require (0 < maxNumSpecTokens) "max_num_spec_tokens must be greater than zero."
  require (0 < observationWindow) "observation_window must be greater than zero."
  let ladder := ladderOf maxNumSpecTokens depthLadder
  return {
    maxNumSpecTokens
    observationWindow
    depthLadder := ladder
    numSpecTokens := ladder.headD maxNumSpecTokens
    positionEligible := List.replicate maxNumSpecTokens 0
    positionAccepted := List.replicate maxNumSpecTokens 0 }

variable (c : AcceptanceLengthController)

def resetWindow : AcceptanceLengthController :=
  { c with
    numObservationSteps := 0
    numDrafts := 0
    numDraftTokens := 0
    numAcceptedTokens := 0
    positionEligible := List.replicate c.maxNumSpecTokens 0
    positionAccepted := List.replicate c.maxNumSpecTokens 0 }

/-- The window at the lowest rung, and half of it above. -/
def effectiveObservationWindow : ℕ :=
  if some c.numSpecTokens = c.depthLadder.head? then c.observationWindow
  else max 1 (c.observationWindow / 2)

/-- `a / b` of two integers; a quotient beyond the finite range raises. -/
def trueDiv (a b : ℤ) : Except String PyFloat :=
  match PyFloat.ofRat (a / b) with
  | .inf _ => .error "integer division result too large for a float"
  | x => .ok x

/-- `a / b` of two finite floats. -/
def floatDiv : PyFloat → PyFloat → PyFloat
  | .finite a, .finite b => PyFloat.ofRat (a / b)
  | _, _ => .nan

/-- `x >= literal` -/
def atLeast (x : PyFloat) (literal : ℚ) : Bool :=
  x != .nan && !PyFloat.lt x (PyFloat.ofRat literal)

/-- `floor(x + 1.5)` -/
def roundedLength : PyFloat → ℤ
  | .finite x =>
    match PyFloat.ofRat (x + 3 / 2) with
    | .finite y => ⌊y⌋
    | _ => 0
  | _ => 0

/-- The share of the drafts that was accepted. -/
def headRatio (meanAccepted meanDraft : PyFloat) : PyFloat :=
  if meanDraft = .finite 0 then .finite 0 else floatDiv meanAccepted meanDraft

/-- The policy of the tuned ladders: the depth, whether it was ratcheted up, and why. -/
def tunedTarget (meanAccepted meanDraft tailGain23 position4Gain : PyFloat) : ℕ × Bool × String :=
  if c.numSpecTokens = 2 then
    if atLeast (headRatio meanAccepted meanDraft) (85 / 100) then (4, true, "probe_k4") else (2, false, "k2_baseline")
  else if c.numSpecTokens = 4 then
    if c.depthLadder = [2, 4, 5] ∧ atLeast tailGain23 (70 / 100) then (5, true, "probe_k5")
    else if atLeast tailGain23 (35 / 100) then (4, false, "k4_hold")
    else (2, false, "k4_tail_reject")
  else if atLeast position4Gain (15 / 100) then (5, false, "k5_hold")
  else if atLeast tailGain23 (35 / 100) then (4, false, "k5_p4_reject")
  else (2, false, "k5_tail_reject")

/-- The policy of every other ladder: the rung below the rounded accepted length. -/
def formulaTarget (meanAccepted : PyFloat) : ℕ :=
  let formula := min (c.maxNumSpecTokens : ℤ) (max 1 (roundedLength meanAccepted))
  ((c.depthLadder.filter fun depth : ℕ => (depth : ℤ) ≤ formula).max?).getD
    (c.depthLadder.headD c.maxNumSpecTokens)

def target (meanAccepted meanDraft tailGain23 position4Gain : PyFloat) : ℕ × Bool × String :=
  if c.depthLadder = [2, 4] ∨ c.depthLadder = [2, 4, 5] then
    c.tunedTarget meanAccepted meanDraft tailGain23 position4Gain
  else (c.formulaTarget meanAccepted, false, "formula")

/-- Accepted tokens at the third and fourth position for each draft. -/
def tailGain23 : Except String PyFloat :=
  match c.positionAccepted[2]?, c.positionAccepted[3]? with
  | some a, some b => trueDiv (a + b) c.numDrafts
  | _, _ => .ok (.finite 0)

def position4Gain : Except String PyFloat :=
  match c.positionAccepted[4]? with
  | some a => trueDiv a c.numDrafts
  | none => .ok (.finite 0)

def decide : Except String (AcceptanceLengthController × AcceptanceLengthUpdate) := do
  let meanAccepted ← trueDiv c.numAcceptedTokens c.numDrafts
  let meanDraft ← trueDiv c.numDraftTokens c.numDrafts
  let rates ← (c.positionEligible.zip c.positionAccepted).mapM fun p =>
    if p.1 = 0 then .ok (.finite 0) else trueDiv p.2 p.1
  let tailGain23 ← c.tailGain23
  let position4Gain ← c.position4Gain
  let (depth, ratchet, reason) := c.target meanAccepted meanDraft tailGain23 position4Gain
  return ({ c with numSpecTokens := depth }.resetWindow, {
    previousNumSpecTokens := c.numSpecTokens
    numSpecTokens := depth
    meanNumAcceptedTokens := meanAccepted
    meanNumDraftTokens := meanDraft
    rawTargetNumSpecTokens := depth
    acceptanceRatchet := ratchet
    decisionReason := reason
    positionConditionalAcceptance := rates
    observationWindow := c.effectiveObservationWindow
    tailGain23 := tailGain23
    position4Gain := position4Gain })

/-- Add the position counts one after another; a bad pair raises after those before it. -/
def addPositions : List ℤ → List ℤ → List (ℤ × ℤ) → (List ℤ × List ℤ) × Except String Unit
  | eligible :: eligibles, accepted :: accepteds, (e, a) :: pairs =>
    if e < 0 ∨ a < 0 ∨ e < a then
      ((eligible :: eligibles, accepted :: accepteds),
        .error "Invalid per-position acceptance counts.")
    else
      let ((eligibles, accepteds), outcome) := addPositions eligibles accepteds pairs
      (((eligible + e) :: eligibles, (accepted + a) :: accepteds), outcome)
  | eligibles, accepteds, _ => ((eligibles, accepteds), .ok ())

/-- The per-position part of `observe_batch`. -/
def observePositions (o : Observation) : AcceptanceLengthController × Except String Unit :=
  match o.positionEligible, o.positionAccepted with
  | none, none => (c, .ok ())
  | some eligible, some accepted =>
    if eligible.length ≠ accepted.length then
      (c, .error "Position eligibility and acceptance lengths must match.")
    else if c.maxNumSpecTokens < eligible.length then
      (c, .error "Position vectors exceed max_num_spec_tokens.")
    else
      let ((eligibles, accepteds), outcome) :=
        addPositions c.positionEligible c.positionAccepted (eligible.zip accepted)
      ({ c with positionEligible := eligibles, positionAccepted := accepteds }, outcome)
  | _, _ => (c, .error "Position eligibility and acceptance must be provided together.")

def count (o : Observation) : AcceptanceLengthController :=
  { c with
    numObservationSteps := c.numObservationSteps + 1
    numDrafts := c.numDrafts + o.numDrafts
    numDraftTokens := c.numDraftTokens + o.numDraftTokens
    numAcceptedTokens := c.numAcceptedTokens + o.numAcceptedTokens }

/-- `observe_batch`; the state is what it leaves behind when it raises, too. -/
def observeBatch (o : Observation) :
    AcceptanceLengthController × Except String (Option AcceptanceLengthUpdate) :=
  if o.numDrafts < 0 ∨ o.numDraftTokens < 0 ∨ o.numAcceptedTokens < 0 then
    (c, .error "Speculative decoding counts must be non-negative.")
  else if o.numDraftTokens < o.numAcceptedTokens then
    (c, .error "num_accepted_tokens must not exceed num_draft_tokens.")
  else if o.numDrafts = 0 then
    if o.numDraftTokens ≠ 0 ∨ o.numAcceptedTokens ≠ 0 then
      (c, .error "Token counts require at least one draft.")
    else (c, .ok none)
  else
    match (c.count o).observePositions o with
    | (observed, .error e) => (observed, .error e)
    | (observed, .ok ()) =>
      if observed.numObservationSteps < observed.effectiveObservationWindow then
        (observed, .ok none)
      else
        match observed.decide with
        | .error e => (observed, .error e)
        | .ok (decided, update) => (decided, .ok (some update))

variable {c}

theorem mem_headD {ladder : List ℕ} {depth default : ℕ} (h : depth ∈ ladder) :
    ladder.headD default ∈ ladder := by
  cases ladder with
  | nil => simp at h
  | cons first ladder => exact List.mem_cons_self

theorem tunedTarget_mem (hladder : c.depthLadder = [2, 4] ∨ c.depthLadder = [2, 4, 5])
    (h : c.numSpecTokens ∈ c.depthLadder)
    (meanAccepted meanDraft tailGain23 position4Gain : PyFloat) :
    (c.tunedTarget meanAccepted meanDraft tailGain23 position4Gain).1 ∈ c.depthLadder := by
  unfold tunedTarget
  rcases hladder with hladder | hladder
  · rw [hladder] at h ⊢
    rcases List.mem_pair.mp h with htwo | hfour
    · simp only [htwo, if_true]
      split_ifs <;> simp
    · have hne : ([2, 4] : List ℕ) ≠ [2, 4, 5] := by decide
      simp only [hfour, hne, false_and, if_false, if_true]
      split_ifs <;> simp
  · rw [hladder]
    split_ifs <;> simp

theorem formulaTarget_mem (h : c.numSpecTokens ∈ c.depthLadder) (meanAccepted : PyFloat) :
    c.formulaTarget meanAccepted ∈ c.depthLadder := by
  unfold formulaTarget
  cases hmax : (c.depthLadder.filter fun depth : ℕ =>
      (depth : ℤ) ≤ min (c.maxNumSpecTokens : ℤ) (max 1 (roundedLength meanAccepted))).max? with
  | none =>
    simp only [hmax, Option.getD_none]
    exact mem_headD h
  | some depth =>
    simp only [hmax, Option.getD_some]
    exact List.mem_of_mem_filter (List.max?_mem hmax)

theorem target_mem (h : c.numSpecTokens ∈ c.depthLadder)
    (meanAccepted meanDraft tailGain23 position4Gain : PyFloat) :
    (c.target meanAccepted meanDraft tailGain23 position4Gain).1 ∈ c.depthLadder := by
  unfold target
  split_ifs with hladder
  · exact tunedTarget_mem hladder h _ _ _ _
  · exact formulaTarget_mem h meanAccepted

theorem decide_eq_ok {c' : AcceptanceLengthController} {update : AcceptanceLengthUpdate}
    (h : c.decide = .ok (c', update)) :
    ∃ meanAccepted meanDraft tailGain23 position4Gain,
      c' = { c with
        numSpecTokens := (c.target meanAccepted meanDraft tailGain23 position4Gain).1 }.resetWindow := by
  simp only [decide, bind_eq_ok, pure_eq_ok, Prod.mk.injEq] at h
  obtain ⟨meanAccepted, -, meanDraft, -, _, -, tailGain23, -, position4Gain, -, rfl, -⟩ := h
  exact ⟨meanAccepted, meanDraft, tailGain23, position4Gain, rfl⟩

theorem observePositions_keeps (c : AcceptanceLengthController) (o : Observation) :
    (c.observePositions o).1.numSpecTokens = c.numSpecTokens ∧
      (c.observePositions o).1.depthLadder = c.depthLadder := by
  unfold observePositions
  split
  · exact ⟨rfl, rfl⟩
  · split_ifs <;> exact ⟨rfl, rfl⟩
  · exact ⟨rfl, rfl⟩

theorem observeBatch_mem (h : c.numSpecTokens ∈ c.depthLadder) (o : Observation) :
    (c.observeBatch o).1.depthLadder = c.depthLadder ∧
      (c.observeBatch o).1.numSpecTokens ∈ c.depthLadder := by
  unfold observeBatch
  split_ifs
  · exact ⟨rfl, h⟩
  · exact ⟨rfl, h⟩
  · exact ⟨rfl, h⟩
  · exact ⟨rfl, h⟩
  · obtain ⟨hdepth, hladder⟩ := observePositions_keeps (c.count o) o
    cases hobserved : (c.count o).observePositions o with
    | mk observed outcome =>
      rw [hobserved] at hdepth hladder
      have hmem : observed.numSpecTokens ∈ observed.depthLadder := by
        rw [hdepth, hladder]
        exact h
      cases outcome with
      | error e => exact ⟨hladder, hladder ▸ hmem⟩
      | ok _ =>
        dsimp only
        split_ifs
        · exact ⟨hladder, hladder ▸ hmem⟩
        · cases hdecided : observed.decide with
          | error e => exact ⟨hladder, hladder ▸ hmem⟩
          | ok decision =>
            obtain ⟨decided, update⟩ := decision
            obtain ⟨meanAccepted, meanDraft, tail, gain, rfl⟩ := decide_eq_ok hdecided
            have htarget := target_mem hmem meanAccepted meanDraft tail gain
            exact ⟨hladder, hladder ▸ htarget⟩

/-- The states of a controller over any sequence of observations. -/
inductive Reachable (start : AcceptanceLengthController) : AcceptanceLengthController → Prop where
  | start : Reachable start start
  | observe {c : AcceptanceLengthController} (o : Observation) (h : Reachable start c) :
      Reachable start (c.observeBatch o).1

theorem Reachable.mem {start : AcceptanceLengthController}
    (hstart : start.numSpecTokens ∈ start.depthLadder) (h : Reachable start c) :
    c.depthLadder = start.depthLadder ∧ c.numSpecTokens ∈ start.depthLadder := by
  induction h with
  | start => exact ⟨rfl, hstart⟩
  | observe o _ ih =>
    obtain ⟨hladder, hmem⟩ := ih
    obtain ⟨hladder', hmem'⟩ := observeBatch_mem (hladder ▸ hmem) o
    exact ⟨hladder'.trans hladder, hladder ▸ hmem'⟩

theorem mem_ladderOf {maxNumSpecTokens : ℕ} {ladder : List ℕ} (hpos : 0 < maxNumSpecTokens)
    (hmem : maxNumSpecTokens ∈ ladder) {depth : ℕ} (h : depth ∈ ladderOf maxNumSpecTokens ladder) :
    depth ∈ ladder := by
  have hin : maxNumSpecTokens ∈ (ladder.filter fun depth =>
      1 ≤ depth ∧ depth ≤ maxNumSpecTokens).dedup.insertionSort (· ≤ ·) := by
    rw [(List.perm_insertionSort _ _).mem_iff, List.mem_dedup, List.mem_filter]
    exact ⟨hmem, by simp; omega⟩
  have hkept : depth ∈ (ladder.filter fun depth =>
      1 ≤ depth ∧ depth ≤ maxNumSpecTokens).dedup.insertionSort (· ≤ ·) ∨
        depth = maxNumSpecTokens := by
    simp only [ladderOf, List.ne_nil_of_mem hin, if_false] at h
    split_ifs at h
    · exact .inl h
    · simpa using h
  rcases hkept with hkept | rfl
  · rw [(List.perm_insertionSort _ _).mem_iff, List.mem_dedup] at hkept
    exact List.mem_of_mem_filter hkept
  · exact hmem

theorem init_spec {maxNumSpecTokens observationWindow : ℕ} {ladder : List ℕ}
    (h : init maxNumSpecTokens observationWindow ladder = .ok c) :
    c.depthLadder = ladderOf maxNumSpecTokens ladder ∧ c.numSpecTokens ∈ c.depthLadder := by
  simp only [init, bind_eq_ok, require_eq_ok, pure_eq_ok] at h
  obtain ⟨-, -, -, -, rfl⟩ := h
  refine ⟨rfl, ?_⟩
  have hlast : maxNumSpecTokens ∈ ladderOf maxNumSpecTokens ladder := by
    simp only [ladderOf]
    split_ifs with _ hlast hlast
    all_goals first
      | exact List.mem_of_getLast? hlast
      | simp
  exact mem_headD hlast

end AcceptanceLengthController

end ChampionRuntime.Decoding
