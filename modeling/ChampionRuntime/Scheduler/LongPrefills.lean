import ChampionRuntime.Scheduler.State
import Mathlib.Data.List.Sort
import Mathlib.Tactic

/-!
# Turns of the long prefills

`_is_long_prefill_request`, `_select_long_prefill_request_ids` and
`_debit_unused_long_prefill_turns`.
-/
namespace ChampionRuntime.Scheduler

open Lib

variable {σ : Type} (cfg : Config)

def isLongPrefillRequest (r : Request) : Bool :=
  if (r.numPromptTokens : ℤ) ≤ cfg.longPrefillTokenThreshold then false
  else if r.status = .running then r.isPrefillChunk
  else r.status = .waiting ∨ r.status = .preempted

namespace State

/-- When a long prefill ran last, `-1` for never, and when it arrived. -/
def longPrefillAge (s : State σ) (id : RequestId) : ℤ × ℚ :=
  (match s.longPrefillLastScheduled id with
    | some step => step
    | none => -1,
   (s.request id).arrivalTime)

/-- The order of `by_age`. -/
def OlderOrEqual (s : State σ) (a b : RequestId) : Prop :=
  (s.longPrefillAge a).1 < (s.longPrefillAge b).1 ∨
    (s.longPrefillAge a).1 = (s.longPrefillAge b).1 ∧
      (s.longPrefillAge a).2 ≤ (s.longPrefillAge b).2

instance (s : State σ) : DecidableRel s.OlderOrEqual := fun _ _ => inferInstanceAs (Decidable (_ ∨ _))

def byAge (s : State σ) (ids : List RequestId) : List RequestId :=
  ids.insertionSort s.OlderOrEqual

/-- `_select_long_prefill_request_ids`: the selection, and the state without the turns of
requests that are gone. -/
def selectLongPrefillRequestIds (s : State σ) : List RequestId × State σ :=
  if cfg.enableDecodeAwarePrefill = false then ([], s)
  else
    let runningCandidates := s.running.filter fun id => isLongPrefillRequest cfg (s.request id)
    let waitingCandidates := ((s.waiting ++ s.skippedWaiting).filter fun id =>
      id ∉ runningCandidates ∧ isLongPrefillRequest cfg (s.request id)).eraseDups
    let s := { s with
      longPrefillLastScheduled := fun id =>
        if id ∈ s.requests then s.longPrefillLastScheduled id else none }
    let admittable := cfg.maxNumRunningReqs - s.running.length
    let keep := (s.byAge waitingCandidates).take admittable
    let candidates := runningCandidates ++ waitingCandidates.filter fun id => id ∈ keep
    ((s.byAge candidates).take cfg.maxLongPrefillsPerStep, s)

def debitUnusedLongPrefillTurns (selected : List RequestId) (numScheduledTokens : Dict RequestId ℤ)
    (deferPrefills : Bool) (s : State σ) : State σ :=
  if cfg.enableDecodeAwarePrefill = false ∨ selected = [] then s
  else if deferPrefills ∨ s.pauseState = .pausedAll then s
  else
    let unused := selected.filter fun id => (numScheduledTokens.get? id).isNone
    { s with
      longPrefillWastedTurns := s.longPrefillWastedTurns + unused.length
      longPrefillLastScheduled := fun id =>
        if id ∈ unused then some s.currentStep else s.longPrefillLastScheduled id }

theorem length_selected_le (s : State σ) :
    (s.selectLongPrefillRequestIds cfg).1.length ≤ cfg.maxLongPrefillsPerStep := by
  unfold selectLongPrefillRequestIds
  split_ifs
  · exact Nat.zero_le _
  · exact List.length_take_le _ _

end State

end ChampionRuntime.Scheduler
