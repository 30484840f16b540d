import ChampionRuntime.Lib.Outcome
import ChampionRuntime.Lib.PyInt
import Mathlib.Data.List.Dedup
import Mathlib.Data.List.Sort

/-!
# The depth ladder

`depth_ladder.py`: the depths adaptive speculation may draft, read from one
environment variable by the scheduler and by the graph manager alike.
-/
namespace ChampionRuntime.Decoding

open Lib PyText

def adaptiveSpecDepthsDefault : String := "2,4,5"

/-- `sorted(set(values))` -/
def sortedSet (values : List ℤ) : List ℤ := values.dedup.insertionSort (· ≤ ·)

/-- `_parse`; a token that is no integer spoils the whole text. -/
def parseDepths (text : String) : Option (List ℤ) :=
  (((splitOnChar ',' text.toList).filter fun tok => strip tok ≠ []).mapM pyInt).map sortedSet

/-- `parse_adaptive_spec_depth_ladder`, on the value of `VLLM_ADAPTIVE_SPEC_DEPTHS`. -/
def parseAdaptiveSpecDepthLadder (maxNumSpecTokens : ℕ) (env : Option String) :
    Except String (List ℕ) := do
  require (0 < maxNumSpecTokens) "max_num_spec_tokens must be greater than zero."
  let raw := env.getD adaptiveSpecDepthsDefault
  let depths := match parseDepths raw with
    | some depths => depths
    | none => (parseDepths adaptiveSpecDepthsDefault).getD []
  let valid := depths.filter fun depth => 1 ≤ depth ∧ depth ≤ maxNumSpecTokens
  return (sortedSet (valid ++ [(maxNumSpecTokens : ℤ)])).map Int.toNat

variable {maxNumSpecTokens : ℕ} {env : Option String} {ladder : List ℕ}

theorem mem_sortedSet {values : List ℤ} {value : ℤ} : value ∈ sortedSet values ↔ value ∈ values := by
  rw [sortedSet, (List.perm_insertionSort _ _).mem_iff, List.mem_dedup]

theorem ladder_spec (h : parseAdaptiveSpecDepthLadder maxNumSpecTokens env = .ok ladder) :
    0 < maxNumSpecTokens ∧ maxNumSpecTokens ∈ ladder ∧
      ∀ depth ∈ ladder, 1 ≤ depth ∧ depth ≤ maxNumSpecTokens := by
  simp only [parseAdaptiveSpecDepthLadder, bind_eq_ok, require_eq_ok, decide_eq_true_eq,
    pure_eq_ok] at h
  obtain ⟨-, hpos, rfl⟩ := h
  refine ⟨hpos, List.mem_map.mpr ⟨maxNumSpecTokens, ?_, Int.toNat_natCast _⟩, ?_⟩
  · rw [mem_sortedSet, List.mem_append]
    exact .inr (List.mem_singleton_self _)
  · intro depth hmem
    obtain ⟨value, hvalue, rfl⟩ := List.mem_map.mp hmem
    rw [mem_sortedSet, List.mem_append, List.mem_filter, List.mem_singleton] at hvalue
    rcases hvalue with ⟨-, hrange⟩ | rfl
    · simp only [decide_eq_true_eq] at hrange
      omega
    · omega

example : parseAdaptiveSpecDepthLadder 5 (some "4,,2, 9,-1") = .ok [2, 4, 5] := by decide

end ChampionRuntime.Decoding
