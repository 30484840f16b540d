import ChampionRuntime.Decoding.Controller
import ChampionRuntime.Decoding.GraphCoverage

/-!
# One ladder for three readers

The parser, the controller that walks the ladder and the graph manager that
captures it. Each of the three normalises what it is given, so a ladder that is
already normal is the same ladder for all of them.
-/
namespace ChampionRuntime.Decoding

open Lib PyText

variable {maxNumSpecTokens : ℕ} {ladder : List ℕ}

theorem sortedSet_pairwise (values : List ℤ) : (sortedSet values).Pairwise (· < ·) := by
  have hsorted : (sortedSet values).Pairwise (· ≤ ·) :=
    List.pairwise_insertionSort (· ≤ ·) values.dedup
  have hnodup : (sortedSet values).Nodup :=
    (List.perm_insertionSort (· ≤ ·) values.dedup).nodup_iff.mpr (List.nodup_dedup values)
  apply (hsorted.and hnodup).imp
  intro a b hab
  exact lt_of_le_of_ne hab.1 hab.2

/-- What makes a ladder normal for a maximum depth. -/
structure IsLadder (maxNumSpecTokens : ℕ) (ladder : List ℕ) : Prop where
  increasing : ladder.Pairwise (· < ·)
  bounded : ∀ depth ∈ ladder, 1 ≤ depth ∧ depth ≤ maxNumSpecTokens
  top : maxNumSpecTokens ∈ ladder

namespace IsLadder

theorem getLast? (h : IsLadder maxNumSpecTokens ladder) :
    ladder.getLast? = some maxNumSpecTokens := by
  have hne := List.ne_nil_of_mem h.top
  have hsplit := List.dropLast_append_getLast hne
  have hle : maxNumSpecTokens ≤ ladder.getLast hne := by
    have hmem : maxNumSpecTokens ∈ ladder.dropLast ++ [ladder.getLast hne] := by
      rw [hsplit]
      exact h.top
    have hpairwise := h.increasing
    rw [← hsplit, List.pairwise_append] at hpairwise
    rcases List.mem_append.mp hmem with hmem | hmem
    · exact le_of_lt (hpairwise.2.2 _ hmem _ (List.mem_singleton_self _))
    · exact le_of_eq (List.mem_singleton.mp hmem)
  have hbound := (h.bounded _ (List.getLast_mem hne)).2
  rw [List.getLast?_eq_some_getLast hne, le_antisymm hbound hle]

theorem ladderOf_eq (h : IsLadder maxNumSpecTokens ladder) :
    AcceptanceLengthController.ladderOf maxNumSpecTokens ladder = ladder := by
  have hfilter : (ladder.filter fun depth => 1 ≤ depth ∧ depth ≤ maxNumSpecTokens) = ladder := by
    apply List.filter_eq_self.mpr
    intro depth hmem
    exact decide_eq_true (h.bounded depth hmem)
  have hnodup : ladder.dedup = ladder :=
    List.dedup_eq_self.mpr (h.increasing.imp fun hlt => ne_of_lt hlt)
  have hsort : ladder.insertionSort (· ≤ ·) = ladder :=
    (h.increasing.imp fun hlt => le_of_lt hlt).insertionSort_eq
  have hne := List.ne_nil_of_mem h.top
  simp only [AcceptanceLengthController.ladderOf, hfilter, hnodup, hsort, hne, if_false,
    h.getLast?, if_true]

end IsLadder

theorem parseDepths_eq {text : String} {values : List ℤ}
    (h : ((splitOnChar ',' text.toList).filter fun tok => strip tok ≠ []).mapM pyInt = some values) :
    parseDepths text = some (sortedSet values) := by
  rw [parseDepths, h, Option.map_some]

theorem parseAdaptiveSpecDepthLadder_eq (env : Option String) (hpos : 0 < maxNumSpecTokens) :
    ∃ ladder, parseAdaptiveSpecDepthLadder maxNumSpecTokens env = .ok ladder ∧
      IsLadder maxNumSpecTokens ladder ∧
      ∀ depths, parseDepths (env.getD adaptiveSpecDepthsDefault) = some depths →
        ∀ depth : ℕ, depth ∈ ladder ↔ depth = maxNumSpecTokens ∨
          (1 ≤ depth ∧ depth ≤ maxNumSpecTokens) ∧ (depth : ℤ) ∈ depths := by
  have hparse : ∃ depths : List ℤ, parseAdaptiveSpecDepthLadder maxNumSpecTokens env =
      .ok ((sortedSet ((depths.filter fun depth : ℤ => 1 ≤ depth ∧ depth ≤ maxNumSpecTokens) ++
        [(maxNumSpecTokens : ℤ)])).map Int.toNat) ∧
      ∀ parsed, parseDepths (env.getD adaptiveSpecDepthsDefault) = some parsed → depths = parsed := by
    simp only [parseAdaptiveSpecDepthLadder, hpos, decide_true, require_true, ok_bind]
    cases hread : parseDepths (env.getD adaptiveSpecDepthsDefault) with
    | none => exact ⟨_, rfl, by simp⟩
    | some parsed => exact ⟨parsed, rfl, fun other h => Option.some.inj h⟩
  obtain ⟨depths, hladder, hdepths⟩ := hparse
  obtain ⟨-, htop, hbounded⟩ := ladder_spec hladder
  have hvalue : ∀ value ∈ sortedSet ((depths.filter fun depth : ℤ =>
      1 ≤ depth ∧ depth ≤ maxNumSpecTokens) ++ [(maxNumSpecTokens : ℤ)]), 1 ≤ value := by
    intro value hmem
    rw [mem_sortedSet, List.mem_append, List.mem_filter, List.mem_singleton] at hmem
    rcases hmem with ⟨-, hrange⟩ | rfl
    · exact (of_decide_eq_true hrange).1
    · omega
  have hincreasing := sortedSet_pairwise ((depths.filter fun depth : ℤ =>
    1 ≤ depth ∧ depth ≤ maxNumSpecTokens) ++ [(maxNumSpecTokens : ℤ)])
  refine ⟨_, hladder, ⟨?_, hbounded, htop⟩, ?_⟩
  · rw [List.pairwise_map]
    apply hincreasing.imp_of_mem
    intro a b ha hb hab
    have hapos := hvalue a ha
    omega
  · intro parsed hparsed depth
    rw [hdepths parsed hparsed] at hvalue ⊢
    simp only [List.mem_map, mem_sortedSet, List.mem_append, List.mem_filter, List.mem_singleton,
      decide_eq_true_eq] at hvalue ⊢
    constructor
    · rintro ⟨value, hmem, rfl⟩
      have hone := hvalue value hmem
      rcases hmem with ⟨hmem, hrange⟩ | rfl
      · right
        rw [Int.toNat_of_nonneg (by omega)]
        exact ⟨by omega, hmem⟩
      · left
        omega
    · rintro (rfl | ⟨hrange, hmem⟩)
      · exact ⟨depth, .inr rfl, by omega⟩
      · exact ⟨depth, .inl ⟨hmem, by omega⟩, by omega⟩

/-- The parser, every state of a controller built from its ladder and the graph
manager agree on one increasing ladder, whatever the text is. -/
theorem ladder_agreement (raw : String) (maxNumSpecTokens observationWindow : ℕ)
    (hpos : 0 < maxNumSpecTokens) (hwindow : 0 < observationWindow) :
    ∃ ladder c₀,
      parseAdaptiveSpecDepthLadder maxNumSpecTokens (some raw) = .ok ladder ∧
      ladder.Pairwise (· < ·) ∧ (∀ depth ∈ ladder, 1 ≤ depth ∧ depth ≤ maxNumSpecTokens) ∧
      maxNumSpecTokens ∈ ladder ∧
      (∀ values, ((splitOnChar ',' raw.toList).filter fun tok => strip tok ≠ []).mapM pyInt =
          some values →
        ∀ depth : ℕ, depth ∈ ladder ↔ depth = maxNumSpecTokens ∨
          (1 ≤ depth ∧ depth ≤ maxNumSpecTokens) ∧ (depth : ℤ) ∈ values) ∧
      AcceptanceLengthController.init maxNumSpecTokens observationWindow ladder = .ok c₀ ∧
      c₀.depthLadder = ladder ∧
      (∀ c, AcceptanceLengthController.Reachable c₀ c →
        c.depthLadder = ladder ∧ c.numSpecTokens ∈ ladder) ∧
      ∀ graphs : GraphConfig, graphs.numSpeculativeTokens = maxNumSpecTokens →
        graphs.ladderEnv = some raw → graphs.adaptation = true → 1 ≤ graphs.numNewSampledTokens →
        ∃ queryLens, graphs.adaptiveSpecDecodeQueryLens = .ok queryLens ∧
          ∀ queryLen, queryLen ∈ queryLens ↔
            ∃ depth ∈ ladder, queryLen = depth + graphs.numNewSampledTokens := by
  obtain ⟨ladder, hparse, hladder, hmem⟩ :=
    parseAdaptiveSpecDepthLadder_eq (some raw) hpos
  have hinit : ∃ c₀, AcceptanceLengthController.init maxNumSpecTokens observationWindow ladder =
      .ok c₀ := by
    simp only [AcceptanceLengthController.init, hpos, hwindow, decide_true, require_true, ok_bind]
    exact ⟨_, rfl⟩
  obtain ⟨c₀, hinit⟩ := hinit
  obtain ⟨hsame, hstart⟩ := AcceptanceLengthController.init_spec hinit
  rw [hladder.ladderOf_eq] at hsame
  refine ⟨ladder, c₀, hparse, hladder.increasing, hladder.bounded, hladder.top, ?_, hinit, hsame,
    ?_, ?_⟩
  · intro values hvalues depth
    rw [hmem _ (parseDepths_eq hvalues), mem_sortedSet]
  · intro c hreach
    have hmem := hreach.mem hstart
    rwa [hsame] at hmem
  · intro graphs hdepths henv hadapt hsampled
    subst hdepths
    rw [← henv] at hparse
    refine ⟨_, (GraphConfig.adaptiveSpecDecodeQueryLens_eq hadapt hsampled hparse).1, ?_⟩
    intro queryLen
    rw [List.mem_map]
    constructor
    · rintro ⟨depth, hmem, heq⟩
      exact ⟨depth, hmem, heq.symm⟩
    · rintro ⟨depth, hmem, heq⟩
      exact ⟨depth, hmem, heq.symm⟩

theorem ladder_agreement_repeated : ∃ ladder c₀,
    parseAdaptiveSpecDepthLadder 5 (some "9,2,2,-1") = .ok ladder ∧
      AcceptanceLengthController.init 5 10 ladder = .ok c₀ ∧ c₀.depthLadder = ladder := by
  obtain ⟨ladder, c₀, hparse, -, -, -, -, hinit, hsame, -⟩ :=
    ladder_agreement "9,2,2,-1" 5 10 (by decide) (by decide)
  exact ⟨ladder, c₀, hparse, hinit, hsame⟩

end ChampionRuntime.Decoding
