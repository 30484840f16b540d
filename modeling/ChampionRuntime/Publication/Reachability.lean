import ChampionRuntime.Publication.IdentityChain

/-!
# Claims that stay reachable

A passed entry keeps its receipts in every later pool. The receipts of a passed
`bit-reproducible` entry hold two produced builds, while every claim about one
image asks for a single produced build in the whole pool, so the comparison of
two builds ends the life of the status document.
-/
namespace ChampionRuntime.Publication

open Lib

variable {pool : Pool}

/-- The claims that speak about one image. -/
def imageClaims : List String :=
  ["clean-build", "live-launch", "benchmark-reproduced", "three-profile-suite",
    "anonymous-readback", "convenience-image-published", "convenience-image-readback"]

theorem deriveClean_of_imageClaim {claim : String} (hc : claim ∈ imageClaims)
    {profile : Option String} {result : Subject × List String}
    (h : derive claim pool profile = .ok result) : ∃ clean, deriveClean pool = .ok clean := by
  have hlive : ∀ {name subject liveIds}, deriveLive pool name = .ok (subject, liveIds) →
      ∃ clean, deriveClean pool = .ok clean := by
    intro name subject liveIds hl
    obtain ⟨clean, cleanIds, -, -, -, -, hclean, -⟩ := deriveLive_eq_ok.mp hl
    exact ⟨_, hclean⟩
  have hbench : ∀ {name subject cited}, deriveBenchmark pool name = .ok (subject, cited) →
      ∃ clean, deriveClean pool = .ok clean := by
    intro name subject cited hb
    obtain ⟨_, hl, -⟩ := deriveBenchmark_eq_ok.mp hb
    exact hlive hl
  have hpublished : ∀ {subject cited}, derivePublished pool = .ok (subject, cited) →
      ∃ clean, deriveClean pool = .ok clean := by
    intro subject cited hp
    obtain ⟨cleanIds, -, -, hclean, -⟩ := derivePublished_eq_ok.mp hp
    exact ⟨_, hclean⟩
  simp only [imageClaims, List.mem_cons, List.not_mem_nil, or_false] at hc
  rcases hc with rfl | rfl | rfl | rfl | rfl | rfl | rfl
  · exact ⟨result, h⟩
  · exact hlive h
  · exact hbench h
  · obtain ⟨fast, -, -, hf, -⟩ := deriveSuite_eq_ok.mp h
    exact hbench hf
  · obtain ⟨_, _, -, hl, -⟩ := deriveAnonymous_eq_ok.mp h
    exact hlive hl
  · exact hpublished h
  · obtain ⟨_, -, hp, -⟩ := deriveReadback_eq_ok.mp h
    exact hpublished hp

theorem deriveClean_one_build {clean : Subject × List String}
    (h : deriveClean pool = .ok clean) : (ofType pool "build-produced").length = 1 := by
  obtain ⟨_, _, _, -, hitems, -⟩ := deriveClean_eq_ok.mp h
  obtain ⟨item, -, hpick⟩ := mem_of_mapM_eq_ok hitems (show "build-produced" ∈ buildTypes by decide)
  exact congrArg List.length (onePass_eq_ok.mp hpick).1

theorem deriveBitReproducible_two_builds {result : Subject × List String}
    (h : deriveBitReproducible pool = .ok result) :
    2 ≤ (ofType pool "build-produced").length := by
  obtain ⟨_, _, _, _, _, -, -, -, hdigests, -⟩ := deriveBitReproducible_eq_ok.mp h
  obtain ⟨found, rfl, htwo, -⟩ := comparedDigests_eq_ok.mp hdigests
  calc 2 = _ := htwo.symm
    _ ≤ ((ofType pool "build-produced").map fun item =>
          item.receipt.subject .imageDigest).length := (List.dedup_sublist _).length_le
    _ = (ofType pool "build-produced").length := List.length_map _

theorem ofType_citedBy_length_le (pool : Pool) (receiptIds : List String) (kind : String) :
    (ofType (citedBy receiptIds pool) kind).length ≤ (ofType pool kind).length :=
  (List.Sublist.filter _ List.filter_sublist).length_le

/-- Once `bit-reproducible` is passed, no claim about one image can be promoted
any more, whatever the pool. -/
theorem promote_blocked_by_bit_reproducible {status : Status} {entry : ClaimEntry}
    (hentry : entry ∈ status.claims) (hbit : entry.claim = "bit-reproducible")
    (hpassed : entry.status = .passed) {claim : String} (hc : claim ∈ imageClaims) :
    ∀ (receipts : List PoolItem) (profile now : Option String) (clock : String),
      ∃ cause, promote status claim receipts profile now clock = .error cause := by
  intro receipts profile now clock
  cases h : promote status claim receipts profile now clock with
  | error cause => exact ⟨cause, rfl⟩
  | ok status' =>
    exfalso
    obtain ⟨pool, _, _, -, hjustified, hderive, -, -⟩ := promote_eq_ok.mp h
    obtain ⟨-, cited, hagain, -⟩ := hjustified entry hentry hpassed
    rw [hbit] at hagain
    obtain ⟨clean, hclean⟩ := deriveClean_of_imageClaim hc hderive
    have htwo := deriveBitReproducible_two_builds hagain
    have hone := deriveClean_one_build hclean
    have hle := ofType_citedBy_length_le pool entry.receiptIds "build-produced"
    omega

def comparedReceipts : Pool :=
  sourceReceipts ++ buildReceipts "e" ++ buildReceipts "e2" ++
    [testReceipt "comparison" "build-comparison" (Subject.project stableKeys (testSubject "e"))
      { normalizedOutputsEqual := some true }]

/-- The status after `bit-reproducible` was promoted from these receipts. -/
def comparedStatus : Status :=
  ((promote emptyStatus "bit-reproducible" (comparedReceipts.map .verified) none (some "now")
    "clock").toOption).getD emptyStatus

theorem promote_blocked_by_bit_reproducible_two_images :
    ∃ entry ∈ comparedStatus.claims, entry.claim = "bit-reproducible" ∧ entry.status = .passed ∧
      ∃ cause, promote comparedStatus "clean-build" (comparedReceipts.map .verified) none
        (some "now") "clock" = .error cause := by
  obtain ⟨entry, hentry, hbit, hpassed⟩ : ∃ entry ∈ comparedStatus.claims,
      entry.claim = "bit-reproducible" ∧ entry.status = .passed := by decide
  exact ⟨entry, hentry, hbit, hpassed,
    promote_blocked_by_bit_reproducible hentry hbit hpassed (by decide) _ _ _ _⟩

/-- The chain of the first image alone derives `clean-build`, and it is part of
the pool `bit-reproducible` was promoted from; yet the promotion is refused. -/
theorem clean_build_unreachable_after_comparison :
    ∃ status chain, promote emptyStatus "bit-reproducible" (comparedReceipts.map .verified) none
        (some "now") "clock" = .ok status ∧
      chain ⊆ comparedReceipts ∧ (derive "clean-build" chain none).toOption.isSome = true ∧
      promote status "clean-build" (comparedReceipts.map .verified) none (some "now") "clock" =
        .error (.expectedOne "build-produced" 2) := by
  obtain ⟨status, hstatus⟩ := exists_ok_of_isSome (show (promote emptyStatus "bit-reproducible"
    (comparedReceipts.map .verified) none (some "now") "clock").toOption.isSome = true by decide)
  refine ⟨status, sourceReceipts ++ buildReceipts "e", hstatus, by decide, by decide, ?_⟩
  have heq : comparedStatus = status := by rw [comparedStatus, hstatus]; rfl
  rw [← heq]
  decide

end ChampionRuntime.Publication
