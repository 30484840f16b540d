import ChampionRuntime.Publication.Gate

/-!
# What a successful derivation established

One inversion lemma per derivation of the gate: the receipts it selected, the
subject it assembled and the identifiers it cites. Later proofs use these and
never unfold a derivation.
-/
namespace ChampionRuntime.Publication

open Lib

variable {pool : Pool} {subject : Subject} {cited : List String}

theorem mem_ids {items : Pool} {item : VerifiedReceipt} (h : item ∈ items) :
    item.receipt.receiptId ∈ ids items := List.mem_map_of_mem h

@[simp] theorem ids_append (a b : Pool) : ids (a ++ b) = ids a ++ ids b := List.map_append

theorem poolOf_eq_ok {receipts : List PoolItem} :
    poolOf receipts = .ok pool ↔ receipts = pool.map .verified ∧ (ids pool).Nodup := by
  simp only [poolOf, bind_eq_ok, require_eq_ok, decide_eq_true_eq, pure_eq_ok]
  constructor
  · rintro ⟨items, hitems, _, hnd, rfl⟩
    refine ⟨?_, hnd⟩
    rw [mapM_eq_ok] at hitems
    clear hnd
    induction hitems with
    | nil => rfl
    | @cons x y xs ys hxy _ ih =>
      cases x with
      | verified item => simp_all
      | raw receipt => simp at hxy
  · rintro ⟨rfl, hnd⟩
    refine ⟨pool, ?_, (), hnd, rfl⟩
    clear hnd
    rw [mapM_eq_ok]
    induction pool with
    | nil => exact .nil
    | cons item pool ih => exact .cons rfl ih

theorem onlyPass_eq_ok {found : Pool} {miscounted : ℕ → GateError} {failed : GateError}
    {item : VerifiedReceipt} :
    onlyPass found miscounted failed = .ok item ↔
      found = [item] ∧ item.receipt.result = .pass := by
  unfold onlyPass
  split
  · split_ifs with h
    · simp only [Except.ok.injEq, List.cons.injEq, and_true]
      constructor
      · rintro rfl; exact ⟨rfl, h⟩
      · exact fun h' => h'.1
    · simp only [List.cons.injEq, and_true, false_iff, not_and]
      rintro rfl; exact h
  · rename_i hne
    simp only [reduceCtorEq, false_iff, not_and]
    exact fun h => absurd h (hne item)

theorem onePass_eq_ok {kind : String} {item : VerifiedReceipt} :
    onePass pool kind = .ok item ↔
      pool.filter (hasType kind) = [item] ∧ item.receipt.result = .pass :=
  onlyPass_eq_ok

theorem profilePass_eq_ok {profile kind : String} {item : VerifiedReceipt} :
    profilePass pool profile kind = .ok item ↔
      (ofType pool kind).filter (hasProfile profile) = [item] ∧ item.receipt.result = .pass :=
  onlyPass_eq_ok

theorem commonSubject_eq_ok {items : Pool} {keys : List SubjectKey} :
    commonSubject items keys = .ok subject ↔
      ∃ first rest, items = first :: rest ∧ (∀ k ∈ keys, first.receipt.subject k ≠ none) ∧
        subject = Subject.project keys first.receipt.subject ∧
        ∀ item ∈ rest, item.receipt.subject.covers subject = true := by
  cases items with
  | nil => simp [commonSubject]
  | cons first rest =>
    simp only [commonSubject, bind_eq_ok, require_eq_ok, pure_eq_ok, List.all_eq_true,
      List.isEmpty_iff, List.filter_eq_nil_iff, Option.isNone_iff_eq_none, List.cons.injEq]
    constructor
    · rintro ⟨_, hm, _, hc, rfl⟩
      exact ⟨first, rest, ⟨rfl, rfl⟩, hm, rfl, hc⟩
    · rintro ⟨_, _, ⟨rfl, rfl⟩, hm, rfl, hc⟩
      exact ⟨(), hm, (), hc, rfl⟩

theorem commonSubject_agree {items : Pool} {keys : List SubjectKey}
    (h : commonSubject items keys = .ok subject) {item : VerifiedReceipt} (hi : item ∈ items)
    {k : SubjectKey} (hk : k ∈ keys) :
    item.receipt.subject k = subject k ∧ subject k ≠ none := by
  obtain ⟨first, rest, rfl, hkeys, rfl, hrest⟩ := commonSubject_eq_ok.mp h
  have hsome : Subject.project keys first.receipt.subject k ≠ none := by
    rw [Subject.project_of_mem hk]
    exact hkeys k hk
  refine ⟨?_, hsome⟩
  rcases List.mem_cons.mp hi with rfl | hi
  · exact (Subject.project_of_mem hk).symm
  · obtain ⟨v, hv⟩ := Option.ne_none_iff_exists'.mp hsome
    rw [hv]
    exact Subject.covers_iff.mp (hrest item hi) k v hv

theorem deriveSource_eq_ok :
    deriveSource pool = .ok (subject, cited) ↔
      ∃ items, sourceTypes.mapM (onePass pool) = .ok items ∧
        commonSubject items sourceKeys = .ok subject ∧ cited = ids items := by
  simp only [deriveSource, bind_eq_ok, pure_eq_ok, Prod.mk.injEq]
  constructor
  · rintro ⟨items, hitems, _, hs, rfl, rfl⟩
    exact ⟨items, hitems, hs, rfl⟩
  · rintro ⟨items, hitems, hs, rfl⟩
    exact ⟨items, hitems, subject, hs, rfl, rfl⟩

theorem licensedIdentity_eq_ok {item : VerifiedReceipt} {key : SubjectKey} {value : String} :
    licensedIdentity item key = .ok value ↔ item.receipt.subject key = some value := by
  unfold licensedIdentity
  split <;> simp_all

theorem deriveModel_eq_ok :
    deriveModel pool = .ok (subject, cited) ↔
      ∃ checkpoint sidecar model side, onePass pool "checkpoint-license" = .ok checkpoint ∧
        onePass pool "sidecar-license" = .ok sidecar ∧
        (∀ item ∈ [checkpoint, sidecar], item.receipt.metadata.rightsStatus = some .verified) ∧
        checkpoint.receipt.subject .modelId = some model ∧
        sidecar.receipt.subject .sidecarId = some side ∧
        subject = modelSubject model side ∧ cited = ids [checkpoint, sidecar] := by
  simp only [deriveModel, bind_eq_ok, pure_eq_ok, require_eq_ok, licensedIdentity_eq_ok,
    List.all_eq_true, beq_iff_eq, Prod.mk.injEq]
  constructor
  · rintro ⟨checkpoint, hc, sidecar, hs, _, hr, model, hm, side, hside, rfl, rfl⟩
    exact ⟨checkpoint, sidecar, model, side, hc, hs, hr, hm, hside, rfl, rfl⟩
  · rintro ⟨checkpoint, sidecar, model, side, hc, hs, hr, hm, hside, rfl, rfl⟩
    exact ⟨checkpoint, hc, sidecar, hs, (), hr, model, hm, side, hside, rfl, rfl⟩

theorem deriveClean_eq_ok :
    deriveClean pool = .ok (subject, cited) ↔
      ∃ source sourceIds items, deriveSource pool = .ok (source, sourceIds) ∧
        buildTypes.mapM (onePass pool) = .ok items ∧
        commonSubject items buildKeys = .ok subject ∧
        subject .sourceReleaseId = source .sourceReleaseId ∧
        cited = sourceIds ++ ids items := by
  simp only [deriveClean, bind_eq_ok, pure_eq_ok, require_eq_ok, beq_iff_eq, Prod.exists,
    Prod.mk.injEq]
  constructor
  · rintro ⟨source, sourceIds, hsource, items, hitems, _, hs, _, heq, rfl, rfl⟩
    exact ⟨source, sourceIds, items, hsource, hitems, hs, heq, rfl⟩
  · rintro ⟨source, sourceIds, items, hsource, hitems, hs, heq, rfl⟩
    exact ⟨source, sourceIds, hsource, items, hitems, subject, hs, (), heq, rfl, rfl⟩

theorem deriveLive_eq_ok {profile : String} :
    deriveLive pool profile = .ok (subject, cited) ↔
      ∃ clean cleanIds model modelIds items, profile ∈ profiles ∧
        deriveClean pool = .ok (clean, cleanIds) ∧ deriveModel pool = .ok (model, modelIds) ∧
        (liveKinds profile).mapM (profilePass pool profile) = .ok items ∧
        commonSubject items (liveSubjectKeys profile) = .ok subject ∧
        subject.covers clean = true ∧ subject.covers model = true ∧
        cited = cleanIds ++ modelIds ++ ids items := by
  simp only [deriveLive, bind_eq_ok, pure_eq_ok, require_eq_ok, List.contains_iff_mem,
    Prod.exists, Prod.mk.injEq]
  constructor
  · rintro ⟨_, hp, clean, cleanIds, hclean, model, modelIds, hmodel, items, hitems, _, hs, _, hc,
      _, hm, rfl, rfl⟩
    exact ⟨clean, cleanIds, model, modelIds, items, hp, hclean, hmodel, hitems, hs, hc, hm, rfl⟩
  · rintro ⟨clean, cleanIds, model, modelIds, items, hp, hclean, hmodel, hitems, hs, hc, hm, rfl⟩
    exact ⟨(), hp, clean, cleanIds, hclean, model, modelIds, hmodel, items, hitems, subject, hs,
      (), hc, (), hm, rfl, rfl⟩

theorem checkThresholds_eq_ok {item : VerifiedReceipt} {a : Unit} :
    checkThresholds item = .ok a ↔
      item.receipt.result = .pass ∧ item.receipt.metadata.thresholdsPassed = some true ∧
        item.receipt.metadata.medianThresholdPassed = some true := by
  simp [checkThresholds, bind_eq_ok, and_assoc]

/-- The attempt policy of the gate, apart from the subjects. -/
structure AttemptsAccepted (attempts : Pool) : Prop where
  atMostFive : attempts.length ≤ 5
  inRange : ∀ item ∈ attempts, attemptInRange item.receipt.metadata.attempt = true
  distinct : (attempts.map fun item => item.receipt.metadata.attempt).Nodup
  threeValid : (attempts.filter isValidAttempt).length = 3
  passed : ∀ item ∈ attempts, isValidAttempt item = true →
    item.receipt.result = .pass ∧ item.receipt.metadata.thresholdsPassed = some true ∧
      item.receipt.metadata.medianThresholdPassed = some true

theorem AttemptsAccepted.perm {attempts attempts' : Pool} (h : AttemptsAccepted attempts)
    (hp : attempts'.Perm attempts) : AttemptsAccepted attempts' where
  atMostFive := hp.length_eq ▸ h.atMostFive
  inRange item hi := h.inRange item (hp.mem_iff.mp hi)
  distinct := (hp.map _).nodup_iff.mpr h.distinct
  threeValid := (hp.filter _).length_eq ▸ h.threeValid
  passed item hi := h.passed item (hp.mem_iff.mp hi)

theorem deriveBenchmark_eq_ok {profile : String} :
    deriveBenchmark pool profile = .ok (subject, cited) ↔
      ∃ liveIds, deriveLive pool profile = .ok (subject, liveIds) ∧
        (∀ item ∈ profileAttempts pool profile, item.receipt.subject.covers subject = true) ∧
        AttemptsAccepted (profileAttempts pool profile) ∧
        cited = liveIds ++ ids (profileAttempts pool profile) := by
  simp only [deriveBenchmark, bind_eq_ok, pure_eq_ok, require_eq_ok, List.all_eq_true,
    decide_eq_true_eq, beq_iff_eq, Prod.exists, Prod.mk.injEq]
  constructor
  · rintro ⟨_, liveIds, hlive, _, hc, _, hfive, _, hr, _, hnd, _, hthree, _, hthr, rfl, rfl⟩
    refine ⟨liveIds, hlive, hc, ⟨hfive, ?_, hnd, hthree, ?_⟩, rfl⟩
    · intro item hi
      exact hr _ (List.mem_map_of_mem hi)
    · intro item hi hv
      obtain ⟨_, -, hok⟩ := mem_of_mapM_eq_ok hthr (List.mem_filter.mpr ⟨hi, hv⟩)
      exact checkThresholds_eq_ok.mp hok
  · rintro ⟨liveIds, hlive, hc, hok, rfl⟩
    obtain ⟨checked, hchecked⟩ : ∃ checked, ((profileAttempts pool profile).filter
        isValidAttempt).mapM checkThresholds = .ok checked := by
      refine exists_mapM_eq_ok fun item hi => ⟨(), ?_⟩
      obtain ⟨hi, hv⟩ := List.mem_filter.mp hi
      exact checkThresholds_eq_ok.mpr (hok.passed item hi hv)
    refine ⟨subject, liveIds, hlive, (), hc, (), hok.atMostFive, (), ?_, (), hok.distinct, (),
      hok.threeValid, checked, hchecked, rfl, rfl⟩
    intro n hn
    obtain ⟨item, hi, rfl⟩ := List.mem_map.mp hn
    exact hok.inRange item hi

theorem deriveSuite_eq_ok :
    deriveSuite pool = .ok (subject, cited) ↔
      ∃ fast balanced large, deriveBenchmark pool "fast-320k" = .ok fast ∧
        deriveBenchmark pool "balanced-650k" = .ok balanced ∧
        deriveBenchmark pool "large-1m" = .ok large ∧
        subject = Subject.project suiteKeys fast.1 ∧
        balanced.1.covers subject = true ∧ large.1.covers subject = true ∧
        cited = fast.2 ++ balanced.2 ++ large.2 := by
  simp only [deriveSuite, profiles, List.mapM_cons, List.mapM_nil, bind_eq_ok, pure_eq_ok,
    require_eq_ok, Prod.mk.injEq]
  constructor
  · rintro ⟨_, ⟨fast, hf, _, ⟨balanced, hb, _, ⟨large, hl, _, rfl, rfl⟩, rfl⟩, rfl⟩, _, hc, rfl, rfl⟩
    simp only [List.tail_cons, List.all_cons, List.all_nil, Bool.and_true, Bool.and_eq_true,
      List.head?_cons, Option.map_some, Option.getD_some] at hc
    exact ⟨fast, balanced, large, hf, hb, hl, rfl, hc.1, hc.2, by simp⟩
  · rintro ⟨fast, balanced, large, hf, hb, hl, rfl, hcb, hcl, rfl⟩
    exact ⟨_, ⟨fast, hf, _, ⟨balanced, hb, _, ⟨large, hl, _, rfl, rfl⟩, rfl⟩, rfl⟩, (),
      by simp [hcb, hcl], rfl, by simp⟩

theorem buildChain_eq_ok {source : Subject} {digest : String} {chain : Subject × Pool} :
    buildChain pool source digest = .ok chain ↔
      (buildTypes.mapM fun kind => onlyPass ((ofType pool kind).filter (hasDigest digest))
          (fun _ => .buildLacks digest kind) (.buildLacks digest kind)) = .ok chain.2 ∧
        commonSubject chain.2 buildKeys = .ok chain.1 ∧
        chain.1 .sourceReleaseId = source .sourceReleaseId := by
  simp only [buildChain, bind_eq_ok, pure_eq_ok, require_eq_ok, beq_iff_eq]
  constructor
  · rintro ⟨items, hitems, s, hs, _, heq, rfl⟩
    exact ⟨hitems, hs, heq⟩
  · rintro ⟨hitems, hs, heq⟩
    exact ⟨chain.2, hitems, chain.1, hs, (), heq, rfl⟩

theorem deriveBitReproducible_eq_ok :
    deriveBitReproducible pool = .ok (subject, cited) ↔
      ∃ comparison source sourceIds digests chains,
        onePass pool "build-comparison" = .ok comparison ∧
        comparison.receipt.metadata.normalizedOutputsEqual = some true ∧
        deriveSource pool = .ok (source, sourceIds) ∧ comparedDigests pool = .ok digests ∧
        digests.mapM (buildChain pool source) = .ok chains ∧
        subject = Subject.project stableKeys
          ((chains.head?.map Prod.fst).getD fun _ => none) ∧
        (∀ chain ∈ chains.tail, chain.1.covers subject = true) ∧
        comparison.receipt.subject.covers subject = true ∧
        cited = sourceIds ++ ids (chains.flatMap Prod.snd) ++ ids [comparison] := by
  simp only [deriveBitReproducible, bind_eq_ok, pure_eq_ok, require_eq_ok, beq_iff_eq,
    List.all_eq_true, Prod.exists, Prod.mk.injEq]
  constructor
  · rintro ⟨comparison, hc, _, hn, source, sourceIds, hs, digests, hd, chains, hch, _, ht, _, hcov,
      rfl, rfl⟩
    exact ⟨comparison, source, sourceIds, digests, chains, hc, hn, hs, hd, hch, rfl, ht, hcov, rfl⟩
  · rintro ⟨comparison, source, sourceIds, digests, chains, hc, hn, hs, hd, hch, rfl, ht, hcov, rfl⟩
    exact ⟨comparison, hc, (), hn, source, sourceIds, hs, digests, hd, chains, hch, (), ht, (),
      hcov, rfl, rfl⟩

theorem deriveAnonymous_eq_ok :
    deriveAnonymous pool = .ok (subject, cited) ↔
      ∃ live liveIds items, deriveLive pool "fast-320k" = .ok (live, liveIds) ∧
        anonymousTypes.mapM (onePass pool) = .ok items ∧
        commonSubject items buildKeys = .ok subject ∧
        (∀ k ∈ buildKeys, subject k = live k) ∧ cited = liveIds ++ ids items := by
  simp only [deriveAnonymous, bind_eq_ok, pure_eq_ok, require_eq_ok, List.all_eq_true, beq_iff_eq,
    Prod.exists, Prod.mk.injEq]
  constructor
  · rintro ⟨live, liveIds, hl, items, hitems, _, hs, _, hk, rfl, rfl⟩
    exact ⟨live, liveIds, items, hl, hitems, hs, hk, rfl⟩
  · rintro ⟨live, liveIds, items, hl, hitems, hs, hk, rfl⟩
    exact ⟨live, liveIds, hl, items, hitems, subject, hs, (), hk, rfl, rfl⟩

theorem derivePublished_eq_ok :
    derivePublished pool = .ok (subject, cited) ↔
      ∃ cleanIds license publication, deriveClean pool = .ok (subject, cleanIds) ∧
        onePass pool "registry-license" = .ok license ∧
        onePass pool "registry-publish" = .ok publication ∧
        license.receipt.metadata.registryLicenseCleared = some true ∧
        commonSubject [license, publication] buildKeys = .ok subject ∧
        (∀ item ∈ [license, publication],
          item.receipt.metadata.registryDigest = subject .imageDigest) ∧
        cited = cleanIds ++ ids [license, publication] := by
  simp only [derivePublished, bind_eq_ok, pure_eq_ok, require_eq_ok, decide_eq_true_eq,
    List.all_eq_true, beq_iff_eq, Prod.exists, Prod.mk.injEq]
  constructor
  · rintro ⟨_, cleanIds, hc, license, hl, publication, hp, _, hcl, _, hs, _, rfl, _, hd, rfl, rfl⟩
    exact ⟨cleanIds, license, publication, hc, hl, hp, hcl, hs, hd, rfl⟩
  · rintro ⟨cleanIds, license, publication, hc, hl, hp, hcl, hs, hd, rfl⟩
    exact ⟨subject, cleanIds, hc, license, hl, publication, hp, (), hcl, subject, hs, (), rfl, (),
      hd, rfl, rfl⟩

theorem deriveReadback_eq_ok :
    deriveReadback pool = .ok (subject, cited) ↔
      ∃ publishedIds readback, derivePublished pool = .ok (subject, publishedIds) ∧
        onePass pool "registry-readback" = .ok readback ∧
        commonSubject [readback] buildKeys = .ok subject ∧
        cited = publishedIds ++ ids [readback] := by
  simp only [deriveReadback, bind_eq_ok, pure_eq_ok, require_eq_ok, decide_eq_true_eq,
    Prod.exists, Prod.mk.injEq]
  constructor
  · rintro ⟨_, publishedIds, hp, readback, hr, _, hs, _, rfl, rfl, rfl⟩
    exact ⟨publishedIds, readback, hp, hr, hs, rfl⟩
  · rintro ⟨publishedIds, readback, hp, hr, hs, rfl⟩
    exact ⟨subject, publishedIds, hp, readback, hr, subject, hs, (), rfl, rfl, rfl⟩

theorem comparedDigests_eq_ok {digests : List String} :
    comparedDigests pool = .ok digests ↔
      ∃ found : List (Option String),
        found = ((ofType pool "build-produced").map fun item =>
          item.receipt.subject .imageDigest).dedup ∧
        found.length = 2 ∧ none ∉ found ∧
        digests = found.reduceOption.insertionSort (· ≤ ·) := by
  simp only [comparedDigests, bind_eq_ok, pure_eq_ok, require_eq_ok, Bool.and_eq_true,
    beq_iff_eq, Bool.not_eq_true', exists_eq_left]
  constructor
  · rintro ⟨_, ⟨h2, hn⟩, rfl⟩
    exact ⟨h2, by simpa using hn, rfl⟩
  · rintro ⟨h2, hn, rfl⟩
    exact ⟨(), ⟨h2, by simpa using hn⟩, rfl⟩

end ChampionRuntime.Publication
