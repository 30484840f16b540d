import ChampionRuntime.Lib.Pool
import ChampionRuntime.Publication.Derivations

/-!
# A derivation rests on the receipts it cites

Every derivation of the gate gives the same subject and the same identifiers
when the pool is reordered or cut down to any part that keeps the cited
receipts. Only the listing order of battery attempts follows the pool.
-/
namespace ChampionRuntime.Publication

open Lib

/-- `sub` keeps, in some order, every receipt of `pool` listed in `cited`. -/
def Supports (cited : List String) (sub pool : Pool) : Prop :=
  Covers (fun item => item.receipt.receiptId ∈ cited) sub pool

theorem Supports.mono {cited cited' : List String} {sub pool : Pool}
    (h : Supports cited sub pool) (hc : cited' ⊆ cited) : Supports cited' sub pool :=
  Covers.mono h fun _ hx => hc hx

theorem supports_of_perm {cited : List String} {sub pool : Pool} (h : sub.Perm pool) :
    Supports cited sub pool := covers_of_perm h

theorem supports_citedBy {cited : List String} (receiptIds : List String) {pool : Pool}
    (h : cited ⊆ receiptIds) : Supports cited (citedBy receiptIds pool) pool :=
  covers_filter fun _ _ hx => List.contains_iff_mem.mpr (h hx)

variable {cited l : List String} {sub pool : Pool} {subject : Subject}

theorem onlyPass_transfer (h : Supports cited sub pool) {p : VerifiedReceipt → Bool}
    {miscounted : ℕ → GateError} {failed : GateError} {item : VerifiedReceipt}
    (hp : onlyPass (pool.filter p) miscounted failed = .ok item)
    (hi : item.receipt.receiptId ∈ cited) :
    onlyPass (sub.filter p) miscounted failed = .ok item := by
  rw [onlyPass_eq_ok] at hp ⊢
  exact ⟨Covers.filter_singleton h hp.1 hi, hp.2⟩

theorem onePass_transfer (h : Supports cited sub pool) {kind : String} {item : VerifiedReceipt}
    (hp : onePass pool kind = .ok item) (hi : item.receipt.receiptId ∈ cited) :
    onePass sub kind = .ok item :=
  onlyPass_transfer h hp hi

theorem ofType_onlyPass_transfer (h : Supports cited sub pool) {kind : String}
    {p : VerifiedReceipt → Bool} {miscounted : ℕ → GateError} {failed : GateError}
    {item : VerifiedReceipt}
    (hp : onlyPass ((ofType pool kind).filter p) miscounted failed = .ok item)
    (hi : item.receipt.receiptId ∈ cited) :
    onlyPass ((ofType sub kind).filter p) miscounted failed = .ok item :=
  onlyPass_transfer (Covers.filter h (hasType kind)) hp hi

theorem profilePass_transfer (h : Supports cited sub pool) {profile kind : String}
    {item : VerifiedReceipt} (hp : profilePass pool profile kind = .ok item)
    (hi : item.receipt.receiptId ∈ cited) : profilePass sub profile kind = .ok item :=
  ofType_onlyPass_transfer h hp hi

theorem mapM_transfer {f g : String → Except GateError VerifiedReceipt} {kinds : List String}
    {items : Pool} (hm : kinds.mapM f = .ok items) (hc : ids items ⊆ cited)
    (hfg : ∀ kind item, f kind = .ok item → item.receipt.receiptId ∈ cited →
      g kind = .ok item) : kinds.mapM g = .ok items :=
  mapM_congr_ok hm fun kind _ item hitem hf => hfg kind item hf (hc (mem_ids hitem))

theorem deriveSource_transfer (h : Supports cited sub pool)
    (hd : deriveSource pool = .ok (subject, l)) (hl : l ⊆ cited) :
    deriveSource sub = .ok (subject, l) := by
  obtain ⟨items, hitems, hs, rfl⟩ := deriveSource_eq_ok.mp hd
  exact deriveSource_eq_ok.mpr
    ⟨items, mapM_transfer hitems hl fun _ _ => onePass_transfer h, hs, rfl⟩

theorem deriveModel_transfer (h : Supports cited sub pool)
    (hd : deriveModel pool = .ok (subject, l)) (hl : l ⊆ cited) :
    deriveModel sub = .ok (subject, l) := by
  obtain ⟨checkpoint, sidecar, model, side, hc, hs, hrest⟩ := deriveModel_eq_ok.mp hd
  have hcited : ids [checkpoint, sidecar] ⊆ cited := hrest.2.2.2.2 ▸ hl
  exact deriveModel_eq_ok.mpr ⟨checkpoint, sidecar, model, side,
    onePass_transfer h hc (hcited (mem_ids (by simp))),
    onePass_transfer h hs (hcited (mem_ids (by simp))), hrest⟩

theorem deriveClean_transfer (h : Supports cited sub pool)
    (hd : deriveClean pool = .ok (subject, l)) (hl : l ⊆ cited) :
    deriveClean sub = .ok (subject, l) := by
  obtain ⟨source, sourceIds, items, hsource, hitems, hs, heq, rfl⟩ := deriveClean_eq_ok.mp hd
  obtain ⟨hl₁, hl₂⟩ := List.append_subset.mp hl
  exact deriveClean_eq_ok.mpr ⟨source, sourceIds, items, deriveSource_transfer h hsource hl₁,
    mapM_transfer hitems hl₂ fun _ _ => onePass_transfer h, hs, heq, rfl⟩

theorem deriveLive_transfer (h : Supports cited sub pool) {profile : String}
    (hd : deriveLive pool profile = .ok (subject, l)) (hl : l ⊆ cited) :
    deriveLive sub profile = .ok (subject, l) := by
  obtain ⟨clean, cleanIds, model, modelIds, items, hp, hclean, hmodel, hitems, hs, hc, hm, rfl⟩ :=
    deriveLive_eq_ok.mp hd
  obtain ⟨hl₁₂, hl₃⟩ := List.append_subset.mp hl
  obtain ⟨hl₁, hl₂⟩ := List.append_subset.mp hl₁₂
  exact deriveLive_eq_ok.mpr ⟨clean, cleanIds, model, modelIds, items, hp,
    deriveClean_transfer h hclean hl₁, deriveModel_transfer h hmodel hl₂,
    mapM_transfer hitems hl₃ fun _ _ => profilePass_transfer h, hs, hc, hm, rfl⟩

/-- Every battery receipt of the profile is cited, so the attempts are the same
receipts; the pool decides the order they are listed in. -/
theorem deriveBenchmark_transfer (h : Supports cited sub pool) {profile : String}
    (hd : deriveBenchmark pool profile = .ok (subject, l)) (hl : l ⊆ cited) :
    ∃ l', deriveBenchmark sub profile = .ok (subject, l') ∧ l'.Perm l := by
  obtain ⟨liveIds, hlive, hc, hok, rfl⟩ := deriveBenchmark_eq_ok.mp hd
  obtain ⟨hl₁, hl₂⟩ := List.append_subset.mp hl
  have hperm : (profileAttempts sub profile).Perm (profileAttempts pool profile) :=
    Covers.filter_perm (Covers.filter h _) fun item hi => hl₂ (mem_ids hi)
  refine ⟨liveIds ++ ids (profileAttempts sub profile), deriveBenchmark_eq_ok.mpr
    ⟨liveIds, deriveLive_transfer h hlive hl₁, ?_, hok.perm hperm, rfl⟩, ?_⟩
  · intro item hi
    exact hc item (hperm.mem_iff.mp hi)
  · exact (hperm.map _).append_left liveIds

theorem deriveSuite_transfer (h : Supports cited sub pool)
    (hd : deriveSuite pool = .ok (subject, l)) (hl : l ⊆ cited) :
    ∃ l', deriveSuite sub = .ok (subject, l') ∧ l'.Perm l := by
  obtain ⟨fast, balanced, large, hf, hb, hg, rfl, hcb, hcl, rfl⟩ := deriveSuite_eq_ok.mp hd
  obtain ⟨hl₁₂, hl₃⟩ := List.append_subset.mp hl
  obtain ⟨hl₁, hl₂⟩ := List.append_subset.mp hl₁₂
  obtain ⟨lf, hf', hpf⟩ := deriveBenchmark_transfer h hf hl₁
  obtain ⟨lb, hb', hpb⟩ := deriveBenchmark_transfer h hb hl₂
  obtain ⟨lg, hg', hpg⟩ := deriveBenchmark_transfer h hg hl₃
  exact ⟨lf ++ lb ++ lg, deriveSuite_eq_ok.mpr
    ⟨(fast.1, lf), (balanced.1, lb), (large.1, lg), hf', hb', hg', rfl, hcb, hcl, rfl⟩,
    (hpf.append hpb).append hpg⟩

theorem comparedDigests_perm (hp : (ofType sub "build-produced").Perm (ofType pool "build-produced"))
    {digests : List String} (hd : comparedDigests pool = .ok digests) :
    comparedDigests sub = .ok digests := by
  obtain ⟨found, rfl, htwo, hnone, rfl⟩ := comparedDigests_eq_ok.mp hd
  have hfound := (hp.map fun item => item.receipt.subject .imageDigest).dedup
  refine comparedDigests_eq_ok.mpr ⟨_, rfl, hfound.length_eq.trans htwo,
    fun hn => hnone (hfound.mem_iff.mp hn), ?_⟩
  have hred : (List.reduceOption _).Perm (List.reduceOption _) := hfound.symm.filterMap id
  refine List.Perm.eq_of_pairwise' (List.pairwise_insertionSort _ _)
    (List.pairwise_insertionSort _ _) ?_
  exact ((List.perm_insertionSort _ _).trans hred).trans (List.perm_insertionSort _ _).symm

theorem mem_comparedDigests {digests : List String} (hd : comparedDigests pool = .ok digests)
    {item : VerifiedReceipt} (hi : item ∈ ofType pool "build-produced") :
    ∃ digest ∈ digests, hasDigest digest item = true := by
  obtain ⟨found, rfl, -, hnone, rfl⟩ := comparedDigests_eq_ok.mp hd
  have hmem := List.mem_dedup.mpr
    (List.mem_map_of_mem (f := fun item => item.receipt.subject .imageDigest) hi)
  obtain ⟨digest, hdigest⟩ := Option.ne_none_iff_exists'.mp (fun hn => hnone (hn ▸ hmem))
  refine ⟨digest, ?_, by simp [hasDigest, hdigest]⟩
  rw [List.mem_insertionSort]
  exact List.mem_filterMap.mpr ⟨some digest, hdigest ▸ hmem, rfl⟩

theorem buildProduced_cited {source : Subject} {digests : List String}
    {chains : List (Subject × Pool)} (hd : comparedDigests pool = .ok digests)
    (hch : digests.mapM (buildChain pool source) = .ok chains) {item : VerifiedReceipt}
    (hi : item ∈ ofType pool "build-produced") :
    item.receipt.receiptId ∈ ids (chains.flatMap Prod.snd) := by
  obtain ⟨digest, hdigest, hhas⟩ := mem_comparedDigests hd hi
  obtain ⟨chain, hchain, hok⟩ := mem_of_mapM_eq_ok hch hdigest
  obtain ⟨x, hx, hpick⟩ := mem_of_mapM_eq_ok (buildChain_eq_ok.mp hok).1
    (show "build-produced" ∈ buildTypes by simp [buildTypes])
  have hx' : item ∈ [x] := (onlyPass_eq_ok.mp hpick).1 ▸ List.mem_filter.mpr ⟨hi, hhas⟩
  rw [List.mem_singleton.mp hx']
  exact mem_ids (List.mem_flatMap.mpr ⟨chain, hchain, hx⟩)

theorem deriveBitReproducible_transfer (h : Supports cited sub pool)
    (hd : deriveBitReproducible pool = .ok (subject, l)) (hl : l ⊆ cited) :
    deriveBitReproducible sub = .ok (subject, l) := by
  obtain ⟨comparison, source, sourceIds, digests, chains, hc, hn, hs, hdig, hch, rfl, ht, hcov,
    rfl⟩ := deriveBitReproducible_eq_ok.mp hd
  obtain ⟨hl₁₂, hl₃⟩ := List.append_subset.mp hl
  obtain ⟨hl₁, hl₂⟩ := List.append_subset.mp hl₁₂
  have hperm : (ofType sub "build-produced").Perm (ofType pool "build-produced") :=
    Covers.filter_perm h fun item hi => hl₂ (buildProduced_cited hdig hch hi)
  have hch' : digests.mapM (buildChain sub source) = .ok chains := by
    refine mapM_congr_ok hch fun digest _ chain hchain hok => ?_
    obtain ⟨hitems, hrest⟩ := buildChain_eq_ok.mp hok
    refine buildChain_eq_ok.mpr ⟨mapM_transfer hitems ?_ fun kind item hp hi =>
      ofType_onlyPass_transfer h hp hi, hrest⟩
    intro id hid
    obtain ⟨item, hitem, rfl⟩ := List.mem_map.mp hid
    exact hl₂ (mem_ids (List.mem_flatMap.mpr ⟨chain, hchain, hitem⟩))
  exact deriveBitReproducible_eq_ok.mpr ⟨comparison, source, sourceIds, digests, chains,
    onePass_transfer h hc (hl₃ (mem_ids (by simp))), hn, deriveSource_transfer h hs hl₁,
    comparedDigests_perm hperm hdig, hch', rfl, ht, hcov, rfl⟩

theorem deriveAnonymous_transfer (h : Supports cited sub pool)
    (hd : deriveAnonymous pool = .ok (subject, l)) (hl : l ⊆ cited) :
    deriveAnonymous sub = .ok (subject, l) := by
  obtain ⟨live, liveIds, items, hlive, hitems, hs, hk, rfl⟩ := deriveAnonymous_eq_ok.mp hd
  obtain ⟨hl₁, hl₂⟩ := List.append_subset.mp hl
  exact deriveAnonymous_eq_ok.mpr ⟨live, liveIds, items, deriveLive_transfer h hlive hl₁,
    mapM_transfer hitems hl₂ fun _ _ => onePass_transfer h, hs, hk, rfl⟩

theorem derivePublished_transfer (h : Supports cited sub pool)
    (hd : derivePublished pool = .ok (subject, l)) (hl : l ⊆ cited) :
    derivePublished sub = .ok (subject, l) := by
  obtain ⟨cleanIds, license, publication, hc, hlic, hpub, hcl, hs, hdig, rfl⟩ :=
    derivePublished_eq_ok.mp hd
  obtain ⟨hl₁, hl₂⟩ := List.append_subset.mp hl
  exact derivePublished_eq_ok.mpr ⟨cleanIds, license, publication, deriveClean_transfer h hc hl₁,
    onePass_transfer h hlic (hl₂ (mem_ids (by simp))),
    onePass_transfer h hpub (hl₂ (mem_ids (by simp))), hcl, hs, hdig, rfl⟩

theorem deriveReadback_transfer (h : Supports cited sub pool)
    (hd : deriveReadback pool = .ok (subject, l)) (hl : l ⊆ cited) :
    deriveReadback sub = .ok (subject, l) := by
  obtain ⟨publishedIds, readback, hp, hr, hs, rfl⟩ := deriveReadback_eq_ok.mp hd
  obtain ⟨hl₁, hl₂⟩ := List.append_subset.mp hl
  exact deriveReadback_eq_ok.mpr ⟨publishedIds, readback, derivePublished_transfer h hp hl₁,
    onePass_transfer h hr (hl₂ (mem_ids (by simp))), hs, rfl⟩

theorem deriveClaim_transfer (claim : ClaimName) {profile : Option String}
    (hd : deriveClaim claim pool profile = .ok (subject, l)) (h : Supports l sub pool) :
    ∃ l', deriveClaim claim sub profile = .ok (subject, l') ∧ l'.Perm l := by
  have hl := List.Subset.refl l
  cases claim with
  | sourceComplete => exact ⟨l, deriveSource_transfer h hd hl, .refl l⟩
  | modelLicense => exact ⟨l, deriveModel_transfer h hd hl, .refl l⟩
  | cleanBuild => exact ⟨l, deriveClean_transfer h hd hl, .refl l⟩
  | liveLaunch => exact ⟨l, deriveLive_transfer h hd hl, .refl l⟩
  | benchmarkReproduced => exact deriveBenchmark_transfer h hd hl
  | threeProfileSuite => exact deriveSuite_transfer h hd hl
  | bitReproducible => exact ⟨l, deriveBitReproducible_transfer h hd hl, .refl l⟩
  | anonymousReadback => exact ⟨l, deriveAnonymous_transfer h hd hl, .refl l⟩
  | convenienceImagePublished => exact ⟨l, derivePublished_transfer h hd hl, .refl l⟩
  | convenienceImageReadback => exact ⟨l, deriveReadback_transfer h hd hl, .refl l⟩

theorem derive_transfer {claim : String} {profile : Option String}
    (hd : derive claim pool profile = .ok (subject, l)) (h : Supports l sub pool) :
    ∃ l', derive claim sub profile = .ok (subject, l') ∧ l'.Perm l := by
  unfold derive at hd ⊢
  split at hd
  · exact deriveClaim_transfer _ hd h
  · simp at hd

end ChampionRuntime.Publication
