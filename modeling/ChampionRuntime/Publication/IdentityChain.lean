import ChampionRuntime.Publication.Promotion

/-!
# The identity chain of a benchmark claim

The gate compares subjects layer by layer: source against build, build and
licences against live, live against the batteries. The layers together bind
every cited receipt to one subject, and every receipt of a chain kind that is
in the pool is cited, so none can be spliced in beside the chain.
-/
namespace ChampionRuntime.Publication

open Lib Lib.Json

variable {pool : Pool}

/-- The kinds that must agree on the live identities. -/
def runKinds (profile : String) : List String := liveKinds profile ++ ["battery"]

/-- What the cited receipts of a benchmark claim look like. -/
structure IdentityChain (profile : String) (subject : Subject) (cited : Pool) : Prop where
  oneOfEach : ∀ kind ∈ sourceTypes ++ buildTypes ++ licenseTypes ++ liveKinds profile,
    ∃ item, ofType cited kind = [item] ∧ item.receipt.result = .pass
  buildAgree : ∀ item ∈ cited, item.receipt.receiptType ∈ buildTypes ++ runKinds profile →
    ∀ k ∈ buildKeys, item.receipt.subject k = subject k ∧ subject k ≠ none
  liveAgree : ∀ item ∈ cited, item.receipt.receiptType ∈ runKinds profile →
    ∀ k ∈ liveSubjectKeys profile, item.receipt.subject k = subject k ∧ subject k ≠ none
  sourceAgree : ∀ item ∈ cited, item.receipt.receiptType ∈ sourceTypes →
    item.receipt.subject .sourceReleaseId = subject .sourceReleaseId
  modelAgree : ∀ item ∈ cited, item.receipt.receiptType = "checkpoint-license" →
    item.receipt.subject .modelId = subject .modelId
  sidecarAgree : ∀ item ∈ cited, item.receipt.receiptType = "sidecar-license" →
    item.receipt.subject .sidecarId = subject .sidecarId
  profileAgree : ∀ item ∈ cited, item.receipt.receiptType ∈ runKinds profile →
    item.receipt.metadata.profile = some profile
  attemptCount : 3 ≤ (ofType cited "battery").length ∧ (ofType cited "battery").length ≤ 5
  attemptNumbers : ∃ numbers : List ℤ,
    ((ofType cited "battery").map fun item => item.receipt.metadata.attempt) =
        numbers.map (fun n => some (.int n)) ∧
      numbers.Nodup ∧ ∀ n ∈ numbers, 1 ≤ n ∧ n ≤ 5
  threeValid : ((ofType cited "battery").filter isValidAttempt).length = 3
  validPassed : ∀ item ∈ ofType cited "battery", isValidAttempt item = true →
    item.receipt.result = .pass ∧ item.receipt.metadata.thresholdsPassed = some true ∧
      item.receipt.metadata.medianThresholdPassed = some true
  onlyChain : ∀ item ∈ cited, item.receipt.receiptType ∈
    sourceTypes ++ buildTypes ++ licenseTypes ++ runKinds profile

theorem hasType_iff {kind : String} {item : VerifiedReceipt} :
    hasType kind item = true ↔ item.receipt.receiptType = kind := by
  simp [hasType]

theorem hasProfile_iff {profile : String} {item : VerifiedReceipt} :
    hasProfile profile item = true ↔ item.receipt.metadata.profile = some profile := by
  simp [hasProfile]

/-- With distinct identifiers, citing the identifiers of some receipts of the
pool is citing these receipts. -/
theorem mem_citedBy_ids {items : Pool} (hnd : (ids pool).Nodup) (hsub : items ⊆ pool)
    {item : VerifiedReceipt} : item ∈ citedBy (ids items) pool ↔ item ∈ items := by
  simp only [citedBy, List.mem_filter, List.contains_iff_mem]
  constructor
  · rintro ⟨hi, hid⟩
    obtain ⟨other, hother, heq⟩ := List.mem_map.mp hid
    rwa [← List.inj_on_of_nodup_map hnd (hsub hother) hi heq]
  · intro hi
    exact ⟨hsub hi, mem_ids hi⟩

theorem onePass_type {kind : String} {item : VerifiedReceipt} (h : onePass pool kind = .ok item) :
    item.receipt.receiptType = kind :=
  hasType_iff.mp (List.mem_filter.mp (onlyPass_mem h)).2

theorem profilePass_spec {profile kind : String} {item : VerifiedReceipt}
    (h : profilePass pool profile kind = .ok item) :
    item ∈ pool ∧ item.receipt.receiptType = kind ∧
      item.receipt.metadata.profile = some profile := by
  obtain ⟨hmem, hprofile⟩ := List.mem_filter.mp (onlyPass_mem h)
  obtain ⟨hmem, htype⟩ := List.mem_filter.mp hmem
  exact ⟨hmem, hasType_iff.mp htype, hasProfile_iff.mp hprofile⟩

theorem mem_profileAttempts {profile : String} {item : VerifiedReceipt} :
    item ∈ profileAttempts pool profile ↔ item ∈ pool ∧ item.receipt.receiptType = "battery" ∧
      item.receipt.metadata.profile = some profile := by
  simp only [profileAttempts, ofType, List.mem_filter, hasType_iff, hasProfile_iff, and_assoc]

/-- The attempt number of a battery receipt the gate accepted. -/
def attemptOf (item : VerifiedReceipt) : ℤ :=
  match item.receipt.metadata.attempt with
  | some (.int n) => n
  | _ => 0

theorem AttemptsAccepted.attemptOf_spec {attempts : Pool} (h : AttemptsAccepted attempts)
    {item : VerifiedReceipt} (hi : item ∈ attempts) :
    item.receipt.metadata.attempt = some (.int (attemptOf item)) ∧
      1 ≤ attemptOf item ∧ attemptOf item ≤ 5 := by
  have hr := h.inRange item hi
  unfold attemptInRange at hr
  split at hr
  · rename_i n heq
    have hn : attemptOf item = n := by simp [attemptOf, heq]
    rw [hn]
    exact ⟨heq, of_decide_eq_true hr⟩
  · simp at hr

theorem AttemptsAccepted.nodup_attemptOf {attempts : Pool} (h : AttemptsAccepted attempts) :
    (attempts.map attemptOf).Nodup := by
  have hmap : (attempts.map fun item => item.receipt.metadata.attempt) =
      (attempts.map attemptOf).map fun n => some (.int n) := by
    rw [List.map_map]
    exact List.map_congr_left fun item hi => (h.attemptOf_spec hi).1
  exact List.Nodup.of_map _ (hmap ▸ h.distinct)

theorem AttemptsAccepted.exists_numbers {attempts : Pool} (h : AttemptsAccepted attempts) :
    ∃ numbers : List ℤ, (attempts.map fun item => item.receipt.metadata.attempt) =
        numbers.map (fun n => some (.int n)) ∧
      numbers.Nodup ∧ ∀ n ∈ numbers, 1 ≤ n ∧ n ≤ 5 := by
  refine ⟨attempts.map attemptOf, ?_, h.nodup_attemptOf, ?_⟩
  · rw [List.map_map]
    exact List.map_congr_left fun item hi => (h.attemptOf_spec hi).1
  · intro n hn
    obtain ⟨item, hi, rfl⟩ := List.mem_map.mp hn
    exact (h.attemptOf_spec hi).2

/-- The receipts a benchmark derivation selected, layer by layer. -/
structure Layers (pool : Pool) (profile : String) (subject : Subject) where
  source : Pool
  build : Pool
  checkpoint : VerifiedReceipt
  sidecar : VerifiedReceipt
  live : Pool
  sourceSelected : sourceTypes.mapM (onePass pool) = .ok source
  buildSelected : buildTypes.mapM (onePass pool) = .ok build
  checkpointSelected : onePass pool "checkpoint-license" = .ok checkpoint
  sidecarSelected : onePass pool "sidecar-license" = .ok sidecar
  liveSelected : (liveKinds profile).mapM (profilePass pool profile) = .ok live
  sourceCarries : ∀ item ∈ source,
    item.receipt.subject .sourceReleaseId = subject .sourceReleaseId
  buildCarries : ∀ item ∈ build, ∀ k ∈ buildKeys, item.receipt.subject k = subject k
  checkpointCarries : checkpoint.receipt.subject .modelId = subject .modelId
  sidecarCarries : sidecar.receipt.subject .sidecarId = subject .sidecarId
  liveCarries : ∀ item ∈ live, ∀ k ∈ liveSubjectKeys profile, item.receipt.subject k = subject k
  carried : ∀ k ∈ liveSubjectKeys profile, subject k ≠ none
  attemptsCarry : ∀ item ∈ profileAttempts pool profile, item.receipt.subject.covers subject = true
  attemptsAccepted : AttemptsAccepted (profileAttempts pool profile)

namespace Layers

variable {profile : String} {subject : Subject}

def chain (L : Layers pool profile subject) : Pool :=
  L.source ++ L.build ++ [L.checkpoint, L.sidecar] ++ L.live ++ profileAttempts pool profile

theorem buildKeys_subset : buildKeys ⊆ liveSubjectKeys profile := by
  intro k hk
  simp [liveSubjectKeys, liveKeys, hk]

theorem mem_live {k : SubjectKey} (h : k ∈ liveKeys) : k ∈ liveSubjectKeys profile := by
  simp [liveSubjectKeys, h]

theorem exists_of_derive {cited : List String}
    (h : deriveBenchmark pool profile = .ok (subject, cited)) :
    ∃ L : Layers pool profile subject, cited = ids L.chain := by
  obtain ⟨_, hlive, hcarry, haccepted, rfl⟩ := deriveBenchmark_eq_ok.mp h
  obtain ⟨clean, _, model, _, live, -, hclean, hmodel, hitems, hs, hcc, hcm, rfl⟩ :=
    deriveLive_eq_ok.mp hlive
  obtain ⟨source, _, build, hsource, hbuild, hbs, hbeq, rfl⟩ := deriveClean_eq_ok.mp hclean
  obtain ⟨sources, hsources, hss, rfl⟩ := deriveSource_eq_ok.mp hsource
  obtain ⟨checkpoint, sidecar, m, d, hcp, hsc, -, hm, hd, rfl, rfl⟩ := deriveModel_eq_ok.mp hmodel
  have hlift : ∀ k, clean k ≠ none → subject k = clean k := by
    intro k hk
    obtain ⟨v, hv⟩ := Option.ne_none_iff_exists'.mp hk
    rw [hv]
    exact Subject.covers_iff.mp hcc k v hv
  have hrelease : clean .sourceReleaseId ≠ none := by
    obtain ⟨x, hx⟩ := List.exists_mem_of_ne_nil build (by
      rintro rfl
      simp [commonSubject] at hbs)
    exact (commonSubject_agree hbs hx (by simp [buildKeys, stableKeys])).2
  refine ⟨{
    source := sources
    build := build
    checkpoint := checkpoint
    sidecar := sidecar
    live := live
    sourceSelected := hsources
    buildSelected := hbuild
    checkpointSelected := hcp
    sidecarSelected := hsc
    liveSelected := hitems
    sourceCarries := ?_
    buildCarries := ?_
    checkpointCarries := ?_
    sidecarCarries := ?_
    liveCarries := fun item hi k hk => (commonSubject_agree hs hi hk).1
    carried := ?_
    attemptsCarry := hcarry
    attemptsAccepted := haccepted }, ?_⟩
  · intro item hi
    rw [(commonSubject_agree hss hi (by simp [sourceKeys])).1, ← hbeq, hlift _ hrelease]
  · intro item hi k hk
    obtain ⟨heq, hne⟩ := commonSubject_agree hbs hi hk
    rw [heq, hlift k hne]
  · rw [hm]
    exact (Subject.covers_iff.mp hcm .modelId m rfl).symm
  · rw [hd]
    exact (Subject.covers_iff.mp hcm .sidecarId d rfl).symm
  · intro k hk
    obtain ⟨x, hx⟩ := List.exists_mem_of_ne_nil live (by
      rintro rfl
      simp [commonSubject] at hs)
    exact (commonSubject_agree hs hx hk).2
  · simp only [chain, ids_append]

theorem mem_source (L : Layers pool profile subject) {item : VerifiedReceipt}
    (h : item ∈ L.source) : item ∈ pool ∧ item.receipt.receiptType ∈ sourceTypes := by
  obtain ⟨kind, hkind, hpick⟩ := mem_result_of_mapM_eq_ok L.sourceSelected h
  exact ⟨onePass_mem hpick, onePass_type hpick ▸ hkind⟩

theorem mem_build (L : Layers pool profile subject) {item : VerifiedReceipt}
    (h : item ∈ L.build) : item ∈ pool ∧ item.receipt.receiptType ∈ buildTypes := by
  obtain ⟨kind, hkind, hpick⟩ := mem_result_of_mapM_eq_ok L.buildSelected h
  exact ⟨onePass_mem hpick, onePass_type hpick ▸ hkind⟩

theorem mem_licenses (L : Layers pool profile subject) {item : VerifiedReceipt}
    (h : item ∈ [L.checkpoint, L.sidecar]) :
    item ∈ pool ∧ item.receipt.receiptType ∈ licenseTypes := by
  simp only [List.mem_cons, List.not_mem_nil, or_false] at h
  rcases h with rfl | rfl
  · exact ⟨onePass_mem L.checkpointSelected, by simp [licenseTypes, onePass_type L.checkpointSelected]⟩
  · exact ⟨onePass_mem L.sidecarSelected, by simp [licenseTypes, onePass_type L.sidecarSelected]⟩

theorem mem_liveItems (L : Layers pool profile subject) {item : VerifiedReceipt}
    (h : item ∈ L.live) : item ∈ pool ∧ item.receipt.receiptType ∈ liveKinds profile ∧
      item.receipt.metadata.profile = some profile := by
  obtain ⟨kind, hkind, hpick⟩ := mem_result_of_mapM_eq_ok L.liveSelected h
  obtain ⟨hmem, htype, hprofile⟩ := profilePass_spec hpick
  exact ⟨hmem, htype ▸ hkind, hprofile⟩

theorem chain_subset (L : Layers pool profile subject) : L.chain ⊆ pool := by
  intro item hi
  simp only [chain, List.mem_append, or_assoc] at hi
  rcases hi with h | h | h | h | h
  · exact (L.mem_source h).1
  · exact (L.mem_build h).1
  · exact (L.mem_licenses h).1
  · exact (L.mem_liveItems h).1
  · exact (mem_profileAttempts.mp h).1

end Layers

theorem liveKinds_subset (profile : String) : liveKinds profile ⊆ liveTypes ++ ["pin-state"] := by
  unfold liveKinds
  split_ifs <;> simp

/-- The layer a kind belongs to; the five layers share no kind. -/
def layer (kind : String) : ℕ :=
  if kind ∈ sourceTypes then 0 else if kind ∈ buildTypes then 1
  else if kind ∈ licenseTypes then 2 else if kind = "battery" then 4 else 3

theorem layer_source : ∀ kind ∈ sourceTypes, layer kind = 0 := by decide

theorem layer_build : ∀ kind ∈ buildTypes, layer kind = 1 := by decide

theorem layer_license : ∀ kind ∈ licenseTypes, layer kind = 2 := by decide

theorem layer_live {profile kind : String} (h : kind ∈ liveKinds profile) : layer kind = 3 := by
  have hall : ∀ kind ∈ liveTypes ++ ["pin-state"], layer kind = 3 := by decide
  exact hall kind (liveKinds_subset profile h)

theorem layer_battery : layer "battery" = 4 := by decide

namespace Layers

variable {profile : String} {subject : Subject}

theorem mem_of_layer (L : Layers pool profile subject) {item : VerifiedReceipt}
    (hi : item ∈ L.chain) :
    (layer item.receipt.receiptType = 0 ∧ item ∈ L.source) ∨
    (layer item.receipt.receiptType = 1 ∧ item ∈ L.build) ∨
    (layer item.receipt.receiptType = 2 ∧ item ∈ [L.checkpoint, L.sidecar]) ∨
    (layer item.receipt.receiptType = 3 ∧ item ∈ L.live) ∨
    (layer item.receipt.receiptType = 4 ∧ item ∈ profileAttempts pool profile) := by
  simp only [chain, List.mem_append, or_assoc] at hi
  rcases hi with h | h | h | h | h
  · exact .inl ⟨layer_source _ (L.mem_source h).2, h⟩
  · exact .inr (.inl ⟨layer_build _ (L.mem_build h).2, h⟩)
  · exact .inr (.inr (.inl ⟨layer_license _ (L.mem_licenses h).2, h⟩))
  · exact .inr (.inr (.inr (.inl ⟨layer_live (L.mem_liveItems h).2.1, h⟩)))
  · exact .inr (.inr (.inr (.inr
      ⟨(mem_profileAttempts.mp h).2.1 ▸ layer_battery, h⟩)))

theorem mem_source_of_type (L : Layers pool profile subject) {item : VerifiedReceipt}
    (hi : item ∈ L.chain) (ht : item.receipt.receiptType ∈ sourceTypes) : item ∈ L.source := by
  have hl := layer_source _ ht
  rcases L.mem_of_layer hi with h | h | h | h | h <;> first | exact h.2 | omega

theorem mem_build_of_type (L : Layers pool profile subject) {item : VerifiedReceipt}
    (hi : item ∈ L.chain) (ht : item.receipt.receiptType ∈ buildTypes) : item ∈ L.build := by
  have hl := layer_build _ ht
  rcases L.mem_of_layer hi with h | h | h | h | h <;> first | exact h.2 | omega

theorem mem_license_of_type (L : Layers pool profile subject) {item : VerifiedReceipt}
    (hi : item ∈ L.chain) (ht : item.receipt.receiptType ∈ licenseTypes) :
    item ∈ [L.checkpoint, L.sidecar] := by
  have hl := layer_license _ ht
  rcases L.mem_of_layer hi with h | h | h | h | h <;> first | exact h.2 | omega

theorem mem_live_of_type (L : Layers pool profile subject) {item : VerifiedReceipt}
    (hi : item ∈ L.chain) (ht : item.receipt.receiptType ∈ liveKinds profile) :
    item ∈ L.live := by
  have hl := layer_live ht
  rcases L.mem_of_layer hi with h | h | h | h | h <;> first | exact h.2 | omega

theorem mem_attempts_of_type (L : Layers pool profile subject) {item : VerifiedReceipt}
    (hi : item ∈ L.chain) (ht : item.receipt.receiptType = "battery") :
    item ∈ profileAttempts pool profile := by
  have hl : layer item.receipt.receiptType = 4 := ht ▸ layer_battery
  rcases L.mem_of_layer hi with h | h | h | h | h <;> first | exact h.2 | omega

theorem run_carries (L : Layers pool profile subject) {item : VerifiedReceipt}
    (hi : item ∈ L.chain) (ht : item.receipt.receiptType ∈ runKinds profile)
    {k : SubjectKey} (hk : k ∈ liveSubjectKeys profile) :
    item.receipt.subject k = subject k ∧ item.receipt.metadata.profile = some profile := by
  rcases List.mem_append.mp ht with ht | ht
  · have hlive := L.mem_live_of_type hi ht
    exact ⟨L.liveCarries item hlive k hk, (L.mem_liveItems hlive).2.2⟩
  · have hattempt := L.mem_attempts_of_type hi (List.mem_singleton.mp ht)
    obtain ⟨v, hv⟩ := Option.ne_none_iff_exists'.mp (L.carried k hk)
    exact ⟨hv ▸ Subject.covers_iff.mp (L.attemptsCarry item hattempt) k v hv,
      (mem_profileAttempts.mp hattempt).2.2⟩

theorem cited_onePass (L : Layers pool profile subject) {kind : String} {item : VerifiedReceipt}
    (h : onePass pool kind = .ok item) (hi : item ∈ L.chain) :
    ofType (citedBy (ids L.chain) pool) kind = [item] ∧ item.receipt.result = .pass := by
  obtain ⟨hone, hpass⟩ := onePass_eq_ok.mp h
  exact ⟨Covers.filter_singleton (supports_citedBy _ (List.Subset.refl _)) hone (mem_ids hi), hpass⟩

theorem mem_chain_of_kind (L : Layers pool profile subject) {item : VerifiedReceipt}
    (hi : item ∈ pool)
    (hk : item.receipt.receiptType ∈ sourceTypes ++ buildTypes ++ licenseTypes ∨
      item.receipt.receiptType ∈ runKinds profile ∧
        item.receipt.metadata.profile = some profile) : item ∈ L.chain := by
  have hunique : ∀ {kind : String} {x : VerifiedReceipt}, item.receipt.receiptType = kind →
      onePass pool kind = .ok x → item = x := by
    intro kind x ht hx
    have hmem : item ∈ pool.filter (hasType kind) :=
      List.mem_filter.mpr ⟨hi, hasType_iff.mpr ht⟩
    rw [(onePass_eq_ok.mp hx).1] at hmem
    exact List.mem_singleton.mp hmem
  simp only [runKinds, List.mem_append, or_assoc, List.mem_singleton] at hk
  rcases hk with hk | hk | hk | ⟨hk | hk, hprofile⟩
  · obtain ⟨x, hx, hpick⟩ := mem_of_mapM_eq_ok L.sourceSelected hk
    simp [chain, hunique rfl hpick, hx]
  · obtain ⟨x, hx, hpick⟩ := mem_of_mapM_eq_ok L.buildSelected hk
    simp [chain, hunique rfl hpick, hx]
  · simp only [licenseTypes, List.mem_cons, List.not_mem_nil, or_false] at hk
    rcases hk with hk | hk
    · simp [chain, hunique hk L.checkpointSelected]
    · simp [chain, hunique hk L.sidecarSelected]
  · obtain ⟨x, hx, hpick⟩ := mem_of_mapM_eq_ok L.liveSelected hk
    have hmem : item ∈ (ofType pool item.receipt.receiptType).filter (hasProfile profile) :=
      List.mem_filter.mpr ⟨List.mem_filter.mpr ⟨hi, hasType_iff.mpr rfl⟩,
        hasProfile_iff.mpr hprofile⟩
    rw [(profilePass_eq_ok.mp hpick).1] at hmem
    simp [chain, List.mem_singleton.mp hmem, hx]
  · simp [chain, mem_profileAttempts.mpr ⟨hi, hk, hprofile⟩]

variable (hnd : (ids pool).Nodup)
include hnd

theorem mem_cited (L : Layers pool profile subject) {item : VerifiedReceipt} :
    item ∈ citedBy (ids L.chain) pool ↔ item ∈ L.chain :=
  mem_citedBy_ids hnd L.chain_subset

theorem cited_profile (L : Layers pool profile subject) {kind : String}
    (hk : kind ∈ runKinds profile) :
    ofType (citedBy (ids L.chain) pool) kind =
      (ofType (citedBy (ids L.chain) pool) kind).filter (hasProfile profile) := by
  refine (List.filter_eq_self.mpr fun item hi => ?_).symm
  obtain ⟨hi, ht⟩ := List.mem_filter.mp hi
  have hk' : item.receipt.receiptType ∈ runKinds profile := hasType_iff.mp ht ▸ hk
  exact hasProfile_iff.mpr
    (L.run_carries ((L.mem_cited hnd).mp hi) hk' (mem_live (k := .runId) (by decide))).2

theorem cited_attempts (L : Layers pool profile subject) :
    ofType (citedBy (ids L.chain) pool) "battery" = profileAttempts pool profile := by
  rw [L.cited_profile hnd (by simp [runKinds])]
  simp only [ofType, citedBy, profileAttempts, List.filter_filter]
  refine List.filter_congr fun item hi => ?_
  by_cases h : item ∈ profileAttempts pool profile
  · have hmem : item.receipt.receiptId ∈ ids L.chain := mem_ids (by simp [chain, h])
    simp [hmem]
  · have hno : ¬ (hasProfile profile item && hasType "battery" item) = true := by
      rw [Bool.and_eq_true, hasProfile_iff, hasType_iff]
      exact fun hc => h (mem_profileAttempts.mpr ⟨hi, hc.2, hc.1⟩)
    rw [← Bool.and_assoc, Bool.eq_false_of_not_eq_true hno, Bool.false_and]

theorem oneOfEach (L : Layers pool profile subject) {kind : String}
    (hk : kind ∈ sourceTypes ++ buildTypes ++ licenseTypes ++ liveKinds profile) :
    ∃ item, ofType (citedBy (ids L.chain) pool) kind = [item] ∧ item.receipt.result = .pass := by
  simp only [List.mem_append, or_assoc] at hk
  rcases hk with hk | hk | hk | hk
  · obtain ⟨item, hitem, hpick⟩ := mem_of_mapM_eq_ok L.sourceSelected hk
    exact ⟨item, L.cited_onePass hpick (by simp [chain, hitem])⟩
  · obtain ⟨item, hitem, hpick⟩ := mem_of_mapM_eq_ok L.buildSelected hk
    exact ⟨item, L.cited_onePass hpick (by simp [chain, hitem])⟩
  · simp only [licenseTypes, List.mem_cons, List.not_mem_nil, or_false] at hk
    rcases hk with rfl | rfl
    · exact ⟨_, L.cited_onePass L.checkpointSelected (by simp [chain])⟩
    · exact ⟨_, L.cited_onePass L.sidecarSelected (by simp [chain])⟩
  · obtain ⟨item, hitem, hpick⟩ := mem_of_mapM_eq_ok L.liveSelected hk
    obtain ⟨hone, hpass⟩ := profilePass_eq_ok.mp hpick
    refine ⟨item, ?_, hpass⟩
    rw [L.cited_profile hnd (by simp [runKinds, hk])]
    exact Covers.filter_singleton (Covers.filter
      (supports_citedBy _ (List.Subset.refl _)) _) hone (mem_ids (by simp [chain, hitem]))

theorem identityChain (L : Layers pool profile subject) :
    IdentityChain profile subject (citedBy (ids L.chain) pool) := by
  have hmem : ∀ {item}, item ∈ citedBy (ids L.chain) pool ↔ item ∈ L.chain := L.mem_cited hnd
  refine {
    oneOfEach := fun kind => L.oneOfEach hnd
    buildAgree := ?_
    liveAgree := fun item hi ht k hk => ⟨(L.run_carries (hmem.mp hi) ht hk).1, L.carried k hk⟩
    sourceAgree := fun item hi ht => L.sourceCarries item (L.mem_source_of_type (hmem.mp hi) ht)
    modelAgree := ?_
    sidecarAgree := ?_
    profileAgree := fun item hi ht =>
      (L.run_carries (hmem.mp hi) ht (mem_live (k := .runId) (by decide))).2
    attemptCount := ?_
    attemptNumbers := ?_
    threeValid := ?_
    validPassed := ?_
    onlyChain := ?_ }
  · intro item hi ht k hk
    refine ⟨?_, L.carried k (buildKeys_subset hk)⟩
    rcases List.mem_append.mp ht with ht | ht
    · exact L.buildCarries item (L.mem_build_of_type (hmem.mp hi) ht) k hk
    · exact (L.run_carries (hmem.mp hi) ht (buildKeys_subset hk)).1
  · intro item hi ht
    have hl := L.mem_license_of_type (hmem.mp hi) (by simp [licenseTypes, ht])
    simp only [List.mem_cons, List.not_mem_nil, or_false] at hl
    rcases hl with rfl | rfl
    · exact L.checkpointCarries
    · exact absurd ((onePass_type L.sidecarSelected).symm.trans ht) (by decide)
  · intro item hi ht
    have hl := L.mem_license_of_type (hmem.mp hi) (by simp [licenseTypes, ht])
    simp only [List.mem_cons, List.not_mem_nil, or_false] at hl
    rcases hl with rfl | rfl
    · exact absurd ((onePass_type L.checkpointSelected).symm.trans ht) (by decide)
    · exact L.sidecarCarries
  · rw [L.cited_attempts hnd]
    refine ⟨?_, L.attemptsAccepted.atMostFive⟩
    rw [← L.attemptsAccepted.threeValid]
    exact List.length_filter_le _ _
  · rw [L.cited_attempts hnd]
    exact L.attemptsAccepted.exists_numbers
  · rw [L.cited_attempts hnd]
    exact L.attemptsAccepted.threeValid
  · rw [L.cited_attempts hnd]
    exact L.attemptsAccepted.passed
  · intro item hi
    simp only [runKinds, List.mem_append, or_assoc, List.mem_singleton]
    have hi := hmem.mp hi
    simp only [chain, List.mem_append, or_assoc] at hi
    rcases hi with h | h | h | h | h
    · exact .inl (L.mem_source h).2
    · exact .inr (.inl (L.mem_build h).2)
    · exact .inr (.inr (.inl (L.mem_licenses h).2))
    · exact .inr (.inr (.inr (.inl (L.mem_liveItems h).2.1)))
    · exact .inr (.inr (.inr (.inr (mem_profileAttempts.mp h).2.1)))

end Layers

/-- The identity chain of a benchmark claim. The last part says that no receipt
of another image, model, preset or run can stand in the pool under a kind the
chain uses. -/
theorem benchmark_identity_chain {receipts : List PoolItem} {profile : Option String}
    {subject : Subject} {cited : List String} (hpool : poolOf receipts = .ok pool)
    (h : derive "benchmark-reproduced" pool profile = .ok (subject, cited)) :
    ∃ name ∈ profiles, profile = some name ∧
      IdentityChain name subject (citedBy cited pool) ∧
      (∀ item ∈ pool, (item.receipt.receiptType ∈ sourceTypes ++ buildTypes ++ licenseTypes ∨
          item.receipt.receiptType ∈ runKinds name ∧ item.receipt.metadata.profile = some name) →
        item ∈ citedBy cited pool) ∧
      ∀ item ∈ pool,
        (item.receipt.receiptType ∈ buildTypes →
          item.receipt.subject .imageDigest = subject .imageDigest) ∧
        (item.receipt.receiptType ∈ runKinds name → item.receipt.metadata.profile = some name →
          ∀ k ∈ [SubjectKey.imageDigest, .modelId, .sidecarId, .presetId, .runId],
            item.receipt.subject k = subject k) := by
  have hnd := (poolOf_eq_ok.mp hpool).2
  have hd : deriveBenchmark pool (profile.getD "") = .ok (subject, cited) := h
  obtain ⟨_, hlive, -⟩ := deriveBenchmark_eq_ok.mp hd
  obtain ⟨_, _, _, _, _, hname, -⟩ := deriveLive_eq_ok.mp hlive
  obtain ⟨name, rfl⟩ : ∃ name, profile = some name := by
    cases profile with
    | none => exact absurd hname (by decide)
    | some name => exact ⟨name, rfl⟩
  obtain ⟨L, rfl⟩ := Layers.exists_of_derive hd
  have hcited : ∀ item ∈ pool,
      (item.receipt.receiptType ∈ sourceTypes ++ buildTypes ++ licenseTypes ∨
        item.receipt.receiptType ∈ runKinds name ∧ item.receipt.metadata.profile = some name) →
      item ∈ citedBy (ids L.chain) pool := fun item hi hk =>
    (L.mem_cited hnd).mpr (L.mem_chain_of_kind hi hk)
  have hchain := L.identityChain hnd
  refine ⟨name, hname, rfl, hchain, hcited, fun item hi => ⟨fun ht => ?_, fun ht hp k hk => ?_⟩⟩
  · exact (hchain.buildAgree item (hcited item hi (by simp [ht])) (by simp [ht]) .imageDigest
      (by simp [buildKeys])).1
  · refine (hchain.liveAgree item (hcited item hi (.inr ⟨ht, hp⟩)) ht k ?_).1
    refine Layers.mem_live ?_
    simp only [List.mem_cons, List.not_mem_nil, or_false] at hk
    rcases hk with rfl | rfl | rfl | rfl | rfl <;> decide

def modelReceipts : Pool :=
  licenseTypes.map fun kind => testReceipt kind kind
    (Subject.project [.modelId, .sidecarId] (testSubject "e")) { rightsStatus := some .verified }

def buildReceipts (image : String) : Pool :=
  buildTypes.map fun kind => testReceipt (kind ++ image) kind
    (Subject.project buildKeys (testSubject image)) {}

def liveReceipts (profile : String) : Pool :=
  (liveKinds profile).map fun kind => testReceipt (kind ++ profile) kind (testSubject "e")
    { profile := some profile }

def batteryReceipt (profile id : String) (attempt : ℤ) (valid : Bool) : VerifiedReceipt :=
  testReceipt id "battery" (testSubject "e")
    { profile := some profile, attempt := some (.int attempt), valid := some valid,
      thresholdsPassed := some true, medianThresholdPassed := some true }

/-- A complete Fast chain with the given battery receipts. -/
def fastChain (batteries : Pool) : Pool :=
  sourceReceipts ++ modelReceipts ++ buildReceipts "e" ++ liveReceipts "fast-320k" ++ batteries

theorem benchmark_identity_chain_fast :
    ∃ subject cited, derive "benchmark-reproduced"
        (fastChain [batteryReceipt "fast-320k" "1" 1 true, batteryReceipt "fast-320k" "2" 2 true,
          batteryReceipt "fast-320k" "3" 3 true]) (some "fast-320k") = .ok (subject, cited) ∧
      IdentityChain "fast-320k" subject (citedBy cited
        (fastChain [batteryReceipt "fast-320k" "1" 1 true, batteryReceipt "fast-320k" "2" 2 true,
          batteryReceipt "fast-320k" "3" 3 true])) := by
  obtain ⟨⟨subject, cited⟩, h⟩ := exists_ok_of_isSome (show (derive "benchmark-reproduced"
    (fastChain [batteryReceipt "fast-320k" "1" 1 true, batteryReceipt "fast-320k" "2" 2 true,
      batteryReceipt "fast-320k" "3" 3 true]) (some "fast-320k")).toOption.isSome = true by decide)
  obtain ⟨name, -, hname, hchain, -⟩ := benchmark_identity_chain
    (poolOf_eq_ok.mpr ⟨rfl, by decide⟩) h
  obtain rfl : "fast-320k" = name := Option.some.inj hname
  exact ⟨subject, cited, h, hchain⟩

end ChampionRuntime.Publication
