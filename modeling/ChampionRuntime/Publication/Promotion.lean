import ChampionRuntime.Publication.Restriction

/-!
# Soundness and order independence of promotion

The invariant of the status document is that every passed entry is justified:
its cited receipts are in the pool and derive exactly its subject and its
identifiers. Promotion re-establishes the invariant for the whole document, and
from one pool promotions commute and are idempotent.
-/
namespace ChampionRuntime.Publication

open Lib

variable {pool : Pool}

/-- The receipts an entry cites are present and derive the entry by themselves. -/
def Justified (pool : Pool) (entry : ClaimEntry) : Prop :=
  entry.receiptIds ⊆ ids pool ∧
    ∃ cited, derive entry.claim (citedBy entry.receiptIds pool) entry.profile =
        .ok (entry.subject, cited) ∧ ∀ id, id ∈ cited ↔ id ∈ entry.receiptIds

theorem sameElements_iff {a b : List String} :
    sameElements a b = true ↔ ∀ id, id ∈ a ↔ id ∈ b := by
  simp only [sameElements, Bool.and_eq_true, List.all_eq_true, List.contains_iff_mem]
  constructor
  · rintro ⟨hab, hba⟩ id
    exact ⟨hab id, hba id⟩
  · intro h
    exact ⟨fun id => (h id).mp, fun id => (h id).mpr⟩

theorem mem_ids_citedBy {receiptIds : List String} {id : String} :
    id ∈ ids (citedBy receiptIds pool) ↔ id ∈ ids pool ∧ id ∈ receiptIds := by
  simp only [ids, citedBy, List.mem_map, List.mem_filter, List.contains_iff_mem]
  constructor
  · rintro ⟨item, ⟨hi, hc⟩, rfl⟩
    exact ⟨⟨item, hi, rfl⟩, hc⟩
  · rintro ⟨⟨item, hi, rfl⟩, hc⟩
    exact ⟨item, ⟨hi, hc⟩, rfl⟩

theorem recheck_eq_ok {entry : ClaimEntry} {a : Unit} :
    recheck pool entry = .ok a ↔ Justified pool entry := by
  have hpresent : sameElements (ids (citedBy entry.receiptIds pool)) entry.receiptIds = true ↔
      entry.receiptIds ⊆ ids pool := by
    simp only [sameElements_iff, mem_ids_citedBy, and_iff_right_iff_imp]
    rfl
  unfold recheck Justified
  simp only [hpresent]
  split_ifs with h
  · simp only [h, true_and]
    cases hd : derive entry.claim (citedBy entry.receiptIds pool) entry.profile with
    | error cause => simp
    | ok result =>
      obtain ⟨subject, cited⟩ := result
      simp only [require_eq_ok, Bool.and_eq_true, decide_eq_true_eq, sameElements_iff,
        Except.ok.injEq, Prod.mk.injEq]
      constructor
      · rintro ⟨rfl, hs⟩
        exact ⟨cited, ⟨rfl, rfl⟩, fun id => (hs id).symm⟩
      · rintro ⟨_, ⟨rfl, rfl⟩, hs⟩
        exact ⟨rfl, fun id => (hs id).symm⟩
  · simp [h]

theorem onlyPass_mem {found : Pool} {miscounted : ℕ → GateError} {failed : GateError}
    {item : VerifiedReceipt} (h : onlyPass found miscounted failed = .ok item) : item ∈ found := by
  rw [(onlyPass_eq_ok.mp h).1]
  simp

theorem ids_subset_of_mapM {f : String → Except GateError VerifiedReceipt} {kinds : List String}
    {items : Pool} (hm : kinds.mapM f = .ok items)
    (hf : ∀ kind item, f kind = .ok item → item ∈ pool) : ids items ⊆ ids pool := by
  intro id hid
  obtain ⟨item, hitem, rfl⟩ := List.mem_map.mp hid
  obtain ⟨kind, -, hpick⟩ := mem_result_of_mapM_eq_ok hm hitem
  exact mem_ids (hf kind item hpick)

theorem onePass_mem {kind : String} {item : VerifiedReceipt} (h : onePass pool kind = .ok item) :
    item ∈ pool := List.mem_of_mem_filter (onlyPass_mem h)

theorem onePass_ids {items : Pool} (h : ∀ item ∈ items, ∃ kind, onePass pool kind = .ok item) :
    ids items ⊆ ids pool := by
  intro id hid
  obtain ⟨item, hitem, rfl⟩ := List.mem_map.mp hid
  obtain ⟨kind, hpick⟩ := h item hitem
  exact mem_ids (onePass_mem hpick)

section Cited

variable {subject : Subject} {cited : List String}

theorem deriveSource_cited (h : deriveSource pool = .ok (subject, cited)) :
    cited ⊆ ids pool := by
  obtain ⟨items, hitems, -, rfl⟩ := deriveSource_eq_ok.mp h
  exact ids_subset_of_mapM hitems fun _ _ => onePass_mem

theorem deriveModel_cited (h : deriveModel pool = .ok (subject, cited)) : cited ⊆ ids pool := by
  obtain ⟨checkpoint, sidecar, -, -, hc, hs, -, -, -, -, rfl⟩ := deriveModel_eq_ok.mp h
  apply onePass_ids
  simp only [List.mem_cons, List.not_mem_nil, or_false]
  rintro item (rfl | rfl)
  · exact ⟨_, hc⟩
  · exact ⟨_, hs⟩

theorem deriveClean_cited (h : deriveClean pool = .ok (subject, cited)) : cited ⊆ ids pool := by
  obtain ⟨source, sourceIds, items, hsource, hitems, -, -, rfl⟩ := deriveClean_eq_ok.mp h
  exact List.append_subset.mpr
    ⟨deriveSource_cited hsource, ids_subset_of_mapM hitems fun _ _ => onePass_mem⟩

theorem deriveLive_cited {profile : String} (h : deriveLive pool profile = .ok (subject, cited)) :
    cited ⊆ ids pool := by
  obtain ⟨clean, cleanIds, model, modelIds, items, -, hclean, hmodel, hitems, -, -, -, rfl⟩ :=
    deriveLive_eq_ok.mp h
  refine List.append_subset.mpr ⟨List.append_subset.mpr
    ⟨deriveClean_cited hclean, deriveModel_cited hmodel⟩, ?_⟩
  exact ids_subset_of_mapM hitems fun _ _ hp =>
    List.mem_of_mem_filter (List.mem_of_mem_filter (onlyPass_mem hp))

theorem deriveBenchmark_cited {profile : String}
    (h : deriveBenchmark pool profile = .ok (subject, cited)) : cited ⊆ ids pool := by
  obtain ⟨liveIds, hlive, -, -, rfl⟩ := deriveBenchmark_eq_ok.mp h
  refine List.append_subset.mpr ⟨deriveLive_cited hlive, List.map_subset _ ?_⟩
  intro item hi
  exact List.mem_of_mem_filter (List.mem_of_mem_filter hi)

theorem deriveBitReproducible_cited (h : deriveBitReproducible pool = .ok (subject, cited)) :
    cited ⊆ ids pool := by
  obtain ⟨comparison, source, sourceIds, digests, chains, hc, -, hs, -, hch, -, -, -, rfl⟩ :=
    deriveBitReproducible_eq_ok.mp h
  refine List.append_subset.mpr ⟨List.append_subset.mpr ⟨deriveSource_cited hs, ?_⟩, ?_⟩
  · intro id hid
    obtain ⟨item, hitem, rfl⟩ := List.mem_map.mp hid
    obtain ⟨chain, hchain, hitem⟩ := List.mem_flatMap.mp hitem
    obtain ⟨digest, -, hok⟩ := mem_result_of_mapM_eq_ok hch hchain
    obtain ⟨kind, -, hpick⟩ := mem_result_of_mapM_eq_ok (buildChain_eq_ok.mp hok).1 hitem
    exact mem_ids (List.mem_of_mem_filter (List.mem_of_mem_filter (onlyPass_mem hpick)))
  · exact onePass_ids (by simpa using ⟨_, hc⟩)

theorem derivePublished_cited (h : derivePublished pool = .ok (subject, cited)) :
    cited ⊆ ids pool := by
  obtain ⟨cleanIds, license, publication, hclean, hl, hp, -, -, -, rfl⟩ :=
    derivePublished_eq_ok.mp h
  refine List.append_subset.mpr ⟨deriveClean_cited hclean, onePass_ids ?_⟩
  simp only [List.mem_cons, List.not_mem_nil, or_false]
  rintro item (rfl | rfl)
  · exact ⟨_, hl⟩
  · exact ⟨_, hp⟩

theorem derive_cited {claim : String} {profile : Option String}
    (h : derive claim pool profile = .ok (subject, cited)) : cited ⊆ ids pool := by
  unfold derive at h
  split at h
  · rename_i name _
    cases name with
    | sourceComplete => exact deriveSource_cited h
    | modelLicense => exact deriveModel_cited h
    | cleanBuild => exact deriveClean_cited h
    | liveLaunch => exact deriveLive_cited h
    | benchmarkReproduced => exact deriveBenchmark_cited h
    | threeProfileSuite =>
      obtain ⟨fast, balanced, large, hf, hb, hl, -, -, -, rfl⟩ := deriveSuite_eq_ok.mp h
      exact List.append_subset.mpr ⟨List.append_subset.mpr
        ⟨deriveBenchmark_cited hf, deriveBenchmark_cited hb⟩, deriveBenchmark_cited hl⟩
    | bitReproducible => exact deriveBitReproducible_cited h
    | anonymousReadback =>
      obtain ⟨live, liveIds, items, hl, hitems, -, -, rfl⟩ := deriveAnonymous_eq_ok.mp h
      exact List.append_subset.mpr
        ⟨deriveLive_cited hl, ids_subset_of_mapM hitems fun _ _ => onePass_mem⟩
    | convenienceImagePublished => exact derivePublished_cited h
    | convenienceImageReadback =>
      obtain ⟨publishedIds, readback, hp, hr, -, rfl⟩ := deriveReadback_eq_ok.mp h
      exact List.append_subset.mpr
        ⟨derivePublished_cited hp, onePass_ids (by simpa using ⟨_, hr⟩)⟩
  · simp at h

end Cited

theorem promote_eq_ok {status status' : Status} {claim : String} {receipts : List PoolItem}
    {profile now : Option String} {clock : String} :
    promote status claim receipts profile now clock = .ok status' ↔
      ∃ pool subject cited, poolOf receipts = .ok pool ∧
        (∀ e ∈ status.claims, e.status = .passed → Justified pool e) ∧
        derive claim pool profile = .ok (subject, cited) ∧
        (status.claims.filter fun item => claimKey item = (claim, profile)).length = 1 ∧
        status' = setEntry status (claim, profile) subject cited (stamp now clock) := by
  simp only [promote, bind_eq_ok, pure_eq_ok, require_eq_ok, beq_iff_eq, Prod.exists]
  constructor
  · rintro ⟨pool, hpool, _, hre, subject, cited, hd, _, hone, rfl⟩
    refine ⟨pool, subject, cited, hpool, fun e he hp => ?_, hd, hone, rfl⟩
    obtain ⟨_, -, hok⟩ := mem_of_mapM_eq_ok hre (List.mem_filter.mpr ⟨he, by simpa using hp⟩)
    exact recheck_eq_ok.mp hok
  · rintro ⟨pool, subject, cited, hpool, hj, hd, hone, rfl⟩
    obtain ⟨checked, hchecked⟩ : ∃ checked, (status.claims.filter fun item =>
        item.status == .passed).mapM (recheck pool) = .ok checked := by
      refine exists_mapM_eq_ok fun e he => ⟨(), ?_⟩
      obtain ⟨he, hp⟩ := List.mem_filter.mp he
      exact recheck_eq_ok.mpr (hj e he (by simpa using hp))
    exact ⟨pool, hpool, checked, hchecked, subject, cited, hd, (), hone, rfl⟩

/-- The promoted entry is justified by the pool it was promoted from: the
derivation survives the restriction to its own identifiers. -/
theorem justified_passedEntry {claim : String} {profile : Option String} {subject : Subject}
    {cited : List String} (hd : derive claim pool profile = .ok (subject, cited))
    {item : ClaimEntry} (hk : claimKey item = (claim, profile)) :
    Justified pool (passedEntry item subject cited) := by
  obtain ⟨rfl, rfl⟩ := Prod.mk.inj hk
  have hmem : ∀ id, id ∈ cited.eraseDups ↔ id ∈ cited := fun id => List.mem_eraseDups
  refine ⟨fun id hid => derive_cited hd ((hmem id).mp hid), ?_⟩
  obtain ⟨cited', hd', hperm⟩ := derive_transfer hd
    (supports_citedBy cited.eraseDups fun id hid => (hmem id).mpr hid)
  exact ⟨cited', hd', fun id => hperm.mem_iff.trans (hmem id).symm⟩

theorem mem_setEntry {status : Status} {wanted : String × Option String} {subject : Subject}
    {cited : List String} {updatedAt : String} {e : ClaimEntry}
    (he : e ∈ (setEntry status wanted subject cited updatedAt).claims) :
    (e ∈ status.claims ∧ claimKey e ≠ wanted) ∨
      ∃ item ∈ status.claims, claimKey item = wanted ∧ e = passedEntry item subject cited := by
  obtain ⟨item, hitem, rfl⟩ := List.mem_map.mp he
  by_cases hk : claimKey item = wanted
  · exact .inr ⟨item, hitem, hk, if_pos hk⟩
  · rw [if_neg hk]
    exact .inl ⟨hitem, hk⟩

theorem justified_setEntry {status : Status} {claim : String} {profile : Option String}
    {subject : Subject} {cited : List String} {updatedAt : String}
    (hj : ∀ e ∈ status.claims, e.status = .passed → Justified pool e)
    (hd : derive claim pool profile = .ok (subject, cited)) :
    ∀ e ∈ (setEntry status (claim, profile) subject cited updatedAt).claims,
      e.status = .passed → Justified pool e := by
  intro e he hp
  rcases mem_setEntry he with ⟨he, -⟩ | ⟨item, -, hk, rfl⟩
  · exact hj e he hp
  · exact justified_passedEntry hd hk

theorem nodup_citedBy {receiptIds : List String} (h : (ids pool).Nodup) :
    (citedBy receiptIds pool).Nodup := (List.Nodup.of_map _ h).filter _

/-- A justified entry stays justified by every pool that contains the receipts
it cites, since an identifier names one receipt of a pool. -/
theorem Justified.later {entry : ClaimEntry} (h : Justified pool entry) (hnd : (ids pool).Nodup)
    {later : Pool} (hlater : (ids later).Nodup)
    (hsub : citedBy entry.receiptIds pool ⊆ later) : Justified later entry := by
  obtain ⟨hpresent, cited, hd, hmem⟩ := h
  have hperm : (citedBy entry.receiptIds later).Perm (citedBy entry.receiptIds pool) := by
    rw [List.perm_ext_iff_of_nodup (nodup_citedBy hlater) (nodup_citedBy hnd)]
    intro item
    constructor
    · intro hi
      obtain ⟨hil, hic⟩ := List.mem_filter.mp hi
      obtain ⟨original, horiginal, hid⟩ :=
        List.mem_map.mp (hpresent (List.contains_iff_mem.mp hic))
      have hcited : original ∈ citedBy entry.receiptIds pool :=
        List.mem_filter.mpr ⟨horiginal, hid ▸ hic⟩
      rwa [← List.inj_on_of_nodup_map hlater (hsub hcited) hil hid]
    · intro hi
      exact List.mem_filter.mpr ⟨hsub hi, (List.mem_filter.mp hi).2⟩
  obtain ⟨cited', hd', hperm'⟩ := derive_transfer hd (supports_of_perm hperm)
  refine ⟨?_, cited', hd', fun id => hperm'.mem_iff.trans (hmem id)⟩
  intro id hid
  obtain ⟨item, hitem, rfl⟩ := List.mem_map.mp
    (mem_ids_citedBy.mpr ⟨hpresent hid, hid⟩)
  exact mem_ids (hsub hitem)

/-- With a single entry for the promoted claim, the document changes there only. -/
theorem setEntry_split {status : Status} {wanted : String × Option String} {subject : Subject}
    {cited : List String} {updatedAt : String}
    (h : (status.claims.filter fun item => claimKey item = wanted).length = 1) :
    ∃ before entry after, status.claims = before ++ entry :: after ∧ claimKey entry = wanted ∧
      (setEntry status wanted subject cited updatedAt).claims =
        before ++ passedEntry entry subject cited :: after := by
  obtain ⟨entry, hentry⟩ := List.length_eq_one_iff.mp h
  obtain ⟨before, after, hsplit, hbefore, hkey, hafter⟩ := List.filter_eq_cons_iff.mp hentry
  have hkeep : ∀ l : List ClaimEntry, (∀ item ∈ l, claimKey item ≠ wanted) →
      (l.map fun item => if claimKey item = wanted then passedEntry item subject cited else item)
        = l := by
    intro l hl
    conv_rhs => rw [← List.map_id l]
    exact List.map_congr_left fun item hi => if_neg (hl item hi)
  have hkey : claimKey entry = wanted := of_decide_eq_true hkey
  refine ⟨before, entry, after, hsplit, hkey, ?_⟩
  simp only [setEntry, hsplit, List.map_append, List.map_cons, if_pos hkey]
  rw [hkeep before fun item hi => by simpa using hbefore item hi,
    hkeep after fun item hi => by simpa using List.filter_eq_nil_iff.mp hafter item hi]

/-- Promotion soundness: whatever `promote` returns, every passed entry is
derived, with its own subject and identifiers, from exactly the receipts it
cites, and passes again in every later pool that contains them; the document
changes at the promoted entry only. -/
theorem promote_sound {status status' : Status} {claim : String} {receipts : List PoolItem}
    {profile now : Option String} {clock : String}
    (h : promote status claim receipts profile now clock = .ok status') :
    ∃ pool, poolOf receipts = .ok pool ∧
      (∀ e ∈ status'.claims, e.status = .passed →
        e.receiptIds ⊆ ids pool ∧
        (∃ cited, derive e.claim (citedBy e.receiptIds pool) e.profile = .ok (e.subject, cited) ∧
          ∀ id, id ∈ cited ↔ id ∈ e.receiptIds) ∧
        ∀ later laterPool, poolOf later = .ok laterPool →
          citedBy e.receiptIds pool ⊆ laterPool → recheck laterPool e = .ok ()) ∧
      ∃ before entry after subject cited, status.claims = before ++ entry :: after ∧
        claimKey entry = (claim, profile) ∧ derive claim pool profile = .ok (subject, cited) ∧
        status'.claims = before ++ passedEntry entry subject cited :: after ∧
        (passedEntry entry subject cited).status = .passed ∧
        (passedEntry entry subject cited).subject = subject ∧
        ∀ id, id ∈ (passedEntry entry subject cited).receiptIds ↔ id ∈ cited := by
  obtain ⟨pool, subject, cited, hpool, hj, hd, hone, rfl⟩ := promote_eq_ok.mp h
  refine ⟨pool, hpool, ?_, ?_⟩
  · intro e he hp
    have hje := justified_setEntry hj hd e he hp
    refine ⟨hje.1, hje.2, fun later laterPool hlater hsub => ?_⟩
    exact recheck_eq_ok.mpr
      (hje.later (poolOf_eq_ok.mp hpool).2 (poolOf_eq_ok.mp hlater).2 hsub)
  · obtain ⟨before, entry, after, hsplit, hkey, hset⟩ := setEntry_split hone
    exact ⟨before, entry, after, subject, cited, hsplit, hkey, hd, hset, rfl, rfl,
      fun _ => List.mem_eraseDups⟩

/-- A receipt as the gate's own tests build them, with a readable identifier. -/
def testReceipt (id kind : String) (subject : Subject) (metadata : Metadata) : VerifiedReceipt where
  receipt :=
    { receiptId := id, receiptType := kind, createdAt := "2026-08-23T12:00:00Z",
      subject := subject, result := .pass, metadata := metadata }
  repository := "0xdfi/glm-5.2-dgx-spark-vllm027"
  workflow := ".github/workflows/attest-evidence.yml"
  ref := "refs/heads/main"
  attestedSubjectSha256 := "8"
  runnerConstraintsSource := "committed-workflow-policy"

def testSubject (image : String) : Subject
  | .sourceReleaseId => some "a"
  | .buildSubjectId => some "b"
  | .buildLockId => some "c"
  | .sourceManifestId => some "d"
  | .imageDigest => some image
  | .modelId => some "f"
  | .sidecarId => some "1"
  | .presetId => some "2"
  | .pinId => some "3"
  | .runId => some "live-run-1"
  | _ => none

def sourceReceipts : Pool :=
  sourceTypes.map fun kind => testReceipt kind kind (Subject.project sourceKeys (testSubject "e")) {}

def emptyEntry (claim : String) (profile : Option String) : ClaimEntry where
  claim := claim
  profile := profile
  status := .pending
  subject := fun _ => none
  receiptIds := []
  reason := none

/-- `empty_status` of the gate's tests. -/
def emptyStatus : Status where
  schemaVersion := "1.0.0"
  updatedAt := "2026-08-23T00:00:00Z"
  claims :=
    (["source-complete", "model-license", "clean-build", "bit-reproducible", "three-profile-suite",
      "anonymous-readback", "convenience-image-published", "convenience-image-readback"].map
        fun claim => emptyEntry claim none) ++
    profiles.flatMap fun profile =>
      ["live-launch", "benchmark-reproduced"].map fun claim => emptyEntry claim (some profile)

theorem promote_sound_source_complete :
    ∃ status', promote emptyStatus "source-complete" (sourceReceipts.map .verified) none
        (some "now") "clock" = .ok status' ∧
      ∃ pool, poolOf (sourceReceipts.map .verified) = .ok pool ∧
        ∀ e ∈ status'.claims, e.status = .passed → e.receiptIds ⊆ ids pool := by
  obtain ⟨status', h⟩ := exists_ok_of_isSome (show (promote emptyStatus "source-complete"
    (sourceReceipts.map .verified) none (some "now") "clock").toOption.isSome = true by decide)
  obtain ⟨pool, hpool, hpassed, -⟩ := promote_sound h
  exact ⟨status', h, pool, hpool, fun e he hp => (hpassed e he hp).1⟩

section OrderIndependence

def PoolItem.receipt? : PoolItem → Option VerifiedReceipt
  | .verified item => some item
  | .raw _ => none

theorem filterMap_receipt (pool : Pool) :
    (pool.map PoolItem.verified).filterMap PoolItem.receipt? = pool := by
  rw [List.filterMap_map]
  exact List.filterMap_some

theorem poolOf_perm {receipts receipts' : List PoolItem} (hp : receipts'.Perm receipts)
    (h : poolOf receipts = .ok pool) : ∃ pool', poolOf receipts' = .ok pool' ∧ pool'.Perm pool := by
  obtain ⟨rfl, hnd⟩ := poolOf_eq_ok.mp h
  have hperm : (receipts'.filterMap PoolItem.receipt?).Perm pool :=
    filterMap_receipt pool ▸ hp.filterMap PoolItem.receipt?
  refine ⟨receipts'.filterMap PoolItem.receipt?, poolOf_eq_ok.mpr
    ⟨?_, (hperm.map _).nodup_iff.mpr hnd⟩, hperm⟩
  have hall : ∀ x ∈ receipts', ∃ item, x = .verified item := by
    intro x hx
    obtain ⟨item, -, rfl⟩ := List.mem_map.mp (hp.mem_iff.mp hx)
    exact ⟨item, rfl⟩
  clear hp hperm
  induction receipts' with
  | nil => rfl
  | cons x rest ih =>
    obtain ⟨item, rfl⟩ := hall x (by simp)
    simpa [PoolItem.receipt?] using ih fun y hy => hall y (by simp [hy])

theorem Justified.perm {entry : ClaimEntry} (h : Justified pool entry) {pool' : Pool}
    (hp : pool'.Perm pool) : Justified pool' entry := by
  obtain ⟨hpresent, cited, hd, hmem⟩ := h
  obtain ⟨cited', hd', hperm⟩ := derive_transfer hd (supports_of_perm (hp.filter _))
  refine ⟨fun id hid => (hp.map _).mem_iff.mpr (hpresent hid), cited', hd', ?_⟩
  exact fun id => hperm.mem_iff.trans (hmem id)

/-- Two entries that differ at most in the order of the cited identifiers. -/
def SameUpToOrder (e e' : ClaimEntry) : Prop :=
  e'.receiptIds.Perm e.receiptIds ∧ e = { e' with receiptIds := e.receiptIds }

theorem promote_perm {status status' : Status} {claim : String} {receipts receipts' : List PoolItem}
    {profile now : Option String} {clock : String} (hp : receipts'.Perm receipts)
    (h : promote status claim receipts profile now clock = .ok status') :
    ∃ status'', promote status claim receipts' profile now clock = .ok status'' ∧
      status''.updatedAt = status'.updatedAt ∧ status''.schemaVersion = status'.schemaVersion ∧
      List.Forall₂ SameUpToOrder status'.claims status''.claims := by
  obtain ⟨pool, subject, cited, hpool, hj, hd, hone, rfl⟩ := promote_eq_ok.mp h
  obtain ⟨pool', hpool', hperm⟩ := poolOf_perm hp hpool
  obtain ⟨cited', hd', hcited⟩ := derive_transfer hd (supports_of_perm hperm)
  refine ⟨_, promote_eq_ok.mpr ⟨pool', subject, cited', hpool',
    fun e he hs => (hj e he hs).perm hperm, hd', hone, rfl⟩, rfl, rfl, ?_⟩
  simp only [setEntry, List.forall₂_map_left_iff, List.forall₂_map_right_iff]
  refine List.forall₂_same.mpr fun item _ => ?_
  split_ifs
  · exact ⟨eraseDups_perm hcited, rfl⟩
  · exact ⟨.refl _, rfl⟩

theorem claimKey_setEntry (item : ClaimEntry) (wanted : String × Option String)
    (subject : Subject) (cited : List String) :
    claimKey (if claimKey item = wanted then passedEntry item subject cited else item) =
      claimKey item := by
  split_ifs <;> rfl

/-- Rewriting one entry leaves the number of entries of every claim unchanged. -/
theorem filter_setEntry_length (status : Status) (wanted key : String × Option String)
    (subject : Subject) (cited : List String) (updatedAt : String) :
    ((setEntry status wanted subject cited updatedAt).claims.filter fun item =>
        claimKey item = key).length =
      (status.claims.filter fun item => claimKey item = key).length := by
  simp [setEntry, List.filter_map, Function.comp_def, claimKey_setEntry]

/-- A second promotion from the same pool: the first one has left every passed
entry justified, so only its own rewrite is added. -/
theorem promote_setEntry {status : Status} {claim claim' : String} {receipts : List PoolItem}
    {profile profile' now : Option String} {clock : String} {subject subject' : Subject}
    {cited cited' : List String} {updatedAt : String} (hpool : poolOf receipts = .ok pool)
    (hj : ∀ e ∈ status.claims, e.status = .passed → Justified pool e)
    (hd : derive claim pool profile = .ok (subject, cited))
    (hd' : derive claim' pool profile' = .ok (subject', cited'))
    (hone : (status.claims.filter fun item => claimKey item = (claim', profile')).length = 1) :
    promote (setEntry status (claim, profile) subject cited updatedAt) claim' receipts profile'
        now clock =
      .ok (setEntry (setEntry status (claim, profile) subject cited updatedAt) (claim', profile')
        subject' cited' (stamp now clock)) :=
  promote_eq_ok.mpr ⟨pool, subject', cited', hpool, justified_setEntry hj hd, hd',
    (filter_setEntry_length ..).trans hone, rfl⟩

theorem setEntry_idem (status : Status) (wanted : String × Option String) (subject : Subject)
    (cited : List String) (updatedAt : String) :
    setEntry (setEntry status wanted subject cited updatedAt) wanted subject cited updatedAt =
      setEntry status wanted subject cited updatedAt := by
  simp only [setEntry, List.map_map, Status.mk.injEq, true_and]
  refine List.map_congr_left fun item _ => ?_
  simp only [Function.comp_apply, claimKey_setEntry]
  split_ifs <;> rfl

theorem setEntry_comm (status : Status) {a b : String × Option String} (hab : a ≠ b)
    (subject subject' : Subject) (cited cited' : List String) (updatedAt : String) :
    setEntry (setEntry status a subject cited updatedAt) b subject' cited' updatedAt =
      setEntry (setEntry status b subject' cited' updatedAt) a subject cited updatedAt := by
  simp only [setEntry, List.map_map, Status.mk.injEq, true_and]
  refine List.map_congr_left fun item _ => ?_
  simp only [Function.comp_apply, claimKey_setEntry]
  by_cases ha : claimKey item = a
  · simp [ha, hab]
  · simp [ha]

/-- Promotion is order-independent: in the order of the pool, in repetition and
in the order of two promotions from one pool. -/
theorem promote_order_independent (now : Option String) (clock : String) :
    (∀ (status status' : Status) (claim : String) (profile : Option String)
        (receipts receipts' : List PoolItem), receipts'.Perm receipts →
      promote status claim receipts profile now clock = .ok status' →
      ∃ status'', promote status claim receipts' profile now clock = .ok status'' ∧
        status''.updatedAt = status'.updatedAt ∧ status''.schemaVersion = status'.schemaVersion ∧
        List.Forall₂ SameUpToOrder status'.claims status''.claims) ∧
    (∀ (status status' : Status) (claim : String) (profile : Option String)
        (receipts : List PoolItem),
      promote status claim receipts profile now clock = .ok status' →
      promote status' claim receipts profile now clock = .ok status') ∧
    ∀ (status statusA statusB : Status) (claimA claimB : String) (profileA profileB : Option String)
        (receipts : List PoolItem),
      promote status claimA receipts profileA now clock = .ok statusA →
      promote status claimB receipts profileB now clock = .ok statusB →
      ∃ final, promote statusA claimB receipts profileB now clock = .ok final ∧
        promote statusB claimA receipts profileA now clock = .ok final := by
  refine ⟨fun _ _ _ _ _ _ hp h => promote_perm hp h, ?_, ?_⟩
  · intro status status' claim profile receipts h
    obtain ⟨pool, subject, cited, hpool, hj, hd, hone, rfl⟩ := promote_eq_ok.mp h
    rw [promote_setEntry hpool hj hd hd hone, setEntry_idem]
  · intro status statusA statusB claimA claimB profileA profileB receipts hA hB
    obtain ⟨pool, subjectA, citedA, hpool, hj, hdA, honeA, rfl⟩ := promote_eq_ok.mp hA
    obtain ⟨pool', subjectB, citedB, hpool', -, hdB, honeB, rfl⟩ := promote_eq_ok.mp hB
    obtain rfl : pool = pool' := Except.ok.inj (hpool.symm.trans hpool')
    refine ⟨_, promote_setEntry hpool hj hdA hdB honeB, ?_⟩
    rw [promote_setEntry hpool hj hdB hdA honeA]
    by_cases hab : (claimA, profileA) = (claimB, profileB)
    · obtain ⟨rfl, rfl⟩ := Prod.mk.inj hab
      obtain ⟨rfl, rfl⟩ := Prod.mk.inj (Except.ok.inj (hdA.symm.trans hdB))
      rfl
    · rw [setEntry_comm status hab]

end OrderIndependence

end ChampionRuntime.Publication
