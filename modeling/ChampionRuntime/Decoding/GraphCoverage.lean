import ChampionRuntime.Decoding.Graphs

/-!
# Coverage of the depth ladder

The coverage check compares shapes with captured descriptors, while a batch is
looked up in two candidate tables laid over each other. In both tables the
decodes of a bucket stand before its mixed descriptor, so that a lookup which
could be served by a decode is served by one.
-/
namespace ChampionRuntime.Decoding

open Lib

theorem mem_foldl_appendNew (descs new : List Descriptor) {desc : Descriptor} :
    desc ∈ new.foldl appendNew descs ↔ desc ∈ descs ∨ desc ∈ new := by
  induction new generalizing descs with
  | nil => simp
  | cons first new ih =>
    rw [List.foldl_cons, ih, appendNew]
    split_ifs with hmem
    · constructor
      · rintro (h | h)
        · exact .inl h
        · exact .inr (List.mem_cons_of_mem _ h)
      · rintro (h | h)
        · exact .inl h
        · rcases List.mem_cons.mp h with rfl | h
          · exact .inl hmem
          · exact .inr h
    · rw [List.mem_append, List.mem_singleton, List.mem_cons, or_assoc]

theorem foldl_appendNew (descs new : List Descriptor) :
    ∃ added, new.foldl appendNew descs = descs ++ added ∧ added.Sublist new ∧ added.Nodup ∧
      ∀ desc ∈ added, desc ∉ descs := by
  induction new generalizing descs with
  | nil => exact ⟨[], by simp⟩
  | cons first new ih =>
    rw [List.foldl_cons, appendNew]
    split_ifs with hmem
    · obtain ⟨added, heq, hsub, hnd, hfresh⟩ := ih descs
      exact ⟨added, heq, hsub.cons first, hnd, hfresh⟩
    · obtain ⟨added, heq, hsub, hnd, hfresh⟩ := ih (descs ++ [first])
      refine ⟨first :: added, by rw [heq, List.append_assoc, List.singleton_append],
        hsub.cons_cons first, ?_, ?_⟩
      · refine List.nodup_cons.mpr ⟨fun hadded => ?_, hnd⟩
        exact hfresh first hadded (by simp)
      · intro desc hdesc hold
        rcases List.mem_cons.mp hdesc with rfl | hadded
        · exact hmem hold
        · exact hfresh desc hadded (List.mem_append_left _ hold)

theorem nodup_foldl_appendNew {descs : List Descriptor} (h : descs.Nodup) (new : List Descriptor) :
    (new.foldl appendNew descs).Nodup := by
  obtain ⟨added, heq, -, hnd, hfresh⟩ := foldl_appendNew descs new
  rw [heq, List.nodup_append]
  refine ⟨h, hnd, fun desc hold desc' hnew heq' => ?_⟩
  exact hfresh desc' hnew (heq' ▸ hold)

theorem lookup_fillLoraMap {captured : List ℕ} (hsorted : captured.Pairwise (· ≤ ·)) {case : ℕ}
    (hmem : case ∈ captured) {start k : ℕ} (hstart : start ≤ case) (hend : case < start + k) :
    (fillLoraMap captured (List.range' start k)).lookup case = some case := by
  induction k generalizing captured start with
  | zero => omega
  | succ k ih =>
    have hdropped : case ∈ captured.dropWhile (· < start) := by
      have hsplit := List.takeWhile_append_dropWhile (p := (· < start)) (l := captured)
      rw [← hsplit, List.mem_append] at hmem
      rcases hmem with htaken | hdropped
      · have hlt := List.mem_takeWhile_imp htaken
        simp only [decide_eq_true_eq] at hlt
        omega
      · exact hdropped
    have hrest : (captured.dropWhile (· < start)).Pairwise (· ≤ ·) :=
      hsorted.sublist (List.dropWhile_sublist _)
    rw [List.range'_succ, fillLoraMap]
    cases hcases : captured.dropWhile (· < start) with
    | nil => simp [hcases] at hdropped
    | cons first rest =>
      rw [hcases] at hdropped hrest
      by_cases hfirst : start = case
      · -- the first case that is not below the count is the count itself
        have hle : first ≤ case := by
          rcases List.mem_cons.mp hdropped with rfl | hlater
          · exact le_rfl
          · exact (List.pairwise_cons.mp hrest).1 case hlater
        have hge : start ≤ first := by
          have hhead := List.head_dropWhile_not (p := fun x : ℕ => decide (x < start)) (l := captured)
            (by rw [hcases]; exact List.cons_ne_nil _ _)
          simp only [hcases, List.head_cons, decide_eq_false_iff_not, not_lt] at hhead
          exact hhead
        have hsame : first = case := by omega
        subst hfirst hsame
        simp
      · rw [List.lookup_cons, beq_false_of_ne (Ne.symm hfirst)]
        exact ih hrest hdropped (by omega) (by omega)

theorem resolveEffectiveLoras_of_mem {loraCaptureCases : List ℕ} {case : ℕ}
    (h : case ∈ loraCaptureCases) : resolveEffectiveLoras loraCaptureCases case = case := by
  unfold resolveEffectiveLoras buildLoraDispatchMap
  by_cases hzero : case = 0
  · simp only [hzero, true_or, if_true]
  have hpos : 0 < case := Nat.pos_of_ne_zero hzero
  have hsorted := List.pairwise_insertionSort (· ≤ ·) (loraCaptureCases.filter (0 < ·))
  have hmem : case ∈ (loraCaptureCases.filter (0 < ·)).insertionSort (· ≤ ·) := by
    rw [(List.perm_insertionSort _ _).mem_iff, List.mem_filter]
    exact ⟨h, decide_eq_true hpos⟩
  generalize (loraCaptureCases.filter (0 < ·)).insertionSort (· ≤ ·) = captured at hsorted hmem
  cases hlast : captured.getLast? with
  | none => simp [List.getLast?_eq_none_iff.mp hlast] at hmem
  | some last =>
    have hle : case ≤ last := by
      obtain ⟨smaller, rfl⟩ := List.getLast?_eq_some_iff.mp hlast
      rcases List.mem_append.mp hmem with hsmaller | hself
      · exact (List.pairwise_append.mp hsorted).2.2 case hsmaller last (List.mem_singleton_self _)
      · rw [List.mem_singleton.mp hself]
    have hfound : (fillLoraMap captured (List.range' 1 last)).lookup case = some case :=
      lookup_fillLoraMap hsorted hmem (by omega) (by omega)
    have hne : fillLoraMap captured (List.range' 1 last) ≠ [] := by
      intro hnil
      simp [hnil] at hfound
    simp only [hlast, hzero, hne, or_self, if_false, hfound, Option.getD_some]

/-- A descriptor without a uniform query length serves every batch. -/
def Descriptor.Mixed (desc : Descriptor) : Prop := desc.uniformTokenCount = none

/-- No mixed descriptor stands before a decode of the same key. -/
def DecodesFirst (descs : List Descriptor) : Prop :=
  descs.Pairwise fun desc desc' => desc.Mixed →
    (desc.numTokens, desc.numActiveLoras) = (desc'.numTokens, desc'.numActiveLoras) → desc'.Mixed

theorem DecodesFirst.append {descs added : List Descriptor} (h : DecodesFirst descs)
    (hadded : DecodesFirst added)
    (hcross : ∀ desc ∈ descs, desc.Mixed → ∀ desc' ∈ added,
      (desc.numTokens, desc.numActiveLoras) = (desc'.numTokens, desc'.numActiveLoras) →
        desc'.Mixed) : DecodesFirst (descs ++ added) :=
  List.pairwise_append.mpr
    ⟨h, hadded, fun desc hmem desc' hmem' hmixed => hcross desc hmem hmixed desc' hmem'⟩

theorem decodesFirst_of_decodes {descs : List Descriptor} (h : ∀ desc ∈ descs, ¬ desc.Mixed) :
    DecodesFirst descs :=
  List.pairwise_of_forall_mem_list fun desc hmem _ _ hmixed => absurd hmixed (h desc hmem)

namespace GraphConfig

variable {c : GraphConfig}

theorem decodeMode_of_separate (h : c.cudagraphMode.separateRoutine = true) :
    c.cudagraphMode.decodeMode = .full ∧ c.cudagraphMode.mixedMode ≠ .full := by
  cases hmode : c.cudagraphMode with
  | none => simp [hmode, CudagraphMode.separateRoutine] at h
  | piecewise => simp [hmode, CudagraphMode.separateRoutine] at h
  | full => simp [hmode, CudagraphMode.separateRoutine] at h
  | fullDecodeOnly => exact ⟨rfl, by decide⟩
  | fullAndPiecewise => exact ⟨rfl, by decide⟩

theorem mem_decodesOf {p : ℕ × ℕ} {desc : Descriptor} (h : desc ∈ c.decodesOf p) :
    ∃ queryLen ∈ c.decodeQueryLens, ∃ numReqs,
      desc = c.decodeDescriptor queryLen numReqs (alignUp p.1 queryLen) p.2 := by
  unfold decodesOf at h
  split_ifs at h with hsep
  · obtain ⟨queryLen, hmem, hrounded⟩ := List.mem_filterMap.mp h
    simp only [roundedDescriptor] at hrounded
    split_ifs at hrounded with hbounds
    exact ⟨queryLen, hmem, _, (Option.some.inj hrounded).symm⟩
  · simp at h

theorem decodeQueryLens_pos (hsampled : 1 ≤ c.numNewSampledTokens) {queryLen : ℕ}
    (h : queryLen ∈ c.decodeQueryLens) : 0 < queryLen := by
  unfold decodeQueryLens at h
  cases hschedule : c.schedule with
  | none =>
    simp only [hschedule, List.mem_singleton, decodeQueryLen] at h
    omega
  | some entries =>
    simp only [hschedule, List.mem_map] at h
    obtain ⟨entry, -, rfl⟩ := h
    omega

/-- What the base loop keeps: the mixed descriptors belong to rounds that are done, the
decodes are FULL, and each stands before the mixed descriptor of its key. -/
structure BaseInv (c : GraphConfig) (done : List (ℕ × ℕ)) (descs : List Descriptor) : Prop where
  nodup : descs.Nodup
  first : DecodesFirst descs
  mixed : ∀ desc ∈ descs, desc.Mixed → ∃ p ∈ done, desc = c.mixedDescriptor p.1 p.2
  decode : ∀ desc ∈ descs, ¬ desc.Mixed →
    desc.cgMode = c.cudagraphMode.decodeMode ∧ desc.numReqs.isSome = true

theorem baseStep_inv (hsampled : 1 ≤ c.numNewSampledTokens) {done : List (ℕ × ℕ)} {p : ℕ × ℕ}
    (hnew : p ∉ done) (hsorted : ∀ p' ∈ done, p'.1 ≤ p.1) {descs : List Descriptor}
    (h : BaseInv c done descs) : BaseInv c (done ++ [p]) (c.baseStep descs p) := by
  obtain ⟨added, heq, hsub, hnd, hfresh⟩ := foldl_appendNew descs (c.decodesOf p)
  have hdecodes : ∀ desc ∈ added, ¬ desc.Mixed := by
    intro desc hmem hmixed
    obtain ⟨_, -, _, rfl⟩ := mem_decodesOf (hsub.subset hmem)
    exact absurd hmixed (Option.some_ne_none _)
  have hgrown : BaseInv c (done ++ [p]) (descs ++ added) := by
    refine ⟨?_, ?_, ?_, ?_⟩
    · rw [← heq]
      exact nodup_foldl_appendNew h.nodup _
    · refine h.first.append (decodesFirst_of_decodes hdecodes) ?_
      intro desc hmem hmixed desc' hmem' hkey
      obtain ⟨p', hdone, rfl⟩ := h.mixed desc hmem hmixed
      obtain ⟨queryLen, hlen, _, rfl⟩ := mem_decodesOf (hsub.subset hmem')
      -- a decode is rounded up, so its key is no earlier round's
      have hle := le_alignUp (decodeQueryLens_pos hsampled hlen) p.1
      have hearlier := hsorted p' hdone
      simp only [mixedDescriptor, decodeDescriptor, Prod.mk.injEq] at hkey
      have hsame : p' = p := Prod.ext (by omega) hkey.2
      exact absurd (hsame ▸ hdone) hnew
    · intro desc hmem hmixed
      rcases List.mem_append.mp hmem with hold | hadded
      · obtain ⟨p', hdone, hp'⟩ := h.mixed desc hold hmixed
        exact ⟨p', List.mem_append_left _ hdone, hp'⟩
      · exact absurd hmixed (hdecodes desc hadded)
    · intro desc hmem hdecode
      rcases List.mem_append.mp hmem with hold | hadded
      · exact h.decode desc hold hdecode
      · obtain ⟨_, -, _, rfl⟩ := mem_decodesOf (hsub.subset hadded)
        exact ⟨rfl, rfl⟩
  unfold baseStep
  rw [heq]
  split_ifs with hmode
  · have hmixed : (c.mixedDescriptor p.1 p.2).Mixed := rfl
    refine ⟨?_, ?_, ?_, ?_⟩
    · refine List.nodup_append.mpr ⟨hgrown.nodup, List.nodup_singleton _, ?_⟩
      intro desc hmem desc' hmem' hsame
      rw [List.mem_singleton.mp hmem'] at hsame
      rcases List.mem_append.mp hmem with hold | hadded
      · obtain ⟨p', hdone, rfl⟩ := h.mixed desc hold (hsame ▸ hmixed)
        have hp : p' = p := Prod.ext (congrArg Descriptor.numTokens hsame)
          (congrArg Descriptor.numActiveLoras hsame)
        exact hnew (hp ▸ hdone)
      · exact hdecodes desc hadded (hsame ▸ hmixed)
    · refine hgrown.first.append (List.pairwise_singleton _ _) ?_
      intro _ _ _ desc' hmem' _
      rw [List.mem_singleton.mp hmem']
      exact hmixed
    · intro desc hmem hdesc
      rcases List.mem_append.mp hmem with hold | hself
      · exact hgrown.mixed desc hold hdesc
      · exact ⟨p, by simp, List.mem_singleton.mp hself⟩
    · intro desc hmem hdecode
      rcases List.mem_append.mp hmem with hold | hself
      · exact hgrown.decode desc hold hdecode
      · exact absurd (List.mem_singleton.mp hself ▸ hmixed) hdecode
  · exact hgrown

theorem foldl_baseStep_inv (hsampled : 1 ≤ c.numNewSampledTokens) {ps : List (ℕ × ℕ)}
    (hnd : ps.Nodup) (hsorted : ps.Pairwise fun p p' => p.1 ≤ p'.1) :
    BaseInv c ps (ps.foldl c.baseStep []) := by
  induction ps using List.reverseRecOn with
  | nil => exact ⟨List.nodup_nil, .nil, by simp, by simp⟩
  | append_singleton ps p ih =>
    obtain ⟨hnd', -, hp⟩ := List.nodup_append.mp hnd
    obtain ⟨hsorted', -, hle⟩ := List.pairwise_append.mp hsorted
    rw [List.foldl_append, List.foldl_cons, List.foldl_nil]
    refine baseStep_inv hsampled (fun hmem => ?_) (fun p' hmem => ?_) (ih hnd' hsorted')
    · exact hp p hmem p (List.mem_singleton_self _) rfl
    · exact hle p' hmem p (List.mem_singleton_self _)

theorem nodup_rounds (hsizes : c.captureSizes.Nodup) (hloras : c.loraCaptureCases.Nodup) :
    c.rounds.Nodup :=
  List.Nodup.product ((List.perm_insertionSort _ _).nodup_iff.mpr hsizes) hloras

theorem pairwise_rounds (c : GraphConfig) : c.rounds.Pairwise fun p p' => p.1 ≤ p'.1 := by
  have hsorted := List.pairwise_insertionSort (· ≤ ·) c.captureSizes
  unfold rounds
  generalize c.captureSizes.insertionSort (· ≤ ·) = sizes at hsorted
  induction sizes with
  | nil => exact .nil
  | cons size sizes ih =>
    obtain ⟨hfirst, hrest⟩ := List.pairwise_cons.mp hsorted
    rw [List.product_cons, List.pairwise_append]
    refine ⟨?_, ih hrest, ?_⟩
    · exact List.pairwise_map.mpr (List.pairwise_of_forall fun _ _ => le_rfl)
    · intro p hp p' hp'
      obtain ⟨_, -, rfl⟩ := List.mem_map.mp hp
      obtain ⟨size', lora⟩ := p'
      exact hfirst size' (List.mem_product.mp hp').1

theorem baseDescriptors_inv (hsampled : 1 ≤ c.numNewSampledTokens) (hsizes : c.captureSizes.Nodup)
    (hloras : c.loraCaptureCases.Nodup) : BaseInv c c.rounds c.baseDescriptors :=
  foldl_baseStep_inv hsampled (nodup_rounds hsizes hloras) (pairwise_rounds c)

theorem exactDescriptor_eq_some {queryLen numReqs loras : ℕ} {desc : Descriptor}
    (h : c.exactDescriptor queryLen numReqs loras = some desc) :
    desc = c.decodeDescriptor queryLen numReqs (queryLen * numReqs) loras := by
  simp only [exactDescriptor] at h
  split_ifs at h with hbounds
  exact (Option.some.inj h).symm

theorem foldl_outside (base new descs : List Descriptor) (h : descs.Nodup) :
    (new.foldl (fun descs desc => if desc ∈ base then descs else appendNew descs desc) descs).Nodup ∧
      ∀ desc ∈ new.foldl (fun descs desc => if desc ∈ base then descs else appendNew descs desc)
        descs, desc ∈ descs ∨ desc ∈ new ∧ desc ∉ base := by
  induction new generalizing descs with
  | nil => exact ⟨h, fun desc hmem => .inl hmem⟩
  | cons first new ih =>
    rw [List.foldl_cons]
    split_ifs with hbase
    · obtain ⟨hnd, hmem⟩ := ih descs h
      refine ⟨hnd, fun desc hdesc => (hmem desc hdesc).imp_right fun hnew => ?_⟩
      exact ⟨List.mem_cons_of_mem _ hnew.1, hnew.2⟩
    · obtain ⟨hnd, hmem⟩ := ih (appendNew descs first) (nodup_foldl_appendNew h [first])
      refine ⟨hnd, fun desc hdesc => ?_⟩
      rcases hmem desc hdesc with hold | ⟨hnew, hout⟩
      · rcases (mem_foldl_appendNew descs [first]).mp hold with hold | hself
        · exact .inl hold
        · rw [List.mem_singleton.mp hself]
          exact .inr ⟨List.mem_cons_self, hbase⟩
      · exact .inr ⟨List.mem_cons_of_mem _ hnew, hout⟩

/-- The adaptive descriptors are distinct decodes of the ladder that the base set does not have. -/
theorem adaptiveDescriptors_spec (c : GraphConfig) (queryLens : List ℕ) (base : List Descriptor) :
    (c.adaptiveDescriptors queryLens base).Nodup ∧
      ∀ desc ∈ c.adaptiveDescriptors queryLens base, desc ∉ base ∧ ∃ queryLen ∈ queryLens,
        ∃ numReqs loras, desc = c.decodeDescriptor queryLen numReqs (queryLen * numReqs) loras := by
  unfold adaptiveDescriptors
  split_ifs with hsep
  · obtain ⟨hnd, hmem⟩ := foldl_outside base
      ((c.ladderShapes queryLens).filterMap fun s => c.exactDescriptor s.1 s.2.1 s.2.2) []
      List.nodup_nil
    refine ⟨hnd, fun desc hdesc => ?_⟩
    obtain ⟨hnew, hout⟩ := (hmem desc hdesc).resolve_left List.not_mem_nil
    obtain ⟨shape, hshape, hexact⟩ := List.mem_filterMap.mp hnew
    exact ⟨hout, shape.1, (List.mem_product.mp hshape).1, _, _, exactDescriptor_eq_some hexact⟩
  · exact ⟨List.nodup_nil, by simp⟩

theorem not_mixed_of_adaptive {queryLens : List ℕ} {base : List Descriptor} {desc : Descriptor}
    (h : desc ∈ c.adaptiveDescriptors queryLens base) : ¬ desc.Mixed := by
  obtain ⟨-, _, -, _, _, rfl⟩ := (adaptiveDescriptors_spec c queryLens base).2 desc h
  exact Option.some_ne_none _

end GraphConfig

theorem pairwise_bucketOf {descs : List Descriptor} (h : DecodesFirst descs) (numTokens loras : ℕ) :
    (bucketOf descs numTokens loras).Pairwise fun desc desc' => desc.Mixed → desc'.Mixed := by
  refine List.Pairwise.imp_of_mem ?_ (List.Pairwise.filter _ h)
  intro desc desc' hmem hmem' himp hmixed
  have hkey := (List.mem_filter.mp hmem).2
  have hkey' := (List.mem_filter.mp hmem').2
  simp only [decide_eq_true_eq] at hkey hkey'
  exact himp hmixed (by rw [hkey.1, hkey.2, hkey'.1, hkey'.2])

theorem find?_decode (accepts : Descriptor → Bool) {descs : List Descriptor} {desc : Descriptor}
    (h : descs.Pairwise fun desc desc' => desc.Mixed → desc'.Mixed) (hmem : desc ∈ descs)
    (haccepts : accepts desc = true) (hdecode : ¬ desc.Mixed) :
    ∃ found ∈ descs, descs.find? accepts = some found ∧ accepts found = true ∧ ¬ found.Mixed := by
  cases hfound : descs.find? accepts with
  | none => exact absurd haccepts (List.find?_eq_none.mp hfound desc hmem)
  | some found =>
    obtain ⟨hfoundAccepts, before, after, rfl, hbefore⟩ := List.find?_eq_some_iff_append.mp hfound
    refine ⟨found, by simp, rfl, hfoundAccepts, fun hmixed => hdecode ?_⟩
    rcases List.mem_append.mp hmem with hearlier | hlater
    · have hrejects := hbefore desc hearlier
      simp [haccepts] at hrejects
    · rcases List.mem_cons.mp hlater with rfl | hbehind
      · exact hmixed
      · exact (List.pairwise_cons.mp (List.pairwise_append.mp h).2.1).1 desc hbehind hmixed

theorem mem_tokenCounts {descs : List Descriptor} {desc : Descriptor} (h : desc ∈ descs) :
    desc.numTokens ∈ tokenCounts descs := by
  rw [tokenCounts, (List.perm_insertionSort _ _).mem_iff, List.mem_dedup]
  exact List.mem_map_of_mem h

theorem pairwise_tokenCounts (descs : List Descriptor) : (tokenCounts descs).Pairwise (· < ·) := by
  have hsorted := List.pairwise_insertionSort (· ≤ ·) (descs.map Descriptor.numTokens).dedup
  have hnd : (tokenCounts descs).Nodup :=
    (List.perm_insertionSort _ _).nodup_iff.mpr (List.nodup_dedup _)
  exact (hsorted.and hnd).imp fun h => lt_of_le_of_ne h.1 h.2

theorem mem_bucketOf_self {descs : List Descriptor} {desc : Descriptor} (h : desc ∈ descs) :
    desc ∈ bucketOf descs desc.numTokens desc.numActiveLoras :=
  List.mem_filter.mpr ⟨h, by simp⟩

theorem lookup_self {descs : List Descriptor} {desc : Descriptor} (h : desc ∈ descs)
    {loraCaptureCases : List ℕ} (hlora : desc.numActiveLoras ∈ loraCaptureCases) :
    (buildCandidateRanges descs loraCaptureCases).lookup (desc.numTokens, desc.numActiveLoras) =
      some (bucketOf descs desc.numTokens desc.numActiveLoras) :=
  lookup_bucketTable_self (pairwise_tokenCounts descs) (mem_tokenCounts h) hlora
    (List.ne_nil_of_mem (mem_bucketOf_self h))

theorem lookup_bucket {descs : List Descriptor} {loraCaptureCases : List ℕ} {key : ℕ × ℕ}
    {found : List Descriptor}
    (h : (buildCandidateRanges descs loraCaptureCases).lookup key = some found) :
    ∃ numTokens, found = bucketOf descs numTokens key.2 := by
  obtain ⟨size, -, -, -, -, hfound, -⟩ :=
    (lookup_bucketTable (pairwise_tokenCounts descs)).mp (show List.lookup (key.1, key.2) _ = _ from h)
  exact ⟨size, hfound⟩

section Merged

variable {base adaptive : List ((ℕ × ℕ) × List Descriptor)} {key : ℕ × ℕ}

theorem mem_mergedCandidates {descs : List Descriptor}
    (h : mergedCandidates base adaptive key = some descs) {desc : Descriptor} :
    desc ∈ descs ↔ (∃ bucket, adaptive.lookup key = some bucket ∧ desc ∈ bucket) ∨
      ∃ bucket, base.lookup key = some bucket ∧ desc ∈ bucket := by
  unfold mergedCandidates at h
  cases hadaptive : adaptive.lookup key with
  | none =>
    rw [hadaptive] at h
    simp [show base.lookup key = some descs from h]
  | some exact =>
    simp only [hadaptive, Option.some.injEq] at h
    rw [← h, mem_foldl_appendNew]
    cases base.lookup key <;> simp

theorem exists_mergedCandidates {bucket : List Descriptor}
    (h : adaptive.lookup key = some bucket ∨ base.lookup key = some bucket) :
    ∃ descs, mergedCandidates base adaptive key = some descs ∧ bucket ⊆ descs := by
  have hsome : ∃ descs, mergedCandidates base adaptive key = some descs := by
    unfold mergedCandidates
    cases hadaptive : adaptive.lookup key with
    | none => exact ⟨bucket, h.resolve_left (by simp [hadaptive])⟩
    | some exact => exact ⟨_, rfl⟩
  obtain ⟨descs, hdescs⟩ := hsome
  refine ⟨descs, hdescs, fun desc hmem => (mem_mergedCandidates hdescs).mpr ?_⟩
  exact h.imp (fun h => ⟨bucket, h, hmem⟩) fun h => ⟨bucket, h, hmem⟩

/-- Laying decodes before a bucket keeps its decodes before its mixed descriptors. -/
theorem pairwise_mergedCandidates {descs : List Descriptor}
    (h : mergedCandidates base adaptive key = some descs)
    (hbase : ∀ bucket, base.lookup key = some bucket →
      bucket.Pairwise fun desc desc' => desc.Mixed → desc'.Mixed)
    (hadaptive : ∀ bucket, adaptive.lookup key = some bucket → ∀ desc ∈ bucket, ¬ desc.Mixed) :
    descs.Pairwise fun desc desc' => desc.Mixed → desc'.Mixed := by
  unfold mergedCandidates at h
  cases hfound : adaptive.lookup key with
  | none =>
    rw [hfound] at h
    exact hbase descs h
  | some exact =>
    simp only [hfound, Option.some.injEq] at h
    obtain ⟨added, hadded, hsub, -, -⟩ := foldl_appendNew exact ((base.lookup key).getD [])
    rw [← h, hadded]
    have hrest : ((base.lookup key).getD []).Pairwise fun desc desc' => desc.Mixed → desc'.Mixed := by
      cases hbucket : base.lookup key with
      | none => exact .nil
      | some bucket => exact hbase bucket hbucket
    refine List.pairwise_append.mpr ⟨?_, hrest.sublist hsub, ?_⟩
    · exact List.pairwise_of_forall_mem_list fun desc hmem _ _ hmixed =>
        absurd hmixed (hadaptive exact hfound desc hmem)
    · exact fun desc hmem _ _ hmixed => absurd hmixed (hadaptive exact hfound desc hmem)

end Merged

namespace GraphConfig

variable {c : GraphConfig} {m : Manager} {ladder : List ℕ}

theorem assertGraphsPossible_eq_ok (h : c.assertGraphsPossible = .ok ()) :
    c.adaptiveSpecDecodeQueryLens = .ok [] := by
  simp only [assertGraphsPossible, bind_eq_ok, require_eq_ok, decide_eq_true_eq] at h
  obtain ⟨_, hlens, rfl⟩ := h
  exact hlens

/-- A manager is built with its coverage checked, or there is no depth to cover. -/
theorem initCandidates_cases (h : c.initCandidates = .ok m) :
    (m = c.eagerManager ∧ c.adaptiveSpecDecodeQueryLens = .ok []) ∨
      ∃ queryLens, c.adaptiveSpecDecodeQueryLens = .ok queryLens ∧
        m = c.manager c.baseDescriptors (c.adaptiveDescriptors queryLens c.baseDescriptors) ∧
        c.assertGraphCoverage m = .ok () := by
  unfold initCandidates at h
  split_ifs at h with heager
  · simp only [bind_eq_ok, pure_eq_ok] at h
    obtain ⟨_, hpossible, rfl⟩ := h
    exact .inl ⟨rfl, assertGraphsPossible_eq_ok hpossible⟩
  · simp only [bind_eq_ok] at h
    obtain ⟨queryLens, hlens, h⟩ := h
    split_ifs at h with hempty
    · simp only [bind_eq_ok, pure_eq_ok] at h
      obtain ⟨_, hpossible, rfl⟩ := h
      exact .inl ⟨rfl, assertGraphsPossible_eq_ok hpossible⟩
    · simp only [bind_eq_ok, pure_eq_ok] at h
      obtain ⟨_, hcoverage, rfl⟩ := h
      exact .inr ⟨queryLens, hlens, rfl, hcoverage⟩

theorem adaptiveSpecDecodeQueryLens_eq (hadapt : c.adaptation = true)
    (hsampled : 1 ≤ c.numNewSampledTokens)
    (hladder : parseAdaptiveSpecDepthLadder c.numSpeculativeTokens c.ladderEnv = .ok ladder) :
    c.adaptiveSpecDecodeQueryLens = .ok (ladder.map (· + c.numNewSampledTokens)) ∧
      ladder.map (· + c.numNewSampledTokens) ≠ [] := by
  obtain ⟨hpos, hmem, -⟩ := ladder_spec hladder
  have hne : ladder.map (· + c.numNewSampledTokens) ≠ [] := by
    rw [Ne, List.map_eq_nil_iff]
    exact List.ne_nil_of_mem hmem
  refine ⟨?_, hne⟩
  unfold adaptiveSpecDecodeQueryLens
  rw [if_neg (by simp only [hadapt, decodeQueryLen, Bool.true_eq_false, or_false]; omega)]
  simp only [hpos, hsampled, decide_true, require_true, ok_bind, hladder, hne, ne_eq,
    not_false_eq_true]
  rfl

theorem mem_captureDescs {base adaptive : List Descriptor} {mode : CudagraphMode}
    {desc : Descriptor} : desc ∈ (c.manager base adaptive).captureDescs mode ↔
      desc ∈ base ++ adaptive ∧ desc.cgMode = mode := by
  simp only [manager, (List.perm_insertionSort _ _).mem_iff, List.mem_filter, decide_eq_true_eq]

theorem covered_of_assert (hseparate : c.cudagraphMode.separateRoutine = true)
    {queryLens : List ℕ} (hlens : c.adaptiveSpecDecodeQueryLens = .ok queryLens)
    (hne : queryLens ≠ []) (h : c.assertGraphCoverage m = .ok ()) {queryLen numReqs loras : ℕ}
    (hlen : queryLen ∈ queryLens) (hpos : 1 ≤ numReqs) (hreqs : numReqs ≤ c.maxCapturedReqs)
    (hlora : loras ∈ c.loraCaptureCases) :
    ∃ desc ∈ m.captureDescs .full, desc.numTokens = queryLen * numReqs ∧
      desc.numReqs = some numReqs ∧ desc.uniformTokenCount = some queryLen ∧
      desc.numActiveLoras = loras := by
  have hshape : (queryLen, numReqs, loras) ∈ c.ladderShapes queryLens := by
    rw [ladderShapes, List.mem_product, List.mem_product, List.mem_range'_1]
    exact ⟨hlen, ⟨hpos, by omega⟩, hlora⟩
  have hmissing : c.missingShapes queryLens (m.captureDescs .full) = [] := by
    unfold assertGraphCoverage at h
    simp only [hlens, ok_bind, hne, if_false, hseparate, Bool.true_eq_false, bind_eq_ok,
      require_eq_ok, decide_eq_true_eq] at h
    obtain ⟨-, -, hmissing⟩ := h
    exact hmissing
  have hcovered := List.filter_eq_nil_iff.mp hmissing _ hshape
  rw [Bool.not_eq_true, List.all_eq_false] at hcovered
  obtain ⟨desc, hmem, hmatch⟩ := hcovered
  simp only [Bool.not_eq_true', Bool.not_eq_false, Bool.and_eq_true, decide_eq_true_eq] at hmatch
  exact ⟨desc, hmem, hmatch.1.1.1, hmatch.1.1.2, hmatch.1.2, hmatch.2⟩

end GraphConfig

theorem foldlM_capture (graphs descs : List Descriptor) (h : (graphs ++ descs).Nodup) :
    descs.foldlM (fun graphs desc => do
      require (desc ∉ graphs) "Graph already captured"
      return graphs ++ [desc]) graphs = .ok (graphs ++ descs) := by
  induction descs generalizing graphs with
  | nil =>
    rw [List.append_nil]
    rfl
  | cons first descs ih =>
    have hfresh : first ∉ graphs := fun hmem =>
      (List.nodup_append.mp h).2.2 first hmem first List.mem_cons_self rfl
    have hrest := ih (graphs ++ [first]) (by simpa using h)
    simp only [List.foldlM_cons, hfresh, not_false_eq_true, decide_true, require_true, ok_bind,
      pure, Except.pure] at hrest ⊢
    rw [hrest, List.append_assoc, List.singleton_append]

theorem capture_of_nodup {m : Manager} (h : (m.captureDescs .full).Nodup) :
    m.capture = .ok (m.captureDescs .full) := by
  have hrun := foldlM_capture [] (m.captureDescs .full) (by simpa using h)
  simpa [Manager.capture] using hrun

namespace GraphConfig

variable {c : GraphConfig} {m : Manager}

theorem nodup_captureDescs (hsampled : 1 ≤ c.numNewSampledTokens) (hsizes : c.captureSizes.Nodup)
    (hloras : c.loraCaptureCases.Nodup) (queryLens : List ℕ) (mode : CudagraphMode) :
    ((c.manager c.baseDescriptors
      (c.adaptiveDescriptors queryLens c.baseDescriptors)).captureDescs mode).Nodup := by
  have hbase := baseDescriptors_inv hsampled hsizes hloras
  obtain ⟨hnd, hadaptive⟩ := adaptiveDescriptors_spec c queryLens c.baseDescriptors
  refine (List.perm_insertionSort _ _).nodup_iff.mpr (List.Nodup.filter _ ?_)
  refine List.nodup_append.mpr ⟨hbase.nodup, hnd, fun desc hold desc' hnew hsame => ?_⟩
  exact (hadaptive desc' hnew).1 (hsame ▸ hold)

theorem dispatch_eq (numReqs : ℕ) (uniformTokenCount : Option ℕ) {numTokens loras : ℕ}
    (hcase : loras ∈ m.loraCaptureCases) (hpos : 0 < numTokens) {descs : List Descriptor}
    (hdescs : m.candidates (numTokens, loras) = some descs) :
    m.dispatch true numReqs numTokens uniformTokenCount loras =
      (descs.find? fun desc => isCompatible desc numReqs numTokens uniformTokenCount loras).getD
        ⟨.none, numTokens, some numReqs, none, loras⟩ := by
  simp only [Manager.dispatch, resolveEffectiveLoras_of_mem hcase, hpos, and_self, if_true, hdescs,
    Option.bind_some]

theorem bucket_mem {descs : List Descriptor} {loraCaptureCases : List ℕ} {key : ℕ × ℕ}
    {bucket : List Descriptor}
    (h : (buildCandidateRanges descs loraCaptureCases).lookup key = some bucket)
    {desc : Descriptor} (hmem : desc ∈ bucket) : desc ∈ descs := by
  obtain ⟨_, rfl⟩ := lookup_bucket h
  exact List.mem_of_mem_filter hmem

/-- A decode among the candidates that fits a batch makes the lookup end at a FULL decode. -/
theorem dispatch_decode (hseparate : c.cudagraphMode.separateRoutine = true)
    (hsampled : 1 ≤ c.numNewSampledTokens) (hsizes : c.captureSizes.Nodup)
    (hloras : c.loraCaptureCases.Nodup) {queryLens : List ℕ}
    (hm : m = c.manager c.baseDescriptors (c.adaptiveDescriptors queryLens c.baseDescriptors))
    {queryLen numReqs loras : ℕ} (hcase : loras ∈ c.loraCaptureCases)
    (hpos : 0 < queryLen * numReqs) {descs : List Descriptor}
    (hdescs : m.candidates (queryLen * numReqs, loras) = some descs) {desc : Descriptor}
    (hmem : desc ∈ descs) (hdecode : ¬ desc.Mixed)
    (hfits : isCompatible desc numReqs (queryLen * numReqs) (some queryLen) loras = true) :
    ∃ found ∈ m.captureDescs .full,
      m.dispatch true numReqs (queryLen * numReqs) (some queryLen) loras = found ∧
        found.uniformTokenCount = some queryLen ∧
        (∃ reqs, found.numReqs = some reqs ∧ numReqs ≤ reqs) ∧
        queryLen * numReqs ≤ found.numTokens := by
  subst hm
  have hbase := baseDescriptors_inv hsampled hsizes hloras
  obtain ⟨hfull, -⟩ := decodeMode_of_separate hseparate
  have hpair := pairwise_mergedCandidates hdescs
    (fun bucket hbucket => by
      obtain ⟨_, rfl⟩ := lookup_bucket hbucket
      exact pairwise_bucketOf hbase.first _ _)
    (fun bucket hbucket desc hmem => not_mixed_of_adaptive (bucket_mem hbucket hmem))
  obtain ⟨found, hfound, hfind, haccepts, hfoundDecode⟩ := find?_decode (fun desc =>
    isCompatible desc numReqs (queryLen * numReqs) (some queryLen) loras) hpair hmem hfits hdecode
  have hkind : found ∈ c.baseDescriptors ++ c.adaptiveDescriptors queryLens c.baseDescriptors ∧
      found.cgMode = .full ∧ found.numReqs.isSome = true := by
    rw [← hfull]
    rcases (mem_mergedCandidates hdescs).mp hfound with ⟨bucket, hbucket, hin⟩ | ⟨bucket, hbucket, hin⟩
    · have hadaptive := bucket_mem hbucket hin
      obtain ⟨-, _, -, _, _, hdesc⟩ := (adaptiveDescriptors_spec c queryLens _).2 found hadaptive
      exact ⟨List.mem_append_right _ hadaptive, by rw [hdesc]; exact ⟨rfl, rfl⟩⟩
    · have hin := bucket_mem hbucket hin
      exact ⟨List.mem_append_left _ hin, hbase.decode found hin hfoundDecode⟩
  obtain ⟨reqs, hfoundReqs⟩ := Option.isSome_iff_exists.mp hkind.2.2
  have hdispatch := dispatch_eq numReqs (some queryLen) hcase hpos hdescs
  rw [hfind, Option.getD_some] at hdispatch
  simp only [isCompatible, Bool.and_eq_true, Bool.or_eq_true, decide_eq_true_eq, hfoundReqs,
    Option.all_some] at haccepts
  exact ⟨found, mem_captureDescs.mpr ⟨hkind.1, hkind.2.1⟩, hdispatch,
    haccepts.1.1.1.resolve_left hfoundDecode, ⟨reqs, hfoundReqs, haccepts.1.1.2⟩, haccepts.1.2⟩

/-- Every rung of the ladder ends at a captured FULL decode of its own length. -/
theorem dispatch_ladder (hadapt : c.adaptation = true)
    (hseparate : c.cudagraphMode.separateRoutine = true) (hsampled : 1 ≤ c.numNewSampledTokens)
    (hsizes : c.captureSizes.Nodup) (hloras : c.loraCaptureCases.Nodup)
    (h : c.initCandidates = .ok m) {ladder : List ℕ}
    (hladder : parseAdaptiveSpecDepthLadder c.numSpeculativeTokens c.ladderEnv = .ok ladder)
    {depth : ℕ} (hdepth : depth ∈ ladder) {numReqs : ℕ} (hpos : 1 ≤ numReqs)
    (hreqs : numReqs ≤ c.maxCapturedReqs) {loras : ℕ} (hcase : loras ∈ c.loraCaptureCases) :
    ∃ found ∈ m.captureDescs .full,
      m.dispatch true numReqs ((depth + c.numNewSampledTokens) * numReqs)
          (some (depth + c.numNewSampledTokens)) loras = found ∧
        found.uniformTokenCount = some (depth + c.numNewSampledTokens) ∧
        (∃ reqs, found.numReqs = some reqs ∧ numReqs ≤ reqs) ∧
        (depth + c.numNewSampledTokens) * numReqs ≤ found.numTokens := by
  obtain ⟨hlens, hne⟩ := adaptiveSpecDecodeQueryLens_eq hadapt hsampled hladder
  rcases initCandidates_cases h with ⟨-, hnone⟩ | ⟨queryLens, hlens', hm, hcoverage⟩
  · rw [hlens] at hnone
    exact absurd (Except.ok.inj hnone) hne
  rw [hlens] at hlens'
  obtain ⟨desc, hmem, htokens, hdescReqs, huniform, hlora⟩ := covered_of_assert hseparate hlens hne
    hcoverage (List.mem_map_of_mem (f := (· + c.numNewSampledTokens)) hdepth) hpos hreqs hcase
  rw [hm, mem_captureDescs] at hmem
  have hbucket : ∃ bucket, desc ∈ bucket ∧
      ((buildCandidateRanges (c.adaptiveDescriptors queryLens c.baseDescriptors)
        c.loraCaptureCases).lookup (desc.numTokens, desc.numActiveLoras) = some bucket ∨
      (buildCandidateRanges c.baseDescriptors c.loraCaptureCases).lookup
        (desc.numTokens, desc.numActiveLoras) = some bucket) := by
    rcases List.mem_append.mp hmem.1 with hin | hin
    · exact ⟨_, mem_bucketOf_self hin, .inr (lookup_self hin (hlora ▸ hcase))⟩
    · exact ⟨_, mem_bucketOf_self hin, .inl (lookup_self hin (hlora ▸ hcase))⟩
  obtain ⟨bucket, hin, hlookup⟩ := hbucket
  obtain ⟨descs, hdescs, hsub⟩ := exists_mergedCandidates hlookup
  rw [htokens, hlora] at hdescs
  refine dispatch_decode hseparate hsampled hsizes hloras hm hcase (Nat.mul_pos (by omega) hpos)
    (by rw [hm]; exact hdescs) (hsub hin) ?_ ?_
  · simp [Descriptor.Mixed, huniform]
  · simp [isCompatible, huniform, hdescReqs, htokens, hlora]

end GraphConfig

/-- Every rung of the ladder is dispatched to a captured FULL graph of its own length. -/
theorem ladder_dispatches_captured (c : GraphConfig) (m : Manager) (hadapt : c.adaptation = true)
    (hseparate : c.cudagraphMode.separateRoutine = true) (hsampled : 1 ≤ c.numNewSampledTokens)
    (hsizes : c.captureSizes.Nodup) (hloras : c.loraCaptureCases.Nodup)
    (h : c.initCandidates = .ok m) :
    (∀ mode, (m.captureDescs mode).Nodup) ∧
      ∃ graphs, m.capture = .ok graphs ∧
        ∀ ladder, parseAdaptiveSpecDepthLadder c.numSpeculativeTokens c.ladderEnv = .ok ladder →
          ∀ depth ∈ ladder, ∀ numReqs, 1 ≤ numReqs → numReqs ≤ min c.maxNumReqs 32 →
            ∀ loras ∈ c.loraCaptureCases, ∃ desc ∈ graphs,
              m.dispatch true numReqs ((depth + c.numNewSampledTokens) * numReqs)
                  (some (depth + c.numNewSampledTokens)) loras = desc ∧
                desc.cgMode = .full ∧
                desc.uniformTokenCount = some (depth + c.numNewSampledTokens) ∧
                (∃ reqs, desc.numReqs = some reqs ∧ numReqs ≤ reqs) ∧
                (depth + c.numNewSampledTokens) * numReqs ≤ desc.numTokens := by
  have hmanager : (∀ mode, (m.captureDescs mode).Nodup) ∧
      ∀ desc ∈ m.captureDescs .full, desc.cgMode = .full := by
    rcases GraphConfig.initCandidates_cases h with ⟨rfl, -⟩ | ⟨queryLens, -, rfl, -⟩
    · exact ⟨fun _ => List.nodup_nil, by simp [GraphConfig.eagerManager]⟩
    · exact ⟨GraphConfig.nodup_captureDescs hsampled hsizes hloras queryLens,
        fun desc hmem => (GraphConfig.mem_captureDescs.mp hmem).2⟩
  refine ⟨hmanager.1, _, capture_of_nodup (hmanager.1 .full), fun ladder hladder => ?_⟩
  intro depth hdepth numReqs hpos hreqs loras hcase
  obtain ⟨found, hfound, hdispatch, hrest⟩ := GraphConfig.dispatch_ladder hadapt hseparate hsampled
    hsizes hloras h hladder hdepth hpos hreqs hcase
  exact ⟨found, hfound, hdispatch, hmanager.2 found hfound, hrest⟩

/-- Five drafts and one sampled token for up to four requests. -/
def servedGraphs : GraphConfig where
  cudagraphMode := .fullAndPiecewise
  captureSizes := [1, 2, 4, 8, 24]
  maxCudagraphCaptureSize := 24
  maxNumReqs := 4
  numSpeculativeTokens := 5
  numNewSampledTokens := 1
  schedule := none
  adaptation := true
  ladderEnv := none
  loraCaptureCases := [0]

theorem ladder_dispatches_captured_served : ∃ m, servedGraphs.initCandidates = .ok m ∧
    (m.dispatch true 3 15 (some 5) 0).cgMode = .full := by
  obtain ⟨m, hm⟩ := exists_ok_of_isSome (x := servedGraphs.initCandidates) (by decide)
  refine ⟨m, hm, ?_⟩
  obtain ⟨-, graphs, -, hgraphs⟩ :=
    ladder_dispatches_captured servedGraphs m rfl rfl (by decide) (by decide) (by decide) hm
  obtain ⟨desc, -, hdispatch, hmode, -⟩ :=
    hgraphs [2, 4, 5] (by decide) 4 (by decide) 3 (by decide) (by decide) 0 (by decide)
  exact hdispatch ▸ hmode

end ChampionRuntime.Decoding
