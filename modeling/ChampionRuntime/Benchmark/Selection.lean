import ChampionRuntime.Benchmark.Battery
import ChampionRuntime.Lib.KeySort

/-!
# What a verdict depends on

The evaluator looks at the first required valid attempts in chronological order.
The order of the list, the metrics of the other attempts and attempts that come
later make no difference to what it selects, measures and decides.
-/
namespace ChampionRuntime.Benchmark

open Lib Lib.Json Publication

variable {attempts attempts' more : List AttemptRecord} {baselines : Baselines} {hash : String}

theorem chronological_eq (attempts : List AttemptRecord) :
    chronological attempts = sortBy sortKey attempts := rfl

/-- The attempts are numbered from one in chronological order. -/
def Numbered (attempts : List AttemptRecord) : Prop :=
  (chronological attempts).map (·.attempt) = (oneTo attempts.length).map some

def selectedOf (required : ℕ) (attempts : List AttemptRecord) : List AttemptRecord :=
  ((chronological attempts).filter isValid).take required

theorem Numbered.nodup_sortKey (h : Numbered attempts) : (attempts.map sortKey).Nodup := by
  have hnumbers : ((chronological attempts).map (·.attempt)).Nodup := by
    rw [h]
    exact (nodup_oneTo _).map (Option.some_injective _)
  have hattempts : (attempts.map (·.attempt)).Nodup :=
    ((perm_chronological attempts).map (·.attempt)).nodup_iff.mp hnumbers
  have hsome : ∀ a ∈ attempts, a.attempt ≠ none := by
    intro a ha hnone
    have hmem : a.attempt ∈ (oneTo attempts.length).map some := by
      rw [← h]
      exact List.mem_map_of_mem ((perm_chronological attempts).mem_iff.mpr ha)
    rw [hnone] at hmem
    simp at hmem
  rw [List.Nodup, List.pairwise_map] at hattempts ⊢
  apply hattempts.imp_of_mem
  intro a b ha hb hne hkey
  apply hne
  have hnumber : recordNumber a = recordNumber b := congrArg (fun key => (ofLex key).2) hkey
  obtain ⟨m, hm⟩ := Option.ne_none_iff_exists'.mp (hsome a ha)
  obtain ⟨n, hn⟩ := Option.ne_none_iff_exists'.mp (hsome b hb)
  rw [recordNumber, recordNumber, hm, hn] at hnumber
  rw [hm, hn]
  exact congrArg some hnumber

theorem chronological_eq_of_perm (h : attempts.Perm attempts') (hnumbered : Numbered attempts) :
    chronological attempts = chronological attempts' :=
  sortBy_eq_of_perm h hnumbered.nodup_sortKey

theorem Numbered.perm (h : attempts.Perm attempts') (hnumbered : Numbered attempts) :
    Numbered attempts' := by
  unfold Numbered
  rw [← chronological_eq_of_perm h hnumbered, ← h.length_eq]
  exact hnumbered

theorem evaluateAttempts_of_chronological_eq (h : chronological attempts = chronological attempts') :
    evaluateAttempts attempts baselines hash = evaluateAttempts attempts' baselines hash := by
  have hlength : attempts.length = attempts'.length := by
    rw [← (perm_chronological attempts).length_eq, h, (perm_chronological attempts').length_eq]
  unfold evaluateAttempts
  rw [h, hlength]

theorem evaluateAttempts_not_numbered (hcount : attempts.length ≤ baselines.maxAttempts)
    (hne : attempts ≠ []) (h : ¬ Numbered attempts) :
    evaluateAttempts attempts baselines hash = .error .notChronological := by
  obtain ⟨first, -, heval⟩ := evaluateAttempts_eq hne baselines hcount hash
  rw [heval]
  exact if_neg h

theorem evaluateAttempts_perm (h : attempts.Perm attempts') :
    evaluateAttempts attempts baselines hash = evaluateAttempts attempts' baselines hash := by
  by_cases hnumbered : Numbered attempts
  · exact evaluateAttempts_of_chronological_eq (chronological_eq_of_perm h hnumbered)
  have hnumbered' : ¬ Numbered attempts' := fun h' => hnumbered (h'.perm h.symm)
  by_cases hcount : attempts.length ≤ baselines.maxAttempts
  · have hne : attempts ≠ [] := by
      rintro rfl
      exact hnumbered rfl
    have hne' : attempts' ≠ [] := by
      rintro rfl
      exact hne h.eq_nil
    rw [evaluateAttempts_not_numbered hcount hne hnumbered,
      evaluateAttempts_not_numbered (h.length_eq ▸ hcount) hne' hnumbered']
  · have hcount' : ¬ attempts'.length ≤ baselines.maxAttempts := h.length_eq ▸ hcount
    unfold evaluateAttempts
    rw [if_pos (by omega), if_pos (by omega)]

/-- At most the metrics differ, and not those of a selected attempt. -/
def OtherMetrics (selected : List AttemptRecord) (a b : AttemptRecord) : Prop :=
  b = { a with metrics := b.metrics } ∧ (a ∈ selected → b = a)

section OtherMetrics

variable {selected ordered ordered' : List AttemptRecord} {a b : AttemptRecord}

theorem OtherMetrics.isValid_eq (h : OtherMetrics selected a b) : isValid a = isValid b := by
  rw [h.1]
  rfl

theorem OtherMetrics.sortKey_eq (h : OtherMetrics selected a b) : sortKey a = sortKey b := by
  rw [h.1]
  rfl

theorem OtherMetrics.checkAttempt_eq (h : OtherMetrics selected a b) :
    checkAttempt a = checkAttempt b := by
  rw [h.1]
  rfl

theorem all_eq_of_forall₂ {R : AttemptRecord → AttemptRecord → Prop} {p q : AttemptRecord → Bool}
    (hpq : ∀ a b, R a b → p a = q b) (h : List.Forall₂ R ordered ordered') :
    ordered.all p = ordered'.all q := by
  induction h with
  | nil => rfl
  | cons hab _ ih => rw [List.all_cons, List.all_cons, hpq _ _ hab, ih]

theorem mapM_eq_of_forall₂ {R : AttemptRecord → AttemptRecord → Prop} {γ : Type}
    {f g : AttemptRecord → Except BatteryError γ} (hfg : ∀ a b, R a b → f a = g b)
    (h : List.Forall₂ R ordered ordered') : ordered.mapM f = ordered'.mapM g := by
  induction h with
  | nil => rfl
  | cons hab _ ih => rw [List.mapM_cons, List.mapM_cons, hfg _ _ hab, ih]

theorem map_eq_of_forall₂ {R : AttemptRecord → AttemptRecord → Prop} {γ : Type}
    {f g : AttemptRecord → γ} (hfg : ∀ a b, R a b → f a = g b)
    (h : List.Forall₂ R ordered ordered') : ordered.map f = ordered'.map g := by
  induction h with
  | nil => rfl
  | cons hab _ ih => rw [List.map_cons, List.map_cons, hfg _ _ hab, ih]

theorem checkShared_eq (hfirst : OtherMetrics selected a b)
    (h : List.Forall₂ (OtherMetrics selected) ordered ordered') :
    checkShared a ordered hash = checkShared b ordered' hash := by
  have hsubject : a.subject = b.subject := by
    rw [hfirst.1]
  have hprofile : a.profile = b.profile := by
    rw [hfirst.1]
  unfold checkShared
  rw [hsubject, hprofile]
  rw [all_eq_of_forall₂ (q := fun item => item.baselinesSha256 == some hash) _ h,
    all_eq_of_forall₂ (q := fun item => decide (item.subject = b.subject)) _ h,
    all_eq_of_forall₂ (q := fun item => item.profile == b.profile) _ h]
  all_goals
    intro c d hcd
    rw [hcd.1]

theorem selected_eq {required : ℕ} (hselected : (ordered.filter isValid).take required ⊆ selected)
    (h : List.Forall₂ (OtherMetrics selected) ordered ordered') :
    (ordered.filter isValid).take required = (ordered'.filter isValid).take required := by
  induction h generalizing required with
  | nil => rfl
  | @cons a b ordered ordered' hab _ ih =>
    cases hvalid : isValid a with
    | false =>
      rw [List.filter_cons_of_neg (by simp [hvalid])] at hselected ⊢
      rw [List.filter_cons_of_neg (by simp [← hab.isValid_eq, hvalid])]
      exact ih hselected
    | true =>
      rw [List.filter_cons_of_pos hvalid] at hselected ⊢
      rw [List.filter_cons_of_pos (by rw [← hab.isValid_eq, hvalid])]
      cases required with
      | zero => rfl
      | succ required =>
        rw [List.take_succ_cons] at hselected ⊢
        rw [List.take_succ_cons, hab.2 (hselected List.mem_cons_self),
          ih fun c hc => hselected (List.mem_cons_of_mem _ hc)]

theorem evaluateOrdered_eq (hfirst : OtherMetrics selected a b)
    (h : List.Forall₂ (OtherMetrics selected) ordered ordered')
    (hselected : (ordered.filter isValid).take baselines.requiredValidBatteries ⊆ selected) :
    evaluateOrdered a ordered baselines hash = evaluateOrdered b ordered' baselines hash := by
  have hsubject : a.subject = b.subject := by
    rw [hfirst.1]
  have hprofile : a.profile = b.profile := by
    rw [hfirst.1]
  unfold evaluateOrdered
  rw [checkShared_eq hfirst h, mapM_eq_of_forall₂ (f := checkAttempt) (g := checkAttempt)
    (fun _ _ hab => hab.checkAttempt_eq) h,
    selected_eq hselected h, hsubject, hprofile, h.length_eq]

/-- The verdict does not depend on the metrics of the attempts it does not select. -/
theorem evaluateAttempts_other_metrics
    (h : List.Forall₂ (OtherMetrics (selectedOf baselines.requiredValidBatteries attempts))
      attempts attempts') :
    evaluateAttempts attempts baselines hash = evaluateAttempts attempts' baselines hash := by
  have hsorted := forall₂_sortBy (fun _ _ hab => OtherMetrics.sortKey_eq hab) h
  rw [← chronological_eq, ← chronological_eq] at hsorted
  have hselected : ((chronological attempts).filter isValid).take baselines.requiredValidBatteries ⊆
      selectedOf baselines.requiredValidBatteries attempts := fun _ hmem => hmem
  unfold evaluateAttempts
  rw [h.length_eq]
  have hnumbers := map_eq_of_forall₂ (f := (·.attempt)) (g := (·.attempt))
    (fun c d hcd => by rw [hcd.1]) hsorted
  cases hordered : chronological attempts with
  | nil =>
    rw [hordered] at hsorted
    rw [List.forall₂_nil_left_iff.mp hsorted]
  | cons first rest =>
    rw [hordered] at hsorted hnumbers hselected
    cases hordered' : chronological attempts' with
    | nil =>
      rw [hordered'] at hsorted
      cases hsorted
    | cons first' rest' =>
      rw [hordered'] at hsorted hnumbers
      have hfirst := (List.forall₂_cons.mp hsorted).1
      simp only [hnumbers, hsorted.length_eq, evaluateOrdered_eq hfirst hsorted hselected]

end OtherMetrics

/-- The document of the same evaluation with more hashes. -/
def Evaluation.appendRaw (raws : List String) : Evaluation → Evaluation
  | .incomplete validAttempts rawSha256 subject => .incomplete validAttempts (rawSha256 ++ raws) subject
  | .complete profile subject baselinesSha256 selectedAttempts rawSha256 medians =>
    .complete profile subject baselinesSha256 selectedAttempts (rawSha256 ++ raws) medians

/-- Well-formed attempts that continue a list of them: later, numbered on, of the same
identities, each with a hash and a validity in order. -/
structure Continues (attempts more : List AttemptRecord) (hash : String) (raws : List String) :
    Prop where
  later : ∀ a ∈ attempts, ∀ b ∈ more, sortKey a < sortKey b
  numbered : (chronological more).map (·.attempt) =
    ((List.range more.length).map fun i : ℕ => (attempts.length : ℤ) + i + 1).map some
  baselinesSha256 : ∀ b ∈ more, b.baselinesSha256 = some hash
  subject : ∀ a ∈ attempts, ∀ b ∈ more, b.subject = a.subject
  profile : ∀ a ∈ attempts, ∀ b ∈ more, b.profile = a.profile
  checked : (chronological more).mapM checkAttempt = .ok raws

section Later

variable {raws : List String} {first : AttemptRecord} {ordered later : List AttemptRecord}

theorem oneTo_add (m n : ℕ) :
    oneTo (m + n) = oneTo m ++ (List.range n).map fun i : ℕ => (m : ℤ) + i + 1 := by
  simp [oneTo, List.range_add, Function.comp_def]

theorem Continues.chronological_append (h : Continues attempts more hash raws) :
    chronological (attempts ++ more) = chronological attempts ++ chronological more :=
  sortBy_append h.later

theorem Continues.numbered_iff (h : Continues attempts more hash raws) :
    Numbered (attempts ++ more) ↔ Numbered attempts := by
  unfold Numbered
  rw [h.chronological_append, List.map_append, h.numbered, List.length_append, oneTo_add,
    List.map_append]
  exact List.append_left_inj _

theorem checkShared_append (hbaselines : ∀ b ∈ later, b.baselinesSha256 = some hash)
    (hsubject : ∀ b ∈ later, b.subject = first.subject)
    (hprofile : ∀ b ∈ later, b.profile = first.profile) :
    checkShared first (ordered ++ later) hash = checkShared first ordered hash := by
  have hall : ∀ p : AttemptRecord → Bool, (∀ b ∈ later, p b = true) →
      (ordered ++ later).all p = ordered.all p := by
    intro p hp
    rw [List.all_append, List.all_eq_true.mpr hp, Bool.and_true]
  unfold checkShared
  rw [hall _ fun b hb => by simp [hbaselines b hb], hall _ fun b hb => by simp [hsubject b hb],
    hall _ fun b hb => by simp [hprofile b hb]]

/-- With the required valid attempts at hand, later ones add their hashes and nothing else. -/
theorem evaluateOrdered_append (hbaselines : ∀ b ∈ later, b.baselinesSha256 = some hash)
    (hsubject : ∀ b ∈ later, b.subject = first.subject)
    (hprofile : ∀ b ∈ later, b.profile = first.profile)
    (hchecked : later.mapM checkAttempt = .ok raws)
    (henough : baselines.requiredValidBatteries ≤ (ordered.filter isValid).length) :
    evaluateOrdered first (ordered ++ later) baselines hash =
      (evaluateOrdered first ordered baselines hash).map (Evaluation.appendRaw raws) := by
  have hselected : ((ordered ++ later).filter isValid).take baselines.requiredValidBatteries =
      (ordered.filter isValid).take baselines.requiredValidBatteries := by
    rw [List.filter_append, List.take_append_of_le_length henough]
  have hlength : ¬ ((ordered.filter isValid).take baselines.requiredValidBatteries).length <
      baselines.requiredValidBatteries := by
    rw [List.length_take]
    omega
  unfold evaluateOrdered
  rw [checkShared_append hbaselines hsubject hprofile, List.mapM_append, hchecked, hselected]
  cases checkShared first ordered hash with
  | error e => rfl
  | ok _ =>
    cases ordered.mapM checkAttempt with
    | error e => rfl
    | ok rawHashes =>
      simp only [ok_bind, if_neg hlength]
      split
      · rfl
      · rename_i profile metricPolicy _
        cases metricPolicy.mapM (metricMedian
          ((ordered.filter isValid).take baselines.requiredValidBatteries)) <;> rfl

theorem evaluateAttempts_append (hne : attempts ≠ []) (h : Continues attempts more hash raws)
    (hcount : (attempts ++ more).length ≤ baselines.maxAttempts)
    (henough : baselines.requiredValidBatteries ≤ (attempts.filter isValid).length) :
    evaluateAttempts (attempts ++ more) baselines hash =
      (evaluateAttempts attempts baselines hash).map (Evaluation.appendRaw raws) := by
  have hcount' : attempts.length ≤ baselines.maxAttempts := by
    rw [List.length_append] at hcount
    omega
  by_cases hnumbered : Numbered attempts
  · have hnumbered' := h.numbered_iff.mpr hnumbered
    have hperm := perm_chronological attempts
    have hperm' := perm_chronological (attempts ++ more)
    have hmore := perm_chronological more
    have henough' : baselines.requiredValidBatteries ≤
        ((chronological attempts).filter isValid).length := by
      rw [(hperm.filter isValid).length_eq]
      exact henough
    unfold Numbered at hnumbered hnumbered'
    unfold evaluateAttempts
    rw [if_neg (by omega), if_neg (by omega)]
    rw [← hperm.length_eq] at hnumbered
    rw [← hperm'.length_eq] at hnumbered'
    rw [h.chronological_append] at hnumbered' ⊢
    cases hordered : chronological attempts with
    | nil =>
      rw [hordered] at hperm
      exact absurd hperm.symm.eq_nil hne
    | cons first rest =>
      have hfirst : first ∈ attempts := by
        rw [← hperm.mem_iff, hordered]
        exact List.mem_cons_self
      rw [hordered] at hnumbered hnumbered' henough'
      simp only [List.cons_append] at hnumbered' ⊢
      rw [if_pos hnumbered, if_pos hnumbered']
      exact evaluateOrdered_append
        (fun b hb => h.baselinesSha256 b (hmore.mem_iff.mp hb))
        (fun b hb => h.subject first hfirst b (hmore.mem_iff.mp hb))
        (fun b hb => h.profile first hfirst b (hmore.mem_iff.mp hb)) h.checked henough'
  · have hnumbered' : ¬ Numbered (attempts ++ more) := fun h' => hnumbered (h.numbered_iff.mp h')
    rw [evaluateAttempts_not_numbered hcount' hne hnumbered,
      evaluateAttempts_not_numbered hcount (by simp [hne]) hnumbered']
    rfl

end Later

theorem evaluateAttempts_complete {profile baselinesSha256 : String} {subject : Option Subject}
    {selectedAttempts : List (Option ℤ)} {rawSha256 : List String} {medians : List (String × PyFloat)}
    (h : evaluateAttempts attempts baselines hash =
      .ok (.complete profile subject baselinesSha256 selectedAttempts rawSha256 medians)) :
    selectedAttempts = (selectedOf baselines.requiredValidBatteries attempts).map (·.attempt) ∧
      (∀ a ∈ selectedOf baselines.requiredValidBatteries attempts, a.profile = some profile) ∧
      ∃ metricPolicy, baselines.profiles.lookup profile = some metricPolicy ∧
        metricPolicy.mapM (metricMedian (selectedOf baselines.requiredValidBatteries attempts)) =
          .ok medians := by
  unfold evaluateAttempts at h
  by_cases hcount : attempts.length > baselines.maxAttempts
  · rw [if_pos hcount] at h
    cases h
  rw [if_neg hcount] at h
  unfold selectedOf
  cases hordered : chronological attempts with
  | nil =>
    rw [hordered] at h
    cases h
  | cons first rest =>
    rw [hordered] at h
    simp only at h
    split_ifs at h
    simp only [evaluateOrdered, bind_eq_ok] at h
    obtain ⟨_, hshared, rawHashes, -, h⟩ := h
    split_ifs at h
    · cases h
    cases hlookup : first.profile.bind fun name => (baselines.profiles.lookup name).map (name, ·) with
    | none =>
      rw [hlookup] at h
      cases h
    | some found =>
      rw [hlookup] at h
      obtain ⟨name, metricPolicy⟩ := found
      simp only [bind_eq_ok, pure_eq_ok] at h
      obtain ⟨medians', hmedians, heq⟩ := h
      cases heq
      obtain ⟨name', hprofile, hname⟩ := Option.bind_eq_some_iff.mp hlookup
      obtain ⟨metricPolicy', hpolicy, hpair⟩ := Option.map_eq_some_iff.mp hname
      cases hpair
      refine ⟨rfl, ?_, metricPolicy, hpolicy, hmedians⟩
      intro a ha
      simp only [checkShared, bind_eq_ok, require_eq_ok] at hshared
      obtain ⟨_, -, _, -, _, hprofiles, -⟩ := hshared
      have hmem := List.mem_of_mem_filter (List.mem_of_mem_take ha)
      have hsame := List.all_eq_true.mp hprofiles a hmem
      rw [eq_of_beq hsame, hprofile]

theorem medians_of_nothing {metricPolicy : List (String × Limits)} {medians : List (String × PyFloat)}
    (h : metricPolicy.mapM (metricMedian []) = .ok medians) : medians = [] := by
  cases metricPolicy with
  | nil => exact (pure_eq_ok.mp h).symm
  | cons entry metricPolicy =>
    rw [List.mapM_cons, bind_eq_ok] at h
    obtain ⟨median, hmedian, -⟩ := h
    cases hmedian

theorem complete_eq_of_selected_eq {profile profile' baselinesSha256 baselinesSha256' : String}
    {subject subject' : Option Subject} {selectedAttempts selectedAttempts' : List (Option ℤ)}
    {rawSha256 rawSha256' : List String} {medians medians' : List (String × PyFloat)}
    (hselected : selectedOf baselines.requiredValidBatteries attempts =
      selectedOf baselines.requiredValidBatteries attempts')
    (h : evaluateAttempts attempts baselines hash =
      .ok (.complete profile subject baselinesSha256 selectedAttempts rawSha256 medians))
    (h' : evaluateAttempts attempts' baselines hash =
      .ok (.complete profile' subject' baselinesSha256' selectedAttempts' rawSha256' medians')) :
    selectedAttempts = selectedAttempts' ∧ medians = medians' := by
  obtain ⟨hnumbers, hprofile, metricPolicy, hpolicy, hmedians⟩ := evaluateAttempts_complete h
  obtain ⟨hnumbers', hprofile', metricPolicy', hpolicy', hmedians'⟩ := evaluateAttempts_complete h'
  rw [← hselected] at hnumbers' hprofile' hmedians'
  refine ⟨hnumbers.trans hnumbers'.symm, ?_⟩
  cases hcases : selectedOf baselines.requiredValidBatteries attempts with
  | nil =>
    rw [hcases] at hmedians hmedians'
    rw [medians_of_nothing hmedians, medians_of_nothing hmedians']
  | cons a rest =>
    have hmem : a ∈ selectedOf baselines.requiredValidBatteries attempts := by
      rw [hcases]
      exact List.mem_cons_self
    have hsame : profile = profile' :=
      Option.some.inj ((hprofile a hmem).symm.trans (hprofile' a hmem))
    subst hsame
    rw [hpolicy] at hpolicy'
    cases hpolicy'
    rw [hmedians] at hmedians'
    exact Except.ok.inj hmedians'

/-- A verdict does not depend on the order of the list, on the metrics of the attempts it
does not select or on well-formed attempts that come later, and what it reports is a function
of the selected attempts. -/
theorem verdict_not_cherry_picked (attempts : List AttemptRecord) (baselines : Baselines)
    (hash : String) :
    (∀ attempts' : List AttemptRecord, attempts.Perm attempts' →
      evaluateAttempts attempts' baselines hash = evaluateAttempts attempts baselines hash) ∧
    (∀ attempts' : List AttemptRecord, List.Forall₂
        (OtherMetrics (selectedOf baselines.requiredValidBatteries attempts)) attempts attempts' →
      evaluateAttempts attempts' baselines hash = evaluateAttempts attempts baselines hash) ∧
    (∀ more raws, attempts ≠ [] → Continues attempts more hash raws →
      (attempts ++ more).length ≤ baselines.maxAttempts →
      baselines.requiredValidBatteries ≤ (attempts.filter isValid).length →
      evaluateAttempts (attempts ++ more) baselines hash =
        (evaluateAttempts attempts baselines hash).map (Evaluation.appendRaw raws)) ∧
    ∀ attempts' profile profile' subject subject' baselinesSha256 baselinesSha256' selectedAttempts
        selectedAttempts' rawSha256 rawSha256' medians medians',
      selectedOf baselines.requiredValidBatteries attempts =
        selectedOf baselines.requiredValidBatteries attempts' →
      evaluateAttempts attempts baselines hash =
        .ok (.complete profile subject baselinesSha256 selectedAttempts rawSha256 medians) →
      evaluateAttempts attempts' baselines hash =
        .ok (.complete profile' subject' baselinesSha256' selectedAttempts' rawSha256' medians') →
      selectedAttempts = selectedAttempts' ∧ medians = medians' := by
  refine ⟨?_, ?_, ?_, ?_⟩
  · intro attempts' h
    exact (evaluateAttempts_perm h).symm
  · intro attempts' h
    exact (evaluateAttempts_other_metrics h).symm
  · intro more raws hne h hcount henough
    exact evaluateAttempts_append hne h hcount henough
  · intro attempts' _ _ _ _ _ _ _ _ _ _ _ _ hselected h h'
    exact complete_eq_of_selected_eq hselected h h'

/-- A valid attempt with the rate that the profile has floors for. -/
def ratedAttempt (number : ℤ) (rate : ℚ) : AttemptRecord where
  attempt := some number
  baselinesSha256 := some "b"
  profile := some "decode"
  rawSha256 := some (String.ofList (List.replicate 64 '0'))
  valid := some true
  completed := some true
  metrics := [("tokens_per_second", .num (.float (.finite rate)))]

def ratedBaselines : Baselines :=
  ⟨5, 3, [("decode", [("tokens_per_second", ⟨.int 45, .int 46⟩)])]⟩

def ratedAttempts : List AttemptRecord := [ratedAttempt 1 48, ratedAttempt 2 46, ratedAttempt 3 47]

theorem ratedAttempt_continues :
    Continues ratedAttempts [ratedAttempt 4 40] "b" [String.ofList (List.replicate 64 '0')] where
  later := by
    intro a ha b hb
    rw [List.mem_singleton.mp hb, Prod.Lex.lt_iff]
    simp only [ratedAttempts, List.mem_cons, List.not_mem_nil, or_false] at ha
    rcases ha with rfl | rfl | rfl
    all_goals exact .inr ⟨rfl, by decide⟩
  numbered := rfl
  baselinesSha256 := by simp [ratedAttempt]
  subject := by simp [ratedAttempts, ratedAttempt]
  profile := by simp [ratedAttempts, ratedAttempt]
  checked := by
    have hraw : rawHash (ratedAttempt 4 40) = .ok (String.ofList (List.replicate 64 '0')) := by
      unfold rawHash ratedAttempt
      exact if_pos (by decide)
    rw [show chronological [ratedAttempt 4 40] = [ratedAttempt 4 40] from rfl, List.mapM_cons,
      checkAttempt, hraw]
    rfl

/-- A fourth attempt below the floor changes nothing but the list of hashes. -/
theorem verdict_not_cherry_picked_plain :
    evaluateAttempts ratedAttempts ratedBaselines "b" =
        .ok (.complete "decode" none "b" [some 1, some 2, some 3]
          (List.replicate 3 (String.ofList (List.replicate 64 '0')))
          [("tokens_per_second", .finite 47)]) ∧
      evaluateAttempts (ratedAttempts ++ [ratedAttempt 4 40]) ratedBaselines "b" =
        (evaluateAttempts ratedAttempts ratedBaselines "b").map
          (Evaluation.appendRaw [String.ofList (List.replicate 64 '0')]) :=
  ⟨rfl, (verdict_not_cherry_picked ratedAttempts ratedBaselines "b").2.2.1 [ratedAttempt 4 40] _
    (by simp [ratedAttempts]) ratedAttempt_continues (by decide) (by decide)⟩

end ChampionRuntime.Benchmark
