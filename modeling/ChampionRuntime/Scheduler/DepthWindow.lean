import ChampionRuntime.Scheduler.Rotation

/-!
# The depth of the counted drafts

The acceptance-length controller decides on the drafts counted in its window. They were
drafted at its depth where those of each request were that an update counts: the drafts it
ran with when the step was scheduled, or those that replaced its placeholders.
-/
namespace ChampionRuntime.Scheduler

open Lib
open Decoding (AcceptanceLengthController AcceptanceLengthUpdate Observation)

variable {σ : Type} {cfg : Config} {svc : Services σ} {ctx : StepContext} {s₀ s s' : State σ}
  {p q : Pass σ} {id : RequestId} {throttlePrefills : Bool} {out : SchedulerOutput}
  {mo : ModelRunnerOutput}

/-- The drafts were made at the depth the controller stands at, if there is one. -/
def State.AtDepth (s : State σ) (drafts : List DraftToken) : Prop :=
  ∀ c, s.acceptanceLengthController = some c → ∀ draft ∈ drafts, draft.depth = some c.numSpecTokens

theorem State.AtDepth.of_controller {drafts : List DraftToken} (h : s.AtDepth drafts)
    (hcontroller : s'.acceptanceLengthController = s.acceptanceLengthController) :
    s'.AtDepth drafts := by
  intro c hc
  rw [hcontroller] at hc
  exact h c hc

theorem State.AtDepth.append {drafts drafts' : List DraftToken} (h : s.AtDepth drafts)
    (h' : s.AtDepth drafts') : s.AtDepth (drafts ++ drafts') := by
  intro c hc
  rw [List.forall_mem_append]
  exact ⟨h c hc, h' c hc⟩

/-- The drafts of a request in flight were made at a depth: those that replaced its
placeholders, or those it had when it ran. -/
def InFlight.DraftedAt (f : InFlight σ) (id : RequestId) (depth : ℕ) : Prop :=
  match f.filled id with
  | some made => made = some depth
  | none => id ∈ f.before.running ∧
      ∀ draft ∈ (f.before.request id).specTokenIds, draft.depth = some depth

theorem draftsInOutput_of_ne {new : RequestId × List DraftToken} (hne : id ≠ new.1) :
    (draftsInOutput svc s out new).scheduledSpecDecodeTokens.get? id =
      out.scheduledSpecDecodeTokens.get? id ∧
    (draftsInOutput svc s out new).numInvalidSpecTokens.get? id =
      out.numInvalidSpecTokens.get? id := by
  unfold draftsInOutput
  dsimp only
  by_cases hgone : new.1 ∉ s.requests ∨ (s.request new.1).status.isFinished = true
  · rw [if_pos hgone]
    exact ⟨rfl, rfl⟩
  rw [if_neg hgone]
  cases out.scheduledSpecDecodeTokens.get? new.1 with
  | none => exact ⟨rfl, rfl⟩
  | some placeholders =>
    dsimp only
    rw [Keyed.get?_set, if_neg hne]
    refine ⟨rfl, ?_⟩
    split_ifs
    · rw [Keyed.get?_set, if_neg hne]
    · rfl
    · rw [Keyed.get?_set, if_neg hne]
    · rfl

def State.Live (s : State σ) (id : RequestId) : Prop :=
  id ∈ s.requests ∧ (s.request id).status.isFinished = false

theorem draftsInOutput_gone {new : RequestId × List DraftToken} (hgone : ¬ s.Live new.1) :
    draftsInOutput svc s out new = out := by
  unfold draftsInOutput
  dsimp only
  rw [if_pos]
  by_contra hlive
  rw [not_or, not_not, Bool.not_eq_true] at hlive
  exact hgone hlive

/-- Where no token turns out invalid, the placeholders of a request are replaced by what came. -/
theorem draftsInOutput_self {new : RequestId × List DraftToken} {drafts : List DraftToken}
    (hlive : s.Live new.1)
    (hdrafts : (draftsInOutput svc s out new).scheduledSpecDecodeTokens.get? new.1 = some drafts)
    (hvalid : (draftsInOutput svc s out new).numInvalidSpecTokens.get? new.1 = none) :
    drafts ⊆ new.2 := by
  unfold draftsInOutput at hdrafts hvalid
  dsimp only at hdrafts hvalid
  have hgone : ¬ (new.1 ∉ s.requests ∨ (s.request new.1).status.isFinished = true) := by
    rw [not_or, not_not, Bool.not_eq_true]
    exact hlive
  rw [if_neg hgone] at hdrafts hvalid
  cases hplaceholders : out.scheduledSpecDecodeTokens.get? new.1 with
  | none =>
    rw [hplaceholders] at hdrafts
    dsimp only at hdrafts
    rw [hplaceholders] at hdrafts
    cases hdrafts
  | some placeholders =>
    rw [hplaceholders] at hdrafts hvalid
    dsimp only at hdrafts hvalid
    rw [Keyed.get?_set, if_pos rfl] at hdrafts
    generalize hkept : (if svc.shouldAdvance s.services new.1 (s.request new.1) = true then
      svc.validateTokens s.services new.1 (new.2.take placeholders.length)
      else new.2.take placeholders.length) = kept at hdrafts hvalid
    have hsub : kept ⊆ new.2 := by
      rw [← hkept]
      split_ifs
      · exact List.Subset.trans (svc.validateTokens_prefix _ _ _).subset (List.take_subset _ _)
      · exact List.take_subset _ _
    by_cases hinvalid : placeholders.length - kept.length ≠ 0
    · rw [if_pos hinvalid, Keyed.get?_set, if_pos rfl] at hvalid
      cases hvalid
    · rw [not_not.mp hinvalid, List.replicate_zero, List.append_nil] at hdrafts
      rw [← Option.some.inj hdrafts]
      exact hsub

theorem foldl_draftsInOutput_of_not (new : List (RequestId × List DraftToken))
    (out : SchedulerOutput) (hnot : ¬ (id ∈ new.map Prod.fst ∧ s.Live id)) :
    (new.foldl (draftsInOutput svc s) out).scheduledSpecDecodeTokens.get? id =
      out.scheduledSpecDecodeTokens.get? id ∧
    (new.foldl (draftsInOutput svc s) out).numInvalidSpecTokens.get? id =
      out.numInvalidSpecTokens.get? id := by
  induction new generalizing out with
  | nil => exact ⟨rfl, rfl⟩
  | cons first rest ih =>
    rw [List.map_cons, List.mem_cons] at hnot
    obtain ⟨hdrafts, hinvalid⟩ := ih (draftsInOutput svc s out first)
      fun h => hnot ⟨.inr h.1, h.2⟩
    rw [List.foldl_cons, hdrafts, hinvalid]
    by_cases heq : id = first.1
    · rw [@draftsInOutput_gone _ _ _ _ first fun h => hnot ⟨.inl heq, heq ▸ h⟩]
      exact ⟨rfl, rfl⟩
    · exact draftsInOutput_of_ne heq

theorem foldl_draftsInOutput_subset {new : List (RequestId × List DraftToken)}
    {out : SchedulerOutput} {drafts : List DraftToken} (hid : id ∈ new.map Prod.fst)
    (hlive : s.Live id)
    (hdrafts : (new.foldl (draftsInOutput svc s) out).scheduledSpecDecodeTokens.get? id = some drafts)
    (hvalid : (new.foldl (draftsInOutput svc s) out).numInvalidSpecTokens.get? id = none) :
    ∃ p ∈ new, drafts ⊆ p.2 := by
  induction new generalizing out with
  | nil => exact absurd hid List.not_mem_nil
  | cons first rest ih =>
    rw [List.foldl_cons] at hdrafts hvalid
    by_cases hrest : id ∈ rest.map Prod.fst
    · obtain ⟨p, hp, hsub⟩ := ih hrest hdrafts hvalid
      exact ⟨p, List.mem_cons_of_mem _ hp, hsub⟩
    · obtain ⟨hsame, hsame'⟩ := @foldl_draftsInOutput_of_not _ svc s _ rest
        (draftsInOutput svc s out first) fun h => hrest h.1
      rw [List.map_cons, List.mem_cons, or_iff_left hrest] at hid
      subst hid
      rw [hsame] at hdrafts
      rw [hsame'] at hvalid
      exact ⟨first, List.mem_cons_self, draftsInOutput_self hlive hdrafts hvalid⟩

/-- The drafts that a step in flight has for a request are those it was drafted with. -/
theorem Engine.Reached.draftedAt {Q : Engine σ → Action σ → Prop} {e : Engine σ}
    (h : Engine.Reached cfg svc Q e) : ∀ f ∈ e.inFlight, ∀ id drafts depth,
    f.out.scheduledSpecDecodeTokens.get? id = some drafts → f.DraftedAt id depth →
    ∀ draft ∈ drafts, draft.depth = some depth := by
  refine h.forall_inFlight (I := fun f => ∀ id drafts depth,
    f.out.scheduledSpecDecodeTokens.get? id = some drafts → f.DraftedAt id depth →
    ∀ draft ∈ drafts, draft.depth = some depth) ?_ ?_
  · intro e throttlePrefills out s hreached _ hstep id drafts depth hdrafts hmade draft hdraft
    obtain ⟨p, q, hpasses⟩ := schedule_passes hreached.queues hstep
    obtain ⟨hrunning, hdepth⟩ := hmade
    exact hdepth draft ((hpasses.running_drafts hrunning hdrafts).1.subset hdraft)
  · intro e f new ih id drafts depth hdrafts hmade draft hdraft
    unfold InFlight.DraftedAt InFlight.fill at hmade
    dsimp only at hmade
    by_cases hreplaces : replacesDrafts e.state f.out (e.stamp new) id = true
    · rw [if_pos hreplaces] at hmade
      simp only [replacesDrafts, decide_eq_true_eq] at hreplaces
      obtain ⟨hid, hknown, hlive, -⟩ := hreplaces
      dsimp only at hmade
      split_ifs at hmade with hvalid
      rw [Option.isNone_iff_eq_none] at hvalid
      obtain ⟨made, hmem, hsub⟩ := foldl_draftsInOutput_subset hid ⟨hknown, hlive⟩ hdrafts hvalid
      obtain ⟨given, -, rfl⟩ := List.mem_map.mp hmem
      obtain ⟨token, -, rfl⟩ := List.mem_map.mp (hsub hdraft)
      exact hmade
    · rw [if_neg hreplaces] at hmade
      have hshape := updateDraftTokenIdsInOutput_shape svc e.state f.out (e.stamp new)
      have hnot : ¬ (id ∈ (e.stamp new).map Prod.fst ∧ e.state.Live id) := by
        rintro ⟨hid, hknown, hlive⟩
        apply hreplaces
        simp only [replacesDrafts, decide_eq_true_eq]
        refine ⟨hid, hknown, hlive, ?_⟩
        have hlength := hshape.drafts id
        unfold InFlight.fill at hdrafts
        rw [hdrafts] at hlength
        cases hold : f.out.scheduledSpecDecodeTokens.get? id with
        | none =>
          rw [hold] at hlength
          cases hlength
        | some _ => rfl
      have hsame := (@foldl_draftsInOutput_of_not _ svc _ _ (e.stamp new)
        { f.out with numInvalidSpecTokens := Keyed.empty } hnot).1
      exact ih id drafts depth (hsame.symm.trans hdrafts) hmade draft hdraft

theorem StepPasses.controller (h : StepPasses cfg svc throttlePrefills s p q out s')
    (hqueues : WellQueued [] s) :
    s'.acceptanceLengthController = s.acceptanceLengthController := by
  obtain ⟨turns, hturns⟩ := selectLongPrefillRequestIds_state cfg
    { s with currentStep := s.currentStep + 1 }
  have hstate : (beginStep cfg throttlePrefills s).2.toState =
      { s with currentStep := s.currentStep + 1, longPrefillLastScheduled := turns } := hturns
  have hbegin : (beginStep cfg throttlePrefills s).2.acceptanceLengthController =
      s.acceptanceLengthController := by rw [hstate]
  have hsame : ∀ p q : Pass σ, p.acceptanceLengthController = s.acceptanceLengthController →
      p.SameLedger q → q.acceptanceLengthController = s.acceptanceLengthController :=
    fun _ _ h hsame => hsame.steady.controller.trans h
  have hevictions : ∀ {es : List (Pass σ)} {p q : Pass σ},
      Evictions cfg svc (beginStep cfg throttlePrefills s).1 s es p q →
      q.acceptanceLengthController = p.acceptanceLengthController := by
    intro es p q hroom
    induction hroom with
    | nil hsame => exact hsame.steady.controller
    | cons hsame _ hevict _ ih =>
      rw [ih, ← hsame.steady.controller]
      rcases evict_ledger hevict with heq | ⟨-, htaken⟩
      · exact heq.steady.controller
      · exact htaken.steady.controller
  have hrunning := (scheduleRunning_keeps (G := fun _ => True) hsame (by
    intro p id p' _ hp hturn _
    cases hturn with
    | passed hpassed => exact hsame p _ hp hpassed
    | refused hroom => exact (hevictions hroom).trans hp
    | booked hroom _ _ _ _ =>
      exact (commitRunning_books _ _ _).controller.trans ((hevictions hroom).trans hp))
    (beginStep_spec hqueues) hbegin (fun _ _ => trivial)).2 p h.ran
  have hwaiting := (scheduleWaiting_keeps hsame (by
    intro p id p' _ _ _ hp hturn
    cases hturn with
    | kept hkept => exact hsame p _ hp hkept
    | booked hkept _ hbooks _ _ => exact hbooks.controller.trans (hsame p _ hp hkept))
    h.running hrunning).2 q h.waited
  obtain ⟨wasted, turns', hs'⟩ := h.state
  rw [hs']
  exact hwaiting

/-- The loop of an update verifies the drafts of a request. -/
structure Counts (cfg : Config) (mo : ModelRunnerOutput) (failed : List RequestId) (s : State σ)
    (id : RequestId) : Prop where
  known : id ∈ s.requests
  unfinished : (s.request id).status.isFinished = false
  fresh : (s.request id).numStaleOutputTokens ≤ 0
  loaded : id ∉ failed
  sampled : ∃ generated, mo.sampledTokenIds id = some generated ∧
    (generated ≠ [] ∨ cfg.numSampledTokensPerStep = 0)

section Observed

variable {failed : List RequestId} {u u' : UpdatePass σ}

theorem takeOutput_observedDrafts (mo : ModelRunnerOutput) (id : RequestId) (generated : List ℤ)
    (u : UpdatePass σ) : (takeOutput cfg svc mo id generated u).observedDrafts = u.observedDrafts := by
  unfold takeOutput
  extract_lets statusBefore
  generalize receiveOutput cfg svc mo id generated (u.request id) u.services = received
  obtain ⟨stopped, r, services⟩ := received
  dsimp only
  split_ifs
  · rfl
  · rfl
  · rfl

theorem updateRequest_observedDrafts {item : RequestId × ℤ}
    (h : updateRequest cfg svc out mo failed u item = .ok u') {draft : DraftToken}
    (hdraft : draft ∈ u'.observedDrafts) : draft ∈ u.observedDrafts ∨
      draft ∈ draftsOf out.scheduledSpecDecodeTokens item.1 ∧ Counts cfg mo failed u.toState item.1 := by
  obtain ⟨-, hturn⟩ := updateRequest_turned h
  cases hturn with
  | gone _ => exact .inl hdraft
  | passed _ _ => exact .inl hdraft
  | silent _ _ _ => exact .inl hdraft
  | received generated hknown hlive hsampled =>
    unfold receiveRequest at hdraft
    rw [takeOutput_observedDrafts] at hdraft
    unfold verifyDrafts UpdatePass.observe at hdraft
    dsimp only at hdraft
    split_ifs at hdraft with hverified
    · exact .inl hdraft
    · obtain ⟨-, hgenerated, hstale⟩ := hverified
      rcases List.mem_append.mp hdraft with hbefore | hnew
      · exact .inl hbefore
      · refine .inr ⟨hnew, hknown, ?_, ?_, ?_, generated, hsampled, hgenerated⟩
        · by_contra hfinished
          exact hlive (.inr (.inl (by simpa using hfinished)))
        · simpa using hstale
        · exact fun hfailed => hlive (.inl hfailed)
    · exact .inl hdraft

theorem foldlM_observedDrafts {items : List (RequestId × ℤ)} (hnodup : (items.map Prod.fst).Nodup)
    (hloop : items.foldlM (updateRequest cfg svc out mo failed) u = .ok u') {draft : DraftToken}
    (hdraft : draft ∈ u'.observedDrafts) : draft ∈ u.observedDrafts ∨ ∃ id,
      draft ∈ draftsOf out.scheduledSpecDecodeTokens id ∧ id ∈ items.map Prod.fst ∧
        Counts cfg mo failed u.toState id := by
  induction items generalizing u with
  | nil =>
    cases hloop
    exact .inl hdraft
  | cons item items ih =>
    rw [List.foldlM_cons, bind_eq_ok] at hloop
    obtain ⟨v, hitem, hloop⟩ := hloop
    rw [List.map_cons, List.nodup_cons] at hnodup
    rw [List.map_cons]
    rcases ih hnodup.2 hloop with hbefore | ⟨id, hnew, hmem, hcounts⟩
    · rcases updateRequest_observedDrafts hitem hbefore with hold | ⟨hnew, hcounts⟩
      · exact .inl hold
      · exact .inr ⟨item.1, hnew, List.mem_cons_self, hcounts⟩
    · have hne : id ≠ item.1 := fun heq => hnodup.1 (heq ▸ hmem)
      obtain ⟨hrequests, hrequest⟩ := updateRequest_other hitem hne
      refine .inr ⟨id, hnew, List.mem_cons_of_mem _ hmem, ?_⟩
      exact ⟨hrequests.mp hcounts.known, hrequest ▸ hcounts.unfinished, hrequest ▸ hcounts.fresh,
        hcounts.loaded, hcounts.sampled⟩

/-- The counted drafts are those of the counted requests, as they stand before the update. -/
theorem mem_observedDrafts {draft : DraftToken} (h : draft ∈ observedDrafts cfg svc out mo s) :
    ∃ id drafts, out.scheduledSpecDecodeTokens.get? id = some drafts ∧ draft ∈ drafts ∧
      Counts cfg mo (s.failLoads cfg svc out mo).1 s id := by
  unfold observedDrafts at h
  cases hupdate : updateRequests cfg svc out mo s with
  | error _ =>
    rw [hupdate] at h
    exact absurd h List.not_mem_nil
  | ok pair =>
    rw [hupdate] at h
    obtain ⟨failed, u⟩ := pair
    simp only [updateRequests, bind_eq_ok, pure_eq_ok, Prod.mk.injEq] at hupdate
    obtain ⟨u', hloop, -, rfl⟩ := hupdate
    have hloads : s.LoadsFailed (s.failLoads cfg svc out mo).2 := by
      unfold State.failLoads
      split_ifs
      · exact handleInvalidBlocks_spec rfl
      · exact .refl s
    rcases foldlM_observedDrafts out.numScheduledTokens.nodup hloop h with hnone | ⟨id, hnew, -, hcounts⟩
    · exact absurd hnone List.not_mem_nil
    · unfold draftsOf at hnew
      cases hdrafts : out.scheduledSpecDecodeTokens.get? id with
      | none =>
        rw [hdrafts] at hnew
        exact absurd hnew List.not_mem_nil
      | some drafts =>
        rw [hdrafts] at hnew
        obtain ⟨computed, hsame⟩ := hloads.truncated id
        have hknown := hcounts.known
        have hunfinished := hcounts.unfinished
        have hfresh := hcounts.fresh
        change id ∈ (s.failLoads cfg svc out mo).2.requests at hknown
        change ((s.failLoads cfg svc out mo).2.request id).status.isFinished = false at hunfinished
        change ((s.failLoads cfg svc out mo).2.request id).numStaleOutputTokens ≤ 0 at hfresh
        rw [hloads.requests] at hknown
        rw [hsame] at hunfinished hfresh
        exact ⟨id, drafts, hdrafts, hnew, hknown, hunfinished, hfresh, hcounts.loaded, hcounts.sampled⟩

end Observed

/-- A batch without a decision keeps the depth; a decision is one about the depth before it. -/
theorem observeBatch_depth {c c' : AcceptanceLengthController} {o : Observation}
    {update : Option AcceptanceLengthUpdate} (h : c.observeBatch o = (c', .ok update)) :
    (update = none → c'.numSpecTokens = c.numSpecTokens) ∧
      ∀ decision, update = some decision → decision.previousNumSpecTokens = c.numSpecTokens := by
  unfold AcceptanceLengthController.observeBatch at h
  split_ifs at h
  · cases h
  · cases h
  · cases h
  · cases h
    exact ⟨fun _ => rfl, nofun⟩
  · obtain ⟨hdepth, -⟩ := AcceptanceLengthController.observePositions_keeps (c.count o) o
    cases hobserved : (c.count o).observePositions o with
    | mk observed outcome =>
      rw [hobserved] at h hdepth
      cases outcome with
      | error _ => cases h
      | ok _ =>
        dsimp only at h
        split_ifs at h
        · cases h
          exact ⟨fun _ => hdepth, nofun⟩
        · cases hdecided : observed.decide with
          | error _ =>
            rw [hdecided] at h
            cases h
          | ok pair =>
            obtain ⟨decided, decision⟩ := pair
            rw [hdecided] at h
            cases h
            refine ⟨nofun, ?_⟩
            intro decision' heq
            cases heq
            simp only [AcceptanceLengthController.decide, bind_eq_ok, pure_eq_ok,
              Prod.mk.injEq] at hdecided
            obtain ⟨_, -, _, -, _, -, _, -, _, -, -, rfl⟩ := hdecided
            exact hdepth

/-- Without a decision the controller stands where it stood, and a decision is one about
where it stood. -/
theorem UpdateParts.controller_depth {failed : List RequestId} {t : State σ} {u : UpdatePass σ}
    {update : Option AcceptanceLengthUpdate}
    (h : UpdateParts cfg svc out mo s failed t u update s') :
    (update = none → s'.acceptanceLengthController.map (·.numSpecTokens) =
        s.acceptanceLengthController.map (·.numSpecTokens)) ∧
      ∀ decision, update = some decision → ∃ c, s.acceptanceLengthController = some c ∧
        decision.previousNumSpecTokens = c.numSpecTokens := by
  obtain ⟨controller, hobserve, hsteady⟩ := h.steady_observed
  have hcontroller := h.steady_loop.controller
  rw [hsteady.controller]
  unfold UpdatePass.observeBatch at hobserve
  rw [hcontroller] at hobserve
  cases hc : s.acceptanceLengthController with
  | none =>
    rw [hc] at hobserve hcontroller
    simp only [Except.ok.injEq, Prod.mk.injEq] at hobserve
    obtain ⟨rfl, hu⟩ := hobserve
    have hnone := congrArg State.acceptanceLengthController hu
    rw [hcontroller] at hnone
    refine ⟨fun _ => ?_, nofun⟩
    dsimp only at hnone ⊢
    rw [← hnone]
  | some c =>
    rw [hc] at hobserve
    dsimp only at hobserve
    cases hbatch : c.observeBatch u.observation with
    | mk c' outcome =>
      rw [hbatch] at hobserve
      cases outcome with
      | error _ => cases hobserve
      | ok update' =>
        simp only [Except.ok.injEq, Prod.mk.injEq] at hobserve
        obtain ⟨rfl, hu⟩ := hobserve
        obtain ⟨hkept, hdecided⟩ := observeBatch_depth hbatch
        constructor
        · intro hnone
          have hsome := congrArg State.acceptanceLengthController hu
          dsimp only at hsome ⊢
          rw [← hsome, Option.map_some, Option.map_some, hkept hnone]
        · intro decision hdecision
          exact ⟨c, rfl, hdecided decision hdecision⟩

/-- Where an update counts the drafts of a request, they were made at the depth the controller
stands at. -/
def KeepsDepth (cfg : Config) (svc : Services σ) (e : Engine σ) : Action σ → Prop
  | .updateFromOutput mo => ∀ c, e.state.acceptanceLengthController = some c →
      ∀ f ∈ e.executed.head?, ∀ id, (f.out.scheduledSpecDecodeTokens.get? id).isSome = true →
        Counts cfg mo (e.state.failLoads cfg svc f.out mo).1 e.state id →
        f.DraftedAt id c.numSpecTokens
  | _ => True

theorem Engine.Reached.observed_atDepth {Q : Engine σ → Action σ → Prop} {e : Engine σ}
    {f : InFlight σ} {rest : List (InFlight σ)} (h : Engine.Reached cfg svc Q e)
    (hkeeps : KeepsDepth cfg svc e (.updateFromOutput mo)) (holdest : e.executed = f :: rest) :
    e.state.AtDepth (observedDrafts cfg svc f.out mo e.state) := by
  intro c hc draft hdraft
  obtain ⟨id, drafts, hdrafts, hmem, hcounts⟩ := mem_observedDrafts hdraft
  have hf : f ∈ e.inFlight := by
    unfold Engine.inFlight
    rw [holdest, List.cons_append]
    exact List.mem_cons_self
  have hmade : f.DraftedAt id c.numSpecTokens := by
    apply hkeeps c hc f _ id _ hcounts
    · rw [holdest]
      rfl
    · rw [hdrafts]
      rfl
  exact h.draftedAt f hf id drafts _ hdrafts hmade draft hmem

/-- The drafts counted since the last decision were made at the depth of the controller. -/
theorem Engine.Reached.window_atDepth {e : Engine σ}
    (h : Engine.Reached cfg svc (KeepsDepth cfg svc) e) : e.state.AtDepth e.window := by
  induction h with
  | start _ => exact fun _ _ => List.forall_mem_nil _
  | @act e e' a hreached hQ hact ih =>
    cases Engine.acts hact with
    | upkeep hsteady _ => exact ih.of_controller hsteady.controller
    | scheduled hstep =>
      obtain ⟨p, q, hpasses⟩ := schedule_passes hreached.queues hstep
      exact ih.of_controller (hpasses.controller hreached.queues)
    | filled => exact ih
    | executed _ => exact ih
    | @updated mo f rest update s holdest hstep =>
      cases update with
      | some decision => exact fun _ _ => List.forall_mem_nil _
      | none =>
        obtain ⟨failed, t, u, hparts⟩ := updateFromOutput_parts hstep
        have hcounted := ih.append (hreached.observed_atDepth hQ holdest)
        intro c hc draft hdraft
        have hdepth := hparts.controller_depth.1 rfl
        dsimp only at hc
        rw [hc, Option.map_some] at hdepth
        obtain ⟨c', hc', heq⟩ := Option.map_eq_some_iff.mp hdepth.symm
        rw [hcounted c' hc' draft hdraft, heq]

def twoDrafts : Config where
  maxNumRunningReqs := 4
  maxNumScheduledTokens := 100
  maxModelLen := 1000
  numSpecTokens := 2

/-- A controller that decides on every step, and has one depth. -/
def depthTwo : AcceptanceLengthController where
  maxNumSpecTokens := 2
  observationWindow := 1
  depthLadder := [2]
  numSpecTokens := 2
  positionEligible := [0, 0]
  positionAccepted := [0, 0]

example : AcceptanceLengthController.init 2 1 [2] = .ok depthTwo := rfl

def emptyWithController : State (List Bool) :=
  { emptyState [] with acceptanceLengthController := some depthTwo }

theorem emptyWithController_initial : emptyWithController.Initial :=
  ⟨rfl, rfl, rfl, rfl, rfl, fun _ => rfl⟩

/-- Whether an update that returns took a decision. -/
def decides (outcome : Except String (Option AcceptanceLengthUpdate × State σ)) : Bool :=
  match outcome with
  | .ok (some _, _) => true
  | _ => false

theorem exists_decision {outcome : Except String (Option AcceptanceLengthUpdate × State σ)}
    (h : decides outcome = true) : ∃ decision s', outcome = .ok (some decision, s') := by
  unfold decides at h
  split at h
  · exact ⟨_, _, rfl⟩
  · cases h

theorem keepsDepth_of_drafts {e : Engine σ} {f : InFlight σ} {rest : List (InFlight σ)}
    (holdest : e.executed = f :: rest) (ids : List RequestId)
    (hids : f.out.scheduledSpecDecodeTokens.items.map Prod.fst = ids)
    (hmade : ∀ c, e.state.acceptanceLengthController = some c → ∀ id ∈ ids,
      f.DraftedAt id c.numSpecTokens) : KeepsDepth cfg svc e (.updateFromOutput mo) := by
  intro c hc f' hf' id hid _
  rw [holdest] at hf'
  cases hf'
  obtain ⟨drafts, hdrafts⟩ := Option.isSome_iff_exists.mp hid
  apply hmade c hc
  rw [← hids]
  exact List.mem_map.mpr ⟨_, Keyed.get?_eq_some.mp hdrafts, rfl⟩

end ChampionRuntime.Scheduler
