import ChampionRuntime.Scheduler.PrefillBudget

/-!
# The turns of the long prefills go round

Every selected request is aged in its step, whatever becomes of it. Selection goes by age,
so those that were passed over come next.
-/
namespace ChampionRuntime.Scheduler

open Lib

variable {σ : Type} {cfg : Config} {svc : Services σ} {ctx : StepContext} {s₀ s s' : State σ}
  {p q p' : Pass σ} {id victim : RequestId} {n : ℤ} {throttlePrefills : Bool}
  {out : SchedulerOutput}

namespace State

instance (s : State σ) : Std.Total s.OlderOrEqual := by
  constructor
  intro a b
  unfold OlderOrEqual
  rcases lt_trichotomy (s.longPrefillAge a).1 (s.longPrefillAge b).1 with h | h | h
  · exact .inl (.inl h)
  · rcases le_total (s.longPrefillAge a).2 (s.longPrefillAge b).2 with h' | h'
    · exact .inl (.inr ⟨h, h'⟩)
    · exact .inr (.inr ⟨h.symm, h'⟩)
  · exact .inr (.inl h)

instance (s : State σ) : IsTrans RequestId s.OlderOrEqual := by
  constructor
  intro a b c hab hbc
  unfold OlderOrEqual at *
  rcases hab with hab | ⟨hab, hab'⟩
  · rcases hbc with hbc | ⟨hbc, -⟩
    · exact .inl (hab.trans hbc)
    · exact .inl (hab.trans_eq hbc)
  · rcases hbc with hbc | ⟨hbc, hbc'⟩
    · exact .inl (hab.trans_lt hbc)
    · exact .inr ⟨hab.trans hbc, hab'.trans hbc'⟩

theorem perm_byAge (s : State σ) (ids : List RequestId) : (s.byAge ids).Perm ids :=
  List.perm_insertionSort _ _

theorem older_of_not_mem_take (s : State σ) {ids : List RequestId} {m : ℕ} (hid : id ∈ ids)
    (hnot : id ∉ (s.byAge ids).take m) :
    ((s.byAge ids).take m).length = m ∧ ∀ x ∈ (s.byAge ids).take m, s.OlderOrEqual x id := by
  have hsorted : (s.byAge ids).Pairwise s.OlderOrEqual := List.pairwise_insertionSort _ _
  have hmem : id ∈ (s.byAge ids).take m ++ (s.byAge ids).drop m := by
    rw [List.take_append_drop]
    exact (s.perm_byAge ids).mem_iff.mpr hid
  have hdrop := (List.mem_append.mp hmem).resolve_left hnot
  constructor
  · have hlong := List.length_pos_of_mem hdrop
    rw [List.length_drop] at hlong
    rw [List.length_take]
    omega
  · rw [← List.take_append_drop m (s.byAge ids), List.pairwise_append] at hsorted
    exact fun x hx => hsorted.2.2 x hx id hdrop

variable (cfg)

theorem mem_selected (s : State σ) (hid : id ∈ (s.selectLongPrefillRequestIds cfg).1) :
    (id ∈ s.running ∨ id ∈ s.waiting ++ s.skippedWaiting) ∧
      isLongPrefillRequest cfg (s.request id) = true := by
  unfold selectLongPrefillRequestIds at hid
  split_ifs at hid
  · exact absurd hid List.not_mem_nil
  · extract_lets runningCandidates waitingCandidates pruned admittable keep candidates at hid
    have hmem := (perm_byAge pruned candidates).mem_iff.mp (List.mem_of_mem_take hid)
    rcases List.mem_append.mp hmem with hrunning | hwaiting
    · obtain ⟨hin, hlong⟩ := List.mem_filter.mp hrunning
      exact ⟨.inl hin, hlong⟩
    · have hcandidate := List.mem_eraseDups.mp (List.mem_filter.mp hwaiting).1
      obtain ⟨hin, hlong⟩ := List.mem_filter.mp hcandidate
      exact ⟨.inr hin, (of_decide_eq_true hlong).2⟩

theorem selected_of_no_waiting (s : State σ) (haware : cfg.enableDecodeAwarePrefill = true)
    (hnone : ∀ id ∈ s.waiting ++ s.skippedWaiting, isLongPrefillRequest cfg (s.request id) = false) :
    (s.selectLongPrefillRequestIds cfg).1 =
      ((s.selectLongPrefillRequestIds cfg).2.byAge
        (s.running.filter fun id => isLongPrefillRequest cfg (s.request id))).take
          cfg.maxLongPrefillsPerStep := by
  unfold selectLongPrefillRequestIds
  rw [if_neg (by simp [haware])]
  extract_lets runningCandidates waitingCandidates pruned admittable keep candidates
  have hwaiting : waitingCandidates = [] := by
    rw [List.eq_nil_iff_forall_not_mem]
    intro id hid
    obtain ⟨hin, hlong⟩ := List.mem_filter.mp (List.mem_eraseDups.mp hid)
    rw [hnone id hin] at hlong
    simp at hlong
  have hcandidates : candidates = runningCandidates := by
    show runningCandidates ++ waitingCandidates.filter _ = _
    rw [hwaiting, List.filter_nil, List.append_nil]
  rw [hcandidates]

/-- The turns behind the selection: those of requests that are gone are forgotten. -/
theorem selected_turns (s : State σ) (haware : cfg.enableDecodeAwarePrefill = true)
    (id : RequestId) : (s.selectLongPrefillRequestIds cfg).2.longPrefillLastScheduled id =
      if id ∈ s.requests then s.longPrefillLastScheduled id else none := by
  unfold selectLongPrefillRequestIds
  rw [if_neg (by simp [haware])]

end State

theorem isPrefillChunk_of_isLong {r : Request} (hstatus : r.status = .running)
    (hlong : isLongPrefillRequest cfg r = true) : r.isPrefillChunk = true := by
  unfold isLongPrefillRequest at hlong
  rw [if_pos hstatus] at hlong
  split_ifs at hlong
  exact hlong

/-- What a pass has made of the turns that the step began with. -/
structure TurnsInv (cfg : Config) (ctx : StepContext) (s₀ : State σ)
    (turns : RequestId → Option ℕ) (p : Pass σ) : Prop where
  currentStep : p.currentStep = s₀.currentStep + 1
  pauseState : p.pauseState = s₀.pauseState
  aged : ∀ id ∈ ctx.selectedLongPrefillIds, p.numScheduledTokens.get? id ≠ none →
    p.longPrefillLastScheduled id = some p.currentStep
  moved : ∀ id, p.longPrefillLastScheduled id = turns id ∨
    p.longPrefillLastScheduled id = some p.currentStep
  held : ∀ id ∈ s₀.running, isLongPrefillRequest cfg (s₀.request id) = true →
    id ∉ ctx.selectedLongPrefillIds → p.longPrefillLastScheduled id = turns id

variable {turns : RequestId → Option ℕ}

theorem TurnsInv.same (h : TurnsInv cfg ctx s₀ turns p) (hsame : p.SameLedger q) :
    TurnsInv cfg ctx s₀ turns q where
  currentStep := hsame.steady.currentStep.trans h.currentStep
  pauseState := hsame.pauseState.trans h.pauseState
  aged := by
    rw [hsame.tokens, hsame.steady.turns, hsame.steady.currentStep]
    exact h.aged
  moved := by
    rw [hsame.steady.turns, hsame.steady.currentStep]
    exact h.moved
  held := by
    rw [hsame.steady.turns]
    exact h.held

theorem TurnsInv.takesBack (h : TurnsInv cfg ctx s₀ turns p) (htaken : p.TakesBack q victim) :
    TurnsInv cfg ctx s₀ turns q where
  currentStep := htaken.steady.currentStep.trans h.currentStep
  pauseState := htaken.pauseState.trans h.pauseState
  aged := by
    intro id hid hn
    rw [htaken.tokens, Keyed.get?_erase] at hn
    rw [htaken.steady.turns, htaken.steady.currentStep]
    apply h.aged id hid
    intro hnone
    apply hn
    rw [hnone, ite_self]
  moved := by
    rw [htaken.steady.turns, htaken.steady.currentStep]
    exact h.moved
  held := by
    rw [htaken.steady.turns]
    exact h.held

/-- A booking ages a long prefill, and is of no unselected one that ran before the step. -/
theorem TurnsInv.books {asPrefill : Bool} (h : TurnsInv cfg ctx s₀ turns p)
    (hbooks : p.Books cfg q id n asPrefill)
    (hselected : id ∈ ctx.selectedLongPrefillIds →
      asPrefill = true ∧ isLongPrefillRequest cfg (p.request id) = true)
    (hgate : id ∈ s₀.running → isLongPrefillRequest cfg (s₀.request id) = true →
      id ∈ ctx.selectedLongPrefillIds) : TurnsInv cfg ctx s₀ turns q := by
  have hother : ∀ id', id' ≠ id →
      q.longPrefillLastScheduled id' = p.longPrefillLastScheduled id' := by
    intro id' hne
    rw [hbooks.turns]
    split_ifs
    · exact Function.update_of_ne hne _ _
    · rfl
  have hself : q.longPrefillLastScheduled id = some p.currentStep ∨
      q.longPrefillLastScheduled id = p.longPrefillLastScheduled id := by
    rw [hbooks.turns]
    split_ifs
    · exact .inl (Function.update_self _ _ _)
    · exact .inr rfl
  refine ⟨hbooks.currentStep.trans h.currentStep, hbooks.pauseState.trans h.pauseState, ?_, ?_, ?_⟩
  · intro id' hid' hn
    rw [hbooks.currentStep]
    by_cases heq : id' = id
    · subst heq
      rw [hbooks.turns, if_pos (hselected hid'), Function.update_self]
    · rw [hbooks.tokens, Keyed.get?_set, if_neg heq] at hn
      rw [hother id' heq]
      exact h.aged id' hid' hn
  · intro id'
    rw [hbooks.currentStep]
    by_cases heq : id' = id
    · rw [heq]
      rcases hself with hself | hself
      · exact .inr hself
      · rw [hself]
        exact h.moved id
    · rw [hother id' heq]
      exact h.moved id'
  · intro id' hrunning hlong hunselected
    have hne : id' ≠ id := by
      intro heq
      rw [heq] at hrunning hlong hunselected
      exact hunselected (hgate hrunning hlong)
    rw [hother id' hne]
    exact h.held id' hrunning hlong hunselected

theorem TurnsInv.evictions {es : List (Pass σ)} (h : TurnsInv cfg ctx s₀ turns p)
    (hroom : Evictions cfg svc ctx s₀ es p q) : TurnsInv cfg ctx s₀ turns q := by
  induction hroom with
  | nil hsame => exact h.same hsame
  | cons hsame _ hevict _ ih =>
    apply ih
    rcases evict_ledger hevict with heq | ⟨-, htaken⟩
    · exact (h.same hsame).same heq
    · exact (h.same hsame).takesBack htaken

section Turns

variable (haware : cfg.enableDecodeAwarePrefill = true)
  (hlong : ∀ id ∈ ctx.selectedLongPrefillIds, isLongPrefillRequest cfg (s₀.request id) = true)

include haware hlong

theorem TurnsInv.runningTurn (h : TurnsInv cfg ctx s₀ turns p)
    (hturn : RunningTurn cfg svc ctx s₀ id p p') : TurnsInv cfg ctx s₀ turns p' := by
  cases hturn with
  | passed hsame => exact h.same hsame
  | refused hroom => exact h.evictions hroom
  | booked hroom hinv hgate _ _ =>
    have hmem := List.mem_of_mem_take hinv.here
    have hfresh := hinv.unchanged id hmem hinv.unscheduled
    apply (h.evictions hroom).books (commitRunning_books _ _ _)
    · intro hselected
      have hid := hlong id hselected
      rw [← hfresh] at hid
      have hchunk := isPrefillChunk_of_isLong (hinv.queues.running id hmem) hid
      exact ⟨decide_eq_true ⟨haware, hchunk⟩, hid⟩
    · intro _ hid
      rw [← hfresh] at hid
      by_contra hunselected
      simp [gated, haware, hid, hunselected] at hgate

theorem TurnsInv.waitingTurn (h : TurnsInv cfg ctx s₀ turns p) (hinv : WaitInv cfg ctx s₀ p)
    (huntouched : Untouched s₀ p) (hid : id ∈ p.waiting ++ p.skippedWaiting)
    (hturn : WaitingTurn cfg ctx id p p') : TurnsInv cfg ctx s₀ turns p' := by
  cases hturn with
  | kept hsame => exact h.same hsame
  | booked hsame hkept hbooks _ _ =>
    apply (h.same hsame).books hbooks
    · intro hselected
      refine ⟨haware, hkept ?_⟩
      rw [huntouched id hid]
      exact hlong id hselected
    · intro hold
      exact absurd (List.mem_append_left _ hid) (hinv.queues.not_mem_queued (hinv.old id hold))

end Turns

def selectedInStep (cfg : Config) (throttlePrefills : Bool) (s : State σ) : List RequestId :=
  (beginStep cfg throttlePrefills s).1.selectedLongPrefillIds

structure StepTurns (cfg : Config) (throttlePrefills : Bool) (s s' : State σ) : Prop where
  currentStep : s'.currentStep = s.currentStep + 1
  aged : deferPrefills throttlePrefills s = false → s.pauseState ≠ .pausedAll →
    ∀ id ∈ selectedInStep cfg throttlePrefills s,
      s'.longPrefillLastScheduled id = some s'.currentStep
  moved : ∀ id, s'.longPrefillLastScheduled id =
      (if id ∈ s.requests then s.longPrefillLastScheduled id else none) ∨
    s'.longPrefillLastScheduled id = some s'.currentStep
  held : ∀ id ∈ s.running, isLongPrefillRequest cfg (s.request id) = true →
    id ∉ selectedInStep cfg throttlePrefills s →
    s'.longPrefillLastScheduled id = s.longPrefillLastScheduled id

theorem beginStep_turns (haware : cfg.enableDecodeAwarePrefill = true) (throttlePrefills : Bool)
    (s : State σ) (id : RequestId) :
    (beginStep cfg throttlePrefills s).2.longPrefillLastScheduled id =
      if id ∈ s.requests then s.longPrefillLastScheduled id else none :=
  State.selected_turns cfg { s with currentStep := s.currentStep + 1 } haware id

theorem StepPasses.turnsInv (h : StepPasses cfg svc throttlePrefills s p q out s')
    (hqueues : WellQueued [] s) (haware : cfg.enableDecodeAwarePrefill = true) :
    TurnsInv cfg (beginStep cfg throttlePrefills s).1 s
      (beginStep cfg throttlePrefills s).2.longPrefillLastScheduled q := by
  have hlong : ∀ id ∈ (beginStep cfg throttlePrefills s).1.selectedLongPrefillIds,
      isLongPrefillRequest cfg (s.request id) = true := by
    intro id hid
    exact (State.mem_selected cfg { s with currentStep := s.currentStep + 1 } hid).2
  obtain ⟨turns, hturns⟩ := selectLongPrefillRequestIds_state cfg
    { s with currentStep := s.currentStep + 1 }
  have hstate : (beginStep cfg throttlePrefills s).2.toState =
      { s with currentStep := s.currentStep + 1, longPrefillLastScheduled := turns } := hturns
  have hbegin : TurnsInv cfg (beginStep cfg throttlePrefills s).1 s
      (beginStep cfg throttlePrefills s).2.longPrefillLastScheduled
      (beginStep cfg throttlePrefills s).2 := by
    refine ⟨?_, ?_, ?_, fun _ => .inl rfl, fun _ _ _ _ => rfl⟩
    · rw [hstate]
    · rw [hstate]
    · intro id _ hn
      exact absurd rfl hn
  have hrunning := (scheduleRunning_keeps (G := fun _ => True) (fun _ _ h => h.same)
    (fun _ _ _ _ h hturn _ => h.runningTurn haware hlong hturn) (beginStep_spec hqueues) hbegin
    (fun _ _ => trivial)).2 p h.ran
  exact (scheduleWaiting_keeps (fun _ _ h => h.same)
    (fun _ _ _ hwait huntouched hid h hturn =>
      h.waitingTurn haware hlong hwait huntouched hid hturn) h.running hrunning).2 q h.waited

theorem StepPasses.debited (h : StepPasses cfg svc throttlePrefills s p q out s')
    (hstep : schedule cfg svc throttlePrefills s = .ok (out, s')) :
    s' = (q.toState.debitUnusedLongPrefillTurns cfg (selectedInStep cfg throttlePrefills s)
      q.numScheduledTokens (deferPrefills throttlePrefills s)).updateAfterSchedule
        q.numScheduledTokens := by
  have hloops : runLoops cfg svc throttlePrefills s =
      .ok ((beginStep cfg throttlePrefills s).1, q) := by
    simp only [runLoops, bind_eq_ok, pure_eq_ok]
    exact ⟨p, h.ran, q, h.waited, rfl⟩
  simp only [schedule, bind_eq_ok, pure_eq_ok, Prod.mk.injEq] at hstep
  obtain ⟨⟨ctx, q'⟩, hran, -, -, -, -, -, hs'⟩ := hstep
  rw [hloops] at hran
  cases hran
  exact hs'.symm

theorem StepPasses.stepTurns (h : StepPasses cfg svc throttlePrefills s p q out s')
    (hstep : schedule cfg svc throttlePrefills s = .ok (out, s')) (hqueues : WellQueued [] s)
    (haware : cfg.enableDecodeAwarePrefill = true) : StepTurns cfg throttlePrefills s s' := by
  have hq := h.turnsInv hqueues haware
  have hs' := h.debited hstep
  obtain ⟨wasted, turns, hdebit⟩ := debitUnusedLongPrefillTurns_state cfg q.toState
    (selectedInStep cfg throttlePrefills s) q.numScheduledTokens (deferPrefills throttlePrefills s)
  have hcurrent : s'.currentStep = q.currentStep := by
    rw [hs', hdebit]
    rfl
  -- the debit ages those selected that have no tokens, or none
  have hturns : ∀ id, s'.longPrefillLastScheduled id = q.longPrefillLastScheduled id ∨
      id ∈ selectedInStep cfg throttlePrefills s ∧
        s'.longPrefillLastScheduled id = some q.currentStep := by
    intro id
    rw [hs']
    unfold State.debitUnusedLongPrefillTurns State.updateAfterSchedule
    split_ifs
    · exact .inl rfl
    · exact .inl rfl
    · dsimp only
      split_ifs with hunused
      · exact .inr ⟨List.mem_of_mem_filter hunused, rfl⟩
      · exact .inl rfl
  refine ⟨hcurrent.trans hq.currentStep, ?_, ?_, ?_⟩
  · intro hdefer hpause id hid
    rw [hcurrent]
    cases hn : q.numScheduledTokens.get? id with
    | some n =>
      have haged := hq.aged id hid (by rw [hn]; exact Option.some_ne_none n)
      rcases hturns id with heq | ⟨-, heq⟩
      · exact heq.trans haged
      · exact heq
    | none =>
      rw [hs']
      unfold State.debitUnusedLongPrefillTurns
      rw [if_neg, if_neg]
      · show (if id ∈ _ then some q.currentStep else _) = _
        rw [if_pos]
        rw [List.mem_filter, hn]
        exact ⟨hid, rfl⟩
      · rw [hdefer, hq.pauseState]
        simp [hpause]
      · have hne := List.ne_nil_of_mem hid
        simp [haware, hne]
  · intro id
    rw [← beginStep_turns haware throttlePrefills s id, hcurrent]
    rcases hturns id with heq | ⟨-, heq⟩
    · rw [heq]
      exact hq.moved id
    · exact .inr heq
  · intro id hid hlong hunselected
    rcases hturns id with heq | ⟨hselected, -⟩
    · rw [heq, hq.held id hid hlong hunselected, beginStep_turns haware,
        if_pos (hqueues.registered id (List.mem_append_left _ hid))]
    · exact absurd hselected hunselected

/-- The step an action schedules, with the state it starts in. -/
def Action.schedules (e : Engine σ) : Action σ → List (Bool × State σ)
  | .schedule throttlePrefills => [(throttlePrefills, e.state)]
  | _ => []

/-- A part of a run, with the steps that it schedules. -/
inductive Engine.Runs (cfg : Config) (svc : Services σ) :
    List (Bool × State σ) → Engine σ → Engine σ → Prop
  | refl (e : Engine σ) : Runs cfg svc [] e e
  | act {e e₁ e' : Engine σ} {a : Action σ} {steps : List (Bool × State σ)}
      (hact : e.act cfg svc a = .ok e₁)
      (hrest : Runs cfg svc steps e₁ e') : Runs cfg svc (a.schedules e ++ steps) e e'

variable {e e' : Engine σ} {a : Action σ} {Q : Engine σ → Action σ → Prop}

theorem Engine.act_turns (hqueues : WellQueued [] e.state) (haware : cfg.enableDecodeAwarePrefill = true)
    (hact : e.act cfg svc a = .ok e') :
    (∃ throttlePrefills, a = .schedule throttlePrefills ∧
      StepTurns cfg throttlePrefills e.state e'.state) ∨
    a.schedules e = [] ∧ e'.state.currentStep = e.state.currentStep ∧
      e'.state.longPrefillLastScheduled = e.state.longPrefillLastScheduled := by
  by_cases hschedule : ∃ throttlePrefills, a = .schedule throttlePrefills
  · obtain ⟨throttlePrefills, rfl⟩ := hschedule
    simp only [act, bind_eq_ok, pure_eq_ok] at hact
    obtain ⟨⟨out, s⟩, hstep, rfl⟩ := hact
    obtain ⟨p, q, hpasses⟩ := schedule_passes hqueues hstep
    exact .inl ⟨throttlePrefills, rfl, hpasses.stepTurns hstep hqueues haware⟩
  · have hnone : a.schedules e = [] := by
      cases a with
      | schedule throttlePrefills => exact absurd ⟨throttlePrefills, rfl⟩ hschedule
      | _ => rfl
    refine .inr ⟨hnone, ?_⟩
    cases Engine.acts hact with
    | upkeep hsteady _ => exact ⟨hsteady.currentStep, hsteady.turns⟩
    | scheduled _ => exact absurd ⟨_, rfl⟩ hschedule
    | filled => exact ⟨rfl, rfl⟩
    | executed _ => exact ⟨rfl, rfl⟩
    | updated _ hstep =>
      obtain ⟨failed, t, u, hparts⟩ := updateFromOutput_parts hstep
      exact hparts.turns

theorem Engine.Reached.turns_le (h : Engine.Reached cfg svc Q e)
    (haware : cfg.enableDecodeAwarePrefill = true) (id : RequestId) (step : ℕ)
    (hstep : e.state.longPrefillLastScheduled id = some step) : step ≤ e.state.currentStep := by
  induction h generalizing step with
  | start hinitial =>
    rw [hinitial.turns id] at hstep
    cases hstep
  | act hreached _ hact ih =>
    rcases Engine.act_turns hreached.queues haware hact with ⟨_, -, hturns⟩ | ⟨-, hcurrent, hturns⟩
    · rw [hturns.currentStep]
      rcases hturns.moved id with hmoved | hmoved
      · rw [hmoved] at hstep
        split_ifs at hstep
        exact (ih step hstep).trans (Nat.le_succ _)
      · rw [hmoved, hturns.currentStep] at hstep
        exact (Option.some.inj hstep).ge
    · rw [hturns] at hstep
      rw [hcurrent]
      exact ih step hstep

theorem longPrefillAge_eq (h : s'.longPrefillLastScheduled id = s.longPrefillLastScheduled id) :
    (s'.longPrefillAge id).1 = (s.longPrefillAge id).1 := by
  unfold State.longPrefillAge
  rw [h]

theorem longPrefillAge_some {step : ℕ} (h : s.longPrefillLastScheduled id = some step) :
    (s.longPrefillAge id).1 = step := by
  unfold State.longPrefillAge
  rw [h]

/-- A step in which these are the long prefills: all run, and none waits. -/
structure RotationStep (cfg : Config) (longs : Finset RequestId) (step : Bool × State σ) : Prop where
  undeferred : deferPrefills step.1 step.2 = false
  unpaused : step.2.pauseState ≠ .pausedAll
  running : ∀ id, id ∈ longs ↔
    id ∈ step.2.running ∧ isLongPrefillRequest cfg (step.2.request id) = true
  waiting : ∀ id ∈ step.2.waiting ++ step.2.skippedWaiting,
    isLongPrefillRequest cfg (step.2.request id) = false

variable {longs : Finset RequestId}

/-- One that is passed over is passed over for as many as there are turns, none younger. -/
theorem RotationStep.passed_over (h : RotationStep cfg longs (throttlePrefills, s))
    (hqueues : WellQueued [] s) (haware : cfg.enableDecodeAwarePrefill = true) (hid : id ∈ longs)
    (hnot : id ∉ selectedInStep cfg throttlePrefills s) :
    (selectedInStep cfg throttlePrefills s).toFinset.card = cfg.maxLongPrefillsPerStep ∧
      ∀ x ∈ selectedInStep cfg throttlePrefills s,
        x ∈ longs ∧ (s.longPrefillAge x).1 ≤ (s.longPrefillAge id).1 := by
  have hselected : selectedInStep cfg throttlePrefills s =
      ((beginStep cfg throttlePrefills s).2.byAge
        (s.running.filter fun id => isLongPrefillRequest cfg (s.request id))).take
          cfg.maxLongPrefillsPerStep :=
    State.selected_of_no_waiting cfg { s with currentStep := s.currentStep + 1 } haware h.waiting
  have hlongs : ∀ x, x ∈ s.running.filter (fun id => isLongPrefillRequest cfg (s.request id)) ↔
      x ∈ longs := by
    intro x
    rw [List.mem_filter]
    exact (h.running x).symm
  have hage : ∀ x ∈ longs, ((beginStep cfg throttlePrefills s).2.longPrefillAge x).1 =
      (s.longPrefillAge x).1 := by
    intro x hx
    have hrunning := ((h.running x).mp hx).1
    apply longPrefillAge_eq
    rw [beginStep_turns haware, if_pos (hqueues.registered x (List.mem_append_left _ hrunning))]
  rw [hselected] at hnot ⊢
  obtain ⟨hlength, holder⟩ := State.older_of_not_mem_take _ ((hlongs id).mpr hid) hnot
  have hperm := (beginStep cfg throttlePrefills s).2.perm_byAge
    (s.running.filter fun id => isLongPrefillRequest cfg (s.request id))
  constructor
  · have hnodup := hperm.nodup_iff.mpr (hqueues.nodup_running.filter _)
    rw [List.toFinset_card_of_nodup (hnodup.sublist (List.take_sublist _ _)), hlength]
  · intro x hx
    have hmem := (hlongs x).mp (hperm.mem_iff.mp (List.mem_of_mem_take hx))
    refine ⟨hmem, ?_⟩
    rw [← hage x hmem, ← hage id hid]
    rcases holder x hx with hlt | ⟨heq, -⟩
    · exact hlt.le
    · exact heq.le

/-- While one is passed over, every step turns to as many others, and to none of them twice.
`turned` are those that had a turn since step `first`. -/
theorem Engine.Runs.turned_card {steps : List (Bool × State σ)}
    (hrun : Engine.Runs cfg svc steps e e') (hqueues : WellQueued [] e.state)
    (haware : cfg.enableDecodeAwarePrefill = true) (hid : id ∈ longs) {first : ℕ}
    (turned : Finset RequestId) (hfirst : first ≤ e.state.currentStep)
    (hturned : turned ⊆ longs.erase id)
    (hyoung : ∀ x ∈ turned, (first : ℤ) < (e.state.longPrefillAge x).1)
    (hold : (e.state.longPrefillAge id).1 ≤ first)
    (hsteps : ∀ step ∈ steps, RotationStep cfg longs step)
    (hnever : ∀ step ∈ steps, id ∉ selectedInStep cfg step.1 step.2) :
    turned.card + steps.length * cfg.maxLongPrefillsPerStep ≤ (longs.erase id).card := by
  induction hrun generalizing turned with
  | refl e =>
    rw [List.length_nil, Nat.zero_mul, Nat.add_zero]
    exact Finset.card_le_card hturned
  | @act e e₁ e'' a steps hact hrest ih =>
    have hqueues' := Engine.act_queues hqueues hact
    rcases Engine.act_turns hqueues haware hact with
      ⟨throttlePrefills, rfl, hturns⟩ | ⟨hnone, hcurrent, hturns⟩
    · rw [Action.schedules, List.singleton_append, List.forall_mem_cons] at hsteps hnever
      have hstep := hsteps.1
      have hnot := hnever.1
      obtain ⟨hcard, holder⟩ := hstep.passed_over hqueues haware hid hnot
      have hrunning := (hstep.running id).mp hid
      have hage := longPrefillAge_eq (hturns.held id hrunning.1 hrunning.2 hnot)
      have hnew : ∀ x ∈ selectedInStep cfg throttlePrefills e.state,
          (first : ℤ) < (e₁.state.longPrefillAge x).1 := by
        intro x hx
        have haged := hturns.aged hstep.undeferred hstep.unpaused x hx
        rw [longPrefillAge_some haged, hturns.currentStep]
        omega
      have hdisjoint : Disjoint turned (selectedInStep cfg throttlePrefills e.state).toFinset := by
        rw [Finset.disjoint_left]
        intro x hx hselected
        have hle := (holder x (List.mem_toFinset.mp hselected)).2
        have hlt := hyoung x hx
        omega
      have hmore := ih hqueues' (turned ∪ (selectedInStep cfg throttlePrefills e.state).toFinset)
        ?_ ?_ ?_ ?_ hsteps.2 hnever.2
      · rw [Finset.card_union_of_disjoint hdisjoint, hcard] at hmore
        rw [Action.schedules, List.singleton_append, List.length_cons, Nat.succ_mul]
        omega
      · rw [hturns.currentStep]
        exact hfirst.trans (Nat.le_succ _)
      · apply Finset.union_subset hturned
        intro x hx
        have hselected := List.mem_toFinset.mp hx
        rw [Finset.mem_erase]
        refine ⟨?_, (holder x hselected).1⟩
        intro heq
        exact hnot (heq ▸ hselected)
      · intro x hx
        rcases Finset.mem_union.mp hx with hx | hx
        · have hlong := Finset.mem_of_mem_erase (hturned hx)
          have hregistered := hqueues.registered x
            (List.mem_append_left _ ((hstep.running x).mp hlong).1)
          rcases hturns.moved x with hmoved | hmoved
          · rw [if_pos hregistered] at hmoved
            rw [longPrefillAge_eq hmoved]
            exact hyoung x hx
          · rw [longPrefillAge_some hmoved, hturns.currentStep]
            omega
        · exact hnew x (List.mem_toFinset.mp hx)
      · rw [hage]
        exact hold
    · rw [hnone, List.nil_append] at hsteps hnever ⊢
      have hage : ∀ x, (e₁.state.longPrefillAge x).1 = (e.state.longPrefillAge x).1 :=
        fun x => longPrefillAge_eq (congrFun hturns x)
      apply ih hqueues' turned _ hturned _ _ hsteps hnever
      · rw [hcurrent]
        exact hfirst
      · intro x hx
        rw [hage x]
        exact hyoung x hx
      · rw [hage id]
        exact hold

/-- Over every run: the selected requests of a step are aged in it, and while the same long
prefills run and none waits, each of them has a turn in as many steps as it takes to give
every one of them a turn. -/
theorem long_prefill_rotation (hreached : Engine.Reached cfg svc Q e)
    (haware : cfg.enableDecodeAwarePrefill = true) (hone : 1 ≤ cfg.maxLongPrefillsPerStep) :
    (∀ throttlePrefills out s',
      deferPrefills throttlePrefills e.state = false → e.state.pauseState ≠ .pausedAll →
      schedule cfg svc throttlePrefills e.state = .ok (out, s') →
      ∀ id ∈ selectedInStep cfg throttlePrefills e.state,
        s'.longPrefillLastScheduled id = some s'.currentStep) ∧
    ∀ (longs : Finset RequestId) (steps : List (Bool × State σ)) (e' : Engine σ),
      Engine.Runs cfg svc steps e e' → (∀ step ∈ steps, RotationStep cfg longs step) →
      (longs.card + cfg.maxLongPrefillsPerStep - 1) / cfg.maxLongPrefillsPerStep ≤ steps.length →
      ∀ id ∈ longs, ∃ step ∈ steps, id ∈ selectedInStep cfg step.1 step.2 := by
  constructor
  · intro throttlePrefills out s' hdefer hpause hstep
    obtain ⟨p, q, hpasses⟩ := schedule_passes hreached.queues hstep
    exact (hpasses.stepTurns hstep hreached.queues haware).aged hdefer hpause
  · intro longs steps e' hrun hsteps hlength id hid
    by_contra hnever
    push Not at hnever
    have hold : (e.state.longPrefillAge id).1 ≤ e.state.currentStep := by
      unfold State.longPrefillAge
      cases hturn : e.state.longPrefillLastScheduled id with
      | none =>
        dsimp only
        omega
      | some step =>
        dsimp only
        exact_mod_cast hreached.turns_le haware id step hturn
    have hcard := hrun.turned_card hreached.queues haware hid ∅ le_rfl (Finset.empty_subset _)
      (fun x hx => absurd hx (Finset.notMem_empty x)) hold hsteps hnever
    rw [Finset.card_empty, zero_add, Finset.card_erase_of_mem hid] at hcard
    have hpos : 0 < longs.card := Finset.card_pos.mpr ⟨id, hid⟩
    have hlt := (Nat.div_lt_iff_lt_mul hone).mp (Nat.lt_succ_of_le hlength)
    rw [Nat.succ_mul] at hlt
    omega

/-- Two long prefills with one turn a step: each has one in two steps. -/
theorem long_prefill_rotation_two :
    ∃ (e e' : Engine (List Bool)) (steps : List (Bool × State (List Bool))),
      Engine.Runs sixteenTokens .scripted steps e e' ∧ steps.length = 2 ∧
      ∀ id ∈ ({"b", "c"} : Finset RequestId), ∃ step ∈ steps,
        id ∈ selectedInStep sixteenTokens step.1 step.2 := by
  have hstart : Engine.Reached sixteenTokens .scripted (fun _ _ => True)
      { state := emptyState [] } := .start (emptyState_initial [])
  have hfirst := hstart.act (a := .addRequest "b" (prompt 100) none) trivial rfl
  have halone := hfirst.act (a := .schedule false) trivial rfl
  have hran := halone.act (a := .execute) trivial rfl
  have hchunk := hran.act (a := .updateFromOutput (samplingFor [])) trivial rfl
  have hsecond := hchunk.act (a := .addRequest "c" (prompt 100) none) trivial rfl
  have hboth := hsecond.act (a := .schedule false) trivial rfl
  have hranBoth := hboth.act (a := .execute) trivial rfl
  have hchunks := hranBoth.act (a := .updateFromOutput (samplingFor [])) trivial rfl
  have hlongs : ∀ s : State (List Bool), deferPrefills false s = false →
      s.pauseState ≠ .pausedAll → s.running = ["b", "c"] →
      (∀ id ∈ ["b", "c"], isLongPrefillRequest sixteenTokens (s.request id) = true) →
      s.waiting ++ s.skippedWaiting = [] → RotationStep sixteenTokens {"b", "c"} (false, s) := by
    intro s hdefer hpause hrunning hlong hwaiting
    refine ⟨hdefer, hpause, ?_, ?_⟩
    · intro id
      dsimp only
      rw [hrunning, Finset.mem_insert, Finset.mem_singleton, List.mem_pair]
      exact ⟨fun hid => ⟨hid, hlong id (List.mem_pair.mpr hid)⟩, fun h => h.1⟩
    · dsimp only
      rw [hwaiting]
      exact List.forall_mem_nil _
  obtain ⟨e, hreached, hfirst, e₁, hone, e₂, htwo, e₃, hthree, hsecond, e₄, hfour⟩ :
      ∃ e, Engine.Reached sixteenTokens .scripted (fun _ _ => True) e ∧
        RotationStep sixteenTokens {"b", "c"} (false, e.state) ∧
        ∃ e₁, e.act sixteenTokens .scripted (.schedule false) = .ok e₁ ∧
        ∃ e₂, e₁.act sixteenTokens .scripted .execute = .ok e₂ ∧
        ∃ e₃, e₂.act sixteenTokens .scripted (.updateFromOutput (samplingFor [])) = .ok e₃ ∧
        RotationStep sixteenTokens {"b", "c"} (false, e₃.state) ∧
        ∃ e₄, e₃.act sixteenTokens .scripted (.schedule false) = .ok e₄ :=
    ⟨_, hchunks, hlongs _ rfl (by decide) rfl (by decide) rfl, _, rfl, _, rfl, _, rfl,
      hlongs _ rfl (by decide) rfl (by decide) rfl, _, rfl⟩
  have hruns := Engine.Runs.act hone (.act htwo (.act hthree (.act hfour (.refl e₄))))
  refine ⟨e, e₄, _, hruns, rfl, ?_⟩
  apply (long_prefill_rotation hreached rfl (by decide)).2 _ _ _ hruns
  · intro step hstep
    have hcases : step = (false, e.state) ∨ step = (false, e₃.state) := List.mem_pair.mp hstep
    rcases hcases with rfl | rfl
    · exact hfirst
    · exact hsecond
  · have hcard : ({"b", "c"} : Finset RequestId).card = 2 := by decide
    rw [hcard]
    show 2 ≤ 2
    exact Nat.le_refl 2

end ChampionRuntime.Scheduler
