import ChampionRuntime.Scheduler.Ledger
import ChampionRuntime.Scheduler.DraftFit

/-!
# The prefill budget

A pass counts the prefill tokens it gave out. A preemption takes back the tokens of its
victim, and gives back the token budget, but not the prefill tokens. The encoder budget is
given back as well, and lost again when the preemption makes room for a request with encoder
inputs of its own: the budget that is left to those was fixed before.
-/
namespace ChampionRuntime.Scheduler

open Lib

variable {σ : Type} {cfg : Config} {svc : Services σ} {ctx : StepContext} {s₀ : State σ}
  {p q p' : Pass σ} {id victim : RequestId} {n : ℤ}

/-- Whether the tokens of a request are prefill tokens: it was a running prefill chunk, or
it was not running before the step. -/
def countsAsPrefill (s₀ : State σ) (id : RequestId) : Bool :=
  id ∉ s₀.running ∨ (s₀.request id).isPrefillChunk

/-- The prefill tokens among the scheduled ones. -/
def prefillTokens (s₀ : State σ) (tokens : Dict RequestId ℤ) : ℤ :=
  (tokens.items.map fun item => if countsAsPrefill s₀ item.1 then item.2 else 0).sum

def scheduledTokens (tokens : Dict RequestId ℤ) : ℤ := (tokens.items.map Prod.snd).sum

variable {tokens : Dict RequestId ℤ}

theorem prefillTokens_set (s₀ : State σ) (h : tokens.get? id = none) :
    prefillTokens s₀ (tokens.set id n) =
      prefillTokens s₀ tokens + if countsAsPrefill s₀ id then n else 0 :=
  Keyed.sum_insert_of_new _ (Keyed.find?_eq_none.mpr h)

theorem scheduledTokens_set (h : tokens.get? id = none) :
    scheduledTokens (tokens.set id n) = scheduledTokens tokens + n :=
  Keyed.sum_insert_of_new _ (Keyed.find?_eq_none.mpr h)

theorem prefillTokens_erase (h : tokens.get? id = some n) (hid : countsAsPrefill s₀ id = false) :
    prefillTokens s₀ (tokens.erase id) = prefillTokens s₀ tokens := by
  have hsum := Keyed.sum_eq_add_sum_erase
    (fun item : RequestId × ℤ => if countsAsPrefill s₀ item.1 then item.2 else 0)
    (Keyed.find?_of_get? h)
  rw [if_neg (by simp [hid]), zero_add] at hsum
  exact hsum.symm

theorem scheduledTokens_erase (h : tokens.get? id = some n) :
    scheduledTokens (tokens.erase id) = scheduledTokens tokens - n := by
  have hsum := Keyed.sum_eq_add_sum_erase Prod.snd (Keyed.find?_of_get? h)
  unfold scheduledTokens
  rw [hsum]
  omega

/-- The prefill tokens are counted as they are scheduled, within their budget, and so is the
token budget. -/
structure PrefillExact (cfg : Config) (ctx : StepContext) (s₀ : State σ) (p : Pass σ) : Prop where
  counted : p.prefillTokensScheduled = prefillTokens s₀ p.numScheduledTokens
  within : p.prefillTokensScheduled ≤ ctx.prefillTokenBudget
  budget : p.tokenBudget = initialTokenBudget cfg s₀ - scheduledTokens p.numScheduledTokens

/-- The preemption that a pass makes takes a scheduled prefill chunk out of the step. -/
def Pass.withdrawsPrefill (cfg : Config) (p : Pass σ) : Bool :=
  match cfg.policy, lowestPriority p.toState with
  | .priority, some victim =>
    victim ∈ p.scheduledRunningReqs ∧ (p.request victim).isPrefillChunk
  | _, _ => false

theorem PrefillExact.same (h : PrefillExact cfg ctx s₀ p) (hsame : p.SameLedger q) :
    PrefillExact cfg ctx s₀ q := by
  constructor
  · rw [hsame.prefill, hsame.tokens]
    exact h.counted
  · rw [hsame.prefill]
    exact h.within
  · rw [hsame.budget, hsame.tokens]
    exact h.budget

/-- A booking is counted where the request had nothing and is booked for what it is. -/
theorem PrefillExact.books {asPrefill : Bool} (h : PrefillExact cfg ctx s₀ p)
    (hbooks : p.Books cfg q id n asPrefill) (hnone : p.numScheduledTokens.get? id = none)
    (hcounts : countsAsPrefill s₀ id = asPrefill)
    (hwithin : asPrefill = true → p.prefillTokensScheduled + n ≤ ctx.prefillTokenBudget) :
    PrefillExact cfg ctx s₀ q := by
  constructor
  · rw [hbooks.prefill, hbooks.tokens, prefillTokens_set s₀ hnone, hcounts, ← h.counted]
    split_ifs
    · rfl
    · exact (add_zero _).symm
  · rw [hbooks.prefill]
    split_ifs with hprefill
    · exact hwithin hprefill
    · exact h.within
  · rw [hbooks.budget, hbooks.tokens, scheduledTokens_set hnone, h.budget]
    omega

theorem RunInv.isPrefillChunk_eq (h : RunInv cfg ctx s₀ p) (hid : id ∈ p.running) :
    countsAsPrefill s₀ id = (p.request id).isPrefillChunk := by
  obtain ⟨drafts, hsame⟩ := h.same id hid
  have hrunning := h.still id hid
  rw [hsame]
  simp [countsAsPrefill, hrunning]

theorem PrefillExact.takesBack (h : PrefillExact cfg ctx s₀ p) (hinv : RunInv cfg ctx s₀ p)
    (hpolicy : cfg.policy = .priority) (htaken : p.TakesBack q victim)
    (hdecode : p.withdrawsPrefill cfg = false) : PrefillExact cfg ctx s₀ q := by
  obtain ⟨n, hn⟩ := Option.isSome_iff_exists.mp ((hinv.listed victim).mp htaken.listed)
  have hmem := mem_of_lowestPriority htaken.lowest
  have hchunk : countsAsPrefill s₀ victim = false := by
    rw [hinv.isPrefillChunk_eq hmem]
    simpa [Pass.withdrawsPrefill, hpolicy, htaken.lowest, htaken.listed] using hdecode
  constructor
  · rw [htaken.prefill, htaken.tokens, prefillTokens_erase hn hchunk]
    exact h.counted
  · rw [htaken.prefill]
    exact h.within
  · rw [htaken.budget, htaken.tokens, scheduledTokens_erase hn, hn, h.budget]
    dsimp only [Option.getD_some]
    omega

theorem PrefillExact.evictions {es : List (Pass σ)} (h : PrefillExact cfg ctx s₀ p)
    (hroom : Evictions cfg svc ctx s₀ es p q)
    (hdecodes : ∀ e ∈ es, e.withdrawsPrefill cfg = false) : PrefillExact cfg ctx s₀ q := by
  induction hroom with
  | nil hsame => exact h.same hsame
  | cons hsame hinv hevict _ ih =>
    rw [List.forall_mem_cons] at hdecodes
    apply ih _ hdecodes.2
    rcases evict_ledger hevict with heq | ⟨hpolicy, htaken⟩
    · exact (h.same hsame).same heq
    · exact (h.same hsame).takesBack hinv hpolicy htaken hdecodes.1

theorem PrefillExact.runningTurn (haware : cfg.enableDecodeAwarePrefill = true)
    (h : PrefillExact cfg ctx s₀ p) (hturn : RunningTurn cfg svc ctx s₀ id p p')
    (hdecodes : ∀ e ∈ turnEvictions cfg svc ctx id p, e.withdrawsPrefill cfg = false) :
    PrefillExact cfg ctx s₀ p' := by
  cases hturn with
  | passed hsame => exact h.same hsame
  | refused hroom => exact h.evictions hroom hdecodes
  | booked hroom hinv _ hbudget _ =>
    have hmem := List.mem_of_mem_take hinv.here
    apply (h.evictions hroom hdecodes).books (commitRunning_books _ _ _) hinv.unscheduled
    · rw [hinv.isPrefillChunk_eq hmem]
      simp [haware]
    · intro hchunk
      simp only [decide_eq_true_eq] at hchunk
      exact hbudget hchunk.1 hchunk.2

theorem PrefillExact.waitingTurn (haware : cfg.enableDecodeAwarePrefill = true)
    (h : PrefillExact cfg ctx s₀ p) (hinv : WaitInv cfg ctx s₀ p)
    (hid : id ∈ p.waiting ++ p.skippedWaiting) (hturn : WaitingTurn cfg ctx id p p') :
    PrefillExact cfg ctx s₀ p' := by
  have hqueued : id ∈ p.queued p.stepSkippedWaiting := List.mem_append_left _ hid
  cases hturn with
  | kept hsame => exact h.same hsame
  | booked hsame _ hbooks hbudget _ =>
    apply (h.same hsame).books hbooks
    · rw [hsame.tokens]
      exact (hinv.nothing_yet hqueued).1
    · have hnew : id ∉ s₀.running := by
        intro hold
        exact hinv.queues.not_mem_queued (hinv.old id hold) hqueued
      rw [haware]
      simp [countsAsPrefill, hnew]
    · intro _
      exact hbudget haware

/-- The embeddings of the encoder inputs that a step scheduled. -/
def scheduledEmbeds (s₀ : State σ) (inputs : Dict RequestId (List ℕ)) : ℤ :=
  (inputs.items.map fun item => (s₀.request item.1).encoderEmbeds item.2).sum

/-- The encoder budget is that of the step less the inputs of the scheduled requests. -/
structure EncoderExact (cfg : Config) (s₀ : State σ) (p : Pass σ) : Prop where
  budget : p.encoderComputeBudget =
    cfg.maxNumEncoderInputTokens - scheduledEmbeds s₀ p.scheduledEncoderInputs
  booked : ∀ id, p.numScheduledTokens.get? id = none → p.scheduledEncoderInputs.get? id = none

/-- The preemption that a pass makes takes encoder inputs out of the step. -/
def Pass.withdrawsEncoder (cfg : Config) (p : Pass σ) : Bool :=
  match cfg.policy, lowestPriority p.toState with
  | .priority, some victim =>
    victim ∈ p.scheduledRunningReqs ∧ (p.scheduledEncoderInputs.get? victim).isSome
  | _, _ => false

namespace EncoderExact

variable {inputs : Dict RequestId (List ℕ)} {is : List ℕ} {plan : EncoderPlan}

theorem same (h : EncoderExact cfg s₀ p) (hsame : p.SameLedger q) : EncoderExact cfg s₀ q := by
  constructor
  · rw [hsame.encoder, hsame.inputs]
    exact h.budget
  · rw [hsame.tokens, hsame.inputs]
    exact h.booked

theorem takesBack (h : EncoderExact cfg s₀ p) (htaken : p.TakesBack q victim)
    (hfeatures : (p.request victim).mmFeatures = (s₀.request victim).mmFeatures) :
    EncoderExact cfg s₀ q := by
  constructor
  · rw [htaken.encoder, htaken.inputs, h.budget, Request.encoderEmbeds_congr hfeatures]
    cases hinputs : p.scheduledEncoderInputs.get? victim with
    | none =>
      have hsum : scheduledEmbeds s₀ (p.scheduledEncoderInputs.erase victim) =
          scheduledEmbeds s₀ p.scheduledEncoderInputs :=
        Keyed.sum_erase_of_none _ (Keyed.find?_eq_none.mpr hinputs)
      rw [hsum]
      exact add_zero _
    | some is =>
      have hsum := Keyed.sum_eq_add_sum_erase
        (fun item : RequestId × List ℕ => (s₀.request item.1).encoderEmbeds item.2)
        (Keyed.find?_of_get? hinputs)
      dsimp only [Option.getD_some]
      unfold scheduledEmbeds
      rw [hsum]
      dsimp only
      omega
  · intro id hid
    rw [htaken.tokens, Keyed.get?_erase] at hid
    rw [htaken.inputs, Keyed.get?_erase]
    split_ifs at hid ⊢
    · rfl
    · exact h.booked id hid

theorem evictions {es : List (Pass σ)} (h : EncoderExact cfg s₀ p)
    (hroom : Evictions cfg svc ctx s₀ es p q) : EncoderExact cfg s₀ q := by
  induction hroom with
  | nil hsame => exact h.same hsame
  | cons hsame hinv hevict _ ih =>
    apply ih
    rcases evict_ledger hevict with heq | ⟨-, htaken⟩
    · exact (h.same hsame).same heq
    · obtain ⟨drafts, hrequest⟩ := hinv.same _ (mem_of_lowestPriority htaken.lowest)
      apply (h.same hsame).takesBack htaken
      rw [hrequest]

theorem books {asPrefill : Bool} (h : EncoderExact cfg s₀ p) (hbooks : p.Books cfg q id n asPrefill)
    (hinputs : p.BooksEncoder q id plan) (hnone : p.numScheduledTokens.get? id = none)
    (hplan : plan.encoderComputeBudget = p.encoderComputeBudget -
      (s₀.request id).encoderEmbeds plan.encoderInputsToSchedule) : EncoderExact cfg s₀ q := by
  constructor
  · rw [hinputs.budget, hinputs.inputs]
    split_ifs
    · have hsum : scheduledEmbeds s₀ (p.scheduledEncoderInputs.set id plan.encoderInputsToSchedule) =
          scheduledEmbeds s₀ p.scheduledEncoderInputs +
            (s₀.request id).encoderEmbeds plan.encoderInputsToSchedule :=
        Keyed.sum_insert_of_new _ (Keyed.find?_eq_none.mpr (h.booked id hnone))
      rw [hsum, hplan, h.budget]
      omega
    · exact h.budget
  · intro id' hid'
    rw [hbooks.tokens, Keyed.get?_set] at hid'
    split_ifs at hid' with hne
    rw [hinputs.inputs]
    split_ifs
    · rw [Keyed.get?_set, if_neg hne]
      exact h.booked id' hid'
    · exact h.booked id' hid'

end EncoderExact

theorem encoder_of_evictions {es : List (Pass σ)} (hroom : Evictions cfg svc ctx s₀ es p q)
    (hkeep : ∀ e ∈ es, e.withdrawsEncoder cfg = false) :
    q.encoderComputeBudget = p.encoderComputeBudget := by
  induction hroom with
  | nil hsame => exact hsame.encoder
  | cons hsame _ hevict _ ih =>
    rw [List.forall_mem_cons] at hkeep
    rw [ih hkeep.2, ← hsame.encoder]
    rcases evict_ledger hevict with heq | ⟨hpolicy, htaken⟩
    · exact heq.encoder
    · have hnone := hkeep.1
      simp only [Pass.withdrawsEncoder, hpolicy, htaken.lowest, htaken.listed, true_and,
        Bool.decide_eq_true, Option.isSome_eq_false_iff, Option.isNone_iff_eq_none] at hnone
      rw [htaken.encoder, hnone]
      exact add_zero _

theorem EncoderExact.runningTurn (h : EncoderExact cfg s₀ p)
    (hturn : RunningTurn cfg svc ctx s₀ id p p')
    (hkeep : ∀ e ∈ turnEvictions cfg svc ctx id p, e.withdrawsEncoder cfg = false) :
    EncoderExact cfg s₀ p' := by
  cases hturn with
  | passed hsame => exact h.same hsame
  | refused hroom => exact h.evictions hroom
  | booked hroom hinv _ _ hencoder =>
    have hmem := List.mem_of_mem_take hinv.here
    rw [hinv.unchanged _ hmem hinv.unscheduled, ← encoder_of_evictions hroom hkeep] at hencoder
    exact (h.evictions hroom).books (commitRunning_books _ _ _) (commitRunning_booksEncoder _ _ _)
      hinv.unscheduled hencoder

theorem EncoderExact.waitingTurn (h : EncoderExact cfg s₀ p) (hinv : WaitInv cfg ctx s₀ p)
    (huntouched : Untouched s₀ p) (hid : id ∈ p.waiting ++ p.skippedWaiting)
    (hturn : WaitingTurn cfg ctx id p p') : EncoderExact cfg s₀ p' := by
  have hqueued : id ∈ p.queued p.stepSkippedWaiting := List.mem_append_left _ hid
  cases hturn with
  | kept hsame => exact h.same hsame
  | booked hsame _ hbooks _ hencoder =>
    obtain ⟨plan, hinputs, hplan⟩ := hencoder
    rw [huntouched id hid] at hplan
    refine (h.same hsame).books hbooks hinputs ?_ hplan
    rw [hsame.tokens]
    exact (hinv.nothing_yet hqueued).1

/-- The passes of a step at the heads of its loops and behind each loop, and the passes it
preempts a request in. -/
def stepVisits (cfg : Config) (svc : Services σ) (throttlePrefills : Bool) (s : State σ) :
    List (Pass σ) × List (Pass σ) :=
  let (ctx, p) := beginStep cfg throttlePrefills s
  let (heads, evictions) := runningVisits cfg svc ctx p.running.length p
  let admissions := (stepAdmissions cfg svc throttlePrefills s).2.map Prod.snd
  let done :=
    match runLoops cfg svc throttlePrefills s with
    | .ok (_, p) => [p]
    | .error _ => []
  (heads ++ admissions ++ done, evictions)

variable {throttlePrefills : Bool} {s : State σ}

theorem beginStep_prefillExact (haware : cfg.enableDecodeAwarePrefill = true) (hchecked : cfg.Checked)
    (throttlePrefills : Bool) (s : State σ) :
    PrefillExact cfg (beginStep cfg throttlePrefills s).1 s (beginStep cfg throttlePrefills s).2 := by
  refine ⟨rfl, ?_, (sub_zero _).symm⟩
  show 0 ≤ prefillTokenBudget cfg { s with currentStep := s.currentStep + 1 }
  have htokens := hchecked.maxNumScheduledTokens
  have hdecode := hchecked.decodePrefillTokenBudget
  have hidle := hchecked.idlePrefillTokenBudget
  unfold prefillTokenBudget
  rw [if_pos haware]
  split_ifs
  · omega
  · omega

theorem beginStep_encoderExact (throttlePrefills : Bool) (s : State σ) :
    EncoderExact cfg s (beginStep cfg throttlePrefills s).2 :=
  ⟨(sub_zero _).symm, fun _ _ => rfl⟩

/-- What the turns of both loops keep holds at every turn of a step and behind it. -/
theorem stepVisits_keeps {I G : Pass σ → Prop}
    (hsame : ∀ p q : Pass σ, I p → p.SameLedger q → I q)
    (hrunning : ∀ p id p', RunInv cfg (beginStep cfg throttlePrefills s).1 s p → I p →
      RunningTurn cfg svc (beginStep cfg throttlePrefills s).1 s id p p' →
      (∀ e ∈ turnEvictions cfg svc (beginStep cfg throttlePrefills s).1 id p, G e) → I p')
    (hwaiting : ∀ p id p', WaitInv cfg (beginStep cfg throttlePrefills s).1 s p → Untouched s p →
      id ∈ p.waiting ++ p.skippedWaiting → I p →
      WaitingTurn cfg (beginStep cfg throttlePrefills s).1 id p p' → I p')
    (hqueues : WellQueued [] s) (hbegin : I (beginStep cfg throttlePrefills s).2)
    (hG : ∀ v ∈ (stepVisits cfg svc throttlePrefills s).2, G v) :
    ∀ v ∈ (stepVisits cfg svc throttlePrefills s).1, I v := by
  have hinv : RunInv cfg _ s (beginStep cfg throttlePrefills s).2 := beginStep_spec hqueues
  obtain ⟨hheads, hran⟩ := scheduleRunning_keeps hsame hrunning hinv hbegin hG
  intro v hv
  simp only [stepVisits, List.mem_append, or_assoc] at hv
  rcases hv with hhead | hadmission | hdone
  · exact hheads v hhead
  · obtain ⟨visit, hvisit, rfl⟩ := List.mem_map.mp hadmission
    unfold stepAdmissions at hvisit
    dsimp only at hvisit
    cases hrun : scheduleRunning cfg svc (beginStep cfg throttlePrefills s).1
        (beginStep cfg throttlePrefills s).2 with
    | error _ =>
      rw [hrun] at hvisit
      exact absurd hvisit (List.not_mem_nil)
    | ok q =>
      rw [hrun] at hvisit
      have hq := scheduleRunning_spec hinv hrun
      exact (scheduleWaiting_keeps hsame hwaiting hq (hran q hrun)).1 visit hvisit
  · cases hloops : runLoops cfg svc throttlePrefills s with
    | error _ =>
      rw [hloops] at hdone
      exact absurd hdone (List.not_mem_nil)
    | ok pair =>
      obtain ⟨ctx, q'⟩ := pair
      rw [hloops, List.mem_singleton] at hdone
      simp only [runLoops, bind_eq_ok, pure_eq_ok, Prod.mk.injEq] at hloops
      obtain ⟨q, hrun, r, hwait, -, rfl⟩ := hloops
      have hq := scheduleRunning_spec hinv hrun
      rw [hdone]
      exact (scheduleWaiting_keeps hsame hwaiting hq (hran q hrun)).2 _ hwait

/-- Over every run: a step that takes no scheduled prefill chunk back counts its prefill
tokens as they are scheduled, within their budget, at every turn of both loops. One that takes
no encoder inputs back has spent the encoder budget on those it schedules. -/
theorem prefill_budget_exact {Q : Engine σ → Action σ → Prop} {e : Engine σ}
    (hreached : Engine.Reached cfg svc Q e) (haware : cfg.enableDecodeAwarePrefill = true)
    (hchecked : cfg.Checked)
    (hdecodes : ∀ v ∈ (stepVisits cfg svc throttlePrefills e.state).2,
      v.withdrawsPrefill cfg = false) :
    (∀ v ∈ (stepVisits cfg svc throttlePrefills e.state).1,
      PrefillExact cfg (beginStep cfg throttlePrefills e.state).1 e.state v) ∧
    ((∀ v ∈ (stepVisits cfg svc throttlePrefills e.state).2, v.withdrawsEncoder cfg = false) →
      ∀ v ∈ (stepVisits cfg svc throttlePrefills e.state).1, EncoderExact cfg e.state v) :=
  ⟨stepVisits_keeps (fun _ _ h => h.same)
      (fun _ _ _ _ h hturn hdecodes => h.runningTurn haware hturn hdecodes)
      (fun _ _ _ hwait _ hid h hturn => h.waitingTurn haware hwait hid hturn) hreached.queues
      (beginStep_prefillExact haware hchecked throttlePrefills e.state) hdecodes,
    stepVisits_keeps (fun _ _ h => h.same) (fun _ _ _ _ h hturn hkeep => h.runningTurn hturn hkeep)
      (fun _ _ _ hwait huntouched hid h hturn => h.waitingTurn hwait huntouched hid hturn)
      hreached.queues (beginStep_encoderExact throttlePrefills e.state)⟩

/-- Sixteen prefill tokens a step, one turn for the prompts above four tokens. -/
def sixteenTokens : Config where
  policy := .priority
  maxNumRunningReqs := 4
  maxNumScheduledTokens := 100
  maxModelLen := 1000
  longPrefillTokenThreshold := 4
  enableDecodeAwarePrefill := true
  decodePrefillTokenBudget := 16
  idlePrefillTokenBudget := 16

/-- A model runner that samples a token for these requests only. -/
def samplingFor (ids : List RequestId) : ModelRunnerOutput where
  sampledTokenIds id := some (if id ∈ ids then [7] else [])

/-- A scheduled decode of low priority is preempted for a long prefill, which is then given the
whole prefill budget. -/
theorem prefill_budget_exact_preempting :
    ∃ e : Engine (List Bool), Engine.Reached sixteenTokens .scripted (fun _ _ => True) e ∧
      (∃ v ∈ (stepVisits sixteenTokens .scripted false e.state).1,
        v.prefillTokensScheduled = 16 ∧ v.preemptedReqs = ["d"]) ∧
      (∀ v ∈ (stepVisits sixteenTokens .scripted false e.state).1,
        PrefillExact sixteenTokens (beginStep sixteenTokens false e.state).1 e.state v) ∧
      ∀ v ∈ (stepVisits sixteenTokens .scripted false e.state).1,
        EncoderExact sixteenTokens e.state v := by
  have hstart : Engine.Reached sixteenTokens .scripted (fun _ _ => True)
      { state := emptyState [true, true, true, true, false, true] } :=
    .start (emptyState_initial _)
  have hfirst := hstart.act (a := .addRequest "d" { prompt 1 with priority := 1 } none)
    trivial rfl
  have halone := hfirst.act (a := .schedule false) trivial rfl
  have hran := halone.act (a := .execute) trivial rfl
  have hdecoding := hran.act (a := .updateFromOutput (samplingFor ["d"])) trivial rfl
  have hsecond := hdecoding.act (a := .addRequest "b" (prompt 100) none) trivial rfl
  have hboth := hsecond.act (a := .schedule false) trivial rfl
  have hranBoth := hboth.act (a := .execute) trivial rfl
  have hchunk := hranBoth.act (a := .updateFromOutput (samplingFor ["d"])) trivial rfl
  have hchecked : sixteenTokens.Checked := ⟨by decide, by decide, by decide, by decide⟩
  obtain ⟨e, hreached, hpreempted, hdecodes, hkeep⟩ :
      ∃ e : Engine (List Bool), Engine.Reached sixteenTokens .scripted (fun _ _ => True) e ∧
        (∃ v ∈ (stepVisits sixteenTokens .scripted false e.state).1,
          v.prefillTokensScheduled = 16 ∧ v.preemptedReqs = ["d"]) ∧
        (∀ v ∈ (stepVisits sixteenTokens .scripted false e.state).2,
          v.withdrawsPrefill sixteenTokens = false) ∧
        ∀ v ∈ (stepVisits sixteenTokens .scripted false e.state).2,
          v.withdrawsEncoder sixteenTokens = false :=
    ⟨_, hchunk, by decide, by decide, by decide⟩
  obtain ⟨hexact, hencoder⟩ := prefill_budget_exact hreached rfl hchecked hdecodes
  exact ⟨e, hreached, hpreempted, hexact, hencoder hkeep⟩

/-- A long prefill of low priority is given the budget, then preempted for a decode: its
tokens stay counted. -/
theorem prefill_tokens_not_given_back :
    ∃ e : Engine (List Bool), Engine.Reached sixteenTokens .scripted (fun _ _ => True) e ∧
      ∃ v ∈ (stepVisits sixteenTokens .scripted false e.state).1,
        v.prefillTokensScheduled = 16 ∧ prefillTokens e.state v.numScheduledTokens = 0 := by
  have hstart : Engine.Reached sixteenTokens .scripted (fun _ _ => True)
      { state := emptyState [true, true, true, false, true] } := .start (emptyState_initial _)
  have hfirst := hstart.act (a := .addRequest "b" { prompt 100 with priority := 1 } none)
    trivial rfl
  have halone := hfirst.act (a := .schedule false) trivial rfl
  have hran := halone.act (a := .execute) trivial rfl
  have hchunk := hran.act (a := .updateFromOutput (samplingFor []))
    trivial rfl
  have hsecond := hchunk.act (a := .addRequest "c" (prompt 10) none) trivial rfl
  have hboth := hsecond.act (a := .schedule false) trivial rfl
  have hranBoth := hboth.act (a := .execute) trivial rfl
  have hdecoding := hranBoth.act (a := .updateFromOutput (samplingFor ["c"]))
    trivial rfl
  refine ⟨_, hdecoding, ?_⟩
  decide

end ChampionRuntime.Scheduler
