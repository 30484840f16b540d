import ChampionRuntime.Scheduler.Queues

/-!
# Preemptions

The invariant of a pass over the running queue, and its upkeep while room is made
for a request.
-/
namespace ChampionRuntime.Scheduler

open Lib
open scoped List

variable {σ : Type} {cfg : Config} {svc : Services σ} {ctx : StepContext} {s₀ : State σ}

def draftsOf (drafts : Dict RequestId (List DraftToken)) (id : RequestId) : List DraftToken :=
  (drafts.get? id).getD []

structure PassInv (p : Pass σ) : Prop where
  queues : WellQueued p.stepSkippedWaiting p.toState
  scheduled : ∀ id n, p.numScheduledTokens.get? id = some n → id ∈ p.running
  drafted : ∀ id drafts, p.scheduledSpecDecodeTokens.get? id = some drafts →
    ∃ n, p.numScheduledTokens.get? id = some n

/-- How many of a request's tokens are known but not computed. -/
def Request.numPending (r : Request) : ℤ :=
  r.numTokens + r.numOutputPlaceholders - r.numComputedTokens

/-- These drafts leave room for `m` more of `n` tokens exactly when the request has so many
left to compute beside its drafts. -/
def Request.DraftsEnd (r : Request) (drafts : List DraftToken) (n : ℤ) : Prop :=
  drafts ≠ [] ∧ ∀ m : ℕ, (drafts.length : ℤ) + m ≤ n ↔ (m : ℤ) ≤ r.numPending

/-- The invariant of the loop over the running queue. Only requests before the index are
scheduled, and the requests are still those of the state `s₀` the step began in. -/
structure RunInv (cfg : Config) (ctx : StepContext) (s₀ : State σ) (p : Pass σ) : Prop
    extends PassInv p where
  taken : ∀ id n, p.numScheduledTokens.get? id = some n → id ∈ p.running.take p.reqIndex
  listed : ∀ id, id ∈ p.scheduledRunningReqs ↔ (p.numScheduledTokens.get? id).isSome = true
  nodup_listed : p.scheduledRunningReqs.Nodup
  ends : ∀ id ds, p.scheduledSpecDecodeTokens.get? id = some ds →
    ∃ n, p.numScheduledTokens.get? id = some n ∧ (s₀.request id).DraftsEnd ds n
  still : ∀ id ∈ p.running, id ∈ s₀.running
  same : ∀ id ∈ p.running, ∃ drafts, p.request id = { s₀.request id with specTokenIds := drafts }
  unchanged : ∀ id ∈ p.running, p.numScheduledTokens.get? id = none → p.request id = s₀.request id
  ungated : cfg.enableDecodeAwarePrefill = true → ∀ id n, p.numScheduledTokens.get? id = some n →
    isLongPrefillRequest cfg (s₀.request id) = true → id ∈ ctx.selectedLongPrefillIds
  origin : ∀ id ds, p.scheduledSpecDecodeTokens.get? id = some ds →
    ds <+: (s₀.request id).specTokenIds
  kept : p.preemptedReqs = [] → p.running = s₀.running ∧ p.waiting = s₀.waiting ∧
    p.skippedWaiting = s₀.skippedWaiting ∧ ∀ id ∈ s₀.queued [], p.request id = s₀.request id
  aside : p.stepSkippedWaiting = []

/-- While room is made for a request, it stands at the index and has nothing yet. -/
structure RoomInv (cfg : Config) (ctx : StepContext) (s₀ : State σ) (id : RequestId) (p : Pass σ) :
    Prop extends RunInv cfg ctx s₀ p where
  unscheduled : p.numScheduledTokens.get? id = none
  here : id ∈ p.running.take (p.reqIndex + 1)
  ahead : cfg.policy = .fcfs → id ∈ p.running.drop p.reqIndex

theorem mem_of_lowestPriority {s : State σ} {id : RequestId} (h : lowestPriority s = some id) :
    id ∈ s.running := by
  have hfold : ∀ (ids : List RequestId) (best : RequestId),
      ids.foldl (fun best id => if ranksBelow (s.request best) (s.request id) then id else best) best ∈
        best :: ids := by
    intro ids
    induction ids with
    | nil => simp
    | cons id ids ih =>
      intro best
      rw [List.foldl_cons]
      split_ifs
      · exact List.mem_cons_of_mem best (ih id)
      · rcases List.mem_cons.mp (ih best) with hbest | hmem
        · rw [hbest]
          exact List.mem_cons_self
        · exact List.mem_cons_of_mem best (List.mem_cons_of_mem id hmem)
  unfold lowestPriority at h
  cases hrunning : s.running with
  | nil => simp [hrunning] at h
  | cons first ids =>
    rw [hrunning] at h
    rw [← Option.some.inj h]
    exact hfold ids first

/-- A victim leaves the running queue and takes with it what the step gave it. -/
structure Taken (cfg : Config) (p q : Pass σ) (victim : RequestId) : Prop where
  mem : victim ∈ p.running
  running : q.running = p.running.erase victim
  tokens : ∀ id, q.numScheduledTokens.get? id =
    if id = victim then none else p.numScheduledTokens.get? id
  drafts : ∀ id, q.scheduledSpecDecodeTokens.get? id =
    if id = victim then none else p.scheduledSpecDecodeTokens.get? id
  before : ∀ id ∈ p.running.take p.reqIndex, id ≠ victim → id ∈ q.running.take q.reqIndex
  here : ∀ id ∈ p.running.take (p.reqIndex + 1), id ≠ victim → id ∈ q.running.take (q.reqIndex + 1)
  ahead : cfg.policy = .fcfs → ∀ id ∈ p.running.drop p.reqIndex, id ≠ victim →
    id ∈ q.running.drop q.reqIndex
  left : q.running.length + p.reqIndex ≤ p.running.length + q.reqIndex
  listed : ∀ id, id ∈ q.scheduledRunningReqs ↔ id ≠ victim ∧ id ∈ p.scheduledRunningReqs
  nodup_listed : q.scheduledRunningReqs.Nodup

/-- The parts of a pass that taking a victim leaves alone. -/
structure SameElse (p q : Pass σ) : Prop where
  request : q.request = p.request
  requests : q.requests = p.requests
  waiting : q.waiting = p.waiting
  skippedWaiting : q.skippedWaiting = p.skippedWaiting
  stepSkippedWaiting : q.stepSkippedWaiting = p.stepSkippedWaiting
  preemptedReqs : q.preemptedReqs = p.preemptedReqs

theorem takeVictim_spec {id victim : RequestId} {p q : Pass σ} (h : RoomInv cfg ctx s₀ id p)
    (hq : p.takeVictim cfg = some (victim, q)) : Taken cfg p q victim ∧ SameElse p q := by
  have hnd := h.queues.nodup_running
  have hunlisted : ∀ id', id' ∉ p.scheduledRunningReqs → p.numScheduledTokens.get? id' = none ∧
      p.scheduledSpecDecodeTokens.get? id' = none := by
    intro id' hid'
    have hnone : p.numScheduledTokens.get? id' = none := by
      rwa [h.listed, Bool.not_eq_true, Option.isSome_eq_false_iff, Option.isNone_iff_eq_none] at hid'
    refine ⟨hnone, ?_⟩
    cases hdrafts : p.scheduledSpecDecodeTokens.get? id' with
    | none => rfl
    | some drafts =>
      obtain ⟨n, hn⟩ := h.drafted id' drafts hdrafts
      rw [hnone] at hn
      cases hn
  unfold Pass.takeVictim at hq
  cases hpolicy : cfg.policy with
  | fcfs =>
    rw [hpolicy] at hq
    obtain ⟨last, hlast, hpair⟩ := Option.map_eq_some_iff.mp hq
    simp only [Prod.mk.injEq] at hpair
    obtain ⟨rfl, rfl⟩ := hpair
    have hmem : last ∈ p.running := List.mem_of_getLast? hlast
    have herase := dropLast_eq_erase hnd hlast
    -- the last request is not before the index
    have hfree : last ∉ p.scheduledRunningReqs := by
      intro hlisted
      rw [h.listed] at hlisted
      obtain ⟨n, hn⟩ := Option.isSome_iff_exists.mp hlisted
      have htake := h.taken last n hn
      have hsplit : (p.running.take p.reqIndex ++ p.running.drop p.reqIndex).Nodup := by
        rwa [List.take_append_drop]
      have hdrop : last ∈ p.running.drop p.reqIndex := by
        have hne : p.running.drop p.reqIndex ≠ [] := List.ne_nil_of_mem (h.ahead hpolicy)
        apply List.mem_of_getLast?
        rw [List.getLast?_drop, if_neg]
        · exact hlast
        · intro hle
          exact hne (List.drop_eq_nil_of_le hle)
      exact (List.disjoint_of_nodup_append hsplit) htake hdrop
    obtain ⟨htokens, hdrafts⟩ := hunlisted last hfree
    refine ⟨?_, ⟨rfl, rfl, rfl, rfl, rfl, rfl⟩⟩
    refine ⟨hmem, herase, ?_, ?_, ?_, ?_, ?_, ?_, ?_, h.nodup_listed⟩
    · intro id'
      by_cases hid : id' = last
      · simp [hid, htokens]
      · simp [hid]
    · intro id'
      by_cases hid : id' = last
      · simp [hid, hdrafts]
      · simp [hid]
    · intro id' hid hne
      rw [herase]
      exact mem_take_erase hid hne
    · intro id' hid hne
      rw [herase]
      exact mem_take_erase hid hne
    · intro _ id' hid hne
      exact mem_drop_dropLast hlast hid hne
    · dsimp only
      rw [List.length_dropLast]
      omega
    · intro id'
      constructor
      · intro hid
        exact ⟨fun heq => hfree (heq ▸ hid), hid⟩
      · exact And.right
  | priority =>
    rw [hpolicy] at hq
    obtain ⟨lowest, hlowest, hpair⟩ := Option.map_eq_some_iff.mp hq
    simp only [Prod.mk.injEq] at hpair
    obtain ⟨rfl, rfl⟩ := hpair
    have hmem : lowest ∈ p.running := mem_of_lowestPriority hlowest
    by_cases hlisted : lowest ∈ p.scheduledRunningReqs
    · rw [if_pos hlisted]
      obtain ⟨n, hn⟩ := Option.isSome_iff_exists.mp ((h.listed lowest).mp hlisted)
      have htake := h.taken lowest n hn
      have hindex : p.reqIndex = p.reqIndex - 1 + 1 := by
        cases hzero : p.reqIndex with
        | zero => simp [hzero] at htake
        | succ k => rfl
      refine ⟨?_, ⟨rfl, rfl, rfl, rfl, rfl, rfl⟩⟩
      refine ⟨hmem, rfl, ?_, ?_, ?_, ?_, ?_, ?_, ?_, h.nodup_listed.erase lowest⟩
      · intro id'
        exact Keyed.get?_erase p.numScheduledTokens lowest id'
      · intro id'
        exact Keyed.get?_erase p.scheduledSpecDecodeTokens lowest id'
      · intro id' hid hne
        exact mem_take_pred_erase htake hid hne
      · intro id' hid hne
        have hwide := List.take_subset_take_left p.running (Nat.le_succ p.reqIndex) htake
        have hpred := mem_take_pred_erase hwide hid hne
        rw [Nat.succ_sub_one, hindex] at hpred
        exact hpred
      · intro hfcfs
        rw [hpolicy] at hfcfs
        cases hfcfs
      · have hlength := List.length_erase_add_one hmem
        unfold Pass.withdraw
        dsimp only
        omega
      · intro id'
        exact h.nodup_listed.mem_erase_iff
    · rw [if_neg hlisted]
      obtain ⟨htokens, hdrafts⟩ := hunlisted lowest hlisted
      refine ⟨?_, ⟨rfl, rfl, rfl, rfl, rfl, rfl⟩⟩
      refine ⟨hmem, rfl, ?_, ?_, ?_, ?_, ?_, ?_, ?_, h.nodup_listed⟩
      · intro id'
        by_cases hid : id' = lowest
        · simp [hid, htokens]
        · simp [hid]
      · intro id'
        by_cases hid : id' = lowest
        · simp [hid, hdrafts]
        · simp [hid]
      · intro id' hid hne
        exact mem_take_erase hid hne
      · intro id' hid hne
        exact mem_take_erase hid hne
      · intro hfcfs
        rw [hpolicy] at hfcfs
        cases hfcfs
      · have hlength := List.length_erase_add_one hmem
        dsimp only
        omega
      · intro id'
        constructor
        · intro hid
          exact ⟨fun heq => hlisted (heq ▸ hid), hid⟩
        · exact And.right

/-- A pass after the preemption of its victim. -/
def Pass.preemptedBy (cfg : Config) (svc : Services σ) (q : Pass σ) (victim : RequestId) : Pass σ :=
  let request := Function.update q.request victim
    ((q.request victim).preempt cfg.requiresKvDelivery)
  { q with
    request
    waiting := svc.queues.prepend request victim q.waiting
    resetPreemptedReqIds := victim :: q.resetPreemptedReqIds
    preemptedReqs := q.preemptedReqs ++ [victim] }

theorem evict_eq_ok {p p' : Pass σ} {victim : RequestId} (h : p.evict cfg svc = .ok (victim, p')) :
    ∃ q, p.takeVictim cfg = some (victim, q) ∧
      p' = q.preemptedBy cfg svc victim := by
  unfold Pass.evict at h
  cases hq : p.takeVictim cfg with
  | none => simp [hq] at h
  | some taken =>
    obtain ⟨v, q⟩ := taken
    rw [hq] at h
    simp only [State.preemptRequest, bind_eq_ok, pure_eq_ok, Prod.mk.injEq] at h
    obtain ⟨s, ⟨-, -, rfl⟩, rfl, rfl⟩ := h
    exact ⟨q, rfl, rfl⟩

/-- A preemption keeps the invariant, and with it that of the request room is made for,
unless this is the victim. -/
theorem evict_spec {id victim : RequestId} {p p' : Pass σ} (h : RoomInv cfg ctx s₀ id p)
    (hevict : p.evict cfg svc = .ok (victim, p')) :
    RunInv cfg ctx s₀ p' ∧ (victim ≠ id → RoomInv cfg ctx s₀ id p') ∧
      victim ∈ p.running ∧ p'.running = p.running.erase victim ∧
      p'.running.length + p.reqIndex ≤ p.running.length + p'.reqIndex := by
  obtain ⟨q, htake, rfl⟩ := evict_eq_ok hevict
  obtain ⟨ht, hsame⟩ := takeVictim_spec h htake
  obtain ⟨hrequest, hrequests, hwaiting, hskipped, haside, hpreempted⟩ := hsame
  have hnd := h.queues.nodup_running
  have hmem : ∀ id' ∈ q.running, id' ≠ victim ∧ id' ∈ p.running := by
    intro id' hid'
    rw [ht.running] at hid'
    exact hnd.mem_erase_iff.mp hid'
  have hscheduled : ∀ id' n, q.numScheduledTokens.get? id' = some n →
      id' ≠ victim ∧ p.numScheduledTokens.get? id' = some n := by
    intro id' n hn
    rw [ht.tokens] at hn
    split_ifs at hn with hid'
    exact ⟨hid', hn⟩
  have hdrafted : ∀ id' ds, q.scheduledSpecDecodeTokens.get? id' = some ds →
      id' ≠ victim ∧ p.scheduledSpecDecodeTokens.get? id' = some ds := by
    intro id' ds hds
    rw [ht.drafts] at hds
    split_ifs at hds with hid'
    exact ⟨hid', hds⟩
  have hrequest_of_ne : ∀ id', id' ≠ victim →
      (q.preemptedBy cfg svc victim).request id' = p.request id' := by
    intro id' hne
    unfold Pass.preemptedBy
    dsimp only
    rw [Function.update_of_ne hne, hrequest]
  have htokens_of_ne : ∀ id', id' ≠ victim →
      (q.preemptedBy cfg svc victim).numScheduledTokens.get? id' = p.numScheduledTokens.get? id' :=
    fun id' hne => (ht.tokens id').trans (if_neg hne)
  have hrun : RunInv cfg ctx s₀ (q.preemptedBy cfg svc victim) := by
    refine {
      queues := ?_
      scheduled := ?_
      drafted := ?_
      taken := ?_
      listed := ?_
      nodup_listed := ht.nodup_listed
      ends := ?_
      still := fun id' hid' => h.still id' (hmem id' hid').2
      same := ?_
      unchanged := ?_
      ungated := ?_
      origin := ?_
      kept := ?_
      aside := haside.trans h.aside }
    · apply h.queues.move
      · have hprepend := svc.queues.prepend_perm (q.preemptedBy cfg svc victim).request victim
          p.waiting
        have hwaiting' : (q.preemptedBy cfg svc victim).waiting =
            svc.queues.prepend (q.preemptedBy cfg svc victim).request victim p.waiting :=
          congrArg (svc.queues.prepend _ victim) hwaiting
        apply List.Perm.subperm
        calc q.running ++ (q.preemptedBy cfg svc victim).queued q.stepSkippedWaiting
            _ = p.running.erase victim ++ ((q.preemptedBy cfg svc victim).waiting ++
                (p.skippedWaiting ++ p.stepSkippedWaiting)) := by
              rw [ht.running, State.queued, List.append_assoc, ← hskipped, ← haside]
              rfl
            _ ~ p.running.erase victim ++ (victim :: p.waiting ++
                (p.skippedWaiting ++ p.stepSkippedWaiting)) :=
              (hwaiting' ▸ hprepend.append_right _).append_left _
            _ ~ victim :: p.running.erase victim ++ (p.waiting ++
                (p.skippedWaiting ++ p.stepSkippedWaiting)) := List.perm_middle
            _ ~ p.running ++ (p.waiting ++ (p.skippedWaiting ++ p.stepSkippedWaiting)) :=
              (List.perm_cons_erase ht.mem).symm.append_right _
            _ = p.running ++ p.queued p.stepSkippedWaiting := by
              rw [State.queued, List.append_assoc]
      · intro id' _ hid'
        exact hrequests ▸ hid'
      · intro id' hid'
        obtain ⟨hne, hin⟩ := hmem id' hid'
        rw [hrequest_of_ne id' hne]
        exact h.queues.running id' hin
      · have hvictim : victim ∉ p.queued p.stepSkippedWaiting := h.queues.not_mem_queued ht.mem
        have hprepend := svc.queues.prepend_perm (q.preemptedBy cfg svc victim).request victim
          q.waiting
        intro id' hid'
        by_cases heq : id' = victim
        · have hpreempt : (q.preemptedBy cfg svc victim).request victim =
              (p.request victim).preempt cfg.requiresKvDelivery := by
            unfold Pass.preemptedBy
            dsimp only
            rw [Function.update_self, hrequest]
          rw [heq, hpreempt]
          exact ⟨by simp [Request.preempt], rfl⟩
        · rw [hrequest_of_ne id' heq]
          apply h.queues.queued id'
          simp only [State.queued, List.mem_append] at hid' ⊢
          rw [← hwaiting, ← hskipped, ← haside]
          rcases hid' with (hid' | hid') | hid'
          · rcases List.mem_cons.mp (hprepend.mem_iff.mp hid') with hid' | hid'
            · exact absurd hid' heq
            · exact .inl (.inl hid')
          · exact .inl (.inr hid')
          · exact .inr hid'
    · intro id' n hn
      obtain ⟨hne, hn⟩ := hscheduled id' n hn
      show id' ∈ q.running
      rw [ht.running, hnd.mem_erase_iff]
      exact ⟨hne, h.scheduled id' n hn⟩
    · intro id' ds hds
      obtain ⟨hne, hds⟩ := hdrafted id' ds hds
      obtain ⟨n, hn⟩ := h.drafted id' ds hds
      exact ⟨n, (htokens_of_ne id' hne).trans hn⟩
    · intro id' n hn
      obtain ⟨hne, hn⟩ := hscheduled id' n hn
      exact ht.before id' (h.taken id' n hn) hne
    · intro id'
      show id' ∈ q.scheduledRunningReqs ↔ (q.numScheduledTokens.get? id').isSome = true
      rw [ht.listed, ht.tokens, h.listed]
      split_ifs with hid'
      · simp [hid']
      · simp [hid']
    · intro id' ds hds
      obtain ⟨hne, hds⟩ := hdrafted id' ds hds
      obtain ⟨n, hn, hends⟩ := h.ends id' ds hds
      exact ⟨n, (htokens_of_ne id' hne).trans hn, hends⟩
    · intro id' hid'
      obtain ⟨hne, hin⟩ := hmem id' hid'
      rw [hrequest_of_ne id' hne]
      exact h.same id' hin
    · intro id' hid' hn
      obtain ⟨hne, hin⟩ := hmem id' hid'
      rw [hrequest_of_ne id' hne]
      exact h.unchanged id' hin ((htokens_of_ne id' hne).symm.trans hn)
    · intro haware id' n hn hlong
      exact h.ungated haware id' n (hscheduled id' n hn).2 hlong
    · intro id' ds hds
      exact h.origin id' ds (hdrafted id' ds hds).2
    · intro hnone
      simp [Pass.preemptedBy] at hnone
  refine ⟨hrun, fun hne => ⟨hrun, ?_, ?_, ?_⟩, ht.mem, ht.running, ht.left⟩
  · exact (htokens_of_ne id (Ne.symm hne)).trans h.unscheduled
  · exact ht.here id h.here (Ne.symm hne)
  · intro hpolicy
    exact ht.ahead hpolicy id (h.ahead hpolicy) (Ne.symm hne)

theorem RunInv.passOver {p : Pass σ} (h : RunInv cfg ctx s₀ p) (k skips : ℕ) (services : σ) :
    RunInv cfg ctx s₀
      { p with reqIndex := p.reqIndex + k, longPrefillGateSkips := skips, services } where
  queues := ⟨h.queues.nodup, h.queues.registered, h.queues.running, h.queues.queued⟩
  scheduled := h.scheduled
  drafted := h.drafted
  taken id n hn := List.take_subset_take_left p.running (Nat.le_add_right _ k) (h.taken id n hn)
  listed := h.listed
  nodup_listed := h.nodup_listed
  ends := h.ends
  still := h.still
  same := h.same
  unchanged := h.unchanged
  ungated := h.ungated
  origin := h.origin
  kept := h.kept
  aside := h.aside

theorem RoomInv.withServices {id : RequestId} {p : Pass σ} (h : RoomInv cfg ctx s₀ id p)
    (services : σ) : RoomInv cfg ctx s₀ id { p with services } :=
  ⟨h.toRunInv.passOver 0 p.longPrefillGateSkips services, h.unscheduled, h.here, h.ahead⟩

theorem makeRoom_spec {id : RequestId} {n : ℤ} {fuel : ℕ} {allocated : Bool} {p p' : Pass σ}
    (h : RoomInv cfg ctx s₀ id p) (hfuel : p.running.length ≤ fuel)
    (hroom : makeRoom cfg svc id n fuel p = .ok (allocated, p')) :
    RunInv cfg ctx s₀ p' ∧
      (if allocated then RoomInv cfg ctx s₀ id p' else id ∉ p'.running) ∧
      p'.running.length + p.reqIndex ≤ p.running.length + p'.reqIndex := by
  induction fuel generalizing p with
  | zero =>
    have hempty := List.length_eq_zero_iff.mp (Nat.le_zero.mp hfuel)
    have hhere := h.here
    simp [hempty] at hhere
  | succ fuel ih =>
    rw [makeRoom] at hroom
    dsimp only at hroom
    split_ifs at hroom with hallocated
    · cases hroom
      exact ⟨(h.withServices _).toRunInv, h.withServices _, le_rfl⟩
    · simp only [bind_eq_ok] at hroom
      obtain ⟨⟨victim, q⟩, hevict, hroom⟩ := hroom
      obtain ⟨hrun, hother, hmem, herase, hleft⟩ := evict_spec (h.withServices _) hevict
      dsimp only at hmem herase hleft hroom
      split_ifs at hroom with hvictim
      · cases hroom
        refine ⟨hrun, ?_, hleft⟩
        rw [if_neg Bool.false_ne_true, herase, hvictim]
        exact h.queues.nodup_running.not_mem_erase
      · have hlength : q.running.length ≤ fuel := by
          rw [herase, List.length_erase_of_mem hmem]
          omega
        obtain ⟨hrun', hroom', hleft'⟩ := ih (hother hvictim) hlength hroom
        exact ⟨hrun', hroom', by omega⟩

end ChampionRuntime.Scheduler
