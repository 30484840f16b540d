import ChampionRuntime.Lib.Pool
import ChampionRuntime.Lib.StableSort
import ChampionRuntime.Scheduler.Rotation

/-!
# Which long prefills get a turn

The waiting candidates are cut to the free places first. Free places are counted without
the paused streaming sessions, which the loop over the waiting queues counts as well.
-/
namespace ChampionRuntime.Scheduler

open Lib

variable {σ : Type} (cfg : Config)

namespace State

variable (s : State σ)

def runningLongPrefills : List RequestId :=
  s.running.filter fun id => isLongPrefillRequest cfg (s.request id)

def waitingLongPrefills : List RequestId :=
  ((s.waiting ++ s.skippedWaiting).filter fun id =>
    id ∉ s.runningLongPrefills cfg ∧ isLongPrefillRequest cfg (s.request id)).eraseDups

/-- `admittable`: the free places as the selection counts them. -/
def admittable : ℕ := cfg.maxNumRunningReqs - s.running.length

def pruned : State σ := (s.selectLongPrefillRequestIds cfg).2

/-- The oldest waiting candidates, one for each free place. -/
def oldestWaiting : List RequestId :=
  ((s.pruned cfg).byAge (s.waitingLongPrefills cfg)).take (s.admittable cfg)

/-- The candidates the selection is made of. -/
def allowedLongPrefills : List RequestId :=
  s.runningLongPrefills cfg ++
    (s.waitingLongPrefills cfg).filter fun id => id ∈ s.oldestWaiting cfg

variable {cfg s}

theorem selected_eq (haware : cfg.enableDecodeAwarePrefill = true) :
    (s.selectLongPrefillRequestIds cfg).1 =
      ((s.pruned cfg).byAge (s.allowedLongPrefills cfg)).take cfg.maxLongPrefillsPerStep := by
  unfold allowedLongPrefills oldestWaiting pruned selectLongPrefillRequestIds
  rw [if_neg (by simp [haware])]
  rfl

theorem not_running_of_waiting {id : RequestId} (hid : id ∈ s.waitingLongPrefills cfg) :
    id ∉ s.runningLongPrefills cfg := by
  have hmem := (List.mem_filter.mp (List.mem_eraseDups.mp hid)).2
  exact (of_decide_eq_true hmem).1

theorem nodup_waitingLongPrefills : (s.waitingLongPrefills cfg).Nodup := nodup_eraseDups _

theorem selected_of_room (haware : cfg.enableDecodeAwarePrefill = true)
    (hroom : cfg.maxLongPrefillsPerStep ≤ s.admittable cfg) :
    (s.selectLongPrefillRequestIds cfg).1 =
      ((s.pruned cfg).byAge (s.runningLongPrefills cfg ++ s.waitingLongPrefills cfg)).take
        cfg.maxLongPrefillsPerStep := by
  rw [selected_eq haware]
  exact take_insertionSort_append _ (fun _ hid => not_running_of_waiting hid) hroom

theorem length_waiting_selected_le (haware : cfg.enableDecodeAwarePrefill = true) :
    ((s.selectLongPrefillRequestIds cfg).1.filter fun id =>
      id ∈ s.waitingLongPrefills cfg).length ≤ s.admittable cfg := by
  have hpart : (s.allowedLongPrefills cfg).filter (fun id => id ∈ s.waitingLongPrefills cfg) =
      (s.waitingLongPrefills cfg).filter fun id => id ∈ s.oldestWaiting cfg := by
    rw [allowedLongPrefills, List.filter_append, List.filter_eq_nil_iff.mpr, List.nil_append,
      List.filter_eq_self.mpr]
    · intro id hid
      exact decide_eq_true (List.mem_of_mem_filter hid)
    · intro id hid hwaiting
      exact not_running_of_waiting (of_decide_eq_true hwaiting) hid
  have hsub : (s.waitingLongPrefills cfg).filter (fun id => id ∈ s.oldestWaiting cfg) ⊆
      s.oldestWaiting cfg := by
    intro id hid
    exact of_decide_eq_true (List.mem_filter.mp hid).2
  have hnodup : ((s.waitingLongPrefills cfg).filter fun id => id ∈ s.oldestWaiting cfg).Nodup :=
    nodup_waitingLongPrefills.filter _
  rw [selected_eq haware]
  calc _ ≤ (((s.pruned cfg).byAge (s.allowedLongPrefills cfg)).filter fun id =>
        id ∈ s.waitingLongPrefills cfg).length :=
        ((List.take_sublist _ _).filter _).length_le
    _ = ((s.allowedLongPrefills cfg).filter fun id => id ∈ s.waitingLongPrefills cfg).length :=
        (((s.pruned cfg).perm_byAge _).filter _).length_eq
    _ ≤ (s.oldestWaiting cfg).length := by
        rw [hpart]
        exact (hnodup.subperm hsub).length_le
    _ ≤ s.admittable cfg := List.length_take_le _ _

theorem selected_older (haware : cfg.enableDecodeAwarePrefill = true) {id x : RequestId}
    (hid : id ∈ s.allowedLongPrefills cfg) (hnot : id ∉ (s.selectLongPrefillRequestIds cfg).1)
    (hx : x ∈ (s.selectLongPrefillRequestIds cfg).1) : (s.pruned cfg).OlderOrEqual x id := by
  rw [selected_eq haware] at hnot hx
  exact ((s.pruned cfg).older_of_not_mem_take hid hnot).2 x hx

end State

variable {cfg}

/-- For all queues, ages and arrival times: with a free place for every turn the selection
is the beginning of all candidates by age, the running ones before the waiting ones among
equals. Otherwise it is that of the running ones and of the oldest waiting ones. -/
theorem long_prefill_selection (s : State σ) :
    (cfg.enableDecodeAwarePrefill = false → (s.selectLongPrefillRequestIds cfg).1 = []) ∧
    (cfg.enableDecodeAwarePrefill = true →
      (cfg.maxLongPrefillsPerStep ≤ s.admittable cfg →
        (s.selectLongPrefillRequestIds cfg).1 =
          ((s.pruned cfg).byAge (s.runningLongPrefills cfg ++ s.waitingLongPrefills cfg)).take
            cfg.maxLongPrefillsPerStep) ∧
      (s.selectLongPrefillRequestIds cfg).1.length ≤ cfg.maxLongPrefillsPerStep ∧
      ((s.selectLongPrefillRequestIds cfg).1.filter fun id =>
        id ∈ s.waitingLongPrefills cfg).length ≤ s.admittable cfg ∧
      (∀ x ∈ (s.selectLongPrefillRequestIds cfg).1, x ∈ s.allowedLongPrefills cfg) ∧
      (∀ id ∈ s.allowedLongPrefills cfg, id ∉ (s.selectLongPrefillRequestIds cfg).1 →
        ∀ x ∈ (s.selectLongPrefillRequestIds cfg).1, (s.pruned cfg).OlderOrEqual x id) ∧
      ∀ id ∈ s.waitingLongPrefills cfg, id ∉ s.oldestWaiting cfg →
        ∀ x ∈ s.oldestWaiting cfg, (s.pruned cfg).OlderOrEqual x id) := by
  constructor
  · intro hunaware
    unfold State.selectLongPrefillRequestIds
    rw [if_pos hunaware]
  · intro haware
    refine ⟨State.selected_of_room haware, State.length_selected_le cfg s,
      State.length_waiting_selected_le haware, ?_, ?_, ?_⟩
    · intro x hx
      rw [State.selected_eq haware] at hx
      exact ((s.pruned cfg).perm_byAge _).mem_iff.mp (List.mem_of_mem_take hx)
    · intro id hid hnot x hx
      exact State.selected_older haware hid hnot hx
    · intro id hid hnot x hx
      exact ((s.pruned cfg).older_of_not_mem_take hid hnot).2 x hx

namespace State

variable (cfg)

/-- The loop over the waiting queues breaks before it admits any request. -/
def AtCapacity (s : State σ) : Prop :=
  (cfg.maxNumRunningReqs : ℤ) ≤ s.running.length + s.numWaitingForStreamingInput

instance (s : State σ) : Decidable (s.AtCapacity cfg) := inferInstanceAs (Decidable (_ ≤ _))

/-- The running requests leave no place, or enough running candidates go before every
waiting one. -/
def RunningFirst (s : State σ) : Prop :=
  cfg.enableDecodeAwarePrefill = false ∨ s.admittable cfg = 0 ∨
    ∀ id ∈ s.waitingLongPrefills cfg, cfg.maxLongPrefillsPerStep ≤
      ((s.runningLongPrefills cfg).filter fun x => (s.pruned cfg).OlderOrEqual x id).length

variable {cfg} {s : State σ}

theorem selected_allowed (haware : cfg.enableDecodeAwarePrefill = true) {id : RequestId}
    (hid : id ∈ (s.selectLongPrefillRequestIds cfg).1) :
    id ∈ s.runningLongPrefills cfg ∨
      id ∈ s.waitingLongPrefills cfg ∧ id ∈ s.oldestWaiting cfg := by
  rw [selected_eq haware] at hid
  have hmem := ((s.pruned cfg).perm_byAge _).mem_iff.mp (List.mem_of_mem_take hid)
  rcases List.mem_append.mp hmem with hrunning | hwaiting
  · exact .inl hrunning
  · obtain ⟨hin, hold⟩ := List.mem_filter.mp hwaiting
    exact .inr ⟨hin, of_decide_eq_true hold⟩

/-- If a place is free and a waiting candidate is left, the oldest one is allowed. -/
theorem exists_oldestWaiting (hroom : s.admittable cfg ≠ 0) {id : RequestId}
    (hid : id ∈ s.waitingLongPrefills cfg) :
    ∃ first ∈ s.waitingLongPrefills cfg, first ∈ s.oldestWaiting cfg ∧
      (s.pruned cfg).OlderOrEqual first id := by
  have hperm := (s.pruned cfg).perm_byAge (s.waitingLongPrefills cfg)
  have hsorted : ((s.pruned cfg).byAge (s.waitingLongPrefills cfg)).Pairwise
      (s.pruned cfg).OlderOrEqual := List.pairwise_insertionSort _ _
  have hmem := hperm.mem_iff.mpr hid
  obtain ⟨n, hn⟩ := Nat.exists_eq_succ_of_ne_zero hroom
  cases hage : (s.pruned cfg).byAge (s.waitingLongPrefills cfg) with
  | nil =>
    rw [hage] at hmem
    exact absurd hmem List.not_mem_nil
  | cons first rest =>
    rw [hage] at hmem hsorted hperm
    refine ⟨first, hperm.mem_iff.mp List.mem_cons_self, ?_, ?_⟩
    · rw [oldestWaiting, hage, hn, List.take_succ_cons]
      exact List.mem_cons_self
    · rcases List.mem_cons.mp hmem with rfl | hrest
      · exact or_self_iff.mp (Std.Total.total _ _)
      · exact (List.pairwise_cons.mp hsorted).1 id hrest

theorem selected_running_iff (hdisjoint : ∀ id ∈ s.waitingLongPrefills cfg, id ∉ s.running) :
    (∀ id ∈ (s.selectLongPrefillRequestIds cfg).1, id ∈ s.running) ↔ s.RunningFirst cfg := by
  cases haware : cfg.enableDecodeAwarePrefill with
  | false =>
    apply iff_of_true
    · intro id hid
      rw [(long_prefill_selection s).1 haware] at hid
      exact absurd hid List.not_mem_nil
    · exact .inl haware
  | true =>
    constructor
    · intro hrunning
      by_contra hfirst
      unfold RunningFirst at hfirst
      push Not at hfirst
      obtain ⟨-, hroom, id, hid, hfew⟩ := hfirst
      obtain ⟨first, hwaiting, hold, hfirst⟩ := exists_oldestWaiting hroom hid
      have hallowed : first ∈ s.allowedLongPrefills cfg :=
        List.mem_append_right _ (List.mem_filter.mpr ⟨hwaiting, decide_eq_true hold⟩)
      have hnot : first ∉ (s.selectLongPrefillRequestIds cfg).1 := fun hin =>
        hdisjoint first hwaiting (hrunning first hin)
      have holder := fun x hx => selected_older (x := x) haware hallowed hnot hx
      rw [selected_eq haware] at hnot
      have hlength := ((s.pruned cfg).older_of_not_mem_take hallowed hnot).1
      rw [← selected_eq haware] at hlength
      -- All that is selected runs and is older than the waiting candidate.
      have hkept : (s.selectLongPrefillRequestIds cfg).1.filter (fun x =>
          x ∈ s.runningLongPrefills cfg ∧ (s.pruned cfg).OlderOrEqual x id) =
          (s.selectLongPrefillRequestIds cfg).1 := by
        rw [List.filter_eq_self]
        intro x hx
        have hruns := (selected_allowed haware hx).resolve_right fun h =>
          hdisjoint x h.1 (hrunning x hx)
        exact decide_eq_true ⟨hruns, IsTrans.trans x first id (holder x hx) hfirst⟩
      have hpart : (s.allowedLongPrefills cfg).filter (fun x =>
          x ∈ s.runningLongPrefills cfg ∧ (s.pruned cfg).OlderOrEqual x id) =
          (s.runningLongPrefills cfg).filter fun x => (s.pruned cfg).OlderOrEqual x id := by
        rw [allowedLongPrefills, List.filter_append]
        have hnone : ((s.waitingLongPrefills cfg).filter fun x => x ∈ s.oldestWaiting cfg).filter
            (fun x => x ∈ s.runningLongPrefills cfg ∧ (s.pruned cfg).OlderOrEqual x id) = [] := by
          rw [List.filter_eq_nil_iff]
          intro x hx hruns
          exact not_running_of_waiting (List.mem_of_mem_filter hx) (of_decide_eq_true hruns).1
        rw [hnone, List.append_nil]
        apply List.filter_congr
        intro x hx
        simp [hx]
      have hcount : (s.selectLongPrefillRequestIds cfg).1.length ≤
          ((s.runningLongPrefills cfg).filter fun x => (s.pruned cfg).OlderOrEqual x id).length := by
        rw [← hpart, ← (((s.pruned cfg).perm_byAge (s.allowedLongPrefills cfg)).filter _).length_eq,
          ← hkept, selected_eq haware]
        exact ((List.take_sublist _ _).filter _).length_le
      omega
    · intro hfirst id hid
      rcases selected_allowed haware hid with hruns | ⟨hwaiting, hold⟩
      · exact List.mem_of_mem_filter hruns
      · exfalso
        rcases hfirst with hunaware | hfull | henough
        · rw [haware] at hunaware
          contradiction
        · rw [oldestWaiting, hfull, List.take_zero] at hold
          exact absurd hold List.not_mem_nil
        · rw [selected_eq haware] at hid
          apply not_mem_take_insertionSort_append (s.pruned cfg).OlderOrEqual ?_ ?_ ?_
            (henough id hwaiting) hid
          · intro x hx
            exact not_running_of_waiting (List.mem_of_mem_filter hx)
          · exact nodup_waitingLongPrefills.filter _
          · exact List.mem_filter.mpr ⟨hwaiting, decide_eq_true hold⟩

end State

variable {svc : Services σ} {ctx : StepContext}

theorem waitingLoop_at_capacity {p : Pass σ} (h : p.toState.AtCapacity cfg) (fuel : ℕ) :
    waitingLoop cfg svc ctx fuel p = .ok p := by
  cases fuel with
  | zero => rfl
  | succ fuel =>
    unfold waitingLoop
    unfold State.AtCapacity at h
    cases p.selectWaitingQueue cfg svc with
    | none => rfl
    | some selected =>
      dsimp only
      split_ifs
      · rfl
      · rfl

/-- In every reachable state: the turns of a step that begins at capacity
all go to running requests exactly when these leave no place or come first by age. -/
theorem turns_at_capacity_iff {Q : Engine σ → Action σ → Prop} {e : Engine σ}
    (hreached : Engine.Reached cfg svc Q e) (throttlePrefills : Bool) :
    (e.state.AtCapacity cfg →
      ∀ id ∈ (beginStep cfg throttlePrefills e.state).1.selectedLongPrefillIds,
        id ∈ e.state.running) ↔
      (e.state.AtCapacity cfg → e.state.RunningFirst cfg) := by
  have hdisjoint : ∀ id ∈ e.state.waitingLongPrefills cfg, id ∉ e.state.running := by
    intro id hid hruns
    have hqueued := List.mem_of_mem_filter (List.mem_eraseDups.mp hid)
    exact hreached.queues.not_mem_queued hruns (List.mem_append_left _ hqueued)
  have hselected : (beginStep cfg throttlePrefills e.state).1.selectedLongPrefillIds =
      (e.state.selectLongPrefillRequestIds cfg).1 := by
    show (State.selectLongPrefillRequestIds cfg
      { e.state with currentStep := e.state.currentStep + 1 }).1 = _
    unfold State.selectLongPrefillRequestIds
    by_cases hunaware : cfg.enableDecodeAwarePrefill = false
    · rw [if_pos hunaware, if_pos hunaware]
    · rw [if_neg hunaware, if_neg hunaware]
      rfl
  rw [hselected]
  exact imp_congr_right fun _ => State.selected_running_iff hdisjoint

/-- Two places, and one turn for a long prefill. -/
def twoPlaces : Config where
  maxNumRunningReqs := 2
  maxNumScheduledTokens := 100
  maxModelLen := 1000
  longPrefillTokenThreshold := 4
  enableDecodeAwarePrefill := true

/-- Streaming sessions stop behind their first token. -/
def Services.stopping : Services (List Bool) where
  __ := Services.scripted
  checkStop r _ := if r.resumable then some .finishedStopped else none
  checkStop_finished := by
    intro r _ status h
    split_ifs at h
    cases h
    rfl

/-- A decode and a long prefill fill both places. The turn stays with the long prefill,
though an older long prompt waits. -/
theorem turns_at_capacity_iff_full :
    ∃ e : Engine (List Bool), e.state.AtCapacity twoPlaces ∧
      e.state.running = ["decode", "running"] ∧ e.state.waiting = ["waiting"] ∧
      isLongPrefillRequest twoPlaces (e.state.request "waiting") = true ∧
      (e.state.longPrefillAge "waiting").1 < (e.state.longPrefillAge "running").1 ∧
      (beginStep twoPlaces false e.state).1.selectedLongPrefillIds = ["running"] ∧
      ∀ id ∈ (beginStep twoPlaces false e.state).1.selectedLongPrefillIds, id ∈ e.state.running := by
  have hstart : Engine.Reached twoPlaces .stopping (fun _ _ => True)
      { state := emptyState [] } := .start (emptyState_initial [])
  have hdecode := hstart.act (a := .addRequest "decode" (prompt 1) none) trivial rfl
  have hfirst := hdecode.act (a := .schedule false) trivial rfl
  have hfirstRun := hfirst.act (a := .execute) trivial rfl
  have hsampled := hfirstRun.act (a := .updateFromOutput (samplingFor ["decode"])) trivial rfl
  have hlong := hsampled.act (a := .addRequest "running" (prompt 250) none) trivial rfl
  have hsecond := hlong.act (a := .schedule false) trivial rfl
  have hsecondRun := hsecond.act (a := .execute) trivial rfl
  have hchunk := hsecondRun.act (a := .updateFromOutput (samplingFor ["decode"])) trivial rfl
  have hwaiting := hchunk.act (a := .addRequest "waiting" (prompt 10) none) trivial rfl
  have hcapacity := (turns_at_capacity_iff hwaiting false).mpr fun _ => .inr (.inl rfl)
  exact ⟨_, by decide, rfl, rfl, rfl, by decide, rfl, hcapacity (by decide)⟩

/-- A session pauses and a long prefill runs, which fills both places. The turn goes to a
request that waits. -/
theorem paused_session_wastes_turn :
    ∃ e : Engine (List Bool), Engine.Reached twoPlaces .stopping (fun _ _ => True) e ∧
      e.state.AtCapacity twoPlaces ∧ e.state.running = ["running"] ∧
      isLongPrefillRequest twoPlaces (e.state.request "running") = true ∧
      (beginStep twoPlaces false e.state).1.selectedLongPrefillIds = ["waiting"] := by
  have hstart : Engine.Reached twoPlaces .stopping (fun _ _ => True)
      { state := emptyState [] } := .start (emptyState_initial [])
  have hsession := hstart.act
    (a := .addRequest "session" { prompt 3 with resumable := true } none) trivial rfl
  have hfirst := hsession.act (a := .schedule false) trivial rfl
  have hfirstRun := hfirst.act (a := .execute) trivial rfl
  have hpaused := hfirstRun.act (a := .updateFromOutput (samplingFor ["session"])) trivial rfl
  have hlong := hpaused.act (a := .addRequest "running" (prompt 250) none) trivial rfl
  have hsecond := hlong.act (a := .schedule false) trivial rfl
  have hsecondRun := hsecond.act (a := .execute) trivial rfl
  have hchunk := hsecondRun.act (a := .updateFromOutput (samplingFor [])) trivial rfl
  have hwaiting := hchunk.act (a := .addRequest "waiting" (prompt 10) none) trivial rfl
  exact ⟨_, hwaiting, by decide, rfl, rfl, rfl⟩

end ChampionRuntime.Scheduler
