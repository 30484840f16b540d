import ChampionRuntime.Lib.Outcome
import Mathlib.Data.List.Forall2
import Mathlib.Data.List.Range
import Mathlib.Tactic

/-!
# The draft token buffer

The runner keeps the drafts of every request in a row as wide as the largest
depth, refreshes the columns of the selected depth, and hands whole rows on to
the scheduler. Each cell carries the step that wrote it.
-/
namespace ChampionRuntime.Decoding

open Lib

/-- A draft token and the step whose `propose` wrote it. -/
structure Cell where
  token : ℤ
  step : ℕ

/-- `req_states.draft_tokens`: the cell of a slot and a column. -/
def DraftBuffer : Type := ℕ → ℕ → Cell

/-- The requests of a step with the slots they live in. -/
structure StepBatch where
  requests : List (String × ℕ)
  hasStructuredOutputReqs : Bool
  nodup_slots : (requests.map Prod.snd).Nodup

/-- What a speculator returns: a row for each request, `width` columns wide. -/
structure Proposal where
  width : ℕ
  token : ℕ → ℕ → ℤ

structure DraftTokensHandler where
  reqIds : List String := []
  draftTokensNp : Option (List (List ℤ)) := none
  numDraftTokens : ℕ := 0

structure RunnerState where
  draftTokens : DraftBuffer
  handler : DraftTokensHandler

/-- The buffer of a fresh runner is zero. -/
def RunnerState.initial : RunnerState where
  draftTokens := fun _ _ => ⟨0, 0⟩
  handler := {}

/-- `limit_draft_tokens`; the result is the number of columns that are kept. -/
def limitDraftTokens (width numSpeculativeTokens maxNumSpeculativeTokens : ℕ) :
    Except String ℕ := do
  require (1 ≤ numSpeculativeTokens ∧ numSpeculativeTokens ≤ maxNumSpeculativeTokens)
    ("Scheduler selected an invalid speculative-token count " ++ toString numSpeculativeTokens ++
      "; expected a value between 1 and " ++ toString maxNumSpeculativeTokens ++ ".")
  if width = 0 then return 0
  else
    require (numSpeculativeTokens ≤ width)
      ("Speculator returned too few draft tokens (" ++ toString width ++ "); expected at least " ++
        toString numSpeculativeTokens ++ ".")
    return numSpeculativeTokens

/-- `draft_tokens[idx_mapping, :num_draft_tokens] = draft_tokens` -/
def refresh (buffer : DraftBuffer) (step : ℕ) (slots : List ℕ) (numDraftTokens : ℕ)
    (proposal : Proposal) : DraftBuffer := fun slot column =>
  if slot ∈ slots ∧ column < numDraftTokens then
    ⟨proposal.token (slots.idxOf slot) column, step⟩
  else buffer slot column

/-- `set_draft_tokens`, on the rows of the batch at their full width. -/
def setDraftTokens (batch : StepBatch) (buffer : DraftBuffer) (width : ℕ) : DraftTokensHandler where
  reqIds := batch.requests.map Prod.fst
  numDraftTokens := width
  draftTokensNp :=
    if batch.hasStructuredOutputReqs then
      some (batch.requests.map fun request =>
        (List.range width).map fun column : ℕ => (buffer request.2 column).token)
    else none

/-- Stands for a column of the buffer, which the next step reads there. -/
def placeholder : ℤ := -1

/-- `get_draft_tokens`; without structured outputs placeholders stand for the columns. -/
def getDraftTokens (handler : DraftTokensHandler) : List (String × List ℤ) :=
  match handler.draftTokensNp with
  | some rows => handler.reqIds.zip rows
  | none => handler.reqIds.map fun reqId =>
    (reqId, List.replicate handler.numDraftTokens placeholder)

/-- The part of `sample_tokens` behind `propose`. -/
def sampleTokens (numSpeculativeSteps step : ℕ) (batch : StepBatch)
    (numSpecTokensToSchedule : ℕ) (proposal : Proposal) (state : RunnerState) :
    Except String RunnerState := do
  let numDraftTokens ←
    limitDraftTokens proposal.width numSpecTokensToSchedule numSpeculativeSteps
  let draftTokens :=
    if 0 < numDraftTokens then
      refresh state.draftTokens step (batch.requests.map Prod.snd) numDraftTokens proposal
    else state.draftTokens
  return {
    draftTokens
    handler := if 0 < numSpeculativeSteps then setDraftTokens batch draftTokens numSpeculativeSteps
      else state.handler }

/-- What `update_draft_token_ids` reads and writes of a request. -/
structure DraftRequest where
  isFinished : Bool
  isPrefillChunk : Bool
  /-- `structured_output_manager.should_advance` -/
  shouldAdvance : Bool
  specTokenIds : List ℤ

/-- One request of `update_draft_token_ids`. -/
def receiveDrafts (validateTokens : String → List ℤ → List ℤ) (reqId : String)
    (specTokenIds : List ℤ) (request : DraftRequest) : DraftRequest :=
  if request.isFinished then request
  else if request.isPrefillChunk then { request with specTokenIds := [] }
  else if request.shouldAdvance then
    { request with specTokenIds := validateTokens reqId specTokenIds }
  else { request with specTokenIds := specTokenIds }

def updateDraftTokenIds (validateTokens : String → List ℤ → List ℤ)
    (draftTokenIds : List (String × List ℤ)) (requests : String → Option DraftRequest) :
    String → Option DraftRequest :=
  draftTokenIds.foldl (fun requests p =>
    Function.update requests p.1 ((requests p.1).map (receiveDrafts validateTokens p.1 p.2))) requests

/-- A step: its batch, the selected depth, the drafts, and the scheduler's requests
when the drafts arrive. -/
structure DraftStep where
  batch : StepBatch
  depth : ℕ
  proposal : Proposal
  requests : String → Option DraftRequest

structure Handover where
  step : ℕ
  input : DraftStep
  draftTokens : DraftBuffer
  draftTokenIds : List (String × List ℤ)
  requests : String → Option DraftRequest

/-- Steps one after another without async scheduling: each hands its drafts over
before the next one starts. -/
def runSteps (numSpeculativeSteps : ℕ) (validateTokens : String → List ℤ → List ℤ) :
    ℕ → RunnerState → List DraftStep → Except String (List Handover)
  | _, _, [] => .ok []
  | step, state, input :: inputs => do
    let state ← sampleTokens numSpeculativeSteps step input.batch input.depth input.proposal state
    let draftTokenIds := getDraftTokens state.handler
    let handover : Handover := {
      step
      input
      draftTokens := state.draftTokens
      draftTokenIds
      requests := updateDraftTokenIds validateTokens draftTokenIds input.requests }
    let handovers ← runSteps numSpeculativeSteps validateTokens (step + 1) state inputs
    return handover :: handovers

/-- What `propose` returned for the request of a slot. -/
def DraftStep.proposed (input : DraftStep) (slot column : ℕ) : ℤ :=
  input.proposal.token ((input.batch.requests.map Prod.snd).idxOf slot) column

/-- The cell of a column holds the draft that this step's `propose` made for the request
of the slot, and the token handed over is that draft, or stands for the cell where no
structured output needs the draft itself. -/
structure Handover.HandsProposed (h : Handover) (slot column : ℕ) (token : ℤ) : Prop where
  cell : h.draftTokens slot column = ⟨h.input.proposed slot column, h.step⟩
  token : token =
    if h.input.batch.hasStructuredOutputReqs then h.input.proposed slot column else placeholder

/-- Every request of the step is handed as many drafts as the depth, each of them one
that this step's `propose` made for it. -/
def Handover.Fresh (h : Handover) : Prop :=
  List.Forall₂ (fun request drafts => drafts.1 = request.1 ∧ drafts.2.length = h.input.depth ∧
    ∀ column token, drafts.2[column]? = some token → h.HandsProposed request.2 column token)
    h.input.batch.requests h.draftTokenIds

/-- The selected depth is the largest one and drafts were made, or there is no request. -/
def DraftStep.FullDepth (numSpeculativeSteps : ℕ) (input : DraftStep) : Prop :=
  input.batch.requests = [] ∨ input.depth = numSpeculativeSteps ∧ 0 < input.proposal.width

/-- The requests of the step are verified with no more drafts than the depth. -/
def Handover.Bounded (h : Handover) : Prop :=
  ∀ request ∈ h.input.batch.requests, ∀ r, h.requests request.1 = some r →
    r.isFinished = false → r.specTokenIds.length ≤ h.input.depth

section Step

variable {numSpeculativeSteps step : ℕ} {batch : StepBatch} {depth : ℕ} {proposal : Proposal}
  {state state' : RunnerState}

theorem limitDraftTokens_eq_ok {width kept : ℕ}
    (h : limitDraftTokens width depth numSpeculativeSteps = .ok kept) :
    1 ≤ depth ∧ depth ≤ numSpeculativeSteps ∧
      (width = 0 ∧ kept = 0 ∨ 0 < width ∧ kept = depth) := by
  simp only [limitDraftTokens, bind_eq_ok, require_eq_ok, decide_eq_true_eq] at h
  obtain ⟨-, ⟨hone, hmax⟩, h⟩ := h
  refine ⟨hone, hmax, ?_⟩
  split_ifs at h with hwidth
  · exact .inl ⟨hwidth, (pure_eq_ok.mp h).symm⟩
  · simp only [bind_eq_ok, pure_eq_ok] at h
    obtain ⟨-, -, rfl⟩ := h
    exact .inr ⟨Nat.pos_of_ne_zero hwidth, rfl⟩

/-- A step writes the columns of its depth for the slots of its batch, if it has drafts. -/
theorem sampleTokens_eq_ok
    (h : sampleTokens numSpeculativeSteps step batch depth proposal state = .ok state') :
    1 ≤ depth ∧ depth ≤ numSpeculativeSteps ∧
      state'.draftTokens = (if 0 < proposal.width then
        refresh state.draftTokens step (batch.requests.map Prod.snd) depth proposal
        else state.draftTokens) ∧
      state'.handler = setDraftTokens batch state'.draftTokens numSpeculativeSteps := by
  simp only [sampleTokens, bind_eq_ok, pure_eq_ok] at h
  obtain ⟨kept, hkept, rfl⟩ := h
  obtain ⟨hone, hmax, hwidth⟩ := limitDraftTokens_eq_ok hkept
  refine ⟨hone, hmax, ?_, if_pos (by omega)⟩
  rcases hwidth with ⟨hnone, rfl⟩ | ⟨hsome, rfl⟩
  · simp [hnone]
  · rw [if_pos hsome, if_pos (by omega)]

/-- Cells older than a step stay so until the step, and none is newer after it. -/
theorem step_lt_of_sampleTokens
    (h : sampleTokens numSpeculativeSteps step batch depth proposal state = .ok state')
    (hold : ∀ slot column, (state.draftTokens slot column).step < step) (slot column : ℕ) :
    (state'.draftTokens slot column).step < step + 1 := by
  obtain ⟨-, -, htokens, -⟩ := sampleTokens_eq_ok h
  have hcell := hold slot column
  rw [htokens]
  split_ifs
  · unfold refresh
    split_ifs
    · exact Nat.lt_succ_self step
    · exact Nat.lt_succ_of_lt hcell
  · exact Nat.lt_succ_of_lt hcell

/-- The handler hands over one list for each request, as long as the buffer is wide. -/
theorem getDraftTokens_setDraftTokens (batch : StepBatch) (buffer : DraftBuffer) (width : ℕ) :
    getDraftTokens (setDraftTokens batch buffer width) = batch.requests.map fun request =>
      (request.1, (List.range width).map fun column : ℕ =>
        if batch.hasStructuredOutputReqs then (buffer request.2 column).token else placeholder) := by
  unfold getDraftTokens setDraftTokens
  cases batch.hasStructuredOutputReqs with
  | true => simp [List.zip_map']
  | false =>
    simp only [Bool.false_eq_true, if_false, List.map_map, List.map_const', List.length_range]
    rfl

theorem refresh_eq {slots : List ℕ} {slot column : ℕ} (buffer : DraftBuffer)
    (hslot : slot ∈ slots) (hcolumn : column < depth) :
    refresh buffer step slots depth proposal slot column =
      ⟨proposal.token (slots.idxOf slot) column, step⟩ := if_pos ⟨hslot, hcolumn⟩

/-- A handover is fresh exactly when the step ran at the largest depth and had drafts. -/
theorem fresh_iff {h : Handover}
    (hstep : sampleTokens numSpeculativeSteps h.step h.input.batch h.input.depth
      h.input.proposal state = .ok state')
    (htokens : h.draftTokens = state'.draftTokens)
    (hids : h.draftTokenIds = getDraftTokens state'.handler)
    (hold : ∀ slot column, (state.draftTokens slot column).step < h.step) :
    h.Fresh ↔ h.input.FullDepth numSpeculativeSteps := by
  obtain ⟨hone, hmax, hbuffer, hhandler⟩ := sampleTokens_eq_ok hstep
  rw [hhandler, getDraftTokens_setDraftTokens] at hids
  unfold Handover.Fresh
  rw [hids, List.forall₂_map_right_iff, List.forall₂_same]
  have hrange : ∀ column i : ℕ, (List.range numSpeculativeSteps)[column]? = some i ↔
      column < numSpeculativeSteps ∧ column = i := by
    intro column i
    simp [List.getElem?_eq_some_iff]
  simp only [List.length_map, List.length_range, true_and, List.getElem?_map,
    Option.map_eq_some_iff, hrange]
  constructor
  · intro hfresh
    unfold DraftStep.FullDepth
    cases hrequests : h.input.batch.requests with
    | nil => exact .inl rfl
    | cons request requests =>
      obtain ⟨hdepth, hcolumns⟩ := hfresh request (by simp [hrequests])
      have hfirst := (hcolumns 0 _ ⟨0, ⟨by omega, rfl⟩, rfl⟩).cell
      refine .inr ⟨hdepth.symm, ?_⟩
      -- without drafts the first column would be older than the step
      by_contra hnone
      rw [htokens, hbuffer, if_neg hnone] at hfirst
      have hlt := hold request.2 0
      rw [hfirst] at hlt
      exact absurd hlt (lt_irrefl h.step)
  · intro hfull request hrequest
    rcases hfull with hempty | ⟨hdepth, hwidth⟩
    · rw [hempty] at hrequest
      cases hrequest
    · refine ⟨hdepth.symm, ?_⟩
      rintro column _ ⟨_, ⟨hcolumn, rfl⟩, rfl⟩
      have hcell : h.draftTokens request.2 column =
          ⟨h.input.proposed request.2 column, h.step⟩ := by
        rw [htokens, hbuffer, if_pos hwidth]
        exact refresh_eq state.draftTokens (List.mem_map_of_mem hrequest) (by omega)
      refine ⟨hcell, ?_⟩
      rw [← htokens, hcell]

end Step

section Scheduler

variable {validateTokens : String → List ℤ → List ℤ} {depth : ℕ}

theorem receiveDrafts_bounded
    (hvalidate : ∀ reqId drafts, (validateTokens reqId drafts).length ≤ drafts.length)
    {reqId : String} {drafts : List ℤ} {request : DraftRequest} (hdrafts : drafts.length ≤ depth)
    (hlive : (receiveDrafts validateTokens reqId drafts request).isFinished = false) :
    (receiveDrafts validateTokens reqId drafts request).specTokenIds.length ≤ depth := by
  have hvalid := hvalidate reqId drafts
  unfold receiveDrafts at hlive ⊢
  split_ifs at hlive ⊢ with hfinished hchunk hadvance
  · simp [hfinished] at hlive
  · exact Nat.zero_le depth
  · exact hvalid.trans hdrafts
  · exact hdrafts

@[simp] theorem updateDraftTokenIds_cons (p : String × List ℤ) (rest : List (String × List ℤ))
    (requests : String → Option DraftRequest) :
    updateDraftTokenIds validateTokens (p :: rest) requests =
      updateDraftTokenIds validateTokens rest (Function.update requests p.1
        ((requests p.1).map (receiveDrafts validateTokens p.1 p.2))) := rfl

theorem updateDraftTokenIds_bounded
    (hvalidate : ∀ reqId drafts, (validateTokens reqId drafts).length ≤ drafts.length)
    {draftTokenIds : List (String × List ℤ)} (hdrafts : ∀ p ∈ draftTokenIds, p.2.length ≤ depth)
    {requests : String → Option DraftRequest} {reqId : String}
    (hreqId : reqId ∈ draftTokenIds.map Prod.fst ∨ ∀ r, requests reqId = some r →
      r.isFinished = false → r.specTokenIds.length ≤ depth)
    (r : DraftRequest) (hr : updateDraftTokenIds validateTokens draftTokenIds requests reqId = some r)
    (hlive : r.isFinished = false) : r.specTokenIds.length ≤ depth := by
  induction draftTokenIds generalizing requests with
  | nil =>
    rcases hreqId with hnone | hbound
    · simp at hnone
    · exact hbound r hr hlive
  | cons p rest ih =>
    rw [updateDraftTokenIds_cons] at hr
    apply ih (fun q hq => hdrafts q (List.mem_cons_of_mem p hq)) _ hr
    by_cases hname : reqId = p.1
    · right
      intro request hrequest hopen
      rw [hname, Function.update_self, Option.map_eq_some_iff] at hrequest
      obtain ⟨received, -, rfl⟩ := hrequest
      exact receiveDrafts_bounded hvalidate (hdrafts p List.mem_cons_self) hopen
    · rw [Function.update_of_ne hname]
      simpa [hname] using hreqId

theorem exists_of_forall₂_mem {α β : Type} {R : α → β → Prop} {as : List α} {bs : List β}
    (h : List.Forall₂ R as bs) {a : α} (ha : a ∈ as) : ∃ b ∈ bs, R a b := by
  induction h with
  | nil => simp at ha
  | cons hab _ ih =>
    rcases List.mem_cons.mp ha with rfl | ha
    · exact ⟨_, List.mem_cons_self, hab⟩
    · obtain ⟨b, hb, hab⟩ := ih ha
      exact ⟨b, List.mem_cons_of_mem _ hb, hab⟩

theorem bounded_of_fresh {h : Handover}
    (hvalidate : ∀ reqId drafts, (validateTokens reqId drafts).length ≤ drafts.length)
    (hrequests : h.requests = updateDraftTokenIds validateTokens h.draftTokenIds h.input.requests)
    (hfresh : h.Fresh) : h.Bounded := by
  intro request hrequest
  rw [hrequests]
  apply updateDraftTokenIds_bounded hvalidate
  · intro p hp
    obtain ⟨_, -, -, hlength, -⟩ := exists_of_forall₂_mem hfresh.flip hp
    exact hlength.le
  · obtain ⟨drafts, hdrafts, hname, -⟩ := exists_of_forall₂_mem hfresh hrequest
    exact .inl (hname ▸ List.mem_map_of_mem hdrafts)

end Scheduler

section Runs

variable {numSpeculativeSteps : ℕ} {validateTokens : String → List ℤ → List ℤ}

/-- Every handover of a run comes from a step over cells that are older than it. -/
theorem exists_of_mem_runSteps {step : ℕ} {state : RunnerState} {inputs : List DraftStep}
    {handovers : List Handover}
    (hrun : runSteps numSpeculativeSteps validateTokens step state inputs = .ok handovers)
    (hold : ∀ slot column, (state.draftTokens slot column).step < step)
    {h : Handover} (hmem : h ∈ handovers) :
    ∃ before after,
      sampleTokens numSpeculativeSteps h.step h.input.batch h.input.depth h.input.proposal before =
        .ok after ∧
      h.draftTokens = after.draftTokens ∧ h.draftTokenIds = getDraftTokens after.handler ∧
      h.requests = updateDraftTokenIds validateTokens h.draftTokenIds h.input.requests ∧
      ∀ slot column, (before.draftTokens slot column).step < h.step := by
  induction inputs generalizing step state handovers with
  | nil =>
    cases hrun
    simp at hmem
  | cons input inputs ih =>
    simp only [runSteps, bind_eq_ok, pure_eq_ok] at hrun
    obtain ⟨state', hstep, rest, hrest, rfl⟩ := hrun
    rcases List.mem_cons.mp hmem with rfl | hmem
    · exact ⟨state, state', hstep, rfl, rfl, rfl, hold⟩
    · exact ih hrest (step_lt_of_sampleTokens hstep hold) hmem

/-- In every run a step's drafts are fresh, and bound the next verification, exactly
when the step ran at the largest depth and had drafts. -/
theorem drafts_fresh_iff_full_depth (inputs : List DraftStep) (handovers : List Handover)
    (hvalidate : ∀ reqId drafts, (validateTokens reqId drafts).length ≤ drafts.length)
    (hrun : runSteps numSpeculativeSteps validateTokens 1 .initial inputs = .ok handovers) :
    ∀ h ∈ handovers, h.Fresh ∧ h.Bounded ↔ h.input.FullDepth numSpeculativeSteps := by
  intro h hmem
  have hinitial : ∀ slot column, (RunnerState.initial.draftTokens slot column).step < 1 :=
    fun _ _ => Nat.zero_lt_one
  obtain ⟨before, after, hstep, htokens, hids, hrequests, hold⟩ :=
    exists_of_mem_runSteps hrun hinitial hmem
  have hfresh := fresh_iff hstep htokens hids hold
  constructor
  · intro hboth
    exact hfresh.mp hboth.1
  · intro hfull
    have hhanded : h.Fresh := hfresh.mpr hfull
    exact ⟨hhanded, bounded_of_fresh hvalidate hrequests hhanded⟩

/-- One request in slot 3, drafted two tokens deep and then one. -/
def narrowingSteps : List DraftStep :=
  [2, 1].map fun depth => {
    batch := ⟨[("req", 3)], true, by simp⟩
    depth
    proposal := ⟨depth, fun _ column => 10 * depth + column⟩
    requests := fun _ => some ⟨false, false, false, []⟩ }

theorem drafts_fresh_iff_full_depth_first :
    ∃ handovers h, runSteps 2 (fun _ drafts => drafts) 1 .initial narrowingSteps = .ok handovers ∧
      handovers[0]? = some h ∧ h.Fresh ∧ h.Bounded := by
  refine ⟨_, _, rfl, rfl, ?_⟩
  exact (drafts_fresh_iff_full_depth narrowingSteps _ (fun _ _ => le_rfl) rfl _
    List.mem_cons_self).mpr (.inr ⟨rfl, by decide⟩)

/-- The narrower step hands over two tokens, and the second is from the step before. -/
theorem narrowed_depth_hands_stale :
    ∃ handovers h, runSteps 2 (fun _ drafts => drafts) 1 .initial narrowingSteps = .ok handovers ∧
      handovers[1]? = some h ∧ h.input.depth = 1 ∧ h.step = 2 ∧
      h.draftTokenIds = [("req", [10, 21])] ∧ h.draftTokens 3 1 = ⟨21, 1⟩ ∧
      ¬ h.Fresh ∧ ¬ h.Bounded := by
  refine ⟨_, _, rfl, rfl, rfl, rfl, rfl, rfl, ?_, ?_⟩
  · intro hfresh
    obtain ⟨drafts, hdrafts, -, hlength, -⟩ := exists_of_forall₂_mem hfresh List.mem_cons_self
    rw [List.mem_singleton.mp hdrafts] at hlength
    exact absurd hlength (by decide)
  · intro hbounded
    have htwo := hbounded ("req", 3) List.mem_cons_self _ rfl rfl
    exact absurd htwo (by decide)

end Runs

end ChampionRuntime.Decoding
