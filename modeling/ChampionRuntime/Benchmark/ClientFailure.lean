import Mathlib.Data.Int.Basic
import Mathlib.Data.List.Basic
import Mathlib.Logic.Function.Basic
import Mathlib.Tactic.Common

/-!
# Client failures of a benchmark attempt

The probe does not see when the server accepts a request. It reads acceptance
off the exception of a failed request and off the success counter, scraped
before the first request and after the last worker has ended. Every other party
acts between the two scrapes in any order.
-/
namespace ChampionRuntime.Benchmark.Probe

/-- What opening the request, reading and decoding its response raise. -/
inductive Raised where
  | httpError (text : String)
  | connection (text : String)
  | other (text : String)
  deriving DecidableEq, Repr

inductive WorkerError where
  | httpFailure (text : String) (accepted : Bool)
  | plain (text : String)
  deriving DecidableEq, Repr

/-- The handlers of `_request`. An `HTTPError` is an `OSError` too, its handler stands first. -/
def request : Raised → WorkerError
  | .httpError text => .httpFailure text true
  | .connection text => .httpFailure text false
  | .other text => .plain text

def WorkerError.text : WorkerError → String
  | .httpFailure text _ => text
  | .plain text => text

def WorkerError.isAccepted : WorkerError → Bool
  | .httpFailure _ accepted => accepted
  | .plain _ => false

structure Classification where
  valid : Bool
  invalidation : Option String
  gate : Option String
  failure : Option String
  deriving DecidableEq, Repr

def classifyWorkerFailure (acceptedRequests : ℤ) : Classification :=
  if acceptedRequests = 0 then ⟨false, some "client-failure-before-acceptance", none, none⟩
  else ⟨true, none, some "FAIL", some "client-failure-after-acceptance"⟩

inductive ProbeError where
  | plain (text : String)
  | idleRefusal (text : String)
  | contamination (text : String)
  | healthFailure (text : String)
  | counterReset (text : String)
  | workerFailure (text : String) (outcome : Classification)
  deriving DecidableEq, Repr

def ProbeError.text : ProbeError → String
  | .plain text | .idleRefusal text | .contamination text | .healthFailure text
  | .counterReset text | .workerFailure text _ => text

/-- The class attribute `invalidation`, where there is one. -/
def ProbeError.invalidation : ProbeError → Option String
  | .idleRefusal _ => some "idle-preflight"
  | .contamination _ => some "foreign-traffic"
  | .healthFailure _ | .counterReset _ => some "runtime-health-failure"
  | .plain _ | .workerFailure _ _ => none

def invalidationOutcomes : List String :=
  ["idle-preflight", "foreign-traffic", "unexpected-api-connection", "runtime-health-failure",
    "gpu-clock-cap-changed", "client-failure-before-acceptance"]

/-- The record an attempt leaves when it fails. -/
structure FailureRecord where
  outcome : Classification
  error : String
  deriving DecidableEq, Repr

def failureRecord (exc : ProbeError) : FailureRecord :=
  match exc with
  | .workerFailure text outcome => ⟨outcome, (text.take 500).toString⟩
  | exc =>
    let invalidation := exc.invalidation.getD "runtime-health-failure"
    ⟨⟨false, some (if invalidation ∈ invalidationOutcomes then invalidation
      else "runtime-health-failure"), none, none⟩, (exc.text.take 500).toString⟩

/-- One worker thread. `exited` is a thread that ends with neither result nor exception. -/
inductive Worker where
  | running
  | returned
  | raised (exc : Raised)
  | exited
  deriving DecidableEq, Repr

/-- How far the server has come with one request. -/
inductive Served where
  | unseen
  | accepted
  | succeeded
  deriving DecidableEq, Repr

/-- One concurrent pass. The server's side is `server` and `successTotal`; what
the client sees of it is `before`, `after` and what its workers ended with. -/
structure Pass where
  concurrency : ℕ
  before : ℤ
  successTotal : ℤ
  server : ℕ → Served
  worker : ℕ → Worker
  workerErrors : List WorkerError
  samplerErrors : List String
  after : Option ℤ

def Pass.start (concurrency : ℕ) (successTotal : ℤ) : Pass where
  concurrency
  before := successTotal
  successTotal
  server := fun _ => .unseen
  worker := fun _ => .running
  workerErrors := []
  samplerErrors := []
  after := none

def Pass.joined (pass : Pass) : Bool :=
  (List.range pass.concurrency).all (pass.worker · ≠ .running)

def Pass.completed (pass : Pass) : List ℕ :=
  (List.range pass.concurrency).filter (pass.worker · = .returned)

/-- The end of `run_concurrent` once the last worker is joined and the counter scraped. -/
def Pass.raise (pass : Pass) (after : ℤ) : Except ProbeError Unit :=
  let accepted := after - pass.before
  if accepted < 0 then
    .error (.counterReset "counter reset detected for vllm:request_success_total")
  else
    match pass.workerErrors with
    | error :: _ =>
      let transmitted := pass.workerErrors.any WorkerError.isAccepted
      .error (.workerFailure error.text
        (classifyWorkerFailure (max accepted (if transmitted then 1 else 0))))
    | [] =>
      match pass.samplerErrors with
      | error :: _ =>
        .error (.workerFailure ("metrics sampler failed: " ++ error)
          (classifyWorkerFailure accepted))
      | [] =>
        if pass.completed.length ≠ pass.concurrency then
          .error (.workerFailure "worker exited without a result" (classifyWorkerFailure accepted))
        else .ok ()

/-- What can happen next: on the server, on the way back, and on the client. -/
inductive Event where
  | accept (i : ℕ)
  | succeed (i : ℕ)
  | foreignSuccess
  | restart
  | deliver (i : ℕ)
  | fail (i : ℕ) (exc : Raised)
  | exit (i : ℕ)
  | samplerFails (text : String)
  | scrape
  | nextPass (concurrency : ℕ)
  | abort (exc : ProbeError)
  deriving DecidableEq, Repr

/-- A step of the server, or of a thread inside the pass. The server may take up a
request whose client has given up. -/
def Pass.step (pass : Pass) : Event → Option Pass
  | .accept i =>
    if i < pass.concurrency ∧ pass.server i = .unseen then
      some { pass with server := Function.update pass.server i .accepted }
    else none
  | .succeed i =>
    if pass.server i = .accepted then
      some { pass with server := Function.update pass.server i .succeeded,
                       successTotal := pass.successTotal + 1 }
    else none
  | .foreignSuccess => some { pass with successTotal := pass.successTotal + 1 }
  | .restart => some { pass with successTotal := 0 }
  | .deliver i =>
    if i < pass.concurrency ∧ pass.server i ≠ .unseen ∧ pass.worker i = .running then
      some { pass with worker := Function.update pass.worker i .returned }
    else none
  | .fail i exc =>
    if i < pass.concurrency ∧ pass.worker i = .running then
      some { pass with worker := Function.update pass.worker i (.raised exc),
                       workerErrors := pass.workerErrors ++ [request exc] }
    else none
  | .exit i =>
    if i < pass.concurrency ∧ pass.worker i = .running then
      some { pass with worker := Function.update pass.worker i .exited }
    else none
  | .samplerFails text =>
    if pass.after = none then
      some { pass with samplerErrors := pass.samplerErrors ++ [text] }
    else none
  | .scrape | .nextPass _ | .abort _ => none

/-- An attempt goes through its passes in order and stops at the first exception. -/
structure Attempt where
  finished : List Pass
  current : Pass
  error : Option ProbeError

def Attempt.start (concurrency : ℕ) (successTotal : ℤ) : Attempt :=
  ⟨[], Pass.start concurrency successTotal, none⟩

def Attempt.passes (attempt : Attempt) : List Pass := attempt.finished ++ [attempt.current]

/-- What the attempt's file records of its failure. -/
def Attempt.record (attempt : Attempt) : Option FailureRecord := attempt.error.map failureRecord

def raised? : Except ProbeError Unit → Option ProbeError
  | .error exc => some exc
  | .ok _ => none

/-- The scrape and what follows it are the main thread's. It raises a `WorkerFailure`
nowhere else; a refused preflight, a failed reconciliation or a sequential probe are `abort`. -/
def Attempt.step (attempt : Attempt) : Event → Option Attempt
  | .scrape =>
    let pass := attempt.current
    if attempt.error = none ∧ pass.after = none ∧ pass.joined = true then
      some { attempt with current := { pass with after := some pass.successTotal },
                          error := raised? (pass.raise pass.successTotal) }
    else none
  | .nextPass concurrency =>
    if attempt.error = none ∧ attempt.current.after ≠ none then
      some ⟨attempt.passes, Pass.start concurrency attempt.current.successTotal, none⟩
    else none
  | .abort (.workerFailure _ _) => none
  | .abort exc => if attempt.error = none then some { attempt with error := some exc } else none
  | event => (attempt.current.step event).map ({ attempt with current := · })

def Attempt.run (attempt : Attempt) (events : List Event) : Option Attempt :=
  events.foldlM Attempt.step attempt

/-- A request whose worker ended without a result. -/
def Pass.Failed (pass : Pass) (i : ℕ) : Prop := pass.worker i ≠ .running ∧ pass.worker i ≠ .returned

def Pass.Accepted (pass : Pass) (i : ℕ) : Prop := pass.server i ≠ .unseen

/-- Marked invalid as a client failure before acceptance. -/
def Classification.Discards (outcome : Classification) : Prop :=
  outcome.valid = false ∧ outcome.invalidation = some "client-failure-before-acceptance"

def Attempt.Discarded (attempt : Attempt) : Prop :=
  ∃ record, attempt.record = some record ∧ record.outcome.Discards

/-- Where the server accepted a request that failed, some request of the pass was answered with
an HTTP error status, or the success counter stood elsewhere at the second scrape. -/
def Attempt.AcceptanceShows (attempt : Attempt) : Prop :=
  ∀ after, attempt.current.after = some after →
    ∀ i, attempt.current.Failed i → attempt.current.Accepted i →
      (∃ j text, attempt.current.worker j = .raised (.httpError text)) ∨
        after ≠ attempt.current.before

variable {pass pass' : Pass} {attempt attempt' : Attempt} {event : Event} {events : List Event}

/-- What a worker's end adds to `worker_errors`. -/
def Worker.collected : Worker → List WorkerError
  | .raised exc => [request exc]
  | .running | .returned | .exited => []

theorem Worker.mem_collected {worker : Worker} {error : WorkerError} :
    error ∈ worker.collected ↔ ∃ exc, worker = .raised exc ∧ request exc = error := by
  cases worker with
  | raised exc => simp [collected, eq_comm]
  | running => simp [collected]
  | returned => simp [collected]
  | exited => simp [collected]

structure Pass.Quiet (pass pass' : Pass) : Prop where
  worker : pass'.worker = pass.worker
  workerErrors : pass'.workerErrors = pass.workerErrors
  samplerErrors : pass.after ≠ none → pass'.samplerErrors = pass.samplerErrors

structure Pass.Ends (pass pass' : Pass) (i : ℕ) (ended : Worker) : Prop where
  within : i < pass.concurrency
  running : pass.worker i = .running
  stopped : ended ≠ .running
  worker : pass'.worker = Function.update pass.worker i ended
  workerErrors : pass'.workerErrors = pass.workerErrors ++ ended.collected

/-- What a step inside the pass can do to what the client holds. -/
structure Pass.Moves (pass pass' : Pass) : Prop where
  concurrency : pass'.concurrency = pass.concurrency
  before : pass'.before = pass.before
  after : pass'.after = pass.after
  workers : pass.Quiet pass' ∨ ∃ i ended, pass.Ends pass' i ended

theorem Pass.step_moves (h : pass.step event = some pass') : pass.Moves pass' := by
  cases event with
  | accept i =>
    simp only [step, Option.ite_none_right_eq_some, Option.some.injEq] at h
    obtain ⟨-, rfl⟩ := h
    exact ⟨rfl, rfl, rfl, .inl ⟨rfl, rfl, fun _ => rfl⟩⟩
  | succeed i =>
    simp only [step, Option.ite_none_right_eq_some, Option.some.injEq] at h
    obtain ⟨-, rfl⟩ := h
    exact ⟨rfl, rfl, rfl, .inl ⟨rfl, rfl, fun _ => rfl⟩⟩
  | foreignSuccess =>
    cases h
    exact ⟨rfl, rfl, rfl, .inl ⟨rfl, rfl, fun _ => rfl⟩⟩
  | restart =>
    cases h
    exact ⟨rfl, rfl, rfl, .inl ⟨rfl, rfl, fun _ => rfl⟩⟩
  | deliver i =>
    simp only [step, Option.ite_none_right_eq_some, Option.some.injEq] at h
    obtain ⟨⟨hi, -, hrunning⟩, rfl⟩ := h
    exact ⟨rfl, rfl, rfl, .inr ⟨i, .returned, hi, hrunning, nofun, rfl, by simp [Worker.collected]⟩⟩
  | fail i exc =>
    simp only [step, Option.ite_none_right_eq_some, Option.some.injEq] at h
    obtain ⟨⟨hi, hrunning⟩, rfl⟩ := h
    exact ⟨rfl, rfl, rfl, .inr ⟨i, .raised exc, hi, hrunning, nofun, rfl, rfl⟩⟩
  | exit i =>
    simp only [step, Option.ite_none_right_eq_some, Option.some.injEq] at h
    obtain ⟨⟨hi, hrunning⟩, rfl⟩ := h
    exact ⟨rfl, rfl, rfl, .inr ⟨i, .exited, hi, hrunning, nofun, rfl, by simp [Worker.collected]⟩⟩
  | samplerFails text =>
    simp only [step, Option.ite_none_right_eq_some, Option.some.injEq] at h
    obtain ⟨hafter, rfl⟩ := h
    exact ⟨rfl, rfl, rfl, .inl ⟨rfl, rfl, fun hne => absurd hafter hne⟩⟩
  | scrape => cases h
  | nextPass concurrency => cases h
  | abort exc => cases h

/-- `worker_errors` holds what the workers raised. -/
structure Pass.Collects (pass : Pass) : Prop where
  within : ∀ i, pass.worker i ≠ .running → i < pass.concurrency
  errors : ∀ error, error ∈ pass.workerErrors ↔
    ∃ i exc, pass.worker i = .raised exc ∧ request exc = error

theorem Pass.collects_start (concurrency : ℕ) (total : ℤ) :
    (Pass.start concurrency total).Collects where
  within := fun i h => absurd rfl h
  errors := fun error => by simp [start]

theorem Pass.Ends.collects {i : ℕ} {ended : Worker} (h : pass.Ends pass' i ended)
    (hconcurrency : pass'.concurrency = pass.concurrency) (hcollects : pass.Collects) :
    pass'.Collects where
  within := by
    intro j hj
    rw [hconcurrency]
    by_cases hji : j = i
    · rw [hji]
      exact h.within
    · rw [h.worker, Function.update_of_ne hji] at hj
      exact hcollects.within j hj
  errors := by
    intro error
    rw [h.workerErrors, List.mem_append, hcollects.errors, Worker.mem_collected, h.worker]
    constructor
    · rintro (⟨j, exc, hj, herror⟩ | ⟨exc, hexc, herror⟩)
      · have hji : j ≠ i := by
          rintro rfl
          rw [h.running] at hj
          cases hj
        exact ⟨j, exc, by rwa [Function.update_of_ne hji], herror⟩
      · exact ⟨i, exc, by rwa [Function.update_self], herror⟩
    · rintro ⟨j, exc, hj, herror⟩
      by_cases hji : j = i
      · rw [hji, Function.update_self] at hj
        exact .inr ⟨exc, hj, herror⟩
      · rw [Function.update_of_ne hji] at hj
        exact .inl ⟨j, exc, hj, herror⟩

theorem Pass.Moves.collects (h : pass.Moves pass') (hcollects : pass.Collects) :
    pass'.Collects := by
  obtain hquiet | ⟨i, ended, hends⟩ := h.workers
  · constructor
    · intro i hi
      rw [h.concurrency]
      rw [hquiet.worker] at hi
      exact hcollects.within i hi
    · intro error
      rw [hquiet.workerErrors, hquiet.worker]
      exact hcollects.errors error
  · exact hends.collects h.concurrency hcollects

theorem Pass.joined_iff : pass.joined = true ↔ ∀ i < pass.concurrency, pass.worker i ≠ .running := by
  simp [joined]

/-- Once the workers are joined and the counter is scraped, what is raised stands. -/
theorem Pass.Moves.settled (h : pass.Moves pass') (hjoined : pass.joined = true)
    (hafter : pass.after ≠ none) :
    pass'.joined = true ∧ pass'.worker = pass.worker ∧ pass'.raise = pass.raise := by
  obtain hquiet | ⟨i, ended, hends⟩ := h.workers
  · have hcompleted : pass'.completed = pass.completed := by
      rw [completed, completed, h.concurrency, hquiet.worker]
    refine ⟨?_, hquiet.worker, ?_⟩
    · rw [joined, h.concurrency, hquiet.worker]
      exact hjoined
    · funext after
      simp only [raise, h.before, h.concurrency, hquiet.workerErrors, hquiet.samplerErrors hafter,
        hcompleted]
  · exact absurd hends.running (joined_iff.mp hjoined i hends.within)

theorem Pass.returned_of_raise_eq_ok {after : ℤ} (h : pass.raise after = .ok ()) :
    ∀ i < pass.concurrency, pass.worker i = .returned := by
  unfold raise at h
  dsimp only at h
  by_cases hreset : after - pass.before < 0
  · rw [if_pos hreset] at h
    cases h
  rw [if_neg hreset] at h
  cases herrors : pass.workerErrors with
  | cons error rest =>
    rw [herrors] at h
    cases h
  | nil =>
    cases hsampler : pass.samplerErrors with
    | cons error rest =>
      rw [herrors, hsampler] at h
      cases h
    | nil =>
      rw [herrors, hsampler] at h
      by_cases hmissing : pass.completed.length ≠ pass.concurrency
      · simp [hmissing] at h
      intro i hi
      have hall : pass.completed.length = (List.range pass.concurrency).length := by
        rw [List.length_range]
        exact not_not.mp hmissing
      have hreturned := List.length_filter_eq_length_iff.mp hall i (List.mem_range.mpr hi)
      exact of_decide_eq_true hreturned

/-- What holds of an attempt at every point of its run. -/
structure Attempt.Kept (attempt : Attempt) : Prop where
  finished : ∀ pass ∈ attempt.finished, ∀ i, ¬ pass.Failed i
  current : attempt.current.Collects
  joined : attempt.current.after ≠ none → attempt.current.joined = true
  raised : ∀ after, attempt.current.after = some after →
    ∀ exc, attempt.current.raise after = .error exc → attempt.error = some exc
  failure : ∀ text outcome, attempt.error = some (.workerFailure text outcome) →
    ∃ after, attempt.current.after = some after ∧
      attempt.current.raise after = .error (.workerFailure text outcome)

theorem Attempt.kept_start (concurrency : ℕ) (total : ℤ) :
    (Attempt.start concurrency total).Kept where
  finished := nofun
  current := Pass.collects_start concurrency total
  joined := fun h => absurd rfl h
  raised := nofun
  failure := nofun

theorem Attempt.Kept.move (hkept : attempt.Kept) (h : attempt.current.Moves pass') :
    ({ attempt with current := pass' } : Attempt).Kept where
  finished := hkept.finished
  current := h.collects hkept.current
  joined := by
    intro hafter
    rw [h.after] at hafter
    exact (h.settled (hkept.joined hafter) hafter).1
  raised := by
    intro after hafter exc hraise
    rw [h.after] at hafter
    have hsome : attempt.current.after ≠ none := by simp [hafter]
    rw [(h.settled (hkept.joined hsome) hsome).2.2] at hraise
    exact hkept.raised after hafter exc hraise
  failure := by
    intro text outcome herror
    obtain ⟨after, hafter, hraise⟩ := hkept.failure text outcome herror
    have hsome : attempt.current.after ≠ none := by simp [hafter]
    refine ⟨after, h.after.trans hafter, ?_⟩
    rw [(h.settled (hkept.joined hsome) hsome).2.2]
    exact hraise

theorem raised?_eq_some {result : Except ProbeError Unit} {exc : ProbeError} :
    raised? result = some exc ↔ result = .error exc := by
  cases result <;> simp [raised?]

theorem Attempt.Kept.scrape (hkept : attempt.Kept) (h : attempt.step .scrape = some attempt') :
    attempt'.Kept := by
  simp only [step, Option.ite_none_right_eq_some, Option.some.injEq] at h
  obtain ⟨⟨-, -, hjoined⟩, rfl⟩ := h
  constructor
  · exact hkept.finished
  · exact ⟨hkept.current.within, hkept.current.errors⟩
  · exact fun _ => hjoined
  · intro after hafter exc hraise
    cases hafter
    exact raised?_eq_some.mpr hraise
  · intro text outcome herror
    exact ⟨_, rfl, raised?_eq_some.mp herror⟩

theorem Attempt.Kept.nextPass {concurrency : ℕ} (hkept : attempt.Kept)
    (h : attempt.step (.nextPass concurrency) = some attempt') : attempt'.Kept := by
  simp only [step, Option.ite_none_right_eq_some, Option.some.injEq] at h
  obtain ⟨⟨hnone, hafter⟩, rfl⟩ := h
  constructor
  · intro pass hpass i hfailed
    rcases List.mem_append.mp hpass with hpass | hpass
    · exact hkept.finished pass hpass i hfailed
    · rw [List.mem_singleton] at hpass
      subst hpass
      obtain ⟨after, hscraped⟩ := Option.ne_none_iff_exists'.mp hafter
      have hok : attempt.current.raise after = .ok () := by
        cases hraise : attempt.current.raise after with
        | ok _ => rfl
        | error exc =>
          rw [hkept.raised after hscraped exc hraise] at hnone
          cases hnone
      have hi := hkept.current.within i hfailed.1
      exact hfailed.2 (Pass.returned_of_raise_eq_ok hok i hi)
  · exact Pass.collects_start _ _
  · exact fun h => absurd rfl h
  · exact nofun
  · exact nofun

theorem Attempt.Kept.abort {exc : ProbeError} (hkept : attempt.Kept)
    (h : attempt.step (.abort exc) = some attempt') : attempt'.Kept := by
  have hplain : (∀ text outcome, exc ≠ .workerFailure text outcome) ∧ attempt.error = none ∧
      attempt' = { attempt with error := some exc } := by
    cases exc with
    | workerFailure text outcome => cases h
    | plain | idleRefusal | contamination | healthFailure | counterReset =>
      simp only [step, Option.ite_none_right_eq_some, Option.some.injEq] at h
      exact ⟨nofun, h.1, h.2.symm⟩
  obtain ⟨hplain, hnone, rfl⟩ := hplain
  constructor
  · exact hkept.finished
  · exact hkept.current
  · exact hkept.joined
  · intro after hafter raised hraise
    have := hkept.raised after hafter raised hraise
    rw [hnone] at this
    cases this
  · intro text outcome herror
    exact absurd (Option.some.inj herror) (hplain text outcome)

theorem Attempt.Kept.inside (hkept : attempt.Kept)
    (h : (attempt.current.step event).map ({ attempt with current := · }) = some attempt') :
    attempt'.Kept := by
  obtain ⟨pass', hstep, rfl⟩ := Option.map_eq_some_iff.mp h
  exact hkept.move (Pass.step_moves hstep)

theorem Attempt.Kept.step (hkept : attempt.Kept) (h : attempt.step event = some attempt') :
    attempt'.Kept := by
  cases event with
  | scrape => exact hkept.scrape h
  | nextPass concurrency => exact hkept.nextPass h
  | abort exc => exact hkept.abort h
  | accept i => exact hkept.inside h
  | succeed i => exact hkept.inside h
  | foreignSuccess =>
    have hstep : (attempt.current.step .foreignSuccess).map
        ({ attempt with current := · }) = some attempt' := h
    exact hkept.inside hstep
  | restart =>
    have hstep : (attempt.current.step .restart).map
        ({ attempt with current := · }) = some attempt' := h
    exact hkept.inside hstep
  | deliver i => exact hkept.inside h
  | fail i exc => exact hkept.inside h
  | exit i => exact hkept.inside h
  | samplerFails text => exact hkept.inside h

theorem Attempt.Kept.run (hkept : attempt.Kept) (h : attempt.run events = some attempt') :
    attempt'.Kept := by
  induction events generalizing attempt with
  | nil =>
    cases h
    exact hkept
  | cons event events ih =>
    obtain ⟨next, hstep, hrest⟩ := Option.bind_eq_some_iff.mp h
    exact ih (hkept.step hstep) hrest

theorem classifyWorkerFailure_discards {accepted : ℤ} :
    (classifyWorkerFailure accepted).Discards ↔ accepted = 0 := by
  unfold classifyWorkerFailure Classification.Discards
  split_ifs with h
  · simp [h]
  · simp [h]

theorem failureRecord_discards {exc : ProbeError} :
    (failureRecord exc).outcome.Discards ↔
      ∃ text outcome, exc = .workerFailure text outcome ∧ outcome.Discards := by
  unfold Classification.Discards
  cases exc with
  | workerFailure text outcome => simp [failureRecord]
  | plain text => simp [failureRecord, ProbeError.invalidation, invalidationOutcomes]
  | idleRefusal text => simp [failureRecord, ProbeError.invalidation, invalidationOutcomes]
  | contamination text => simp [failureRecord, ProbeError.invalidation, invalidationOutcomes]
  | healthFailure text => simp [failureRecord, ProbeError.invalidation, invalidationOutcomes]
  | counterReset text => simp [failureRecord, ProbeError.invalidation, invalidationOutcomes]

/-- A pass with a failed request is discarded exactly when the counter has not moved and no
exception says that the request was accepted. -/
theorem Pass.raise_discards_iff {after : ℤ} {i : ℕ} (hcollects : pass.Collects)
    (hfailed : pass.Failed i) :
    (∃ text outcome, pass.raise after = .error (.workerFailure text outcome) ∧
        outcome.Discards) ↔
      after = pass.before ∧ ∀ error ∈ pass.workerErrors, error.isAccepted = false := by
  unfold raise
  dsimp only
  by_cases hreset : after - pass.before < 0
  · rw [if_pos hreset]
    constructor
    · rintro ⟨text, outcome, h, -⟩
      cases h
    · rintro ⟨rfl, -⟩
      omega
  rw [if_neg hreset]
  cases herrors : pass.workerErrors with
  | cons error rest =>
    simp only [Except.error.injEq, ProbeError.workerFailure.injEq]
    constructor
    · rintro ⟨text, outcome, ⟨-, rfl⟩, h⟩
      have hzero := classifyWorkerFailure_discards.mp h
      split_ifs at hzero with hany
      · omega
      · refine ⟨by omega, ?_⟩
        simpa using hany
    · rintro ⟨hsame, hnone⟩
      refine ⟨_, _, ⟨rfl, rfl⟩, classifyWorkerFailure_discards.mpr ?_⟩
      have hany : ¬ (error :: rest).any WorkerError.isAccepted = true := by simpa using hnone
      rw [if_neg hany]
      omega
  | nil =>
    have hmissing : pass.completed.length ≠ pass.concurrency := by
      intro hall
      rw [← List.length_range (n := pass.concurrency)] at hall
      have hi := List.mem_range.mpr (hcollects.within i hfailed.1)
      exact hfailed.2 (of_decide_eq_true (List.length_filter_eq_length_iff.mp hall i hi))
    cases hsampler : pass.samplerErrors with
    | cons error rest =>
      simp only [Except.error.injEq, ProbeError.workerFailure.injEq]
      constructor
      · rintro ⟨text, outcome, ⟨-, rfl⟩, h⟩
        have hzero := classifyWorkerFailure_discards.mp h
        exact ⟨by omega, nofun⟩
      · rintro ⟨hsame, -⟩
        exact ⟨_, _, ⟨rfl, rfl⟩, classifyWorkerFailure_discards.mpr (by omega)⟩
    | nil =>
      simp only [if_pos hmissing, Except.error.injEq, ProbeError.workerFailure.injEq]
      constructor
      · rintro ⟨text, outcome, ⟨-, rfl⟩, h⟩
        have hzero := classifyWorkerFailure_discards.mp h
        exact ⟨by omega, nofun⟩
      · rintro ⟨hsame, -⟩
        exact ⟨_, _, ⟨rfl, rfl⟩, classifyWorkerFailure_discards.mpr (by omega)⟩

theorem request_isAccepted {exc : Raised} :
    (request exc).isAccepted = true ↔ ∃ text, exc = .httpError text := by
  cases exc with
  | httpError text => simp [request, WorkerError.isAccepted]
  | connection text => simp [request, WorkerError.isAccepted]
  | other text => simp [request, WorkerError.isAccepted]

theorem Pass.Collects.none_accepted_iff (hcollects : pass.Collects) :
    (∀ error ∈ pass.workerErrors, error.isAccepted = false) ↔
      ¬ ∃ j text, pass.worker j = .raised (.httpError text) := by
  constructor
  · rintro hnone ⟨j, text, hj⟩
    have hmem := (hcollects.errors _).mpr ⟨j, .httpError text, hj, rfl⟩
    cases hnone _ hmem
  · intro hnone error hmem
    obtain ⟨j, exc, hj, rfl⟩ := (hcollects.errors error).mp hmem
    rw [← Bool.not_eq_true, request_isAccepted]
    rintro ⟨text, rfl⟩
    exact hnone ⟨j, text, hj⟩

theorem Attempt.Kept.discarded_iff (hkept : attempt.Kept) :
    attempt.Discarded ↔ ∃ after, attempt.current.after = some after ∧
      ∃ text outcome, attempt.current.raise after = .error (.workerFailure text outcome) ∧
        outcome.Discards := by
  constructor
  · rintro ⟨record, hrecord, hdiscards⟩
    obtain ⟨exc, herror, rfl⟩ := Option.map_eq_some_iff.mp hrecord
    obtain ⟨text, outcome, rfl, houtcome⟩ := failureRecord_discards.mp hdiscards
    obtain ⟨after, hafter, hraise⟩ := hkept.failure text outcome herror
    exact ⟨after, hafter, text, outcome, hraise, houtcome⟩
  · rintro ⟨after, hafter, text, outcome, hraise, houtcome⟩
    have herror := hkept.raised after hafter _ hraise
    refine ⟨failureRecord (.workerFailure text outcome), ?_, ?_⟩
    · rw [record, herror, Option.map_some]
    · exact failureRecord_discards.mpr ⟨text, outcome, rfl, houtcome⟩

/-- Over every run of an attempt: that no failed request of a discarded attempt was accepted
rests on acceptance showing in an HTTP error or in the counter. -/
theorem discarded_unaccepted_iff {concurrency : ℕ} {total : ℤ}
    (h : (Attempt.start concurrency total).run events = some attempt) :
    (attempt.Discarded → ∀ pass ∈ attempt.passes, ∀ i, pass.Failed i → ¬ pass.Accepted i) ↔
      attempt.AcceptanceShows := by
  have hkept := (Attempt.kept_start concurrency total).run h
  constructor
  · intro hsound after hafter i hfailed haccepted
    by_contra hhidden
    push Not at hhidden
    have hnone : ¬ ∃ j text, attempt.current.worker j = .raised (.httpError text) := by
      rintro ⟨j, text, hj⟩
      exact hhidden.1 j text hj
    have hraise := (Pass.raise_discards_iff hkept.current hfailed).mpr
      ⟨hhidden.2, hkept.current.none_accepted_iff.mpr hnone⟩
    have hdiscarded := hkept.discarded_iff.mpr ⟨after, hafter, hraise⟩
    have hmem : attempt.current ∈ attempt.passes := by simp [Attempt.passes]
    exact hsound hdiscarded attempt.current hmem i hfailed haccepted
  · intro hshows hdiscarded pass hpass i hfailed haccepted
    rcases List.mem_append.mp hpass with hpass | hpass
    · exact hkept.finished pass hpass i hfailed
    rw [List.mem_singleton] at hpass
    subst hpass
    obtain ⟨after, hafter, hraise⟩ := hkept.discarded_iff.mp hdiscarded
    have hhidden := (Pass.raise_discards_iff hkept.current hfailed).mp hraise
    rcases hshows after hafter i hfailed haccepted with hhttp | hmoved
    · exact hkept.current.none_accepted_iff.mp hhidden.2 hhttp
    · exact hmoved hhidden.1

/-- The server takes up the one request, the client times out before it completes, and the
attempt is discarded as if the server had never seen it. -/
theorem discarded_accepted :
    ∃ attempt, (Attempt.start 1 0).run
        [.accept 0, .fail 0 (.connection "timed out"), .scrape] = some attempt ∧
      attempt.Discarded ∧ ∃ pass ∈ attempt.passes, ∃ i, pass.Failed i ∧ pass.Accepted i := by
  refine ⟨_, rfl, ⟨_, rfl, rfl, rfl⟩, _, List.mem_singleton_self _, 0, ?_, ?_⟩
  · exact ⟨by decide, by decide⟩
  · exact show Served.accepted ≠ .unseen by decide

/-- Two requests are refused, and the attempt is discarded. -/
theorem discarded_unaccepted_refused :
    ∃ attempt, (Attempt.start 2 7).run
        [.fail 0 (.connection "refused"), .fail 1 (.connection "refused"), .scrape] = some attempt ∧
      attempt.Discarded ∧ attempt.current.Failed 1 ∧
      ∀ pass ∈ attempt.passes, ∀ i, pass.Failed i → ¬ pass.Accepted i := by
  obtain ⟨attempt, h, hdiscarded, hfailed, hunseen⟩ : ∃ attempt, (Attempt.start 2 7).run
        [.fail 0 (.connection "refused"), .fail 1 (.connection "refused"), .scrape] = some attempt ∧
      attempt.Discarded ∧ attempt.current.Failed 1 ∧ ∀ i, ¬ attempt.current.Accepted i := by
    refine ⟨_, rfl, ⟨_, rfl, rfl, rfl⟩, ⟨by decide, by decide⟩, fun i haccepted => ?_⟩
    exact haccepted rfl
  refine ⟨attempt, h, hdiscarded, hfailed, (discarded_unaccepted_iff h).mpr ?_ hdiscarded⟩
  exact fun _ _ i _ haccepted => absurd haccepted (hunseen i)

end ChampionRuntime.Benchmark.Probe
