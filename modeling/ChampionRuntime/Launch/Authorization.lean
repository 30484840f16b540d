import ChampionRuntime.Launch.ClusterAgreement
import ChampionRuntime.Launch.FleetRuns

/-!
# The authorization of a compaction

`parse_launch_authorization` of `scripts/launch_cluster.sh` and what the script runs
with when it has loaded its cluster. The digest is SHA-256 in hexadecimal.
-/
namespace ChampionRuntime.Launch

open Lib Lib.PyText

structure Digest where
  sha256 : Text → Text
  hex : ∀ text, isHash (sha256 text) = true

/-- The text in front of the nonce is written with a backslash and a zero. -/
def Digest.compaction (digest : Digest) (nonce : Text) : Text :=
  digest.sha256 ("champion-fast-compaction-v1\\0".toList ++ nonce)

def Digest.run (digest : Digest) (runId : Text) : Text :=
  digest.sha256 ("champion-run-v1\\0".toList ++ runId)

inductive Refusal
  | verifyArguments
  | nonceOnce
  | unknownArgument (argument : Text)
  | nonceMissing
  | nonceForm
  | nonceOnlyFast
  | cluster (cause : FleetError)
  deriving DecidableEq

/-- The message in front of exit status 64. -/
def Refusal.message : Refusal → Option String
  | .verifyArguments => some "verify-hosts accepts no authorization arguments"
  | .nonceOnce => some "launch: --compaction-nonce must appear exactly once with a value"
  | .unknownArgument argument => some ("launch: unknown argument: " ++ String.ofList argument)
  | .nonceMissing =>
    some "launch fast requires --compaction-nonce with a fresh 32 hexadecimal character value"
  | .nonceForm => some "launch: --compaction-nonce must be exactly 32 hexadecimal characters"
  | .nonceOnlyFast => some "launch: --compaction-nonce is valid only for Fast"
  | .cluster _ => none

/-- `^[0-9A-Fa-f]{32}$` -/
def isNonce (nonce : Text) : Bool :=
  nonce.length == 32 && nonce.all fun c => isHexLower c || inRange 0x41 0x46 c

/-- The loop over the arguments; an empty value counts as none. -/
def parseNonce (nonce : Text) : List Text → Except Refusal Text
  | [] => .ok nonce
  | [argument] =>
    .error (if argument = "--compaction-nonce".toList then .nonceOnce else .unknownArgument argument)
  | argument :: value :: rest =>
    if argument = "--compaction-nonce".toList then
      if nonce.isEmpty then parseNonce value rest else .error .nonceOnce
    else .error (.unknownArgument argument)

def isFastProfile (profile : Text) : Bool :=
  profile == "fast".toList || profile == "fast-320k".toList

structure Invocation where
  shell : Shell
  arguments : List Text
  /-- the text of the configuration -/
  text : Text

namespace Invocation

variable (digest : Digest) (inv : Invocation)

/-- `${N:-default}` -/
def argument (index : ℕ) (default : String) : Text :=
  match inv.arguments[index]? with
  | some value => if value.isEmpty then default.toList else value
  | none => default.toList

def mode : Text := inv.argument 0 "launch"

def profile : Text := inv.argument 1 "fast"

/-- The arguments behind the mode and the profile. -/
def rest : List Text := if 2 ≤ inv.arguments.length then inv.arguments.drop 2 else []

/-- The nonce of the command line; without one it is empty. -/
def nonce : Except Refusal Text := do
  if inv.mode != "launch".toList then do
    require inv.rest.isEmpty .verifyArguments
    pure []
  else do
    let nonce ← parseNonce [] inv.rest
    if isFastProfile inv.profile then do
      require (!nonce.isEmpty) .nonceMissing
      require (isNonce nonce) .nonceForm
      pure nonce
    else do
      require nonce.isEmpty .nonceOnlyFast
      pure []

/-- `parse_launch_authorization`. -/
def nonceHash : Except Refusal Text := do
  let nonce ← inv.nonce
  pure (if nonce.isEmpty then [] else digest.compaction nonce)

/-- The script when its cluster is loaded. The file may assign any of these variables
once more. -/
def launcher : Except Refusal Launcher := do
  let nonceHash ← inv.nonceHash digest
  let loaded ← (fleetLoadCluster inv.shell inv.text).mapError .cluster
  let assigned (name : String) (value : Text) : Text := (loaded.value name.toList).getD value
  let cluster := loaded.cluster inv.shell
  pure {
    cluster
    mode := assigned "MODE" inv.mode
    profile := assigned "PROFILE" inv.profile
    runId := cluster.var "CHAMPION_RUN_ID"
    nonceHash := assigned "CHAMPION_COMPACTION_NONCE_HASH" nonceHash
    runHash := assigned "CHAMPION_COMPACTION_RUN_HASH" [] }

/-- The interpreter and the presets are those of the repository. -/
def own : Bool :=
  match fleetLoadCluster inv.shell inv.text with
  | .ok loaded =>
    (loaded.value "CHAMPION_ROOT".toList).getD inv.shell.root == inv.shell.root &&
      (loaded.value "CHAMPION_PYTHON".toList).getD python == python
  | .error _ => true
where
  python : Text := inv.shell.root ++ "/.venv/bin/python".toList

end Invocation

/-- The variables at the start: those of the lock are as the configuration and the
environment leave them. -/
def Launcher.start (launch : Launcher) (started readinessPassed : Bool) : Vars where
  lockPid := !(launch.cluster.var "CHAMPION_REMOTE_LOCK_PID").isEmpty
  writerOpen := launch.cluster.var "CHAMPION_REMOTE_LOCK_WRITER_OPEN" == "1".toList
  started := started
  readinessPassed := readinessPassed
  profile := launch.profile
  allocatorFloors := []
  readinessLogLines := []

def presetContract (canonical : Text) : Text :=
  if canonical = "fast-320k".toList then "fleet-uniform|computed|1".toList
  else if canonical = "balanced-650k".toList then "none|none|0".toList
  else "per-host|computed|1".toList

section Claims

variable (digest : Digest) (inv : Invocation) (launch : Launcher) (trace : List (Action × Reply))

/-- The repository's own programs print what they compute. -/
structure Genuine : Prop where
  contract : inv.own = true → ∀ canonical reply,
    (.passive (.probe (.run (.allocatorContract canonical))), reply) ∈ trace → reply.ok = true →
    reply.output = presetContract canonical
  runHash : inv.own = true → ∀ reply, (.passive (.probe (.run .runHash)), reply) ∈ trace →
    reply.ok = true → reply.output = digest.run launch.runId

/-- The mode and the profile are those of the command line, and a compaction has the
nonce of the command line. -/
structure Authorized : Prop where
  mode : launch.mode = inv.mode
  profile : launch.profile = inv.profile
  compaction : ∀ index reply, (.compact index, reply) ∈ trace → isFastProfile inv.profile = true ∧
    ∃ nonce, inv.nonce = .ok nonce ∧ isNonce nonce = true ∧
      (∃ root runHash reply, (.receipt root (digest.compaction nonce) runHash, reply) ∈ trace ∧
        reply.consumed = true) ∧
      ∀ root hash runHash reply, (.receipt root hash runHash, reply) ∈ trace →
        hash = digest.compaction nonce

/-- The script can come to the compaction. -/
structure CanCompact : Prop where
  able : launch.Able (!(launch.cluster.var "CHAMPION_REMOTE_LOCK_PID").isEmpty)
  contract : ∃ canonical, Launcher.profileName launch.profile = some canonical ∧
    (inv.own = true → canonical = "fast-320k".toList)

/-- The file assigns the variable no other value than the command line gave it. -/
def Invocation.Keeps (name : String) (given : Text) : Prop :=
  ∀ loaded, fleetLoadCluster inv.shell inv.text = .ok loaded →
    ∀ value, loaded.assigned.lookup name.toList = some value → value = given

/-- The file keeps what the command line decides. -/
structure Kept : Prop where
  mode : inv.Keeps "MODE" inv.mode
  profile : inv.Keeps "PROFILE" inv.profile
  nonceHash : CanCompact inv launch →
    isFastProfile inv.profile = true ∧ inv.nonceHash digest = .ok launch.nonceHash

end Claims

theorem contract_of_watchOf {events : List Event} {contract : Text × Text}
    (h : contract ∈ (watchOf events).contracts) : ∃ reply : Reply, reply.ok = true ∧
      reply.output = contract.2 ∧
      .did (.passive (.probe (.run (.allocatorContract contract.1)))) reply ∈ events := by
  induction events using List.reverseRecOn with
  | nil => simp [watchOf, Watch.start] at h
  | append_singleton events e ih =>
    have hcases : contract ∈ (watchOf events).contracts ∨ ∃ canonical reply,
        e = .did (.passive (.probe (.run (.allocatorContract canonical)))) reply ∧
        reply.ok = true ∧ contract = (canonical, reply.output) := by
      rw [watchOf_concat] at h
      cases e with
      | died => exact .inl h
      | did action reply =>
        simp only [Event.watch, Watch.next] at h
        split at h <;> try exact .inl h
        split at h
        · rcases List.mem_cons.mp h with rfl | h
          · exact .inr ⟨_, _, rfl, ‹_›, rfl⟩
          · exact .inl h
        · exact .inl h
    rcases hcases with h | ⟨canonical, reply, rfl, hok, rfl⟩
    · obtain ⟨reply, hok, houtput, hmem⟩ := ih h
      exact ⟨reply, hok, houtput, by simp [hmem]⟩
    · exact ⟨reply, hok, rfl, by simp⟩

theorem presetContract_uniform {profile canonical : Text}
    (hcanonical : Launcher.profileName profile = some canonical)
    (huniform : (Launcher.readContract (presetContract canonical)).isUniform = true) :
    canonical = "fast-320k".toList := by
  unfold Launcher.profileName at hcanonical
  split at hcanonical
  · exact (Option.some.inj hcanonical).symm
  split at hcanonical
  · obtain rfl := Option.some.inj hcanonical
    exact absurd huniform (by decide)
  split at hcanonical
  · obtain rfl := Option.some.inj hcanonical
    exact absurd huniform (by decide)
  · cases hcanonical

namespace Invocation

variable {digest : Digest} {inv : Invocation} {launch : Launcher}

theorem nonce_spec {nonce : Text} (h : inv.nonce = .ok nonce) : nonce = [] ∨ isNonce nonce = true := by
  unfold Invocation.nonce at h
  split at h
  · obtain ⟨-, -, h⟩ := bind_eq_ok.mp h
    exact .inl (pure_eq_ok.mp h).symm
  · obtain ⟨given, -, h⟩ := bind_eq_ok.mp h
    split at h
    · obtain ⟨-, -, h⟩ := bind_eq_ok.mp h
      obtain ⟨_, hform, h⟩ := bind_eq_ok.mp h
      obtain rfl := pure_eq_ok.mp h
      exact .inr (require_eq_ok.mp hform)
    · obtain ⟨-, -, h⟩ := bind_eq_ok.mp h
      exact .inl (pure_eq_ok.mp h).symm

theorem nonceHash_of_nonce {nonce : Text} (h : inv.nonce = .ok nonce) (hnonce : isNonce nonce = true) :
    inv.nonceHash digest = .ok (digest.compaction nonce) := by
  have hne : nonce.isEmpty = false := by
    cases nonce with
    | nil => cases hnonce
    | cons => rfl
  rw [nonceHash, h, ok_bind, hne]
  rfl

theorem nonce_of_nonceHash {hash : Text} (h : inv.nonceHash digest = .ok hash)
    (hhash : isHash hash = true) :
    ∃ nonce, inv.nonce = .ok nonce ∧ isNonce nonce = true ∧ hash = digest.compaction nonce := by
  obtain ⟨nonce, hnonce, h⟩ := bind_eq_ok.mp h
  obtain rfl := pure_eq_ok.mp h
  rcases nonce_spec hnonce with rfl | hform
  · exact absurd hhash (by simp [isHash])
  · refine ⟨nonce, hnonce, hform, ?_⟩
    cases nonce with
    | nil => cases hform
    | cons => rfl

theorem keeps_iff {loaded : Loaded} {name : String} {given : Text}
    (hloaded : fleetLoadCluster inv.shell inv.text = .ok loaded)
    (hname : loaded.value name.toList = loaded.assigned.lookup name.toList) :
    inv.Keeps name given ↔ (loaded.value name.toList).getD given = given := by
  rw [hname]
  constructor
  · intro hkeeps
    cases hvalue : loaded.assigned.lookup name.toList with
    | none => rfl
    | some value => exact hkeeps loaded hloaded value hvalue
  · intro hsame loaded' hloaded' value hvalue
    obtain rfl := Except.ok.inj (hloaded.symm.trans hloaded')
    rw [hvalue] at hsame
    exact hsame

theorem launcher_keeps (h : inv.launcher digest = .ok launch) :
    (inv.Keeps "MODE" inv.mode ↔ launch.mode = inv.mode) ∧
      (inv.Keeps "PROFILE" inv.profile ↔ launch.profile = inv.profile) := by
  obtain ⟨_, _, h⟩ := bind_eq_ok.mp h
  obtain ⟨loaded, hmapped, h⟩ := bind_eq_ok.mp h
  obtain rfl := pure_eq_ok.mp h
  have hloaded : fleetLoadCluster inv.shell inv.text = .ok loaded := by
    cases hload : fleetLoadCluster inv.shell inv.text with
    | error cause =>
      rw [hload] at hmapped
      cases hmapped
    | ok loaded' =>
      rw [hload] at hmapped
      exact congrArg _ (Except.ok.inj hmapped)
  have hvalue (name : String) (hname : name = "MODE" ∨ name = "PROFILE") :
      loaded.value name.toList = loaded.assigned.lookup name.toList := by
    unfold Loaded.value
    rcases hname with rfl | rfl
    all_goals rw [if_neg (by decide), if_neg (by decide), if_neg (by decide), if_neg (by decide)]
  exact ⟨keeps_iff hloaded (hvalue _ (.inl rfl)), keeps_iff hloaded (hvalue _ (.inr rfl))⟩

end Invocation

theorem filterMap_performed_did (trace : List (Action × Reply)) :
    (trace.map fun e => Event.did e.1 e.2).filterMap Event.performed = trace := by
  simp [List.filterMap_map, Function.comp_def, Event.performed]

/-- A run in which the session does not end. -/
theorem timeline_of_run {x : Sh Unit} {vars : Vars} {trace : List (Action × Reply)}
    (hrun : Script.Run (x vars) trace) : Timeline x vars (trace.map fun e => .did e.1 e.2) := by
  refine ⟨(filterMap_performed_did trace).symm ▸ hrun, fun earlier later heq => ?_⟩
  have hdied : Event.died ∈ trace.map fun e => Event.did e.1 e.2 := by
    rw [heq]
    exact List.mem_append_right _ List.mem_cons_self
  obtain ⟨_, _, hdid⟩ := List.mem_map.mp hdied
  cases hdid

/-- A compaction in a run stands behind a receipt of the hash that the script has, and
behind the contract of its profile. -/
theorem run_compaction {launch : Launcher} {vars : Vars} {trace : List (Action × Reply)}
    (hrun : Script.Run (launch.main vars) trace) {index : ℕ} {reply : Reply}
    (hcompact : (.compact index, reply) ∈ trace) :
    launch.Able vars.lockPid ∧
      (∀ root hash runHash reply, (.receipt root hash runHash, reply) ∈ trace →
        hash = launch.nonceHash) ∧
      (∃ root runHash reply, (.receipt root launch.nonceHash runHash, reply) ∈ trace ∧
        reply.consumed = true) ∧
      ∃ canonical reply, Launcher.profileName launch.profile = some canonical ∧
        (.passive (.probe (.run (.allocatorContract canonical))), reply) ∈ trace ∧
        reply.ok = true ∧ (Launcher.readContract reply.output).isUniform = true := by
  let events : List Event := trace.map fun e => .did e.1 e.2
  have hperformed : events.filterMap Event.performed = trace := filterMap_performed_did trace
  have hmain : Routine.Triple
      (discipline (fun hash => launch.Able vars.lockPid ∧ hash = launch.nonceHash) launch.profile)
      (fun v _ => v.lockPid = vars.lockPid) launch.main (fun _ _ _ => True) fun _ _ => True :=
    main_respects launch fun h => ⟨h, rfl⟩
  have hallowed {earlier later : List Event} {action : Action} {reply : Reply}
      (hevents : events = earlier ++ .did action reply :: later) :=
    allowed_of_run (hperformed.symm ▸ hrun) hmain rfl hevents
  have hdid {action : Action} {reply : Reply} (h : Event.did action reply ∈ events) :
      (action, reply) ∈ trace := by
    obtain ⟨e, he, heq⟩ := List.mem_map.mp h
    obtain ⟨rfl, rfl⟩ := Event.did.inj heq
    exact he
  have hreceipt {root hash runHash : Text} {reply : Reply}
      (h : (.receipt root hash runHash, reply) ∈ trace) :
      launch.Able vars.lockPid ∧ hash = launch.nonceHash := by
    obtain ⟨earlier, later, hsplit⟩ := List.append_of_mem (List.mem_map_of_mem
      (f := fun e : Action × Reply => Event.did e.1 e.2) h)
    exact hallowed hsplit
  obtain ⟨earlier, later, hsplit⟩ := List.append_of_mem (List.mem_map_of_mem
    (f := fun e : Action × Reply => Event.did e.1 e.2) hcompact)
  have hcleared := (hallowed hsplit).2
  have hearlier {e : Event} (he : e ∈ earlier) : e ∈ events := by
    rw [show events = _ from hsplit]
    simp [he]
  obtain ⟨e, he, hconsumed⟩ := consumption_of_watchOf hcleared.1
  obtain ⟨contract, hcontract, hcanonical, huniform⟩ := hcleared.2
  obtain ⟨reply', hok, houtput, hread⟩ := contract_of_watchOf hcontract
  obtain ⟨root, hash, runHash, reply'', rfl⟩ : ∃ root hash runHash reply'',
      e = .did (.receipt root hash runHash) reply'' := by
    cases e with
    | died => cases hconsumed
    | did action reply'' =>
      cases action with
      | receipt root hash runHash => exact ⟨root, hash, runHash, reply'', rfl⟩
      | _ => cases hconsumed
  have hmem := hdid (hearlier he)
  obtain ⟨hable, rfl⟩ := hreceipt hmem
  exact ⟨hable, fun _ _ _ _ h => (hreceipt h).2, ⟨root, runHash, reply'', hmem, hconsumed⟩,
    contract.1, reply', hcanonical, hdid (hearlier hread), hok, houtput ▸ huniform⟩

/-- Replies with which the checks in front of the compaction pass. -/
structure Willing (cluster : Cluster) (answer : Probe → Reply) : Prop where
  ask : ∀ index query, (answer (.ask index query)).ok = true
  assertHeld : (answer .assertHeld).ok = true
  architecture : ∀ index, (answer (.ask index .architecture)).output = "aarch64".toList
  onlineCpus : ∀ index, (answer (.ask index .onlineCpus)).output = "20".toList
  gpu : ∀ index, dropLastBlank (readTwo ',' (answer (.ask index .gpu)).output).1 =
      "NVIDIA GB10".toList ∧
    dropOneBlank (readTwo ',' (answer (.ask index .gpu)).output).2 = "12.1".toList
  memory : ∀ index, isMemory (answer (.ask index .memAvailable)).output = true
  polkitRss : ∀ index, numberSatisfies (· < 131072) (answer (.ask index .polkitRss)).output = true
  swapUsed : ∀ index, numberSatisfies (· ≤ 6291456) (answer (.ask index .swapUsed)).output = true
  gpuApplications : ∀ index, (answer (.ask index .gpuApplications)).output = []
  portListeners : ∀ index, (answer (.ask index .portListeners)).output = []
  containerNames : ∀ index name, (answer (.ask index (.containerNames name))).output = []
  imageId : ∀ index, (answer (.ask index .imageId)).output = cluster.var "CHAMPION_IMAGE_ID"
  matchProtected : ∀ containers, (answer (.run (.matchProtected containers))).code = 1
  modelLock : ∀ lock, (answer (.run (.modelLock lock))).ok = true
  digests : ∀ index lock line, line ∈ splitOnChar '\n' (answer (.run (.modelLock lock))).output →
    (answer (.ask index (.artifactDigest (readTwo '|' line).1))).output = (readTwo '|' line).2
  hostReport : ∀ reports, (answer (.run (.hostReport reports))).ok = true
  validatePattern : (answer (.run .validatePattern)).code ≤ 1
  runHash : (answer (.run .runHash)).ok = true ∧ isHash (answer (.run .runHash)).output = true
  allocatorContract : ∀ canonical, (answer (.run (.allocatorContract canonical))).ok = true
  renderArgv : ∀ canonical, (answer (.run (.renderArgv canonical))).ok = true
  renderEnv : ∀ canonical, (answer (.run (.renderEnv canonical))).ok = true
  stateDirectory : (answer (.run .stateDirectory)).ok = true
  controlPipe : (answer (.run .controlPipe)).ok = true
  readyAttempts : rounds (answer (.run .readyAttempts)) ≠ 0
  readyLine : (answer (.run .readyLine)).output = "CHAMPION_FLEET_LOCK_READY".toList

namespace Willing

variable {launch : Launcher} {answer : Probe → Reply} (h : Willing launch.cluster answer) {vars : Vars}

def passive (answer : Probe → Reply) : Passive → Reply
  | .probe p => answer p
  | .enter _ => ⟨0, []⟩

theorem outcome_demand {A : Type} {answer : A → Reply} {condition : Bool} {message : List Text}
    (h : condition = true) : (demand condition message).outcome answer vars = (.ok (), vars) := by
  rw [h]
  rfl

theorem outcome_forM {A ι : Type} {answer : A → Reply} {xs : List ι}
    {f : ι → Routine A Reply Vars Stop PUnit}
    (hf : ∀ i ∈ xs, (f i).outcome answer vars = (.ok (), vars)) :
    (xs.forM f).outcome answer vars = (.ok (), vars) := by
  induction xs with
  | nil => rfl
  | cons i xs ih =>
    change (f i >>= fun _ => xs.forM f).outcome answer vars = _
    rw [Routine.outcome_bind, hf i (by simp)]
    exact ih fun j hj => hf j (by simp [hj])

include h

theorem fleetLockAssertHeld (hpid : vars.lockPid = true) (hopen : vars.writerOpen = true) :
    fleetLockAssertHeld.outcome answer vars = (.ok (), vars) := by
  simp only [Launch.fleetLockAssertHeld, Routine.outcome_bind, Routine.outcome_read,
    Routine.outcome_perform, hpid, hopen, Bool.and_self, outcome_demand, h.assertHeld]

theorem fleetVerifyModelFiles (index : ℕ) (lock : Text) :
    (fleetVerifyModelFiles launch.cluster index lock).outcome answer vars = (.ok (), vars) := by
  simp only [Launch.fleetVerifyModelFiles, run, Routine.outcome_bind, Routine.outcome_perform,
    outcome_demand, h.modelLock]
  refine outcome_forM fun line hline => ?_
  have hdigest := h.digests index lock line hline
  unfold verifyModelFile
  generalize readTwo '|' line = entry at hdigest ⊢
  dsimp only
  split
  · rfl
  · simp only [Launch.ask, Routine.outcome_bind, Routine.outcome_perform]
    exact outcome_demand (by simp [hdigest])

theorem verifyHost (hpid : vars.lockPid = true) (hopen : vars.writerOpen = true)
    (readings : Readings) (index : ℕ) : ∃ readings',
    (launch.verifyHost false .preCompaction readings index).outcome (passive answer) vars =
      (.ok readings', vars) := by
  have hassert : (if launch.mode == "launch".toList then Launch.fleetLockAssertHeld
      else pure ()).outcome answer vars = (.ok (), vars) := by
    split
    · exact h.fleetLockAssertHeld hpid hopen
    · rfl
  have hpolicy : decide (MemoryPolicy.preCompaction ≠ MemoryPolicy.strict) = true := rfl
  have hone : (1 != 0) = true := rfl
  simp only [Launcher.verifyHost, enter, probe, askStrict, Launch.ask, run, errexit, Routine.outcome_bind,
    Routine.outcome_perform, Routine.outcome_mapAction, passive, hassert, h.ask, h.architecture, h.onlineCpus,
    h.gpu, h.memory, h.polkitRss, h.swapUsed, h.gpuApplications, h.portListeners, h.imageId,
    h.matchProtected, h.fleetVerifyModelFiles, outcome_demand, Bool.false_and, beq_self_eq_true,
    Bool.and_self, List.isEmpty_nil, Routine.outcome_pure, Bool.false_eq_true, ite_false, hpolicy,
    Bool.true_or, hone]
  exact ⟨_, rfl⟩

theorem verifyHosts (hpid : vars.lockPid = true) (hopen : vars.writerOpen = true) :
    (launch.verifyHosts false .preCompaction).outcome (passive answer) vars = (.ok (), vars) := by
  have hfold (indices : List ℕ) (readings : Readings) : ∃ readings',
      (indices.foldlM (launch.verifyHost false .preCompaction) readings).outcome (passive answer)
        vars = (.ok readings', vars) := by
    induction indices generalizing readings with
    | nil => exact ⟨readings, rfl⟩
    | cons index indices ih =>
      obtain ⟨readings', hfirst⟩ := h.verifyHost hpid hopen readings index
      obtain ⟨readings'', hrest⟩ := ih readings'
      refine ⟨readings'', ?_⟩
      rw [List.foldlM_cons, Routine.outcome_bind, hfirst]
      exact hrest
  have htopology : (if isFast vars.profile then [0, 1, 2, 3].forM launch.verifyTopology
      else pure ()).outcome (passive answer) vars = (.ok (), vars) := by
    split
    · refine outcome_forM fun index _ => ?_
      simp only [Launcher.verifyTopology, enter, probe, Launch.ask, Routine.outcome_bind,
        Routine.outcome_perform, Routine.outcome_mapAction, Routine.outcome_pure, passive, h.ask,
        outcome_demand]
    · rfl
  obtain ⟨readings, hreadings⟩ := hfold [0, 1, 2, 3] { minMem := 999999999, maxMem := 0, reports := [] }
  have hpolicy : decide (MemoryPolicy.preCompaction ≠ MemoryPolicy.strict) = true := rfl
  simp only [Launcher.verifyHosts, Routine.outcome_bind, hreadings, outcome_demand, hpolicy,
    Bool.true_or, Routine.outcome_read, htopology, probe, run, Routine.outcome_mapAction,
    Routine.outcome_perform, passive, errexit, Bool.false_and, Bool.false_eq_true, ite_false,
    Routine.outcome_pure, h.hostReport, ite_true]

theorem checkFresh (hpid : vars.lockPid = true) (hopen : vars.writerOpen = true) (index : ℕ) :
    (launch.checkFresh index).outcome (passive answer) vars = (.ok (), vars) := by
  simp only [Launcher.checkFresh, enter, probe, Routine.outcome_bind, Routine.outcome_perform,
    Routine.outcome_mapAction, passive, h.fleetLockAssertHeld hpid hopen, Launcher.demandFresh,
    askStrict, Launch.ask, errexit, h.ask, Bool.not_true, Bool.and_false, Bool.false_eq_true,
    ite_false, Routine.outcome_pure, h.containerNames, List.isEmpty_nil, outcome_demand]

theorem fleetLockAcquire (hfree : vars.lockPid = false)
    (hsafe : isSafeLockPath (launch.cluster.var "CHAMPION_FLEET_LOCK") = true)
    (hcanonical : isCanonicalLockPath (launch.cluster.var "CHAMPION_FLEET_LOCK") = true) :
    (fleetLockAcquire launch.cluster false).outcome answer vars =
      (.ok (), { vars with lockPid := true, writerOpen := true }) := by
  obtain ⟨n, hn⟩ := Nat.exists_eq_succ_of_ne_zero h.readyAttempts
  have hassert : (succeeds Launch.fleetLockAssertHeld).outcome answer
      { vars with lockPid := true, writerOpen := true } =
        (.ok true, { vars with lockPid := true, writerOpen := true }) := by
    have hheld : Launch.fleetLockAssertHeld.outcome answer
        { vars with lockPid := true, writerOpen := true } =
          (.ok (), { vars with lockPid := true, writerOpen := true }) :=
      h.fleetLockAssertHeld rfl rfl
    simp only [succeeds, Routine.outcome_bind, Routine.outcome_attempt, hheld, Routine.outcome_pure]
  simp only [Launch.fleetLockAcquire, fleetValidateLockPath, run, Routine.outcome_bind,
    Routine.outcome_read, Routine.outcome_perform, Routine.outcome_update, hfree, Bool.not_false,
    outcome_demand, hsafe, hcanonical, h.stateDirectory, h.controlPipe, ite_true,
    Routine.outcome_pure, hn, awaitReady, errexit, Bool.false_and, Bool.false_eq_true, ite_false,
    h.readyLine, beq_self_eq_true, hassert]

def receipt : Reply := ⟨0, "CHAMPION_COMPACTION_RECEIPT_CONSUMED".toList⟩

def action (answer : Probe → Reply) : Action → Reply
  | .passive p => passive answer p
  | .receipt .. => receipt
  | _ => ⟨0, []⟩

/-- With these replies the routine comes to a compaction. -/
def Compacts {α : Type} (answer : Probe → Reply) (x : Sh α) (vars : Vars) : Prop :=
  (.compact 0, ⟨0, []⟩) ∈ x.trace (action answer) vars

omit h in
theorem Compacts.bind_left {α β : Type} {x : Sh α} {f : α → Sh β} (hx : Compacts answer x vars) :
    Compacts answer (x >>= f) vars := Routine.trace_bind_left hx

omit h in
theorem Compacts.bind_right {α β : Type} {x : Sh α} {f : α → Sh β} (a : α) (vars' : Vars)
    (hx : x.outcome (action answer) vars = (.ok a, vars')) (hf : Compacts answer (f a) vars') :
    Compacts answer (x >>= f) vars := Routine.trace_bind_right hx hf

theorem compact (hpid : vars.lockPid = true) (hopen : vars.writerOpen = true) :
    Compacts answer launch.compactAndSizeUniformAllocatorFloor vars := by
  refine Compacts.bind_left ?_
  change Compacts answer (launch.compactHost 0 >>= fun _ => [1, 2, 3].forM launch.compactHost) vars
  refine Compacts.bind_left (Compacts.bind_right () vars rfl ?_)
  refine Compacts.bind_right () vars ?_ (Compacts.bind_left ?_)
  · rw [quiet, Routine.outcome_mapAction]
    exact h.fleetLockAssertHeld hpid hopen
  · exact List.mem_singleton_self _

theorem prepareHosts (hpid : vars.lockPid = true) (hopen : vars.writerOpen = true)
    {contract : Launcher.AllocatorContract} (huniform : contract.isUniform = true)
    (hnonce : isHash launch.nonceHash = true) (hrun : isHash launch.runHash = true) :
    Compacts answer (launch.prepareHosts contract) vars := by
  have hconsumed : receipt.consumed = true := by decide
  rw [Launcher.prepareHosts, if_pos huniform]
  refine Compacts.bind_right () vars ?_ ?_
  · rw [Launch.passive, Routine.outcome_mapAction]
    exact h.verifyHosts hpid hopen
  refine Compacts.bind_right () vars ?_ ?_
  · rw [Launch.passive, Routine.outcome_mapAction]
    exact outcome_forM fun index _ => h.checkFresh hpid hopen index
  refine Compacts.bind_right () vars ?_ (h.compact hpid hopen)
  have hassert : (quiet Launch.fleetLockAssertHeld).outcome (action answer) vars = (.ok (), vars) := by
    rw [quiet, Routine.outcome_mapAction]
    exact h.fleetLockAssertHeld hpid hopen
  simp only [fleetConsumeCompactionNonceHash, Routine.outcome_bind, outcome_demand, hnonce, hrun,
    Bool.and_self, hassert, Routine.outcome_perform, action, hconsumed]
  rfl

theorem launchProfile (hable : launch.Able vars.lockPid) {canonical : Text}
    (hcanonical : Launcher.profileName launch.profile = some canonical)
    (huniform : (Launcher.readContract
      (answer (.run (.allocatorContract canonical))).output).isUniform = true)
    (hrun : isHash launch.runHash = true) : Compacts answer launch.launchProfile vars := by
  -- the variables in front of the lock and behind it
  let named : Vars := { vars with profile := canonical.takeWhile (· != '-') }
  let locked : Vars := { named with lockPid := true, writerOpen := true }
  have hprogram (program : Program) : (quiet (run program)).outcome (action answer) named =
      (.ok (answer (.run program)), named) := rfl
  have hcheck {reply : Reply} (hok : reply.ok = true) :
      (if reply.ok then pure () else .fail .failed : Sh Unit).outcome (action answer) named =
        (.ok (), named) := by
    rw [if_pos hok]
    rfl
  have hlock : (quiet (Launch.fleetLockAcquire launch.cluster false)).outcome (action answer) named =
      (.ok (), locked) := by
    rw [quiet, Routine.outcome_mapAction]
    exact h.fleetLockAcquire hable.free hable.safe hable.canonical
  rw [Launcher.launchProfile, hcanonical]
  refine .bind_right () named rfl ?_
  refine .bind_right _ named (hprogram _) (.bind_right () named (hcheck (h.allocatorContract _)) ?_)
  refine .bind_right _ named (hprogram _) (.bind_right () named (hcheck (h.renderArgv _)) ?_)
  refine .bind_right _ named (hprogram _) (.bind_right () named (hcheck (h.renderEnv _)) ?_)
  refine .bind_right () locked hlock (.bind_left ?_)
  exact h.prepareHosts rfl rfl huniform hable.hash hrun

theorem main (hable : launch.Able vars.lockPid) {canonical : Text}
    (hcanonical : Launcher.profileName launch.profile = some canonical)
    (huniform : (Launcher.readContract
      (answer (.run (.allocatorContract canonical))).output).isUniform = true) :
    Compacts answer launch.main vars := by
  let named : Vars := { vars with profile := launch.profile }
  let runHash : Text := (answer (.run .runHash)).output
  let launch' : Launcher := { launch with runHash }
  have hpattern : (quiet fleetValidateProtectedPattern).outcome (action answer) named =
      (.ok (), named) := by
    rw [quiet, Routine.outcome_mapAction]
    simp only [fleetValidateProtectedPattern, run, Routine.outcome_bind, Routine.outcome_perform]
    exact outcome_demand (decide_eq_true h.validatePattern)
  have hrunHash : (quiet launch.computeRunHash).outcome (action answer) named =
      (.ok runHash, named) := by
    have hne : launch.nonceHash.isEmpty = false := by
      cases hhash : launch.nonceHash with
      | nil => exact absurd hable.hash (by simp [hhash, isHash])
      | cons => rfl
    have hok : (action answer (.passive (.probe (.run .runHash)))).ok = true := h.runHash.1
    rw [quiet, Routine.outcome_mapAction, Launcher.computeRunHash, hne]
    simp only [run, Routine.outcome_bind, Routine.outcome_perform, Bool.false_eq_true, ite_false, hok,
      ite_true]
    rfl
  have hdispatch : Compacts answer launch'.dispatch named := by
    have hmode : (launch'.mode == "launch".toList) = true := beq_iff_eq.mpr hable.mode
    have hverify : (launch'.mode == "verify-hosts".toList) = false := by
      rw [show launch'.mode = "launch".toList from hable.mode]
      decide
    have h' : Willing launch'.cluster answer := h
    simp only [Launcher.dispatch, hverify, hmode, Bool.false_eq_true, ite_false, ite_true]
    exact h'.launchProfile ⟨hable.mode, hable.free, hable.safe, hable.canonical, hable.hash⟩
      hcanonical huniform h.runHash.2
  refine .bind_right () named rfl (.bind_left (Routine.trace_attempt ?_))
  exact Compacts.bind_right () named hpattern (.bind_right runHash named hrunHash hdispatch)

end Willing

section Replies

variable (cluster : Cluster) (contract : Text → Text) (runHash : Text)

/-- What hosts and programs print when all is well. -/
def goodOutput : Probe → Text
  | .ask _ .architecture => "aarch64".toList
  | .ask _ .onlineCpus => "20".toList
  | .ask _ .gpu => "NVIDIA GB10, 12.1".toList
  | .ask _ .memAvailable => "121634816".toList
  | .ask _ .polkitRss => "0".toList
  | .ask _ .swapUsed => "0".toList
  | .ask _ .imageId => cluster.var "CHAMPION_IMAGE_ID"
  | .ask _ (.artifactDigest _) => "0".toList
  | .run .readyAttempts => "1".toList
  | .run .readyLine => "CHAMPION_FLEET_LOCK_READY".toList
  | .run (.modelLock _) => "weights|0".toList
  | .run .runHash => runHash
  | .run (.allocatorContract canonical) => contract canonical
  | _ => []

/-- No protected container is found, and all else succeeds. -/
def goodCode : Probe → ℕ
  | .run (.matchProtected _) => 1
  | _ => 0

def goodReply (p : Probe) : Reply := ⟨goodCode p, goodOutput cluster contract runHash p⟩

variable {cluster contract runHash}

theorem goodReply_willing (hrun : isHash runHash = true) :
    Willing cluster (goodReply cluster contract runHash) where
  ask _ _ := rfl
  assertHeld := rfl
  architecture _ := rfl
  onlineCpus _ := rfl
  gpu _ := by
    have h : dropLastBlank (readTwo ',' "NVIDIA GB10, 12.1".toList).1 = "NVIDIA GB10".toList ∧
        dropOneBlank (readTwo ',' "NVIDIA GB10, 12.1".toList).2 = "12.1".toList := by decide
    exact h
  memory _ := by
    have h : isMemory "121634816".toList = true := by decide
    exact h
  polkitRss _ := by
    have h : numberSatisfies (· < 131072) "0".toList = true := by decide
    exact h
  swapUsed _ := by
    have h : numberSatisfies (· ≤ 6291456) "0".toList = true := by decide
    exact h
  gpuApplications _ := rfl
  portListeners _ := rfl
  containerNames _ _ := rfl
  imageId _ := rfl
  matchProtected _ := rfl
  modelLock _ := rfl
  digests index lock line hline := by
    have hlines : splitOnChar '\n' "weights|0".toList = ["weights|0".toList] := by decide
    have hmem : line ∈ splitOnChar '\n' "weights|0".toList := hline
    rw [hlines, List.mem_singleton] at hmem
    have hdigest : (readTwo '|' "weights|0".toList).2 = "0".toList := by decide
    rw [hmem, hdigest]
    rfl
  hostReport _ := rfl
  validatePattern := Nat.zero_le 1
  runHash := ⟨rfl, hrun⟩
  allocatorContract _ := rfl
  renderArgv _ := rfl
  renderEnv _ := rfl
  stateDirectory := rfl
  controlPipe := rfl
  readyAttempts := by
    have h : rounds ⟨0, "1".toList⟩ = 1 := by decide
    exact fun hzero => absurd (h.symm.trans hzero) (by decide)
  readyLine := rfl

end Replies

section Exactness

variable (digest : Digest) (inv : Invocation)

theorem exists_compaction {launch : Launcher} {vars : Vars} (hable : launch.Able vars.lockPid)
    {canonical : Text} (hcanonical : Launcher.profileName launch.profile = some canonical)
    (hfast : inv.own = true → canonical = "fast-320k".toList) :
    ∃ trace, Script.Run (launch.main vars) trace ∧ Genuine digest inv launch trace ∧
      (.compact 0, ⟨0, []⟩) ∈ trace := by
  let contract (name : Text) : Text :=
    if inv.own then presetContract name else "fleet-uniform|computed|1".toList
  let answer := goodReply launch.cluster contract (digest.run launch.runId)
  have hwilling : Willing launch.cluster answer := goodReply_willing (digest.hex _)
  have huniform : (Launcher.readContract (contract canonical)).isUniform = true := by
    have hcontract : contract canonical = "fleet-uniform|computed|1".toList := by
      cases hown : inv.own with
      | false => simp [contract, hown]
      | true =>
        rw [hfast hown]
        simp only [contract, hown, ite_true]
        rfl
    rw [hcontract]
    decide
  have hreply {e : Action × Reply} (he : e ∈ launch.main.trace (Willing.action answer) vars) :
      e.2 = Willing.action answer e.1 := Script.follow_reply _ _ he
  refine ⟨_, Script.follow_run (Willing.action answer) _, ⟨fun hown name reply hmem _ => ?_,
    fun _ reply hmem _ => ?_⟩, hwilling.main hable hcanonical huniform⟩
  · have houtput : reply.output = contract name := congrArg Reply.output (hreply hmem)
    rw [houtput]
    simp only [contract, hown, ite_true]
  · exact congrArg Reply.output (hreply hmem)

/-- A file leaves the authorization of a compaction to the command line exactly if it
does not assign another mode, another profile or, where the script can come to the
compaction, another hash. -/
theorem compaction_authorized_iff (started readinessPassed : Bool) :
    (∀ launch, inv.launcher digest = .ok launch → ∀ trace,
      Script.Run (launch.main (launch.start started readinessPassed)) trace →
      Genuine digest inv launch trace → Authorized digest inv launch trace) ↔
    ∀ launch, inv.launcher digest = .ok launch → Kept digest inv launch := by
  refine forall_congr' fun launch => imp_congr_right fun hlaunch => ?_
  obtain ⟨hmode, hprofile⟩ := Invocation.launcher_keeps hlaunch
  constructor
  · intro hauthorized
    have hstart : Authorized digest inv launch [] := hauthorized [] (.start _) ⟨by simp, by simp⟩
    refine ⟨hmode.mpr hstart.mode, hprofile.mpr hstart.profile, fun hcan => ?_⟩
    obtain ⟨canonical, hcanonical, hfast⟩ := hcan.contract
    have hable : launch.Able (launch.start started readinessPassed).lockPid := hcan.able
    obtain ⟨trace, hrun, hgenuine, hmem⟩ := exists_compaction digest inv hable hcanonical hfast
    obtain ⟨hfastProfile, nonce, hnonce, hform, ⟨root, runHash, reply, hreceipt, -⟩, -⟩ :=
      (hauthorized trace hrun hgenuine).compaction 0 _ hmem
    obtain ⟨-, hown, -⟩ := run_compaction hrun hmem
    refine ⟨hfastProfile, ?_⟩
    rw [← hown root _ runHash reply hreceipt]
    exact Invocation.nonceHash_of_nonce hnonce hform
  · intro hkept trace hrun hgenuine
    refine ⟨hmode.mp hkept.mode, hprofile.mp hkept.profile, fun index reply hmem => ?_⟩
    obtain ⟨hable, hhashes, hconsumed, canonical, contract, hcanonical, hread, hok, huniform⟩ :=
      run_compaction hrun hmem
    obtain ⟨hfast, hhash⟩ := hkept.nonceHash ⟨hable, canonical, hcanonical, fun hown => by
      rw [hgenuine.contract hown canonical contract hread hok] at huniform
      exact presetContract_uniform hcanonical huniform⟩
    obtain ⟨nonce, hnonce, hform, heq⟩ := Invocation.nonce_of_nonceHash hhash hable.hash
    exact ⟨hfast, nonce, hnonce, hform, heq ▸ hconsumed, heq ▸ hhashes⟩

end Exactness

def fixtureDigest : Digest where
  sha256 _ := "add5c0b8030326c78a98365bb779bbea40765f2eb28506e463782afaf032b866".toList
  hex _ := by decide

def foreignHash : Text := List.replicate 64 'a'

def overridingSettings : Settings :=
  [("MODE".toList, "launch".toList), ("PROFILE".toList, "fast".toList),
    ("CHAMPION_COMPACTION_NONCE_HASH".toList, foreignHash)]

/-- The script is to verify hosts, and the file assigns another mode and a hash. -/
def overridingInvocation : Invocation where
  shell := posixShell
  arguments := ["verify-hosts".toList]
  text := fixtureText [] ++
    (overridingSettings.map (fixtureLine [])).flatMap fun line => line ++ ['\n']

def overridingLoaded : Loaded where
  assigned := (fixtureSettings ++ overridingSettings).reverse
  hostArray := ["a", "b", "c", "d"].map String.toList
  fabricArray := ["e", "f", "g", "h"].map String.toList
  checkpointLockPath := "/opt/champion/c.json".toList
  sidecarLockPath := "/opt/champion/s.json".toList

theorem fleetLoadCluster_overriding :
    fleetLoadCluster posixShell overridingInvocation.text = .ok overridingLoaded := by
  decide +kernel

def overridingLauncher : Launcher where
  cluster := overridingLoaded.cluster posixShell
  mode := (overridingLoaded.value "MODE".toList).getD overridingInvocation.mode
  profile := (overridingLoaded.value "PROFILE".toList).getD overridingInvocation.profile
  runId := (overridingLoaded.cluster posixShell).var "CHAMPION_RUN_ID"
  nonceHash := (overridingLoaded.value "CHAMPION_COMPACTION_NONCE_HASH".toList).getD []
  runHash := (overridingLoaded.value "CHAMPION_COMPACTION_RUN_HASH".toList).getD []

theorem overridingLauncher_values :
    overridingInvocation.nonce = .ok [] ∧ overridingLauncher.mode = "launch".toList ∧
      Launcher.profileName overridingLauncher.profile = some "fast-320k".toList ∧
      isHash overridingLauncher.nonceHash = true ∧
      isSafeLockPath (overridingLauncher.cluster.var "CHAMPION_FLEET_LOCK") = true ∧
      isCanonicalLockPath (overridingLauncher.cluster.var "CHAMPION_FLEET_LOCK") = true ∧
      (overridingLauncher.start false false).lockPid = false := by
  refine ⟨?_, ?_, ?_, ?_, ?_, ?_, ?_⟩ <;> decide

theorem launcher_overriding :
    overridingInvocation.launcher fixtureDigest = .ok overridingLauncher := by
  have hhash : overridingInvocation.nonceHash fixtureDigest = .ok [] := by
    rw [Invocation.nonceHash, overridingLauncher_values.1]
    rfl
  rw [Invocation.launcher, hhash, ok_bind]
  change ((fleetLoadCluster posixShell overridingInvocation.text).mapError Refusal.cluster >>= _) = _
  rw [fleetLoadCluster_overriding]
  rfl

/-- A run of the script that compacts the memory of a host. -/
theorem lock_and_nonce_discipline_compaction :
    ∃ events : List Event, Timeline overridingLauncher.main (overridingLauncher.start false false)
        events ∧
      .did (.compact 0) ⟨0, []⟩ ∈ events ∧ Disciplined events := by
  obtain ⟨-, hmode, hprofile, hhash, hsafe, hcanonical, hfree⟩ := overridingLauncher_values
  obtain ⟨trace, hrun, -, hmem⟩ := exists_compaction fixtureDigest overridingInvocation
    ⟨hmode, hfree, hsafe, hcanonical, hhash⟩ hprofile fun _ => rfl
  have hevents := timeline_of_run hrun
  exact ⟨_, hevents, List.mem_map_of_mem hmem, lock_and_nonce_discipline.1 _ _ _ hevents⟩

/-- The memory of the hosts is compacted, and the command line asked for no launch and
gave no nonce. -/
theorem verify_hosts_compacts : overridingInvocation.mode = "verify-hosts".toList ∧
    ∃ launch, overridingInvocation.launcher fixtureDigest = .ok launch ∧
      ∃ trace, Script.Run (launch.main (launch.start false false)) trace ∧
        Genuine fixtureDigest overridingInvocation launch trace ∧
        (.compact 0, ⟨0, []⟩) ∈ trace ∧
        ¬ Authorized fixtureDigest overridingInvocation launch trace := by
  obtain ⟨hnonce, hmode, hprofile, hhash, hsafe, hcanonical, hfree⟩ := overridingLauncher_values
  obtain ⟨trace, hrun, hgenuine, hmem⟩ := exists_compaction fixtureDigest overridingInvocation
    ⟨hmode, hfree, hsafe, hcanonical, hhash⟩ hprofile fun _ => rfl
  refine ⟨rfl, overridingLauncher, launcher_overriding, trace, hrun, hgenuine, hmem, fun h => ?_⟩
  obtain ⟨-, nonce, hgiven, hform, -⟩ := h.compaction 0 _ hmem
  obtain rfl : [] = nonce := Except.ok.inj (hnonce.symm.trans hgiven)
  cases hform

end ChampionRuntime.Launch
