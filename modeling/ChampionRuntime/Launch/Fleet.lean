import ChampionRuntime.Launch.FleetCluster
import ChampionRuntime.Lib.JsonText
import ChampionRuntime.Lib.Script

/-!
# The fleet lock and the fleet commands

The functions of `scripts/lib/fleet.sh` behind `fleet_load_cluster`. A script acts on
a host, asks a host or runs a program of the controller, and the reply is what that
prints and its exit status. Where the output goes through a local filter, the reply is
that of the pipeline.
-/
namespace ChampionRuntime.Launch

open Lib Lib.PyText

/-- The exit status of a command, and its output as `$(…)` has it. -/
structure Reply where
  code : ℕ
  output : Text
  deriving DecidableEq, Repr

def Reply.ok (reply : Reply) : Bool := reply.code == 0

inductive Query
  | architecture | onlineCpus | gpu | dockerSocket | rdmaInterface | uverbs | rdmaCm | rdmaLink
  | memAvailable | polkitRss | swapUsed | gpuApplications | portListeners | runningNames
  | imageId | cpuTopology | systemDf
  | artifactDigest (relative : Text)
  | containerNames (name : Text)
  | identity (name : Text)
  | state (name : Text)
  | allocatorEnv (name : Text)
  | rayletSocket (name : Text)
  | rayProcesses (name : Text)
  | rayStatus (name : Text)
  | apiServer (name : Text)
  | serveLog (name : Text)
  | pinned (name : Text)
  | storedImage (image : Text)
  | buildSubject (image : Text)
  deriving DecidableEq, Repr

inductive Program
  | validatePattern | matchProtected (containers : Text)
  | stateDirectory | controlPipe | readyAttempts | readyLine | sleep | errorText
  | releaseAttempts | killSession | waitSession | removeState
  | modelLock (path : Text) | hostReport (reports : List Text)
  | runHash | allocatorContract (canonical : Text) | renderArgv (canonical : Text)
  | renderEnv (canonical : Text) | apiHealth | chatProbe | startAttempts | models
  | checkModels (canonical models : Text) | probePayload | probeRequest (payload : Text)
  | probeAnswer (answer : Text) | countLines (logs : Text) | fatalMarker (logs : Text)
  | allocationWarning (logs : Text) | laterLines (logs : Text) | lateMarker (logs : Text)
  | acceptedBuild
  deriving DecidableEq, Repr

/-- Actions that leave the hosts as they are, the lock session aside. -/
inductive Probe
  /-- `kill -0` in `fleet_lock_assert_held` -/
  | assertHeld
  /-- `kill -0` elsewhere -/
  | poll
  | startSession
  | ask (index : ℕ) (query : Query)
  /-- a query to the host that built the image -/
  | askBuilder (query : Query)
  | run (program : Program)
  deriving DecidableEq, Repr

/-- Probes of the hosts one after the other. -/
inductive Passive
  | probe (probe : Probe)
  /-- a loop over the hosts, or a step on one host, comes to this host -/
  | enter (index : ℕ)
  deriving DecidableEq, Repr

inductive Change
  | install (canonical : Text)
  | startContainer (canonical allocator : Text)
  | rayHead
  | rayWorker
  | serve (argv : Text)
  | updateCpus (cpus : String) (name : Text)
  | stop (name : Text)
  | loadImage (image : Text)
  deriving DecidableEq, Repr

inductive Action
  | passive (action : Passive)
  | change (index : ℕ) (change : Change)
  | compact (index : ℕ)
  /-- the command that leaves the receipt of a nonce on the first host -/
  | receipt (root nonceHash runHash : Text)
  deriving DecidableEq, Repr

/-- Why a function or the script ends early. -/
inductive Stop
  /-- a function returns 1 after this message -/
  | blocked (message : Text)
  /-- a function returns the status of a command that failed -/
  | failed
  /-- the script ends -/
  | exit (code : ℕ)
  deriving DecidableEq, Repr

/-- The variables that change while a script runs. -/
structure Vars where
  /-- `CHAMPION_REMOTE_LOCK_PID` is not empty -/
  lockPid : Bool
  /-- `CHAMPION_REMOTE_LOCK_WRITER_OPEN` is 1 -/
  writerOpen : Bool
  started : Bool
  readinessPassed : Bool
  profile : Text
  allocatorFloors : List Text
  readinessLogLines : Text

abbrev Quiet := Routine Probe Reply Vars Stop

abbrev Check := Routine Passive Reply Vars Stop

abbrev Sh := Routine Action Reply Vars Stop

def probe {α : Type} (x : Quiet α) : Check α := x.mapAction .probe

def passive {α : Type} (x : Check α) : Sh α := x.mapAction .passive

def quiet {α : Type} (x : Quiet α) : Sh α := x.mapAction fun p => .passive (.probe p)

/-- What a script knows of its cluster when it is loaded. -/
structure Cluster where
  value : String → Option Text
  hostArray : List Text
  fabricArray : List Text
  checkpointLockPath : Text
  sidecarLockPath : Text

def Loaded.cluster (S : Shell) (loaded : Loaded) : Cluster where
  value name := (loaded.value name.toList).or (S.environment name.toList)
  hostArray := loaded.hostArray
  fabricArray := loaded.fabricArray
  checkpointLockPath := loaded.checkpointLockPath
  sidecarLockPath := loaded.sidecarLockPath

namespace Cluster

variable (cluster : Cluster)

/-- `$NAME`, for a setting that the file is known to have. -/
def var (name : String) : Text := (cluster.value name).getD []

def host (index : ℕ) : Text := cluster.hostArray.getD index []

/-- `RUN-rankN` -/
def rank (run : Text) (index : ℕ) : Text := run ++ ("-rank".toList ++ (toString index).toList)

end Cluster

local instance : Coe String Text := ⟨String.toList⟩

section Parts

variable {A α : Type}

/-- `fleet_die`, where its status is returned. -/
def fleetDie (message : List Text) : Routine A Reply Vars Stop α :=
  .fail (.blocked ("champion-controller: BLOCKED: ".toList ++ message.flatten))

/-- `[[ … ]] || fleet_die … || return`. -/
def demand (condition : Bool) (message : List Text) : Routine A Reply Vars Stop Unit :=
  if condition then pure () else fleetDie message

/-- A function in a test, in front of `||` or in a list with `|| true`. The end of the
script is not caught there. -/
def succeeds (x : Routine A Reply Vars Stop α) : Routine A Reply Vars Stop Bool := do
  match ← x.attempt with
  | .ok _ => pure true
  | .error (.exit code) => .fail (.exit code)
  | .error _ => pure false

/-- Under `set -e`, a command that fails ends the script. -/
def errexit (strict : Bool) (reply : Reply) : Routine A Reply Vars Stop Unit :=
  if strict && !reply.ok then .fail (.exit reply.code) else pure ()

end Parts

def enter (index : ℕ) : Check Unit := do
  let _ ← (Routine.perform (.enter index) : Check Reply)

def ask (index : ℕ) (query : Query) : Quiet Reply := .perform (.ask index query)

def run (program : Program) : Quiet Reply := .perform (.run program)

/-- The command substitutions of a bare assignment. -/
def askStrict (strict : Bool) (index : ℕ) (query : Query) : Quiet Text := do
  let reply ← ask index query
  errexit strict reply
  pure reply.output

/-- The words that an unquoted `$(seq …)` expands to. -/
def rounds (reply : Reply) : ℕ := ((splitWhere isSpace reply.output).filter (!·.isEmpty)).length

/-- The two variables of `IFS=… read -r first second <<<"$line"`. -/
def readTwo (sep : Char) (text : Text) : Text × Text :=
  let line := text.takeWhile (· != '\n')
  let second := (line.dropWhile (· != sep)).tail
  (line.takeWhile (· != sep),
    if second.getLast? == some sep && !second.dropLast.contains sep then second.dropLast else second)

def isNumber (value : Text) : Bool := !value.isEmpty && value.all isDigit

/-- `^[1-9][0-9]*$` -/
def isPositive (value : Text) : Bool := isNumber value && value.head? != some '0'

/-- `^[1-9][0-9]{0,11}$` -/
def isMemory (value : Text) : Bool := isPositive value && value.length ≤ 12

/-- `^[0-9a-f]{64}$` -/
def isHash (value : Text) : Bool := value.length == 64 && value.all isHexLower

section Lock

variable (cluster : Cluster)

def fleetLockAssertHeld : Quiet Unit := do
  let held ← .read fun vars => vars.lockPid && vars.writerOpen
  demand held ["canonical fleet lock is not held"]
  let alive ← .perform .assertHeld
  demand alive.ok ["canonical fleet lock liveness was lost"]

/-- The rounds of `kill -0 … || break; sleep`. -/
def awaitEnd (strict : Bool) : ℕ → Quiet Unit
  | 0 => pure ()
  | n + 1 => do
    let alive ← .perform .poll
    if alive.ok then do
      let slept ← run .sleep
      errexit strict slept
      awaitEnd strict n
    else pure ()

def fleetLockRelease (strict : Bool) : Quiet Unit := do
  let held ← .read Vars.lockPid
  .update fun vars => { vars with writerOpen := false }
  (if held then do
    let attempts ← run .releaseAttempts
    awaitEnd strict (rounds attempts)
    let alive ← .perform .poll
    (if alive.ok then do let _ ← run .killSession else pure ())
    let _ ← run .waitSession
  else pure ())
  let _ ← run .removeState
  .update fun vars => { vars with lockPid := false }

def isLockChar (c : Char) : Bool :=
  isUpper c || isLower c || isDigit c || c == '.' || c == '_' || c == '/' || c == '-'

/-- A slash and at least one more character of the class. -/
def isSafeLockPath (path : Text) : Bool :=
  path.head? == some '/' && 2 ≤ path.length && path.all isLockChar

def isCanonicalLockPath (path : Text) : Bool :=
  !occurs "//" path && (splitOnChar '/' path).tail.all fun part => part != ['.'] && part != ['.', '.']

def fleetValidateLockPath : Quiet Unit := do
  demand (isSafeLockPath (cluster.var "CHAMPION_FLEET_LOCK"))
    ["CHAMPION_FLEET_LOCK must be a safe absolute path"]
  demand (isCanonicalLockPath (cluster.var "CHAMPION_FLEET_LOCK"))
    ["CHAMPION_FLEET_LOCK must be canonical"]

/-- The rounds that wait for the line of the lock session; the result says whether it
came. -/
def awaitReady (strict : Bool) : ℕ → Quiet Bool
  | 0 => pure false
  | n + 1 => do
    let ready ← run .readyLine
    errexit strict ready
    if ready.output == "CHAMPION_FLEET_LOCK_READY".toList then do
      let held ← succeeds fleetLockAssertHeld
      if held then pure true
      else do
        fleetLockRelease strict
        .fail .failed
    else do
      let alive ← .perform .poll
      if alive.ok then do
        let slept ← run .sleep
        errexit strict slept
        awaitReady strict n
      else pure false

def fleetLockAcquire (strict : Bool) : Quiet Unit := do
  let held ← .read Vars.lockPid
  demand (!held) ["canonical fleet lock is already held by this coordinator"]
  fleetValidateLockPath cluster
  let directory ← run .stateDirectory
  demand directory.ok ["cannot create local fleet-lock state directory"]
  let pipe ← run .controlPipe
  (if pipe.ok then pure ()
  else do
    fleetLockRelease strict
    fleetDie ["cannot create local fleet-lock control pipe"])
  let _ ← .perform .startSession
  .update fun vars => { vars with lockPid := true, writerOpen := true }
  let attempts ← run .readyAttempts
  let ready ← awaitReady strict (rounds attempts)
  if ready then pure ()
  else do
    let errorText ← run .errorText
    fleetLockRelease strict
    if occurs "CHAMPION_FLEET_LOCK_BUSY" errorText.output then
      fleetDie ["canonical fleet lock is busy on ", cluster.host 0, ": ",
        cluster.var "CHAMPION_FLEET_LOCK"]
    else fleetDie ["canonical fleet lock could not be held on ", cluster.host 0]

def receiptRoot : Text := cluster.var "CHAMPION_FLEET_LOCK" ++ ".compaction-receipts".toList

/-- The receipt was written, as the controller reads it. -/
def Reply.consumed (reply : Reply) : Bool :=
  reply.ok && occurs "CHAMPION_COMPACTION_RECEIPT_CONSUMED" reply.output

def fleetConsumeCompactionNonceHash (nonceHash runHash : Text) : Sh Unit := do
  demand (isHash nonceHash && isHash runHash) ["internal compaction receipt hash is invalid"]
  quiet fleetLockAssertHeld
  let reply ← .perform (.receipt (receiptRoot cluster) nonceHash runHash)
  quiet fleetLockAssertHeld
  if reply.consumed then pure ()
  else if occurs "CHAMPION_COMPACTION_RECEIPT_REPLAY" reply.output then
    fleetDie ["compaction nonce was already consumed; retry with a fresh nonce"]
  else fleetDie ["canonical compaction receipt could not be written"]

end Lock

section Containers

variable (cluster : Cluster)

inductive Identity
  | absent
  | exact
  | unknown (state : Text)
  deriving DecidableEq, Repr

def Identity.text : Identity → Text
  | .absent => "ABSENT"
  | .exact => "EXACT"
  | .unknown state => "UNKNOWN:".toList ++ state

def fleetExactIdentity (index : ℕ) (name run : Text) : Quiet Identity := do
  let state ← ask index (.identity name)
  let expected := cluster.var "CHAMPION_IMAGE_ID" ++ '|' :: (run ++ ['|'])
  pure <|
    if !state.ok then .absent
    else if state.output == expected ++ "true".toList || state.output == expected ++ "false".toList
    then .exact
    else .unknown state.output

def fleetAssertExact (index : ℕ) (name run : Text) : Quiet Unit := do
  let state ← fleetExactIdentity cluster index name run
  demand (state = .exact) ["UNKNOWN identity for ", cluster.host index, "/", name, " (",
    state.text, ")"]

/-- One rank in `fleet_stop_exact_ordered`; the result says whether the last command
succeeded. -/
def fleetStopRank (strict : Bool) (run : Text) (index : ℕ) : Sh Bool := do
  passive (enter index)
  quiet fleetLockAssertHeld
  let name := Cluster.rank run index
  let state ← quiet (fleetExactIdentity cluster index name run)
  match state with
  | .exact => do
    let stopped ← .perform (.change index (.stop name))
    errexit strict stopped
    pure stopped.ok
  | .absent => pure true
  | .unknown _ =>
    fleetDie ["UNKNOWN identity for ", cluster.host index, "/", name, "; no mutation authorized"]

/-- `fleet_stop_exact_ordered`. The status of the loop is that of its last round. -/
def fleetStopExactOrdered (strict : Bool) (run : Text) : Sh Unit := do
  let stopped ← [3, 2, 1, 0].foldlM (fun _ index => fleetStopRank cluster strict run index) true
  if stopped then pure () else .fail .failed

/-- One rank in `fleet_observe_failed_three_times`. -/
def observeFailed (run : Text) (index : ℕ) : Check Unit := do
  enter index
  let name := Cluster.rank run index
  let state ← probe (fleetExactIdentity cluster index name run)
  (if state = .exact then pure () else .fail .failed)
  let status ← probe (ask index (.state name))
  (if status.output = "true|false|0".toList then .fail .failed else pure ())

/-- Its status is that of the last command, the sleep of the third round. -/
def fleetObserveFailedThreeTimes (runId : Text) : Check Unit := do
  let slept ← [1, 2, 3].foldlM (fun _ _ => do
    [0, 1, 2, 3].forM (observeFailed cluster runId)
    let reply ← probe (run .sleep)
    pure reply.ok) true
  if slept then pure () else .fail .failed

def verifyModelFile (index : ℕ) (line : Text) : Quiet Unit := do
  let (relative, expected) := readTwo '|' line
  if relative.isEmpty then pure ()
  else do
    let actual ← ask index (.artifactDigest relative)
    demand (actual.output == expected)
      [cluster.host index, " model artifact mismatch: ", relative]

def fleetVerifyModelFiles (index : ℕ) (lock : Text) : Quiet Unit := do
  let lines ← run (.modelLock lock)
  demand lines.ok ["model lock lacks complete whole-file hashes: ", lock]
  (splitOnChar '\n' lines.output).forM (verifyModelFile cluster index)

def fleetValidateProtectedPattern : Quiet Unit := do
  let reply ← run .validatePattern
  demand (reply.code ≤ 1) ["protected container pattern is not valid ERE"]

end Containers

end ChampionRuntime.Launch
