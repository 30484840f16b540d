import ChampionRuntime.Launch.Fleet

/-!
# Launching a fleet

`verify_hosts` and `launch_profile` of `scripts/launch_cluster.sh` with the functions
they call, its end, and the loop of `scripts/stage_image.sh`. A function that is called
in front of `||` or in a test runs on after a command that fails; `strict` says
whether `verify_hosts` is called otherwise.
-/
namespace ChampionRuntime.Launch

open Lib Lib.PyText Lib.Json

local instance : Coe String Text := ⟨String.toList⟩

/-- The script when it has loaded its cluster. -/
structure Launcher where
  cluster : Cluster
  mode : Text
  profile : Text
  runId : Text
  nonceHash : Text
  runHash : Text

inductive MemoryPolicy
  | strict
  | preCompaction
  deriving DecidableEq, Repr

/-- The extrema so far, and the rows of the report. -/
structure Readings where
  minMem : ℕ
  maxMem : ℕ
  reports : List Text

/-- `(( mem < min_mem )) && min_mem=$mem` and the same for the maximum. -/
def Readings.add (readings : Readings) (mem : ℕ) : Readings where
  minMem := if mem < readings.minMem then mem else readings.minMem
  maxMem := if readings.maxMem < mem then mem else readings.maxMem
  reports := readings.reports

/-- The memory that a host has to have, 116 GiB in KiB. -/
def minimumKib : ℕ := 121634816

def spreadKib : ℕ := 524288

/-- `min_mem * 1024 - 6 * 1024 * 1024 * 1024` -/
def allocatorFloor (kib : ℕ) : ℤ := kib * 1024 - 6 * 1024 * 1024 * 1024

/-- The value of digits in `[[ … -lt … ]]`: a leading zero means octal, and values are
of 64 bits. -/
def shellNumber (digits : Text) : Option ℤ :=
  let wrap (n : ℕ) : ℤ := (n + 2 ^ 63) % 2 ^ 64 - 2 ^ 63
  if digits.head? == some '0' then
    if digits.all (inRange 0x30 0x37) then
      some (wrap (digits.foldl (fun acc c => 8 * acc + (c.toNat - 48)) 0))
    else none
  else some (wrap (natOf digits))

def numberSatisfies (p : ℤ → Bool) (value : Text) : Bool :=
  isNumber value && (shellNumber value).any p

def orUnknown (value : Text) : Text := if value.isEmpty then "unknown".toList else value

def dropOneBlank (value : Text) : Text := if value.head? == some ' ' then value.tail else value

def dropLastBlank (value : Text) : Text :=
  if value.getLast? == some ' ' then value.dropLast else value

def isFast (profile : Text) : Bool := profile == "fast".toList

namespace Launcher

variable (launch : Launcher)

section VerifyHosts

/-- One host in `verify_hosts`. -/
def verifyHost (strict : Bool) (policy : MemoryPolicy) (readings : Readings) (index : ℕ) :
    Check Readings := do
  enter index
  probe (if launch.mode == "launch".toList then fleetLockAssertHeld else pure ())
  let host := launch.cluster.host index
  let arch ← probe (askStrict strict index .architecture)
  demand (arch == "aarch64".toList) [host, " architecture is ", arch, ", expected aarch64"]
  let cpus ← probe (askStrict strict index .onlineCpus)
  demand (cpus == "20".toList) [host, " has ", cpus, " online CPUs, expected 20"]
  let gpuLine ← probe (askStrict strict index .gpu)
  let gpu := dropLastBlank (readTwo ',' gpuLine).1
  let capability := dropOneBlank (readTwo ',' gpuLine).2
  demand (gpu == "NVIDIA GB10".toList && capability == "12.1".toList)
    [host, " GPU is ", gpu, "/", capability, ", expected NVIDIA GB10/12.1"]
  let docker ← probe (ask index .dockerSocket)
  demand docker.ok [host, " Docker socket unavailable"]
  let rdma ← probe (ask index .rdmaInterface)
  demand rdma.ok [host, " RDMA interface missing"]
  let uverbs ← probe (ask index .uverbs)
  demand uverbs.ok [host, " uverbs device missing"]
  let cm ← probe (ask index .rdmaCm)
  demand cm.ok [host, " rdma_cm device missing"]
  let link ← probe (ask index .rdmaLink)
  demand link.ok [host, " RDMA link is not active"]
  let mem ← probe (askStrict strict index .memAvailable)
  demand (isMemory mem) [host, " MemAvailable is invalid: ", orUnknown mem]
  demand (policy ≠ .strict || minimumKib ≤ natOf mem)
    [host, " MemAvailable ", mem, " KiB is below 116 GiB"]
  let polkit ← probe (askStrict strict index .polkitRss)
  demand (numberSatisfies (· < 131072) polkit) [host, " polkit RSS exceeds 128 MiB"]
  let swap ← probe (askStrict strict index .swapUsed)
  demand (numberSatisfies (· ≤ 6291456) swap) [host, " swap use exceeds 6 GiB"]
  let apps ← probe (ask index .gpuApplications)
  demand apps.ok [host, " GPU application query failed"]
  demand apps.output.isEmpty [host, " has a live GPU compute application"]
  let busy ← probe (ask index .portListeners)
  demand busy.ok [host, " target port query failed"]
  demand busy.output.isEmpty
    [host, " target port ", launch.cluster.var "CHAMPION_API_PORT", " is occupied"]
  let containers ← probe (ask index .runningNames)
  demand containers.ok [host, " protected container query failed"]
  let matched ← probe (run (.matchProtected containers.output))
  demand (matched.code != 0) [host, " protected container is running: ", matched.output]
  demand (matched.code == 1) [host, " protected container pattern evaluation failed"]
  let image ← probe (ask index .imageId)
  demand (image.output == launch.cluster.var "CHAMPION_IMAGE_ID") [host, " image identity mismatch"]
  probe (fleetVerifyModelFiles launch.cluster index launch.cluster.checkpointLockPath)
  probe (fleetVerifyModelFiles launch.cluster index launch.cluster.sidecarLockPath)
  let row := joinWith '|' [host, arch, cpus, gpu, capability, mem, polkit, swap]
  pure { readings.add (natOf mem) with reports := readings.reports ++ [row] }

/-- The processors and memory nodes that Fast needs, on one host. -/
def verifyTopology (index : ℕ) : Check Unit := do
  enter index
  let topology ← probe (ask index .cpuTopology)
  demand topology.ok [launch.cluster.host index, " Fast big-core/NUMA topology mismatch"]

def verifyHosts (strict : Bool) (policy : MemoryPolicy) : Check Unit := do
  let readings ← [0, 1, 2, 3].foldlM (launch.verifyHost strict policy)
    { minMem := 999999999, maxMem := 0, reports := [] }
  demand (policy ≠ .strict || readings.maxMem ≤ readings.minMem + spreadKib)
    ["peer MemAvailable spread exceeds 512 MiB"]
  let fast ← .read fun vars => isFast vars.profile
  (if fast then [0, 1, 2, 3].forM launch.verifyTopology else pure ())
  let report ← probe (run (.hostReport readings.reports))
  errexit strict report
  if report.ok then pure () else .fail .failed

end VerifyHosts

section Probes

def profileName (profile : Text) : Option Text :=
  if profile ∈ ["fast", "fast-320k"].map String.toList then some "fast-320k".toList
  else if profile ∈ ["balanced", "balanced-650k"].map String.toList then
    some "balanced-650k".toList
  else if profile ∈ ["large", "large-1m"].map String.toList then some "large-1m".toList
  else none

def apiHealth : Quiet Bool := do
  let reply ← run .apiHealth
  pure reply.ok

def chatProbe : Quiet Bool := do
  let reply ← run .chatProbe
  pure reply.ok

/-- `api_health && chat_probe`. -/
def healthAndChat : Quiet Bool := do
  let healthy ← apiHealth
  if healthy then chatProbe else pure false

def cacheBustedSparseIndexerProbe : Quiet Bool := do
  let payload ← run .probePayload
  if payload.ok then do
    let raw ← run (.probeRequest payload.output)
    if raw.ok then do
      let answer ← run (.probeAnswer raw.output)
      pure answer.ok
    else pure false
  else pure false

/-- The rounds that wait for the service; a sleep that fails ends the script. -/
def awaitHealth : ℕ → Quiet Unit
  | 0 => pure ()
  | n + 1 => do
    let healthy ← apiHealth
    if healthy then pure ()
    else do
      let slept ← run .sleep
      errexit true slept
      awaitHealth n

end Probes

section Compaction

def compactHost (index : ℕ) : Sh Unit := do
  passive (enter index)
  quiet fleetLockAssertHeld
  let compacted ← .perform (.compact index)
  demand compacted.ok [launch.cluster.host index, " approved memory compaction failed"]

def measureHost (readings : Readings) (index : ℕ) : Check Readings := do
  enter index
  probe fleetLockAssertHeld
  let host := launch.cluster.host index
  let mem ← probe (ask index .memAvailable)
  demand (isMemory mem.output)
    [host, " post-compaction MemAvailable is invalid: ", orUnknown mem.output]
  demand (minimumKib ≤ natOf mem.output)
    [host, " post-compaction MemAvailable ", mem.output, " KiB is below 116 GiB"]
  pure (readings.add (natOf mem.output))

def compactAndSizeUniformAllocatorFloor : Sh Text := do
  [0, 1, 2, 3].forM launch.compactHost
  let readings ← passive <| [0, 1, 2, 3].foldlM launch.measureHost
    { minMem := 999999999999, maxMem := 0, reports := [] }
  demand (readings.maxMem ≤ readings.minMem + spreadKib)
    ["post-compaction peer MemAvailable spread exceeds 512 MiB"]
  demand (0 < allocatorFloor readings.minMem)
    ["fleet-uniform allocator floor calculation failed"]
  pure (toString (allocatorFloor readings.minMem)).toList

end Compaction

section Gates

def countLine (line : String) (text : Text) : ℕ := (splitOnChar '\n' text).count line.toList

def floorLead : Text := "VLLM_UNIFIED_MEMORY_ALLOCATOR_BUDGET_BYTES=".toList

def allocatorReadback (profileDrafterCap : Text) (index : ℕ) : Check Unit := do
  enter index
  let name := Cluster.rank launch.runId index
  let place := launch.cluster.host index ++ '/' :: name
  let env ← probe (ask index (.allocatorEnv name))
  demand env.ok [place, " allocator environment readback failed"]
  demand (countLine "PYTORCH_CUDA_ALLOC_CONF=expandable_segments:True" env.output == 1)
    [place, " PyTorch allocator environment mismatch"]
  let floors ← .read Vars.allocatorFloors
  let expected := floors.getD index []
  let floorLines := joinWith '\n' ((splitOnChar '\n' env.output).filter (floorLead.isPrefixOf ·))
  (if expected.isEmpty then
    demand floorLines.isEmpty [place, " has an unexpected allocator floor environment"]
  else
    demand (floorLines == floorLead ++ expected)
      [place, " allocator floor environment mismatch"])
  demand (profileDrafterCap != "1".toList ||
      countLine "VLLM_R17_PROFILE_DRAFTER_CAP=1" env.output == 1)
    [place, " drafter profile cap environment mismatch"]

def allocatorReadbackGate (profileDrafterCap : Text) : Check Unit :=
  [0, 1, 2, 3].forM (launch.allocatorReadback profileDrafterCap)

def rankReady (index : ℕ) : Check Unit := do
  enter index
  let name := Cluster.rank launch.runId index
  let place := launch.cluster.host index ++ '/' :: name
  probe (fleetAssertExact launch.cluster index name launch.runId)
  let state ← probe (ask index (.state name))
  demand (state.output == "true|false|0".toList) [place, " restart/OOM state is ", state.output]
  let socket ← probe (ask index (.rayletSocket name))
  demand socket.ok [place, " Ray socket missing"]
  let processes ← probe (ask index (.rayProcesses name))
  demand processes.ok [place, " Ray PID/argv missing"]

/-- `rank_gate`. The status of the query for the four ranks is not returned. -/
def rankGate : Check Unit := do
  [0, 1, 2, 3].forM (launch.rankReady)
  let _ ← probe (ask 0 (.rayStatus (Cluster.rank launch.runId 0)))
  let server ← probe (ask 0 (.apiServer (Cluster.rank launch.runId 0)))
  demand server.ok ["coordinator API PID/argv missing"]

def transportAndLogGate : Quiet Unit := do
  let logs ← ask 0 (.serveLog (Cluster.rank launch.runId 0))
  demand (occurs "Using network IB".toList logs.output &&
      !occurs "Using network Socket".toList logs.output)
    ["NCCL did not select IB exclusively"]
  let fatal ← run (.fatalMarker logs.output)
  demand (!fatal.ok) ["current-attempt fatal marker detected"]
  let _ ← run (.allocationWarning logs.output)
  let lines ← run (.countLines logs.output)
  .update fun vars => { vars with readinessLogLines := lines.output }

end Gates

section Pin

/-- One rank of `apply_fast_pin` and of `rollback_fast_pin`. -/
def updateCpus (cpus : String) (index : ℕ) : Sh Unit := do
  passive (enter index)
  quiet fleetLockAssertHeld
  let name := Cluster.rank launch.runId index
  quiet (fleetAssertExact launch.cluster index name launch.runId)
  let updated ← .perform (.change index (.updateCpus cpus name))
  if updated.ok then pure () else .fail .failed

def pinReadback (index : ℕ) : Check Unit := do
  enter index
  probe fleetLockAssertHeld
  let observed ← probe (ask index (.pinned (Cluster.rank launch.runId index)))
  if observed.output == "5-9,15-19|0".toList then pure () else .fail .failed

def orFail (x : Quiet Bool) : Quiet Unit := do
  let passed ← x
  if passed then pure () else .fail .failed

def rollbackFastPin : Sh Unit := do
  [0, 1, 2, 3].forM (launch.updateCpus "0-19")
  quiet (orFail healthAndChat)

/-- The part of `apply_fast_pin` that sets `failed`. -/
def pinFast : Sh Unit := do
  [0, 1, 2, 3].forM (launch.updateCpus "5-9,15-19")
  passive ([0, 1, 2, 3].forM launch.pinReadback)
  quiet (orFail healthAndChat)

def applyFastPin : Sh Unit := do
  let pinned ← succeeds launch.pinFast
  if pinned then pure ()
  else do
    let _ ← succeeds launch.rollbackFastPin
    .fail .failed

end Pin

section Profile

variable (canonical : Text)

/-- The fields of the allocator of a preset. -/
structure AllocatorContract where
  scope : Text
  floor : Text
  cap : Text

/-- `IFS='|' read -r allocator_scope allocator_floor allocator_cap`. -/
def readContract (text : Text) : AllocatorContract where
  scope := (readTwo '|' text).1
  floor := (readTwo '|' (readTwo '|' text).2).1
  cap := (readTwo '|' (readTwo '|' text).2).2

/-- `fleet-uniform` and `computed`. -/
def AllocatorContract.isUniform (contract : AllocatorContract) : Bool :=
  contract.scope == "fleet-uniform".toList && contract.floor == "computed".toList

def AllocatorContract.isPerHost (contract : AllocatorContract) : Bool :=
  contract.scope == "per-host".toList && contract.floor == "computed".toList

/-- No container of this run is on the host. -/
def demandFresh (index : ℕ) : Quiet Unit := do
  let name := Cluster.rank launch.runId index
  let existing ← askStrict true index (.containerNames name)
  demand existing.isEmpty ["existing target container ", launch.cluster.host index, "/", name,
    " is preserved; choose a fresh run id"]

def checkFresh (index : ℕ) : Check Unit := do
  enter index
  probe fleetLockAssertHeld
  probe (launch.demandFresh index)

/-- The verification and, for a uniform floor, the compaction. -/
def prepareHosts (contract : AllocatorContract) : Sh Text :=
  if contract.isUniform then do
    passive (launch.verifyHosts false .preCompaction)
    passive ([0, 1, 2, 3].forM (launch.checkFresh))
    fleetConsumeCompactionNonceHash launch.cluster launch.nonceHash launch.runHash
    launch.compactAndSizeUniformAllocatorFloor
  else do
    passive (launch.verifyHosts false .strict)
    pure []

def hostFloor (contract : AllocatorContract) (uniformFloor : Text) (index : ℕ) : Quiet Text :=
  if contract.isPerHost then do
    let mem ← askStrict true index .memAvailable
    demand (isMemory mem) [launch.cluster.host index, " per-host allocator input failed"]
    demand (0 < allocatorFloor (natOf mem))
      [launch.cluster.host index, " per-host allocator calculation failed"]
    pure (toString (allocatorFloor (natOf mem))).toList
  else pure uniformFloor

/-- `CHAMPION_RUN_ROOT` is not among the required settings. -/
def demandRunRoot : Quiet Unit :=
  if (launch.cluster.value "CHAMPION_RUN_ROOT").isSome then pure () else .fail (.exit 1)

def startContainer (contract : AllocatorContract) (uniformFloor : Text) (index : ℕ) : Sh Unit := do
  passive (enter index)
  quiet fleetLockAssertHeld
  quiet (launch.demandFresh index)
  quiet launch.demandRunRoot
  let installed ← .perform (.change index (.install canonical))
  errexit true installed
  let allocator ← quiet (launch.hostFloor contract uniformFloor index)
  .update fun vars => { vars with allocatorFloors := vars.allocatorFloors ++ [allocator] }
  let created ← .perform (.change index (.startContainer canonical allocator))
  errexit true created
  .update fun vars => { vars with started := true }

/-- A command in the container of one rank. -/
def execute (change : Change) (index : ℕ) : Sh Unit := do
  passive (enter index)
  quiet fleetLockAssertHeld
  let reply ← .perform (.change index change)
  errexit true reply

def awaitReadiness : Check Unit := do
  let attempts ← probe (run .startAttempts)
  probe (awaitHealth (rounds attempts))
  let healthy ← probe apiHealth
  demand healthy ["API readiness timeout"]
  let models ← probe (run .models)
  errexit true models
  let checked ← probe (run (.checkModels canonical models.output))
  errexit true checked
  launch.rankGate
  probe launch.transportAndLogGate
  let answered ← probe chatProbe
  demand answered ["immediate chat failed"]
  let fast ← .read fun vars => isFast vars.profile
  (if fast then do
    let found ← probe cacheBustedSparseIndexerProbe
    demand found ["cache-busted sparse-indexer semantic probe failed"]
  else pure ())

def soak : Quiet Unit := do
  let slept ← run .sleep
  errexit true slept
  let answered ← healthAndChat
  demand answered ["post-idle health/chat failed"]
  let logs ← askStrict true 0 (.serveLog (Cluster.rank launch.runId 0))
  let later ← run (.laterLines logs)
  errexit true later
  let marker ← run (.lateMarker later.output)
  demand (!marker.ok) ["post-readiness fatal/allocation warning detected"]

/-- The pin of Fast, and the last look at the lock. -/
def finish : Sh Unit := do
  let fast ← .read fun vars => isFast vars.profile
  (if fast then launch.applyFastPin else pure ())
  quiet fleetLockAssertHeld

def launchProfile : Sh Unit := do
  match profileName launch.profile with
  | none => fleetDie ["unknown profile ", launch.profile]
  | some canonical => do
    .update fun vars => { vars with profile := canonical.takeWhile (· != '-') }
    let contract ← quiet (run (.allocatorContract canonical))
    (if contract.ok then pure () else .fail .failed)
    let argv ← quiet (run (.renderArgv canonical))
    (if argv.ok then pure () else .fail .failed)
    let env ← quiet (run (.renderEnv canonical))
    (if env.ok then pure () else .fail .failed)
    quiet (fleetLockAcquire launch.cluster false)
    let allocator := readContract contract.output
    let uniformFloor ← launch.prepareHosts allocator
    let replaced := launch.cluster.var "CHAMPION_REPLACE_RUN_ID"
    (if replaced.isEmpty then pure () else fleetStopExactOrdered launch.cluster false replaced)
    .update fun vars => { vars with allocatorFloors := [] }
    [0, 1, 2, 3].forM (launch.startContainer canonical allocator uniformFloor)
    quiet fleetLockAssertHeld
    passive (launch.allocatorReadbackGate allocator.cap)
    execute .rayHead 0
    [1, 2, 3].forM (execute .rayWorker)
    execute (.serve argv.output) 0
    passive (launch.awaitReadiness canonical)
    .update fun vars => { vars with readinessPassed := true }
    quiet launch.soak
    launch.finish

end Profile

/-- `on_exit`, with the status of the script. -/
def onExit (failed : Bool) : Sh Unit := do
  let unready ← .read fun vars => vars.started && !vars.readinessPassed
  (if failed && unready then do
    let gone ← succeeds (passive (fleetObserveFailedThreeTimes launch.cluster launch.runId))
    if gone then do
      let _ ← succeeds (fleetStopExactOrdered launch.cluster false launch.runId)
    else pure ()
  else pure ())
  quiet (fleetLockRelease false)

/-- The `case` at the end of the script. -/
def dispatch : Sh Unit :=
  if launch.mode == "verify-hosts".toList then passive (launch.verifyHosts true .strict)
  else if launch.mode == "launch".toList then launch.launchProfile
  else .fail (.exit 64)

/-- The hash of the run, which is computed when there is a hash of a nonce. -/
def computeRunHash : Quiet Text :=
  if launch.nonceHash.isEmpty then pure launch.runHash
  else do
    let reply ← run .runHash
    if reply.ok then pure reply.output else .fail (.exit 70)

/-- What runs under the `trap`. -/
def body : Sh Unit := do
  quiet fleetValidateProtectedPattern
  let runHash ← quiet launch.computeRunHash
  ({ launch with runHash }).dispatch

def main : Sh Unit := do
  .update fun vars => { vars with profile := launch.profile }
  let outcome ← launch.body.attempt
  launch.onExit (outcome.toBool = false)
  match outcome with
  | .ok _ => pure ()
  | .error stop => .fail stop

end Launcher

section StageImage

variable (cluster : Cluster) (imageId buildSubject : Text)

/-- One round of the loop of `stage_image.sh`, under `set -e`. -/
def stageHost (index : ℕ) : Sh Unit := do
  passive (enter index)
  quiet fleetLockAssertHeld
  let usage ← quiet (ask index .systemDf)
  errexit true usage
  let built ← quiet (.perform (.askBuilder (.storedImage imageId)))
  errexit true built
  let loaded ← .perform (.change index (.loadImage imageId))
  errexit true loaded
  let got ← quiet (askStrict true index (.storedImage imageId))
  (if got == imageId then pure () else .fail (.exit 1))
  let label ← quiet (askStrict true index (.buildSubject imageId))
  if label == buildSubject then pure () else .fail (.exit 1)

end StageImage

/-- `stage_image.sh` behind its configuration. -/
def stageImage (cluster : Cluster) : Sh Unit := do
  (if (cluster.value "CHAMPION_STATUS_FILE").isSome then pure () else .fail (.exit 1))
  let accepted ← quiet (run .acceptedBuild)
  let buildSubject := (readTwo '|' accepted.output).1
  let imageId := (readTwo '|' (readTwo '|' accepted.output).2).1
  (if accepted.output.isEmpty then .fail (.exit 3) else pure ())
  (if imageId == cluster.var "CHAMPION_IMAGE_ID" then pure () else .fail (.exit 3))
  quiet (fleetLockAcquire cluster true)
  [0, 1, 2, 3].forM (stageHost imageId buildSubject)
  quiet fleetLockAssertHeld

/-- The script with its `trap`. -/
def stageImageMain (cluster : Cluster) : Sh Unit := do
  let outcome ← (stageImage cluster).attempt
  quiet (fleetLockRelease true)
  match outcome with
  | .ok _ => pure ()
  | .error stop => .fail stop

end ChampionRuntime.Launch
