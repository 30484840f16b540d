import ChampionRuntime.Launch.ClusterAgreement
import ChampionRuntime.Lib.ShellWords

/-!
# Commands on the hosts

The argument vectors that `scripts/launch_cluster.sh` and `scripts/lib/fleet.sh` pass
through `fleet_remote` and `fleet_docker`. The words behind the host reach the remote
shell as one line, joined with single blanks.
-/
namespace ChampionRuntime.Launch

open Lib Lib.ShellWords

/-- The words behind the host, and the words that the program is to get. -/
structure Call where
  sent : List Text
  intended : List Text
  deriving DecidableEq

/-- A launch with a configuration that `fleet_load_cluster` accepts. -/
structure Site (S : Shell) where
  text : Text
  loaded : Loaded
  accepted : fleetLoadCluster S text = .ok loaded
  runId : Text
  /-- the name of the preset -/
  canonical : Text
  /-- the files that the two model locks list -/
  modelFiles : List Text
  /-- what `render_launch.py --format argv` prints -/
  argv : Text
  /-- the container environment behind `render_launch.py --format env` -/
  containerEnv : List (Text × Text)
  allocator : Option Text

/-- `fleet_remote`, which passes its words as they are. -/
def fleetRemote (words : List Text) : Call := ⟨words, words⟩

def fixed (words : List String) : List Text := words.map String.toList

def field (name : String) : Text := "\x7b\x7b".toList ++ (name.toList ++ "\x7d\x7d".toList)

def stateFormat : Text :=
  field ".State.Running" ++ '|' :: (field ".State.OOMKilled" ++ '|' :: field ".RestartCount")

def identityFormat : Text :=
  field ".Image" ++ '|' :: (field "index .Config.Labels \"org.0xdfi.champion.run_id\"" ++
    '|' :: field ".State.Running")

def pinFormat : Text := field ".HostConfig.CpusetCpus" ++ '|' :: field ".HostConfig.CpusetMems"

namespace Site

variable {S : Shell} (site : Site S)

/-- The value of a variable; the script ends before it uses one that is not bound. -/
def var (name : String) : Text :=
  ((site.loaded.value name.toList).or (S.environment name.toList)).getD []

/-- `${CHAMPION_REMOTE_DOCKER_BIN:-docker}` -/
def dockerBin : Text :=
  if (site.var "CHAMPION_REMOTE_DOCKER_BIN").isEmpty then "docker".toList
  else site.var "CHAMPION_REMOTE_DOCKER_BIN"

def fleetDocker (words : List Text) : Call := fleetRemote (site.dockerBin :: words)

def host (index : ℕ) : Text := site.loaded.hostArray.getD index []

/-- `$CHAMPION_RUN_ID-rank$index` -/
def rank (index : ℕ) : Text := site.runId ++ ("-rank".toList ++ (toString index).toList)

/-- The query for listeners on the port of the service. -/
def portQuery : Call :=
  fleetRemote (fixed ["ss", "-ltnH"] ++ ["sport = :".toList ++ site.var "CHAMPION_API_PORT"])

/-- `verify_hosts` for one host. -/
def verifyHosts : List Call :=
  [fleetRemote (fixed ["uname", "-m"]),
    fleetRemote (fixed ["getconf", "_NPROCESSORS_ONLN"]),
    fleetRemote (fixed ["nvidia-smi", "--query-gpu=name,compute_cap", "--format=csv,noheader"]),
    fleetRemote (fixed ["test", "-S", "/var/run/docker.sock"]),
    fleetRemote (fixed ["test", "-d"] ++
      ["/sys/class/net/".toList ++ site.var "CHAMPION_RDMA_IFNAME"]),
    fleetRemote (fixed ["test", "-c"] ++ [site.var "CHAMPION_RDMA_UVERBS"]),
    fleetRemote (fixed ["test", "-c"] ++ [site.var "CHAMPION_RDMA_CM"]),
    fleetRemote (fixed ["rdma", "link", "show"] ++
      [site.var "CHAMPION_IB_HCA" ++ "/1".toList]),
    fleetRemote (fixed ["cat", "/proc/meminfo"]),
    fleetRemote (fixed ["ps", "-C", "polkitd", "-o", "rss="]),
    fleetRemote (fixed ["nvidia-smi", "--query-compute-apps=pid",
      "--format=csv,noheader,nounits"]),
    site.portQuery,
    site.fleetDocker (fixed ["ps", "--format"] ++ [field ".Names"]),
    site.fleetDocker (fixed ["image", "inspect"] ++
      [site.var "CHAMPION_IMAGE_REF", "--format".toList, field ".Id"])] ++
  site.modelFiles.map (fun relative => fleetRemote
    ["sha256sum".toList, site.var "CHAMPION_MODEL_PATH" ++ '/' :: relative]) ++
  [fleetRemote (fixed ["lscpu", "-p=CPU,MAXMHZ,NODE"])]

/-- `fleet_exact_identity`. -/
def exactIdentity (name : Text) : Call :=
  site.fleetDocker ["inspect".toList, name, "--format".toList, identityFormat]

/-- The readback of `rank_gate`. -/
def stateQuery (name : Text) : Call :=
  site.fleetDocker ["inspect".toList, name, "--format".toList, stateFormat]

def processList (name : Text) : Call :=
  site.fleetDocker ("top".toList :: name :: fixed ["-eo", "pid,args"])

def rankGate : List Call :=
  ((List.range 4).flatMap fun index =>
    [site.exactIdentity (site.rank index), site.stateQuery (site.rank index),
      site.fleetDocker ("exec".toList :: site.rank index ::
        fixed ["test", "-S", "/tmp/ray/session_latest/sockets/raylet"]),
      site.processList (site.rank index)]) ++
  [site.fleetDocker ("exec".toList :: site.rank 0 :: fixed ["ray", "status"]),
    site.processList (site.rank 0)]

/-- A change of the processors of a container. -/
def pin (cpus : String) (name : Text) : Call :=
  site.fleetDocker (fixed ["update", "--cpuset-cpus", cpus, "--cpuset-mems", "0"] ++ [name])

/-- The readback of `apply_fast_pin`. -/
def pinQuery (name : Text) : Call :=
  site.fleetDocker ["inspect".toList, name, "--format".toList, pinFormat]

/-- `apply_fast_pin`, with the commands of `rollback_fast_pin`. -/
def applyFastPin : List Call :=
  (List.range 4).flatMap fun index =>
    [site.exactIdentity (site.rank index), site.pin "5-9,15-19" (site.rank index),
      site.pinQuery (site.rank index), site.pin "0-19" (site.rank index)]

def runDirectory : Text := site.var "CHAMPION_RUN_ROOT" ++ '/' :: site.runId

def rankDirectory (index : ℕ) : Text :=
  site.runDirectory ++ ("/rank".toList ++ (toString index).toList)

def cacheDirectory : Text := site.runDirectory ++ ("/cache/".toList ++ site.canonical)

/-- The query for a container of this name. -/
def nameQuery (name : Text) : Call :=
  site.fleetDocker (fixed ["ps", "-a", "--filter"] ++
    ["name=^/".toList ++ name ++ ['$'], "--format".toList, field ".Names"])

def install (index : ℕ) : Call :=
  fleetRemote (fixed ["install", "-d", "-m", "0755"] ++
    [site.rankDirectory index, site.cacheDirectory])

/-- The words of `docker run` in front of the container environment. -/
def runHead (index : ℕ) : List Text :=
  fixed ["run", "-d", "--name"] ++ [site.rank index, "--hostname".toList, site.host index] ++
  fixed ["--gpus", "all", "--network", "host", "--ipc", "host", "--shm-size", "16g",
    "--pids-limit=-1", "--device"] ++
  [site.var "CHAMPION_RDMA_UVERBS", "--device".toList, site.var "CHAMPION_RDMA_CM",
    "--label".toList, "org.0xdfi.champion.run_id=".toList ++ site.runId,
    "--label".toList, "org.0xdfi.champion.preset=".toList ++ site.canonical,
    "-v".toList, site.var "CHAMPION_MODEL_PATH" ++ ":/models:ro".toList,
    "-v".toList, site.rankDirectory index ++ ":/run/champion".toList,
    "-v".toList, site.cacheDirectory ++ ":/root/.cache/vllm".toList]

/-- The words of `docker run` behind the container environment. -/
def runTail : List Text :=
  (site.allocator.toList.flatMap fun bytes =>
    ["--env".toList, "VLLM_UNIFIED_MEMORY_ALLOCATOR_BUDGET_BYTES=".toList ++ bytes]) ++
  fixed ["--entrypoint", "sleep"] ++ [site.var "CHAMPION_IMAGE_ID", "infinity".toList]

/-- The start of a container. The lines of the environment quote their values for a
shell, and the container is to get the values. -/
def run (index : ℕ) : Call where
  sent := site.dockerBin :: (site.runHead index ++ (site.containerEnv.flatMap fun e =>
    ["--env".toList, e.1 ++ '=' :: quote e.2]) ++ site.runTail)
  intended := site.dockerBin :: (site.runHead index ++ (site.containerEnv.flatMap fun e =>
    ["--env".toList, e.1 ++ '=' :: e.2]) ++ site.runTail)

def containerStart : List Call :=
  (List.range 4).flatMap fun index =>
    [site.nameQuery (site.rank index), site.install index, site.run index]

/-- The script that is to run in the first container. -/
def serveScript : Text := "exec ".toList ++ (site.argv ++ " >/run/champion/serve.log 2>&1".toList)

def serveStart : Call :=
  site.fleetDocker ("exec".toList :: "-d".toList :: site.rank 0 ::
    ["bash".toList, "-lc".toList, site.serveScript])

def calls : List Call :=
  site.verifyHosts ++ site.rankGate ++ site.applyFastPin ++ site.containerStart ++
    [site.serveStart]

end Site

section Arrival

-- what a remote shell makes of a line from its first expansion on
variable (expand : Bool → Text → Text → Option (List Text))

/-- The program on the host gets exactly the intended words. -/
def Reaches (call : Call) : Prop :=
  simpleCommand expand (joinWith ' ' call.sent) = some call.intended

instance (call : Call) : Decidable (Reaches expand call) := inferInstanceAs (Decidable (_ = _))

def Faithful {S : Shell} (site : Site S) : Prop := ∀ call ∈ site.calls, Reaches expand call

end Arrival

variable {S : Shell} {site : Site S} {expand : Bool → Text → Text → Option (List Text)}

/-- Behind plain words, a word with a blank or an operator in it does not arrive. -/
theorem fleetRemote_not_reaches (before : List Text) {after : List Text} (start : Text)
    {tail : Text} {c : Char} (hbefore : before.all isPlainWord = true) (hstart : isPlainWord start = true)
    (hc : (isBlank c || isOperator c) = true) :
    ¬ Reaches expand (fleetRemote (before ++ (start ++ c :: tail) :: after)) := by
  intro harrived
  have hspells : List.Forall₂ Spells before before :=
    List.forall₂_same.mpr fun word hword => spells_of_plain (List.all_eq_true.mp hbefore word hword)
  obtain ⟨more, hmore⟩ := word_ends_at_special hspells hstart hc harrived
  have hword := (List.cons.inj (List.append_cancel_left hmore)).1
  exact absurd (congrArg List.length hword) (by simp)

/-- The filter of the port query arrives as three words, on every host and for
every port. -/
theorem portQuery_not_reaches : ¬ Reaches expand site.portQuery := by
  have hsplit : "sport = :".toList ++ site.var "CHAMPION_API_PORT" =
      "sport".toList ++ ' ' :: ("= :".toList ++ site.var "CHAMPION_API_PORT") := rfl
  rw [Site.portQuery, hsplit]
  exact fleetRemote_not_reaches _ _ (by decide) (by decide) (by decide)

theorem portQuery_mem : site.portQuery ∈ site.calls := by
  simp [Site.calls, Site.verifyHosts]

/-- There is no configuration and no run for which all calls arrive. -/
theorem not_faithful (site : Site S) : ¬ Faithful expand site :=
  fun h => portQuery_not_reaches (h _ portQuery_mem)

/-! ### Plain names

With plain settings and a plain run identity, what fails is what the scripts
compose themselves. -/

structure Site.Plain (site : Site S) : Prop where
  docker : isPlainWord site.dockerBin = true ∧ isCommandName site.dockerBin = true
  runId : isPlainWord site.runId = true
  host : ∀ index < 4, isPlainWord (site.host index) = true
  settings : ∀ name ∈ ["CHAMPION_RDMA_IFNAME", "CHAMPION_RDMA_UVERBS", "CHAMPION_RDMA_CM",
    "CHAMPION_IB_HCA", "CHAMPION_MODEL_PATH", "CHAMPION_IMAGE_REF", "CHAMPION_IMAGE_ID",
    "CHAMPION_RUN_ROOT"], isPlainWord (site.var name) = true
  canonical : site.canonical.all isPlain = true
  modelFiles : ∀ relative ∈ site.modelFiles, relative.all isPlain = true
  containerEnv : ∀ e ∈ site.containerEnv, isPlainWord e.1 = true
  allocator : ∀ bytes ∈ site.allocator, bytes.all isPlain = true

/-- The calls with a word that holds a blank or a bar of the scripts' own. -/
inductive Site.Composed (site : Site S) : Call → Prop
  | port : Composed site site.portQuery
  | identity (index : ℕ) (h : index < 4) : Composed site (site.exactIdentity (site.rank index))
  | state (index : ℕ) (h : index < 4) : Composed site (site.stateQuery (site.rank index))
  | pin (index : ℕ) (h : index < 4) : Composed site (site.pinQuery (site.rank index))
  | serve : Composed site site.serveStart

def Spelled (call : Call) : Prop :=
  List.Forall₂ Spells call.sent call.intended ∧ call.intended.head?.any isCommandName = true

theorem reaches_of_spelled {call : Call} (h : Spelled call) : Reaches expand call :=
  simpleCommand_spelled h.1 h.2

theorem forall₂_spells {words : List Text} (h : words.all isPlainWord = true) :
    List.Forall₂ Spells words words :=
  List.forall₂_same.mpr fun word hword => spells_of_plain (List.all_eq_true.mp h word hword)

theorem fleetRemote_spelled {words : List Text} (h : words.all isPlainWord = true)
    (hname : words.head?.any isCommandName = true) : Spelled (fleetRemote words) :=
  ⟨forall₂_spells h, hname⟩

theorem fixed_append_spelled {words : List String} {word : Text}
    (hwords : (fixed words).all isPlainWord = true)
    (hname : (fixed words).head?.any isCommandName = true) (hword : isPlainWord word = true) :
    Spelled (fleetRemote (fixed words ++ [word])) := by
  refine fleetRemote_spelled (by simp [List.all_append, hwords, hword]) ?_
  cases words with
  | nil => simp [fixed] at hname
  | cons first words => exact hname

namespace Site.Plain

variable (h : site.Plain)

include h

theorem rank {index : ℕ} (hindex : index < 4) : isPlainWord (site.rank index) = true := by
  refine isPlainWord_append h.runId ?_
  interval_cases index <;> decide

theorem fleetDocker {words : List Text} (hwords : words.all isPlainWord = true) :
    Spelled (site.fleetDocker words) :=
  fleetRemote_spelled (by simpa [h.docker.1] using hwords) (by simpa using h.docker.2)

theorem not_reaches (before : List Text) {after : List Text} (start : Text) {tail : Text}
    {c : Char} (hbefore : before.all isPlainWord = true) (hstart : isPlainWord start = true)
    (hc : (isBlank c || isOperator c) = true) :
    ¬ Reaches expand (site.fleetDocker (before ++ (start ++ c :: tail) :: after)) :=
  fleetRemote_not_reaches (site.dockerBin :: before) start
    (by simpa [h.docker.1] using hbefore) hstart hc

theorem inspect_not_reaches {index : ℕ} (hindex : index < 4) (start : Text) {tail : Text} {c : Char}
    (hstart : isPlainWord start = true) (hc : (isBlank c || isOperator c) = true) :
    ¬ Reaches expand (site.fleetDocker
      ["inspect".toList, site.rank index, "--format".toList, start ++ c :: tail]) :=
  h.not_reaches ["inspect".toList, site.rank index, "--format".toList] start
    (by simp [h.rank hindex]; decide) hstart hc

theorem composed_not_reaches {call : Call} (hcall : site.Composed call) :
    ¬ Reaches expand call := by
  cases hcall with
  | port => exact portQuery_not_reaches
  | identity index hindex => exact h.inspect_not_reaches hindex (field ".Image") rfl rfl
  | state index hindex => exact h.inspect_not_reaches hindex (field ".State.Running") rfl rfl
  | pin index hindex => exact h.inspect_not_reaches hindex (field ".HostConfig.CpusetCpus") rfl rfl
  | serve =>
    exact h.not_reaches ["exec".toList, "-d".toList, site.rank 0, "bash".toList, "-lc".toList]
      "exec".toList (by simp [h.rank]; decide) rfl rfl

theorem setting (name : String) (hname : name ∈ ["CHAMPION_RDMA_IFNAME", "CHAMPION_RDMA_UVERBS",
    "CHAMPION_RDMA_CM", "CHAMPION_IB_HCA", "CHAMPION_MODEL_PATH", "CHAMPION_IMAGE_REF",
    "CHAMPION_IMAGE_ID", "CHAMPION_RUN_ROOT"]) : isPlainWord (site.var name) = true ∧
    (site.var name).all isPlain = true := by
  have hplain := h.settings name hname
  refine ⟨hplain, ?_⟩
  simp only [isPlainWord, Bool.and_eq_true] at hplain
  exact hplain.1

theorem verifyHosts_spelled {call : Call} (hcall : call ∈ site.verifyHosts)
    (hport : call ≠ site.portQuery) : Spelled call := by
  simp only [Site.verifyHosts, List.mem_append, List.mem_cons, List.not_mem_nil, or_false,
    List.mem_map] at hcall
  rcases hcall with ((rfl | rfl | rfl | rfl | rfl | rfl | rfl | rfl | rfl | rfl | rfl | rfl | rfl |
    rfl) | ⟨relative, hrelative, rfl⟩) | rfl
  · exact fleetRemote_spelled (by decide) (by decide)
  · exact fleetRemote_spelled (by decide) (by decide)
  · exact fleetRemote_spelled (by decide) (by decide)
  · exact fleetRemote_spelled (by decide) (by decide)
  · exact fixed_append_spelled (by decide) (by decide)
      (isPlainWord_append (by decide) (h.setting _ (by simp)).2)
  · exact fixed_append_spelled (by decide) (by decide) (h.setting _ (by simp)).1
  · exact fixed_append_spelled (by decide) (by decide) (h.setting _ (by simp)).1
  · exact fixed_append_spelled (by decide) (by decide)
      (isPlainWord_append (h.setting _ (by simp)).1 (by decide))
  · exact fleetRemote_spelled (by decide) (by decide)
  · exact fleetRemote_spelled (by decide) (by decide)
  · exact fleetRemote_spelled (by decide) (by decide)
  · exact absurd rfl hport
  · exact h.fleetDocker (by decide)
  · exact h.fleetDocker (by simp [h.setting _]; decide)
  · have hpath : isPlainWord (site.var "CHAMPION_MODEL_PATH" ++ '/' :: relative) = true :=
      isPlainWord_append (h.setting _ (by simp)).1 (by
        simpa using ⟨by decide, fun c hc => List.all_eq_true.mp (h.modelFiles _ hrelative) c hc⟩)
    exact fleetRemote_spelled (by simp [hpath]; decide) rfl
  · exact fleetRemote_spelled (by decide) (by decide)

theorem rankGate_spelled {call : Call} (hcall : call ∈ site.rankGate)
    (hcomposed : ¬ site.Composed call) : Spelled call := by
  simp only [Site.rankGate, List.mem_append, List.mem_flatMap, List.mem_range, List.mem_cons,
    List.not_mem_nil, or_false] at hcall
  rcases hcall with ⟨index, hindex, rfl | rfl | rfl | rfl⟩ | rfl | rfl
  · exact absurd (.identity index hindex) hcomposed
  · exact absurd (.state index hindex) hcomposed
  · exact h.fleetDocker (by simp [h.rank hindex]; decide)
  · exact h.fleetDocker (by simp [h.rank hindex]; decide)
  · exact h.fleetDocker (by simp [h.rank]; decide)
  · exact h.fleetDocker (by simp [h.rank]; decide)

theorem applyFastPin_spelled {call : Call} (hcall : call ∈ site.applyFastPin)
    (hcomposed : ¬ site.Composed call) : Spelled call := by
  simp only [Site.applyFastPin, List.mem_flatMap, List.mem_range, List.mem_cons,
    List.not_mem_nil, or_false] at hcall
  obtain ⟨index, hindex, rfl | rfl | rfl | rfl⟩ := hcall
  · exact absurd (.identity index hindex) hcomposed
  · exact h.fleetDocker (by simp [List.all_append, h.rank hindex]; decide)
  · exact absurd (.pin index hindex) hcomposed
  · exact h.fleetDocker (by simp [List.all_append, h.rank hindex]; decide)

theorem containerEnv_spelled : List.Forall₂ Spells
    (site.containerEnv.flatMap fun e => ["--env".toList, e.1 ++ '=' :: quote e.2])
    (site.containerEnv.flatMap fun e => ["--env".toList, e.1 ++ '=' :: e.2]) := by
  have hplain := h.containerEnv
  generalize site.containerEnv = entries at hplain ⊢
  induction entries with
  | nil => exact .nil
  | cons e entries ih =>
    obtain ⟨he, hrest⟩ := List.forall_mem_cons.mp hplain
    have hname : Begins (e.1 ++ ['=']) (e.1 ++ ['=']) :=
      begins_of_plain (isPlainWord_append he (by decide))
    have hline := (hname.append_quote e.2).spells
    simp only [List.append_assoc, List.singleton_append] at hline
    exact .cons (spells_of_plain (by decide)) (.cons hline (ih hrest))

theorem runId_all : site.runId.all isPlain = true := by
  have hrun := h.runId
  simp only [isPlainWord, Bool.and_eq_true] at hrun
  exact hrun.1

theorem runDirectory : isPlainWord site.runDirectory = true :=
  isPlainWord_append (h.setting _ (by simp)).1 (by rw [List.all_cons, h.runId_all]; decide)

theorem rankDirectory {index : ℕ} (hindex : index < 4) :
    isPlainWord (site.rankDirectory index) = true := by
  refine isPlainWord_append h.runDirectory ?_
  interval_cases index <;> decide

theorem cacheDirectory : isPlainWord site.cacheDirectory = true :=
  isPlainWord_append h.runDirectory (by rw [List.all_append, h.canonical]; decide)

theorem runHead {index : ℕ} (hindex : index < 4) :
    (site.runHead index).all isPlainWord = true := by
  have hrun : isPlainWord ("org.0xdfi.champion.run_id=".toList ++ site.runId) = true :=
    isPlainWord_append (by decide) h.runId_all
  have hpreset : isPlainWord ("org.0xdfi.champion.preset=".toList ++ site.canonical) = true :=
    isPlainWord_append (by decide) h.canonical
  have hmodels : isPlainWord (site.var "CHAMPION_MODEL_PATH" ++ ":/models:ro".toList) = true :=
    isPlainWord_append (h.setting _ (by simp)).1 (by decide)
  have hrank : isPlainWord (site.rankDirectory index ++ ":/run/champion".toList) = true :=
    isPlainWord_append (h.rankDirectory hindex) (by decide)
  have hcache : isPlainWord (site.cacheDirectory ++ ":/root/.cache/vllm".toList) = true :=
    isPlainWord_append h.cacheDirectory (by decide)
  have huverbs := (h.setting "CHAMPION_RDMA_UVERBS" (by simp)).1
  have hcm := (h.setting "CHAMPION_RDMA_CM" (by simp)).1
  simp only [Site.runHead, List.all_append, List.all_cons, List.all_nil, h.rank hindex,
    h.host index hindex, hrun, hpreset, hmodels, hrank, hcache, huverbs, hcm, Bool.true_and,
    Bool.and_true]
  decide

theorem runTail : site.runTail.all isPlainWord = true := by
  have hid := (h.setting "CHAMPION_IMAGE_ID" (by simp)).1
  have hallocator : (site.allocator.toList.flatMap fun bytes => ["--env".toList,
      "VLLM_UNIFIED_MEMORY_ALLOCATOR_BUDGET_BYTES=".toList ++ bytes]).all isPlainWord = true := by
    cases hbytes : site.allocator with
    | none => rfl
    | some bytes =>
      have hword : isPlainWord
          ("VLLM_UNIFIED_MEMORY_ALLOCATOR_BUDGET_BYTES=".toList ++ bytes) = true :=
        isPlainWord_append (by decide) (h.allocator bytes hbytes)
      simp only [Option.toList_some, List.flatMap_cons, List.flatMap_nil, List.append_nil,
        List.all_cons, List.all_nil, hword]
      decide
  simp only [Site.runTail, List.all_append, List.all_cons, List.all_nil, hid, hallocator]
  decide

theorem containerStart_spelled {call : Call} (hcall : call ∈ site.containerStart) :
    Spelled call := by
  simp only [Site.containerStart, List.mem_flatMap, List.mem_range, List.mem_cons,
    List.not_mem_nil, or_false] at hcall
  obtain ⟨index, hindex, rfl | rfl | rfl⟩ := hcall
  · have hfilter : Spells ("name=^/".toList ++ site.rank index ++ ['$'])
        ("name=^/".toList ++ site.rank index ++ ['$']) := by
      have hrank := h.rank hindex
      simp only [isPlainWord, Bool.and_eq_true] at hrank
      exact (begins_of_plain (isPlainWord_append (by decide) hrank.1)).spells_dollar
    have hquery : List.Forall₂ Spells (fixed ["ps", "-a", "--filter"])
        (fixed ["ps", "-a", "--filter"]) := forall₂_spells (by decide)
    have hformat : List.Forall₂ Spells ["--format".toList, field ".Names"]
        ["--format".toList, field ".Names"] := forall₂_spells (by decide)
    exact ⟨.cons (spells_of_plain h.docker.1) (List.rel_append hquery (.cons hfilter hformat)),
      h.docker.2⟩
  · refine fleetRemote_spelled ?_ rfl
    simp only [List.all_append, List.all_cons, List.all_nil, h.rankDirectory hindex,
      h.cacheDirectory]
    decide
  · exact ⟨.cons (spells_of_plain h.docker.1) (List.rel_append (List.rel_append
      (forall₂_spells (h.runHead hindex)) h.containerEnv_spelled) (forall₂_spells h.runTail)),
      h.docker.2⟩

theorem reaches_iff {call : Call} (hcall : call ∈ site.calls) :
    Reaches expand call ↔ ¬ site.Composed call := by
  refine ⟨fun harrived hcomposed => h.composed_not_reaches hcomposed harrived, fun hcomposed => ?_⟩
  refine reaches_of_spelled ?_
  simp only [Site.calls, List.mem_append, List.mem_singleton] at hcall
  rcases hcall with (((hcall | hcall) | hcall) | hcall) | rfl
  · exact h.verifyHosts_spelled hcall fun hport => hcomposed (hport ▸ .port)
  · exact h.rankGate_spelled hcall hcomposed
  · exact h.applyFastPin_spelled hcall hcomposed
  · exact h.containerStart_spelled hcall
  · exact absurd .serve hcomposed

end Site.Plain

/-- The compaction passes one script with its quotes, and it arrives. -/
example : Reaches (fun _ _ _ => none)
    ⟨fixed ["sudo", "-n", "sh", "-c", "'sync; printf 3 > /proc/sys/vm/drop_caches'"],
      fixed ["sudo", "-n", "sh", "-c", "sync; printf 3 > /proc/sys/vm/drop_caches"]⟩ := by
  decide

def fixtureLoaded : Loaded where
  assigned := fixtureSettings.reverse
  hostArray := ["a", "b", "c", "d"].map String.toList
  fabricArray := ["e", "f", "g", "h"].map String.toList
  checkpointLockPath := "/opt/champion/c.json".toList
  sidecarLockPath := "/opt/champion/s.json".toList

theorem fleetLoadCluster_fixture :
    fleetLoadCluster posixShell (fixtureText []) = .ok fixtureLoaded := by
  rw [fleetLoadCluster, loadCluster_fixture]
  decide +kernel

def fixtureSite : Site posixShell where
  text := fixtureText []
  loaded := fixtureLoaded
  accepted := fleetLoadCluster_fixture
  runId := "run".toList
  canonical := "fast-320k".toList
  modelFiles := ["model-00001.safetensors".toList]
  argv := "python3 -m vllm.entrypoints.openai.api_server".toList
  containerEnv := [("NCCL_IB_HCA".toList, "rdma0".toList)]
  allocator := none

/-- `ss` gets the filter as three arguments. -/
theorem fixture_portQuery : simpleCommand (fun _ _ _ => none)
      (joinWith ' ' fixtureSite.portQuery.sent) =
        some (fixed ["ss", "-ltnH", "sport", "=", ":8211"]) ∧
    ¬ Faithful (fun _ _ _ => none) fixtureSite := by
  have harrived : simpleCommand (fun _ _ _ => none) (joinWith ' ' fixtureSite.portQuery.sent) =
      some (fixed ["ss", "-ltnH", "sport", "=", ":8211"]) := by
    decide
  refine ⟨harrived, fun hfaithful => ?_⟩
  have hreaches := harrived.symm.trans (hfaithful _ portQuery_mem)
  exact absurd (congrArg (Option.map List.length) hreaches) (by decide)

end ChampionRuntime.Launch
