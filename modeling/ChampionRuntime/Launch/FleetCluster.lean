import ChampionRuntime.Launch.Cluster

/-!
# The cluster configuration in the shell

`fleet_load_cluster` of `scripts/lib/fleet.sh`, as the scripts call it under
`set -Eeuo pipefail`: a failed assignment ends the script. The renderer runs first,
on the same file. What the running shell brings along (the white space of its
locale, the variables it reserves, the environment) is a parameter; a setting of a
locale variable is taken not to change the white space.
-/
namespace ChampionRuntime.Launch

open Lib Lib.PyText

structure Shell where
  /-- `[[:space:]]` -/
  space : Char → Bool
  space_ascii : ∀ c, isAscii c = true → space c = (inRange 0x9 0xd c || c == ' ')
  space_le : ∀ c, space c = true → isSpace c = true
  /-- variables such as `UID` that cannot be assigned -/
  readonly : Text → Bool
  /-- variables such as `RANDOM` that do not keep what is assigned to them -/
  dynamic : Text → Bool
  environment : Text → Option Text
  /-- `CHAMPION_ROOT`, which every script sets -/
  root : Text

inductive FleetError where
  | renderer (cause : RenderError)
  | assignment (name : Text)
  | unbound (name : Text)
  | fourHosts
  deriving DecidableEq, Repr

/-- `read` drops the null characters of a line. -/
def dropNull (line : Text) : Text := line.filter (· != '\x00')

/-- The lines of `while IFS= read -r line || [[ -n "$line" ]]`. -/
def readLines (text : Text) : List Text :=
  let lines := (splitOnChar '\n' text).map dropNull
  if lines.getLast? = some [] then lines.dropLast else lines

def shellUnquote (quote : Char) (value : Text) : Text :=
  if quoted quote value then inner value else value

def isLetter (c : Char) : Bool := isUpper c || isLower c || c == '_'

/-- A name that `printf -v` can assign. An array element is none that can get here,
as the renderer refuses it. -/
def isIdentifier : Text → Bool
  | [] => false
  | c :: rest => isLetter c && rest.all fun x => isLetter x || isDigit x

/-- `${line#*=}`. -/
def shellValueOf (line : Text) : Text := if line.contains '=' then valueOf line else line

/-- Double quotes are removed first, and single quotes after that. -/
def shellValue (line : Text) : Text :=
  shellUnquote '\'' (shellUnquote '"' (shellValueOf line))

section Load

variable (S : Shell)

/-- One round of the loop. The last assignment of a variable stands first. -/
def assignLine (vars : Settings) (line : Text) : Except FleetError Settings :=
  let line := line.dropWhile S.space
  if isComment line then .ok vars
  else do
    let name := nameOf line
    require (isIdentifier name && !S.readonly name) (.assignment name)
    pure (if S.dynamic name then vars else (name, shellValue line) :: vars)

/-- The value of a variable under `set -u`. -/
def variableValue (vars : Settings) (name : String) : Except FleetError Text :=
  match vars.lookup name.toList with
  | some value => .ok value
  | none =>
    match S.environment name.toList with
    | some value => .ok value
    | none => .error (.unbound name.toList)

/-- `IFS=',' read -r -a`, which takes a final separator as the end of a field. -/
def readArray (value : Text) : List Text :=
  let parts := splitOnChar ',' value
  if parts.getLast? = some [] then parts.dropLast else parts

/-- A lock path is relative to the repository. -/
def lockPath (root lock : Text) : Text :=
  if lock.head? = some '/' then lock else root ++ '/' :: lock

structure Loaded where
  assigned : Settings
  hostArray : List Text
  fabricArray : List Text
  checkpointLockPath : Text
  sidecarLockPath : Text
  deriving DecidableEq, Repr

def fleetLoadCluster (text : Text) : Except FleetError Loaded :=
  match loadCluster text with
  | .error cause => .error (.renderer cause)
  | .ok _ => do
    let assigned ← (readLines text).foldlM (assignLine S) []
    let hosts ← variableValue S assigned "CHAMPION_HOSTS"
    let fabric ← variableValue S assigned "CHAMPION_FABRIC_IPS"
    let hostArray := readArray hosts
    let fabricArray := readArray fabric
    require (hostArray.length == 4 && fabricArray.length == 4) .fourHosts
    let checkpointLock ← variableValue S assigned "CHAMPION_CHECKPOINT_LOCK"
    let sidecarLock ← variableValue S assigned "CHAMPION_SIDECAR_LOCK"
    let root := (assigned.lookup "CHAMPION_ROOT".toList).getD S.root
    pure { assigned, hostArray, fabricArray,
           checkpointLockPath := lockPath root checkpointLock,
           sidecarLockPath := lockPath root sidecarLock }

/-- The value of a variable when the function returns, where it was assigned; an
array stands for its first element. -/
def Loaded.value (loaded : Loaded) (name : Text) : Option Text :=
  if name = "CHAMPION_HOST_ARRAY".toList then loaded.hostArray.head?
  else if name = "CHAMPION_FABRIC_ARRAY".toList then loaded.fabricArray.head?
  else if name = "CHAMPION_CHECKPOINT_LOCK_PATH".toList then some loaded.checkpointLockPath
  else if name = "CHAMPION_SIDECAR_LOCK_PATH".toList then some loaded.sidecarLockPath
  else loaded.assigned.lookup name

end Load

end ChampionRuntime.Launch
