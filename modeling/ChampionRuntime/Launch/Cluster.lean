import ChampionRuntime.Lib.Outcome
import ChampionRuntime.Lib.Regex
import ChampionRuntime.Lib.Split

/-!
# The cluster configuration

`load_cluster` of `scripts/render_launch.py`, on the decoded text of a
`cluster.env` file. Settings are kept in the order of their lines.
-/
namespace ChampionRuntime.Launch

open Lib Lib.PyText

abbrev Text := List Char

abbrev Settings := List (Text × Text)

def names (settings : Settings) : List Text := settings.map Prod.fst

inductive RenderError where
  | expectedSetting (number : ℕ)
  | invalidOrDuplicate (number : ℕ)
  | runtimeOnly (number : ℕ) (name : Text)
  | secret
  | unsafeOrEmpty (number : ℕ)
  | missing (settings : List Text)
  | hosts
  | fabric
  deriving DecidableEq, Repr

/-- The text of the raised error for the file at `path`. -/
def RenderError.message (path : String) : RenderError → String
  | expectedSetting number => path ++ ":" ++ toString number ++ ": expected NAME=value"
  | invalidOrDuplicate number =>
    path ++ ":" ++ toString number ++ ": invalid or duplicate setting"
  | runtimeOnly number name =>
    path ++ ":" ++ toString number ++ ": " ++ String.ofList name ++
      " is a runtime-only setting and must not be persisted"
  | secret =>
    "secret values are forbidden in cluster.env; use a mode-0600 credential reference"
  | unsafeOrEmpty number => path ++ ":" ++ toString number ++ ": unsafe or empty setting"
  | missing settings =>
    path ++ ": missing settings: " ++ ", ".intercalate (settings.map String.ofList)
  | hosts => "CHAMPION_HOSTS must contain exactly four unique hosts"
  | fabric => "CHAMPION_FABRIC_IPS must contain exactly four unique addresses"

section Patterns

open Regex

def isNameChar (c : Char) : Bool := isUpper c || isDigit c || c == '_'

/-- `^[A-Z][A-Z0-9_]*$`, matched in full. -/
def isEnvName : Text → Bool
  | [] => false
  | c :: rest => isUpper c && rest.all isNameChar

def oneOfWords : List String → Regex
  | [] => notAhead empty
  | [word] => lit word.toList
  | word :: words => alt (lit word.toList) (oneOfWords words)

/-- `(?:TOKEN|PASSWORD|SECRET|PRIVATE_KEY|CREDENTIAL)(?!.*(?:FILE|PATH|REF)$)` -/
def secretName : Regex :=
  seq (oneOfWords ["TOKEN", "PASSWORD", "SECRET", "PRIVATE_KEY", "CREDENTIAL"]) <|
    notAhead <| seq (star (cls (· != '\n'))) <| seq (oneOfWords ["FILE", "PATH", "REF"]) stop

end Patterns

def runtimeOnlyClusterSettings : List Text := ["CHAMPION_APPROVE_MEMORY_COMPACTION".toList]

def requiredSite : List Text :=
  ["CHAMPION_HOSTS", "CHAMPION_FABRIC_IPS", "CHAMPION_RDMA_IFNAME", "CHAMPION_IB_HCA",
    "CHAMPION_RDMA_UVERBS", "CHAMPION_RDMA_CM", "CHAMPION_MODEL_PATH", "CHAMPION_CHECKPOINT_LOCK",
    "CHAMPION_SIDECAR_LOCK", "CHAMPION_IMAGE_REF", "CHAMPION_IMAGE_ID", "CHAMPION_API_HOST",
    "CHAMPION_API_PORT", "CHAMPION_FLEET_LOCK", "CHAMPION_RUN_ID"].map String.toList

/-- The text starts and ends with the quote, at two places. -/
def quoted (quote : Char) (value : Text) : Bool :=
  2 ≤ value.length && value.head? == some quote && value.getLast? == some quote

/-- `value[1:-1]`. -/
def inner (value : Text) : Text := value.tail.dropLast

/-- One pair of quotes of either kind is removed. -/
def unquote (value : Text) : Text :=
  if quoted '"' value || quoted '\'' value then inner value else value

def unsafeTokens : List Text := ["`", "$(", "\n", "\r"].map String.toList

def isUnsafe (value : Text) : Bool := unsafeTokens.any fun token => occurs token value

/-- The name and the value around the first equals sign. -/
def nameOf (line : Text) : Text := line.takeWhile (· != '=')

def valueOf (line : Text) : Text := (line.dropWhile (· != '=')).tail

def isComment (line : Text) : Bool := line.isEmpty || line.head? == some '#'

/-- One round of the loop over the lines. -/
def loadLine (values : Settings) (number : ℕ) (raw : Text) : Except RenderError Settings :=
  let line := strip raw
  if isComment line then .ok values
  else do
    require (line.contains '=') (.expectedSetting number)
    let name := nameOf line
    require (isEnvName name && !(names values).contains name) (.invalidOrDuplicate number)
    require (!runtimeOnlyClusterSettings.contains name) (.runtimeOnly number name)
    require (!secretName.search name) .secret
    let value := unquote (strip (valueOf line))
    require (!value.isEmpty && !isUnsafe value) (.unsafeOrEmpty number)
    pure (values ++ [(name, value)])

def loadLines : Settings → ℕ → List Text → Except RenderError Settings
  | values, _, [] => .ok values
  | values, number, raw :: lines => do
    let values ← loadLine values number raw
    loadLines values (number + 1) lines

/-- The value of a setting; the required ones are present where this is used. -/
def setting (values : Settings) (name : String) : Text := (values.lookup name.toList).getD []

def fourUnique (entries : List Text) : Bool := entries.length == 4 && decide entries.Nodup

def loadCluster (text : Text) : Except RenderError Settings := do
  let values ← loadLines [] 1 (splitlines (universalNewlines text))
  let missing := requiredSite.filter fun name => !(names values).contains name
  require missing.isEmpty (.missing (missing.insertionSort fun a b => String.ofList a ≤ String.ofList b))
  require (fourUnique (splitOnChar ',' (setting values "CHAMPION_HOSTS"))) .hosts
  require (fourUnique (splitOnChar ',' (setting values "CHAMPION_FABRIC_IPS"))) .fabric
  pure values

end ChampionRuntime.Launch
