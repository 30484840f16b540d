import ChampionRuntime.Lib.Outcome
import ChampionRuntime.Lib.Schema

/-!
# Receipt content, identifiers, construction and verification

`champion_runtime/receipts.py` up to `verify_receipt`, with the typed schema of
`schemas/receipt.schema.json`. Three things come from outside the repository and
are parameters: the word characters of `\b` beyond ASCII, the RFC 8785
serialisation, which may refuse a value with a text of its own, and the
hexadecimal SHA-256 digest. The validator's texts about a schema violation are
left out.
-/
namespace ChampionRuntime.Receipts

open Lib Lib.Json Lib.PyText

abbrev Bytes := List UInt8

/-- What the receipts rely on outside the repository. -/
structure Primitives where
  /-- `\w` for a character beyond ASCII -/
  unicodeWord : Char → Bool
  /-- `rfc8785.dumps` -/
  rfc8785 : Value → Except String Bytes
  /-- `hashlib.sha256(...).hexdigest()` -/
  sha256 : Bytes → String

inductive ReceiptError where
  | nonFinite (path : String)
  | secretKey (path key : String)
  | secretValue (path : String)
  | commandIdentifier
  | notCanonical (detail : String)
  | notAnObject
  | bodyNotAnObject
  | noDurableIdentity
  | bodyHasReceiptId
  | missingFields (missing : List String)
  | unknownFields (extra : List String)
  | typedSchema
  | idNotADigest
  | idMismatch (stored expected : String)
  deriving DecidableEq, Repr

/-- `repr` of a text without quotes or escapes. -/
def quoted (s : String) : String := "'" ++ s ++ "'"

def listText (items : List String) : String :=
  "[" ++ ", ".intercalate (items.map quoted) ++ "]"

/-- The text of the raised error, up to the validator's own detail. -/
def ReceiptError.message : ReceiptError → String
  | nonFinite path => path ++ ": non-finite numbers are forbidden in receipts"
  | secretKey path key => path ++ "." ++ key ++ ": secret-like key " ++ quoted key ++ " is forbidden"
  | secretValue path => path ++ ": secret-like value is forbidden"
  | commandIdentifier => "$.command: command must be a stable identifier"
  | notCanonical detail => "value cannot be RFC 8785 canonicalized: " ++ detail
  | notAnObject => "receipt must be a JSON object"
  | bodyNotAnObject => "receipt body must be a JSON object"
  | noDurableIdentity => "receipt must contain at least one durable subject identity"
  | bodyHasReceiptId => "receipt body must not contain receipt_id"
  | missingFields missing => "missing required receipt fields: " ++ listText missing
  | unknownFields extra => "unknown receipt fields: " ++ listText extra
  | typedSchema => "receipt does not satisfy typed schema: "
  | idNotADigest => "receipt_id must be a lowercase SHA-256 digest"
  | idMismatch stored expected =>
    "receipt_id mismatch: stored " ++ stored ++ ", canonical body " ++ expected

def secretKeys : List String :=
  ["access_key", "api_key", "apikey", "authorization", "client_secret", "credential",
    "credentials", "passwd", "password", "private_key", "secret", "secrets", "token"]

def secretSuffixes : List String :=
  ["_access_key", "_api_key", "_authorization", "_credential", "_credentials", "_password",
    "_private_key", "_secret", "_token"]

/-- `re.sub(r"(?<=[a-z0-9])(?=[A-Z])", "_", key)`. -/
def separateWords : List Char → List Char
  | [] => []
  | [c] => [c]
  | c :: d :: rest =>
    if isLowerOrDigit c && isUpper d then c :: '_' :: separateWords (d :: rest)
    else c :: separateWords (d :: rest)

def collapse : List Char → List Char
  | [] => []
  | [c] => [c]
  | c :: d :: rest => if c = '_' ∧ d = '_' then collapse (d :: rest) else c :: collapse (d :: rest)

def normalizedKey (key : String) : String :=
  String.ofList (stripChar '_' (collapse ((separateWords key.toList).flatMap foldForKey)))

def isSecretKey (key : String) : Bool :=
  let normalized := normalizedKey key
  secretKeys.contains normalized ||
    secretSuffixes.any fun suffix => suffix.toList.isSuffixOf normalized.toList

namespace Primitives

variable (P : Primitives)

/-- `\w`. -/
def isWord (c : Char) : Bool :=
  if isAscii c then isUpper c || isLowerOrDigit c || c == '_' else P.unicodeWord c

end Primitives

section Patterns

variable (word : Char → Bool)

open Regex

def space : Regex := cls isSpace

def oneOf (chars : String) : Regex := cls chars.toList.contains

def noneOf (chars : String) : Regex := cls fun c => !isSpace c && !chars.toList.contains c

/-- `(?i)\bauthorization\s*[:=]\s*\S+` -/
def authorizationValue : Regex :=
  seq (boundary word) <| seq (litIgnoreCase "authorization".toList) <| seq (star space) <|
    seq (oneOf ":=") <| seq (star space) <| plus (cls fun c => !isSpace c)

def tokenChar : Regex :=
  cls fun c => isLowerOrDigit (ignoreCase c) || "._~+/=-".toList.contains c

/-- `(?i)\bbearer\s+[A-Za-z0-9._~+/=-]{6,}` -/
def bearerValue : Regex :=
  seq (boundary word) <| seq (litIgnoreCase "bearer".toList) <| seq (plus space) <|
    seq (times 6 tokenChar) (star tokenChar)

/-- `(?i)\b[a-z][a-z0-9+.-]*://[^/\s:@]+:[^/\s@]+@` -/
def urlCredentialValue : Regex :=
  seq (boundary word) <| seq (cls fun c => isLower (ignoreCase c)) <|
    seq (star (cls fun c => isLowerOrDigit (ignoreCase c) || "+.-".toList.contains c)) <|
    seq (lit "://".toList) <| seq (plus (noneOf "/:@")) <| seq (char ':') <|
    seq (plus (noneOf "/@")) (char '@')

/-- A word with an optional separator inside. -/
def spelled (a b : String) : Regex :=
  seq (litIgnoreCase a.toList) (seq (opt (oneOf "_-")) (litIgnoreCase b.toList))

/-- `(?i)[?&;](?:access[_-]?token|api[_-]?key|client[_-]?secret|password|token)=[^&\s]+` -/
def queryValue : Regex :=
  seq (oneOf "?&;") <| seq (alt (spelled "access" "token") <| alt (spelled "api" "key") <|
    alt (spelled "client" "secret") <| alt (litIgnoreCase "password".toList)
      (litIgnoreCase "token".toList)) <|
    seq (char '=') (plus (noneOf "&"))

def secretValuePatterns : List Regex :=
  [authorizationValue word, bearerValue word, urlCredentialValue word, queryValue]

def isSecretValue (s : String) : Bool :=
  (secretValuePatterns word).any fun r => r.search s.toList

/-- `[a-z][a-z0-9]*(?:-[a-z0-9]+)*` -/
def identifier : Regex :=
  seq (cls isLower) <| seq (star (cls isLowerOrDigit)) <|
    star (seq (char '-') (plus (cls isLowerOrDigit)))

end Patterns

def itemPath (path : String) (index : ℕ) : String := path ++ "[" ++ toString index ++ "]"

def fieldPath (path key : String) : String := path ++ "." ++ key

mutual

def validateJsonValue : String → Value → Except ReceiptError Unit
  | path, .num (.float (.inf _)) => .error (.nonFinite path)
  | path, .num (.float .nan) => .error (.nonFinite path)
  | path, .obj fields => validateJsonFields path fields
  | path, .arr items => validateJsonItems path 0 items
  | _, _ => .ok ()

def validateJsonFields : String → Fields → Except ReceiptError Unit
  | _, [] => .ok ()
  | path, (k, v) :: fields => do
    validateJsonValue (fieldPath path k) v
    validateJsonFields path fields

def validateJsonItems : String → ℕ → List Value → Except ReceiptError Unit
  | _, _, [] => .ok ()
  | path, index, v :: items => do
    validateJsonValue (itemPath path index) v
    validateJsonItems path (index + 1) items

end

section Secrets

variable (word : Char → Bool)

mutual

def rejectSecrets : String → Value → Except ReceiptError Unit
  | path, .obj fields => rejectSecretFields path fields
  | path, .arr items => rejectSecretItems path 0 items
  | path, .str s => if isSecretValue word s then .error (.secretValue path) else .ok ()
  | _, _ => .ok ()

def rejectSecretFields : String → Fields → Except ReceiptError Unit
  | _, [] => .ok ()
  | path, (k, v) :: fields =>
    if isSecretKey k then .error (.secretKey path k)
    else do
      rejectSecrets (fieldPath path k) v
      rejectSecretFields path fields

def rejectSecretItems : String → ℕ → List Value → Except ReceiptError Unit
  | _, _, [] => .ok ()
  | path, index, v :: items => do
    rejectSecrets (itemPath path index) v
    rejectSecretItems path (index + 1) items

end

end Secrets

/-- A command is absent, null or a stable identifier. -/
def commandAllowed (fields : Fields) : Bool :=
  match fields.lookup "command" with
  | none => true
  | some .null => true
  | some (.str command) => identifier.fullmatch command.toList
  | some _ => false

def validateReceiptContent (word : Char → Bool) (fields : Fields) : Except ReceiptError Unit := do
  validateJsonValue "$" (.obj fields)
  rejectSecrets word "$" (.obj fields)
  require (commandAllowed fields) .commandIdentifier

def durableSubjectKeys : List String :=
  ["source_release_id", "build_subject_id", "build_lock_id", "source_manifest_id", "image_digest",
    "model_id", "sidecar_id", "preset_id", "pin_id", "tokenizer_id", "sampling_id"]

open Regex in
def sha256Pattern : Regex := times 64 (cls isHexLower)

open Regex in
def imageDigestPattern : Regex := seq (lit "sha256:".toList) sha256Pattern

def isDurable (subject : Fields) (key : String) : Bool :=
  match subject.lookup key with
  | some (.str value) =>
    (if key = "image_digest" then imageDigestPattern else sha256Pattern).fullmatch value.toList
  | _ => false

/-- The receipt has a durable subject identity. -/
def hasDurableIdentity (body : Fields) : Bool :=
  match body.lookup "subject" with
  | some (.obj subject) => durableSubjectKeys.any (isDurable subject)
  | _ => false

def withoutId (fields : Fields) : Fields := fields.filter fun f => f.1 != "receipt_id"

section Identifiers

variable (P : Primitives)

def canonicalBytes (v : Value) : Except ReceiptError Bytes := do
  validateJsonValue "$" v
  match P.rfc8785 v with
  | .ok bytes => .ok bytes
  | .error detail => .error (.notCanonical detail)

/-- `receipt_id` of a mapping. -/
def receiptId (fields : Fields) : Except ReceiptError String := do
  let body := withoutId fields
  require (hasDurableIdentity body) .noDurableIdentity
  validateReceiptContent P.isWord body
  let bytes ← canonicalBytes P (.obj body)
  pure (P.sha256 bytes)

open Regex in
/-- A pattern of the schema, with its anchors. -/
def anchored (r : Regex) : Schema := .pattern (seq start (seq r stop))

def sha256Schema : Schema := anchored sha256Pattern

open Regex in
def gitShaSchema : Schema := anchored (times 40 (cls isHexLower))

open Regex in
/-- `^[0-9]{4}-[0-9]{2}-[0-9]{2}T[0-9]{2}:[0-9]{2}:[0-9]{2}Z$` -/
def timestampSchema : Schema :=
  anchored <| seq (times 4 (cls isDigit)) <| seq (char '-') <| seq (times 2 (cls isDigit)) <|
    seq (char '-') <| seq (times 2 (cls isDigit)) <| seq (char 'T') <|
    seq (times 2 (cls isDigit)) <| seq (char ':') <| seq (times 2 (cls isDigit)) <|
    seq (char ':') <| seq (times 2 (cls isDigit)) (char 'Z')

def subjectSchema : Schema :=
  .object [] durableSubjectKeys 1
    [("source_release_id", sha256Schema), ("build_subject_id", sha256Schema),
      ("build_lock_id", sha256Schema), ("source_manifest_id", sha256Schema),
      ("image_digest", anchored imageDigestPattern), ("model_id", sha256Schema),
      ("sidecar_id", sha256Schema), ("preset_id", sha256Schema), ("pin_id", sha256Schema),
      ("tokenizer_id", sha256Schema), ("sampling_id", sha256Schema), ("run_id", .minLength 1)]

def evidenceSchema : Schema :=
  .array (.object ["path", "sha256"] [] 0 [("path", .minLength 1), ("sha256", sha256Schema)])

def metadataSchema : Schema :=
  .object [] [] 0
    [("git_commit", gitShaSchema), ("run_id", .minLength 1), ("workflow_run_id", .minLength 1),
      ("workflow", .minLength 1), ("profile", .enum ["fast-320k", "balanced-650k", "large-1m"]),
      ("claim", .minLength 1), ("attempt", .integer 1 5), ("valid", .boolean),
      ("thresholds_passed", .boolean), ("median_threshold_passed", .boolean),
      ("normalized_outputs_equal", .boolean), ("source_equivalent", .boolean),
      ("rights_status", .enum ["verified", "unknown", "denied"]),
      ("registry_license_cleared", .boolean), ("registry_digest", anchored imageDigestPattern)]

def receiptBodyFields : List String :=
  ["schema_version", "receipt_type", "command", "created_at", "subject", "evidence", "result",
    "metadata"]

/-- `schemas/receipt.schema.json`. -/
def receiptSchema : Schema :=
  .object ["schema_version", "receipt_id", "receipt_type", "command", "created_at", "subject",
      "evidence", "result", "metadata"] [] 0
    [("schema_version", .const "1.0.0"), ("receipt_id", sha256Schema),
      ("receipt_type", anchored identifier), ("command", anchored identifier),
      ("created_at", timestampSchema), ("subject", subjectSchema), ("evidence", evidenceSchema),
      ("result", .enum ["PASS", "FAIL", "PROVISIONAL"]), ("metadata", metadataSchema)]

def sortTexts (texts : List String) : List String := texts.insertionSort (· ≤ ·)

def constructReceipt : Value → Except ReceiptError Value
  | .obj body => do
    require (!(keys body).contains "receipt_id") .bodyHasReceiptId
    let missing := receiptBodyFields.filter fun k => !(keys body).contains k
    require missing.isEmpty (.missingFields (sortTexts missing))
    let extra := (keys body).filter fun k => !receiptBodyFields.contains k
    require extra.isEmpty (.unknownFields (sortTexts extra))
    let id ← receiptId P body
    let stored := Value.obj (body ++ [("receipt_id", .str id)])
    require (receiptSchema.validate stored) .typedSchema
    pure stored
  | _ => .error .bodyNotAnObject

/-- The stored identifier, when it is a digest. -/
def storedId (receipt : Fields) : Except ReceiptError String :=
  match receipt.lookup "receipt_id" with
  | some (.str id) => if sha256Pattern.fullmatch id.toList then .ok id else .error .idNotADigest
  | _ => .error .idNotADigest

def verifyReceipt : Value → Except ReceiptError Value
  | .obj receipt => do
    validateReceiptContent P.isWord receipt
    require (receiptSchema.validate (.obj receipt)) .typedSchema
    let stored ← storedId receipt
    let expected ← receiptId P receipt
    require (stored == expected) (.idMismatch stored expected)
    pure (.obj receipt)
  | _ => .error .notAnObject

/-- The text `write_receipt` puts into the file. -/
def receiptText (stored : Value) : List Char := dumps stored ++ ['\n']

end Identifiers

end ChampionRuntime.Receipts
