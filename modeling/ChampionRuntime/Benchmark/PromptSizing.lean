import ChampionRuntime.Lib.Json
import ChampionRuntime.Lib.Loop
import Mathlib.Tactic

/-!
# Prompts of an exact size

`size_prefill_prompt` of `probe.py` asks the server for the token count of prompt after
prompt: it takes units away until the base prompt fits, doubles the filler words until they
are too many, and bisects. The server's tokenizer may count as it likes.
-/
namespace ChampionRuntime.Benchmark.Probe

open Lib
open Lib.Json (Value)

/-- The exceptions of a sizing; an `HttpFailure` is a `ProbeError`, too. -/
inductive SizingError where
  | httpFailure (text : String) (accepted : Bool)
  | probeError (text : String)
  | other (text : String)

/-- `except (HttpFailure, ProbeError)` -/
def SizingError.isCaught : SizingError → Bool
  | .httpFailure _ _ | .probeError _ => true
  | .other _ => false

/-- The client; the object a request is answered with, or what it raises. -/
structure TokenizeClient where
  model : String
  postJson : String → Value → ℕ → Except SizingError (List (String × Value))

/-- The body of a `/tokenize` request. -/
def tokenizeRequest (model prompt : String) : Value :=
  .obj [
    ("model", .str model),
    ("messages", .arr [.obj [("role", .str "user"), ("content", .str prompt)]]),
    ("add_special_tokens", .bool true),
    ("chat_template_kwargs", .obj [("enable_thinking", .bool false)])]

/-- The count of a response; `True` is an integer, too. -/
def countOf (response : List (String × Value)) : Except SizingError ℕ :=
  let count : Option Value :=
    match response.lookup "count", response.lookup "tokens" with
    | none, some (.arr tokens) | some .null, some (.arr tokens) => some (.num (.int tokens.length))
    | count, _ => count
  match count with
  | some (.num (.int n)) =>
    if 0 ≤ n then .ok n.toNat
    else .error (.probeError "/tokenize response lacks an exact token count")
  | some (.bool b) => .ok b.toNat
  | _ => .error (.probeError "/tokenize response lacks an exact token count")

def TokenizeClient.tokenCount (client : TokenizeClient) (prompt : String) : Except SizingError ℕ := do
  let response ← client.postJson "/tokenize" (tokenizeRequest client.model prompt) 30
  countOf response

def prefillUnit : String :=
  "In the year of the survey the river ran higher than the oldest keeper " ++
    "could remember, and the ledgers kept in the stone house recorded each " ++
    "barge, its draft, its cargo and the toll assessed at the lower gate. "

def prefillSuffix : String := "\nIn one sentence: what did the ledgers record?"

/-- `s * n` -/
def times (s : String) : ℕ → String
  | 0 => ""
  | n + 1 => s ++ times s n

def seedPrompt (marker : String) : String := "[cold prefill " ++ marker ++ "]" ++ prefillSuffix

def baseBody (marker : String) (repetitions : ℕ) : String :=
  "[cold prefill " ++ marker ++ "] " ++ times prefillUnit repetitions

def basePrompt (marker : String) (repetitions : ℕ) : String :=
  baseBody marker repetitions ++ prefillSuffix

def fillerPrompt (marker : String) (repetitions : ℕ) (fillers : ℤ) : String :=
  baseBody marker repetitions ++ times " filler" fillers.toNat ++ prefillSuffix

structure SizingInfo where
  sizingMethod : String
  exactSizing : Bool
  deriving DecidableEq

def exactInfo : SizingInfo := ⟨"server-tokenize-exact", true⟩

def estimatedInfo : SizingInfo := ⟨"estimated-4-chars-per-token", false⟩

section Sizing

variable (client : TokenizeClient) (marker : String) (target : ℤ)

/-- One turn of the loop that takes units away. -/
def shrinkTurn (repetitions : ℕ) : Except SizingError (ℕ ⊕ ℕ) :=
  if repetitions = 0 then .ok (.inl repetitions)
  else do
    let count ← client.tokenCount (basePrompt marker repetitions)
    return if target < count then .inr (repetitions - 1) else .inl repetitions

/-- The units of the base prompt; every loop is given `turns` turns. -/
def baseRepetitions (turns : ℕ) : Cut SizingError ℕ := do
  let seedTokens ← raised (client.tokenCount (seedPrompt marker))
  require (seedTokens ≤ target)
    (some (.probeError "target token count is smaller than the cold-prefill envelope"))
  let withUnit ← raised (client.tokenCount (seedPrompt marker ++ " " ++ prefillUnit))
  let unitTokens : ℤ := withUnit - seedTokens
  require (0 < unitTokens)
    (some (.probeError "tokenizer did not advance for the retained prefill unit"))
  loop (shrinkTurn client marker target) turns (max 0 ((target - seedTokens) / unitTokens)).toNat

/-- One turn of the loop that doubles the filler words. -/
def bracketTurn (repetitions : ℕ) (high : ℤ) : Except SizingError (ℤ ⊕ ℤ) := do
  let count ← client.tokenCount (fillerPrompt marker repetitions high)
  if count < target then
    require (high * 2 ≤ target * 4 + 1024) (.probeError "could not bracket exact prefill token target")
    return .inr (high * 2)
  else return .inl high

/-- One turn of the bisection; it ends with a prompt or with the bounds. -/
def bisectTurn (repetitions : ℕ) (bounds : ℤ × ℤ) :
    Except SizingError ((String ⊕ ℤ × ℤ) ⊕ ℤ × ℤ) :=
  let (low, high) := bounds
  if low ≤ high then do
    let middle := (low + high) / 2
    let candidate := fillerPrompt marker repetitions middle
    let count ← client.tokenCount candidate
    return if count = target then .inl (.inl candidate)
      else if count < target then .inr (middle + 1, high)
      else .inr (low, middle - 1)
  else .ok (.inl (.inr (low, high)))

/-- The last search, one padding after the other. -/
def scanPaddings (repetitions : ℕ) : List ℤ → Except SizingError String
  | [] => .error (.probeError "server tokenizer could not construct the exact prefill size")
  | padding :: paddings => do
    let candidate := fillerPrompt marker repetitions padding
    let count ← client.tokenCount candidate
    if count = target then return candidate else scanPaddings repetitions paddings

/-- `range(start, stop)` -/
def paddingRange (start stop : ℤ) : List ℤ :=
  (List.range (stop - start).toNat).map fun i => start + i

/-- The prompt of exact size, before any handler. -/
def exactPrompt (turns : ℕ) : Cut SizingError String := do
  let repetitions ← baseRepetitions client marker target turns
  let base := basePrompt marker repetitions
  let baseCount ← raised (client.tokenCount base)
  if baseCount = target then return base
  let remaining := target - baseCount
  let high ← loop (bracketTurn client marker target repetitions) turns (max (remaining * 2 + 16) 32)
  let found ← loop (bisectTurn client marker target repetitions) turns (0, high)
  match found with
  | .inl candidate => return candidate
  | .inr (low, high) =>
    raised (scanPaddings client marker target repetitions (paddingRange (max 0 (high - 64)) (low + 65)))

/-- The prompt without a tokenizer, of four characters for each token. -/
def estimatedPrompt : String :=
  String.ofList (("[cold prefill " ++ marker ++ "] " ++
    times prefillUnit (target + 1).toNat).toList.take (target * 4).toNat) ++ prefillSuffix

def sizePrefillPrompt (allowEstimated : Bool) (turns : ℕ) : Cut SizingError (String × SizingInfo) :=
  if target ≤ 0 then .error (some (.probeError "target token count must be positive"))
  else
    match exactPrompt client marker target turns with
    | .ok candidate => .ok (candidate, exactInfo)
    | .error (some e) =>
      if e.isCaught = true ∧ allowEstimated = true then .ok (estimatedPrompt marker target, estimatedInfo)
      else .error (some e)
    | .error none => .error none

end Sizing

section Results

variable {client : TokenizeClient} {marker : String} {target : ℤ} {turns : ℕ}

/-- The turns that suffice for every loop. -/
def enoughTurns (target : ℤ) : ℕ := 4 * target.toNat + 1026

theorem ends_baseRepetitions (hpos : 0 < target) (hturns : enoughTurns target ≤ turns) :
    Ends (baseRepetitions client marker target turns) := by
  apply RaisesOnly.bind (ends_raised _)
  intro seedTokens _
  apply RaisesOnly.bind (ends_require _ _)
  intro _ hseed
  apply RaisesOnly.bind (ends_raised _)
  intro withUnit _
  apply RaisesOnly.bind (ends_require _ _)
  intro _ hunit
  simp only [require_eq_ok, decide_eq_true_eq] at hseed hunit
  apply ends_loop (fun _ => True) (fun repetitions => repetitions) _ trivial
  · have hquotient := Int.ediv_le_self ((withUnit : ℤ) - seedTokens) (show 0 ≤ target - seedTokens by omega)
    unfold enoughTurns at hturns
    omega
  · intro repetitions repetitions' _ hturn
    unfold shrinkTurn at hturn
    split_ifs at hturn with hzero
    · cases hturn
    · simp only [bind_eq_ok, pure_eq_ok] at hturn
      obtain ⟨count, -, hnext⟩ := hturn
      split_ifs at hnext
      cases hnext
      exact ⟨trivial, by omega⟩

theorem bracket_start (hpos : 0 < target) (baseCount : ℕ) :
    32 ≤ max ((target - baseCount) * 2 + 16) 32 ∧
      max ((target - baseCount) * 2 + 16) 32 ≤ target * 4 + 1024 := by
  omega

theorem bracketTurn_next {repetitions : ℕ} {high high' : ℤ} (h : 32 ≤ high)
    (hturn : bracketTurn client marker target repetitions high = .ok (.inr high')) :
    (32 ≤ high' ∧ high' ≤ target * 4 + 1024) ∧ high < high' := by
  simp only [bracketTurn, bind_eq_ok] at hturn
  obtain ⟨count, -, hnext⟩ := hturn
  split_ifs at hnext
  · simp only [bind_eq_ok, require_eq_ok, decide_eq_true_eq, pure_eq_ok] at hnext
    obtain ⟨_, hle, hhigh⟩ := hnext
    cases hhigh
    omega
  · cases hnext

theorem bracketTurn_last {repetitions : ℕ} {high high' : ℤ}
    (hturn : bracketTurn client marker target repetitions high = .ok (.inl high')) :
    high' = high := by
  simp only [bracketTurn, bind_eq_ok] at hturn
  obtain ⟨count, -, hnext⟩ := hturn
  split_ifs at hnext
  · simp only [bind_eq_ok, require_eq_ok, decide_eq_true_eq, pure_eq_ok] at hnext
    obtain ⟨_, -, hhigh⟩ := hnext
    cases hhigh
  · cases hnext
    rfl

theorem bisectTurn_next {repetitions : ℕ} {bounds bounds' : ℤ × ℤ}
    (hturn : bisectTurn client marker target repetitions bounds = .ok (.inr bounds')) :
    bounds.1 ≤ bounds.2 ∧ bounds'.2 - bounds'.1 < bounds.2 - bounds.1 := by
  obtain ⟨low, high⟩ := bounds
  unfold bisectTurn at hturn
  dsimp only at hturn
  split_ifs at hturn with hle
  · simp only [bind_eq_ok, pure_eq_ok] at hturn
    obtain ⟨count, -, hnext⟩ := hturn
    split_ifs at hnext
    · cases hnext
      exact ⟨hle, by dsimp only; omega⟩
    · cases hnext
      exact ⟨hle, by dsimp only; omega⟩
  · cases hturn

theorem ends_exactPrompt (hpos : 0 < target) (hturns : enoughTurns target ≤ turns) :
    Ends (exactPrompt client marker target turns) := by
  unfold enoughTurns at hturns
  apply RaisesOnly.bind (ends_baseRepetitions hpos hturns)
  intro repetitions _
  apply RaisesOnly.bind (ends_raised _)
  intro baseCount _
  by_cases hexact : (baseCount : ℤ) = target
  · rw [if_pos hexact]
    exact RaisesOnly.ok _
  rw [if_neg hexact]
  have hstart := bracket_start hpos baseCount
  apply RaisesOnly.bind
  · apply ends_loop (fun high => 32 ≤ high ∧ high ≤ target * 4 + 1024)
      (fun high => (target * 4 + 1025 - high).toNat) _ hstart
    · omega
    · intro high high' hhigh hturn
      obtain ⟨hbounds, hless⟩ := bracketTurn_next hhigh.1 hturn
      exact ⟨hbounds, by omega⟩
  intro high hbracket
  have hhigh : 32 ≤ high ∧ high ≤ target * 4 + 1024 :=
    loop_spec (fun high => 32 ≤ high ∧ high ≤ target * 4 + 1024) _
      (fun high high' hhigh hturn => (bracketTurn_next hhigh.1 hturn).1)
      (fun high high' hhigh hturn => bracketTurn_last hturn ▸ hhigh) hstart hbracket
  apply RaisesOnly.bind
  · apply ends_loop (fun _ => True) (fun bounds : ℤ × ℤ => (bounds.2 - bounds.1 + 1).toNat) _ trivial
    · dsimp only
      omega
    · intro bounds bounds' _ hturn
      obtain ⟨hle, hless⟩ := bisectTurn_next hturn
      exact ⟨trivial, by omega⟩
  intro found _
  cases found with
  | inl candidate => exact RaisesOnly.ok _
  | inr bounds => exact ends_raised _

theorem scanPaddings_count {repetitions : ℕ} {paddings : List ℤ} {candidate : String}
    (h : scanPaddings client marker target repetitions paddings = .ok candidate) :
    ∃ count, client.tokenCount candidate = .ok count ∧ (count : ℤ) = target := by
  induction paddings with
  | nil => cases h
  | cons padding paddings ih =>
    simp only [scanPaddings, bind_eq_ok] at h
    obtain ⟨count, hcount, h⟩ := h
    split_ifs at h with hexact
    · cases h
      exact ⟨count, hcount, hexact⟩
    · exact ih h

theorem bisectTurn_count {repetitions : ℕ} {bounds : ℤ × ℤ} {candidate : String}
    (h : bisectTurn client marker target repetitions bounds = .ok (.inl (.inl candidate))) :
    ∃ count, client.tokenCount candidate = .ok count ∧ (count : ℤ) = target := by
  obtain ⟨low, high⟩ := bounds
  unfold bisectTurn at h
  dsimp only at h
  split_ifs at h
  · simp only [bind_eq_ok, pure_eq_ok] at h
    obtain ⟨count, hcount, hnext⟩ := h
    split_ifs at hnext with hexact
    cases hnext
    exact ⟨count, hcount, hexact⟩
  · cases h

theorem exactPrompt_count {candidate : String}
    (h : exactPrompt client marker target turns = .ok candidate) :
    ∃ count, client.tokenCount candidate = .ok count ∧ (count : ℤ) = target := by
  simp only [exactPrompt, bind_eq_ok, raised_eq_ok] at h
  obtain ⟨repetitions, -, baseCount, hbase, h⟩ := h
  split_ifs at h with hexact
  · cases h
    exact ⟨baseCount, hbase, hexact⟩
  · simp only [bind_eq_ok] at h
    obtain ⟨high, -, found, hfound, h⟩ := h
    cases found with
    | inl candidate' =>
      cases h
      have hpost := loop_spec (fun _ => True)
        (fun found : String ⊕ ℤ × ℤ => ∀ candidate, found = .inl candidate →
          ∃ count, client.tokenCount candidate = .ok count ∧ (count : ℤ) = target)
        (fun _ _ _ _ => trivial) (fun bounds found _ hturn candidate heq =>
          bisectTurn_count (heq ▸ hturn)) trivial hfound
      exact hpost candidate rfl
    | inr bounds =>
      simp only [raised_eq_ok] at h
      exact scanPaddings_count h

theorem baseRepetitions_fits {repetitions : ℕ}
    (h : baseRepetitions client marker target turns = .ok repetitions) :
    repetitions = 0 ∨ ∃ count, client.tokenCount (basePrompt marker repetitions) = .ok count ∧
      (count : ℤ) ≤ target := by
  simp only [baseRepetitions, bind_eq_ok, raised_eq_ok] at h
  obtain ⟨seedTokens, -, _, -, withUnit, -, _, -, hloop⟩ := h
  apply loop_spec (fun _ => True) _ _ _ trivial hloop
  · exact fun _ _ _ _ => trivial
  · intro repetitions last _ hturn
    unfold shrinkTurn at hturn
    split_ifs at hturn with hzero
    · cases hturn
      exact .inl hzero
    · simp only [bind_eq_ok, pure_eq_ok] at hturn
      obtain ⟨count, hcount, hnext⟩ := hturn
      split_ifs at hnext with hlarge
      cases hnext
      exact .inr ⟨count, hcount, not_lt.mp hlarge⟩

/-- The prompts with one base count one token more for every filler word. -/
def Additive (count : String → ℕ) (marker : String) (repetitions : ℕ) : Prop :=
  ∀ fillers : ℕ, count (fillerPrompt marker repetitions fillers) =
    count (basePrompt marker repetitions) + fillers

section Additive

variable {count : String → ℕ} {repetitions : ℕ}

theorem bracket_additive (hcount : ∀ prompt, client.tokenCount prompt = .ok (count prompt))
    (hadditive : Additive count marker repetitions) {high : ℤ} (hhigh : 0 ≤ high)
    (hmissing : target - count (basePrompt marker repetitions) ≤ high) (hturns : 0 < turns) :
    loop (bracketTurn client marker target repetitions) turns high = .ok high := by
  obtain ⟨turns, rfl⟩ := Nat.exists_eq_add_one.mpr hturns
  have hfillers := hadditive high.toNat
  rw [Int.toNat_of_nonneg hhigh] at hfillers
  have hturn : bracketTurn client marker target repetitions high = .ok (.inl high) := by
    simp only [bracketTurn, hcount, ok_bind]
    rw [if_neg (by omega)]
    rfl
  unfold loop
  rw [hturn]

/-- The bisection keeps the missing number of fillers between its bounds, and finds it. -/
theorem bisect_additive (hcount : ∀ prompt, client.tokenCount prompt = .ok (count prompt))
    (hadditive : Additive count marker repetitions) {high : ℤ}
    (hfits : (count (basePrompt marker repetitions) : ℤ) ≤ target)
    (hmissing : target - count (basePrompt marker repetitions) ≤ high)
    (hturns : high + 1 < turns) :
    ∃ candidate, loop (bisectTurn client marker target repetitions) turns (0, high) =
        .ok (.inl candidate) ∧ (count candidate : ℤ) = target := by
  obtain ⟨found, hfound, candidate, rfl, hexact⟩ := @loop_ok _ _ _
    (bisectTurn client marker target repetitions)
    (fun bounds : ℤ × ℤ => 0 ≤ bounds.1 ∧
      bounds.1 ≤ target - count (basePrompt marker repetitions) ∧
      target - count (basePrompt marker repetitions) ≤ bounds.2)
    (fun bounds : ℤ × ℤ => (bounds.2 - bounds.1 + 1).toNat)
    (fun found => ∃ candidate, found = .inl candidate ∧ (count candidate : ℤ) = target) (by
      rintro ⟨low, high⟩ ⟨hnonneg, hlow, hhigh⟩
      dsimp only at hnonneg hlow hhigh
      have hfillers := hadditive ((low + high) / 2).toNat
      rw [Int.toNat_of_nonneg (by omega)] at hfillers
      unfold bisectTurn
      dsimp only
      rw [if_pos (by omega)]
      simp only [hcount, ok_bind]
      by_cases hexact : (count (fillerPrompt marker repetitions ((low + high) / 2)) : ℤ) = target
      · rw [if_pos hexact]
        exact .inl ⟨_, rfl, _, rfl, hexact⟩
      · rw [if_neg hexact]
        right
        by_cases hless : (count (fillerPrompt marker repetitions ((low + high) / 2)) : ℤ) < target
        · rw [if_pos hless]
          exact ⟨_, rfl, ⟨by dsimp only; omega, by dsimp only; omega, by dsimp only; omega⟩,
            by dsimp only; omega⟩
        · rw [if_neg hless]
          exact ⟨_, rfl, ⟨by dsimp only; omega, by dsimp only; omega, by dsimp only; omega⟩,
            by dsimp only; omega⟩)
    (0, high) ⟨le_rfl, by dsimp only; omega, hmissing⟩ turns (by dsimp only; omega)
  exact ⟨candidate, hfound, hexact⟩

/-- The base prompt is found where the seed fits and a unit counts something. -/
theorem baseRepetitions_ok (hcount : ∀ prompt, client.tokenCount prompt = .ok (count prompt))
    (hseed : (count (seedPrompt marker) : ℤ) ≤ target)
    (hunit : count (seedPrompt marker) < count (seedPrompt marker ++ " " ++ prefillUnit))
    (hpos : 0 < target) (hturns : enoughTurns target ≤ turns) :
    ∃ repetitions, baseRepetitions client marker target turns = .ok repetitions := by
  have hquotient := Int.ediv_le_self
    ((count (seedPrompt marker ++ " " ++ prefillUnit) : ℤ) - count (seedPrompt marker))
    (show 0 ≤ target - count (seedPrompt marker) by omega)
  unfold enoughTurns at hturns
  obtain ⟨repetitions, hloop, -⟩ := @loop_ok _ _ _ (shrinkTurn client marker target)
    (fun _ => True) (fun repetitions => repetitions) (fun _ => True) (by
      intro repetitions _
      by_cases hzero : repetitions = 0
      · exact .inl ⟨_, by rw [shrinkTurn, if_pos hzero], trivial⟩
      · by_cases hlarge : target < count (basePrompt marker repetitions)
        · refine .inr ⟨repetitions - 1, ?_, trivial, by omega⟩
          rw [shrinkTurn, if_neg hzero, hcount, ok_bind, if_pos hlarge]
          rfl
        · refine .inl ⟨repetitions, ?_, trivial⟩
          rw [shrinkTurn, if_neg hzero, hcount, ok_bind, if_neg hlarge]
          rfl) (max 0 ((target - count (seedPrompt marker)) /
      ((count (seedPrompt marker ++ " " ++ prefillUnit) : ℤ) - count (seedPrompt marker)))).toNat
      trivial turns (by omega)
  refine ⟨repetitions, ?_⟩
  have hadvances : (0 : ℤ) < count (seedPrompt marker ++ " " ++ prefillUnit) - count (seedPrompt marker) := by
    omega
  simp only [baseRepetitions, hcount, raised, ok_bind, hseed, decide_true, require_true, hadvances]
  exact hloop

theorem exactPrompt_additive (hcount : ∀ prompt, client.tokenCount prompt = .ok (count prompt))
    (hbase : baseRepetitions client marker target turns = .ok repetitions)
    (hfits : (count (basePrompt marker repetitions) : ℤ) ≤ target)
    (hadditive : Additive count marker repetitions) (hpos : 0 < target)
    (hturns : enoughTurns target ≤ turns) :
    ∃ candidate, exactPrompt client marker target turns = .ok candidate ∧
      (count candidate : ℤ) = target := by
  unfold enoughTurns at hturns
  simp only [exactPrompt, hbase, hcount, raised, ok_bind]
  by_cases hexact : (count (basePrompt marker repetitions) : ℤ) = target
  · rw [if_pos hexact]
    exact ⟨_, rfl, hexact⟩
  rw [if_neg hexact, bracket_additive hcount hadditive (by omega) (by omega) (by omega), ok_bind]
  have hroom : max ((target - count (basePrompt marker repetitions)) * 2 + 16) 32 + 1 <
      (turns : ℤ) := by
    omega
  obtain ⟨candidate, hfound, hcandidate⟩ := bisect_additive hcount hadditive hfits (by omega) hroom
  rw [hfound]
  exact ⟨candidate, rfl, hcandidate⟩

end Additive

/-- The sizing ends; what it reports as exact counts the target; and it is exact for a
tokenizer that counts the seed within the target, the unit for something and every filler
behind the base prompt for one. -/
theorem size_prefill_prompt_spec (client : TokenizeClient) (marker : String) (target : ℤ)
    (allowEstimated : Bool) (hturns : enoughTurns target ≤ turns) :
    Ends (sizePrefillPrompt client marker target allowEstimated turns) ∧
      (∀ prompt info, sizePrefillPrompt client marker target allowEstimated turns = .ok (prompt, info) →
        info.exactSizing = true →
        ∃ count, client.tokenCount prompt = .ok count ∧ (count : ℤ) = target) ∧
      ∀ count : String → ℕ, (∀ prompt, client.tokenCount prompt = .ok (count prompt)) →
        0 < target → (count (seedPrompt marker) : ℤ) ≤ target →
        count (seedPrompt marker) < count (seedPrompt marker ++ " " ++ prefillUnit) →
        (∀ repetitions, baseRepetitions client marker target turns = .ok repetitions →
          (count (basePrompt marker repetitions) : ℤ) ≤ target ∧ Additive count marker repetitions) →
        ∃ prompt, sizePrefillPrompt client marker target allowEstimated turns =
          .ok (prompt, exactInfo) ∧ (count prompt : ℤ) = target := by
  refine ⟨?_, ?_, ?_⟩
  · unfold sizePrefillPrompt
    by_cases hnonpos : target ≤ 0
    · rw [if_pos hnonpos]
      exact RaisesOnly.error (P := (· ≠ none)) (Option.some_ne_none _)
    rw [if_neg hnonpos]
    have hends : Ends (exactPrompt client marker target turns) := ends_exactPrompt (by omega) hturns
    cases hexact : exactPrompt client marker target turns with
    | ok candidate => exact RaisesOnly.ok _
    | error e =>
      cases e with
      | none => exact absurd rfl (hends none hexact)
      | some e =>
        dsimp only
        split_ifs
        · exact RaisesOnly.ok _
        · exact RaisesOnly.error (P := (· ≠ none)) (Option.some_ne_none e)
  · intro prompt info h hinfo
    unfold sizePrefillPrompt at h
    split_ifs at h
    cases hexact : exactPrompt client marker target turns with
    | ok candidate =>
      rw [hexact] at h
      cases h
      exact exactPrompt_count hexact
    | error e =>
      rw [hexact] at h
      cases e with
      | none => cases h
      | some e =>
        dsimp only at h
        split_ifs at h
        cases h
        cases hinfo
  · intro count hcount hpos hseed hunit hadditive
    obtain ⟨repetitions, hbase⟩ := baseRepetitions_ok hcount hseed hunit hpos hturns
    obtain ⟨hfits, hadds⟩ := hadditive repetitions hbase
    obtain ⟨candidate, hexact, hcandidate⟩ :=
      exactPrompt_additive hcount hbase hfits hadds hpos hturns
    refine ⟨candidate, ?_, hcandidate⟩
    rw [sizePrefillPrompt, if_neg (by omega), hexact]

end Results

/-- A client whose tokenizer counts characters the way `count` does. -/
def countingClient (count : String → ℕ) : TokenizeClient where
  model := "glm-5.2"
  postJson _ payload _ :=
    match payload with
    | .obj [_, ("messages", .arr [.obj [_, ("content", .str prompt)]]), _, _] =>
      .ok [("count", .num (.int (count prompt)))]
    | _ => .error (.other "")

theorem tokenCount_countingClient (count : String → ℕ) (prompt : String) :
    (countingClient count).tokenCount prompt = .ok (count prompt) := by
  simp [TokenizeClient.tokenCount, countingClient, tokenizeRequest, countOf]

def countFi : List Char → ℕ
  | 'f' :: 'i' :: rest => countFi rest + 1
  | _ :: rest => countFi rest
  | [] => 0

theorem countFi_append (xs ys : List Char) :
    countFi (xs ++ ' ' :: ys) = countFi xs + countFi ys := by
  fun_induction countFi xs with
  | case1 rest ih =>
    rw [List.cons_append, List.cons_append, countFi, ih]
    omega
  | case2 c rest hne ih =>
    cases rest with
    | nil => simp [countFi]
    | cons d rest =>
      rw [← ih, List.cons_append, List.cons_append, countFi]
      rintro rest' rfl heq
      obtain ⟨rfl, -⟩ := List.cons.inj heq
      exact hne rest rfl rfl
  | case3 => simp [countFi]

/-- A vocabulary of the pair "fi" and, with a weight, the letter "y": a filler word has the
one, and a unit the other. -/
def weigh (weight : ℕ) (text : List Char) : ℕ := countFi text + weight * text.count 'y'

theorem weigh_append (weight : ℕ) (xs ys : List Char) :
    weigh weight (xs ++ ' ' :: ys) = weigh weight xs + weigh weight ys := by
  unfold weigh
  rw [countFi_append, List.count_append, List.count_cons_of_ne (by decide)]
  ring

theorem weigh_fillers (weight n : ℕ) (rest : List Char) :
    weigh weight ((times " filler" n).toList ++ rest) = n + weigh weight rest := by
  induction n with
  | zero => simp [times]
  | succ n ih =>
    have hword : " filler".toList = [' ', 'f', 'i', 'l', 'l', 'e', 'r'] := rfl
    have hone : ∀ text, weigh weight (" filler".toList ++ text) = weigh weight text + 1 := by
      intro text
      simp [weigh, hword, countFi]
      omega
    rw [times, String.toList_append, List.append_assoc, hone, ih]
    omega

set_option maxRecDepth 4000 in
theorem prefillUnit_words : ∃ words : List Char, prefillUnit.toList = words ++ [' '] ∧
    countFi words = 0 ∧ words.count 'y' = 2 :=
  ⟨prefillUnit.toList.dropLast, by decide +kernel⟩

theorem weigh_unit (weight : ℕ) (rest : List Char) :
    weigh weight (prefillUnit.toList ++ rest) = 2 * weight + weigh weight rest := by
  obtain ⟨words, hunit, hfi, hy⟩ := prefillUnit_words
  rw [hunit, List.append_assoc, List.singleton_append, weigh_append]
  simp only [weigh, hfi, hy]
  ring

theorem weigh_units (weight n : ℕ) (rest : List Char) :
    weigh weight ((times prefillUnit n).toList ++ rest) = 2 * weight * n + weigh weight rest := by
  induction n with
  | zero => simp [times]
  | succ n ih =>
    rw [times, String.toList_append, List.append_assoc, weigh_unit, ih]
    ring

theorem weigh_frame (weight : ℕ) : weigh weight "[cold prefill m]".toList = 1 ∧
    weigh weight prefillSuffix.toList = 0 ∧ weigh weight (seedPrompt "m").toList = 1 := by
  have hfacts : countFi "[cold prefill m]".toList = 1 ∧ "[cold prefill m]".toList.count 'y' = 0 ∧
      countFi prefillSuffix.toList = 0 ∧ prefillSuffix.toList.count 'y' = 0 ∧
      countFi (seedPrompt "m").toList = 1 ∧ (seedPrompt "m").toList.count 'y' = 0 :=
    ⟨rfl, rfl, rfl, rfl, rfl, rfl⟩
  obtain ⟨h₁, h₂, h₃, h₄, h₅, h₆⟩ := hfacts
  simp only [weigh, h₁, h₂, h₃, h₄, h₅, h₆, Nat.mul_zero, Nat.add_zero, and_self]

/-- The counts of the vocabulary, as a function of the prompt. -/
def weighed (weight : ℕ) (prompt : String) : ℕ := weigh weight prompt.toList

theorem weighed_filler (weight repetitions fillers : ℕ) :
    weighed weight (fillerPrompt "m" repetitions fillers) = 1 + 2 * weight * repetitions + fillers := by
  obtain ⟨hframe, hsuffix, -⟩ := weigh_frame weight
  have hopening : ("[cold prefill " ++ "m" ++ "] ").toList = "[cold prefill m]".toList ++ [' '] := rfl
  unfold weighed fillerPrompt baseBody
  rw [String.toList_append, String.toList_append, String.toList_append, hopening, Int.toNat_natCast]
  simp only [List.append_assoc, List.cons_append, List.nil_append]
  rw [weigh_append, weigh_units, weigh_fillers, hframe, hsuffix]
  omega

theorem weighed_base (weight repetitions : ℕ) :
    weighed weight (basePrompt "m" repetitions) = 1 + 2 * weight * repetitions := by
  have hnone := weighed_filler weight repetitions 0
  simpa [fillerPrompt, basePrompt, times] using hnone

theorem weighed_seed (weight : ℕ) : weighed weight (seedPrompt "m") = 1 ∧
    weighed weight (seedPrompt "m" ++ " " ++ prefillUnit) = 1 + 2 * weight := by
  obtain ⟨-, -, hseed⟩ := weigh_frame weight
  refine ⟨hseed, ?_⟩
  have hspace : " ".toList = [' '] := rfl
  unfold weighed
  rw [String.toList_append, String.toList_append, hspace, List.append_assoc, List.singleton_append,
    weigh_append, hseed]
  have hunit := weigh_unit weight []
  rw [List.append_nil] at hunit
  rw [hunit]
  rfl

theorem additive_weighed (weight repetitions : ℕ) :
    Additive (weighed weight) "m" repetitions := by
  intro fillers
  rw [weighed_filler, weighed_base]

/-- A vocabulary that counts the units is sized exactly. -/
theorem size_prefill_prompt_spec_words : ∃ prompt,
    sizePrefillPrompt (countingClient (weighed 1)) "m" 12 false (enoughTurns 12) =
      .ok (prompt, exactInfo) ∧ weighed 1 prompt = 12 := by
  obtain ⟨-, -, hexact⟩ := size_prefill_prompt_spec (countingClient (weighed 1)) "m" 12 false
    (le_refl (enoughTurns 12))
  obtain ⟨hseed, hunit⟩ := weighed_seed 1
  obtain ⟨prompt, hprompt, hcount⟩ := hexact (weighed 1) (tokenCount_countingClient _) (by norm_num)
    (by rw [hseed]; norm_num) (by rw [hseed, hunit]; norm_num) (by
      intro repetitions hbase
      refine ⟨?_, additive_weighed 1 repetitions⟩
      rcases baseRepetitions_fits hbase with rfl | ⟨count, hcount, hle⟩
      · rw [weighed_base]
        norm_num
      · rw [tokenCount_countingClient] at hcount
        cases hcount
        exact hle)
  exact ⟨prompt, hprompt, by exact_mod_cast hcount⟩

/-- A vocabulary that counts no unit is refused, though every filler counts one. -/
theorem unit_counts_nothing : ∃ (client : TokenizeClient) (count : String → ℕ),
    (∀ prompt, client.tokenCount prompt = .ok (count prompt)) ∧
      (∀ repetitions, count (basePrompt "m" repetitions) ≤ 12 ∧ Additive count "m" repetitions) ∧
      ∀ turns, sizePrefillPrompt client "m" 12 false turns =
        .error (some (.probeError "tokenizer did not advance for the retained prefill unit")) := by
  refine ⟨countingClient (weighed 0), weighed 0, tokenCount_countingClient _, ?_, ?_⟩
  · intro repetitions
    refine ⟨?_, additive_weighed 0 repetitions⟩
    rw [weighed_base]
    omega
  · intro turns
    obtain ⟨hseed, hunit⟩ := weighed_seed 0
    have hexact : exactPrompt (countingClient (weighed 0)) "m" 12 turns =
        .error (some (.probeError "tokenizer did not advance for the retained prefill unit")) := by
      simp [exactPrompt, baseRepetitions, tokenCount_countingClient, hseed, hunit, raised, require]
    rw [sizePrefillPrompt, if_neg (by norm_num), hexact]
    rfl

end ChampionRuntime.Benchmark.Probe
