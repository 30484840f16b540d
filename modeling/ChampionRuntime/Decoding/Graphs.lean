import ChampionRuntime.Decoding.DepthLadder
import ChampionRuntime.Lib.Buckets
import ChampionRuntime.Lib.Regions
import Mathlib.Data.List.ProdSigma

/-!
# Graph descriptors

`CudaGraphManager` of `cudagraph_utils.py`: the descriptors it captures, the
candidates it keeps for every token count, and the lookup of a batch.
-/
namespace ChampionRuntime.Decoding

open Lib

/-- `CUDAGraphMode`; the last two have a routine of their own for decodes. -/
inductive CudagraphMode where
  | none
  | piecewise
  | full
  | fullDecodeOnly
  | fullAndPiecewise
  deriving DecidableEq

namespace CudagraphMode

def name : CudagraphMode → String
  | none => "NONE"
  | piecewise => "PIECEWISE"
  | full => "FULL"
  | fullDecodeOnly => "FULL_DECODE_ONLY"
  | fullAndPiecewise => "FULL_AND_PIECEWISE"

def separateRoutine : CudagraphMode → Bool
  | fullDecodeOnly | fullAndPiecewise => true
  | _ => false

def decodeMode : CudagraphMode → CudagraphMode
  | fullDecodeOnly | fullAndPiecewise => full
  | mode => mode

def mixedMode : CudagraphMode → CudagraphMode
  | fullDecodeOnly => none
  | fullAndPiecewise => piecewise
  | mode => mode

def hasFullCudagraphs : CudagraphMode → Bool
  | full | fullDecodeOnly | fullAndPiecewise => true
  | _ => false

end CudagraphMode

/-- `BatchExecutionDescriptor` -/
structure Descriptor where
  cgMode : CudagraphMode
  numTokens : ℕ
  numReqs : Option ℕ
  uniformTokenCount : Option ℕ := none
  numActiveLoras : ℕ := 0
  deriving DecidableEq

/-- What the manager of the verification batches is built from. A step verifies
the drafts of a request and samples `numNewSampledTokens` behind them. -/
structure GraphConfig where
  cudagraphMode : CudagraphMode
  /-- `cudagraph_capture_sizes`: `config/vllm.py` takes their duplicates out -/
  captureSizes : List ℕ
  maxCudagraphCaptureSize : ℕ
  maxNumReqs : ℕ
  numSpeculativeTokens : ℕ
  numNewSampledTokens : ℕ
  /-- `num_speculative_tokens_per_batch_size` -/
  schedule : Option (List (ℕ × ℕ × ℕ))
  /-- `adaptive_speculative_tokens_window` is set -/
  adaptation : Bool
  /-- `VLLM_ADAPTIVE_SPEC_DEPTHS` -/
  ladderEnv : Option String
  /-- `get_lora_capture_cases`: the counts to capture, each once -/
  loraCaptureCases : List ℕ

def isCompatible (desc : Descriptor) (numReqs numTokens : ℕ) (uniformTokenCount : Option ℕ)
    (numActiveLoras : ℕ) : Bool :=
  (desc.uniformTokenCount = none || desc.uniformTokenCount = uniformTokenCount) &&
    (desc.numReqs.all fun reqs => numReqs ≤ reqs) &&
    decide (numTokens ≤ desc.numTokens) &&
    decide (desc.numActiveLoras = numActiveLoras)

/-- Each count with the first case that is not below it. -/
def fillLoraMap : List ℕ → List ℕ → List (ℕ × ℕ)
  | _, [] => []
  | captured, n :: counts =>
    match captured.dropWhile (· < n) with
    | [] => []
    | case :: rest => (n, case) :: fillLoraMap (case :: rest) counts

def buildLoraDispatchMap (loraCaptureCases : List ℕ) : List (ℕ × ℕ) × ℕ :=
  let capturedWithLora := (loraCaptureCases.filter (0 < ·)).insertionSort (· ≤ ·)
  match capturedWithLora.getLast? with
  | none => ([], 0)
  | some last => (fillLoraMap capturedWithLora (List.range' 1 last), last)

def resolveEffectiveLoras (loraCaptureCases : List ℕ) (numActiveLoras : ℕ) : ℕ :=
  let (dispatchMap, maxLoraCase) := buildLoraDispatchMap loraCaptureCases
  if numActiveLoras = 0 ∨ dispatchMap = [] then numActiveLoras
  else (dispatchMap.lookup numActiveLoras).getD maxLoraCase

namespace GraphConfig

variable (c : GraphConfig)

def decodeQueryLen : ℕ := c.numSpeculativeTokens + c.numNewSampledTokens

def maxDecodeTokens : ℕ := c.maxNumReqs * c.decodeQueryLen

/-- The request counts every depth is captured for. -/
def maxCapturedReqs : ℕ := min c.maxNumReqs 32

def adaptiveSpecDecodeQueryLens : Except String (List ℕ) :=
  if c.decodeQueryLen ≤ 1 ∨ c.adaptation = false then .ok []
  else do
    require (0 < c.numSpeculativeTokens)
      ("Adaptive speculative depth is configured but num_speculative_tokens resolved to " ++
        toString c.numSpeculativeTokens ++ ".")
    require (1 ≤ c.numNewSampledTokens)
      ("Adaptive speculative depth is configured but decode_query_len (" ++
        toString c.decodeQueryLen ++ ") is not greater than num_speculative_tokens (" ++
        toString c.numSpeculativeTokens ++ ").")
    let ladder ← parseAdaptiveSpecDepthLadder c.numSpeculativeTokens c.ladderEnv
    let decodeQueryLens := ladder.map (· + c.numNewSampledTokens)
    require (decodeQueryLens ≠ [])
      ("Adaptive speculative depth is configured but the depth ladder parsed to an empty set " ++
        "for num_speculative_tokens=" ++ toString c.numSpeculativeTokens ++ ".")
    return decodeQueryLens

/-- The query lengths of the base descriptors: the fixed one, or those of the
batch-size schedule. -/
def decodeQueryLens : List ℕ :=
  match c.schedule with
  | some entries => entries.map fun entry => entry.2.2 + c.numNewSampledTokens
  | none => [c.decodeQueryLen]

/-- A decode of `numReqs` requests with `queryLen` tokens each. -/
def decodeDescriptor (queryLen numReqs numTokens loras : ℕ) : Descriptor where
  cgMode := c.cudagraphMode.decodeMode
  numTokens := numTokens
  numReqs := some numReqs
  uniformTokenCount := some queryLen
  numActiveLoras := loras

/-- The decode a capture size is rounded up to, unless that is out of bounds. -/
def roundedDescriptor (size loras queryLen : ℕ) : Option Descriptor :=
  let roundedNumTokens := alignUp size queryLen
  let roundedNumReqs := roundedNumTokens / queryLen
  if c.maxDecodeTokens < roundedNumTokens ∨ c.maxCudagraphCaptureSize < roundedNumTokens ∨
      c.maxNumReqs < roundedNumReqs then none
  else some (c.decodeDescriptor queryLen roundedNumReqs roundedNumTokens loras)

def mixedDescriptor (size loras : ℕ) : Descriptor where
  cgMode := c.cudagraphMode.mixedMode
  numTokens := size
  numReqs := if c.cudagraphMode.mixedMode = .full then some (min size c.maxNumReqs) else none
  numActiveLoras := loras

end GraphConfig

/-- Append a descriptor that is not there yet. -/
def appendNew (descs : List Descriptor) (desc : Descriptor) : List Descriptor :=
  if desc ∈ descs then descs else descs ++ [desc]

namespace GraphConfig

variable (c : GraphConfig)

/-- The decodes of one capture size and one LoRA case. -/
def decodesOf (p : ℕ × ℕ) : List Descriptor :=
  if c.cudagraphMode.separateRoutine = true ∧ c.cudagraphMode.decodeMode ≠ .none then
    c.decodeQueryLens.filterMap (c.roundedDescriptor p.1 p.2)
  else []

/-- One round of the base loop: a decode is appended once, the mixed descriptor always. -/
def baseStep (descs : List Descriptor) (p : ℕ × ℕ) : List Descriptor :=
  let descs := (c.decodesOf p).foldl appendNew descs
  if c.cudagraphMode.mixedMode ≠ .none then descs ++ [c.mixedDescriptor p.1 p.2] else descs

/-- The capture sizes in their order, each with every LoRA case. -/
def rounds : List (ℕ × ℕ) :=
  c.captureSizes.insertionSort (· ≤ ·) ×ˢ c.loraCaptureCases

def baseDescriptors : List Descriptor := c.rounds.foldl c.baseStep []

/-- The exact decode of a depth, unless it is beyond the bounds. -/
def exactDescriptor (queryLen numReqs loras : ℕ) : Option Descriptor :=
  let numTokens := queryLen * numReqs
  if c.maxDecodeTokens < numTokens ∨ c.maxCudagraphCaptureSize < numTokens then none
  else some (c.decodeDescriptor queryLen numReqs numTokens loras)

/-- The shapes of the adaptive ladder: query length, request count and LoRA case. -/
def ladderShapes (queryLens : List ℕ) : List (ℕ × ℕ × ℕ) :=
  queryLens ×ˢ (List.range' 1 c.maxCapturedReqs ×ˢ c.loraCaptureCases)

/-- `_init_adaptive_spec_candidates`; a shape of the base set is not captured again. -/
def adaptiveDescriptors (queryLens : List ℕ) (base : List Descriptor) : List Descriptor :=
  if queryLens ≠ [] ∧ c.cudagraphMode.separateRoutine = true ∧ c.cudagraphMode.decodeMode ≠ .none
  then
    ((c.ladderShapes queryLens).filterMap fun s => c.exactDescriptor s.1 s.2.1 s.2.2).foldl
      (fun descs desc => if desc ∈ base then descs else appendNew descs desc) []
  else []

end GraphConfig

/-- `sorted({k[0] for k in descs_by_token_lora})` -/
def tokenCounts (descs : List Descriptor) : List ℕ :=
  (descs.map Descriptor.numTokens).dedup.insertionSort (· ≤ ·)

/-- The descriptors filed under a token count and a LoRA case. -/
def bucketOf (descs : List Descriptor) (numTokens loras : ℕ) : List Descriptor :=
  descs.filter fun desc => desc.numTokens = numTokens ∧ desc.numActiveLoras = loras

def buildCandidateRanges (descs : List Descriptor) (loraCaptureCases : List ℕ) :
    List ((ℕ × ℕ) × List Descriptor) :=
  bucketTable (bucketOf descs) (tokenCounts descs) loraCaptureCases

/-- The manager once its candidates are built. -/
structure Manager where
  candidates : ℕ × ℕ → Option (List Descriptor)
  captureDescs : CudagraphMode → List Descriptor
  loraCaptureCases : List ℕ

/-- The adaptive candidates of a key come first, the base ones stay behind them. -/
def mergedCandidates (base adaptive : List ((ℕ × ℕ) × List Descriptor)) (key : ℕ × ℕ) :
    Option (List Descriptor) :=
  match adaptive.lookup key with
  | some descs => some (((base.lookup key).getD []).foldl appendNew descs)
  | none => base.lookup key

namespace GraphConfig

variable (c : GraphConfig)

/-- `_assert_adaptive_spec_graphs_possible` -/
def assertGraphsPossible : Except String Unit := do
  let decodeQueryLens ← c.adaptiveSpecDecodeQueryLens
  require (decodeQueryLens = [])
    ("Adaptive speculative depth requires FULL CUDA graphs, but this run captures no CUDA graphs " ++
      "at all: cudagraph_mode=" ++ c.cudagraphMode.name ++ ", cudagraph_capture_sizes=" ++
      toString c.captureSizes ++ ".")

/-- The ladder shapes no captured descriptor matches exactly. -/
def missingShapes (queryLens : List ℕ) (captured : List Descriptor) : List (ℕ × ℕ × ℕ) :=
  (c.ladderShapes queryLens).filter fun s =>
    captured.all fun desc =>
      !(desc.numTokens = s.1 * s.2.1 && desc.numReqs = some s.2.1 &&
        desc.uniformTokenCount = some s.1 && desc.numActiveLoras = s.2.2)

/-- `_assert_adaptive_spec_graph_coverage` -/
def assertGraphCoverage (m : Manager) : Except String Unit := do
  let decodeQueryLens ← c.adaptiveSpecDecodeQueryLens
  if decodeQueryLens = [] then return ()
  require c.cudagraphMode.hasFullCudagraphs
    ("Adaptive speculative depth requires FULL CUDA graphs, but cudagraph_mode resolved to " ++
      c.cudagraphMode.name ++ ".")
  if c.cudagraphMode.separateRoutine = false then return ()
  let missing := c.missingShapes decodeQueryLens (m.captureDescs .full)
  require (missing = [])
    ("Adaptive speculative depth has no captured FULL CUDA graph for " ++
      toString missing.length ++ " reachable verification shape(s).")

/-- The manager of the descriptors that were built. -/
def manager (base adaptive : List Descriptor) : Manager where
  candidates := mergedCandidates (buildCandidateRanges base c.loraCaptureCases)
    (buildCandidateRanges adaptive c.loraCaptureCases)
  captureDescs := fun mode =>
    ((base ++ adaptive).filter fun desc => desc.cgMode = mode).insertionSort
      fun desc desc' => desc'.numTokens ≤ desc.numTokens
  loraCaptureCases := c.loraCaptureCases

def eagerManager : Manager where
  candidates := fun _ => none
  captureDescs := fun _ => []
  loraCaptureCases := c.loraCaptureCases

def initCandidates : Except String Manager :=
  if c.cudagraphMode = .none ∨ c.captureSizes = [] then do
    c.assertGraphsPossible
    return c.eagerManager
  else do
    let decodeQueryLens ← c.adaptiveSpecDecodeQueryLens
    let base := c.baseDescriptors
    let adaptive := c.adaptiveDescriptors decodeQueryLens base
    if base = [] ∧ adaptive = [] then
      c.assertGraphsPossible
      return c.eagerManager
    else
      c.assertGraphCoverage (c.manager base adaptive)
      return c.manager base adaptive

end GraphConfig

/-- The FULL graphs after `capture`; a descriptor must not come twice. -/
def Manager.capture (m : Manager) : Except String (List Descriptor) :=
  (m.captureDescs .full).foldlM (fun graphs desc => do
    require (desc ∉ graphs) "Graph already captured"
    return graphs ++ [desc]) []

def Manager.dispatch (m : Manager) (graphsCaptured : Bool) (numReqs numTokens : ℕ)
    (uniformTokenCount : Option ℕ) (numActiveLoras : ℕ) : Descriptor :=
  let effectiveLoras := resolveEffectiveLoras m.loraCaptureCases numActiveLoras
  let found :=
    if graphsCaptured = true ∧ 0 < numTokens then
      (m.candidates (numTokens, effectiveLoras)).bind fun descs =>
        descs.find? fun desc => isCompatible desc numReqs numTokens uniformTokenCount effectiveLoras
    else none
  found.getD ⟨.none, numTokens, some numReqs, none, effectiveLoras⟩

end ChampionRuntime.Decoding
