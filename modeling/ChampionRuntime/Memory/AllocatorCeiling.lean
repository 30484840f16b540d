import ChampionRuntime.Lib.Json
import ChampionRuntime.Lib.Outcome
import Mathlib.Algebra.Order.Group.Int
import Mathlib.Order.MinMax

/-!
# The allocator ceiling

`compute_unified_memory_allocator_ceiling` of `mem_utils.py`: how far the
allocator of an integrated GPU may grow into the memory it shares with the host.
-/
namespace ChampionRuntime.Memory

open Lib

/-- Every raise of the function, in the order of the source. -/
inductive BudgetError where
  | unknownPhase (phase : String)
  | negative (name : String)
  | beyondInt64 (name : String)
  | zeroPool
  | reserveOutside (reserve poolTotal : ℤ)
  | noHeadroom
  | baselineInconsistent
  | poolCeilingNonPositive
  | residencyBeyondCeiling
  | requestedBelowBaseline
  | requestedBeyondBudget
  | growthBeyondAllowance
  deriving DecidableEq

namespace BudgetError

def message : BudgetError → String
  | unknownPhase phase => "unknown allocator phase: '" ++ phase ++ "'"
  | negative name => name ++ " must not be negative"
  | beyondInt64 name => name ++ " exceeds signed 64-bit range"
  | zeroPool => "pool total is zero; cannot size allocator"
  | reserveOutside reserve poolTotal =>
    "reserve " ++ toString reserve ++ " must be in (0, pool_total " ++ toString poolTotal ++ ")"
  | noHeadroom =>
    "available host memory does not exceed the protected reserve; refusing to proceed"
  | baselineInconsistent => "allocator baseline arithmetic inconsistency"
  | poolCeilingNonPositive => "pool ceiling is non-positive after reserve; cannot apply ceiling"
  | residencyBeyondCeiling =>
    "current allocator baseline exceeds total-minus-reserve; cannot cap below loaded residency"
  | requestedBelowBaseline => "requested ceiling fell below current allocator baseline"
  | requestedBeyondBudget => "requested ceiling exceeds phase budget"
  | growthBeyondAllowance => "ceiling growth exceeds available-minus-reserve allowance"

/-- The guards on computed values; every other one is on the arguments. -/
def IsSanityGuard : BudgetError → Prop
  | baselineInconsistent | poolCeilingNonPositive | requestedBelowBaseline
  | requestedBeyondBudget | growthBeyondAllowance => True
  | _ => False

end BudgetError

structure AllocatorArgs where
  phase : String
  totalCudaBytes : ℤ
  totalHostBytes : ℤ
  availableBytes : ℤ
  reserveBytes : ℤ
  currentAllocatedBytes : ℤ
  currentReservedBytes : ℤ
  phaseBudgetBytes : Option ℤ := none

/-- `UnifiedMemoryAllocatorReceipt` -/
structure AllocatorReceipt where
  phase : String
  integratedGpu : Bool
  totalCudaBytes : ℤ
  totalHostBytes : ℤ
  poolTotalBytes : ℤ
  availableBytes : ℤ
  reserveBytes : ℤ
  currentAllocatedBytes : ℤ
  currentReservedBytes : ℤ
  currentBaselineBytes : ℤ
  phaseBudgetBytes : ℤ
  requestedCeilingBytes : ℤ
  appliedFraction : Json.PyFloat
  appliedCeilingBytes : ℤ
  deriving DecidableEq

def allocatorPhases : List String := ["load", "profile", "kv", "graphs", "auto"]

/-- `_check_nonneg`, of a value that is an integer -/
def checkNonneg (name : String) (value : ℤ) : Except BudgetError Unit := do
  require (0 ≤ value) (.negative name)
  require (value ≤ 2 ^ 63 - 1) (.beyondInt64 name)

namespace AllocatorArgs

variable (a : AllocatorArgs)

def poolTotal : ℤ := min a.totalCudaBytes a.totalHostBytes

def baseline : ℤ := max a.currentAllocatedBytes a.currentReservedBytes

def incremental : ℤ := max 0 (a.availableBytes - a.reserveBytes)

def poolCeiling : ℤ := a.poolTotal - a.reserveBytes

def budget : ℤ := a.phaseBudgetBytes.getD a.poolCeiling

/-- `requested`; an explicit budget is a floor under the conservative allowance. -/
def requested : ℤ :=
  match a.phaseBudgetBytes with
  | none => min (min a.poolCeiling (a.baseline + a.incremental)) a.budget
  | some budget => min a.poolCeiling (max (a.baseline + a.incremental) budget)

def receipt : AllocatorReceipt where
  phase := a.phase
  integratedGpu := true
  totalCudaBytes := a.totalCudaBytes
  totalHostBytes := a.totalHostBytes
  poolTotalBytes := a.poolTotal
  availableBytes := a.availableBytes
  reserveBytes := a.reserveBytes
  currentAllocatedBytes := a.currentAllocatedBytes
  currentReservedBytes := a.currentReservedBytes
  currentBaselineBytes := a.baseline
  phaseBudgetBytes := a.budget
  requestedCeilingBytes := a.requested
  appliedFraction := .finite 0
  appliedCeilingBytes := 0

end AllocatorArgs

def computeUnifiedMemoryAllocatorCeiling (a : AllocatorArgs) : Except BudgetError AllocatorReceipt := do
  require (a.phase ∈ allocatorPhases) (.unknownPhase a.phase)
  checkNonneg "total_cuda_bytes" a.totalCudaBytes
  checkNonneg "total_host_bytes" a.totalHostBytes
  checkNonneg "available_bytes" a.availableBytes
  checkNonneg "reserve_bytes" a.reserveBytes
  checkNonneg "current_allocated_bytes" a.currentAllocatedBytes
  checkNonneg "current_reserved_bytes" a.currentReservedBytes
  require (a.poolTotal ≠ 0) .zeroPool
  require (0 < a.reserveBytes ∧ a.reserveBytes < a.poolTotal)
    (.reserveOutside a.reserveBytes a.poolTotal)
  require (a.reserveBytes < a.availableBytes) .noHeadroom
  require (a.currentAllocatedBytes ≤ a.baseline ∧ a.currentReservedBytes ≤ a.baseline)
    .baselineInconsistent
  require (0 < a.poolCeiling) .poolCeilingNonPositive
  a.phaseBudgetBytes.forM (checkNonneg "phase_budget_bytes")
  require (a.baseline ≤ a.poolCeiling) .residencyBeyondCeiling
  require (a.baseline ≤ a.requested) .requestedBelowBaseline
  require (a.phaseBudgetBytes ≠ none ∨ a.requested ≤ a.budget) .requestedBeyondBudget
  require (a.phaseBudgetBytes ≠ none ∨ a.requested - a.baseline ≤ a.incremental)
    .growthBeyondAllowance
  return a.receipt

def InRange (value : ℤ) : Prop := 0 ≤ value ∧ value ≤ 2 ^ 63 - 1

theorem checkNonneg_eq_ok {name : String} {value : ℤ} {u : Unit} :
    checkNonneg name value = .ok u ↔ InRange value := by
  simp [checkNonneg, InRange, bind_eq_ok]

theorem checkBudget_eq_ok {budget : Option ℤ} {u : Unit} :
    budget.forM (checkNonneg "phase_budget_bytes") = .ok u ↔ ∀ value ∈ budget, InRange value := by
  cases budget with
  | none => simp [Option.forM]
  | some value => simp [Option.forM, checkNonneg_eq_ok]

def BudgetError.OfArgument (e : BudgetError) : Prop := ¬ e.IsSanityGuard

theorem checkNonneg_raises {name : String} {value : ℤ} :
    RaisesOnly BudgetError.OfArgument (checkNonneg name value) := by
  refine RaisesOnly.bind (RaisesOnly.require ?_) fun _ _ => RaisesOnly.require ?_
  · exact id
  · exact id

theorem checkBudget_raises {budget : Option ℤ} :
    RaisesOnly BudgetError.OfArgument (budget.forM (checkNonneg "phase_budget_bytes")) := by
  cases budget with
  | none => exact RaisesOnly.ok ()
  | some value => exact checkNonneg_raises

namespace AllocatorArgs

variable (a : AllocatorArgs)

structure Admissible : Prop where
  phase : a.phase ∈ allocatorPhases
  totalCuda : InRange a.totalCudaBytes
  totalHost : InRange a.totalHostBytes
  available : InRange a.availableBytes
  reserve : InRange a.reserveBytes
  allocated : InRange a.currentAllocatedBytes
  reserved : InRange a.currentReservedBytes
  budget : ∀ budget ∈ a.phaseBudgetBytes, InRange budget
  reserve_pos : 0 < a.reserveBytes
  reserve_lt : a.reserveBytes < a.poolTotal
  headroom : a.reserveBytes < a.availableBytes
  residency : a.baseline ≤ a.poolCeiling

variable {a}

theorem baseline_le_requested (hresidency : a.baseline ≤ a.poolCeiling) :
    a.baseline ≤ a.requested := by
  have hgrowth : a.baseline ≤ a.baseline + a.incremental := by
    have hpos : 0 ≤ a.incremental := le_max_left 0 _
    omega
  unfold requested budget
  cases a.phaseBudgetBytes with
  | none =>
    apply le_min
    · exact le_min hresidency hgrowth
    · exact hresidency
  | some budget =>
    apply le_min hresidency
    exact hgrowth.trans (le_max_left _ _)

theorem requested_le_poolCeiling : a.requested ≤ a.poolCeiling := by
  unfold requested
  cases a.phaseBudgetBytes with
  | none => exact (min_le_left _ _).trans (min_le_left _ _)
  | some budget => exact min_le_left _ _

theorem within_budget : a.phaseBudgetBytes ≠ none ∨ a.requested ≤ a.budget := by
  cases h : a.phaseBudgetBytes with
  | some budget => exact .inl (by simp)
  | none =>
    right
    simp only [requested, h]
    exact min_le_right _ _

theorem within_allowance :
    a.phaseBudgetBytes ≠ none ∨ a.requested - a.baseline ≤ a.incremental := by
  cases h : a.phaseBudgetBytes with
  | some budget => exact .inl (by simp)
  | none =>
    right
    simp only [requested, h]
    have hle : min (min a.poolCeiling (a.baseline + a.incremental)) a.budget ≤
        a.baseline + a.incremental := (min_le_left _ _).trans (min_le_right _ _)
    omega

end AllocatorArgs

variable {a : AllocatorArgs}

theorem compute_raises :
    RaisesOnly BudgetError.OfArgument (computeUnifiedMemoryAllocatorCeiling a) := by
  unfold computeUnifiedMemoryAllocatorCeiling
  refine RaisesOnly.bind (RaisesOnly.require id) fun _ _ => ?_
  iterate 6
    refine RaisesOnly.bind checkNonneg_raises fun _ _ => ?_
  refine RaisesOnly.bind (RaisesOnly.require id) fun _ _ => ?_
  refine RaisesOnly.bind (RaisesOnly.require id) fun _ hreserve => ?_
  refine RaisesOnly.bind (RaisesOnly.require id) fun _ _ => ?_
  rw [require_eq_ok, decide_eq_true_eq] at hreserve
  have hbaseline : a.currentAllocatedBytes ≤ a.baseline ∧ a.currentReservedBytes ≤ a.baseline :=
    ⟨le_max_left _ _, le_max_right _ _⟩
  have hpool : 0 < a.poolCeiling := by
    unfold AllocatorArgs.poolCeiling
    omega
  simp only [hbaseline, and_self, decide_true, require_true, ok_bind, hpool]
  refine RaisesOnly.bind checkBudget_raises fun _ _ => ?_
  refine RaisesOnly.bind (RaisesOnly.require id) fun _ hresidency => ?_
  rw [require_eq_ok, decide_eq_true_eq] at hresidency
  simp only [AllocatorArgs.baseline_le_requested hresidency, AllocatorArgs.within_budget,
    AllocatorArgs.within_allowance, decide_true, require_true, ok_bind]
  exact RaisesOnly.ok _

theorem compute_eq_ok_iff {r : AllocatorReceipt} :
    computeUnifiedMemoryAllocatorCeiling a = .ok r ↔ a.Admissible ∧ r = a.receipt := by
  simp only [computeUnifiedMemoryAllocatorCeiling, bind_eq_ok, require_eq_ok, decide_eq_true_eq,
    checkNonneg_eq_ok, checkBudget_eq_ok, pure_eq_ok, exists_const]
  constructor
  · rintro ⟨hphase, hcuda, hhost, havailable, hreserve, hallocated, hreserved, -, hbounds,
      hheadroom, -, -, hbudget, hresidency, -, -, -, rfl⟩
    exact ⟨⟨hphase, hcuda, hhost, havailable, hreserve, hallocated, hreserved, hbudget, hbounds.1,
      hbounds.2, hheadroom, hresidency⟩, rfl⟩
  · rintro ⟨h, rfl⟩
    have hpos := h.reserve_pos
    have hlt := h.reserve_lt
    have hpool : 0 < a.poolCeiling := by
      unfold AllocatorArgs.poolCeiling
      omega
    exact ⟨h.phase, h.totalCuda, h.totalHost, h.available, h.reserve, h.allocated, h.reserved,
      by omega, ⟨hpos, hlt⟩, h.headroom, ⟨le_max_left _ _, le_max_right _ _⟩, hpool, h.budget,
      h.residency, AllocatorArgs.baseline_le_requested h.residency, AllocatorArgs.within_budget,
      AllocatorArgs.within_allowance, rfl⟩

/-- The ceiling, in the letters of the operations guide: `T`, `A`, `C`, `R` and the floor `F`. -/
def ceilingFormula (T A C R : ℤ) : Option ℤ → ℤ
  | none => min (T - R) (C + (A - R))
  | some F => min (T - R) (max (C + (A - R)) F)

theorem requested_eq_formula (h : a.reserveBytes < a.availableBytes) :
    a.requested = ceilingFormula a.poolTotal a.availableBytes a.baseline a.reserveBytes
      a.phaseBudgetBytes := by
  have hgrowth : a.incremental = a.availableBytes - a.reserveBytes := by
    apply max_eq_right
    omega
  unfold AllocatorArgs.requested AllocatorArgs.budget ceilingFormula
  rw [hgrowth]
  cases a.phaseBudgetBytes with
  | none =>
    apply min_eq_left
    exact min_le_left _ _
  | some budget => rfl

/-- The ceiling does not shrink when the available memory, the residency or the floor
grows; an absent floor is below every other. -/
theorem ceilingFormula_mono {T A A' C C' R : ℤ} {F F' : Option ℤ} (hA : A ≤ A') (hC : C ≤ C')
    (hF : ∀ f ∈ F, ∃ f' ∈ F', f ≤ f') : ceilingFormula T A C R F ≤ ceilingFormula T A' C' R F' := by
  have hsum : C + (A - R) ≤ C' + (A' - R) := by omega
  cases F with
  | none =>
    cases F' with
    | none => exact min_le_min_left _ hsum
    | some f' => exact min_le_min_left _ (hsum.trans (le_max_left _ _))
  | some f =>
    obtain ⟨f', hsome, hle⟩ := hF f rfl
    rw [Option.mem_def] at hsome
    subst hsome
    exact min_le_min_left _ (max_le_max hsum hle)

/-- The ceiling is the documented formula between the residency and the pool's cap, it
is computed exactly when the preconditions hold, and only they are ever the reason of a raise. -/
theorem allocator_ceiling_exact (a : AllocatorArgs) :
    (∀ r, computeUnifiedMemoryAllocatorCeiling a = .ok r →
      0 < a.reserveBytes ∧ a.reserveBytes < a.poolTotal ∧ a.reserveBytes < a.availableBytes ∧
        a.baseline ≤ r.requestedCeilingBytes ∧
        r.requestedCeilingBytes ≤ a.poolTotal - a.reserveBytes ∧
        r.requestedCeilingBytes = ceilingFormula a.poolTotal a.availableBytes a.baseline
          a.reserveBytes a.phaseBudgetBytes) ∧
    ((∃ e, computeUnifiedMemoryAllocatorCeiling a = .error e) ↔ ¬ a.Admissible) ∧
    (∀ e, computeUnifiedMemoryAllocatorCeiling a = .error e → ¬ e.IsSanityGuard) ∧
    ∀ a' r r', computeUnifiedMemoryAllocatorCeiling a = .ok r →
      computeUnifiedMemoryAllocatorCeiling a' = .ok r' →
      a'.poolTotal = a.poolTotal → a'.reserveBytes = a.reserveBytes →
      a.availableBytes ≤ a'.availableBytes → a.baseline ≤ a'.baseline →
      (∀ floor ∈ a.phaseBudgetBytes, ∃ floor' ∈ a'.phaseBudgetBytes, floor ≤ floor') →
      r.requestedCeilingBytes ≤ r'.requestedCeilingBytes := by
  refine ⟨?_, ?_, compute_raises, ?_⟩
  · intro r hr
    obtain ⟨h, rfl⟩ := compute_eq_ok_iff.mp hr
    exact ⟨h.reserve_pos, h.reserve_lt, h.headroom, AllocatorArgs.baseline_le_requested h.residency,
      AllocatorArgs.requested_le_poolCeiling, requested_eq_formula h.headroom⟩
  · constructor
    · rintro ⟨e, he⟩ hadmissible
      rw [compute_eq_ok_iff.mpr ⟨hadmissible, rfl⟩] at he
      cases he
    · intro hno
      cases hcompute : computeUnifiedMemoryAllocatorCeiling a with
      | error e => exact ⟨e, rfl⟩
      | ok r => exact absurd (compute_eq_ok_iff.mp hcompute).1 hno
  · intro a' r r' hr hr' htotal hreserve havailable hbaseline hfloor
    obtain ⟨h, rfl⟩ := compute_eq_ok_iff.mp hr
    obtain ⟨h', rfl⟩ := compute_eq_ok_iff.mp hr'
    change a.requested ≤ a'.requested
    rw [requested_eq_formula h.headroom, requested_eq_formula h'.headroom, htotal, hreserve]
    exact ceilingFormula_mono havailable hbaseline hfloor

example : (computeUnifiedMemoryAllocatorCeiling {
    phase := "profile"
    totalCudaBytes := 128
    totalHostBytes := 128
    availableBytes := 8
    reserveBytes := 4
    currentAllocatedBytes := 100
    currentReservedBytes := 100
    phaseBudgetBytes := some 112 }).map (·.requestedCeilingBytes) = .ok 112 := by decide

end ChampionRuntime.Memory
