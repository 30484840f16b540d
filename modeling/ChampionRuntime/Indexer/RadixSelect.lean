import ChampionRuntime.Indexer.TiledTopk
import ChampionRuntime.Lib.Radix

/-!
# The radix passes of the top-k kernel

The threads of a block visit the positions of a row in strides. A first pass counts the coarse
bins; the second writes what lies above the threshold bin and collects the positions inside it,
of which shared memory takes 4096. Up to four rounds then refine by eight bits of the key each.
Positions are reserved with atomic counters, so what is found at a counter is some interleaving
of what the threads reserve there.
-/
namespace ChampionRuntime.Indexer

open Lib

def threadsPerCta : ℕ := 1024

def radix : ℕ := 256

def smemCands : ℕ := 4096

/-- `while idx_base < total_len`, by whole blocks of threads. -/
def strideFrom (total base : ℕ) : List ℕ :=
  if base < total then base :: strideFrom total (base + threadsPerCta) else []
termination_by total - base
decreasing_by
  unfold threadsPerCta
  omega

/-- The scan of a row, with its loop unrolled four times as long as it fits. -/
def scanFrom (total base : ℕ) : List ℕ :=
  if base + 3 * threadsPerCta < total then
    base :: (base + threadsPerCta) :: (base + 2 * threadsPerCta) :: (base + 3 * threadsPerCta) ::
      scanFrom total (base + 4 * threadsPerCta)
  else strideFrom total base
termination_by total - base
decreasing_by
  unfold threadsPerCta at *
  omega

/-- The positions each thread visits of a row. -/
def rowThreads (total : ℕ) : List (List ℕ) := (List.range threadsPerCta).map (scanFrom total)

/-- The candidates each thread visits in a round. -/
def candidateThreads (cands : List ℕ) : List (List ℕ) :=
  (List.range threadsPerCta).map fun tx => (strideFrom cands.length tx).map fun i => cands.getD i 0

theorem scanFrom_eq (total base : ℕ) : scanFrom total base = strideFrom total base := by
  fun_induction scanFrom total base with
  | case1 base hfits ih =>
    have hstep : ∀ i, i ≤ 3 → strideFrom total (base + i * threadsPerCta) =
        (base + i * threadsPerCta) :: strideFrom total (base + (i + 1) * threadsPerCta) := by
      intro i hi
      have hle : i * threadsPerCta ≤ 3 * threadsPerCta := Nat.mul_le_mul_right _ hi
      rw [strideFrom, if_pos (by omega), Nat.add_assoc, ← Nat.succ_mul]
    have hzero := hstep 0 (by omega)
    rw [Nat.zero_mul, Nat.add_zero, Nat.zero_add, Nat.one_mul] at hzero
    have hone := hstep 1 (by omega)
    rw [Nat.one_mul] at hone
    rw [hzero, hone, hstep 2 (by omega), hstep 3 (by omega), ih]
  | case2 base hshort => rfl

theorem mem_strideFrom {total base i : ℕ} :
    i ∈ strideFrom total base ↔ base ≤ i ∧ i < total ∧ i % threadsPerCta = base % threadsPerCta := by
  fun_induction strideFrom total base with
  | case1 base hbase ih =>
    rw [List.mem_cons, ih, Nat.add_mod_right]
    constructor
    · rintro (rfl | ⟨hle, hlt, hmod⟩)
      · exact ⟨le_rfl, hbase, rfl⟩
      · exact ⟨by omega, hlt, hmod⟩
    · rintro ⟨hle, hlt, hmod⟩
      by_cases heq : i = base
      · exact .inl heq
      · refine .inr ⟨?_, hlt, hmod⟩
        have hi := Nat.div_add_mod i threadsPerCta
        have hb := Nat.div_add_mod base threadsPerCta
        have hdiv : base / threadsPerCta < i / threadsPerCta := by
          by_contra hnot
          have hle' := Nat.mul_le_mul_left threadsPerCta (not_lt.mp hnot)
          omega
        have hstep := Nat.mul_le_mul_left threadsPerCta (Nat.succ_le_of_lt hdiv)
        rw [Nat.mul_succ] at hstep
        omega
  | case2 base hbase =>
    simp only [List.not_mem_nil, false_iff, not_and]
    omega

theorem nodup_strideFrom (total base : ℕ) : (strideFrom total base).Nodup := by
  fun_induction strideFrom total base with
  | case1 base hbase ih =>
    refine List.nodup_cons.mpr ⟨fun hmem => ?_, ih⟩
    have hle := (mem_strideFrom.mp hmem).1
    unfold threadsPerCta at hle
    omega
  | case2 base hbase => exact List.nodup_nil

theorem strides_perm (total : ℕ) :
    (((List.range threadsPerCta).map (strideFrom total)).flatten).Perm (List.range total) := by
  rw [List.perm_ext_iff_of_nodup _ List.nodup_range]
  · intro i
    simp only [List.mem_flatten, List.mem_map, List.mem_range]
    constructor
    · rintro ⟨_, ⟨tx, -, rfl⟩, hi⟩
      exact (mem_strideFrom.mp hi).2.1
    · intro hi
      refine ⟨_, ⟨i % threadsPerCta, Nat.mod_lt _ (by decide), rfl⟩, mem_strideFrom.mpr ?_⟩
      exact ⟨Nat.mod_le _ _, hi, (Nat.mod_mod _ _).symm⟩
  · rw [List.nodup_flatten]
    constructor
    · intro thread hthread
      obtain ⟨tx, -, rfl⟩ := List.mem_map.mp hthread
      exact nodup_strideFrom total tx
    · rw [List.pairwise_map]
      apply List.nodup_range.imp_of_mem
      intro tx tx' htx htx' hne
      rw [List.mem_range] at htx htx'
      rw [List.disjoint_left]
      intro i hi hi'
      have hmod := (mem_strideFrom.mp hi).2.2
      have hmod' := (mem_strideFrom.mp hi').2.2
      rw [Nat.mod_eq_of_lt htx] at hmod
      rw [Nat.mod_eq_of_lt htx'] at hmod'
      exact hne (hmod.symm.trans hmod')

theorem rowThreads_perm (total : ℕ) : (rowThreads total).flatten.Perm (List.range total) := by
  have hscan : scanFrom total = strideFrom total := funext (scanFrom_eq total)
  unfold rowThreads
  simp only [hscan]
  exact strides_perm total

theorem candidateThreads_perm (cands : List ℕ) : (candidateThreads cands).flatten.Perm cands := by
  have hmap : (candidateThreads cands).flatten =
      (((List.range threadsPerCta).map (strideFrom cands.length)).flatten).map
        fun i => cands.getD i 0 := by
    rw [candidateThreads, List.map_flatten, List.map_map]
    rfl
  have hwhole : (List.range cands.length).map (fun i => cands.getD i 0) = cands := by
    apply List.ext_getElem
    · simp
    · intro i hi _
      simp [List.getElem?_eq_getElem (by simpa using hi)]
  have hperm := (strides_perm cands.length).map fun i => cands.getD i 0
  rw [hwhole] at hperm
  rw [hmap]
  exact hperm

/-- `_convert_to_uint8` and `_convert_to_uint32`: the coarse bin never falls where the score
rises, and different scores have different keys in the same order. -/
structure RadixKeys (β : Type) [LinearOrder β] where
  bin : WithBot β → Fin 256
  key : WithBot β → Fin (2 ^ 32)
  bin_mono : Monotone bin
  key_strictMono : StrictMono key

/-- Where positions are reserved: `counter`, and `ni0`, `ni1` or `last_rem`. -/
inductive Counter where
  | output
  | candidates
  deriving DecidableEq

/-- In what order the threads come to the counters of each pass. -/
structure ThreadOrder where
  arrange : ℕ → Counter → List (List ℕ) → List ℕ
  interleaved : ∀ pass counter threads, Interleaved threads (arrange pass counter threads)

/-- The positions with a property, in the order in which they are reserved at a counter. -/
def ThreadOrder.reserve (order : ThreadOrder) (pass : ℕ) (counter : Counter)
    (threads : List (List ℕ)) (p : ℕ → Bool) : List ℕ :=
  order.arrange pass counter (threads.map fun thread => thread.filter p)

/-- The counters after the prefix sum: how many positions have a digit or a larger one. -/
def scannedCounts (digit : ℕ → ℕ) (items : List ℕ) : ℕ → ℕ :=
  suffixScan radix 8 (histogram digit items)

/-- The rounds of the refinement, by how many are left, and the pass of each. What remains to
be selected after the last one is taken from its ties as they come. -/
def refineRounds (order : ThreadOrder) (keyAt : ℕ → ℕ) : ℕ → ℕ → List ℕ → ℕ → List ℕ
  | 0, _, _, _ => []
  | left + 1, pass, cands, topk =>
    let digit v := keyAt v / 2 ^ (8 * left) % radix
    let counts := scannedCounts digit cands
    let subThreshold := threshold radix topk counts
    let remaining := topk - counts (subThreshold + 1)
    let threads := candidateThreads cands
    let above := order.reserve pass .output threads fun v => subThreshold < digit v
    let ties := order.reserve pass .candidates threads fun v => digit v = subThreshold
    if remaining = 0 then above
    else if left = 0 then above ++ ties.take remaining
    else above ++ refineRounds order keyAt left (pass + 1) (ties.take smemCands) remaining

section Selector

variable {β : Type} [LinearOrder β] (keys : RadixKeys β) (order : ThreadOrder)

def binAt (values : List (WithBot β)) (v : ℕ) : ℕ := keys.bin (values.getD v ⊥)

def keyAt (values : List (WithBot β)) (v : ℕ) : ℕ := keys.key (values.getD v ⊥)

/-- The indices left in shared memory by a row of more than `topk` values. -/
def radixSelector : RadixSelector β := fun topk values =>
  let threads := rowThreads values.length
  let counts := scannedCounts (binAt keys values) threads.flatten
  let thresholdBin := threshold radix topk counts
  let remaining := topk - counts (thresholdBin + 1)
  let above := order.reserve 0 .output threads fun v => thresholdBin < binAt keys values v
  if remaining = 0 then above
  else
    let collected := order.reserve 0 .candidates threads fun v => binAt keys values v = thresholdBin
    above ++ refineRounds order (keyAt keys values) 4 1 (collected.take smemCands) remaining

end Selector

namespace ThreadOrder

variable (order : ThreadOrder) {pass : ℕ} {counter : Counter} {threads : List (List ℕ)}
  {items : List ℕ} {p : ℕ → Bool}

theorem reserve_perm (hitems : threads.flatten.Perm items) :
    (order.reserve pass counter threads p).Perm (items.filter p) := by
  have hperm := (order.interleaved pass counter (threads.map fun thread => thread.filter p)).perm
  rw [← List.filter_flatten] at hperm
  exact hperm.trans (hitems.filter p)

end ThreadOrder

theorem scannedCounts_eq {digit : ℕ → ℕ} {items visited : List ℕ} (hperm : visited.Perm items)
    (hdigit : ∀ v, digit v < radix) (i : ℕ) :
    scannedCounts digit visited i = items.countP fun v => i ≤ digit v := by
  rw [scannedCounts, suffixScan_histogram (by decide) fun v _ => hdigit v]
  exact hperm.countP_eq _

theorem countP_succ_le (digit : ℕ → ℕ) (items : List ℕ) (t : ℕ) :
    (items.countP fun v => t + 1 ≤ digit v) = (items.filter fun v => t < digit v).length :=
  List.countP_eq_length_filter

theorem countP_le_digit (digit : ℕ → ℕ) (items : List ℕ) (t : ℕ) :
    (items.countP fun v => t ≤ digit v) = (items.filter fun v => t < digit v).length +
      (items.filter fun v => digit v = t).length := by
  have hperm := (filter_digit_perm digit items t).countP_eq fun v => t ≤ digit v
  rw [hperm, List.countP_append, List.countP_append]
  have habove : (items.filter fun v => t < digit v).countP (fun v => t ≤ digit v) =
      (items.filter fun v => t < digit v).length := by
    rw [List.countP_eq_length]
    intro v hv
    have hlt := of_decide_eq_true (List.mem_filter.mp hv).2
    exact decide_eq_true hlt.le
  have hties : (items.filter fun v => digit v = t).countP (fun v => t ≤ digit v) =
      (items.filter fun v => digit v = t).length := by
    rw [List.countP_eq_length]
    intro v hv
    have heq := of_decide_eq_true (List.mem_filter.mp hv).2
    exact decide_eq_true heq.ge
  have hbelow : (items.filter fun v => digit v < t).countP (fun v => t ≤ digit v) = 0 := by
    rw [List.countP_eq_zero]
    intro v hv hle
    have hlt := of_decide_eq_true (List.mem_filter.mp hv).2
    exact absurd (of_decide_eq_true hle) (not_le.mpr hlt)
  rw [habove, hties, hbelow, Nat.add_zero]

/-- The threshold of a pass splits its items: what is above it is selected, and fewer than
all that have it are left to select. -/
theorem threshold_splits {digit : ℕ → ℕ} {items visited : List ℕ} {topk : ℕ}
    (hperm : visited.Perm items) (hdigit : ∀ v, digit v < radix) (hlt : topk < items.length) :
    let t := threshold radix topk (scannedCounts digit visited)
    (items.filter fun v => t < digit v).length ≤ topk ∧
      topk < (items.filter fun v => t < digit v).length +
        (items.filter fun v => digit v = t).length ∧
      scannedCounts digit visited (t + 1) = (items.filter fun v => t < digit v).length := by
  intro t
  have hcounts := scannedCounts_eq hperm hdigit
  have hfirst : topk < scannedCounts digit visited 0 := by
    rw [hcounts]
    simpa using hlt
  have hlast : scannedCounts digit visited radix ≤ topk := by
    rw [hcounts, List.countP_eq_zero.mpr]
    · exact Nat.zero_le _
    · intro v _ hle
      exact absurd (of_decide_eq_true hle) (not_le.mpr (hdigit v))
  obtain ⟨-, hreach, hover⟩ := threshold_spec hfirst hlast
  rw [hcounts, countP_le_digit] at hreach
  rw [hcounts, countP_succ_le] at hover
  refine ⟨hover, hreach, ?_⟩
  rw [hcounts, countP_succ_le]

/-- What a pass writes and what is chosen among its ties are a selection of its items. -/
theorem selects_pass {γ : Type} [LinearOrder γ] {value : ℕ → γ} {digit : ℕ → ℕ}
    {items above ties chosen : List ℕ} {t topk : ℕ}
    (hdigit : ∀ a ∈ items, ∀ b ∈ items, digit b < digit a → value b ≤ value a)
    (habove : above.Perm (items.filter fun v => t < digit v))
    (hties : ties.Perm (items.filter fun v => digit v = t))
    (hover : (items.filter fun v => t < digit v).length ≤ topk)
    (hreach : topk < (items.filter fun v => t < digit v).length +
      (items.filter fun v => digit v = t).length)
    (hchosen : Selects value (topk - (items.filter fun v => t < digit v).length) ties chosen) :
    Selects value topk items (above ++ chosen) := by
  have hsame := hchosen.perm hties (.refl chosen)
  exact (Selects.of_digit hdigit hover hreach.le hsame).perm (.refl items)
    (habove.symm.append_right chosen)

/-- What equals the last of the selected values, that of an item, is left at the end. -/
def EndsInTies {γ : Type} [LT γ] (value : ℕ → γ) (items selected : List ℕ) : Prop :=
  ∃ last ∈ items, ∃ above ties, selected = above ++ ties ∧
    (∀ i ∈ above, value last < value i) ∧ ∀ i ∈ ties, value i = value last

namespace EndsInTies

variable {γ : Type} [LinearOrder γ] {value : ℕ → γ} {items above ties chosen : List ℕ}

theorem nil (hne : items ≠ []) : EndsInTies value items [] := by
  obtain ⟨last, hlast⟩ := List.exists_mem_of_ne_nil items hne
  exact ⟨last, hlast, [], [], rfl, List.forall_mem_nil _, List.forall_mem_nil _⟩

theorem of_equal (hne : ties ≠ []) (hequal : ∀ a ∈ ties, ∀ b ∈ ties, value a = value b)
    (hsub : chosen ⊆ ties) : EndsInTies value ties chosen := by
  obtain ⟨last, hlast⟩ := List.exists_mem_of_ne_nil ties hne
  exact ⟨last, hlast, [], chosen, rfl, List.forall_mem_nil _,
    fun i hi => hequal i (hsub hi) last hlast⟩

theorem pass (h : EndsInTies value ties chosen) (hsub : ties ⊆ items)
    (habove : ∀ a ∈ above, ∀ b ∈ ties, value b < value a) :
    EndsInTies value items (above ++ chosen) := by
  obtain ⟨last, hlast, above', ties', rfl, hgreater, hequal⟩ := h
  refine ⟨last, hsub hlast, above ++ above', ties', (List.append_assoc _ _ _).symm, ?_, hequal⟩
  intro i hi
  rcases List.mem_append.mp hi with hi | hi
  · exact habove i hi last hlast
  · exact hgreater i hi

theorem of_le_iff {δ : Type} [LinearOrder δ] {value' : ℕ → δ}
    (hiff : ∀ u v, value u ≤ value v ↔ value' u ≤ value' v) (h : EndsInTies value items chosen) :
    EndsInTies value' items chosen := by
  obtain ⟨last, hlast, above, ties, heq, hgreater, hequal⟩ := h
  refine ⟨last, hlast, above, ties, heq, ?_, ?_⟩
  · intro i hi
    exact lt_of_not_ge fun hle => absurd (hgreater i hi) (not_lt.mpr ((hiff i last).mpr hle))
  · intro i hi
    exact le_antisymm ((hiff i last).mp (hequal i hi).le) ((hiff last i).mp (hequal i hi).ge)

end EndsInTies

section Rounds

variable {order : ThreadOrder} {keyAt : ℕ → ℕ} {cands : List ℕ} {topk left : ℕ}

theorem radix_pow (left : ℕ) : 2 ^ (8 * (left + 1)) = 2 ^ (8 * left) * radix := by
  rw [Nat.mul_succ, pow_add]
  rfl

theorem key_lt_of_digit_lt {a b : ℕ}
    (hsame : keyAt a / 2 ^ (8 * (left + 1)) = keyAt b / 2 ^ (8 * (left + 1)))
    (hlt : keyAt b / 2 ^ (8 * left) % radix < keyAt a / 2 ^ (8 * left) % radix) :
    keyAt b ≤ keyAt a := by
  rw [radix_pow, ← Nat.div_div_eq_div_mul, ← Nat.div_div_eq_div_mul] at hsame
  by_contra hgt
  have hle : keyAt a / 2 ^ (8 * left) ≤ keyAt b / 2 ^ (8 * left) :=
    Nat.div_le_div_right (by omega)
  have ha := Nat.div_add_mod (keyAt a / 2 ^ (8 * left)) radix
  have hb := Nat.div_add_mod (keyAt b / 2 ^ (8 * left)) radix
  rw [hsame] at ha
  omega

theorem key_agree_of_digit_eq {a b : ℕ}
    (hsame : keyAt a / 2 ^ (8 * (left + 1)) = keyAt b / 2 ^ (8 * (left + 1)))
    (heq : keyAt a / 2 ^ (8 * left) % radix = keyAt b / 2 ^ (8 * left) % radix) :
    keyAt a / 2 ^ (8 * left) = keyAt b / 2 ^ (8 * left) := by
  rw [radix_pow, ← Nat.div_div_eq_div_mul, ← Nat.div_div_eq_div_mul] at hsame
  rw [← Nat.div_add_mod (keyAt a / 2 ^ (8 * left)) radix, hsame, heq, Nat.div_add_mod]

theorem refineRounds_succ {digit : ℕ → ℕ} {t remaining : ℕ} (pass : ℕ)
    (hdigit : digit = fun v => keyAt v / 2 ^ (8 * left) % radix)
    (ht : threshold radix topk (scannedCounts digit cands) = t)
    (hremaining : topk - scannedCounts digit cands (t + 1) = remaining) :
    refineRounds order keyAt (left + 1) pass cands topk =
      let above := order.reserve pass .output (candidateThreads cands) fun v => t < digit v
      let ties := order.reserve pass .candidates (candidateThreads cands) fun v => digit v = t
      if remaining = 0 then above
      else if left = 0 then above ++ ties.take remaining
      else above ++ refineRounds order keyAt left (pass + 1) (ties.take smemCands) remaining := by
  subst hdigit ht hremaining
  rfl

/-- The rounds select the largest keys of the candidates, whatever the order, and leave what
equals the last of them at the end. -/
theorem selects_refineRounds (hleft : 0 < left) (pass : ℕ) (hcap : cands.length ≤ smemCands)
    (hpos : 0 < topk) (hlt : topk < cands.length)
    (hsame : ∀ a ∈ cands, ∀ b ∈ cands,
      keyAt a / 2 ^ (8 * left) = keyAt b / 2 ^ (8 * left)) :
    Selects keyAt topk cands (refineRounds order keyAt left pass cands topk) ∧
      EndsInTies keyAt cands (refineRounds order keyAt left pass cands topk) := by
  induction left generalizing pass cands topk with
  | zero => exact absurd hleft (by decide)
  | succ left ih =>
    obtain ⟨digit, hdef⟩ : ∃ digit : ℕ → ℕ, digit = fun v => keyAt v / 2 ^ (8 * left) % radix :=
      ⟨_, rfl⟩
    have hdigit : ∀ v, digit v < radix := by
      intro v
      rw [hdef]
      exact Nat.mod_lt _ (by decide)
    have hmono : ∀ a ∈ cands, ∀ b ∈ cands, digit b < digit a → keyAt b ≤ keyAt a := by
      intro a ha b hb hbelow
      rw [hdef] at hbelow
      exact key_lt_of_digit_lt (hsame a ha b hb) hbelow
    obtain ⟨t, ht⟩ : ∃ t, threshold radix topk (scannedCounts digit cands) = t := ⟨_, rfl⟩
    have hsplits := threshold_splits (List.Perm.refl cands) hdigit hlt
    rw [ht] at hsplits
    obtain ⟨hover, hreach, hcount⟩ := hsplits
    rw [refineRounds_succ pass hdef ht (congrArg (topk - ·) hcount)]
    have hthreads := candidateThreads_perm cands
    obtain ⟨above, habove⟩ : ∃ above, order.reserve pass .output (candidateThreads cands)
        (fun v => t < digit v) = above := ⟨_, rfl⟩
    obtain ⟨ties, hties⟩ : ∃ ties, order.reserve pass .candidates (candidateThreads cands)
        (fun v => digit v = t) = ties := ⟨_, rfl⟩
    have haboveperm := habove ▸ order.reserve_perm hthreads
    have htiesperm := hties ▸ order.reserve_perm hthreads
    simp only [habove, hties]
    have htlen := htiesperm.length_eq
    have htsame : ∀ a ∈ ties, ∀ b ∈ ties, keyAt a / 2 ^ (8 * left) = keyAt b / 2 ^ (8 * left) := by
      intro a ha b hb
      obtain ⟨ha, hat⟩ := List.mem_filter.mp (htiesperm.mem_iff.mp ha)
      obtain ⟨hb, hbt⟩ := List.mem_filter.mp (htiesperm.mem_iff.mp hb)
      have hat := of_decide_eq_true hat
      have hbt := of_decide_eq_true hbt
      rw [hdef] at hat hbt
      exact key_agree_of_digit_eq (hsame a ha b hb) (hat.trans hbt.symm)
    have htne : ties ≠ [] := List.ne_nil_of_length_pos (by omega)
    have htsub : ties ⊆ cands := fun v hv => (List.mem_filter.mp (htiesperm.mem_iff.mp hv)).1
    have hgreater : ∀ a ∈ above, ∀ b ∈ ties, keyAt b < keyAt a := by
      intro a ha b hb
      obtain ⟨ha, hat⟩ := List.mem_filter.mp (haboveperm.mem_iff.mp ha)
      obtain ⟨hb, hbt⟩ := List.mem_filter.mp (htiesperm.mem_iff.mp hb)
      have hdigits : digit b < digit a := (of_decide_eq_true hbt).trans_lt (of_decide_eq_true hat)
      refine lt_of_le_of_ne (hmono a ha b hb hdigits) fun heq => ?_
      rw [hdef] at hdigits
      dsimp only at hdigits
      rw [heq] at hdigits
      exact hdigits.false
    split_ifs with hdone hlast
    · have hchosen : Selects keyAt (topk - (cands.filter fun v => t < digit v).length) ties [] := by
        rw [hdone]
        exact .zero ties
      have hselects := selects_pass hmono haboveperm htiesperm hover hreach hchosen
      have hends := (EndsInTies.nil htne).pass htsub hgreater
      rw [List.append_nil] at hselects hends
      exact ⟨hselects, hends⟩
    · subst hlast
      have hequal : ∀ a ∈ ties, ∀ b ∈ ties, keyAt a = keyAt b := by
        intro a ha b hb
        have hkeys := htsame a ha b hb
        rwa [Nat.mul_zero, pow_zero, Nat.div_one, Nat.div_one] at hkeys
      constructor
      · apply selects_pass hmono haboveperm htiesperm hover hreach
        exact Selects.take fun a ha b hb => (hequal a ha b hb).ge
      · exact (EndsInTies.of_equal htne hequal (List.take_subset _ _)).pass htsub hgreater
    · have hfits : ties.length ≤ smemCands := by
        rw [htlen]
        exact (List.length_filter_le _ _).trans hcap
      rw [List.take_of_length_le hfits]
      have hmore : topk - (cands.filter fun v => t < digit v).length < ties.length := by omega
      obtain ⟨hselects, hends⟩ :=
        ih (by omega) (pass + 1) hfits (Nat.pos_of_ne_zero hdone) hmore htsame
      exact ⟨selects_pass hmono haboveperm htiesperm hover hreach hselects,
        hends.pass htsub hgreater⟩

end Rounds

section Row

variable {β : Type} [LinearOrder β] (keys : RadixKeys β)

def valueAt (values : List (WithBot β)) (v : ℕ) : WithBot β := values.getD v ⊥

def aboveBin (values : List (WithBot β)) (t : ℕ) : List ℕ :=
  (List.range values.length).filter fun v => t < binAt keys values v

def insideBin (values : List (WithBot β)) (t : ℕ) : List ℕ :=
  (List.range values.length).filter fun v => binAt keys values v = t

/-- What each thread reserves among the candidates of a coarse bin. -/
def binThreads (values : List (WithBot β)) (t : ℕ) : List (List ℕ) :=
  (rowThreads values.length).map fun thread => thread.filter fun v => binAt keys values v = t

/-- Whenever the threads come to the candidates in such an order that some are dropped, the
first 4096 have as many that are no smaller as are left to select. -/
def CandidatesSuffice (topk : ℕ) (values : List (WithBot β)) : Prop :=
  ∀ t, (aboveBin keys values t).length < topk →
    topk < (aboveBin keys values t).length + (insideBin keys values t).length →
    ∀ collected, Interleaved (binThreads keys values t) collected →
    ∀ v ∈ collected.drop smemCands, topk - (aboveBin keys values t).length ≤
      (collected.take smemCands).countP fun u => valueAt values v ≤ valueAt values u

variable {keys} {order : ThreadOrder} {values : List (WithBot β)} {topk t : ℕ}

theorem binThreads_perm (keys : RadixKeys β) (values : List (WithBot β)) (t : ℕ) :
    (binThreads keys values t).flatten.Perm (insideBin keys values t) := by
  rw [binThreads, ← List.filter_flatten]
  exact (rowThreads_perm values.length).filter _

theorem candidatesSuffice_of_le (hfits : ∀ t, (aboveBin keys values t).length < topk →
    topk < (aboveBin keys values t).length + (insideBin keys values t).length →
    (insideBin keys values t).length ≤ smemCands) : CandidatesSuffice keys topk values := by
  intro t habove hreach collected hcollected v hv
  have hlength := (hcollected.perm.trans (binThreads_perm keys values t)).length_eq
  rw [List.drop_of_length_le (hlength.trans_le (hfits t habove hreach))] at hv
  cases hv

theorem binAt_lt (v : ℕ) : binAt keys values v < radix := (keys.bin _).isLt

theorem valueAt_le_of_binAt_lt {u v : ℕ} (h : binAt keys values v < binAt keys values u) :
    valueAt values v ≤ valueAt values u := by
  by_contra hgt
  have hle : keys.bin (values.getD u ⊥) ≤ keys.bin (values.getD v ⊥) :=
    keys.bin_mono (le_of_not_ge hgt)
  exact absurd h (not_lt.mpr hle)

theorem keyAt_le_iff (u v : ℕ) :
    keyAt keys values u ≤ keyAt keys values v ↔ valueAt values u ≤ valueAt values v :=
  keys.key_strictMono.le_iff_le

theorem radixSelector_eq (order : ThreadOrder) {remaining : ℕ}
    (ht : threshold radix topk
      (scannedCounts (binAt keys values) (rowThreads values.length).flatten) = t)
    (hremaining : topk - scannedCounts (binAt keys values) (rowThreads values.length).flatten
      (t + 1) = remaining) :
    radixSelector keys order topk values =
      let above := order.reserve 0 .output (rowThreads values.length) fun v => t < binAt keys values v
      if remaining = 0 then above
      else above ++ refineRounds order (keyAt keys values) 4 1
        ((order.arrange 0 .candidates (binThreads keys values t)).take smemCands) remaining := by
  subst ht hremaining
  rfl

/-- A row that is too long is selected from in two parts: all above the threshold bin, and the
largest of the candidates that shared memory took, those that equal the last one at the end. -/
theorem radixSelector_spec (keys : RadixKeys β) (order : ThreadOrder) (hlt : topk < values.length)
    (hcap : topk < smemCands) : ∃ t above chosen,
      radixSelector keys order topk values = above ++ chosen ∧
      above.Perm (aboveBin keys values t) ∧
      (aboveBin keys values t).length ≤ topk ∧
      topk < (aboveBin keys values t).length + (insideBin keys values t).length ∧
      Selects (valueAt values) (topk - (aboveBin keys values t).length)
        ((order.arrange 0 .candidates (binThreads keys values t)).take smemCands) chosen ∧
      EndsInTies (valueAt values) (insideBin keys values t) chosen := by
  have hthreads := rowThreads_perm values.length
  have hitems : topk < (List.range values.length).length := by rwa [List.length_range]
  have hbin : ∀ v, binAt keys values v < radix := binAt_lt
  have hsplits := threshold_splits hthreads hbin hitems
  obtain ⟨t, ht⟩ : ∃ t, threshold radix topk
      (scannedCounts (binAt keys values) (rowThreads values.length).flatten) = t := ⟨_, rfl⟩
  rw [ht] at hsplits
  obtain ⟨hover, hreach, hcount⟩ := hsplits
  obtain ⟨collected, hcollected⟩ : ∃ collected,
      order.arrange 0 .candidates (binThreads keys values t) = collected := ⟨_, rfl⟩
  have hperm : collected.Perm (insideBin keys values t) := by
    rw [← hcollected]
    exact (order.interleaved 0 .candidates _).perm.trans (binThreads_perm keys values t)
  have hresult := radixSelector_eq order ht (congrArg (topk - ·) hcount)
  have habove : (order.reserve 0 .output (rowThreads values.length)
      fun v => t < binAt keys values v).Perm (aboveBin keys values t) :=
    order.reserve_perm hthreads
  rw [hcollected] at hresult
  have hover' : (aboveBin keys values t).length ≤ topk := hover
  have hreach' : topk < (aboveBin keys values t).length + (insideBin keys values t).length := hreach
  by_cases hdone : topk - (aboveBin keys values t).length = 0
  · refine ⟨t, _, [], ?_, habove, hover', hreach', ?_, ?_⟩
    · rw [hresult, List.append_nil]
      exact if_pos hdone
    · rw [hdone]
      exact Selects.zero _
    · exact .nil (List.ne_nil_of_length_pos (by omega))
  · have hstored : (collected.take smemCands).length ≤ smemCands := List.length_take_le _ _
    have hstored' : topk - (aboveBin keys values t).length < (collected.take smemCands).length := by
      rw [List.length_take, hperm.length_eq]
      omega
    have htop : ∀ v, keyAt keys values v / 2 ^ (8 * 4) = 0 :=
      fun v => Nat.div_eq_of_lt (keys.key _).isLt
    obtain ⟨chosen, hchosen⟩ : ∃ chosen, refineRounds order (keyAt keys values) 4 1
      (collected.take smemCands) (topk - (aboveBin keys values t).length) = chosen := ⟨_, rfl⟩
    obtain ⟨hselects, hends⟩ := selects_refineRounds (by decide) 1 hstored
      (by omega) hstored' fun a _ b _ => (htop a).trans (htop b).symm
    rw [hchosen] at hselects hends
    refine ⟨t, _, chosen, ?_, habove, hover', hreach', ?_, ?_⟩
    · rw [hresult, ← hchosen]
      exact if_neg hdone
    · rw [hcollected]
      exact hselects.of_le_iff keyAt_le_iff
    · have hsub : collected.take smemCands ⊆ insideBin keys values t :=
        fun v hv => hperm.subset (List.mem_of_mem_take hv)
      exact (hends.pass hsub (List.forall_mem_nil _)).of_le_iff keyAt_le_iff

end Row

end ChampionRuntime.Indexer
