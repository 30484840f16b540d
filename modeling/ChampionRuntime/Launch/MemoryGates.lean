import ChampionRuntime.Launch.LockDiscipline
import Mathlib.Order.Bounds.Basic

/-!
# The memory gates

What `verify_hosts` and `compact_and_size_uniform_allocator_floor` make of the readings
of `MemAvailable`. Both start from a minimum of nines; that of the launch is of nine
digits, and a reading may have twelve.
-/
namespace ChampionRuntime.Launch

open Lib Lib.PyText Lib.Json

theorem foldl_min_le (values : List ℕ) (start : ℕ) :
    values.foldl min start ≤ start ∧ ∀ value ∈ values, values.foldl min start ≤ value := by
  induction values generalizing start with
  | nil => simp
  | cons first values ih =>
    obtain ⟨hstart, hvalues⟩ := ih (min start first)
    rw [List.foldl_cons, List.forall_mem_cons]
    exact ⟨hstart.trans (min_le_left _ _), hstart.trans (min_le_right _ _), hvalues⟩

theorem foldl_min_mem (values : List ℕ) (start : ℕ) :
    values.foldl min start = start ∨ values.foldl min start ∈ values := by
  induction values generalizing start with
  | nil => simp
  | cons first values ih =>
    rw [List.foldl_cons, List.mem_cons]
    rcases ih (min start first) with heq | hmem
    · rw [heq]
      rcases min_choice start first with hleft | hright
      · exact .inl hleft
      · exact .inr (.inl hright)
    · exact .inr (.inr hmem)

/-- A running minimum is the least value when its start is no less than some value. -/
theorem isLeast_foldl_min (values : List ℕ) (start : ℕ) :
    IsLeast {value | value ∈ values} (values.foldl min start) ↔ ∃ value ∈ values, value ≤ start := by
  obtain ⟨hstart, hvalues⟩ := foldl_min_le values start
  constructor
  · intro h
    exact ⟨values.foldl min start, h.1, hstart⟩
  · rintro ⟨value, hmem, hle⟩
    refine ⟨?_, fun _ h => hvalues _ h⟩
    rcases foldl_min_mem values start with heq | hleast
    · have hvalue := hvalues value hmem
      have hsame : value = values.foldl min start := by omega
      exact hsame ▸ hmem
    · exact hleast

theorem le_foldl_max (values : List ℕ) (start : ℕ) :
    start ≤ values.foldl max start ∧ ∀ value ∈ values, value ≤ values.foldl max start := by
  induction values generalizing start with
  | nil => simp
  | cons first values ih =>
    obtain ⟨hstart, hvalues⟩ := ih (max start first)
    rw [List.foldl_cons, List.forall_mem_cons]
    exact ⟨(le_max_left _ _).trans hstart, (le_max_right _ _).trans hstart, hvalues⟩

theorem foldl_max_mem (values : List ℕ) (start : ℕ) :
    values.foldl max start = start ∨ values.foldl max start ∈ values := by
  induction values generalizing start with
  | nil => simp
  | cons first values ih =>
    rw [List.foldl_cons, List.mem_cons]
    rcases ih (max start first) with heq | hmem
    · rw [heq]
      rcases max_choice start first with hleft | hright
      · exact .inl hleft
      · exact .inr (.inl hright)
    · exact .inr (.inr hmem)

theorem isGreatest_foldl_max {values : List ℕ} (hne : values ≠ []) :
    IsGreatest {value | value ∈ values} (values.foldl max 0) := by
  obtain ⟨-, hvalues⟩ := le_foldl_max values 0
  refine ⟨?_, fun _ h => hvalues _ h⟩
  rcases foldl_max_mem values 0 with heq | hmem
  · obtain ⟨value, hmem⟩ := List.exists_mem_of_ne_nil values hne
    have hvalue := hvalues value hmem
    have hzero : value = values.foldl max 0 := by omega
    exact hzero ▸ hmem
  · exact hmem

/-- The memory of a host, when the reply is one to the question for it. -/
def memoryReading : Action → Reply → Option ℕ
  | .passive (.probe (.ask _ .memAvailable)), reply => some (natOf reply.output)
  | _, _ => none

def memoryReadings (trace : List (Action × Reply)) : List ℕ :=
  trace.filterMap fun e => memoryReading e.1 e.2

def TrueExtrema (readings : Readings) (values : List ℕ) : Prop :=
  IsLeast {value | value ∈ values} readings.minMem ∧
    IsGreatest {value | value ∈ values} readings.maxMem

/-- The monitor that collects the readings. -/
abbrev meter : Monitor Action Reply where
  State := List ℕ
  next values action reply := values ++ (memoryReading action reply).toList
  Allowed _ _ := True

theorem after_meter (values : List ℕ) (trace : List (Action × Reply)) :
    meter.after values trace = values ++ memoryReadings trace := by
  induction trace generalizing values with
  | nil => exact (List.append_nil values).symm
  | cons e trace ih =>
    change meter.after (values ++ (memoryReading e.1 e.2).toList) trace = _
    rw [ih, List.append_assoc, memoryReadings, memoryReadings, List.filterMap_cons]
    cases memoryReading e.1 e.2 <;> rfl

/-- The floor that a container is started with. -/
def startedFloor : Action → Option Text
  | .change _ (.startContainer _ allocator) => some allocator
  | _ => none

/-- The monitor that collects these floors. -/
abbrev floorRecorder : Monitor Action Reply where
  State := List Text
  next floors action _ := floors ++ (startedFloor action).toList
  Allowed _ _ := True

def startedFloors (trace : List (Action × Reply)) : List Text :=
  trace.filterMap fun e => startedFloor e.1

theorem after_floorRecorder (floors : List Text) (trace : List (Action × Reply)) :
    floorRecorder.after floors trace = floors ++ startedFloors trace := by
  induction trace generalizing floors with
  | nil => exact (List.append_nil floors).symm
  | cons e trace ih =>
    change floorRecorder.after (floors ++ (startedFloor e.1).toList) trace = _
    rw [ih, List.append_assoc, startedFloors, startedFloors, List.filterMap_cons]
    cases startedFloor e.1 <;> rfl

theorem foldl_digits_bounds {digits : Text} (hdigits : ∀ c ∈ digits, isDigit c = true) (n : ℕ) :
    n * 10 ^ digits.length ≤ digits.foldl (fun acc c => 10 * acc + (c.toNat - 48)) n ∧
      digits.foldl (fun acc c => 10 * acc + (c.toNat - 48)) n < (n + 1) * 10 ^ digits.length := by
  induction digits generalizing n with
  | nil => simp
  | cons c digits ih =>
    rw [List.forall_mem_cons] at hdigits
    have hvalue : c.toNat - 48 < 10 := by
      have hc := hdigits.1
      simp only [isDigit, inRange, decide_eq_true_eq, Bool.and_eq_true] at hc
      omega
    obtain ⟨hlow, hhigh⟩ := ih hdigits.2 (10 * n + (c.toNat - 48))
    rw [List.foldl_cons, List.length_cons, pow_succ]
    constructor
    · calc n * (10 ^ digits.length * 10) = 10 * n * 10 ^ digits.length := by ring
        _ ≤ (10 * n + (c.toNat - 48)) * 10 ^ digits.length := Nat.mul_le_mul_right _ (by omega)
        _ ≤ _ := hlow
    · calc digits.foldl (fun acc c => 10 * acc + (c.toNat - 48)) (10 * n + (c.toNat - 48))
          < (10 * n + (c.toNat - 48) + 1) * 10 ^ digits.length := hhigh
        _ ≤ (10 * n + 10) * 10 ^ digits.length := Nat.mul_le_mul_right _ (by omega)
        _ = (n + 1) * (10 ^ digits.length * 10) := by ring

theorem isMemory_bounds {text : Text} (h : isMemory text = true) :
    1 ≤ natOf text ∧ natOf text ≤ 999999999999 := by
  simp only [isMemory, isPositive, isNumber, Bool.and_eq_true, bne_iff_ne, ne_eq,
    decide_eq_true_eq, List.all_eq_true] at h
  obtain ⟨⟨⟨hne, hdigits⟩, hhead⟩, hlength⟩ := h
  cases text with
  | nil => simp at hne
  | cons c digits =>
    constructor
    · have hc := hdigits c List.mem_cons_self
      have hzero : c.toNat ≠ 48 := by
        intro heq
        exact hhead (congrArg some (Char.toNat_inj.mp heq))
      have hlow := (foldl_digits_bounds (fun c' h => hdigits c' (List.mem_cons_of_mem c h))
        (10 * 0 + (c.toNat - 48))).1
      have hpos : 0 < 10 ^ digits.length := by positivity
      simp only [isDigit, inRange, decide_eq_true_eq, Bool.and_eq_true] at hc
      have hfirst : 1 ≤ 10 * 0 + (c.toNat - 48) := by omega
      calc 1 ≤ 1 * 10 ^ digits.length := by omega
        _ ≤ (10 * 0 + (c.toNat - 48)) * 10 ^ digits.length := Nat.mul_le_mul_right _ hfirst
        _ ≤ natOf (c :: digits) := hlow
    · have hhigh := (foldl_digits_bounds hdigits 0).2
      have hpow : 10 ^ (c :: digits).length ≤ 10 ^ 12 := Nat.pow_le_pow_right (by decide) hlength
      have hnat : natOf (c :: digits) < (0 + 1) * 10 ^ (c :: digits).length := hhigh
      omega

/-- The action asks for no memory and starts no container. -/
def Plain (action : Action) : Prop :=
  (∀ reply, memoryReading action reply = none) ∧ startedFloor action = none

/-- The monitor does not see such an action. -/
abbrev Ignores (monitor : Monitor Action Reply) : Prop := ∀ m action reply, Plain action →
  monitor.Allowed m action ∧ monitor.next m action reply = m

theorem meter_ignores : Ignores meter := by
  intro values action reply h
  exact ⟨trivial, by simp [h.1 reply]⟩

theorem floorRecorder_ignores : Ignores floorRecorder := by
  intro floors action reply h
  exact ⟨trivial, by simp [h.2]⟩

/-- The routine does only such actions and leaves the variables as they are. -/
def Steady {A α : Type} (g : A → Action) (x : Routine A Reply Vars Stop α) : Prop :=
  ∀ monitor : Monitor Action Reply, Ignores monitor → ∀ P : Vars → monitor.State → Prop,
    Routine.Triple (monitor.comap g) P x (fun _ => P) fun _ _ => True

section Steady

variable {A α β : Type} {g : A → Action}

theorem steady_return (a : α) : Steady g (pure a) := fun _ _ _ => .pure fun _ _ h => h

theorem steady_fail (stop : Stop) : Steady g (.fail stop : Routine A Reply Vars Stop α) :=
  fun _ _ _ => .fail fun _ _ _ => trivial

theorem steady_read (f : Vars → α) : Steady g (.read f) := fun _ _ _ => .read fun _ _ h => h

theorem steady_perform {action : A} (hplain : Plain (g action)) : Steady g (.perform action) := by
  intro monitor hignores P
  apply Routine.Triple.perform
  · exact fun _ m _ => (hignores m (g action) ⟨0, []⟩ hplain).1
  · intro vars m reply h
    change P vars (monitor.next m (g action) reply)
    rwa [(hignores m (g action) reply hplain).2]

theorem Steady.bind {x : Routine A Reply Vars Stop α} {f : α → Routine A Reply Vars Stop β}
    (hx : Steady g x) (hf : ∀ a, Steady g (f a)) : Steady g (x >>= f) :=
  fun monitor h P => (hx monitor h P).bind fun a => hf a monitor h P

theorem Steady.forM {xs : List α} {f : α → Routine A Reply Vars Stop PUnit}
    (hf : ∀ a, Steady g (f a)) : Steady g (xs.forM f) :=
  fun monitor h P => .forM fun a _ => hf a monitor h P

theorem steady_demand (condition : Bool) (message : List Text) : Steady g (demand condition message) := by
  cases condition
  · exact steady_fail _
  · exact steady_return ()

theorem steady_errexit (strict : Bool) (reply : Reply) : Steady g (errexit strict reply) := by
  unfold errexit
  split
  · exact steady_fail _
  · exact steady_return ()

end Steady

section Hosts

abbrev probed (p : Probe) : Action := .passive (.probe p)

theorem triple_probe {α : Type} {monitor : Monitor Action Reply} {x : Quiet α}
    {P E : Vars → monitor.State → Prop} {Q : α → Vars → monitor.State → Prop}
    (hx : Routine.Triple (monitor.comap probed) P x Q E) :
    Routine.Triple (monitor.comap Action.passive) P (probe x) Q E := .mapAction hx

theorem steady_probe {α : Type} {x : Quiet α} (hx : Steady probed x) :
    Steady Action.passive (probe x) := fun monitor h P => triple_probe (hx monitor h P)

theorem steady_quiet {α : Type} {x : Quiet α} (hx : Steady probed x) : Steady id (quiet x) :=
  fun monitor h P => .mapAction (hx monitor h P)

theorem steady_passive {α : Type} {x : Check α} (hx : Steady Action.passive x) :
    Steady id (passive x) := fun monitor h P => .mapAction (hx monitor h P)

theorem steady_ask {index : ℕ} {query : Query} (h : query ≠ .memAvailable) :
    Steady probed (ask index query) := by
  refine steady_perform ⟨fun reply => ?_, rfl⟩
  cases query <;> first | rfl | exact absurd rfl h

theorem steady_askStrict {strict : Bool} {index : ℕ} {query : Query} (h : query ≠ .memAvailable) :
    Steady probed (askStrict strict index query) :=
  (steady_ask h).bind fun reply => (steady_errexit strict reply).bind fun _ => steady_return _

theorem steady_run (program : Program) : Steady probed (run program) :=
  steady_perform ⟨fun _ => rfl, rfl⟩

theorem steady_enter (index : ℕ) : Steady Action.passive (enter index) :=
  (steady_perform ⟨fun _ => rfl, rfl⟩).bind fun _ => steady_return _

theorem steady_fleetLockAssertHeld : Steady probed fleetLockAssertHeld :=
  (steady_read _).bind fun _ => (steady_demand _ _).bind fun _ =>
    (steady_perform ⟨fun _ => rfl, rfl⟩).bind fun _ => steady_demand _ _

theorem steady_fleetVerifyModelFiles (cluster : Cluster) (index : ℕ) (lock : Text) :
    Steady probed (fleetVerifyModelFiles cluster index lock) := by
  refine (steady_run _).bind fun lines => (steady_demand _ _).bind fun _ => .forM fun line => ?_
  unfold verifyModelFile
  dsimp only
  split
  · exact steady_return ()
  · exact (steady_ask (by simp)).bind fun _ => steady_demand _ _

theorem asks_memory (values : List ℕ) (index : ℕ) :
    Routine.Triple (meter.comap probed) (fun _ m => m = values) (ask index .memAvailable)
      (fun reply _ m => m = values ++ [natOf reply.output]) fun _ _ => True := by
  refine .perform (fun _ _ _ => trivial) fun _ m reply hm => ?_
  rw [← hm]
  rfl

/-- The rounds behind and their readings, beside the extrema so far. -/
structure Metered (start low : ℕ) (done : List ℕ) (readings : Readings) (values : List ℕ) : Prop where
  length : values.length = done.length
  minMem : readings.minMem = values.foldl min start
  maxMem : readings.maxMem = values.foldl max 0
  admitted : ∀ value ∈ values, low ≤ value ∧ value ≤ 999999999999

theorem Metered.add {start low : ℕ} {done : List ℕ} {readings : Readings} {values : List ℕ}
    (h : Metered start low done readings values) {mem : Text} (hmem : isMemory mem = true)
    (hlow : low ≤ natOf mem) (index : ℕ) (reports : List Text) :
    Metered start low (done ++ [index]) { readings.add (natOf mem) with reports := reports }
      (values ++ [natOf mem]) where
  length := by simp [h.length]
  minMem := by
    rw [List.foldl_append, ← h.minMem]
    change (if natOf mem < readings.minMem then natOf mem else readings.minMem) = min _ _
    split_ifs <;> omega
  maxMem := by
    rw [List.foldl_append, ← h.maxMem]
    change (if readings.maxMem < natOf mem then natOf mem else readings.maxMem) = max _ _
    split_ifs <;> omega
  admitted := by
    intro value hvalue
    rcases List.mem_append.mp hvalue with hvalue | hvalue
    · exact h.admitted value hvalue
    · rw [List.mem_singleton.mp hvalue]
      exact ⟨hlow, (isMemory_bounds hmem).2⟩

theorem verifyHost_metered (launch : Launcher) (strict : Bool) (policy : MemoryPolicy) (start : ℕ)
    (done : List ℕ) (index : ℕ) (readings : Readings) :
    Routine.Triple (meter.comap Action.passive) (fun _ => Metered start 1 done readings)
      (launch.verifyHost strict policy readings index)
      (fun readings' _ => Metered start 1 (done ++ [index]) readings') fun _ _ => True := by
  intro vars values h
  suffices hsuffices : Routine.Triple (meter.comap Action.passive) (fun _ m => m = values)
      (launch.verifyHost strict policy readings index)
      (fun readings' _ => Metered start 1 (done ++ [index]) readings') (fun _ _ => True) from
    hsuffices vars values rfl
  have hsteady {α : Type} {x : Check α} (hx : Steady Action.passive x) (values : List ℕ) :
      Routine.Triple (meter.comap Action.passive) (fun _ m => m = values) x
        (fun _ _ m => m = values) fun _ _ => True := hx meter meter_ignores _
  have hask {index : ℕ} {query : Query} (hquery : query ≠ .memAvailable) :=
    have hquiet : Steady probed (ask index query) := steady_ask hquery
    hsteady (steady_probe hquiet)
  have hstrict {index : ℕ} {query : Query} (hquery : query ≠ .memAvailable) :=
    have hquiet : Steady probed (askStrict strict index query) := steady_askStrict hquery
    hsteady (steady_probe hquiet)
  have hdemand (condition : Bool) (message : List Text) := hsteady (steady_demand condition message)
  have hfiles (lock : Text) :=
    hsteady (steady_probe (steady_fleetVerifyModelFiles launch.cluster index lock))
  have hlock : Steady probed
      (if launch.mode == "launch".toList then fleetLockAssertHeld else pure ()) := by
    split
    · exact steady_fleetLockAssertHeld
    · exact steady_return ()
  unfold Launcher.verifyHost
  refine (hsteady (steady_enter index) values).bind fun _ => ?_
  refine (hsteady (steady_probe hlock) values).bind fun _ => ?_
  refine (hstrict (by simp) values).bind fun arch => (hdemand _ _ values).bind fun _ => ?_
  refine (hstrict (by simp) values).bind fun cpus => (hdemand _ _ values).bind fun _ => ?_
  refine (hstrict (by simp) values).bind fun gpu => (hdemand _ _ values).bind fun _ => ?_
  refine (hask (by simp) values).bind fun docker => (hdemand _ _ values).bind fun _ => ?_
  refine (hask (by simp) values).bind fun rdma => (hdemand _ _ values).bind fun _ => ?_
  refine (hask (by simp) values).bind fun uverbs => (hdemand _ _ values).bind fun _ => ?_
  refine (hask (by simp) values).bind fun cm => (hdemand _ _ values).bind fun _ => ?_
  refine (hask (by simp) values).bind fun link => (hdemand _ _ values).bind fun _ => ?_
  -- the reading
  refine Routine.Triple.bind (Q := fun mem _ m => m = values ++ [natOf mem]) ?_ fun mem => ?_
  · apply triple_probe
    refine (asks_memory values index).bind fun reply => ?_
    have herrexit : Steady probed (errexit strict reply) := steady_errexit strict reply
    exact (herrexit meter meter_ignores _).bind fun _ => .pure fun _ _ h => h
  refine (triple_demand fun _ _ _ => trivial).bind fun _ => .of_fact fun hmem => ?_
  refine (hdemand _ _ _).bind fun _ => ?_
  refine (hstrict (by simp) _).bind fun polkit => (hdemand _ _ _).bind fun _ => ?_
  refine (hstrict (by simp) _).bind fun swap => (hdemand _ _ _).bind fun _ => ?_
  refine (hask (by simp) _).bind fun apps => (hdemand _ _ _).bind fun _ => (hdemand _ _ _).bind fun _ => ?_
  refine (hask (by simp) _).bind fun busy => (hdemand _ _ _).bind fun _ => (hdemand _ _ _).bind fun _ => ?_
  refine (hask (by simp) _).bind fun containers => (hdemand _ _ _).bind fun _ => ?_
  refine (hsteady (steady_probe (steady_run _)) _).bind fun matched => ?_
  refine (hdemand _ _ _).bind fun _ => (hdemand _ _ _).bind fun _ => ?_
  refine (hask (by simp) _).bind fun image => (hdemand _ _ _).bind fun _ => ?_
  refine (hfiles _ _).bind fun _ => (hfiles _ _).bind fun _ => ?_
  refine .pure fun _ m hm => ?_
  rw [hm]
  exact h.add hmem (isMemory_bounds hmem).1 index _

theorem measureHost_metered (launch : Launcher) (start : ℕ) (done : List ℕ) (index : ℕ)
    (readings : Readings) :
    Routine.Triple (meter.comap Action.passive) (fun _ => Metered start minimumKib done readings)
      (launch.measureHost readings index)
      (fun readings' _ => Metered start minimumKib (done ++ [index]) readings') fun _ _ => True := by
  intro vars values h
  suffices hsuffices : Routine.Triple (meter.comap Action.passive) (fun _ m => m = values)
      (launch.measureHost readings index)
      (fun readings' _ => Metered start minimumKib (done ++ [index]) readings') (fun _ _ => True) from
    hsuffices vars values rfl
  unfold Launcher.measureHost
  refine (steady_enter index meter meter_ignores _).bind fun _ => ?_
  refine (steady_probe steady_fleetLockAssertHeld meter meter_ignores _).bind fun _ => ?_
  refine (triple_probe (asks_memory values index)).bind fun mem => ?_
  refine (triple_demand fun _ _ _ => trivial).bind fun _ => .of_fact fun hmem => ?_
  refine (triple_demand fun _ _ _ => trivial).bind fun _ => .of_fact fun hlow => ?_
  refine .pure fun _ m hm => ?_
  rw [hm]
  exact h.add hmem (of_decide_eq_true hlow) index readings.reports

theorem loop_metered {start low : ℕ} {f : Readings → ℕ → Check Readings} (hosts : List ℕ)
    (hf : ∀ done index readings,
      Routine.Triple (meter.comap Action.passive) (fun _ => Metered start low done readings)
        (f readings index) (fun readings' _ => Metered start low (done ++ [index]) readings')
        fun _ _ => True) :
    Routine.Triple meter (fun _ m => m = [])
      (passive (hosts.foldlM f { minMem := start, maxMem := 0, reports := [] }))
      (fun readings _ => Metered start low hosts readings) fun _ _ => True := by
  let rounds (done : List ℕ) (readings : Readings) (_ : Vars)
      (m : (meter.comap Action.passive).State) : Prop := Metered start low done readings m
  have hloop : Routine.Triple (meter.comap Action.passive)
      (rounds [] { minMem := start, maxMem := 0, reports := [] })
      (hosts.foldlM f { minMem := start, maxMem := 0, reports := [] }) (rounds hosts)
      fun _ _ => True :=
    Routine.Triple.foldlM (I := rounds) fun done index _ readings _ => hf done index readings
  refine Routine.Triple.mapAction (hloop.consequence (fun _ m hm => ?_) (fun _ _ _ h => h) fun _ _ h => h)
  rw [hm]
  exact ⟨rfl, rfl, rfl, by simp⟩

theorem Metered.trueExtrema_iff {start low : ℕ} {hosts : List ℕ} {readings : Readings}
    {values : List ℕ} (h : Metered start low hosts readings values) (hne : hosts ≠ []) :
    TrueExtrema readings values ↔ ∃ value ∈ values, value ≤ start := by
  have hvalues : values ≠ [] := by
    intro hempty
    have hlength := h.length
    rw [hempty] at hlength
    exact hne (List.length_eq_zero_iff.mp hlength.symm)
  rw [TrueExtrema, h.minMem, h.maxMem, isLeast_foldl_min]
  exact and_iff_left (isGreatest_foldl_max hvalues)

theorem Metered.trueExtrema {low : ℕ} {hosts : List ℕ} {readings : Readings} {values : List ℕ}
    (h : Metered 999999999999 low hosts readings values) (hne : hosts ≠ []) :
    TrueExtrema readings values := by
  rw [h.trueExtrema_iff hne]
  have hvalues : values ≠ [] := by
    intro hempty
    have hlength := h.length
    rw [hempty] at hlength
    exact hne (List.length_eq_zero_iff.mp hlength.symm)
  obtain ⟨value, hmem⟩ := List.exists_mem_of_ne_nil values hvalues
  exact ⟨value, hmem, (h.admitted value hmem).2⟩

theorem allocatorFloor_bounds {kib : ℕ} (hlow : minimumKib ≤ kib) (hhigh : kib ≤ 999999999999) :
    0 < allocatorFloor kib ∧ allocatorFloor kib < 2 ^ 63 := by
  unfold allocatorFloor minimumKib at *
  omega

theorem compactAndSizeUniformAllocatorFloor_metered (launch : Launcher) :
    Routine.Triple meter (fun _ m => m = []) launch.compactAndSizeUniformAllocatorFloor
      (fun floor _ m => ∃ least, IsLeast {value | value ∈ m} least ∧
        floor = (toString (allocatorFloor least)).toList ∧ 0 < allocatorFloor least ∧
        allocatorFloor least < 2 ^ 63) fun _ _ => True := by
  have hcompact (index : ℕ) : Steady id (launch.compactHost index) := by
    refine (steady_passive (steady_enter index)).bind fun _ => ?_
    refine (steady_quiet steady_fleetLockAssertHeld).bind fun _ => ?_
    exact (steady_perform ⟨fun _ => rfl, rfl⟩).bind fun reply => steady_demand _ _
  have hloop := loop_metered [0, 1, 2, 3] fun done index readings =>
    measureHost_metered launch 999999999999 done index readings
  refine (Steady.forM hcompact meter meter_ignores _).bind fun _ => ?_
  refine hloop.bind fun readings => ?_
  have hdemand (condition : Bool) (message : List Text) : Steady id (demand condition message) :=
    steady_demand condition message
  refine (hdemand _ _ meter meter_ignores _).bind fun _ => ?_
  refine (hdemand _ _ meter meter_ignores _).bind fun _ => .pure fun _ m hm => ?_
  have hleast := (hm.trueExtrema (by simp)).1
  have hbounds := hm.admitted _ hleast.1
  exact ⟨_, hleast, rfl, allocatorFloor_bounds hbounds.1 hbounds.2⟩

theorem hostFloor_of_uniform (launch : Launcher) {contract : Launcher.AllocatorContract}
    (huniform : contract.isUniform = true) (floor : Text) (index : ℕ) :
    launch.hostFloor contract floor index = pure floor := by
  have hperHost : contract.isPerHost = false := by
    simp only [Launcher.AllocatorContract.isUniform, Launcher.AllocatorContract.isPerHost,
      Bool.and_eq_true, beq_iff_eq] at huniform ⊢
    rw [huniform.1]
    rfl
  rw [Launcher.hostFloor, hperHost]
  rfl

theorem startContainer_uniform (launch : Launcher) (canonical : Text)
    {contract : Launcher.AllocatorContract} (huniform : contract.isUniform = true) (floor : Text)
    (index : ℕ) :
    Routine.Triple floorRecorder
      (fun vars m => (∀ f ∈ vars.allocatorFloors, f = floor) ∧ ∀ f ∈ m, f = floor)
      (launch.startContainer canonical contract floor index)
      (fun _ vars m => (∀ f ∈ vars.allocatorFloors, f = floor) ∧ ∀ f ∈ m, f = floor)
      fun _ _ => True := by
  have hfresh : Steady probed (launch.demandFresh index) :=
    (steady_askStrict (by simp)).bind fun _ => steady_demand _ _
  have hroot : Steady probed launch.demandRunRoot := by
    unfold Launcher.demandRunRoot
    split
    · exact steady_return ()
    · exact steady_fail _
  have herrexit (reply : Reply) : Steady id (errexit true reply) := steady_errexit true reply
  have hinstall : Steady id (.perform (.change index (.install canonical))) :=
    steady_perform ⟨fun _ => rfl, rfl⟩
  unfold Launcher.startContainer
  rw [hostFloor_of_uniform launch huniform]
  refine (steady_passive (steady_enter index) _ floorRecorder_ignores _).bind fun _ => ?_
  refine (steady_quiet steady_fleetLockAssertHeld _ floorRecorder_ignores _).bind fun _ => ?_
  refine (steady_quiet hfresh _ floorRecorder_ignores _).bind fun _ => ?_
  refine (steady_quiet hroot _ floorRecorder_ignores _).bind fun _ => ?_
  refine (hinstall _ floorRecorder_ignores _).bind fun installed => ?_
  refine (herrexit installed _ floorRecorder_ignores _).bind fun _ => ?_
  let Same (vars : Vars) (m : List Text) : Prop :=
    (∀ f ∈ vars.allocatorFloors, f = floor) ∧ ∀ f ∈ m, f = floor
  have hfloor : Routine.Triple floorRecorder Same (quiet (pure floor))
      (fun allocator vars m => allocator = floor ∧ Same vars m) fun _ _ => True :=
    fun _ _ h => ⟨rfl, h⟩
  refine hfloor.bind fun allocator => .of_fact fun hallocator => ?_
  refine Routine.Triple.bind (.update (Q := fun _ => Same) ?_) fun _ => ?_
  · intro vars m h
    simpa [Same, or_imp, forall_and, hallocator] using h
  refine Routine.Triple.bind (.perform (Q := fun _ => Same) (fun _ _ _ => trivial) ?_)
    fun created => ?_
  · intro vars m reply h
    refine ⟨h.1, ?_⟩
    change ∀ f ∈ m ++ [allocator], f = floor
    simpa [or_imp, forall_and, hallocator] using h.2
  exact (herrexit created _ floorRecorder_ignores _).bind fun _ => .update fun _ _ h => h

end Hosts

/-- The launch gate finds the true extrema exactly when some reading is within its
sentinel. The compaction gate always does, its floor is positive and of 64 bits, and
every rank of a uniform launch gets the one floor. -/
theorem memory_gates (launch : Launcher) :
    (∀ strict policy hosts vars vars' trace readings, hosts ≠ [] →
      Script.Completes (passive (hosts.foldlM (launch.verifyHost strict policy)
        { minMem := 999999999, maxMem := 0, reports := [] }) vars) trace (.ok readings, vars') →
      (TrueExtrema readings (memoryReadings trace) ↔
        ∃ value ∈ memoryReadings trace, value ≤ 999999999)) ∧
    (∀ hosts vars vars' trace readings, hosts ≠ [] →
      Script.Completes (passive (hosts.foldlM launch.measureHost
        { minMem := 999999999999, maxMem := 0, reports := [] }) vars) trace (.ok readings, vars') →
      TrueExtrema readings (memoryReadings trace)) ∧
    (∀ vars vars' trace floor,
      Script.Completes (launch.compactAndSizeUniformAllocatorFloor vars) trace (.ok floor, vars') →
      ∃ least, IsLeast {value | value ∈ memoryReadings trace} least ∧
        floor = (toString (allocatorFloor least)).toList ∧ 0 < allocatorFloor least ∧
        allocatorFloor least < 2 ^ 63) ∧
    ∀ canonical contract floor (hosts : List ℕ) vars vars' trace,
      Launcher.AllocatorContract.isUniform contract = true → vars.allocatorFloors = [] →
      Script.Completes (hosts.forM (launch.startContainer canonical contract floor) vars) trace
        (.ok (), vars') →
      (∀ f ∈ vars'.allocatorFloors, f = floor) ∧ ∀ f ∈ startedFloors trace, f = floor := by
  have hmeter {α : Type} {x : Sh α} {vars vars' : Vars} {trace : List (Action × Reply)} {a : α}
      {Q : α → Vars → List ℕ → Prop}
      (hx : Routine.Triple meter (fun _ m => m = []) x Q fun _ _ => True)
      (hrun : Script.Completes (x vars) trace (.ok a, vars')) : Q a vars' (memoryReadings trace) := by
    have h := (hx vars [] rfl).completes hrun
    rwa [after_meter, List.nil_append] at h
  refine ⟨?_, ?_, ?_, ?_⟩
  · intro strict policy hosts vars vars' trace readings hne hrun
    have hloop := loop_metered hosts fun done index readings =>
      verifyHost_metered launch strict policy 999999999 done index readings
    exact (hmeter hloop hrun).trueExtrema_iff hne
  · intro hosts vars vars' trace readings hne hrun
    have hloop := loop_metered hosts fun done index readings =>
      measureHost_metered launch 999999999999 done index readings
    exact (hmeter hloop hrun).trueExtrema hne
  · intro vars vars' trace floor hrun
    exact hmeter (compactAndSizeUniformAllocatorFloor_metered launch) hrun
  · intro canonical contract floor hosts vars vars' trace huniform hempty hrun
    have hstart := fun index (_ : index ∈ hosts) =>
      startContainer_uniform launch canonical huniform floor index
    have hloop := Routine.Triple.forM hstart
    have h := (hloop vars [] ⟨by simp [hempty], by simp⟩).completes hrun
    rwa [after_floorRecorder, List.nil_append] at h

/-- Hosts without models and containers that all report this memory. -/
def sparkReply (mem : String) : Action → Reply
  | .passive (.probe (.ask _ .architecture)) => ⟨0, "aarch64".toList⟩
  | .passive (.probe (.ask _ .onlineCpus)) => ⟨0, "20".toList⟩
  | .passive (.probe (.ask _ .gpu)) => ⟨0, "NVIDIA GB10, 12.1".toList⟩
  | .passive (.probe (.ask _ .memAvailable)) => ⟨0, mem.toList⟩
  | .passive (.probe (.ask _ .polkitRss)) => ⟨0, "0".toList⟩
  | .passive (.probe (.ask _ .swapUsed)) => ⟨0, "0".toList⟩
  | .passive (.probe (.run (.matchProtected _))) => ⟨1, []⟩
  | _ => ⟨0, []⟩

def sparkLauncher : Launcher where
  cluster := { value := fun _ => none, hostArray := [], fabricArray := [], checkpointLockPath := [],
               sidecarLockPath := [] }
  mode := "verify-hosts".toList
  profile := "fast".toList
  runId := []
  nonceHash := []
  runHash := []

def sparkVars : Vars where
  lockPid := false
  writerOpen := false
  started := false
  readinessPassed := false
  profile := "fast".toList
  allocatorFloors := []
  readinessLogLines := []

/-- The loop of `verify-hosts` over the four hosts. -/
def sparkLoop : Sh Readings :=
  passive ([0, 1, 2, 3].foldlM (sparkLauncher.verifyHost true .strict)
    { minMem := 999999999, maxMem := 0, reports := [] })

theorem sparkLoop_completes (mem : String) (kib : ℕ)
    (hreadings : memoryReadings ((sparkLoop sparkVars).follow (sparkReply mem)).1 = [kib, kib, kib, kib])
    (hok : ((sparkLoop sparkVars).follow (sparkReply mem)).2.1.toOption.isSome = true) :
    ∃ trace readings vars, Script.Completes (sparkLoop sparkVars) trace (.ok readings, vars) ∧
      memoryReadings trace = [kib, kib, kib, kib] := by
  have hrun := Script.follow_completes (sparkReply mem) (sparkLoop sparkVars)
  obtain ⟨readings, hresult⟩ := exists_ok_of_isSome hok
  obtain ⟨vars, hvars⟩ : ∃ vars, ((sparkLoop sparkVars).follow (sparkReply mem)).2 =
      (.ok readings, vars) := ⟨_, Prod.ext hresult rfl⟩
  rw [hvars] at hrun
  exact ⟨_, readings, vars, hrun, hreadings⟩

/-- On four hosts with 116 GiB each the extrema are true. -/
theorem memory_gates_minimum : ∃ trace readings vars,
    Script.Completes (sparkLoop sparkVars) trace (.ok readings, vars) ∧
      memoryReadings trace = [121634816, 121634816, 121634816, 121634816] ∧
      TrueExtrema readings (memoryReadings trace) := by
  obtain ⟨trace, readings, vars, hrun, hreadings⟩ :=
    sparkLoop_completes "121634816" 121634816 (by decide) (by decide)
  have hgate := (memory_gates sparkLauncher).1 true .strict [0, 1, 2, 3] _ _ _ _ (by simp) hrun
  refine ⟨trace, readings, vars, hrun, hreadings, hgate.mpr ⟨121634816, ?_, by norm_num⟩⟩
  rw [hreadings]
  exact List.mem_cons_self

/-- On four hosts with 1000000000 KiB each the launch gate finds a minimum that no host
reported. -/
theorem tebibyte_minimum_missed : ∃ trace readings vars,
    Script.Completes (sparkLoop sparkVars) trace (.ok readings, vars) ∧
      memoryReadings trace = [1000000000, 1000000000, 1000000000, 1000000000] ∧
      readings.minMem = 999999999 ∧ ¬ TrueExtrema readings (memoryReadings trace) := by
  obtain ⟨trace, readings, vars, hrun, hreadings⟩ :=
    sparkLoop_completes "1000000000" 1000000000 (by decide) (by decide)
  have hloop := loop_metered [0, 1, 2, 3] fun done index readings =>
    verifyHost_metered sparkLauncher true .strict 999999999 done index readings
  have hmetered := (hloop sparkVars [] rfl).completes hrun
  rw [after_meter, List.nil_append] at hmetered
  have hmin : readings.minMem = 999999999 := by
    rw [hmetered.minMem, hreadings]
    norm_num
  refine ⟨trace, readings, vars, hrun, hreadings, hmin, fun h => ?_⟩
  have hleast := h.1.1
  rw [hmin, hreadings] at hleast
  simp at hleast

end ChampionRuntime.Launch
