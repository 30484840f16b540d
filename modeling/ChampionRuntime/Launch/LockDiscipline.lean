import ChampionRuntime.Launch.LaunchCluster

/-!
# The discipline of the lock and of the nonce

A watch over the actions of a script records the host it is at, whether the lock was
asserted since it came there, whether a receipt was written, and the contracts it
read. Under all replies, the scripts change a host only when the lock was asserted
there, and compact memory only behind a receipt of their nonce.
-/
namespace ChampionRuntime.Launch

open Lib

structure Watch where
  index : Option ℕ
  held : Bool
  consumed : Bool
  /-- the presets and the contracts read from them -/
  contracts : List (Text × Text)
  deriving DecidableEq, Repr

namespace Watch

def start : Watch := ⟨none, false, false, []⟩

def next (w : Watch) : Action → Reply → Watch
  | .passive (.enter index), _ => { w with index := some index, held := false }
  | .passive (.probe .assertHeld), reply => { w with held := w.held || reply.ok }
  | .passive (.probe (.run (.allocatorContract canonical))), reply =>
    if reply.ok then { w with contracts := (canonical, reply.output) :: w.contracts } else w
  | .receipt .., reply => { w with consumed := w.consumed || reply.consumed }
  | _, _ => w

/-- The lock was asserted since the script came to this host. -/
def Armed (index : ℕ) (w : Watch) : Prop := w.index = some index ∧ w.held = true

/-- The contract that was read from the preset of the profile asks for a uniform
floor. -/
def Uniform (profile : Text) (w : Watch) : Prop :=
  ∃ contract ∈ w.contracts, Launcher.profileName profile = some contract.1 ∧
    (Launcher.readContract contract.2).isUniform = true

def Cleared (profile : Text) (w : Watch) : Prop := w.consumed = true ∧ w.Uniform profile

/-- What a script may do that has this profile and may leave receipts of these hashes. -/
def Allowed (hashes : Text → Prop) (profile : Text) (w : Watch) : Action → Prop
  | .passive _ => True
  | .change index _ => w.Armed index
  | .compact index => w.Armed index ∧ w.Cleared profile
  | .receipt _ hash _ => hashes hash

def Stable (I : Watch → Prop) : Prop := ∀ w action reply, I w → I (w.next action reply)

theorem stable_true : Stable fun _ => True := fun _ _ _ _ => trivial

theorem next_consumed {w : Watch} (h : w.consumed = true) (action : Action) (reply : Reply) :
    (w.next action reply).consumed = true := by
  unfold next
  split <;> try exact h
  · split <;> exact h
  · simp [h]

theorem next_contracts (w : Watch) (action : Action) (reply : Reply) :
    w.contracts ⊆ (w.next action reply).contracts := by
  unfold next
  split <;> try exact List.Subset.refl _
  split
  · exact List.subset_cons_self _ _
  · exact List.Subset.refl _

theorem stable_uniform (profile : Text) : Stable (Uniform profile) := by
  rintro w action reply ⟨contract, hmem, h⟩
  exact ⟨contract, next_contracts w action reply hmem, h⟩

theorem stable_cleared (profile : Text) : Stable (Cleared profile) := fun w action reply h =>
  ⟨next_consumed h.1 action reply, stable_uniform profile w action reply h.2⟩

theorem armed_probe {index : ℕ} {w : Watch} (h : w.Armed index) (p : Probe) (reply : Reply) :
    (w.next (.passive (.probe p)) reply).Armed index := by
  cases p with
  | assertHeld => exact ⟨h.1, by simp [next, h.2]⟩
  | run program =>
    cases program with
    | allocatorContract canonical =>
      rw [next]
      split <;> exact h
    | _ => exact h
  | _ => exact h

end Watch

abbrev discipline (hashes : Text → Prop) (profile : Text) : Monitor Action Reply where
  State := Watch
  next := Watch.next
  Allowed := Watch.Allowed hashes profile

section Rules

variable {hashes : Text → Prop} {profile : Text} {I : Watch → Prop} {α : Type}

/-- The routine respects the discipline and keeps the invariant. -/
abbrev Keeps (hashes : Text → Prop) (profile : Text) (I : Watch → Prop) (x : Sh α) : Prop :=
  Routine.Triple (discipline hashes profile) (fun _ => I) x (fun _ _ => I) fun _ => I

/-- The routine respects the discipline while the lock is asserted for a host. -/
abbrev KeepsAt (hashes : Text → Prop) (profile : Text) (I : Watch → Prop) (index : ℕ) (x : Sh α) : Prop :=
  Routine.Triple (discipline hashes profile) (fun _ w => I w ∧ w.Armed index) x
    (fun _ _ w => I w ∧ w.Armed index) fun _ => I

theorem keeps_passive (hI : Watch.Stable I) (x : Check α) : Keeps hashes profile I (passive x) :=
  .mapAction (.of_invariant (fun _ _ _ => trivial) (fun w _ reply hw => hI w _ reply hw) x)

theorem keeps_quiet (hI : Watch.Stable I) (x : Quiet α) : Keeps hashes profile I (quiet x) :=
  .mapAction (.of_invariant (fun _ _ _ => trivial) (fun w _ reply hw => hI w _ reply hw) x)

theorem keepsAt_quiet (hI : Watch.Stable I) (index : ℕ) (x : Quiet α) :
    KeepsAt hashes profile I index (quiet x) := by
  have h : Routine.Triple (discipline hashes profile) (fun _ w => I w ∧ w.Armed index) (quiet x)
      (fun _ _ w => I w ∧ w.Armed index) (fun _ w => I w ∧ w.Armed index) :=
    .mapAction (.of_invariant (fun _ _ _ => trivial)
      (fun w p reply hw => ⟨hI w _ reply hw.1, Watch.armed_probe hw.2 p reply⟩) x)
  exact h.consequence (fun _ _ h => h) (fun _ _ _ h => h) fun _ _ h => h.1

theorem keepsAt_change (hI : Watch.Stable I) (index : ℕ) (change : Change) :
    KeepsAt hashes profile I index (.perform (.change index change)) :=
  .perform (fun _ _ h => h.2) fun _ w reply h => ⟨hI w (.change index change) reply h.1, h.2⟩

theorem keepsAt_compact (index : ℕ) :
    KeepsAt hashes profile (Watch.Cleared profile) index (.perform (.compact index)) :=
  .perform (fun _ _ h => ⟨h.2, h.1⟩) fun _ _ _ h => h

theorem keepsAt_return (a : α) (index : ℕ) : KeepsAt hashes profile I index (pure a) :=
  .pure fun _ _ h => h

theorem keepsAt_demand (condition : Bool) (message : List Text) (index : ℕ) :
    KeepsAt hashes profile I index (demand condition message) := by
  cases condition
  · exact .fail fun _ _ h => h.1
  · exact .pure fun _ _ h => h

theorem keeps_demand (condition : Bool) (message : List Text) :
    Keeps hashes profile I (demand condition message) := by
  cases condition
  · exact .fail fun _ _ h => h
  · exact .pure fun _ _ h => h

theorem keepsAt_errexit (strict : Bool) (reply : Reply) (index : ℕ) :
    KeepsAt hashes profile I index (errexit strict reply) := by
  unfold errexit
  split
  · exact .fail fun _ _ h => h.1
  · exact .pure fun _ _ h => h

theorem keeps_return (a : α) : Keeps hashes profile I (pure a) := .pure fun _ _ h => h

theorem keeps_fail (stop : Stop) : Keeps hashes profile I (.fail stop : Sh α) :=
  .fail fun _ _ h => h

theorem keeps_ite {condition : Prop} [Decidable condition] {x y : Sh α}
    (hx : Keeps hashes profile I x) (hy : Keeps hashes profile I y) :
    Keeps hashes profile I (if condition then x else y) := by
  split
  · exact hx
  · exact hy

theorem keeps_foldlM {β : Type} {xs : List ℕ} {f : β → ℕ → Sh β} {b : β}
    (hf : ∀ b index, Keeps hashes profile I (f b index)) : Keeps hashes profile I (xs.foldlM f b) := by
  let kept (_ : List ℕ) (_ : β) (_ : Vars) (w : (discipline hashes profile).State) : Prop := I w
  exact Routine.Triple.foldlM (I := kept) (E := fun _ => I) fun _ index _ b _ => hf b index

theorem keeps_succeeds {x : Sh α} (hx : Keeps hashes profile I x) :
    Keeps hashes profile I (succeeds x) := by
  refine hx.attempt.bind fun outcome => ?_
  match outcome with
  | .ok _ => exact .pure fun _ _ h => h
  | .error (.exit _) => exact .fail fun _ _ h => h
  | .error (.blocked _) => exact .pure fun _ _ h => h
  | .error .failed => exact .pure fun _ _ h => h

theorem triple_demand {A : Type} {monitor : Monitor A Reply} {P E : Vars → monitor.State → Prop}
    {condition : Bool} {message : List Text} (hE : ∀ vars m, P vars m → E vars m) :
    Routine.Triple monitor P (demand condition message)
      (fun _ vars m => condition = true ∧ P vars m) E := by
  cases condition
  · exact .fail hE
  · exact .pure fun _ _ h => ⟨rfl, h⟩

theorem triple_assertHeld (hI : Watch.Stable I) (index : ℕ) :
    Routine.Triple (discipline hashes profile) (fun _ w => I w ∧ w.index = some index)
      (quiet fleetLockAssertHeld) (fun _ _ w => I w ∧ w.Armed index) fun _ => I := by
  refine Routine.Triple.mapAction ?_
  refine Routine.Triple.bind (Q := fun _ _ (w : Watch) => I w ∧ w.index = some index) (.read fun _ _ h => h)
    fun held => ?_
  refine (triple_demand fun _ _ h => h.1).bind fun _ => ?_
  refine Routine.Triple.bind (Q := fun reply _ (w : Watch) => I w ∧ w.index = some index ∧
    (reply.ok = true → w.held = true)) (.perform (fun _ _ _ => trivial) ?_) fun reply => ?_
  · exact fun _ w reply h => ⟨hI w (.passive (.probe .assertHeld)) reply h.2.1, h.2.2,
      fun hok => Bool.or_eq_true_iff.mpr (.inr hok)⟩
  · exact (triple_demand fun _ _ h => h.1).consequence (fun _ _ h => h)
      (fun _ _ _ h => ⟨h.2.1, h.2.2.1, h.2.2.2 h.1⟩) fun _ _ h => h

/-- A host is changed only behind the two steps that every such round begins with. -/
theorem keeps_round (hI : Watch.Stable I) (index : ℕ) {x : Sh α}
    (hx : Routine.Triple (discipline hashes profile) (fun _ w => I w ∧ w.Armed index) x
      (fun _ _ => I) fun _ => I) :
    Keeps hashes profile I (do
      passive (enter index)
      quiet fleetLockAssertHeld
      x) := by
  have henter : Routine.Triple (discipline hashes profile) (fun _ => I) (passive (enter index))
      (fun _ _ w => I w ∧ w.index = some index) fun _ => I :=
    fun _ w hw => ⟨trivial, fun reply => ⟨hI w (.passive (.enter index)) reply hw, rfl⟩⟩
  exact henter.bind fun _ => (triple_assertHeld hI index).bind fun _ => hx

theorem KeepsAt.leave {index : ℕ} {x : Sh α} (hx : KeepsAt hashes profile I index x) :
    Routine.Triple (discipline hashes profile) (fun _ w => I w ∧ w.Armed index) x
      (fun _ _ => I) fun _ => I :=
  hx.consequence (fun _ _ h => h) (fun _ _ _ h => h.1) fun _ _ h => h

theorem keepsAt_ite {condition : Prop} [Decidable condition] {index : ℕ} {x y : Sh α}
    (hx : KeepsAt hashes profile I index x) (hy : KeepsAt hashes profile I index y) :
    KeepsAt hashes profile I index (if condition then x else y) := by
  split
  · exact hx
  · exact hy

theorem keepsAt_fail (stop : Stop) (index : ℕ) :
    KeepsAt hashes profile I index (.fail stop : Sh α) := .fail fun _ _ h => h.1

theorem keepsAt_update (f : Vars → Vars) (index : ℕ) :
    KeepsAt hashes profile I index (.update f) := .update fun _ _ h => h

end Rules

section Functions

variable {hashes : Text → Prop} {profile : Text} {I : Watch → Prop} (hI : Watch.Stable I)
  (cluster : Cluster) (launch : Launcher)

include hI

theorem fleetStopExactOrdered_keeps (strict : Bool) (run : Text) :
    Keeps hashes profile I (fleetStopExactOrdered cluster strict run) := by
  have hrank (index : ℕ) : Keeps hashes profile I (fleetStopRank cluster strict run index) := by
    refine keeps_round hI index (KeepsAt.leave ?_)
    refine (keepsAt_quiet hI index _).bind fun state => ?_
    cases state with
    | exact =>
      exact (keepsAt_change hI index _).bind fun reply =>
        (keepsAt_errexit strict reply index).bind fun _ => keepsAt_return _ index
    | absent => exact keepsAt_return _ index
    | unknown state => exact keepsAt_fail _ index
  refine (keeps_foldlM fun _ index => hrank index).bind fun _ => ?_
  exact keeps_ite (keeps_return ()) (keeps_fail _)

theorem updateCpus_keeps (cpus : String) (index : ℕ) :
    Keeps hashes profile I (launch.updateCpus cpus index) := by
  refine keeps_round hI index (KeepsAt.leave ?_)
  refine (keepsAt_quiet hI index _).bind fun _ => (keepsAt_change hI index _).bind fun reply => ?_
  exact keepsAt_ite (keepsAt_return _ index) (keepsAt_fail _ index)

theorem applyFastPin_keeps : Keeps hashes profile I launch.applyFastPin := by
  have hpin : Keeps hashes profile I launch.pinFast := by
    refine (Routine.Triple.forM fun index _ => updateCpus_keeps hI launch _ index).bind fun _ => ?_
    exact (keeps_passive hI _).bind fun _ => keeps_quiet hI _
  have hrollback : Keeps hashes profile I launch.rollbackFastPin := by
    refine (Routine.Triple.forM fun index _ => updateCpus_keeps hI launch _ index).bind fun _ => ?_
    exact keeps_quiet hI _
  refine (keeps_succeeds hpin).bind fun pinned => keeps_ite (keeps_return _) ?_
  exact (keeps_succeeds hrollback).bind fun _ => keeps_fail _

theorem startContainer_keeps (canonical : Text) (contract : Launcher.AllocatorContract)
    (uniformFloor : Text) (index : ℕ) :
    Keeps hashes profile I (launch.startContainer canonical contract uniformFloor index) := by
  refine keeps_round hI index (KeepsAt.leave ?_)
  refine (keepsAt_quiet hI index _).bind fun _ => (keepsAt_quiet hI index _).bind fun _ => ?_
  refine (keepsAt_change hI index _).bind fun installed => ?_
  refine (keepsAt_errexit true installed index).bind fun _ => ?_
  refine (keepsAt_quiet hI index _).bind fun _ => (keepsAt_update _ index).bind fun _ => ?_
  refine (keepsAt_change hI index _).bind fun created => ?_
  exact (keepsAt_errexit true created index).bind fun _ => keepsAt_update _ index

theorem execute_keeps (change : Change) (index : ℕ) :
    Keeps hashes profile I (Launcher.execute change index) := by
  refine keeps_round hI index (KeepsAt.leave ?_)
  exact (keepsAt_change hI index _).bind fun reply => keepsAt_errexit true reply index

theorem onExit_keeps (failed : Bool) : Keeps hashes profile I (launch.onExit failed) := by
  refine Routine.Triple.bind (Q := fun _ _ => I) (.read fun _ _ h => h) fun unready => ?_
  refine (keeps_ite ?_ (keeps_return ())).bind fun _ => keeps_quiet hI _
  refine (keeps_succeeds (keeps_passive hI _)).bind fun gone => keeps_ite ?_ (keeps_return ())
  exact (keeps_succeeds (fleetStopExactOrdered_keeps hI _ _ _)).bind fun _ => keeps_return ()

theorem stageHost_keeps (imageId buildSubject : Text) (index : ℕ) :
    Keeps hashes profile I (stageHost imageId buildSubject index) := by
  refine keeps_round hI index (KeepsAt.leave ?_)
  refine (keepsAt_quiet hI index _).bind fun usage => (keepsAt_errexit true usage index).bind fun _ => ?_
  refine (keepsAt_quiet hI index _).bind fun built => (keepsAt_errexit true built index).bind fun _ => ?_
  refine (keepsAt_change hI index _).bind fun loaded => ?_
  refine (keepsAt_errexit true loaded index).bind fun _ => ?_
  refine (keepsAt_quiet hI index _).bind fun got => ?_
  refine (keepsAt_ite (keepsAt_return _ index) (keepsAt_fail _ index)).bind fun _ => ?_
  refine (keepsAt_quiet hI index _).bind fun label => ?_
  exact keepsAt_ite (keepsAt_return _ index) (keepsAt_fail _ index)

theorem stageImageMain_keeps : Keeps hashes profile I (stageImageMain cluster) := by
  have hstage : Keeps hashes profile I (stageImage cluster) := by
    refine (keeps_ite (keeps_return ()) (keeps_fail _)).bind fun _ => ?_
    refine (keeps_quiet hI _).bind fun accepted => ?_
    refine (keeps_ite (keeps_fail _) (keeps_return ())).bind fun _ => ?_
    refine (keeps_ite (keeps_return ()) (keeps_fail _)).bind fun _ => (keeps_quiet hI _).bind fun _ => ?_
    exact (Routine.Triple.forM fun index _ => stageHost_keeps hI _ _ index).bind fun _ =>
      keeps_quiet hI _
  refine hstage.attempt.bind fun outcome => ?_
  cases outcome with
  | ok _ => exact (keeps_quiet hI _).bind fun _ => keeps_return ()
  | error stop => exact (keeps_quiet hI _).bind fun _ => keeps_fail stop

end Functions

section Launch

variable {hashes : Text → Prop} {profile : Text} {I : Watch → Prop}

/-- The routine respects the discipline, from every state of the watch that satisfies
`P`. -/
abbrev Respects {α : Type} (hashes : Text → Prop) (profile : Text) (P : Watch → Prop) (x : Sh α)
    (Q : α → Watch → Prop) : Prop :=
  Routine.Triple (discipline hashes profile) (fun _ => P) x (fun a _ => Q a) fun _ _ => True

theorem Respects.of_keeps {α : Type} {x : Sh α} (hx : Keeps hashes profile I x) :
    Respects hashes profile I x fun _ => I :=
  hx.consequence (fun _ _ h => h) (fun _ _ _ h => h) fun _ _ _ => trivial

theorem fleetLockAcquire_triple (hI : Watch.Stable I) (cluster : Cluster) (strict held : Bool) :
    Routine.Triple (discipline hashes profile) (fun vars w => vars.lockPid = held ∧ I w)
      (quiet (fleetLockAcquire cluster strict))
      (fun _ _ w => (held = false ∧ isSafeLockPath (cluster.var "CHAMPION_FLEET_LOCK") = true ∧
        isCanonicalLockPath (cluster.var "CHAMPION_FLEET_LOCK") = true) ∧ I w) fun _ => I := by
  have hrest {α : Type} (x : Quiet α) : Routine.Triple
      ((discipline hashes profile).comap fun p => Action.passive (.probe p)) (fun _ => I) x
      (fun _ _ => I) fun _ => I :=
    .of_invariant (fun _ _ _ => trivial) (fun w _ reply hw => hI w _ reply hw) x
  refine Routine.Triple.mapAction ?_
  refine Routine.Triple.bind (Q := fun found _ w => found = held ∧ I w) (.read fun _ _ h => h)
    fun found => .of_fact ?_
  rintro rfl
  refine (triple_demand fun _ _ h => h).bind fun _ => .of_fact fun hfree => ?_
  have hpath : Routine.Triple ((discipline hashes profile).comap fun p => Action.passive (.probe p))
      (fun _ => I) (fleetValidateLockPath cluster)
      (fun _ _ w => isCanonicalLockPath (cluster.var "CHAMPION_FLEET_LOCK") = true ∧
        isSafeLockPath (cluster.var "CHAMPION_FLEET_LOCK") = true ∧ I w) fun _ => I :=
    (triple_demand fun _ _ h => h).bind fun _ => triple_demand fun _ _ h => h.2
  refine hpath.bind fun _ => .of_fact fun hcanonical => .of_fact fun hsafe => ?_
  refine Routine.Triple.consequence (hrest _) (fun _ _ h => h) (fun _ _ _ h => ⟨⟨?_, hsafe, hcanonical⟩, h⟩)
    fun _ _ h => h
  simpa using hfree

variable (launch : Launcher)

theorem fleetConsumeCompactionNonceHash_respects
    (hhash : isHash launch.nonceHash = true → hashes launch.nonceHash) :
    Respects hashes launch.profile (Watch.Uniform launch.profile)
      (fleetConsumeCompactionNonceHash launch.cluster launch.nonceHash launch.runHash)
      fun _ => Watch.Cleared launch.profile := by
  have huniform := Watch.stable_uniform launch.profile
  -- what holds behind the receipt command, while its reply is not yet read
  let Read (reply : Reply) (w : Watch) : Prop :=
    w.Uniform launch.profile ∧ (reply.consumed = true → w.consumed = true)
  have hread (reply : Reply) : Watch.Stable (Read reply) := fun w action reply' hw =>
    ⟨huniform w action reply' hw.1, fun h => Watch.next_consumed (hw.2 h) action reply'⟩
  refine (triple_demand fun _ _ _ => trivial).bind fun _ => .of_fact fun hvalid => ?_
  refine (Respects.of_keeps (keeps_quiet huniform _)).bind fun _ => ?_
  refine Routine.Triple.bind (Q := fun reply _ => Read reply) ?_ fun reply => ?_
  · refine .perform (fun _ _ _ => hhash (Bool.and_eq_true_iff.mp hvalid).1)
      fun _ w reply hw => ⟨huniform w _ reply hw, ?_⟩
    exact fun hconsumed => Bool.or_eq_true_iff.mpr (.inr hconsumed)
  refine (Respects.of_keeps (keeps_quiet (hread reply) _)).bind fun _ => ?_
  split
  · exact .pure fun _ w hw => ⟨hw.2 ‹_›, hw.1⟩
  · split <;> exact .fail fun _ _ _ => trivial

theorem compactAndSizeUniformAllocatorFloor_keeps :
    Keeps hashes launch.profile (Watch.Cleared launch.profile)
      launch.compactAndSizeUniformAllocatorFloor := by
  have hcleared := Watch.stable_cleared launch.profile
  refine Routine.Triple.bind (.forM fun index _ => ?_) fun _ => ?_
  · refine keeps_round hcleared index (KeepsAt.leave ?_)
    exact (keepsAt_compact index).bind fun reply => keepsAt_demand _ _ index
  · refine (keeps_passive hcleared _).bind fun readings => ?_
    exact (keeps_demand _ _).bind fun _ => (keeps_demand _ _).bind fun _ => keeps_return _

theorem prepareHosts_respects (hhash : isHash launch.nonceHash = true → hashes launch.nonceHash)
    (contract : Launcher.AllocatorContract) :
    Respects hashes launch.profile
      (fun w => contract.isUniform = true → w.Uniform launch.profile)
      (launch.prepareHosts contract) fun _ _ => True := by
  have huniform := Watch.stable_uniform launch.profile
  unfold Launcher.prepareHosts
  split
  · have hwork : Respects hashes launch.profile (Watch.Uniform launch.profile) (do
        passive (launch.verifyHosts false .preCompaction)
        passive ([0, 1, 2, 3].forM launch.checkFresh)
        fleetConsumeCompactionNonceHash launch.cluster launch.nonceHash launch.runHash
        launch.compactAndSizeUniformAllocatorFloor) fun _ => Watch.Cleared launch.profile := by
      refine (Respects.of_keeps (keeps_passive huniform _)).bind fun _ => ?_
      refine (Respects.of_keeps (keeps_passive huniform _)).bind fun _ => ?_
      refine (fleetConsumeCompactionNonceHash_respects launch hhash).bind fun _ => ?_
      exact Respects.of_keeps (compactAndSizeUniformAllocatorFloor_keeps launch)
    exact hwork.consequence (fun _ _ h => h ‹_›) (fun _ _ _ _ => trivial) fun _ _ h => h
  · have hverify : Respects hashes launch.profile (fun _ => True) (do
        passive (launch.verifyHosts false .strict)
        pure ([] : Text)) fun _ _ => True :=
      (keeps_passive Watch.stable_true _).bind fun _ => keeps_return _
    exact hverify.consequence (fun _ _ _ => trivial) (fun _ _ _ h => h) fun _ _ h => h

/-- With this the script comes as far as the receipt. -/
structure Launcher.Able (held : Bool) : Prop where
  mode : launch.mode = "launch".toList
  free : held = false
  safe : isSafeLockPath (launch.cluster.var "CHAMPION_FLEET_LOCK") = true
  canonical : isCanonicalLockPath (launch.cluster.var "CHAMPION_FLEET_LOCK") = true
  hash : isHash launch.nonceHash = true

theorem launchProfile_respects {held : Bool} (hmode : launch.mode = "launch".toList)
    (hhash : launch.Able held → hashes launch.nonceHash) :
    Routine.Triple (discipline hashes launch.profile) (fun vars _ => vars.lockPid = held)
      launch.launchProfile (fun _ _ _ => True) fun _ _ => True := by
  have htrue := Watch.stable_true
  unfold Launcher.launchProfile
  cases hcanonical : Launcher.profileName launch.profile with
  | none => exact .fail fun _ _ _ => trivial
  | some canonical =>
    -- the contract that the preset of the profile has, from where it is read on
    let Known (contract : Reply) (w : Watch) : Prop :=
      contract.ok = true → (canonical, contract.output) ∈ w.contracts
    let Sound (contract : Reply) (w : Watch) : Prop :=
      (Launcher.readContract contract.output).isUniform = true → w.Uniform launch.profile
    have hsound (contract : Reply) : Watch.Stable (Sound contract) := fun w action reply hw h =>
      Watch.stable_uniform launch.profile w action reply (hw h)
    refine Routine.Triple.bind (Q := fun _ vars _ => vars.lockPid = held) (.update fun _ _ h => h)
      fun _ => ?_
    refine Routine.Triple.bind (Q := fun reply vars w => vars.lockPid = held ∧ Known reply w)
      (.perform (fun _ _ _ => trivial) fun _ w reply h => ⟨h, fun hreply => ?_⟩) fun contract => ?_
    · simp [Watch.next, hreply]
    refine Routine.Triple.bind (Q := fun _ vars w => vars.lockPid = held ∧ Sound contract w) ?_
      fun _ => ?_
    · split
      · exact .pure fun _ w hw => ⟨hw.1, fun huniform => ⟨_, hw.2 ‹_›, hcanonical, huniform⟩⟩
      · exact .fail fun _ _ _ => trivial
    have hrender (program : Program) : Routine.Triple (discipline hashes launch.profile)
        (fun vars w => vars.lockPid = held ∧ Sound contract w) (quiet (run program))
        (fun _ vars w => vars.lockPid = held ∧ Sound contract w) fun _ _ => True :=
      .perform (fun _ _ _ => trivial) fun _ w reply h => ⟨h.1, hsound contract w _ reply h.2⟩
    have hcheck (reply : Reply) : Routine.Triple (discipline hashes launch.profile)
        (fun vars w => vars.lockPid = held ∧ Sound contract w)
        (if reply.ok then pure () else .fail .failed : Sh Unit)
        (fun _ vars w => vars.lockPid = held ∧ Sound contract w) fun _ _ => True := by
      split
      · exact .pure fun _ _ h => h
      · exact .fail fun _ _ _ => trivial
    refine (hrender _).bind fun argv => (hcheck argv).bind fun _ => ?_
    refine (hrender _).bind fun env => (hcheck env).bind fun _ => ?_
    refine Routine.Triple.bind ((fleetLockAcquire_triple (hsound contract) _ _ held).consequence
      (fun _ _ h => h) (fun _ _ _ h => h) fun _ _ _ => trivial) fun _ => .of_fact fun hable => ?_
    refine (prepareHosts_respects launch (fun h => hhash ⟨hmode, hable.1, hable.2.1, hable.2.2, h⟩)
      _).bind fun uniformFloor => ?_
    refine (keeps_ite (keeps_return ()) (fleetStopExactOrdered_keeps htrue _ _ _)).bind fun _ => ?_
    refine Routine.Triple.bind (Q := fun _ _ _ => True) (.update fun _ _ h => h) fun _ => ?_
    refine (Routine.Triple.forM fun index _ => startContainer_keeps htrue launch _ _ _ index).bind
      fun _ => ?_
    refine (keeps_quiet htrue _).bind fun _ => (keeps_passive htrue _).bind fun _ => ?_
    refine (execute_keeps htrue _ 0).bind fun _ => ?_
    refine (Routine.Triple.forM fun index _ => execute_keeps htrue _ index).bind fun _ => ?_
    refine (execute_keeps htrue _ 0).bind fun _ => (keeps_passive htrue _).bind fun _ => ?_
    refine Routine.Triple.bind (Q := fun _ _ _ => True) (.update fun _ _ h => h) fun _ => ?_
    refine (keeps_quiet htrue _).bind fun _ => ?_
    refine Routine.Triple.bind (Q := fun _ _ _ => True) (.read fun _ _ h => h) fun fast => ?_
    refine (keeps_ite (applyFastPin_keeps htrue launch) (keeps_return ())).bind fun _ => ?_
    exact keeps_quiet htrue _

/-- Receipts are left only by a script that comes so far, and only of its hash. -/
theorem main_respects {held : Bool} (hhash : launch.Able held → hashes launch.nonceHash) :
    Routine.Triple (discipline hashes launch.profile) (fun vars _ => vars.lockPid = held)
      launch.main (fun _ _ _ => True) fun _ _ => True := by
  have htrue := Watch.stable_true
  -- a program of the controller leaves the variables as they are
  have hrun (program : Program) : Routine.Triple
      ((discipline hashes launch.profile).comap fun p => Action.passive (.probe p))
      (fun vars _ => vars.lockPid = held) (run program) (fun _ vars _ => vars.lockPid = held)
      fun _ _ => True :=
    .perform (fun _ _ _ => trivial) fun _ _ _ h => h
  have hbody : Routine.Triple (discipline hashes launch.profile) (fun vars _ => vars.lockPid = held)
      launch.body (fun _ _ _ => True) fun _ _ => True := by
    refine Routine.Triple.bind (Q := fun _ vars _ => vars.lockPid = held)
      (.mapAction ((hrun _).bind fun reply => ?_)) fun _ => ?_
    · exact (triple_demand fun _ _ _ => trivial).consequence (fun _ _ h => h) (fun _ _ _ h => h.2)
        fun _ _ h => h
    refine Routine.Triple.bind (Q := fun _ vars _ => vars.lockPid = held) (.mapAction ?_)
      fun runHash => ?_
    · unfold Launcher.computeRunHash
      split
      · exact .pure fun _ _ h => h
      · refine (hrun _).bind fun reply => ?_
        split
        · exact .pure fun _ _ h => h
        · exact .fail fun _ _ _ => trivial
    unfold Launcher.dispatch
    split
    · exact (keeps_passive htrue _).consequence (fun _ _ _ => trivial) (fun _ _ _ h => h)
        fun _ _ h => h
    split
    · next hmode =>
      have hmode' : launch.mode = "launch".toList := by simpa using hmode
      exact launchProfile_respects { launch with runHash } hmode'
        fun h => hhash ⟨hmode', h.free, h.safe, h.canonical, h.hash⟩
    · exact .fail fun _ _ _ => trivial
  refine Routine.Triple.bind (Q := fun _ vars _ => vars.lockPid = held) (.update fun _ _ h => h)
    fun _ => ?_
  refine hbody.attempt.bind fun outcome => ?_
  cases outcome with
  | ok _ => exact (onExit_keeps htrue launch _).bind fun _ => keeps_return ()
  | error stop => exact (onExit_keeps htrue launch _).bind fun _ => keeps_fail stop

end Launch

end ChampionRuntime.Launch
