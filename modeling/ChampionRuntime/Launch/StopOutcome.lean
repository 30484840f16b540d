import ChampionRuntime.Launch.LockDiscipline

/-!
# What a successful stop says

`fleet_stop_exact_ordered` under every pattern of answers from the hosts. A host that
does not answer is taken for one without the container, and where the caller suspends
`errexit` only the stop on the first host decides the status.
-/
namespace ChampionRuntime.Launch

open Lib

/-- What a host makes of the question for the identity of a container. -/
inductive Inspection
  | found (state : Text)
  | noSuchContainer
  | unreachable
  deriving DecidableEq, Repr

/-- The statuses are those of `docker inspect` and of `ssh`. -/
def Inspection.Gives : Inspection → Reply → Prop
  | .found state, reply => reply = ⟨0, state⟩
  | .noSuchContainer, reply => reply.code = 1
  | .unreachable, reply => reply.code = 255

/-- The answers of the hosts to one call. -/
structure Remote where
  inspection : ℕ → Inspection
  /-- `docker stop` succeeds -/
  stops : ℕ → Bool

def isExact (cluster : Cluster) (run state : Text) : Bool :=
  let expected := cluster.var "CHAMPION_IMAGE_ID" ++ '|' :: (run ++ ['|'])
  state == expected ++ "true".toList || state == expected ++ "false".toList

namespace Remote

/-- The reply is the one that the host has for the action. -/
def Explains (remote : Remote) : Action × Reply → Prop
  | (.passive (.probe (.ask index (.identity _))), reply) => (remote.inspection index).Gives reply
  | (.change index (.stop _), reply) => reply.ok = remote.stops index
  | _ => True

variable (remote : Remote) (cluster : Cluster) (run : Text) (index : ℕ)

/-- The container of the rank has the image and the label of the run. -/
def Exact : Prop :=
  ∃ state, remote.inspection index = .found state ∧ isExact cluster run state = true

/-- The container of that name has another image or another label. -/
def Foreign : Prop :=
  ∃ state, remote.inspection index = .found state ∧ isExact cluster run state = false

/-- The call fails on this host: without `errexit` a stop that fails is only seen on
the first. -/
def Refuses (strict : Bool) : Prop :=
  remote.Foreign cluster run index ∨
    remote.Exact cluster run index ∧ remote.stops index = false ∧ (strict = true ∨ index = 0)

/-- The host answers, and stops the container if it has it. -/
def Obeys : Prop :=
  remote.inspection index ≠ .unreachable ∧
    (remote.Exact cluster run index → remote.stops index = true)

end Remote

section Claims

variable (cluster : Cluster) (strict : Bool) (run : Text) (remote : Remote)

/-- A call that succeeds leaves no container of the run behind, and no call stops a
container of another identity. -/
structure StopMeansStopped : Prop where
  stopped : ∀ vars vars' trace,
    Script.Completes (fleetStopExactOrdered cluster strict run vars) trace (.ok (), vars') →
    (∀ e ∈ trace, remote.Explains e) → ∀ index < 4, remote.inspection index = .noSuchContainer ∨
      ∃ reply : Reply, (.change index (.stop (Cluster.rank run index)), reply) ∈ trace ∧
        reply.ok = true
  exact : ∀ vars trace index name reply,
    Script.Run (fleetStopExactOrdered cluster strict run vars) trace →
    (∀ e ∈ trace, remote.Explains e) → (.change index (.stop name), reply) ∈ trace →
    name = Cluster.rank run index ∧ remote.Exact cluster run index

end Claims

section Runs

variable {cluster : Cluster} {strict : Bool} {run : Text} {remote : Remote}

/-- A container is stopped behind the answer that it is the right one. -/
def StopAllowed (cluster : Cluster) (run : Text) (trace : List (Action × Reply)) : Action → Prop
  | .change index (.stop name) => name = Cluster.rank run index ∧ ∃ reply : Reply,
      (.passive (.probe (.ask index (.identity name))), reply) ∈ trace ∧ reply.ok = true ∧
        isExact cluster run reply.output = true
  | _ => True

theorem Remote.exact_of_reply {index : ℕ} {reply : Reply}
    (hgives : (remote.inspection index).Gives reply) (hok : reply.ok = true)
    (hexact : isExact cluster run reply.output = true) : remote.Exact cluster run index := by
  cases hinspection : remote.inspection index with
  | found state =>
    rw [hinspection] at hgives
    obtain rfl : reply = ⟨0, state⟩ := hgives
    exact ⟨state, hinspection, hexact⟩
  | noSuchContainer =>
    rw [hinspection] at hgives
    simp [Reply.ok, show reply.code = 1 from hgives] at hok
  | unreachable =>
    rw [hinspection] at hgives
    simp [Reply.ok, show reply.code = 255 from hgives] at hok

/-- What the rounds leave behind on a host. -/
def Settled (cluster : Cluster) (strict : Bool) (run : Text) (remote : Remote)
    (trace : List (Action × Reply)) (index : ℕ) : Prop :=
  ¬ remote.Foreign cluster run index ∧ (remote.Exact cluster run index →
    (strict = true → remote.stops index = true) ∧
      ∃ reply, (.change index (.stop (Cluster.rank run index)), reply) ∈ trace)

theorem Settled.mono {trace trace' : List (Action × Reply)} {index : ℕ}
    (h : Settled cluster strict run remote trace index) (hsub : trace ⊆ trace') :
    Settled cluster strict run remote trace' index := by
  refine ⟨h.1, fun hexact => ?_⟩
  obtain ⟨hstops, reply, hmem⟩ := h.2 hexact
  exact ⟨hstops, reply, hsub hmem⟩

/-- The hosts of the rounds that are done are settled, and the last of them gave the
status. -/
def RoundsDone (cluster : Cluster) (strict : Bool) (run : Text) (remote : Remote) (done : List ℕ)
    (status : Bool) (trace : List (Action × Reply)) : Prop :=
  (∀ e ∈ trace, remote.Explains e) →
    (∀ index ∈ done, Settled cluster strict run remote trace index) ∧
      ∀ index, done.getLast? = some index → remote.Exact cluster run index →
        status = remote.stops index

theorem RoundsDone.before {done : List ℕ} {status : Bool} {trace : List (Action × Reply)}
    (h : RoundsDone cluster strict run remote done status trace) (e : Action × Reply) :
    RoundsDone cluster strict run remote done status (trace ++ [e]) := by
  intro hexplains
  obtain ⟨hsettled, hstatus⟩ := h fun e he => hexplains e (List.mem_append_left _ he)
  exact ⟨fun index hindex => (hsettled index hindex).mono (List.subset_append_left _ _), hstatus⟩

theorem RoundsDone.append {done : List ℕ} {status status' : Bool} {index : ℕ}
    {trace : List (Action × Reply)} (h : RoundsDone cluster strict run remote done status trace)
    (hnext : (∀ e ∈ trace, remote.Explains e) → Settled cluster strict run remote trace index ∧
      (remote.Exact cluster run index → status' = remote.stops index)) :
    RoundsDone cluster strict run remote (done ++ [index]) status' trace := by
  intro hexplains
  obtain ⟨hsettled, -⟩ := h hexplains
  obtain ⟨hindex, hstatus⟩ := hnext hexplains
  constructor
  · intro other hother
    rcases List.mem_append.mp hother with hother | hother
    · exact hsettled other hother
    · exact List.mem_singleton.mp hother ▸ hindex
  · intro other hother
    rw [List.getLast?_concat, Option.some_inj] at hother
    exact hother ▸ hstatus

/-- What the identity is read from is one answer of the host. -/
def identityOf (cluster : Cluster) (run : Text) (reply : Reply) : Identity :=
  if !reply.ok then .absent
  else if isExact cluster run reply.output then .exact
  else .unknown reply.output

theorem fleetExactIdentity_eq (cluster : Cluster) (index : ℕ) (name run : Text) :
    fleetExactIdentity cluster index name run =
      ask index (.identity name) >>= fun reply => pure (identityOf cluster run reply) := rfl

theorem identityOf_cases (cluster : Cluster) (run : Text) (reply : Reply) :
    (identityOf cluster run reply = .absent ∧ reply.ok = false) ∨
      (identityOf cluster run reply = .exact ∧ reply.ok = true ∧
        isExact cluster run reply.output = true) ∨
      identityOf cluster run reply = .unknown reply.output := by
  unfold identityOf
  cases hok : reply.ok with
  | false => simp
  | true => cases hexact : isExact cluster run reply.output <;> simp

theorem Settled.of_absent {trace : List (Action × Reply)} {index : ℕ} {reply : Reply}
    (hgives : (remote.inspection index).Gives reply) (hok : reply.ok = false) :
    Settled cluster strict run remote trace index := by
  have hfound : ∀ state, remote.inspection index ≠ .found state := by
    intro state hstate
    rw [hstate] at hgives
    obtain rfl : reply = ⟨0, state⟩ := hgives
    cases hok
  constructor
  · rintro ⟨state, hstate, -⟩
    exact hfound state hstate
  · rintro ⟨state, hstate, -⟩
    exact absurd hstate (hfound state)

theorem Settled.of_stop {trace : List (Action × Reply)} {index : ℕ} {reply : Reply}
    (hexact : remote.Exact cluster run index) (hstops : reply.ok = remote.stops index)
    (hstrict : strict = true → reply.ok = true)
    (hmem : (.change index (.stop (Cluster.rank run index)), reply) ∈ trace) :
    Settled cluster strict run remote trace index := by
  constructor
  · obtain ⟨state, hstate, htrue⟩ := hexact
    rintro ⟨state', hstate', hfalse⟩
    obtain rfl : state' = state := by
      rw [hstate] at hstate'
      exact (Inspection.found.inj hstate').symm
    rw [htrue] at hfalse
    cases hfalse
  · intro _
    exact ⟨fun h => hstops ▸ hstrict h, reply, hmem⟩

section Loop

variable {P : List (Action × Reply) → Prop}

abbrev Lasting (P : List (Action × Reply) → Prop) : Prop :=
  ∀ trace (e : Action × Reply), P trace → P (trace ++ [e])

theorem enter_lasting (hP : Lasting P) (index : ℕ) :
    Routine.Triple (Monitor.recorder (StopAllowed cluster run)) (fun _ => P) (passive (enter index))
      (fun _ _ => P) fun _ _ => True :=
  fun _ trace h => ⟨trivial, fun reply => hP trace (.passive (.enter index), reply) h⟩

theorem assertHeld_lasting (hP : Lasting P) :
    Routine.Triple (Monitor.recorder (StopAllowed cluster run)) (fun _ => P) (quiet fleetLockAssertHeld)
      (fun _ _ => P) fun _ _ => True := by
  refine Routine.Triple.mapAction ?_
  refine Routine.Triple.bind (Q := fun _ _ => P) (.read fun _ _ h => h) fun held => ?_
  refine (triple_demand (E := fun _ _ => True) fun _ _ _ => trivial).bind fun _ => ?_
  refine Routine.Triple.bind (Q := fun _ _ => P) (.perform (fun _ _ _ => trivial) ?_) fun reply => ?_
  · intro _ trace reply h
    exact hP trace (.passive (.probe .assertHeld), reply) h.2
  · exact (triple_demand fun _ _ _ => trivial).consequence (fun _ _ h => h) (fun _ _ _ h => h.2)
      fun _ _ h => h

theorem fleetStopRank_rounds (done : List ℕ) (status : Bool) (index : ℕ) :
    Routine.Triple (Monitor.recorder (StopAllowed cluster run))
      (fun _ => RoundsDone cluster strict run remote done status) (fleetStopRank cluster strict run index)
      (fun status' _ => RoundsDone cluster strict run remote (done ++ [index]) status')
      fun _ _ => True := by
  have hlasting : Lasting (RoundsDone cluster strict run remote done status) := fun _ e h => h.before e
  refine (enter_lasting hlasting index).bind fun _ => (assertHeld_lasting hlasting).bind fun _ => ?_
  -- the answer that the identity was read from
  let Read (state : Identity) (trace : List (Action × Reply)) : Prop := ∃ reply : Reply,
    state = identityOf cluster run reply ∧
      (.passive (.probe (.ask index (.identity (Cluster.rank run index)))), reply) ∈ trace
  refine Routine.Triple.bind
    (Q := fun state _ trace => RoundsDone cluster strict run remote done status trace ∧ Read state trace)
    ?_ fun state => ?_
  · rw [fleetExactIdentity_eq]
    intro _ trace h
    exact ⟨trivial, fun reply => ⟨h.before _, reply, rfl, by simp⟩⟩
  cases state with
  | absent =>
    refine .pure fun _ trace h => h.1.append fun hexplains => ?_
    obtain ⟨reply, hstate, hmem⟩ := h.2
    have hgives : (remote.inspection index).Gives reply := hexplains _ hmem
    rcases identityOf_cases cluster run reply with
      ⟨-, hok⟩ | ⟨hexact, -⟩ | hunknown
    · refine ⟨.of_absent hgives hok, fun hexact => ?_⟩
      obtain ⟨state, hfound, -⟩ := hexact
      rw [hfound] at hgives
      obtain rfl : reply = ⟨0, state⟩ := hgives
      cases hok
    · rw [hexact] at hstate
      cases hstate
    · rw [hunknown] at hstate
      cases hstate
  | exact =>
    have hallowed : ∀ trace, Read .exact trace → StopAllowed cluster run trace
        (.change index (.stop (Cluster.rank run index))) := by
      rintro trace ⟨reply, hstate, hmem⟩
      rcases identityOf_cases cluster run reply with
        ⟨habsent, -⟩ | ⟨-, hok, hexact⟩ | hunknown
      · rw [habsent] at hstate
        cases hstate
      · exact ⟨rfl, reply, hmem, hok, hexact⟩
      · rw [hunknown] at hstate
        cases hstate
    refine Routine.Triple.bind (Q := fun stopped _ (trace : List (Action × Reply)) =>
      RoundsDone cluster strict run remote done status trace ∧
        StopAllowed cluster run trace (.change index (.stop (Cluster.rank run index))) ∧
        (.change index (.stop (Cluster.rank run index)), stopped) ∈ trace)
      (.perform (fun _ trace h => hallowed trace h.2) ?_) fun stopped => ?_
    · intro _ trace stopped h
      obtain ⟨-, reply, hmem, hexact⟩ := hallowed trace h.2
      exact ⟨h.1.before _, ⟨rfl, reply, List.mem_append_left _ hmem, hexact⟩, by simp⟩
    refine Routine.Triple.bind (Q := fun _ _ trace =>
      RoundsDone cluster strict run remote (done ++ [index]) stopped.ok trace) ?_ fun _ => .pure fun _ _ h => h
    unfold errexit
    split_ifs with hstrict
    · exact .fail fun _ _ _ => trivial
    · refine .pure fun _ trace h => h.1.append fun hexplains => ?_
      obtain ⟨-, ⟨-, reply, hmem, hok, hexact⟩, hstopped⟩ := h
      have hhas := Remote.exact_of_reply (hexplains _ hmem) hok hexact
      have hexplained := hexplains _ hstopped
      have hstops : stopped.ok = remote.stops index := hexplained
      refine ⟨.of_stop hhas hstops ?_ hstopped, fun _ => hstops⟩
      intro htrue
      simpa [htrue] using hstrict
  | unknown state => exact .fail fun _ _ _ => trivial

theorem fleetStopExactOrdered_rounds (remote : Remote) :
    Routine.Triple (Monitor.recorder (StopAllowed cluster run)) (fun _ trace => trace = [])
      (fleetStopExactOrdered cluster strict run)
      (fun _ _ => RoundsDone cluster strict run remote [3, 2, 1, 0] true) fun _ _ => True := by
  let rounds (done : List ℕ) (status : Bool) (_ : Vars)
      (trace : (Monitor.recorder (StopAllowed cluster run)).State) : Prop :=
    RoundsDone cluster strict run remote done status trace
  have hloop : Routine.Triple (Monitor.recorder (StopAllowed cluster run)) (rounds [] true)
      ([3, 2, 1, 0].foldlM (fun _ index => fleetStopRank cluster strict run index) true)
      (rounds [3, 2, 1, 0]) fun _ _ => True :=
    Routine.Triple.foldlM (I := rounds) fun done index _ status _ =>
      fleetStopRank_rounds done status index
  have hstart : Routine.Triple (Monitor.recorder (StopAllowed cluster run)) (fun _ trace => trace = [])
      ([3, 2, 1, 0].foldlM (fun _ index => fleetStopRank cluster strict run index) true)
      (rounds [3, 2, 1, 0]) fun _ _ => True := by
    refine hloop.consequence (fun _ _ _ => ?_) (fun _ _ _ h => h) fun _ _ h => h
    intro _
    simp
  refine hstart.bind fun stopped => ?_
  cases stopped with
  | true => exact .pure fun _ _ h => h
  | false => exact .fail fun _ _ _ => trivial

end Loop

section Whole

variable {vars vars' : Vars} {trace : List (Action × Reply)}

theorem rounds_of_completes
    (hrun : Script.Completes (fleetStopExactOrdered cluster strict run vars) trace (.ok (), vars')) :
    RoundsDone cluster strict run remote [3, 2, 1, 0] true trace := by
  have h := (fleetStopExactOrdered_rounds remote vars [] rfl).completes hrun
  rwa [Monitor.after_recorder, List.nil_append] at h

theorem exact_of_run (hrun : Script.Run (fleetStopExactOrdered cluster strict run vars) trace)
    (hexplains : ∀ e ∈ trace, remote.Explains e) {index : ℕ} {name : Text} {reply : Reply}
    (hmem : (.change index (.stop name), reply) ∈ trace) :
    name = Cluster.rank run index ∧ remote.Exact cluster run index := by
  have haccepts := (fleetStopExactOrdered_rounds remote vars [] rfl).accepts hrun
  obtain ⟨earlier, later, rfl⟩ := List.append_of_mem hmem
  have hallowed := haccepts.allowed
  rw [Monitor.after_recorder, List.nil_append] at hallowed
  obtain ⟨hname, asked, hasked, hok, hexact⟩ := hallowed
  exact ⟨hname, Remote.exact_of_reply (hexplains _ (List.mem_append_left _ hasked)) hok hexact⟩

end Whole

def Inspection.reply : Inspection → Reply
  | .found state => ⟨0, state⟩
  | .noSuchContainer => ⟨1, []⟩
  | .unreachable => ⟨255, []⟩

def Remote.answer (remote : Remote) : Action → Reply
  | .passive (.probe (.ask index (.identity _))) => (remote.inspection index).reply
  | .change index (.stop _) => ⟨if remote.stops index then 0 else 1, []⟩
  | _ => ⟨0, []⟩

theorem Inspection.gives_reply (inspection : Inspection) : inspection.Gives inspection.reply := by
  cases inspection with
  | found state => rfl
  | noSuchContainer => rfl
  | unreachable => rfl

theorem Remote.explains_answer (remote : Remote) (action : Action) :
    remote.Explains (action, remote.answer action) := by
  cases action with
  | passive action =>
    cases action with
    | probe probe =>
      cases probe with
      | ask index query =>
        cases query with
        | identity name => exact Inspection.gives_reply _
        | _ => trivial
      | _ => trivial
    | _ => trivial
  | change index change =>
    cases change with
    | stop name =>
      change Reply.ok ⟨if remote.stops index then 0 else 1, []⟩ = remote.stops index
      cases remote.stops index with
      | true => rfl
      | false => rfl
    | _ => trivial
  | _ => trivial

/-- The variables of a script that holds the lock. -/
def lockHeld : Vars where
  lockPid := true
  writerOpen := true
  started := false
  readinessPassed := false
  profile := []
  allocatorFloors := []
  readinessLogLines := []

/-- The status of the last command on a host. -/
def Remote.status (remote : Remote) (cluster : Cluster) (run : Text) (index : ℕ) : Bool :=
  match remote.inspection index with
  | .found state => isExact cluster run state && remote.stops index
  | _ => true

theorem outcome_fleetStopRank {index : ℕ} (hforeign : ¬ remote.Foreign cluster run index)
    (hstrict : strict = true → remote.Exact cluster run index → remote.stops index = true) :
    (fleetStopRank cluster strict run index).outcome remote.answer lockHeld =
      (.ok (remote.status cluster run index), lockHeld) := by
  have hheld : (quiet fleetLockAssertHeld).outcome remote.answer lockHeld = (.ok (), lockHeld) := rfl
  have hinspected : remote.answer (.passive (.probe (.ask index
      (.identity (Cluster.rank run index))))) = (remote.inspection index).reply := rfl
  have hexplains := remote.explains_answer (.change index (.stop (Cluster.rank run index)))
  have hstops : (remote.answer (.change index (.stop (Cluster.rank run index)))).ok =
      remote.stops index := hexplains
  simp only [fleetStopRank, passive, enter, quiet, fleetExactIdentity_eq, ask, Routine.outcome_bind,
    Routine.outcome_mapAction, Routine.outcome_perform, Routine.outcome_pure] at hheld ⊢
  rw [hheld]
  dsimp only
  rw [hinspected]
  unfold Remote.status
  cases hfound : remote.inspection index with
  | found state =>
    have hexact : isExact cluster run state = true := by
      by_contra hother
      exact hforeign ⟨state, hfound, by simpa using hother⟩
    have hidentity : identityOf cluster run (Inspection.found state).reply = .exact := by
      simp [identityOf, Inspection.reply, Reply.ok, hexact]
    have hgoes : (strict && !remote.stops index) = false := by
      cases hcalled : strict with
      | false => rfl
      | true => simp [hstrict hcalled ⟨state, hfound, hexact⟩]
    simp only [hidentity, Routine.outcome_bind, Routine.outcome_perform, errexit, hstops, hgoes,
      Bool.false_eq_true, if_false, Routine.outcome_pure, hexact, Bool.true_and]
  | noSuchContainer => rfl
  | unreachable => rfl

theorem outcome_fleetStopExactOrdered
    (hrefuses : ∀ index < 4, ¬ remote.Refuses cluster run index strict) :
    (fleetStopExactOrdered cluster strict run).outcome remote.answer lockHeld = (.ok (), lockHeld) := by
  have hloop : ∀ (hosts : List ℕ) (status : Bool), (∀ index ∈ hosts, index < 4) →
      (hosts.foldlM (fun _ index => fleetStopRank cluster strict run index) status).outcome
        remote.answer lockHeld =
      (.ok (hosts.foldl (fun _ index => remote.status cluster run index) status), lockHeld) := by
    intro hosts
    induction hosts with
    | nil => exact fun _ _ => rfl
    | cons index hosts ih =>
      intro status hlt
      rw [List.forall_mem_cons] at hlt
      have hindex := hrefuses index hlt.1
      have hrank : (fleetStopRank cluster strict run index).outcome remote.answer lockHeld =
          (.ok (remote.status cluster run index), lockHeld) := by
        apply outcome_fleetStopRank
        · exact fun hforeign => hindex (.inl hforeign)
        · intro hstrict hexact
          by_contra hstops
          exact hindex (.inr ⟨hexact, by simpa using hstops, .inl hstrict⟩)
      rw [List.foldlM_cons, Routine.outcome_bind, hrank]
      exact ih _ hlt.2
  have hfirst : remote.status cluster run 0 = true := by
    unfold Remote.status
    cases hfound : remote.inspection 0 with
    | found state =>
      have hindex := hrefuses 0 (by decide)
      cases hexact : isExact cluster run state with
      | false => exact absurd (.inl ⟨state, hfound, hexact⟩) hindex
      | true =>
        by_contra hstops
        exact hindex (.inr ⟨⟨state, hfound, hexact⟩, by simpa [hexact] using hstops, .inr rfl⟩)
    | noSuchContainer => rfl
    | unreachable => rfl
  rw [fleetStopExactOrdered, Routine.outcome_bind, hloop _ _ (by decide)]
  change Routine.outcome remote.answer (if remote.status cluster run 0 then _ else _) lockHeld = _
  rw [hfirst]
  rfl

theorem not_stopMeansStopped (hrefuses : ∀ index < 4, ¬ remote.Refuses cluster run index strict)
    {index : ℕ} (hlt : index < 4) (hobeys : ¬ remote.Obeys cluster run index) :
    ¬ StopMeansStopped cluster strict run remote := by
  intro h
  obtain ⟨trace, htrace⟩ : ∃ trace, trace =
      ((fleetStopExactOrdered cluster strict run lockHeld).follow remote.answer).1 := ⟨_, rfl⟩
  have hcompletes := Script.follow_completes remote.answer (fleetStopExactOrdered cluster strict run lockHeld)
  have hresult : ((fleetStopExactOrdered cluster strict run lockHeld).follow remote.answer).2 =
      (.ok (), lockHeld) := outcome_fleetStopExactOrdered hrefuses
  rw [← htrace, hresult] at hcompletes
  have hexplains : ∀ e ∈ trace, remote.Explains e := by
    rintro ⟨action, reply⟩ he
    rw [htrace] at he
    obtain rfl : reply = remote.answer action := Script.follow_reply remote.answer _ he
    exact remote.explains_answer action
  apply hobeys
  rcases h.stopped lockHeld lockHeld trace hcompletes hexplains index hlt with
    habsent | ⟨reply, hmem, hok⟩
  · constructor
    · simp [habsent]
    · rintro ⟨state, hfound, -⟩
      rw [habsent] at hfound
      cases hfound
  · obtain ⟨-, state, hfound, -⟩ := exact_of_run hcompletes.run hexplains hmem
    have hexplained := hexplains _ hmem
    have hstops : reply.ok = remote.stops index := hexplained
    exact ⟨by simp [hfound], fun _ => hstops ▸ hok⟩

end Runs

/-- Four hosts, and the image of the run. -/
def fourHosts : Cluster where
  value name := if name = "CHAMPION_IMAGE_ID" then some "sha256:c0ffee".toList else none
  hostArray := ["spark-0", "spark-1", "spark-2", "spark-3"].map String.toList
  fabricArray := []
  checkpointLockPath := []
  sidecarLockPath := []

/-- The last host gives this answer, and no other has the container. -/
def lastHost (inspection : Inspection) : Remote where
  inspection index := if index = 3 then inspection else .noSuchContainer
  stops _ := false

theorem lastHost_refuses {cluster : Cluster} {run : Text} {inspection : Inspection} {strict : Bool}
    (hinspection : ∀ state, inspection = .found state → isExact cluster run state = true ∧ strict = false)
    (index : ℕ) : ¬ (lastHost inspection).Refuses cluster run index strict := by
  have hanswer : ∀ state, (lastHost inspection).inspection index = .found state →
      index = 3 ∧ inspection = .found state := by
    intro state hstate
    change (if index = 3 then inspection else .noSuchContainer) = _ at hstate
    split_ifs at hstate with hindex
    exact ⟨hindex, hstate⟩
  rintro (⟨state, hstate, hother⟩ | ⟨⟨state, hstate, -⟩, -, hreported⟩)
  · rw [(hinspection state (hanswer state hstate).2).1] at hother
    cases hother
  · obtain ⟨rfl, hfound⟩ := hanswer state hstate
    rw [(hinspection state hfound).2] at hreported
    simp at hreported

end ChampionRuntime.Launch
