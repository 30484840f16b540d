import ChampionRuntime.Launch.LockDiscipline

/-!
# Runs of the fleet scripts

A run is a timeline of actions and their replies, with the end of the lock session
anywhere between them. Runs of several controllers interleave on the receipts of one
host.
-/
namespace ChampionRuntime.Launch

open Lib

inductive Event
  | did (action : Action) (reply : Reply)
  /-- the lock session ends -/
  | died
  deriving DecidableEq

namespace Event

def isEntry : Event → Bool
  | .did (.passive (.enter _)) _ => true
  | _ => false

def isAssertion : Event → Bool
  | .did (.passive (.probe .assertHeld)) reply => reply.ok
  | _ => false

def isConsumption : Event → Bool
  | .did (.receipt ..) reply => reply.consumed
  | _ => false

def watch (w : Watch) : Event → Watch
  | .did action reply => w.next action reply
  | .died => w

def performed : Event → Option (Action × Reply)
  | .did action reply => some (action, reply)
  | .died => none

end Event

def Action.changedHost : Action → Option ℕ
  | .change index _ => some index
  | .compact index => some index
  | _ => none

/-- A run of a script up to some point. The lock is not found to be held behind the
end of its session. -/
structure Timeline (x : Sh Unit) (vars : Vars) (events : List Event) : Prop where
  run : Script.Run (x vars) (events.filterMap Event.performed)
  honest : ∀ earlier later, events = earlier ++ .died :: later →
    ∀ e ∈ later, e.isAssertion = false

/-- Since the script came to this host it has asserted the lock and come to no other. -/
def AssertedAt (index : ℕ) (events : List Event) : Prop :=
  ∃ earlier reply later, events = earlier ++ .did (.passive (.enter index)) reply :: later ∧
    (∀ e ∈ later, e.isEntry = false) ∧ ∃ e ∈ later, e.isAssertion = true

/-- What the lock and the receipt are for. -/
structure Disciplined (events : List Event) : Prop where
  asserted : ∀ earlier action reply later index,
    events = earlier ++ .did action reply :: later → action.changedHost = some index →
    AssertedAt index earlier
  afterDeath : ∀ earlier between action reply later index,
    events = earlier ++ .died :: (between ++ .did action reply :: later) →
    action.changedHost = some index → ∀ e ∈ between, e.isEntry = false
  consumedFirst : ∀ earlier index reply later,
    events = earlier ++ .did (.compact index) reply :: later →
    ∃ e ∈ earlier, e.isConsumption = true

def watchOf (events : List Event) : Watch := events.foldl Event.watch Watch.start

theorem watchOf_concat (events : List Event) (e : Event) :
    watchOf (events ++ [e]) = e.watch (watchOf events) := by
  simp [watchOf]

theorem watchOf_eq_after (hashes : Text → Prop) (profile : Text) (events : List Event) :
    watchOf events = (discipline hashes profile).after Watch.start (events.filterMap Event.performed) := by
  induction events using List.reverseRecOn with
  | nil => rfl
  | append_singleton events e ih =>
    rw [watchOf_concat, ih, List.filterMap_append, Monitor.after_append]
    cases e <;> rfl

theorem watch_index_held (w : Watch) (e : Event) :
    (∃ index reply, e = .did (.passive (.enter index)) reply ∧ (e.watch w).index = some index ∧
      (e.watch w).held = false) ∨
    (e.isEntry = false ∧ (e.watch w).index = w.index ∧
      (e.watch w).held = (w.held || e.isAssertion)) := by
  cases e with
  | died => simp [Event.isEntry, Event.isAssertion, Event.watch]
  | did action reply =>
    cases action with
    | passive action =>
      cases action with
      | enter index => exact .inl ⟨index, reply, rfl, rfl, rfl⟩
      | probe p =>
        refine .inr ?_
        cases p with
        | run program =>
          cases program with
          | allocatorContract canonical =>
            cases h : reply.ok <;> simp [Event.isEntry, Event.isAssertion, Event.watch, Watch.next, h]
          | _ => simp [Event.isEntry, Event.isAssertion, Event.watch, Watch.next]
        | _ => simp [Event.isEntry, Event.isAssertion, Event.watch, Watch.next]
    | _ => simp [Event.isEntry, Event.isAssertion, Event.watch, Watch.next]

/-- Where the watch is at a host, the script came to it and to no other since. -/
theorem entry_of_watchOf {index : ℕ} {events : List Event}
    (h : (watchOf events).index = some index) :
    ∃ earlier reply later, events = earlier ++ .did (.passive (.enter index)) reply :: later ∧
      (∀ e ∈ later, e.isEntry = false) ∧
      ((watchOf events).held = true → ∃ e ∈ later, e.isAssertion = true) := by
  induction events using List.reverseRecOn with
  | nil => simp [watchOf, Watch.start] at h
  | append_singleton events e ih =>
    rw [watchOf_concat] at h ⊢
    rcases watch_index_held (watchOf events) e with ⟨i, reply, rfl, hi, hheld⟩ | ⟨he, hi, hheld⟩
    · obtain rfl : i = index := Option.some.inj (hi.symm.trans h)
      exact ⟨events, reply, [], by simp, by simp, by simp [hheld]⟩
    · obtain ⟨earlier, reply, later, rfl, hlater, hassert⟩ := ih (hi.symm.trans h)
      refine ⟨earlier, reply, later ++ [e], by simp, ?_, fun htrue => ?_⟩
      · intro e' he'
        rcases List.mem_append.mp he' with he' | he'
        · exact hlater e' he'
        · rwa [List.mem_singleton.mp he']
      · rw [hheld, Bool.or_eq_true] at htrue
        rcases htrue with htrue | htrue
        · obtain ⟨e', he', hok⟩ := hassert htrue
          exact ⟨e', by simp [he'], hok⟩
        · exact ⟨e, by simp, htrue⟩

theorem assertedAt_of_armed {index : ℕ} {events : List Event} (h : (watchOf events).Armed index) :
    AssertedAt index events := by
  obtain ⟨earlier, reply, later, hevents, hlater, hassert⟩ := entry_of_watchOf h.1
  exact ⟨earlier, reply, later, hevents, hlater, hassert h.2⟩

theorem watch_consumed (w : Watch) (e : Event) :
    (e.watch w).consumed = (w.consumed || e.isConsumption) := by
  cases e with
  | died => simp [Event.watch, Event.isConsumption]
  | did action reply =>
    simp only [Event.watch, Watch.next]
    split <;> simp_all [Event.isConsumption]
    split <;> rfl

theorem consumption_of_watchOf {events : List Event} (h : (watchOf events).consumed = true) :
    ∃ e ∈ events, e.isConsumption = true := by
  induction events using List.reverseRecOn with
  | nil => simp [watchOf, Watch.start] at h
  | append_singleton events e ih =>
    rw [watchOf_concat, watch_consumed, Bool.or_eq_true] at h
    rcases h with h | h
    · obtain ⟨e', he', hconsumed⟩ := ih h
      exact ⟨e', by simp [he'], hconsumed⟩
    · exact ⟨e, by simp, h⟩

section Allowed

variable {x : Sh Unit} {vars : Vars} {events : List Event} {hashes : Text → Prop} {profile : Text}
  {P : Vars → Watch → Prop} {Q : Unit → Vars → Watch → Prop} {E : Vars → Watch → Prop}

theorem allowed_of_run (hrun : Script.Run (x vars) (events.filterMap Event.performed))
    (hx : Routine.Triple (discipline hashes profile) P x Q E) (hP : P vars Watch.start)
    {earlier later : List Event} {action : Action} {reply : Reply}
    (hevents : events = earlier ++ .did action reply :: later) :
    (watchOf earlier).Allowed hashes profile action := by
  have haccepts : (discipline hashes profile).Accepts Watch.start (events.filterMap Event.performed) :=
    (hx vars Watch.start hP).accepts hrun
  rw [hevents, List.filterMap_append] at haccepts
  rw [watchOf_eq_after hashes profile]
  exact haccepts.allowed

theorem subset_of_entry {earlier earlier' later later' : List Event} {e entry : Event}
    (hevents : earlier ++ e :: later = earlier' ++ entry :: later')
    (hlater' : ∀ e ∈ later', e.isEntry = false) (hlater : ∃ e ∈ later, e.isEntry = true) :
    later' ⊆ later := by
  obtain ⟨e', he', hentry⟩ := hlater
  rcases List.append_eq_append_iff.mp hevents with ⟨middle, rfl, hmiddle⟩ | ⟨middle, rfl, hmiddle⟩
  · cases middle with
    | nil =>
      obtain ⟨-, rfl⟩ := List.cons.inj hmiddle
      exact List.Subset.refl _
    | cons x middle =>
      obtain ⟨-, rfl⟩ := List.cons.inj hmiddle
      exact fun y hy => by simp [hy]
  · cases middle with
    | nil =>
      obtain ⟨-, rfl⟩ := List.cons.inj hmiddle
      exact List.Subset.refl _
    | cons x middle =>
      obtain ⟨-, rfl⟩ := List.cons.inj hmiddle
      exact absurd hentry (by simp [hlater' e' (by simp [he'])])

theorem Timeline.disciplined (hrun : Timeline x vars events)
    (hx : Routine.Triple (discipline hashes profile) P x Q E) (hP : P vars Watch.start) :
    Disciplined events := by
  have hasserted {earlier later : List Event} {action : Action} {reply : Reply} {index : ℕ}
      (hevents : events = earlier ++ .did action reply :: later)
      (hindex : action.changedHost = some index) : AssertedAt index earlier := by
    have hallowed := allowed_of_run hrun.run hx hP hevents
    cases action with
    | change i change =>
      obtain rfl := Option.some.inj hindex
      exact assertedAt_of_armed hallowed
    | compact i =>
      obtain rfl := Option.some.inj hindex
      exact assertedAt_of_armed hallowed.1
    | _ => simp [Action.changedHost] at hindex
  refine ⟨fun earlier action reply later index => hasserted, ?_, ?_⟩
  · intro earlier between action reply later index hevents hindex e he
    have hevents' : events = (earlier ++ .died :: between) ++ .did action reply :: later := by
      simp [hevents]
    obtain ⟨earlier', entered, later', hsplit, hnone, assertion, hmem, hok⟩ :=
      hasserted hevents' hindex
    by_contra hentry
    have hbetween := subset_of_entry hsplit hnone ⟨e, he, by simpa using hentry⟩ hmem
    have hdead := hrun.honest earlier _ hevents assertion (by simp [hbetween])
    exact absurd hok (by simp [hdead])
  · intro earlier index reply later hevents
    exact consumption_of_watchOf (allowed_of_run hrun.run hx hP hevents).2.1

end Allowed

/-- The directories of the receipts on the first host, by their root and the hash. -/
abbrev Receipts := List (Text × Text)

structure Delivery where
  /-- the command reaches the host -/
  arrives : Bool
  /-- the root of the receipts can be made and gets its mode -/
  rootReady : Bool
  /-- nothing but an earlier receipt hinders the `mkdir` of the receipt -/
  makes : Bool
  /-- the file in the receipt is written -/
  writes : Bool
  /-- the status comes back -/
  returns : Bool
  noise : Text

def Delivery.answer (delivery : Delivery) (code : ℕ) (text : String) : Reply :=
  if delivery.returns then ⟨code, delivery.noise ++ text.toList⟩ else ⟨255, delivery.noise⟩

/-- The command of `fleet_consume_compaction_nonce_hash` on the host. -/
def receiptCommand (delivery : Delivery) (receipts : Receipts) (key : Text × Text) :
    Reply × Receipts :=
  if !delivery.arrives then (⟨255, delivery.noise⟩, receipts)
  else if !delivery.rootReady then (delivery.answer 70 "", receipts)
  else if receipts.contains key || !delivery.makes then
    (delivery.answer 74 "CHAMPION_COMPACTION_RECEIPT_REPLAY", receipts)
  else if !delivery.writes then (delivery.answer 70 "", key :: receipts)
  else (delivery.answer 0 "CHAMPION_COMPACTION_RECEIPT_CONSUMED", key :: receipts)

theorem Delivery.answer_not_consumed (delivery : Delivery) {code : ℕ} (hcode : code ≠ 0)
    (text : String) : (delivery.answer code text).consumed = false := by
  unfold Delivery.answer
  split <;> simp [Reply.consumed, Reply.ok, hcode]

theorem receiptCommand_cases (delivery : Delivery) (receipts : Receipts) (key : Text × Text) :
    let outcome := receiptCommand delivery receipts key
    receipts ⊆ outcome.2 ∧
      (outcome.1.consumed = true → key ∉ receipts ∧ key ∈ outcome.2) := by
  unfold receiptCommand
  split
  · simp [Reply.consumed, Reply.ok]
  split
  · simp [delivery.answer_not_consumed]
  split
  · simp [delivery.answer_not_consumed]
  split
  · simp [delivery.answer_not_consumed]
  · simp_all

/-- The receipts behind an action with this reply. -/
def Answers (receipts : Receipts) (reply : Reply) (receipts' : Receipts) : Action → Prop
  | .receipt root nonceHash _ =>
    ∃ delivery, receiptCommand delivery receipts (root, nonceHash) = (reply, receipts')
  | _ => receipts' = receipts

section Interleaving

variable {ι : Type} [DecidableEq ι]

/-- Runs of several scripts in any order of their actions. -/
inductive Interleaving {α : Type} :
    (ι → Script Action Reply α) → Receipts → List (ι × Action × Reply) → Prop
  | start (scripts : ι → Script Action Reply α) (receipts : Receipts) :
      Interleaving scripts receipts []
  | step {scripts : ι → Script Action Reply α} {receipts receipts' : Receipts} {i : ι}
      {action : Action} {next : Reply → Script Action Reply α} {reply : Reply}
      {history : List (ι × Action × Reply)} (hscript : scripts i = .perform action next)
      (hanswer : Answers receipts reply receipts' action)
      (hrest : Interleaving (Function.update scripts i (next reply)) receipts' history) :
      Interleaving scripts receipts ((i, action, reply) :: history)

def ofController (i : ι) (history : List (ι × Action × Reply)) : List (Action × Reply) :=
  history.filterMap fun e => if e.1 = i then some e.2 else none

theorem Interleaving.run {α : Type} {scripts : ι → Script Action Reply α} {receipts : Receipts}
    {history : List (ι × Action × Reply)} (h : Interleaving scripts receipts history) (i : ι) :
    Script.Run (scripts i) (ofController i history) := by
  induction h with
  | start => exact .start _
  | @step scripts _ _ j action next reply history hscript _ _ ih =>
    by_cases hij : j = i
    · subst hij
      rw [Function.update_self] at ih
      simpa [ofController, hscript] using ih.step
    · rw [Function.update_of_ne (Ne.symm hij)] at ih
      simpa [ofController, hij] using ih

/-- The receipts that the controllers saw written. -/
def consumptions (history : List (ι × Action × Reply)) : List (Text × Text) :=
  history.filterMap fun e =>
    match e.2 with
    | (.receipt root nonceHash _, reply) => if reply.consumed then some (root, nonceHash) else none
    | _ => none

theorem Interleaving.consumptions_nodup {α : Type} {scripts : ι → Script Action Reply α}
    {receipts : Receipts} {history : List (ι × Action × Reply)}
    (h : Interleaving scripts receipts history) :
    (consumptions history).Nodup ∧ ∀ key ∈ consumptions history, key ∉ receipts := by
  induction h with
  | start => simp [consumptions]
  | @step scripts receipts receipts' i action next reply history _ hanswer _ ih =>
    have hkeep {key : Text × Text} (hsubset : receipts ⊆ receipts')
        (hkey : key ∈ consumptions history) : key ∉ receipts :=
      fun hmem => ih.2 key hkey (hsubset hmem)
    cases action with
    | receipt root nonceHash runHash =>
      obtain ⟨delivery, hdelivery⟩ := hanswer
      have hcases := receiptCommand_cases delivery receipts (root, nonceHash)
      rw [hdelivery] at hcases
      cases hconsumed : reply.consumed with
      | false =>
        have hnone : consumptions ((i, .receipt root nonceHash runHash, reply) :: history) =
            consumptions history := by
          simp [consumptions, hconsumed]
        rw [hnone]
        exact ⟨ih.1, fun key hkey => hkeep hcases.1 hkey⟩
      | true =>
        obtain ⟨hfresh, hmade⟩ := hcases.2 hconsumed
        have hrest : (root, nonceHash) ∉ consumptions history := fun hmem => ih.2 _ hmem hmade
        have hcons : consumptions ((i, .receipt root nonceHash runHash, reply) :: history) =
            (root, nonceHash) :: consumptions history := by
          simp [consumptions, hconsumed]
        rw [hcons]
        exact ⟨List.nodup_cons.mpr ⟨hrest, ih.1⟩,
          List.forall_mem_cons.mpr ⟨hfresh, fun key hkey => hkeep hcases.1 hkey⟩⟩
    | _ =>
      obtain rfl : receipts' = receipts := hanswer
      exact ih

end Interleaving

/-- In every run of the launch and of the staging, a host is changed only behind an
assertion of the lock in the same round, nothing is changed in the rounds behind the
end of the session, and the memory is compacted only behind a receipt. Over all runs
on the same receipts, no receipt is written twice. -/
theorem lock_and_nonce_discipline :
    (∀ (launch : Launcher) (vars : Vars) (events : List Event),
      Timeline launch.main vars events → Disciplined events) ∧
    (∀ (cluster : Cluster) (vars : Vars) (events : List Event),
      Timeline (stageImageMain cluster) vars events → Disciplined events) ∧
    (∀ (ι : Type) [DecidableEq ι] (launches : ι → Launcher) (vars : ι → Vars) (receipts : Receipts)
      (history : List (ι × Action × Reply)),
      Interleaving (fun i => (launches i).main (vars i)) receipts history →
      (∀ i, Script.Run ((launches i).main (vars i)) (ofController i history)) ∧
        (consumptions history).Nodup ∧ ∀ key ∈ consumptions history, key ∉ receipts) := by
  refine ⟨fun launch vars events hrun => ?_, fun cluster vars events hrun => ?_, ?_⟩
  · have hmain : Routine.Triple (discipline (fun _ => True) launch.profile)
        (fun v _ => v.lockPid = vars.lockPid) launch.main (fun _ _ _ => True) fun _ _ => True :=
      main_respects launch fun _ => trivial
    exact hrun.disciplined hmain rfl
  · have hkeeps : Keeps (fun _ => False) [] (fun _ => True) (stageImageMain cluster) :=
      stageImageMain_keeps Watch.stable_true cluster
    exact hrun.disciplined hkeeps trivial
  · intro ι _ launches vars receipts history hruns
    exact ⟨fun i => hruns.run i, hruns.consumptions_nodup⟩

end ChampionRuntime.Launch
