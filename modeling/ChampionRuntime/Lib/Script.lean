import Mathlib.Data.List.Basic
import Mathlib.Tactic

/-!
# Scripts that wait for replies

A script performs actions one by one and goes on with the reply to each. A monitor
follows the actions and says which of them its state allows; a script that is safe
for a monitor is so under all replies. A routine is a script with variables that may
fail, with the triples of its constructs.
-/
namespace ChampionRuntime.Lib

/-- A program that waits for the reply to each of its actions. -/
inductive Script (A R α : Type)
  | done (result : α)
  | perform (action : A) (next : R → Script A R α)

variable {A B R α β σ ε ι : Type}

namespace Script

def bind : Script A R α → (α → Script A R β) → Script A R β
  | .done a, f => f a
  | .perform action next, f => .perform action fun reply => (next reply).bind f

def mapAction (g : B → A) : Script B R α → Script A R α
  | .done a => .done a
  | .perform action next => .perform (g action) fun reply => (next reply).mapAction g

/-- The actions and replies of a run up to some point. -/
inductive Run : Script A R α → List (A × R) → Prop
  | start (script : Script A R α) : Run script []
  | step {action : A} {next : R → Script A R α} {reply : R} {trace : List (A × R)}
      (rest : Run (next reply) trace) : Run (.perform action next) ((action, reply) :: trace)

/-- The run in which every action gets the given reply. -/
def follow (answer : A → R) : Script A R α → List (A × R) × α
  | .done a => ([], a)
  | .perform action next =>
    let rest := (next (answer action)).follow answer
    ((action, answer action) :: rest.1, rest.2)

theorem follow_run (answer : A → R) (script : Script A R α) : Run script (script.follow answer).1 := by
  induction script with
  | done a => exact .start _
  | perform action next ih => exact .step (ih (answer action))

/-- A run to the end, and what it ends with. -/
inductive Completes : Script A R α → List (A × R) → α → Prop
  | done (a : α) : Completes (.done a) [] a
  | step {action : A} {next : R → Script A R α} {reply : R} {trace : List (A × R)} {a : α}
      (rest : Completes (next reply) trace a) :
      Completes (.perform action next) ((action, reply) :: trace) a

theorem Completes.run {script : Script A R α} {trace : List (A × R)} {a : α}
    (h : Completes script trace a) : Run script trace := by
  induction h with
  | done a => exact .start _
  | step _ ih => exact .step ih

theorem follow_completes (answer : A → R) (script : Script A R α) :
    Completes script (script.follow answer).1 (script.follow answer).2 := by
  induction script with
  | done a => exact .done a
  | perform action next ih => exact .step (ih (answer action))

theorem follow_reply (answer : A → R) (script : Script A R α) {e : A × R}
    (he : e ∈ (script.follow answer).1) : e.2 = answer e.1 := by
  induction script with
  | done a => cases he
  | perform action next ih =>
    rcases List.mem_cons.mp he with rfl | he
    · rfl
    · exact ih _ he

theorem follow_bind (answer : A → R) (script : Script A R α) (f : α → Script A R β) :
    (script.bind f).follow answer = ((script.follow answer).1 ++
      ((f (script.follow answer).2).follow answer).1,
      ((f (script.follow answer).2).follow answer).2) := by
  induction script with
  | done a => rfl
  | perform action next ih => simp [bind, follow, ih]

theorem follow_mapAction (answer : A → R) (g : B → A) (script : Script B R α) :
    ((script.mapAction g).follow answer).2 = (script.follow fun action => answer (g action)).2 := by
  induction script with
  | done a => rfl
  | perform action next ih => exact ih (answer (g action))

end Script

/-- An observer of actions and their replies. -/
structure Monitor (A R : Type) where
  State : Type
  next : State → A → R → State
  Allowed : State → A → Prop

namespace Monitor

variable (monitor : Monitor A R)

def after (m : monitor.State) (trace : List (A × R)) : monitor.State :=
  trace.foldl (fun m e => monitor.next m e.1 e.2) m

theorem after_append (m : monitor.State) (earlier later : List (A × R)) :
    monitor.after m (earlier ++ later) = monitor.after (monitor.after m earlier) later :=
  List.foldl_append

/-- Every action is allowed when it is performed. -/
def Accepts : monitor.State → List (A × R) → Prop
  | _, [] => True
  | m, (action, reply) :: trace =>
    monitor.Allowed m action ∧ Accepts (monitor.next m action reply) trace

variable {monitor}

theorem Accepts.allowed {m : monitor.State} {earlier later : List (A × R)} {action : A} {reply : R}
    (h : monitor.Accepts m (earlier ++ (action, reply) :: later)) :
    monitor.Allowed (monitor.after m earlier) action := by
  induction earlier generalizing m with
  | nil => exact h.1
  | cons e earlier ih => exact ih h.2

/-- A monitor that keeps everything done so far. -/
abbrev recorder (Allowed : List (A × R) → A → Prop) : Monitor A R where
  State := List (A × R)
  next trace action reply := trace ++ [(action, reply)]
  Allowed := Allowed

theorem after_recorder {Allowed : List (A × R) → A → Prop} (earlier trace : List (A × R)) :
    (recorder Allowed).after earlier trace = earlier ++ trace := by
  induction trace generalizing earlier with
  | nil => exact (List.append_nil earlier).symm
  | cons e trace ih =>
    change (recorder Allowed).after (earlier ++ [e]) trace = _
    rw [ih, List.append_assoc, List.singleton_append]

/-- The monitor of actions under other names. -/
abbrev comap (g : B → A) (monitor : Monitor A R) : Monitor B R where
  State := monitor.State
  next m action := monitor.next m (g action)
  Allowed m action := monitor.Allowed m (g action)

end Monitor

namespace Script

/-- Under all replies, only allowed actions are performed, and what a run ends with
satisfies the condition. -/
def Safe (monitor : Monitor A R) : Script A R α → monitor.State → (α → monitor.State → Prop) → Prop
  | .done a, m, Q => Q a m
  | .perform action next, m, Q =>
    monitor.Allowed m action ∧ ∀ reply, (next reply).Safe monitor (monitor.next m action reply) Q

variable {monitor : Monitor A R}

theorem Safe.mono {script : Script A R α} {m : monitor.State} {Q Q' : α → monitor.State → Prop}
    (h : script.Safe monitor m Q) (hQ : ∀ a m', Q a m' → Q' a m') : script.Safe monitor m Q' := by
  induction script generalizing m with
  | done a => exact hQ a m h
  | perform action next ih => exact ⟨h.1, fun reply => ih reply (h.2 reply)⟩

theorem Safe.bind {script : Script A R α} {f : α → Script A R β} {m : monitor.State}
    {Q : β → monitor.State → Prop}
    (h : script.Safe monitor m fun a m' => (f a).Safe monitor m' Q) :
    (script.bind f).Safe monitor m Q := by
  induction script generalizing m with
  | done a => exact h
  | perform action next ih => exact ⟨h.1, fun reply => ih reply (h.2 reply)⟩

theorem Safe.accepts {script : Script A R α} {m : monitor.State} {Q : α → monitor.State → Prop}
    (h : script.Safe monitor m Q) {trace : List (A × R)} (hrun : Run script trace) :
    monitor.Accepts m trace := by
  induction hrun generalizing m with
  | start => exact trivial
  | step _ ih => exact ⟨h.1, ih (h.2 _)⟩

theorem Safe.completes {script : Script A R α} {m : monitor.State} {Q : α → monitor.State → Prop}
    (h : script.Safe monitor m Q) {trace : List (A × R)} {a : α} (hrun : Completes script trace a) :
    Q a (monitor.after m trace) := by
  induction hrun generalizing m with
  | done a => exact h
  | step _ ih => exact ih (h.2 _)

theorem safe_of_invariant {I : monitor.State → Prop} (hallowed : ∀ m action, I m → monitor.Allowed m action)
    (hnext : ∀ m action reply, I m → I (monitor.next m action reply)) (script : Script A R α)
    {m : monitor.State} (hm : I m) : script.Safe monitor m fun _ m' => I m' := by
  induction script generalizing m with
  | done a => exact hm
  | perform action next ih =>
    exact ⟨hallowed m action hm, fun reply => ih reply (hnext m action reply hm)⟩

theorem Safe.mapAction {g : B → A} {script : Script B R α} {m : monitor.State}
    {Q : α → monitor.State → Prop} (h : script.Safe (monitor.comap g) m Q) :
    (script.mapAction g).Safe monitor m Q := by
  induction script generalizing m with
  | done a => exact h
  | perform action next ih => exact ⟨h.1, fun reply => ih reply (h.2 reply)⟩

end Script

/-- A script over variables that may fail. -/
def Routine (A R σ ε α : Type) := σ → Script A R (Except ε α × σ)

namespace Routine

protected def pure (a : α) : Routine A R σ ε α := fun vars => .done (.ok a, vars)

protected def bind (x : Routine A R σ ε α) (f : α → Routine A R σ ε β) : Routine A R σ ε β :=
  fun vars => (x vars).bind fun result =>
    match result.1 with
    | .ok a => f a result.2
    | .error e => .done (.error e, result.2)

instance : Monad (Routine A R σ ε) where
  pure := Routine.pure
  bind := Routine.bind

def fail (e : ε) : Routine A R σ ε α := fun vars => .done (.error e, vars)

def perform (action : A) : Routine A R σ ε R := fun vars => .perform action fun r => .done (.ok r, vars)

def read (f : σ → α) : Routine A R σ ε α := fun vars => .done (.ok (f vars), vars)

def update (f : σ → σ) : Routine A R σ ε Unit := fun vars => .done (.ok (), f vars)

def attempt (x : Routine A R σ ε α) : Routine A R σ ε (Except ε α) :=
  fun vars => (x vars).bind fun result => .done (.ok result.1, result.2)

def mapAction (g : B → A) (x : Routine B R σ ε α) : Routine A R σ ε α :=
  fun vars => (x vars).mapAction g

/-- From the variables and states of `P`, the routine performs only allowed actions. It
returns with those of `Q` and fails with those of `E`. -/
def Triple (monitor : Monitor A R) (P : σ → monitor.State → Prop) (x : Routine A R σ ε α)
    (Q : α → σ → monitor.State → Prop) (E : σ → monitor.State → Prop) : Prop :=
  ∀ vars m, P vars m → (x vars).Safe monitor m fun result m' =>
    match result.1 with
    | .ok a => Q a result.2 m'
    | .error _ => E result.2 m'

namespace Triple

variable {monitor : Monitor A R} {P E : σ → monitor.State → Prop}
  {Q : α → σ → monitor.State → Prop}

theorem pure {a : α} (h : ∀ vars m, P vars m → Q a vars m) :
    Triple monitor P (Pure.pure a : Routine A R σ ε α) Q E := fun vars m hm => h vars m hm

theorem fail {e : ε} (h : ∀ vars m, P vars m → E vars m) :
    Triple monitor P (Routine.fail e : Routine A R σ ε α) Q E := fun vars m hm => h vars m hm

theorem read {f : σ → α} (h : ∀ vars m, P vars m → Q (f vars) vars m) :
    Triple monitor P (Routine.read f : Routine A R σ ε α) Q E := fun vars m hm => h vars m hm

theorem update {f : σ → σ} {Q : Unit → σ → monitor.State → Prop}
    (h : ∀ vars m, P vars m → Q () (f vars) m) :
    Triple monitor P (Routine.update f : Routine A R σ ε Unit) Q E := fun vars m hm => h vars m hm

theorem perform {action : A} {Q : R → σ → monitor.State → Prop}
    (hallowed : ∀ vars m, P vars m → monitor.Allowed m action)
    (hnext : ∀ vars m reply, P vars m → Q reply vars (monitor.next m action reply)) :
    Triple monitor P (Routine.perform action : Routine A R σ ε R) Q E :=
  fun vars m hm => ⟨hallowed vars m hm, fun reply => hnext vars m reply hm⟩

theorem bind {x : Routine A R σ ε α} {f : α → Routine A R σ ε β}
    {Q' : β → σ → monitor.State → Prop} (hx : Triple monitor P x Q E)
    (hf : ∀ a, Triple monitor (Q a) (f a) Q' E) : Triple monitor P (x >>= f) Q' E := by
  intro vars m hm
  refine Script.Safe.bind ((hx vars m hm).mono ?_)
  rintro ⟨result, vars'⟩ m' h
  cases result with
  | ok a => exact hf a vars' m' h
  | error e => exact h

theorem attempt {x : Routine A R σ ε α} {E' : σ → monitor.State → Prop}
    (hx : Triple monitor P x Q E') :
    Triple monitor P x.attempt
      (fun result vars m => match result with
        | .ok a => Q a vars m
        | .error _ => E' vars m) E := by
  intro vars m hm
  exact Script.Safe.bind ((hx vars m hm).mono fun result m' h => h)

theorem consequence {P' E' : σ → monitor.State → Prop} {Q' : α → σ → monitor.State → Prop}
    {x : Routine A R σ ε α} (hx : Triple monitor P x Q E) (hP : ∀ vars m, P' vars m → P vars m)
    (hQ : ∀ a vars m, Q a vars m → Q' a vars m) (hE : ∀ vars m, E vars m → E' vars m) :
    Triple monitor P' x Q' E' := by
  intro vars m hm
  refine (hx vars m (hP vars m hm)).mono ?_
  rintro ⟨result, vars'⟩ m' h
  cases result with
  | ok a => exact hQ a vars' m' h
  | error e => exact hE vars' m' h

theorem of_fact {fact : Prop} {x : Routine A R σ ε α} (hx : fact → Triple monitor P x Q E) :
    Triple monitor (fun vars m => fact ∧ P vars m) x Q E := fun vars m h => hx h.1 vars m h.2

theorem forM {I : σ → monitor.State → Prop} {xs : List ι} {f : ι → Routine A R σ ε PUnit}
    (hf : ∀ i ∈ xs, Triple monitor I (f i) (fun _ => I) E) :
    Triple monitor I (xs.forM f) (fun _ => I) E := by
  induction xs with
  | nil => exact pure fun _ _ hm => hm
  | cons i xs ih => exact (hf i (by simp)).bind fun _ => ih fun j hj => hf j (by simp [hj])

/-- What the rounds keep may depend on those that are done and on the accumulator. -/
theorem foldlM {I : List ι → β → σ → monitor.State → Prop} {xs : List ι}
    {f : β → ι → Routine A R σ ε β} {b : β}
    (hf : ∀ done i rest b, xs = done ++ i :: rest →
      Triple monitor (I done b) (f b i) (I (done ++ [i])) E) :
    Triple monitor (I [] b) (xs.foldlM f b) (I xs) E := by
  suffices hfrom : ∀ rest done b, xs = done ++ rest →
      Triple monitor (I done b) (rest.foldlM f b) (I xs) E from hfrom xs [] b rfl
  intro rest
  induction rest with
  | nil =>
    intro done b hxs
    rw [List.append_nil] at hxs
    subst hxs
    exact pure fun _ _ h => h
  | cons i rest ih =>
    intro done b hxs
    refine (hf done i rest b hxs).bind fun b' => ?_
    exact ih (done ++ [i]) b' (by simp [hxs])

theorem mapAction {g : B → A} {x : Routine B R σ ε α}
    (hx : Triple (monitor.comap g) P x Q E) : Triple monitor P (x.mapAction g) Q E :=
  fun vars m hm => (hx vars m hm).mapAction

theorem of_invariant {I : monitor.State → Prop} (hallowed : ∀ m action, I m → monitor.Allowed m action)
    (hnext : ∀ m action reply, I m → I (monitor.next m action reply)) (x : Routine A R σ ε α) :
    Triple monitor (fun _ => I) x (fun _ _ => I) fun _ => I := by
  intro vars m hm
  refine (Script.safe_of_invariant hallowed hnext (x vars) hm).mono ?_
  rintro ⟨result, vars'⟩ m' h
  cases result <;> exact h

end Triple

section Answers

variable (answer : A → R)

/-- What a routine ends with when every action gets the given reply. -/
def outcome (x : Routine A R σ ε α) (vars : σ) : Except ε α × σ := ((x vars).follow answer).2

def trace (x : Routine A R σ ε α) (vars : σ) : List (A × R) := ((x vars).follow answer).1

variable {answer} {x : Routine A R σ ε α} {f : α → Routine A R σ ε β} {vars vars' : σ}

@[simp] theorem outcome_pure (a : α) :
    (Pure.pure a : Routine A R σ ε α).outcome answer vars = (.ok a, vars) := rfl

@[simp] theorem outcome_fail (e : ε) :
    (Routine.fail e : Routine A R σ ε α).outcome answer vars = (.error e, vars) := rfl

@[simp] theorem outcome_perform (action : A) :
    (Routine.perform action : Routine A R σ ε R).outcome answer vars =
      (.ok (answer action), vars) := rfl

@[simp] theorem outcome_read (g : σ → α) :
    (Routine.read g : Routine A R σ ε α).outcome answer vars = (.ok (g vars), vars) := rfl

@[simp] theorem outcome_update (g : σ → σ) :
    (Routine.update g : Routine A R σ ε Unit).outcome answer vars = (.ok (), g vars) := rfl

@[simp] theorem outcome_bind : (x >>= f).outcome answer vars =
    match x.outcome answer vars with
    | (.ok a, vars') => (f a).outcome answer vars'
    | (.error e, vars') => (.error e, vars') := by
  change (((x vars).bind _).follow answer).2 = _
  rw [Script.follow_bind]
  unfold outcome
  rcases ((x vars).follow answer).2 with ⟨a | e, vars'⟩ <;> rfl

@[simp] theorem outcome_attempt : x.attempt.outcome answer vars =
    (.ok (x.outcome answer vars).1, (x.outcome answer vars).2) := by
  change (((x vars).bind _).follow answer).2 = _
  rw [Script.follow_bind]
  rfl

theorem trace_bind_left : x.trace answer vars ⊆ (x >>= f).trace answer vars := by
  change _ ⊆ (((x vars).bind _).follow answer).1
  rw [Script.follow_bind]
  exact List.subset_append_left _ _

theorem trace_bind_right {a : α} (hx : x.outcome answer vars = (.ok a, vars')) :
    (f a).trace answer vars' ⊆ (x >>= f).trace answer vars := by
  change _ ⊆ (((x vars).bind _).follow answer).1
  unfold outcome at hx
  rw [Script.follow_bind, hx]
  exact List.subset_append_right _ _

theorem trace_attempt : x.trace answer vars ⊆ x.attempt.trace answer vars := by
  change _ ⊆ (((x vars).bind _).follow answer).1
  rw [Script.follow_bind]
  exact List.subset_append_left _ _

@[simp] theorem outcome_mapAction (g : B → A) (y : Routine B R σ ε α) :
    (y.mapAction g).outcome answer vars = y.outcome (fun action => answer (g action)) vars := by
  unfold outcome Routine.mapAction
  rw [Script.follow_mapAction]

end Answers

end Routine

end ChampionRuntime.Lib
