import ChampionRuntime.Scheduler.Engine

/-!
# How many long prefills a step runs

The long-prefill gate stands in the loop over the running queue. The loop over the
waiting queues does not apply it.
-/
namespace ChampionRuntime.Scheduler

open Lib

variable {σ : Type} {cfg : Config} {svc : Services σ} {throttlePrefills : Bool}
  {s s' : State σ} {out : SchedulerOutput}

/-- The long prefills among these that a step gives tokens. -/
def longPrefillsAmong (cfg : Config) (s : State σ) (out : SchedulerOutput)
    (ids : List RequestId) : List RequestId :=
  ids.filter fun id => isLongPrefillRequest cfg (s.request id) ∧
    (out.numScheduledTokens.get? id).isSome

theorem beginStep_selected (throttlePrefills : Bool) (s : State σ) :
    (beginStep cfg throttlePrefills s).1.selectedLongPrefillIds.length ≤
      cfg.maxLongPrefillsPerStep :=
  State.length_selected_le cfg _

theorem StepPasses.running_long_selected {p q : Pass σ}
    (h : StepPasses cfg svc throttlePrefills s p q out s')
    (haware : cfg.enableDecodeAwarePrefill = true) :
    longPrefillsAmong cfg s out s.running ⊆
      (beginStep cfg throttlePrefills s).1.selectedLongPrefillIds := by
  intro id hid
  simp only [longPrefillsAmong, List.mem_filter, decide_eq_true_eq] at hid
  obtain ⟨hrunning, hlong, hscheduled⟩ := hid
  obtain ⟨n, hn⟩ := Option.isSome_iff_exists.mp hscheduled
  rw [h.tokens] at hn
  exact h.waiting.done.ungated haware id hrunning n hn hlong

/-- Two prompts above the threshold, one turn. -/
def oneTurn : Config where
  maxNumRunningReqs := 4
  maxNumScheduledTokens := 100
  maxModelLen := 1000
  longPrefillTokenThreshold := 4
  enableDecodeAwarePrefill := true

def prompt (numPromptTokens : ℕ) : Request where
  numPromptTokens
  maxTokens := 16

def emptyState (answers : List Bool) : State (List Bool) where
  request _ := prompt 0
  services := answers

theorem emptyState_initial (answers : List Bool) : (emptyState answers).Initial :=
  ⟨rfl, rfl, rfl, rfl, rfl, fun _ => rfl⟩

/-- A model runner that samples the same tokens for every request. -/
def sampling (tokens : List ℤ) : ModelRunnerOutput where
  sampledTokenIds _ := some tokens

end ChampionRuntime.Scheduler
