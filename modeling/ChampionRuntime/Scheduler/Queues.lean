import ChampionRuntime.Scheduler.RunningQueue

/-!
# The invariant of the queues

Every request stands in one queue at most, the running ones run and the queued ones
wait.
-/
namespace ChampionRuntime.Scheduler

open Lib

variable {σ : Type}

/-- A request that waits for its admission. -/
structure Request.Queued (r : Request) : Prop where
  not_running : r.status ≠ .running
  not_finished : r.status.isFinished = false

/-- The queued requests; `aside` are those put aside for a step. -/
def State.queued (s : State σ) (aside : List RequestId) : List RequestId :=
  s.waiting ++ s.skippedWaiting ++ aside

/-- The queues and the requests in them fit together. -/
structure WellQueued (aside : List RequestId) (s : State σ) : Prop where
  nodup : (s.running ++ s.queued aside).Nodup
  registered : ∀ id ∈ s.running ++ s.queued aside, id ∈ s.requests
  running : ∀ id ∈ s.running, (s.request id).status = .running
  queued : ∀ id ∈ s.queued aside, (s.request id).Queued

namespace WellQueued

variable {aside aside' : List RequestId} {s s' : State σ}

theorem not_mem_queued (h : WellQueued aside s) {id : RequestId} (hid : id ∈ s.running) :
    id ∉ s.queued aside :=
  fun hqueued => (List.disjoint_of_nodup_append h.nodup) hid hqueued

theorem nodup_running (h : WellQueued aside s) : s.running.Nodup := h.nodup.of_append_left

theorem move (h : WellQueued aside s)
    (hmoved : (s'.running ++ s'.queued aside').Subperm (s.running ++ s.queued aside))
    (hrequests : ∀ id ∈ s'.running ++ s'.queued aside', id ∈ s.requests → id ∈ s'.requests)
    (hrunning : ∀ id ∈ s'.running, (s'.request id).status = .running)
    (hqueued : ∀ id ∈ s'.queued aside', (s'.request id).Queued) : WellQueued aside' s' where
  nodup := by
    obtain ⟨l, hperm, hsub⟩ := hmoved
    exact hperm.nodup_iff.mp (h.nodup.sublist hsub)
  registered id hid := hrequests id hid (h.registered id (hmoved.subset hid))
  running := hrunning
  queued := hqueued

theorem stay (h : WellQueued aside s) (hrunning : s'.running = s.running)
    (hwaiting : s'.waiting = s.waiting) (hskipped : s'.skippedWaiting = s.skippedWaiting)
    (hrequests : ∀ id ∈ s.requests, id ∈ s'.requests)
    (hrun : ∀ id ∈ s.running, (s'.request id).status = .running)
    (hqueued : ∀ id ∈ s.queued aside, (s'.request id).Queued) : WellQueued aside s' := by
  have hqueues : s'.queued aside = s.queued aside := by
    unfold State.queued
    rw [hwaiting, hskipped]
  apply h.move
  · rw [hrunning, hqueues]
  · intro id _ hid
    exact hrequests id hid
  · rwa [hrunning]
  · rwa [hqueues]

end WellQueued

section Lists

variable {α : Type} [DecidableEq α]

theorem mem_take_erase {l : List α} {a v : α} {k : ℕ} (ha : a ∈ l.take k) (hne : a ≠ v) :
    a ∈ (l.erase v).take k := by
  induction l generalizing k with
  | nil => simp at ha
  | cons x l ih =>
    cases k with
    | zero => simp at ha
    | succ k =>
      rw [List.take_succ_cons, List.mem_cons] at ha
      by_cases hx : x = v
      · rw [hx, List.erase_cons_head]
        apply List.take_subset_take_left l (Nat.le_succ k)
        rcases ha with ha | ha
        · exact absurd (ha.trans hx) hne
        · exact ha
      · rw [List.erase_cons_tail (by simpa using hx), List.take_succ_cons, List.mem_cons]
        exact ha.imp id ih

theorem mem_take_pred_erase {l : List α} {a v : α} {k : ℕ} (hv : v ∈ l.take k)
    (ha : a ∈ l.take k) (hne : a ≠ v) : a ∈ (l.erase v).take (k - 1) := by
  induction l generalizing k with
  | nil => simp at ha
  | cons x l ih =>
    cases k with
    | zero => simp at ha
    | succ k =>
      rw [List.take_succ_cons, List.mem_cons] at ha hv
      rw [Nat.add_sub_cancel]
      by_cases hx : x = v
      · rw [hx, List.erase_cons_head]
        rcases ha with ha | ha
        · exact absurd (ha.trans hx) hne
        · exact ha
      · have hvl : v ∈ l.take k := by
          rcases hv with hv | hv
          · exact absurd hv.symm hx
          · exact hv
        have hk : k = k - 1 + 1 := by
          cases k with
          | zero => simp at hvl
          | succ k => rfl
        rw [List.erase_cons_tail (by simpa using hx), hk, List.take_succ_cons, List.mem_cons]
        exact ha.imp id (ih hvl)

theorem dropLast_eq_erase {l : List α} (hnd : l.Nodup) {v : α} (hlast : l.getLast? = some v) :
    l.dropLast = l.erase v := by
  obtain ⟨before, rfl⟩ := List.getLast?_eq_some_iff.mp hlast
  have hv : v ∉ before := by
    intro hmem
    exact (List.disjoint_of_nodup_append hnd) hmem (List.mem_singleton_self v)
  rw [List.dropLast_concat, List.erase_append_right _ hv]
  simp

omit [DecidableEq α] in
theorem mem_drop_dropLast {l : List α} {a v : α} {k : ℕ} (hlast : l.getLast? = some v)
    (ha : a ∈ l.drop k) (hne : a ≠ v) : a ∈ l.dropLast.drop k := by
  obtain ⟨before, rfl⟩ := List.getLast?_eq_some_iff.mp hlast
  rw [List.dropLast_concat]
  rw [List.drop_append, List.mem_append] at ha
  rcases ha with ha | ha
  · exact ha
  · have hv : a = v := by simpa using List.mem_of_mem_drop ha
    exact absurd hv hne

end Lists

end ChampionRuntime.Scheduler
