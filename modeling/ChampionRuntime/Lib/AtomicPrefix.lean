import Mathlib.Data.List.Perm.Basic
import Mathlib.Data.List.ReduceOption
import Mathlib.Logic.Function.Basic
import Mathlib.Tactic

/-!
# Compaction by reserved ranges

Tiles of lanes write their active lanes to one row of cells. A tile takes a
range of cells with one atomic addition of its number of active lanes, and each
active lane stores at the range's start plus the number of active lanes before
it. Whatever order the tiles reserve in and however their stores interleave,
the row ends as the active lanes of the tiles, one tile after another.
-/
namespace ChampionRuntime.Lib.AtomicPrefix

variable {ι α : Type*} [DecidableEq ι]

/-- The exclusive prefix sum of the activity flags. -/
def offset (tile : List (Option α)) (lane : ℕ) : ℕ := (tile.take lane).reduceOption.length

inductive Event (ι : Type*) where
  | reserve (tile : ι)
  | store (tile : ι) (lane : ℕ)
  deriving DecidableEq

def Event.tile : Event ι → ι
  | reserve t => t
  | store t _ => t

structure State (ι α : Type*) where
  next : ℕ
  base : ι → Option ℕ
  out : ℕ → α

def State.init (fill : α) : State ι α := ⟨0, fun _ => none, fun _ => fill⟩

variable (lanes : ι → List (Option α))

def active (t : ι) : ℕ := (lanes t).reduceOption.length

def step (s : State ι α) : Event ι → State ι α
  | .reserve t =>
    { s with next := s.next + active lanes t, base := Function.update s.base t (some s.next) }
  | .store t lane =>
    match s.base t, (lanes t)[lane]? with
    | some start, some (some x) =>
      { s with out := Function.update s.out (start + offset (lanes t) lane) x }
    | _, _ => s

def run (events : List (Event ι)) (s : State ι α) : State ι α := events.foldl (step lanes) s

/-- Each tile runs its own program once, the reservation before its stores; the
stores of one tile come in any order, and so do the tiles. -/
structure Interleaves (tiles : List ι) (events : List (Event ι)) : Prop where
  tile_mem : ∀ e ∈ events, e.tile ∈ tiles
  program : ∀ t ∈ tiles, ∃ stores, events.filter (fun e => e.tile = t) = .reserve t :: stores ∧
    stores.Perm ((List.range (lanes t).length).map (.store t))

/-- The active lanes of the tiles, one tile after another. -/
def packed (order : List ι) : List α := order.flatMap fun t => (lanes t).reduceOption

omit [DecidableEq ι] in
theorem packed_append (a b : List ι) :
    packed lanes (a ++ b) = packed lanes a ++ packed lanes b := List.flatMap_append

omit [DecidableEq ι] in
theorem length_packed_concat (a : List ι) (t : ι) :
    (packed lanes (a ++ [t])).length = (packed lanes a).length + active lanes t := by
  simp [packed, active]

omit [DecidableEq ι] in
theorem getElem?_reduceOption {tile : List (Option α)} {lane : ℕ} {x : α}
    (h : tile[lane]? = some (some x)) : tile.reduceOption[offset tile lane]? = some x := by
  obtain ⟨hlt, hget⟩ := List.getElem?_eq_some_iff.mp h
  have hsplit : tile = tile.take lane ++ some x :: tile.drop (lane + 1) := by
    rw [← hget, List.cons_getElem_drop_succ, List.take_append_drop]
  have hreduce : tile.reduceOption =
      (tile.take lane).reduceOption ++ x :: (tile.drop (lane + 1)).reduceOption := by
    conv_lhs => rw [hsplit]
    rw [List.reduceOption_append, List.reduceOption_cons_of_some]
  rw [hreduce, offset, List.getElem?_append_right le_rfl]
  simp

theorem exists_lane {tile : List (Option α)} {q : ℕ} (h : q < tile.reduceOption.length) :
    ∃ lane x, tile[lane]? = some (some x) ∧ offset tile lane = q := by
  induction tile generalizing q with
  | nil => simp at h
  | cons cell tile ih =>
    cases cell with
    | none =>
      obtain ⟨lane, x, hx, hq⟩ := ih (by simpa using h)
      exact ⟨lane + 1, x, by simpa using hx, by simpa [offset] using hq⟩
    | some y =>
      cases q with
      | zero => exact ⟨0, y, by simp, by simp [offset]⟩
      | succ q =>
        obtain ⟨lane, x, hx, hq⟩ := ih (by simpa using h)
        exact ⟨lane + 1, x, by simpa using hx, by simpa [offset] using hq⟩

/-- Where the range of a tile starts when the tiles reserve in the given order. -/
def start (order : List ι) (t : ι) : ℕ := (packed lanes (order.takeWhile (· ≠ t))).length

theorem start_eq {a c : List ι} {t : ι} (h : t ∉ a) :
    start lanes (a ++ t :: c) t = (packed lanes a).length := by
  have hne : ∀ u ∈ a, decide (u ≠ t) = true := by
    intro u hu
    simpa using ne_of_mem_of_not_mem hu h
  rw [start, List.takeWhile_append_of_pos hne]
  simp

theorem packed_lane {order : List ι} {t : ι} {lane : ℕ} {x : α} (ht : t ∈ order)
    (h : (lanes t)[lane]? = some (some x)) :
    (packed lanes order)[start lanes order t + offset (lanes t) lane]? = some x := by
  obtain ⟨a, c, rfl, hfirst⟩ := List.eq_append_cons_of_mem ht
  have hcell := getElem?_reduceOption h
  have hlt : offset (lanes t) lane < (lanes t).reduceOption.length :=
    (List.getElem?_eq_some_iff.mp hcell).1
  rw [start_eq lanes hfirst, packed_append, List.getElem?_append_right (by omega)]
  simp only [packed, List.flatMap_cons, Nat.add_sub_cancel_left]
  rwa [List.getElem?_append_left hlt]

theorem exists_packed_lane {order : List ι} (hnd : order.Nodup) {p : ℕ}
    (hp : p < (packed lanes order).length) :
    ∃ t ∈ order, ∃ lane x, (lanes t)[lane]? = some (some x) ∧
      p = start lanes order t + offset (lanes t) lane := by
  have hrange : ∃ a t c, order = a ++ t :: c ∧ (packed lanes a).length ≤ p ∧
      p < (packed lanes a).length + active lanes t := by
    clear hnd
    induction order generalizing p with
    | nil => simp [packed] at hp
    | cons u order ih =>
      by_cases hu : p < active lanes u
      · exact ⟨[], u, order, rfl, by simp [packed], by simpa [packed] using hu⟩
      · have hrest : p - active lanes u < (packed lanes order).length := by
          simp only [packed, List.flatMap_cons, List.length_append] at hp ⊢
          simp only [active] at hu ⊢
          omega
        obtain ⟨a, t, c, rfl, hle, hlt⟩ := ih hrest
        have hlen : (packed lanes (u :: a)).length =
            active lanes u + (packed lanes a).length := by simp [packed, active]
        exact ⟨u :: a, t, c, rfl, by omega, by omega⟩
  obtain ⟨a, t, c, rfl, hle, hlt⟩ := hrange
  have hta : t ∉ a := by
    rw [List.nodup_append] at hnd
    intro hmem
    exact hnd.2.2 t hmem t (by simp) rfl
  have hq : p - (packed lanes a).length < (lanes t).reduceOption.length := by
    simp only [active] at hlt
    omega
  obtain ⟨lane, x, hx, hq⟩ := exists_lane hq
  refine ⟨t, by simp, lane, x, hx, ?_⟩
  rw [start_eq lanes hta]
  omega

/-- The tiles in the order of their reservations. -/
def reservations : List (Event ι) → List ι :=
  List.filterMap fun
    | .reserve t => some t
    | .store _ _ => none

omit [DecidableEq ι] in
theorem mem_reservations {events : List (Event ι)} {t : ι} :
    t ∈ reservations events ↔ .reserve t ∈ events := by
  simp only [reservations, List.mem_filterMap]
  constructor
  · rintro ⟨_ | _, he, h⟩
    · cases h
      exact he
    · cases h
  · intro h
    exact ⟨_, h, rfl⟩

omit [DecidableEq ι] in
theorem reservations_append (a b : List (Event ι)) :
    reservations (a ++ b) = reservations a ++ reservations b := List.filterMap_append

omit [DecidableEq ι] in
@[simp] theorem reservations_reserve (t : ι) : reservations [.reserve t] = [t] := rfl

omit [DecidableEq ι] in
@[simp] theorem reservations_store (t : ι) (lane : ℕ) : reservations [.store t lane] = [] := rfl

variable {lanes}

namespace Interleaves

variable {tiles : List ι} {events pre post : List (Event ι)}

theorem reserved_before (h : Interleaves lanes tiles events) {t : ι} {lane : ℕ}
    (he : events = pre ++ .store t lane :: post) : t ∈ reservations pre := by
  obtain ⟨stores, hfilter, -⟩ := h.program t (h.tile_mem (.store t lane) (by simp [he]))
  rw [he, List.filter_append, List.filter_cons_of_pos (by simp [Event.tile])] at hfilter
  cases hpre : pre.filter (fun e => e.tile = t) with
  | nil => simp [hpre] at hfilter
  | cons e rest =>
    rw [hpre, List.cons_append, List.cons.injEq] at hfilter
    have hmem : e ∈ pre.filter (fun e => e.tile = t) := by simp [hpre]
    rw [mem_reservations, ← hfilter.1]
    exact (List.mem_filter.mp hmem).1

theorem fresh (h : Interleaves lanes tiles events) {t : ι}
    (he : events = pre ++ .reserve t :: post) : t ∉ reservations pre := by
  intro hmem
  obtain ⟨stores, hfilter, hperm⟩ := h.program t (h.tile_mem (.reserve t) (by simp [he]))
  rw [he, List.filter_append, List.filter_cons_of_pos (by simp [Event.tile])] at hfilter
  have hin : Event.reserve t ∈ pre.filter (fun e => e.tile = t) :=
    List.mem_filter.mpr ⟨mem_reservations.mp hmem, by simp [Event.tile]⟩
  -- a second reservation of the tile would stand among its stores
  cases hpre : pre.filter (fun e => e.tile = t) with
  | nil => simp [hpre] at hin
  | cons e rest =>
    rw [hpre, List.cons_append, List.cons.injEq] at hfilter
    have hstore : Event.reserve t ∈ stores := by simp [← hfilter.2]
    have := hperm.mem_iff.mp hstore
    simp at this

theorem stored (h : Interleaves lanes tiles events) {t : ι} (ht : t ∈ tiles) {lane : ℕ}
    (hlane : lane < (lanes t).length) : .store t lane ∈ events := by
  obtain ⟨stores, hfilter, hperm⟩ := h.program t ht
  have hmem : Event.store t lane ∈ stores := by
    rw [hperm.mem_iff]
    simp [hlane]
  have hall : Event.store t lane ∈ events.filter (fun e => e.tile = t) := by
    rw [hfilter]
    exact List.mem_cons_of_mem _ hmem
  exact (List.mem_filter.mp hall).1

theorem nodup_reservations (h : Interleaves lanes tiles events) :
    (reservations events).Nodup := by
  suffices hpre : ∀ pre post, events = pre ++ post → (reservations pre).Nodup from
    hpre events [] (by simp)
  intro pre
  induction pre using List.reverseRecOn with
  | nil => intro _ _; simp [reservations]
  | append_singleton pre e ih =>
    intro post he
    have hpre := ih (e :: post) (by simpa using he)
    cases e with
    | reserve t =>
      have hfresh : t ∉ reservations pre := h.fresh (by simpa using he)
      rw [reservations_append]
      exact hpre.append (List.nodup_singleton t) (by simpa using hfresh)
    | store t lane => simpa [reservations_append] using hpre

theorem mem_reservations_iff (h : Interleaves lanes tiles events) {t : ι} :
    t ∈ reservations events ↔ t ∈ tiles := by
  rw [mem_reservations]
  constructor
  · intro hmem
    exact h.tile_mem _ hmem
  · intro ht
    obtain ⟨stores, hfilter, -⟩ := h.program t ht
    have : Event.reserve t ∈ events.filter (fun e => e.tile = t) := by simp [hfilter]
    exact (List.mem_filter.mp this).1

theorem perm_tiles (h : Interleaves lanes tiles events) (hnd : tiles.Nodup) :
    (reservations events).Perm tiles :=
  (List.perm_ext_iff_of_nodup h.nodup_reservations hnd).mpr fun _ => h.mem_reservations_iff

end Interleaves

/-- What holds after the first events of a launch whose tiles reserve in
`order`: the allocator stands at the end of the reserved ranges, and a cell
holds its final value or has not been written. -/
structure Running (lanes : ι → List (Option α)) (order : List ι) (fill : α)
    (pre : List (Event ι)) (s : State ι α) : Prop where
  next : s.next = (packed lanes (reservations pre)).length
  base : ∀ t, s.base t = if t ∈ reservations pre then some (start lanes order t) else none
  out : ∀ p, s.out p = fill ∨ s.out p = (packed lanes order)[p]?.getD fill
  stored : ∀ t lane x, .store t lane ∈ pre → (lanes t)[lane]? = some (some x) →
    s.out (start lanes order t + offset (lanes t) lane) = x

theorem running_init (order : List ι) (fill : α) :
    Running lanes order fill [] (State.init fill) := by
  refine ⟨by simp [State.init, packed, reservations], ?_, fun p => .inl rfl, by simp⟩
  simp [State.init, reservations]

theorem Running.step {tiles : List ι} {events pre post : List (Event ι)} {e : Event ι} {fill : α}
    {s : State ι α} (h : Interleaves lanes tiles events) (he : events = pre ++ e :: post)
    (hs : Running lanes (reservations events) fill pre s) :
    Running lanes (reservations events) fill (pre ++ [e]) (step lanes s e) := by
  cases e with
  | reserve t =>
    have hfresh : t ∉ reservations pre := h.fresh he
    have hstart : start lanes (reservations events) t = s.next := by
      rw [he, reservations_append, hs.next]
      exact start_eq lanes hfresh
    refine ⟨?_, ?_, hs.out, ?_⟩
    · rw [reservations_append, reservations_reserve, length_packed_concat, ← hs.next]
      rfl
    · intro u
      simp only [AtomicPrefix.step, reservations_append, reservations_reserve]
      by_cases hu : u = t
      · subst hu
        simp [hstart]
      · rw [Function.update_of_ne hu, hs.base u]
        simp [hu]
    · intro u lane x hmem hx
      exact hs.stored u lane x (by simpa using hmem) hx
  | store t lane =>
    have hreserved : t ∈ reservations pre := h.reserved_before he
    have hbase : s.base t = some (start lanes (reservations events) t) := by
      rw [hs.base, if_pos hreserved]
    have horder : t ∈ reservations events := by
      rw [he, reservations_append]
      exact List.mem_append_left _ hreserved
    have hres : reservations (pre ++ [Event.store t lane]) = reservations pre := by
      simp [reservations_append]
    cases hcell : (lanes t)[lane]? with
    | none =>
      simp only [AtomicPrefix.step, hbase, hcell]
      refine ⟨hres ▸ hs.next, hres ▸ hs.base, hs.out, fun u m x hmem hx => ?_⟩
      rcases List.mem_append.mp hmem with hmem | hmem
      · exact hs.stored u m x hmem hx
      · simp only [List.mem_singleton, Event.store.injEq] at hmem
        obtain ⟨rfl, rfl⟩ := hmem
        simp [hcell] at hx
    | some value =>
      cases value with
      | none =>
        simp only [AtomicPrefix.step, hbase, hcell]
        refine ⟨hres ▸ hs.next, hres ▸ hs.base, hs.out, fun u m x hmem hx => ?_⟩
        rcases List.mem_append.mp hmem with hmem | hmem
        · exact hs.stored u m x hmem hx
        · simp only [List.mem_singleton, Event.store.injEq] at hmem
          obtain ⟨rfl, rfl⟩ := hmem
          simp [hcell] at hx
      | some y =>
        have hfinal := packed_lane lanes horder hcell
        simp only [AtomicPrefix.step, hbase, hcell]
        refine ⟨hres ▸ hs.next, hres ▸ hs.base, fun p => ?_, fun u m x hmem hx => ?_⟩
        · by_cases hp : p = start lanes (reservations events) t + offset (lanes t) lane
          · subst hp
            right
            simp [hfinal]
          · simpa [Function.update_of_ne hp] using hs.out p
        · -- two lanes that share a cell would share its final value
          by_cases hp : start lanes (reservations events) u + offset (lanes u) m =
              start lanes (reservations events) t + offset (lanes t) lane
          · have hu : u ∈ reservations events := by
              rcases List.mem_append.mp hmem with hmem | hmem
              · obtain ⟨a, b, rfl⟩ := List.append_of_mem hmem
                have hsplit : events = a ++ .store u m :: (b ++ .store t lane :: post) := by
                  simpa using he
                rw [hsplit, reservations_append]
                exact List.mem_append_left _ (h.reserved_before hsplit)
              · simp only [List.mem_singleton, Event.store.injEq] at hmem
                exact hmem.1 ▸ horder
            have hother := packed_lane lanes hu hx
            rw [hp, hfinal] at hother
            simp only [hp, Function.update_self]
            exact Option.some.inj hother
          · simp only [Function.update_of_ne hp]
            rcases List.mem_append.mp hmem with hmem | hmem
            · exact hs.stored u m x hmem hx
            · simp only [List.mem_singleton, Event.store.injEq] at hmem
              obtain ⟨rfl, rfl⟩ := hmem
              exact absurd rfl hp

theorem Interleaves.running {tiles : List ι} {events : List (Event ι)}
    (h : Interleaves lanes tiles events) (fill : α) :
    Running lanes (reservations events) fill events (run lanes events (State.init fill)) := by
  suffices hpre : ∀ pre post, events = pre ++ post →
      Running lanes (reservations events) fill pre (run lanes pre (State.init fill)) from
    hpre events [] (by simp)
  intro pre
  induction pre using List.reverseRecOn with
  | nil => exact fun _ _ => running_init _ _
  | append_singleton pre e ih =>
    intro post he
    have he' : events = pre ++ e :: post := by simpa using he
    rw [run, List.foldl_append]
    exact (ih (e :: post) he').step h he'

/-- The row after the launch: the active lanes, tile after tile in the order of
the reservations, then the cells as they were. -/
theorem run_interleaving {tiles : List ι} {events : List (Event ι)} (fill : α)
    (h : Interleaves lanes tiles events) (hnd : tiles.Nodup) :
    ∃ order : List ι, order.Perm tiles ∧
      (run lanes events (State.init fill)).next = (packed lanes order).length ∧
      ∀ p, (run lanes events (State.init fill)).out p = (packed lanes order)[p]?.getD fill := by
  have hrun := h.running fill
  refine ⟨reservations events, h.perm_tiles hnd, hrun.next, fun p => ?_⟩
  by_cases hp : p < (packed lanes (reservations events)).length
  · obtain ⟨t, ht, lane, x, hx, rfl⟩ := exists_packed_lane lanes h.nodup_reservations hp
    have hlane : lane < (lanes t).length := (List.getElem?_eq_some_iff.mp hx).1
    have hstored := h.stored (h.mem_reservations_iff.mp ht) hlane
    rw [hrun.stored t lane x hstored hx, packed_lane lanes ht hx, Option.getD_some]
  · have hnone : (packed lanes (reservations events))[p]? = none :=
      List.getElem?_eq_none (by omega)
    rcases hrun.out p with h' | h'
    · rw [h', hnone, Option.getD_none]
    · exact h'

section rows

variable {ρ : Type*} [DecidableEq ρ]

/-- A launch over the tiles of several rows, each with its own cells and allocator. -/
def launch (lanes : ρ → ι → List (Option α)) (fill : α) (schedule : List (ρ × Event ι)) :
    ρ → State ι α :=
  schedule.foldl (fun s e => Function.update s e.1 (step (lanes e.1) (s e.1) e.2))
    fun _ => State.init fill

def eventsOf (row : ρ) (schedule : List (ρ × Event ι)) : List (Event ι) :=
  (schedule.filter fun e => e.1 = row).map Prod.snd

theorem launch_row (lanes : ρ → ι → List (Option α)) (fill : α) (schedule : List (ρ × Event ι))
    (row : ρ) :
    launch lanes fill schedule row =
      run (lanes row) (eventsOf row schedule) (State.init fill) := by
  induction schedule using List.reverseRecOn with
  | nil => rfl
  | append_singleton schedule e ih =>
    rw [launch, List.foldl_append]
    by_cases hrow : e.1 = row
    · subst hrow
      simp only [List.foldl_cons, List.foldl_nil, Function.update_self]
      rw [show eventsOf e.1 (schedule ++ [e]) = eventsOf e.1 schedule ++ [e.2] by
        simp [eventsOf], run, List.foldl_append]
      exact congrArg (fun s => step (lanes e.1) s e.2) ih
    · simp only [List.foldl_cons, List.foldl_nil, Function.update_of_ne (Ne.symm hrow)]
      rw [show eventsOf row (schedule ++ [e]) = eventsOf row schedule by
        simp [eventsOf, hrow]]
      exact ih

end rows

end ChampionRuntime.Lib.AtomicPrefix
