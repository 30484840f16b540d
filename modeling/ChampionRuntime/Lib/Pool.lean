import Mathlib.Data.List.Perm.Basic
import Mathlib.Data.List.Basic

/-!
# Selecting evidence from a pool

A pool is a list searched by predicates. A selection made from the whole pool
survives in any sub-pool that keeps what the selection used, in whatever order
the sub-pool lists it. One relation covers both restricting and reordering.
-/
namespace ChampionRuntime.Lib

variable {α : Type*}

/-- `sub` lists, in some order, a part of `pool` that keeps every cited item. -/
def Covers (cited : α → Prop) (sub pool : List α) : Prop :=
  ∃ keep : α → Bool, sub.Perm (pool.filter keep) ∧ ∀ x ∈ pool, cited x → keep x = true

theorem covers_of_perm {cited : α → Prop} {sub pool : List α} (h : sub.Perm pool) :
    Covers cited sub pool :=
  ⟨fun _ => true, by simpa using h, fun _ _ _ => rfl⟩

theorem covers_filter {cited : α → Prop} {pool : List α} {keep : α → Bool}
    (h : ∀ x ∈ pool, cited x → keep x = true) : Covers cited (pool.filter keep) pool :=
  ⟨keep, List.Perm.refl _, h⟩

theorem Covers.mono {cited cited' : α → Prop} {sub pool : List α} (h : Covers cited sub pool)
    (hc : ∀ x, cited' x → cited x) : Covers cited' sub pool := by
  obtain ⟨keep, hperm, hkeep⟩ := h
  exact ⟨keep, hperm, fun x hx hcx => hkeep x hx (hc x hcx)⟩

theorem Covers.filter {cited : α → Prop} {sub pool : List α} (h : Covers cited sub pool)
    (p : α → Bool) : Covers cited (sub.filter p) (pool.filter p) := by
  obtain ⟨keep, hperm, hkeep⟩ := h
  refine ⟨keep, ?_, fun x hx hc => hkeep x (List.mem_filter.mp hx).1 hc⟩
  rw [List.filter_filter]
  simpa [List.filter_filter, Bool.and_comm] using hperm.filter p

theorem Covers.filter_perm {cited : α → Prop} {sub pool : List α} (h : Covers cited sub pool)
    {p : α → Bool} (hp : ∀ x ∈ pool.filter p, cited x) :
    (sub.filter p).Perm (pool.filter p) := by
  obtain ⟨keep, hperm, hkeep⟩ := h
  have hall : ∀ x ∈ pool.filter p, keep x = true := fun x hx =>
    hkeep x (List.mem_filter.mp hx).1 (hp x hx)
  have heq : (pool.filter keep).filter p = pool.filter p := by
    rw [List.filter_filter, ← List.filter_eq_self.mpr hall, List.filter_filter]
    simp [Bool.and_comm]
  exact heq ▸ hperm.filter p

theorem Covers.filter_singleton {cited : α → Prop} {sub pool : List α} (h : Covers cited sub pool)
    {p : α → Bool} {x : α} (hp : pool.filter p = [x]) (hx : cited x) : sub.filter p = [x] := by
  have hall : ∀ y ∈ pool.filter p, cited y := by
    rw [hp]
    simpa using hx
  exact List.perm_singleton.mp (hp ▸ h.filter_perm hall)

theorem Covers.mem {cited : α → Prop} {sub pool : List α} (h : Covers cited sub pool) {x : α}
    (hx : x ∈ pool) (hc : cited x) : x ∈ sub := by
  obtain ⟨keep, hperm, hkeep⟩ := h
  exact hperm.mem_iff.mpr (List.mem_filter.mpr ⟨hx, hkeep x hx hc⟩)

theorem nodup_eraseDups [DecidableEq α] : ∀ l : List α, l.eraseDups.Nodup
  | [] => by simp
  | a :: l => by
      have ih := nodup_eraseDups (l.filter fun b => !b == a)
      rw [List.eraseDups_cons, List.nodup_cons]
      exact ⟨by simp [List.mem_eraseDups], ih⟩
termination_by l => l.length
decreasing_by exact Nat.lt_succ_of_le (List.length_filter_le _ _)

theorem eraseDups_perm [DecidableEq α] {l l' : List α} (h : l'.Perm l) :
    l'.eraseDups.Perm l.eraseDups := by
  rw [List.perm_ext_iff_of_nodup (nodup_eraseDups l') (nodup_eraseDups l)]
  intro a
  simp [List.mem_eraseDups, h.mem_iff]

end ChampionRuntime.Lib
