import ChampionRuntime.Lib.Keyed

/-!
# Dictionaries

A dictionary is an insertion-ordered collection of pairs keyed by their first
component.
-/
namespace ChampionRuntime.Lib

/-- A dictionary from `κ` to `β`. -/
abbrev Dict (κ β : Type) := Keyed (Prod.fst : κ × β → κ)

namespace Keyed

variable {κ β : Type} [DecidableEq κ]

def get? (d : Dict κ β) (k : κ) : Option β := (d.find? k).map Prod.snd

/-- `d[k] = v` -/
def set (d : Dict κ β) (k : κ) (v : β) : Dict κ β := d.insert (k, v)

@[simp] theorem get?_empty (k : κ) : (empty : Dict κ β).get? k = none := rfl

@[simp] theorem get?_set (d : Dict κ β) (k : κ) (v : β) (k' : κ) :
    (d.set k v).get? k' = if k' = k then some v else d.get? k' := by
  unfold get? set
  rw [find?_insert]
  split_ifs <;> rfl

@[simp] theorem get?_erase (d : Dict κ β) (k k' : κ) :
    (d.erase k).get? k' = if k' = k then none else d.get? k' := by
  unfold get?
  rw [find?_erase]
  split_ifs <;> rfl

theorem get?_eq_some {d : Dict κ β} {k : κ} {v : β} : d.get? k = some v ↔ (k, v) ∈ d.items := by
  unfold get?
  rw [Option.map_eq_some_iff]
  constructor
  · intro ⟨p, hp, hv⟩
    obtain ⟨hmem, rfl⟩ := find?_eq_some.mp hp
    rwa [← hv]
  · intro hmem
    exact ⟨(k, v), find?_eq_some.mpr ⟨hmem, rfl⟩, rfl⟩

theorem find?_eq_none {d : Dict κ β} {k : κ} : d.find? k = none ↔ d.get? k = none := by
  unfold get?
  rw [Option.map_eq_none_iff]

theorem find?_of_get? {d : Dict κ β} {k : κ} {v : β} (h : d.get? k = some v) :
    d.find? k = some (k, v) :=
  find?_eq_some.mpr ⟨get?_eq_some.mp h, rfl⟩

end Keyed

end ChampionRuntime.Lib
