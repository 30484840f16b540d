import ChampionRuntime.Lib.Assoc
import ChampionRuntime.Lib.Json
import Mathlib.Data.List.Sort
import Mathlib.Data.String.Basic
import Mathlib.Tactic

/-!
# Recursion over JSON values

Induction over nested arrays and objects, the deep sorting of object keys, and
the normal form in which two values that differ in the order of object keys or
in the type of an integral number coincide.
-/
namespace ChampionRuntime.Lib.Json

namespace Value

theorem induct {P : Value → Prop} (null : P .null) (bool : ∀ b, P (.bool b))
    (num : ∀ n, P (.num n)) (str : ∀ s, P (.str s))
    (arr : ∀ items, (∀ v ∈ items, P v) → P (.arr items))
    (obj : ∀ fields, (∀ f ∈ fields, P f.2) → P (.obj fields)) : ∀ v, P v := by
  refine @Value.rec P (fun items => ∀ v ∈ items, P v) (fun fields => ∀ f ∈ fields, P f.2)
    (fun f => P f.2) null bool num str arr obj ?_ ?_ ?_ ?_ ?_
  · simp
  · intro v items hv hitems w hw
    rcases List.mem_cons.mp hw with rfl | hw
    · exact hv
    · exact hitems w hw
  · simp
  · intro f fields hf hfields g hg
    rcases List.mem_cons.mp hg with rfl | hg
    · exact hf
    · exact hfields g hg
  · exact fun _ _ h => h

end Value

abbrev Fields := List (String × Value)

def keys (fields : Fields) : List String := fields.map Prod.fst

def keyLe (a b : String × Value) : Prop := a.1 ≤ b.1

instance : DecidableRel keyLe := fun a b => inferInstanceAs (Decidable (a.1 ≤ b.1))

instance : IsTrans (String × Value) keyLe := ⟨fun _ _ _ h h' => String.le_trans h h'⟩

instance : Std.Total keyLe := ⟨fun a b => le_total a.1 b.1⟩

def sortByKey (fields : Fields) : Fields := fields.insertionSort keyLe

theorem perm_sortByKey (fields : Fields) : (sortByKey fields).Perm fields :=
  List.perm_insertionSort _ _

theorem sortByKey_sortByKey (fields : Fields) :
    sortByKey (sortByKey fields) = sortByKey fields :=
  (List.pairwise_insertionSort keyLe fields).insertionSort_eq

theorem map_sortByKey (f : Value → Value) (fields : Fields) :
    (sortByKey fields).map (fun p => (p.1, f p.2)) =
      sortByKey (fields.map fun p => (p.1, f p.2)) :=
  List.map_insertionSort (r := keyLe) (s := keyLe) _ _ fun _ _ _ _ => Iff.rfl

theorem nodup_keys_perm {a b : Fields} (h : a.Perm b) (hnd : (keys a).Nodup) :
    (keys b).Nodup := (h.map Prod.fst).nodup_iff.mp hnd

theorem sortByKey_perm {a b : Fields} (h : a.Perm b) (hnd : (keys a).Nodup) :
    sortByKey a = sortByKey b := by
  have hperm : (sortByKey a).Perm (sortByKey b) :=
    (perm_sortByKey a).trans (h.trans (perm_sortByKey b).symm)
  refine hperm.eq_of_pairwise ?_ (List.pairwise_insertionSort keyLe a)
    (List.pairwise_insertionSort keyLe b)
  intro x y hx hy hxy hyx
  have hx' : x ∈ a := (perm_sortByKey a).mem_iff.mp hx
  have hy' : y ∈ a := h.mem_iff.mpr ((perm_sortByKey b).mem_iff.mp hy)
  exact List.inj_on_of_nodup_map hnd hx' hy' (le_antisymm hxy hyx)

namespace Value

mutual

/-- The keys of every object are sorted, as `sort_keys` writes them. -/
def sortKeys : Value → Value
  | .arr items => .arr (sortItems items)
  | .obj fields => .obj (sortByKey (sortFields fields))
  | v => v

def sortItems : List Value → List Value
  | [] => []
  | v :: items => sortKeys v :: sortItems items

def sortFields : Fields → Fields
  | [] => []
  | (k, v) :: fields => (k, sortKeys v) :: sortFields fields

end

theorem sortItems_eq_map (items : List Value) : sortItems items = items.map sortKeys := by
  induction items with
  | nil => rfl
  | cons v items ih => rw [sortItems, ih, List.map_cons]

theorem sortFields_eq_map (fields : Fields) :
    sortFields fields = fields.map fun p => (p.1, sortKeys p.2) := by
  induction fields with
  | nil => rfl
  | cons f fields ih => rw [sortFields, ih, List.map_cons]

theorem keys_sortFields (fields : Fields) : keys (sortFields fields) = keys fields := by
  simp [keys, sortFields_eq_map, List.map_map, Function.comp_def]

/-- The integer an integral number denotes, whatever its type. -/
def normalNumber : Number → Number
  | .float (.finite q) => if q.den = 1 then .int q.num else .float (.finite q)
  | n => n

mutual

/-- The value up to the order of object keys and the type of integral numbers. -/
def normal : Value → Value
  | .num n => .num (normalNumber n)
  | .arr items => .arr (normalItems items)
  | .obj fields => .obj (sortByKey (normalFields fields))
  | v => v

def normalItems : List Value → List Value
  | [] => []
  | v :: items => normal v :: normalItems items

def normalFields : Fields → Fields
  | [] => []
  | (k, v) :: fields => (k, normal v) :: normalFields fields

end

theorem normalItems_eq_map (items : List Value) : normalItems items = items.map normal := by
  induction items with
  | nil => rfl
  | cons v items ih => rw [normalItems, ih, List.map_cons]

theorem normalFields_eq_map (fields : Fields) :
    normalFields fields = fields.map fun p => (p.1, normal p.2) := by
  induction fields with
  | nil => rfl
  | cons f fields ih => rw [normalFields, ih, List.map_cons]

theorem keys_normalFields (fields : Fields) : keys (normalFields fields) = keys fields := by
  simp [keys, normalFields_eq_map, List.map_map, Function.comp_def]

theorem normal_sortKeys (v : Value) : normal (sortKeys v) = normal v := by
  induction v using induct with
  | null | bool | num | str => rfl
  | arr items ih =>
    simp only [sortKeys, normal, sortItems_eq_map, normalItems_eq_map, List.map_map, arr.injEq]
    exact List.map_congr_left ih
  | obj fields ih =>
    simp only [sortKeys, normal, sortFields_eq_map, normalFields_eq_map, map_sortByKey,
      sortByKey_sortByKey, List.map_map, obj.injEq]
    congr 1
    exact List.map_congr_left fun f hf => by simp [ih f hf]

/-- Every object has distinct keys, as a dictionary has. -/
inductive Unique : Value → Prop
  | null : Unique .null
  | bool (b : Bool) : Unique (.bool b)
  | num (n : Number) : Unique (.num n)
  | str (s : String) : Unique (.str s)
  | arr {items : List Value} (h : ∀ v ∈ items, Unique v) : Unique (.arr items)
  | obj {fields : Fields} (hkeys : (keys fields).Nodup) (h : ∀ f ∈ fields, Unique f.2) :
    Unique (.obj fields)

theorem Unique.of_obj {fields : Fields} (h : Unique (.obj fields)) :
    (keys fields).Nodup ∧ ∀ f ∈ fields, Unique f.2 := by
  cases h with
  | obj hkeys h => exact ⟨hkeys, h⟩

theorem sortKeys_sortKeys (v : Value) : v.sortKeys.sortKeys = v.sortKeys := by
  induction v using induct with
  | null | bool | num | str => rfl
  | arr items ih =>
    simp only [sortKeys, sortItems_eq_map, List.map_map, arr.injEq]
    exact List.map_congr_left ih
  | obj fields ih =>
    simp only [sortKeys, sortFields_eq_map, map_sortByKey, sortByKey_sortByKey, List.map_map,
      obj.injEq]
    congr 1
    exact List.map_congr_left fun f hf => by simp [ih f hf]

theorem Unique.sortKeys {v : Value} (h : Unique v) : Unique v.sortKeys := by
  induction h with
  | null | bool | num | str => first | exact .null | exact .bool _ | exact .num _ | exact .str _
  | arr h ih =>
    refine .arr fun v hv => ?_
    rw [sortItems_eq_map] at hv
    obtain ⟨w, hw, rfl⟩ := List.mem_map.mp hv
    exact ih w hw
  | @obj fields hkeys h ih =>
    have hperm := perm_sortByKey (sortFields fields)
    refine .obj ?_ fun f hf => ?_
    · exact nodup_keys_perm hperm.symm (keys_sortFields fields ▸ hkeys)
    · rw [hperm.mem_iff, sortFields_eq_map] at hf
      obtain ⟨g, hg, rfl⟩ := List.mem_map.mp hf
      exact ih g hg

end Value

end ChampionRuntime.Lib.Json
