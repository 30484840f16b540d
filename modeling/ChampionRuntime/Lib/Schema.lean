import ChampionRuntime.Lib.JsonRoundTrip
import ChampionRuntime.Lib.Regex

/-!
# A fragment of JSON Schema

The keywords the repository's receipt contract uses, with `$ref` resolved. Every
object is closed (`additionalProperties: false`), a pattern is searched for, and
an integral float is an integer.
-/
namespace ChampionRuntime.Lib.Json

inductive Schema where
  | const (text : String)
  | enum (texts : List String)
  /-- `type: string` with a `pattern` -/
  | pattern (r : Regex)
  /-- `type: string` with a `minLength` -/
  | minLength (n : ℕ)
  | boolean
  /-- `type: integer` with `minimum` and `maximum` -/
  | integer (low high : ℤ)
  | array (items : Schema)
  /-- `anyRequired` lists the keys of an `anyOf` over single required keys -/
  | object (required anyRequired : List String) (minProperties : ℕ)
      (properties : List (String × Schema))

namespace Schema

def integerInRange (low high : ℤ) : Number → Bool
  | .int n => decide (low ≤ n ∧ n ≤ high)
  | .float (.finite q) => decide (q.den = 1 ∧ (low : ℚ) ≤ q ∧ q ≤ high)
  | .float _ => false

def validateString (s : String) : Schema → Bool
  | const text => s == text
  | enum texts => texts.contains s
  | pattern r => r.search s.toList
  | minLength n => decide (n ≤ s.length)
  | _ => false

/-- The keywords of an object that look at its keys only. -/
def keysAllowed (required anyRequired : List String) (minProperties : ℕ)
    (present : List String) : Bool :=
  required.all present.contains && (anyRequired.isEmpty || anyRequired.any present.contains) &&
    decide (minProperties ≤ present.length)

mutual

def validate : Schema → Value → Bool
  | _, .null => false
  | s, .bool _ =>
    match s with
    | boolean => true
    | _ => false
  | s, .num n =>
    match s with
    | integer low high => integerInRange low high n
    | _ => false
  | s, .str text => validateString text s
  | s, .arr items =>
    match s with
    | array item => validateItems item items
    | _ => false
  | s, .obj fields =>
    match s with
    | object required anyRequired minProperties properties =>
      keysAllowed required anyRequired minProperties (keys fields) &&
        validateFields properties fields
    | _ => false

def validateItems : Schema → List Value → Bool
  | _, [] => true
  | s, v :: items => validate s v && validateItems s items

def validateFields : List (String × Schema) → Fields → Bool
  | _, [] => true
  | properties, (k, v) :: fields =>
    (match properties.lookup k with
      | some s => validate s v
      | none => false) && validateFields properties fields

end

/-- One field against the properties of a closed object. -/
def validField (properties : List (String × Schema)) (f : String × Value) : Bool :=
  match properties.lookup f.1 with
  | some s => validate s f.2
  | none => false

theorem validateItems_eq_all (s : Schema) (items : List Value) :
    validateItems s items = items.all (validate s) := by
  induction items with
  | nil => rfl
  | cons v items ih => rw [validateItems, ih, List.all_cons]

theorem validateFields_eq_all (properties : List (String × Schema)) (fields : Fields) :
    validateFields properties fields = fields.all (validField properties) := by
  induction fields with
  | nil => rfl
  | cons f fields ih => rw [validateFields, ih, List.all_cons]; rfl

theorem keysAllowed_perm {present present' : List String} (h : present.Perm present')
    (required anyRequired : List String) (n : ℕ) :
    keysAllowed required anyRequired n present = keysAllowed required anyRequired n present' := by
  have hcontains : present.contains = present'.contains := by
    funext k
    rw [Bool.eq_iff_iff, List.contains_iff_mem, List.contains_iff_mem, h.mem_iff]
  simp only [keysAllowed, hcontains, h.length_eq]

theorem all_perm {α : Type*} {p : α → Bool} {a b : List α} (h : a.Perm b) : a.all p = b.all p := by
  rw [Bool.eq_iff_iff, List.all_eq_true, List.all_eq_true]
  exact ⟨fun ha x hx => ha x (h.mem_iff.mpr hx), fun hb x hx => hb x (h.mem_iff.mp hx)⟩

theorem validate_perm {a b : Fields} (h : a.Perm b) (s : Schema) :
    validate s (.obj a) = validate s (.obj b) := by
  cases s with
  | object required anyRequired n properties =>
    have hkeys : (keys a).Perm (keys b) := h.map Prod.fst
    simp only [validate, validateFields_eq_all, all_perm h]
    rw [keysAllowed_perm hkeys]
  | _ => simp [validate]

theorem validate_sortKeys (v : Value) : ∀ s, validate s v.sortKeys = validate s v := by
  induction v using Value.induct with
  | null | bool | num | str => exact fun s => rfl
  | arr items ih =>
    intro s
    cases s with
    | array item =>
      simp only [Value.sortKeys, validate, Value.sortItems_eq_map, validateItems_eq_all,
        List.all_map]
      refine Bool.eq_iff_iff.mpr ?_
      simp only [List.all_eq_true, Function.comp_apply]
      exact forall₂_congr fun v hv => by rw [ih v hv]
    | _ => simp [Value.sortKeys, validate]
  | obj fields ih =>
    intro s
    rw [Value.sortKeys, validate_perm (perm_sortByKey _)]
    cases s with
    | object required anyRequired n properties =>
      simp only [validate, Value.keys_sortFields, validateFields_eq_all]
      congr 1
      simp only [Value.sortFields_eq_map, List.all_map]
      refine Bool.eq_iff_iff.mpr ?_
      simp only [List.all_eq_true, Function.comp_apply, validField]
      refine forall₂_congr fun f hf => ?_
      split
      · rw [ih f hf]
      · rfl
    | _ => simp [validate]

theorem validate_object {required anyRequired : List String} {n : ℕ}
    {properties : List (String × Schema)} {fields : Fields}
    (h : validate (object required anyRequired n properties) (.obj fields) = true) :
    (∀ k ∈ required, k ∈ keys fields) ∧
      ∀ f ∈ fields, ∃ s, properties.lookup f.1 = some s ∧ validate s f.2 = true := by
  simp only [validate, keysAllowed, Bool.and_eq_true, List.all_eq_true, List.contains_iff_mem,
    validateFields_eq_all] at h
  refine ⟨h.1.1.1, fun f hf => ?_⟩
  have hfield := h.2 f hf
  unfold validField at hfield
  split at hfield
  · exact ⟨_, by assumption, hfield⟩
  · simp at hfield

mutual

/-- The ranges of the integers below a schema. -/
def integerRanges : Schema → List (ℤ × ℤ)
  | integer low high => [(low, high)]
  | array items => integerRanges items
  | object _ _ _ properties => propertyRanges properties
  | _ => []

def propertyRanges : List (String × Schema) → List (ℤ × ℤ)
  | [] => []
  | (_, s) :: properties => integerRanges s ++ propertyRanges properties

end

theorem integerRanges_lookup {properties : List (String × Schema)} {k : String} {s : Schema}
    (h : properties.lookup k = some s) : integerRanges s ⊆ propertyRanges properties := by
  induction properties with
  | nil => simp at h
  | cons p properties ih =>
    obtain ⟨k', s'⟩ := p
    rw [List.lookup_cons] at h
    rw [propertyRanges]
    split at h
    · obtain rfl : s' = s := Option.some.inj h
      exact List.subset_append_left _ _
    · exact fun r hr => List.mem_append_right _ (ih h hr)

/-- Every number of an accepted value is an integer in a range of the schema. -/
theorem numbers_of_validate (v : Value) : ∀ {s}, validate s v = true →
    v.Numbers fun n => ∃ r ∈ integerRanges s, integerInRange r.1 r.2 n = true := by
  induction v using Value.induct with
  | null => exact fun _ => .null
  | bool b => exact fun _ => .bool b
  | num n =>
    intro s h
    cases s with
    | integer low high => exact .num ⟨(low, high), by simp [integerRanges], h⟩
    | _ => simp [validate] at h
  | str text => exact fun _ => .str text
  | arr items ih =>
    intro s h
    cases s with
    | array item =>
      simp only [validate, validateItems_eq_all, List.all_eq_true] at h
      refine .arr fun v hv => (ih v hv (h v hv)).mono fun n hn => ?_
      simpa only [integerRanges] using hn
    | _ => simp [validate] at h
  | obj fields ih =>
    intro s h
    cases s with
    | object required anyRequired n properties =>
      refine .obj fun f hf => ?_
      obtain ⟨s, hs, hvalid⟩ := (validate_object h).2 f hf
      refine (ih f hf hvalid).mono fun n hn => ?_
      obtain ⟨r, hr, hrange⟩ := hn
      exact ⟨r, integerRanges_lookup hs hr, hrange⟩
    | _ => simp [validate] at h

end Schema

end ChampionRuntime.Lib.Json
