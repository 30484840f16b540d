import ChampionRuntime.Lib.JsonRoundTrip

/-!
# JSON in text files

What `json.dumps` writes is printable ASCII, apart from the blanks of the layout; an
indented text therefore stays as it is when the line ends of a text file are read. The
sorted keys move the fields of an object, but each key still finds its value.
-/
namespace ChampionRuntime.Lib.Json

open PyText

/-- All characters are ASCII and none is a control character. -/
def Printable (s : List Char) : Prop := s.all (inRange 0x20 0x7e) = true

namespace Printable

theorem nil : Printable [] := rfl

theorem iff_mem {s : List Char} : Printable s ↔ ∀ c ∈ s, inRange 0x20 0x7e c = true :=
  List.all_eq_true

theorem append {s t : List Char} (hs : Printable s) (ht : Printable t) : Printable (s ++ t) := by
  rw [iff_mem, List.forall_mem_append]
  exact ⟨iff_mem.mp hs, iff_mem.mp ht⟩

theorem cons {c : Char} {s : List Char} (hc : Printable [c]) (hs : Printable s) :
    Printable (c :: s) := append hc hs

theorem subset {s t : List Char} (h : s ⊆ t) (ht : Printable t) : Printable s :=
  iff_mem.mpr fun c hc => iff_mem.mp ht c (h hc)

theorem replicate {c : Char} (hc : Printable [c]) (n : ℕ) : Printable (List.replicate n c) := by
  refine hc.subset ?_
  intro x hx
  rw [List.eq_of_mem_replicate hx]
  exact List.mem_singleton_self c

theorem not_mem {s : List Char} (h : Printable s) {c : Char} (hc : inRange 0x20 0x7e c = false) :
    c ∉ s := by
  intro hmem
  rw [iff_mem.mp h c hmem] at hc
  cases hc

theorem escapeUnit (n : ℕ) : Printable (escapeUnit n) := by
  have hdigit : ∀ d < 16, inRange 0x20 0x7e (hexDigit d) = true := by decide
  have hstart : Printable ['\\', 'u'] := rfl
  refine hstart.append (iff_mem.mpr ?_)
  intro c hc
  simp only [List.mem_cons, List.not_mem_nil, or_false] at hc
  obtain rfl | rfl | rfl | rfl := hc
  all_goals exact hdigit _ (Nat.mod_lt _ (by decide))

theorem escapeChar (x : Char) : Printable (escapeChar x) := by
  obtain ⟨e, htext, -, -, he⟩ | ⟨htext, -, -, hlow, hhigh⟩ | ⟨htext, -⟩ | ⟨htext, -⟩ :=
    escapeChar_cases x
  · rw [htext]
    exact cons rfl (iff_mem.mpr fun c hc => by rwa [List.mem_singleton.mp hc])
  · rw [htext, iff_mem]
    intro c hc
    obtain rfl := List.mem_singleton.mp hc
    simp [inRange, hlow, hhigh]
  · rw [htext]
    exact escapeUnit _
  · rw [htext]
    exact append (escapeUnit _) (escapeUnit _)

theorem quote (s : String) : Printable (quote s) := by
  refine cons rfl (append (iff_mem.mpr ?_) rfl)
  intro c hc
  obtain ⟨x, -, hc⟩ := List.mem_flatMap.mp hc
  exact iff_mem.mp (escapeChar x) c hc

theorem natText (n : ℕ) : Printable (natText n) := by
  refine iff_mem.mpr ?_
  intro c hc
  have hdigit := (natText_spec n).2.1 c hc
  simp only [isDigit, inRange, Bool.and_eq_true, decide_eq_true_eq] at hdigit ⊢
  omega

theorem positiveFloatText (q : ℚ) : Printable (positiveFloatText q) := by
  have hall := natText (shortestDecimal q).1.toNat
  have hdigits : Printable (dropZeros (Json.natText (shortestDecimal q).1.toNat)) :=
    hall.subset (List.rdropWhile_prefix _ _).subset
  have htake : ∀ n, Printable ((dropZeros (Json.natText (shortestDecimal q).1.toNat)).take n) :=
    fun n => hdigits.subset (List.take_subset _ _)
  have hdrop : ∀ n, Printable ((dropZeros (Json.natText (shortestDecimal q).1.toNat)).drop n) :=
    fun n => hdigits.subset (List.drop_subset _ _)
  have hzeros : ∀ n, Printable (List.replicate n '0') := replicate rfl
  simp only [Json.positiveFloatText]
  split_ifs with hplain hsmall hwhole
  · exact append (append rfl (hzeros _)) hdigits
  · exact append (append hdigits (hzeros _)) rfl
  · exact append (htake _) (cons rfl (hdrop _))
  all_goals
    refine append (append (append (htake 1) ?_) rfl) ?_
  all_goals
    first
    | exact nil
    | exact cons rfl (hdrop 1)
    | exact cons rfl (natText _)
    | exact natText _

theorem numberText (n : Number) : Printable (numberText n) := by
  cases n with
  | int n =>
    simp only [Json.numberText, intText]
    split_ifs
    · exact cons rfl (natText _)
    · exact natText _
  | float x =>
    cases x with
    | finite q =>
      simp only [Json.numberText, floatText]
      split_ifs
      · exact rfl
      · exact cons rfl (positiveFloatText _)
      · exact positiveFloatText q
    | inf negative => cases negative <;> exact rfl
    | nan => exact rfl

end Printable

theorem return_not_mem_render (v : Value) : ∀ level, '\r' ∉ render .indented level v := by
  have hgap : ∀ n, '\r' ∉ Layout.indented.gap n := by
    intro n
    simp [Layout.indented]
  have hcolon : '\r' ∉ Layout.indented.afterColon := by simp [Layout.indented]
  have hquote : ∀ s, '\r' ∉ quote s := fun s => (Printable.quote s).not_mem (by decide)
  induction v using Value.induct with
  | null =>
    intro level
    simp only [render]
    decide
  | bool b =>
    intro level
    cases b <;> simp only [render] <;> decide
  | num n =>
    intro level
    simp only [render]
    exact (Printable.numberText n).not_mem (by decide)
  | str s =>
    intro level
    simp only [render]
    exact hquote s
  | arr items ih =>
    have hitems : ∀ level, '\r' ∉ renderItems .indented level items := by
      intro level
      induction items with
      | nil => simp [renderItems, hgap]
      | cons v items ihitems =>
        obtain ⟨hv, ih⟩ := List.forall_mem_cons.mp ih
        simp [renderItems, hgap, hv, ihitems ih]
    intro level
    cases items with
    | nil => simp [render]
    | cons v items =>
      have hrest := hitems level
      simp only [renderItems, List.mem_cons, not_or, List.mem_append] at hrest
      simp [render, hrest]
  | obj fields ih =>
    have hfields : ∀ level, '\r' ∉ renderFields .indented level fields := by
      intro level
      induction fields with
      | nil => simp [renderFields, hgap]
      | cons f fields ihfields =>
        obtain ⟨hf, ih⟩ := List.forall_mem_cons.mp ih
        simp [renderFields, hgap, hcolon, hquote, hf, ihfields ih]
    intro level
    cases fields with
    | nil => simp [render]
    | cons f fields =>
      have hrest := hfields level
      simp only [renderFields, List.mem_cons, not_or, List.mem_append] at hrest
      simp [render, hrest]

theorem loads_written {v : Value} (hu : v.Unique) (hn : v.Numbers NumberReads) :
    loads .plain (universalNewlines (dumps v ++ ['\n'])) = some v.sortKeys := by
  have hreturn : '\r' ∉ dumps v ++ ['\n'] := by
    rw [List.mem_append, not_or]
    exact ⟨return_not_mem_render _ 0, by decide⟩
  rw [universalNewlines_of_not_mem hreturn, loads_dumps keepsDistinct_plain hu hn]

namespace Value

mutual

/-- No number occurs, and no object has a key twice. -/
def textual : Value → Bool
  | .num _ => false
  | .arr items => textualItems items
  | .obj fields => decide (keys fields).Nodup && textualFields fields
  | _ => true

def textualItems : List Value → Bool
  | [] => true
  | v :: items => textual v && textualItems items

def textualFields : Fields → Bool
  | [] => true
  | (_, v) :: fields => textual v && textualFields fields

end

theorem textualItems_iff {items : List Value} :
    textualItems items = true ↔ ∀ v ∈ items, textual v = true := by
  induction items with
  | nil => simp [textualItems]
  | cons v items ih => simp [textualItems, ih]

theorem textualFields_iff {fields : Fields} :
    textualFields fields = true ↔ ∀ f ∈ fields, textual f.2 = true := by
  induction fields with
  | nil => simp [textualFields]
  | cons f fields ih => simp [textualFields, ih]

theorem Unique.of_textual {v : Value} (h : v.textual = true) : v.Unique := by
  induction v using Value.induct with
  | null => exact .null
  | bool b => exact .bool b
  | num n => exact .num n
  | str s => exact .str s
  | arr items ih =>
    rw [textual, textualItems_iff] at h
    exact .arr fun v hv => ih v hv (h v hv)
  | obj fields ih =>
    rw [textual, Bool.and_eq_true, decide_eq_true_eq, textualFields_iff] at h
    exact .obj h.1 fun f hf => ih f hf (h.2 f hf)

theorem Numbers.of_textual {P : Number → Prop} {v : Value} (h : v.textual = true) :
    v.Numbers P := by
  induction v using Value.induct with
  | null => exact .null
  | bool b => exact .bool b
  | num n => cases h
  | str s => exact .str s
  | arr items ih =>
    rw [textual, textualItems_iff] at h
    exact .arr fun v hv => ih v hv (h v hv)
  | obj fields ih =>
    rw [textual, Bool.and_eq_true, textualFields_iff] at h
    exact .obj fun f hf => ih f hf (h.2 f hf)

end Value

theorem lookup_orderedInsert (f : String × Value) (fields : Fields) (k : String) :
    (fields.orderedInsert keyLe f).lookup k = (f :: fields).lookup k := by
  induction fields with
  | nil => rfl
  | cons g fields ih =>
    by_cases hle : keyLe f g
    · rw [List.orderedInsert_cons_of_le keyLe fields hle]
    · -- the inserted key is greater than the one before it, hence another
      have hne : f.1 ≠ g.1 := by
        intro heq
        exact hle (le_of_eq heq)
      obtain ⟨name, v⟩ := f
      obtain ⟨other, w⟩ := g
      rw [List.orderedInsert_of_not_le keyLe fields hle, List.lookup_cons, ih]
      by_cases hother : k = other
      · have hname : (k == name) = false := by simpa [hother] using Ne.symm hne
        simp [List.lookup_cons, hother, hother ▸ hname]
      · have hskip : (k == other) = false := by simpa using hother
        simp [List.lookup_cons, hskip]

theorem lookup_sortByKey (fields : Fields) (k : String) :
    (sortByKey fields).lookup k = fields.lookup k := by
  induction fields with
  | nil => rfl
  | cons f fields ih =>
    have hinsert := lookup_orderedInsert f (sortByKey fields) k
    rw [sortByKey, List.insertionSort_cons, ← sortByKey, hinsert, List.lookup_cons,
      List.lookup_cons, ih]

theorem lookup_sortFields (fields : Fields) (k : String) :
    (sortByKey (Value.sortFields fields)).lookup k = (fields.lookup k).map Value.sortKeys := by
  rw [lookup_sortByKey]
  induction fields with
  | nil => rfl
  | cons f fields ih =>
    obtain ⟨name, v⟩ := f
    simp only [Value.sortFields, List.lookup_cons, ih]
    cases k == name <;> rfl

end ChampionRuntime.Lib.Json
