import ChampionRuntime.Licensing.StagedDiff

/-!
# The class of a path

`parse_classification_maps` and `classification_for` compare texts. For the
normalised paths that `validate_path` returns this is a comparison of
components, except that the text `.` of the root is a text prefix of no path.
-/
namespace ChampionRuntime.Licensing

open Lib Lib.PyText
open Receipts (posixParts)

/-- A path written as its components joined. -/
def Normal (path : String) : Prop := asPosix path = path

/-- The components of the first path lead the components of the second. -/
def Ancestor (lead path : String) : Prop := posixParts lead <+: posixParts path

variable {value raw lead path : String}

theorem posixParts_components {part : String} (h : part ∈ posixParts value) :
    part ≠ "" ∧ part ≠ "." ∧ '/' ∉ part.toList := by
  obtain ⟨hmem, hname⟩ := List.mem_filter.mp h
  obtain ⟨chars, hchars, rfl⟩ := List.mem_map.mp hmem
  simp only [Bool.and_eq_true, bne_iff_ne] at hname
  refine ⟨hname.1, hname.2, fun hslash => ?_⟩
  rw [String.toList_ofList] at hslash
  simpa using not_mem_of_splitWhere hchars '/' hslash

theorem splitOnChar_join_posixParts (h : posixParts value ≠ []) :
    splitOnChar '/' (joinWith '/' ((posixParts value).map String.toList)) =
      (posixParts value).map String.toList := by
  apply splitOnChar_joinWith (by rwa [Ne, List.map_eq_nil_iff])
  intro part hpart
  obtain ⟨name, hname, rfl⟩ := List.mem_map.mp hpart
  exact (posixParts_components hname).2.2

@[simp] theorem posixParts_asPosix (value : String) :
    posixParts (asPosix value) = posixParts value := by
  by_cases h : posixParts value = []
  · rw [h, asPosix, h]
    rfl
  · rw [asPosix_of_ne_nil h, posixParts, String.toList_ofList, splitOnChar_join_posixParts h,
      List.map_map, show String.ofList ∘ String.toList = id from
        funext fun s => String.ofList_toList, List.map_id, List.filter_eq_self]
    intro part hpart
    obtain ⟨hne, hdot, -⟩ := posixParts_components hpart
    simp [hne, hdot]

theorem asPosix_congr {other : String} (h : posixParts value = posixParts other) :
    asPosix value = asPosix other := by
  unfold asPosix
  rw [h]

theorem normal_of_validatePath (h : validatePath raw = .ok path) : Normal path := by
  unfold validatePath at h
  split_ifs at h with hunsafe
  · cases h
  · obtain rfl := Except.ok.inj h
    exact asPosix_congr (posixParts_asPosix raw)

namespace Normal

theorem eq_of_posixParts (hlead : Normal lead) (hpath : Normal path)
    (h : posixParts lead = posixParts path) : lead = path := by
  rw [← hlead, ← hpath, asPosix_congr h]

theorem eq_dot_iff (h : Normal path) : path = "." ↔ posixParts path = [] := by
  constructor
  · rintro rfl
    rfl
  · intro hnil
    rw [← h, asPosix, hnil]

theorem toList_eq (h : Normal path) (hne : posixParts path ≠ []) :
    path.toList = joinWith '/' ((posixParts path).map String.toList) := by
  conv_lhs => rw [← h, asPosix_of_ne_nil hne]
  exact String.toList_ofList

theorem splitOnChar_toList (h : Normal path) (hne : posixParts path ≠ []) :
    splitOnChar '/' path.toList = (posixParts path).map String.toList := by
  rw [h.toList_eq hne, splitOnChar_join_posixParts hne]

theorem toList_append (hlead : Normal lead) (hpath : Normal path) (hne : posixParts lead ≠ [])
    {rest : List String} (hrest : rest ≠ []) (h : posixParts path = posixParts lead ++ rest) :
    path.toList = lead.toList ++ '/' :: joinWith '/' (rest.map String.toList) := by
  rw [hpath.toList_eq (by simp [h, hne]), hlead.toList_eq hne, h, List.map_append,
    joinWith_append (by simpa using hne) (by simpa using hrest)]

theorem ancestor_of_toList (hlead : Normal lead) (hpath : Normal path)
    (h : lead.toList ++ ['/'] <+: path.toList) : posixParts lead ≠ [] ∧ Ancestor lead path := by
  obtain ⟨rest, hrest⟩ := h
  rw [List.append_assoc, List.singleton_append] at hrest
  have hne : posixParts path ≠ [] := by
    intro hnil
    have hslash : '/' ∈ path.toList := by simp [← hrest]
    rw [hpath.eq_dot_iff.mpr hnil] at hslash
    exact absurd hslash (by decide)
  have hparts := hpath.splitOnChar_toList hne
  have hroot : posixParts lead ≠ [] := by
    intro hnil
    rw [hlead.eq_dot_iff.mpr hnil] at hrest
    rw [← hrest, splitOnChar_append (by decide)] at hparts
    obtain ⟨part, hmem, hpart⟩ := List.mem_map.mp (hparts ▸ List.mem_cons_self)
    exact (posixParts_components hmem).2.1 (String.toList_injective hpart)
  refine ⟨hroot, ?_⟩
  rw [← hrest, hlead.toList_eq hroot] at hparts
  rw [splitOnChar_joinWith_append (by simpa using hroot)] at hparts
  · exact (List.prefix_map_iff_of_injective fun _ _ h => String.toList_injective h).mp ⟨_, hparts⟩
  · intro part hpart
    obtain ⟨name, hname, rfl⟩ := List.mem_map.mp hpart
    exact (posixParts_components hname).2.2

end Normal

/-- The text test of `classification_for`. -/
def below (lead path : String) : Bool :=
  path == lead || (lead ++ "/").toList.isPrefixOf path.toList

theorem below_iff (hlead : Normal lead) (hpath : Normal path) :
    below lead path = true ↔ Ancestor lead path ∧ (lead = "." → path = ".") := by
  simp only [below, Bool.or_eq_true, beq_iff_eq, List.isPrefixOf_iff_prefix, String.toList_append]
  constructor
  · rintro (rfl | hprefix)
    · exact ⟨List.prefix_rfl, id⟩
    · obtain ⟨hroot, hancestor⟩ := hlead.ancestor_of_toList hpath hprefix
      exact ⟨hancestor, fun hdot => absurd (hlead.eq_dot_iff.mp hdot) hroot⟩
  · rintro ⟨⟨rest, hrest⟩, hdot⟩
    by_cases hnil : posixParts lead = []
    · have hlead' := hlead.eq_dot_iff.mpr hnil
      exact .inl ((hdot hlead').trans hlead'.symm)
    · by_cases hequal : rest = []
      · refine .inl (hpath.eq_of_posixParts hlead ?_)
        rw [← hrest, hequal, List.append_nil]
      · refine .inr ⟨joinWith '/' (rest.map String.toList), ?_⟩
        rw [hlead.toList_append hpath hnil hequal hrest.symm, List.append_assoc]
        rfl

/-- Below a path the ancestors are in a chain, and a longer one has a longer text. -/
theorem Normal.length_lt (hlead : Normal lead) {other : String} (hother : Normal other)
    (hroot : posixParts lead ≠ []) (h : Ancestor lead other) (hne : lead ≠ other) :
    lead.length < other.length := by
  obtain ⟨rest, hrest⟩ := h
  have hrest' : rest ≠ [] := by
    rintro rfl
    rw [List.append_nil] at hrest
    exact hne (hlead.eq_of_posixParts hother hrest)
  rw [← String.length_toList, ← String.length_toList,
    hlead.toList_append hother hroot hrest' hrest.symm, List.length_append, List.length_cons]
  omega

def mapItems (values : List String) : List (List Char) :=
  values.flatMap fun value => (splitOnChar ',' value.toList).filter (· ≠ [])

def Maps (values : List String) (lead : String) (declared : Classification) : Prop :=
  ∃ item ∈ mapItems values, parseItem item = .ok (lead, declared)

def Readable (values : List String) : Prop :=
  ∀ item ∈ mapItems values, ∃ entry, parseItem item = .ok entry

def Consistent (values : List String) : Prop :=
  ∀ lead declared other, Maps values lead declared → Maps values lead other → declared = other

theorem parseItem_normal {item : List Char} {declared : Classification}
    (h : parseItem item = .ok (lead, declared)) : Normal lead := by
  unfold parseItem at h
  split_ifs at h
  · obtain ⟨path, hpath, h⟩ := bind_eq_ok.mp h
    split at h
    · cases h
    · obtain ⟨rfl, rfl⟩ := Prod.mk.inj (Except.ok.inj h)
      exact normal_of_validatePath hpath
  · cases h

def RefusalOnly (failure : Failure) : Prop := ∃ error, failure = .refused error

theorem refuse_raises {α : Type} (error : ProvenanceError) :
    RaisesOnly RefusalOnly (refuse error : Except Failure α) := .error ⟨error, rfl⟩

theorem parseItem_raises (item : List Char) : RaisesOnly RefusalOnly (parseItem item) := by
  unfold parseItem
  split_ifs
  · apply RaisesOnly.bind
    · unfold validatePath
      split_ifs
      · exact refuse_raises _
      · exact .ok _
    · intro path _
      split
      · exact refuse_raises _
      · exact .ok _
  · exact refuse_raises _

theorem addItem_raises (result : ClassificationMap) (item : List Char) :
    RaisesOnly RefusalOnly (addItem result item) := by
  apply RaisesOnly.bind (parseItem_raises item)
  rintro ⟨lead, declared⟩ _
  dsimp only
  cases result.lookup lead with
  | none => exact .ok _
  | some previous =>
    dsimp only
    split_ifs
    · exact .ok _
    · exact refuse_raises _

/-- What the map holds once some entries are read. -/
structure Holds (items : List (List Char)) (result : ClassificationMap) : Prop where
  mem_iff : ∀ lead declared,
    (lead, declared) ∈ result ↔ ∃ item ∈ items, parseItem item = .ok (lead, declared)
  keys_nodup : (result.map Prod.fst).Nodup
  readable : ∀ item ∈ items, ∃ entry, parseItem item = .ok entry

namespace Holds

variable {items : List (List Char)} {item : List Char} {result result' : ClassificationMap}
  {declared other : Classification}

theorem nil : Holds [] [] := ⟨by simp, by simp, by simp⟩

theorem unique (h : Holds items result) (hmem : (lead, declared) ∈ result)
    (hmem' : (lead, other) ∈ result) : declared = other := by
  rw [← lookup_eq_some_iff_mem h.keys_nodup] at hmem hmem'
  exact Option.some.inj (hmem.symm.trans hmem')

theorem extend (h : Holds items result) (hitem : parseItem item = .ok (lead, declared))
    (hkeys : (result'.map Prod.fst).Nodup)
    (hresult : ∀ entry, entry ∈ result' ↔ entry ∈ result ∨ entry = (lead, declared)) :
    Holds (items ++ [item]) result' where
  mem_iff := by
    intro other otherDeclared
    rw [hresult, h.mem_iff]
    simp only [List.mem_append, List.mem_singleton, or_and_right, exists_or, exists_eq_left, hitem,
      Except.ok.injEq, eq_comm (a := (other, otherDeclared))]
  keys_nodup := hkeys
  readable := by
    simp only [List.mem_append, List.mem_singleton]
    rintro _ (hmem | rfl)
    · exact h.readable _ hmem
    · exact ⟨_, hitem⟩

theorem addItem (h : Holds items result) (hadd : addItem result item = .ok result') :
    Holds (items ++ [item]) result' := by
  obtain ⟨⟨lead, declared⟩, hitem, hadd⟩ := bind_eq_ok.mp hadd
  dsimp only at hadd
  cases hlookup : result.lookup lead with
  | none =>
    simp only [hlookup, Except.ok.injEq] at hadd
    subst hadd
    apply h.extend hitem
    · rw [List.map_append, List.nodup_append]
      refine ⟨h.keys_nodup, List.nodup_singleton _, ?_⟩
      intro key hkey _ hnew
      obtain rfl := List.mem_singleton.mp hnew
      rintro rfl
      obtain ⟨held, hmem, rfl⟩ := List.mem_map.mp hkey
      simpa using List.lookup_eq_none_iff.mp hlookup held hmem
    · simp
  | some previous =>
    simp only [hlookup] at hadd
    split_ifs at hadd with hsame
    · obtain rfl := Except.ok.inj hadd
      subst hsame
      apply h.extend hitem h.keys_nodup
      intro entry
      constructor
      · exact .inl
      · rintro (hmem | rfl)
        · exact hmem
        · exact (lookup_eq_some_iff_mem h.keys_nodup).mp hlookup
    · cases hadd

theorem foldlM (h : Holds items result) {more : List (List Char)}
    (hfold : more.foldlM Licensing.addItem result = .ok result') : Holds (items ++ more) result' := by
  induction more generalizing items result with
  | nil =>
    obtain rfl := pure_eq_ok.mp hfold
    simpa using h
  | cons item more ih =>
    rw [List.foldlM_cons] at hfold
    obtain ⟨next, hadd, hfold⟩ := bind_eq_ok.mp hfold
    simpa using ih (h.addItem hadd) hfold

theorem exists_foldlM (h : Holds items result) {more : List (List Char)}
    (hread : ∀ item ∈ more, ∃ entry, parseItem item = .ok entry)
    (hsame : ∀ lead declared other,
      (∃ item ∈ items ++ more, parseItem item = .ok (lead, declared)) →
      (∃ item ∈ items ++ more, parseItem item = .ok (lead, other)) → declared = other) :
    ∃ result', more.foldlM Licensing.addItem result = .ok result' := by
  induction more generalizing items result with
  | nil => exact ⟨result, rfl⟩
  | cons item more ih =>
    obtain ⟨⟨lead, declared⟩, hitem⟩ := hread item (by simp)
    obtain ⟨next, hadd⟩ : ∃ next, Licensing.addItem result item = .ok next := by
      unfold Licensing.addItem
      rw [hitem, ok_bind]
      dsimp only
      cases hlookup : result.lookup lead with
      | none => exact ⟨_, rfl⟩
      | some previous =>
        obtain ⟨old, hold, hparse⟩ := (h.mem_iff _ _).mp (mem_of_lookup_eq_some hlookup)
        have hequal : previous = declared :=
          hsame lead previous declared ⟨old, by simp [hold], hparse⟩ ⟨item, by simp, hitem⟩
        exact ⟨result, if_pos hequal⟩
    rw [List.foldlM_cons, hadd, ok_bind]
    apply ih (h.addItem hadd)
    · exact fun other hother => hread other (by simp [hother])
    · simpa using hsame

end Holds

section Parse

variable {values values' : List String} {mapping mapping' : ClassificationMap}

theorem holds_of_parse (h : parseClassificationMaps values = .ok mapping) :
    Holds (mapItems values) mapping := by
  have hholds := Holds.nil.foldlM h
  exact hholds

theorem Holds.mem_maps (h : Holds (mapItems values) mapping) {declared : Classification} :
    (lead, declared) ∈ mapping ↔ Maps values lead declared := h.mem_iff lead declared

theorem parse_eq_ok_iff :
    (∃ mapping, parseClassificationMaps values = .ok mapping) ↔
      Readable values ∧ Consistent values := by
  constructor
  · rintro ⟨mapping, hparse⟩
    have h := holds_of_parse hparse
    refine ⟨h.readable, fun lead declared other hone htwo => ?_⟩
    exact h.unique (h.mem_maps.mpr hone) (h.mem_maps.mpr htwo)
  · rintro ⟨hread, hsame⟩
    exact Holds.nil.exists_foldlM hread hsame

theorem parse_refused (h : ¬(Readable values ∧ Consistent values)) :
    ∃ error, parseClassificationMaps values = refuse error := by
  have hraises : RaisesOnly RefusalOnly (parseClassificationMaps values) :=
    .foldlM (fun result item _ => addItem_raises result item) []
  cases hparse : parseClassificationMaps values with
  | ok mapping => exact absurd (parse_eq_ok_iff.mp ⟨mapping, hparse⟩) h
  | error failure =>
    obtain ⟨error, rfl⟩ := hraises failure hparse
    exact ⟨error, rfl⟩

theorem Holds.normal (h : Holds (mapItems values) mapping) {entry : String × Classification}
    (hmem : entry ∈ mapping) : Normal entry.1 := by
  obtain ⟨item, -, hitem⟩ := (h.mem_iff entry.1 entry.2).mp hmem
  exact parseItem_normal hitem

theorem maps_of_perm (h : (mapItems values).Perm (mapItems values')) {declared : Classification} :
    Maps values lead declared ↔ Maps values' lead declared := by
  simp only [Maps, h.mem_iff]

theorem accepted_of_perm (h : (mapItems values).Perm (mapItems values')) :
    Readable values ∧ Consistent values ↔ Readable values' ∧ Consistent values' := by
  simp only [Readable, Consistent, h.mem_iff, maps_of_perm h]

end Parse

/-- The class of a prefix that the text test accepts and that is longer than the others it
accepts. -/
def Longest (mapping : ClassificationMap) (path : String) (declared : Classification) : Prop :=
  ∃ lead, (lead, declared) ∈ mapping ∧ below lead path = true ∧
    ∀ entry ∈ mapping, below entry.1 path = true →
      entry.1 = lead ∨ (posixParts entry.1).length < (posixParts lead).length

section Lookup

variable {values values' : List String} {mapping mapping' : ClassificationMap}
  {declared : Classification}

/-- Of two prefixes of a path, the one with the longer text has more components. -/
theorem shorter_of_key_le {other : String} (hlead : Normal lead) (hother : Normal other)
    (hpath : Normal path) (hbelow : below lead path = true) (hbelow' : below other path = true)
    (hkey : toLex (other.length, other) ≤ toLex (lead.length, lead)) :
    other = lead ∨ (posixParts other).length < (posixParts lead).length := by
  obtain ⟨hancestor, hdot⟩ := (below_iff hlead hpath).mp hbelow
  obtain ⟨hancestor', hdot'⟩ := (below_iff hother hpath).mp hbelow'
  by_cases hsame : lead = other
  · exact .inl hsame.symm
  rcases Nat.lt_or_ge (posixParts other).length (posixParts lead).length with hlt | hge
  · exact .inr hlt
  · have hroot : posixParts lead ≠ [] := by
      intro hnil
      have hpath' := hdot (hlead.eq_dot_iff.mpr hnil)
      rw [Ancestor, hpath.eq_dot_iff.mp hpath', List.prefix_nil] at hancestor'
      exact hsame (hlead.eq_of_posixParts hother (hnil.trans hancestor'.symm))
    have hchain : Ancestor lead other := List.prefix_of_prefix_length_le hancestor hancestor' hge
    have hlt := hlead.length_lt hother hroot hchain hsame
    rw [Prod.Lex.le_iff] at hkey
    simp only [ofLex_toLex] at hkey
    omega

theorem classificationFor_eq_some (h : Holds (mapItems values) mapping) (hpath : Normal path) :
    classificationFor path mapping = some declared ↔ Longest mapping path declared := by
  let candidates := mapping.filter fun entry =>
    path == entry.1 || (entry.1 ++ "/").toList.isPrefixOf path.toList
  have hdef : classificationFor path mapping =
      (candidates.argmax fun entry => toLex (entry.1.length, entry.1)).map Prod.snd := rfl
  rw [hdef]
  have hmem : ∀ entry, entry ∈ candidates ↔ entry ∈ mapping ∧ below entry.1 path = true := by
    intro entry
    exact List.mem_filter
  have hbest : ∀ best, candidates.argmax (fun entry => toLex (entry.1.length, entry.1)) = some best →
      best ∈ mapping ∧ below best.1 path = true ∧ ∀ entry ∈ mapping, below entry.1 path = true →
        entry.1 = best.1 ∨ (posixParts entry.1).length < (posixParts best.1).length := by
    intro best hargmax
    obtain ⟨hin, hbelow⟩ := (hmem best).mp (List.argmax_mem hargmax)
    refine ⟨hin, hbelow, fun entry hentry hbelow' => ?_⟩
    have hkey := List.le_of_mem_argmax ((hmem entry).mpr ⟨hentry, hbelow'⟩) hargmax
    exact shorter_of_key_le (h.normal hin) (h.normal hentry) hpath hbelow hbelow' hkey
  constructor
  · intro hfound
    obtain ⟨best, hargmax, rfl⟩ := Option.map_eq_some_iff.mp hfound
    exact ⟨best.1, hbest best hargmax⟩
  · rintro ⟨lead, hin, hbelow, hlongest⟩
    cases hargmax : candidates.argmax fun entry => toLex (entry.1.length, entry.1) with
    | none =>
      have hcandidate := (hmem (lead, declared)).mpr ⟨hin, hbelow⟩
      rw [List.argmax_eq_none.mp hargmax] at hcandidate
      cases hcandidate
    | some best =>
      obtain ⟨found, class'⟩ := best
      obtain ⟨hfound, hbelow', hlongest'⟩ := hbest (found, class') hargmax
      have hsame : found = lead := by
        rcases hlongest (found, class') hfound hbelow' with hsame | hlt
        · exact hsame
        · rcases hlongest' (lead, declared) hin hbelow with hsame | hlt'
          · exact hsame.symm
          · exact absurd hlt (Nat.lt_asymm hlt')
      subst hsame
      exact congrArg some (h.unique hfound hin)

theorem classificationFor_eq_none :
    classificationFor path mapping = none ↔ ∀ entry ∈ mapping, below entry.1 path = false := by
  unfold classificationFor
  rw [Option.map_eq_none_iff, List.argmax_eq_none, List.filter_eq_nil_iff]
  simp only [Bool.not_eq_true]
  rfl

theorem longest_of_perm (h : Holds (mapItems values) mapping)
    (h' : Holds (mapItems values') mapping')
    (hperm : (mapItems values).Perm (mapItems values')) :
    Longest mapping path declared ↔ Longest mapping' path declared := by
  have hmem : ∀ entry, entry ∈ mapping ↔ entry ∈ mapping' := by
    rintro ⟨lead, declared⟩
    rw [h.mem_maps, h'.mem_maps, maps_of_perm hperm]
  simp only [Longest, hmem]

end Lookup

/-- The class of the longest mapped prefix at or above the path. -/
def Nearest (values : List String) (path : String) (declared : Classification) : Prop :=
  ∃ lead, Maps values lead declared ∧ Ancestor lead path ∧
    ∀ other class', Maps values other class' → Ancestor other path →
      other = lead ∨ (posixParts other).length < (posixParts lead).length

/-- What the two functions owe for these map values and this path. -/
structure LookupContract (values : List String) (path : String) : Prop where
  /-- Two classes for one prefix are refused. -/
  conflicts : ∀ lead declared other, Maps values lead declared → Maps values lead other →
    declared ≠ other → ∃ error, parseClassificationMaps values = refuse error
  /-- The order of the entries decides neither acceptance nor the class. -/
  accepted : ∀ values', (mapItems values).Perm (mapItems values') →
    ((∃ mapping, parseClassificationMaps values = .ok mapping) ↔
      ∃ mapping, parseClassificationMaps values' = .ok mapping)
  ordered : ∀ values' mapping mapping', (mapItems values).Perm (mapItems values') →
    parseClassificationMaps values = .ok mapping → parseClassificationMaps values' = .ok mapping' →
      classificationFor path mapping = classificationFor path mapping'
  nearest : ∀ mapping declared, parseClassificationMaps values = .ok mapping →
    (classificationFor path mapping = some declared ↔ Nearest values path declared)
  missing : ∀ mapping, parseClassificationMaps values = .ok mapping →
    (classificationFor path mapping = none ↔
      ∀ lead declared, Maps values lead declared → ¬Ancestor lead path)

/-- The root is not mapped, or it is not needed: the path is the root itself, or
another prefix leads to the path. -/
def RootNotNeeded (values : List String) (path : String) : Prop :=
  ∀ declared, Maps values "." declared →
    path = "." ∨ ∃ lead class', Maps values lead class' ∧ lead ≠ "." ∧ Ancestor lead path

section Contract

variable {values : List String}

theorem Maps.normal {declared : Classification} (h : Maps values lead declared) : Normal lead := by
  obtain ⟨item, -, hitem⟩ := h
  exact parseItem_normal hitem

theorem ancestor_dot (path : String) : Ancestor "." path := List.nil_prefix

/-- The contract asks for the nearest prefix among all; the code takes it among
those its text test accepts. -/
theorem nearest_iff_longest {mapping : ClassificationMap} (h : Holds (mapItems values) mapping)
    (hpath : Normal path) (hroot : RootNotNeeded values path) (declared : Classification) :
    Nearest values path declared ↔ Longest mapping path declared := by
  have hbelow : ∀ {lead declared}, Maps values lead declared → below lead path = true →
      Ancestor lead path :=
    fun hmaps hbelow => ((below_iff hmaps.normal hpath).mp hbelow).1
  constructor
  · rintro ⟨lead, hmaps, hancestor, hlongest⟩
    refine ⟨lead, h.mem_maps.mpr hmaps, (below_iff hmaps.normal hpath).mpr ⟨hancestor, ?_⟩, ?_⟩
    · rintro rfl
      rcases hroot declared hmaps with hpath' | ⟨other, class', hother, hne, habove⟩
      · exact hpath'
      · rcases hlongest other class' hother habove with hsame | hlt
        · exact absurd hsame hne
        · exact absurd hlt (Nat.not_lt_zero _)
    · intro entry hentry htest
      have hmaps' := h.mem_maps.mp hentry
      exact hlongest entry.1 entry.2 hmaps' (hbelow hmaps' htest)
  · rintro ⟨lead, hin, htest, hlongest⟩
    have hmaps := h.mem_maps.mp hin
    refine ⟨lead, hmaps, hbelow hmaps htest, fun other class' hother habove => ?_⟩
    by_cases hdot : other = "." ∧ path ≠ "."
    · obtain ⟨rfl, hne⟩ := hdot
      -- the root is shorter than a prefix that passes the test below another path
      have hlead := ((below_iff hmaps.normal hpath).mp htest).2
      refine .inr (List.length_pos_iff.mpr fun hnil => ?_)
      exact hne (hlead (hmaps.normal.eq_dot_iff.mpr hnil))
    · apply hlongest (other, class') (h.mem_maps.mpr hother)
      refine (below_iff hother.normal hpath).mpr ⟨habove, fun heq => ?_⟩
      by_contra hne
      exact hdot ⟨heq, hne⟩

/-- Without a need for the root a path is unmapped exactly when the text test finds nothing. -/
theorem none_below_iff {mapping : ClassificationMap} (h : Holds (mapItems values) mapping)
    (hpath : Normal path) (hroot : RootNotNeeded values path) :
    (∀ entry ∈ mapping, below entry.1 path = false) ↔
      ∀ lead declared, Maps values lead declared → ¬Ancestor lead path := by
  have hbelow : ∀ {lead declared}, Maps values lead declared → Ancestor lead path →
      (lead = "." → path = ".") → below lead path = true :=
    fun hmaps hancestor hdot => (below_iff hmaps.normal hpath).mpr ⟨hancestor, hdot⟩
  constructor
  · intro hnone lead declared hmaps hancestor
    have hfalse : ∀ {lead declared}, Maps values lead declared → below lead path ≠ true := by
      intro lead declared hmaps htrue
      have hno := hnone (lead, declared) (h.mem_maps.mpr hmaps)
      exact absurd (hno.symm.trans htrue) (by decide)
    by_cases hdot : lead = "."
    · subst hdot
      rcases hroot declared hmaps with hpath' | ⟨other, class', hother, hne, habove⟩
      · exact hfalse hmaps (hbelow hmaps hancestor fun _ => hpath')
      · exact hfalse hother (hbelow hother habove fun heq => absurd heq hne)
    · exact hfalse hmaps (hbelow hmaps hancestor fun heq => absurd heq hdot)
  · intro hnone entry hentry
    have hmaps := h.mem_maps.mp hentry
    rw [← Bool.not_eq_true]
    intro htrue
    exact hnone entry.1 entry.2 hmaps ((below_iff hmaps.normal hpath).mp htrue).1

/-- The contract is met unless the values are accepted, the root is mapped and the path needs it. -/
theorem lookupContract_iff (raw path : String) (hvalid : validatePath raw = .ok path) :
    LookupContract values path ↔
      (Readable values ∧ Consistent values → RootNotNeeded values path) := by
  have hpath := normal_of_validatePath hvalid
  constructor
  · intro hcontract haccepted declared hmaps
    by_contra hneeded
    simp only [not_or, not_exists, not_and] at hneeded
    obtain ⟨hne, hother⟩ := hneeded
    obtain ⟨mapping, hparse⟩ := parse_eq_ok_iff.mpr haccepted
    have h := holds_of_parse hparse
    have hnone : classificationFor path mapping = none := by
      rw [classificationFor_eq_none]
      intro entry hentry
      have hmaps' := h.mem_maps.mp hentry
      rw [← Bool.not_eq_true, below_iff hmaps'.normal hpath]
      rintro ⟨hancestor, hdot⟩
      by_cases heq : entry.1 = "."
      · exact hne (hdot heq)
      · exact hother entry.1 entry.2 hmaps' heq hancestor
    exact (hcontract.missing mapping hparse).mp hnone "." declared hmaps (ancestor_dot path)
  · intro hroot
    refine ⟨?_, ?_, ?_, ?_, ?_⟩
    · intro lead declared other hone htwo hne
      exact parse_refused fun haccepted => hne (haccepted.2 lead declared other hone htwo)
    · intro values' hperm
      rw [parse_eq_ok_iff, parse_eq_ok_iff, accepted_of_perm hperm]
    · intro values' mapping mapping' hperm hparse hparse'
      have h := holds_of_parse hparse
      have h' := holds_of_parse hparse'
      ext declared
      rw [classificationFor_eq_some h hpath, classificationFor_eq_some h' hpath,
        longest_of_perm h h' hperm]
    · intro mapping declared hparse
      have h := holds_of_parse hparse
      rw [classificationFor_eq_some h hpath,
        nearest_iff_longest h hpath (hroot (parse_eq_ok_iff.mp ⟨mapping, hparse⟩))]
    · intro mapping hparse
      rw [classificationFor_eq_none,
        none_below_iff (holds_of_parse hparse) hpath (hroot (parse_eq_ok_iff.mp ⟨mapping, hparse⟩))]

/-- The root is mapped, and a longer prefix leads to the path. -/
theorem lookupContract_longest :
    Maps [".=project-apache,src=existing-mit"] "." .projectApache ∧
      LookupContract [".=project-apache,src=existing-mit"] "src/legacy.py" := by
  have hroot : Maps [".=project-apache,src=existing-mit"] "." .projectApache :=
    ⟨".=project-apache".toList, by decide, rfl⟩
  have hlonger : Maps [".=project-apache,src=existing-mit"] "src" .existingMit :=
    ⟨"src=existing-mit".toList, by decide, rfl⟩
  refine ⟨hroot, (lookupContract_iff "./src//legacy.py" "src/legacy.py" rfl).mpr ?_⟩
  intro _ declared _
  have hleads : Ancestor "src" "src/legacy.py" := ⟨["legacy.py"], by decide⟩
  exact .inr ⟨"src", _, hlonger, by decide, hleads⟩

/-- The root is mapped and is an ancestor of the file, and the lookup finds nothing. -/
theorem mapped_root_missed : ¬LookupContract [".=project-apache"] "a.py" := by
  intro h
  have hparse : parseClassificationMaps [".=project-apache"] = .ok [(".", .projectApache)] := rfl
  have hnone : classificationFor "a.py" [(".", .projectApache)] = none := rfl
  have hmaps : Maps [".=project-apache"] "." .projectApache :=
    ⟨".=project-apache".toList, by decide, rfl⟩
  exact (h.missing _ hparse).mp hnone "." .projectApache hmaps (ancestor_dot "a.py")

end Contract

end ChampionRuntime.Licensing
