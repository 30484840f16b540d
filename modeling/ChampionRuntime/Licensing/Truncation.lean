import ChampionRuntime.Lib.Utf8
import ChampionRuntime.Licensing.StagedDiff

/-!
# A truncated difference

`staged_changes` on the bytes that git printed. The last field need not be terminated,
so a cut inside the last path of a line leaves a shorter path, which is read as the path.
-/
namespace ChampionRuntime.Licensing

open Lib Lib.Json Lib.PyText
open Receipts (Bytes)

inductive StagedError where
  /-- a `UnicodeDecodeError`, which the script does not catch -/
  | notUtf8
  | failure (cause : Failure)

/-- `staged_changes` on the output of the command. -/
def changesOf (raw : Bytes) : Except StagedError (List Change) :=
  match decode raw with
  | none => .error .notUtf8
  | some text => (parseChanges (stagedFields text)).mapError .failure

/-- A `ProvenanceError` is raised. -/
def Refused {α : Type} (result : Except Failure α) : Prop := ∃ error, result = refuse error

/-- The call ends with a `ProvenanceError`. -/
def RaisesProvenanceError (result : Except StagedError (List Change)) : Prop :=
  ∃ error, result = .error (.failure (.refused error))

/-- The bytes of `git diff --name-status -z`. -/
def diffBytes (records : List DiffRecord) : Bytes := encode (renderDiff records)

namespace DiffRecord

def lead (r : DiffRecord) : List Char := r.fields.dropLast.flatMap fun field => field ++ ['\x00']

def lastPath (r : DiffRecord) : List Char := r.fields.getLastD []

/-- What a cut leaves of the line are whole characters, and either none of the last path
or a path that `validate_path` refuses. -/
def CutSeen (r : DiffRecord) (cut : Bytes) : Prop :=
  ∃ kept, decode cut = some kept ∧
    (kept.length ≤ r.lead.length ∨
      Refused (validatePath (String.ofList (kept.drop r.lead.length))))

theorem fields_eq (r : DiffRecord) : r.fields = r.fields.dropLast ++ [r.lastPath] := by
  cases r <;> rfl

theorem render_eq (r : DiffRecord) : renderDiff [r] = r.lead ++ r.lastPath ++ ['\x00'] := by
  have h : renderDiff [r] = r.fields.flatMap fun field => field ++ ['\x00'] := by
    simp [renderDiff]
  rw [h, fields_eq]
  simp [lead]

end DiffRecord

theorem renderDiff_append (records records' : List DiffRecord) :
    renderDiff (records ++ records') = renderDiff records ++ renderDiff records' := by
  simp [renderDiff]

theorem stagedFields_cons {field : List Char} (h : '\x00' ∉ field) (s : List Char) :
    stagedFields (field ++ '\x00' :: s) = String.ofList field :: stagedFields s := by
  have hsplit : splitOnChar '\x00' s ≠ [] := splitWhere_ne_nil s
  have hne : (splitOnChar '\x00' s).map String.ofList ≠ [] := by simpa using hsplit
  simp only [stagedFields]
  rw [splitOnChar_append h, List.map_cons, List.getLast?_cons_of_ne_nil hne,
    List.dropLast_cons_of_ne_nil hne]
  split_ifs <;> rfl

theorem stagedFields_of_not_mem {s : List Char} (h : '\x00' ∉ s) (hne : s ≠ []) :
    stagedFields s = [String.ofList s] := by
  have hs : String.ofList s ≠ "" := fun h => hne (String.ofList_injective h)
  simp [stagedFields, splitOnChar_of_not_mem h, hs]

theorem stagedFields_terminated {fields : List (List Char)} (h : ∀ field ∈ fields, '\x00' ∉ field)
    (s : List Char) :
    stagedFields ((fields.flatMap fun field => field ++ ['\x00']) ++ s) =
      fields.map String.ofList ++ stagedFields s := by
  induction fields with
  | nil => rfl
  | cons field fields ih =>
    obtain ⟨hfield, hfields⟩ := List.forall_mem_cons.mp h
    rw [List.flatMap_cons, List.append_assoc, List.append_assoc, List.singleton_append,
      stagedFields_cons hfield, ih hfields, List.map_cons, List.cons_append]

theorem prefix_terminated {kept field rest : List Char} (h : kept <+: field ++ '\x00' :: rest) :
    kept <+: field ∨ ∃ kept', kept = field ++ '\x00' :: kept' ∧ kept' <+: rest := by
  induction field generalizing kept with
  | nil =>
    cases kept with
    | nil => exact .inl List.nil_prefix
    | cons c kept =>
      obtain ⟨rfl, hrest⟩ := List.cons_prefix_cons.mp h
      exact .inr ⟨kept, rfl, hrest⟩
  | cons d field ih =>
    cases kept with
    | nil => exact .inl List.nil_prefix
    | cons c kept =>
      obtain ⟨rfl, hkept⟩ := List.cons_prefix_cons.mp h
      rcases ih hkept with hkept | ⟨kept', rfl, hrest⟩
      · exact .inl (List.cons_prefix_cons.mpr ⟨rfl, hkept⟩)
      · exact .inr ⟨kept', rfl, hrest⟩

theorem length_stagedFields_le {fields : List (List Char)} (h : ∀ field ∈ fields, '\x00' ∉ field)
    {kept : List Char} (hkept : kept <+: fields.flatMap fun field => field ++ ['\x00']) :
    (stagedFields kept).length ≤ fields.length := by
  induction fields generalizing kept with
  | nil =>
    obtain rfl : kept = [] := List.prefix_nil.mp hkept
    exact le_refl 0
  | cons field fields ih =>
    obtain ⟨hfield, hfields⟩ := List.forall_mem_cons.mp h
    rw [List.flatMap_cons, List.append_assoc, List.singleton_append] at hkept
    rcases prefix_terminated hkept with hkept | ⟨kept', rfl, hrest⟩
    · by_cases hne : kept = []
      · rw [hne]
        exact Nat.zero_le _
      · rw [stagedFields_of_not_mem (fun hmem => hfield (hkept.subset hmem)) hne]
        exact Nat.succ_le_succ (Nat.zero_le _)
    · rw [stagedFields_cons hfield, List.length_cons, List.length_cons]
      exact Nat.succ_le_succ (ih hfields hrest)

theorem stagedFields_head {c : Char} (hc : c ≠ '\x00') (s : List Char) :
    ∃ status fields, stagedFields (c :: s) = String.ofList (c :: status) :: fields := by
  by_cases hmem : '\x00' ∈ s
  · obtain ⟨before, after, hs, hbefore⟩ := List.eq_append_cons_of_mem hmem
    refine ⟨before, stagedFields after, ?_⟩
    rw [hs, ← List.cons_append]
    exact stagedFields_cons (by simp [hc.symm, hbefore]) after
  · exact ⟨s, [], stagedFields_of_not_mem (by simp [hc.symm, hmem]) (by simp)⟩

theorem refused_map {α β : Type} {x : Except Failure α} {f : α → β} :
    Refused (x.map f) ↔ Refused x := by
  unfold Refused
  cases x with
  | ok a => simp [Except.map, refuse]
  | error e => simp [Except.map, refuse]

theorem refused_bind {α β : Type} {x : Except Failure α} {f : α → β} :
    Refused (do let a ← x; .ok (f a)) ↔ Refused x := by
  rw [← refused_map (x := x) (f := f)]
  cases x <;> rfl

theorem parseChanges_short {code : Char} {status : List Char} {fields : List String}
    (h : fields.length < if code = 'R' ∨ code = 'C' then 2 else 1) :
    Refused (parseChanges (String.ofList (code :: status) :: fields)) := by
  rw [parseChanges, String.toList_ofList, List.head?_cons]
  by_cases hcode : code = 'R' ∨ code = 'C'
  · rw [if_pos hcode] at h
    simp only [if_pos hcode]
    rcases fields with _ | ⟨old, _ | ⟨new, fields⟩⟩
    · exact ⟨_, rfl⟩
    · exact ⟨_, rfl⟩
    · simp only [List.length_cons] at h
      omega
  · rw [if_neg hcode] at h
    obtain rfl : fields = [] := List.length_eq_zero_iff.mp (by omega)
    simp only [if_neg hcode]
    exact ⟨_, rfl⟩

theorem parseChanges_records {records : List DiffRecord}
    (h : ∀ r ∈ records, ∀ path ∈ r.named, isTreePath path = true) (rest : List String) :
    parseChanges ((records.flatMap DiffRecord.fields).map String.ofList ++ rest) =
      (parseChanges rest).map (records.map DiffRecord.change ++ ·) := by
  induction records with
  | nil =>
    rw [List.flatMap_nil, List.map_nil, List.nil_append]
    cases parseChanges rest <;> rfl
  | cons r records ih =>
    obtain ⟨hr, hrecords⟩ := List.forall_mem_cons.mp h
    rw [List.flatMap_cons, List.map_append, List.append_assoc, parseChanges_fields hr,
      ih hrecords]
    cases parseChanges rest <;> rfl

namespace DiffRecord

variable {r : DiffRecord}

theorem exists_lead (r : DiffRecord) : ∃ s, r.lead = r.change.code :: s := by
  cases r <;> exact ⟨_, rfl⟩

theorem code_ne (r : DiffRecord) : r.change.code ≠ '\x00' := by
  cases r <;> simp [change]

theorem length_dropLast_fields (r : DiffRecord) : r.fields.dropLast.length =
    if r.change.code = 'R' ∨ r.change.code = 'C' then 2 else 1 := by
  cases r <;> rfl

section Safe

variable (h : ∀ path ∈ r.named, isTreePath path = true)
include h

theorem nul_not_mem_dropLast : ∀ field ∈ r.fields.dropLast, '\x00' ∉ field := by
  intro field hfield
  exact nul_not_mem_fields h field (List.mem_of_mem_dropLast hfield)

theorem nul_not_mem_lastPath : '\x00' ∉ r.lastPath := by
  apply nul_not_mem_fields h
  rw [fields_eq]
  exact List.mem_concat_self

theorem refused_of_lead {kept : List Char} (hne : kept ≠ []) (hkept : kept <+: r.lead) :
    Refused (parseChanges (stagedFields kept)) := by
  have hlength := length_stagedFields_le (nul_not_mem_dropLast h) hkept
  rw [length_dropLast_fields] at hlength
  obtain ⟨lead, hlead⟩ := r.exists_lead
  obtain ⟨c, s, rfl⟩ := List.exists_cons_of_ne_nil hne
  rw [hlead] at hkept
  obtain ⟨rfl, -⟩ := List.cons_prefix_cons.mp hkept
  obtain ⟨status, fields, hfields⟩ := stagedFields_head r.code_ne s
  rw [hfields] at hlength ⊢
  exact parseChanges_short hlength

theorem refused_last_iff (path : List Char) :
    Refused (parseChanges (r.fields.dropLast.map String.ofList ++ [String.ofList path])) ↔
      Refused (validatePath (String.ofList path)) := by
  cases r with
  | added _ | modified _ | typeChanged _ | deleted _ => exact refused_bind
  | renamed _ old _ | copied _ old _ =>
    have hold := validatePath_of_isTreePath (h old (by simp [named, change]))
    rw [← String.ofList_toList (s := old)] at hold
    simp only [fields, List.dropLast, List.map_cons, List.map_nil, List.cons_append,
      List.nil_append, parseChanges, String.toList_ofList, List.head?_cons, hold, ok_bind]
    exact refused_bind

/-- What is left of the line is refused if its last path is gone or what is left of that. -/
theorem refused_cut_iff {kept : List Char} (hne : kept ≠ []) (hkept : kept <+: renderDiff [r])
    (hcut : kept ≠ renderDiff [r]) : Refused (parseChanges (stagedFields kept)) ↔
      kept.length ≤ r.lead.length ∨
        Refused (validatePath (String.ofList (kept.drop r.lead.length))) := by
  have hlead : r.lead <+: renderDiff [r] := by
    rw [render_eq, List.append_assoc]
    exact List.prefix_append _ _
  by_cases hle : kept.length ≤ r.lead.length
  · have hprefix := List.prefix_of_prefix_length_le hkept hlead hle
    exact iff_of_true (refused_of_lead h hne hprefix) (.inl hle)
  · obtain ⟨path, rfl⟩ := List.prefix_of_prefix_length_le hlead hkept (by omega)
    have hpath : path ≠ [] := by
      rintro rfl
      simp at hle
    have hlast : path <+: r.lastPath := by
      rw [render_eq, List.append_assoc, List.prefix_append_right_inj] at hkept
      rcases prefix_terminated hkept with hlast | ⟨rest, rfl, hrest⟩
      · exact hlast
      · obtain rfl := List.prefix_nil.mp hrest
        rw [render_eq, List.append_assoc] at hcut
        exact absurd rfl hcut
    have hnul : '\x00' ∉ path := fun hmem => nul_not_mem_lastPath h (hlast.subset hmem)
    rw [lead, stagedFields_terminated (nul_not_mem_dropLast h),
      stagedFields_of_not_mem hnul hpath, refused_last_iff h, ← lead, List.drop_left]
    exact (or_iff_right hle).symm

end Safe

end DiffRecord

theorem changesOf_encode (text : List Char) :
    changesOf (encode text) = (parseChanges (stagedFields text)).mapError .failure := by
  rw [changesOf, decode_eq_some.mpr rfl]

theorem raises_mapError_iff {result : Except Failure (List Change)} :
    RaisesProvenanceError (result.mapError .failure) ↔ Refused result := by
  unfold RaisesProvenanceError Refused
  cases result with
  | ok changes => simp [Except.mapError, refuse]
  | error cause => simp [Except.mapError, refuse]

theorem raises_changesOf_iff {before : List DiffRecord}
    (h : ∀ r ∈ before, ∀ path ∈ r.named, isTreePath path = true) (cut : Bytes) :
    RaisesProvenanceError (changesOf (diffBytes before ++ cut)) ↔
      ∃ kept, decode cut = some kept ∧ Refused (parseChanges (stagedFields kept)) := by
  have hnul : ∀ field ∈ before.flatMap DiffRecord.fields, '\x00' ∉ field := by
    intro field hfield
    obtain ⟨r, hr, hmem⟩ := List.mem_flatMap.mp hfield
    exact nul_not_mem_fields (h r hr) field hmem
  have hread : ∀ kept, RaisesProvenanceError (changesOf (diffBytes before ++ encode kept)) ↔
      Refused (parseChanges (stagedFields kept)) := by
    intro kept
    rw [diffBytes, ← encode_append, changesOf_encode, raises_mapError_iff, renderDiff,
      stagedFields_terminated hnul, parseChanges_records h, refused_map]
  cases hdecode : decode cut with
  | some kept =>
    rw [decode_eq_some.mp hdecode, hread]
    simp
  | none =>
    apply iff_of_false
    · rintro ⟨error, herror⟩
      unfold changesOf at herror
      split at herror
      · simp at herror
      · rename_i text htext
        obtain ⟨kept, -, hkept⟩ := exists_of_encode_append (decode_eq_some.mp htext).symm
        rw [decode_eq_some.mpr hkept] at hdecode
        contradiction
    · simp

/-- The whole output is read as its lines. A cut inside a line is a `ProvenanceError` exactly
when it splits no character and leaves of the last path nothing or what is refused. -/
theorem staged_changes_truncated_iff {records : List DiffRecord}
    (hsafe : ∀ r ∈ records, ∀ path ∈ r.named, isTreePath path = true) :
    changesOf (diffBytes records) = .ok (records.map DiffRecord.change) ∧
      ∀ before r after, records = before ++ r :: after →
        ∀ n, (diffBytes before).length < n → n < (diffBytes (before ++ [r])).length →
          (RaisesProvenanceError (changesOf ((diffBytes records).take n)) ↔
            r.CutSeen ((diffBytes [r]).take (n - (diffBytes before).length))) := by
  constructor
  · rw [diffBytes, changesOf_encode, parseChanges_renderDiff hsafe]
    rfl
  · rintro before r after rfl n hbefore hn
    have hr := hsafe r (by simp)
    have hsplit : ∀ rest, diffBytes (before ++ rest) = diffBytes before ++ diffBytes rest := by
      intro rest
      rw [diffBytes, renderDiff_append, encode_append]
      rfl
    rw [hsplit, List.length_append] at hn
    have htake : (diffBytes (before ++ r :: after)).take n =
        diffBytes before ++ (diffBytes [r]).take (n - (diffBytes before).length) := by
      have hcons : diffBytes (r :: after) = diffBytes [r] ++ diffBytes after := by
        rw [diffBytes, ← List.singleton_append, renderDiff_append, encode_append]
        rfl
      rw [hsplit, hcons, List.take_append, List.take_of_length_le hbefore.le,
        List.take_append_of_le_length (by omega)]
    rw [htake, raises_changesOf_iff fun r' hr' => hsafe r' (by simp [hr'])]
    apply exists_congr
    intro kept
    apply and_congr_right
    intro hkept
    have hbytes := decode_eq_some.mp hkept
    have hlength : (encode kept).length = n - (diffBytes before).length := by
      rw [← hbytes, List.length_take]
      omega
    apply DiffRecord.refused_cut_iff hr
    · rintro rfl
      simp only [encode_nil, List.length_nil] at hlength
      omega
    · apply prefix_of_encode_append ((diffBytes [r]).drop (n - (diffBytes before).length))
      rw [← hbytes]
      exact List.take_append_drop _ _
    · rintro rfl
      change (diffBytes [r]).length = _ at hlength
      omega

/-- The lines of an added and a renamed file, cut in the old name. -/
theorem staged_changes_truncated_added :
    changesOf (diffBytes [.added "a", .renamed 100 "b.py" "c.py"]) =
        .ok [(DiffRecord.added "a").change, (DiffRecord.renamed 100 "b.py" "c.py").change] ∧
      RaisesProvenanceError
        (changesOf ((diffBytes [.added "a", .renamed 100 "b.py" "c.py"]).take 12)) := by
  have htwo : ∀ r ∈ [DiffRecord.added "a", .renamed 100 "b.py" "c.py"],
      ∀ path ∈ r.named, isTreePath path = true := by decide
  obtain ⟨hwhole, hcut⟩ := staged_changes_truncated_iff htwo
  have hseen : (DiffRecord.renamed 100 "b.py" "c.py").CutSeen
      ((diffBytes [.renamed 100 "b.py" "c.py"]).take (12 - (diffBytes [.added "a"]).length)) :=
    ⟨"R100\x00b.p".toList, by decide, .inl (by decide)⟩
  exact ⟨hwhole, (hcut [.added "a"] _ [] rfl 12 (by decide) (by decide)).mpr hseen⟩

/-- The name `foo.py` is cut, and `foo` is read. -/
theorem truncated_path_accepted :
    changesOf ((diffBytes [.added "foo.py"]).take 5) = .ok [⟨'A', none, some "foo"⟩] ∧
      ¬ RaisesProvenanceError (changesOf ((diffBytes [.added "foo.py"]).take 5)) := by
  have h : changesOf ((diffBytes [.added "foo.py"]).take 5) = .ok [⟨'A', none, some "foo"⟩] := by
    have hcut : (diffBytes [.added "foo.py"]).take 5 = encode ['A', '\x00', 'f', 'o', 'o'] := by
      decide
    rw [hcut, changesOf_encode]
    rfl
  refine ⟨h, ?_⟩
  rintro ⟨error, herror⟩
  rw [h] at herror
  contradiction

end ChampionRuntime.Licensing
