import ChampionRuntime.Scans.Secrets
import Mathlib.Data.List.Forall2

/-!
# The verdict of the secret scan

A scan passes when its baseline is well formed and acknowledges exactly what is found. That an
acknowledged blob belongs to the commit of the baseline is looked up in the listing of git, which
has one path for each blob.
-/
namespace ChampionRuntime.Scans.Secrets

open Lib Lib.PyText
open Lib.Json (Value)

def IsEntry (item : Value) (e : Entry) : Prop :=
  ∃ fields, item = .obj fields ∧ hasKeys fields itemKeys = true ∧
    fields.lookup "rule" = some (.str e.rule) ∧ objectOf (fields.lookup "object") = some e.object ∧
      pathOf (fields.lookup "path") = some e.path ∧ lineOf (fields.lookup "line") = some e.line

/-- The fields of a baseline for a scanned revision, with the entries it accepts. -/
structure WellFormed (git : Git) (revision : String) (fields : Fields) (entries : List Entry) :
    Prop where
  keys : hasKeys fields baselineKeys = true
  version : fields.lookup "schema_version" = some (.str "1.0.0")
  scope : ∃ scope, fields.lookup "base_commit_scope" = some (.str scope) ∧ isObjectId scope = true ∧
    git.commitExists scope = true ∧ git.commitExists revision = true ∧
      git.isAncestor scope revision = true
  justification : ∃ text, fields.lookup "justification" = some (.str text) ∧
    20 ≤ (strip text.toList).length
  accepted : ∃ items, fields.lookup "accepted" = some (.arr items) ∧ items ≠ [] ∧
    List.Forall₂ IsEntry items entries
  distinct : entries.Nodup

namespace Scan

variable (s : Scan)

/-- The entries are those of a well-formed baseline; without a baseline there are none. -/
def HasEntries (entries : List Entry) : Prop :=
  match s.baselineFile with
  | none => entries = []
  | some (.error _) => False
  | some (.ok payload) => s.mode = .source ∧ ∃ fields, payload = .obj fields ∧
      WellFormed s.git s.revision fields entries

def scope : Option Value :=
  match s.baselineFile with
  | some (.ok (.obj fields)) => fields.lookup "base_commit_scope"
  | _ => none

/-- The line of the listing for the scope names the object and the path. -/
def Listed (e : Entry) : Prop := (e.object, e.path) ∈ scopedObjects s.git s.scope

/-- The scope reaches the object under the path. -/
def Reachable (e : Entry) : Prop :=
  ∃ commit, s.scope = some (.str commit) ∧ ∃ h, s.git.history commit = some h ∧
    (e.object, e.path) ∈ h.occurs

/-- The baseline acknowledges what is found: it is well formed, its entries are of the rule that
may be acknowledged, and they are the findings. -/
structure Acknowledges (entries : List Entry) : Prop where
  read : s.HasEntries entries
  rule : ∀ e ∈ entries, e.rule = privateNetwork
  same : ∀ f, f ∈ s.findings ↔ f ∈ entries

/-- The scan passes exactly when the baseline acknowledges what is found with entries that its
commit reaches, and findings of other rules are never taken away. -/
structure Judges (s : Scan) : Prop where
  verdict : s.report.passed = true ↔ ∃ entries, s.Acknowledges entries ∧ ∀ e ∈ entries, s.Reachable e
  reported : ∀ f ∈ s.findings, f.rule ≠ privateNetwork → f ∈ s.report.findings

end Scan

section Item

variable {fields : Fields} {e : Entry} {label : String}

theorem isPrivateNetwork_iff {v : Option Value} :
    isPrivateNetwork v = true ↔ v = some (.str privateNetwork) := by
  unfold isPrivateNetwork
  split
  · rename_i text
    rw [beq_iff_eq]
    constructor
    · rintro rfl
      rfl
    · intro h
      cases h
      rfl
  · rename_i hne
    constructor
    · nofun
    · rintro rfl
      exact absurd rfl (hne _)

theorem entryOf_eq_some : entryOf fields = some e ↔ e.rule = privateNetwork ∧
    fields.lookup "rule" = some (.str e.rule) ∧ objectOf (fields.lookup "object") = some e.object ∧
      pathOf (fields.lookup "path") = some e.path ∧ lineOf (fields.lookup "line") = some e.line := by
  unfold entryOf
  by_cases hrule : isPrivateNetwork (fields.lookup "rule") = true
  · rw [if_pos hrule]
    simp only [Option.bind_eq_bind, Option.bind_eq_some_iff, Option.some.injEq]
    constructor
    · rintro ⟨object, hobject, path, hpath, line, hline, rfl⟩
      exact ⟨rfl, isPrivateNetwork_iff.mp hrule, hobject, hpath, hline⟩
    · obtain ⟨rule, object, path, line⟩ := e
      rintro ⟨rfl, -, hobject, hpath, hline⟩
      exact ⟨object, hobject, path, hpath, line, hline, rfl⟩
  · rw [if_neg hrule]
    constructor
    · nofun
    · rintro ⟨hprivate, hlookup, -⟩
      rw [hprivate] at hlookup
      exact absurd (isPrivateNetwork_iff.mpr hlookup) hrule

theorem ite_eq_nil {α : Type} {c : Prop} [Decidable c] {a : α} :
    (if c then [] else [a]) = [] ↔ c := by
  split_ifs with h <;> simp [h]

theorem fieldErrors_eq_nil : fieldErrors label fields = [] ↔ ∃ e, entryOf fields = some e := by
  simp only [fieldErrors, List.append_eq_nil_iff, ite_eq_nil, entryOf_eq_some]
  constructor
  · rintro ⟨⟨⟨hrule, hobject⟩, hpath⟩, hline⟩
    obtain ⟨object, hobject⟩ := Option.isSome_iff_exists.mp hobject
    obtain ⟨path, hpath⟩ := Option.isSome_iff_exists.mp hpath
    obtain ⟨line, hline⟩ := Option.isSome_iff_exists.mp hline
    exact ⟨⟨privateNetwork, object, path, line⟩, rfl, isPrivateNetwork_iff.mp hrule, hobject, hpath,
      hline⟩
  · rintro ⟨e, hprivate, hrule, hobject, hpath, hline⟩
    rw [hprivate] at hrule
    exact ⟨⟨⟨isPrivateNetwork_iff.mpr hrule, by rw [hobject]; rfl⟩, by rw [hpath]; rfl⟩,
      by rw [hline]; rfl⟩

variable {reachable : List (Name × Path)} {state : BaselineState} {item : Value} {n : ℕ}

/-- The item is a new entry that may be acknowledged. -/
structure Sound (reachable : List (Name × Path)) (before : List Entry) (item : Value) (e : Entry) :
    Prop where
  entry : IsEntry item e
  rule : e.rule = privateNetwork
  listed : (e.object, e.path) ∈ reachable
  fresh : e ∉ before

theorem acceptItem_of_sound (hstate : state.2 = []) (h : Sound reachable state.1 item e) :
    acceptItem reachable state (item, n) = (state.1 ++ [e], []) := by
  obtain ⟨⟨fields, rfl, hkeys, hrule, hobject, hpath, hline⟩, hprivate, hlisted, hfresh⟩ := h
  have hentry : entryOf fields = some e :=
    entryOf_eq_some.mpr ⟨hprivate, hrule, hobject, hpath, hline⟩
  have herrors : ∀ label, fieldErrors label fields = [] := fun _ => fieldErrors_eq_nil.mpr ⟨e, hentry⟩
  simp only [acceptItem, hkeys, if_true, acceptFields, hentry, herrors, hstate, addNew, if_neg hfresh,
    if_pos hlisted, List.append_nil]

theorem sound_of_acceptItem (h : (acceptItem reachable state (item, n)).2 = []) :
    state.2 = [] ∧ ∃ e, Sound reachable state.1 item e := by
  unfold acceptItem at h
  dsimp only at h
  split at h
  · rename_i fields
    split_ifs at h with hkeys
    · unfold acceptFields at h
      dsimp only at h
      split at h
      · rename_i hnone
        obtain ⟨hstate, hfields⟩ := List.append_eq_nil_iff.mp h
        obtain ⟨e, he⟩ := fieldErrors_eq_nil.mp hfields
        rw [hnone] at he
        cases he
      · rename_i e hentry
        simp only [List.append_eq_nil_iff] at h
        obtain ⟨⟨⟨hstate, -⟩, hfresh⟩, hlisted⟩ := h
        obtain ⟨hprivate, hrule, hobject, hpath, hline⟩ := entryOf_eq_some.mp hentry
        refine ⟨hstate, e, ⟨⟨fields, rfl, hkeys, hrule, hobject, hpath, hline⟩, hprivate,
          ite_eq_nil.mp hlisted, fun hmem => ?_⟩⟩
        rw [if_pos hmem] at hfresh
        cases hfresh
    · simp at h
  · simp at h

theorem rule_of_acceptItem (hstate : ∀ e ∈ state.1, e.rule = privateNetwork) :
    ∀ e ∈ (acceptItem reachable state (item, n)).1, e.rule = privateNetwork := by
  unfold acceptItem
  dsimp only
  split
  · split_ifs
    · unfold acceptFields
      dsimp only
      split
      · exact hstate
      · rename_i entry hentry
        intro e he
        dsimp only [addNew] at he
        split_ifs at he
        · exact hstate e he
        · rcases List.mem_append.mp he with he | he
          · exact hstate e he
          · rw [List.mem_singleton.mp he]
            exact (entryOf_eq_some.mp hentry).1
    · exact hstate
  · exact hstate

end Item

section Items

variable {reachable : List (Name × Path)}

/-- Without an error the items are distinct entries that may be acknowledged. -/
theorem entries_of_foldl (items : List Value) : ∀ (n : ℕ) (state : BaselineState),
    ((items.zipIdx n).foldl (acceptItem reachable) state).2 = [] → state.2 = [] ∧
      ∃ entries, List.Forall₂ IsEntry items entries ∧ (∀ e ∈ entries, e.rule = privateNetwork) ∧
        (∀ e ∈ entries, (e.object, e.path) ∈ reachable) ∧ (state.1.Nodup → (state.1 ++ entries).Nodup) ∧
          ((items.zipIdx n).foldl (acceptItem reachable) state).1 = state.1 ++ entries := by
  induction items with
  | nil =>
    intro n state h
    exact ⟨h, [], .nil, by simp, by simp, by simp, by simp⟩
  | cons item items ih =>
    intro n state h
    rw [List.zipIdx_cons, List.foldl_cons] at h ⊢
    obtain ⟨hstep, entries, hentries, hrule, hlisted, hnodup, hresult⟩ := ih _ _ h
    obtain ⟨hstate, e, he⟩ := sound_of_acceptItem hstep
    rw [acceptItem_of_sound hstate he] at hnodup hresult ⊢
    refine ⟨hstate, e :: entries, .cons he.entry hentries, List.forall_mem_cons.mpr ⟨he.rule, hrule⟩,
      List.forall_mem_cons.mpr ⟨he.listed, hlisted⟩, fun hbefore => ?_, ?_⟩
    · have hnew : (state.1 ++ [e]).Nodup := by
        rw [List.nodup_append_comm]
        exact List.nodup_cons.mpr ⟨he.fresh, hbefore⟩
      simpa using hnodup hnew
    · simpa using hresult

theorem foldl_of_entries {items : List Value} {entries : List Entry}
    (hentries : List.Forall₂ IsEntry items entries) : ∀ (n : ℕ) (state : BaselineState),
    state.2 = [] → (∀ e ∈ entries, e.rule = privateNetwork) →
      (∀ e ∈ entries, (e.object, e.path) ∈ reachable) → (state.1 ++ entries).Nodup →
        (items.zipIdx n).foldl (acceptItem reachable) state = (state.1 ++ entries, []) := by
  induction hentries with
  | nil =>
    rintro n ⟨before, errors⟩ rfl - - -
    simp
  | @cons item e items entries hitem _ ih =>
    intro n state hstate hrule hlisted hnodup
    obtain ⟨hruleHead, hruleTail⟩ := List.forall_mem_cons.mp hrule
    obtain ⟨hlistedHead, hlistedTail⟩ := List.forall_mem_cons.mp hlisted
    have hfresh : e ∉ state.1 := fun hmem =>
      (List.nodup_append.mp hnodup).2.2 e hmem e List.mem_cons_self rfl
    rw [List.zipIdx_cons, List.foldl_cons,
      acceptItem_of_sound hstate ⟨hitem, hruleHead, hlistedHead, hfresh⟩,
      ih (n + 1) (state.1 ++ [e], []) rfl hruleTail hlistedTail (by simpa using hnodup)]
    simp

theorem rule_of_foldl (items : List (Value × ℕ)) : ∀ state : BaselineState,
    (∀ e ∈ state.1, e.rule = privateNetwork) →
      ∀ e ∈ (items.foldl (acceptItem reachable) state).1, e.rule = privateNetwork := by
  induction items with
  | nil => exact fun state h => h
  | cons item items ih =>
    intro state h
    rw [List.foldl_cons]
    exact ih _ (rule_of_acceptItem h)

end Items

section Baseline

variable {git : Git} {revision : String} {fields : Fields}

theorem scopeErrors_eq_nil {v : Option Value} : scopeErrors git revision v = [] ↔
    ∃ scope, v = some (.str scope) ∧ isObjectId scope = true ∧ git.commitExists scope = true ∧
      git.commitExists revision = true ∧ git.isAncestor scope revision = true := by
  unfold scopeErrors
  split
  · rename_i scope
    simp only [Option.some.injEq, Value.str.injEq, exists_eq_left']
    split_ifs with hid hexists hancestor
    · simp [hid]
    · simp [hexists]
    · constructor
      · nofun
      · rintro ⟨-, -, hrevision, hscope⟩
        simp [hrevision, hscope] at hancestor
    · simpa [not_or] using ⟨by simpa using hid, by simpa using hexists, by simpa using hancestor⟩
  · rename_i hne
    constructor
    · nofun
    · rintro ⟨scope, rfl, -⟩
      exact absurd rfl (hne scope)

theorem headErrors_eq_nil : headErrors git revision fields = [] ↔
    fields.lookup "schema_version" = some (.str "1.0.0") ∧
      (∃ scope, fields.lookup "base_commit_scope" = some (.str scope) ∧ isObjectId scope = true ∧
        git.commitExists scope = true ∧ git.commitExists revision = true ∧
          git.isAncestor scope revision = true) ∧
      ∃ text, fields.lookup "justification" = some (.str text) ∧ 20 ≤ (strip text.toList).length := by
  have hversion : ∀ v, isVersion v = true ↔ v = some (.str "1.0.0") := by
    intro v
    unfold isVersion
    split
    · simp
    · rename_i hne
      constructor
      · nofun
      · rintro rfl
        exact absurd rfl (hne _)
  have hjustification : ∀ v, isJustification v = true ↔
      ∃ text, v = some (.str text) ∧ 20 ≤ (strip text.toList).length := by
    intro v
    unfold isJustification
    split
    · simp
    · rename_i hne
      constructor
      · nofun
      · rintro ⟨text, rfl, -⟩
        exact absurd rfl (hne text)
  simp only [headErrors, List.append_eq_nil_iff, ite_eq_nil, hversion, hjustification,
    scopeErrors_eq_nil, and_assoc]

/-- A payload without errors is well formed, and its entries may be acknowledged. -/
theorem wellFormed_of_payloadEntries {payload : Value}
    (h : (payloadEntries git revision payload).2 = []) : ∃ fields, payload = .obj fields ∧
      WellFormed git revision fields (payloadEntries git revision payload).1 ∧
        (∀ e ∈ (payloadEntries git revision payload).1, e.rule = privateNetwork) ∧
          ∀ e ∈ (payloadEntries git revision payload).1,
            (e.object, e.path) ∈ scopedObjects git (fields.lookup "base_commit_scope") := by
  unfold payloadEntries at h ⊢
  dsimp only at h ⊢
  split at h
  · rename_i fields
    by_cases hkeys : hasKeys fields baselineKeys = true
    · rw [if_pos hkeys] at h
      refine ⟨fields, rfl, ?_⟩
      rw [if_pos hkeys]
      split at h
      · rename_i item items haccepted
        obtain ⟨hhead, entries, hentries, hrule, hlisted, hnodup, hresult⟩ :=
          entries_of_foldl (item :: items) 0 _ h
        obtain ⟨hversion, hscope, hjustification⟩ := headErrors_eq_nil.mp hhead
        rw [List.nil_append] at hresult
        rw [hresult]
        exact ⟨⟨hkeys, hversion, hscope, hjustification, ⟨_, haccepted, by simp, hentries⟩,
          by simpa using hnodup (by simp)⟩, hrule, hlisted⟩
      · simp at h
    · rw [if_neg hkeys] at h
      cases h
  · cases h

theorem payloadEntries_of_wellFormed {entries : List Entry}
    (h : WellFormed git revision fields entries) (hrule : ∀ e ∈ entries, e.rule = privateNetwork)
    (hlisted : ∀ e ∈ entries,
      (e.object, e.path) ∈ scopedObjects git (fields.lookup "base_commit_scope")) :
    payloadEntries git revision (.obj fields) = (entries, []) := by
  have hhead : headErrors git revision fields = [] :=
    headErrors_eq_nil.mpr ⟨h.version, h.scope, h.justification⟩
  obtain ⟨items, haccepted, hne, hentries⟩ := h.accepted
  obtain ⟨item, items, rfl⟩ := List.exists_cons_of_ne_nil hne
  unfold payloadEntries
  simp only [h.keys, if_true, haccepted, hhead]
  exact foldl_of_entries hentries 0 ([], []) rfl hrule hlisted h.distinct

theorem rule_of_payloadEntries {payload : Value} :
    ∀ e ∈ (payloadEntries git revision payload).1, e.rule = privateNetwork := by
  unfold payloadEntries
  dsimp only
  split
  · split_ifs
    · split
      · exact rule_of_foldl _ _ (by simp)
      · simp
    · simp
  · simp

end Baseline

namespace Scan

variable {s : Scan}

theorem rule_of_baseline : ∀ e ∈ s.baseline.1, e.rule = privateNetwork := by
  unfold baseline
  split_ifs
  · simp
  · unfold baselineEntries
    split
    · simp
    · simp
    · exact rule_of_payloadEntries

/-- A baseline without errors has the entries it is read with, and they are listed. -/
theorem hasEntries_of_baseline (h : s.baseline.2 = []) :
    s.HasEntries s.baseline.1 ∧ ∀ e ∈ s.baseline.1, s.Listed e := by
  unfold baseline at h ⊢
  unfold HasEntries Listed scope
  by_cases himage : s.mode ≠ .source ∧ s.baselineFile.isSome = true
  · rw [if_pos himage] at h
    cases h
  · rw [if_neg himage] at h ⊢
    cases hfile : s.baselineFile with
    | none => exact ⟨rfl, by simp [baselineEntries]⟩
    | some file =>
      rw [hfile] at h himage
      have hsource : s.mode = .source := by
        by_contra hmode
        exact himage ⟨hmode, rfl⟩
      cases file with
      | error e => cases h
      | ok payload =>
        obtain ⟨fields, rfl, hformed, -, hlisted⟩ := wellFormed_of_payloadEntries h
        exact ⟨⟨hsource, fields, rfl, hformed⟩, hlisted⟩

theorem baseline_of_hasEntries {entries : List Entry} (h : s.HasEntries entries)
    (hrule : ∀ e ∈ entries, e.rule = privateNetwork) (hlisted : ∀ e ∈ entries, s.Listed e) :
    s.baseline = (entries, []) := by
  unfold HasEntries at h
  unfold Listed scope at hlisted
  unfold baseline
  cases hfile : s.baselineFile with
  | none =>
    rw [hfile] at h
    obtain rfl : entries = [] := h
    simp [baselineEntries]
  | some file =>
    rw [hfile] at h hlisted
    cases file with
    | error e => cases h
    | ok payload =>
      obtain ⟨hsource, fields, rfl, hformed⟩ := h
      rw [if_neg (by simp [hsource])]
      exact payloadEntries_of_wellFormed hformed hrule hlisted

theorem passed_iff : s.report.passed = true ↔
    s.baseline.2 = [] ∧ ∀ f, f ∈ s.findings ↔ f ∈ s.baseline.1 := by
  have hrows : ∀ f, f ∈ sortBy rowKey s.findings ↔ f ∈ s.findings :=
    fun f => (perm_sortBy rowKey s.findings).mem_iff
  have hstale : sortBy tupleKey (s.baseline.1.filter fun e => e ∉ sortBy rowKey s.findings) = [] ↔
      ∀ e ∈ s.baseline.1, e ∈ s.findings := by
    rw [← List.length_eq_zero_iff, (perm_sortBy tupleKey _).length_eq, List.length_eq_zero_iff]
    simp [List.filter_eq_nil_iff, hrows]
  have hunaccepted : (sortBy rowKey s.findings).filter (fun row => row ∉ s.baseline.1) = [] ↔
      ∀ f ∈ s.findings, f ∈ s.baseline.1 := by
    simp [List.filter_eq_nil_iff, hrows]
  unfold report
  simp only [Bool.and_eq_true, List.isEmpty_iff, List.append_eq_nil_iff, List.map_eq_nil_iff, hstale,
    hunaccepted]
  constructor
  · rintro ⟨hfound, herrors, hentries⟩
    exact ⟨herrors, fun f => ⟨hfound f, hentries f⟩⟩
  · rintro ⟨herrors, hsame⟩
    exact ⟨fun f => (hsame f).mp, herrors, fun f => (hsame f).mpr⟩

/-- A scan passes when the baseline acknowledges what is found, all of it listed for its commit. -/
theorem passed_iff_acknowledges : s.report.passed = true ↔
    (∃ entries, s.Acknowledges entries) ∧ ∀ f ∈ s.findings, s.Listed f := by
  rw [passed_iff]
  constructor
  · rintro ⟨herrors, hsame⟩
    obtain ⟨hentries, hlisted⟩ := hasEntries_of_baseline herrors
    exact ⟨⟨_, hentries, rule_of_baseline, hsame⟩, fun f hf => hlisted f ((hsame f).mp hf)⟩
  · rintro ⟨⟨entries, hentries, hrule, hsame⟩, hlisted⟩
    rw [baseline_of_hasEntries hentries hrule fun e he => hlisted e ((hsame e).mpr he)]
    exact ⟨rfl, hsame⟩

theorem mem_report_findings {f : Entry} (hf : f ∈ s.findings) (hrule : f.rule ≠ privateNetwork) :
    f ∈ s.report.findings := by
  unfold report
  simp only [List.mem_filter, (perm_sortBy rowKey s.findings).mem_iff, decide_eq_true_eq]
  exact ⟨hf, fun hmem => hrule (rule_of_baseline f hmem)⟩

theorem exists_acknowledges_iff (p : Entry → Prop) :
    (∃ entries, s.Acknowledges entries ∧ ∀ e ∈ entries, p e) ↔
      (∃ entries, s.Acknowledges entries) ∧ ∀ f ∈ s.findings, p f := by
  constructor
  · rintro ⟨entries, h, hp⟩
    exact ⟨⟨entries, h⟩, fun f hf => hp f ((h.same f).mp hf)⟩
  · rintro ⟨⟨entries, h⟩, hp⟩
    exact ⟨entries, h, fun e he => hp e ((h.same e).mpr he)⟩

/-- The verdict is right exactly when, for a baseline that acknowledges what is found, the listing
of its commit has what the commit reaches. -/
theorem judges_iff (s : Scan) : s.Judges ↔ ((∃ entries, s.Acknowledges entries) →
    ((∀ f ∈ s.findings, s.Listed f) ↔ ∀ f ∈ s.findings, s.Reachable f)) := by
  constructor
  · intro h hexact
    have hverdict := h.verdict
    rw [passed_iff_acknowledges, exists_acknowledges_iff] at hverdict
    exact ⟨fun hlisted => (hverdict.mp ⟨hexact, hlisted⟩).2,
      fun hreachable => (hverdict.mpr ⟨hexact, hreachable⟩).2⟩
  · intro h
    refine ⟨?_, fun f => mem_report_findings⟩
    rw [passed_iff_acknowledges, exists_acknowledges_iff]
    exact and_congr_right h

end Scan

theorem mem_scopedPairs {output : List Char} {p : Name × Path} (h : p ∈ listedPairs output) :
    p ∈ scopedPairs output := by
  obtain ⟨hmem, hne⟩ := List.mem_filter.mp h
  obtain ⟨line, hline, rfl⟩ := List.mem_map.mp hmem
  refine List.mem_map.mpr ⟨line, List.mem_filter.mpr ⟨hline, ?_⟩, rfl⟩
  by_contra hblank
  have hall : ∀ c ∈ line, (c != ' ') = true := by
    intro c hc
    rw [bne_iff_ne]
    rintro rfl
    exact hblank (by simpa using hc)
  have hdrop : line.dropWhile (· != ' ') = [] := List.dropWhile_eq_nil_iff.mpr hall
  simp [partitionSpace, hdrop] at hne

def Unshared (h : History) : Prop :=
  ∀ p ∈ h.occurs, ∀ q ∈ h.occurs, p.1 = q.1 → p.2 = q.2

namespace Scan

variable {s : Scan}

/-- What the commit of the baseline reaches is listed, when its blobs have one path each. -/
theorem listed_of_reachable {entries : List Entry} (hentries : s.HasEntries entries)
    (hhistory : ∀ commit h, s.git.history commit = some h → h.Plain ∧ Unshared h) {e : Entry}
    (he : s.Reachable e) : s.Listed e := by
  obtain ⟨commit, hscope, h, hcommit, hoccurs⟩ := he
  obtain ⟨hplain, hunshared⟩ := hhistory commit h hcommit
  have hvalid : isObjectId commit = true ∧ s.git.commitExists commit = true := by
    unfold HasEntries at hentries
    unfold scope at hscope
    split at hscope
    · rename_i fields hfile
      rw [hfile] at hentries
      obtain ⟨-, fields', hfields, hformed⟩ := hentries
      cases hfields
      obtain ⟨scope, hlookup, hid, hexists, -⟩ := hformed.scope
      rw [hscope] at hlookup
      cases hlookup
      exact ⟨hid, hexists⟩
    · cases hscope
  obtain ⟨path, hother, hlisted⟩ := h.blob_listed _ hoccurs
  obtain rfl : e.path = path := hunshared _ hoccurs _ hother rfl
  have hpair := mem_listedPairs hplain (h.path_ne _ hoccurs) hlisted
  unfold Listed scopedObjects
  rw [hscope]
  simp only [hvalid.1, hvalid.2, Bool.and_self, if_true, hcommit, Option.elim_some]
  exact mem_scopedPairs hpair

/-- Without shared blobs an exact baseline of reachable entries makes the scan pass. -/
theorem passed_of_unshared {entries : List Entry} (h : s.Acknowledges entries)
    (hreachable : ∀ e ∈ entries, s.Reachable e)
    (hhistory : ∀ commit h, s.git.history commit = some h → h.Plain ∧ Unshared h) :
    s.report.passed = true := by
  refine passed_iff_acknowledges.mpr ⟨⟨entries, h⟩, fun f hf => ?_⟩
  exact listed_of_reachable h.read hhistory (hreachable f ((h.same f).mp hf))

end Scan

def notes : String := "aaaaaaaaaaaaaaaaaaaaaaaaaaaaaaaaaaaaaaaa"

def copyCommit : String := "1111111111111111111111111111111111111111"

/-- One commit whose tree holds the same blob as `a.md` and as `b.md`. -/
def copiedHistory : History where
  occurs := [(notes.toList, "a.md".toList), (notes.toList, "b.md".toList)]
  listing := [⟨copyCommit.toList, none⟩, ⟨List.replicate 40 'c', some []⟩,
    ⟨notes.toList, some "a.md".toList⟩]
  path_ne := by decide
  object_hex := hex_of_all (by decide)
  once := by decide
  blob_listed := by
    intro p hp
    have hnotes : p.1 = notes.toList := by
      rcases List.mem_cons.mp hp with rfl | hp
      · rfl
      · rw [List.mem_singleton.mp hp]
    rw [hnotes]
    exact ⟨"a.md".toList, .head _, .tail _ (.tail _ (.head _))⟩

def noteOf (path : String) : Entry := ⟨privateNetwork, notes.toList, path.toList, 1⟩

def acceptedItem (path : String) : Value :=
  .obj [("rule", .str "private-network"), ("object", .str notes), ("path", .str path),
    ("line", .num (.int 1))]

/-- A clean checkout of the commit and a baseline with both copies. -/
def copied : Scan where
  mode := .source
  revision := "HEAD"
  git := {
    history := fun revision =>
      if revision = "HEAD" ∨ revision = copyCommit then some copiedHistory else none
    commitExists := fun revision => revision == "HEAD" || revision == copyCommit
    isAncestor := fun _ _ => true
    index := [⟨"100644".toList, notes.toList, 0, "a.md".toList⟩,
      ⟨"100644".toList, notes.toList, 0, "b.md".toList⟩]
    content := fun name => if name = notes.toList then "node 10.0.0.1\n".toList else [] }
  bundle := []
  scanner := ⟨[⟨privateNetwork, occurs "10.0.0.1".toList⟩], fun line => line, fun _ => false⟩
  baselineArgument := some (.ok (.obj [("schema_version", .str "1.0.0"),
    ("base_commit_scope", .str copyCommit),
    ("justification", .str "Public documentation examples."),
    ("accepted", .arr [acceptedItem "a.md", acceptedItem "b.md"])]))
  defaultBaseline := none

/-- The copy has no line in the listing, so the scan fails although its baseline is exact. -/
theorem copied_notes_refused : ¬ copied.Judges := by
  intro h
  have hitem : ∀ path, isSafePath path.toList = true → IsEntry (acceptedItem path) (noteOf path) := by
    intro path hsafe
    refine ⟨_, rfl, rfl, rfl, rfl, ?_, rfl⟩
    change (if isSafePath path.toList then some path.toList else none) = some path.toList
    rw [if_pos hsafe]
  have hfindings : copied.findings = [noteOf "a.md", noteOf "b.md"] := by decide
  have hexact : copied.Acknowledges [noteOf "a.md", noteOf "b.md"] := by
    refine ⟨⟨rfl, _, rfl, ⟨by decide, rfl, ⟨copyCommit, rfl, by decide, by decide, by decide, rfl⟩,
      ⟨_, rfl, by decide⟩, ⟨_, rfl, by simp, ?_⟩, by decide⟩⟩, ?_, ?_⟩
    · exact .cons (hitem "a.md" (by decide)) (.cons (hitem "b.md" (by decide)) .nil)
    · rintro e he
      rcases List.mem_cons.mp he with rfl | he
      · rfl
      · rw [List.mem_singleton.mp he]
        rfl
    · rw [hfindings]
      exact fun f => Iff.rfl
  have hreachable : ∀ e ∈ [noteOf "a.md", noteOf "b.md"], copied.Reachable e := by
    have hcommit : copied.git.history copyCommit = some copiedHistory := by
      change (if copyCommit = "HEAD" ∨ copyCommit = copyCommit then some copiedHistory else none) = _
      rw [if_pos (.inr rfl)]
    intro e he
    rcases List.mem_cons.mp he with rfl | he
    · exact ⟨copyCommit, rfl, _, hcommit, .head _⟩
    · rw [List.mem_singleton.mp he]
      exact ⟨copyCommit, rfl, _, hcommit, .tail _ (.head _)⟩
  have hpassed := h.verdict.mpr ⟨_, hexact, hreachable⟩
  have hlisted := (Scan.passed_iff_acknowledges.mp hpassed).2 (noteOf "b.md") (by simp [hfindings])
  have hobjects : scopedObjects copied.git copied.scope =
      [(List.replicate 40 'c', []), (notes.toList, "a.md".toList)] := by decide
  rw [Scan.Listed, hobjects] at hlisted
  exact absurd hlisted (by decide)

end ChampionRuntime.Scans.Secrets
