import ChampionRuntime.Receipts.Content

/-!
# What the receipt checks accept

Success of the content checks is a property of the value alone: all numbers are
finite, no key and no text looks like a secret, the command is an identifier.
The property does not see the order of keys, and the identifier field never
disturbs it.
-/
namespace ChampionRuntime.Receipts

open Lib Lib.Json Lib.PyText

def NumberFinite : Number → Prop
  | .int _ => True
  | .float (.finite _) => True
  | .float _ => False

theorem validateJsonFields_eq_ok {fields : Fields} {path : String} {a : Unit} :
    validateJsonFields path fields = .ok a ↔
      ∀ f ∈ fields, validateJsonValue (fieldPath path f.1) f.2 = .ok () := by
  induction fields with
  | nil => simp [validateJsonFields]
  | cons f fields ih =>
    simp only [validateJsonFields, bind_eq_ok, ih, List.forall_mem_cons]
    constructor
    · rintro ⟨_, hf, hrest⟩
      exact ⟨hf, hrest⟩
    · rintro ⟨hf, hrest⟩
      exact ⟨(), hf, hrest⟩

theorem validateJsonItems_eq_ok {items : List Value} {path : String} {index : ℕ} {a : Unit}
    (h : ∀ v ∈ items, ∀ path path', validateJsonValue path v = .ok () ↔
      validateJsonValue path' v = .ok ()) :
    validateJsonItems path index items = .ok a ↔ ∀ v ∈ items, validateJsonValue path v = .ok () := by
  induction items generalizing index with
  | nil => simp [validateJsonItems]
  | cons v items ih =>
    obtain ⟨hv, hitems⟩ := List.forall_mem_cons.mp h
    simp only [validateJsonItems, bind_eq_ok, ih hitems, List.forall_mem_cons]
    rw [hv path (itemPath path index)]
    constructor
    · rintro ⟨_, hf, hrest⟩
      exact ⟨hf, hrest⟩
    · rintro ⟨hf, hrest⟩
      exact ⟨(), hf, hrest⟩

theorem validateJsonValue_eq_ok (v : Value) : ∀ path,
    validateJsonValue path v = .ok () ↔ v.Numbers NumberFinite := by
  induction v using Value.induct with
  | null => exact fun path => by simp [validateJsonValue, Value.Numbers.null]
  | bool b => exact fun path => by simp [validateJsonValue, Value.Numbers.bool]
  | str s => exact fun path => by simp [validateJsonValue, Value.Numbers.str]
  | num n =>
    intro path
    have hiff : (Value.num n).Numbers NumberFinite ↔ NumberFinite n := by
      constructor
      · intro h
        cases h with
        | num h => exact h
      · exact .num
    rw [hiff]
    rcases n with n | (q | negative | _) <;> simp [validateJsonValue, NumberFinite]
  | arr items ih =>
    intro path
    rw [validateJsonValue, validateJsonItems_eq_ok fun v hv path path' =>
      (ih v hv path).trans (ih v hv path').symm]
    constructor
    · exact fun h => .arr fun v hv => (ih v hv path).mp (h v hv)
    · intro h
      cases h with
      | arr h => exact fun v hv => (ih v hv path).mpr (h v hv)
  | obj fields ih =>
    intro path
    rw [validateJsonValue, validateJsonFields_eq_ok]
    constructor
    · exact fun h => .obj fun f hf => (ih f hf _).mp (h f hf)
    · intro h
      cases h with
      | obj h => exact fun f hf => (ih f hf _).mpr (h f hf)

section Secrets

variable {word : Char → Bool}

/-- No key and no text of the value looks like a secret. -/
inductive Clean (word : Char → Bool) : Value → Prop
  | null : Clean word .null
  | bool (b : Bool) : Clean word (.bool b)
  | num (n : Number) : Clean word (.num n)
  | str {s : String} (h : isSecretValue word s = false) : Clean word (.str s)
  | arr {items : List Value} (h : ∀ v ∈ items, Clean word v) : Clean word (.arr items)
  | obj {fields : Fields} (hkeys : ∀ f ∈ fields, isSecretKey f.1 = false)
    (h : ∀ f ∈ fields, Clean word f.2) : Clean word (.obj fields)

theorem Clean.sortKeys {v : Value} (h : Clean word v) : Clean word v.sortKeys := by
  induction h with
  | null => exact .null
  | bool b => exact .bool b
  | num n => exact .num n
  | str h => exact .str h
  | arr h ih =>
    refine .arr fun v hv => ?_
    rw [Value.sortItems_eq_map] at hv
    obtain ⟨w, hw, rfl⟩ := List.mem_map.mp hv
    exact ih w hw
  | @obj fields hkeys h ih =>
    have hmem : ∀ f ∈ sortByKey (Value.sortFields fields), ∃ g ∈ fields, (g.1, g.2.sortKeys) = f := by
      intro f hf
      rw [(perm_sortByKey _).mem_iff, Value.sortFields_eq_map] at hf
      exact List.mem_map.mp hf
    refine .obj (fun f hf => ?_) fun f hf => ?_
    · obtain ⟨g, hg, rfl⟩ := hmem f hf
      exact hkeys g hg
    · obtain ⟨g, hg, rfl⟩ := hmem f hf
      exact ih g hg

theorem rejectSecretFields_eq_ok {fields : Fields} {path : String} {a : Unit} :
    rejectSecretFields word path fields = .ok a ↔ ∀ f ∈ fields, isSecretKey f.1 = false ∧
      rejectSecrets word (fieldPath path f.1) f.2 = .ok () := by
  induction fields with
  | nil => simp [rejectSecretFields]
  | cons f fields ih =>
    simp only [rejectSecretFields, List.forall_mem_cons]
    cases hkey : isSecretKey f.1 with
    | true => simp
    | false =>
      simp only [Bool.false_eq_true, if_false, bind_eq_ok, ih, true_and]
      constructor
      · rintro ⟨_, hf, hrest⟩
        exact ⟨hf, hrest⟩
      · rintro ⟨hf, hrest⟩
        exact ⟨(), hf, hrest⟩

theorem rejectSecretItems_eq_ok {items : List Value} {path : String} {index : ℕ} {a : Unit}
    (h : ∀ v ∈ items, ∀ path path', rejectSecrets word path v = .ok () ↔
      rejectSecrets word path' v = .ok ()) :
    rejectSecretItems word path index items = .ok a ↔
      ∀ v ∈ items, rejectSecrets word path v = .ok () := by
  induction items generalizing index with
  | nil => simp [rejectSecretItems]
  | cons v items ih =>
    obtain ⟨hv, hitems⟩ := List.forall_mem_cons.mp h
    simp only [rejectSecretItems, bind_eq_ok, ih hitems, List.forall_mem_cons]
    rw [hv path (itemPath path index)]
    constructor
    · rintro ⟨_, hf, hrest⟩
      exact ⟨hf, hrest⟩
    · rintro ⟨hf, hrest⟩
      exact ⟨(), hf, hrest⟩

theorem rejectSecrets_eq_ok (v : Value) : ∀ path,
    rejectSecrets word path v = .ok () ↔ Clean word v := by
  induction v using Value.induct with
  | null => exact fun path => by simp [rejectSecrets, Clean.null]
  | bool b => exact fun path => by simp [rejectSecrets, Clean.bool]
  | num n => exact fun path => by simp [rejectSecrets, Clean.num]
  | str s =>
    intro path
    have hiff : Clean word (.str s) ↔ isSecretValue word s = false := by
      constructor
      · intro h
        cases h with
        | str h => exact h
      · exact .str
    rw [hiff, rejectSecrets]
    cases isSecretValue word s <;> simp
  | arr items ih =>
    intro path
    rw [rejectSecrets, rejectSecretItems_eq_ok fun v hv path path' =>
      (ih v hv path).trans (ih v hv path').symm]
    constructor
    · exact fun h => .arr fun v hv => (ih v hv path).mp (h v hv)
    · intro h
      cases h with
      | arr h => exact fun v hv => (ih v hv path).mpr (h v hv)
  | obj fields ih =>
    intro path
    rw [rejectSecrets, rejectSecretFields_eq_ok]
    constructor
    · exact fun h => .obj (fun f hf => (h f hf).1) fun f hf => (ih f hf _).mp (h f hf).2
    · intro h
      cases h with
      | obj hkeys h => exact fun f hf => ⟨hkeys f hf, (ih f hf _).mpr (h f hf)⟩

/-- The content checks, without the paths of their messages. -/
structure ContentOk (word : Char → Bool) (fields : Fields) : Prop where
  finite : (Value.obj fields).Numbers NumberFinite
  clean : Clean word (.obj fields)
  command : commandAllowed fields = true

theorem validateReceiptContent_eq_ok {fields : Fields} {a : Unit} :
    validateReceiptContent word fields = .ok a ↔ ContentOk word fields := by
  simp only [validateReceiptContent, bind_eq_ok, require_eq_ok]
  constructor
  · rintro ⟨_, hfinite, _, hclean, hcommand⟩
    exact ⟨(validateJsonValue_eq_ok _ _).mp hfinite, (rejectSecrets_eq_ok _ _).mp hclean, hcommand⟩
  · rintro ⟨hfinite, hclean, hcommand⟩
    exact ⟨(), (validateJsonValue_eq_ok _ _).mpr hfinite, (), (rejectSecrets_eq_ok _ _).mpr hclean,
      hcommand⟩

theorem needs_litIgnoreCase {c : Char} {text : List Char} (h : c ∈ text) :
    Regex.Needs (fun x => ignoreCase x == c) (Regex.litIgnoreCase text) := by
  induction text with
  | nil => simp at h
  | cons d text ih =>
    rcases List.mem_cons.mp h with rfl | h
    · exact .seq_left (.cls fun x hx => hx) _
    · exact .seq_right _ (ih h)

def hexChars : List Char := "0123456789abcdef".toList

theorem mem_hexChars {c : Char} (h : isHexLower c = true) : c ∈ hexChars := by
  have hrange : (48 ≤ c.toNat ∧ c.toNat ≤ 57) ∨ (97 ≤ c.toNat ∧ c.toNat ≤ 102) := by
    simpa [isHexLower, isDigit, inRange] using h
  rw [← Char.ofNat_toNat c]
  generalize c.toNat = n at hrange
  rcases hrange with ⟨hlow, hhigh⟩ | ⟨hlow, hhigh⟩
  · interval_cases n <;> decide
  · interval_cases n <;> decide

/-- A hexadecimal digest never looks like a secret: every pattern needs a
character that is no digit. -/
theorem isSecretValue_hex {s : String} (h : ∀ c ∈ s.toList, isHexLower c = true) :
    isSecretValue word s = false := by
  have hfree : ∀ p : Char → Bool, hexChars.any p = false → ∀ c ∈ s.toList, p c = false :=
    fun p hp c hc => by simpa using List.any_eq_false.mp hp c (mem_hexChars (h c hc))
  have hauthorization : (authorizationValue word).search s.toList = false :=
    (Regex.Needs.seq_right _ <| .seq_left (needs_litIgnoreCase (c := 'u') (by decide)) _)
      |>.search_eq_false (hfree _ rfl)
  have hbearer : (bearerValue word).search s.toList = false :=
    (Regex.Needs.seq_right _ <| .seq_left (needs_litIgnoreCase (c := 'r') (by decide)) _)
      |>.search_eq_false (hfree _ rfl)
  have hurl : (urlCredentialValue word).search s.toList = false := by
    refine Regex.Needs.search_eq_false (p := (· == ':')) ?_ (hfree _ rfl)
    exact .seq_right _ <| .seq_right _ <| .seq_right _ <|
      .seq_left (.seq_left (.cls fun x hx => hx) _) _
  have hquery : queryValue.search s.toList = false :=
    (Regex.Needs.seq_left (.cls fun x hx => hx) _).search_eq_false (hfree _ rfl)
  simp [isSecretValue, secretValuePatterns, hauthorization, hbearer, hurl, hquery]

end Secrets

section Order

variable {word : Char → Bool} {fields : Fields}

theorem lookup_sortFields (hnd : (keys fields).Nodup) (k : String) :
    (sortByKey (Value.sortFields fields)).lookup k = (fields.lookup k).map Value.sortKeys := by
  have hperm := perm_sortByKey (Value.sortFields fields)
  rw [lookup_eq_of_perm hperm (nodup_keys_perm hperm.symm (Value.keys_sortFields fields ▸ hnd))]
  clear hnd hperm
  induction fields with
  | nil => rfl
  | cons f fields ih =>
    obtain ⟨k', v⟩ := f
    rw [Value.sortFields, List.lookup_cons, List.lookup_cons]
    cases k == k' with
    | true => rfl
    | false => exact ih

theorem commandAllowed_congr {fields fields' : Fields}
    (h : fields'.lookup "command" = (fields.lookup "command").map Value.sortKeys) :
    commandAllowed fields' = commandAllowed fields := by
  unfold commandAllowed
  rw [h]
  rcases fields.lookup "command" with _ | (_ | _ | _ | _ | _ | _) <;>
    simp [Value.sortKeys]

theorem hasDurableIdentity_congr {fields fields' : Fields}
    (h : fields'.lookup "subject" = (fields.lookup "subject").map Value.sortKeys)
    (hu : ∀ subject, fields.lookup "subject" = some (.obj subject) → (keys subject).Nodup) :
    hasDurableIdentity fields' = hasDurableIdentity fields := by
  unfold hasDurableIdentity
  rw [h]
  cases hsubject : fields.lookup "subject" with
  | none => rfl
  | some v =>
    cases v with
    | obj subject =>
      have hlookup := lookup_sortFields (hu subject hsubject)
      simp only [Option.map_some, Value.sortKeys]
      congr 1
      funext key
      unfold isDurable
      rw [hlookup]
      rcases subject.lookup key with _ | (_ | _ | _ | _ | _ | _) <;> simp [Value.sortKeys]
    | _ => simp [Value.sortKeys]

theorem ContentOk.sortKeys (h : ContentOk word fields) (hnd : (keys fields).Nodup) :
    ContentOk word (sortByKey (Value.sortFields fields)) where
  finite := h.finite.sortKeys
  clean := h.clean.sortKeys
  command := (commandAllowed_congr (lookup_sortFields hnd "command")).trans h.command

theorem ContentOk.perm {fields' : Fields} (h : ContentOk word fields) (hp : fields.Perm fields')
    (hnd : (keys fields).Nodup) : ContentOk word fields' where
  finite := by
    cases h.finite with
    | obj h => exact .obj fun f hf => h f (hp.mem_iff.mpr hf)
  clean := by
    cases h.clean with
    | obj hkeys h =>
      exact .obj (fun f hf => hkeys f (hp.mem_iff.mpr hf)) fun f hf => h f (hp.mem_iff.mpr hf)
  command := by
    have hcommand := h.command
    unfold commandAllowed at hcommand ⊢
    rwa [← lookup_eq_of_perm hp hnd]

theorem lookup_append_ne {k : String} (v : Value) (hk : "command" ≠ k) :
    (fields ++ [(k, v)]).lookup "command" = fields.lookup "command" := by
  induction fields with
  | nil => simp [List.lookup_cons, beq_eq_false_iff_ne.mpr hk]
  | cons f fields ih =>
    obtain ⟨k', v'⟩ := f
    rw [List.cons_append, List.lookup_cons, List.lookup_cons, ih]

theorem contentOk_append_id {id : String} (hid : ∀ c ∈ id.toList, isHexLower c = true) :
    ContentOk word (fields ++ [("receipt_id", .str id)]) ↔ ContentOk word fields := by
  have hcommand : commandAllowed (fields ++ [("receipt_id", .str id)]) = commandAllowed fields := by
    unfold commandAllowed
    rw [lookup_append_ne _ (by decide)]
  constructor
  · rintro ⟨hfinite, hclean, hc⟩
    cases hfinite with
    | obj hfinite =>
      cases hclean with
      | obj hkeys hclean =>
        exact ⟨.obj fun f hf => hfinite f (by simp [hf]), .obj (fun f hf => hkeys f (by simp [hf]))
          fun f hf => hclean f (by simp [hf]), hcommand ▸ hc⟩
  · rintro ⟨hfinite, hclean, hc⟩
    cases hfinite with
    | obj hfinite =>
      cases hclean with
      | obj hkeys hclean =>
        refine ⟨.obj fun f hf => ?_, .obj (fun f hf => ?_) fun f hf => ?_, hcommand.trans hc⟩
        · rcases List.mem_append.mp hf with hf | hf
          · exact hfinite f hf
          · rw [List.mem_singleton.mp hf]
            exact .str id
        · rcases List.mem_append.mp hf with hf | hf
          · exact hkeys f hf
          · rw [List.mem_singleton.mp hf]
            show isSecretKey "receipt_id" = false
            decide
        · rcases List.mem_append.mp hf with hf | hf
          · exact hclean f hf
          · rw [List.mem_singleton.mp hf]
            exact .str (isSecretValue_hex hid)

end Order

end ChampionRuntime.Receipts
