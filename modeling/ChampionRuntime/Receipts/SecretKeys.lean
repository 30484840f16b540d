import ChampionRuntime.Receipts.Checks

/-!
# Secret keys under a prefix

The scan compares a normalised key with the secret words and its end with a
second list of suffixes. Three of the words have no suffix of their own, and
behind a prefix these pass.
-/
namespace ChampionRuntime.Receipts

open Lib Lib.Json Lib.PyText

variable {word : Char → Bool} {key : String} {v : Value}

/-- The key stands in some object of the tree. -/
inductive HasKey (key : String) : Value → Prop where
  | field {fields : Fields} {v : Value} (h : (key, v) ∈ fields) : HasKey key (.obj fields)
  | inField {fields : Fields} {f : String × Value} (hf : f ∈ fields) (h : HasKey key f.2) :
      HasKey key (.obj fields)
  | inItem {items : List Value} {v : Value} (hv : v ∈ items) (h : HasKey key v) :
      HasKey key (.arr items)

/-- The text ends in the word, behind an underscore. -/
def EndsInWord (text secret : String) : Prop := ('_' :: secret.toList) <:+ text.toList

instance (text secret : String) : Decidable (EndsInWord text secret) :=
  inferInstanceAs (Decidable (_ <:+ _))

/-- The normalised key is a secret word, alone or behind a prefix. -/
def SecretLike (normalized : String) : Prop :=
  ∃ secret ∈ secretKeys, normalized = secret ∨ EndsInWord normalized secret

instance (normalized : String) : Decidable (SecretLike normalized) :=
  inferInstanceAs (Decidable (∃ secret ∈ secretKeys, _))

/-- The secret words no suffix of the second list covers. -/
def uncoveredWords : List String := ["apikey", "passwd", "secrets"]

/-- The normalised key is one of them behind a prefix. -/
def Uncovered (normalized : String) : Prop := ∃ secret ∈ uncoveredWords, EndsInWord normalized secret

instance (normalized : String) : Decidable (Uncovered normalized) :=
  inferInstanceAs (Decidable (∃ secret ∈ uncoveredWords, _))

theorem not_isSecretKey_iff : isSecretKey key = false ↔
    normalizedKey key ∉ secretKeys ∧
      ∀ ending ∈ secretSuffixes, ¬ ending.toList <:+ (normalizedKey key).toList := by
  simp [isSecretKey]

theorem exists_suffix {secret : String} (h : secret ∈ secretKeys) :
    secret ∈ uncoveredWords ∨ ∃ ending ∈ secretSuffixes, ending.toList <:+ '_' :: secret.toList := by
  revert secret
  decide

theorem uncoveredWords_subset {secret : String} (h : secret ∈ uncoveredWords) :
    secret ∈ secretKeys := by
  revert secret
  decide

/-- Among the keys that pass the scan, the secret-like ones are the uncovered ones. -/
theorem secretLike_iff_uncovered (h : isSecretKey key = false) :
    SecretLike (normalizedKey key) ↔ Uncovered (normalizedKey key) := by
  obtain ⟨hword, hsuffix⟩ := not_isSecretKey_iff.mp h
  constructor
  · rintro ⟨secret, hmem, heq | hends⟩
    · exact absurd (heq ▸ hmem) hword
    · rcases exists_suffix hmem with huncovered | ⟨ending, hending, hcovers⟩
      · exact ⟨secret, huncovered, hends⟩
      · exact absurd (hcovers.trans hends) (hsuffix ending hending)
  · rintro ⟨secret, hmem, hends⟩
    exact ⟨secret, uncoveredWords_subset hmem, .inr hends⟩

theorem Clean.isSecretKey_eq_false (hclean : Clean word v) (h : HasKey key v) :
    isSecretKey key = false := by
  induction h with
  | field hmem =>
    cases hclean with
    | obj hkeys _ => exact hkeys (key, _) hmem
  | inField hf _ ih =>
    cases hclean with
    | obj _ hvalues => exact ih (hvalues _ hf)
  | inItem hv _ ih =>
    cases hclean with
    | arr hitems => exact ih (hitems _ hv)

/-- An accepted tree has no secret-like key at any depth exactly when none of its keys
is an uncovered word behind a prefix. -/
theorem no_secretLike_iff_no_uncovered {fields : Fields}
    (h : validateReceiptContent word fields = .ok ()) :
    (∀ key, HasKey key (.obj fields) → ¬ SecretLike (normalizedKey key)) ↔
      ∀ key, HasKey key (.obj fields) → ¬ Uncovered (normalizedKey key) := by
  simp only [validateReceiptContent, bind_eq_ok] at h
  obtain ⟨_, -, _, hsecrets, -⟩ := h
  have hclean := (rejectSecrets_eq_ok (.obj fields) "$").mp hsecrets
  have hiff : ∀ key, HasKey key (.obj fields) →
      (SecretLike (normalizedKey key) ↔ Uncovered (normalizedKey key)) :=
    fun key hkey => secretLike_iff_uncovered (hclean.isSecretKey_eq_false hkey)
  constructor
  · intro hnone key hkey huncovered
    exact hnone key hkey ((hiff key hkey).mpr huncovered)
  · intro hnone key hkey hsecret
    exact hnone key hkey ((hiff key hkey).mp hsecret)

/-- Keys at two depths that come close to secret words. -/
def benignFields : Fields :=
  [("maxTokens", .num (.int 1)), ("hosts", .arr [.obj [("passwdChecks", .num (.int 0))]])]

theorem no_secretLike_iff_no_uncovered_plain :
    validateReceiptContent (fun _ => false) benignFields = .ok () ∧
      HasKey "passwdChecks" (.obj benignFields) ∧
      ∀ key, HasKey key (.obj benignFields) → ¬ SecretLike (normalizedKey key) := by
  have haccepted : validateReceiptContent (fun _ => false) benignFields = .ok () := by
    decide
  have hinner : HasKey "passwdChecks" (.obj benignFields) :=
    .inField (List.mem_cons_of_mem _ List.mem_cons_self)
      (.inItem List.mem_cons_self (.field List.mem_cons_self))
  refine ⟨haccepted, hinner, (no_secretLike_iff_no_uncovered haccepted).mpr fun key hkey => ?_⟩
  have hkeys : key = "maxTokens" ∨ key = "hosts" ∨ key = "passwdChecks" := by
    cases hkey with
    | field hmem =>
      rcases List.mem_pair.mp hmem with heq | heq
      · exact .inl (Prod.mk.inj heq).1
      · exact .inr (.inl (Prod.mk.inj heq).1)
    | inField hf hkey =>
      rcases List.mem_pair.mp hf with rfl | rfl
      · cases hkey
      · cases hkey with
        | inItem hv hkey =>
          obtain rfl := List.mem_singleton.mp hv
          cases hkey with
          | field hmem => exact .inr (.inr (Prod.mk.inj (List.mem_singleton.mp hmem)).1)
          | inField hf hkey =>
            obtain rfl := List.mem_singleton.mp hf
            cases hkey
  rcases hkeys with rfl | rfl | rfl
  · decide
  · decide
  · decide

/-- `dbPasswd` passes, though `passwd` alone and `db_password` do not. -/
theorem prefixed_passwd_accepted :
    validateReceiptContent (fun _ => false) [("dbPasswd", .num (.int 1))] = .ok () ∧
      HasKey "dbPasswd" (.obj [("dbPasswd", .num (.int 1))]) ∧
      normalizedKey "dbPasswd" = "db_passwd" ∧ SecretLike (normalizedKey "dbPasswd") ∧
      isSecretKey "passwd" = true ∧ isSecretKey "dbPassword" = true := by
  refine ⟨by decide, .field List.mem_cons_self, by decide, by decide, by decide, by decide⟩

end ChampionRuntime.Receipts
