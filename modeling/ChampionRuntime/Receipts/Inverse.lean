import ChampionRuntime.Receipts.Checks
import Mathlib.Data.Set.Function

/-!
# Receipt construction and verification are inverse

Both sides run different checks in a different order. They accept the same
receipts because the schema closes the field set that construction asks for, and
because the identifier field passes every content check. The identifier binds
the body under the two facts the receipts rely on outside: the canonical form
is injective up to key order and numeric equality, and the digest has no
collision among the canonical bodies at hand.
-/
namespace ChampionRuntime.Receipts

open Lib Lib.Json Lib.PyText

/-- What RFC 8785 promises: the order of keys is forgotten, and nothing else
besides the type of an integral number. -/
structure CanonicalForm (rfc8785 : Value → Except String Bytes) : Prop where
  keyOrder : ∀ {v w : Value} {bytes : Bytes}, v.Unique → w.Unique → v.sortKeys = w.sortKeys →
    rfc8785 v = .ok bytes → rfc8785 w = .ok bytes
  injective : ∀ {v w : Value} {bytes : Bytes}, v.Unique → w.Unique → rfc8785 v = .ok bytes →
    rfc8785 w = .ok bytes → v.normal = w.normal

/-- The digest is written as 64 lower-case hexadecimal characters. -/
def HexDigest (sha256 : Bytes → String) : Prop :=
  ∀ bytes, (sha256 bytes).toList.length = 64 ∧ ∀ c ∈ (sha256 bytes).toList, isHexLower c = true

variable {P : Primitives}

theorem canonicalBytes_eq_ok {v : Value} {bytes : Bytes} :
    canonicalBytes P v = .ok bytes ↔ v.Numbers NumberFinite ∧ P.rfc8785 v = .ok bytes := by
  simp only [canonicalBytes, bind_eq_ok]
  constructor
  · rintro ⟨_, hfinite, hbytes⟩
    refine ⟨(validateJsonValue_eq_ok v "$").mp hfinite, ?_⟩
    split at hbytes
    · rename_i b hb
      rw [hb, Except.ok.inj hbytes]
    · cases hbytes
  · rintro ⟨hfinite, hbytes⟩
    exact ⟨(), (validateJsonValue_eq_ok v "$").mpr hfinite, by rw [hbytes]⟩

theorem receiptId_eq_ok {fields : Fields} {id : String} :
    receiptId P fields = .ok id ↔ hasDurableIdentity (withoutId fields) = true ∧
      ContentOk P.isWord (withoutId fields) ∧
      ∃ bytes, P.rfc8785 (.obj (withoutId fields)) = .ok bytes ∧ id = P.sha256 bytes := by
  simp only [receiptId, bind_eq_ok, require_eq_ok, validateReceiptContent_eq_ok,
    canonicalBytes_eq_ok, pure_eq_ok]
  constructor
  · rintro ⟨_, hdurable, _, hcontent, bytes, ⟨-, hbytes⟩, rfl⟩
    exact ⟨hdurable, hcontent, bytes, hbytes, rfl⟩
  · rintro ⟨hdurable, hcontent, bytes, hbytes, rfl⟩
    exact ⟨(), hdurable, (), hcontent, bytes, ⟨hcontent.finite, hbytes⟩, rfl⟩

theorem constructReceipt_eq_ok {body : Fields} {stored : Value} :
    constructReceipt P (.obj body) = .ok stored ↔
      "receipt_id" ∉ keys body ∧ (∀ k ∈ receiptBodyFields, k ∈ keys body) ∧
      (∀ k ∈ keys body, k ∈ receiptBodyFields) ∧
      ∃ id, receiptId P body = .ok id ∧ stored = .obj (body ++ [("receipt_id", .str id)]) ∧
        receiptSchema.validate stored = true := by
  simp only [constructReceipt, bind_eq_ok, require_eq_ok, pure_eq_ok, Bool.not_eq_true',
    List.isEmpty_iff, List.filter_eq_nil_iff, List.contains_iff_mem,
    ← Bool.not_eq_true]
  constructor
  · rintro ⟨_, hid, _, hmissing, _, hextra, id, hok, _, hschema, rfl⟩
    exact ⟨hid, fun k hk => not_not.mp (hmissing k hk), fun k hk => not_not.mp (hextra k hk), id,
      hok, rfl, hschema⟩
  · rintro ⟨hid, hmissing, hextra, id, hok, rfl, hschema⟩
    exact ⟨(), hid, (), fun k hk => not_not.mpr (hmissing k hk), (),
      fun k hk => not_not.mpr (hextra k hk), id, hok, (), hschema, rfl⟩

theorem storedId_eq_ok {receipt : Fields} {id : String} :
    storedId receipt = .ok id ↔ receipt.lookup "receipt_id" = some (.str id) ∧
      sha256Pattern.fullmatch id.toList = true := by
  unfold storedId
  split
  · rename_i found hfound
    rw [hfound]
    split_ifs with hmatch
    · simp only [Except.ok.injEq, Option.some.injEq, Value.str.injEq]
      constructor
      · rintro rfl
        exact ⟨rfl, hmatch⟩
      · exact fun h => h.1
    · simp only [Option.some.injEq, Value.str.injEq, false_iff, not_and]
      rintro rfl
      exact hmatch
  · rename_i hother
    simp only [reduceCtorEq, false_iff, not_and]
    intro h
    exact absurd h (hother id)

theorem verifyReceipt_eq_ok {receipt : Fields} {out : Value} :
    verifyReceipt P (.obj receipt) = .ok out ↔
      out = .obj receipt ∧ ContentOk P.isWord receipt ∧
      receiptSchema.validate (.obj receipt) = true ∧
      ∃ id, receipt.lookup "receipt_id" = some (.str id) ∧
        sha256Pattern.fullmatch id.toList = true ∧ receiptId P receipt = .ok id := by
  simp only [verifyReceipt, bind_eq_ok, require_eq_ok, validateReceiptContent_eq_ok,
    storedId_eq_ok, pure_eq_ok, beq_iff_eq]
  constructor
  · rintro ⟨_, hcontent, _, hschema, id, ⟨hlookup, hmatch⟩, _, hid, _, rfl, rfl⟩
    exact ⟨rfl, hcontent, hschema, id, hlookup, hmatch, hid⟩
  · rintro ⟨rfl, hcontent, hschema, id, hlookup, hmatch, hid⟩
    exact ⟨(), hcontent, (), hschema, id, ⟨hlookup, hmatch⟩, id, hid, (), rfl, rfl⟩

theorem withoutId_of_not_mem {fields : Fields} (h : "receipt_id" ∉ keys fields) :
    withoutId fields = fields := by
  refine List.filter_eq_self.mpr fun f hf => ?_
  simp only [bne_iff_ne, ne_eq]
  rintro hk
  exact h (hk ▸ List.mem_map_of_mem hf)

theorem not_mem_keys_withoutId (fields : Fields) : "receipt_id" ∉ keys (withoutId fields) := by
  intro h
  obtain ⟨f, hf, hk⟩ := List.mem_map.mp h
  simpa [hk] using (List.mem_filter.mp hf).2

theorem withoutId_append {body : Fields} (h : "receipt_id" ∉ keys body) (v : Value) :
    withoutId (body ++ [("receipt_id", v)]) = body := by
  have hbody := withoutId_of_not_mem h
  unfold withoutId at hbody ⊢
  rw [List.filter_append, hbody]
  simp

theorem lookup_append_self {body : Fields} {k : String} (h : k ∉ keys body) (v : Value) :
    (body ++ [(k, v)]).lookup k = some v := by
  induction body with
  | nil => simp
  | cons f body ih =>
    obtain ⟨k', v'⟩ := f
    have hne : k ≠ k' := fun heq => h (by simp [keys, heq])
    rw [List.cons_append, List.lookup_cons, beq_eq_false_iff_ne.mpr hne]
    exact ih fun hmem => h (by simp [keys] at hmem ⊢; exact .inr hmem)

theorem perm_withoutId {fields : Fields} (hnd : (keys fields).Nodup) {v : Value}
    (h : fields.lookup "receipt_id" = some v) :
    (withoutId fields ++ [("receipt_id", v)]).Perm fields := by
  have hmem := (lookup_eq_some_iff_mem hnd).mp h
  have hid : fields.filter (fun f => !(f.1 != "receipt_id")) = [("receipt_id", v)] := by
    have hnodup : (fields.filter fun f => !(f.1 != "receipt_id")).Nodup :=
      (List.Nodup.of_map _ hnd).filter _
    refine List.perm_singleton.mp ((List.perm_ext_iff_of_nodup hnodup (by simp)).mpr fun f => ?_)
    simp only [List.mem_filter, bne_eq_false_iff_eq, Bool.not_eq_eq_eq_not,
      Bool.not_true, List.mem_singleton]
    constructor
    · rintro ⟨hf, hk⟩
      exact List.inj_on_of_nodup_map hnd hf hmem hk
    · rintro rfl
      exact ⟨hmem, rfl⟩
  have hsplit := List.filter_append_perm (fun f : String × Value => f.1 != "receipt_id") fields
  rw [hid] at hsplit
  exact hsplit

theorem nodup_keys_withoutId {fields : Fields} (hnd : (keys fields).Nodup) :
    (keys (withoutId fields)).Nodup := hnd.sublist (List.filter_sublist.map _)

theorem unique_withoutId {fields : Fields} (hu : (Value.obj fields).Unique) :
    (Value.obj (withoutId fields)).Unique := by
  obtain ⟨hkeys, hfields⟩ := hu.of_obj
  exact .obj (nodup_keys_withoutId hkeys) fun f hf => hfields f (List.mem_of_mem_filter hf)

theorem schema_fields {fields : Fields} (h : receiptSchema.validate (.obj fields) = true) :
    (∀ k ∈ receiptBodyFields, k ∈ keys (withoutId fields)) ∧
      ∀ k ∈ keys (withoutId fields), k ∈ receiptBodyFields := by
  obtain ⟨hrequired, hallowed⟩ := Schema.validate_object h
  constructor
  · intro k hk
    have hall : ∀ k ∈ receiptBodyFields, k ≠ "receipt_id" ∧ k ∈ ["schema_version", "receipt_id",
        "receipt_type", "command", "created_at", "subject", "evidence", "result", "metadata"] := by
      decide
    obtain ⟨hne, hreq⟩ := hall k hk
    obtain ⟨f, hf, rfl⟩ := List.mem_map.mp (hrequired k hreq)
    exact List.mem_map_of_mem (List.mem_filter.mpr ⟨hf, by simpa using hne⟩)
  · intro k hk
    obtain ⟨f, hf, rfl⟩ := List.mem_map.mp hk
    obtain ⟨hf, hne⟩ := List.mem_filter.mp hf
    obtain ⟨s, hs, -⟩ := hallowed f hf
    have hall : ∀ k ∈ ["schema_version", "receipt_id", "receipt_type", "command", "created_at",
        "subject", "evidence", "result", "metadata"], k ≠ "receipt_id" → k ∈ receiptBodyFields := by
      decide
    exact hall f.1 (List.mem_map_of_mem (f := Prod.fst) (mem_of_lookup_eq_some hs)) (by simpa using hne)

theorem lookup_withoutId {fields : Fields} {k : String} (hk : k ≠ "receipt_id") :
    (withoutId fields).lookup k = fields.lookup k := by
  induction fields with
  | nil => rfl
  | cons f fields ih =>
    obtain ⟨k', v⟩ := f
    unfold withoutId at ih ⊢
    by_cases hid : k' = "receipt_id"
    · subst hid
      simp only [List.filter_cons, bne_self_eq_false, Bool.false_eq_true, if_false, ih,
        List.lookup_cons, beq_eq_false_iff_ne.mpr hk]
    · simp only [List.filter_cons, bne_iff_ne.mpr hid, if_true, List.lookup_cons, ih]

theorem fullmatch_digest (hd : HexDigest P.sha256) (bytes : Bytes) :
    sha256Pattern.fullmatch (P.sha256 bytes).toList = true :=
  Regex.fullmatch_times_cls.mpr (hd bytes)

theorem verify_of_construct (hd : HexDigest P.sha256) {body stored : Value}
    (h : constructReceipt P body = .ok stored) : verifyReceipt P stored = .ok stored := by
  cases body with
  | obj body =>
    obtain ⟨hno, -, -, id, hid, rfl, hschema⟩ := constructReceipt_eq_ok.mp h
    have hwithout := withoutId_append hno (.str id)
    obtain ⟨hdurable, hcontent, bytes, hbytes, rfl⟩ := receiptId_eq_ok.mp hid
    rw [withoutId_of_not_mem hno] at hdurable hcontent hbytes
    refine verifyReceipt_eq_ok.mpr ⟨rfl, (contentOk_append_id (hd bytes).2).mpr hcontent, hschema, _,
      lookup_append_self hno _, fullmatch_digest hd bytes, ?_⟩
    refine receiptId_eq_ok.mpr ?_
    rw [hwithout]
    exact ⟨hdurable, hcontent, bytes, hbytes, rfl⟩
  | _ => simp [constructReceipt] at h

theorem unique_construct {body stored : Value} (hu : body.Unique)
    (h : constructReceipt P body = .ok stored) : stored.Unique := by
  cases body with
  | obj body =>
    obtain ⟨hno, -, -, id, -, rfl, -⟩ := constructReceipt_eq_ok.mp h
    obtain ⟨hkeys, hfields⟩ := hu.of_obj
    refine .obj ?_ fun f hf => ?_
    · have hnodup : (keys body ++ ["receipt_id"]).Nodup :=
        List.nodup_append.mpr ⟨hkeys, by simp, fun a ha b hb => by
          rintro rfl
          exact hno (List.mem_singleton.mp hb ▸ ha)⟩
      simpa [keys] using hnodup
    · rcases List.mem_append.mp hf with hf | hf
      · exact hfields f hf
      · rw [List.mem_singleton.mp hf]
        exact .str id
  | _ => simp [constructReceipt] at h

theorem numberReads_of_range {n : Number} (h : Schema.integerInRange 1 5 n = true) :
    NumberReads n := by
  rcases n with n | (q | negative | _)
  · exact numberReads_int n
  · simp only [Schema.integerInRange, decide_eq_true_eq, Int.cast_one, Int.cast_ofNat] at h
    obtain ⟨hden, hlow, hhigh⟩ := h
    have hq : q = (q.num : ℚ) := (Rat.coe_int_num_of_den_eq_one hden).symm
    rw [hq] at hlow hhigh ⊢
    have hlow' : 1 ≤ q.num := by exact_mod_cast hlow
    have hhigh' : q.num ≤ 5 := by
      have hcast : (q.num : ℚ) ≤ ((5 : ℤ) : ℚ) := hhigh
      exact_mod_cast hcast
    obtain ⟨d, hdigit⟩ : ∃ d : ℕ, q.num = d := ⟨q.num.toNat, by omega⟩
    rw [hdigit]
    exact_mod_cast numberReads_digit d (by omega) (by omega)
  · simp [Schema.integerInRange] at h
  · simp [Schema.integerInRange] at h

theorem numberReads_of_schema {v : Value} (h : receiptSchema.validate v = true) :
    v.Numbers NumberReads := by
  refine (Schema.numbers_of_validate v h).mono fun n hn => ?_
  obtain ⟨r, hr, hrange⟩ := hn
  have hranges : ∀ r ∈ Schema.integerRanges receiptSchema, r = (1, 5) := by decide
  rw [hranges r hr] at hrange
  exact numberReads_of_range hrange

section KeyOrder

variable {receipt : Fields}

theorem withoutId_sorted (receipt : Fields) :
    (withoutId (sortByKey (Value.sortFields receipt))).Perm
      (Value.sortFields (withoutId receipt)) := by
  have hperm := (perm_sortByKey (Value.sortFields receipt)).filter fun f => f.1 != "receipt_id"
  rw [Value.sortFields_eq_map, List.filter_map] at hperm
  rw [Value.sortFields_eq_map, Value.sortFields_eq_map]
  exact hperm

theorem sortKeys_withoutId_sorted (hnd : (keys receipt).Nodup) :
    (Value.obj (withoutId (sortByKey (Value.sortFields receipt)))).sortKeys =
      (Value.obj (withoutId receipt)).sortKeys := by
  have hidem : Value.sortFields (Value.sortFields (withoutId receipt)) =
      Value.sortFields (withoutId receipt) := by
    simp [Value.sortFields_eq_map, List.map_map, Function.comp_def, Value.sortKeys_sortKeys]
  have hperm := (withoutId_sorted receipt).map fun f => (f.1, f.2.sortKeys)
  rw [← Value.sortFields_eq_map, ← Value.sortFields_eq_map, hidem] at hperm
  simp only [Value.sortKeys, Value.obj.injEq]
  refine (sortByKey_perm hperm.symm ?_).symm
  rw [Value.keys_sortFields]
  exact nodup_keys_withoutId hnd

theorem receiptId_sorted (hc : CanonicalForm P.rfc8785) (hu : (Value.obj receipt).Unique)
    {id : String} (h : receiptId P receipt = .ok id) :
    receiptId P (sortByKey (Value.sortFields receipt)) = .ok id := by
  obtain ⟨hnd, hfields⟩ := hu.of_obj
  obtain ⟨hdurable, hcontent, bytes, hbytes, rfl⟩ := receiptId_eq_ok.mp h
  have hwithout := nodup_keys_withoutId hnd
  refine receiptId_eq_ok.mpr ⟨?_, ?_, bytes, ?_, rfl⟩
  · rw [← hdurable]
    refine hasDurableIdentity_congr ?_ fun subject hsubject => ?_
    · rw [lookup_withoutId (by decide), lookup_withoutId (by decide), lookup_sortFields hnd]
    · have hmem := (lookup_eq_some_iff_mem hwithout).mp hsubject
      exact (hfields _ (List.mem_of_mem_filter hmem)).of_obj.1
  · refine (hcontent.sortKeys hwithout).perm
      ((perm_sortByKey _).trans (withoutId_sorted receipt).symm) ?_
    refine nodup_keys_perm (perm_sortByKey _).symm ?_
    rw [Value.keys_sortFields]
    exact hwithout
  · exact hc.keyOrder (unique_withoutId hu) (unique_withoutId hu.sortKeys)
      (sortKeys_withoutId_sorted hnd).symm hbytes

theorem verify_sortKeys (hc : CanonicalForm P.rfc8785) (hu : (Value.obj receipt).Unique)
    {out : Value} (h : verifyReceipt P (.obj receipt) = .ok out) :
    verifyReceipt P (Value.obj receipt).sortKeys = .ok (Value.obj receipt).sortKeys := by
  obtain ⟨rfl, hcontent, hschema, id, hlookup, hmatch, hid⟩ := verifyReceipt_eq_ok.mp h
  have hnd := hu.of_obj.1
  refine verifyReceipt_eq_ok.mpr ⟨rfl, hcontent.sortKeys hnd, ?_, id, ?_, hmatch,
    receiptId_sorted hc hu hid⟩
  · exact (Schema.validate_sortKeys _ _).trans hschema
  · rw [lookup_sortFields hnd, hlookup]
    rfl

end KeyOrder

/-- Equal dictionaries: the same fields, in some order. -/
def SameDict : Value → Value → Prop
  | .obj a, .obj b => a.Perm b
  | _, _ => False

section Inverse

variable {receipt receipt' : Fields}

theorem verify_iff_construct (hd : HexDigest P.sha256) (hnd : (keys receipt).Nodup) :
    (∃ out, verifyReceipt P (.obj receipt) = .ok out) ↔
      ∃ stored, constructReceipt P (.obj (withoutId receipt)) = .ok stored ∧
        SameDict stored (.obj receipt) := by
  have hidem := withoutId_of_not_mem (not_mem_keys_withoutId receipt)
  constructor
  · rintro ⟨_, h⟩
    obtain ⟨-, -, hschema, id, hlookup, -, hid⟩ := verifyReceipt_eq_ok.mp h
    have hperm := perm_withoutId hnd hlookup
    obtain ⟨hrequired, hallowed⟩ := schema_fields hschema
    refine ⟨_, constructReceipt_eq_ok.mpr ⟨not_mem_keys_withoutId _, hrequired, hallowed, id, ?_,
      rfl, ?_⟩, hperm⟩
    · rw [receiptId_eq_ok] at hid ⊢
      rwa [hidem]
    · rwa [Schema.validate_perm hperm]
  · rintro ⟨stored, h, hsame⟩
    obtain ⟨hno, -, -, id, hid, rfl, hschema⟩ := constructReceipt_eq_ok.mp h
    have hperm : (withoutId receipt ++ [("receipt_id", Value.str id)]).Perm receipt := hsame
    obtain ⟨hdurable, hcontent, bytes, hbytes, rfl⟩ := receiptId_eq_ok.mp hid
    rw [hidem] at hdurable hcontent hbytes
    have hnd' := nodup_keys_perm hperm.symm hnd
    refine ⟨_, verifyReceipt_eq_ok.mpr ⟨rfl, ?_, ?_, P.sha256 bytes, ?_,
      fullmatch_digest hd bytes, receiptId_eq_ok.mpr ⟨hdurable, hcontent, bytes, hbytes, rfl⟩⟩⟩
    · exact ((contentOk_append_id (hd bytes).2).mpr hcontent).perm hperm hnd'
    · rwa [← Schema.validate_perm hperm]
    · rw [← lookup_eq_of_perm hperm hnd']
      exact lookup_append_self hno _

/-- The canonical bytes of the body, where it has any, are among those at hand. -/
def AtHand (P : Primitives) (atHand : Set Bytes) (receipt : Fields) : Prop :=
  ∀ bytes, P.rfc8785 (.obj (withoutId receipt)) = .ok bytes → bytes ∈ atHand

variable {atHand : Set Bytes}

theorem body_of_id (hc : CanonicalForm P.rfc8785) (hs : Set.InjOn P.sha256 atHand)
    (hu : (Value.obj receipt).Unique) (hu' : (Value.obj receipt').Unique)
    (hin : AtHand P atHand receipt) (hin' : AtHand P atHand receipt') {out out' : Value}
    (h : verifyReceipt P (.obj receipt) = .ok out) (h' : verifyReceipt P (.obj receipt') = .ok out')
    (hid : receipt'.lookup "receipt_id" = receipt.lookup "receipt_id") :
    (Value.obj (withoutId receipt')).normal = (Value.obj (withoutId receipt)).normal := by
  obtain ⟨-, -, -, id, hlookup, -, hreceipt⟩ := verifyReceipt_eq_ok.mp h
  obtain ⟨-, -, -, id', hlookup', -, hreceipt'⟩ := verifyReceipt_eq_ok.mp h'
  obtain ⟨-, -, bytes, hbytes, rfl⟩ := receiptId_eq_ok.mp hreceipt
  obtain ⟨-, -, bytes', hbytes', rfl⟩ := receiptId_eq_ok.mp hreceipt'
  have hsame : P.sha256 bytes' = P.sha256 bytes := by
    rw [hlookup, hlookup'] at hid
    exact Value.str.inj (Option.some.inj hid)
  have heq := hs (hin' bytes' hbytes') (hin bytes hbytes) hsame
  exact hc.injective (unique_withoutId hu') (unique_withoutId hu) (heq ▸ hbytes') hbytes

theorem id_of_body (hc : CanonicalForm P.rfc8785) (hu : (Value.obj receipt).Unique)
    (hu' : (Value.obj receipt').Unique) {out out' : Value}
    (h : verifyReceipt P (.obj receipt) = .ok out) (h' : verifyReceipt P (.obj receipt') = .ok out')
    (hbody : (withoutId receipt').Perm (withoutId receipt)) :
    receipt'.lookup "receipt_id" = receipt.lookup "receipt_id" := by
  obtain ⟨-, -, -, id, hlookup, -, hreceipt⟩ := verifyReceipt_eq_ok.mp h
  obtain ⟨-, -, -, id', hlookup', -, hreceipt'⟩ := verifyReceipt_eq_ok.mp h'
  obtain ⟨-, -, bytes, hbytes, rfl⟩ := receiptId_eq_ok.mp hreceipt
  obtain ⟨-, -, bytes', hbytes', rfl⟩ := receiptId_eq_ok.mp hreceipt'
  have hsort : (Value.obj (withoutId receipt)).sortKeys =
      (Value.obj (withoutId receipt')).sortKeys := by
    simp only [Value.sortKeys, Value.obj.injEq, Value.sortFields_eq_map]
    refine sortByKey_perm (hbody.symm.map _) ?_
    rw [← Value.sortFields_eq_map, Value.keys_sortFields]
    exact nodup_keys_withoutId hu.of_obj.1
  have hsame := hc.keyOrder (unique_withoutId hu) (unique_withoutId hu') hsort hbytes
  rw [hlookup, hlookup', Except.ok.inj (hbytes'.symm.trans hsame)]

theorem keys_of_verify {out : Value} (h : verifyReceipt P (.obj receipt) = .ok out) (k : String) :
    k ∈ keys receipt ↔ k ∈ "receipt_id" :: receiptBodyFields := by
  obtain ⟨-, -, hschema, id, hlookup, -, -⟩ := verifyReceipt_eq_ok.mp h
  obtain ⟨hrequired, hallowed⟩ := schema_fields hschema
  obtain ⟨hpresent, -⟩ := Schema.validate_object hschema
  have hwithout : ∀ {k}, k ∈ keys (withoutId receipt) → k ∈ keys receipt := fun hk =>
    (List.filter_sublist.map Prod.fst).subset hk
  constructor
  · intro hk
    by_cases hid : k = "receipt_id"
    · simp [hid]
    · obtain ⟨f, hf, rfl⟩ := List.mem_map.mp hk
      refine List.mem_cons_of_mem _ (hallowed f.1 (List.mem_map_of_mem ?_))
      exact List.mem_filter.mpr ⟨hf, by simpa using hid⟩
  · intro hk
    rcases List.mem_cons.mp hk with rfl | hk
    · exact hpresent _ (by decide)
    · exact hwithout (hrequired k hk)

/-- The ways to edit one field of a receipt: another body under the same
identifier, another identifier for the same body, a field more, a field less. -/
inductive Edited (receipt : Fields) : Fields → Prop
  | body {edited : Fields}
      (hid : edited.lookup "receipt_id" = receipt.lookup "receipt_id")
      (hbody : (Value.obj (withoutId edited)).normal ≠ (Value.obj (withoutId receipt)).normal) :
    Edited receipt edited
  | identifier {edited : Fields}
      (hid : edited.lookup "receipt_id" ≠ receipt.lookup "receipt_id")
      (hbody : (withoutId edited).Perm (withoutId receipt)) : Edited receipt edited
  | added {edited : Fields} {k : String} {v : Value} (hnew : k ∉ keys receipt)
      (hperm : edited.Perm ((k, v) :: receipt)) : Edited receipt edited
  | removed {k : String} (hold : k ∈ keys receipt) :
    Edited receipt (receipt.filter fun f => f.1 != k)

theorem verify_edited (hc : CanonicalForm P.rfc8785) (hs : Set.InjOn P.sha256 atHand)
    (hu : (Value.obj receipt).Unique) (hin : AtHand P atHand receipt) {out : Value}
    (h : verifyReceipt P (.obj receipt) = .ok out) (hedit : Edited receipt receipt')
    (hu' : (Value.obj receipt').Unique) (hin' : AtHand P atHand receipt') :
    ∀ out', verifyReceipt P (.obj receipt') ≠ .ok out' := by
  intro out' h'
  cases hedit with
  | body hid hbody => exact hbody (body_of_id hc hs hu hu' hin hin' h h' hid)
  | identifier hid hbody => exact hid (id_of_body hc hu hu' h h' hbody)
  | @added _ k v hnew hperm =>
    have hk : k ∈ keys receipt' := by
      rw [keys, (hperm.map Prod.fst).mem_iff]
      simp
    exact hnew ((keys_of_verify h k).mpr ((keys_of_verify h' k).mp hk))
  | @removed k hold =>
    obtain ⟨f, hf, hk⟩ := List.mem_map.mp
      ((keys_of_verify h' k).mpr ((keys_of_verify h k).mp hold))
    simpa [hk] using (List.mem_filter.mp hf).2

end Inverse

/-- Receipt construction and verification are inverse, also through the file,
and the identifier binds the body. -/
theorem construct_verify_inverse (hc : CanonicalForm P.rfc8785) (hd : HexDigest P.sha256)
    {atHand : Set Bytes} (hs : Set.InjOn P.sha256 atHand) :
    (∀ body stored : Value, body.Unique → constructReceipt P body = .ok stored →
      verifyReceipt P stored = .ok stored ∧
      ∃ parsed, loads .plain (receiptText stored) = some parsed ∧ parsed.normal = stored.normal ∧
        verifyReceipt P parsed = .ok parsed) ∧
    (∀ receipt : Fields, (Value.obj receipt).Unique →
      ((∃ out, verifyReceipt P (.obj receipt) = .ok out) ↔
        ∃ stored, constructReceipt P (.obj (withoutId receipt)) = .ok stored ∧
          SameDict stored (.obj receipt))) ∧
    (∀ receipt receipt' : Fields, (Value.obj receipt).Unique → (Value.obj receipt').Unique →
      AtHand P atHand receipt → AtHand P atHand receipt' →
      verifyReceipt P (.obj receipt) = .ok (.obj receipt) →
      verifyReceipt P (.obj receipt') = .ok (.obj receipt') →
      receipt'.lookup "receipt_id" = receipt.lookup "receipt_id" →
      (Value.obj (withoutId receipt')).normal = (Value.obj (withoutId receipt)).normal) ∧
    ∀ receipt receipt' : Fields, (Value.obj receipt).Unique → (Value.obj receipt').Unique →
      AtHand P atHand receipt → AtHand P atHand receipt' →
      verifyReceipt P (.obj receipt) = .ok (.obj receipt) → Edited receipt receipt' →
      ∀ out, verifyReceipt P (.obj receipt') ≠ .ok out := by
  refine ⟨fun body stored hu h => ?_, fun receipt hu => verify_iff_construct hd hu.of_obj.1,
    fun _ _ hu hu' hin hin' h h' hid => body_of_id hc hs hu hu' hin hin' h h' hid,
    fun _ _ hu hu' hin hin' h hedit => verify_edited hc hs hu hin h hedit hu' hin'⟩
  have hstored := unique_construct hu h
  have hverify := verify_of_construct hd h
  cases stored with
  | obj fields =>
    have hschema := (verifyReceipt_eq_ok.mp hverify).2.2.1
    refine ⟨hverify, _, loads_dumps keepsDistinct_plain hstored (numberReads_of_schema hschema),
      Value.normal_sortKeys _, verify_sortKeys hc hstored hverify⟩
  | _ => simp [verifyReceipt] at hverify

mutual

def numbersOf : Value → List Number
  | .num n => [n]
  | .arr items => numbersOfItems items
  | .obj fields => numbersOfFields fields
  | _ => []

def numbersOfItems : List Value → List Number
  | [] => []
  | v :: items => numbersOf v ++ numbersOfItems items

def numbersOfFields : Fields → List Number
  | [] => []
  | (_, v) :: fields => numbersOf v ++ numbersOfFields fields

end

def isSafeInteger : Number → Bool
  | .int n => decide (n.natAbs < 2 ^ 53)
  | .float _ => false

theorem numbers_of_numbersOf {Q : Number → Prop} (v : Value) :
    (∀ n ∈ numbersOf v, Q n) → v.Numbers Q := by
  induction v using Value.induct with
  | null => exact fun _ => .null
  | bool b => exact fun _ => .bool b
  | num n => exact fun h => .num (h n (by simp [numbersOf]))
  | str s => exact fun _ => .str s
  | arr items ih =>
    intro h
    refine .arr fun v hv => ih v hv fun n hn => h n ?_
    rw [numbersOf]
    clear h ih
    induction items with
    | nil => simp at hv
    | cons w items ihl =>
      rw [numbersOfItems, List.mem_append]
      rcases List.mem_cons.mp hv with rfl | hv
      · exact .inl hn
      · exact .inr (ihl hv)
  | obj fields ih =>
    intro h
    refine .obj fun f hf => ih f hf fun n hn => h n ?_
    rw [numbersOf]
    clear h ih
    induction fields with
    | nil => simp at hf
    | cons g fields ihl =>
      rw [numbersOfFields, List.mem_append]
      rcases List.mem_cons.mp hf with rfl | hf
      · exact .inl hn
      · exact .inr (ihl hf)

/-- RFC 8785 on the values whose texts are ASCII and whose numbers are safe
integers; other numbers are refused. -/
def compactJson (v : Value) : Except String Bytes :=
  if (numbersOf v.normal).all isSafeInteger then
    .ok (String.ofList (render .compact 0 v.normal)).toByteArray.data.toList
  else .error "unsupported number"

theorem unique_normal {v : Value} (h : v.Unique) : v.normal.Unique := by
  induction h with
  | null => exact .null
  | bool b => exact .bool b
  | num n => exact .num _
  | str s => exact .str s
  | arr h ih =>
    refine .arr fun v hv => ?_
    rw [Value.normalItems_eq_map] at hv
    obtain ⟨w, hw, rfl⟩ := List.mem_map.mp hv
    exact ih w hw
  | @obj fields hkeys h ih =>
    have hperm := perm_sortByKey (Value.normalFields fields)
    refine .obj (nodup_keys_perm hperm.symm (Value.keys_normalFields fields ▸ hkeys)) fun f hf => ?_
    rw [hperm.mem_iff, Value.normalFields_eq_map] at hf
    obtain ⟨g, hg, rfl⟩ := List.mem_map.mp hf
    exact ih g hg

theorem compactJson_eq_ok {v : Value} {bytes : Bytes} (h : compactJson v = .ok bytes) :
    v.normal.Numbers NumberReads ∧
      bytes = (String.ofList (render .compact 0 v.normal)).toByteArray.data.toList := by
  unfold compactJson at h
  split_ifs at h with hall
  refine ⟨numbers_of_numbersOf _ fun n hn => ?_, (Except.ok.inj h).symm⟩
  have hsafe := List.all_eq_true.mp hall n hn
  cases n with
  | int n => exact numberReads_int n
  | float x => simp [isSafeInteger] at hsafe

theorem canonicalForm_compactJson : CanonicalForm compactJson where
  keyOrder {v w bytes} _ _ hsort h := by
    have hnormal : v.normal = w.normal := by
      rw [← Value.normal_sortKeys v, hsort, Value.normal_sortKeys]
    unfold compactJson at h ⊢
    rwa [← hnormal]
  injective {v w bytes} hv hw h h' := by
    obtain ⟨hn, hbytes⟩ := compactJson_eq_ok h
    obtain ⟨hn', hbytes'⟩ := compactJson_eq_ok h'
    refine render_injective .compact (unique_normal hv) (unique_normal hw) hn hn' ?_
    have hdata := Array.toList_inj.mp (hbytes.symm.trans hbytes')
    exact String.ofList_injective (String.toByteArray_inj.mp (ByteArray.ext hdata))

def exampleId : String := "2259129fceaf857c0f9971cadb70905b392f91c489429ae70a3fafd442a568e6"

def exampleBody : Value :=
  .obj [("schema_version", .str "1.0.0"), ("receipt_type", .str "verify-source"),
    ("command", .str "verify-source"), ("created_at", .str "2026-08-23T12:00:00Z"),
    ("subject", .obj [("source_release_id",
      .str "aaaaaaaaaaaaaaaaaaaaaaaaaaaaaaaaaaaaaaaaaaaaaaaaaaaaaaaaaaaaaaaa")]),
    ("evidence", .arr []), ("result", .str "PASS"),
    ("metadata", .obj [("attempt", .num (.int 1))])]

/-- The canonical text of `exampleBody`. -/
def exampleText : String :=
  "\x7b\"command\":\"verify-source\",\"created_at\":\"2026-08-23T12:00:00Z\",\"evidence\":[]," ++
  "\"metadata\":\x7b\"attempt\":1\x7d,\"receipt_type\":\"verify-source\",\"result\":\"PASS\"," ++
  "\"schema_version\":\"1.0.0\",\"subject\":\x7b\"source_release_id\":" ++
  "\"aaaaaaaaaaaaaaaaaaaaaaaaaaaaaaaaaaaaaaaaaaaaaaaaaaaaaaaaaaaaaaaa\"\x7d\x7d"

/-- SHA-256 of the canonical text of `exampleBody`, and of nothing else. -/
def exampleDigest (bytes : Bytes) : String :=
  if bytes = exampleText.toByteArray.data.toList then exampleId
  else "0000000000000000000000000000000000000000000000000000000000000000"

def examplePrimitives : Primitives where
  unicodeWord _ := false
  rfc8785 := compactJson
  sha256 := exampleDigest

theorem hexDigest_exampleDigest : HexDigest exampleDigest := by
  intro bytes
  unfold exampleDigest
  split_ifs <;> exact ⟨by decide, List.all_eq_true.mp (by decide)⟩

theorem unique_exampleBody : exampleBody.Unique := by
  refine .obj (by decide) ?_
  simp only [List.forall_mem_cons, List.not_mem_nil, false_implies, implies_true, and_true]
  refine ⟨.str _, .str _, .str _, .str _, .obj (by decide) ?_, .arr (by simp), .str _,
    .obj (by decide) ?_⟩
  · simpa using .str _
  · simpa using .num _

theorem construct_exampleBody :
    (constructReceipt examplePrimitives exampleBody).toOption.isSome = true := by decide +kernel

theorem construct_verify_inverse_example :
    ∃ stored, constructReceipt examplePrimitives exampleBody = .ok stored ∧
      verifyReceipt examplePrimitives stored = .ok stored ∧
      ∃ parsed, loads .plain (receiptText stored) = some parsed ∧
        verifyReceipt examplePrimitives parsed = .ok parsed := by
  obtain ⟨stored, h⟩ := exists_ok_of_isSome construct_exampleBody
  have hinj : Set.InjOn exampleDigest {exampleText.toByteArray.data.toList} :=
    Set.injOn_singleton _ _
  obtain ⟨hverify, parsed, hparsed, -, hagain⟩ :=
    (construct_verify_inverse (P := examplePrimitives) canonicalForm_compactJson
      hexDigest_exampleDigest hinj).1 exampleBody stored unique_exampleBody h
  exact ⟨stored, h, hverify, parsed, hparsed, hagain⟩

end ChampionRuntime.Receipts
