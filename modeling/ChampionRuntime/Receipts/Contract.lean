import ChampionRuntime.Receipts.Inverse

/-!
# Strict loading of receipts

`champion_runtime/contracts.py` for the receipt contract. The reader refuses a
repeated name and the constants that are not JSON; the content is scanned before
the schema is applied, and the identifier is verified last. The validator's
texts about a schema violation are left out.
-/
namespace ChampionRuntime.Receipts

open Lib Lib.Json Lib.PyText

inductive ContractError where
  /-- a `UnicodeDecodeError`, which the reader does not catch -/
  | notUtf8
  | invalidJson
  | content (cause : ReceiptError)
  | schema
  | notAnObject
  | identifier (cause : ReceiptError)
  deriving DecidableEq, Repr

/-- The hooks of `_read_json`. -/
def strictReader : Reader where
  object pairs := if (keys pairs).Nodup then some (.obj pairs) else none
  constants := false

/-- A text file opened with `encoding="utf-8"`. -/
def decodeText (bytes : Bytes) : Option (List Char) :=
  (String.fromUTF8? ⟨bytes.toArray⟩).map fun text => universalNewlines text.toList

def readJson (bytes : Bytes) : Except ContractError Value :=
  match decodeText bytes with
  | none => .error .notUtf8
  | some text =>
    match loads strictReader text with
    | none => .error .invalidJson
    | some payload => .ok payload

/-- `load_contract(path, "receipt")`. -/
def loadReceipt (P : Primitives) (bytes : Bytes) : Except ContractError Fields := do
  let payload ← readJson bytes
  match payload with
  | .obj fields => do
    (validateReceiptContent P.isWord fields).mapError .content
    require (receiptSchema.validate (.obj fields)) .schema
    let _ ← (verifyReceipt P (.obj fields)).mapError .identifier
    pure fields
  | other => do
    require (receiptSchema.validate other) .schema
    .error .notAnObject

theorem keepsDistinct_strict : strictReader.KeepsDistinct := by
  intro fields h
  simp [strictReader, h]

theorem decodeText_toByteArray {text : String} (h : '\r' ∉ text.toList) :
    decodeText text.toByteArray.data.toList = some text.toList := by
  have hbytes : (⟨text.toByteArray.data.toList.toArray⟩ : ByteArray) = text.toByteArray := by
    simp
  have hdecode : String.fromUTF8? text.toByteArray = some text := by
    rw [String.fromUTF8?, dif_pos text.isValidUTF8]
    rfl
  rw [decodeText, hbytes, hdecode, Option.map_some, universalNewlines_of_not_mem h]

theorem loadReceipt_render {P : Primitives} {L : Layout} {fields : Fields} {out : Value}
    (hu : (Value.obj fields).Unique) (h : verifyReceipt P (.obj fields) = .ok out) {text : String}
    (htext : text.toList = render L 0 (.obj fields) ++ ['\n']) (hline : '\r' ∉ text.toList) :
    loadReceipt P text.toByteArray.data.toList = .ok fields := by
  obtain ⟨-, hcontent, hschema, -⟩ := verifyReceipt_eq_ok.mp h
  have hloads : loads strictReader text.toList = some (.obj fields) := by
    rw [htext]
    exact loads_render L keepsDistinct_strict hu (numberReads_of_schema hschema) ['\n']
      (by simp [isWs])
  have hscan : validateReceiptContent P.isWord fields = .ok () :=
    validateReceiptContent_eq_ok.mpr hcontent
  simp [loadReceipt, readJson, decodeText_toByteArray hline, hloads, hscan, hschema, h,
    Except.mapError, pure, Except.pure]

end ChampionRuntime.Receipts
