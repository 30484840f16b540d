import Mathlib.Data.List.Basic
import Mathlib.Tactic.Common

/-!
# UTF-8

Texts and their bytes. No character's bytes begin with those of another one, so what a
truncated text still decodes to is a beginning of the text.
-/
namespace ChampionRuntime.Lib

def encode (text : List Char) : List UInt8 := text.flatMap String.utf8EncodeChar

/-- `bytes.decode("utf-8")`, which may fail. -/
def decode (bytes : List UInt8) : Option (List Char) :=
  (String.fromUTF8? ⟨bytes.toArray⟩).map String.toList

@[simp] theorem encode_nil : encode [] = [] := rfl

theorem encode_append (a b : List Char) : encode (a ++ b) = encode a ++ encode b :=
  List.flatMap_append

theorem utf8Encode_eq (text : List Char) : text.utf8Encode = (encode text).toByteArray := rfl

theorem toByteArray_eq (bytes : List UInt8) : (⟨bytes.toArray⟩ : ByteArray) = bytes.toByteArray := by
  apply ByteArray.ext
  simp

theorem toByteArray_inj {a b : List UInt8} (h : a.toByteArray = b.toByteArray) : a = b := by
  rw [← toByteArray_eq, ← toByteArray_eq, ByteArray.mk.injEq] at h
  simpa using h

theorem prefix_of_encode_append {a b : List Char} (rest : List UInt8)
    (h : encode a ++ rest = encode b) : a <+: b := by
  apply List.isPrefix_of_utf8Encode_append_eq_utf8Encode rest.toByteArray
  rw [utf8Encode_eq, utf8Encode_eq, ← h, List.toByteArray_append]

theorem decode_eq_some {bytes : List UInt8} {text : List Char} :
    decode bytes = some text ↔ bytes = encode text := by
  unfold decode
  rw [Option.map_eq_some_iff]
  constructor
  · rintro ⟨s, hs, rfl⟩
    have hbytes : s.toByteArray = ⟨bytes.toArray⟩ := by
      unfold String.fromUTF8? at hs
      split at hs
      · rw [← Option.some.inj hs]
        rfl
      · contradiction
    apply toByteArray_inj
    rw [← toByteArray_eq, ← hbytes, ← String.utf8Encode_toList, utf8Encode_eq]
  · rintro rfl
    refine ⟨String.ofList text, ?_, String.toList_ofList⟩
    have hbytes : (String.ofList text).toByteArray = ⟨(encode text).toArray⟩ := by
      rw [toByteArray_eq, ← utf8Encode_eq, ← String.utf8Encode_toList, String.toList_ofList]
    rw [← hbytes, String.fromUTF8?, dif_pos (String.ofList text).isValidUTF8]
    rfl

theorem exists_of_encode_append {a b : List Char} {rest : List UInt8}
    (h : encode b = encode a ++ rest) : ∃ text, b = a ++ text ∧ rest = encode text := by
  obtain ⟨text, rfl⟩ := prefix_of_encode_append _ h.symm
  refine ⟨text, rfl, ?_⟩
  rw [encode_append] at h
  exact (List.append_cancel_left h).symm

end ChampionRuntime.Lib
