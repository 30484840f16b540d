import ChampionRuntime.Lib.JsonText
import Mathlib.Data.Nat.Digits.Lemmas

/-!
# Reading back what was written

Strings and integers of any size are read back as they were written, whatever
follows them; a float is read back when its shortest decimal is. The values in
between are joined by whitespace of the layout, which the reader skips.
-/
namespace ChampionRuntime.Lib.Json

open PyText

/-- The code units a character is written with. -/
def charUnits (c : Char) : List ℕ :=
  if c.toNat < 0x10000 then [c.toNat]
  else [0xd800 + (c.toNat - 0x10000) / 0x400, 0xdc00 + (c.toNat - 0x10000) % 0x400]

theorem toNat_valid (c : Char) :
    c.toNat < 0xd800 ∨ 0xdfff < c.toNat ∧ c.toNat < 0x110000 := c.valid

theorem hexValue_hexDigit : ∀ d < 16, hexValue (hexDigit d) = some d := by decide

theorem units_escapeUnit {n : ℕ} (hn : n < 0x10000) (t : List Char) :
    units (escapeUnit n ++ t) = (units t).map fun r => (n :: r.1, r.2) := by
  have hvalue : hex4Value (hexDigit (n / 4096 % 16)) (hexDigit (n / 256 % 16))
      (hexDigit (n / 16 % 16)) (hexDigit (n % 16)) = some n := by
    simp only [hex4Value, hexValue_hexDigit _ (Nat.mod_lt _ (by decide : 0 < 16)),
      Option.bind_eq_bind, Option.bind_some, Option.some.injEq]
    omega
  simp only [escapeUnit, hex4, List.cons_append, List.nil_append, units]
  rw [hvalue]
  cases units t <;> rfl

theorem units_simpleEscape {e : Char} {n : ℕ} (he : simpleEscape e = some n)
    (t : List Char) : units ('\\' :: e :: t) = (units t).map fun r => (n :: r.1, r.2) := by
  have hu : e ≠ 'u' := by
    rintro rfl
    simp [simpleEscape] at he
  rw [units.eq_def]
  simp only [if_neg (by decide : '\\' ≠ '"'), if_true]
  split
  · rename_i heq
    exact absurd (List.cons.inj heq).1 hu
  · rename_i heq
    obtain ⟨rfl, rfl⟩ := List.cons.inj heq
    rw [he]
    cases units t <;> rfl
  · rename_i heq
    cases heq

/-- A character is written as a short escape, as itself, or as its escaped code units. -/
theorem escapeChar_cases (c : Char) :
    (∃ e, escapeChar c = ['\\', e] ∧ simpleEscape e = some c.toNat ∧ c.toNat < 0x80 ∧
      inRange 0x20 0x7e e = true) ∨
    (escapeChar c = [c] ∧ c ≠ '"' ∧ c ≠ '\\' ∧ 0x20 ≤ c.toNat ∧ c.toNat ≤ 0x7e) ∨
    (escapeChar c = escapeUnit c.toNat ∧ c.toNat < 0x10000) ∨
    (escapeChar c = escapeUnit (0xd800 + (c.toNat - 0x10000) / 0x400) ++
      escapeUnit (0xdc00 + (c.toNat - 0x10000) % 0x400) ∧ ¬ c.toNat < 0x10000) := by
  unfold escapeChar
  by_cases h1 : c = '"'
  · subst h1
    exact .inl ⟨'"', rfl, rfl, by decide, rfl⟩
  rw [if_neg h1]
  by_cases h2 : c = '\\'
  · subst h2
    exact .inl ⟨'\\', rfl, rfl, by decide, rfl⟩
  rw [if_neg h2]
  by_cases h3 : c = '\n'
  · subst h3
    exact .inl ⟨'n', rfl, rfl, by decide, rfl⟩
  rw [if_neg h3]
  by_cases h4 : c = '\r'
  · subst h4
    exact .inl ⟨'r', rfl, rfl, by decide, rfl⟩
  rw [if_neg h4]
  by_cases h5 : c = '\t'
  · subst h5
    exact .inl ⟨'t', rfl, rfl, by decide, rfl⟩
  rw [if_neg h5]
  by_cases h6 : c.toNat = 0xc
  · rw [if_pos h6, h6]
    exact .inl ⟨'f', rfl, rfl, by decide, rfl⟩
  rw [if_neg h6]
  by_cases h7 : c.toNat = 0x8
  · rw [if_pos h7, h7]
    exact .inl ⟨'b', rfl, rfl, by decide, rfl⟩
  rw [if_neg h7]
  by_cases h8 : 0x20 ≤ c.toNat ∧ c.toNat ≤ 0x7e
  · exact .inr (.inl ⟨if_pos h8, h1, h2, h8.1, h8.2⟩)
  rw [if_neg h8]
  by_cases h9 : c.toNat < 0x10000
  · exact .inr (.inr (.inl ⟨if_pos h9, h9⟩))
  · exact .inr (.inr (.inr ⟨if_neg h9, h9⟩))

theorem units_escapeChar (c : Char) (t : List Char) :
    units (escapeChar c ++ t) = (units t).map fun r => (charUnits c ++ r.1, r.2) := by
  have hvalid := toNat_valid c
  unfold charUnits
  obtain ⟨e, htext, he, hsmall, -⟩ | ⟨htext, hquote, hslash, hlow, hhigh⟩ | ⟨htext, hsmall⟩ |
    ⟨htext, hlarge⟩ := escapeChar_cases c
  · rw [htext, if_pos (by omega)]
    exact units_simpleEscape he t
  · rw [htext, if_pos (by omega)]
    exact units_plain hquote hslash (by omega) t
  · rw [htext, if_pos hsmall]
    exact units_escapeUnit hsmall t
  · rw [htext, if_neg hlarge, List.append_assoc, units_escapeUnit (by omega),
      units_escapeUnit (by omega), Option.map_map]
    rfl

theorem units_quote (s : List Char) (t : List Char) :
    units (s.flatMap escapeChar ++ '"' :: t) = some (s.flatMap charUnits, t) := by
  induction s with
  | nil =>
    rw [List.flatMap_nil, List.nil_append, units.eq_def]
    rfl
  | cons c s ih =>
    rw [List.flatMap_cons, List.append_assoc, units_escapeChar, ih]
    simp

theorem joinUnits_charUnits (c : Char) (us : List ℕ) :
    joinUnits (charUnits c ++ us) = (joinUnits us).map (c :: ·) := by
  have hvalid := toNat_valid c
  unfold charUnits
  split_ifs with h
  · have hhigh : isHigh c.toNat = false := by
      simp only [isHigh, Bool.and_eq_false_iff, decide_eq_false_iff_not]
      omega
    have hlow : isLow c.toNat = false := by
      simp only [isLow, Bool.and_eq_false_iff, decide_eq_false_iff_not]
      omega
    cases us with
    | nil => simp [joinUnits, hhigh, hlow]
    | cons m us => simp [joinUnits, hhigh, hlow]
  · have hhigh : isHigh (0xd800 + (c.toNat - 0x10000) / 0x400) = true := by
      simp only [isHigh, Bool.and_eq_true, decide_eq_true_eq]
      omega
    have hlow : isLow (0xdc00 + (c.toNat - 0x10000) % 0x400) = true := by
      simp only [isLow, Bool.and_eq_true, decide_eq_true_eq]
      omega
    have hsum : 0x10000 + (0xd800 + (c.toNat - 0x10000) / 0x400 - 0xd800) * 0x400 +
        (0xdc00 + (c.toNat - 0x10000) % 0x400 - 0xdc00) = c.toNat := by omega
    simp only [List.cons_append, List.nil_append, joinUnits, hhigh, hlow, Bool.and_self, if_true,
      hsum, Char.ofNat_toNat]

theorem joinUnits_flatMap (s : List Char) : joinUnits (s.flatMap charUnits) = some s := by
  induction s with
  | nil => rfl
  | cons c s ih => simp [List.flatMap_cons, joinUnits_charUnits, ih]

theorem readString_quote (s : String) (t : List Char) :
    readString (s.toList.flatMap escapeChar ++ '"' :: t) = some (s, t) := by
  simp [readString, units_quote, joinUnits_flatMap]

/-- What may follow a number: nothing, a separator or whitespace. -/
def Ends (t : List Char) : Prop :=
  ∀ c ∈ t.head?, c = ',' ∨ c = ']' ∨ c = '}' ∨ isWs c = true

theorem Ends.not_digit {t : List Char} (h : Ends t) {c : Char} (hc : c ∈ t.head?) :
    isDigit c = false ∧ c ≠ '.' ∧ c ≠ 'e' ∧ c ≠ 'E' := by
  have hws : ∀ c, isWs c = true → c = ' ' ∨ c = '\t' ∨ c = '\n' ∨ c = '\r' := by
    intro c hc
    simpa [isWs, or_assoc] using hc
  rcases h c hc with rfl | rfl | rfl | hw
  · decide
  · decide
  · decide
  · rcases hws c hw with rfl | rfl | rfl | rfl <;> decide

theorem takeWhile_digits (digits : List Char) (hd : ∀ c ∈ digits, isDigit c = true)
    {t : List Char} (ht : Ends t) :
    (digits ++ t).takeWhile isDigit = digits ∧ (digits ++ t).dropWhile isDigit = t := by
  have htake : t.takeWhile isDigit = [] ∧ t.dropWhile isDigit = t := by
    cases t with
    | nil => simp
    | cons c t => simp [(ht.not_digit (c := c) (by simp)).1]
  constructor
  · rw [List.takeWhile_append_of_pos hd, htake.1, List.append_nil]
  · rw [List.dropWhile_append_of_pos hd, htake.2]

theorem readFraction_of_ends {t : List Char} (ht : Ends t) : readFraction t = (none, t) := by
  unfold readFraction
  split
  · exact absurd rfl (ht.not_digit (c := '.') (by simp)).2.1
  · rfl

theorem readExponent_of_ends {t : List Char} (ht : Ends t) : readExponent t = (none, t) := by
  unfold readExponent
  split
  · rename_i e tail
    have hne := ht.not_digit (c := e) (by simp)
    rw [if_neg (by simp [hne.2.2.1, hne.2.2.2])]
  · rfl

theorem readNumberTail_int (negative : Bool) (digits : List Char) {t : List Char}
    (ht : Ends t) :
    readNumberTail negative digits t = (.int (signed negative (natOf digits)), t) := by
  simp [readNumberTail, readFraction_of_ends ht, readExponent_of_ends ht]

theorem digitChar_spec : ∀ d < 10, isDigit (digitChar d) = true ∧ (digitChar d).toNat - 48 = d := by
  decide

theorem digitChar_zero_iff : ∀ d < 10, digitChar d = '0' ↔ d = 0 := by decide

theorem natOf_digits {ds : List ℕ} (h : ∀ d ∈ ds, d < 10) :
    natOf (ds.reverse.map digitChar) = Nat.ofDigits 10 ds := by
  induction ds with
  | nil => rfl
  | cons d ds ih =>
    have hd := (digitChar_spec d (h d (by simp))).2
    rw [natOf, List.reverse_cons, List.map_append, List.foldl_append]
    have hrest : (ds.reverse.map digitChar).foldl (fun acc c => 10 * acc + (c.toNat - 48)) 0 =
        Nat.ofDigits 10 ds := ih fun d' hd' => h d' (by simp [hd'])
    simp only [hrest, List.map_cons, List.map_nil, List.foldl_cons, List.foldl_nil, hd,
      Nat.ofDigits_cons]
    ring

/-- A written natural number: a lone zero, or digits that do not start with one. -/
theorem natText_spec (n : ℕ) :
    natOf (natText n) = n ∧ (∀ c ∈ natText n, isDigit c = true) ∧
      (natText n = ['0'] ∨ ∃ c rest, natText n = c :: rest ∧ c ≠ '0') := by
  unfold natText
  split_ifs with h
  · subst h
    exact ⟨rfl, by simp [isDigit, inRange], .inl rfl⟩
  · have hlt : ∀ d ∈ Nat.digits 10 n, d < 10 := fun d hd => Nat.digits_lt_base (by decide) hd
    refine ⟨by rw [natOf_digits hlt, Nat.ofDigits_digits], ?_, .inr ?_⟩
    · intro c hc
      obtain ⟨d, hd, rfl⟩ := List.mem_map.mp hc
      exact (digitChar_spec d (hlt d (List.mem_reverse.mp hd))).1
    · have hne : Nat.digits 10 n ≠ [] := Nat.digits_ne_nil_iff_ne_zero.mpr h
      have hlast := Nat.getLast_digit_ne_zero 10 h
      obtain ⟨init, last, hsplit⟩ : ∃ init last, Nat.digits 10 n = init ++ [last] :=
        ⟨_, _, (List.dropLast_append_getLast hne).symm⟩
      have hlast' : last ≠ 0 := by
        simpa [hsplit] using hlast
      refine ⟨digitChar last, init.reverse.map digitChar, by simp [hsplit], ?_⟩
      rw [Ne, digitChar_zero_iff last (hlt last (by simp [hsplit]))]
      exact hlast'

theorem readUnsigned_natText (negative : Bool) (n : ℕ) {t : List Char} (ht : Ends t) :
    readUnsigned negative (natText n ++ t) = some (.int (signed negative n), t) := by
  obtain ⟨hvalue, hdigits, hzero | ⟨c, rest, hcons, hc⟩⟩ := natText_spec n
  · rw [hzero] at hvalue ⊢
    simp only [List.cons_append, List.nil_append, readUnsigned, if_true,
      readNumberTail_int negative ['0'] ht, hvalue]
  · rw [hcons] at hvalue hdigits ⊢
    obtain ⟨htake, hdrop⟩ := takeWhile_digits rest (fun x hx => hdigits x (by simp [hx])) ht
    simp only [List.cons_append, readUnsigned, if_neg hc, hdigits c (by simp), if_true, htake,
      hdrop, readNumberTail_int negative (c :: rest) ht, hvalue]

theorem natText_head_ne_minus (n : ℕ) (t : List Char) : ∀ rest, natText n ++ t ≠ '-' :: rest := by
  intro rest h
  obtain ⟨-, hdigits, hzero | ⟨c, more, hcons, -⟩⟩ := natText_spec n
  · rw [hzero] at h
    simp at h
  · rw [hcons] at h
    have hminus : c = '-' := (List.cons.inj h).1
    exact absurd (hdigits c (by simp [hcons])) (by rw [hminus]; decide)

theorem readNumber_intText (n : ℤ) {t : List Char} (ht : Ends t) :
    readNumber (intText n ++ t) = some (.int n, t) := by
  unfold intText
  split_ifs with h
  · simp only [List.cons_append, readNumber, readUnsigned_natText true _ ht, Option.some.injEq,
      Prod.mk.injEq, Number.int.injEq, and_true, signed, if_true]
    omega
  · unfold readNumber
    split
    · rename_i rest heq
      exact absurd heq (natText_head_ne_minus _ _ _)
    · rw [readUnsigned_natText false _ ht]
      simp only [Option.some.injEq, Prod.mk.injEq, Number.int.injEq, and_true, signed,
        Bool.false_eq_true, if_false]
      omega

/-- The number is written with a digit or a sign first and is read back. -/
structure NumberReads (n : Number) : Prop where
  head : ∃ c rest, numberText n = c :: rest ∧ (isDigit c = true ∨ c = '-')
  reads : ∀ t, Ends t → readNumber (numberText n ++ t) = some (n, t)

theorem numberReads_int (n : ℤ) : NumberReads (.int n) := by
  refine ⟨?_, fun t ht => readNumber_intText n ht⟩
  simp only [numberText, intText]
  split_ifs with h
  · exact ⟨'-', _, rfl, .inr rfl⟩
  · obtain ⟨-, hdigits, hzero | ⟨c, rest, hcons, -⟩⟩ := natText_spec n.natAbs
    · exact ⟨'0', [], hzero, .inl rfl⟩
    · exact ⟨c, rest, hcons, .inl (hdigits c (by simp [hcons]))⟩

theorem readFraction_zero {t : List Char} (ht : Ends t) :
    readFraction ('.' :: '0' :: t) = (some ['0'], t) := by
  obtain ⟨htake, hdrop⟩ := takeWhile_digits ['0'] (by simp [isDigit, inRange]) ht
  simp only [List.cons_append, List.nil_append] at htake hdrop
  simp [readFraction, htake, hdrop]

theorem readNumberTail_zero (negative : Bool) (digits : List Char) {t : List Char} (ht : Ends t) :
    readNumberTail negative digits ('.' :: '0' :: t) =
      (.float (PyFloat.ofRat (signed negative (natOf (digits ++ ['0'])) * 10 ^ (0 - 1 : ℤ))), t) := by
  simp only [readNumberTail, readFraction_zero ht, readExponent_of_ends ht]
  rfl

theorem numberReads_digit : ∀ d < 10, 0 < d → NumberReads (.float (.finite (d : ℕ))) := by
  intro d hd hpos
  have htext : ∀ d < 10, 0 < d →
      floatText (.finite (d : ℕ)) = [digitChar d, '.', '0'] ∧ digitChar d ≠ '0' ∧
        PyFloat.ofRat (signed false (natOf [digitChar d, '0']) * 10 ^ (0 - 1 : ℤ)) =
          .finite (d : ℕ) := by decide +kernel
  obtain ⟨htext, hzero, hvalue⟩ := htext d hd hpos
  have hdigit := (digitChar_spec d hd).1
  have hminus : digitChar d ≠ '-' := by
    intro h
    rw [h] at hdigit
    exact absurd hdigit (by decide)
  refine ⟨⟨digitChar d, _, htext, .inl hdigit⟩, fun t ht => ?_⟩
  have hunsigned : readUnsigned false (digitChar d :: '.' :: '0' :: t) =
      some (.float (.finite (d : ℕ)), t) := by
    have hpoint : isDigit '.' = false := by decide
    simp only [readUnsigned, if_neg hzero, hdigit, if_true,
      List.takeWhile_cons_of_neg (by simp [hpoint] : ¬ isDigit '.' = true),
      List.dropWhile_cons_of_neg (by simp [hpoint] : ¬ isDigit '.' = true),
      readNumberTail_zero false [digitChar d] ht]
    exact congrArg (fun x => some (Number.float x, t)) hvalue
  simp only [numberText, htext, List.cons_append, List.nil_append]
  rw [← hunsigned]
  unfold readNumber
  split
  · rename_i heq
    exact absurd (List.cons.inj heq).1 hminus
  · rfl

namespace Value

/-- Every number of the value satisfies `P`. -/
inductive Numbers (P : Number → Prop) : Value → Prop
  | null : Numbers P .null
  | bool (b : Bool) : Numbers P (.bool b)
  | num {n : Number} (h : P n) : Numbers P (.num n)
  | str (s : String) : Numbers P (.str s)
  | arr {items : List Value} (h : ∀ v ∈ items, Numbers P v) : Numbers P (.arr items)
  | obj {fields : Fields} (h : ∀ f ∈ fields, Numbers P f.2) : Numbers P (.obj fields)

theorem Numbers.mono {P Q : Number → Prop} {v : Value} (h : Numbers P v)
    (hPQ : ∀ n, P n → Q n) : Numbers Q v := by
  induction h with
  | null => exact .null
  | bool b => exact .bool b
  | num h => exact .num (hPQ _ h)
  | str s => exact .str s
  | arr _ ih => exact .arr ih
  | obj _ ih => exact .obj ih

theorem Numbers.sortKeys {P : Number → Prop} {v : Value} (h : Numbers P v) :
    Numbers P v.sortKeys := by
  induction h with
  | null => exact .null
  | bool b => exact .bool b
  | num h => exact .num h
  | str s => exact .str s
  | arr h ih =>
    refine .arr fun v hv => ?_
    rw [sortItems_eq_map] at hv
    obtain ⟨w, hw, rfl⟩ := List.mem_map.mp hv
    exact ih w hw
  | @obj fields h ih =>
    refine .obj fun f hf => ?_
    rw [(perm_sortByKey _).mem_iff, sortFields_eq_map] at hf
    obtain ⟨g, hg, rfl⟩ := List.mem_map.mp hf
    exact ih g hg

mutual

/-- The nesting the reader has to follow. -/
def size : Value → ℕ
  | .arr items => 1 + sizeItems items
  | .obj fields => 1 + sizeFields fields
  | _ => 1

def sizeItems : List Value → ℕ
  | [] => 0
  | v :: items => 1 + size v + sizeItems items

def sizeFields : Fields → ℕ
  | [] => 0
  | (_, v) :: fields => 1 + size v + sizeFields fields

end

end Value

theorem skipWs_append {ws : List Char} (h : ∀ c ∈ ws, isWs c = true) (s : List Char) :
    skipWs (ws ++ s) = skipWs s := List.dropWhile_append_of_pos h

theorem skipWs_cons {c : Char} (h : isWs c = false) (s : List Char) :
    skipWs (c :: s) = c :: s := by simp [skipWs, h]

/-- The first character of a written value. -/
def Opens (c : Char) : Prop :=
  c = '"' ∨ c = '[' ∨ c = '{' ∨ c = 'n' ∨ c = 't' ∨ c = 'f' ∨ c = '-' ∨ isDigit c = true

theorem Opens.spec {c : Char} (h : Opens c) : isWs c = false ∧ c ≠ ']' ∧ c ≠ '}' := by
  rcases h with rfl | rfl | rfl | rfl | rfl | rfl | rfl | h
  · decide
  · decide
  · decide
  · decide
  · decide
  · decide
  · decide
  · refine ⟨?_, ?_, ?_⟩
    · cases hw : isWs c with
      | false => rfl
      | true =>
        have hcases : c = ' ' ∨ c = '\t' ∨ c = '\n' ∨ c = '\r' := by
          simpa [isWs, or_assoc] using hw
        rcases hcases with rfl | rfl | rfl | rfl <;> simp [isDigit, inRange] at h
    · rintro rfl
      simp [isDigit, inRange] at h
    · rintro rfl
      simp [isDigit, inRange] at h

section Render

variable (L : Layout)

attribute [local simp] render renderItems renderFields

theorem render_head (level : ℕ) {v : Value} (hn : v.Numbers NumberReads) :
    ∃ c rest, render L level v = c :: rest ∧ Opens c := by
  cases v with
  | null => exact ⟨'n', _, by simp [render]; rfl, by simp [Opens]⟩
  | bool b =>
    cases b with
    | true => exact ⟨'t', _, by simp [render]; rfl, by simp [Opens]⟩
    | false => exact ⟨'f', _, by simp [render]; rfl, by simp [Opens]⟩
  | num n =>
    cases hn with
    | num h =>
      obtain ⟨c, rest, htext, hc⟩ := h.head
      refine ⟨c, rest, by simp [render, htext], ?_⟩
      rcases hc with hc | rfl
      · simp [Opens, hc]
      · simp [Opens]
  | str s => exact ⟨'"', _, by simp [render, quote]; rfl, by simp [Opens]⟩
  | arr items =>
    cases items with
    | nil => exact ⟨'[', _, by simp [render]; rfl, by simp [Opens]⟩
    | cons v items => exact ⟨'[', _, by simp [render]; rfl, by simp [Opens]⟩
  | obj fields =>
    cases fields with
    | nil => exact ⟨'{', _, by simp [render]; rfl, by simp [Opens]⟩
    | cons f fields => exact ⟨'{', _, by simp [render]; rfl, by simp [Opens]⟩

theorem ends_gap (level : ℕ) {c : Char} (hc : c = ']' ∨ c = '}') (t : List Char) :
    Ends (L.gap level ++ c :: t) := by
  intro x hx
  cases hgap : L.gap level with
  | nil =>
    rw [hgap] at hx
    obtain rfl : c = x := by simpa using hx
    rcases hc with rfl | rfl <;> simp
  | cons g gs =>
    rw [hgap] at hx
    obtain rfl : g = x := by simpa using hx
    simp [L.gap_ws level g (by simp [hgap])]

theorem ends_renderItems (level : ℕ) (items : List Value) (t : List Char) :
    Ends (renderItems L level items ++ t) := by
  cases items with
  | nil => simpa [renderItems] using ends_gap L level (.inl rfl) t
  | cons v items =>
    intro x hx
    obtain rfl : ',' = x := by simpa [renderItems] using hx
    simp

theorem ends_renderFields (level : ℕ) (fields : Fields) (t : List Char) :
    Ends (renderFields L level fields ++ t) := by
  cases fields with
  | nil => simpa [renderFields] using ends_gap L level (.inr rfl) t
  | cons f fields =>
    intro x hx
    obtain rfl : ',' = x := by simpa [renderFields] using hx
    simp

variable {R : Reader}

theorem Value.size_pos (v : Value) : 0 < v.size := by
  cases v <;> simp [Value.size]

theorem exists_fuel {v : Value} {fuel : ℕ} (h : v.size ≤ fuel) : ∃ n, fuel = n + 1 :=
  Nat.exists_eq_succ_of_ne_zero (v.size_pos.trans_le h).ne'

/-- A value is read back from its text at every level. -/
def ReadsBack (R : Reader) (L : Layout) (v : Value) : Prop :=
  ∀ level fuel t, v.size ≤ fuel → Ends t → readValue R fuel (render L level v ++ t) = some (v, t)

theorem dropLiteral_of_head {literal s : List Char} {c x : Char} (hl : literal.head? = some x)
    (hs : s.head? = some c) (hne : c ≠ x) : dropLiteral literal s = none := by
  obtain ⟨ls, rfl⟩ := List.head?_eq_some_iff.mp hl
  obtain ⟨ss, rfl⟩ := List.head?_eq_some_iff.mp hs
  simp [dropLiteral, List.isPrefixOf, hne.symm]

theorem readScalar_number {n : Number} (h : NumberReads n) {t : List Char} (ht : Ends t) :
    readScalar R (numberText n ++ t) = some (.num n, t) := by
  obtain ⟨c, rest, htext, hc⟩ := h.head
  have hhead : (numberText n ++ t).head? = some c := by simp [htext]
  have hne : c ≠ 'n' ∧ c ≠ 't' ∧ c ≠ 'f' := by
    rcases hc with hc | rfl
    · refine ⟨?_, ?_, ?_⟩ <;> rintro rfl <;> simp [isDigit, inRange] at hc
    · decide
  unfold readScalar
  rw [dropLiteral_of_head (x := 'n') rfl hhead hne.1, dropLiteral_of_head (x := 't') rfl hhead hne.2.1,
    dropLiteral_of_head (x := 'f') rfl hhead hne.2.2, h.reads t ht]

theorem readValue_scalar {c : Char} {s : List Char} (hq : c ≠ '"') (ha : c ≠ '[') (ho : c ≠ '{')
    (fuel : ℕ) : readValue R (fuel + 1) (c :: s) = readScalar R (c :: s) := by
  simp [readValue, hq, ha, ho]

theorem readValue_array (s : List Char) (fuel : ℕ) : readValue R (fuel + 1) ('[' :: s) =
    if (skipWs s).head? = some ']' then some (.arr [], (skipWs s).tail)
    else (readItems R fuel (skipWs s)).map fun r => (.arr r.1, r.2) := by
  rw [readValue, if_neg (by decide), if_pos rfl]

theorem readValue_object (s : List Char) (fuel : ℕ) : readValue R (fuel + 1) ('{' :: s) =
    if (skipWs s).head? = some '}' then (R.object []).map fun v => (v, (skipWs s).tail)
    else (readFields R fuel (skipWs s)).bind fun r => (R.object r.1).map fun v => (v, r.2) := by
  rw [readValue, if_neg (by decide), if_neg (by decide), if_pos rfl]

theorem readsBack_null : ReadsBack R L .null := by
  intro level fuel t hfuel _
  obtain ⟨fuel, rfl⟩ := exists_fuel hfuel
  exact readValue_scalar (by decide) (by decide) (by decide) fuel

theorem readsBack_bool (b : Bool) : ReadsBack R L (.bool b) := by
  intro level fuel t hfuel _
  obtain ⟨fuel, rfl⟩ := exists_fuel hfuel
  cases b with
  | true => exact readValue_scalar (by decide) (by decide) (by decide) fuel
  | false => exact readValue_scalar (by decide) (by decide) (by decide) fuel

theorem readsBack_num {n : Number} (h : NumberReads n) : ReadsBack R L (.num n) := by
  intro level fuel t hfuel ht
  obtain ⟨fuel, rfl⟩ := exists_fuel hfuel
  obtain ⟨c, rest, htext, hc⟩ := h.head
  have hne : c ≠ '"' ∧ c ≠ '[' ∧ c ≠ '{' := by
    rcases hc with hc | rfl
    · refine ⟨?_, ?_, ?_⟩ <;> rintro rfl <;> simp [isDigit, inRange] at hc
    · decide
  rw [← readScalar_number h ht, render, htext, List.cons_append,
    readValue_scalar hne.1 hne.2.1 hne.2.2]

theorem readsBack_str (s : String) : ReadsBack R L (.str s) := by
  intro level fuel t hfuel _
  obtain ⟨fuel, rfl⟩ := exists_fuel hfuel
  simp [render, quote, readValue, readString_quote]

theorem skipWs_render {v : Value} (hn : v.Numbers NumberReads) (level n : ℕ) (t : List Char) :
    skipWs (L.gap n ++ (render L level v ++ t)) = render L level v ++ t ∧
      skipWs (L.afterColon ++ (render L level v ++ t)) = render L level v ++ t ∧
      (render L level v ++ t).head? ≠ some ']' := by
  obtain ⟨c, rest, htext, hc⟩ := render_head L level hn
  obtain ⟨hws, hclose, -⟩ := hc.spec
  rw [skipWs_append (L.gap_ws n), skipWs_append L.afterColon_ws, htext, List.cons_append,
    skipWs_cons hws]
  exact ⟨rfl, rfl, by simp [hclose]⟩

theorem readItems_render {items : List Value} (hn : ∀ v ∈ items, v.Numbers NumberReads)
    (hread : ∀ v ∈ items, ReadsBack R L v) {v : Value} (hv : ReadsBack R L v) (level : ℕ) :
    ∀ fuel t, 1 + v.size + Value.sizeItems items ≤ fuel →
      readItems R fuel (render L (level + 1) v ++ (renderItems L level items ++ t)) =
        some (v :: items, t) := by
  induction items generalizing v with
  | nil =>
    intro fuel t hfuel
    obtain ⟨fuel, rfl⟩ : ∃ n, fuel = n + 1 := ⟨fuel - 1, by omega⟩
    have hclose : skipWs (renderItems L level [] ++ t) = ']' :: t := by
      rw [renderItems, List.append_assoc, skipWs_append (L.gap_ws level), List.cons_append,
        List.nil_append, skipWs_cons (by decide)]
    rw [readItems, hv (level + 1) fuel _ (by omega) (ends_renderItems L level [] t)]
    simp only [Option.bind_eq_bind, Option.bind_some, hclose]
  | cons w items ih =>
    intro fuel t hfuel
    obtain ⟨fuel, rfl⟩ : ∃ n, fuel = n + 1 := ⟨fuel - 1, by omega⟩
    simp only [Value.sizeItems] at hfuel
    have hcomma : skipWs (renderItems L level (w :: items) ++ t) = ',' ::
        (L.gap (level + 1) ++ (render L (level + 1) w ++ (renderItems L level items ++ t))) := by
      rw [renderItems, List.cons_append, skipWs_cons (by decide)]
      simp only [List.append_assoc]
    have hskip := (skipWs_render L (hn w (by simp)) (level + 1) (level + 1)
      (renderItems L level items ++ t)).1
    rw [readItems, hv (level + 1) fuel _ (by omega) (ends_renderItems L level _ t)]
    simp only [Option.bind_eq_bind, Option.bind_some, hcomma, hskip]
    rw [ih (fun u hu => hn u (by simp [hu])) (fun u hu => hread u (by simp [hu]))
      (hread w (by simp)) fuel t (by omega)]
    rfl

theorem readsBack_arr {items : List Value} (hn : ∀ v ∈ items, v.Numbers NumberReads)
    (hread : ∀ v ∈ items, ReadsBack R L v) : ReadsBack R L (.arr items) := by
  intro level fuel t hfuel _
  obtain ⟨fuel, rfl⟩ := exists_fuel hfuel
  cases items with
  | nil => simp [render, readValue, skipWs, isWs]
  | cons v items =>
    obtain ⟨hskip, -, hopen⟩ := skipWs_render L (hn v (by simp)) (level + 1) (level + 1)
      (renderItems L level items ++ t)
    obtain ⟨-, hn⟩ := List.forall_mem_cons.mp hn
    obtain ⟨hv, hread⟩ := List.forall_mem_cons.mp hread
    simp only [Value.size, Value.sizeItems] at hfuel
    have hitems := readItems_render L hn hread hv level fuel t (by omega)
    simp only [render, List.cons_append, List.append_assoc]
    rw [readValue_array, hskip, if_neg hopen, hitems]
    rfl

theorem readFields_step (k : String) (v : Value) (level fuel : ℕ) (s : List Char)
    (hn : v.Numbers NumberReads) :
    readFields R (fuel + 1) (quote k ++ (':' :: (L.afterColon ++ (render L level v ++ s)))) =
      (readValue R fuel (render L level v ++ s)).bind fun r =>
        match skipWs r.2 with
        | '}' :: rest => some ([(k, r.1)], rest)
        | ',' :: rest => (readFields R fuel (skipWs rest)).map fun q => ((k, r.1) :: q.1, q.2)
        | _ => none := by
  have hskip := (skipWs_render L hn level level s).2.1
  simp only [quote, List.cons_append, List.append_assoc, List.nil_append, readFields,
    readString_quote, Option.bind_eq_bind, Option.bind_some,
    skipWs_cons (show isWs ':' = false by decide)]
  exact congrArg (fun text => (readValue R fuel text).bind _) hskip

theorem readFields_render {fields : Fields} (hn : ∀ f ∈ fields, f.2.Numbers NumberReads)
    (hread : ∀ f ∈ fields, ReadsBack R L f.2) {k : String} {v : Value}
    (hnv : v.Numbers NumberReads) (hv : ReadsBack R L v) (level : ℕ) :
    ∀ fuel t, 1 + v.size + Value.sizeFields fields ≤ fuel →
      readFields R fuel (quote k ++ (':' :: (L.afterColon ++
          (render L (level + 1) v ++ (renderFields L level fields ++ t))))) =
        some ((k, v) :: fields, t) := by
  induction fields generalizing k v with
  | nil =>
    intro fuel t hfuel
    obtain ⟨fuel, rfl⟩ : ∃ n, fuel = n + 1 := ⟨fuel - 1, by omega⟩
    have hclose : skipWs (renderFields L level [] ++ t) = '}' :: t := by
      rw [renderFields, List.append_assoc, skipWs_append (L.gap_ws level), List.cons_append,
        List.nil_append, skipWs_cons (by decide)]
    rw [readFields_step L k v (level + 1) fuel _ hnv,
      hv (level + 1) fuel _ (by omega) (ends_renderFields L level [] t)]
    simp only [Option.bind_some, hclose]
  | cons f fields ih =>
    obtain ⟨k', w⟩ := f
    intro fuel t hfuel
    obtain ⟨fuel, rfl⟩ : ∃ n, fuel = n + 1 := ⟨fuel - 1, by omega⟩
    simp only [Value.sizeFields] at hfuel
    have hcomma : skipWs (renderFields L level ((k', w) :: fields) ++ t) = ',' ::
        (L.gap (level + 1) ++ (quote k' ++ (':' :: (L.afterColon ++
          (render L (level + 1) w ++ (renderFields L level fields ++ t)))))) := by
      rw [renderFields, List.cons_append, skipWs_cons (by decide)]
      simp only [List.append_assoc, List.cons_append]
    have hskip : ∀ s, skipWs (L.gap (level + 1) ++ (quote k' ++ s)) = quote k' ++ s := by
      intro s
      rw [skipWs_append (L.gap_ws _), quote, List.cons_append, skipWs_cons (by decide)]
    rw [readFields_step L k v (level + 1) fuel _ hnv,
      hv (level + 1) fuel _ (by omega) (ends_renderFields L level _ t)]
    simp only [Option.bind_some, hcomma, hskip]
    obtain ⟨hnw, hn⟩ := List.forall_mem_cons.mp hn
    obtain ⟨hw, hread⟩ := List.forall_mem_cons.mp hread
    rw [ih hn hread hnw hw fuel t (by simp only; omega)]
    rfl

/-- The reader accepts objects with distinct keys as they are. -/
def Reader.KeepsDistinct (R : Reader) : Prop :=
  ∀ fields : Fields, (keys fields).Nodup → R.object fields = some (.obj fields)

theorem readsBack_obj (hR : R.KeepsDistinct) {fields : Fields} (hkeys : (keys fields).Nodup)
    (hn : ∀ f ∈ fields, f.2.Numbers NumberReads) (hread : ∀ f ∈ fields, ReadsBack R L f.2) :
    ReadsBack R L (.obj fields) := by
  intro level fuel t hfuel _
  obtain ⟨fuel, rfl⟩ := exists_fuel hfuel
  cases fields with
  | nil => simp [render, readValue, skipWs, isWs, hR [] hkeys]
  | cons f fields =>
    obtain ⟨k, v⟩ := f
    obtain ⟨hnv, hn⟩ := List.forall_mem_cons.mp hn
    obtain ⟨hv, hread⟩ := List.forall_mem_cons.mp hread
    simp only [Value.size, Value.sizeFields] at hfuel
    have hfields := readFields_render L hn hread hnv hv (k := k) level fuel t
      (by simp only; omega)
    have hskip : ∀ s, skipWs (L.gap (level + 1) ++ (quote k ++ s)) = quote k ++ s := by
      intro s
      rw [skipWs_append (L.gap_ws _), quote, List.cons_append, skipWs_cons (by decide)]
    have hopen : ∀ s, (quote k ++ s).head? ≠ some '}' := by
      intro s
      simp [quote]
    simp only [render, List.cons_append, List.append_assoc]
    rw [readValue_object, hskip, if_neg (hopen _), hfields, Option.bind_some, hR _ hkeys]
    rfl

theorem readsBack (hR : R.KeepsDistinct) {v : Value} (hu : v.Unique)
    (hn : v.Numbers NumberReads) : ReadsBack R L v := by
  induction v using Value.induct with
  | null => exact readsBack_null L
  | bool b => exact readsBack_bool L b
  | num n =>
    cases hn with
    | num h => exact readsBack_num L h
  | str s => exact readsBack_str L s
  | arr items ih =>
    cases hu with
    | arr hu =>
      cases hn with
      | arr hn => exact readsBack_arr L hn fun v hv => ih v hv (hu v hv) (hn v hv)
  | obj fields ih =>
    cases hu with
    | obj hkeys hu =>
      cases hn with
      | obj hn => exact readsBack_obj L hR hkeys hn fun f hf => ih f hf (hu f hf) (hn f hf)

theorem sizeItems_le {items : List Value} (h : ∀ v ∈ items, ∀ n, v.size ≤ (render L n v).length)
    (level : ℕ) : 1 + Value.sizeItems items ≤ (renderItems L level items).length := by
  induction items with
  | nil => simp [renderItems, Value.sizeItems]
  | cons v items ih =>
    obtain ⟨hv, h⟩ := List.forall_mem_cons.mp h
    have hlen := hv (level + 1)
    have hrest := ih h
    simp only [renderItems, Value.sizeItems, List.length_cons, List.length_append]
    omega

theorem sizeFields_le {fields : Fields}
    (h : ∀ f ∈ fields, ∀ n, f.2.size ≤ (render L n f.2).length) (level : ℕ) :
    1 + Value.sizeFields fields ≤ (renderFields L level fields).length := by
  induction fields with
  | nil => simp [renderFields, Value.sizeFields]
  | cons f fields ih =>
    obtain ⟨k, v⟩ := f
    obtain ⟨hv, h⟩ := List.forall_mem_cons.mp h
    have hlen := hv (level + 1)
    have hrest := ih h
    simp only [renderFields, Value.sizeFields, List.length_cons, List.length_append] at hlen ⊢
    omega

theorem size_le_length {v : Value} (hn : v.Numbers NumberReads) :
    ∀ level, v.size ≤ (render L level v).length := by
  induction v using Value.induct with
  | null | bool | num | str =>
    intro level
    obtain ⟨c, rest, htext, -⟩ := render_head L level hn
    rw [htext]
    simp [Value.size]
  | arr items ih =>
    intro level
    cases hn with
    | arr hn =>
      cases items with
      | nil => simp [render, Value.size, Value.sizeItems]
      | cons v items =>
        obtain ⟨hv, hitems⟩ := List.forall_mem_cons.mp fun v hv => ih v hv (hn v hv)
        have hlen := hv (level + 1)
        have hrest := sizeItems_le L hitems level
        simp only [render, Value.size, Value.sizeItems, List.length_cons, List.length_append]
        omega
  | obj fields ih =>
    intro level
    cases hn with
    | obj hn =>
      cases fields with
      | nil => simp [render, Value.size, Value.sizeFields]
      | cons f fields =>
        obtain ⟨k, v⟩ := f
        obtain ⟨hv, hfields⟩ := List.forall_mem_cons.mp fun f hf => ih f hf (hn f hf)
        have hlen := hv (level + 1)
        have hrest := sizeFields_le L hfields level
        simp only [render, Value.size, Value.sizeFields, List.length_cons,
          List.length_append] at hlen ⊢
        omega

theorem loads_render (hR : R.KeepsDistinct) {v : Value} (hu : v.Unique)
    (hn : v.Numbers NumberReads) (ws : List Char) (hws : ∀ c ∈ ws, isWs c = true) :
    loads R (render L 0 v ++ ws) = some v := by
  obtain ⟨c, rest, htext, hc⟩ := render_head L 0 hn
  have hskip : skipWs (render L 0 v ++ ws) = render L 0 v ++ ws := by
    rw [htext, List.cons_append, skipWs_cons hc.spec.1]
  have hends : Ends ws := by
    intro x hx
    exact .inr (.inr (.inr (hws x (List.mem_of_mem_head? hx))))
  have hsize := size_le_length L hn 0
  have hrest : skipWs ws = [] := by
    simpa [skipWs] using hws
  simp only [loads, hskip, Option.bind_eq_bind]
  rw [readsBack L hR hu hn 0 _ ws (by rw [List.length_append]; omega) hends]
  simp [hrest]

theorem render_injective {v w : Value} (hv : v.Unique) (hw : w.Unique)
    (hnv : v.Numbers NumberReads) (hnw : w.Numbers NumberReads)
    (h : render L 0 v = render L 0 w) : v = w := by
  have hR : Reader.KeepsDistinct { object := fun fields => some (.obj fields), constants := false } :=
    fun _ _ => rfl
  have hreadv := loads_render L hR hv hnv [] (by simp)
  have hreadw := loads_render L hR hw hnw [] (by simp)
  rw [h] at hreadv
  exact Option.some.inj (hreadv.symm.trans hreadw)

end Render

theorem setField_of_not_mem {fields : Fields} {k : String} (h : k ∉ keys fields) (v : Value) :
    setField fields k v = fields ++ [(k, v)] := by
  refine if_neg ?_
  rw [List.any_eq_true]
  rintro ⟨f, hf, hk⟩
  exact h (List.mem_map.mpr ⟨f, hf, by simpa using hk⟩)

theorem foldl_setField {fields pairs : Fields} (h : (keys (fields ++ pairs)).Nodup) :
    pairs.foldl (fun acc f => setField acc f.1 f.2) fields = fields ++ pairs := by
  induction pairs generalizing fields with
  | nil => simp
  | cons f pairs ih =>
    have hnot : f.1 ∉ keys fields := by
      intro hmem
      simp only [keys, List.map_append, List.nodup_append] at h
      exact h.2.2 _ hmem f.1 (by simp) rfl
    rw [List.foldl_cons, setField_of_not_mem hnot, ih (by simpa using h)]
    simp

theorem keepsDistinct_plain : Reader.plain.KeepsDistinct := by
  intro fields h
  simp only [Reader.plain, dictOfPairs]
  rw [foldl_setField (by simpa using h)]
  simp

/-- `json.loads` after `json.dumps` sorts the keys and keeps everything else. -/
theorem loads_dumps {R : Reader} (hR : R.KeepsDistinct) {v : Value} (hu : v.Unique)
    (hn : v.Numbers NumberReads) : loads R (dumps v ++ ['\n']) = some v.sortKeys :=
  loads_render .indented hR hu.sortKeys hn.sortKeys ['\n'] (by simp [isWs])

end ChampionRuntime.Lib.Json
