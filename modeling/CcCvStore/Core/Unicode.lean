import Mathlib.Data.List.TakeWhile
import Mathlib.Data.List.Basic

/-!
# UTF-16 strings and UTF-8 bytes

A string is a list of UTF-16 code units, any of which may be a lone surrogate.
Writing it out turns it into scalar values, with U+FFFD for every lone
surrogate, and these into UTF-8.  Reading bytes back replaces every malformed
piece by U+FFFD.  The two undo each other on the bytes of well-formed strings.
-/

namespace CcCvStore.Unicode

abbrev CodeUnits := List UInt16

/-- U+FFFD. -/
def replacement : Char := '\uFFFD'

/-! ## Code units -/

def isHighSurrogate (codeUnit : UInt16) : Bool := 0xD800 ≤ codeUnit && codeUnit < 0xDC00

def isLowSurrogate (codeUnit : UInt16) : Bool := 0xDC00 ≤ codeUnit && codeUnit < 0xE000

/-- The character of a code unit that is not half of a pair. -/
def unitChar (codeUnit : UInt16) : Char :=
  if isHighSurrogate codeUnit || isLowSurrogate codeUnit then replacement
  else Char.ofNat codeUnit.toNat

def pairChar (high low : UInt16) : Char :=
  Char.ofNat (0x10000 + (high.toNat - 0xD800) * 0x400 + (low.toNat - 0xDC00))

/-- The scalar values of a string, lone surrogates replaced. -/
def scalars : CodeUnits → List Char
  | [] => []
  | [codeUnit] => [unitChar codeUnit]
  | first :: second :: rest =>
      if isHighSurrogate first && isLowSurrogate second then
        pairChar first second :: scalars rest
      else unitChar first :: scalars (second :: rest)

def charUnits (char : Char) : CodeUnits :=
  if char.toNat < 0x10000 then [UInt16.ofNat char.toNat]
  else
    [UInt16.ofNat (0xD800 + (char.toNat - 0x10000) / 0x400),
      UInt16.ofNat (0xDC00 + (char.toNat - 0x10000) % 0x400)]

def codeUnits (chars : List Char) : CodeUnits := chars.flatMap charUnits

/-- No lone surrogates. -/
def IsWellFormed (units : CodeUnits) : Prop := codeUnits (scalars units) = units

instance (units : CodeUnits) : Decidable (IsWellFormed units) :=
  inferInstanceAs (Decidable (_ = _))

theorem not_surrogate_toNat {codeUnit : UInt16} (hhigh : isHighSurrogate codeUnit = false)
    (hlow : isLowSurrogate codeUnit = false) :
    codeUnit.toNat < 0xD800 ∨ 0xE000 ≤ codeUnit.toNat := by
  simp only [isHighSurrogate, isLowSurrogate, Bool.and_eq_false_iff, decide_eq_false_iff_not,
    UInt16.le_iff_toNat_le, UInt16.lt_iff_toNat_lt, UInt16.reduceToNat] at hhigh hlow
  omega

theorem unitChar_toNat {codeUnit : UInt16} (hhigh : isHighSurrogate codeUnit = false)
    (hlow : isLowSurrogate codeUnit = false) : (unitChar codeUnit).toNat = codeUnit.toNat := by
  have hrange := not_surrogate_toNat hhigh hlow
  have hmax := codeUnit.toNat_lt
  have hvalid : codeUnit.toNat.isValidChar := by
    simp only [Nat.isValidChar]
    omega
  rw [unitChar, hhigh, hlow, Bool.or_false, if_neg Bool.false_ne_true, Char.ofNat, dif_pos hvalid]
  rfl

theorem pairChar_toNat_le {high low : UInt16} (hhigh : isHighSurrogate high = true)
    (hlow : isLowSurrogate low = true) : 0x10000 ≤ (pairChar high low).toNat := by
  simp only [isHighSurrogate, isLowSurrogate, Bool.and_eq_true, decide_eq_true_eq,
    UInt16.le_iff_toNat_le, UInt16.lt_iff_toNat_lt, UInt16.reduceToNat] at hhigh hlow
  have hvalid : (0x10000 + (high.toNat - 0xD800) * 0x400 + (low.toNat - 0xDC00)).isValidChar := by
    simp only [Nat.isValidChar]
    omega
  have hvalue : (pairChar high low).toNat =
      0x10000 + (high.toNat - 0xD800) * 0x400 + (low.toNat - 0xDC00) := by
    rw [pairChar, Char.ofNat, dif_pos hvalid]
    rfl
  omega

theorem scalars_cons {codeUnit : UInt16} (hhigh : isHighSurrogate codeUnit = false)
    (rest : CodeUnits) : scalars (codeUnit :: rest) = unitChar codeUnit :: scalars rest := by
  cases rest with
  | nil => rfl
  | cons next rest => rw [scalars, hhigh, Bool.false_and, if_neg Bool.false_ne_true]

/-- A code unit that is no surrogate stands for itself wherever it appears. -/
theorem scalars_append_cons {sep : UInt16} (hhigh : isHighSurrogate sep = false)
    (hlow : isLowSurrogate sep = false) (left right : CodeUnits) :
    scalars (left ++ sep :: right) = scalars left ++ unitChar sep :: scalars right := by
  induction left using scalars.induct with
  | case1 => exact scalars_cons hhigh right
  | case2 codeUnit =>
      have hnext : scalars (codeUnit :: sep :: right) =
          unitChar codeUnit :: scalars (sep :: right) := by
        rw [scalars, hlow, Bool.and_false, if_neg Bool.false_ne_true]
      rw [List.singleton_append, hnext, scalars_cons hhigh]
      rfl
  | case3 first second rest hpair ih =>
      rw [List.cons_append, List.cons_append, scalars, if_pos hpair, ih, scalars, if_pos hpair]
      rfl
  | case4 first second rest hpair ih =>
      rw [List.cons_append, List.cons_append, scalars, if_neg hpair, ← List.cons_append, ih,
        scalars, if_neg hpair]
      rfl

theorem toNat_range (char : Char) :
    char.toNat < 0xD800 ∨ (0xDFFF < char.toNat ∧ char.toNat < 0x110000) := char.valid

theorem charUnits_of_lt {char : Char} (hlt : char.toNat < 0x10000) :
    charUnits char = [UInt16.ofNat char.toNat] := if_pos hlt

theorem scalars_charUnits_append (char : Char) (rest : CodeUnits) :
    scalars (charUnits char ++ rest) = char :: scalars rest := by
  have hrange := toNat_range char
  by_cases hlt : char.toNat < 0x10000
  · have hvalue : (UInt16.ofNat char.toNat).toNat = char.toNat :=
      UInt16.toNat_ofNat_of_lt hlt
    have hhigh : isHighSurrogate (UInt16.ofNat char.toNat) = false := by
      simp only [isHighSurrogate, Bool.and_eq_false_iff, decide_eq_false_iff_not,
        UInt16.le_iff_toNat_le, UInt16.lt_iff_toNat_lt, UInt16.reduceToNat, hvalue]
      omega
    have hlow : isLowSurrogate (UInt16.ofNat char.toNat) = false := by
      simp only [isLowSurrogate, Bool.and_eq_false_iff, decide_eq_false_iff_not,
        UInt16.le_iff_toNat_le, UInt16.lt_iff_toNat_lt, UInt16.reduceToNat, hvalue]
      omega
    have hchar : unitChar (UInt16.ofNat char.toNat) = char := by
      apply Char.toNat_inj.mp
      rw [unitChar_toNat hhigh hlow, hvalue]
    rw [charUnits_of_lt hlt, List.singleton_append, scalars_cons hhigh, hchar]
  · have hhighNat : (UInt16.ofNat (0xD800 + (char.toNat - 0x10000) / 0x400)).toNat =
        0xD800 + (char.toNat - 0x10000) / 0x400 :=
      UInt16.toNat_ofNat_of_lt (by simp only [UInt16.size]; omega)
    have hlowNat : (UInt16.ofNat (0xDC00 + (char.toNat - 0x10000) % 0x400)).toNat =
        0xDC00 + (char.toNat - 0x10000) % 0x400 :=
      UInt16.toNat_ofNat_of_lt (by simp only [UInt16.size]; omega)
    have hhigh : isHighSurrogate
        (UInt16.ofNat (0xD800 + (char.toNat - 0x10000) / 0x400)) = true := by
      simp only [isHighSurrogate, Bool.and_eq_true, decide_eq_true_eq,
        UInt16.le_iff_toNat_le, UInt16.lt_iff_toNat_lt, UInt16.reduceToNat, hhighNat]
      omega
    have hlow : isLowSurrogate
        (UInt16.ofNat (0xDC00 + (char.toNat - 0x10000) % 0x400)) = true := by
      simp only [isLowSurrogate, Bool.and_eq_true, decide_eq_true_eq,
        UInt16.le_iff_toNat_le, UInt16.lt_iff_toNat_lt, UInt16.reduceToNat, hlowNat]
      omega
    have hpair : pairChar (UInt16.ofNat (0xD800 + (char.toNat - 0x10000) / 0x400))
        (UInt16.ofNat (0xDC00 + (char.toNat - 0x10000) % 0x400)) = char := by
      have hvalue : 0x10000 + (0xD800 + (char.toNat - 0x10000) / 0x400 - 0xD800) * 0x400 +
          (0xDC00 + (char.toNat - 0x10000) % 0x400 - 0xDC00) = char.toNat := by omega
      rw [pairChar, hhighNat, hlowNat, hvalue, Char.ofNat_toNat]
    rw [charUnits, if_neg hlt, List.cons_append, List.singleton_append, scalars, hhigh, hlow,
      Bool.and_true, if_pos rfl, hpair]

/-- Characters survive the way through code units. -/
theorem scalars_codeUnits (chars : List Char) : scalars (codeUnits chars) = chars := by
  induction chars with
  | nil => rfl
  | cons char chars ih =>
      rw [codeUnits, List.flatMap_cons, scalars_charUnits_append, ← codeUnits, ih]

/-! ## Bytes -/

def utf8 (chars : List Char) : List UInt8 := chars.flatMap String.utf8EncodeChar

def isTail (byte : UInt8) : Bool := 0x80 ≤ byte && byte ≤ 0xBF

/-- The first two bytes of a character of three or four. -/
def beginsLong (lead second : UInt8) : Bool :=
  (lead == 0xE0 && 0xA0 ≤ second && second ≤ 0xBF) ||
  (0xE1 ≤ lead && lead ≤ 0xEC && isTail second) ||
  (lead == 0xED && 0x80 ≤ second && second ≤ 0x9F) ||
  (0xEE ≤ lead && lead ≤ 0xEF && isTail second) ||
  (lead == 0xF0 && 0x90 ≤ second && second ≤ 0xBF) ||
  (0xF1 ≤ lead && lead ≤ 0xF3 && isTail second) ||
  (lead == 0xF4 && 0x80 ≤ second && second ≤ 0x8F)

/-- The bytes one U+FFFD stands for: the longest beginning of a character, or
a single byte. -/
def malformedSize : List UInt8 → Nat
  | lead :: second :: third :: _ =>
      if !beginsLong lead second then 1
      else if 0xF0 ≤ lead && isTail third then 3
      else 2
  | [lead, second] => if beginsLong lead second then 2 else 1
  | _ => 1

theorem malformedSize_pos (bytes : List UInt8) : 0 < malformedSize bytes := by
  unfold malformedSize
  split
  · split_ifs <;> decide
  · split_ifs <;> decide
  · decide

/-- Reading bytes as UTF-8. -/
def decode : List UInt8 → List Char
  | [] => []
  | lead :: rest =>
      match (lead :: rest).toByteArray.utf8DecodeChar? 0 with
      | some char => char :: decode ((lead :: rest).drop char.utf8Size)
      | none => replacement :: decode ((lead :: rest).drop (malformedSize (lead :: rest)))
  termination_by bytes => bytes.length
  decreasing_by
    · have := char.utf8Size_pos
      simp only [List.length_drop, List.length_cons]
      omega
    · have := malformedSize_pos (lead :: rest)
      simp only [List.length_drop, List.length_cons]
      omega

theorem utf8_append (left right : List Char) : utf8 (left ++ right) = utf8 left ++ utf8 right :=
  List.flatMap_append

theorem decode_utf8EncodeChar_append (char : Char) (rest : List UInt8) :
    decode (String.utf8EncodeChar char ++ rest) = char :: decode rest := by
  have hdecode : (String.utf8EncodeChar char ++ rest).toByteArray.utf8DecodeChar? 0 =
      some char := by
    rw [List.toByteArray_append]
    exact ByteArray.utf8DecodeChar?_utf8EncodeChar_append
  have hdrop : (String.utf8EncodeChar char ++ rest).drop char.utf8Size = rest :=
    List.drop_left' (String.length_utf8EncodeChar char)
  cases hbytes : String.utf8EncodeChar char ++ rest with
  | nil => exact absurd (List.append_eq_nil_iff.mp hbytes).1 String.utf8EncodeChar_ne_nil
  | cons lead tail =>
      rw [hbytes] at hdecode hdrop
      rw [decode, hdecode]
      simp only [hdrop]

/-- What was encoded is read back, whatever follows. -/
theorem decode_utf8_append (chars : List Char) (rest : List UInt8) :
    decode (utf8 chars ++ rest) = chars ++ decode rest := by
  induction chars with
  | nil => rfl
  | cons char chars ih =>
      rw [utf8, List.flatMap_cons, List.append_assoc, decode_utf8EncodeChar_append, ← utf8, ih]
      rfl

theorem decode_utf8 (chars : List Char) : decode (utf8 chars) = chars := by
  have happend := decode_utf8_append chars []
  rw [List.append_nil, decode, List.append_nil] at happend
  exact happend

/-! ## ASCII -/

theorem ne_of_high {byte : UInt8} (hascii : byte.toNat < 0x80) {value : Nat}
    (hlow : 0x80 ≤ value) (hhigh : value < 0x100) : byte ≠ UInt8.ofNat value := by
  intro heq
  rw [heq, UInt8.toNat_ofNat_of_lt' hhigh] at hascii
  omega

/-- An ASCII byte in the encoding of a character is that character. -/
theorem mem_utf8EncodeChar {byte : UInt8} (hascii : byte.toNat < 0x80) (char : Char) :
    byte ∈ String.utf8EncodeChar char ↔ char.toNat = byte.toNat := by
  have hval : char.val.toNat = char.toNat := rfl
  simp only [String.utf8EncodeChar, hval]
  by_cases hone : char.toNat ≤ 0x7F
  · have hsize : char.toNat < 2 ^ 8 := by omega
    rw [if_pos hone, List.mem_singleton, ← UInt8.toNat_inj, UInt8.toNat_ofNat_of_lt' hsize]
    exact eq_comm
  · have hne : char.toNat ≠ byte.toNat := by omega
    have htail : ∀ part : Nat, byte ≠ UInt8.ofNat (part % 0x40 + 0x80) := fun part =>
      ne_of_high hascii (by omega) (by omega)
    rw [if_neg hone, iff_false_right hne]
    split_ifs
    · simp only [List.mem_cons, List.not_mem_nil, or_false, not_or]
      exact ⟨ne_of_high hascii (by omega) (by omega), htail _⟩
    · simp only [List.mem_cons, List.not_mem_nil, or_false, not_or]
      exact ⟨ne_of_high hascii (by omega) (by omega), htail _, htail _⟩
    · simp only [List.mem_cons, List.not_mem_nil, or_false, not_or]
      exact ⟨ne_of_high hascii (by omega) (by omega), htail _, htail _, htail _⟩

theorem unitChar_toNat_eq_iff {codeUnit ascii : UInt16} (hascii : ascii.toNat < 0x80) :
    (unitChar codeUnit).toNat = ascii.toNat ↔ codeUnit = ascii := by
  cases hsurrogate : isHighSurrogate codeUnit || isLowSurrogate codeUnit with
  | true =>
      have hne : codeUnit ≠ ascii := by
        rintro rfl
        simp only [isHighSurrogate, isLowSurrogate, Bool.or_eq_true, Bool.and_eq_true,
          decide_eq_true_eq, UInt16.le_iff_toNat_le, UInt16.reduceToNat] at hsurrogate
        omega
      rw [unitChar, if_pos hsurrogate, iff_false_right hne]
      intro heq
      rw [← heq] at hascii
      revert hascii
      decide
  | false =>
      obtain ⟨hhigh, hlow⟩ := Bool.or_eq_false_iff.mp hsurrogate
      rw [unitChar_toNat hhigh hlow, UInt16.toNat_inj]

/-- The ASCII characters of a string are its ASCII code units. -/
theorem exists_mem_scalars {ascii : UInt16} (hascii : ascii.toNat < 0x80) (units : CodeUnits) :
    (∃ char ∈ scalars units, char.toNat = ascii.toNat) ↔ ascii ∈ units := by
  induction units using scalars.induct with
  | case1 => simp [scalars]
  | case2 codeUnit =>
      simp only [scalars, List.mem_singleton, exists_eq_left, unitChar_toNat_eq_iff hascii]
      exact eq_comm
  | case3 first second rest hpair ih =>
      obtain ⟨hhigh, hlow⟩ := Bool.and_eq_true_iff.mp hpair
      have hpairChar := pairChar_toNat_le hhigh hlow
      have hne : (pairChar first second).toNat ≠ ascii.toNat := by omega
      simp only [isHighSurrogate, isLowSurrogate, Bool.and_eq_true, decide_eq_true_eq,
        UInt16.le_iff_toNat_le, UInt16.reduceToNat] at hhigh hlow
      have hfirst : ascii ≠ first := by
        rintro rfl
        omega
      have hsecond : ascii ≠ second := by
        rintro rfl
        omega
      simp only [scalars, if_pos hpair, List.mem_cons, exists_eq_or_imp, ih, hne, hfirst, hsecond,
        false_or]
  | case4 first second rest hpair ih =>
      rw [scalars, if_neg hpair]
      simp only [List.mem_cons (b := unitChar first), exists_eq_or_imp, ih,
        unitChar_toNat_eq_iff hascii]
      rw [@eq_comm _ first, ← List.mem_cons]

/-- The bytes a string is written as. -/
def encode (units : CodeUnits) : List UInt8 := utf8 (scalars units)

theorem encode_cons {codeUnit : UInt16} (hhigh : isHighSurrogate codeUnit = false)
    (rest : CodeUnits) :
    encode (codeUnit :: rest) = String.utf8EncodeChar (unitChar codeUnit) ++ encode rest := by
  rw [encode, scalars_cons hhigh, utf8, List.flatMap_cons]
  rfl

theorem encode_append_cons {sep : UInt16} (hhigh : isHighSurrogate sep = false)
    (hlow : isLowSurrogate sep = false) (left right : CodeUnits) :
    encode (left ++ sep :: right) =
      encode left ++ (String.utf8EncodeChar (unitChar sep) ++ encode right) := by
  rw [encode, scalars_append_cons hhigh hlow, utf8_append, utf8, utf8, List.flatMap_cons]
  rfl

/-- An ASCII byte is written exactly for its code unit. -/
theorem mem_encode {byte : UInt8} (hascii : byte.toNat < 0x80) (units : CodeUnits) :
    byte ∈ encode units ↔ UInt16.ofNat byte.toNat ∈ units := by
  have hunit : (UInt16.ofNat byte.toNat).toNat = byte.toNat :=
    UInt16.toNat_ofNat_of_lt (by simp only [UInt16.size]; omega)
  rw [← exists_mem_scalars (hunit.symm ▸ hascii), hunit, encode, utf8, List.mem_flatMap]
  simp only [mem_utf8EncodeChar hascii]

theorem encode_codeUnits (chars : List Char) : encode (codeUnits chars) = utf8 chars := by
  rw [encode, scalars_codeUnits]

theorem scalars_ne_nil {units : CodeUnits} (hne : units ≠ []) : scalars units ≠ [] := by
  induction units using scalars.induct with
  | case1 => contradiction
  | case2 codeUnit => exact List.cons_ne_nil _ _
  | case3 first second rest hpair ih =>
      rw [scalars, if_pos hpair]
      exact List.cons_ne_nil _ _
  | case4 first second rest hpair ih =>
      rw [scalars, if_neg hpair]
      exact List.cons_ne_nil _ _

/-- Nothing but the empty string is written as no bytes. -/
theorem encode_ne_nil {units : CodeUnits} (hne : units ≠ []) : encode units ≠ [] := by
  obtain ⟨char, chars, hscalars⟩ := List.exists_cons_of_ne_nil (scalars_ne_nil hne)
  rw [encode, hscalars, utf8, List.flatMap_cons]
  exact List.append_ne_nil_of_left_ne_nil String.utf8EncodeChar_ne_nil _

end CcCvStore.Unicode
