import CcCvStore.Core.Effect
import CcCvStore.Core.Stdio
import CcCvStore.Core.WriteHistory

/-!
# Record files

The files of `disc_index.c` and `disc_data.c`.  Both modules hold the same code
over records of a different layout; the code is written once over a record
format, and each function of the two is that code at its own format.  The hash
table is the list of the calls of `ht_set`, the newest first.
-/

namespace CcCvStore.RecordFile

open CcCvStore.CInteger
open CcCvStore.CString
open CcCvStore.Effect
open CcCvStore.Stdio
open CcCvStore.WriteHistory

def maxKeySize : Nat := 128
def maxValueSize : Nat := 2048

/-- The string in the `key` of an `st_fnc_arg`. -/
structure Key extends Str where
  length_lt : bytes.length < maxKeySize

abbrev Map (Value : Type) := List (Write (List Byte) Value)

variable {Value : Type}

def htSet (map : Map Value) (key : List Byte) (value : Value) : Map Value :=
  .put key value :: map

def htGet (map : Map Value) (key : List Byte) : Option Value := current map key

/-- The layout of a record. -/
structure Format (Value : Type) where
  size : Nat
  /-- The member `key`. -/
  keyField : List Byte → List Byte
  /-- The value the loader copies out of a record. -/
  loadValue : List Byte → Except Fault Value
  /-- Key and value copied into a local record that holds what the stack held. -/
  fill : List Byte → Key → Value → Except Fault (List Byte)

/-- The stream and the hash table a file is used through. -/
structure Disc (Value : Type) where
  fp : Stream
  map : Map Value
  deriving DecidableEq

/-- The types of `*_get_index_key`, `*_add_key_position` and `*_init`. -/
abbrev GetIndexKey := Key → Stream → Except Fault (Int × Stream)
abbrev AddKeyPosition (Value : Type) :=
  (Nat → Byte) → Key → Value → Disc Value → Except Fault (Disc Value)
abbrev Init (Value : Type) :=
  Nat → List Byte → Stream → Map Value → Option (Except Fault (Disc Value))

/-! ## The code over a format -/

section Code

variable (format : Format Value)

/-- The loop of `*_get_index_key`.  Every round but the last reads a record, so
a bound on their number is rounds enough. -/
def getIndexKeyLoop (key : Key) : Nat → Int → Stream → Except Fault (Int × Stream)
  | 0, _, fp => .ok (-1, fp)
  | rounds + 1, n, fp =>
      if fp.eof then .ok (-1, fp)
      else match fp.fread format.size with
        | (none, fp) => .ok (-1, fp)
        | (some record, fp) =>
            -- `strcmp`: the key is shorter than the array, which need hold no NUL
            if text (format.keyField record) = key.bytes then .ok (n, fp)
            else do
              let n ← intResult (n + 1)
              getIndexKeyLoop key rounds n fp

def getIndexKey : GetIndexKey := fun key fp =>
  getIndexKeyLoop format key (fp.content.length + 1) 0 (fp.fseekSet 0)

/-- With the `*_get_index_key` of the same file. -/
def addKeyPosition (getIndexKey : GetIndexKey) : AddKeyPosition Value :=
  fun stack key value disc => do
    let addData ← format.fill ((List.range format.size).map stack) key value
    match htGet disc.map key.bytes with
    | none =>
        return { fp := disc.fp.fseekEnd.fwrite addData, map := htSet disc.map key.bytes value }
    | some _ => do
        let (index, fp) ← getIndexKey key disc.fp
        return { disc with fp := (fp.fseekSet (format.size * index)).fwrite addData }

/-- The body of the loop of `*_init`. -/
def loadItem (item : List Byte) (map : Map Value) : Except Fault (Map Value) := do
  let key ← arrayStr (format.keyField item)
  let value ← format.loadValue item
  return htSet map key.bytes value

/-- The loop of `*_init`; `none` when it has not returned within the rounds. -/
def init : Init Value
  | 0, _, _, _ => none
  | rounds + 1, item, fp, map =>
      -- `feof(fp) || fread(&item, .., fp) == 1`: at end of file `item` is left as it is
      match if fp.eof then (some item, fp) else fp.fread format.size with
      | (none, fp) => some (.ok ⟨fp, map⟩)
      | (some item, fp) =>
          match loadItem format item map with
          | .ok map => init rounds item fp map
          | .error fault => some (.error fault)

end Code

/-! ## The two files -/

/-- `st_idx_data`: an `int position` and the key. -/
def idxFormat : Format Int32 where
  size := 4 + maxKeySize
  keyField record := record.drop 4
  loadValue record := .ok (intOfBytes (record.take 4))
  fill record key position := do
    let keyField ← strcpyArray (record.drop 4) key.bytes
    return intBytes position ++ keyField

/-- `st_dt`: the key and a `char value[MAX_VALUE_SIZE]`. -/
def dtFormat : Format Str where
  size := maxKeySize + maxValueSize
  keyField record := record.take maxKeySize
  loadValue record := arrayStr (record.drop maxKeySize)
  fill record key value := do
    let keyField ← strcpyArray (record.take maxKeySize) key.bytes
    let valueField ← strcpyArray (record.drop maxKeySize) value.bytes
    return keyField ++ valueField

def idxGetIndexKey := getIndexKey idxFormat
def idxAddKeyPosition := addKeyPosition idxFormat idxGetIndexKey
def idxInit := init idxFormat

def idxGetKeyPos (key : Key) (map : Map Int32) : Int32 :=
  match htGet map key.bytes with
  | none => -1
  | some position => position

def dtGetIndexKey := getIndexKey dtFormat
def dtAddKeyPosition := addKeyPosition dtFormat dtGetIndexKey
def dtInit := init dtFormat

/-- The same for any format. -/
abbrev Format.addKeyPosition (format : Format Value) : AddKeyPosition Value :=
  RecordFile.addKeyPosition format (getIndexKey format)

/-! ## What a format promises -/

/-- A filled record is loaded as what it was filled with, and the values that
can be filled in are those that fit. -/
structure Lawful (format : Format Value) (Fits : Value → Prop) : Prop where
  size_pos : 0 < format.size
  fill : ∀ stack key value, stack.length = format.size → Fits value →
    ∃ record, format.fill stack key value = .ok record ∧ record.length = format.size ∧
      arrayStr (format.keyField record) = .ok key.toStr ∧ format.loadValue record = .ok value
  fits : ∀ stack key value record, stack.length = format.size →
    format.fill stack key value = .ok record → Fits value

theorem idxFormat_lawful : Lawful idxFormat fun _ => True where
  size_pos := by decide
  fill stack key position hstack _ := by
    have hlength : (stack.drop 4).length = maxKeySize := by
      rw [List.length_drop, hstack]
      rfl
    obtain ⟨keyField, hcopy, hcopied, hkey⟩ :=
      strcpyArray_of_lt (hlength.symm ▸ key.length_lt)
    refine ⟨intBytes position ++ keyField, ?_, ?_, hkey, ?_⟩
    · simp only [idxFormat, hcopy, ok_bind]
      rfl
    · rw [List.length_append, hcopied, hlength]
      rfl
    · simp only [idxFormat, List.take_left' (length_intBytes position), intOfBytes_intBytes]
  fits _ _ _ _ _ _ := trivial

theorem length_dtFields {stack : List Byte} (hstack : stack.length = dtFormat.size) :
    (stack.take maxKeySize).length = maxKeySize ∧
      (stack.drop maxKeySize).length = maxValueSize := by
  rw [List.length_take, List.length_drop, hstack]
  exact ⟨rfl, rfl⟩

theorem dtFormat_lawful : Lawful dtFormat fun value => value.bytes.length < maxValueSize where
  size_pos := by decide
  fill stack key value hstack hfits := by
    obtain ⟨hkeyLength, hvalueLength⟩ := length_dtFields hstack
    obtain ⟨keyField, hkeyCopy, hkeyCopied, hkey⟩ :=
      strcpyArray_of_lt (hkeyLength.symm ▸ key.length_lt)
    obtain ⟨valueField, hvalueCopy, hvalueCopied, hvalue⟩ :=
      strcpyArray_of_lt (hvalueLength.symm ▸ hfits)
    have hsplit : keyField.length = maxKeySize := hkeyCopied.trans hkeyLength
    refine ⟨keyField ++ valueField, ?_, ?_, ?_, ?_⟩
    · simp only [dtFormat, hkeyCopy, hvalueCopy, ok_bind]
      rfl
    · rw [List.length_append, hsplit, hvalueCopied, hvalueLength]
      rfl
    · simp only [dtFormat, List.take_left' hsplit]
      exact hkey
    · simp only [dtFormat, List.drop_left' hsplit]
      exact hvalue
  fits stack key value record hstack hfill := by
    obtain ⟨hkeyLength, hvalueLength⟩ := length_dtFields hstack
    obtain ⟨keyField, hkeyCopy, -⟩ := strcpyArray_of_lt (hkeyLength.symm ▸ key.length_lt)
    by_contra hlong
    have hfault := strcpyArray_of_le (hvalueLength.trans_le (Nat.le_of_not_lt hlong))
    simp only [dtFormat, hkeyCopy, hfault, ok_bind, error_bind] at hfill
    contradiction

end CcCvStore.RecordFile
