import CcCvStore.Core.CString
import Mathlib.Data.List.Range

/-!
# Record streams of the C library

A stream open for reading and writing: the bytes of its file, the position and
the end-of-file indicator.  Reads and writes transfer one record of a given
size, as `fread` and `fwrite` do when one item is asked for.
-/

namespace CcCvStore.Stdio

open CcCvStore.CString

structure Stream where
  content : List Byte
  position : Nat
  eof : Bool
  deriving DecidableEq, Repr

/-- `fopen` with mode `"r+b"`. -/
def fopen (content : List Byte) : Stream := ⟨content, 0, false⟩

namespace Stream

/-- `fread(.., size, 1, stream)`: the record, where there is a complete one.
A short read leaves the position at the end of the file and the indicator set,
and while the indicator is set nothing is read. -/
def fread (stream : Stream) (size : Nat) : Option (List Byte) × Stream :=
  if stream.eof then (none, stream)
  else if stream.position + size ≤ stream.content.length then
    (some ((stream.content.drop stream.position).take size),
      { stream with position := stream.position + size })
  else
    (none, { stream with
      position := max stream.position stream.content.length, eof := true })

/-- `fseek(stream, offset, SEEK_SET)`, which fails on a negative offset. -/
def fseekSet (stream : Stream) (offset : Int) : Stream :=
  if offset < 0 then stream else { stream with position := offset.toNat, eof := false }

/-- `fseek(stream, 0, SEEK_END)`. -/
def fseekEnd (stream : Stream) : Stream :=
  { stream with position := stream.content.length, eof := false }

/-- `bytes` written over `content` from `position` on. -/
def overwrite (content : List Byte) (position : Nat) (bytes : List Byte) : List Byte :=
  content.take position ++ List.replicate (position - content.length) 0 ++ bytes ++
    content.drop (position + bytes.length)

/-- `fwrite(.., bytes.length, 1, stream)` followed by `fflush(stream)`. -/
def fwrite (stream : Stream) (bytes : List Byte) : Stream :=
  { stream with
    content := overwrite stream.content stream.position bytes
    position := stream.position + bytes.length }

theorem fread_of_le {stream : Stream} {size : Nat} (heof : stream.eof = false)
    (hle : stream.position + size ≤ stream.content.length) :
    stream.fread size = (some ((stream.content.drop stream.position).take size),
      { stream with position := stream.position + size }) := by
  rw [fread, heof, if_neg Bool.false_ne_true, if_pos hle]

theorem fread_of_lt {stream : Stream} {size : Nat} (heof : stream.eof = false)
    (hlt : stream.content.length < stream.position + size) :
    stream.fread size = (none, { stream with
      position := max stream.position stream.content.length, eof := true }) := by
  rw [fread, heof, if_neg Bool.false_ne_true, if_neg (Nat.not_le_of_lt hlt)]

theorem fseekSet_natCast (stream : Stream) (offset : Nat) :
    stream.fseekSet offset = { stream with position := offset, eof := false } := by
  rw [fseekSet, if_neg (Int.not_lt.mpr (Int.natCast_nonneg offset)), Int.toNat_natCast]

end Stream

/-! ## Complete records -/

/-- The complete records of a file, in order. -/
def records (size : Nat) (content : List Byte) : List (List Byte) :=
  (List.range (content.length / size)).map fun index =>
    (content.drop (index * size)).take size

theorem records_of_lt {size : Nat} {content : List Byte} (hlt : content.length < size) :
    records size content = [] := by
  rw [records, Nat.div_eq_of_lt hlt]
  rfl

/-- The first record, and those after it. -/
theorem records_of_le {size : Nat} (hsize : 0 < size) {content : List Byte}
    (hle : size ≤ content.length) :
    records size content = content.take size :: records size (content.drop size) := by
  have hcount : content.length / size = (content.drop size).length / size + 1 := by
    rw [List.length_drop, Nat.div_eq_sub_div hsize hle]
  rw [records, hcount, List.range_succ_eq_map, List.map_cons, List.map_map]
  rw [Nat.zero_mul, List.drop_zero, records]
  congr 1
  apply List.map_congr_left
  intro index _
  rw [Function.comp_apply, List.drop_drop, Nat.succ_mul, Nat.add_comm]

theorem records_append {size : Nat} (hsize : 0 < size) {record : List Byte}
    (hrecord : record.length = size) (rest : List Byte) :
    records size (record ++ rest) = record :: records size rest := by
  have hle : size ≤ (record ++ rest).length := by
    rw [List.length_append]
    omega
  rw [records_of_le hsize hle, List.take_left' hrecord, List.drop_left' hrecord]

/-- What follows the last complete record does not count. -/
theorem records_flatten {size : Nat} (hsize : 0 < size) {items : List (List Byte)}
    (hitems : ∀ item ∈ items, item.length = size) {torn : List Byte}
    (htorn : torn.length < size) : records size (items.flatten ++ torn) = items := by
  induction items with
  | nil => exact records_of_lt htorn
  | cons item items ih =>
      rw [List.forall_mem_cons] at hitems
      rw [List.flatten_cons, List.append_assoc, records_append hsize hitems.1, ih hitems.2]

theorem length_flatten {size : Nat} {items : List (List Byte)}
    (hitems : ∀ item ∈ items, item.length = size) :
    items.flatten.length = items.length * size := by
  rw [List.length_flatten, List.map_congr_left hitems, List.map_const', List.sum_replicate_nat]

/-- Reading where records are left. -/
theorem Stream.fread_of_cons {size : Nat} (hsize : 0 < size) {stream : Stream}
    (heof : stream.eof = false) {item : List Byte} {rest : List (List Byte)}
    (hrecords : records size (stream.content.drop stream.position) = item :: rest) :
    stream.fread size = (some item, { stream with position := stream.position + size }) ∧
      stream.position + size ≤ stream.content.length ∧
      records size (stream.content.drop (stream.position + size)) = rest := by
  rcases Nat.lt_or_ge (stream.content.drop stream.position).length size with hlt | hge
  · rw [records_of_lt hlt] at hrecords
    contradiction
  · rw [records_of_le hsize hge, List.drop_drop, List.cons_eq_cons] at hrecords
    rw [List.length_drop] at hge
    have hle : stream.position + size ≤ stream.content.length := by omega
    rw [fread_of_le heof hle, hrecords.1]
    exact ⟨rfl, hle, hrecords.2⟩

/-- Reading where no record is left. -/
theorem Stream.fread_of_nil {size : Nat} (hsize : 0 < size) {stream : Stream}
    (heof : stream.eof = false)
    (hrecords : records size (stream.content.drop stream.position) = []) :
    stream.fread size = (none, { stream with
      position := max stream.position stream.content.length, eof := true }) := by
  rcases Nat.lt_or_ge (stream.content.drop stream.position).length size with hlt | hge
  · rw [List.length_drop] at hlt
    exact fread_of_lt heof (by omega)
  · rw [records_of_le hsize hge] at hrecords
    contradiction

/-! ## Writes of a record -/

theorem overwrite_end (content bytes : List Byte) :
    Stream.overwrite content content.length bytes = content ++ bytes := by
  rw [Stream.overwrite, List.take_length, Nat.sub_self, List.drop_eq_nil_of_le (by omega)]
  simp

/-- A write over a record replaces that record. -/
theorem overwrite_record {size : Nat} {items : List (List Byte)}
    (hitems : ∀ item ∈ items, item.length = size) {index : Nat} (hindex : index < items.length)
    {bytes : List Byte} (hbytes : bytes.length = size) (torn : List Byte) :
    Stream.overwrite (items.flatten ++ torn) (index * size) bytes =
      (items.set index bytes).flatten ++ torn := by
  have hsplit : items = items.take index ++ items[index] :: items.drop (index + 1) := by
    rw [List.getElem_cons_drop, List.take_append_drop]
  have hbefore : ((items.take index).flatten).length = index * size := by
    rw [length_flatten fun item hmem => hitems item (List.mem_of_mem_take hmem),
      List.length_take_of_le hindex.le]
  have hself : (items[index]).length = size := hitems _ (List.getElem_mem hindex)
  have hcontent : items.flatten ++ torn = (items.take index).flatten ++
      (items[index] ++ ((items.drop (index + 1)).flatten ++ torn)) := by
    conv_lhs => rw [hsplit]
    simp only [List.flatten_append, List.flatten_cons, List.append_assoc]
  have hgap : index * size - (items.flatten ++ torn).length = 0 := by
    rw [hcontent, List.length_append, hbefore]
    omega
  rw [Stream.overwrite, hgap, hcontent, List.take_left' hbefore, hbytes, ← List.drop_drop,
    List.drop_left' hbefore, List.drop_left' hself, List.set_eq_take_append_cons_drop,
    if_pos hindex]
  simp only [List.flatten_append, List.flatten_cons, List.append_assoc, List.replicate_zero,
    List.nil_append]

end CcCvStore.Stdio
