import CcCvStore.Core.CString

/-!
# `str_slice`

`add_lib.c` cuts a substring out of a C string.  The copy goes to a block of
exactly as many bytes as were asked for, so it holds a NUL only where the
string ended first.
-/

namespace CcCvStore.StrSlice

open CcCvStore.Effect
open CcCvStore.CInteger
open CcCvStore.CString

/-- `calloc` of `bufferLen` bytes and `strncpy` of the string at `source`. -/
def copySlice (source : List Byte) (bufferLen : Nat) (beyond : List Byte) :
    Except Fault Ptr :=
  strncpy (calloc bufferLen beyond) source bufferLen

/-- `str_slice(str, slice_from, slice_to)`.  The result is followed in memory
by `beyond`. -/
def strSlice (str : Buf) (sliceFrom sliceTo : Int) (beyond : List Byte) :
    Except Fault Ptr := do
  if (← str.read 0) = 0 then
    return none
  if sliceTo < 0 ∧ sliceFrom < sliceTo then
    let strLen ← strlen (some str)
    if toSize (← cAbs sliceTo) > sizeSub strLen 1 then
      return none
    -- `(-1) * str_len` is a `size_t` that wraps; stored in an `int` it is `-str_len`
    let sliceFrom :=
      if toSize (← cAbs sliceFrom) > strLen then toInt (-(strLen : Int)) else sliceFrom
    let bufferLen ← intResult (sliceTo - sliceFrom)
    copySlice (str.memory.drop (toSize (strLen + sliceFrom))) (toSize bufferLen) beyond
  else if 0 ≤ sliceFrom ∧ sliceFrom < sliceTo then
    let strLen ← strlen (some str)
    if toSize sliceFrom > sizeSub strLen 1 then
      return none
    let bufferLen ← intResult (sliceTo - sliceFrom)
    copySlice (str.memory.drop (toSize sliceFrom)) (toSize bufferLen) beyond
  else
    return none

/-- The index arithmetic of `str_slice`: the offset and the number of bytes it
computes for a string of some length, unless it returns `NULL`. -/
def cut (strLen : Nat) (sliceFrom sliceTo : Int) : Except Fault (Option (Nat × Nat)) := do
  if sliceTo < 0 ∧ sliceFrom < sliceTo then
    if toSize (← cAbs sliceTo) > sizeSub strLen 1 then
      return none
    let sliceFrom :=
      if toSize (← cAbs sliceFrom) > strLen then toInt (-(strLen : Int)) else sliceFrom
    let bufferLen ← intResult (sliceTo - sliceFrom)
    return some (toSize (strLen + sliceFrom), toSize bufferLen)
  else if 0 ≤ sliceFrom ∧ sliceFrom < sliceTo then
    if toSize sliceFrom > sizeSub strLen 1 then
      return none
    let bufferLen ← intResult (sliceTo - sliceFrom)
    return some (toSize sliceFrom, toSize bufferLen)
  else
    return none

def copyCut (str : Buf) (beyond : List Byte) : Option (Nat × Nat) → Except Fault Ptr
  | none => return none
  | some (offset, bufferLen) => copySlice (str.memory.drop offset) bufferLen beyond

/-- The pointer to a slice with the given content in a block of `size` bytes;
an empty slice is `NULL`. -/
def sliced (content : List Byte) (size : Nat) (beyond : List Byte) : Ptr :=
  if content = [] then none else some ⟨padded content size, beyond⟩

theorem copySlice_eq {source : List Byte} (hnul : 0 ∈ source) {size : Nat}
    (hsize : size ≤ ptrdiffMax) (beyond : List Byte) :
    copySlice source size beyond =
      .ok (some ⟨padded ((text source).take size) size, beyond⟩) := by
  have hlength : (padded ((text source).take size) size).length = size :=
    length_padded (List.length_take_le _ _)
  have hfits : (padded ((text source).take size) size).length ≤
      (⟨List.replicate size 0, beyond⟩ : Buf).block.length := by
    rw [hlength, List.length_replicate]
  rw [copySlice, strncpy, calloc, if_pos hsize, if_pos (.inr hnul), text_take,
    store_of_le hfits, overlay, List.drop_of_length_le, List.append_nil]
  rw [hlength, List.length_replicate]

@[simp]
theorem sliced_nil (size : Nat) (beyond : List Byte) : sliced [] size beyond = none :=
  if_pos rfl

theorem sliced_of_ne {content : List Byte} (hne : content ≠ []) (size : Nat)
    (beyond : List Byte) :
    sliced content size beyond = some ⟨padded content size, beyond⟩ := if_neg hne

theorem read_zero {str : Buf} {first : Byte} {rest : List Byte}
    (hmemory : str.memory = first :: rest) : str.read 0 = .ok first := by
  simp [Buf.read, hmemory]

theorem strlen_eq {str : Buf} (hnul : 0 ∈ str.memory) :
    strlen (some str) = .ok (text str.memory).length := by
  simp [strlen, str_of_mem hnul, bind, Except.bind, pure, Except.pure]

/-- Indexes in the wrong order give nothing, without a look at the string. -/
theorem strSlice_none (str : Buf) (hne : str.memory ≠ []) (sliceFrom : Nat) {sliceTo : Int}
    (horder : sliceTo ≤ sliceFrom) (beyond : List Byte) :
    strSlice str sliceFrom sliceTo beyond = .ok none := by
  obtain ⟨first, rest, hmemory⟩ := List.exists_cons_of_ne_nil hne
  have hnegative : ¬(sliceTo < 0 ∧ (sliceFrom : Int) < sliceTo) := by omega
  have hforward : ¬(0 ≤ (sliceFrom : Int) ∧ (sliceFrom : Int) < sliceTo) := by omega
  simp only [strSlice, read_zero hmemory, ok_bind, if_neg hnegative, if_neg hforward]
  split <;> rfl

/-- Without a NUL the length of the string is not found. -/
theorem strSlice_overrun (str : Buf) (hne : str.memory ≠ []) (hnul : 0 ∉ str.memory)
    (sliceFrom : Nat) {sliceTo : Int} (horder : (sliceFrom : Int) < sliceTo)
    (beyond : List Byte) : strSlice str sliceFrom sliceTo beyond = .error .overrun := by
  obtain ⟨first, rest, hmemory⟩ := List.exists_cons_of_ne_nil hne
  have hfirst : ¬first = 0 := by
    rintro rfl
    exact hnul (by rw [hmemory]; exact List.mem_cons_self)
  have hnegative : ¬(sliceTo < 0 ∧ (sliceFrom : Int) < sliceTo) := by omega
  have hforward : 0 ≤ (sliceFrom : Int) ∧ (sliceFrom : Int) < sliceTo := by omega
  have hstr : Ptr.str (some str) = .error .overrun := if_neg hnul
  simp only [strSlice, read_zero hmemory, ok_bind, if_neg hfirst, if_neg hnegative,
    if_pos hforward, strlen, hstr]
  rfl

/-! ## The arithmetic and the copy -/

theorem strSlice_of_text_nil {str : Buf} (hnul : 0 ∈ str.memory) (htext : text str.memory = [])
    (sliceFrom sliceTo : Int) (beyond : List Byte) :
    strSlice str sliceFrom sliceTo beyond = .ok none := by
  obtain ⟨first, rest, hmemory⟩ := List.exists_cons_of_ne_nil (List.ne_nil_of_mem hnul)
  have hfirst : first = 0 := by rwa [hmemory, text_eq_nil_iff] at htext
  rw [strSlice, read_zero hmemory, ok_bind, if_pos hfirst]
  rfl

/-- The empty string aside, `str_slice` copies what the arithmetic cuts. -/
theorem strSlice_eq_cut {str : Buf} (hnul : 0 ∈ str.memory) (hne : text str.memory ≠ [])
    (sliceFrom sliceTo : Int) (beyond : List Byte) :
    strSlice str sliceFrom sliceTo beyond =
      cut (text str.memory).length sliceFrom sliceTo >>= copyCut str beyond := by
  obtain ⟨first, rest, hmemory⟩ := List.exists_cons_of_ne_nil (List.ne_nil_of_mem hnul)
  have hfirst : ¬first = 0 := by
    rwa [hmemory, ne_eq, text_eq_nil_iff] at hne
  simp only [strSlice, cut, read_zero hmemory, ok_bind, if_neg hfirst, strlen_eq hnul]
  split
  · cases cAbs sliceTo with
    | error fault => rfl
    | ok stop =>
        rw [ok_bind, ok_bind]
        split
        · rfl
        · rw [bind_assoc]
          congr 1
          funext start
          rw [bind_assoc]
          rfl
  · split
    · split
      · rfl
      · rw [bind_assoc]
        rfl
    · rfl

/-- What is cut at a position in the string is copied with NULs behind it. -/
theorem copyCut_some {str : Buf} (hnul : 0 ∈ str.memory) {offset bufferLen : Nat}
    (hoffset : offset ≤ (text str.memory).length) (hlength : bufferLen ≤ ptrdiffMax)
    (beyond : List Byte) :
    copyCut str beyond (some (offset, bufferLen)) =
      .ok (some ⟨padded (((text str.memory).drop offset).take bufferLen) bufferLen, beyond⟩) := by
  rw [copyCut, copySlice_eq (zero_mem_drop hnul hoffset) hlength, text_drop hoffset]

section Cut

variable {strLen : Nat} {sliceFrom sliceTo : Int}

theorem cut_of_le (hle : sliceTo ≤ sliceFrom) :
    cut strLen sliceFrom sliceTo = .ok none := by
  have hnegative : ¬(sliceTo < 0 ∧ sliceFrom < sliceTo) := by omega
  have hforward : ¬(0 ≤ sliceFrom ∧ sliceFrom < sliceTo) := by omega
  rw [cut, if_neg hnegative, if_neg hforward]
  rfl

theorem cut_of_nonneg (hpos : 0 < strLen) (horder : sliceFrom < sliceTo) (hfrom : 0 ≤ sliceFrom)
    (hto : sliceTo ≤ intMax) :
    cut strLen sliceFrom sliceTo =
      .ok (if strLen ≤ sliceFrom.toNat then none
        else some (sliceFrom.toNat, (sliceTo - sliceFrom).toNat)) := by
  have hnegative : ¬(sliceTo < 0 ∧ sliceFrom < sliceTo) := by omega
  have hlength : intResult (sliceTo - sliceFrom) = .ok (sliceTo - sliceFrom) :=
    intResult_of_range (by simp only [intMin]; omega) (by omega)
  rw [cut, if_neg hnegative, if_pos ⟨hfrom, horder⟩, toSize_of_nonneg hfrom (by omega),
    sizeSub_of_le hpos, hlength, ok_bind, toSize_of_nonneg (by omega) (by omega)]
  by_cases hbeyond : strLen ≤ sliceFrom.toNat
  · rw [if_pos (by omega), if_pos hbeyond]
    rfl
  · rw [if_neg (by omega), if_neg hbeyond]
    rfl

end Cut

/-- With both indexes counted from the start, `str_slice` is the half-open
slice of the string, `NULL` exactly when that is empty. -/
theorem strSlice_eq (str : Buf) (hnul : 0 ∈ str.memory) (sliceFrom : Nat) (sliceTo : Int)
    (hto : sliceTo ≤ intMax) (beyond : List Byte) :
    strSlice str sliceFrom sliceTo beyond =
      .ok (sliced
        (((text str.memory).drop sliceFrom).take (sliceTo - sliceFrom).toNat)
        (sliceTo - sliceFrom).toNat beyond) := by
  by_cases htext : text str.memory = []
  · rw [strSlice_of_text_nil hnul htext, htext, List.drop_nil, List.take_nil, sliced_nil]
  rw [strSlice_eq_cut hnul htext]
  by_cases horder : (sliceFrom : Int) < sliceTo
  · rw [cut_of_nonneg (List.length_pos_iff.mpr htext) horder (Int.natCast_nonneg sliceFrom) hto,
      ok_bind, Int.toNat_natCast]
    by_cases hbeyond : (text str.memory).length ≤ sliceFrom
    · rw [if_pos hbeyond, List.drop_of_length_le hbeyond, List.take_nil, sliced_nil]
      rfl
    · have hne : ((text str.memory).drop sliceFrom).take (sliceTo - sliceFrom).toNat ≠ [] := by
        rw [ne_eq, List.take_eq_nil_iff, List.drop_eq_nil_iff]
        omega
      have hbound : (sliceTo - sliceFrom).toNat ≤ ptrdiffMax := by
        simp only [intMax, ptrdiffMax] at *
        omega
      rw [if_neg hbeyond, copyCut_some hnul (by omega) hbound, sliced_of_ne hne]
  · have hempty : (sliceTo - sliceFrom).toNat = 0 := by omega
    rw [cut_of_le (by omega), hempty, List.take_zero, sliced_nil]
    rfl

/-! ## A slice read as a string -/

/-- The string a scan finds in a slice with the given content: a slice that
fills its block is read on into what follows it. -/
def visible (content : List Byte) (size : Nat) (beyond : List Byte) : List Byte :=
  if content.length < size then content else content ++ text beyond

theorem visible_of_terminated (content : List Byte) (size : Nat) {beyond : List Byte}
    (hterminated : ∃ rest, beyond = 0 :: rest) : visible content size beyond = content := by
  obtain ⟨rest, rfl⟩ := hterminated
  rw [visible, text_zero_cons, List.append_nil, ite_self]

theorem text_padded_append {content : List Byte} (hnul : 0 ∉ content) {size : Nat}
    (hlength : content.length ≤ size) (beyond : List Byte) :
    text (padded content size ++ beyond) = visible content size beyond := by
  rw [padded, List.append_assoc, text_append_of_notMem hnul, visible]
  by_cases hshort : content.length < size
  · obtain ⟨count, hcount⟩ := Nat.exists_eq_add_of_lt hshort
    rw [if_pos hshort, hcount,
      show content.length + count + 1 - content.length = count + 1 by omega,
      List.replicate_succ, List.cons_append, text_zero_cons, List.append_nil]
  · rw [if_neg hshort, show size - content.length = 0 by omega]
    rfl

theorem zero_mem_padded_append {content : List Byte} (hnul : 0 ∉ content) (size : Nat)
    (beyond : List Byte) :
    0 ∈ padded content size ++ beyond ↔ content.length < size ∨ 0 ∈ beyond := by
  rw [padded, List.mem_append, List.mem_append, List.mem_replicate]
  constructor
  · rintro ((hmem | ⟨hcount, -⟩) | hmem)
    · exact absurd hmem hnul
    · exact .inl (by omega)
    · exact .inr hmem
  · rintro (hshort | hmem)
    · exact .inl (.inr ⟨by omega, rfl⟩)
    · exact .inr hmem

/-- A slice is a string when it does not fill its block, or a NUL follows. -/
theorem str_sliced {content : List Byte} (hne : content ≠ []) (hnul : 0 ∉ content) {size : Nat}
    (hlength : content.length ≤ size) {beyond : List Byte}
    (hends : content.length < size ∨ 0 ∈ beyond) :
    (sliced content size beyond).str = .ok (visible content size beyond) := by
  have hmem : 0 ∈ (⟨padded content size, beyond⟩ : Buf).memory :=
    (zero_mem_padded_append hnul size beyond).mpr hends
  rw [sliced_of_ne hne, str_of_mem hmem, Buf.memory, text_padded_append hnul hlength]

/-- A slice that fills its block at the end of memory is not. -/
theorem str_sliced_full {content : List Byte} (hne : content ≠ []) (hnul : 0 ∉ content)
    {size : Nat} (hfull : size ≤ content.length) :
    (sliced content size []).str = .error .overrun := by
  have hends : 0 ∉ padded content size ++ [] := by
    rw [zero_mem_padded_append hnul]
    rintro (hshort | hmem)
    · omega
    · contradiction
  rw [sliced_of_ne hne]
  exact if_neg hends

end CcCvStore.StrSlice
