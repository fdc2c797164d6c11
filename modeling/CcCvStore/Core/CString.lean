import CcCvStore.Core.CInteger
import Mathlib.Data.List.TakeWhile
import Mathlib.Data.List.Basic

/-!
# C strings in bounded buffers

A pointer to allocated memory is the allocated block together with the bytes
that follow it.  The string functions read on past the block as the machine
does: with nothing following (`beyond = []`) such a read is an `overrun`, so
that bounds can be stated, and with a NUL following it ends there.
-/

namespace CcCvStore.CString

open CcCvStore.CInteger

abbrev Byte := UInt8

/-! ## The text at the start of a byte sequence -/

/-- The bytes before the first NUL. -/
def text (memory : List Byte) : List Byte :=
  memory.takeWhile fun byte => byte != 0

@[simp]
theorem text_nil : text [] = [] := rfl

@[simp]
theorem text_zero_cons (memory : List Byte) : text (0 :: memory) = [] := rfl

theorem text_cons_of_ne {byte : Byte} (hbyte : byte ≠ 0) (memory : List Byte) :
    text (byte :: memory) = byte :: text memory := by
  simp [text, hbyte]

theorem text_isPrefix (memory : List Byte) : text memory <+: memory :=
  List.takeWhile_prefix _

theorem zero_notMem_text (memory : List Byte) : 0 ∉ text memory := by
  intro hmem
  have := List.mem_takeWhile_imp hmem
  simp at this

theorem text_of_notMem {memory : List Byte} (hnul : 0 ∉ memory) :
    text memory = memory := by
  rw [text, List.takeWhile_eq_self_iff]
  intro byte hbyte
  simp only [bne_iff_ne, ne_eq]
  rintro rfl
  exact hnul hbyte

theorem text_append_of_notMem {left : List Byte} (hnul : 0 ∉ left)
    (right : List Byte) : text (left ++ right) = left ++ text right := by
  rw [text, List.takeWhile_append_of_pos]
  · rfl
  · intro byte hbyte
    simp only [bne_iff_ne, ne_eq]
    rintro rfl
    exact hnul hbyte

theorem text_append_of_mem {left : List Byte} (hnul : 0 ∈ left)
    (right : List Byte) : text (left ++ right) = text left := by
  induction left with
  | nil => simp at hnul
  | cons byte left ih =>
      by_cases hbyte : byte = 0
      · subst hbyte
        rfl
      · have hleft : 0 ∈ left := by
          rcases List.mem_cons.mp hnul with heq | hmem
          · exact absurd heq.symm hbyte
          · exact hmem
        rw [List.cons_append, text_cons_of_ne hbyte, text_cons_of_ne hbyte,
          ih hleft]

/-- What follows a NUL does not count. -/
theorem text_append_zero (left right : List Byte) : text (left ++ 0 :: right) = text left := by
  by_cases hnul : 0 ∈ left
  · exact text_append_of_mem hnul _
  · rw [text_append_of_notMem hnul, text_zero_cons, List.append_nil, text_of_notMem hnul]

/-- A sequence that holds a NUL is its text, that NUL and a rest. -/
theorem exists_eq_text_append {memory : List Byte} (hnul : 0 ∈ memory) :
    ∃ rest, memory = text memory ++ 0 :: rest := by
  obtain ⟨left, right, hsplit, hleft⟩ := List.eq_append_cons_of_mem hnul
  refine ⟨right, ?_⟩
  rw [hsplit, text_append_of_notMem hleft, text_zero_cons, List.append_nil]

theorem text_take (memory : List Byte) (count : Nat) :
    text (memory.take count) = (text memory).take count :=
  List.take_takeWhile.symm

theorem text_drop {memory : List Byte} {count : Nat}
    (hcount : count ≤ (text memory).length) :
    text (memory.drop count) = (text memory).drop count := by
  obtain ⟨rest, hrest⟩ := text_isPrefix memory
  have hdrop : memory.drop count = (text memory).drop count ++ rest := by
    conv_lhs => rw [← hrest]
    exact List.drop_append_of_le_length hcount
  have hnul : 0 ∉ (text memory).drop count := fun hmem =>
    zero_notMem_text memory (List.mem_of_mem_drop hmem)
  have htail : text rest = [] := by
    have hself := text_append_of_notMem (zero_notMem_text memory) rest
    rw [hrest] at hself
    simpa using hself
  rw [hdrop, text_append_of_notMem hnul, htail, List.append_nil]

theorem zero_mem_drop {memory : List Byte} (hnul : 0 ∈ memory) {count : Nat}
    (hcount : count ≤ (text memory).length) : 0 ∈ memory.drop count := by
  obtain ⟨rest, hrest⟩ := exists_eq_text_append hnul
  rw [hrest, List.drop_append_of_le_length hcount]
  simp

theorem text_eq_nil_iff {byte : Byte} {memory : List Byte} :
    text (byte :: memory) = [] ↔ byte = 0 := by
  by_cases hbyte : byte = 0
  · simp [hbyte]
  · simp [text_cons_of_ne hbyte, hbyte]

@[simp]
theorem text_replicate_zero (count : Nat) : text (List.replicate count 0) = [] := by
  cases count <;> rfl

/-! ## Buffers -/

/-- Memory behind a pointer: the allocated block, and the bytes a read past
its end would find. -/
structure Buf where
  block : List Byte
  beyond : List Byte
  deriving DecidableEq, Repr

/-- A pointer: `NULL` or the start of a buffer. -/
abbrev Ptr := Option Buf

namespace Buf

/-- Everything that can be read from the start of the block on. -/
def memory (buf : Buf) : List Byte := buf.block ++ buf.beyond

/-- The bytes up to the first NUL or to the end of the allocation. -/
def content (buf : Buf) : List Byte := text buf.block

/-- A proper C string: its bytes and a NUL in one block. -/
def ofString (bytes beyond : List Byte) : Buf := ⟨bytes ++ [0], beyond⟩

/-- Reading one byte. -/
def read (buf : Buf) (index : Nat) : Except Fault Byte :=
  match buf.memory[index]? with
  | some byte => .ok byte
  | none => .error .overrun

end Buf

/-- The string a scan from a pointer finds. -/
def Ptr.str : Ptr → Except Fault (List Byte)
  | none => .error .nullArgument
  | some buf => if 0 ∈ buf.memory then .ok (text buf.memory) else .error .overrun

def strlen (str : Ptr) : Except Fault Nat := return (← str.str).length

/-- `calloc(size, 1)`. -/
def calloc (size : Nat) (beyond : List Byte) : Ptr :=
  if size ≤ ptrdiffMax then some ⟨List.replicate size 0, beyond⟩ else none

/-- `malloc(size)`: the block holds whatever the memory held before. -/
def malloc (size : Nat) (fresh : Nat → Byte) (beyond : List Byte) : Ptr :=
  if size ≤ ptrdiffMax then some ⟨(List.range size).map fresh, beyond⟩ else none

/-- `memory` with `bytes` written at its start. -/
def overlay (bytes memory : List Byte) : List Byte :=
  bytes ++ memory.drop bytes.length

/-- Writing at the start of a buffer; past the block the write lands in what
follows it. -/
def store (target : Ptr) (bytes : List Byte) : Except Fault Ptr :=
  match target with
  | none => .error .wildWrite
  | some buf =>
      if bytes.length ≤ buf.memory.length then
        let written := overlay bytes buf.memory
        .ok (some ⟨written.take buf.block.length, written.drop buf.block.length⟩)
      else .error .wildWrite

/-- `bytes` filled up with NULs to `size`. -/
def padded (bytes : List Byte) (size : Nat) : List Byte :=
  bytes ++ List.replicate (size - bytes.length) 0

/-- `strncpy(target, source, size)`, reading `source` until a NUL or `size`
bytes. -/
def strncpy (target : Ptr) (source : List Byte) (size : Nat) :
    Except Fault Ptr :=
  if size ≤ source.length ∨ 0 ∈ source then
    store target (padded (text (source.take size)) size)
  else .error .overrun

/-- `snprintf(target, size, ..)` where the format expands to `output`. -/
def snprintf (target : Ptr) (size : Nat) (output : List Byte) :
    Except Fault Ptr :=
  if size = 0 then .ok target
  else store target (output.take (size - 1) ++ [0])

/-- A write that fits changes the block and nothing behind it. -/
theorem store_of_le {buf : Buf} {bytes : List Byte} (hfits : bytes.length ≤ buf.block.length) :
    store (some buf) bytes = .ok (some ⟨overlay bytes buf.block, buf.beyond⟩) := by
  have hlength : (overlay bytes buf.block).length = buf.block.length := by
    rw [overlay, List.length_append, List.length_drop]
    omega
  have hsplit : overlay bytes buf.memory = overlay bytes buf.block ++ buf.beyond := by
    rw [overlay, Buf.memory, List.drop_append_of_le_length hfits, overlay, List.append_assoc]
  have hroom : bytes.length ≤ buf.memory.length := by
    rw [Buf.memory, List.length_append]
    omega
  simp only [store, if_pos hroom, hsplit, List.take_left' hlength, List.drop_left' hlength]

/-- A write leaves the block its size, wherever it lands. -/
theorem length_block_store {buf after : Buf} {bytes : List Byte}
    (hstore : store (some buf) bytes = .ok (some after)) :
    after.block.length = buf.block.length := by
  by_cases hroom : bytes.length ≤ buf.memory.length
  · have hlength : (overlay bytes buf.memory).length = buf.memory.length := by
      rw [overlay, List.length_append, List.length_drop]
      omega
    have hblock : buf.block.length ≤ buf.memory.length := by
      rw [Buf.memory, List.length_append]
      omega
    simp only [store, if_pos hroom, Except.ok.injEq, Option.some.injEq] at hstore
    rw [← hstore, List.length_take, hlength, Nat.min_eq_left hblock]
  · simp only [store, if_neg hroom] at hstore
    contradiction

/-- What fits in the block is written up to its last byte, and terminated. -/
theorem snprintf_of_le {buf : Buf} {size : Nat} (hpos : 0 < size)
    (hsize : size ≤ buf.block.length) (output : List Byte) :
    ∃ rest, snprintf (some buf) size output =
      .ok (some ⟨output.take (size - 1) ++ 0 :: rest, buf.beyond⟩) := by
  have hfits : (output.take (size - 1) ++ [0]).length ≤ buf.block.length := by
    simp only [List.length_append, List.length_take, List.length_cons, List.length_nil]
    omega
  refine ⟨buf.block.drop (output.take (size - 1) ++ [0]).length, ?_⟩
  rw [snprintf, if_neg (by omega), store_of_le hfits, overlay, List.append_assoc]
  rfl

@[simp]
theorem length_padded {bytes : List Byte} {size : Nat}
    (hsize : bytes.length ≤ size) : (padded bytes size).length = size := by
  simp [padded]
  omega

theorem text_padded {bytes : List Byte} (hnul : 0 ∉ bytes) (size : Nat) :
    text (padded bytes size) = bytes := by
  rw [padded, text_append_of_notMem hnul, text_replicate_zero, List.append_nil]

theorem text_append_nul {bytes : List Byte} (hnul : 0 ∉ bytes)
    (rest : List Byte) : text (bytes ++ 0 :: rest) = bytes := by
  rw [text_append_of_notMem hnul, text_zero_cons, List.append_nil]

theorem str_of_mem {buf : Buf} (hnul : 0 ∈ buf.memory) :
    Ptr.str (some buf) = .ok (text buf.memory) := if_pos hnul

theorem str_ofString {bytes : List Byte} (hnul : 0 ∉ bytes)
    (beyond : List Byte) :
    Ptr.str (some (Buf.ofString bytes beyond)) = .ok bytes := by
  have hmem : 0 ∈ (Buf.ofString bytes beyond).memory := by
    simp [Buf.memory, Buf.ofString]
  rw [str_of_mem hmem]
  simp only [Buf.memory, Buf.ofString, List.append_assoc, List.cons_append,
    List.nil_append, text_append_nul hnul]

/-- The faults of a string scan. -/
def IsStringFault (fault : Fault) : Prop := fault = .nullArgument ∨ fault = .overrun

theorem isStringFault_of_str {ptr : Ptr} {fault : Fault} (hstr : ptr.str = .error fault) :
    IsStringFault fault := by
  cases ptr with
  | none =>
      cases hstr
      exact .inl rfl
  | some buf =>
      rw [Ptr.str] at hstr
      split at hstr
      · contradiction
      · cases hstr
        exact .inr rfl

/-- The contents of a C string. -/
structure Str where
  bytes : List Byte
  zero_notMem : 0 ∉ bytes

def Str.ptr (str : Str) : Ptr := some (Buf.ofString str.bytes [])

theorem Str.str_ptr (str : Str) : str.ptr.str = .ok str.bytes :=
  str_ofString str.zero_notMem []

/-! ## Strings in `char` arrays -/

attribute [ext] Str
deriving instance DecidableEq for Str

/-- The string in an array, which has to hold its NUL. -/
def arrayStr (field : List Byte) : Except Fault Str :=
  if 0 ∈ field then .ok ⟨text field, zero_notMem_text field⟩ else .error .overrun

/-- `strcpy(field, source)`; the rest of the array keeps its bytes. -/
def strcpyArray (field source : List Byte) : Except Fault (List Byte) :=
  if source.length < field.length then .ok (overlay (source ++ [0]) field)
  else .error .wildWrite

theorem arrayStr_of_mem {field : List Byte} (hnul : 0 ∈ field) :
    arrayStr field = .ok ⟨text field, zero_notMem_text field⟩ := if_pos hnul

theorem arrayStr_of_notMem {field : List Byte} (hnul : 0 ∉ field) :
    arrayStr field = .error .overrun := if_neg hnul

theorem length_overlay {bytes memory : List Byte} (hle : bytes.length ≤ memory.length) :
    (overlay bytes memory).length = memory.length := by
  rw [overlay, List.length_append, List.length_drop, Nat.add_sub_cancel' hle]

/-- What was copied into an array is the string it holds. -/
theorem arrayStr_overlay (source : Str) (field : List Byte) :
    arrayStr (overlay (source.bytes ++ [0]) field) = .ok source := by
  have hsplit : overlay (source.bytes ++ [0]) field =
      source.bytes ++ 0 :: field.drop (source.bytes ++ [0]).length := by
    rw [overlay, List.append_assoc, List.singleton_append]
  have hmem : 0 ∈ overlay (source.bytes ++ [0]) field := by
    rw [hsplit]
    exact List.mem_append_right _ List.mem_cons_self
  rw [arrayStr_of_mem hmem]
  congr 1
  apply Str.ext
  change text (overlay (source.bytes ++ [0]) field) = source.bytes
  rw [hsplit, text_append_nul source.zero_notMem]

theorem strcpyArray_of_lt {field : List Byte} {source : Str}
    (hlt : source.bytes.length < field.length) :
    ∃ copied, strcpyArray field source.bytes = .ok copied ∧ copied.length = field.length ∧
      arrayStr copied = .ok source := by
  refine ⟨_, if_pos hlt, length_overlay ?_, arrayStr_overlay source field⟩
  rw [List.length_append]
  exact hlt

theorem strcpyArray_of_le {field source : List Byte} (hle : field.length ≤ source.length) :
    strcpyArray field source = .error .wildWrite := if_neg (Nat.not_lt.mpr hle)

end CcCvStore.CString
