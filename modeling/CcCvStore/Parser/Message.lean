import CcCvStore.Parser.StrSlice

/-!
# Request messages

`msg_parser.c` takes a read buffer apart: byte 0 is the command, byte 1 is
skipped, the key runs from byte 2 to the first `|`, and the data from behind
that `|` up to the last byte of the buffer, which is left out.
-/

namespace CcCvStore.Message

open CcCvStore.Effect
open CcCvStore.CInteger
open CcCvStore.CString
open CcCvStore.StrSlice

/-! ## Tasks and buffers -/

def cmdSet : Int := 1
def cmdGet : Int := 2
def cmdDelete : Int := 3

/-- `struct stru_task`. -/
structure Task where
  cmd : Int
  data : Ptr
  key : Ptr
  deriving DecidableEq

/-- The separator `|` and the command digits `1`, `2` and `3`. -/
def bar : Byte := 124
def digitSet : Byte := 49
def digitGet : Byte := 50
def digitDelete : Byte := 51

/-- `uv_buf_t`. -/
structure UvBuf where
  base : Buf
  len : Nat

/-- The allocations one request goes through. -/
inductive Site where
  | receive
  | key
  | data
  | value
  | reply
  deriving DecidableEq

/-- What the program does not control about its memory: the bytes that follow
each allocation and the bytes a fresh allocation holds. -/
structure Heap where
  beyond : Site → List Byte
  fresh : Nat → Byte

/-- Every allocation is followed by a NUL somewhere, so that scans end. -/
def Heap.ScansEnd (heap : Heap) : Prop := ∀ site, 0 ∈ heap.beyond site

/-- Every allocation is followed by a NUL at once. -/
def Heap.Terminated (heap : Heap) : Prop := ∀ site, ∃ rest, heap.beyond site = 0 :: rest

theorem Heap.Terminated.scansEnd {heap : Heap} (hterminated : heap.Terminated) :
    heap.ScansEnd := by
  intro site
  obtain ⟨rest, hrest⟩ := hterminated site
  rw [hrest]
  exact List.mem_cons_self

/-- A heap on which every read past an allocation fails. -/
def Heap.Strict (heap : Heap) : Prop := ∀ site, heap.beyond site = []

/-- The read buffer that holds exactly the bytes of `message`. -/
def Heap.received (heap : Heap) (message : List Byte) : UvBuf :=
  ⟨⟨message, heap.beyond .receive⟩, message.length⟩

/-! ## The parser -/

def parseClientMsgCmd (buf : UvBuf) : Except Fault Int := do
  if buf.len = 0 then
    return 0
  let first ← buf.base.read 0
  let cmd := 0
  let cmd := if first = digitSet then cmdSet else cmd
  let cmd := if first = digitGet then cmdGet else cmd
  let cmd := if first = digitDelete then cmdDelete else cmd
  return cmd

def checkMsgValid (buf : UvBuf) : Bool :=
  !decide (buf.len < 3)

/-- The loop of `get_end_of_key` at `idx`, with `remaining = buf->len - idx`. -/
def endOfKeyLoop (base : Buf) : (remaining idx : Nat) → Except Fault Nat
  | 0, idx => .ok idx
  | remaining + 1, idx => do
      if (← base.read idx) = bar then
        return idx
      -- `idx` is an `int`
      let _ ← intResult (idx + 1)
      endOfKeyLoop base remaining (idx + 1)

def getEndOfKey (buf : UvBuf) : Except Fault Nat :=
  if !checkMsgValid buf then .ok 0
  else endOfKeyLoop buf.base (buf.len - 2) 2

def parseClientMsgKey (heap : Heap) (buf : UvBuf) : Except Fault Ptr := do
  if !checkMsgValid buf then
    return none
  strSlice buf.base 2 (← getEndOfKey buf) (heap.beyond .key)

def parseClientMsgData (heap : Heap) (buf : UvBuf) : Except Fault Ptr := do
  if !checkMsgValid buf then
    return none
  let endOfKey ← getEndOfKey buf
  if sizeSub buf.len endOfKey < 1 then
    return none
  let sliceFrom ← intResult (endOfKey + 1)
  let sliceTo ← intResult (toInt buf.len - 1)
  strSlice buf.base sliceFrom sliceTo (heap.beyond .data)

/-- The task is allocated with the size of a pointer; the model takes the
struct whole. -/
def parseClientMsg (heap : Heap) (buf : UvBuf) : Except Fault Task := do
  let cmd ← parseClientMsgCmd buf
  let key ← parseClientMsgKey heap buf
  let data ← parseClientMsgData heap buf
  return { cmd, key, data }

/-! ## What the parser finds -/

/-- The command of a message. -/
def command : List Byte → Int
  | [] => 0
  | first :: _ =>
      if first = digitDelete then cmdDelete
      else if first = digitGet then cmdGet
      else if first = digitSet then cmdSet
      else 0

/-- Index of the first `|` from byte 2 on, or the length of the message. -/
def keyEnd (message : List Byte) : Nat := 2 + (message.drop 2).idxOf bar

/-- Number of bytes `parse_client_msg_data` asks for. -/
def dataSize (message : List Byte) : Nat :=
  (toInt message.length - 1 - (keyEnd message + 1)).toNat

/-- The bytes of `message` in a window, up to the first NUL of the message. -/
def window (message : List Byte) (start size : Nat) : List Byte :=
  if 0 ∈ message.take start then [] else text ((message.drop start).take size)

def keyField (message : List Byte) : List Byte :=
  window message 2 (keyEnd message - 2)

def dataField (message : List Byte) : List Byte :=
  window message (keyEnd message + 1) (dataSize message)

/-- No `int` the parser computes for the message overflows. -/
def IndexesFit (message : List Byte) : Prop :=
  message.length < 3 ∨
    ((keyEnd message : Int) ≤ intMax ∧
      (keyEnd message < message.length →
        (keyEnd message : Int) < intMax ∧ intMin < toInt message.length))

/-- The task the parser builds. -/
def parsedTask (heap : Heap) (message : List Byte) : Task where
  cmd := command message
  key := sliced (keyField message) (keyEnd message - 2) (heap.beyond .key)
  data := sliced (dataField message) (dataSize message) (heap.beyond .data)

theorem parseClientMsgCmd_eq (heap : Heap) (message : List Byte) :
    parseClientMsgCmd (heap.received message) = .ok (command message) := by
  cases message with
  | nil => rfl
  | cons first rest =>
      have hread : (heap.received (first :: rest)).base.read 0 = .ok first := rfl
      have hlength : ¬(heap.received (first :: rest)).len = 0 := Nat.succ_ne_zero _
      simp only [parseClientMsgCmd, if_neg hlength, hread, ok_bind, command]
      split_ifs <;> rfl

theorem keyEnd_le (message : List Byte) (hlength : 2 ≤ message.length) :
    keyEnd message ≤ message.length := by
  have hindex : (message.drop 2).idxOf bar ≤ (message.drop 2).length := List.idxOf_le_length
  rw [List.length_drop] at hindex
  simp only [keyEnd]
  omega

theorem endOfKeyLoop_eq (heap : Heap) (message : List Byte) :
    ∀ remaining idx, idx + remaining = message.length → (idx : Int) ≤ intMax →
      endOfKeyLoop (heap.received message).base remaining idx =
        if ((idx + (message.drop idx).idxOf bar : Nat) : Int) ≤ intMax then
          .ok (idx + (message.drop idx).idxOf bar)
        else .error .intOverflow := by
  intro remaining
  induction remaining with
  | zero =>
      intro idx hidx hmax
      have hnil : message.drop idx = [] := List.drop_eq_nil_iff.mpr (by omega)
      rw [hnil, List.idxOf_nil, Nat.add_zero, if_pos hmax]
      rfl
  | succ remaining ih =>
      intro idx hidx hmax
      have hlt : idx < message.length := by omega
      have hdrop := List.drop_eq_getElem_cons hlt
      have hread : (heap.received message).base.read idx = .ok message[idx] := by
        simp [Buf.read, Buf.memory, Heap.received, List.getElem?_append_left hlt,
          List.getElem?_eq_getElem hlt]
      simp only [endOfKeyLoop, hread, ok_bind]
      by_cases hbar : message[idx] = bar
      · rw [if_pos hbar, hdrop, hbar, List.idxOf_cons_self, Nat.add_zero, if_pos hmax]
        rfl
      · have hindex : (message.drop idx).idxOf bar =
            (message.drop (idx + 1)).idxOf bar + 1 := by
          rw [hdrop, List.idxOf_cons_ne _ hbar]
        rw [if_neg hbar, hindex]
        by_cases hnext : ((idx : Int) + 1) ≤ intMax
        · rw [intResult_of_range (by simp only [intMin]; omega) hnext, ok_bind,
            ih (idx + 1) (by omega) (by exact_mod_cast hnext)]
          rw [show idx + 1 + (message.drop (idx + 1)).idxOf bar =
            idx + ((message.drop (idx + 1)).idxOf bar + 1) by omega]
        · rw [intResult_eq_error _ (by omega), error_bind, if_neg (by omega)]

theorem checkMsgValid_of_le (heap : Heap) {message : List Byte}
    (hlength : 3 ≤ message.length) : checkMsgValid (heap.received message) = true := by
  have hnot : ¬message.length < 3 := by omega
  simp [checkMsgValid, Heap.received, hnot]

theorem checkMsgValid_of_lt (heap : Heap) {message : List Byte}
    (hlength : message.length < 3) : checkMsgValid (heap.received message) = false := by
  simp [checkMsgValid, Heap.received, hlength]

theorem getEndOfKey_eq (heap : Heap) {message : List Byte}
    (hlength : 3 ≤ message.length) :
    getEndOfKey (heap.received message) =
      if (keyEnd message : Int) ≤ intMax then .ok (keyEnd message)
      else .error .intOverflow := by
  rw [getEndOfKey, checkMsgValid_of_le heap hlength]
  exact endOfKeyLoop_eq heap message _ 2 (by simp only [Heap.received]; omega) (by decide)

theorem getEndOfKey_of_le (heap : Heap) {message : List Byte}
    (hlength : 3 ≤ message.length) (hmax : (keyEnd message : Int) ≤ intMax) :
    getEndOfKey (heap.received message) = .ok (keyEnd message) := by
  rw [getEndOfKey_eq heap hlength, if_pos hmax]

/-- A slice inside the message does not depend on what follows it. -/
theorem slice_eq_window {message : List Byte} (beyond : List Byte) {start size : Nat}
    (hinside : start + size ≤ message.length) :
    ((text (message ++ beyond)).drop start).take size = window message start size := by
  have hsplit : message ++ beyond = message.take start ++ (message.drop start ++ beyond) := by
    rw [← List.append_assoc, List.take_append_drop]
  have hlength : (message.take start).length = start := List.length_take_of_le (by omega)
  rw [hsplit, window]
  by_cases hnul : 0 ∈ message.take start
  · have hshort : (text (message.take start)).length ≤ start := by
      have := (text_isPrefix (message.take start)).length_le
      omega
    rw [if_pos hnul, text_append_of_mem hnul, List.drop_eq_nil_of_le hshort, List.take_nil]
  · rw [if_neg hnul, text_append_of_notMem hnul, List.drop_left' hlength, ← text_take,
      List.take_append_of_le_length (by rw [List.length_drop]; omega)]

theorem window_of_short {message : List Byte} {start : Nat}
    (hlength : message.length ≤ start) (size : Nat) : window message start size = [] := by
  rw [window, List.drop_eq_nil_of_le hlength, List.take_nil, text_nil, ite_self]

theorem zero_notMem_window (message : List Byte) (start size : Nat) :
    0 ∉ window message start size := by
  rw [window]
  split_ifs
  · exact List.not_mem_nil
  · exact zero_notMem_text _

theorem length_window_le (message : List Byte) (start size : Nat) :
    (window message start size).length ≤ size := by
  rw [window]
  split_ifs
  · exact Nat.zero_le size
  · exact (text_isPrefix _).length_le.trans (List.length_take_le _ _)

theorem dataSize_le (message : List Byte) :
    dataSize message ≤ message.length - 1 - (keyEnd message + 1) := by
  have hwrap : toInt message.length ≤ message.length := by
    simp only [toInt]
    omega
  simp only [dataSize]
  omega

/-- Messages shorter than three bytes have neither key nor data. -/
theorem parsedTask_of_short (heap : Heap) {message : List Byte}
    (hlength : message.length < 3) :
    parsedTask heap message = { cmd := command message, key := none, data := none } := by
  have hkey : keyField message = [] := window_of_short (by omega) _
  have hdata : dataField message = [] := window_of_short (by simp only [keyEnd]; omega) _
  simp only [parsedTask, hkey, hdata, sliced_nil]

theorem parseClientMsgKey_eq {heap : Heap} {message : List Byte}
    (hnul : 0 ∈ message ++ heap.beyond .receive)
    (hend : message.length < 3 ∨ (keyEnd message : Int) ≤ intMax) :
    parseClientMsgKey heap (heap.received message) = .ok (parsedTask heap message).key := by
  by_cases hlength : message.length < 3
  · rw [parsedTask_of_short heap hlength]
    simp only [parseClientMsgKey, checkMsgValid_of_lt heap hlength]
    rfl
  · have hlong : 3 ≤ message.length := Nat.le_of_not_lt hlength
    have hmax : (keyEnd message : Int) ≤ intMax := hend.resolve_left hlength
    have hinside := keyEnd_le message (by omega)
    have hslice := strSlice_eq (heap.received message).base hnul 2 (keyEnd message) hmax
      (heap.beyond .key)
    have hcount : ((keyEnd message : Int) - (2 : Nat)).toNat = keyEnd message - 2 := by omega
    have hmemory : (heap.received message).base.memory = message ++ heap.beyond .receive := rfl
    rw [hcount, hmemory, slice_eq_window _ (by simp only [keyEnd] at *; omega)] at hslice
    simp only [parseClientMsgKey, checkMsgValid_of_le heap hlong,
      getEndOfKey_of_le heap hlong hmax, ok_bind]
    exact hslice

theorem parseClientMsgData_eq {heap : Heap} {message : List Byte}
    (hnul : 0 ∈ message ++ heap.beyond .receive) (hfit : IndexesFit message) :
    parseClientMsgData heap (heap.received message) =
      .ok (parsedTask heap message).data := by
  by_cases hlength : message.length < 3
  · rw [parsedTask_of_short heap hlength]
    simp only [parseClientMsgData, checkMsgValid_of_lt heap hlength]
    rfl
  obtain ⟨hmax, hinner⟩ := hfit.resolve_left hlength
  have hlong : 3 ≤ message.length := Nat.le_of_not_lt hlength
  have hend := keyEnd_le message (by omega)
  have hsize := dataSize_le message
  have hlen : (heap.received message).len = message.length := rfl
  by_cases hlast : keyEnd message = message.length
  · have hempty : dataField message = [] := window_of_short (by omega) _
    have hnone : sizeSub message.length (keyEnd message) < 1 := by
      rw [sizeSub_of_le hend]
      omega
    simp only [parseClientMsgData, checkMsgValid_of_le heap hlong,
      getEndOfKey_of_le heap hlong hmax, ok_bind, hlen, if_pos hnone, parsedTask, hempty,
      sliced_nil]
    rfl
  · obtain ⟨hnext, hwrap⟩ := hinner (by omega)
    have hrange := toInt_range message.length
    have hfrom : intResult ((keyEnd message : Int) + 1) =
        .ok ((keyEnd message + 1 : Nat) : Int) := by
      rw [intResult_of_range (by simp only [intMin]; omega) (by omega)]
      rfl
    have hto : intResult (toInt message.length - 1) = .ok (toInt message.length - 1) :=
      intResult_of_range (by omega) (by omega)
    have hslice := strSlice_eq (heap.received message).base hnul (keyEnd message + 1)
      (toInt message.length - 1) (by omega) (heap.beyond .data)
    have hcount : (toInt message.length - 1 - (keyEnd message + 1 : Nat)).toNat =
        dataSize message := rfl
    have hmemory : (heap.received message).base.memory = message ++ heap.beyond .receive := rfl
    rw [hcount, hmemory, slice_eq_window _ (by omega)] at hslice
    have hsome : ¬sizeSub message.length (keyEnd message) < 1 := by
      rw [sizeSub_of_le hend]
      omega
    simp only [parseClientMsgData, checkMsgValid_of_le heap hlong,
      getEndOfKey_of_le heap hlong hmax, ok_bind, hlen, if_neg hsome, hfrom, hto]
    exact hslice

/-- When a NUL ends the scan of the read buffer, the parser builds the task of
the message unless one of its `int`s overflows. -/
theorem parseClientMsg_eq {heap : Heap} {message : List Byte}
    (hnul : 0 ∈ message ++ heap.beyond .receive) (hfit : IndexesFit message) :
    parseClientMsg heap (heap.received message) = .ok (parsedTask heap message) := by
  have hend : message.length < 3 ∨ (keyEnd message : Int) ≤ intMax := hfit.imp_right And.left
  simp only [parseClientMsg, parseClientMsgCmd_eq, parseClientMsgKey_eq hnul hend,
    parseClientMsgData_eq hnul hfit, ok_bind]
  rfl

theorem parseClientMsg_eq_error {heap : Heap} {message : List Byte}
    (hnul : 0 ∈ message ++ heap.beyond .receive) (hfit : ¬IndexesFit message) :
    parseClientMsg heap (heap.received message) = .error .intOverflow := by
  obtain ⟨hlength, hover⟩ := not_or.mp hfit
  have hlong : 3 ≤ message.length := Nat.le_of_not_lt hlength
  by_cases hmax : (keyEnd message : Int) ≤ intMax
  · have hkey := parseClientMsgKey_eq hnul (.inr hmax)
    have hend := keyEnd_le message (by omega)
    have hlen : (heap.received message).len = message.length := rfl
    have hlast : keyEnd message < message.length := by
      by_contra hnot
      exact hover ⟨hmax, fun hlt => absurd hlt hnot⟩
    have hsome : ¬sizeSub message.length (keyEnd message) < 1 := by
      rw [sizeSub_of_le hend]
      omega
    have hdata : parseClientMsgData heap (heap.received message) = .error .intOverflow := by
      simp only [parseClientMsgData, checkMsgValid_of_le heap hlong,
        getEndOfKey_of_le heap hlong hmax, ok_bind, hlen, if_neg hsome]
      by_cases hnext : (keyEnd message : Int) < intMax
      · have hwrap : ¬intMin < toInt message.length := fun hwrap =>
          hover ⟨hmax, fun _ => ⟨hnext, hwrap⟩⟩
        rw [intResult_of_range (by simp only [intMin]; omega) (by omega),
          intResult_eq_error (toInt message.length - 1) (by omega)]
        rfl
      · rw [intResult_eq_error _ (by omega)]
        rfl
    simp only [parseClientMsg, parseClientMsgCmd_eq, hkey, hdata, ok_bind, error_bind]
  · have hkey : parseClientMsgKey heap (heap.received message) = .error .intOverflow := by
      simp only [parseClientMsgKey, checkMsgValid_of_le heap hlong,
        getEndOfKey_eq heap hlong, if_neg hmax]
      rfl
    simp only [parseClientMsg, parseClientMsgCmd_eq, hkey, ok_bind, error_bind]

/-- Every index fits for messages of at most `INT_MAX` bytes. -/
theorem indexesFit_of_le {message : List Byte} (hlength : (message.length : Int) ≤ intMax) :
    IndexesFit message := by
  by_cases hshort : message.length < 3
  · exact .inl hshort
  · have hend := keyEnd_le message (by omega)
    refine .inr ⟨by omega, fun hlast => ⟨by omega, ?_⟩⟩
    rw [toInt_natCast _ hlength]
    simp only [intMin]
    omega

end CcCvStore.Message
