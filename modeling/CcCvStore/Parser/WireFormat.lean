import CcCvStore.Parser.Message

/-!
# The documented requests

The README gives three requests, `1|key|value|`, `2|key|` and `3|key|`.  A key
holds neither the separator nor a NUL, a value no NUL.  The parser recovers
what was encoded, for keys and values of any length.
-/

namespace CcCvStore.WireFormat

open CcCvStore.CInteger
open CcCvStore.CString
open CcCvStore.StrSlice
open CcCvStore.Message

structure Key where
  bytes : List Byte
  ne_nil : bytes ≠ []
  bar_notMem : bar ∉ bytes
  zero_notMem : 0 ∉ bytes

structure Value where
  bytes : List Byte
  ne_nil : bytes ≠ []
  zero_notMem : 0 ∉ bytes

inductive Request where
  | set (key : Key) (value : Value)
  | get (key : Key)
  | delete (key : Key)

namespace Request

def encode : Request → List Byte
  | set key value => digitSet :: bar :: (key.bytes ++ bar :: (value.bytes ++ [bar]))
  | get key => digitGet :: bar :: (key.bytes ++ [bar])
  | delete key => digitDelete :: bar :: (key.bytes ++ [bar])

def cmd : Request → Int
  | set _ _ => cmdSet
  | get _ => cmdGet
  | delete _ => cmdDelete

def key : Request → Key
  | set key _ => key
  | get key => key
  | delete key => key

def data? : Request → Option (List Byte)
  | set _ value => some value.bytes
  | get _ => none
  | delete _ => none

end Request

/-! ## Fields of a message with a separator -/

theorem keyEnd_append (first sep : Byte) {key : List Byte} (hbar : bar ∉ key)
    (rest : List Byte) :
    keyEnd (first :: sep :: (key ++ bar :: rest)) = 2 + key.length := by
  simp only [keyEnd, List.drop_succ_cons, List.drop_zero, List.idxOf_append_of_notMem hbar,
    List.idxOf_cons_self, Nat.add_zero]

theorem keyEnd_of_notMem (first sep : Byte) {key : List Byte} (hbar : bar ∉ key) :
    keyEnd (first :: sep :: key) = 2 + key.length := by
  simp only [keyEnd, List.drop_succ_cons, List.drop_zero, List.idxOf_of_notMem hbar]

theorem keyField_append {first sep : Byte} (hfirst : first ≠ 0) (hsep : sep ≠ 0)
    {key : List Byte} (hbar : bar ∉ key) (rest : List Byte) :
    keyField (first :: sep :: (key ++ bar :: rest)) = text key := by
  have hhead : 0 ∉ [first, sep] := by simp [hfirst.symm, hsep.symm]
  rw [keyField, keyEnd_append first sep hbar, window, Nat.add_sub_cancel_left]
  simp only [List.take_succ_cons, List.take_zero, List.drop_succ_cons, List.drop_zero,
    if_neg hhead, List.take_left]

theorem window_append {head : List Byte} (hnul : 0 ∉ head) (rest : List Byte) (size : Nat) :
    window (head ++ rest) head.length size = text (rest.take size) := by
  rw [window, List.take_left, List.drop_left, if_neg hnul]

/-- Behind the separator the data is what `parse_client_msg_data` asks for, up to
a NUL. -/
theorem dataField_append_take {first sep : Byte} (hfirst : first ≠ 0) (hsep : sep ≠ 0)
    {key : List Byte} (hbar : bar ∉ key) (hnul : 0 ∉ key) (rest : List Byte) :
    dataField (first :: sep :: (key ++ bar :: rest)) =
      text (rest.take (dataSize (first :: sep :: (key ++ bar :: rest)))) := by
  have hhead : 0 ∉ first :: sep :: (key ++ [bar]) := by
    simp [hfirst.symm, hsep.symm, hnul, bar]
  have hstart : keyEnd (first :: sep :: (key ++ bar :: rest)) + 1 =
      (first :: sep :: (key ++ [bar])).length := by
    rw [keyEnd_append first sep hbar]
    simp only [List.length_cons, List.length_append, List.length_nil]
    omega
  have hwindow := window_append hhead rest
    (dataSize (first :: sep :: (key ++ bar :: rest)))
  rw [dataField, hstart]
  simpa only [List.cons_append, List.append_assoc, List.nil_append] using hwindow

theorem dataSize_append (first sep : Byte) {key : List Byte} (hbar : bar ∉ key)
    (rest : List Byte) :
    dataSize (first :: sep :: (key ++ bar :: rest)) =
      (toInt (first :: sep :: (key ++ bar :: rest)).length - key.length - 4).toNat := by
  rw [dataSize, keyEnd_append first sep hbar]
  omega

/-- In a message of at most `INT_MAX` bytes that is everything but the last byte. -/
theorem dataField_append {first sep : Byte} (hfirst : first ≠ 0) (hsep : sep ≠ 0)
    {key : List Byte} (hbar : bar ∉ key) (hnul : 0 ∉ key) {rest : List Byte}
    (hlength : ((first :: sep :: (key ++ bar :: rest)).length : Int) ≤ intMax) :
    dataField (first :: sep :: (key ++ bar :: rest)) = text rest.dropLast := by
  have hsize : dataSize (first :: sep :: (key ++ bar :: rest)) = rest.length - 1 := by
    rw [dataSize_append first sep hbar, toInt_natCast _ hlength]
    simp only [List.length_cons, List.length_append]
    omega
  rw [dataField_append_take hfirst hsep hbar hnul, hsize, List.dropLast_eq_take]

theorem content_sliced {content : List Byte} (hnul : 0 ∉ content) (size : Nat)
    (beyond : List Byte) :
    (sliced content size beyond).map Buf.content =
      if content = [] then none else some content := by
  by_cases hnil : content = []
  · simp [hnil]
  · rw [sliced_of_ne hnil, if_neg hnil, Option.map_some, Buf.content, text_padded hnul]

theorem keyContent_parsedTask (heap : Heap) (message : List Byte) :
    (parsedTask heap message).key.map Buf.content =
      if keyField message = [] then none else some (keyField message) :=
  content_sliced (zero_notMem_window _ _ _) _ _

theorem dataContent_parsedTask (heap : Heap) (message : List Byte) :
    (parsedTask heap message).data.map Buf.content =
      if dataField message = [] then none else some (dataField message) :=
  content_sliced (zero_notMem_window _ _ _) _ _

/-! ## Decoding a request -/

theorem digitSet_ne : digitSet ≠ 0 := by decide
theorem digitGet_ne : digitGet ≠ 0 := by decide
theorem digitDelete_ne : digitDelete ≠ 0 := by decide
theorem bar_ne : bar ≠ 0 := by decide

theorem command_encode (request : Request) : command request.encode = request.cmd := by
  cases request <;> rfl

theorem keyField_encode (request : Request) :
    keyField request.encode = request.key.bytes := by
  cases request with
  | set key value =>
      exact (keyField_append digitSet_ne bar_ne key.bar_notMem _).trans
        (text_of_notMem key.zero_notMem)
  | get key =>
      exact (keyField_append digitGet_ne bar_ne key.bar_notMem _).trans
        (text_of_notMem key.zero_notMem)
  | delete key =>
      exact (keyField_append digitDelete_ne bar_ne key.bar_notMem _).trans
        (text_of_notMem key.zero_notMem)

theorem dataField_encode (request : Request)
    (hlength : (request.encode.length : Int) ≤ intMax) :
    dataField request.encode = request.data?.getD [] := by
  cases request with
  | set key value =>
      rw [Request.encode, dataField_append digitSet_ne bar_ne key.bar_notMem
        key.zero_notMem hlength, List.dropLast_concat, text_of_notMem value.zero_notMem]
      rfl
  | get key =>
      exact dataField_append digitGet_ne bar_ne key.bar_notMem key.zero_notMem hlength
  | delete key =>
      exact dataField_append digitDelete_ne bar_ne key.bar_notMem key.zero_notMem hlength

/-- Parsing an encoded request gives back its command, its key and its data. -/
theorem parseClientMsg_encode (heap : Heap) (request : Request)
    (hlength : (request.encode.length : Int) ≤ intMax)
    (hscan : 0 ∈ heap.beyond .receive) :
    ∃ task, parseClientMsg heap (heap.received request.encode) = .ok task ∧
      task.cmd = request.cmd ∧
      task.key.map Buf.content = some request.key.bytes ∧
      task.data.map Buf.content = request.data? := by
  refine ⟨parsedTask heap request.encode,
    parseClientMsg_eq (List.mem_append_right _ hscan) (indexesFit_of_le hlength),
    command_encode request, ?_, ?_⟩
  · rw [keyContent_parsedTask, keyField_encode, if_neg request.key.ne_nil]
  · rw [dataContent_parsedTask, dataField_encode request hlength]
    cases request with
    | set key value => exact if_neg value.ne_nil
    | get key => rfl
    | delete key => rfl

/-- The message of the parser's own test, `1|keysize|data_size|`. -/
theorem parseClientMsg_encode_test :
    let key : Key := ⟨[107, 101, 121, 115, 105, 122, 101], by decide, by decide, by decide⟩
    let value : Value := ⟨[100, 97, 116, 97, 95, 115, 105, 122, 101], by decide, by decide⟩
    let heap : Heap := ⟨fun _ => [0], fun _ => 0⟩
    ∃ task, parseClientMsg heap (heap.received (Request.set key value).encode) = .ok task ∧
      task.cmd = (Request.set key value).cmd ∧
      task.key.map Buf.content = some key.bytes ∧
      task.data.map Buf.content = some value.bytes :=
  parseClientMsg_encode _ (Request.set _ _) (by decide) (by decide)

end CcCvStore.WireFormat
