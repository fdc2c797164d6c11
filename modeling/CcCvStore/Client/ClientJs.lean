import CcCvStore.Core.Unicode
import CcCvStore.Parser.Grammar

/-!
# The shipped client

`client.js` writes its requests from template strings and takes a reply apart
at every `|`.  It leaves out the separator that the parser expects behind a
value, and takes the third field of a reply for the value.
-/

namespace CcCvStore.ClientJs

open CcCvStore.CInteger
open CcCvStore.CString
open CcCvStore.Message
open CcCvStore.WireFormat
open CcCvStore.Grammar
open CcCvStore.Unicode

abbrev JsString := CodeUnits

/-- `'|'`, `'1'`, `'2'` and `'3'` as code units. -/
def unitBar : UInt16 := 124
def unitSet : UInt16 := 49
def unitGet : UInt16 := 50
def unitDelete : UInt16 := 51

inductive JsValue where
  | undefined
  | true
  | string (units : JsString)
  deriving DecidableEq

/-- A call of one of the client's methods: what it writes to the socket, and
what its promise resolves to when the socket delivers some bytes, if it does. -/
structure Call where
  written : Option (List Byte)
  onEvent : List Byte → Option JsValue

/-- `client.write` of a string. -/
def write (d : JsString) : List Byte := encode d

/-- `binData.toString()`. -/
def bufferToString (binData : List Byte) : JsString := codeUnits (decode binData)

/-- `data.split('|')`. -/
def split (data : JsString) : List JsString := data.splitOn unitBar

/-- `aData[index]`. -/
def fieldAt (aData : List JsString) (index : Nat) : JsValue :=
  match aData[index]? with
  | some units => .string units
  | none => .undefined

/-- `(aData[0] == digit) && (aData[1] == key)`. -/
def Answers (digit : UInt16) (key : JsString) (aData : List JsString) : Prop :=
  fieldAt aData 0 = .string [digit] ∧ fieldAt aData 1 = .string key

instance (digit : UInt16) (key : JsString) (aData : List JsString) :
    Decidable (Answers digit key aData) := inferInstanceAs (Decidable (_ ∧ _))

def setData (key data : JsString) : Call where
  written := some (write (unitSet :: unitBar :: (key ++ unitBar :: data)))
  onEvent binData :=
    let aData := split (bufferToString binData)
    if Answers unitSet key aData then some .true else none

def removeData (key : JsString) : Call where
  written := some (write (unitDelete :: unitBar :: key))
  onEvent binData :=
    let aData := split (bufferToString binData)
    if Answers unitDelete key aData then some (fieldAt aData 2) else none

/-- The message `2|key|` is built and not written. -/
def getData (key : JsString) : Call where
  written := none
  onEvent binData :=
    let aData := split (bufferToString binData)
    if Answers unitGet key aData then some (fieldAt aData 2) else none

/-! ## Keys, data and what is exchanged -/

structure ClientKey where
  units : JsString
  ne_nil : units ≠ []
  bar_notMem : unitBar ∉ units
  zero_notMem : 0 ∉ units

structure ClientData where
  units : JsString
  ne_nil : units ≠ []
  zero_notMem : 0 ∉ units

theorem bar_notMem_encode {units : JsString} (hbar : unitBar ∉ units) : bar ∉ encode units := by
  rwa [mem_encode (by decide)]

theorem zero_notMem_encode {units : JsString} (hnul : 0 ∉ units) : 0 ∉ encode units := by
  rwa [mem_encode (by decide)]

/-- The key as the server sees it. -/
def ClientKey.key (key : ClientKey) : Key where
  bytes := encode key.units
  ne_nil := encode_ne_nil key.ne_nil
  bar_notMem := bar_notMem_encode key.bar_notMem
  zero_notMem := zero_notMem_encode key.zero_notMem

def ClientData.value (data : ClientData) : Value where
  bytes := encode data.units
  ne_nil := encode_ne_nil data.ne_nil
  zero_notMem := zero_notMem_encode data.zero_notMem

/-- A message one side writes and the other reads: the two requests, and the
reply to a GET that finds `value`. -/
inductive Exchange where
  | setData (key : ClientKey) (data : ClientData)
  | removeData (key : ClientKey)
  | getReply (key : ClientKey) (value : Value)

/-- The whole reply of `route_get`. -/
def getReply (key : Key) (value : Value) : List Byte :=
  digitGet :: bar :: (key.bytes ++ bar :: value.bytes)

/-- The reader gets back what the writer put into the message. -/
def Agrees (heap : Heap) : Exchange → Prop
  | .setData key data =>
      ∃ message, (ClientJs.setData key.units data.units).written = some message ∧
        Parses heap message cmdSet (some key.key.bytes) (some data.value.bytes)
  | .removeData key =>
      ∃ message parsed, (ClientJs.removeData key.units).written = some message ∧
        Parses heap message cmdDelete (some key.key.bytes) parsed
  | .getReply key value =>
      ∃ units, (getData key.units).onEvent (ClientJs.getReply key.key value) =
          some (.string units) ∧
        encode units = value.bytes

/-- A value can be written as text without the separator. -/
def IsPlainText (bytes : List Byte) : Prop := bar ∉ bytes ∧ ∃ chars, bytes = utf8 chars

/-- When it does. -/
def AgreesWhen : Exchange → Prop
  | .setData _ _ => False
  | .removeData key => (key.key.bytes.length + 2 : Int) ≤ intMax
  | .getReply key value => IsWellFormed key.units ∧ IsPlainText value.bytes

/-! ## Requests -/

theorem written_setData (key : ClientKey) (data : ClientData) :
    (setData key.units data.units).written =
      some (digitSet :: bar :: (key.key.bytes ++ bar :: data.value.bytes)) := by
  have hdigit : String.utf8EncodeChar (unitChar unitSet) = [digitSet] := by decide
  have hbar : String.utf8EncodeChar (unitChar unitBar) = [bar] := by decide
  rw [setData, write, encode_cons (by decide), encode_cons (by decide),
    encode_append_cons (by decide) (by decide), hdigit, hbar]
  rfl

theorem written_removeData (key : ClientKey) :
    (removeData key.units).written = some (digitDelete :: bar :: key.key.bytes) := by
  have hdigit : String.utf8EncodeChar (unitChar unitDelete) = [digitDelete] := by decide
  have hbar : String.utf8EncodeChar (unitChar unitBar) = [bar] := by decide
  rw [removeData, write, encode_cons (by decide), encode_cons (by decide), hdigit, hbar]
  rfl

/-- Without a separator behind it, a value loses at least its last byte. -/
theorem length_dataField_lt (key : Key) (value : Value) :
    (dataField (digitSet :: bar :: (key.bytes ++ bar :: value.bytes))).length <
      value.bytes.length := by
  have hpos : 0 < value.bytes.length := List.length_pos_iff.mpr value.ne_nil
  have hwrap := toInt_length_le (digitSet :: bar :: (key.bytes ++ bar :: value.bytes))
  simp only [List.length_cons, List.length_append] at hwrap
  rw [dataField_append_take digitSet_ne bar_ne key.bar_notMem key.zero_notMem]
  calc (text (value.bytes.take _)).length
      ≤ (value.bytes.take _).length := (text_isPrefix _).length_le
    _ ≤ dataSize (digitSet :: bar :: (key.bytes ++ bar :: value.bytes)) :=
        List.length_take_le _ _
    _ < value.bytes.length := by
        rw [dataSize_append _ _ key.bar_notMem]
        simp only [List.length_cons, List.length_append]
        omega

theorem not_agrees_setData {heap : Heap} (hscan : 0 ∈ heap.beyond .receive) (key : ClientKey)
    (data : ClientData) : ¬Agrees heap (.setData key data) := by
  rintro ⟨message, hwritten, hparses⟩
  rw [written_setData, Option.some.injEq] at hwritten
  subst hwritten
  obtain ⟨-, -, -, hdata⟩ := (parses_iff hscan _ _ _).mp hparses
  have hlost := length_dataField_lt key.key data.value
  rw [(some_of_field hdata).2] at hlost
  exact lt_irrefl _ hlost

/-- Without a separator behind it, a key runs to the end of the message. -/
theorem agrees_removeData_iff {heap : Heap} (hscan : 0 ∈ heap.beyond .receive)
    (key : ClientKey) :
    Agrees heap (.removeData key) ↔ (key.key.bytes.length + 2 : Int) ≤ intMax := by
  have hend := keyEnd_of_notMem digitDelete bar key.key.bar_notMem
  have hkey : keyField (digitDelete :: bar :: key.key.bytes) = key.key.bytes := by
    rw [keyField_of_notMem digitDelete_ne bar_ne key.key.bar_notMem,
      text_of_notMem key.key.zero_notMem]
  have hfit : IndexesFit (digitDelete :: bar :: key.key.bytes) ↔
      (key.key.bytes.length + 2 : Int) ≤ intMax := by
    have hpos : 0 < key.key.bytes.length := List.length_pos_iff.mpr key.key.ne_nil
    rw [IndexesFit, hend]
    simp only [List.length_cons]
    omega
  constructor
  · rintro ⟨message, parsed, hwritten, hparses⟩
    rw [written_removeData, Option.some.injEq] at hwritten
    subst hwritten
    exact hfit.mp ((parses_iff hscan _ _ _).mp hparses).1
  · intro hlength
    refine ⟨_, none, written_removeData key, (parses_iff hscan _ _ _).mpr ⟨hfit.mpr hlength, ?_⟩⟩
    refine ⟨rfl, ?_, if_pos (dataField_of_notMem _ _ key.key.bar_notMem)⟩
    rw [hkey, if_neg key.key.ne_nil]

/-! ## Replies -/

/-- What stands before the first separator. -/
def firstField (data : JsString) : JsString := data.takeWhile fun codeUnit => codeUnit != unitBar

theorem bar_notMem_firstField (data : JsString) : unitBar ∉ firstField data := by
  intro hmem
  have hsep := List.mem_takeWhile_imp hmem
  simp at hsep

theorem firstField_of_notMem {data : JsString} (hbar : unitBar ∉ data) :
    firstField data = data := by
  rw [firstField, List.takeWhile_eq_self_iff]
  intro codeUnit hmem
  exact bne_iff_ne.mpr fun heq => hbar (heq ▸ hmem)

theorem fieldAt_split_zero (data : JsString) :
    fieldAt (split data) 0 = .string (firstField data) := by
  by_cases hbar : unitBar ∈ data
  · obtain ⟨field, rest, rfl, hfield⟩ := List.eq_append_cons_of_mem hbar
    have hfirst : firstField (field ++ unitBar :: rest) = field := by
      rw [firstField, List.takeWhile_append_of_pos]
      · simp
      · intro codeUnit hmem
        exact bne_iff_ne.mpr fun heq => hfield (heq ▸ hmem)
    rw [split, List.splitOn_append_cons_self_of_not_mem hfield, hfirst]
    rfl
  · rw [split, List.splitOn_eq_singleton hbar, firstField_of_notMem hbar]
    rfl

theorem bar_mem_rewritten (units : JsString) :
    unitBar ∈ codeUnits (scalars units) ↔ unitBar ∈ units := by
  have hascii : unitBar.toNat < 0x80 := by decide
  rw [← exists_mem_scalars hascii, scalars_codeUnits, exists_mem_scalars hascii]

theorem bufferToString_getReply (key : ClientKey) (value : Value) :
    bufferToString (getReply key.key value) =
      [unitGet] ++ unitBar :: (codeUnits (scalars key.units) ++
        unitBar :: codeUnits (decode value.bytes)) := by
  have hreply : getReply key.key value =
      utf8 ('2' :: '|' :: (scalars key.units ++ ['|'])) ++ value.bytes := by
    simp only [getReply, utf8, List.flatMap_cons, List.flatMap_append, List.flatMap_nil,
      List.append_assoc]
    rfl
  rw [bufferToString, hreply, decode_utf8_append]
  simp only [codeUnits, List.flatMap_cons, List.flatMap_append, List.flatMap_nil,
    List.append_assoc, List.cons_append]
  rfl

theorem split_getReply (key : ClientKey) (value : Value) :
    split (bufferToString (getReply key.key value)) =
      [unitGet] :: codeUnits (scalars key.units) :: split (codeUnits (decode value.bytes)) := by
  have hdigit : unitBar ∉ [unitGet] := by decide
  have hkey : unitBar ∉ codeUnits (scalars key.units) := fun hmem =>
    key.bar_notMem ((bar_mem_rewritten key.units).mp hmem)
  rw [bufferToString_getReply, split, List.splitOn_append_cons_self_of_not_mem hdigit,
    List.splitOn_append_cons_self_of_not_mem hkey]
  rfl

/-- The promise of `getData` resolves for keys without lone surrogates, to the
first field of what the value reads as. -/
theorem onEvent_getReply (key : ClientKey) (value : Value) :
    (getData key.units).onEvent (getReply key.key value) =
      if IsWellFormed key.units then
        some (.string (firstField (codeUnits (decode value.bytes))))
      else none := by
  have hanswers : Answers unitGet key.units (split (bufferToString (getReply key.key value))) ↔
      IsWellFormed key.units := by
    rw [split_getReply]
    constructor
    · intro hanswers
      exact JsValue.string.inj hanswers.2
    · intro hkey
      exact ⟨rfl, congrArg JsValue.string hkey⟩
  have hfield : fieldAt (split (bufferToString (getReply key.key value))) 2 =
      .string (firstField (codeUnits (decode value.bytes))) := by
    rw [split_getReply]
    exact fieldAt_split_zero _
  simp only [getData, hanswers, hfield]

theorem agrees_getReply_iff (heap : Heap) (key : ClientKey) (value : Value) :
    Agrees heap (.getReply key value) ↔ IsWellFormed key.units ∧ IsPlainText value.bytes := by
  rw [Agrees, onEvent_getReply]
  constructor
  · rintro ⟨units, hresolved, hvalue⟩
    by_cases hkey : IsWellFormed key.units
    · rw [if_pos hkey, Option.some.injEq, JsValue.string.injEq] at hresolved
      subst hresolved
      refine ⟨hkey, ?_, _, hvalue.symm⟩
      rw [← hvalue]
      exact bar_notMem_encode (bar_notMem_firstField _)
    · rw [if_neg hkey] at hresolved
      contradiction
  · rintro ⟨hkey, hbar, chars, hvalue⟩
    have hfirst : firstField (codeUnits (decode value.bytes)) = codeUnits chars := by
      rw [hvalue, decode_utf8]
      apply firstField_of_notMem
      intro hmem
      apply hbar
      rw [hvalue, ← encode_codeUnits]
      exact (mem_encode (by decide) _).mpr hmem
    refine ⟨codeUnits chars, ?_, ?_⟩
    · rw [if_pos hkey, hfirst]
    · rw [encode_codeUnits, hvalue]

/-! ## Agreement -/

/-- Client and server never agree on a SET, agree on a DELETE unless its length
overflows an `int`, and on the reply to a GET exactly when key and value are
text and the value holds no separator. -/
theorem agrees_iff (heap : Heap) (hscan : 0 ∈ heap.beyond .receive) (exchange : Exchange) :
    Agrees heap exchange ↔ AgreesWhen exchange := by
  cases exchange with
  | setData key data => exact iff_of_false (not_agrees_setData hscan key data) not_false
  | removeData key => exact agrees_removeData_iff hscan key
  | getReply key value => exact agrees_getReply_iff heap key value

/-- The client's own `removeData("k")`. -/
theorem agrees_iff_remove :
    let key : ClientKey := ⟨[107], by decide, by decide, by decide⟩
    Agrees ⟨fun _ => [0], fun _ => 0⟩ (.removeData key) ↔ AgreesWhen (.removeData key) :=
  agrees_iff _ (by decide) (.removeData _)

/-- `setData("k", "v")` writes `1|k|v`, in which the parser finds no data. -/
theorem setData_loses_value :
    ¬∀ (heap : Heap) (exchange : Exchange), 0 ∈ heap.beyond .receive → Agrees heap exchange := by
  intro hagrees
  have hset := hagrees ⟨fun _ => [0], fun _ => 0⟩
    (.setData ⟨[107], by decide, by decide, by decide⟩ ⟨[118], by decide, by decide⟩) (by decide)
  obtain ⟨message, hwritten, hparses⟩ := hset
  have hmessage : message = [49, 124, 107, 124, 118] := by
    cases hwritten
    decide
  subst hmessage
  have hdata := ((parses_iff (by decide) _ _ _).mp hparses).2.2.2
  revert hdata
  decide

end CcCvStore.ClientJs
