import CcCvStore.Client.ClientJs
import CcCvStore.Server.Router

/-!
# The promises of the client

Every call of a method adds a listener that stays for good and hears each piece
of data.  Only the first two fields of a piece count, so one piece settles the
promises of one key and method at most, and a `GET` is answered by nothing that
begins with another digit.
-/

namespace CcCvStore.Promises

open CcCvStore.CString
open CcCvStore.Message
open CcCvStore.Router
open CcCvStore.Unicode
open CcCvStore.ClientJs

inductive Method where
  | setData (key data : JsString)
  | removeData (key : JsString)
  | getData (key : JsString)
  deriving DecidableEq

namespace Method

def call : Method → Call
  | setData key data => ClientJs.setData key data
  | removeData key => ClientJs.removeData key
  | getData key => ClientJs.getData key

/-- The digit and the key that a reply must begin with. -/
def awaits : Method → UInt16 × JsString
  | setData key _ => (unitSet, key)
  | removeData key => (unitDelete, key)
  | getData key => (unitGet, key)

end Method

structure Promise where
  method : Method
  settled : Option JsValue
  deriving DecidableEq

def Promise.pending (method : Method) : Promise := ⟨method, none⟩

/-- A listener hears some bytes; `resolve` works only once. -/
def Promise.hear (binData : List Byte) (promise : Promise) : Promise :=
  { promise with settled := promise.settled.or (promise.method.call.onEvent binData) }

/-! ## The first fields of a piece of data -/

/-- A digit as it is sent and as it is read. -/
structure Spells (digit : Byte) (unit : UInt16) : Prop where
  bytes_eq : String.utf8EncodeChar (unitChar unit) = [digit]
  units_eq : charUnits (unitChar unit) = [unit]
  ne_bar : unitBar ≠ unit

theorem spells_set : Spells digitSet unitSet := ⟨by decide, by decide, by decide⟩
theorem spells_delete : Spells digitDelete unitDelete := ⟨by decide, by decide, by decide⟩
theorem spells_zero : Spells 48 48 := ⟨by decide, by decide, by decide⟩

theorem hear_of_onEvent_eq_none {promise : Promise} {binData : List Byte}
    (hnone : promise.method.call.onEvent binData = none) : promise.hear binData = promise := by
  rw [Promise.hear, hnone, Option.or_none]

theorem bufferToString_cons {digit : Byte} {unit : UInt16} (hspells : Spells digit unit)
    (rest : List Byte) : bufferToString (digit :: rest) = unit :: bufferToString rest := by
  have hbytes : digit :: rest = String.utf8EncodeChar (unitChar unit) ++ rest := by
    rw [hspells.bytes_eq]
    rfl
  rw [bufferToString, hbytes, decode_utf8EncodeChar_append, codeUnits, List.flatMap_cons,
    hspells.units_eq]
  rfl

/-- What begins with a digit has a first field that does. -/
theorem firstField_bufferToString {digit : Byte} {unit : UInt16} (hspells : Spells digit unit)
    (rest : List Byte) :
    fieldAt (split (bufferToString (digit :: rest))) 0 =
      .string (unit :: firstField (bufferToString rest)) := by
  have hkeeps : (unit != unitBar) = true := bne_iff_ne.mpr hspells.ne_bar.symm
  rw [fieldAt_split_zero, bufferToString_cons hspells, firstField, List.takeWhile_cons, hkeeps,
    if_pos rfl]
  rfl

/-- A piece that begins with one digit answers no method that awaits another. -/
theorem hear_of_digit {digit : Byte} {unit : UInt16} (hspells : Spells digit unit)
    {promise : Promise} (hother : promise.method.awaits.1 ≠ unit) (rest : List Byte) :
    promise.hear (digit :: rest) = promise := by
  have hsilent : ∀ key, ¬Answers promise.method.awaits.1 key
      (split (bufferToString (digit :: rest))) := by
    intro key hanswers
    have hfirst := hanswers.1
    rw [firstField_bufferToString hspells] at hfirst
    exact hother (List.cons.inj (JsValue.string.inj hfirst)).1.symm
  have hnone : promise.method.call.onEvent (digit :: rest) = none := by
    revert hsilent
    cases promise.method with
    | setData key data => exact fun hsilent => if_neg (hsilent key)
    | removeData key => exact fun hsilent => if_neg (hsilent key)
    | getData key => exact fun hsilent => if_neg (hsilent key)
  exact hear_of_onEvent_eq_none hnone

/-- Promises that one piece of data settles have waited for the same. -/
theorem awaits_of_onEvent {first second : Method} {binData : List Byte}
    (hfirst : first.call.onEvent binData ≠ none) (hsecond : second.call.onEvent binData ≠ none) :
    first.awaits = second.awaits := by
  have hanswers : ∀ method : Method, method.call.onEvent binData ≠ none →
      Answers method.awaits.1 method.awaits.2 (split (bufferToString binData)) := by
    intro method hsome
    by_contra hsilent
    apply hsome
    cases method with
    | setData key data => exact if_neg hsilent
    | removeData key => exact if_neg hsilent
    | getData key => exact if_neg hsilent
  have hleft := hanswers first hfirst
  have hright := hanswers second hsecond
  apply Prod.ext
  · exact List.singleton_inj.mp (JsValue.string.inj (hleft.1.symm.trans hright.1))
  · exact JsValue.string.inj (hleft.2.symm.trans hright.2)

def Promise.isSettled (promise : Promise) : Bool := promise.settled.isSome

/-- Among promises that wait for different replies, a piece of data settles one
at most. -/
theorem countP_hear_le {promises : List Promise}
    (hdistinct : (promises.map fun promise => promise.method.awaits).Nodup)
    (binData : List Byte) :
    (promises.map (Promise.hear binData)).countP Promise.isSettled ≤
      promises.countP Promise.isSettled + 1 := by
  induction promises with
  | nil => exact Nat.zero_le _
  | cons promise rest ih =>
      rw [List.map_cons, List.nodup_cons] at hdistinct
      rw [List.map_cons, List.countP_cons, List.countP_cons]
      by_cases hnone : promise.method.call.onEvent binData = none
      · rw [hear_of_onEvent_eq_none hnone]
        have hrest := ih hdistinct.2
        omega
      · have hsilent : ∀ other ∈ rest, other.hear binData = other := by
          intro other hother
          apply hear_of_onEvent_eq_none
          by_contra hsome
          have hawaits := awaits_of_onEvent hsome hnone
          exact hdistinct.1 (List.mem_map.mpr ⟨other, hother, hawaits⟩)
        rw [List.map_congr_left hsilent, List.map_id']
        split <;> split <;> omega

/-! ## Confirmations -/

/-- The fields of a piece that begins with a confirmation. -/
theorem split_confirmation {digit : Byte} {unit : UInt16} (hspells : Spells digit unit)
    (key : ClientKey) (rest : List Byte) :
    split (bufferToString (confirmation digit key.key.bytes ++ rest)) =
      [unit] :: codeUnits (scalars key.units) :: split (bufferToString rest) := by
  have hpiece : confirmation digit key.key.bytes ++ rest =
      digit :: (utf8 ('|' :: (scalars key.units ++ ['|'])) ++ rest) := by
    simp only [confirmation, utf8, List.flatMap_cons, List.flatMap_append, List.flatMap_nil,
      List.append_assoc, List.cons_append]
    rfl
  have hread : bufferToString (utf8 ('|' :: (scalars key.units ++ ['|'])) ++ rest) =
      unitBar :: (codeUnits (scalars key.units) ++ unitBar :: bufferToString rest) := by
    rw [bufferToString, decode_utf8_append]
    simp only [codeUnits, List.flatMap_cons, List.flatMap_append, List.flatMap_nil,
      List.append_assoc, List.cons_append]
    rfl
  have hdigit : unitBar ∉ [unit] := fun hmem => hspells.ne_bar (List.mem_singleton.mp hmem)
  have hkey : unitBar ∉ codeUnits (scalars key.units) := fun hmem =>
    key.bar_notMem ((bar_mem_rewritten key.units).mp hmem)
  have hsplit := List.splitOn_append_cons_self_of_not_mem hdigit
    (codeUnits (scalars key.units) ++ unitBar :: bufferToString rest)
  rw [hpiece, bufferToString_cons hspells, hread, split]
  refine hsplit.trans (congrArg _ ?_)
  exact List.splitOn_append_cons_self_of_not_mem hkey _

/-- A call with a key that the server's reply can name. -/
inductive Update where
  | set (key : ClientKey) (data : ClientData)
  | remove (key : ClientKey)

namespace Update

def method : Update → Method
  | set key data => .setData key.units data.units
  | remove key => .removeData key.units

def key : Update → ClientKey
  | set key _ => key
  | remove key => key

def digit : Update → Byte
  | set _ _ => digitSet
  | remove _ => digitDelete

/-- What its promise should settle to; the third field of `3|key|` is empty. -/
def result : Update → JsValue
  | set _ _ => .true
  | remove _ => .string []

def message : Update → List Byte
  | set key data => digitSet :: bar :: (key.key.bytes ++ bar :: data.value.bytes)
  | remove key => digitDelete :: bar :: key.key.bytes

/-- What the server should answer. -/
def reply (update : Update) : List Byte := confirmation update.digit update.key.key.bytes

def pending (update : Update) : Promise := .pending update.method

def answered (update : Update) : Promise := ⟨update.method, some update.result⟩

theorem written_eq (update : Update) : update.method.call.written = some update.message := by
  cases update with
  | set key data => exact written_setData key data
  | remove key => exact written_removeData key

theorem message_ne_nil (update : Update) : update.message ≠ [] := by
  cases update <;> exact List.cons_ne_nil _ _

/-- A call is answered by the confirmation of its key. -/
theorem hear_reply (update : Update) (hkey : IsWellFormed update.key.units) :
    update.pending.hear update.reply = update.answered := by
  have hunits : codeUnits (scalars update.key.units) = update.key.units := hkey
  cases update with
  | set key data =>
      have hsplit := split_confirmation spells_set key []
      rw [List.append_nil] at hsplit
      have hevent : (ClientJs.setData key.units data.units).onEvent
          (confirmation digitSet key.key.bytes) = some .true := by
        refine if_pos ?_
        rw [hsplit]
        exact ⟨rfl, congrArg JsValue.string hunits⟩
      exact congrArg (Promise.mk _) hevent
  | remove key =>
      have hsplit := split_confirmation spells_delete key []
      rw [List.append_nil] at hsplit
      have hanswers : Answers unitDelete key.units
          (split (bufferToString (confirmation digitDelete key.key.bytes))) := by
        rw [hsplit]
        exact ⟨rfl, congrArg JsValue.string hunits⟩
      have hfield : fieldAt (split (bufferToString (confirmation digitDelete key.key.bytes))) 2 =
          .string [] := by
        rw [hsplit, bufferToString, decode]
        rfl
      have hevent : (ClientJs.removeData key.units).onEvent
          (confirmation digitDelete key.key.bytes) = some (.string []) :=
        (if_pos hanswers).trans (congrArg some hfield)
      exact congrArg (Promise.mk _) hevent

end Update

end CcCvStore.Promises
