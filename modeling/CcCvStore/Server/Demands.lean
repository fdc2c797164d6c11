import CcCvStore.Core.FirstWrite
import CcCvStore.Server.Framing
import CcCvStore.Server.LoopRefinement
import CcCvStore.Server.MissingFields
import CcCvStore.Server.Replies

/-!
# What messages ask of the map

The history of the writes says what the store holds and what a message is
answered: a `SET` of a key that is present is confirmed and changes nothing, and
the replies to a `GET` are cut short.
-/

namespace CcCvStore.SharedMap

open CcCvStore.Effect
open CcCvStore.CInteger
open CcCvStore.CString
open CcCvStore.Message
open CcCvStore.WireFormat
open CcCvStore.Backend
open CcCvStore.StoreEffects
open CcCvStore.OpenStore
open CcCvStore.WriteHistory
open CcCvStore.Router
open CcCvStore.Replies
open CcCvStore.Requests
open CcCvStore.Framing
open CcCvStore.RequestMemory
open CcCvStore.EventLoop
open CcCvStore.Conversations
open CcCvStore.Runs

abbrev History := List (WriteHistory.Write (List Byte) (List Byte))

/-- What a message asks of the map; nothing for a message that is ignored. -/
inductive Demand where
  | nothing
  | write (change : WriteHistory.Write (List Byte) (List Byte))
  | get (key : List Byte)

def demand (message : List Byte) : Demand :=
  if command message = cmdSet then
    if dataField message = [] then .nothing
    else .write (.put (keyField message) (dataField message))
  else if command message = cmdGet then .get (keyField message)
  else if command message = cmdDelete then .write (.erase (keyField message))
  else .nothing

def Demand.key? : Demand → Option (List Byte)
  | nothing => none
  | write change => some change.key
  | get key => some key

/-- The history after a demand, newest write first. -/
def Demand.after : Demand → History → History
  | write change, history => change :: history
  | _, history => history

/-- The reply to a `GET`: six bytes short of `2|key|value`, and five short of
`2|key|` where there is no value. -/
def getReply (key : List Byte) : Option (List Byte) → List Byte
  | some value => (confirmation digitGet key ++ value).take (key.length + value.length - 3)
  | none => (confirmation digitGet key).take (key.length - 2)

def Demand.reply : Demand → History → List Byte
  | nothing, _ => [48]
  | write (.put key _), _ => confirmation digitSet key
  | write (.erase key), _ => confirmation digitDelete key
  | get key, history => getReply key (kept history key)

/-- The copies `store_update` leaves behind: one for a `SET` that finds a value. -/
def Demand.leaks : Demand → History → Nat
  | write (.put key _), history => if kept history key = none then 0 else 1
  | _, _ => 0

/-! ## Strings of replies -/

variable {heap : Heap} {env : Env} {message : List Byte}

theorem str_formatted (hterminated : heap.Terminated) {msgLen : Int} (hnonneg : 0 ≤ msgLen)
    (hmax : msgLen ≤ intMax) {output : List Byte} (hnul : 0 ∉ output) :
    (formatted heap msgLen output >>= fun data => data.str) =
      .ok (output.take (msgLen.toNat - 1)) := by
  rcases Int.lt_or_eq_of_le hnonneg with hpos | rfl
  · obtain ⟨rest, hformatted⟩ := formatted_of_pos heap hpos hmax output
    have htake : 0 ∉ output.take (msgLen.toNat - 1) := fun hmem => hnul (List.mem_of_mem_take hmem)
    rw [hformatted, ok_bind, str_of_mem (by simp [Buf.memory])]
    rw [Buf.memory, List.append_assoc, List.cons_append, text_append_nul htake]
  · obtain ⟨rest, hrest⟩ := hterminated .reply
    rw [formatted_zero, ok_bind, str_of_mem (by simp [Buf.memory, hrest])]
    rw [Buf.memory, hrest]
    rfl

/-- A reply has room for a key and what surrounds it. -/
theorem room_of_le {length : Nat} (hlength : length ≤ suggestedSize) :
    (length + 4 : Int) ≤ intMax := by
  simp only [suggestedSize, intMax] at *
  omega

theorem str_confirmation (hterminated : heap.Terminated) {digit : Byte} (hdigit : digit ≠ 0)
    {key : List Byte} (hnul : 0 ∉ key) (hlength : (key.length + 4 : Int) ≤ intMax) :
    (formatted heap (toInt (key.length + 4)) (confirmation digit key) >>=
      fun data => data.str) = .ok (confirmation digit key) := by
  have hsize : toInt (key.length + 4) = key.length + 4 :=
    toInt_of_range (by simp only [intMin]; omega) hlength
  rw [hsize, str_formatted hterminated (by omega) hlength
    (zero_notMem_confirmation hdigit hnul), List.take_of_length_le]
  rw [length_confirmation]
  omega

theorem length_confirmation_lt (digit : Byte) {key : List Byte}
    (hlength : key.length ≤ suggestedSize) : (confirmation digit key).length < 4294967296 := by
  rw [length_confirmation]
  simp only [suggestedSize] at hlength
  omega

theorem length_getReply_lt {key : List Byte} (hkey : key.length ≤ suggestedSize)
    {found : Option (List Byte)} (hfound : ∀ value ∈ found, value.length ≤ suggestedSize) :
    (getReply key found).length < 4294967296 := by
  cases found with
  | none =>
      rw [getReply]
      exact Nat.lt_of_le_of_lt (List.length_take_le' _ _) (length_confirmation_lt _ hkey)
  | some value =>
      have hvalue := hfound value rfl
      rw [getReply]
      refine Nat.lt_of_le_of_lt (List.length_take_le _ _) ?_
      simp only [suggestedSize] at hkey hvalue
      omega

theorem str_getReply_none (hterminated : heap.Terminated) {key : List Byte} (hnul : 0 ∉ key)
    (hpos : 0 < key.length) (hlength : key.length ≤ suggestedSize) :
    (formatted heap (toInt (key.length - 1)) (confirmation digitGet key) >>=
      fun data => data.str) = .ok (getReply key none) := by
  have hmax : (key.length - 1 : Int) ≤ intMax := by
    have hroom := room_of_le hlength
    omega
  have hsize : toInt (key.length - 1) = key.length - 1 :=
    toInt_of_range (by simp only [intMin]; omega) hmax
  have htake : (key.length - 1 : Int).toNat - 1 = key.length - 2 := by omega
  rw [hsize, str_formatted hterminated (by omega) hmax (zero_notMem_confirmation digitGet_ne hnul),
    htake, getReply]

theorem str_getReply_some (hterminated : heap.Terminated) {key value : List Byte}
    (hkeyNul : 0 ∉ key) (hkeyPos : 0 < key.length) (hkeyLength : key.length ≤ suggestedSize)
    (hvalueNul : 0 ∉ value) (hvaluePos : 0 < value.length)
    (hvalueLength : value.length ≤ suggestedSize) :
    (formatted heap (toInt (key.length + value.length - 2))
        (confirmation digitGet key ++ value) >>= fun data => data.str) =
      .ok (getReply key (some value)) := by
  have hmax : (key.length + value.length - 2 : Int) ≤ intMax := by
    simp only [suggestedSize, intMax] at *
    omega
  have hsize : toInt (key.length + value.length - 2) = key.length + value.length - 2 :=
    toInt_of_range (by simp only [intMin]; omega) hmax
  have htake : (key.length + value.length - 2 : Int).toNat - 1 =
      key.length + value.length - 3 := by omega
  have hnul : 0 ∉ confirmation digitGet key ++ value := by
    rw [List.mem_append, not_or]
    exact ⟨zero_notMem_confirmation digitGet_ne hkeyNul, hvalueNul⟩
  rw [hsize, str_formatted hterminated (by omega) hmax hnul, htake, getReply]

/-! ## Requests on a store that holds a history -/

/-- A value that a `SET` can carry. -/
structure Storable (value : List Byte) : Prop where
  ne_nil : value ≠ []
  notMem : 0 ∉ value
  length_le : value.length ≤ suggestedSize

/-- The rows of the store are what the history has kept. -/
structure Holding (store : Store) (table : DataTable) (history : History) : Prop where
  ready : Ready store table
  lookup : ∀ key, table.lookup key = (kept history key).map .blob
  storable : ∀ key value, .put key value ∈ history → Storable value

namespace Holding

variable {store : Store} {table : DataTable} {history : History} {key value : List Byte}

/-- An empty table holds what was never written. -/
theorem of_empty (hready : Ready store ∅) : Holding store ∅ [] where
  ready := hready
  lookup := AList.lookup_empty
  storable := nofun

theorem storable_kept (hholding : Holding store table history)
    (hkept : kept history key = some value) : Storable value :=
  hholding.storable key value (mem_of_kept hkept)

theorem select (hholding : Holding store table history) (hkey : (key.length : Int) ≤ intMax) :
    lookupData store Outcomes.ok.select key = (kept history key).map .blob := by
  rw [lookupData_ready hholding.ready _ hkey, ← hholding.lookup]
  exact if_pos ⟨rfl, rfl, rfl⟩

/-- A `SET` adds its write to the history, whether the key is new or not. -/
theorem set (hholding : Holding store table history) (hkey : (key.length : Int) ≤ intMax)
    (hvalue : Storable value) :
    ∃ after, Holding (setResult store .ok key value).2 after (.put key value :: history) := by
  have hstorable : ∀ other content,
      .put other content ∈ WriteHistory.Write.put key value :: history → Storable content := by
    intro other content hmem
    rcases List.mem_cons.mp hmem with heq | hmem
    · cases heq
      exact hvalue
    · exact hholding.storable other content hmem
  cases hkept : kept history key with
  | some present =>
      have hold : table.lookup key = some (.blob present) := by
        rw [hholding.lookup, hkept]
        rfl
      rw [setResult_old hholding.ready hkey hold]
      refine ⟨table, hholding.ready, ?_, hstorable⟩
      rw [kept_put_present hkept]
      exact hholding.lookup
  | none =>
      have hnew : key ∉ table := by
        rw [← AList.lookup_eq_none, hholding.lookup, hkept]
        rfl
      rw [setResult_new hholding.ready hkey (le_intMax_of_le hvalue.length_le) hnew]
      refine ⟨_, hholding.ready.setTable _, ?_, hstorable⟩
      intro other
      rw [kept_put]
      split
      next hself => rw [hself, AList.lookup_insert, hkept, Option.none_or, Option.map_some]
      next hother => rw [AList.lookup_insert_ne hother, hholding.lookup]

theorem delete (hholding : Holding store table history) (hkey : (key.length : Int) ≤ intMax) :
    ∃ after, Holding (removeResult store .ok key).2 after (.erase key :: history) := by
  rw [removeResult_ok hholding.ready hkey]
  refine ⟨_, hholding.ready.setTable _, ?_, ?_⟩
  · intro other
    rw [kept_erase]
    split
    next hself => rw [hself, AList.lookup_erase, Option.map_none]
    next hother => rw [AList.lookup_erase_ne hother, hholding.lookup]
  · intro other content hmem
    rcases List.mem_cons.mp hmem with heq | hmem
    · contradiction
    · exact hholding.storable other content hmem

end Holding

/-- A message that the server can be expected to handle: SQLite does its part,
memory past an allocation starts with a NUL, and what is asked has a key. -/
structure Proper (env : Env) (message : List Byte) : Prop where
  terminated : env.heap.Terminated
  outcomes : env.outcomes = .ok
  length_le : message.length ≤ suggestedSize
  keyed : (demand message).key? ≠ some []

/-- What becomes of one message: its reply, of a length that fits an `unsigned
int`, and the history it leaves. -/
structure Handled (env : Env) (message : List Byte) (session : Session) (history : History) :
    Prop where
  reply : routed env message session = .ok ((demand message).reply history)
  length_lt : ((demand message).reply history).length < 4294967296
  holding : ∃ after, Holding (router env (env.heap.received message) session).2.store after
    ((demand message).after history)

namespace Proper

variable {session : Session} {table : DataTable} {history : History}

theorem indexesFit (hproper : Proper env message) : IndexesFit message :=
  indexesFit_of_le (le_intMax_of_le hproper.length_le)

theorem length_key_le (hproper : Proper env message) (hkey : keyField message ≠ []) :
    (keyField message).length ≤ suggestedSize := by
  obtain ⟨hlength, hend⟩ := length_keyField_le hkey
  have hmessage := hproper.length_le
  omega

theorem storable_data (hproper : Proper env message) (hdata : dataField message ≠ []) :
    Storable (dataField message) where
  ne_nil := hdata
  notMem := zero_notMem_window _ _ _
  length_le := by
    have hwindow : (dataField message).length ≤ dataSize message := length_window_le _ _ _
    have hsize := dataSize_le message
    have hmessage := hproper.length_le
    omega

theorem key_ne_nil (hproper : Proper env message)
    (hdemand : (demand message).key? = some (keyField message)) : keyField message ≠ [] := by
  intro hnil
  rw [hnil] at hdemand
  exact hproper.keyed hdemand

theorem handled_set (hproper : Proper env message)
    (hholding : Holding session.store table history) (hcmd : command message = cmdSet)
    (hdata : dataField message ≠ []) : Handled env message session history := by
  have hdemand : demand message = .write (.put (keyField message) (dataField message)) := by
    rw [demand, if_pos hcmd, if_neg hdata]
  have hkey : keyField message ≠ [] := hproper.key_ne_nil (congrArg Demand.key? hdemand)
  have hlength := hproper.length_key_le hkey
  have hrouter := router_set hproper.terminated.scansEnd hproper.indexesFit hcmd hkey hdata session
  rw [visibleKey_of_terminated hproper.terminated, visibleData_of_terminated hproper.terminated,
    hproper.outcomes] at hrouter
  refine ⟨?_, ?_, ?_⟩
  · have hnul : 0 ∉ keyField message := zero_notMem_window _ _ _
    have hreply := str_confirmation hproper.terminated digitSet_ne hnul (room_of_le hlength)
    rw [routed, hrouter, hdemand]
    dsimp only
    rw [hreply]
    rfl
  · rw [hdemand]
    exact length_confirmation_lt digitSet hlength
  · rw [hrouter, hdemand]
    exact hholding.set (le_intMax_of_le hlength) (hproper.storable_data hdata)

theorem handled_delete (hproper : Proper env message)
    (hholding : Holding session.store table history) (hcmd : command message = cmdDelete) :
    Handled env message session history := by
  have hdemand : demand message = .write (.erase (keyField message)) := by
    rw [demand, hcmd]
    rfl
  have hkey : keyField message ≠ [] := hproper.key_ne_nil (congrArg Demand.key? hdemand)
  have hlength := hproper.length_key_le hkey
  have hrouter := router_delete hproper.terminated.scansEnd hproper.indexesFit hcmd hkey session
  rw [visibleKey_of_terminated hproper.terminated, hproper.outcomes] at hrouter
  refine ⟨?_, ?_, ?_⟩
  · have hnul : 0 ∉ keyField message := zero_notMem_window _ _ _
    have hreply := str_confirmation hproper.terminated digitDelete_ne hnul (room_of_le hlength)
    rw [routed, hrouter, hdemand]
    dsimp only
    rw [hreply]
    rfl
  · rw [hdemand]
    exact length_confirmation_lt digitDelete hlength
  · rw [hrouter, hdemand]
    exact hholding.delete (le_intMax_of_le hlength)

theorem handled_get (hproper : Proper env message)
    (hholding : Holding session.store table history) (hcmd : command message = cmdGet) :
    Handled env message session history := by
  have hdemand : demand message = .get (keyField message) := by
    rw [demand, hcmd]
    rfl
  have hkey : keyField message ≠ [] := hproper.key_ne_nil (congrArg Demand.key? hdemand)
  have hlength := hproper.length_key_le hkey
  have hpos := List.length_pos_of_ne_nil hkey
  have hnul : 0 ∉ keyField message := zero_notMem_window _ _ _
  have hselect := hholding.select (le_intMax_of_le hlength)
  have hscan := hproper.terminated.scansEnd
  have hvisible := visibleKey_of_terminated hproper.terminated message
  have hfound : ∀ value ∈ kept history (keyField message), value.length ≤ suggestedSize :=
    fun _ hkept => (hholding.storable_kept hkept).length_le
  have hshort := length_getReply_lt hlength hfound
  cases hkept : kept history (keyField message) with
  | none =>
      rw [hkept, Option.map_none, ← hvisible, ← hproper.outcomes] at hselect
      have hrouter := router_get_none hscan hproper.indexesFit hcmd hkey hselect
      rw [hvisible, hholding.ready.used] at hrouter
      refine ⟨?_, ?_, ?_⟩
      · have hreply := str_getReply_none hproper.terminated hnul hpos hlength
        rw [routed, hrouter, hdemand, Demand.reply, hkept]
        exact hreply
      · rw [hdemand]
        exact hshort
      · rw [hrouter, hdemand]
        exact ⟨table, hholding⟩
  | some value =>
      have hvalue := hholding.storable_kept hkept
      rw [hkept, Option.map_some, ← hvisible, ← hproper.outcomes] at hselect
      have hrouter := router_get_some hscan hproper.indexesFit hcmd hkey hselect
      obtain ⟨rest, hrest⟩ := hproper.terminated .value
      have hseen : visibleValue env.heap (.blob value) = value := by
        rw [visibleValue, hrest]
        exact text_append_nul hvalue.notMem rest
      rw [hvisible, hseen, hholding.ready.used] at hrouter
      refine ⟨?_, ?_, ?_⟩
      · have hreply := str_getReply_some hproper.terminated hnul hpos hlength hvalue.notMem
          (List.length_pos_of_ne_nil hvalue.ne_nil) hvalue.length_le
        rw [routed, hrouter, hdemand, Demand.reply, hkept]
        exact hreply
      · rw [hdemand]
        exact hshort
      · rw [hrouter, hdemand]
        exact ⟨table, hholding⟩

theorem handled_nothing (hproper : Proper env message)
    (hholding : Holding session.store table history) (hignored : Ignored message) :
    Handled env message session history := by
  have hdemand : demand message = .nothing := by
    rcases hignored with ⟨hcmd, hdata⟩ | ⟨hset, hget, hdelete⟩
    · rw [demand, if_pos hcmd, if_pos hdata]
    · rw [demand, if_neg hset, if_neg hget, if_neg hdelete]
  have hscan := hproper.terminated.scansEnd
  have hrouter : router env (env.heap.received message) session =
      (zeroReply env.heap, session) := by
    rw [router_received env (List.mem_append_right _ (hscan _)) hproper.indexesFit,
      respond_ignored hignored]
  obtain ⟨rest, hzero⟩ := MissingFields.zeroReply_eq (hscan .reply)
  refine ⟨?_, ?_, ?_⟩
  · rw [routed, hrouter, hzero, hdemand]
    rfl
  · rw [hdemand]
    exact (by decide : 1 < 4294967296)
  · rw [hrouter, hdemand]
    exact ⟨table, hholding⟩

theorem handled (hproper : Proper env message) (hholding : Holding session.store table history) :
    Handled env message session history := by
  by_cases hset : command message = cmdSet
  · by_cases hdata : dataField message = []
    · exact hproper.handled_nothing hholding (.inl ⟨hset, hdata⟩)
    · exact hproper.handled_set hholding hset hdata
  by_cases hget : command message = cmdGet
  · exact hproper.handled_get hholding hget
  by_cases hdelete : command message = cmdDelete
  · exact hproper.handled_delete hholding hdelete
  · exact hproper.handled_nothing hholding (.inr ⟨hset, hget, hdelete⟩)

/-- Only a `SET` that finds a value leaves a copy of it behind. -/
theorem lostIn_eq (hproper : Proper env message) (hholding : Holding session.store table history) :
    lostIn env (env.heap.received message) session.store =
      (demand message).leaks history := by
  have hscan := hproper.terminated.scansEnd
  have hparse := parseClientMsg_eq (List.mem_append_right message (hscan .receive))
    hproper.indexesFit
  rw [lostIn, hparse]
  dsimp only
  by_cases hset : command message = cmdSet
  · by_cases hdata : dataField message = []
    · have hnone := (data_eq_none_iff env.heap message).mpr hdata
      rw [lostBy, if_neg (fun hwrite => hwrite.2 hnone), demand, if_pos hset, if_pos hdata]
      rfl
    have hdemand : demand message = .write (.put (keyField message) (dataField message)) := by
      rw [demand, if_pos hset, if_neg hdata]
    have hkey : keyField message ≠ [] := hproper.key_ne_nil (congrArg Demand.key? hdemand)
    have hwrites : (parsedTask env.heap message).data ≠ none :=
      fun hnone => hdata ((data_eq_none_iff env.heap message).mp hnone)
    have hstr := str_key hkey (.inr (hscan .key))
    rw [visibleKey_of_terminated hproper.terminated] at hstr
    have hget := storeGet_of_str Outcomes.ok.select (env.heap.beyond .value) hstr session.store
    rw [hholding.select (le_intMax_of_le (hproper.length_key_le hkey)), hholding.ready.used] at hget
    have hagain : storeGet Outcomes.ok.reselect (env.heap.beyond .value)
        (parsedTask env.heap message).key session.store = _ := hget
    rw [lostBy, if_pos ⟨hset, hwrites⟩, copiesLeft, hproper.outcomes, hget, hdemand, Demand.leaks]
    cases hkept : kept history (keyField message) with
    | none => rfl
    | some value =>
        rw [hkept] at hagain
        simp only [Option.map_some, hagain]
        rfl
  · rw [lostBy_of_ne hset, demand, if_neg hset]
    split_ifs <;> rfl

end Proper

end CcCvStore.SharedMap
