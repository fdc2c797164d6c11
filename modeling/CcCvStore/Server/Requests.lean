import CcCvStore.Parser.WireFormat
import CcCvStore.Server.Router

/-!
# The router on received messages

What a message makes the router do, in terms of the fields the parser finds in
it and of the strings that scans find behind them.
-/

namespace CcCvStore.Requests

open CcCvStore.Effect
open CcCvStore.CInteger
open CcCvStore.CString
open CcCvStore.StrSlice
open CcCvStore.Message
open CcCvStore.WireFormat
open CcCvStore.Backend
open CcCvStore.StoreEffects
open CcCvStore.Router

/-- When a NUL ends the scan of the read buffer, the router handles the task of
the message. -/
theorem router_received (env : Env) {message : List Byte}
    (hnul : 0 ∈ message ++ env.heap.beyond .receive) (hfit : IndexesFit message) :
    router env (env.heap.received message) = respond env (parsedTask env.heap message) := by
  rw [router, parseClientMsg_eq hnul hfit]
  rfl

theorem router_overflow (env : Env) {message : List Byte}
    (hnul : 0 ∈ message ++ env.heap.beyond .receive) (hfit : ¬IndexesFit message)
    (session : Session) :
    router env (env.heap.received message) session = (.error .intOverflow, session) := by
  rw [router, parseClientMsg_eq_error hnul hfit]
  rfl

/-! ## The fields as strings -/

/-- The key a scan finds, which may run on behind its block. -/
def visibleKey (heap : Heap) (message : List Byte) : List Byte :=
  visible (keyField message) (keyEnd message - 2) (heap.beyond .key)

def visibleData (heap : Heap) (message : List Byte) : List Byte :=
  visible (dataField message) (dataSize message) (heap.beyond .data)

theorem key_eq_none_iff (heap : Heap) (message : List Byte) :
    (parsedTask heap message).key = none ↔ keyField message = [] := by
  simp [parsedTask, sliced]

theorem data_eq_none_iff (heap : Heap) (message : List Byte) :
    (parsedTask heap message).data = none ↔ dataField message = [] := by
  simp [parsedTask, sliced]

theorem str_key {heap : Heap} {message : List Byte} (hne : keyField message ≠ [])
    (hends : (keyField message).length < keyEnd message - 2 ∨ 0 ∈ heap.beyond .key) :
    (parsedTask heap message).key.str = .ok (visibleKey heap message) :=
  str_sliced hne (zero_notMem_window _ _ _) (length_window_le _ _ _) hends

theorem str_data {heap : Heap} {message : List Byte} (hne : dataField message ≠ [])
    (hends : (dataField message).length < dataSize message ∨ 0 ∈ heap.beyond .data) :
    (parsedTask heap message).data.str = .ok (visibleData heap message) :=
  str_sliced hne (zero_notMem_window _ _ _) (length_window_le _ _ _) hends

theorem seen_sliced {content : List Byte} (hnul : 0 ∉ content) {size : Nat}
    (hlength : content.length ≤ size) (beyond : List Byte) :
    seen (sliced content size beyond) =
      if content = [] then none else some (visible content size beyond) := by
  by_cases hnil : content = []
  · rw [if_pos hnil, hnil, sliced_nil]
    rfl
  · rw [if_neg hnil, sliced_of_ne hnil, seen, Option.map_some, Buf.memory,
      text_padded_append hnul hlength]

theorem seen_key (heap : Heap) (message : List Byte) :
    seen (parsedTask heap message).key =
      if keyField message = [] then none else some (visibleKey heap message) :=
  seen_sliced (zero_notMem_window _ _ _) (length_window_le _ _ _) _

theorem seen_data (heap : Heap) (message : List Byte) :
    seen (parsedTask heap message).data =
      if dataField message = [] then none else some (visibleData heap message) :=
  seen_sliced (zero_notMem_window _ _ _) (length_window_le _ _ _) _

theorem visibleKey_of_terminated {heap : Heap} (hterminated : heap.Terminated)
    (message : List Byte) : visibleKey heap message = keyField message :=
  visible_of_terminated _ _ (hterminated .key)

theorem visibleData_of_terminated {heap : Heap} (hterminated : heap.Terminated)
    (message : List Byte) : visibleData heap message = dataField message :=
  visible_of_terminated _ _ (hterminated .data)

/-! ## Messages with their fields -/

variable {env : Env} {message : List Byte}

/-- A `SET` with key and data. -/
theorem router_set (hscan : env.heap.ScansEnd) (hfit : IndexesFit message)
    (hcmd : command message = cmdSet) (hkey : keyField message ≠ [])
    (hdata : dataField message ≠ []) (session : Session) :
    router env (env.heap.received message) session =
      (formatted env.heap (toInt ((visibleKey env.heap message).length + 4))
          (confirmation digitSet (visibleKey env.heap message)),
        { store := (setResult session.store env.outcomes (visibleKey env.heap message)
            (visibleData env.heap message)).2
          ops := session.ops ++ [.set (some (visibleKey env.heap message))
            (some (visibleData env.heap message))] }) := by
  have hnul : 0 ∈ message ++ env.heap.beyond .receive := List.mem_append_right _ (hscan _)
  rw [router_received env hnul hfit,
    respond_set env _ hcmd (str_key hkey (.inr (hscan _))) (str_data hdata (.inr (hscan _))),
    seen_key, seen_data, if_neg hkey, if_neg hdata]

theorem router_delete (hscan : env.heap.ScansEnd) (hfit : IndexesFit message)
    (hcmd : command message = cmdDelete) (hkey : keyField message ≠ []) (session : Session) :
    router env (env.heap.received message) session =
      (formatted env.heap (toInt ((visibleKey env.heap message).length + 4))
          (confirmation digitDelete (visibleKey env.heap message)),
        { store := (removeResult session.store env.outcomes.delete
            (visibleKey env.heap message)).2
          ops := session.ops ++ [.delete (some (visibleKey env.heap message))] }) := by
  have hnul : 0 ∈ message ++ env.heap.beyond .receive := List.mem_append_right _ (hscan _)
  rw [router_received env hnul hfit,
    respond_delete env _ hcmd (str_key hkey (.inr (hscan _))), seen_key, if_neg hkey]

/-- The string behind the copy of a stored value. -/
def visibleValue (heap : Heap) (data : SqlValue) : List Byte :=
  text (columnBlob data ++ heap.beyond .value)

theorem router_get_some (hscan : env.heap.ScansEnd) (hfit : IndexesFit message)
    (hcmd : command message = cmdGet) (hkey : keyField message ≠ []) {session : Session}
    {data : SqlValue}
    (hdata : lookupData session.store env.outcomes.select (visibleKey env.heap message) =
      some data) :
    router env (env.heap.received message) session =
      (formatted env.heap (toInt ((visibleKey env.heap message).length +
            (visibleValue env.heap data).length - 2))
          (confirmation digitGet (visibleKey env.heap message) ++ visibleValue env.heap data),
        { store := used session.store
          ops := session.ops ++ [.get (some (visibleKey env.heap message))] }) := by
  have hnul : 0 ∈ message ++ env.heap.beyond .receive := List.mem_append_right _ (hscan _)
  have hval : Ptr.str (some ⟨columnBlob data, env.heap.beyond .value⟩) =
      .ok (visibleValue env.heap data) := str_of_mem (List.mem_append_right _ (hscan _))
  rw [router_received env hnul hfit,
    respond_get_some env _ hcmd (str_key hkey (.inr (hscan _))) hdata hval, seen_key, if_neg hkey]

theorem router_get_none (hscan : env.heap.ScansEnd) (hfit : IndexesFit message)
    (hcmd : command message = cmdGet) (hkey : keyField message ≠ []) {session : Session}
    (hdata : lookupData session.store env.outcomes.select (visibleKey env.heap message) =
      none) :
    router env (env.heap.received message) session =
      (formatted env.heap (toInt ((visibleKey env.heap message).length - 1))
          (confirmation digitGet (visibleKey env.heap message)),
        { store := used session.store
          ops := session.ops ++ [.get (some (visibleKey env.heap message))] }) := by
  have hnul : 0 ∈ message ++ env.heap.beyond .receive := List.mem_append_right _ (hscan _)
  rw [router_received env hnul hfit,
    respond_get_none env _ hcmd (str_key hkey (.inr (hscan _))) hdata, seen_key, if_neg hkey]

/-- What the router does not act on: no known command, or a `SET` without data. -/
def Ignored (message : List Byte) : Prop :=
  (command message = cmdSet ∧ dataField message = []) ∨
    (command message ≠ cmdSet ∧ command message ≠ cmdGet ∧ command message ≠ cmdDelete)

theorem respond_ignored (hignored : Ignored message) (session : Session) :
    respond env (parsedTask env.heap message) session = (zeroReply env.heap, session) := by
  rcases hignored with ⟨hcmd, hdata⟩ | ⟨hset, hget, hdelete⟩
  · exact respond_set_none env _ hcmd ((data_eq_none_iff _ _).mpr hdata) session
  · exact respond_other env _ hset hget hdelete session

theorem ops_router_ignored (hscan : env.heap.ScansEnd) (hfit : IndexesFit message)
    (hignored : Ignored message) (session : Session) :
    (router env (env.heap.received message) session).2.ops = session.ops := by
  rw [router_received env (List.mem_append_right _ (hscan _)) hfit, respond_ignored hignored]

/-- The store call of a `SET` is made whatever becomes of its reply. -/
theorem ops_router_set (hscan : env.heap.ScansEnd) (hfit : IndexesFit message)
    (hcmd : command message = cmdSet) (hdata : dataField message ≠ []) (session : Session) :
    (router env (env.heap.received message) session).2.ops = session.ops ++
      [.set (seen (parsedTask env.heap message).key) (some (visibleData env.heap message))] := by
  have hsome : (parsedTask env.heap message).data ≠ none := by
    rwa [ne_eq, data_eq_none_iff]
  rw [router_received env (List.mem_append_right _ (hscan _)) hfit,
    ops_respond_set env _ hcmd hsome, seen_data, if_neg hdata]

theorem ops_router_get (hscan : env.heap.ScansEnd) (hfit : IndexesFit message)
    (hcmd : command message = cmdGet) (session : Session) :
    (router env (env.heap.received message) session).2.ops =
      session.ops ++ [.get (seen (parsedTask env.heap message).key)] := by
  rw [router_received env (List.mem_append_right _ (hscan _)) hfit, ops_respond_get env _ hcmd]

theorem ops_router_delete (hscan : env.heap.ScansEnd) (hfit : IndexesFit message)
    (hcmd : command message = cmdDelete) (hkey : keyField message ≠ []) (session : Session) :
    (router env (env.heap.received message) session).2.ops =
      session.ops ++ [.delete (some (visibleKey env.heap message))] := by
  rw [router_delete hscan hfit hcmd hkey]

/-- A message that is acted on makes a route use its key. -/
theorem usesKey_of_not_ignored (heap : Heap) (hacted : ¬Ignored message) :
    UsesKey (parsedTask heap message) := by
  by_cases hset : command message = cmdSet
  · refine .inr (.inr ⟨hset, ?_⟩)
    rw [ne_eq, data_eq_none_iff]
    intro hdata
    exact hacted (.inl ⟨hset, hdata⟩)
  by_cases hget : command message = cmdGet
  · exact .inl hget
  by_cases hdelete : command message = cmdDelete
  · exact .inr (.inl hdelete)
  · exact absurd (.inr ⟨hset, hget, hdelete⟩) hacted

/-! ## Documented requests -/

/-- The client can read `reply` from what the router returned. -/
def Answers (result : Except Fault Ptr) (reply : List Byte) : Prop :=
  ∃ ptr, result = .ok ptr ∧ seen ptr = some reply

theorem answers_unique {result : Except Fault Ptr} {reply other : List Byte}
    (hreply : Answers result reply) (hother : Answers result other) : reply = other := by
  obtain ⟨ptr, hptr, hseen⟩ := hreply
  obtain ⟨ptr', hptr', hseen'⟩ := hother
  rw [hptr, Except.ok.injEq] at hptr'
  subst hptr'
  rw [hseen, Option.some.injEq] at hseen'
  exact hseen'

theorem zero_notMem_confirmation {digit : Byte} (hdigit : digit ≠ 0) {key : List Byte}
    (hkey : 0 ∉ key) : 0 ∉ confirmation digit key := by
  simp [confirmation, hdigit.symm, hkey, bar_ne.symm]

/-- A confirmation with four bytes more than its key reaches the client. -/
theorem answers_confirmation (heap : Heap) {digit : Byte} (hdigit : digit ≠ 0)
    {key : List Byte} (hkey : 0 ∉ key) (hlength : (key.length + 4 : Int) ≤ intMax) :
    Answers (formatted heap (toInt (key.length + 4)) (confirmation digit key))
      (confirmation digit key) := by
  have hsize : toInt (key.length + 4) = key.length + 4 :=
    toInt_of_range (by simp only [intMin]; omega) hlength
  have hfits : ((confirmation digit key).length : Int) < key.length + 4 := by
    simp only [confirmation, List.length_cons, List.length_append, List.length_nil]
    omega
  obtain ⟨rest, hformatted⟩ := formatted_of_fits heap hlength hfits
  refine ⟨_, by rw [hsize, hformatted], ?_⟩
  rw [seen, Option.map_some, Buf.memory, List.append_assoc, List.cons_append,
    text_append_nul (zero_notMem_confirmation hdigit hkey)]

theorem router_set_encode (hterminated : env.heap.Terminated) (key : Key) (value : Value)
    (hlength : ((Request.set key value).encode.length : Int) ≤ intMax) (session : Session) :
    router env (env.heap.received (Request.set key value).encode) session =
      (formatted env.heap (toInt (key.bytes.length + 4)) (confirmation digitSet key.bytes),
        { store := (setResult session.store env.outcomes key.bytes value.bytes).2
          ops := session.ops ++ [.set (some key.bytes) (some value.bytes)] }) := by
  have hkey : keyField (Request.set key value).encode = key.bytes := keyField_encode _
  have hdata : dataField (Request.set key value).encode = value.bytes :=
    dataField_encode _ hlength
  have hrouter := router_set hterminated.scansEnd (indexesFit_of_le hlength) rfl
    (by rw [hkey]; exact key.ne_nil) (by rw [hdata]; exact value.ne_nil) session
  rwa [visibleKey_of_terminated hterminated, visibleData_of_terminated hterminated, hkey,
    hdata] at hrouter

theorem router_delete_encode (hterminated : env.heap.Terminated) (key : Key)
    (hlength : ((Request.delete key).encode.length : Int) ≤ intMax) (session : Session) :
    router env (env.heap.received (Request.delete key).encode) session =
      (formatted env.heap (toInt (key.bytes.length + 4)) (confirmation digitDelete key.bytes),
        { store := (removeResult session.store env.outcomes.delete key.bytes).2
          ops := session.ops ++ [.delete (some key.bytes)] }) := by
  have hkey : keyField (Request.delete key).encode = key.bytes := keyField_encode _
  have hrouter := router_delete hterminated.scansEnd (indexesFit_of_le hlength) rfl
    (by rw [hkey]; exact key.ne_nil) session
  rwa [visibleKey_of_terminated hterminated, hkey] at hrouter

theorem router_get_encode (hterminated : env.heap.Terminated) (key : Key)
    (hlength : ((Request.get key).encode.length : Int) ≤ intMax) (session : Session) :
    router env (env.heap.received (Request.get key).encode) session =
      (match lookupData session.store env.outcomes.select key.bytes with
      | some data => formatted env.heap (toInt (key.bytes.length +
            (text (columnBlob data)).length - 2))
          (confirmation digitGet key.bytes ++ text (columnBlob data))
      | none => formatted env.heap (toInt (key.bytes.length - 1))
          (confirmation digitGet key.bytes),
        { store := used session.store
          ops := session.ops ++ [.get (some key.bytes)] }) := by
  have hkey : keyField (Request.get key).encode = key.bytes := keyField_encode _
  have hne : keyField (Request.get key).encode ≠ [] := by
    rw [hkey]
    exact key.ne_nil
  have hvisible : visibleKey env.heap (Request.get key).encode = key.bytes :=
    (visibleKey_of_terminated hterminated _).trans hkey
  cases hdata : lookupData session.store env.outcomes.select key.bytes with
  | none =>
      have hrouter := router_get_none hterminated.scansEnd (indexesFit_of_le hlength) rfl hne
        ((congrArg _ hvisible).trans hdata)
      rwa [hvisible] at hrouter
  | some data =>
      obtain ⟨rest, hrest⟩ := hterminated .value
      have hvalue : visibleValue env.heap data = text (columnBlob data) := by
        rw [visibleValue, hrest, text_append_zero]
      have hrouter := router_get_some hterminated.scansEnd (indexesFit_of_le hlength) rfl hne
        ((congrArg _ hvisible).trans hdata)
      rwa [hvisible, hvalue] at hrouter

end CcCvStore.Requests
