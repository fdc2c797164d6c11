import CcCvStore.Server.Requests

/-!
# String scans and the ends of buffers

On a heap where no byte behind an allocation can be read, a scan that meets no
NUL inside its buffer is a fault.  The receive buffer need not hold one, a key
slice holds one only if the message does, and so it is with the stored value.
-/

namespace CcCvStore.BoundedScans

open CcCvStore.Effect
open CcCvStore.CInteger
open CcCvStore.CString
open CcCvStore.StrSlice
open CcCvStore.Message
open CcCvStore.Backend
open CcCvStore.StoreEffects
open CcCvStore.Router
open CcCvStore.Requests

/-- The parser needs no NUL behind the message: there is one in it, or no slice
is taken. -/
def Scannable (message : List Byte) : Prop :=
  0 ∈ message ∨ message.length < 3 ∨ (message[2]? = some bar ∧ message.length ≤ 4)

/-- No scan leaves its buffer: the message is scannable and has no data for a
`SET`; the key of a `GET` or `DELETE` is followed by a NUL in its slice; and a
value found for it holds one. -/
def ScansStay (env : Env) (session : Session) (message : List Byte) : Prop :=
  Scannable message ∧
    (command message = cmdSet → dataField message = []) ∧
    (command message = cmdGet ∨ command message = cmdDelete →
      keyField message ≠ [] ∧ (keyField message).length < keyEnd message - 2) ∧
    (command message = cmdGet → ∀ data,
      lookupData session.store env.outcomes.select (keyField message) = some data →
        0 ∈ columnBlob data)

/-! ## Parsing without a NUL -/

theorem keyEnd_eq_two_iff {message : List Byte} (hlength : 3 ≤ message.length) :
    keyEnd message = 2 ↔ message[2]? = some bar := by
  have hdrop : message.drop 2 = message[2] :: message.drop 3 := List.drop_eq_getElem_cons hlength
  have hindex : keyEnd message = 2 + (message[2] :: message.drop 3).idxOf bar := by
    rw [keyEnd, hdrop]
  rw [hindex, List.getElem?_eq_getElem hlength, Option.some.injEq]
  by_cases hbar : message[2] = bar
  · rw [hbar, List.idxOf_cons_self]
    exact iff_of_true rfl rfl
  · rw [List.idxOf_cons_ne _ hbar]
    exact iff_of_false (by omega) hbar

theorem parseClientMsg_of_short (heap : Heap) {message : List Byte}
    (hlength : message.length < 3) :
    parseClientMsg heap (heap.received message) = .ok (parsedTask heap message) := by
  rw [parsedTask_of_short heap hlength]
  simp only [parseClientMsg, parseClientMsgCmd_eq, parseClientMsgKey, parseClientMsgData,
    checkMsgValid_of_lt heap hlength, ok_bind]
  rfl

variable {heap : Heap} {message : List Byte}

theorem parseClientMsgKey_of_notMem (hstrict : heap.Strict) (hnul : 0 ∉ message)
    (hlength : 3 ≤ message.length) (hmax : (message.length : Int) ≤ intMax) :
    parseClientMsgKey heap (heap.received message) =
      if keyEnd message = 2 then .ok none else .error .overrun := by
  have hend := keyEnd_le message (by omega)
  have hmemory : (heap.received message).base.memory = message := by
    rw [Heap.received, Buf.memory, hstrict, List.append_nil]
  have hne : message ≠ [] := List.ne_nil_of_length_pos (by omega)
  have htwo : 2 ≤ keyEnd message := Nat.le_add_right 2 _
  have hslice : parseClientMsgKey heap (heap.received message) =
      strSlice (heap.received message).base (2 : Nat) (keyEnd message) (heap.beyond .key) := by
    simp only [parseClientMsgKey, checkMsgValid_of_le heap hlength,
      getEndOfKey_of_le heap hlength (by omega), ok_bind]
    rfl
  rw [hslice]
  by_cases hfirst : keyEnd message = 2
  · rw [if_pos hfirst]
    exact strSlice_none _ (by rwa [hmemory]) 2 (by omega) _
  · rw [if_neg hfirst]
    exact strSlice_overrun _ (by rwa [hmemory]) (by rwa [hmemory]) 2 (by omega) _

theorem parseClientMsgData_of_notMem (hstrict : heap.Strict) (hnul : 0 ∉ message)
    (hlength : 3 ≤ message.length) (hmax : (message.length : Int) ≤ intMax)
    (hfirst : keyEnd message = 2) :
    parseClientMsgData heap (heap.received message) =
      if message.length ≤ 4 then .ok none else .error .overrun := by
  have hmemory : (heap.received message).base.memory = message := by
    rw [Heap.received, Buf.memory, hstrict, List.append_nil]
  have hne : message ≠ [] := List.ne_nil_of_length_pos (by omega)
  have hlen : (heap.received message).len = message.length := rfl
  have hsome : ¬sizeSub message.length 2 < 1 := by
    rw [sizeSub_of_le (by omega)]
    omega
  have hfrom : intResult ((2 : Nat) + 1 : Int) = .ok (3 : Nat) := rfl
  have hto : intResult (toInt message.length - 1) = .ok ((message.length : Int) - 1) := by
    rw [toInt_natCast _ hmax]
    exact intResult_of_range (by simp only [intMin]; omega) (by omega)
  have hslice : parseClientMsgData heap (heap.received message) =
      strSlice (heap.received message).base (3 : Nat) ((message.length : Int) - 1)
        (heap.beyond .data) := by
    simp only [parseClientMsgData, checkMsgValid_of_le heap hlength,
      getEndOfKey_of_le heap hlength (by omega), hfirst, ok_bind, hlen, if_neg hsome, hfrom, hto]
    rfl
  rw [hslice]
  by_cases hshort : message.length ≤ 4
  · rw [if_pos hshort]
    exact strSlice_none _ (by rwa [hmemory]) 3 (by omega) _
  · rw [if_neg hshort]
    exact strSlice_overrun _ (by rwa [hmemory]) (by rwa [hmemory]) 3 (by omega) _

/-- The parser stays inside the message exactly when the message is scannable. -/
theorem parseClientMsg_scannable (hstrict : heap.Strict) (hscannable : Scannable message)
    (hmax : (message.length : Int) ≤ intMax) :
    parseClientMsg heap (heap.received message) = .ok (parsedTask heap message) := by
  by_cases hnul : 0 ∈ message
  · exact parseClientMsg_eq (List.mem_append_left _ hnul) (indexesFit_of_le hmax)
  by_cases hlength : message.length < 3
  · exact parseClientMsg_of_short heap hlength
  obtain ⟨hbar, hshort⟩ := (hscannable.resolve_left hnul).resolve_left hlength
  have hlong : 3 ≤ message.length := Nat.le_of_not_lt hlength
  have hfirst : keyEnd message = 2 := (keyEnd_eq_two_iff hlong).mpr hbar
  have hkey : keyField message = [] := by
    have hlen := length_window_le message 2 (keyEnd message - 2)
    rw [hfirst] at hlen
    rw [keyField, hfirst]
    exact List.length_eq_zero_iff.mp (Nat.le_zero.mp hlen)
  have hdata : dataField message = [] := by
    have hsize := dataSize_le message
    have hlen := length_window_le message (keyEnd message + 1) (dataSize message)
    exact List.length_eq_zero_iff.mp (by rw [dataField]; omega)
  rw [parseClientMsg, parseClientMsgCmd_eq, ok_bind,
    parseClientMsgKey_of_notMem hstrict hnul hlong hmax, if_pos hfirst, ok_bind,
    parseClientMsgData_of_notMem hstrict hnul hlong hmax hfirst, if_pos hshort]
  simp only [parsedTask, hkey, hdata, sliced_nil]
  rfl

theorem parseClientMsg_not_scannable (hstrict : heap.Strict) (hnot : ¬Scannable message)
    (hmax : (message.length : Int) ≤ intMax) :
    parseClientMsg heap (heap.received message) = .error .overrun := by
  obtain ⟨hnul, hrest⟩ := not_or.mp hnot
  obtain ⟨hlength, hinner⟩ := not_or.mp hrest
  have hlong : 3 ≤ message.length := Nat.le_of_not_lt hlength
  rw [parseClientMsg, parseClientMsgCmd_eq, ok_bind,
    parseClientMsgKey_of_notMem hstrict hnul hlong hmax]
  by_cases hfirst : keyEnd message = 2
  · have hlast : ¬message.length ≤ 4 := fun hshort =>
      hinner ⟨(keyEnd_eq_two_iff hlong).mp hfirst, hshort⟩
    rw [if_pos hfirst, ok_bind,
      parseClientMsgData_of_notMem hstrict hnul hlong hmax hfirst, if_neg hlast]
    rfl
  · rw [if_neg hfirst]
    rfl

/-! ## The routes -/

variable {env : Env} {session : Session}

/-- The whole key window is free of NULs before data that is there. -/
theorem key_full_of_data (hdata : dataField message ≠ []) :
    keyEnd message - 2 ≤ (keyField message).length := by
  have hhead : 0 ∉ message.take (keyEnd message + 1) := by
    intro hnul
    exact hdata (if_pos hnul)
  have htwo : 2 ≤ keyEnd message := Nat.le_add_right 2 _
  have hlast : keyEnd message + 1 ≤ message.length := by
    by_contra hshort
    exact hdata (window_of_short (by omega) _)
  have hprefix : 0 ∉ message.take 2 := fun hmem =>
    hhead ((List.take_prefix_take_left (by omega)).subset hmem)
  have hwindow : 0 ∉ (message.drop 2).take (keyEnd message - 2) := by
    intro hmem
    apply hhead
    have hsplit : message.take (keyEnd message) =
        message.take 2 ++ (message.drop 2).take (keyEnd message - 2) := by
      conv_lhs => rw [show keyEnd message = 2 + (keyEnd message - 2) by omega, List.take_add]
    have htake : 0 ∈ message.take (keyEnd message) := by
      rw [hsplit]
      exact List.mem_append_right _ hmem
    exact (List.take_prefix_take_left (by omega)).subset htake
  rw [keyField, window, if_neg hprefix, text_of_notMem hwindow, List.length_take,
    List.length_drop]
  omega

/-- A key that is missing or fills its slice stops the route that uses it. -/
theorem key_error_of_full (hstrict : heap.Strict)
    (hfull : keyField message = [] ∨ keyEnd message - 2 ≤ (keyField message).length) :
    ∃ fault, (parsedTask heap message).key.str = .error fault := by
  by_cases hkey : keyField message = []
  · rw [(key_eq_none_iff heap message).mpr hkey]
    exact ⟨_, rfl⟩
  · refine ⟨.overrun, ?_⟩
    rw [parsedTask, hstrict .key]
    exact str_sliced_full hkey (zero_notMem_window _ _ _) (hfull.resolve_left hkey)

theorem respond_unbounded (hstrict : env.heap.Strict) (hacted : ¬Ignored message)
    (hfull : keyField message = [] ∨ keyEnd message - 2 ≤ (keyField message).length) :
    ∃ fault, IsStringFault fault ∧
      (respond env (parsedTask env.heap message) session).1 = .error fault := by
  obtain ⟨fault, hkey⟩ := key_error_of_full hstrict hfull
  exact respond_key_error env (usesKey_of_not_ignored env.heap hacted) hkey session

/-- What the router handles without a fault in a scan. -/
def StaysIn (result : Except Fault Ptr) : Prop :=
  ∀ fault, result = .error fault → ¬IsStringFault fault

theorem not_staysIn {result : Except Fault Ptr}
    (hfault : ∃ fault, IsStringFault fault ∧ result = .error fault) : ¬StaysIn result := by
  obtain ⟨fault, hstring, herror⟩ := hfault
  exact fun hstays => hstays fault herror hstring

theorem staysIn_formatted (heap : Heap) (msgLen : Int) (output : List Byte) :
    StaysIn (formatted heap msgLen output) := fun _ => not_isStringFault_snprintf

theorem staysIn_zeroReply (heap : Heap) : StaysIn (zeroReply heap) :=
  fun _ => not_isStringFault_snprintf

theorem str_key_of_short (heap : Heap) (hkey : keyField message ≠ [])
    (hshort : (keyField message).length < keyEnd message - 2) :
    (parsedTask heap message).key.str = .ok (keyField message) := by
  rw [str_key hkey (.inl hshort), visibleKey, visible, if_pos hshort]

theorem respond_delete_staysIn (hcmd : command message = cmdDelete)
    (hkey : keyField message ≠ []) (hshort : (keyField message).length < keyEnd message - 2) :
    StaysIn (respond env (parsedTask env.heap message) session).1 := by
  have hrespond := respond_delete env (parsedTask env.heap message) hcmd
    (str_key_of_short env.heap hkey hshort) session
  have hreply := congrArg Prod.fst hrespond
  dsimp only at hreply
  rw [hreply]
  exact staysIn_formatted env.heap _ _

/-- With a terminated key, a `GET` stands and falls with the value it finds. -/
theorem respond_get_staysIn_iff (hstrict : env.heap.Strict) (hcmd : command message = cmdGet)
    (hkey : keyField message ≠ []) (hshort : (keyField message).length < keyEnd message - 2) :
    StaysIn (respond env (parsedTask env.heap message) session).1 ↔
      ∀ data, lookupData session.store env.outcomes.select (keyField message) = some data →
        0 ∈ columnBlob data := by
  have hstr := str_key_of_short env.heap hkey hshort
  cases hlookup : lookupData session.store env.outcomes.select (keyField message) with
  | none =>
      apply iff_of_true
      · rw [respond_get_none env (parsedTask env.heap message) hcmd hstr hlookup]
        exact staysIn_formatted _ _ _
      · intro found hfound
        contradiction
  | some data =>
      have hmemory : (⟨columnBlob data, env.heap.beyond .value⟩ : Buf).memory =
          columnBlob data := by
        rw [Buf.memory, hstrict, List.append_nil]
      by_cases hnul : 0 ∈ columnBlob data
      · have hmem : 0 ∈ (⟨columnBlob data, env.heap.beyond .value⟩ : Buf).memory := by
          rwa [hmemory]
        apply iff_of_true
        · rw [respond_get_some env (parsedTask env.heap message) hcmd hstr hlookup
            (str_of_mem hmem)]
          exact staysIn_formatted _ _ _
        · rintro _ ⟨⟩
          exact hnul
      · have hval : Ptr.str (some ⟨columnBlob data, env.heap.beyond .value⟩) =
            .error .overrun := if_neg (by rwa [hmemory])
        apply iff_of_false
        · apply not_staysIn
          exact ⟨.overrun, .inr rfl,
            respond_get_error env (parsedTask env.heap message) hcmd hstr hlookup hval⟩
        · exact fun hall => hnul (hall data rfl)

/-- What the routes need of a parsed message. -/
theorem respond_staysIn_iff {env : Env} (hstrict : env.heap.Strict) (message : List Byte)
    (session : Session) :
    StaysIn (respond env (parsedTask env.heap message) session).1 ↔
      (command message = cmdSet → dataField message = []) ∧
        (command message = cmdGet ∨ command message = cmdDelete →
          keyField message ≠ [] ∧ (keyField message).length < keyEnd message - 2) ∧
        (command message = cmdGet → ∀ data,
          lookupData session.store env.outcomes.select (keyField message) = some data →
            0 ∈ columnBlob data) := by
  by_cases hignored : Ignored message
  · apply iff_of_true
    · rw [respond_ignored hignored]
      exact staysIn_zeroReply _
    · rcases hignored with ⟨hset, hdata⟩ | ⟨hset, hget, hdelete⟩
      · simp [hset, hdata, cmdSet, cmdGet, cmdDelete]
      · simp [hset, hget, hdelete]
  by_cases hset : command message = cmdSet
  · have hdata : dataField message ≠ [] := fun hnil => hignored (.inl ⟨hset, hnil⟩)
    apply iff_of_false
    · exact not_staysIn (respond_unbounded hstrict hignored (.inr (key_full_of_data hdata)))
    · exact fun hstay => hdata (hstay.1 hset)
  have hreads : command message = cmdGet ∨ command message = cmdDelete := by
    by_contra hother
    obtain ⟨hget, hdelete⟩ := not_or.mp hother
    exact hignored (.inr ⟨hset, hget, hdelete⟩)
  by_cases hkey : keyField message ≠ [] ∧ (keyField message).length < keyEnd message - 2
  · simp only [hset, false_implies, hreads, hkey, true_and, true_implies, ne_eq,
      not_false_eq_true]
    rcases hreads with hget | hdelete
    · rw [respond_get_staysIn_iff hstrict hget hkey.1 hkey.2]
      simp [hget]
    · apply iff_of_true (respond_delete_staysIn hdelete hkey.1 hkey.2)
      simp [hdelete, cmdDelete, cmdGet]
  · apply iff_of_false
    · apply not_staysIn
      apply respond_unbounded hstrict hignored
      by_contra hneither
      obtain ⟨hne, hlong⟩ := not_or.mp hneither
      exact hkey ⟨hne, by omega⟩
    · exact fun hstay => hkey (hstay.2.1 hreads)

/-- Every scan stays inside its buffer exactly under `ScansStay`. -/
theorem scans_bounded_iff (env : Env) (hstrict : env.heap.Strict) (message : List Byte)
    (hmax : (message.length : Int) ≤ intMax) (session : Session) :
    StaysIn (router env (env.heap.received message) session).1 ↔
      ScansStay env session message := by
  by_cases hscannable : Scannable message
  · have hrouter : router env (env.heap.received message) session =
        respond env (parsedTask env.heap message) session := by
      rw [router, parseClientMsg_scannable hstrict hscannable hmax]
      rfl
    rw [hrouter, ScansStay, respond_staysIn_iff hstrict]
    exact (and_iff_right hscannable).symm
  · apply iff_of_false
    · apply not_staysIn
      refine ⟨.overrun, .inr rfl, ?_⟩
      rw [router, parseClientMsg_not_scannable hstrict hscannable hmax]
      rfl
    · exact fun hstay => hscannable hstay.1

/-- A `DELETE` whose key is followed by a NUL: `3|k`, NUL, `|`. -/
theorem scans_bounded_iff_terminated :
    StaysIn (router ⟨⟨fun _ => [], fun _ => 0⟩, .ok⟩
      (Heap.received ⟨fun _ => [], fun _ => 0⟩ [51, 124, 107, 0, 124])
      ⟨Store.initial, []⟩).1 :=
  (scans_bounded_iff ⟨⟨fun _ => [], fun _ => 0⟩, .ok⟩ (fun _ => rfl)
    [51, 124, 107, 0, 124] (by decide) ⟨Store.initial, []⟩).mpr
    ⟨.inl (by decide), by decide, by decide, by decide⟩

/-- `1|k|v` holds no NUL, and `str_slice` takes its length. -/
theorem set_scans_past_message :
    ¬StaysIn (router ⟨⟨fun _ => [], fun _ => 0⟩, .ok⟩
      (Heap.received ⟨fun _ => [], fun _ => 0⟩ [49, 124, 107, 124, 118])
      ⟨Store.initial, []⟩).1 := by
  have hfault : (router ⟨⟨fun _ => [], fun _ => 0⟩, .ok⟩
      (Heap.received ⟨fun _ => [], fun _ => 0⟩ [49, 124, 107, 124, 118])
      ⟨Store.initial, []⟩).1 = .error .overrun := by decide +kernel
  exact not_staysIn ⟨_, .inr rfl, hfault⟩

end CcCvStore.BoundedScans
