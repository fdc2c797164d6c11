import CcCvStore.Parser.Grammar
import CcCvStore.Server.ReadCallback

/-!
# Bytes that were not received

The router is given the length of the read buffer, not the number of bytes that
were received.  What the rest of the buffer holds decides the outcome unless
the message itself closes every field that is read: by a separator, by a NUL or
by the end of the buffer.
-/

namespace CcCvStore.StaleBytes

open CcCvStore.Effect
open CcCvStore.CInteger
open CcCvStore.CString
open CcCvStore.StrSlice
open CcCvStore.Message
open CcCvStore.WireFormat
open CcCvStore.Grammar
open CcCvStore.Backend
open CcCvStore.Router
open CcCvStore.Requests
open CcCvStore.ReadCallback

/-- Whatever the rest of the read buffer holds, the callback does the same. -/
def ActsOnReceived (env : Env) (peer : Peer) (received : List Byte) (size : Nat) : Prop :=
  ∀ stale stale' : List Byte, received.length + stale.length = size →
    received.length + stale'.length = size →
      onReadCb env received.length (readBuffer env.heap received stale) peer =
        onReadCb env received.length (readBuffer env.heap received stale') peer

/-- The received bytes fill the buffer, hold a NUL or no known command, or they
hold the separator behind the key, where a `SET` needs all but one byte of the
buffer; without a separator the buffer is too small for the field it would
close. -/
def Closed (received : List Byte) (size : Nat) : Prop :=
  size = received.length ∨ 0 ∈ received ∨
    (command received ≠ cmdSet ∧ command received ≠ cmdGet ∧ command received ≠ cmdDelete) ∨
    (command received = cmdSet ∧
      ((bar ∈ received.drop 2 ∧ size = received.length + 1) ∨
        (bar ∉ received.drop 2 ∧ size ≤ max received.length 2 + 2))) ∨
    ((command received = cmdGet ∨ command received = cmdDelete) ∧
      (bar ∈ received.drop 2 ∨ size ≤ 2))

/-! ## Messages that look the same to the router -/

variable {env : Env} {left right : List Byte}

theorem sameString_of_seen {heap : Heap} (hscan : heap.ScansEnd) {content content' : List Byte}
    (hnul : 0 ∉ content) (hnul' : 0 ∉ content') {size size' : Nat}
    (hlength : content.length ≤ size) (hlength' : content'.length ≤ size') (site : Site)
    (hseen : seen (sliced content size (heap.beyond site)) =
      seen (sliced content' size' (heap.beyond site))) :
    SameString (sliced content size (heap.beyond site))
      (sliced content' size' (heap.beyond site)) := by
  refine ⟨?_, hseen⟩
  rw [seen_sliced hnul hlength, seen_sliced hnul' hlength'] at hseen
  by_cases hnil : content = []
  · have hnil' : content' = [] := by
      by_contra hne
      rw [if_pos hnil, if_neg hne] at hseen
      contradiction
    rw [hnil, hnil', sliced_nil, sliced_nil]
  · have hne' : content' ≠ [] := by
      intro hnil'
      rw [if_neg hnil, if_pos hnil'] at hseen
      contradiction
    rw [if_neg hnil, if_neg hne', Option.some.injEq] at hseen
    rw [str_sliced hnil hnul hlength (.inr (hscan site)),
      str_sliced hne' hnul' hlength' (.inr (hscan site)), hseen]

/-- Messages with the same command and the same visible fields are handled the
same. -/
theorem router_congr (hscan : env.heap.ScansEnd) (hleft : IndexesFit left)
    (hright : IndexesFit right) (hcmd : command left = command right)
    (hkey : seen (parsedTask env.heap left).key = seen (parsedTask env.heap right).key)
    (hdata : command left = cmdSet →
      seen (parsedTask env.heap left).data = seen (parsedTask env.heap right).data) :
    router env (env.heap.received left) = router env (env.heap.received right) := by
  rw [router_received env (List.mem_append_right _ (hscan _)) hleft,
    router_received env (List.mem_append_right _ (hscan _)) hright]
  apply respond_congr env hcmd
  · exact sameString_of_seen hscan (zero_notMem_window _ _ _) (zero_notMem_window _ _ _)
      (length_window_le _ _ _) (length_window_le _ _ _) .key hkey
  · intro hset
    exact sameString_of_seen hscan (zero_notMem_window _ _ _) (zero_notMem_window _ _ _)
      (length_window_le _ _ _) (length_window_le _ _ _) .data (hdata hset)

theorem router_ignored (hscan : env.heap.ScansEnd) (hleft : IndexesFit left)
    (hright : IndexesFit right) (hignored : Ignored left) (hignored' : Ignored right) :
    router env (env.heap.received left) = router env (env.heap.received right) := by
  rw [router_received env (List.mem_append_right _ (hscan _)) hleft,
    router_received env (List.mem_append_right _ (hscan _)) hright]
  funext session
  rw [respond_ignored hignored, respond_ignored hignored']

theorem command_append {received : List Byte} (hne : received ≠ []) (stale : List Byte) :
    command (received ++ stale) = command received := by
  cases received with
  | nil => exact absurd rfl hne
  | cons first rest => rfl

/-! ## Fields that the received bytes close -/

variable {received stale : List Byte}

theorem window_append_of_le {start size : Nat} (hinside : start + size ≤ received.length)
    (stale : List Byte) :
    window (received ++ stale) start size = window received start size := by
  rw [window, window, List.take_append_of_le_length (by omega),
    List.drop_append_of_le_length (by omega),
    List.take_append_of_le_length (by rw [List.length_drop]; omega)]

theorem zero_mem_drop_of_notMem_take (hnul : 0 ∈ received) {start : Nat}
    (hhead : 0 ∉ received.take start) : 0 ∈ received.drop start := by
  rw [← List.take_append_drop start received] at hnul
  exact (List.mem_append.mp hnul).resolve_left hhead

/-- What a window from `start` on holds of the received bytes up to their first
NUL. -/
def upToNul (received : List Byte) (start : Nat) : List Byte :=
  if 0 ∈ received.take start then [] else text (received.drop start)

/-- A window that reaches past a NUL of the received bytes ends there. -/
theorem window_append_of_zero_mem (hnul : 0 ∈ received) {start size : Nat}
    (hpast : received.length ≤ start + size) (stale : List Byte) :
    window (received ++ stale) start size = upToNul received start := by
  rw [upToNul]
  by_cases hhead : 0 ∈ received.take start
  · have hmem : 0 ∈ (received ++ stale).take start := by
      rw [List.take_append]
      exact List.mem_append_left _ hhead
    rw [window, if_pos hmem, if_pos hhead]
  · have htail := zero_mem_drop_of_notMem_take hnul hhead
    have hstart : start ≤ received.length := by
      by_contra hshort
      rw [List.drop_eq_nil_of_le (by omega)] at htail
      contradiction
    have htake : ((received ++ stale).drop start).take size =
        received.drop start ++ stale.take (size - (received.length - start)) := by
      rw [List.drop_append_of_le_length hstart, List.take_append, List.length_drop,
        List.take_of_length_le (by rw [List.length_drop]; omega)]
    rw [window, List.take_append_of_le_length hstart, if_neg hhead, if_neg hhead, htake,
      text_append_of_mem htail]

theorem seen_window_of_zero_mem (hnul : 0 ∈ received) {start size : Nat}
    (hpast : received.length ≤ start + size) (stale beyond : List Byte) :
    seen (sliced (window (received ++ stale) start size) size beyond) =
      if upToNul received start = [] then none else some (upToNul received start) := by
  have hwindow := window_append_of_zero_mem hnul hpast stale
  rw [seen_sliced (zero_notMem_window _ _ _) (length_window_le _ _ _), hwindow, upToNul]
  by_cases hhead : 0 ∈ received.take start
  · simp only [if_pos hhead, if_true]
  · simp only [if_neg hhead]
    have htail := zero_mem_drop_of_notMem_take hnul hhead
    obtain ⟨rest, hrest⟩ := exists_eq_text_append htail
    have hlength := congrArg List.length hrest
    rw [List.length_drop, List.length_append, List.length_cons] at hlength
    have hshort : (text (received.drop start)).length < size := by omega
    rw [visible, if_pos hshort]

theorem two_le_of_mem_drop {byte : Byte} (hmem : byte ∈ received.drop 2) :
    2 < received.length := by
  have hpos := List.length_pos_of_mem hmem
  rw [List.length_drop] at hpos
  omega

/-- The separator behind the key is found among the received bytes. -/
theorem keyEnd_append_of_mem (hbar : bar ∈ received.drop 2) (stale : List Byte) :
    keyEnd (received ++ stale) = keyEnd received ∧ keyEnd received < received.length := by
  have hlong := two_le_of_mem_drop hbar
  have hindex := List.idxOf_lt_length_of_mem hbar
  rw [List.length_drop] at hindex
  constructor
  · rw [keyEnd, keyEnd, List.drop_append_of_le_length (by omega), List.idxOf_append_of_mem hbar]
  · rw [keyEnd]
    omega

/-- Without a separator among them the key runs on behind the received bytes. -/
theorem le_keyEnd_append (hbar : bar ∉ received.drop 2) (stale : List Byte) :
    max received.length 2 ≤ keyEnd (received ++ stale) := by
  rw [keyEnd]
  by_cases hlong : 2 ≤ received.length
  · rw [List.drop_append_of_le_length hlong, List.idxOf_append_of_notMem hbar,
      List.length_drop]
    omega
  · omega

theorem seen_key_of_bar (heap : Heap) (hbar : bar ∈ received.drop 2) (stale : List Byte) :
    seen (parsedTask heap (received ++ stale)).key = seen (parsedTask heap received).key := by
  obtain ⟨hend, hlt⟩ := keyEnd_append_of_mem hbar stale
  have hfield : keyField (received ++ stale) = keyField received := by
    rw [keyField, keyField, hend]
    exact window_append_of_le (by rw [keyEnd] at *; omega) stale
  simp only [parsedTask, hfield, hend]

/-- A NUL among the received bytes ends the key. -/
theorem exists_seen_key (heap : Heap) (hnul : 0 ∈ received) :
    ∃ key, ∀ stale, seen (parsedTask heap (received ++ stale)).key = key := by
  by_cases hbar : bar ∈ received.drop 2
  · exact ⟨_, seen_key_of_bar heap hbar⟩
  · refine ⟨if upToNul received 2 = [] then none else some (upToNul received 2),
      fun stale => ?_⟩
    apply seen_window_of_zero_mem hnul
    have hend := le_keyEnd_append hbar stale
    omega

theorem dataSize_of_le {message : List Byte} (hlength : (message.length : Int) ≤ intMax) :
    dataSize message = message.length - 1 - (keyEnd message + 1) := by
  rw [dataSize, toInt_natCast _ hlength]
  omega

/-- It ends the data as well, whatever its size. -/
theorem exists_seen_data (heap : Heap) (hnul : 0 ∈ received) :
    ∃ data, ∀ stale, stale ≠ [] → ((received ++ stale).length : Int) ≤ intMax →
      seen (parsedTask heap (received ++ stale)).data = data := by
  by_cases hbar : bar ∈ received.drop 2
  · refine ⟨if upToNul received (keyEnd received + 1) = [] then none
      else some (upToNul received (keyEnd received + 1)), fun stale hne hlength => ?_⟩
    have hkeyEnd := (keyEnd_append_of_mem hbar stale).1
    have hpos := List.length_pos_of_ne_nil hne
    have hsize := dataSize_of_le hlength
    rw [hkeyEnd, List.length_append] at hsize
    rw [parsedTask, dataField, hkeyEnd]
    apply seen_window_of_zero_mem hnul
    omega
  · refine ⟨none, fun stale _ _ => ?_⟩
    have hend := le_keyEnd_append hbar stale
    have htake : received.take (keyEnd (received ++ stale) + 1) = received :=
      List.take_of_length_le (by omega)
    rw [parsedTask, dataField, seen_window_of_zero_mem hnul (by omega), upToNul, htake, if_pos hnul]
    rfl

/-- One byte behind the received ones is the byte that the data leaves out. -/
theorem seen_data_of_bar (heap : Heap) (hbar : bar ∈ received.drop 2) {last : Byte}
    (hlength : ((received ++ [last]).length : Int) ≤ intMax) :
    seen (parsedTask heap (received ++ [last])).data =
      seen (sliced (window received (keyEnd received + 1)
          (received.length - (keyEnd received + 1)))
        (received.length - (keyEnd received + 1)) (heap.beyond .data)) := by
  obtain ⟨hend, hlt⟩ := keyEnd_append_of_mem hbar [last]
  have hsize : dataSize (received ++ [last]) = received.length - (keyEnd received + 1) := by
    rw [dataSize_of_le hlength, hend, List.length_append, List.length_singleton,
      Nat.add_sub_cancel]
  rw [parsedTask, dataField, hend, hsize, window_append_of_le (by omega)]

/-! ## Closed messages -/

variable {size : Nat}

/-- Without a separator the data of a small buffer is empty. -/
theorem dataField_append_eq_nil (hbar : bar ∉ received.drop 2) {stale : List Byte}
    (hlength : ((received ++ stale).length : Int) ≤ intMax)
    (hsmall : (received ++ stale).length ≤ max received.length 2 + 2) :
    dataField (received ++ stale) = [] := by
  have hend := le_keyEnd_append hbar stale
  have hzero : dataSize (received ++ stale) = 0 := by
    rw [dataSize_of_le hlength]
    omega
  rw [dataField, hzero, window, List.take_zero, text_nil, ite_self]

theorem keyField_eq_nil {message : List Byte} (hsmall : message.length ≤ 2) :
    keyField message = [] := window_of_short (by omega) _

section SameLength

variable (hscan : env.heap.ScansEnd) (hne : received ≠ []) {stale stale' : List Byte}
  (hlength : ((received ++ stale).length : Int) ≤ intMax) (hsame : stale.length = stale'.length)

include hscan hne hlength hsame

omit hscan hne in
theorem length_append_le : ((received ++ stale').length : Int) ≤ intMax := by
  rwa [List.length_append, ← hsame, ← List.length_append]

theorem router_eq_of_seen
    (hkey : seen (parsedTask env.heap (received ++ stale)).key =
      seen (parsedTask env.heap (received ++ stale')).key)
    (hdata : command received = cmdSet → seen (parsedTask env.heap (received ++ stale)).data =
      seen (parsedTask env.heap (received ++ stale')).data) :
    router env (env.heap.received (received ++ stale)) =
      router env (env.heap.received (received ++ stale')) := by
  apply router_congr hscan (indexesFit_of_le hlength)
    (indexesFit_of_le (length_append_le hlength hsame)) _ hkey
  · rwa [command_append hne]
  · rw [command_append hne, command_append hne]

theorem router_of_zero_mem (hnul : 0 ∈ received) :
    router env (env.heap.received (received ++ stale)) =
      router env (env.heap.received (received ++ stale')) := by
  by_cases hnil : stale = []
  · rw [hnil, List.length_nil] at hsame
    rw [hnil, List.eq_nil_of_length_eq_zero hsame.symm]
  · have hnil' : stale' ≠ [] := by
      rwa [← List.length_pos_iff, ← hsame, List.length_pos_iff]
    obtain ⟨key, hkey⟩ := exists_seen_key env.heap hnul
    obtain ⟨data, hdata⟩ := exists_seen_data env.heap hnul
    apply router_eq_of_seen hscan hne hlength hsame
    · rw [hkey, hkey]
    · intro _
      rw [hdata stale hnil hlength, hdata stale' hnil' (length_append_le hlength hsame)]

theorem router_of_bar (hbar : bar ∈ received.drop 2)
    (hone : command received = cmdSet → stale.length = 1) :
    router env (env.heap.received (received ++ stale)) =
      router env (env.heap.received (received ++ stale')) := by
  apply router_eq_of_seen hscan hne hlength hsame
  · rw [seen_key_of_bar _ hbar, seen_key_of_bar _ hbar]
  · intro hset
    have hlength' := length_append_le hlength hsame
    obtain ⟨last, rfl⟩ := List.length_eq_one_iff.mp (hone hset)
    obtain ⟨last', rfl⟩ := List.length_eq_one_iff.mp hsame.symm
    rw [seen_data_of_bar _ hbar hlength, seen_data_of_bar _ hbar hlength']

theorem router_of_set_of_notMem (hset : command received = cmdSet) (hbar : bar ∉ received.drop 2)
    (hsmall : (received ++ stale).length ≤ max received.length 2 + 2) :
    router env (env.heap.received (received ++ stale)) =
      router env (env.heap.received (received ++ stale')) := by
  have hlength' := length_append_le hlength hsame
  have hsmall' : (received ++ stale').length ≤ max received.length 2 + 2 := by
    rwa [List.length_append, ← hsame, ← List.length_append]
  apply router_ignored hscan (indexesFit_of_le hlength) (indexesFit_of_le hlength')
  · exact .inl ⟨(command_append hne _).trans hset, dataField_append_eq_nil hbar hlength hsmall⟩
  · exact .inl ⟨(command_append hne _).trans hset, dataField_append_eq_nil hbar hlength' hsmall'⟩

theorem router_of_not_set_of_le_two (hset : command received ≠ cmdSet)
    (hsmall : (received ++ stale).length ≤ 2) :
    router env (env.heap.received (received ++ stale)) =
      router env (env.heap.received (received ++ stale')) := by
  have hsmall' : (received ++ stale').length ≤ 2 := by
    rwa [List.length_append, ← hsame, ← List.length_append]
  apply router_eq_of_seen hscan hne hlength hsame
  · rw [seen_key, seen_key, if_pos (keyField_eq_nil hsmall), if_pos (keyField_eq_nil hsmall')]
  · intro heq
    exact absurd heq hset

end SameLength

/-- A message that is closed is handled the same in every buffer. -/
theorem router_of_closed (hscan : env.heap.ScansEnd) (hne : received ≠ [])
    (hmax : (size : Int) ≤ intMax) (hclosed : Closed received size) {stale stale' : List Byte}
    (hsize : received.length + stale.length = size)
    (hsize' : received.length + stale'.length = size) :
    router env (env.heap.received (received ++ stale)) =
      router env (env.heap.received (received ++ stale')) := by
  have htotal : (received ++ stale).length = size := by rw [List.length_append, hsize]
  have hlength : ((received ++ stale).length : Int) ≤ intMax := by rwa [htotal]
  have hsame : stale.length = stale'.length := by omega
  rcases hclosed with hfull | hnul | hother | ⟨hset, hdata⟩ | ⟨hreads, hkey⟩
  · have hnil : stale = [] := List.eq_nil_of_length_eq_zero (by omega)
    have hnil' : stale' = [] := List.eq_nil_of_length_eq_zero (by omega)
    rw [hnil, hnil']
  · exact router_of_zero_mem hscan hne hlength hsame hnul
  · apply router_ignored hscan (indexesFit_of_le hlength)
      (indexesFit_of_le (length_append_le hlength hsame))
    · exact .inr (by rwa [command_append hne])
    · exact .inr (by rwa [command_append hne])
  · rcases hdata with ⟨hbar, hone⟩ | ⟨hbar, hsmall⟩
    · exact router_of_bar hscan hne hlength hsame hbar fun _ => by omega
    · exact router_of_set_of_notMem hscan hne hlength hsame hset hbar (by rwa [htotal])
  · have hnotSet : command received ≠ cmdSet := by
      rcases hreads with hget | hdelete
      · rw [hget]
        decide
      · rw [hdelete]
        decide
    rcases hkey with hbar | hsmall
    · exact router_of_bar hscan hne hlength hsame hbar fun hset => absurd hset hnotSet
    · exact router_of_not_set_of_le_two hscan hne hlength hsame hnotSet (by rwa [htotal])

/-! ## Messages that are not closed -/

/-- Strings of slices of one shape tell their contents apart. -/
theorem visible_injective {content content' : List Byte} {size : Nat} {beyond : List Byte}
    (hlength : content.length = content'.length)
    (hvisible : visible content size beyond = visible content' size beyond) :
    content = content' := by
  rw [visible, visible, ← hlength] at hvisible
  split_ifs at hvisible
  · exact hvisible
  · exact List.append_inj_left hvisible hlength

theorem replicate_injective {count : Nat} (hpos : 0 < count) {byte byte' : Byte}
    (heq : List.replicate count byte = List.replicate count byte') : byte = byte' := by
  have hmem : byte ∈ List.replicate count byte' := by
    rw [← heq]
    exact List.mem_replicate.mpr ⟨by omega, rfl⟩
  exact List.eq_of_mem_replicate hmem

/-- The byte that fills a slice up shows in its string. -/
theorem visible_append_replicate_ne (rest : List Byte) (count size : Nat) (beyond : List Byte) :
    visible (rest ++ List.replicate (count + 1) 120) size beyond ≠
      visible (rest ++ List.replicate (count + 1) 121) size beyond := by
  intro hvisible
  have hlength : (rest ++ List.replicate (count + 1) (120 : Byte)).length =
      (rest ++ List.replicate (count + 1) 121).length := by
    simp
  have hfillers := List.append_cancel_left (visible_injective hlength hvisible)
  exact absurd (replicate_injective (Nat.succ_pos count) hfillers) (by decide)

theorem not_mem_append_replicate {byte filler : Byte} {key : List Byte} (hkey : byte ∉ key)
    (hfiller : byte ≠ filler) (count : Nat) : byte ∉ key ++ List.replicate count filler := by
  intro hmem
  rcases List.mem_append.mp hmem with hleft | hright
  · exact hkey hleft
  · exact hfiller (List.eq_of_mem_replicate hright)

/-- Filled up to two bytes, a message without a separator is the beginning of one. -/
theorem exists_frame_append (hne : received ≠ []) (hnul : 0 ∉ received)
    (hbar : bar ∉ received.drop 2) :
    ∃ first sep key lead, received ++ lead = first :: sep :: key ∧ first ≠ 0 ∧ sep ≠ 0 ∧
      bar ∉ key ∧ 0 ∉ key ∧ key.length + 2 = max received.length 2 := by
  match received with
  | [] => exact absurd rfl hne
  | [first] =>
      refine ⟨first, 120, [], [120], rfl, ?_, by decide, List.not_mem_nil, List.not_mem_nil, rfl⟩
      rintro rfl
      exact hnul List.mem_cons_self
  | first :: sep :: key =>
      obtain ⟨hfirst, hsep, hkey⟩ : first ≠ 0 ∧ sep ≠ 0 ∧ 0 ∉ key := by
        simpa [eq_comm] using hnul
      refine ⟨first, sep, key, [], List.append_nil _, hfirst, hsep, hbar, hkey, ?_⟩
      simp only [List.length_cons]
      omega

/-- What the store is asked for shows in the callback's result. -/
theorem ops_eq_of_actsOnReceived {peer : Peer} (hne : received ≠ [])
    (hacts : ActsOnReceived env peer received size) {stale stale' : List Byte}
    (hsize : (received ++ stale).length = size) (hsize' : (received ++ stale').length = size) :
    (router env (env.heap.received (received ++ stale)) peer.session).2.ops =
      (router env (env.heap.received (received ++ stale')) peer.session).2.ops := by
  rw [List.length_append] at hsize hsize'
  have hpos := nread_pos hne
  have hsame := hacts stale stale' hsize hsize'
  calc (router env (env.heap.received (received ++ stale)) peer.session).2.ops
      = (onReadCb env received.length (readBuffer env.heap received stale) peer).2.session.ops := by
        rw [session_onReadCb hpos, readBuffer]
    _ = (onReadCb env received.length (readBuffer env.heap received stale')
          peer).2.session.ops := by
        rw [hsame]
    _ = (router env (env.heap.received (received ++ stale')) peer.session).2.ops := by
        rw [session_onReadCb hpos, readBuffer]

theorem dataField_append_replicate {first sep : Byte} (hfirst : first ≠ 0) (hsep : sep ≠ 0)
    {key : List Byte} (hbar : bar ∉ key) (hkey : 0 ∉ key) {rest : List Byte} (hrest : 0 ∉ rest)
    {filler : Byte} (hfiller : filler ≠ 0) (count : Nat)
    (hlength : ((first :: sep :: (key ++ bar :: rest) ++
      List.replicate (count + 1) filler).length : Int) ≤ intMax) :
    dataField (first :: sep :: (key ++ bar :: rest) ++ List.replicate (count + 1) filler) =
      rest ++ List.replicate count filler := by
  have hclean := not_mem_append_replicate hrest hfiller.symm count
  have hassoc : first :: sep :: (key ++ bar :: rest) ++ List.replicate (count + 1) filler =
      first :: sep :: (key ++ bar :: (rest ++ List.replicate (count + 1) filler)) := by
    simp only [List.cons_append, List.append_assoc]
  rw [hassoc] at hlength ⊢
  rw [dataField_append hfirst hsep hbar hkey hlength, List.replicate_succ', ← List.append_assoc,
    List.dropLast_concat, text_of_notMem hclean]

/-- Behind the separator of a `SET`, stale bytes become data. -/
theorem not_actsOnReceived_set {peer : Peer} (hscan : env.heap.ScansEnd)
    (hnul : 0 ∉ received) (hmax : (size : Int) ≤ intMax) (hset : command received = cmdSet)
    (hbar : bar ∈ received.drop 2) (hroom : received.length + 2 ≤ size) :
    ¬ActsOnReceived env peer received size := by
  intro hacts
  obtain ⟨key, rest, hsplit, hkeyBar⟩ := List.eq_append_cons_of_mem hbar
  match received with
  | [] => contradiction
  | [_] => contradiction
  | first :: sep :: body =>
      have hbody : body = key ++ bar :: rest := hsplit
      subst hbody
      obtain ⟨hfirst, hsep, hkeyNul, -, hrestNul⟩ :
          first ≠ 0 ∧ sep ≠ 0 ∧ 0 ∉ key ∧ (0 : Byte) ≠ bar ∧ 0 ∉ rest := by
        simpa [eq_comm] using hnul
      obtain ⟨count, hcount⟩ := Nat.exists_eq_add_of_le hroom
      have hlength (filler : Byte) : (first :: sep :: (key ++ bar :: rest) ++
          List.replicate (count + 1 + 1) filler).length = size := by
        rw [List.length_append, List.length_replicate]
        omega
      have hcmd (filler : Byte) : command (first :: sep :: (key ++ bar :: rest) ++
          List.replicate (count + 1 + 1) filler) = cmdSet := hset
      have hdata {filler : Byte} (hfiller : filler ≠ 0) :=
        dataField_append_replicate hfirst hsep hkeyBar hkeyNul hrestNul hfiller (count + 1)
          (by rwa [hlength])
      have hsome {filler : Byte} (hfiller : filler ≠ 0) : dataField (first :: sep ::
          (key ++ bar :: rest) ++ List.replicate (count + 1 + 1) filler) ≠ [] := by
        rw [hdata hfiller, List.replicate_succ]
        exact List.append_ne_nil_of_right_ne_nil _ (List.cons_ne_nil _ _)
      have hops := ops_eq_of_actsOnReceived (List.cons_ne_nil _ _) hacts (hlength 120)
        (hlength 121)
      rw [ops_router_set hscan (indexesFit_of_le (by rwa [hlength])) (hcmd 120)
          (hsome (by decide)),
        ops_router_set hscan (indexesFit_of_le (by rwa [hlength])) (hcmd 121)
          (hsome (by decide))] at hops
      have hlast := List.append_cancel_left hops
      simp only [List.cons.injEq, StoreOp.set.injEq, Option.some.injEq] at hlast
      have hvisible := hlast.1.2
      have hsizes : dataSize (first :: sep :: (key ++ bar :: rest) ++
            List.replicate (count + 1 + 1) 120) =
          dataSize (first :: sep :: (key ++ bar :: rest) ++
            List.replicate (count + 1 + 1) 121) := by
        rw [dataSize, dataSize, hlength, hlength, (keyEnd_append_of_mem hbar _).1,
          (keyEnd_append_of_mem hbar _).1]
      rw [visibleData, visibleData, hsizes, hdata (by decide), hdata (by decide)] at hvisible
      exact visible_append_replicate_ne rest count _ _ hvisible

/-- A `SET` without a separator is acted on when the stale bytes bring one. -/
theorem not_actsOnReceived_set_of_notMem {peer : Peer} (hscan : env.heap.ScansEnd)
    (hne : received ≠ []) (hnul : 0 ∉ received) (hmax : (size : Int) ≤ intMax)
    (hset : command received = cmdSet) (hbar : bar ∉ received.drop 2)
    (hroom : max received.length 2 + 3 ≤ size) : ¬ActsOnReceived env peer received size := by
  intro hacts
  obtain ⟨first, sep, key, lead, hframe, hfirst, hsep, hkeyBar, hkeyNul, hkeyLength⟩ :=
    exists_frame_append hne hnul hbar
  obtain ⟨count, hcount⟩ := Nat.exists_eq_add_of_le hroom
  have hwith : received ++ (lead ++ bar :: List.replicate (count + 2) 120) =
      first :: sep :: (key ++ [bar]) ++ List.replicate (count + 1 + 1) 120 := by
    rw [← List.append_assoc, hframe]
    simp
  have hwithout : received ++ (lead ++ List.replicate (count + 3) 120) =
      first :: sep :: (key ++ List.replicate (count + 3) 120) := by
    rw [← List.append_assoc, hframe]
    rfl
  have hlength : (received ++ (lead ++ bar :: List.replicate (count + 2) 120)).length = size := by
    rw [hwith, List.length_append, List.length_replicate]
    simp only [List.length_cons, List.length_append, List.length_nil]
    omega
  have hlength' : (received ++ (lead ++ List.replicate (count + 3) 120)).length = size := by
    rw [hwithout]
    simp only [List.length_cons, List.length_append, List.length_replicate]
    omega
  have hdata : dataField (received ++ (lead ++ bar :: List.replicate (count + 2) 120)) ≠ [] := by
    rw [hwith, dataField_append_replicate hfirst hsep hkeyBar hkeyNul List.not_mem_nil (by decide)
      (count + 1) (by rwa [← hwith, hlength])]
    exact List.cons_ne_nil _ _
  have hignored : Ignored (received ++ (lead ++ List.replicate (count + 3) 120)) := by
    refine .inl ⟨(command_append hne _).trans hset, ?_⟩
    rw [hwithout]
    exact dataField_of_notMem first sep (not_mem_append_replicate hkeyBar (by decide) _)
  have hops := ops_eq_of_actsOnReceived hne hacts hlength hlength'
  rw [ops_router_set hscan (indexesFit_of_le (by rwa [hlength]))
      ((command_append hne _).trans hset) hdata,
    ops_router_ignored hscan (indexesFit_of_le (by rwa [hlength'])) hignored] at hops
  exact absurd (List.append_right_eq_self.mp hops) (List.cons_ne_nil _ _)

/-- Without a separator, stale bytes become part of the key. -/
theorem not_actsOnReceived_reads {peer : Peer} (hscan : env.heap.ScansEnd)
    (hne : received ≠ []) (hnul : 0 ∉ received) (hmax : (size : Int) ≤ intMax)
    (hreads : command received = cmdGet ∨ command received = cmdDelete)
    (hbar : bar ∉ received.drop 2) (hroom : max received.length 2 + 1 ≤ size) :
    ¬ActsOnReceived env peer received size := by
  intro hacts
  obtain ⟨first, sep, key, lead, hframe, hfirst, hsep, hkeyBar, hkeyNul, hkeyLength⟩ :=
    exists_frame_append hne hnul hbar
  obtain ⟨count, hcount⟩ := Nat.exists_eq_add_of_le hroom
  have hmessage (filler : Byte) : received ++ (lead ++ List.replicate (count + 1) filler) =
      first :: sep :: (key ++ List.replicate (count + 1) filler) := by
    rw [← List.append_assoc, hframe]
    rfl
  have hlength (filler : Byte) :
      (received ++ (lead ++ List.replicate (count + 1) filler)).length = size := by
    rw [hmessage]
    simp only [List.length_cons, List.length_append, List.length_replicate]
    omega
  have hfield {filler : Byte} (hnotBar : bar ≠ filler) (hnotNul : 0 ≠ filler) :
      keyField (received ++ (lead ++ List.replicate (count + 1) filler)) =
        key ++ List.replicate (count + 1) filler := by
    rw [hmessage, keyField_of_notMem hfirst hsep (not_mem_append_replicate hkeyBar hnotBar _),
      text_of_notMem (not_mem_append_replicate hkeyNul hnotNul _)]
  have hkey {filler : Byte} (hnotBar : bar ≠ filler) (hnotNul : 0 ≠ filler) :
      keyField (received ++ (lead ++ List.replicate (count + 1) filler)) ≠ [] := by
    rw [hfield hnotBar hnotNul, List.replicate_succ]
    exact List.append_ne_nil_of_right_ne_nil _ (List.cons_ne_nil _ _)
  have hends {filler : Byte} (hnotBar : bar ≠ filler) :
      keyEnd (received ++ (lead ++ List.replicate (count + 1) filler)) =
        2 + (key.length + (count + 1)) := by
    rw [hmessage, keyEnd_of_notMem first sep (not_mem_append_replicate hkeyBar hnotBar _),
      List.length_append, List.length_replicate]
  have hops := ops_eq_of_actsOnReceived hne hacts (hlength 120) (hlength 121)
  have hvisible : visibleKey env.heap (received ++ (lead ++ List.replicate (count + 1) 120)) =
      visibleKey env.heap (received ++ (lead ++ List.replicate (count + 1) 121)) := by
    rcases hreads with hget | hdelete
    · rw [ops_router_get hscan (indexesFit_of_le (by rwa [hlength]))
          ((command_append hne _).trans hget),
        ops_router_get hscan (indexesFit_of_le (by rwa [hlength]))
          ((command_append hne _).trans hget), seen_key, seen_key,
        if_neg (hkey (by decide) (by decide)), if_neg (hkey (by decide) (by decide))] at hops
      simpa using List.append_cancel_left hops
    · rw [ops_router_delete hscan (indexesFit_of_le (by rwa [hlength]))
          ((command_append hne _).trans hdelete) (hkey (by decide) (by decide)),
        ops_router_delete hscan (indexesFit_of_le (by rwa [hlength]))
          ((command_append hne _).trans hdelete) (hkey (by decide) (by decide))] at hops
      simpa using List.append_cancel_left hops
  rw [visibleKey, visibleKey, hends (by decide), hends (by decide),
    hfield (by decide) (by decide), hfield (by decide) (by decide)] at hvisible
  exact visible_append_replicate_ne key count _ _ hvisible

/-- The callback acts only on the received bytes exactly when these close every
field that is read. -/
theorem stale_bytes_iff (env : Env) (hscan : env.heap.ScansEnd) (peer : Peer)
    (received : List Byte) (hne : received ≠ []) (size : Nat) (hsize : received.length ≤ size)
    (hmax : (size : Int) ≤ intMax) :
    ActsOnReceived env peer received size ↔ Closed received size := by
  constructor
  · intro hacts
    by_contra hopen
    obtain ⟨hroom, hopen⟩ := not_or.mp hopen
    obtain ⟨hnul, hopen⟩ := not_or.mp hopen
    obtain ⟨hknown, hopen⟩ := not_or.mp hopen
    obtain ⟨hsetOpen, hreadsOpen⟩ := not_or.mp hopen
    have hlt : received.length < size := Nat.lt_of_le_of_ne hsize (Ne.symm hroom)
    by_cases hset : command received = cmdSet
    · by_cases hbar : bar ∈ received.drop 2
      · have hone : received.length + 1 ≠ size := fun heq =>
          hsetOpen ⟨hset, .inl ⟨hbar, heq.symm⟩⟩
        have htwo : received.length + 2 ≤ size := Nat.lt_of_le_of_ne hlt hone
        exact not_actsOnReceived_set hscan hnul hmax hset hbar htwo hacts
      · have hlarge : max received.length 2 + 2 < size := Nat.lt_of_not_le fun hle =>
          hsetOpen ⟨hset, .inr ⟨hbar, hle⟩⟩
        exact not_actsOnReceived_set_of_notMem hscan hne hnul hmax hset hbar hlarge hacts
    · have hreads : command received = cmdGet ∨ command received = cmdDelete := by
        by_contra hother
        exact hknown ⟨hset, not_or.mp hother⟩
      have hbar : bar ∉ received.drop 2 := fun hmem => hreadsOpen ⟨hreads, .inl hmem⟩
      have hlong : 2 < size := Nat.lt_of_not_le fun hle => hreadsOpen ⟨hreads, .inr hle⟩
      exact not_actsOnReceived_reads hscan hne hnul hmax hreads hbar (Nat.max_lt.mpr ⟨hlt, hlong⟩)
        hacts
  · intro hclosed stale stale' hstale hstale'
    have hrouter := router_of_closed hscan hne hmax hclosed hstale hstale'
    exact congrFun (onReadCb_congr (nread_pos hne) hrouter) peer

/-- `1|k|v|` in a buffer of the size that libuv suggests, on an open store. -/
theorem stale_bytes_iff_suggested :
    let env : Env := ⟨⟨fun _ => [0], fun _ => 0⟩, .ok⟩
    let store : Store := { isOk := true, db := .opened (some ∅), misuse := [] }
    ¬ActsOnReceived env ⟨⟨store, []⟩, [], false⟩ [49, 124, 107, 124, 118, 124] 65536 := by
  intro env store
  rw [stale_bytes_iff env (fun _ => List.mem_cons_self) ⟨⟨store, []⟩, [], false⟩
    [49, 124, 107, 124, 118, 124] (List.cons_ne_nil _ _) 65536 (by decide) (by decide)]
  unfold Closed
  decide

/-- The value stored for `1|k|v|` ends with what the buffer held before. -/
theorem set_stores_stale_bytes :
    let env : Env := ⟨⟨fun _ => [0], fun _ => 0⟩, .ok⟩
    let store : Store := { isOk := true, db := .opened (some ∅), misuse := [] }
    ¬ActsOnReceived env ⟨⟨store, []⟩, [], false⟩ [49, 124, 107, 124, 118, 124] 8 := by
  intro env store hacts
  have hpeer := hacts [120, 120] [121, 121] rfl rfl
  have hops := congrArg (fun result => result.2.session.ops) hpeer
  revert hops
  decide +kernel

end CcCvStore.StaleBytes
