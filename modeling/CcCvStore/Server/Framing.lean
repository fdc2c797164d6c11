import CcCvStore.Core.StreamCut
import CcCvStore.Server.ReadCallback
import CcCvStore.Store.StoredValues

/-!
# Requests on a stream

TCP carries a stream of bytes, and every piece of it that libuv reads is handed
to the router as one message.  Nothing in the server puts pieces together or
takes them apart, so a list of requests is handled as such only when every
request arrives in a read of its own.
-/

namespace CcCvStore.Framing

open CcCvStore.Effect
open CcCvStore.CInteger
open CcCvStore.CString
open CcCvStore.StrSlice
open CcCvStore.Message
open CcCvStore.WireFormat
open CcCvStore.Backend
open CcCvStore.StoreEffects
open CcCvStore.StoredValues
open CcCvStore.StreamCut
open CcCvStore.Router
open CcCvStore.Requests
open CcCvStore.ReadCallback

/-- The size libuv suggests for every read buffer. -/
def suggestedSize : Nat := 65536

/-- The reads of a connection one after the other, each in a buffer that it
fills; `env count` is what read number `count` finds. -/
def serve (env : Nat → Env) : Nat → List (List Byte) → Exec Fault Peer Unit
  | _, [] => return ()
  | count, received :: reads => do
      onReadCb (env count) received.length (readBuffer (env count).heap received [])
      serve env (count + 1) reads

/-- The store call a request is for. -/
def storeOp : Request → StoreOp
  | .set key value => .set (some key.bytes) (some value.bytes)
  | .get key => .get (some key.bytes)
  | .delete key => .delete (some key.bytes)

/-- The reads end without a fault, make the store calls of the requests, each
once and in order, and send the replies that are sent when every request has a
read of its own. -/
structure HandledAs (env : Nat → Env) (peer : Peer) (requests : List Request)
    (reads : List (List Byte)) : Prop where
  ends : (serve env 0 reads peer).1 = .ok ()
  ops : (serve env 0 reads peer).2.session.ops = peer.session.ops ++ requests.map storeOp
  sent : (serve env 0 reads peer).2.sent =
    (serve env 0 (requests.map Request.encode) peer).2.sent

/-- A value a `GET` can answer with: it is no empty string and leaves room for a
key in an `int`. -/
def Servable (data : SqlValue) : Prop :=
  text (columnBlob data) ≠ [] ∧ ((columnBlob data).length + suggestedSize : Int) ≤ intMax

theorem le_intMax_of_le {size : Nat} (hsize : size ≤ suggestedSize) : (size : Int) ≤ intMax := by
  simp only [suggestedSize, intMax] at *
  omega

/-! ## What a message asks for -/

/-- A field as the string it is taken for. -/
def fieldString (field : List Byte) : Option (List Byte) :=
  if field = [] then none else some field

/-- The store calls that a message makes. -/
def asked (message : List Byte) : List StoreOp :=
  if command message = cmdSet then
    if dataField message = [] then []
    else [.set (fieldString (keyField message)) (some (dataField message))]
  else if command message = cmdGet then [.get (fieldString (keyField message))]
  else if command message = cmdDelete then [.delete (fieldString (keyField message))]
  else []

theorem length_asked_le (message : List Byte) : (asked message).length ≤ 1 := by
  unfold asked
  split_ifs <;> simp

theorem fieldString_eq_some {field bytes : List Byte} (hfield : fieldString field = some bytes) :
    field = bytes ∧ field ≠ [] := by
  unfold fieldString at hfield
  split_ifs at hfield with hnil
  exact ⟨Option.some.inj hfield, hnil⟩

theorem fieldString_of_ne {field : List Byte} (hne : field ≠ []) :
    fieldString field = some field := if_neg hne

theorem seen_key_of_terminated {heap : Heap} (hterminated : heap.Terminated)
    (message : List Byte) :
    seen (parsedTask heap message).key = fieldString (keyField message) := by
  rw [seen_key, visibleKey_of_terminated hterminated, fieldString]

variable {env : Env} {message : List Byte}

/-- A router that returns has made the calls the message asks for. -/
theorem ops_router (hterminated : env.heap.Terminated) (hfit : IndexesFit message)
    {session : Session} {data : Ptr}
    (hok : (router env (env.heap.received message) session).1 = .ok data) :
    (router env (env.heap.received message) session).2.ops = session.ops ++ asked message := by
  have hscan := hterminated.scansEnd
  by_cases hset : command message = cmdSet
  · by_cases hdata : dataField message = []
    · rw [ops_router_ignored hscan hfit (.inl ⟨hset, hdata⟩), asked, if_pos hset, if_pos hdata,
        List.append_nil]
    · rw [ops_router_set hscan hfit hset hdata, asked, if_pos hset, if_neg hdata,
        seen_key_of_terminated hterminated, visibleData_of_terminated hterminated]
  by_cases hget : command message = cmdGet
  · rw [ops_router_get hscan hfit hget, asked, if_neg hset, if_pos hget,
      seen_key_of_terminated hterminated]
  by_cases hdelete : command message = cmdDelete
  · by_cases hkey : keyField message = []
    · have hnone : (parsedTask env.heap message).key = none := (key_eq_none_iff _ _).mpr hkey
      have hfault : (parsedTask env.heap message).key.str = .error .nullArgument := by
        rw [hnone]
        rfl
      obtain ⟨fault, -, herror⟩ := respond_key_error env (.inr (.inl hdelete)) hfault session
      rw [router_received env (List.mem_append_right _ (hscan _)) hfit, herror] at hok
      contradiction
    · rw [ops_router_delete hscan hfit hdelete hkey, asked, if_neg hset, if_neg hget,
        if_pos hdelete, visibleKey_of_terminated hterminated, fieldString_of_ne hkey]
  · rw [ops_router_ignored hscan hfit (.inr ⟨hset, hget, hdelete⟩), asked, if_neg hset,
      if_neg hget, if_neg hdelete, List.append_nil]

/-! ## Messages that ask for what a request asks for -/

theorem length_keyField_le (hkey : keyField message ≠ []) :
    (keyField message).length ≤ keyEnd message - 2 ∧ keyEnd message ≤ message.length := by
  have hlong : ¬message.length ≤ 2 := fun hshort => hkey (window_of_short hshort _)
  exact ⟨length_window_le _ _ _, keyEnd_le message (by omega)⟩

theorem starts_of_command (hcmd : command message ≠ 0) : Starts bar message := by
  cases message with
  | nil => exact absurd rfl hcmd
  | cons first rest =>
      refine ⟨first, rest, rfl, ?_⟩
      rintro rfl
      exact hcmd rfl

theorem cmd_ne_zero (request : Request) : request.cmd ≠ 0 := by
  cases request with
  | set key value => exact (by decide : cmdSet ≠ 0)
  | get key => exact (by decide : cmdGet ≠ 0)
  | delete key => exact (by decide : cmdDelete ≠ 0)

theorem isFrame_encode (request : Request) : IsFrame bar request.encode := by
  cases request with
  | set key value =>
      refine ⟨digitSet, key.bytes ++ bar :: value.bytes, ?_⟩
      rw [Request.encode, List.append_assoc, List.cons_append]
  | get key => exact ⟨digitGet, key.bytes, rfl⟩
  | delete key => exact ⟨digitDelete, key.bytes, rfl⟩

/-- A message that asks for the call of a request has its fields. -/
theorem fields_of_asked {request : Request} (hasked : asked message = [storeOp request]) :
    command message = request.cmd ∧ fieldString (keyField message) = some request.key.bytes ∧
      ∀ bytes, request.data? = some bytes → dataField message = bytes := by
  unfold asked at hasked
  split_ifs at hasked with hset hdata hget hdelete <;> cases request <;>
    simp_all [storeOp, Request.cmd, Request.key, Request.data?]

/-- Such a message is short of the request by no more than the last separator. -/
theorem fits_of_asked {request : Request} (hasked : asked message = [storeOp request]) :
    Fits bar message request.encode := by
  obtain ⟨hcmd, hstring, hdata⟩ := fields_of_asked hasked
  obtain ⟨hkey, hne⟩ := fieldString_eq_some hstring
  obtain ⟨hkeyLength, hend⟩ := length_keyField_le hne
  have hkeyPos := List.length_pos_of_ne_nil hne
  rw [hkey] at hkeyLength hkeyPos
  refine ⟨isFrame_encode request, ?_, ?_⟩
  · apply starts_of_command
    rw [hcmd]
    exact cmd_ne_zero request
  · cases request with
    | set key value =>
        have hdataLength : (dataField message).length ≤ dataSize message :=
          length_window_le _ _ _
        have hdataPos := List.length_pos_of_ne_nil value.ne_nil
        have hsize := dataSize_le message
        rw [hdata value.bytes rfl] at hdataLength
        simp only [Request.encode, Request.key, List.length_cons, List.length_append,
          List.length_nil] at *
        omega
    | get key | delete key =>
        simp only [Request.encode, Request.key, List.length_cons, List.length_append,
          List.length_nil] at *
        omega

theorem asked_encode {request : Request} (hlength : (request.encode.length : Int) ≤ intMax) :
    asked request.encode = [storeOp request] := by
  have hcmd := command_encode request
  have hkey := keyField_encode request
  have hdata := dataField_encode request hlength
  have hkeyString := fieldString_of_ne request.key.ne_nil
  rw [asked, hcmd, hkey, hdata, hkeyString]
  cases request with
  | set key value =>
      rw [if_pos (show (Request.set key value).cmd = cmdSet from rfl)]
      exact if_neg value.ne_nil
  | get key => rfl
  | delete key => rfl

/-! ## One read -/

/-- A callback that returns made the router return and sent one reply. -/
theorem onReadCb_ok {nread : Int} (hnread : 0 < nread) {buf : UvBuf} {peer : Peer}
    (hok : (onReadCb env nread buf peer).1 = .ok ()) :
    (∃ data, (router env buf peer.session).1 = .ok data) ∧
      (onReadCb env nread buf peer).2.sent.length = peer.sent.length + 1 := by
  rw [onReadCb_apply hnread] at hok ⊢
  cases hrouter : (router env buf peer.session).1 with
  | error fault =>
      rw [hrouter] at hok
      contradiction
  | ok data =>
      rw [hrouter] at hok
      rw [ok_bind] at hok ⊢
      cases hstr : data.str with
      | error fault =>
          rw [hstr] at hok
          contradiction
      | ok bytes => exact ⟨⟨data, rfl⟩, by rw [List.length_append, List.length_singleton]⟩

theorem length_sent_onReadCb_le {nread : Int} (hnread : 0 < nread) (buf : UvBuf) (peer : Peer) :
    (onReadCb env nread buf peer).2.sent.length ≤ peer.sent.length + 1 := by
  rw [onReadCb_apply hnread]
  cases (router env buf peer.session).1 >>= fun data => data.str with
  | error fault => exact Nat.le_succ _
  | ok bytes => rw [List.length_append, List.length_singleton]

/-- A reply in a block that can be had is sent. -/
theorem onReadCb_formatted (hterminated : env.heap.Terminated) {nread : Int}
    (hnread : 0 < nread) {buf : UvBuf} {peer : Peer} {msgLen : Int} {output : List Byte}
    {after : Session} (hmin : 0 ≤ msgLen) (hmax : msgLen ≤ intMax)
    (hrouter : router env buf peer.session = (formatted env.heap (toInt msgLen) output, after)) :
    (onReadCb env nread buf peer).1 = .ok () ∧
      (onReadCb env nread buf peer).2.session = after := by
  rw [toInt_of_range (Int.le_trans (by decide) hmin) hmax] at hrouter
  have hreply : ∃ data bytes, formatted env.heap msgLen output = .ok data ∧
      data.str = .ok bytes := by
    by_cases hzero : msgLen = 0
    · subst hzero
      have hmem : 0 ∈ (⟨[], env.heap.beyond .reply⟩ : Buf).memory := hterminated.scansEnd .reply
      exact ⟨_, _, formatted_zero env.heap output, str_of_mem hmem⟩
    · obtain ⟨rest, hformatted⟩ := formatted_of_pos env.heap (by omega : 0 < msgLen) hmax output
      exact ⟨_, _, hformatted, str_of_mem (by simp [Buf.memory])⟩
  obtain ⟨data, bytes, hformatted, hstr⟩ := hreply
  rw [onReadCb_apply hnread, hrouter]
  dsimp only
  rw [hformatted, ok_bind, hstr]
  exact ⟨rfl, rfl⟩

/-! ## Requests in reads of their own -/

theorem readBuffer_nil (heap : Heap) (received : List Byte) :
    readBuffer heap received [] = heap.received received := by
  rw [readBuffer, List.append_nil]

theorem encode_ne_nil (request : Request) : request.encode ≠ [] := by
  cases request <;> exact List.cons_ne_nil _ _

theorem key_length_le (request : Request) :
    request.key.bytes.length + 3 ≤ request.encode.length := by
  cases request <;> simp only [Request.encode, Request.key, List.length_cons,
    List.length_append, List.length_nil] <;> omega

theorem servable_bindBlob {outcome : Outcome} (hbind : outcome.bindBlob = true) (value : Value)
    (hlength : value.bytes.length ≤ suggestedSize) : Servable (bindBlob outcome value.bytes) := by
  have hmax : (value.bytes.length : Int) + suggestedSize ≤ intMax := by
    simp only [suggestedSize, intMax] at *
    omega
  rw [OpenStore.bindBlob_of_le outcome (by omega), hbind, if_pos rfl]
  refine ⟨?_, hmax⟩
  rw [columnBlob, text_of_notMem value.zero_notMem]
  exact value.ne_nil

/-- A request that leaves servable values is answered and leaves them so. -/
theorem onReadCb_servable (hterminated : env.heap.Terminated) {nread : Int}
    (hnread : 0 < nread) {buf : UvBuf} {peer : Peer} {msgLen : Int} {output : List Byte}
    {after : Session} (hmin : 0 ≤ msgLen) (hmax : msgLen ≤ intMax)
    (hrouter : router env buf peer.session = (formatted env.heap (toInt msgLen) output, after))
    (hafter : StoresOnly Servable after.store) :
    (onReadCb env nread buf peer).1 = .ok () ∧
      StoresOnly Servable (onReadCb env nread buf peer).2.session.store := by
  obtain ⟨hok, hsession⟩ := onReadCb_formatted hterminated hnread hmin hmax hrouter
  rw [hsession]
  exact ⟨hok, hafter⟩

/-- A request in a read of its own is answered, and what it stores can be
answered with. -/
theorem onReadCb_encode (hterminated : env.heap.Terminated)
    (hbind : env.outcomes.insert.bindBlob = true) (request : Request)
    (hlength : request.encode.length ≤ suggestedSize) {peer : Peer}
    (hstore : StoresOnly Servable peer.session.store) :
    (onReadCb env request.encode.length (readBuffer env.heap request.encode []) peer).1 = .ok () ∧
      StoresOnly Servable (onReadCb env request.encode.length
        (readBuffer env.heap request.encode []) peer).2.session.store := by
  have hpos := nread_pos (encode_ne_nil request)
  have hkey := key_length_le request
  have hkeyPos := List.length_pos_of_ne_nil request.key.ne_nil
  have hmax := le_intMax_of_le hlength
  rw [readBuffer_nil]
  cases request with
  | set key value =>
      have hvalue : value.bytes.length ≤ suggestedSize := by
        simp only [Request.encode, List.length_cons, List.length_append, List.length_nil] at hlength
        omega
      exact onReadCb_servable hterminated hpos
        (by omega) (by simp only [Request.key, suggestedSize, intMax] at *; omega)
        (router_set_encode hterminated key value hmax peer.session)
        (storesOnly_setResult hstore _ _ (servable_bindBlob hbind value hvalue))
  | delete key =>
      exact onReadCb_servable hterminated hpos
        (by omega) (by simp only [Request.key, suggestedSize, intMax] at *; omega)
        (router_delete_encode hterminated key hmax peer.session)
        (storesOnly_removeResult hstore _ _)
  | get key =>
      have hrouter := router_get_encode hterminated key hmax peer.session
      cases hdata : lookupData peer.session.store env.outcomes.select key.bytes with
      | none =>
          rw [hdata] at hrouter
          exact onReadCb_servable hterminated hpos
            (by simp only [Request.key] at *; omega)
            (by simp only [Request.key, suggestedSize, intMax] at *; omega) hrouter
            (storesOnly_used hstore)
      | some data =>
          obtain ⟨hne, hroom⟩ := of_lookupData hstore hdata
          have hvaluePos := List.length_pos_of_ne_nil hne
          have hvalueLength := (text_isPrefix (columnBlob data)).length_le
          rw [hdata] at hrouter
          exact onReadCb_servable hterminated hpos
            (by simp only [Request.key] at *; omega)
            (by simp only [Request.key, suggestedSize, intMax] at *; omega) hrouter
            (storesOnly_used hstore)

/-! ## Runs -/

variable {envs : Nat → Env}

/-- A run of requests in reads of their own ends without a fault. -/
theorem serve_encode (hterminated : ∀ count, (envs count).heap.Terminated)
    (hbind : ∀ count, (envs count).outcomes.insert.bindBlob = true) {requests : List Request}
    (hlength : ∀ request ∈ requests, request.encode.length ≤ suggestedSize) {peer : Peer}
    (hstore : StoresOnly Servable peer.session.store) (count : Nat) :
    (serve envs count (requests.map Request.encode) peer).1 = .ok () := by
  induction requests generalizing count peer with
  | nil => rfl
  | cons request requests ih =>
      obtain ⟨hok, hafter⟩ := onReadCb_encode (hterminated count) (hbind count) request
        (hlength request List.mem_cons_self) hstore
      rw [List.map_cons, serve, bind_of_ok (Prod.ext hok rfl)]
      exact ih (fun request hmem => hlength request (List.mem_cons_of_mem _ hmem)) hafter _

/-- However a run ends, it sends no more than one reply for each read. -/
theorem length_sent_serve_le {reads : List (List Byte)} (hne : ∀ read ∈ reads, read ≠ [])
    (count : Nat) (peer : Peer) :
    (serve envs count reads peer).2.sent.length ≤ peer.sent.length + reads.length := by
  induction reads generalizing count peer with
  | nil => exact Nat.le_refl _
  | cons read reads ih =>
      have hpos := nread_pos (hne read List.mem_cons_self)
      have hsent : (onReadCb (envs count) read.length (readBuffer (envs count).heap read [])
          peer).2.sent.length ≤ peer.sent.length + 1 := length_sent_onReadCb_le hpos _ _
      have hrest := ih (fun read hmem => hne read (List.mem_cons_of_mem _ hmem)) (count + 1)
      rw [serve, bind_apply, List.length_cons]
      rcases hrun : onReadCb (envs count) read.length (readBuffer (envs count).heap read []) peer
        with ⟨result, after⟩
      rw [hrun] at hsent
      cases result with
      | error fault =>
          dsimp only at hsent ⊢
          omega
      | ok done =>
          have := hrest after
          dsimp only at hsent ⊢
          omega

/-- A run that ends without a fault makes the calls its reads ask for and sends
one reply for each. -/
theorem serve_ok (hterminated : ∀ count, (envs count).heap.Terminated)
    {reads : List (List Byte)} (hne : ∀ read ∈ reads, read ≠ [])
    (hlength : ∀ read ∈ reads, (read.length : Int) ≤ intMax) {count : Nat} {peer : Peer}
    (hok : (serve envs count reads peer).1 = .ok ()) :
    (serve envs count reads peer).2.session.ops = peer.session.ops ++ reads.flatMap asked ∧
      (serve envs count reads peer).2.sent.length = peer.sent.length + reads.length := by
  induction reads generalizing count peer with
  | nil => exact ⟨(List.append_nil _).symm, rfl⟩
  | cons read reads ih =>
      have hpos := nread_pos (hne read List.mem_cons_self)
      have hfit := indexesFit_of_le (hlength read List.mem_cons_self)
      rw [serve, bind_apply] at hok ⊢
      rcases hrun : onReadCb (envs count) read.length (readBuffer (envs count).heap read []) peer
        with ⟨result, after⟩
      rw [hrun] at hok
      cases result with
      | error fault => contradiction
      | ok done =>
          obtain ⟨⟨data, hrouter⟩, hsent⟩ := onReadCb_ok hpos (congrArg Prod.fst hrun)
          have hsession : (onReadCb (envs count) read.length
              (readBuffer (envs count).heap read []) peer).2.session = _ :=
            session_onReadCb hpos _ _
          rw [readBuffer_nil] at hrouter
          rw [hrun] at hsent hsession
          rw [readBuffer_nil] at hsession
          have hops := ops_router (hterminated count) hfit hrouter
          rw [← hsession] at hops
          obtain ⟨hrestOps, hrestSent⟩ := ih
            (fun read hmem => hne read (List.mem_cons_of_mem _ hmem))
            (fun read hmem => hlength read (List.mem_cons_of_mem _ hmem)) hok
          constructor
          · rw [hrestOps, hops, List.flatMap_cons, List.append_assoc]
          · rw [hrestSent, hsent, List.length_cons]
            omega

theorem flatMap_asked_encode {requests : List Request}
    (hlength : ∀ request ∈ requests, (request.encode.length : Int) ≤ intMax) :
    (requests.map Request.encode).flatMap asked = requests.map storeOp := by
  induction requests with
  | nil => rfl
  | cons request requests ih =>
      rw [List.map_cons, List.flatMap_cons, List.map_cons,
        asked_encode (hlength request List.mem_cons_self),
        ih fun request hmem => hlength request (List.mem_cons_of_mem _ hmem)]
      rfl

/-- The server handles a list of requests as such exactly when each of them
arrives in a read of its own. -/
theorem framing_iff (env : Nat → Env) (hterminated : ∀ count, (env count).heap.Terminated)
    (hbind : ∀ count, (env count).outcomes.insert.bindBlob = true) (peer : Peer)
    (hstore : StoresOnly Servable peer.session.store) (requests : List Request)
    (reads : List (List Byte)) (hne : ∀ read ∈ reads, read ≠ [])
    (hlength : ∀ read ∈ reads, read.length ≤ suggestedSize)
    (hcut : reads.flatten = (requests.map Request.encode).flatten) :
    HandledAs env peer requests reads ↔ reads = requests.map Request.encode := by
  have hmax : ∀ read ∈ reads, (read.length : Int) ≤ intMax := fun read hread =>
    le_intMax_of_le (hlength read hread)
  constructor
  · rintro ⟨hends, hops, hsent⟩
    obtain ⟨hasked, hcount⟩ := serve_ok hterminated hne hmax hends
    have hown : (serve env 0 (requests.map Request.encode) peer).2.sent.length ≤
        peer.sent.length + (requests.map Request.encode).length :=
      length_sent_serve_le (by simp [encode_ne_nil]) 0 peer
    rw [hasked] at hops
    rw [← hsent, hcount, List.length_map] at hown
    have hpairs := forall₂_of_flatMap_eq length_asked_le (by omega)
      (List.append_cancel_left hops)
    have hfits : List.Forall₂ (Fits bar) reads (requests.map Request.encode) := by
      rw [List.forall₂_map_right_iff]
      exact hpairs.imp fun read request => fits_of_asked
    exact eq_of_flatten_eq hfits hcut
  · intro hown
    subst hown
    have hserved := serve_encode hterminated hbind
      (fun request hmem => hlength _ (List.mem_map_of_mem hmem)) hstore 0
    refine ⟨hserved, ?_, rfl⟩
    rw [(serve_ok hterminated hne hmax hserved).1, flatMap_asked_encode fun request hmem =>
      hmax _ (List.mem_map_of_mem hmem)]

/-- A `SET` and a `GET` of its key on an open and empty store. -/
theorem framing_iff_own :
    let env : Nat → Env := fun _ => ⟨⟨fun _ => [0], fun _ => 0⟩, .ok⟩
    let store : Store := { isOk := true, db := .opened (some ∅), misuse := [] }
    let key : Key := ⟨[107], by decide, by decide, by decide⟩
    let value : Value := ⟨[118], by decide, by decide⟩
    HandledAs env ⟨⟨store, []⟩, [], false⟩ [.set key value, .get key]
      [[49, 124, 107, 124, 118, 124], [50, 124, 107, 124]] := by
  intro env store key value
  have hstore : StoresOnly Servable store := by
    intro table htable
    cases htable
    exact rowsOnly_empty
  exact (framing_iff env (fun _ _ => ⟨[], rfl⟩) (fun _ => rfl) ⟨⟨store, []⟩, [], false⟩ hstore
    [.set key value, .get key] [[49, 124, 107, 124, 118, 124], [50, 124, 107, 124]] (by decide)
    (by decide) rfl).mpr rfl

/-- Two `SET` requests in one read: the second becomes part of the first value. -/
theorem requests_merged :
    let env : Nat → Env := fun _ => ⟨⟨fun _ => [0], fun _ => 0⟩, .ok⟩
    let store : Store := { isOk := true, db := .opened (some ∅), misuse := [] }
    let key : Key := ⟨[107], by decide, by decide, by decide⟩
    let other : Key := ⟨[108], by decide, by decide, by decide⟩
    let value : Value := ⟨[118], by decide, by decide⟩
    ¬HandledAs env ⟨⟨store, []⟩, [], false⟩ [.set key value, .set other value]
      [[49, 124, 107, 124, 118, 124, 49, 124, 108, 124, 118, 124]] := by
  intro env store key other value hhandled
  have hops := hhandled.ops
  revert hops
  decide +kernel

end CcCvStore.Framing
