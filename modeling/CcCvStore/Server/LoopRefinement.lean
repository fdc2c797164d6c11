import CcCvStore.Server.Conversations

/-!
# The loop refines the conversations

Every callback leaves the blocks of the server where the conversations say they
are.  A request's read buffer is gone when its reply waits, and a reply is gone
with its request when the write is over.
-/

namespace CcCvStore.Conversations

open CcCvStore.Effect
open CcCvStore.CInteger
open CcCvStore.CString
open CcCvStore.Heap
open CcCvStore.Message
open CcCvStore.Router
open CcCvStore.ReadCallback
open CcCvStore.RequestMemory
open CcCvStore.Simulation
open CcCvStore.EventLoop
open CcCvStore.Ownership
open CcCvStore.Runs

variable {server : Server} {client : Nat} {env : Env} {nread : Int} {base : Address}
  {ledger : Ledger Cell}

/-! ## What the callbacks do to their blocks -/

theorem readBufferAt_of_mem {memory : Memory Cell} (hholds : Holds memory ledger)
    {contents : List Byte} (hmem : (base, .readBuffer contents) ∈ ledger) :
    readBufferAt memory base = .ok contents := by
  rw [readBufferAt, hholds.load_of_mem hmem]

theorem exists_of_str {data : Ptr} {bytes : List Byte} (hstr : data.str = .ok bytes) :
    ∃ buf rest, data = some buf ∧ buf.memory = bytes ++ rest := by
  cases data with
  | none => contradiction
  | some buf =>
      rw [Ptr.str] at hstr
      split at hstr
      next hnul =>
        cases hstr
        obtain ⟨rest, hrest⟩ := exists_eq_text_append hnul
        exact ⟨buf, _, rfl, hrest⟩
      next => contradiction

/-- The string the router returns for the contents of a read buffer. -/
def routed (env : Env) (contents : List Byte) (session : Session) : Except Fault (List Byte) :=
  (router env (env.heap.received contents) session).1 >>= fun data => data.str

/-- A request on a memory with these blocks stops where the router does, or
leaves its reply and the copies it loses. -/
theorem runIn_routerIn {work : Work} (hholds : Holds work.memory ledger) (buf : UvBuf) :
    (∃ fault, (router env buf work.session).1 = .error fault ∧
      runIn (routerIn env buf) work = .error (.code fault)) ∨
    (∃ (reply : Option Kept) (copies : List Kept) (memory : Memory Cell),
      (router env buf work.session).1 = .ok (reply.map Kept.buf) ∧
      runIn (routerIn env buf) work = .ok (reply.map Kept.address,
        ⟨memory, (router env buf work.session).2⟩) ∧
      copies.length = lostIn env buf work.session.store ∧
      Holds memory (cells reply.toList ++ (cells copies ++ ledger))) := by
  have hsimulates := routerIn_simulates env buf hholds
  unfold Simulates at hsimulates
  rw [runIn]
  revert hsimulates
  rcases routerIn env buf work with ⟨stopped | pointer, after⟩ <;>
    rcases router env buf work.session with ⟨fault | ptr, session⟩
  · rintro rfl
    exact .inl ⟨fault, rfl, rfl⟩
  · exact False.elim
  · exact False.elim
  · rintro ⟨hsession, reply, copies, rfl, rfl, hlength, hmemory⟩
    subst hsession
    exact .inr ⟨reply, copies, after.memory, rfl, rfl, hlength, hmemory⟩

/-- The two blocks of a read, beneath those of its request. -/
theorem perm_beneath (reply copies : List Kept) (req buffer : Address × Cell) :
    (cells reply ++ (cells copies ++ (req :: buffer :: ledger))).Perm
      (req :: buffer :: (cells reply ++ (cells copies ++ ledger))) := by
  have hcopies : (cells copies ++ (req :: buffer :: ledger)).Perm
      (req :: buffer :: (cells copies ++ ledger)) :=
    List.perm_append_comm_assoc _ [req, buffer] _
  exact (hcopies.append_left (cells reply)).trans (List.perm_append_comm_assoc _ [req, buffer] _)

/-- A read that brings bytes stops where the request does.  Otherwise its buffer
is given back, and its reply is in the hands of libuv with its request. -/
theorem onReadCb_of_pos (hnread : 0 < nread) {contents : List Byte}
    (hholds : Holds server.memory ((base, .readBuffer contents) :: ledger)) (taken : Bool) :
    (∃ fault, routed env contents server.session = .error fault ∧
      EventLoop.onReadCb server client env nread base taken = .error (.code fault)) ∨
    (∃ bytes memory, ∃ waiting : Waiting, ∃ copies : List Kept,
      routed env contents server.session = .ok bytes ∧
      EventLoop.onReadCb server client env nread base taken =
        .ok (uvWrite
          { server with
            memory
            session := (router env (env.heap.received contents) server.session).2 }
          client waiting.write taken) ∧
      waiting.reply = bytes.take (bytes.length % 4294967296) ∧
      copies.length = lostIn env (env.heap.received contents) server.session.store ∧
      Holds memory (waiting.blocks ++ (cells copies ++ ledger))) := by
  have hreq := hholds.malloc (.writeReq none)
  have hread := readBufferAt_of_mem hreq (List.mem_cons_of_mem _ List.mem_cons_self)
  have hrouter := @runIn_routerIn env _
    ⟨(server.memory.malloc (.writeReq none)).2, server.session⟩ hreq (env.heap.received contents)
  simp only [EventLoop.onReadCb, if_pos hnread, hread, ok_bind, routed]
  rcases hrouter with ⟨fault, hstopped, hrun⟩ | ⟨reply, copies, memory, hreturned, hrun, hlength,
    hmemory⟩
  · rw [hrun, hstopped]
    exact .inl ⟨fault, rfl, rfl⟩
  · have hapart := hmemory.perm (perm_beneath reply.toList copies _ _)
    obtain ⟨freed, hfree, hfreed⟩ := hapart.second.free
    have hdata := charsAt_of_subset hfreed (List.subset_cons_of_subset _
      (List.subset_append_left (cells reply.toList) (cells copies ++ ledger)))
    rw [hrun, hreturned, ok_bind, ok_bind]
    dsimp only
    rw [hfree, onHeap, Except.mapError, ok_bind, hdata, ok_bind]
    cases hstr : Ptr.str (reply.map Kept.buf) with
    | error fault => exact .inl ⟨fault, rfl, rfl⟩
    | ok bytes =>
        right
        obtain ⟨buf, rest, hbuf, hbytes⟩ := exists_of_str hstr
        obtain ⟨string, rfl, rfl⟩ := Option.map_eq_some_iff.mp hbuf
        let waiting : Waiting := ⟨(server.memory.malloc (.writeReq none)).1, string.address,
          string.buf, bytes.length % 4294967296⟩
        obtain ⟨after, hstore, hstored⟩ := hfreed.store (.writeReq (some waiting.write.buf))
        refine ⟨bytes, after, waiting, copies, rfl, ?_, ?_, hlength, hstored⟩
        · rw [inCode, Except.mapError, ok_bind]
          have hlast : freed.store (server.memory.malloc (.writeReq none)).1
              (.writeReq (some ⟨(some string).map Kept.address, bytes.length % 4294967296⟩)) =
                .ok after := hstore
          rw [hlast]
          rfl
        · rw [Waiting.reply, hbytes]
          exact List.take_append_of_le_length (Nat.mod_le _ _)

/-- A read that brings none gives its buffer back. -/
theorem onReadCb_of_nonpos (hnread : ¬0 < nread) {contents : List Byte}
    (hholds : Holds server.memory ((base, .readBuffer contents) :: ledger)) (taken : Bool) :
    ∃ memory, EventLoop.onReadCb server client env nread base taken =
      .ok { (if nread < 0 then uvClose server client else server) with memory } ∧
      Holds memory ledger := by
  obtain ⟨memory, hfree, hfreed⟩ := hholds.free
  refine ⟨memory, ?_, hfreed⟩
  have hmemory : (if nread < 0 then uvClose server client else server).memory =
      server.memory := by
    split <;> rfl
  rw [EventLoop.onReadCb, if_neg hnread]
  dsimp only
  rw [hmemory, hfree]
  rfl

theorem sentFrom_of_mem {memory : Memory Cell} (hholds : Holds memory ledger)
    {waiting : Waiting} (hmem : (waiting.base, .chars waiting.data) ∈ ledger) :
    sentFrom memory waiting.write.buf = .ok waiting.reply := by
  rw [sentFrom, Waiting.write]
  dsimp only
  rw [charsAt, hholds.load_of_mem hmem]
  rfl

/-- A request goes with the reply it sent. -/
theorem freeWriteReq_of_holds {memory : Memory Cell} {waiting : Waiting}
    (hholds : Holds memory (waiting.blocks ++ ledger)) :
    ∃ after, freeWriteReq memory waiting.req = .ok after ∧ Holds after ledger := by
  have hreq : writeReqAt memory waiting.req = .ok ⟨waiting.base, waiting.len⟩ := by
    rw [writeReqAt, hholds.load_of_mem List.mem_cons_self]
  obtain ⟨freed, hfree, hfreed⟩ := hholds.second.free
  obtain ⟨after, hfree', hafter⟩ := hfreed.free
  refine ⟨after, ?_, hafter⟩
  rw [freeWriteReq, hreq, ok_bind]
  simp only [freeAt, hfree, onHeap, Except.mapError, ok_bind, hfree']

/-! ## What a request adds to a conversation -/

theorem answer_of_error {session : Session} (hnread : 0 < nread) {received stale : List Byte}
    {fault : Fault}
    (hrouted : routed env (received ++ stale.drop received.length) session = .error fault) :
    (answer session nread received stale env).1 = .error fault := by
  rw [routed] at hrouted
  simp only [answer, readBuffer, onReadCb_apply hnread, hrouted]

theorem answer_of_ok {session : Session} (hnread : 0 < nread) {received stale bytes : List Byte}
    (hrouted : routed env (received ++ stale.drop received.length) session = .ok bytes) :
    answer session nread received stale env =
      (.ok (), ⟨(router env (env.heap.received
        (received ++ stale.drop received.length)) session).2,
        [bytes.take (bytes.length % 4294967296)], false⟩) := by
  rw [routed] at hrouted
  simp only [answer, readBuffer, onReadCb_apply hnread, hrouted]
  rfl

theorem answer_of_nonpos {session : Session} (hnread : ¬0 < nread) (received stale : List Byte) :
    answer session nread received stale env = (.ok (), ⟨session, [], decide (nread < 0)⟩) := by
  rw [answer, ReadCallback.onReadCb, if_neg hnread]
  by_cases hneg : nread < 0
  · rw [if_pos hneg, decide_eq_true hneg]
    rfl
  · rw [if_neg hneg, decide_eq_false hneg]
    rfl

/-! ## One guest among the others -/

variable {guests : List Guest} {lost : Lost} {guest : Guest}

/-- The blocks of everybody else. -/
def others (guests : List Guest) (client : Nat) (lost : Lost) : Ledger Cell :=
  (guests.eraseIdx client).flatMap Guest.blocks ++ lost.blocks

/-- The blocks of one guest apart. -/
theorem perm_others (hguest : guests[client]? = some guest) (lost : Lost) :
    (guests.flatMap Guest.blocks ++ lost.blocks).Perm
      (guest.blocks ++ others guests client lost) := by
  have hperm := (perm_of_getElem? Guest.blocks hguest).append_right lost.blocks
  rwa [List.append_assoc] at hperm

/-- The same, lost, with more copies of values. -/
def Lost.more (lost : Lost) (copies : List Kept) : Lost :=
  { lost with copies := lost.copies ++ copies }

theorem perm_more (lost : Lost) (copies : List Kept) (ledger : Ledger Cell) :
    (cells copies ++ (ledger ++ lost.blocks)).Perm (ledger ++ (lost.more copies).blocks) := by
  have hblocks : (lost.more copies).blocks = lost.blocks ++ cells copies := by
    rw [Lost.blocks, Lost.blocks, List.append_assoc, Lost.more, cells, cells, cells,
      List.map_append]
  rw [hblocks, ← List.append_assoc ledger]
  exact List.perm_append_comm

namespace Serves

theorem exists_guest (hserves : Serves server guests lost) {P : Connection → Prop}
    (hconnected : server.Connected client P) :
    ∃ guest, guests[client]? = some guest ∧ P guest.connection := by
  obtain ⟨connection, hmem, hP⟩ := hconnected
  rw [hserves.connections, List.getElem?_map] at hmem
  obtain ⟨guest, hguest, rfl⟩ := Option.map_eq_some_iff.mp hmem
  exact ⟨guest, hguest, hP⟩

theorem connection_eq (hserves : Serves server guests lost)
    (hguest : guests[client]? = some guest) :
    server.connections[client]? = some guest.connection := by
  rw [hserves.connections, List.getElem?_map, hguest]
  rfl

theorem focus (hserves : Serves server guests lost) (hguest : guests[client]? = some guest) :
    Holds server.memory (guest.blocks ++ others guests client lost) :=
  hserves.memory.perm (perm_others hguest lost)

/-- The server once one guest has changed, and copies have been lost. -/
theorem changed (hserves : Serves server guests lost) (hguest : guests[client]? = some guest)
    {memory : Memory Cell} (session : Session) {after : Guest} (copies : List Kept)
    (hmemory : Holds memory (after.blocks ++ others guests client (lost.more copies))) :
    Serves { server with
      memory, session, connections := server.connections.set client after.connection }
      (guests.set client after) (lost.more copies) where
  memory := by
    have hperm := (perm_set Guest.blocks (List.getElem?_eq_some_iff.mp hguest).1
      after).append_right (lost.more copies).blocks
    rw [List.append_assoc] at hperm
    exact hmemory.perm hperm.symm
  connections := by rw [hserves.connections, List.map_set]
  refused := hserves.refused

end Serves

theorem more_nil (lost : Lost) : lost.more [] = lost := by
  rw [Lost.more, List.append_nil]

theorem conversations_changed (hguest : guests[client]? = some guest) (session : Session)
    (count : Nat) {after : Guest} {change : Conversation → Conversation}
    (hchange : after.conversation = change guest.conversation) :
    Desk.change ⟨session, guests.map Guest.conversation, count⟩ client change =
      ⟨session, (guests.set client after).map Guest.conversation, count⟩ := by
  have hconversation : (guests.map Guest.conversation)[client]? = some guest.conversation := by
    rw [List.getElem?_map, hguest]
    rfl
  rw [Desk.change, modify_of_getElem? hconversation, List.map_set, hchange]

/-! ## The events -/

namespace Guest

/-- A guest that has just come. -/
def arriving (handle : Address) (accepted : Bool) : Guest where
  handle := handle
  phase := if accepted then .opened else .closing
  waiting := []
  results := []
  waiting_of_closed := fun _ => rfl

def taking (guest : Guest) (waiting : Waiting) (hphase : guest.phase = .opened) : Guest where
  handle := guest.handle
  phase := guest.phase
  waiting := guest.waiting ++ [waiting]
  results := guest.results
  waiting_of_closed := by
    intro hclosed
    rw [hphase] at hclosed
    contradiction

def closing (guest : Guest) : Guest where
  handle := guest.handle
  phase := .closing
  waiting := guest.waiting
  results := guest.results
  waiting_of_closed := nofun

def finishing (guest : Guest) (rest : List Waiting) (result : List Byte × Int)
    (hphase : guest.phase ≠ .closed) : Guest where
  handle := guest.handle
  phase := guest.phase
  waiting := rest
  results := guest.results ++ [result]
  waiting_of_closed := fun hclosed => absurd hclosed hphase

def leaving (guest : Guest) (hwaiting : guest.waiting = []) : Guest where
  handle := guest.handle
  phase := .closed
  waiting := guest.waiting
  results := guest.results
  waiting_of_closed := fun _ => hwaiting

theorem handleBlock_of_ne (guest : Guest) (hphase : guest.phase ≠ .closed) :
    guest.handleBlock = [(guest.handle, .client)] := if_neg hphase

theorem blocks_arriving (handle : Address) (accepted : Bool) :
    (arriving handle accepted).blocks = [(handle, .client)] := by
  cases accepted <;> rfl

theorem perm_taking (guest : Guest) (waiting : Waiting) (hphase : guest.phase = .opened) :
    (waiting.blocks ++ guest.blocks).Perm (guest.taking waiting hphase).blocks := by
  have hblocks : (guest.taking waiting hphase).blocks = guest.blocks ++ waiting.blocks := by
    rw [blocks, blocks, List.append_assoc]
    exact congrArg _ (List.flatMap_append.trans (congrArg _ (List.append_nil _)))
  rw [hblocks]
  exact List.perm_append_comm

theorem blocks_closing (guest : Guest) (hphase : guest.phase = .opened) :
    guest.closing.blocks = guest.blocks := by
  have hne : guest.phase ≠ .closed := by
    rw [hphase]
    exact nofun
  rw [blocks, blocks, handleBlock_of_ne _ hne]
  rfl

theorem perm_finishing (guest : Guest) {waiting : Waiting} {rest : List Waiting}
    (hwaiting : guest.waiting = waiting :: rest) (result : List Byte × Int)
    (hphase : guest.phase ≠ .closed) :
    guest.blocks.Perm (waiting.blocks ++ (guest.finishing rest result hphase).blocks) := by
  rw [blocks, hwaiting, List.flatMap_cons]
  exact List.perm_append_comm_assoc _ _ _

theorem blocks_leaving (guest : Guest) (hwaiting : guest.waiting = []) :
    (guest.leaving hwaiting).blocks = [] := by
  simp [blocks, handleBlock, leaving, hwaiting]

end Guest

namespace Serves

theorem taken (hserves : Serves server guests lost) (hguest : guests[client]? = some guest)
    (hphase : guest.phase = .opened) {memory : Memory Cell} (session : Session)
    {waiting : Waiting} (copies : List Kept)
    (hmemory : Holds memory
      (waiting.blocks ++ (guest.blocks ++ others guests client (lost.more copies)))) :
    Serves (uvWrite { server with memory, session } client waiting.write true)
      (guests.set client (guest.taking waiting hphase)) (lost.more copies) := by
  rw [← List.append_assoc] at hmemory
  have hperm := (guest.perm_taking waiting hphase).append_right
    (others guests client (lost.more copies))
  have hconnection : (guest.taking waiting hphase).connection =
      { guest.connection with writes := guest.connection.writes ++ [waiting.write] } :=
    congrArg (Connection.mk _ _ · _) List.map_append
  have hchanged := hserves.changed hguest session copies (hmemory.perm hperm)
  rw [hconnection] at hchanged
  rw [uvWrite, if_pos rfl]
  dsimp only
  rwa [modify_of_getElem? (hserves.connection_eq hguest)]

/-- A request that libuv did not take stays behind with its reply. -/
theorem left (hserves : Serves server guests lost) (hguest : guests[client]? = some guest)
    {memory : Memory Cell} (session : Session) {waiting : Waiting} (copies : List Kept)
    (hmemory : Holds memory
      (waiting.blocks ++ (guest.blocks ++ others guests client (lost.more copies)))) :
    Serves (uvWrite { server with memory, session } client waiting.write false)
      guests ⟨lost.refused ++ [waiting], lost.copies ++ copies⟩ where
  memory := by
    have hall := hmemory.perm ((perm_others hguest (lost.more copies)).symm.append_left _)
    apply hall.perm
    rw [Lost.blocks, Lost.blocks, List.flatMap_append, List.flatMap_singleton, List.append_assoc]
    have hfirst := List.perm_append_comm_assoc waiting.blocks (guests.flatMap Guest.blocks)
      ((lost.more copies).refused.flatMap Waiting.blocks ++ cells (lost.more copies).copies)
    exact hfirst.trans ((List.perm_append_comm_assoc _ _ _).append_left _)
  connections := hserves.connections
  refused := by
    rw [List.map_append, ← hserves.refused]
    rfl

/-- The end of the stream closes the connection. -/
theorem ending (hserves : Serves server guests lost) (hguest : guests[client]? = some guest)
    (hphase : guest.phase = .opened) {memory : Memory Cell}
    (hmemory : Holds memory (guest.blocks ++ others guests client lost)) :
    Serves { uvClose server client with memory } (guests.set client guest.closing) lost := by
  rw [← guest.blocks_closing hphase, ← more_nil lost] at hmemory
  rw [uvClose]
  dsimp only
  rw [modify_of_getElem? (hserves.connection_eq hguest)]
  have hchanged := hserves.changed hguest server.session [] hmemory
  rwa [more_nil] at hchanged

end Serves

theorem change_unchanged (desk : Desk) (client : Nat) {change : Conversation → Conversation}
    (hchange : ∀ conversation, change conversation = conversation) :
    desk.change client change = desk := by
  have hid : change = id := funext hchange
  rw [Desk.change, hid, List.modify_id]

/-- Without a reply a conversation can only be closed. -/
theorem served_nothing (conversation : Conversation) (session : Session) (closed taken : Bool) :
    conversation.served ⟨session, [], closed⟩ taken =
      { conversation with phase := if closed then .closing else conversation.phase } := by
  cases taken <;> simp [Conversation.served]

theorem refines_newConnection {desk : Desk} (hrefines : Refines server desk) (status : Int)
    (accepted : Bool) : Related SameFault Refines (step server (.newConnection status accepted))
      (specify desk (.newConnection status accepted)) := by
  obtain ⟨guests, lost, hserves, rfl⟩ := hrefines
  rw [step, onNewConnection, specify]
  by_cases hstatus : status < 0
  · rw [if_pos hstatus, if_pos hstatus]
    exact ⟨guests, lost, hserves, rfl⟩
  · rw [if_neg hstatus, if_neg hstatus]
    refine ⟨guests ++ [Guest.arriving (server.memory.malloc .client).1 accepted], lost,
      ⟨?_, ?_, hserves.refused⟩, ?_⟩
    · apply (hserves.memory.malloc .client).perm
      rw [List.flatMap_append, List.flatMap_singleton, Guest.blocks_arriving, List.append_assoc]
      exact List.perm_middle.symm
    · rw [List.map_append, ← hserves.connections]
      rfl
    · rw [List.map_append]
      rfl

theorem refines_read {desk : Desk} (hrefines : Refines server desk) {received stale : List Byte}
    {taken : Bool} (hallowed : Allowed server (.read client nread received stale env taken)) :
    Related SameFault Refines (step server (.read client nread received stale env taken))
      (specify desk (.read client nread received stale env taken)) := by
  obtain ⟨guests, lost, hserves, rfl⟩ := hrefines
  obtain ⟨guest, hguest, hphase⟩ := hserves.exists_guest hallowed.1
  have hbuffer := (hserves.focus hguest).malloc (.readBuffer stale)
  obtain ⟨filled, hstore, hfilled⟩ := hbuffer.store
    (.readBuffer (received ++ stale.drop received.length))
  have hread : step server (.read client nread received stale env taken) =
      EventLoop.onReadCb { server with memory := filled } client env nread
        (server.memory.malloc (.readBuffer stale)).1 taken := by
    rw [step, uvRead, allocBuffer]
    simp only [hstore, onHeap, Except.mapError, ok_bind]
  rw [hread, specify]
  by_cases hnread : 0 < nread
  · have hcallback := @onReadCb_of_pos { server with memory := filled } client env nread _ _
      hnread _ hfilled taken
    rcases hcallback with ⟨fault, hrouted, hstep⟩ | ⟨bytes, memory, waiting, copies, hrouted,
      hstep, hreply, hlength, hmemory⟩
    · have herror := answer_of_error hnread hrouted
      rw [hstep]
      revert herror
      rcases answer server.session nread received stale env with ⟨result, peer⟩
      rintro rfl
      rfl
    · have hlost : lostTo server.session nread received stale env = copies.length := by
        rw [hlength, lostTo, if_pos hnread]
        rfl
      have hcount : lost.copies.length + copies.length = (lost.more copies).copies.length :=
        List.length_append.symm
      have hmore : Holds memory
          (waiting.blocks ++ (guest.blocks ++ others guests client (lost.more copies))) := by
        apply hmemory.perm
        rw [others, others, ← List.append_assoc guest.blocks, ← List.append_assoc guest.blocks]
        exact (perm_more lost copies _).append_left waiting.blocks
      rw [hstep, answer_of_ok hnread hrouted, ← hreply, hlost, hcount]
      cases taken with
      | true =>
          exact ⟨_, _, hserves.taken hguest hphase _ copies hmore,
            conversations_changed hguest _ _ (congrArg (Conversation.mk _ · _) List.map_append)⟩
      | false =>
          refine ⟨guests, _, hserves.left hguest _ copies hmore, ?_⟩
          exact change_unchanged _ client fun conversation => rfl
  · obtain ⟨memory, hstep, hmemory⟩ := @onReadCb_of_nonpos { server with memory := filled } client
      env nread _ _ hnread _ hfilled taken
    rw [hstep, answer_of_nonpos hnread, lostTo, if_neg hnread, Nat.add_zero]
    by_cases hneg : nread < 0
    · rw [if_pos hneg, decide_eq_true hneg]
      exact ⟨_, lost, hserves.ending hguest hphase hmemory,
        conversations_changed hguest _ _ (served_nothing guest.conversation _ true taken).symm⟩
    · rw [if_neg hneg, decide_eq_false hneg]
      refine ⟨guests, lost, ⟨hmemory.perm (perm_others hguest lost).symm, hserves.connections,
        hserves.refused⟩, ?_⟩
      exact change_unchanged _ client fun conversation => served_nothing conversation _ false taken

theorem refines_written {desk : Desk} (hrefines : Refines server desk) {status : Int}
    (hallowed : Allowed server (.written client status)) :
    Related SameFault Refines (step server (.written client status))
      (specify desk (.written client status)) := by
  obtain ⟨guests, lost, hserves, rfl⟩ := hrefines
  obtain ⟨guest, hguest, hwrites⟩ := hserves.exists_guest hallowed
  cases hwaiting : guest.waiting with
  | nil =>
      rw [Guest.connection, hwaiting] at hwrites
      contradiction
  | cons waiting rest =>
      have hopen : guest.phase ≠ .closed := by
        intro hclosed
        rw [guest.waiting_of_closed hclosed] at hwaiting
        contradiction
      have hholds := hserves.focus hguest
      have hapart := hholds.perm ((guest.perm_finishing hwaiting (waiting.reply, status)
        hopen).append_right (others guests client lost))
      rw [List.append_assoc] at hapart
      have hsent := sentFrom_of_mem hapart (List.mem_cons_of_mem _ List.mem_cons_self)
      obtain ⟨after, hfree, hafter⟩ := freeWriteReq_of_holds hapart
      have hlist : guest.connection.writes = waiting.write :: rest.map Waiting.write := by
        rw [Guest.connection, hwaiting]
        rfl
      rw [step, uvWritten, hserves.connection_eq hguest]
      dsimp only
      rw [hlist]
      dsimp only
      rw [hsent, ok_bind, onWriteCb, Waiting.write, hfree, ok_bind]
      rw [← more_nil lost] at hafter
      have hchanged := hserves.changed hguest server.session [] hafter
      rw [more_nil] at hchanged
      refine ⟨_, lost, hchanged, conversations_changed hguest _ _ ?_⟩
      rw [Guest.conversation, Guest.conversation, hwaiting]
      rfl

theorem refines_closed {desk : Desk} (hrefines : Refines server desk)
    (hallowed : Allowed server (.closed client)) :
    Related SameFault Refines (step server (.closed client))
      (specify desk (.closed client)) := by
  obtain ⟨guests, lost, hserves, rfl⟩ := hrefines
  obtain ⟨guest, hguest, hphase, hwrites⟩ := hserves.exists_guest hallowed
  have hwaiting : guest.waiting = [] := List.map_eq_nil_iff.mp hwrites
  have hopen : guest.phase ≠ .closed := by
    intro hclosed
    rw [Guest.connection, hclosed] at hphase
    contradiction
  have hholds := hserves.focus hguest
  rw [Guest.blocks, guest.handleBlock_of_ne hopen, hwaiting] at hholds
  obtain ⟨after, hfree, hafter⟩ := hholds.free
  have hleft : Holds after
      ((guest.leaving hwaiting).blocks ++ others guests client (lost.more [])) := by
    rw [guest.blocks_leaving hwaiting, more_nil]
    exact hafter
  have hchanged := hserves.changed hguest server.session [] hleft
  rw [more_nil] at hchanged
  rw [step, uvClosed, hserves.connection_eq hguest]
  dsimp only
  rw [onClose, Guest.connection, hfree, specify]
  exact ⟨guests.set client (guest.leaving hwaiting), lost, hchanged,
    conversations_changed hguest server.session _ rfl⟩

/-- Every allowed event keeps the server and its conversations together. -/
theorem refines_step {desk : Desk} (hrefines : Refines server desk) {event : Event}
    (hallowed : Allowed server event) :
    Related SameFault Refines (step server event) (specify desk event) := by
  cases event with
  | newConnection status accepted => exact refines_newConnection hrefines status accepted
  | read => exact refines_read hrefines hallowed
  | written => exact refines_written hrefines hallowed
  | closed => exact refines_closed hrefines hallowed

end CcCvStore.Conversations
