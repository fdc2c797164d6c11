import CcCvStore.Server.Demands
import CcCvStore.Server.LoopMemory

/-!
# One map for all clients

The clients of a server see one map: there is a single order of all requests,
the order in which the loop reads them, and every reply is what that order makes
it.  The memory of the server grows by one block for each `SET` of a key that
the map has.
-/

namespace CcCvStore.SharedMap

open CcCvStore.Effect
open CcCvStore.CInteger
open CcCvStore.CString
open CcCvStore.Message
open CcCvStore.WireFormat
open CcCvStore.Backend
open CcCvStore.StoreEffects
open CcCvStore.OpenStore
open CcCvStore.WriteHistory
open CcCvStore.Router
open CcCvStore.Replies
open CcCvStore.Requests
open CcCvStore.Framing
open CcCvStore.RequestMemory
open CcCvStore.EventLoop
open CcCvStore.Conversations
open CcCvStore.LoopMemory
open CcCvStore.Runs

/-! ## All clients -/

/-- The writes so far and the replies to each client, in the order of the reads. -/
structure Board where
  history : History
  replies : Nat → List (List Byte)
  /-- The number of copies left behind. -/
  copies : Nat

/-- The board before the first request. -/
def Board.opening (history : History) : Board := ⟨history, fun _ => [], 0⟩

def Board.read (board : Board) (client : Nat) (message : List Byte) : Board where
  history := (demand message).after board.history
  replies := Function.update board.replies client
    (board.replies client ++ [(demand message).reply board.history])
  copies := board.copies + (demand message).leaks board.history

theorem Board.replies_read (board : Board) (client : Nat) (message : List Byte) :
    (board.read client message).replies client =
      board.replies client ++ [(demand message).reply board.history] :=
  Function.update_self client _ _

theorem Board.replies_read_of_ne (board : Board) {client other : Nat} (hother : other ≠ client)
    (message : List Byte) : (board.read client message).replies other = board.replies other :=
  Function.update_of_ne hother _ _

def Board.step (board : Board) : Event → Board
  | .read client nread received stale _ _ =>
      if 0 < nread then board.read client (received ++ stale.drop received.length) else board
  | _ => board

/-- The server can handle the message, and libuv takes the reply. -/
def Expected : Event → Prop
  | .read _ nread received stale env taken =>
      0 < nread → taken = true ∧ Proper env (received ++ stale.drop received.length)
  | _ => True

/-- The replies of a conversation, those that wait last. -/
def said (conversation : Conversation) : List (List Byte) :=
  conversation.results.map Prod.fst ++ conversation.pending

structure Mirrors (desk : Desk) (board : Board) : Prop where
  holding : ∃ table, Holding desk.session.store table board.history
  replies : ∀ client, ∀ conversation ∈ desk.conversations[client]?,
    said conversation = board.replies client
  unheard : ∀ client, desk.conversations.length ≤ client → board.replies client = []
  copies : desk.lost = board.copies

namespace Mirrors

variable {desk : Desk} {board : Board} {client : Nat}

/-- A change that takes back no reply and adds none. -/
theorem change (hmirrors : Mirrors desk board) {change : Conversation → Conversation}
    (hsaid : ∀ conversation, said (change conversation) = said conversation) :
    Mirrors (desk.change client change) board where
  holding := hmirrors.holding
  replies := by
    intro other conversation hmem
    rw [Desk.change, List.getElem?_modify] at hmem
    obtain ⟨before, hbefore, heq⟩ := Option.map_eq_some_iff.mp hmem
    rw [← hmirrors.replies other before hbefore, ← heq]
    split
    · exact hsaid before
    · rfl
  unheard := by
    intro other hbeyond
    rw [Desk.change, List.length_modify] at hbeyond
    exact hmirrors.unheard other hbeyond
  copies := hmirrors.copies

theorem newConversation (hmirrors : Mirrors desk board) (phase : Phase) :
    Mirrors { desk with conversations := desk.conversations ++ [⟨phase, [], []⟩] } board where
  holding := hmirrors.holding
  replies := by
    intro other conversation hmem
    rcases Nat.lt_or_ge other desk.conversations.length with hlt | hge
    · rw [List.getElem?_append_left hlt] at hmem
      exact hmirrors.replies other conversation hmem
    · rw [List.getElem?_append_right hge] at hmem
      have hnew := List.mem_of_getElem? hmem
      rw [List.mem_singleton.mp hnew, hmirrors.unheard other hge]
      rfl
  unheard := by
    intro other hbeyond
    rw [List.length_append] at hbeyond
    exact hmirrors.unheard other (Nat.le_of_add_right_le hbeyond)
  copies := hmirrors.copies

/-- A request adds its reply to the conversation it came in. -/
theorem read (hmirrors : Mirrors desk board) (hclient : client < desk.conversations.length)
    {env : Env} {message : List Byte} (hproper : Proper env message) :
    Mirrors (Desk.change
      { desk with
        session := (router env (env.heap.received message) desk.session).2
        lost := desk.lost + lostIn env (env.heap.received message) desk.session.store }
      client fun conversation => { conversation with
        pending := conversation.pending ++ [(demand message).reply board.history] })
      (board.read client message) where
  holding := by
    obtain ⟨table, hholding⟩ := hmirrors.holding
    exact (hproper.handled hholding).holding
  replies := by
    intro other conversation hmem
    rw [Desk.change, List.getElem?_modify] at hmem
    obtain ⟨before, hbefore, heq⟩ := Option.map_eq_some_iff.mp hmem
    have hsaid := hmirrors.replies other before hbefore
    rw [← heq]
    split
    next hself =>
      subst hself
      rw [Board.replies_read, ← hsaid]
      exact (List.append_assoc _ _ _).symm
    next hother =>
      rw [Board.replies_read_of_ne _ (Ne.symm hother), ← hsaid]
  unheard := by
    intro other hbeyond
    rw [Desk.change, List.length_modify] at hbeyond
    have hother : other ≠ client := Nat.ne_of_gt (Nat.lt_of_lt_of_le hclient hbeyond)
    rw [Board.replies_read_of_ne _ hother]
    exact hmirrors.unheard other hbeyond
  copies := by
    obtain ⟨table, hholding⟩ := hmirrors.holding
    rw [Board.read, ← hproper.lostIn_eq hholding, ← hmirrors.copies]
    rfl

end Mirrors

/-- A string that fits a reply is sent whole. -/
theorem take_mod_eq {bytes : List Byte} (hlength : bytes.length < 4294967296) :
    bytes.take (bytes.length % 4294967296) = bytes := by
  rw [Nat.mod_eq_of_lt hlength, List.take_length]

theorem finish_said (conversation : Conversation) (status : Int) :
    said (conversation.finish status) = said conversation := by
  rw [Conversation.finish]
  split
  next => rfl
  next reply rest hpending =>
    rw [said, said, hpending, List.map_append, List.append_assoc]
    rfl

theorem mirrors_step {desk : Desk} {board : Board} (hmirrors : Mirrors desk board)
    {event : Event} (hexpected : Expected event)
    (hread : ∀ client nread received stale env taken,
      event = .read client nread received stale env taken → client < desk.conversations.length) :
    ∃ after, specify desk event = .ok after ∧ Mirrors after (board.step event) := by
  cases event with
  | newConnection status accepted =>
      rw [specify]
      by_cases hstatus : status < 0
      · rw [if_pos hstatus]
        exact ⟨desk, rfl, hmirrors⟩
      · rw [if_neg hstatus]
        exact ⟨_, rfl, hmirrors.newConversation _⟩
  | read client nread received stale env taken =>
      by_cases hnread : 0 < nread
      · obtain ⟨rfl, hproper⟩ := hexpected hnread
        obtain ⟨table, hholding⟩ := hmirrors.holding
        have hhandled := hproper.handled hholding
        rw [specify, answer_of_ok hnread hhandled.reply, take_mod_eq hhandled.length_lt,
          Board.step, if_pos hnread, lostTo, if_pos hnread]
        exact ⟨_, rfl, hmirrors.read (hread _ _ _ _ _ _ rfl) hproper⟩
      · rw [specify, answer_of_nonpos hnread, Board.step, if_neg hnread, lostTo, if_neg hnread]
        refine ⟨_, rfl, hmirrors.change fun conversation => ?_⟩
        rw [served_nothing]
        rfl
  | written client status =>
      exact ⟨_, rfl, hmirrors.change fun conversation => finish_said conversation status⟩
  | closed client => exact ⟨_, rfl, hmirrors.change fun _ => rfl⟩

/-! ## Runs of the loop -/

/-- The conversations the server holds are those of the board. -/
structure Shows (server : Server) (board : Board) : Prop where
  conversations : ∃ desk, Refines server desk ∧ Mirrors desk board
  refused : server.refused = []

theorem lt_of_refines {server : Server} {desk : Desk} (hrefines : Refines server desk)
    {client : Nat} {P : EventLoop.Connection → Prop} (hconnected : server.Connected client P) :
    client < desk.conversations.length := by
  obtain ⟨guests, lost, hserves, rfl⟩ := hrefines
  obtain ⟨guest, hguest, -⟩ := hserves.exists_guest hconnected
  rw [List.length_map]
  exact (List.getElem?_eq_some_iff.mp hguest).1

theorem refused_onReadCb {server after : Server} {client : Nat} {env : Env} {nread : Int}
    {base : Heap.Address} {taken : Bool} (htaken : 0 < nread → taken = true)
    (hread : EventLoop.onReadCb server client env nread base taken = .ok after) :
    after.refused = server.refused := by
  rw [EventLoop.onReadCb] at hread
  split at hread
  next hnread =>
    rw [htaken hnread] at hread
    obtain ⟨contents, -, hread⟩ := exists_of_bind_eq_ok hread
    obtain ⟨⟨pData, work⟩, -, hread⟩ := exists_of_bind_eq_ok hread
    obtain ⟨memory, -, hread⟩ := exists_of_bind_eq_ok hread
    obtain ⟨data, -, hread⟩ := exists_of_bind_eq_ok hread
    obtain ⟨bytes, -, hread⟩ := exists_of_bind_eq_ok hread
    obtain ⟨last, -, hread⟩ := exists_of_bind_eq_ok hread
    cases hread
    rfl
  next =>
    obtain ⟨memory, -, hread⟩ := exists_of_bind_eq_ok hread
    cases hread
    dsimp only
    split <;> rfl

/-- Only a write that libuv does not take is refused. -/
theorem refused_step {server after : Server} {event : Event} (hexpected : Expected event)
    (hstep : step server event = .ok after) : after.refused = server.refused := by
  cases event with
  | newConnection status accepted =>
      cases hstep
      rw [onNewConnection]
      split <;> rfl
  | read client nread received stale env taken =>
      obtain ⟨memory, -, hread⟩ := exists_of_bind_eq_ok hstep
      have hrefused := refused_onReadCb (fun hnread => (hexpected hnread).1) hread
      exact hrefused
  | written client status =>
      rw [step, uvWritten] at hstep
      split at hstep
      next => cases hstep; rfl
      next =>
        split at hstep
        next => cases hstep; rfl
        next =>
          obtain ⟨bytes, -, hstep⟩ := exists_of_bind_eq_ok hstep
          obtain ⟨memory, -, hstep⟩ := exists_of_bind_eq_ok hstep
          cases hstep
          rfl
  | closed client =>
      rw [step, uvClosed] at hstep
      split at hstep
      next => cases hstep; rfl
      next =>
        obtain ⟨memory, -, hstep⟩ := exists_of_bind_eq_ok hstep
        cases hstep
        rfl

theorem shows_step {server : Server} {board : Board} (hshows : Shows server board) {event : Event}
    (hallowed : Allowed server event) (hexpected : Expected event) :
    Related SameFault Shows (step server event) (.ok (board.step event)) := by
  obtain ⟨⟨desk, hrefines, hmirrors⟩, hrefused⟩ := hshows
  have hrelated := refines_step hrefines hallowed
  obtain ⟨after, hspecify, hafter⟩ := mirrors_step hmirrors hexpected (by
    rintro client nread received stale env taken rfl
    exact lt_of_refines hrefines hallowed.1)
  rw [hspecify] at hrelated
  cases hstep : step server event with
  | error fault =>
      rw [hstep] at hrelated
      exact hrelated.elim
  | ok next =>
      rw [hstep] at hrelated
      exact ⟨⟨after, hrelated, hafter⟩, (refused_step hexpected hstep).trans hrefused⟩

/-- The strings that the writes of a connection are going to send. -/
def WaitsWith (server : Server) (connection : EventLoop.Connection)
    (replies : List (List Byte)) : Prop :=
  List.Forall₂ (fun write reply => sentFrom server.memory write.buf = .ok reply)
    connection.writes replies

theorem Shows.replies {server : Server} {board : Board} (hshows : Shows server board)
    {client : Nat} {connection : EventLoop.Connection}
    (hconnection : server.connections[client]? = some connection) :
    ∃ pending, WaitsWith server connection pending ∧
      connection.results.map Prod.fst ++ pending = board.replies client := by
  obtain ⟨_, ⟨guests, lost, hserves, rfl⟩, hmirrors⟩ := hshows.conversations
  rw [hserves.connections, List.getElem?_map] at hconnection
  obtain ⟨guest, hguest, rfl⟩ := Option.map_eq_some_iff.mp hconnection
  refine ⟨guest.waiting.map Waiting.reply, ?_, ?_⟩
  · have hholds := hserves.focus hguest
    rw [WaitsWith, Guest.connection, List.forall₂_map_left_iff, List.forall₂_map_right_iff,
      List.forall₂_same]
    intro waiting hwaiting
    apply sentFrom_of_mem hholds
    rw [Guest.blocks, List.append_assoc]
    apply List.mem_append_right
    apply List.mem_append_left
    rw [List.mem_flatMap]
    exact ⟨waiting, hwaiting, List.mem_cons_of_mem _ List.mem_cons_self⟩
  · apply hmirrors.replies client guest.conversation
    rw [List.getElem?_map, hguest]
    rfl

/-- The live blocks, when the board says how many copies are among them. -/
theorem Shows.accounted {server : Server} {board : Board} (hshows : Shows server board) :
    ∃ copies, copies.length = board.copies ∧ Accounted server copies ∧
      ((∀ connection ∈ server.connections, connection.phase = .closed) →
        ∀ address, server.memory.cell? address ≠ none ↔ address ∈ copies) := by
  obtain ⟨_, ⟨guests, lost, hserves, rfl⟩, hmirrors⟩ := hshows.conversations
  have haccounted := accounted_of_serves hserves
  refine ⟨lost.copies.map Kept.address, ?_, haccounted, ?_⟩
  · rw [List.length_map]
    exact hmirrors.copies
  · intro hclosed address
    rw [haccounted.live_iff, owned_of_closed hserves hclosed hshows.refused, List.nil_append]

section Run

variable {session : Session} {table : DataTable} {history : History} {events : List Event}

theorem shows_start (hholding : Holding session.store table history) :
    Shows (start session) (Board.opening history) := by
  refine ⟨⟨_, refines_start session, ⟨table, hholding⟩, ?_, fun _ _ => rfl, rfl⟩, rfl⟩
  intro client conversation hmem
  contradiction

theorem shows_run (hholding : Holding session.store table history)
    (hallowed : EachTry step Allowed (start session) events)
    (hexpected : ∀ event ∈ events, Expected event) :
    ∃ server, tryRun step (start session) events = .ok server ∧
      Shows server (run Board.step (Board.opening history) events) := by
  have hstep : ∀ server board event, Shows server board →
      Allowed server event ∧ Expected event →
      Related SameFault Shows (step server event) (.ok (Board.step board event)) :=
    fun _ _ _ hshows hguard => shows_step hshows hguard.1 hguard.2
  have hrelated := related_tryRun hstep (shows_start hholding) (hallowed.and_forall hexpected)
  rw [tryRun_of_total] at hrelated
  revert hrelated
  cases tryRun step (start session) events with
  | error fault => exact False.elim
  | ok server => exact fun hshows => ⟨server, rfl, hshows⟩

/-- Whatever the order in which clients come, ask and leave, the loop does not
stop, and each client's replies, sent and waiting, are those of one map that
answers all requests in the order they are read. -/
theorem run_shared (hholding : Holding session.store table history)
    (hallowed : EachTry step Allowed (start session) events)
    (hexpected : ∀ event ∈ events, Expected event) :
    ∃ server, tryRun step (start session) events = .ok server ∧
      ∀ client connection, server.connections[client]? = some connection →
        ∃ pending, WaitsWith server connection pending ∧
          connection.results.map Prod.fst ++ pending =
            (run Board.step (Board.opening history) events).replies client := by
  obtain ⟨server, hrun, hshows⟩ := shows_run hholding hallowed hexpected
  exact ⟨server, hrun, fun _ _ => hshows.replies⟩

/-- Two clients set one key, the later value is lost, and both learn the first. -/
theorem run_shared_two_clients :
    let env : Env := ⟨⟨fun _ => [0], fun _ => 0⟩, .ok⟩
    let session : Session := ⟨{ isOk := true, db := .opened (some ∅), misuse := [] }, []⟩
    let stale : List Byte := List.replicate 12 0
    let key : List Byte := [107, 101, 121]
    let events : List Event := [
      .newConnection 0 true, .newConnection 0 true,
      .read 0 10 (digitSet :: bar :: (key ++ [bar, 111, 110, 101, bar])) stale env true,
      .read 1 10 (digitSet :: bar :: (key ++ [bar, 116, 119, 111, bar])) stale env true,
      .written 1 0,
      .read 1 6 (digitGet :: bar :: (key ++ [bar])) stale env true]
    (run Board.step (Board.opening []) events).replies 1 =
        [confirmation digitSet key, digitGet :: bar :: key.take 2] ∧
      ∃ server, tryRun step (start session) events = .ok server ∧
        ∀ client connection, server.connections[client]? = some connection →
          ∃ pending, WaitsWith server connection pending ∧
            connection.results.map Prod.fst ++ pending =
              (run Board.step (Board.opening []) events).replies client := by
  intro env session stale key events
  have hholding : Holding session.store ∅ [] := .of_empty ⟨rfl, rfl⟩
  have hproper : ∀ message : List Byte, message.length ≤ suggestedSize →
      (demand message).key? ≠ some [] → Proper env message :=
    fun message hlength hkeyed => ⟨fun _ => ⟨[], rfl⟩, rfl, hlength, hkeyed⟩
  have hexpected : ∀ event ∈ events, Expected event := by
    refine List.forall_mem_cons.mpr ⟨trivial, List.forall_mem_cons.mpr ⟨trivial, ?_⟩⟩
    refine List.forall_mem_cons.mpr ⟨fun _ => ⟨rfl, hproper _ ?_ ?_⟩, ?_⟩
    · decide
    · decide
    refine List.forall_mem_cons.mpr ⟨fun _ => ⟨rfl, hproper _ ?_ ?_⟩, ?_⟩
    · decide
    · decide
    refine List.forall_mem_cons.mpr ⟨trivial, List.forall_mem_singleton.mpr ?_⟩
    exact fun _ => ⟨rfl, hproper _ (by decide) (by decide)⟩
  refine ⟨by decide, run_shared hholding ?_ hexpected⟩
  exact (show EachTry step Allowed (start session) events by decide +kernel)

/-- However long the server runs, it loses one block for each `SET` of a key the
map has, and no other; they are all that is live when every client has gone. -/
theorem run_leaks (hholding : Holding session.store table history)
    (hallowed : EachTry step Allowed (start session) events)
    (hexpected : ∀ event ∈ events, Expected event) :
    ∃ server copies, tryRun step (start session) events = .ok server ∧
      copies.length = (run Board.step (Board.opening history) events).copies ∧
      Accounted server copies ∧
      ((∀ connection ∈ server.connections, connection.phase = .closed) →
        ∀ address, server.memory.cell? address ≠ none ↔ address ∈ copies) := by
  obtain ⟨server, hrun, hshows⟩ := shows_run hholding hallowed hexpected
  obtain ⟨copies, hlength, haccounted, hclosed⟩ := hshows.accounted
  exact ⟨server, copies, hrun, hlength, haccounted, hclosed⟩

/-- A client sets a key twice and leaves; one copy stays. -/
theorem run_leaks_one_client :
    let env : Env := ⟨⟨fun _ => [0], fun _ => 0⟩, .ok⟩
    let session : Session := ⟨{ isOk := true, db := .opened (some ∅), misuse := [] }, []⟩
    let stale : List Byte := List.replicate 8 0
    let message : List Byte := [digitSet, bar, 107, bar, 118, bar]
    let events : List Event := [
      .newConnection 0 true, .read 0 6 message stale env true, .read 0 6 message stale env true,
      .written 0 0, .written 0 0, .read 0 (-4095) [] stale env true, .closed 0]
    ∃ server copies, tryRun step (start session) events = .ok server ∧
      copies.length = (run Board.step (Board.opening []) events).copies ∧
      (run Board.step (Board.opening []) events).copies = 1 ∧
      Accounted server copies ∧
      ((∀ connection ∈ server.connections, connection.phase = .closed) →
        ∀ address, server.memory.cell? address ≠ none ↔ address ∈ copies) := by
  intro env session stale message events
  have hread : Expected (.read 0 6 message stale env true) :=
    fun _ => ⟨rfl, fun _ => ⟨[], rfl⟩, rfl, by decide, by decide⟩
  have hexpected : ∀ event ∈ events, Expected event := by
    refine List.forall_mem_cons.mpr ⟨trivial, List.forall_mem_cons.mpr ⟨hread, ?_⟩⟩
    refine List.forall_mem_cons.mpr ⟨hread, List.forall_mem_cons.mpr ⟨trivial, ?_⟩⟩
    refine List.forall_mem_cons.mpr ⟨trivial, List.forall_mem_cons.mpr ⟨?_, ?_⟩⟩
    · exact fun hpos => absurd hpos (by decide)
    · exact List.forall_mem_singleton.mpr trivial
  have hallowed : EachTry step Allowed (start session) events := by decide +kernel
  obtain ⟨server, copies, hrun, hlength, hleaks⟩ :=
    run_leaks (.of_empty ⟨rfl, rfl⟩) hallowed hexpected
  exact ⟨server, copies, hrun, hlength, by decide, hleaks⟩

end Run

end CcCvStore.SharedMap
