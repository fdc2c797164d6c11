import CcCvStore.Server.EventLoop
import CcCvStore.Server.ReadCallback
import CcCvStore.Server.RequestBlocks

/-!
# Conversations

What the event loop is for: every client has a conversation, in which its
replies wait to be sent and are sent in order.  There are no blocks and no
addresses here, and a request is the read callback's work on one peer.
The loop with its memory does nothing else.
-/

namespace CcCvStore.Conversations

open CcCvStore.Effect
open CcCvStore.CInteger
open CcCvStore.CString
open CcCvStore.Heap
open CcCvStore.Message
open CcCvStore.Router
open CcCvStore.ReadCallback
open CcCvStore.RequestMemory
open CcCvStore.EventLoop
open CcCvStore.Ownership
open CcCvStore.Runs

structure Conversation where
  phase : Phase
  /-- The replies that wait. -/
  pending : List (List Byte)
  results : List (List Byte × Int)

/-- The session that all clients share, and their conversations. -/
structure Desk where
  session : Session
  conversations : List Conversation
  /-- The number of blocks that requests have left behind. -/
  lost : Nat

def Desk.change (desk : Desk) (client : Nat) (change : Conversation → Conversation) : Desk :=
  { desk with conversations := desk.conversations.modify client change }

/-- What one call of the read callback adds to a conversation. -/
def Conversation.served (conversation : Conversation) (peer : Peer) (taken : Bool) :
    Conversation :=
  { conversation with
    phase := if peer.closed then .closing else conversation.phase
    pending := if taken then conversation.pending ++ peer.sent else conversation.pending }

def Conversation.finish (conversation : Conversation) (status : Int) : Conversation :=
  match conversation.pending with
  | [] => conversation
  | reply :: rest =>
      { conversation with pending := rest, results := conversation.results ++ [(reply, status)] }

/-- The read callback on a peer that nothing has been sent to yet. -/
def answer (session : Session) (nread : Int) (received stale : List Byte) (env : Env) :
    Except Fault Unit × Peer :=
  onReadCb env nread (readBuffer env.heap received (stale.drop received.length))
    ⟨session, [], false⟩

/-- The blocks such a call leaves behind. -/
def lostTo (session : Session) (nread : Int) (received stale : List Byte) (env : Env) : Nat :=
  if 0 < nread then
    lostIn env (readBuffer env.heap received (stale.drop received.length)) session.store
  else 0

def specify (desk : Desk) : Event → Except Fault Desk
  | .newConnection status accepted =>
      if status < 0 then
        .ok desk
      else
        .ok { desk with conversations := desk.conversations ++
          [⟨if accepted then .opened else .closing, [], []⟩] }
  | .read client nread received stale env taken =>
      match answer desk.session nread received stale env with
      | (.error fault, _) => .error fault
      | (.ok (), peer) => .ok (Desk.change
          { desk with
            session := peer.session
            lost := desk.lost + lostTo desk.session nread received stale env }
          client fun conversation => conversation.served peer taken)
  | .written client status => .ok (desk.change client fun conversation =>
      conversation.finish status)
  | .closed client => .ok (desk.change client fun conversation =>
      { conversation with phase := .closed })

def atStart (session : Session) : Desk := ⟨session, [], 0⟩

/-! ## Where a conversation lies in memory -/

/-- A write with the string it sends. -/
structure Waiting where
  req : Address
  base : Address
  data : Buf
  len : Nat

namespace Waiting

def write (waiting : Waiting) : Write := ⟨waiting.req, ⟨some waiting.base, waiting.len⟩⟩

def reply (waiting : Waiting) : List Byte := waiting.data.memory.take waiting.len

def blocks (waiting : Waiting) : Ledger Cell :=
  [(waiting.req, .writeReq (some ⟨some waiting.base, waiting.len⟩)),
    (waiting.base, .chars waiting.data)]

end Waiting

/-- A connection with what its blocks hold. -/
structure Guest where
  handle : Address
  phase : Phase
  waiting : List Waiting
  results : List (List Byte × Int)
  /-- Nothing waits on a closed connection. -/
  waiting_of_closed : phase = .closed → waiting = []

namespace Guest

def connection (guest : Guest) : Connection :=
  ⟨guest.handle, guest.phase, guest.waiting.map Waiting.write, guest.results⟩

def conversation (guest : Guest) : Conversation :=
  ⟨guest.phase, guest.waiting.map Waiting.reply, guest.results⟩

def handleBlock (guest : Guest) : Ledger Cell :=
  if guest.phase = .closed then [] else [(guest.handle, .client)]

def blocks (guest : Guest) : Ledger Cell :=
  guest.handleBlock ++ guest.waiting.flatMap Waiting.blocks

end Guest

/-- What nobody will free: writes that libuv refused, and copies of values. -/
structure Lost where
  refused : List Waiting
  copies : List Kept

def Lost.blocks (lost : Lost) : Ledger Cell :=
  lost.refused.flatMap Waiting.blocks ++ cells lost.copies

/-- The server serves these guests, and has lost these blocks. -/
structure Serves (server : Server) (guests : List Guest) (lost : Lost) : Prop where
  memory : Holds server.memory (guests.flatMap Guest.blocks ++ lost.blocks)
  connections : server.connections = guests.map Guest.connection
  refused : server.refused = lost.refused.map Waiting.write

/-- The server holds these conversations, and nothing is live in its memory but
their blocks and the lost ones. -/
def Refines (server : Server) (desk : Desk) : Prop :=
  ∃ guests lost, Serves server guests lost ∧
    desk = ⟨server.session, guests.map Guest.conversation, lost.copies.length⟩

end CcCvStore.Conversations
