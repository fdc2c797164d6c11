import CcCvStore.Core.Runs
import CcCvStore.Server.RequestMemory

/-!
# The event loop

The callbacks of `server.c` with the memory they allocate and free, and what
libuv does between them: it fills the read buffers, keeps the writes of each
connection in order and reports when one is over.
-/

namespace CcCvStore.EventLoop

open CcCvStore.CInteger
open CcCvStore.CString
open CcCvStore.Heap
open CcCvStore.Message
open CcCvStore.Router
open CcCvStore.RequestMemory

/-- A request given to `uv_write`, which copies the buffer's address and length. -/
structure Write where
  req : Address
  buf : SendBuf
  deriving DecidableEq

inductive Phase where
  | opened
  /-- After `uv_close`; `on_close` is still to come. -/
  | closing
  | closed
  deriving DecidableEq

structure Connection where
  handle : Address
  phase : Phase
  /-- The writes that are not over, in the order they were made. -/
  writes : List Write
  /-- The bytes of the writes that are over, with their status. -/
  results : List (List Byte × Int)

structure Server where
  memory : Memory Cell
  session : Session
  /-- In the order they were accepted. -/
  connections : List Connection
  /-- What `uv_write` did not take. -/
  refused : List Write

/-! ## Blocks by their kind -/

def readBufferAt (memory : Memory Cell) (base : Address) : Except LoopFault (List Byte) :=
  match memory.load base with
  | .ok (.readBuffer bytes) => .ok bytes
  | _ => .error (.heap .dead)

def writeReqAt (memory : Memory Cell) (req : Address) : Except LoopFault SendBuf :=
  match memory.load req with
  | .ok (.writeReq (some buf)) => .ok buf
  | _ => .error (.heap .dead)

/-- The bytes a write sends. -/
def sentFrom (memory : Memory Cell) (buf : SendBuf) : Except LoopFault (List Byte) :=
  match charsAt memory buf.base with
  | .ok (some data) => .ok (data.memory.take buf.len)
  | _ => .error (.heap .dead)

/-! ## What the callbacks ask of libuv -/

/-- `uv_write`; without `taken` it returns an error, which the program ignores. -/
def uvWrite (server : Server) (client : Nat) (write : Write) (taken : Bool) : Server :=
  if taken then
    { server with connections := server.connections.modify client fun connection =>
        { connection with writes := connection.writes ++ [write] } }
  else
    { server with refused := server.refused ++ [write] }

def uvClose (server : Server) (client : Nat) : Server :=
  { server with connections := server.connections.modify client fun connection =>
      { connection with phase := .closing } }

/-! ## The callbacks -/

def freeWriteReq (memory : Memory Cell) (req : Address) : Except LoopFault (Memory Cell) := do
  let buf ← writeReqAt memory req
  let memory ← freeAt memory buf.base
  onHeap (memory.free req)

/-- The buffer holds what `malloc` left in it. -/
def allocBuffer (memory : Memory Cell) (stale : List Byte) : Address × Memory Cell :=
  memory.malloc (.readBuffer stale)

def onClose (memory : Memory Cell) (handle : Address) : Except LoopFault (Memory Cell) :=
  onHeap (memory.free handle)

/-- The status is printed and has no other effect. -/
def onWriteCb (memory : Memory Cell) (req : Address) (_status : Int) :
    Except LoopFault (Memory Cell) := freeWriteReq memory req

/-- Run a request on the memory and the session of the server. -/
def runIn {Value : Type} (run : WorkExec Value) (work : Work) : Except LoopFault (Value × Work) :=
  match run work with
  | (.ok value, after) => .ok (value, after)
  | (.error fault, _) => .error fault

def onReadCb (server : Server) (client : Nat) (env : Env) (nread : Int) (base : Address)
    (taken : Bool) : Except LoopFault Server := do
  if 0 < nread then
    let (req, memory) := server.memory.malloc (.writeReq none)
    let contents ← readBufferAt memory base
    let (pData, work) ←
      runIn (routerIn env (env.heap.received contents)) ⟨memory, server.session⟩
    let memory ← onHeap (work.memory.free base)
    let data ← charsAt memory pData
    let bytes ← inCode data.str
    -- `uv_buf_init` takes the length as an `unsigned int`
    let buf := ⟨pData, bytes.length % 4294967296⟩
    let memory ← onHeap (memory.store req (.writeReq (some buf)))
    return uvWrite { server with memory, session := work.session } client ⟨req, buf⟩ taken
  else
    let server := if nread < 0 then uvClose server client else server
    let memory ← onHeap (server.memory.free base)
    return { server with memory }

def onNewConnection (server : Server) (status : Int) (accepted : Bool) : Server :=
  if status < 0 then
    server
  else
    let (handle, memory) := server.memory.malloc .client
    -- a handle that `uv_accept` found no connection for is closed at once
    let phase := if accepted then .opened else .closing
    { server with memory, connections := server.connections ++ [⟨handle, phase, [], []⟩] }

/-! ## The loop -/

inductive Event where
  | newConnection (status : Int) (accepted : Bool)
  /-- Bytes, the end of the stream or an error. -/
  | read (client : Nat) (nread : Int) (received stale : List Byte) (env : Env) (taken : Bool)
  /-- The oldest write of a connection is over. -/
  | written (client : Nat) (status : Int)
  | closed (client : Nat)

/-- libuv asks for a buffer, fills its beginning and passes it on. -/
def uvRead (server : Server) (client : Nat) (nread : Int) (received stale : List Byte)
    (env : Env) (taken : Bool) : Except LoopFault Server := do
  let (base, memory) := allocBuffer server.memory stale
  let filled := received ++ stale.drop received.length
  let memory ← onHeap (memory.store base (.readBuffer filled))
  onReadCb { server with memory } client env nread base taken

def uvWritten (server : Server) (client : Nat) (status : Int) : Except LoopFault Server :=
  match server.connections[client]? with
  | none => .ok server
  | some connection =>
      match connection.writes with
      | [] => .ok server
      | write :: rest => do
          let bytes ← sentFrom server.memory write.buf
          let memory ← onWriteCb server.memory write.req status
          return { server with
            memory
            connections := server.connections.set client
              { connection with
                writes := rest
                results := connection.results ++ [(bytes, status)] } }

def uvClosed (server : Server) (client : Nat) : Except LoopFault Server :=
  match server.connections[client]? with
  | none => .ok server
  | some connection => do
      let memory ← onClose server.memory connection.handle
      return { server with
        memory
        connections := server.connections.set client { connection with phase := .closed } }

def step (server : Server) : Event → Except LoopFault Server
  | .newConnection status accepted => .ok (onNewConnection server status accepted)
  | .read client nread received stale env taken =>
      uvRead server client nread received stale env taken
  | .written client status => uvWritten server client status
  | .closed client => uvClosed server client

/-- A connection with a property. -/
def Server.Connected (server : Server) (client : Nat) (P : Connection → Prop) : Prop :=
  ∃ connection ∈ server.connections[client]?, P connection

instance (server : Server) (client : Nat) (P : Connection → Prop) [DecidablePred P] :
    Decidable (server.Connected client P) :=
  inferInstanceAs (Decidable (∃ connection ∈ server.connections[client]?, P connection))

/-- libuv's side of the contract: it reads on a connection until that is
closed, into the buffer it was given, and closes it after its last write. -/
def Allowed (server : Server) : Event → Prop
  | .newConnection _ _ => True
  | .read client nread received stale _ _ =>
      server.Connected client (fun connection => connection.phase = .opened) ∧
        received.length = nread.toNat ∧ received.length ≤ stale.length
  | .written client _ => server.Connected client fun connection => connection.writes ≠ []
  | .closed client =>
      server.Connected client fun connection =>
        connection.phase = .closing ∧ connection.writes = []

instance instDecidableAllowed (server : Server) : ∀ event, Decidable (Allowed server event)
  | .newConnection _ _ => inferInstanceAs (Decidable True)
  | .read client nread received stale _ _ =>
      inferInstanceAs (Decidable
        (server.Connected client (fun connection => connection.phase = .opened) ∧
          received.length = nread.toNat ∧ received.length ≤ stale.length))
  | .written client _ =>
      inferInstanceAs (Decidable
        (server.Connected client fun connection => connection.writes ≠ []))
  | .closed client =>
      inferInstanceAs (Decidable
        (server.Connected client fun connection =>
          connection.phase = .closing ∧ connection.writes = []))

/-- The server when the loop starts. -/
def start (session : Session) : Server := ⟨⟨[]⟩, session, [], []⟩

end CcCvStore.EventLoop
