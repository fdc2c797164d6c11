import CcCvStore.Core.Ownership
import CcCvStore.Core.Simulation
import CcCvStore.Server.Requests

/-!
# The memory of a request

The blocks the program allocates, and the functions of `msg_parser.c`,
`store.c` and `router.c` with the blocks they allocate and free: the task with
its strings, the copies of stored values and the reply.
-/

namespace CcCvStore.RequestMemory

open CcCvStore.Effect
open CcCvStore.CInteger
open CcCvStore.CString
open CcCvStore.Heap
open CcCvStore.Message
open CcCvStore.Backend
open CcCvStore.StoreEffects
open CcCvStore.Router
open CcCvStore.Ownership
open CcCvStore.Simulation

/-- A `uv_buf_t`. -/
structure SendBuf where
  base : Option Address
  len : Nat
  deriving DecidableEq

/-- The fields of a `struct stru_task`. -/
structure TaskFields where
  cmd : Int
  data : Option Address
  key : Option Address

/-- What the program allocates. -/
inductive Cell where
  /-- The `uv_tcp_t` of a client. -/
  | client
  | readBuffer (bytes : List Byte)
  /-- A `write_req_t`, of which `req` belongs to libuv; `buf` is not set at first. -/
  | writeReq (buf : Option SendBuf)
  /-- A string, or the copy of a value. -/
  | chars (buf : Buf)
  | task (fields : TaskFields)

inductive LoopFault where
  | heap (fault : HeapFault)
  /-- A fault of the code that is not about its blocks. -/
  | code (fault : Fault)

def onHeap {Value : Type} : Except HeapFault Value → Except LoopFault Value :=
  Except.mapError .heap

def inCode {Value : Type} : Except Fault Value → Except LoopFault Value :=
  Except.mapError .code

/-- The string behind a pointer. -/
def charsAt (memory : Memory Cell) : Option Address → Except LoopFault Ptr
  | none => .ok none
  | some address =>
      match memory.load address with
      | .ok (.chars buf) => .ok (some buf)
      | _ => .error (.heap .dead)

def fieldsAt (memory : Memory Cell) (address : Address) : Except LoopFault TaskFields :=
  match memory.load address with
  | .ok (.task fields) => .ok fields
  | _ => .error (.heap .dead)

/-- `free`, also of `NULL`. -/
def freeAt (memory : Memory Cell) : Option Address → Except LoopFault (Memory Cell)
  | none => .ok memory
  | some address => onHeap (memory.free address)

/-! ## Computations that allocate -/

/-- The session and the memory of the process. -/
structure Work where
  memory : Memory Cell
  session : Session

abbrev WorkExec := Exec LoopFault Work

variable {Value : Type}

def mallocCell (cell : Cell) : WorkExec Address := fun work =>
  (.ok (work.memory.malloc cell).1, { work with memory := (work.memory.malloc cell).2 })

def freeCell (address : Option Address) : WorkExec Unit := do
  let memory ← freeAt (← readState).memory address
  modifyState fun work => { work with memory }

def storeCell (address : Address) (cell : Cell) : WorkExec Unit := do
  let memory ← onHeap ((← readState).memory.store address cell)
  modifyState fun work => { work with memory }

def stringAt (address : Option Address) : WorkExec Ptr := do
  charsAt (← readState).memory address

/-- The task behind a pointer, with its strings. -/
def taskAt (address : Address) : WorkExec Task := do
  let fields ← fieldsAt (← readState).memory address
  return { cmd := fields.cmd, key := ← stringAt fields.key, data := ← stringAt fields.data }

/-- A string that was allocated on the way stays with the caller. -/
def keep : Ptr → WorkExec (Option Address)
  | none => return none
  | some buf => return some (← mallocCell (.chars buf))

/-- What allocates nothing that it keeps. -/
def onSession (run : RouterExec Value) : WorkExec Value := fun work =>
  match run work.session with
  | (.ok value, session) => (.ok value, { work with session })
  | (.error fault, session) => (.error (.code fault), { work with session })

def onStore (run : StoreExec Value) : WorkExec Value :=
  onSession (onPart Session.store (fun store session => { session with store }) run)

/-! ## The store -/

/-- `store_get`, whose caller owns the copy. -/
def storeGetIn (outcome : Outcome) (beyond : List Byte) (key : Ptr) :
    WorkExec (Option Address) := do
  keep (← onStore (storeGet outcome beyond key))

/-- `store_update` reads the old value and does not free it. -/
def storeUpdateIn (reselect outcome : Outcome) (beyond : List Byte) (key val : Ptr) :
    WorkExec Int := do
  if !(← onStore readState).isOk then
    return 0
  let _data ← storeGetIn reselect beyond key
  onStore (statement outcome 0 (changeRow outcome key val))

def storeSetIn (outcomes : Outcomes) (beyond : List Byte) (key val : Ptr) : WorkExec Int := do
  if !(← onStore readState).isOk then
    return 0
  match ← storeGetIn outcomes.select beyond key with
  | none => onStore (storeInsert outcomes.insert key val)
  | some data => do
      let ret ← storeUpdateIn outcomes.reselect outcomes.update beyond key val
      freeCell (some data)
      return ret

/-! ## The parser and the router -/

def parseClientMsgIn (heap : Message.Heap) (buf : UvBuf) : WorkExec Address := do
  let task ← inCode (parseClientMsg heap buf)
  let resp ← mallocCell (.task ⟨task.cmd, none, none⟩)
  let key ← keep task.key
  let data ← keep task.data
  storeCell resp (.task ⟨task.cmd, data, key⟩)
  return resp

def freeMsg (msg : Address) : WorkExec Unit := do
  let fields ← fieldsAt (← readState).memory msg
  freeCell fields.data
  freeCell fields.key
  freeCell (some msg)

/-- Make a store call; `callStore` with the copies it allocates. -/
def callStoreIn (op : StoreOp) (run : WorkExec Value) : WorkExec Value := do
  onSession (modifyState fun session => { session with ops := session.ops ++ [op] })
  run

/-- The answer of `route_set`. -/
def setAnswer (heap : Message.Heap) (key : Ptr) : Except Fault Ptr := do
  let msgLen := toInt ((← strlen key) + 4)
  formatted heap msgLen (confirmation digitSet (← key.str))

def routeSetIn (env : Env) (msg : Address) : WorkExec (Option Address) := do
  let task ← taskAt msg
  if task.cmd ≠ cmdSet then
    return none
  if task.data = none then
    return none
  let _ret ← callStoreIn (.set (seen task.key) (seen task.data))
    (storeSetIn env.outcomes (env.heap.beyond .value) task.key task.data)
  let task ← taskAt msg
  keep (← inCode (setAnswer env.heap task.key))

/-- The answer of `route_get`, for the value it got. -/
def getAnswer (heap : Message.Heap) (key data : Ptr) : Except Fault Ptr := do
  if data ≠ none then
    let msgLen := toInt ((← strlen key) + (← strlen data) - 2)
    formatted heap msgLen (confirmation digitGet (← key.str) ++ (← data.str))
  else
    let msgLen := toInt ((← strlen key) - 1)
    formatted heap msgLen (confirmation digitGet (← key.str))

def routeGetIn (env : Env) (msg : Address) : WorkExec (Option Address) := do
  let task ← taskAt msg
  if task.cmd ≠ cmdGet then
    return none
  let data ← callStoreIn (.get (seen task.key))
    (storeGetIn env.outcomes.select (env.heap.beyond .value) task.key)
  let task ← taskAt msg
  let resp ← keep (← inCode (getAnswer env.heap task.key (← stringAt data)))
  freeCell data
  return resp

def routeDeleteIn (env : Env) (msg : Address) : WorkExec (Option Address) := do
  let task ← taskAt msg
  keep (← onSession (routeDelete env task))

/-- A route is taken by the messages with its command. -/
def whenCmd (msg : Address) (cmd : Int) (route : WorkExec (Option Address))
    (resp : Option Address) : WorkExec (Option Address) := do
  if (← taskAt msg).cmd = cmd then route else return resp

/-- Without a reply the answer is `0`. -/
def replyOrZero (heap : Message.Heap) (resp : Option Address) : WorkExec (Option Address) := do
  if resp = none then keep (← inCode (zeroReply heap)) else return resp

def routerIn (env : Env) (buf : UvBuf) : WorkExec (Option Address) := do
  let task ← parseClientMsgIn env.heap buf
  let resp ← whenCmd task cmdSet (routeSetIn env task) none
  let resp ← whenCmd task cmdGet (routeGetIn env task) resp
  let resp ← whenCmd task cmdDelete (routeDeleteIn env task) resp
  let resp ← replyOrZero env.heap resp
  freeMsg task
  return resp

end CcCvStore.RequestMemory
