import CcCvStore.Parser.Message
import CcCvStore.Store.Effects

/-!
# The router

`router.c` turns a read buffer into a reply: it parses the buffer, performs the
store call of the command and formats an answer into a buffer whose size each
route computes in its own way.
-/

namespace CcCvStore.Router

open CcCvStore.Effect
open CcCvStore.CInteger
open CcCvStore.CString
open CcCvStore.Message
open CcCvStore.Backend
open CcCvStore.StoreEffects

/-- A store call with the strings it was given; `none` stands for `NULL`. -/
inductive StoreOp where
  | set (key val : Option (List Byte))
  | get (key : Option (List Byte))
  | delete (key : Option (List Byte))
  deriving DecidableEq

/-- The store and the calls made on it. -/
structure Session where
  store : Store
  ops : List StoreOp

/-- What one request finds in its environment. -/
structure Env where
  heap : Heap
  outcomes : Outcomes

abbrev RouterExec := Exec Fault Session

/-- The string behind a pointer. -/
def seen (ptr : Ptr) : Option (List Byte) := ptr.map fun buf => text buf.memory

variable {Value : Type}

/-- Make a store call. -/
def callStore (op : StoreOp) (run : StoreExec Value) : RouterExec Value := do
  modifyState fun session => { session with ops := session.ops ++ [op] }
  onPart Session.store (fun store session => { session with store }) run

/-- `malloc(msg_len)` and `snprintf(msg, msg_len, ..)` with the given output. -/
def formatted (heap : Heap) (msgLen : Int) (output : List Byte) : Except Fault Ptr :=
  snprintf (malloc (toSize msgLen) heap.fresh (heap.beyond .reply)) (toSize msgLen) output

/-- `digit|key|`. -/
def confirmation (digit : Byte) (key : List Byte) : List Byte :=
  digit :: bar :: (key ++ [bar])

def routeDelete (env : Env) (task : Task) : RouterExec Ptr := do
  if task.cmd ≠ cmdDelete then
    return none
  let msgLen := toInt ((← strlen task.key) + 4)
  let _ret ← callStore (.delete (seen task.key)) (storeRemove env.outcomes.delete task.key)
  formatted env.heap msgLen (confirmation digitDelete (← task.key.str))

def routeSet (env : Env) (task : Task) : RouterExec Ptr := do
  if task.cmd ≠ cmdSet then
    return none
  if task.data = none then
    return none
  let _ret ← callStore (.set (seen task.key) (seen task.data))
    (storeSet env.outcomes (env.heap.beyond .value) task.key task.data)
  let msgLen := toInt ((← strlen task.key) + 4)
  formatted env.heap msgLen (confirmation digitSet (← task.key.str))

/-- The sizes are computed in `size_t` and stored in an `int`. -/
def routeGet (env : Env) (task : Task) : RouterExec Ptr := do
  if task.cmd ≠ cmdGet then
    return none
  let data ← callStore (.get (seen task.key))
    (storeGet env.outcomes.select (env.heap.beyond .value) task.key)
  if data ≠ none then
    let msgLen := toInt ((← strlen task.key) + (← strlen data) - 2)
    formatted env.heap msgLen
      (confirmation digitGet (← task.key.str) ++ (← data.str))
  else
    let msgLen := toInt ((← strlen task.key) - 1)
    formatted env.heap msgLen (confirmation digitGet (← task.key.str))

/-- `malloc(1)` and `snprintf(resp, 2, "0")`. -/
def zeroReply (heap : Heap) : Except Fault Ptr :=
  snprintf (malloc 1 heap.fresh (heap.beyond .reply)) 2 [48]

/-- `router` after `parse_client_msg`. -/
def respond (env : Env) (task : Task) : RouterExec Ptr := do
  let resp ← if task.cmd = cmdSet then routeSet env task else pure none
  let resp ← if task.cmd = cmdGet then routeGet env task else pure resp
  let resp ← if task.cmd = cmdDelete then routeDelete env task else pure resp
  if resp = none then
    zeroReply env.heap
  else
    return resp

def router (env : Env) (buf : UvBuf) : RouterExec Ptr := do
  let task ← parseClientMsg env.heap buf
  respond env task

/-! ## Replies -/

theorem formatted_of_pos (heap : Heap) {msgLen : Int} (hpos : 0 < msgLen)
    (hmax : msgLen ≤ intMax) (output : List Byte) :
    ∃ rest, formatted heap msgLen output =
      .ok (some ⟨output.take (msgLen.toNat - 1) ++ 0 :: rest, heap.beyond .reply⟩) := by
  have hsize : toSize msgLen = msgLen.toNat := toSize_of_nonneg (by omega) hmax
  have hbound : msgLen.toNat ≤ ptrdiffMax := by
    simp only [intMax, ptrdiffMax] at *
    omega
  rw [formatted, hsize, malloc, if_pos hbound]
  exact snprintf_of_le (by omega) (by simp) output

/-- A reply buffer of no bytes is allocated and not written. -/
theorem formatted_zero (heap : Heap) (output : List Byte) :
    formatted heap 0 output = .ok (some ⟨[], heap.beyond .reply⟩) := rfl

/-- A negative size is converted to one that cannot be allocated. -/
theorem formatted_of_neg (heap : Heap) {msgLen : Int} (hmin : intMin ≤ msgLen)
    (hneg : msgLen < 0) (output : List Byte) :
    formatted heap msgLen output = .error .wildWrite := by
  have hlarge := ptrdiffMax_lt_toSize hmin hneg
  have hzero : ¬toSize msgLen = 0 := by omega
  rw [formatted, malloc, if_neg (by omega), snprintf, if_neg hzero]
  rfl

/-- A reply buffer with room for the output and a NUL holds both. -/
theorem formatted_of_fits (heap : Heap) {msgLen : Int} (hmax : msgLen ≤ intMax)
    {output : List Byte} (hfits : (output.length : Int) < msgLen) :
    ∃ rest, formatted heap msgLen output =
      .ok (some ⟨output ++ 0 :: rest, heap.beyond .reply⟩) := by
  obtain ⟨rest, hformatted⟩ := formatted_of_pos heap (by omega) hmax output
  rw [List.take_of_length_le (by omega)] at hformatted
  exact ⟨rest, hformatted⟩

theorem length_block_snprintf {target : Ptr} {size : Nat} {output : List Byte} {buf : Buf}
    (hsnprintf : snprintf target size output = .ok (some buf)) :
    ∃ before, target = some before ∧ buf.block.length = before.block.length := by
  cases target with
  | none =>
      rw [snprintf] at hsnprintf
      split at hsnprintf
      · simp at hsnprintf
      · contradiction
  | some before =>
      refine ⟨before, rfl, ?_⟩
      rw [snprintf] at hsnprintf
      by_cases hzero : size = 0
      · rw [if_pos hzero, Except.ok.injEq, Option.some.injEq] at hsnprintf
        rw [hsnprintf]
      · rw [if_neg hzero] at hsnprintf
        exact length_block_store hsnprintf

/-- The block of a reply has the size the route computed for it. -/
theorem length_block_formatted {heap : Heap} {msgLen : Int} {output : List Byte} {buf : Buf}
    (hformatted : formatted heap msgLen output = .ok (some buf)) :
    buf.block.length = toSize msgLen := by
  obtain ⟨before, hmalloc, hlength⟩ := length_block_snprintf hformatted
  rw [malloc] at hmalloc
  split at hmalloc
  · cases hmalloc
    simpa using hlength
  · contradiction

theorem length_block_zeroReply {heap : Heap} {buf : Buf}
    (hzero : zeroReply heap = .ok (some buf)) : buf.block.length = 1 := by
  obtain ⟨before, hmalloc, hlength⟩ := length_block_snprintf hzero
  cases hmalloc
  exact hlength

/-- Writing a reply can only fail as a write. -/
theorem snprintf_error {target : Ptr} {size : Nat} {output : List Byte} {fault : Fault}
    (hsnprintf : snprintf target size output = .error fault) : fault = .wildWrite := by
  have hstore : ∀ bytes, store target bytes = .error fault → fault = .wildWrite := by
    intro bytes hstore
    cases target with
    | none =>
        cases hstore
        rfl
    | some buf =>
        simp only [store] at hstore
        split at hstore
        · contradiction
        · cases hstore
          rfl
  rw [snprintf] at hsnprintf
  split at hsnprintf
  · contradiction
  · exact hstore _ hsnprintf

theorem not_isStringFault_snprintf {target : Ptr} {size : Nat} {output : List Byte}
    {fault : Fault} (hsnprintf : snprintf target size output = .error fault) :
    ¬IsStringFault fault := by
  rw [snprintf_error hsnprintf]
  rintro (hfault | hfault) <;> contradiction

theorem formatted_ne_none (heap : Heap) (msgLen : Int) (output : List Byte) :
    formatted heap msgLen output ≠ .ok none := by
  have hstore : ∀ (target : Ptr) (bytes : List Byte), store target bytes ≠ .ok none := by
    intro target bytes
    cases target with
    | none =>
        intro hok
        contradiction
    | some buf =>
        simp only [store]
        split
        · exact fun hok => Option.some_ne_none _ (Except.ok.inj hok)
        · intro hok
          contradiction
  rw [formatted, snprintf]
  by_cases hzero : toSize msgLen = 0
  · rw [if_pos hzero, hzero]
    exact fun hok => Option.some_ne_none _ (Except.ok.inj hok)
  · rw [if_neg hzero]
    exact hstore _ _

/-! ## What the routes do with strings -/

theorem callStore_apply (op : StoreOp) (run : StoreExec Value) (session : Session) :
    callStore op run session =
      ((run session.store).1,
        { store := (run session.store).2, ops := session.ops ++ [op] }) := rfl

theorem strlen_of_str {ptr : Ptr} {bytes : List Byte} (hstr : ptr.str = .ok bytes) :
    strlen ptr = .ok bytes.length := by
  rw [strlen, hstr]
  rfl

/-- A reply is passed on; without one the answer is `0`. -/
def orZero (heap : Heap) (resp : Ptr) : RouterExec Ptr :=
  if resp = none then zeroReply heap else pure resp

theorem respond_of_cmdSet (env : Env) {task : Task} (hcmd : task.cmd = cmdSet) :
    respond env task = routeSet env task >>= orZero env.heap := by
  simp only [respond, hcmd]
  rfl

theorem respond_of_cmdGet (env : Env) {task : Task} (hcmd : task.cmd = cmdGet) :
    respond env task = routeGet env task >>= orZero env.heap := by
  simp only [respond, hcmd]
  rfl

theorem respond_of_cmdDelete (env : Env) {task : Task} (hcmd : task.cmd = cmdDelete) :
    respond env task = routeDelete env task >>= orZero env.heap := by
  simp only [respond, hcmd]
  rfl

/-- A formatted reply is what `router` returns. -/
theorem bind_orZero {env : Env} {run : RouterExec Ptr} {session after : Session}
    {msgLen : Int} {output : List Byte}
    (hrun : run session = (formatted env.heap msgLen output, after)) :
    (run >>= orZero env.heap) session = (formatted env.heap msgLen output, after) := by
  cases hresult : formatted env.heap msgLen output with
  | error fault => rw [bind_of_error (hrun.trans (by rw [hresult]))]
  | ok resp =>
      have hsome : resp ≠ none := by
        rintro rfl
        exact formatted_ne_none _ _ _ hresult
      rw [bind_of_ok (hrun.trans (by rw [hresult])), orZero, if_neg hsome]
      rfl

theorem respond_delete (env : Env) (task : Task) (hcmd : task.cmd = cmdDelete)
    {key : List Byte} (hkey : task.key.str = .ok key) (session : Session) :
    respond env task session =
      (formatted env.heap (toInt (key.length + 4)) (confirmation digitDelete key),
        { store := (removeResult session.store env.outcomes.delete key).2
          ops := session.ops ++ [.delete (seen task.key)] }) := by
  rw [respond_of_cmdDelete env hcmd]
  apply bind_orZero
  have hremove := storeRemove_of_str env.outcomes.delete hkey session.store
  rw [routeDelete, if_neg (not_not_intro hcmd), strlen_of_str hkey, hkey]
  simp only [bind_apply, liftM_apply, callStore_apply, hremove]

theorem respond_set (env : Env) (task : Task) (hcmd : task.cmd = cmdSet)
    {key val : List Byte} (hkey : task.key.str = .ok key) (hval : task.data.str = .ok val)
    (session : Session) :
    respond env task session =
      (formatted env.heap (toInt (key.length + 4)) (confirmation digitSet key),
        { store := (setResult session.store env.outcomes key val).2
          ops := session.ops ++ [.set (seen task.key) (seen task.data)] }) := by
  rw [respond_of_cmdSet env hcmd]
  apply bind_orZero
  have hdata : task.data ≠ none := by
    intro hnone
    rw [hnone] at hval
    contradiction
  have hset := storeSet_of_str env.outcomes (env.heap.beyond .value) hkey hval session.store
  rw [routeSet, if_neg (not_not_intro hcmd), if_neg hdata, strlen_of_str hkey, hkey]
  simp only [bind_apply, liftM_apply, callStore_apply, hset]

/-- A `GET` of a key that has a row. -/
theorem respond_get_some (env : Env) (task : Task) (hcmd : task.cmd = cmdGet)
    {key val : List Byte} (hkey : task.key.str = .ok key) {session : Session} {data : SqlValue}
    (hdata : lookupData session.store env.outcomes.select key = some data)
    (hval : Ptr.str (some ⟨columnBlob data, env.heap.beyond .value⟩) = .ok val) :
    respond env task session =
      (formatted env.heap (toInt (key.length + val.length - 2))
          (confirmation digitGet key ++ val),
        { store := used session.store
          ops := session.ops ++ [.get (seen task.key)] }) := by
  rw [respond_of_cmdGet env hcmd]
  apply bind_orZero
  have hget := storeGet_of_str env.outcomes.select (env.heap.beyond .value) hkey session.store
  rw [hdata, Option.map_some] at hget
  have hfound : (some ⟨columnBlob data, env.heap.beyond .value⟩ : Ptr) ≠ none :=
    Option.some_ne_none _
  rw [routeGet, if_neg (not_not_intro hcmd), strlen_of_str hkey, hkey]
  simp only [bind_apply, liftM_apply, callStore_apply, hget, if_pos hfound, strlen_of_str hval,
    hval]

/-- A `GET` of a key that has none. -/
theorem respond_get_none (env : Env) (task : Task) (hcmd : task.cmd = cmdGet)
    {key : List Byte} (hkey : task.key.str = .ok key) {session : Session}
    (hdata : lookupData session.store env.outcomes.select key = none) :
    respond env task session =
      (formatted env.heap (toInt (key.length - 1)) (confirmation digitGet key),
        { store := used session.store
          ops := session.ops ++ [.get (seen task.key)] }) := by
  rw [respond_of_cmdGet env hcmd]
  apply bind_orZero
  have hget := storeGet_of_str env.outcomes.select (env.heap.beyond .value) hkey session.store
  rw [hdata, Option.map_none] at hget
  have hmissing : ¬(none : Ptr) ≠ none := not_not_intro rfl
  rw [routeGet, if_neg (not_not_intro hcmd), strlen_of_str hkey, hkey]
  simp only [bind_apply, liftM_apply, callStore_apply, hget, if_neg hmissing]

/-- A `SET` without data is answered `0`. -/
theorem respond_set_none (env : Env) (task : Task) (hcmd : task.cmd = cmdSet)
    (hdata : task.data = none) (session : Session) :
    respond env task session = (zeroReply env.heap, session) := by
  rw [respond_of_cmdSet env hcmd, routeSet, if_neg (not_not_intro hcmd), if_pos hdata]
  rfl

theorem respond_other (env : Env) (task : Task) (hset : task.cmd ≠ cmdSet)
    (hget : task.cmd ≠ cmdGet) (hdelete : task.cmd ≠ cmdDelete) (session : Session) :
    respond env task session = (zeroReply env.heap, session) := by
  simp only [respond, if_neg hset, if_neg hget, if_neg hdelete]
  rfl

/-- A `GET` whose value is no string. -/
theorem respond_get_error (env : Env) (task : Task) (hcmd : task.cmd = cmdGet)
    {key : List Byte} (hkey : task.key.str = .ok key) {session : Session} {data : SqlValue}
    (hdata : lookupData session.store env.outcomes.select key = some data) {fault : Fault}
    (hval : Ptr.str (some ⟨columnBlob data, env.heap.beyond .value⟩) = .error fault) :
    (respond env task session).1 = .error fault := by
  have hget := storeGet_of_str env.outcomes.select (env.heap.beyond .value) hkey session.store
  rw [hdata, Option.map_some] at hget
  have hfound : (some ⟨columnBlob data, env.heap.beyond .value⟩ : Ptr) ≠ none :=
    Option.some_ne_none _
  rw [respond_of_cmdGet env hcmd, routeGet, if_neg (not_not_intro hcmd), strlen_of_str hkey, hkey]
  simp only [bind_apply, liftM_apply, callStore_apply, hget, if_pos hfound, strlen, hval]
  rfl

/-! ## Keys that are no strings -/

theorem strlen_of_error {ptr : Ptr} {fault : Fault} (hstr : ptr.str = .error fault) :
    strlen ptr = .error fault := by
  rw [strlen, hstr]
  rfl

/-- The tasks whose key is used. -/
def UsesKey (task : Task) : Prop :=
  task.cmd = cmdGet ∨ task.cmd = cmdDelete ∨ (task.cmd = cmdSet ∧ task.data ≠ none)

/-- Every route takes the length of its key. -/
theorem respond_key_error (env : Env) {task : Task} (huses : UsesKey task) {fault : Fault}
    (hkey : task.key.str = .error fault) (session : Session) :
    ∃ stopped, IsStringFault stopped ∧ (respond env task session).1 = .error stopped := by
  have hfault := isStringFault_of_str hkey
  have hlength := strlen_of_error hkey
  rcases huses with hcmd | hcmd | ⟨hcmd, hdata⟩
  · rw [respond_of_cmdGet env hcmd, routeGet, if_neg (not_not_intro hcmd), hlength]
    simp only [bind_apply, callStore_apply]
    rcases hget : storeGet env.outcomes.select (env.heap.beyond .value) task.key session.store
      with ⟨result, after⟩
    cases result with
    | error stopped =>
        exact ⟨stopped, faultsIn_storeGet _ _ _ _ _ (congrArg Prod.fst hget), rfl⟩
    | ok data =>
        refine ⟨fault, hfault, ?_⟩
        by_cases hsome : data ≠ none
        · simp only [if_pos hsome]
          rfl
        · simp only [if_neg hsome]
          rfl
  · rw [respond_of_cmdDelete env hcmd, routeDelete, if_neg (not_not_intro hcmd), hlength]
    exact ⟨fault, hfault, rfl⟩
  · rw [respond_of_cmdSet env hcmd, routeSet, if_neg (not_not_intro hcmd), if_neg hdata, hlength]
    simp only [bind_apply, callStore_apply]
    rcases hset : storeSet env.outcomes (env.heap.beyond .value) task.key task.data session.store
      with ⟨result, after⟩
    cases result with
    | error stopped =>
        exact ⟨stopped, faultsIn_storeSet _ _ _ _ _ _ (congrArg Prod.fst hset), rfl⟩
    | ok ret => exact ⟨fault, hfault, rfl⟩

/-! ## The log of calls -/

/-- The session with this log. -/
def Logged (ops : List StoreOp) (session : Session) : Prop := session.ops = ops

theorem preserves_orZero (heap : Heap) (ops : List StoreOp) (resp : Ptr) :
    Preserves (Logged ops) (orZero heap resp) := by
  intro session hlogged
  rw [orZero]
  split <;> exact hlogged

/-- Whatever becomes of a store call and of the reply, the call was made. -/
theorem ops_callStore (heap : Heap) (op : StoreOp) (run : StoreExec Value)
    {next : Value → RouterExec Ptr} (session : Session)
    (hnext : ∀ value, Preserves (Logged (session.ops ++ [op])) (next value)) :
    (((callStore op run >>= next) >>= orZero heap) session).2.ops = session.ops ++ [op] := by
  have hcall : Logged (session.ops ++ [op]) (((callStore op run) >>= next) session).2 := by
    rw [bind_apply, callStore_apply]
    cases (run session.store).1 with
    | ok value => exact hnext value _ rfl
    | error fault => rfl
  rw [bind_apply]
  rcases hresult : (callStore op run >>= next) session with ⟨result, after⟩
  rw [hresult] at hcall
  cases result with
  | ok resp => exact preserves_orZero heap _ resp after hcall
  | error fault => exact hcall

theorem ops_respond_set (env : Env) (task : Task) (hcmd : task.cmd = cmdSet)
    (hdata : task.data ≠ none) (session : Session) :
    (respond env task session).2.ops =
      session.ops ++ [.set (seen task.key) (seen task.data)] := by
  rw [respond_of_cmdSet env hcmd, routeSet, if_neg (not_not_intro hcmd), if_neg hdata]
  apply ops_callStore
  intro ret
  refine preserves_bind (preserves_liftM _) fun length => ?_
  exact preserves_bind (preserves_liftM _) fun key => preserves_liftM _

theorem ops_respond_get (env : Env) (task : Task) (hcmd : task.cmd = cmdGet)
    (session : Session) :
    (respond env task session).2.ops = session.ops ++ [.get (seen task.key)] := by
  rw [respond_of_cmdGet env hcmd, routeGet, if_neg (not_not_intro hcmd)]
  apply ops_callStore
  intro data
  by_cases hsome : data ≠ none
  · rw [if_pos hsome]
    refine preserves_bind (preserves_liftM _) fun length => ?_
    refine preserves_bind (preserves_liftM _) fun dataLength => ?_
    refine preserves_bind (preserves_liftM _) fun key => ?_
    exact preserves_bind (preserves_liftM _) fun value => preserves_liftM _
  · rw [if_neg hsome]
    refine preserves_bind (preserves_liftM _) fun length => ?_
    exact preserves_bind (preserves_liftM _) fun key => preserves_liftM _

/-! ## Tasks that look the same -/

/-- Pointers that no scan can tell apart. -/
structure SameString (left right : Ptr) : Prop where
  str : left.str = right.str
  seen : seen left = seen right

theorem SameString.eq_none_iff {left right : Ptr} (hsame : SameString left right) :
    left = none ↔ right = none := by
  have hseen := hsame.seen
  cases left <;> cases right <;> simp_all [Router.seen]

theorem strlen_congr {left right : Ptr} (hsame : SameString left right) :
    strlen left = strlen right := by
  rw [strlen, strlen, hsame.str]

/-- The routes use their task through its command and its strings only. -/
theorem respond_congr (env : Env) {left right : Task} (hcmd : left.cmd = right.cmd)
    (hkey : SameString left.key right.key)
    (hdata : left.cmd = cmdSet → SameString left.data right.data) :
    respond env left = respond env right := by
  have hget : routeGet env left = routeGet env right := by
    have hstore : storeGet env.outcomes.select (env.heap.beyond .value) left.key =
        storeGet env.outcomes.select (env.heap.beyond .value) right.key := by
      simp only [storeGet, hkey.str]
    simp only [routeGet, hcmd, hkey.seen, hkey.str, strlen_congr hkey, hstore]
  have hdelete : routeDelete env left = routeDelete env right := by
    have hstore : storeRemove env.outcomes.delete left.key =
        storeRemove env.outcomes.delete right.key := by
      simp only [storeRemove, hkey.str]
    simp only [routeDelete, hcmd, hkey.seen, hkey.str, strlen_congr hkey, hstore]
  have hset : left.cmd = cmdSet → routeSet env left = routeSet env right := by
    intro hcmdSet
    have hvalue := hdata hcmdSet
    have hstore : storeSet env.outcomes (env.heap.beyond .value) left.key left.data =
        storeSet env.outcomes (env.heap.beyond .value) right.key right.data := by
      simp only [storeSet, storeInsert, storeUpdate, storeGet, hkey.str, hvalue.str]
    simp only [routeSet, hcmd, hkey.seen, hkey.str, strlen_congr hkey, hvalue.seen, hstore,
      hvalue.eq_none_iff]
  by_cases hcmdSet : left.cmd = cmdSet
  · rw [respond_of_cmdSet env hcmdSet, respond_of_cmdSet env (hcmd ▸ hcmdSet), hset hcmdSet]
  · have hright : ¬right.cmd = cmdSet := hcmd ▸ hcmdSet
    simp only [respond, hcmd, if_neg hright, hget, hdelete]

end CcCvStore.Router
