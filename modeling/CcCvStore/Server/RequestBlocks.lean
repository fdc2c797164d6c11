import CcCvStore.Server.RequestMemory

/-!
# What a request leaves in memory

A request gives back its task, the strings of it and the copy a `GET` or the
test of a `SET` makes of a stored value.  Its reply is the caller's.  One block
nobody frees: the copy that `store_update` makes of the value it overwrites.
-/

namespace CcCvStore.RequestMemory

open CcCvStore.Effect
open CcCvStore.CInteger
open CcCvStore.CString
open CcCvStore.Heap
open CcCvStore.Message
open CcCvStore.Backend
open CcCvStore.StoreEffects
open CcCvStore.Router
open CcCvStore.Ownership
open CcCvStore.Simulation

/-- A stop of the process is one of the code. -/
def SameFault (stopped : LoopFault) (fault : Fault) : Prop := stopped = .code fault

/-! ## Strings in blocks of their own -/

/-- A string with the block it is in. -/
structure Kept where
  address : Address
  buf : Buf

def cells (kept : List Kept) : Ledger Cell :=
  kept.map fun string => (string.address, .chars string.buf)

variable {work : Work} {ledger : Ledger Cell} {Value Result : Type}

theorem charsAt_of_subset {memory : Memory Cell} (hholds : Holds memory ledger)
    {kept : Option Kept} (hsub : cells kept.toList ⊆ ledger) :
    charsAt memory (kept.map Kept.address) = .ok (kept.map Kept.buf) := by
  cases kept with
  | none => rfl
  | some string =>
      rw [Option.map_some, charsAt, hholds.load_of_mem (hsub List.mem_cons_self)]
      rfl

theorem stringAt_apply (hholds : Holds work.memory ledger) {kept : Option Kept}
    (hsub : cells kept.toList ⊆ ledger) :
    stringAt (kept.map Kept.address) work = (.ok (kept.map Kept.buf), work) := by
  simp only [stringAt, bind_apply, readState_apply, charsAt_of_subset hholds hsub, liftM_apply]

/-- A string that is kept gets a block. -/
theorem keep_apply (hholds : Holds work.memory ledger) (ptr : Ptr) :
    ∃ (kept : Option Kept) (memory : Memory Cell), ptr = kept.map Kept.buf ∧
      keep ptr work = (.ok (kept.map Kept.address), { work with memory }) ∧
      Holds memory (cells kept.toList ++ ledger) := by
  cases ptr with
  | none => exact ⟨none, work.memory, rfl, rfl, hholds⟩
  | some buf =>
      exact ⟨some ⟨_, buf⟩, _, rfl, rfl, hholds.malloc (.chars buf)⟩

theorem freeCell_apply {kept : Option Kept}
    (hholds : Holds work.memory (cells kept.toList ++ ledger)) :
    ∃ memory, freeCell (kept.map Kept.address) work = (.ok (), { work with memory }) ∧
      Holds memory ledger := by
  cases kept with
  | none => exact ⟨work.memory, rfl, hholds⟩
  | some string =>
      obtain ⟨memory, hfree, hfreed⟩ := hholds.free
      refine ⟨memory, ?_, hfreed⟩
      simp only [freeCell, bind_apply, readState_apply, Option.map_some, freeAt, onHeap, hfree,
        Except.mapError, liftM_apply, modifyState_apply]

/-! ## Computations side by side -/

/-- The session goes on alike, and the values and the memory are as `P` says. -/
def AtSession (P : Value → Result → Memory Cell → Prop) :
    Value → Work → Result → Session → Prop :=
  fun value after result session => after.session = session ∧ P value result after.memory

/-- The same of the store, where the calls made so far are `ops`. -/
def AtStore (ops : List StoreOp) (P : Value → Result → Memory Cell → Prop) :
    Value → Work → Result → Store → Prop :=
  fun value after result store => after.session = ⟨store, ops⟩ ∧ P value result after.memory

/-- The same result, with these blocks live. -/
def Leaves (ledger : Ledger Cell) (value result : Value) (memory : Memory Cell) : Prop :=
  value = result ∧ Holds memory ledger

/-- A pointer to a string, whose block is live beside the others. -/
def Returns (ledger : Ledger Cell) (pointer : Option Address) (ptr : Ptr)
    (memory : Memory Cell) : Prop :=
  ∃ kept : Option Kept, pointer = kept.map Kept.address ∧ ptr = kept.map Kept.buf ∧
    Holds memory (cells kept.toList ++ ledger)

theorem onSession_simulates (run : RouterExec Value) (hholds : Holds work.memory ledger) :
    Simulates SameFault (AtSession (Leaves ledger)) (onSession run) run work work.session := by
  unfold Simulates
  rw [onSession]
  rcases run work.session with ⟨fault | value, session⟩
  · rfl
  · exact ⟨rfl, rfl, hholds⟩

theorem onStore_simulates (run : StoreExec Value) {store : Store} {ops : List StoreOp}
    (hsession : work.session = ⟨store, ops⟩) (hholds : Holds work.memory ledger) :
    Simulates SameFault (AtStore ops (Leaves ledger)) (onStore run) run work store := by
  unfold Simulates
  rw [onStore, onSession, hsession, onPart_apply]
  rcases run store with ⟨fault | value, after⟩
  · rfl
  · exact ⟨rfl, rfl, hholds⟩

/-! ## The store -/

/-- The number of blocks a read of the store hands out. -/
def copies : Except Fault Ptr × Store → Nat
  | (.ok (some _), _) => 1
  | _ => 0

/-- The copies nobody frees after a `store_set`. -/
def copiesLeft (outcomes : Outcomes) (beyond : List Byte) (key : Ptr) (store : Store) : Nat :=
  match storeGet outcomes.select beyond key store with
  | (.ok (some _), after) => copies (storeGet outcomes.reselect beyond key after)
  | _ => 0

/-- The same result, with so many blocks more that belong to nobody. -/
def Loses (ledger : Ledger Cell) (count : Nat) (value result : Value) (memory : Memory Cell) :
    Prop :=
  value = result ∧ ∃ lost : List Kept, lost.length = count ∧ Holds memory (cells lost ++ ledger)

variable {outcome : Outcome} {outcomes : Outcomes} {beyond : List Byte} {key val : Ptr}
  {store : Store} {ops : List StoreOp}

theorem storeGetIn_simulates (hsession : work.session = ⟨store, ops⟩)
    (hholds : Holds work.memory ledger) :
    Simulates SameFault (AtStore ops (Returns ledger)) (storeGetIn outcome beyond key)
      (storeGet outcome beyond key) work store := by
  apply (onStore_simulates (storeGet outcome beyond key) hsession hholds).then_left
  rintro ptr after _ reached - ⟨hafter, rfl, hmemory⟩
  obtain ⟨kept, memory, hptr, hkeep, hkept⟩ := keep_apply hmemory ptr
  exact ⟨_, _, hkeep, hafter, kept, rfl, hptr, hkept⟩

/-- What is behind the test of `is_ok`. -/
def guardedIn (failed : Value) (body : WorkExec Value) : WorkExec Value := do
  if !(← onStore readState).isOk then
    return failed
  body

theorem guardedIn_simulates {Post : Value → Work → Result → Store → Prop} {failed : Value}
    {other : Result} {body : WorkExec Value} {plain : StoreExec Result}
    (hsession : work.session = ⟨store, ops⟩)
    (hfailed : store.isOk = false → Post failed work other store)
    (hbody : store.isOk = true → Simulates SameFault Post body plain work store) :
    Simulates SameFault Post (guardedIn failed body) (guarded other plain) work store := by
  have hread : onStore readState work = (.ok store, work) := by
    rw [onStore, onSession, hsession]
    cases work
    cases hsession
    rfl
  unfold Simulates
  rw [guardedIn, bind_of_ok hread]
  cases hok : store.isOk with
  | false =>
      rw [guarded_of_not_isOk _ _ hok]
      exact hfailed hok
  | true =>
      rw [guarded_of_isOk _ _ hok]
      exact hbody hok

theorem copies_of_not_isOk (hok : store.isOk = false) :
    copies (storeGet outcome beyond key store) = 0 := by
  rw [storeGet_eq_guarded, guarded_of_not_isOk _ _ hok]
  rfl

theorem storeUpdateIn_simulates {reselect : Outcome} (hsession : work.session = ⟨store, ops⟩)
    (hholds : Holds work.memory ledger) :
    Simulates SameFault
      (AtStore ops (Loses ledger (copies (storeGet reselect beyond key store))))
      (storeUpdateIn reselect outcome beyond key val)
      (storeUpdate reselect outcome beyond key val) work store := by
  rw [storeUpdate_eq_guarded]
  apply guardedIn_simulates hsession
  · intro hok
    exact ⟨hsession, rfl, [], (copies_of_not_isOk hok).symm, hholds⟩
  · intro hok
    apply (storeGetIn_simulates hsession hholds).bind
    rintro _ after _ reached hget ⟨hafter, kept, rfl, rfl, hmemory⟩
    apply (onStore_simulates _ hafter hmemory).mono
    rintro value final _ last ⟨hfinal, rfl, hlast⟩
    refine ⟨hfinal, rfl, kept.toList, ?_, hlast⟩
    rw [hget]
    cases kept <;> rfl

theorem storeSetIn_simulates (hsession : work.session = ⟨store, ops⟩)
    (hholds : Holds work.memory ledger) :
    Simulates SameFault (AtStore ops (Loses ledger (copiesLeft outcomes beyond key store)))
      (storeSetIn outcomes beyond key val) (storeSet outcomes beyond key val) work store := by
  rw [storeSet_eq_guarded]
  apply guardedIn_simulates hsession
  · intro hok
    have hget : storeGet outcomes.select beyond key store = (.ok none, store) := by
      rw [storeGet_eq_guarded, guarded_of_not_isOk _ _ hok]
    refine ⟨hsession, rfl, [], ?_, hholds⟩
    rw [copiesLeft, hget]
    rfl
  · intro hok
    apply (storeGetIn_simulates hsession hholds).bind
    rintro _ after _ reached hget ⟨hafter, kept, rfl, rfl, hmemory⟩
    rw [copiesLeft, hget]
    cases kept with
    | none =>
        apply (onStore_simulates _ hafter hmemory).mono
        rintro value final _ last ⟨hfinal, rfl, hlast⟩
        exact ⟨hfinal, rfl, [], rfl, hlast⟩
    | some string =>
        apply (storeUpdateIn_simulates hafter hmemory).then_left
        rintro value final _ last - ⟨hfinal, rfl, lost, hlength, hlast⟩
        have hapart := hlast.perm (List.perm_append_comm_assoc _ _ _)
        obtain ⟨memory, hfree, hfreed⟩ := @freeCell_apply final _ (some string) hapart
        exact ⟨value, { final with memory }, bind_of_ok hfree, hfinal, rfl, lost, hlength, hfreed⟩

theorem storeCell_apply {address : Address} {cell : Cell}
    (hholds : Holds work.memory ((address, cell) :: ledger)) (written : Cell) :
    ∃ memory, storeCell address written work = (.ok (), { work with memory }) ∧
      Holds memory ((address, written) :: ledger) := by
  obtain ⟨memory, hstore, hstored⟩ := hholds.store written
  refine ⟨memory, ?_, hstored⟩
  simp only [storeCell, bind_apply, readState_apply, onHeap, hstore, Except.mapError, liftM_apply,
    modifyState_apply]

/-! ## The task -/

/-- One block before its two parts, or behind them in the other order. -/
theorem perm_parts (block : Address × Cell) (first second ledger : Ledger Cell) :
    (block :: (first ++ second) ++ ledger).Perm (second ++ (first ++ block :: ledger)) := by
  refine List.perm_middle.symm.trans ?_
  rw [List.append_assoc]
  exact List.perm_append_comm_assoc _ _ _

/-- A task with its strings, where they lie. -/
structure Laid where
  address : Address
  cmd : Int
  key : Option Kept
  data : Option Kept

namespace Laid

def task (laid : Laid) : Task where
  cmd := laid.cmd
  key := laid.key.map Kept.buf
  data := laid.data.map Kept.buf

def block (laid : Laid) : Address × Cell :=
  (laid.address, .task ⟨laid.cmd, laid.data.map Kept.address, laid.key.map Kept.address⟩)

def cells (laid : Laid) : Ledger Cell :=
  laid.block :: (RequestMemory.cells laid.key.toList ++ RequestMemory.cells laid.data.toList)

/-- The blocks in the order in which `free_msg` frees them. -/
theorem perm_cells (laid : Laid) (ledger : Ledger Cell) :
    (laid.cells ++ ledger).Perm (RequestMemory.cells laid.data.toList ++
      (RequestMemory.cells laid.key.toList ++ laid.block :: ledger)) :=
  perm_parts laid.block _ _ ledger

variable {laid : Laid}

theorem taskAt_apply (hholds : Holds work.memory ledger) (hsub : laid.cells ⊆ ledger) :
    taskAt laid.address work = (.ok laid.task, work) := by
  have hfields : fieldsAt work.memory laid.address =
      .ok ⟨laid.cmd, laid.data.map Kept.address, laid.key.map Kept.address⟩ := by
    rw [fieldsAt, hholds.load_of_mem (hsub List.mem_cons_self)]
  have hkey := stringAt_apply hholds (List.Subset.trans
    (List.subset_cons_of_subset laid.block (List.subset_append_left _ _)) hsub)
  have hdata := stringAt_apply hholds (List.Subset.trans
    (List.subset_cons_of_subset laid.block (List.subset_append_right _ _)) hsub)
  simp only [taskAt, bind_apply, readState_apply, hfields, liftM_apply, hkey, hdata]
  rfl

theorem freeMsg_apply (hholds : Holds work.memory (laid.cells ++ ledger)) :
    ∃ memory, freeMsg laid.address work = (.ok (), { work with memory }) ∧
      Holds memory ledger := by
  have hfields : fieldsAt work.memory laid.address =
      .ok ⟨laid.cmd, laid.data.map Kept.address, laid.key.map Kept.address⟩ := by
    rw [fieldsAt, hholds.load_of_mem List.mem_cons_self]
  obtain ⟨first, hfirst, hholds⟩ := freeCell_apply (hholds.perm (laid.perm_cells ledger))
  obtain ⟨second, hsecond, hholds⟩ := @freeCell_apply { work with memory := first } _ _ hholds
  obtain ⟨last, hlast, hholds⟩ := hholds.free
  refine ⟨last, ?_, hholds⟩
  have hmsg : freeCell (some laid.address) { work with memory := second } =
      (.ok (), { work with memory := last }) := by
    simp only [freeCell, bind_apply, readState_apply, freeAt, onHeap, hlast, Except.mapError,
      liftM_apply, modifyState_apply]
  simp only [freeMsg, bind_apply, readState_apply, hfields, liftM_apply, hfirst, hsecond, hmsg]

end Laid

theorem parseClientMsgIn_simulates (heap : Message.Heap) (buf : UvBuf)
    (hholds : Holds work.memory ledger) :
    Simulates SameFault
      (fun address after task session => after.session = session ∧
        ∃ laid : Laid, address = laid.address ∧ task = laid.task ∧
          Holds after.memory (laid.cells ++ ledger))
      (parseClientMsgIn heap buf) (liftM (parseClientMsg heap buf)) work work.session := by
  unfold Simulates
  rw [parseClientMsgIn, liftM_apply]
  cases hparse : parseClientMsg heap buf with
  | error fault => rfl
  | ok task =>
      have htask := hholds.malloc (.task ⟨task.cmd, none, none⟩)
      obtain ⟨key, first, hkeyPtr, hkey, hfirst⟩ := @keep_apply
        { work with memory := (work.memory.malloc (.task ⟨task.cmd, none, none⟩)).2 } _ htask
        task.key
      obtain ⟨data, second, hdataPtr, hdata, hsecond⟩ := @keep_apply
        { work with memory := first } _ hfirst task.data
      have hapart := hsecond.perm (perm_parts _ _ _ _).symm
      obtain ⟨last, hstore, hlast⟩ := @storeCell_apply { work with memory := second } _ _ _ hapart
        (.task ⟨task.cmd, data.map Kept.address, key.map Kept.address⟩)
      have hmalloc : mallocCell (.task ⟨task.cmd, none, none⟩) work =
          (.ok (work.memory.malloc (.task ⟨task.cmd, none, none⟩)).1,
            { work with memory := (work.memory.malloc (.task ⟨task.cmd, none, none⟩)).2 }) := rfl
      simp only [inCode, Except.mapError, bind_apply, liftM_apply, hmalloc, hkey, hdata, hstore]
      refine ⟨rfl, ⟨_, task.cmd, key, data⟩, rfl, ?_, hlast⟩
      rw [Laid.task, ← hkeyPtr, ← hdataPtr]

/-! ## The routes -/

/-- A reply in a block of its own, and so many blocks that belong to nobody. -/
def Replies (ledger : Ledger Cell) (count : Nat) (pointer : Option Address) (ptr : Ptr)
    (memory : Memory Cell) : Prop :=
  ∃ (reply : Option Kept) (lost : List Kept), pointer = reply.map Kept.address ∧
    ptr = reply.map Kept.buf ∧ lost.length = count ∧
    Holds memory (cells reply.toList ++ (cells lost ++ ledger))

/-- The blocks a request for this task loses. -/
def lostBy (env : Env) (task : Task) (store : Store) : Nat :=
  if task.cmd = cmdSet ∧ task.data ≠ none then
    copiesLeft env.outcomes (env.heap.beyond .value) task.key store
  else 0

variable {env : Env} {laid : Laid} {session : Session}

theorem lostBy_of_ne {task : Task} (hcmd : task.cmd ≠ cmdSet) (store : Store) :
    lostBy env task store = 0 := if_neg fun hset => hcmd hset.1

theorem callStoreIn_simulates {P : Value → Result → Memory Cell → Prop} (op : StoreOp)
    {run : WorkExec Value} {plain : StoreExec Result} (hholds : Holds work.memory ledger)
    (hrun : ∀ after : Work, after.session = ⟨work.session.store, work.session.ops ++ [op]⟩ →
      Holds after.memory ledger →
      Simulates SameFault (AtStore (work.session.ops ++ [op]) P) run plain after
        work.session.store) :
    Simulates SameFault (AtSession P) (callStoreIn op run) (callStore op plain) work
      work.session := by
  have hcall := hrun { work with session := ⟨work.session.store, work.session.ops ++ [op]⟩ }
    rfl hholds
  unfold Simulates at hcall ⊢
  rw [callStore_apply, callStoreIn, bind_of_ok (by rfl :
    onSession (modifyState fun session => { session with ops := session.ops ++ [op] }) work =
      (.ok (), { work with session := ⟨work.session.store, work.session.ops ++ [op]⟩ }))]
  revert hcall
  rcases run { work with session := ⟨work.session.store, work.session.ops ++ [op]⟩ } with
    ⟨fault | value, after⟩ <;> rcases plain work.session.store with ⟨refused | result, reached⟩
  · exact id
  · exact id
  · exact id
  · exact id

theorem inCode_simulates (result : Except Fault Value) (hholds : Holds work.memory ledger) :
    Simulates SameFault (AtSession (Leaves ledger)) (liftM (inCode result)) (liftM result) work
      work.session := by
  cases result with
  | error fault => exact (rfl : SameFault (.code fault) fault)
  | ok value => exact ⟨rfl, rfl, hholds⟩

/-- The reply of a route is kept. -/
theorem keepReply_simulates {count : Nat} {lost : List Kept} (hlength : lost.length = count)
    {run : WorkExec Ptr} {plain : RouterExec Ptr}
    (hrun : Simulates SameFault (AtSession (Leaves (cells lost ++ ledger))) run plain work
      session) :
    Simulates SameFault (AtSession (Replies ledger count)) (run >>= keep) plain work session := by
  apply hrun.then_left
  rintro ptr after _ reached - ⟨hsession, rfl, hmemory⟩
  obtain ⟨reply, memory, hptr, hkeep, hkept⟩ := keep_apply hmemory ptr
  exact ⟨_, _, hkeep, hsession, reply, lost, rfl, hptr, hlength, hkept⟩

theorem setAnswer_of_str (heap : Message.Heap) {key : Ptr} {bytes : List Byte}
    (hkey : key.str = .ok bytes) :
    setAnswer heap key =
      formatted heap (toInt (bytes.length + 4)) (confirmation digitSet bytes) := by
  rw [setAnswer, strlen_of_str hkey, hkey, ok_bind, ok_bind]

theorem setAnswer_of_error (heap : Message.Heap) {key : Ptr} {fault : Fault}
    (hkey : key.str = .error fault) : setAnswer heap key = .error fault := by
  rw [setAnswer, strlen_of_error hkey, error_bind]

theorem routeSet_eq (env : Env) {task : Task} (hcmd : task.cmd = cmdSet)
    (hdata : task.data ≠ none) :
    routeSet env task = callStore (.set (seen task.key) (seen task.data))
      (storeSet env.outcomes (env.heap.beyond .value) task.key task.data) >>= fun _ =>
        liftM (setAnswer env.heap task.key) := by
  rw [routeSet, if_neg (not_not_intro hcmd), if_neg hdata]
  congr 1
  funext _ session
  cases hkey : task.key.str with
  | error fault =>
      rw [setAnswer_of_error _ hkey]
      simp only [strlen_of_error hkey, bind_apply, liftM_apply]
  | ok key =>
      rw [setAnswer_of_str _ hkey]
      simp only [strlen_of_str hkey, bind_apply, liftM_apply]

theorem routeSetIn_simulates (hcmd : laid.task.cmd = cmdSet) (hholds : Holds work.memory ledger)
    (hsub : laid.cells ⊆ ledger) :
    Simulates SameFault (AtSession (Replies ledger (lostBy env laid.task work.session.store)))
      (routeSetIn env laid.address) (routeSet env laid.task) work work.session := by
  apply Simulates.bind_left (laid.taskAt_apply hholds hsub)
  rw [if_neg (not_not_intro hcmd)]
  by_cases hdata : laid.task.data = none
  · rw [if_pos hdata, routeSet, if_neg (not_not_intro hcmd), if_pos hdata]
    refine ⟨rfl, none, [], rfl, rfl, ?_, hholds⟩
    rw [lostBy, if_neg (fun hset => hset.2 hdata)]
    rfl
  · rw [if_neg hdata, routeSet_eq env hcmd hdata, lostBy, if_pos ⟨hcmd, hdata⟩]
    apply (callStoreIn_simulates _ hholds fun after hsession hafter =>
      storeSetIn_simulates hsession hafter).bind
    rintro ret after _ reached - ⟨hsession, rfl, lost, hlength, hmemory⟩
    have htask := laid.taskAt_apply hmemory
      (List.Subset.trans hsub (List.subset_append_right _ _))
    apply Simulates.bind_left htask
    rw [← hsession]
    exact keepReply_simulates hlength (inCode_simulates _ hmemory)

theorem routeGet_eq (env : Env) {task : Task} (hcmd : task.cmd = cmdGet) :
    routeGet env task = callStore (.get (seen task.key))
      (storeGet env.outcomes.select (env.heap.beyond .value) task.key) >>= fun data =>
        liftM (getAnswer env.heap task.key data) := by
  rw [routeGet, if_neg (not_not_intro hcmd)]
  congr 1
  funext data session
  cases hkey : task.key.str with
  | error fault =>
      simp only [getAnswer, strlen_of_error hkey, error_bind, liftM_apply]
      split <;> simp only [bind_apply, liftM_apply]
  | ok key =>
      simp only [getAnswer, strlen_of_str hkey, hkey, ok_bind, liftM_apply]
      split
      · cases hdata : data.str with
        | error fault =>
            simp only [strlen_of_error hdata, error_bind, bind_apply, liftM_apply]
        | ok value =>
            simp only [strlen_of_str hdata, ok_bind, bind_apply, liftM_apply]
      · simp only [bind_apply, liftM_apply]

theorem routeGetIn_simulates (hcmd : laid.task.cmd = cmdGet) (hholds : Holds work.memory ledger)
    (hsub : laid.cells ⊆ ledger) :
    Simulates SameFault (AtSession (Replies ledger (lostBy env laid.task work.session.store)))
      (routeGetIn env laid.address) (routeGet env laid.task) work work.session := by
  rw [lostBy_of_ne (by rw [hcmd]; decide), routeGet_eq env hcmd]
  apply Simulates.bind_left (laid.taskAt_apply hholds hsub)
  rw [if_neg (not_not_intro hcmd)]
  apply (callStoreIn_simulates _ hholds fun after hsession hafter =>
    storeGetIn_simulates hsession hafter).bind
  rintro _ after _ reached - ⟨hsession, copy, rfl, rfl, hmemory⟩
  have htask := laid.taskAt_apply hmemory
    (List.Subset.trans hsub (List.subset_append_right _ _))
  have hcopy := stringAt_apply hmemory (List.subset_append_left (cells copy.toList) ledger)
  apply Simulates.bind_left htask
  apply Simulates.bind_left hcopy
  rw [← hsession]
  apply (inCode_simulates _ hmemory).then_left
  rintro ptr final _ last - ⟨hfinal, rfl, hlast⟩
  obtain ⟨reply, kept, hptr, hkeep, hkept⟩ := keep_apply hlast ptr
  have hapart := hkept.perm (List.perm_append_comm_assoc _ _ _)
  obtain ⟨memory, hfree, hfreed⟩ := @freeCell_apply { final with memory := kept } _ copy hapart
  refine ⟨reply.map Kept.address, { final with memory }, ?_, hfinal, reply, [], rfl, hptr, rfl,
    hfreed⟩
  rw [bind_of_ok hkeep, bind_of_ok hfree]
  rfl

theorem routeDeleteIn_simulates (hcmd : laid.task.cmd = cmdDelete)
    (hholds : Holds work.memory ledger) (hsub : laid.cells ⊆ ledger) :
    Simulates SameFault (AtSession (Replies ledger (lostBy env laid.task work.session.store)))
      (routeDeleteIn env laid.address) (routeDelete env laid.task) work work.session := by
  rw [lostBy_of_ne (by rw [hcmd]; decide)]
  apply Simulates.bind_left (laid.taskAt_apply hholds hsub)
  exact @keepReply_simulates work ledger _ 0 [] rfl _ _ (onSession_simulates _ hholds)

/-! ## The router -/

/-- What `router` does when it has a reply, or none. -/
def finishIn (heap : Message.Heap) (msg : Address) (resp : Option Address) :
    WorkExec (Option Address) := do
  let resp ← replyOrZero heap resp
  freeMsg msg
  return resp

theorem whenCmd_of_eq (hholds : Holds work.memory ledger) (hsub : laid.cells ⊆ ledger)
    {cmd : Int} (hcmd : laid.task.cmd = cmd) (route : WorkExec (Option Address))
    (resp : Option Address) : whenCmd laid.address cmd route resp work = route work := by
  rw [whenCmd, bind_of_ok (laid.taskAt_apply hholds hsub), if_pos hcmd]

theorem whenCmd_of_ne (hholds : Holds work.memory ledger) (hsub : laid.cells ⊆ ledger)
    {cmd : Int} (hcmd : laid.task.cmd ≠ cmd) (route : WorkExec (Option Address))
    (resp : Option Address) : whenCmd laid.address cmd route resp work = (.ok resp, work) := by
  rw [whenCmd, bind_of_ok (laid.taskAt_apply hholds hsub), if_neg hcmd]
  rfl

/-- The task goes, the reply and what is lost stay. -/
theorem freeMsg_behind {reply lost : List Kept}
    (hholds : Holds work.memory (cells reply ++ (cells lost ++ (laid.cells ++ ledger)))) :
    ∃ memory, freeMsg laid.address work = (.ok (), { work with memory }) ∧
      Holds memory (cells reply ++ (cells lost ++ ledger)) := by
  apply Laid.freeMsg_apply
  apply hholds.perm
  have hfirst : (cells lost ++ (laid.cells ++ ledger)).Perm
      (laid.cells ++ (cells lost ++ ledger)) := List.perm_append_comm_assoc _ _ _
  exact (hfirst.append_left (cells reply)).trans (List.perm_append_comm_assoc _ _ _)

/-- A request with its reply gives its task back. -/
theorem finishIn_simulates {reply : Option Kept} {lost : List Kept} {count : Nat}
    (hlength : lost.length = count)
    (hholds : Holds work.memory (cells reply.toList ++ (cells lost ++ (laid.cells ++ ledger)))) :
    Simulates SameFault (AtSession (Replies ledger count))
      (finishIn env.heap laid.address (reply.map Kept.address))
      (orZero env.heap (reply.map Kept.buf)) work work.session := by
  cases reply with
  | some string =>
      obtain ⟨memory, hfree, hfreed⟩ := freeMsg_behind hholds
      have hsame : finishIn env.heap laid.address (some string.address) work =
          (.ok (some string.address), { work with memory }) := bind_of_ok hfree
      unfold Simulates
      rw [Option.map_some, Option.map_some, hsame]
      exact ⟨rfl, some string, lost, rfl, rfl, hlength, hfreed⟩
  | none =>
      have hfinish : finishIn env.heap laid.address none =
          (liftM (inCode (zeroReply env.heap)) >>= keep) >>= fun resp =>
            freeMsg laid.address >>= fun _ => pure resp := rfl
      rw [Option.map_none, Option.map_none, hfinish, orZero, if_pos rfl]
      apply (keepReply_simulates hlength (inCode_simulates _ hholds)).then_left
      rintro _ after _ reached - ⟨hsession, reply, lost, rfl, rfl, hlength, hmemory⟩
      obtain ⟨memory, hfree, hfreed⟩ := freeMsg_behind hmemory
      exact ⟨_, _, bind_of_ok hfree, hsession, reply, lost, rfl, rfl, hlength, hfreed⟩

variable {route : WorkExec (Option Address)} {plain : RouterExec Ptr} {count : Nat}

/-- From a route to the end of the request. -/
theorem finish_route
    (hroute : Simulates SameFault (AtSession (Replies (laid.cells ++ ledger) count)) route plain
      work session) {rest : Option Address → WorkExec (Option Address)}
    (hrest : ∀ after resp, (∃ ledger, Holds after.memory ledger ∧ laid.cells ⊆ ledger) →
      rest resp after = finishIn env.heap laid.address resp after) :
    Simulates SameFault (AtSession (Replies ledger count)) (route >>= rest)
      (plain >>= orZero env.heap) work session := by
  apply hroute.bind
  rintro _ after _ reached - ⟨rfl, reply, lost, rfl, rfl, hlength, hmemory⟩
  have hfinish := @finishIn_simulates after ledger env laid reply lost count hlength hmemory
  unfold Simulates at hfinish ⊢
  rw [hrest]
  · exact hfinish
  · refine ⟨_, hmemory, fun cell hcell => ?_⟩
    exact List.mem_append_right _ (List.mem_append_right _ (List.mem_append_left _ hcell))

/-- The blocks a request loses, whose task the parser makes of the buffer. -/
def lostIn (env : Env) (buf : UvBuf) (store : Store) : Nat :=
  match parseClientMsg env.heap buf with
  | .ok task => lostBy env task store
  | .error _ => 0

theorem respond_of_ne (env : Env) {task : Task} (hset : task.cmd ≠ cmdSet)
    (hget : task.cmd ≠ cmdGet) (hdelete : task.cmd ≠ cmdDelete) :
    respond env task = orZero env.heap none := by
  simp only [respond, if_neg hset, if_neg hget, if_neg hdelete]
  rfl

/-- The routes in turn, for a task that is live. -/
theorem routes_simulate (hholds : Holds work.memory (laid.cells ++ ledger)) :
    Simulates SameFault (AtSession (Replies ledger (lostBy env laid.task work.session.store)))
      (whenCmd laid.address cmdSet (routeSetIn env laid.address) none >>= fun resp =>
        whenCmd laid.address cmdGet (routeGetIn env laid.address) resp >>= fun resp =>
          whenCmd laid.address cmdDelete (routeDeleteIn env laid.address) resp >>=
            finishIn env.heap laid.address)
      (respond env laid.task) work work.session := by
  have hsub : laid.cells ⊆ laid.cells ++ ledger := List.subset_append_left _ _
  by_cases hset : laid.task.cmd = cmdSet
  · have hget : laid.task.cmd ≠ cmdGet := by
      rw [hset]
      decide
    have hdelete : laid.task.cmd ≠ cmdDelete := by
      rw [hset]
      decide
    rw [respond_of_cmdSet env hset]
    apply Simulates.bind_congr (whenCmd_of_eq hholds hsub hset _ _)
    apply finish_route (routeSetIn_simulates hset hholds hsub)
    rintro after resp ⟨ledger, hholds, hsub⟩
    rw [bind_of_ok (whenCmd_of_ne hholds hsub hget _ _),
      bind_of_ok (whenCmd_of_ne hholds hsub hdelete _ _)]
  apply Simulates.bind_left (whenCmd_of_ne hholds hsub hset _ _)
  by_cases hget : laid.task.cmd = cmdGet
  · have hdelete : laid.task.cmd ≠ cmdDelete := by
      rw [hget]
      decide
    rw [respond_of_cmdGet env hget]
    apply Simulates.bind_congr (whenCmd_of_eq hholds hsub hget _ _)
    apply finish_route (routeGetIn_simulates hget hholds hsub)
    rintro after resp ⟨ledger, hholds, hsub⟩
    rw [bind_of_ok (whenCmd_of_ne hholds hsub hdelete _ _)]
  apply Simulates.bind_left (whenCmd_of_ne hholds hsub hget _ _)
  by_cases hdelete : laid.task.cmd = cmdDelete
  · rw [respond_of_cmdDelete env hdelete]
    apply Simulates.bind_congr (whenCmd_of_eq hholds hsub hdelete _ _)
    exact finish_route (routeDeleteIn_simulates hdelete hholds hsub) fun _ _ _ => rfl
  apply Simulates.bind_left (whenCmd_of_ne hholds hsub hdelete _ _)
  rw [respond_of_ne env hset hget hdelete, lostBy_of_ne hset]
  exact @finishIn_simulates work ledger env laid none [] 0 rfl hholds

/-- The router with its blocks does what the router does.  Where it returns, the
blocks are as before, but for its reply and the copies it loses. -/
theorem routerIn_simulates (env : Env) (buf : UvBuf) (hholds : Holds work.memory ledger) :
    Simulates SameFault (AtSession (Replies ledger (lostIn env buf work.session.store)))
      (routerIn env buf) (router env buf) work work.session := by
  apply (parseClientMsgIn_simulates env.heap buf hholds).bind
  rintro _ after _ reached hparse ⟨hsession, laid, rfl, rfl, hmemory⟩
  obtain ⟨hresult, rfl⟩ := Prod.mk.inj hparse
  have htask : parseClientMsg env.heap buf = .ok laid.task := hresult
  rw [lostIn, htask, ← hsession]
  exact routes_simulate hmemory

end CcCvStore.RequestMemory
