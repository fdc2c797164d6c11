import CcCvStore.Store.Backend

/-!
# What the store functions do

One result for each function, for a key and a value that are strings.  Every
function guards on `is_ok`, prepares one statement and runs it on the table it
was prepared against, so the results are stated on that table.
-/

namespace CcCvStore.StoreEffects

open CcCvStore.Effect
open CcCvStore.CInteger
open CcCvStore.CString
open CcCvStore.SqlTable
open CcCvStore.Backend

variable {Value : Type}

/-! ## Statements -/

/-- The shape every statement on `data_tbl1` has. -/
def statement (outcome : Outcome) (failed : Value) (body : DataTable → StoreExec Value) :
    StoreExec Value := do
  match ← prepare outcome with
  | none => return failed
  | some table => body table

/-- A statement behind the test of `is_ok`. -/
def guarded (failed : Value) (body : StoreExec Value) : StoreExec Value := do
  if !(← readState).isOk then
    return failed
  body

/-- The table a guarded statement runs on, if it gets that far. -/
def reached? (store : Store) (outcome : Outcome) : Option DataTable :=
  if store.isOk then store.prepared? outcome else none

/-- The store after a guarded statement was prepared. -/
def used (store : Store) : Store :=
  if store.isOk then store.handed .prepare else store

@[simp]
theorem isOk_handed (store : Store) (api : Api) : (store.handed api).isOk = store.isOk := by
  unfold Store.handed
  split <;> rfl

@[simp]
theorem db_handed (store : Store) (api : Api) : (store.handed api).db = store.db := by
  unfold Store.handed
  split <;> rfl

@[simp]
theorem isOk_used (store : Store) : (used store).isOk = store.isOk := by
  unfold used
  split <;> simp

@[simp]
theorem db_used (store : Store) : (used store).db = store.db := by
  unfold used
  split <;> simp

@[simp]
theorem table?_used (store : Store) : (used store).table? = store.table? := by
  rw [Store.table?, db_used, Store.table?]

@[simp]
theorem prepared?_handed (store : Store) (api : Api) (outcome : Outcome) :
    (store.handed api).prepared? outcome = store.prepared? outcome := by
  rw [Store.prepared?, Store.prepared?, Store.table?, db_handed, Store.table?]

theorem reached?_eq_some {store : Store} {outcome : Outcome} {table : DataTable} :
    reached? store outcome = some table ↔
      store.isOk = true ∧ outcome.prepare = true ∧ store.table? = some table := by
  unfold reached? Store.prepared?
  by_cases hok : store.isOk <;> by_cases hprepare : outcome.prepare <;> simp [hok, hprepare]

theorem db_of_table? {store : Store} {table : DataTable} (htable : store.table? = some table) :
    store.db = .opened (some table) := by
  unfold Store.table? at htable
  split at htable
  · rename_i database hdb
    rw [hdb, htable]
  · contradiction

/-- Preparing on an open connection leaves the store as it is. -/
theorem used_of_reached? {store : Store} {outcome : Outcome} {table : DataTable}
    (hreached : reached? store outcome = some table) : used store = store := by
  obtain ⟨hok, -, htable⟩ := reached?_eq_some.mp hreached
  rw [used, if_pos hok, Store.handed, db_of_table? htable]

theorem prepare_apply (outcome : Outcome) (store : Store) :
    prepare outcome store = (.ok (store.prepared? outcome), store.handed .prepare) := by
  simp only [prepare, bind_apply, modifyState_apply, readState_apply, pure_apply,
    prepared?_handed]

theorem statement_eq (outcome : Outcome) (failed : Value) (body : DataTable → StoreExec Value)
    {store : Store} (hok : store.isOk = true) :
    statement outcome failed body store =
      match reached? store outcome with
      | none => (.ok failed, used store)
      | some table => body table store := by
  have hused : used store = store.handed .prepare := if_pos hok
  have hreached : reached? store outcome = store.prepared? outcome := if_pos hok
  rw [statement, bind_of_ok (prepare_apply outcome store), hreached]
  cases hcase : store.prepared? outcome with
  | none => rw [hused]; rfl
  | some table =>
      rw [hcase] at hreached
      rw [← hused, used_of_reached? hreached]

theorem guarded_of_isOk (failed : Value) (body : StoreExec Value) {store : Store}
    (hok : store.isOk = true) : guarded failed body store = body store := by
  simp only [guarded, bind_apply, readState_apply, hok]
  rfl

theorem guarded_of_not_isOk (failed : Value) (body : StoreExec Value) {store : Store}
    (hok : store.isOk = false) : guarded failed body store = (.ok failed, store) := by
  simp only [guarded, bind_apply, readState_apply, hok]
  rfl

theorem used_of_not_isOk {store : Store} (hok : store.isOk = false) : used store = store := by
  rw [used, hok]
  rfl

theorem reached?_of_not_isOk {store : Store} (hok : store.isOk = false) (outcome : Outcome) :
    reached? store outcome = none := by
  rw [reached?, hok]
  rfl

/-- A guarded statement runs on the table it reaches. -/
theorem guarded_statement_eq (outcome : Outcome) (failed : Value)
    (body : DataTable → StoreExec Value) (store : Store) :
    guarded failed (statement outcome failed body) store =
      match reached? store outcome with
      | none => (.ok failed, used store)
      | some table => body table store := by
  cases hok : store.isOk with
  | false =>
      rw [guarded_of_not_isOk _ _ hok, reached?_of_not_isOk hok, used_of_not_isOk hok]
  | true => rw [guarded_of_isOk _ _ hok, statement_eq _ _ _ hok]

/-! ## The functions as statements -/

def selectRow (outcome : Outcome) (beyond : List Byte) (key : Ptr) (table : DataTable) :
    StoreExec Ptr := do
  let idx := bindText outcome (← key.str)
  if outcome.step then
    return (select table idx.asText).map fun data => ⟨columnBlob data, beyond⟩
  else
    return none

def deleteRow (outcome : Outcome) (key : Ptr) (table : DataTable) : StoreExec Int := do
  let idx := bindText outcome (← key.str)
  if outcome.step then
    modifyState fun store => store.setTable (deleteWhere table idx.asText)
    return 1
  else
    return 0

def addRow (outcome : Outcome) (key val : Ptr) (table : DataTable) : StoreExec Int := do
  let idx := bindText outcome (← key.str)
  let data := bindBlob outcome (← val.str)
  match if outcome.step then insertRow table idx.asText data else none with
  | none => return 0
  | some after =>
      modifyState fun store => store.setTable after
      return 1

def changeRow (outcome : Outcome) (key val : Ptr) (table : DataTable) : StoreExec Int := do
  let data := bindText outcome (← key.str)
  let idx := bindBlob outcome (← val.str)
  if outcome.step then
    modifyState fun store => store.setTable (updateWhere table idx.asText data)
    return 1
  else
    return 0

theorem storeGet_eq_guarded (outcome : Outcome) (beyond : List Byte) (key : Ptr) :
    storeGet outcome beyond key =
      guarded none (statement outcome none (selectRow outcome beyond key)) := rfl

theorem storeRemove_eq_guarded (outcome : Outcome) (key : Ptr) :
    storeRemove outcome key = guarded 0 (statement outcome 0 (deleteRow outcome key)) := rfl

theorem storeInsert_eq_guarded (outcome : Outcome) (key val : Ptr) :
    storeInsert outcome key val =
      guarded 0 (statement outcome 0 (addRow outcome key val)) := rfl

theorem storeUpdate_eq_guarded (reselect outcome : Outcome) (beyond : List Byte)
    (key val : Ptr) :
    storeUpdate reselect outcome beyond key val =
      guarded 0 (storeGet reselect beyond key >>= fun _ =>
        statement outcome 0 (changeRow outcome key val)) := rfl

theorem storeSet_eq_guarded (outcomes : Outcomes) (beyond : List Byte) (key val : Ptr) :
    storeSet outcomes beyond key val =
      guarded 0 (storeGet outcomes.select beyond key >>= fun data => match data with
        | none => storeInsert outcomes.insert key val
        | some _ => storeUpdate outcomes.reselect outcomes.update beyond key val) := rfl

/-! ## Results on strings -/

/-- The row `store_get` finds for a key. -/
def lookupData (store : Store) (outcome : Outcome) (key : List Byte) : Option SqlValue :=
  (reached? store outcome).bind fun table =>
    if outcome.step then select table (bindText outcome key).asText else none

/-- What a write returns and leaves behind, given the table it makes of the one
it runs on. -/
def written (store : Store) (outcome : Outcome) (change : DataTable → Option DataTable) :
    Int × Store :=
  match reached? store outcome with
  | none => (0, used store)
  | some table =>
      match if outcome.step then change table else none with
      | none => (0, store)
      | some after => (1, store.setTable after)

def removeResult (store : Store) (outcome : Outcome) (key : List Byte) : Int × Store :=
  written store outcome fun table => some (deleteWhere table (bindText outcome key).asText)

def insertResult (store : Store) (outcome : Outcome) (key val : List Byte) : Int × Store :=
  written store outcome fun table =>
    insertRow table (bindText outcome key).asText (bindBlob outcome val)

def updateResult (store : Store) (outcome : Outcome) (key val : List Byte) : Int × Store :=
  written (used store) outcome fun table =>
    some (updateWhere table (bindBlob outcome val).asText (bindText outcome key))

def setResult (store : Store) (outcomes : Outcomes) (key val : List Byte) : Int × Store :=
  match lookupData store outcomes.select key with
  | none => insertResult (used store) outcomes.insert key val
  | some _ => updateResult (used store) outcomes.update key val

theorem storeGet_of_str (outcome : Outcome) (beyond : List Byte) {key : Ptr}
    {bytes : List Byte} (hkey : key.str = .ok bytes) (store : Store) :
    storeGet outcome beyond key store =
      (.ok ((lookupData store outcome bytes).map fun data => ⟨columnBlob data, beyond⟩),
        used store) := by
  rw [storeGet_eq_guarded, guarded_statement_eq, lookupData]
  cases hreached : reached? store outcome with
  | none => rfl
  | some table =>
      simp only [selectRow, hkey, bind_apply, liftM_apply, used_of_reached? hreached,
        Option.bind_some]
      by_cases hstep : outcome.step <;> simp only [hstep] <;> rfl

theorem storeRemove_of_str (outcome : Outcome) {key : Ptr} {bytes : List Byte}
    (hkey : key.str = .ok bytes) (store : Store) :
    storeRemove outcome key store =
      (.ok (removeResult store outcome bytes).1, (removeResult store outcome bytes).2) := by
  rw [storeRemove_eq_guarded, guarded_statement_eq, removeResult, written]
  cases hreached : reached? store outcome with
  | none => rfl
  | some table =>
      simp only [deleteRow, hkey, bind_apply, liftM_apply]
      by_cases hstep : outcome.step <;> simp only [hstep] <;> rfl

theorem storeInsert_of_str (outcome : Outcome) {key val : Ptr} {keyBytes valBytes : List Byte}
    (hkey : key.str = .ok keyBytes) (hval : val.str = .ok valBytes) (store : Store) :
    storeInsert outcome key val store =
      (.ok (insertResult store outcome keyBytes valBytes).1,
        (insertResult store outcome keyBytes valBytes).2) := by
  rw [storeInsert_eq_guarded, guarded_statement_eq, insertResult, written]
  cases hreached : reached? store outcome with
  | none => rfl
  | some table =>
      simp only [addRow, hkey, hval, bind_apply, liftM_apply]
      cases (if outcome.step then insertRow table (bindText outcome keyBytes).asText
        (bindBlob outcome valBytes) else none) <;> rfl

theorem storeUpdate_of_str (reselect outcome : Outcome) (beyond : List Byte) {key val : Ptr}
    {keyBytes valBytes : List Byte} (hkey : key.str = .ok keyBytes)
    (hval : val.str = .ok valBytes) (store : Store) :
    storeUpdate reselect outcome beyond key val store =
      (.ok (updateResult store outcome keyBytes valBytes).1,
        (updateResult store outcome keyBytes valBytes).2) := by
  rw [storeUpdate_eq_guarded, updateResult, written]
  cases hok : store.isOk with
  | false =>
      have hguard : reached? (used store) outcome = none :=
        reached?_of_not_isOk ((isOk_used store).trans hok) outcome
      rw [guarded_of_not_isOk _ _ hok, hguard, used_of_not_isOk hok, used_of_not_isOk hok]
  | true =>
      rw [guarded_of_isOk _ _ hok, bind_of_ok (storeGet_of_str reselect beyond hkey store),
        statement_eq _ _ _ ((isOk_used store).trans hok)]
      cases hreached : reached? (used store) outcome with
      | none => rfl
      | some table =>
          simp only [changeRow, hkey, hval, bind_apply, liftM_apply]
          by_cases hstep : outcome.step <;> simp only [hstep] <;> rfl

theorem storeSet_of_str (outcomes : Outcomes) (beyond : List Byte) {key val : Ptr}
    {keyBytes valBytes : List Byte} (hkey : key.str = .ok keyBytes)
    (hval : val.str = .ok valBytes) (store : Store) :
    storeSet outcomes beyond key val store =
      (.ok (setResult store outcomes keyBytes valBytes).1,
        (setResult store outcomes keyBytes valBytes).2) := by
  rw [storeSet_eq_guarded, setResult]
  cases hok : store.isOk with
  | false =>
      have hnone : lookupData store outcomes.select keyBytes = none := by
        rw [lookupData, reached?_of_not_isOk hok, Option.bind_none]
      rw [guarded_of_not_isOk _ _ hok, hnone, used_of_not_isOk hok]
      simp only [insertResult, written, reached?_of_not_isOk hok, used_of_not_isOk hok]
  | true =>
      rw [guarded_of_isOk _ _ hok, bind_of_ok (storeGet_of_str outcomes.select beyond hkey store)]
      cases lookupData store outcomes.select keyBytes with
      | none => exact storeInsert_of_str outcomes.insert hkey hval (used store)
      | some data =>
          exact storeUpdate_of_str outcomes.reselect outcomes.update beyond hkey hval (used store)

/-! ## Faults -/

theorem faultsIn_str (ptr : Ptr) :
    FaultsIn IsStringFault (liftM ptr.str : StoreExec (List Byte)) :=
  faultsIn_liftM fun _ => isStringFault_of_str

theorem faultsIn_statement {outcome : Outcome} {failed : Value}
    {body : DataTable → StoreExec Value} (hbody : ∀ table, FaultsIn IsStringFault (body table)) :
    FaultsIn IsStringFault (statement outcome failed body) := by
  refine faultsIn_bind ?_ ?_
  · intro store fault hfault
    rw [prepare_apply] at hfault
    contradiction
  · intro prepared
    cases prepared with
    | none => exact faultsIn_pure failed
    | some table => exact hbody table

theorem faultsIn_guarded {failed : Value} {body : StoreExec Value}
    (hbody : FaultsIn IsStringFault body) : FaultsIn IsStringFault (guarded failed body) := by
  intro store fault hfault
  cases hok : store.isOk with
  | false =>
      rw [guarded_of_not_isOk _ _ hok] at hfault
      contradiction
  | true =>
      rw [guarded_of_isOk _ _ hok] at hfault
      exact hbody store fault hfault

/-- What every write does behind its bindings. -/
theorem faultsIn_finish (succeeds : Bool) (table : DataTable) :
    FaultsIn IsStringFault (if succeeds then do
        modifyState fun store => store.setTable table
        return 1
      else return 0 : StoreExec Int) := by
  cases succeeds with
  | false => exact faultsIn_pure 0
  | true => exact faultsIn_bind (faultsIn_modifyState _) fun done => faultsIn_pure 1

theorem faultsIn_storeGet (outcome : Outcome) (beyond : List Byte) (key : Ptr) :
    FaultsIn IsStringFault (storeGet outcome beyond key) := by
  rw [storeGet_eq_guarded]
  apply faultsIn_guarded
  apply faultsIn_statement
  intro table
  refine faultsIn_bind (faultsIn_str key) ?_
  intro bytes
  cases outcome.step with
  | false => exact faultsIn_pure _
  | true => exact faultsIn_pure _

theorem faultsIn_storeInsert (outcome : Outcome) (key val : Ptr) :
    FaultsIn IsStringFault (storeInsert outcome key val) := by
  rw [storeInsert_eq_guarded]
  apply faultsIn_guarded
  apply faultsIn_statement
  intro table
  refine faultsIn_bind (faultsIn_str key) ?_
  intro keyBytes
  refine faultsIn_bind (faultsIn_str val) ?_
  intro valBytes
  dsimp only
  cases (if outcome.step then insertRow table (bindText outcome keyBytes).asText
    (bindBlob outcome valBytes) else none) with
  | none => exact faultsIn_pure 0
  | some after => exact faultsIn_finish true after

theorem faultsIn_storeUpdate (reselect outcome : Outcome) (beyond : List Byte) (key val : Ptr) :
    FaultsIn IsStringFault (storeUpdate reselect outcome beyond key val) := by
  rw [storeUpdate_eq_guarded]
  apply faultsIn_guarded
  refine faultsIn_bind (faultsIn_storeGet reselect beyond key) ?_
  intro data
  apply faultsIn_statement
  intro table
  refine faultsIn_bind (faultsIn_str key) ?_
  intro keyBytes
  refine faultsIn_bind (faultsIn_str val) ?_
  intro valBytes
  exact faultsIn_finish _ _

/-- A `store_set` stops at nothing but the end of its strings. -/
theorem faultsIn_storeSet (outcomes : Outcomes) (beyond : List Byte) (key val : Ptr) :
    FaultsIn IsStringFault (storeSet outcomes beyond key val) := by
  rw [storeSet_eq_guarded]
  apply faultsIn_guarded
  refine faultsIn_bind (faultsIn_storeGet outcomes.select beyond key) ?_
  intro data
  cases data with
  | none => exact faultsIn_storeInsert _ _ _
  | some buf => exact faultsIn_storeUpdate _ _ _ _ _

end CcCvStore.StoreEffects
