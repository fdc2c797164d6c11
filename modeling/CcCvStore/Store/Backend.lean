import CcCvStore.Core.CString
import CcCvStore.Core.SqlTable

/-!
# The SQLite-backed store

`store.c` keeps a flag and a connection in two static variables.  SQLite is a
table behind the connection; every fallible call takes its outcome from the
environment, and a call on a `NULL` or closed connection is recorded.
-/

namespace CcCvStore.Backend

open CcCvStore.Effect
open CcCvStore.CInteger
open CcCvStore.CString
open CcCvStore.SqlTable

/-! ## SQLite -/

/-- A value of a column or a bound parameter. -/
inductive SqlValue where
  | null
  | text (bytes : List Byte)
  | blob (bytes : List Byte)
  deriving DecidableEq

/-- The key a value can equal: `idx` holds `TEXT`, and no `BLOB` or `NULL`
equals one. -/
def SqlValue.asText : SqlValue → Option (List Byte)
  | .text bytes => some bytes
  | .null | .blob _ => none

/-- `sqlite3_column_blob` with `sqlite3_column_bytes`. -/
def columnBlob : SqlValue → List Byte
  | .null => []
  | .text bytes | .blob bytes => bytes

/-- `data_tbl1`, from `idx` to `data`. -/
abbrev DataTable := Table (List Byte) SqlValue

/-- A database: `data_tbl1` if it was created. -/
abbrev Database := Option DataTable

/-- What `db` points to.  A failed `sqlite3_open` leaves a `sick` connection,
which can only be closed, or `NULL`; `sqlite3_close` leaves a dangling pointer. -/
inductive Connection where
  | null
  | sick
  | closed
  | opened (database : Database)

inductive Api where
  | exec
  | prepare
  | close
  deriving DecidableEq

/-- The static variables, and the calls that handed SQLite a `NULL` or closed
connection. -/
structure Store where
  isOk : Bool
  db : Connection
  misuse : List Api

/-- The static variables of a program that starts. -/
def Store.initial : Store := { isOk := true, db := .null, misuse := [] }

/-- The table the connection reaches. -/
def Store.table? (store : Store) : Option DataTable :=
  match store.db with
  | .opened database => database
  | _ => none

/-- Hand the connection to SQLite. -/
def Store.handed (store : Store) (api : Api) : Store :=
  match store.db with
  | .null | .closed => { store with misuse := store.misuse ++ [api] }
  | .sick | .opened _ => store

def Store.setTable (table : DataTable) (store : Store) : Store :=
  { store with db := .opened (some table) }

/-- Which calls of one statement succeed. -/
structure Outcome where
  prepare : Bool
  bindText : Bool
  bindBlob : Bool
  step : Bool

def Outcome.ok : Outcome := ⟨true, true, true, true⟩

/-- Outcomes of the statements of one call; `reselect` is the read inside
`store_update`. -/
structure Outcomes where
  select : Outcome
  insert : Outcome
  reselect : Outcome
  update : Outcome
  delete : Outcome

def Outcomes.ok : Outcomes := ⟨.ok, .ok, .ok, .ok, .ok⟩

inductive OpenOutcome where
  | ok
  | failed
  | noMemory
  deriving DecidableEq

structure InitOutcome where
  opening : OpenOutcome
  create : Bool

/-- `struct stru_config`: `db_file` is `NULL` or names a file, given by the
database found in it. -/
structure Config where
  dbFile : Option Database

abbrev StoreExec := Exec Fault Store

def sqliteOk : Int := 0
def sqliteError : Int := 1

/-- `sqlite3_open(file, &db)`; `:memory:` is a new database. -/
def sqlite3Open (file : Option Database) (outcome : OpenOutcome) : StoreExec Int := do
  match outcome with
  | .ok =>
      modifyState fun store => { store with db := .opened (file.getD none) }
      return sqliteOk
  | .failed =>
      modifyState fun store => { store with db := .sick }
      return sqliteError
  | .noMemory =>
      modifyState fun store => { store with db := .null }
      return sqliteError

/-- `sqlite3_close(db)`. -/
def sqlite3Close : StoreExec Unit := do
  modifyState fun store => store.handed .close
  modifyState fun store =>
    match store.db with
    | .null => store
    | _ => { store with db := .closed }

/-- `sqlite3_exec` of `CREATE TABLE IF NOT EXISTS 'data_tbl1' (..)`. -/
def execCreate (succeeds : Bool) : StoreExec Int := do
  modifyState fun store => store.handed .exec
  match (← readState).db with
  | .opened database =>
      if succeeds then
        modifyState fun store => store.setTable (database.getD ∅)
        return sqliteOk
      else
        return sqliteError
  | _ => return sqliteError

/-- The table a statement on `data_tbl1` is prepared against, if it is. -/
def Store.prepared? (store : Store) (outcome : Outcome) : Option DataTable :=
  if outcome.prepare then store.table? else none

/-- `sqlite3_prepare_v2` of a statement on `data_tbl1`. -/
def prepare (outcome : Outcome) : StoreExec (Option DataTable) := do
  modifyState fun store => store.handed .prepare
  return (← readState).prepared? outcome

/-- The bytes a binding copies: the length is an `int`, and a negative one is
longer than any value SQLite takes. -/
def boundBytes (bytes : List Byte) : Option (List Byte) :=
  if toInt bytes.length < 0 then none else some (bytes.take (toInt bytes.length).toNat)

/-- `sqlite3_bind_text`; a failed binding leaves the parameter `NULL`. -/
def bindText (outcome : Outcome) (bytes : List Byte) : SqlValue :=
  if outcome.bindText then ((boundBytes bytes).map .text).getD .null else .null

def bindBlob (outcome : Outcome) (bytes : List Byte) : SqlValue :=
  if outcome.bindBlob then ((boundBytes bytes).map .blob).getD .null else .null

/-! ## The functions of `store.c` -/

/-- `store_init(config)`.  The results of both `sqlite3_open` calls go to an
inner `rc`, so the test of the outer one never fails. -/
def storeInit (config : Config) (outcome : InitOutcome) : StoreExec Int := do
  let rc := sqliteOk
  match config.dbFile with
  | none => let _rc ← sqlite3Open none outcome.opening
  | some file => let _rc ← sqlite3Open (some file) outcome.opening
  if rc ≠ sqliteOk then
    sqlite3Close
    modifyState fun store => { store with db := .null, isOk := false }
  if (← readState).isOk then
    let rc ← execCreate outcome.create
    if rc ≠ sqliteOk then
      sqlite3Close
      return 0
  modifyState fun store => { store with isOk := true }
  return 1

/-- `store_get(key)`; `beyond` follows the copy of the value in memory. -/
def storeGet (outcome : Outcome) (beyond : List Byte) (key : Ptr) : StoreExec Ptr := do
  if !(← readState).isOk then
    return none
  match ← prepare outcome with
  | none => return none
  | some table =>
      let idx := bindText outcome (← key.str)
      if outcome.step then
        return (select table idx.asText).map fun data => ⟨columnBlob data, beyond⟩
      else
        return none

def storeRemove (outcome : Outcome) (key : Ptr) : StoreExec Int := do
  if !(← readState).isOk then
    return 0
  match ← prepare outcome with
  | none => return 0
  | some table =>
      let idx := bindText outcome (← key.str)
      if outcome.step then
        modifyState fun store => store.setTable (deleteWhere table idx.asText)
        return 1
      else
        return 0

def storeClose : StoreExec Int := do
  match (← readState).db with
  | .null => pure ()
  | _ => sqlite3Close
  modifyState fun store => { store with isOk := false }
  return 1

/-- `INSERT INTO data_tbl1 (idx, data) VALUES (?,?)` with key and value. -/
def storeInsert (outcome : Outcome) (key val : Ptr) : StoreExec Int := do
  if !(← readState).isOk then
    return 0
  match ← prepare outcome with
  | none => return 0
  | some table =>
      let idx := bindText outcome (← key.str)
      let data := bindBlob outcome (← val.str)
      match if outcome.step then insertRow table idx.asText data else none with
      | none => return 0
      | some after =>
          modifyState fun store => store.setTable after
          return 1

/-- `UPDATE data_tbl1 SET data=? WHERE idx=?`: the key is bound to the first
parameter and the value to the second. -/
def storeUpdate (reselect outcome : Outcome) (beyond : List Byte) (key val : Ptr) :
    StoreExec Int := do
  if !(← readState).isOk then
    return 0
  let _data ← storeGet reselect beyond key
  match ← prepare outcome with
  | none => return 0
  | some table =>
      let data := bindText outcome (← key.str)
      let idx := bindBlob outcome (← val.str)
      if outcome.step then
        modifyState fun store => store.setTable (updateWhere table idx.asText data)
        return 1
      else
        return 0

def storeSet (outcomes : Outcomes) (beyond : List Byte) (key val : Ptr) : StoreExec Int := do
  if !(← readState).isOk then
    return 0
  match ← storeGet outcomes.select beyond key with
  | none => storeInsert outcomes.insert key val
  | some _ => storeUpdate outcomes.reselect outcomes.update beyond key val

/-! ## Calls of the interface -/

inductive Call where
  | init (config : Config) (outcome : InitOutcome)
  | close
  | get (key : Ptr) (outcome : Outcome)
  | set (key val : Ptr) (outcomes : Outcomes)
  | remove (key : Ptr) (outcome : Outcome)

/-- What a call returns. -/
inductive Return where
  | int (value : Int)
  | ptr (value : Ptr)

/-- Perform a call; `beyond` is as in `storeGet`. -/
def Call.perform (beyond : List Byte) : Call → StoreExec Return
  | .init config outcome => return .int (← storeInit config outcome)
  | .close => return .int (← storeClose)
  | .get key outcome => return .ptr (← storeGet outcome beyond key)
  | .set key val outcomes => return .int (← storeSet outcomes beyond key val)
  | .remove key outcome => return .int (← storeRemove outcome key)

end CcCvStore.Backend
