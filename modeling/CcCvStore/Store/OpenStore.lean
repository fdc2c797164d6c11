import CcCvStore.Store.Effects

/-!
# Calls on an open store

On a store that is initialised and has its table, the result of a call depends
only on the row of its key and on which SQLite calls succeed.
-/

namespace CcCvStore.OpenStore

open CcCvStore.CInteger
open CcCvStore.CString
open CcCvStore.SqlTable
open CcCvStore.Backend
open CcCvStore.StoreEffects

/-- The store is initialised and its table is `table`. -/
structure Ready (store : Store) (table : DataTable) : Prop where
  isOk : store.isOk = true
  db : store.db = .opened (some table)

/-- The data stored under a key. -/
def stored (store : Store) (key : List Byte) : Option SqlValue :=
  store.table?.bind fun table => table.lookup key

variable {store : Store} {table : DataTable} {key val : List Byte}

theorem Ready.table? (hready : Ready store table) : store.table? = some table := by
  rw [Store.table?, hready.db]

theorem Ready.used (hready : Ready store table) : used store = store := by
  rw [StoreEffects.used, if_pos hready.isOk, Store.handed, hready.db]

theorem Ready.setTable (hready : Ready store table) (after : DataTable) :
    Ready (store.setTable after) after :=
  ⟨hready.isOk, rfl⟩

theorem Ready.setTable_self (hready : Ready store table) : store.setTable table = store := by
  cases store
  simp only [Store.setTable, ← hready.db]

theorem Ready.stored (hready : Ready store table) (key : List Byte) :
    stored store key = table.lookup key := by
  rw [OpenStore.stored, hready.table?, Option.bind_some]

theorem Ready.reached? (hready : Ready store table) (outcome : Outcome) :
    reached? store outcome = if outcome.prepare then some table else none := by
  rw [StoreEffects.reached?, if_pos hready.isOk, Store.prepared?, hready.table?]

/-! ## Bindings -/

theorem boundBytes_of_le {bytes : List Byte} (hlength : (bytes.length : Int) ≤ intMax) :
    boundBytes bytes = some bytes := by
  rw [boundBytes, toInt_natCast _ hlength, if_neg (by omega), Int.toNat_natCast,
    List.take_length]

theorem bindText_of_le (outcome : Outcome) {bytes : List Byte}
    (hlength : (bytes.length : Int) ≤ intMax) :
    bindText outcome bytes = if outcome.bindText then .text bytes else .null := by
  rw [bindText, boundBytes_of_le hlength]
  rfl

theorem bindBlob_of_le (outcome : Outcome) {bytes : List Byte}
    (hlength : (bytes.length : Int) ≤ intMax) :
    bindBlob outcome bytes = if outcome.bindBlob then .blob bytes else .null := by
  rw [bindBlob, boundBytes_of_le hlength]
  rfl

/-- No bound `BLOB` equals a key. -/
theorem asText_bindBlob (outcome : Outcome) (bytes : List Byte) :
    (bindBlob outcome bytes).asText = none := by
  unfold bindBlob
  cases outcome.bindBlob with
  | false => rfl
  | true => cases boundBytes bytes <;> rfl

/-! ## Results -/

theorem lookupData_ready (hready : Ready store table) (outcome : Outcome)
    (hkey : (key.length : Int) ≤ intMax) :
    lookupData store outcome key =
      if outcome.prepare ∧ outcome.bindText ∧ outcome.step then table.lookup key else none := by
  rw [lookupData, hready.reached?, bindText_of_le _ hkey]
  cases outcome.prepare <;> cases outcome.bindText <;> cases outcome.step <;> rfl

/-- An `INSERT` whose value could not be bound stores `NULL`. -/
theorem insertResult_ready (hready : Ready store table) (outcome : Outcome)
    (hkey : (key.length : Int) ≤ intMax) (hval : (val.length : Int) ≤ intMax) :
    insertResult store outcome key val =
      if outcome.prepare ∧ outcome.bindText ∧ outcome.step ∧ key ∉ table then
        (1, store.setTable
          (table.insert key (if outcome.bindBlob then .blob val else .null)))
      else (0, store) := by
  rw [insertResult, written, hready.reached?, hready.used]
  simp only [bindText_of_le _ hkey, bindBlob_of_le _ hval]
  cases outcome.prepare with
  | false => rfl
  | true =>
      cases outcome.step with
      | false => simp
      | true =>
          cases outcome.bindText with
          | false => simp [SqlValue.asText]
          | true =>
              by_cases hmem : key ∈ table
              · simp [SqlValue.asText, insertRow_of_mem hmem, hmem]
              · simp [SqlValue.asText, insertRow_of_notMem hmem, hmem]

/-- An `UPDATE` matches no row. -/
theorem updateResult_ready (hready : Ready store table) (outcome : Outcome)
    (key val : List Byte) :
    updateResult store outcome key val =
      if outcome.prepare ∧ outcome.step then (1, store) else (0, store) := by
  rw [updateResult, written, hready.used, hready.reached?, hready.used]
  simp only [asText_bindBlob, updateWhere_none]
  cases outcome.prepare with
  | false => rfl
  | true =>
      cases outcome.step with
      | false => rfl
      | true => exact congrArg (Prod.mk 1) hready.setTable_self

/-- A `DELETE` whose key could not be bound matches no row. -/
theorem removeResult_ready (hready : Ready store table) (outcome : Outcome)
    (hkey : (key.length : Int) ≤ intMax) :
    removeResult store outcome key =
      if outcome.prepare ∧ outcome.step then
        (1, store.setTable (if outcome.bindText then table.erase key else table))
      else (0, store) := by
  rw [removeResult, written, hready.reached?, hready.used, bindText_of_le _ hkey]
  cases outcome.prepare <;> cases outcome.step <;> cases outcome.bindText <;> rfl

theorem setResult_ready (hready : Ready store table) (outcomes : Outcomes) (key val : List Byte) :
    setResult store outcomes key val =
      match lookupData store outcomes.select key with
      | none => insertResult store outcomes.insert key val
      | some _ => updateResult store outcomes.update key val := by
  unfold setResult
  cases lookupData store outcomes.select key with
  | none => exact congrArg (insertResult · outcomes.insert key val) hready.used
  | some data => exact congrArg (updateResult · outcomes.update key val) hready.used

/-- A key without a row gets one. -/
theorem setResult_new (hready : Ready store table) (hkey : (key.length : Int) ≤ intMax)
    (hval : (val.length : Int) ≤ intMax) (hnew : key ∉ table) :
    setResult store .ok key val = (1, store.setTable (table.insert key (.blob val))) := by
  have hlookup : lookupData store Outcomes.ok.select key = none := by
    rw [lookupData_ready hready _ hkey, AList.lookup_eq_none.mpr hnew, ite_self]
  rw [setResult_ready hready, hlookup]
  exact (insertResult_ready hready .ok hkey hval).trans (if_pos ⟨rfl, rfl, rfl, hnew⟩)

/-- A key with a row keeps it, whatever the value, and the call returns 1. -/
theorem setResult_old (hready : Ready store table) (hkey : (key.length : Int) ≤ intMax)
    {data : SqlValue} (hold : table.lookup key = some data) (val : List Byte) :
    setResult store .ok key val = (1, store) := by
  have hlookup : lookupData store Outcomes.ok.select key = some data :=
    (lookupData_ready hready _ hkey).trans ((if_pos ⟨rfl, rfl, rfl⟩).trans hold)
  rw [setResult_ready hready, hlookup]
  exact updateResult_ready hready .ok key val

theorem removeResult_ok (hready : Ready store table) (hkey : (key.length : Int) ≤ intMax) :
    removeResult store .ok key = (1, store.setTable (table.erase key)) :=
  removeResult_ready hready .ok hkey

end CcCvStore.OpenStore
