import CcCvStore.Store.OpenStore

/-!
# What the table holds

A property of values that every stored value has is kept by the store functions:
a row is only added by an `INSERT`, with the value that was bound to it.
-/

namespace CcCvStore.StoredValues

open CcCvStore.CInteger
open CcCvStore.CString
open CcCvStore.SqlTable
open CcCvStore.Backend
open CcCvStore.StoreEffects
open CcCvStore.OpenStore

/-- Every row holds a value with the property. -/
def RowsOnly (P : SqlValue → Prop) (table : DataTable) : Prop :=
  ∀ key data, table.lookup key = some data → P data

/-- Every value the connection reaches has the property. -/
def StoresOnly (P : SqlValue → Prop) (store : Store) : Prop :=
  ∀ table, store.table? = some table → RowsOnly P table

variable {P : SqlValue → Prop} {table after : DataTable} {store : Store}

theorem rowsOnly_empty : RowsOnly P ∅ := by
  intro key data hrow
  rw [AList.lookup_empty] at hrow
  contradiction

theorem rowsOnly_insertRow (hrows : RowsOnly P table) {operand : Option (List Byte)}
    {value : SqlValue} (hvalue : P value)
    (hinsert : insertRow table operand value = some after) : RowsOnly P after := by
  cases operand with
  | none => contradiction
  | some added =>
      intro key data hrow
      rw [lookup_insertRow hinsert key] at hrow
      by_cases heq : key = added
      · rw [if_pos heq, Option.some.injEq] at hrow
        exact hrow ▸ hvalue
      · rw [if_neg heq] at hrow
        exact hrows key data hrow

theorem rowsOnly_deleteWhere (hrows : RowsOnly P table) (operand : Option (List Byte)) :
    RowsOnly P (deleteWhere table operand) := by
  cases operand with
  | none => exact hrows
  | some removed =>
      intro key data hrow
      rw [lookup_deleteWhere] at hrow
      by_cases heq : key = removed
      · rw [if_pos heq] at hrow
        contradiction
      · rw [if_neg heq] at hrow
        exact hrows key data hrow

theorem storesOnly_used (hstore : StoresOnly P store) : StoresOnly P (used store) := by
  intro table htable
  rw [table?_used] at htable
  exact hstore table htable

/-- A statement that keeps the property of the rows keeps it of the store. -/
theorem storesOnly_written (hstore : StoresOnly P store) (outcome : Outcome)
    {change : DataTable → Option DataTable}
    (hchange : ∀ table after, RowsOnly P table → change table = some after →
      RowsOnly P after) : StoresOnly P (written store outcome change).2 := by
  rw [written]
  cases hreached : reached? store outcome with
  | none => exact storesOnly_used hstore
  | some table =>
      have hrows := hstore table (reached?_eq_some.mp hreached).2.2
      dsimp only
      cases hstep : outcome.step with
      | false => exact hstore
      | true =>
          rw [if_pos rfl]
          cases hafter : change table with
          | none => exact hstore
          | some after =>
              intro reachable htable
              cases htable
              exact hchange table after hrows hafter

theorem storesOnly_removeResult (hstore : StoresOnly P store) (outcome : Outcome)
    (key : List Byte) : StoresOnly P (removeResult store outcome key).2 := by
  apply storesOnly_written hstore
  intro table after hrows hafter
  cases hafter
  exact rowsOnly_deleteWhere hrows _

theorem storesOnly_insertResult (hstore : StoresOnly P store) (outcome : Outcome)
    (key : List Byte) {val : List Byte} (hval : P (bindBlob outcome val)) :
    StoresOnly P (insertResult store outcome key val).2 := by
  apply storesOnly_written hstore
  intro table after hrows hafter
  exact rowsOnly_insertRow hrows hval hafter

theorem storesOnly_updateResult (hstore : StoresOnly P store) (outcome : Outcome)
    (key val : List Byte) : StoresOnly P (updateResult store outcome key val).2 := by
  apply storesOnly_written (storesOnly_used hstore)
  intro table after hrows hafter
  rw [asText_bindBlob, updateWhere_none, Option.some.injEq] at hafter
  exact hafter ▸ hrows

theorem storesOnly_setResult (hstore : StoresOnly P store) (outcomes : Outcomes)
    (key : List Byte) {val : List Byte} (hval : P (bindBlob outcomes.insert val)) :
    StoresOnly P (setResult store outcomes key val).2 := by
  rw [setResult]
  cases lookupData store outcomes.select key with
  | none => exact storesOnly_insertResult (storesOnly_used hstore) _ key hval
  | some data => exact storesOnly_updateResult (storesOnly_used hstore) _ key val

/-- What a `SELECT` finds has the property. -/
theorem of_lookupData (hstore : StoresOnly P store) {outcome : Outcome} {key : List Byte}
    {data : SqlValue} (hdata : lookupData store outcome key = some data) : P data := by
  obtain ⟨table, hreached, hfound⟩ := Option.bind_eq_some_iff.mp hdata
  have hrows := hstore table (reached?_eq_some.mp hreached).2.2
  split_ifs at hfound
  obtain ⟨found, -, hlookup⟩ := Option.bind_eq_some_iff.mp hfound
  exact hrows found data hlookup

end CcCvStore.StoredValues
