import Mathlib.Data.List.AList

/-!
# A table with a unique key column

Rows are a key and a value.  The key column is `NOT NULL` and `UNIQUE`, and a
statement selects rows by comparing the key with an operand; `none` is an
operand that equals no key, such as `NULL` or a value of another type.
-/

namespace CcCvStore.SqlTable

variable {Key Value : Type} [DecidableEq Key]

abbrev Table (Key Value : Type) := AList fun _ : Key => Value

/-- `SELECT value WHERE key = operand`. -/
def select (table : Table Key Value) (operand : Option Key) : Option Value :=
  operand.bind fun key => table.lookup key

/-- `INSERT`, which fails on a `NULL` key and on a key that has a row. -/
def insertRow (table : Table Key Value) (operand : Option Key) (value : Value) :
    Option (Table Key Value) :=
  operand.bind fun key => if key ∈ table then none else some (table.insert key value)

/-- `UPDATE SET value WHERE key = operand`. -/
def updateWhere (table : Table Key Value) (operand : Option Key) (value : Value) :
    Table Key Value :=
  match operand with
  | none => table
  | some key => table.replace key value

/-- `DELETE WHERE key = operand`. -/
def deleteWhere (table : Table Key Value) (operand : Option Key) : Table Key Value :=
  match operand with
  | none => table
  | some key => table.erase key

@[simp]
theorem updateWhere_none (table : Table Key Value) (value : Value) :
    updateWhere table none value = table := rfl

@[simp]
theorem deleteWhere_some (table : Table Key Value) (key : Key) :
    deleteWhere table (some key) = table.erase key := rfl

@[simp]
theorem insertRow_none (table : Table Key Value) (value : Value) :
    insertRow table none value = none := rfl

theorem insertRow_of_notMem {table : Table Key Value} {key : Key} (hnew : key ∉ table)
    (value : Value) : insertRow table (some key) value = some (table.insert key value) :=
  if_neg hnew

theorem insertRow_of_mem {table : Table Key Value} {key : Key} (hold : key ∈ table)
    (value : Value) : insertRow table (some key) value = none := if_pos hold

/-- A successful `INSERT` adds the row and leaves every other key alone. -/
theorem lookup_insertRow {table after : Table Key Value} {key : Key} {value : Value}
    (hinsert : insertRow table (some key) value = some after) (other : Key) :
    after.lookup other = if other = key then some value else table.lookup other := by
  by_cases hmem : key ∈ table
  · rw [insertRow_of_mem hmem] at hinsert
    contradiction
  · rw [insertRow_of_notMem hmem, Option.some.injEq] at hinsert
    subst hinsert
    by_cases heq : other = key
    · rw [if_pos heq, heq, AList.lookup_insert]
    · rw [if_neg heq, AList.lookup_insert_ne heq]

theorem lookup_deleteWhere (table : Table Key Value) (key other : Key) :
    (deleteWhere table (some key)).lookup other =
      if other = key then none else table.lookup other := by
  by_cases heq : other = key
  · rw [if_pos heq, heq, deleteWhere_some, AList.lookup_erase]
  · rw [if_neg heq, deleteWhere_some, AList.lookup_erase_ne heq]

end CcCvStore.SqlTable
