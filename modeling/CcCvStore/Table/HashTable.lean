import CcCvStore.Core.CString
import CcCvStore.Core.Effect
import CcCvStore.Core.Probing

/-!
# The hash table

`ht.c` is an open-addressing table whose keys are strings it copies.  A slot
holds the address of its key; the strings live in a heap of their own, so that
a slot can be left with the address of a string that was freed.  What such a
string reads as, and which allocations succeed, comes from the environment.
-/

namespace CcCvStore.HashTable

open CcCvStore.Effect
open CcCvStore.CString
open CcCvStore.Probing

abbrev Addr := Nat

/-- The strings the table allocated and did not free. -/
abbrev Strings := Addr → Option (List Byte)

/-- `ht_entry` of a filled slot.  Values are pointers other than `NULL`. -/
structure Entry (Value : Type) where
  key : Addr
  value : Value
  deriving DecidableEq

/-- `struct ht`; `capacity` is the size of the array. -/
structure Ht (Value : Type) where
  entries : Slots (Entry Value)
  length : Nat

def Ht.capacity {Value : Type} (table : Ht Value) : Nat := table.entries.length

/-- The table and its strings. -/
structure State (Value : Type) where
  strings : Strings
  table : Ht Value

/-- What one call finds in its environment: whether `calloc` succeeds, the
address `strdup` returns if it does, and what freed strings read as, in each
read of the call's own probe and in each read of each step of a rehash. -/
structure Env where
  calloc : Bool
  strdup : Option Addr
  probing : Nat → Addr → List Byte
  moving : Nat → Nat → Addr → List Byte

variable {Value : Type}

/-- Results of `size_t` arithmetic. -/
def sizeResult (value : Nat) : Nat := value % 18446744073709551616

/-! ## `hash_key` -/

def fnvOffset : UInt64 := 14695981039346656037
def fnvPrime : UInt64 := 1099511628211

def hashKey (key : List Byte) : UInt64 :=
  key.foldl (fun hash byte => (hash ^^^ byte.toUInt64) * fnvPrime) fnvOffset

/-! ## Strings -/

/-- Read the string at an address; `freed` is what freed strings read as. -/
def readString (strings : Strings) (freed : Addr → List Byte) (addr : Addr) : List Byte :=
  (strings addr).getD (freed addr)

/-- `strdup(bytes)`, which never returns the address of another string. -/
def duplicate (strings : Strings) (choice : Option Addr) (bytes : List Byte) :
    Option (Addr × Strings) :=
  choice.bind fun addr =>
    if strings addr = none then some (addr, Function.update strings addr (some bytes)) else none

/-- `free(addr)`. -/
def release (strings : Strings) (addr : Addr) : Strings := Function.update strings addr none

section Calls

-- `ht.c` uses `hashKey`; nothing depends on which function it is.
variable (hash : List Byte → UInt64)

/-- `hash & (capacity - 1)`. -/
def homeIndex (capacity : Nat) (key : List Byte) : Nat := (hash key).toNat &&& (capacity - 1)

/-! ## The functions of `ht.c` -/

def initialCapacity : Nat := 16

/-- `ht_create`, where `malloc` and `calloc` succeed or fail. -/
def htCreate (malloc calloc : Bool) : Option (Ht Value) :=
  if !malloc then none
  else if !calloc then none
  else some { entries := List.replicate initialCapacity none, length := 0 }

/-- The loop all functions share: from the home slot of a key to an empty slot
or one whose string equals the key.  It gets as many steps as there are slots. -/
def findSlot (entries : Slots (Entry Value)) (home : Nat) (equal : Nat → Addr → Bool) :
    Except Stuck (Nat × Option (Entry Value)) :=
  probe (fun step entry => equal step entry.key) entries entries.length 0 home

/-- `strcmp(key, entries[index].key) == 0` for a key of the caller's. -/
def equalTo (state : State Value) (env : Env) (key : List Byte) (step : Nat) (addr : Addr) : Bool :=
  key == readString state.strings (env.probing step) addr

def htGet (env : Env) (state : State Value) (key : List Byte) : Except Stuck (Option Value) := do
  match ← findSlot state.table.entries (homeIndex hash state.table.capacity key)
      (equalTo state env key) with
  | (_, some entry) => return some entry.value
  | (_, none) => return none

/-- The slot is left as it is. -/
def htRemove (env : Env) (state : State Value) (key : List Byte) :
    Except Stuck (State Value) := do
  match ← findSlot state.table.entries (homeIndex hash state.table.capacity key)
      (equalTo state env key) with
  | (_, some entry) => return { state with strings := release state.strings entry.key }
  | (_, none) => return state

/-- `ht_set_entry` with `plength`: the caller's key is copied into an empty
slot and counted. -/
def htSetEntry (env : Env) (state : State Value) (key : List Byte) (value : Value) :
    Except Stuck (Option Addr × State Value) := do
  let entries := state.table.entries
  match ← findSlot entries (homeIndex hash state.table.capacity key) (equalTo state env key) with
  | (index, some entry) =>
      let entries := entries.set index (some { entry with value })
      return (some entry.key, { state with table := { state.table with entries } })
  | (index, none) =>
      match duplicate state.strings env.strdup key with
      | none => return (none, state)
      | some (addr, strings) =>
          let entries := entries.set index (some { key := addr, value })
          let length := sizeResult (state.table.length + 1)
          return (some addr, { strings, table := { entries, length } })

/-- `ht_set_entry` without `plength`: the key of an entry is moved as it is.
It may have been freed, and is read for its hash and in every comparison. -/
def htMoveEntry (strings : Strings) (freed : Nat → Addr → List Byte)
    (entries : Slots (Entry Value)) (entry : Entry Value) : Except Stuck (Slots (Entry Value)) := do
  let home := homeIndex hash entries.length (readString strings (freed 0) entry.key)
  match ← findSlot entries home (fun step addr =>
      readString strings (freed (step + 1)) entry.key ==
        readString strings (freed (step + 1)) addr) with
  | (index, some found) => return entries.set index (some { found with value := entry.value })
  | (index, none) => return entries.set index (some entry)

/-- The loop of `ht_expand` from slot `i` on. -/
def moveEntries (strings : Strings) (moving : Nat → Nat → Addr → List Byte) :
    (old : Slots (Entry Value)) → (i : Nat) → (entries : Slots (Entry Value)) →
      Except Stuck (Slots (Entry Value))
  | [], _, entries => return entries
  | none :: old, i, entries => moveEntries strings moving old (i + 1) entries
  | some entry :: old, i, entries => do
      let entries ← htMoveEntry hash strings (moving i) entries entry
      moveEntries strings moving old (i + 1) entries

def htExpand (env : Env) (state : State Value) : Except Stuck (Bool × State Value) := do
  let capacity := state.table.capacity
  let newCapacity := sizeResult (capacity * 2)
  if newCapacity < capacity then
    return (false, state)
  if !env.calloc then
    return (false, state)
  let entries ← moveEntries hash state.strings env.moving state.table.entries 0
    (List.replicate newCapacity none)
  return (true, { state with table := { state.table with entries } })

/-- A `NULL` value is refused (by the `assert`, if it is compiled in). -/
def htSet (env : Env) (state : State Value) (key : List Byte) (value : Option Value) :
    Except Stuck (Option Addr × State Value) := do
  match value with
  | none => return (none, state)
  | some value =>
      if state.table.length ≥ state.table.capacity / 2 then
        let (expanded, state) ← htExpand hash env state
        if !expanded then
          return (none, state)
        htSetEntry hash env state key value
      else
        htSetEntry hash env state key value

end Calls

def htLength (table : Ht Value) : Nat := table.length

/-- `ht_destroy`: the addresses handed to `free` before the array and the
table, in this order. -/
def htDestroy (table : Ht Value) : List Addr := (contents table.entries).map Entry.key

/-! ## Results by case -/

variable {hash : List Byte → UInt64} {env : Env} {state : State Value} {key : List Byte}

/-- The key of the call equals the string of a slot. -/
theorem equalTo_eq_true_iff {step : Nat} {addr : Addr} :
    equalTo state env key step addr = true ↔
      readString state.strings (env.probing step) addr = key := by
  rw [equalTo, beq_iff_eq]
  exact eq_comm

section Found

variable {index : Nat} {found : Option (Entry Value)}
  (hfind : findSlot state.table.entries (homeIndex hash state.table.capacity key)
    (equalTo state env key) = .ok (index, found))

include hfind

theorem htGet_of_findSlot : htGet hash env state key = .ok (found.map Entry.value) := by
  rw [htGet, hfind]
  cases found <;> rfl

theorem htRemove_of_findSlot :
    htRemove hash env state key =
      .ok (found.elim state fun entry =>
        { state with strings := release state.strings entry.key }) := by
  rw [htRemove, hfind]
  cases found <;> rfl

end Found

section SetEntry

variable {index : Nat}

theorem htSetEntry_of_found {entry : Entry Value}
    (hfind : findSlot state.table.entries (homeIndex hash state.table.capacity key)
      (equalTo state env key) = .ok (index, some entry)) (value : Value) :
    htSetEntry hash env state key value = .ok (some entry.key,
      { state with table := { state.table with
          entries := state.table.entries.set index (some { entry with value }) } }) := by
  rw [htSetEntry, hfind]
  rfl

variable (hfind : findSlot state.table.entries (homeIndex hash state.table.capacity key)
  (equalTo state env key) = .ok (index, none))

include hfind

theorem htSetEntry_of_no_memory (hdup : duplicate state.strings env.strdup key = none)
    (value : Value) : htSetEntry hash env state key value = .ok (none, state) := by
  rw [htSetEntry, hfind, ok_bind]
  simp only [hdup]
  rfl

theorem htSetEntry_of_empty {addr : Addr} {strings : Strings}
    (hdup : duplicate state.strings env.strdup key = some (addr, strings)) (value : Value) :
    htSetEntry hash env state key value = .ok (some addr,
      { strings := strings,
        table := { entries := state.table.entries.set index (some { key := addr, value := value }),
                   length := sizeResult (state.table.length + 1) } }) := by
  rw [htSetEntry, hfind, ok_bind]
  simp only [hdup]
  rfl

end SetEntry

/-- The table can grow: its capacity does not overflow and `calloc` succeeds. -/
def Grows (env : Env) (capacity : Nat) : Prop :=
  capacity ≤ sizeResult (capacity * 2) ∧ env.calloc = true

instance (env : Env) (capacity : Nat) : Decidable (Grows env capacity) :=
  inferInstanceAs (Decidable (_ ∧ _))

theorem htExpand_of_not_grows (hgrows : ¬Grows env state.table.capacity) :
    htExpand hash env state = .ok (false, state) := by
  rw [htExpand]
  by_cases hoverflow : sizeResult (state.table.capacity * 2) < state.table.capacity
  · rw [if_pos hoverflow]
    rfl
  · have hcalloc : env.calloc = false := by
      by_contra hcalloc
      exact hgrows ⟨Nat.le_of_not_lt hoverflow, by simpa using hcalloc⟩
    rw [if_neg hoverflow, hcalloc]
    rfl

theorem htExpand_of_grows (hgrows : Grows env state.table.capacity)
    {entries : Slots (Entry Value)}
    (hmove : moveEntries hash state.strings env.moving state.table.entries 0
      (List.replicate (sizeResult (state.table.capacity * 2)) none) = .ok entries) :
    htExpand hash env state = .ok (true, { state with table := { state.table with entries } }) := by
  rw [htExpand, if_neg (Nat.not_lt.mpr hgrows.1), hgrows.2, hmove]
  rfl

theorem htSet_of_lt (hlength : state.table.length < state.table.capacity / 2) (value : Value) :
    htSet hash env state key (some value) = htSetEntry hash env state key value := by
  rw [htSet, if_neg (Nat.not_le.mpr hlength)]

theorem htSet_of_expand (hlength : state.table.capacity / 2 ≤ state.table.length)
    {expanded : Bool} {after : State Value}
    (hexpand : htExpand hash env state = .ok (expanded, after)) (value : Value) :
    htSet hash env state key (some value) =
      if expanded then htSetEntry hash env after key value else .ok (none, after) := by
  rw [htSet, if_pos hlength, hexpand]
  cases expanded <;> rfl

/-! ## Runs -/

/-- A table fresh from `ht_create`. -/
def created : State Value where
  strings := fun _ => none
  table := { entries := List.replicate initialCapacity none, length := 0 }

theorem htCreate_eq : htCreate true true = some (created : State Value).table := rfl

/-- A call that changes the table. -/
inductive Call (Value : Type) where
  | set (key : List Byte) (value : Option Value) (env : Env)
  | remove (key : List Byte) (env : Env)

def Call.perform (hash : List Byte → UInt64) (state : State Value) :
    Call Value → Except Stuck (State Value)
  | .set key value env => return (← htSet hash env state key value).2
  | .remove key env => htRemove hash env state key

/-- A probe that does not stop leaves no state behind; the run then stays where
it is. -/
def step (hash : List Byte → UInt64) (state : State Value) (call : Call Value) : State Value :=
  match call.perform hash state with
  | .ok after => after
  | .error _ => state

end CcCvStore.HashTable
