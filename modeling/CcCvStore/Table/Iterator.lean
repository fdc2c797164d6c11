import CcCvStore.Core.Iteration
import CcCvStore.Table.FiniteMap

/-!
# The iterator

`ht_next` scans the slots from where the last call stopped to the next filled
one.  The entries that remain are the contents of the slots not scanned yet, so
an iterator takes the contents of the table one by one.
-/

namespace CcCvStore.Iterator

open CcCvStore.Iteration
open CcCvStore.Runs
open CcCvStore.WriteHistory
open CcCvStore.CString
open CcCvStore.Probing
open CcCvStore.HashTable
open CcCvStore.FiniteMap

variable {Value : Type}

/-! ## The functions of `ht.c` -/

/-- `hti`, with the table it refers to, which no call changes while it is being
iterated.  `key` and `value` are not set before the first item is found. -/
structure Hti (Value : Type) where
  key : Option Addr
  value : Option Value
  table : Ht Value
  index : Nat

def htIterator (table : Ht Value) : Hti Value := { key := none, value := none, table, index := 0 }

/-- Only an index below the capacity is advanced, so `_index` does not wrap. -/
def htNext (it : Hti Value) : Bool × Hti Value :=
  if hindex : it.index < it.table.capacity then
    let after := { it with index := it.index + 1 }
    match it.table.entries.get ⟨it.index, hindex⟩ with
    | some entry => (true, { after with key := some entry.key, value := some entry.value })
    | none => htNext after
  else (false, it)
termination_by it.table.capacity - it.index

/-! ## One call -/

/-- The key and the value the iterator holds. -/
def Hti.item (it : Hti Value) : Option (Addr × Value) :=
  it.key.bind fun key => it.value.map fun value => (key, value)

/-- The key and the value of an entry. -/
def itemOf (entry : Entry Value) : Addr × Value := (entry.key, entry.value)

/-- The items of the slots that were not scanned yet. -/
def Hti.remaining (it : Hti Value) : List (Addr × Value) :=
  (contents (it.table.entries.drop it.index)).map itemOf

section Slots

variable {it : Hti Value}

theorem remaining_of_le (hindex : ¬it.index < it.table.capacity) : it.remaining = [] := by
  rw [Hti.remaining, List.drop_of_length_le (Nat.le_of_not_lt hindex)]
  rfl

theorem drop_index (hindex : it.index < it.table.capacity) :
    it.table.entries.drop it.index =
      it.table.entries.get ⟨it.index, hindex⟩ :: it.table.entries.drop (it.index + 1) :=
  List.drop_eq_getElem_cons hindex

variable {hindex : it.index < it.table.capacity}

theorem remaining_of_none (hslot : it.table.entries.get ⟨it.index, hindex⟩ = none) :
    it.remaining = { it with index := it.index + 1 }.remaining := by
  rw [Hti.remaining, drop_index hindex, hslot, contents_none_cons, Hti.remaining]

theorem remaining_of_some {entry : Entry Value}
    (hslot : it.table.entries.get ⟨it.index, hindex⟩ = some entry) :
    it.remaining = itemOf entry :: { it with index := it.index + 1 }.remaining := by
  rw [Hti.remaining, drop_index hindex, hslot, contents_some_cons, List.map_cons, Hti.remaining]

end Slots

/-- A call finds the first item that remains, unless none does. -/
theorem htNext_cases (it : Hti Value) :
    (it.remaining = [] ∧ (htNext it).1 = false ∧ (htNext it).2.remaining = []) ∨
      ∃ item rest, it.remaining = item :: rest ∧ (htNext it).1 = true ∧
        (htNext it).2.item = some item ∧ (htNext it).2.remaining = rest := by
  fun_induction htNext it with
  | case1 it hindex after entry hslot =>
      exact .inr ⟨_, _, remaining_of_some hslot, rfl, rfl, rfl⟩
  | case2 it hindex after hslot ih =>
      rw [remaining_of_none hslot]
      exact ih
  | case3 it hindex => exact .inl ⟨remaining_of_le hindex, rfl, remaining_of_le hindex⟩

theorem htNext_takesFirst : TakesFirst (@htNext Value) Hti.item Hti.remaining where
  returns_iff it := by
    rcases htNext_cases it with ⟨hnil, hfalse, -⟩ | ⟨item, rest, hcons, htrue, -, -⟩
    · simp [hnil, hfalse]
    · simp [hcons, htrue]
  item_eq it hreturns := by
    rcases htNext_cases it with ⟨-, hfalse, -⟩ | ⟨item, rest, hcons, -, hitem, -⟩
    · simp [hfalse] at hreturns
    · rw [hcons, hitem, List.head?_cons]
  remaining_eq it := by
    rcases htNext_cases it with ⟨hnil, -, hrest⟩ | ⟨item, rest, hcons, -, -, hrest⟩
    · rw [hnil, hrest, List.tail_nil]
    · rw [hcons, hrest, List.tail_cons]

/-! ## All calls -/

variable {hash : List Byte → UInt64} {state : State Value}
  {history : List (Write (List Byte) Value)}

/-- The calls on a fresh iterator visit each key once, with the value that
`ht_get` returns for it: one key per call, as many as `ht_length` says, and
from then on every call returns false. -/
structure VisitsOnce (hash : List Byte → UInt64) (state : State Value) (keys : List (List Byte))
    (visited : List (List Byte × Value)) : Prop where
  returns_eq : ∀ n, returns htNext (htIterator state.table) n = decide (n < htLength state.table)
  yielded_eq : ∀ n, (yielded htNext Hti.item (htIterator state.table) n).map
      (fun item => (state.strings item.1, item.2)) =
    visited[n]?.map fun pair => (some pair.1, pair.2)
  length_eq : visited.length = htLength state.table
  nodup : (visited.map Prod.fst).Nodup
  mem_keys_iff : ∀ key, key ∈ visited.map Prod.fst ↔ key ∈ keys
  get : ∀ pair ∈ visited, ∀ env, htGet hash env state pair.1 = .ok (some pair.2)

theorem remaining_htIterator (table : Ht Value) :
    (htIterator table).remaining = (contents table.entries).map itemOf := rfl

/-- The keys of the items are live, so reading their strings gives the pairs. -/
theorem map_items (hsound : Sound hash state) :
    ((contents state.table.entries).map itemOf).map
        (fun item => (state.strings item.1, item.2)) =
      (pairs state).map fun pair => (some pair.1, pair.2) := by
  rw [pairs, List.map_map, List.map_map]
  apply List.map_congr_left
  intro entry hentry
  exact Prod.ext (hsound.strings_eq hentry) rfl

theorem visitsOnce_of_refines (hrefines : Refines hash state history)
    (hput : ∀ write ∈ history, write.value? ≠ none) :
    VisitsOnce hash state (history.map Write.key) (pairs state) where
  returns_eq n := by
    rw [htNext_takesFirst.returns_eq, remaining_htIterator, List.length_map, htLength,
      hrefines.length_eq]
  yielded_eq n := by
    rw [htNext_takesFirst.yielded_eq, remaining_htIterator, ← List.getElem?_map,
      map_items hrefines.toSound, List.getElem?_map]
  length_eq := hrefines.length_pairs
  nodup := hrefines.nodup_keys
  mem_keys_iff key := by rw [hrefines.mem_keys_iff, current_ne_none_iff hput]
  get := by
    rintro ⟨key, value⟩ hpair env
    exact hrefines.htGet_of_mem env hpair

/-- The keys of the calls that succeed in a run from a fresh table. -/
def keysSet (hash : List Byte → UInt64) (calls : List (SetCall Value)) : List (List Byte) :=
  (written hash created calls []).map Write.key

/-- After any sets, with any number of growths and failures among them, the
iterator visits every key that was set, once and with its value. -/
theorem run_visitsOnce (hash : List Byte → UInt64) (calls : List (SetCall Value)) :
    ∃ visited, VisitsOnce hash (run (setStep hash) created calls) (keysSet hash calls) visited := by
  have hnone : ∀ write ∈ ([] : List (Write (List Byte) Value)), write.value? ≠ none := by
    intro write hwrite
    contradiction
  have hput : ∀ write ∈ written hash created calls [], write.value? ≠ none :=
    value?_of_mem_written hnone calls
  exact ⟨_, visitsOnce_of_refines ((refines_created hash).run calls) hput⟩

/-- Two keys, one of them set twice. -/
example : let env (addr : Addr) : Env := ⟨true, some addr, fun _ _ => [], fun _ _ _ => []⟩
    let calls : List (SetCall Nat) := [⟨[107], 1, env 0⟩, ⟨[108], 2, env 1⟩, ⟨[107], 3, env 2⟩]
    let it := htIterator (run (setStep hashKey) created calls).table
    (List.range 4).map (yielded htNext Hti.item it) = [some (0, 3), some (1, 2), none, none] := by
  decide +kernel

end CcCvStore.Iterator
