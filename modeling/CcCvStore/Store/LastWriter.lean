import CcCvStore.Core.Runs
import CcCvStore.Core.WriteHistory
import CcCvStore.Store.OpenStore

/-!
# The store as a last-writer-wins map

The abstract purpose of the store is the map of `WriteHistory`.  The SQL store
refines it as long as no key is overwritten with another value: `store_update`
binds the key to `data` and the value, a `BLOB`, to `idx`, so that it changes no
row and still returns 1.
-/

namespace CcCvStore.LastWriter

open CcCvStore.Effect
open CcCvStore.CInteger
open CcCvStore.CString
open CcCvStore.Runs
open CcCvStore.SqlTable
open CcCvStore.WriteHistory
open CcCvStore.Backend
open CcCvStore.StoreEffects
open CcCvStore.OpenStore

inductive Access where
  | get (key : Str)
  | set (key val : Str)
  | remove (key : Str)

/-- The store and the writes that were made so far, newest first. -/
structure Ledger where
  store : Store
  writes : List (Write (List Byte) (List Byte))

/-- Perform an access with every SQLite call succeeding.  A `store_set` counts
as a write when it returned 1. -/
def access (ledger : Ledger) : Access → Ledger
  | .get key =>
      { ledger with store := (storeGet .ok [] key.ptr ledger.store).2 }
  | .set key val =>
      let (ret, after) := storeSet .ok [] key.ptr val.ptr ledger.store
      match ret with
      | .ok 1 => { store := after, writes := .put key.bytes val.bytes :: ledger.writes }
      | _ => { store := after, writes := ledger.writes }
  | .remove key =>
      { store := (storeRemove .ok key.ptr ledger.store).2
        writes := .erase key.bytes :: ledger.writes }

/-- `value` was put under `key`, and the key was not written after that. -/
def LastPut (writes : List (Write (List Byte) (List Byte))) (key value : List Byte) : Prop :=
  ∃ newer older, writes = newer ++ .put key value :: older ∧
    ∀ write ∈ newer, key ≠ write.key

/-- A `store_get` returns exactly the bytes put last, or `NULL`. -/
def ReadsLast (ledger : Ledger) : Access → Prop
  | .get key => ∃ ptr, (storeGet .ok [] key.ptr ledger.store).1 = .ok ptr ∧
      ∀ value, ptr.map Buf.block = some value ↔ LastPut ledger.writes key.bytes value
  | .set _ _ | .remove _ => True

/-- Nothing the access hands to SQLite is longer than an `int` can say, and a
`store_set` finds its key without a value or with the very value it sets. -/
def Keeps (ledger : Ledger) : Access → Prop
  | .get key | .remove key => (key.bytes.length : Int) ≤ intMax
  | .set key val => (key.bytes.length : Int) ≤ intMax ∧ (val.bytes.length : Int) ≤ intMax ∧
      (stored ledger.store key.bytes = none ∨
        stored ledger.store key.bytes = some (.blob val.bytes))

instance (ledger : Ledger) (call : Access) : Decidable (Keeps ledger call) := by
  cases call <;> unfold Keeps <;> infer_instance

/-- The ledger after `store_init`, every SQLite call in it succeeding. -/
def opened (before : Store) (config : Config) : Ledger :=
  { store := (storeInit config ⟨.ok, true⟩ before).2, writes := [] }

/-- The database is new, or has no rows. -/
def EmptyDatabase (config : Config) : Prop := (config.dbFile.getD none).getD ∅ = ∅

/-! ## Runs -/

/-- The table holds the last writer of every key. -/
def Refines (ledger : Ledger) : Prop :=
  ∃ table, Ready ledger.store table ∧
    ∀ key, table.lookup key = (current ledger.writes key).map .blob

theorem access_get {ledger : Ledger} {table : DataTable} (hready : Ready ledger.store table)
    (key : Str) : access ledger (.get key) = ledger := by
  have hget := storeGet_of_str .ok [] key.str_ptr ledger.store
  simp only [access, hget, hready.used]

theorem access_set (ledger : Ledger) (key val : Str) {after : Store}
    (hset : setResult ledger.store .ok key.bytes val.bytes = (1, after)) :
    access ledger (.set key val) =
      { store := after, writes := .put key.bytes val.bytes :: ledger.writes } := by
  have hcall := storeSet_of_str .ok [] key.str_ptr val.str_ptr ledger.store
  simp only [access, hcall, hset]

theorem access_remove (ledger : Ledger) (key : Str) {after : Store}
    (hremove : removeResult ledger.store .ok key.bytes = (1, after)) :
    access ledger (.remove key) =
      { store := after, writes := .erase key.bytes :: ledger.writes } := by
  have hcall := storeRemove_of_str .ok key.str_ptr ledger.store
  simp only [access, hcall, hremove]

/-- A table that differs from the old one as a write says refines the ledger
with that write. -/
theorem refines_write {ledger : Ledger} {before table : DataTable} {after : Store}
    (hlookup : ∀ key, before.lookup key = (current ledger.writes key).map .blob)
    (write : Write (List Byte) (List Byte)) (hready : Ready after table)
    (hself : table.lookup write.key = write.value?.map .blob)
    (hother : ∀ key, key ≠ write.key → table.lookup key = before.lookup key) :
    Refines { store := after, writes := write :: ledger.writes } := by
  refine ⟨table, hready, ?_⟩
  intro key
  by_cases hkey : key = write.key
  · rw [hkey, hself, current_cons_self]
  · rw [hother key hkey, hlookup, current_cons_of_ne hkey]

/-- A step that keeps the values that exist keeps the refinement. -/
theorem refines_access (ledger : Ledger) (call : Access) (hrefines : Refines ledger)
    (hkeeps : Keeps ledger call) : Refines (access ledger call) := by
  obtain ⟨table, hready, hlookup⟩ := hrefines
  cases call with
  | get key =>
      rw [access_get hready]
      exact ⟨table, hready, hlookup⟩
  | set key val =>
      obtain ⟨hkey, hval, hsame⟩ := hkeeps
      cases hrow : table.lookup key.bytes with
      | none =>
          rw [access_set ledger key val
            (setResult_new hready hkey hval (AList.lookup_eq_none.mp hrow))]
          apply refines_write hlookup (.put key.bytes val.bytes) (hready.setTable _)
          · exact AList.lookup_insert table
          · intro other hother
            exact AList.lookup_insert_ne hother
      | some data =>
          have hdata : data = .blob val.bytes := by
            rw [hready.stored, hrow] at hsame
            simpa using hsame
          rw [access_set ledger key val (setResult_old hready hkey hrow val.bytes)]
          apply refines_write hlookup (.put key.bytes val.bytes) hready
          · exact hrow.trans (congrArg some hdata)
          · intro other hother
            rfl
  | remove key =>
      rw [access_remove ledger key (removeResult_ok hready hkeeps)]
      apply refines_write hlookup (.erase key.bytes) (hready.setTable _)
      · exact AList.lookup_erase key.bytes table
      · intro other hother
        exact AList.lookup_erase_ne hother

theorem readsLast_of_refines (ledger : Ledger) (call : Access) (hrefines : Refines ledger)
    (hkeeps : Keeps ledger call) : ReadsLast ledger call := by
  obtain ⟨table, hready, hlookup⟩ := hrefines
  cases call with
  | get key =>
      have hget := storeGet_of_str .ok [] key.str_ptr ledger.store
      have hdata : lookupData ledger.store .ok key.bytes = table.lookup key.bytes :=
        lookupData_ready hready .ok hkeeps
      rw [hdata, hlookup] at hget
      refine ⟨_, congrArg Prod.fst hget, ?_⟩
      intro value
      rw [LastPut, ← current_eq_some_iff]
      cases current ledger.writes key.bytes <;> rfl
  | set key val => trivial
  | remove key => trivial

/-- `store_init` creates the table when the flag is still set. -/
theorem refines_opened {before : Store} (hok : before.isOk = true) {config : Config}
    (hempty : EmptyDatabase config) : Refines (opened before config) := by
  refine ⟨∅, ?_, fun key => rfl⟩
  have hinit : (opened before config).store =
      { before with
        isOk := true
        db := .opened (some ((config.dbFile.getD none).getD ∅)) } := by
    obtain ⟨isOk, db, misuse⟩ := before
    cases hok
    cases hfile : config.dbFile <;> simp [opened, storeInit, hfile] <;> rfl
  rw [hinit, hempty]
  exact ⟨rfl, rfl⟩

/-- In every run in which no access changes the value of a key that has one,
each `store_get` returns what was put last. -/
theorem store_lastWriter (before : Store) (hok : before.isOk = true) (config : Config)
    (hempty : EmptyDatabase config) (calls : List Access)
    (hkeeps : EachStep access Keeps (opened before config) calls) :
    EachStep access ReadsLast (opened before config) calls :=
  eachStep_of_guard refines_access readsLast_of_refines (refines_opened hok hempty) hkeeps

/-- Setting, reading, setting again and removing the key `k`. -/
theorem store_lastWriter_cycle :
    let k : Str := ⟨[107], by decide⟩
    let v : Str := ⟨[118], by decide⟩
    let w : Str := ⟨[119], by decide⟩
    EachStep access ReadsLast (opened Store.initial ⟨none⟩)
      [.set k v, .get k, .set k v, .remove k, .get k, .set k w, .get k] :=
  store_lastWriter Store.initial rfl ⟨none⟩ rfl _ (by decide +kernel)

/-- After `k` was set to `v` and then to `w`, `store_get` returns `v`. -/
theorem store_get_stale :
    let k : Str := ⟨[107], by decide⟩
    let v : Str := ⟨[118], by decide⟩
    let w : Str := ⟨[119], by decide⟩
    ¬EachStep access ReadsLast (opened Store.initial ⟨none⟩) [.set k v, .set k w, .get k] := by
  intro k v w hreads
  obtain ⟨ptr, hptr, hlast⟩ := hreads.2.2.1
  have hput : LastPut (access (access (opened Store.initial ⟨none⟩) (.set k v)) (.set k w)).writes
      k.bytes w.bytes := ⟨[], [.put k.bytes v.bytes], by decide +kernel, by simp⟩
  have hread := (hlast w.bytes).mpr hput
  have hstale : (storeGet .ok [] k.ptr
      (access (access (opened Store.initial ⟨none⟩) (.set k v)) (.set k w)).store).1 =
        .ok (some ⟨v.bytes, []⟩) := by decide +kernel
  have hfound : ptr = some ⟨v.bytes, []⟩ := Except.ok.inj (hptr.symm.trans hstale)
  rw [hfound] at hread
  revert hread
  decide

end CcCvStore.LastWriter
