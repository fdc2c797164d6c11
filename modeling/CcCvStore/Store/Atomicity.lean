import CcCvStore.Store.OpenStore
import Mathlib.Data.List.TakeDrop

/-!
# Writes under SQLite failures

A write that returns 1 should have had exactly the effect asked for, and one
that returns 0 none.  The bind results are not looked at: a statement whose
parameters were not bound runs on what is bound in their place.  When a write
is honest is stated for every outcome of every SQLite call, and for keys and
values of any length.
-/

namespace CcCvStore.Atomicity

open CcCvStore.CInteger
open CcCvStore.CString
open CcCvStore.SqlTable
open CcCvStore.Backend
open CcCvStore.StoreEffects
open CcCvStore.OpenStore

/-- A write and the outcomes of its SQLite calls. -/
inductive WriteCall where
  | set (key val : Str) (outcomes : Outcomes)
  | remove (key : Str) (outcome : Outcome)

namespace WriteCall

def perform (beyond : List Byte) : WriteCall → StoreExec Int
  | set key val outcomes => storeSet outcomes beyond key.ptr val.ptr
  | remove key outcome => storeRemove outcome key.ptr

def key : WriteCall → List Byte
  | set key _ _ => key.bytes
  | remove key _ => key.bytes

/-- What the key maps to once the write is done. -/
def requested : WriteCall → Option SqlValue
  | set _ val _ => some (.blob val.bytes)
  | remove _ _ => none

end WriteCall

/-- The key maps to `value?` and every other key is as before. -/
def HasEffect (before : DataTable) (key : List Byte) (value? : Option SqlValue)
    (after : DataTable) : Prop :=
  after.lookup key = value? ∧ ∀ other, other ≠ key → after.lookup other = before.lookup other

/-- The call returned 1 with the effect asked for in the table, or 0 with the
table as it was. -/
def Honest (before : DataTable) (call : WriteCall) (result : Except Fault Int × Store) : Prop :=
  (result.1 = .ok 1 ∧ ∃ after, Ready result.2 after ∧
      HasEffect before call.key call.requested after) ∨
    (result.1 = .ok 0 ∧ Ready result.2 before)

/-- The statement is prepared and run to its end. -/
def Runs (outcome : Outcome) : Prop := outcome.prepare = true ∧ outcome.step = true

instance (outcome : Outcome) : Decidable (Runs outcome) := inferInstanceAs (Decidable (_ ∧ _))

/-- A binding that succeeds and whose length is an `int`. -/
def BindsWhole (succeeds : Bool) (bytes : List Byte) : Prop :=
  succeeds = true ∧ (bytes.length : Int) ≤ intMax

/-- The key a statement compares `idx` with. -/
def operand (outcome : Outcome) (key : List Byte) : Option (List Byte) :=
  (bindText outcome key).asText

/-- The first statement of `store_set` finds a row. -/
def FindsRow (outcome : Outcome) (table : DataTable) (key : List Byte) : Prop :=
  Runs outcome ∧ ∃ bound, operand outcome key = some bound ∧ bound ∈ table

/-- The `INSERT` adds a row. -/
def AddsRow (outcome : Outcome) (table : DataTable) (key : List Byte) : Prop :=
  Runs outcome ∧ ∃ bound, operand outcome key = some bound ∧ bound ∉ table

/-- When a write is honest.  An `UPDATE` that runs changes nothing, so the row
has to hold the value already; an `INSERT` that adds a row has to have bound
both parameters; a `DELETE` that runs has to have bound its key, unless there
is nothing to remove. -/
def HonestWhen (table : DataTable) : WriteCall → Prop
  | .set key val outcomes =>
      (FindsRow outcomes.select table key.bytes → Runs outcomes.update →
          table.lookup key.bytes = some (.blob val.bytes)) ∧
        (¬FindsRow outcomes.select table key.bytes →
          AddsRow outcomes.insert table key.bytes →
            BindsWhole outcomes.insert.bindText key.bytes ∧
              BindsWhole outcomes.insert.bindBlob val.bytes)
  | .remove key outcome =>
      Runs outcome → BindsWhole outcome.bindText key.bytes ∨
        (key.bytes ∉ table ∧ ∀ bound, operand outcome key.bytes = some bound → bound ∉ table)

/-! ## Bindings -/

theorem boundBytes_eq_some_iff (bytes : List Byte) :
    boundBytes bytes = some bytes ↔ (bytes.length : Int) ≤ intMax := by
  constructor
  · intro hbound
    have hhigh := (toInt_range bytes.length).2
    by_cases hneg : toInt bytes.length < 0
    · rw [boundBytes, if_pos hneg] at hbound
      contradiction
    · rw [boundBytes, if_neg hneg, Option.some.injEq, List.take_eq_self_iff] at hbound
      omega
  · exact boundBytes_of_le

theorem operand_eq_some_iff (outcome : Outcome) (bytes : List Byte) :
    operand outcome bytes = some bytes ↔ BindsWhole outcome.bindText bytes := by
  rw [BindsWhole, ← boundBytes_eq_some_iff, operand, bindText]
  cases outcome.bindText with
  | false => simp [SqlValue.asText]
  | true => cases boundBytes bytes <;> simp [SqlValue.asText]

theorem bindBlob_eq_blob_iff (outcome : Outcome) (bytes : List Byte) :
    bindBlob outcome bytes = .blob bytes ↔ BindsWhole outcome.bindBlob bytes := by
  rw [BindsWhole, ← boundBytes_eq_some_iff, bindBlob]
  cases outcome.bindBlob with
  | false => simp
  | true => cases boundBytes bytes <;> simp

/-! ## Statements -/

variable {store : Store} {table : DataTable}

/-- A statement that does not run leaves everything; one that runs leaves what
it makes of the table. -/
theorem honest_written_iff (hready : Ready store table) (call : WriteCall) (outcome : Outcome)
    (change : DataTable → Option DataTable) :
    Honest table call (.ok (written store outcome change).1, (written store outcome change).2) ↔
      (Runs outcome → ∀ after, change table = some after →
        HasEffect table call.key call.requested after) := by
  have hkept : Honest table call (.ok 0, store) := .inr ⟨rfl, hready⟩
  rw [written, hready.reached?, hready.used]
  cases hprepare : outcome.prepare with
  | false => simp [Runs, hprepare, hkept]
  | true =>
      cases hstep : outcome.step with
      | false => simp [Runs, hprepare, hstep, hkept]
      | true =>
          simp only [Runs, hprepare, hstep, and_self, if_true, true_implies]
          cases change table with
          | none => simp [hkept]
          | some after =>
              have hdone : Honest table call (.ok 1, store.setTable after) ↔
                  HasEffect table call.key call.requested after := by
                constructor
                · rintro (⟨-, other, hother, heffect⟩ | ⟨hret, -⟩)
                  · have hsame : other = after := by
                      simpa [Store.setTable, eq_comm] using hother.db
                    exact hsame ▸ heffect
                  · simp at hret
                · intro heffect
                  exact .inl ⟨rfl, after, hready.setTable after, heffect⟩
              simpa using hdone

/-- A `DELETE` has its effect when it removes the row of the key, or when there
is no such row and it removes none. -/
theorem hasEffect_deleteWhere_iff (table : DataTable) (key : List Byte)
    (bound? : Option (List Byte)) :
    HasEffect table key none (deleteWhere table bound?) ↔
      bound? = some key ∨ (key ∉ table ∧ ∀ bound, bound? = some bound → bound ∉ table) := by
  constructor
  · rintro ⟨hgone, hothers⟩
    cases bound? with
    | none => exact .inr ⟨AList.lookup_eq_none.mp hgone, fun bound hbound => by contradiction⟩
    | some bound =>
        by_cases hsame : bound = key
        · exact .inl (congrArg some hsame)
        · rw [lookup_deleteWhere, if_neg (Ne.symm hsame)] at hgone
          have hkept := hothers bound hsame
          rw [lookup_deleteWhere, if_pos rfl] at hkept
          refine .inr ⟨AList.lookup_eq_none.mp hgone, ?_⟩
          rintro other heq
          cases heq
          exact AList.lookup_eq_none.mp hkept.symm
  · rintro (rfl | ⟨hnew, hmissing⟩)
    · constructor
      · rw [lookup_deleteWhere, if_pos rfl]
      · intro other hother
        rw [lookup_deleteWhere, if_neg hother]
    · cases bound? with
      | none => exact ⟨AList.lookup_eq_none.mpr hnew, fun other hother => rfl⟩
      | some bound =>
          have hsame : ∀ other, (deleteWhere table (some bound)).lookup other =
              table.lookup other := by
            intro other
            rw [lookup_deleteWhere]
            split_ifs with heq
            · rw [heq, AList.lookup_eq_none.mpr (hmissing bound rfl)]
            · rfl
          exact ⟨(hsame key).trans (AList.lookup_eq_none.mpr hnew), fun other hother => hsame other⟩

/-- An `INSERT` that adds a row has its effect when it adds the one asked for. -/
theorem hasEffect_insertRow_iff {bound key : List Byte} (hnew : bound ∉ table)
    (data value : SqlValue) {after : DataTable}
    (hinsert : insertRow table (some bound) data = some after) :
    HasEffect table key (some value) after ↔ bound = key ∧ data = value := by
  constructor
  · rintro ⟨hput, hothers⟩
    by_cases hsame : bound = key
    · rw [lookup_insertRow hinsert, if_pos hsame.symm, Option.some.injEq] at hput
      exact ⟨hsame, hput⟩
    · have hkept := hothers bound hsame
      rw [lookup_insertRow hinsert, if_pos rfl, AList.lookup_eq_none.mpr hnew] at hkept
      contradiction
  · rintro ⟨rfl, rfl⟩
    constructor
    · rw [lookup_insertRow hinsert, if_pos rfl]
    · intro other hother
      rw [lookup_insertRow hinsert, if_neg hother]

/-! ## The writes -/

theorem honest_remove_iff (hready : Ready store table) (key : Str) (outcome : Outcome) :
    Honest table (.remove key outcome)
        (.ok (removeResult store outcome key.bytes).1, (removeResult store outcome key.bytes).2) ↔
      HonestWhen table (.remove key outcome) := by
  rw [removeResult, honest_written_iff hready]
  apply imp_congr_right
  intro hruns
  rw [← operand_eq_some_iff]
  simp only [Option.some.injEq, forall_eq']
  exact hasEffect_deleteWhere_iff table key.bytes (operand outcome key.bytes)

theorem honest_insert_iff (hready : Ready store table) (key val : Str) (outcomes : Outcomes) :
    Honest table (.set key val outcomes)
        (.ok (insertResult store outcomes.insert key.bytes val.bytes).1,
          (insertResult store outcomes.insert key.bytes val.bytes).2) ↔
      (AddsRow outcomes.insert table key.bytes →
        BindsWhole outcomes.insert.bindText key.bytes ∧
          BindsWhole outcomes.insert.bindBlob val.bytes) := by
  rw [insertResult, honest_written_iff hready, ← operand_eq_some_iff, ← bindBlob_eq_blob_iff]
  constructor
  · rintro hhonest ⟨hruns, bound, hbound, hnew⟩
    have hinsert := insertRow_of_notMem hnew (bindBlob outcomes.insert val.bytes)
    have heffect := hhonest hruns _ ((congrArg (insertRow table · _) hbound).trans hinsert)
    obtain ⟨rfl, hdata⟩ := (hasEffect_insertRow_iff hnew _ _ hinsert).mp heffect
    exact ⟨hbound, hdata⟩
  · intro hwhole hruns after hinsert
    cases hbound : operand outcomes.insert key.bytes with
    | none =>
        rw [show (bindText outcomes.insert key.bytes).asText = none from hbound] at hinsert
        contradiction
    | some bound =>
        rw [show (bindText outcomes.insert key.bytes).asText = some bound from hbound] at hinsert
        by_cases hmem : bound ∈ table
        · rw [insertRow_of_mem hmem] at hinsert
          contradiction
        · obtain ⟨hkey, hdata⟩ := hwhole ⟨hruns, bound, hbound, hmem⟩
          rw [hbound, Option.some.injEq] at hkey
          exact (hasEffect_insertRow_iff hmem _ _ hinsert).mpr ⟨hkey, hdata⟩

theorem honest_update_iff (hready : Ready store table) (key val : Str) (outcomes : Outcomes) :
    Honest table (.set key val outcomes)
        (.ok (updateResult store outcomes.update key.bytes val.bytes).1,
          (updateResult store outcomes.update key.bytes val.bytes).2) ↔
      (Runs outcomes.update → table.lookup key.bytes = some (.blob val.bytes)) := by
  rw [updateResult, hready.used, honest_written_iff hready]
  simp only [asText_bindBlob, updateWhere_none, Option.some.injEq, forall_eq']
  apply imp_congr_right
  intro hruns
  constructor
  · exact And.left
  · intro hvalue
    exact ⟨hvalue, fun other hother => rfl⟩

theorem lookupData_eq_none_iff (hready : Ready store table) (outcome : Outcome)
    (key : List Byte) : lookupData store outcome key = none ↔ ¬FindsRow outcome table key := by
  have hlookup : lookupData store outcome key =
      if Runs outcome then select table (operand outcome key) else none := by
    rw [lookupData, hready.reached?]
    cases hprepare : outcome.prepare <;> cases hstep : outcome.step <;>
      simp [Runs, hprepare, hstep, operand]
  rw [hlookup, FindsRow]
  by_cases hruns : Runs outcome
  · rw [if_pos hruns]
    cases operand outcome key with
    | none => simp [select]
    | some bound => simp [select, hruns, AList.lookup_eq_none]
  · simp [hruns]

/-- A write is honest under exactly these SQLite failures. -/
theorem write_honest_iff (beyond : List Byte) (hready : Ready store table) (call : WriteCall) :
    Honest table call (call.perform beyond store) ↔ HonestWhen table call := by
  cases call with
  | remove key outcome =>
      rw [WriteCall.perform, storeRemove_of_str outcome key.str_ptr]
      exact honest_remove_iff hready key outcome
  | set key val outcomes =>
      rw [WriteCall.perform, storeSet_of_str outcomes beyond key.str_ptr val.str_ptr,
        setResult_ready hready, HonestWhen]
      by_cases hfinds : FindsRow outcomes.select table key.bytes
      · have hsome := mt (lookupData_eq_none_iff hready outcomes.select key.bytes).mp
          (not_not.mpr hfinds)
        obtain ⟨data, hdata⟩ := Option.ne_none_iff_exists'.mp hsome
        simp only [hdata, hfinds, true_implies, not_true, false_implies, and_true]
        exact honest_update_iff hready key val outcomes
      · have hnone := (lookupData_eq_none_iff hready outcomes.select key.bytes).mpr hfinds
        simp only [hnone, hfinds, false_implies, not_false_eq_true, true_implies, true_and]
        exact honest_insert_iff hready key val outcomes

/-- An open store without rows. -/
def emptyStore : Store := { isOk := true, db := .opened (some ∅), misuse := [] }

theorem ready_emptyStore : Ready emptyStore ∅ := ⟨rfl, rfl⟩

/-- The `SET` of a new key whose value cannot be bound. -/
def unboundValue : WriteCall :=
  .set ⟨[107], by decide⟩ ⟨[118], by decide⟩
    { Outcomes.ok with insert := { Outcome.ok with bindBlob := false } }

theorem write_honest_iff_unbound :
    Honest ∅ unboundValue (unboundValue.perform [] emptyStore) ↔ HonestWhen ∅ unboundValue :=
  write_honest_iff [] ready_emptyStore unboundValue

/-- It returns 1 and leaves `NULL` under the key. -/
theorem set_stores_null :
    ¬Honest ∅ unboundValue (unboundValue.perform [] emptyStore) ∧
      (unboundValue.perform [] emptyStore).1 = .ok 1 := by
  have hresult : unboundValue.perform [] emptyStore =
      (.ok 1, emptyStore.setTable (AList.insert [107] .null ∅)) := by
    rw [unboundValue, WriteCall.perform, storeSet_of_str _ _ (Str.str_ptr _) (Str.str_ptr _)]
    rfl
  rw [hresult]
  refine ⟨?_, rfl⟩
  rintro (⟨-, after, hready, heffect, -⟩ | ⟨hret, -⟩)
  · have hsame : after = AList.insert [107] .null ∅ := by
      simpa [Store.setTable, eq_comm] using hready.db
    rw [hsame, unboundValue, WriteCall.key, AList.lookup_insert] at heffect
    cases heffect
  · simp at hret

end CcCvStore.Atomicity
