import CcCvStore.Core.Runs
import CcCvStore.Store.Effects

/-!
# Opening and closing the store

What should hold is that `is_ok` says whether the connection can be used.
Three things break it: a failed `sqlite3_open` is not seen, since its result
goes to an inner variable; a failed `CREATE TABLE` closes the connection and
leaves `is_ok` set; and after `store_close` the dangling connection stays in
`db`, while the next `store_init` skips the `CREATE TABLE`.
-/

namespace CcCvStore.Lifecycle

open CcCvStore.Effect
open CcCvStore.CString
open CcCvStore.Runs
open CcCvStore.SqlTable
open CcCvStore.Backend
open CcCvStore.StoreEffects

variable (beyond : List Byte)

/-- The static variables after a call. -/
def afterCall (store : Store) (call : Call) : Store := (call.perform beyond store).2

/-- What a call must see to: `is_ok` promises an open connection with the
table, no `NULL` or closed connection goes to SQLite, and `store_init` reports
and records what it achieved. -/
structure StepSound (store : Store) (call : Call) : Prop where
  usable : (afterCall beyond store call).isOk = true →
    ∃ table, (afterCall beyond store call).db = .opened (some table)
  no_misuse : (afterCall beyond store call).misuse = store.misuse
  init_returns : ∀ config outcome, call = .init config outcome →
    (call.perform beyond store).1 = .ok (.int 1) → (afterCall beyond store call).isOk = true
  init_fails : ∀ config outcome, call = .init config outcome →
    (outcome.opening ≠ .ok ∨ (store.isOk = true ∧ outcome.create = false)) →
      (afterCall beyond store call).isOk = false

/-- A `store_init` opens its database and finds or makes the table, and a
`store_close` finds the store initialised. -/
def Orderly (store : Store) : Call → Prop
  | .init config outcome => outcome.opening = .ok ∧
      if store.isOk then outcome.create = true else (config.dbFile.getD none).isSome = true
  | .close => store.isOk = true
  | .get _ _ | .set _ _ _ | .remove _ _ => True

/-- Between calls the store is either open with its table, or closed. -/
def Settled (store : Store) : Prop :=
  (store.isOk = true ∧ ∃ table, store.db = .opened (some table)) ∨
    (store.isOk = false ∧ store.db = .closed)

/-! ## `store_init` and `store_close` -/

/-- What `store_init` returns and leaves behind, on the database it found. -/
def initResult (found : Database) (outcome : InitOutcome) (store : Store) : Int × Store :=
  match outcome.opening, store.isOk with
  | .ok, true =>
      if outcome.create then (1, store.setTable (found.getD ∅))
      else (0, { store with db := .closed })
  | .ok, false => (1, { store with isOk := true, db := .opened found })
  | .failed, true => (0, { store with db := .closed })
  | .failed, false => (1, { store with isOk := true, db := .sick })
  | .noMemory, true =>
      (0, { store with db := .null, misuse := store.misuse ++ [.exec] ++ [.close] })
  | .noMemory, false => (1, { store with isOk := true, db := .null })

theorem storeInit_eq (config : Config) (outcome : InitOutcome) (store : Store) :
    storeInit config outcome store =
      (.ok (initResult (config.dbFile.getD none) outcome store).1,
        (initResult (config.dbFile.getD none) outcome store).2) := by
  obtain ⟨isOk, db, misuse⟩ := store
  obtain ⟨opening, create⟩ := outcome
  obtain ⟨dbFile⟩ := config
  cases dbFile <;> cases opening <;> cases isOk <;> cases create <;> rfl

theorem storeClose_of_opened {store : Store} {database : Database}
    (hdb : store.db = .opened database) :
    storeClose store = (.ok 1, { store with isOk := false, db := .closed }) := by
  obtain ⟨isOk, db, misuse⟩ := store
  cases hdb
  rfl

theorem storeClose_of_closed {store : Store} (hdb : store.db = .closed) :
    storeClose store =
      (.ok 1, { store with isOk := false, misuse := store.misuse ++ [.close] }) := by
  obtain ⟨isOk, db, misuse⟩ := store
  cases hdb
  rfl

/-! ## Reads and writes -/

/-- The store is open with its table, and nothing was misused beyond `misuse`. -/
def Live (misuse : List Api) (store : Store) : Prop :=
  store.isOk = true ∧ (∃ table, store.db = .opened (some table)) ∧ store.misuse = misuse

variable {misuse : List Api} {Value : Type}

theorem live_setTable (table : DataTable) {store : Store} (hlive : Live misuse store) :
    Live misuse (store.setTable table) :=
  ⟨hlive.1, ⟨table, rfl⟩, hlive.2.2⟩

theorem preserves_prepare (outcome : Outcome) : Preserves (Live misuse) (prepare outcome) := by
  intro store hlive
  obtain ⟨table, hdb⟩ := hlive.2.1
  have hsame : store.handed .prepare = store := by rw [Store.handed, hdb]
  rw [prepare_apply, hsame]
  exact hlive

theorem preserves_statement {outcome : Outcome} {failed : Value}
    {body : DataTable → StoreExec Value} (hbody : ∀ table, Preserves (Live misuse) (body table)) :
    Preserves (Live misuse) (statement outcome failed body) := by
  apply preserves_bind (preserves_prepare outcome)
  intro prepared
  cases prepared with
  | none => exact preserves_pure failed
  | some table => exact hbody table

theorem preserves_guarded {failed : Value} {body : StoreExec Value}
    (hbody : Preserves (Live misuse) body) : Preserves (Live misuse) (guarded failed body) := by
  intro store hlive
  rw [guarded_of_isOk _ _ hlive.1]
  exact hbody store hlive

/-- What every write does behind its bindings. -/
theorem preserves_finish (succeeds : Bool) (table : DataTable) :
    Preserves (Live misuse) (if succeeds then do
        modifyState fun store => store.setTable table
        return 1
      else return 0 : StoreExec Int) := by
  cases succeeds with
  | false => exact preserves_pure 0
  | true =>
      have hset : Preserves (Live misuse)
          (modifyState (fun store => store.setTable table) : StoreExec Unit) :=
        preserves_modifyState fun store hlive => live_setTable table hlive
      exact preserves_bind hset fun done => preserves_pure 1

theorem preserves_storeGet (outcome : Outcome) (key : Ptr) :
    Preserves (Live misuse) (storeGet outcome beyond key) := by
  rw [storeGet_eq_guarded]
  apply preserves_guarded
  apply preserves_statement
  intro table
  unfold selectRow
  refine preserves_bind (preserves_liftM _) ?_
  intro bytes
  cases outcome.step with
  | false => exact preserves_pure _
  | true => exact preserves_pure _

theorem preserves_storeRemove (outcome : Outcome) (key : Ptr) :
    Preserves (Live misuse) (storeRemove outcome key) := by
  rw [storeRemove_eq_guarded]
  apply preserves_guarded
  apply preserves_statement
  intro table
  unfold deleteRow
  refine preserves_bind (preserves_liftM _) ?_
  intro bytes
  exact preserves_finish _ _

theorem preserves_storeInsert (outcome : Outcome) (key val : Ptr) :
    Preserves (Live misuse) (storeInsert outcome key val) := by
  rw [storeInsert_eq_guarded]
  apply preserves_guarded
  apply preserves_statement
  intro table
  unfold addRow
  refine preserves_bind (preserves_liftM _) ?_
  intro keyBytes
  refine preserves_bind (preserves_liftM _) ?_
  intro valBytes
  dsimp only
  cases (if outcome.step then insertRow table (bindText outcome keyBytes).asText
    (bindBlob outcome valBytes) else none) with
  | none => exact preserves_pure 0
  | some after => exact preserves_finish true after

theorem preserves_storeUpdate (reselect outcome : Outcome) (key val : Ptr) :
    Preserves (Live misuse) (storeUpdate reselect outcome beyond key val) := by
  rw [storeUpdate_eq_guarded]
  apply preserves_guarded
  apply preserves_bind (preserves_storeGet beyond reselect key)
  intro data
  apply preserves_statement
  intro table
  unfold changeRow
  refine preserves_bind (preserves_liftM _) ?_
  intro keyBytes
  refine preserves_bind (preserves_liftM _) ?_
  intro valBytes
  exact preserves_finish _ _

theorem preserves_storeSet (outcomes : Outcomes) (key val : Ptr) :
    Preserves (Live misuse) (storeSet outcomes beyond key val) := by
  rw [storeSet_eq_guarded]
  apply preserves_guarded
  apply preserves_bind (preserves_storeGet beyond outcomes.select key)
  intro data
  cases data with
  | none => exact preserves_storeInsert _ _ _
  | some buf => exact preserves_storeUpdate _ _ _ _ _

/-- The calls that read or write the table. -/
def IsAccess : Call → Prop
  | .get _ _ | .set _ _ _ | .remove _ _ => True
  | .init _ _ | .close => False

theorem preserves_access {call : Call} (hcall : IsAccess call) :
    Preserves (Live misuse) (call.perform beyond) := by
  cases call with
  | init config outcome => exact hcall.elim
  | close => exact hcall.elim
  | get key outcome =>
      exact preserves_bind (preserves_storeGet _ _ _) fun ptr => preserves_pure _
  | set key val outcomes =>
      exact preserves_bind (preserves_storeSet _ _ _ _) fun ret => preserves_pure _
  | remove key outcome =>
      exact preserves_bind (preserves_storeRemove _ _) fun ret => preserves_pure _

/-- Without initialisation nothing is touched. -/
theorem afterCall_of_not_isOk {store : Store} (hok : store.isOk = false) {call : Call}
    (hcall : IsAccess call) : afterCall beyond store call = store := by
  cases call with
  | init config outcome => exact hcall.elim
  | close => exact hcall.elim
  | get key outcome =>
      rw [afterCall, Call.perform, storeGet_eq_guarded,
        bind_of_ok (guarded_of_not_isOk _ _ hok)]
      rfl
  | set key val outcomes =>
      rw [afterCall, Call.perform, storeSet_eq_guarded,
        bind_of_ok (guarded_of_not_isOk _ _ hok)]
      rfl
  | remove key outcome =>
      rw [afterCall, Call.perform, storeRemove_eq_guarded,
        bind_of_ok (guarded_of_not_isOk _ _ hok)]
      rfl

/-! ## Steps -/

theorem access_sound {store : Store} (hsettled : Settled store) (call : Call)
    (hcall : IsAccess call) :
    StepSound beyond store call ∧ Settled (afterCall beyond store call) := by
  have hnotInit : ∀ config outcome, call ≠ .init config outcome := by
    rintro config outcome rfl
    exact hcall
  rcases hsettled with ⟨hok, htable⟩ | ⟨hok, hclosed⟩
  · have hlive := preserves_access beyond hcall store ⟨hok, htable, rfl⟩
    refine ⟨⟨fun _ => hlive.2.1, hlive.2.2, ?_, ?_⟩, .inl ⟨hlive.1, hlive.2.1⟩⟩
    · exact fun config outcome hinit => absurd hinit (hnotInit config outcome)
    · exact fun config outcome hinit => absurd hinit (hnotInit config outcome)
  · have hsame := afterCall_of_not_isOk beyond hok hcall
    refine ⟨⟨?_, by rw [hsame], ?_, ?_⟩, by rw [hsame]; exact .inr ⟨hok, hclosed⟩⟩
    · rw [hsame, hok]
      intro hfalse
      contradiction
    · exact fun config outcome hinit => absurd hinit (hnotInit config outcome)
    · exact fun config outcome hinit => absurd hinit (hnotInit config outcome)

theorem afterCall_init (store : Store) (config : Config) (outcome : InitOutcome) :
    afterCall beyond store (.init config outcome) =
      (initResult (config.dbFile.getD none) outcome store).2 := by
  rw [afterCall, Call.perform, bind_of_ok (storeInit_eq config outcome store)]
  rfl

theorem perform_init (store : Store) (config : Config) (outcome : InitOutcome) :
    ((Call.init config outcome).perform beyond store).1 =
      .ok (.int (initResult (config.dbFile.getD none) outcome store).1) := by
  rw [Call.perform, bind_of_ok (storeInit_eq config outcome store)]
  rfl

theorem stepSound_init_iff (store : Store) (config : Config) (outcome : InitOutcome)
    {value : Int} {after : Store}
    (hresult : initResult (config.dbFile.getD none) outcome store = (value, after)) :
    StepSound beyond store (.init config outcome) ↔
      (after.isOk = true → ∃ table, after.db = .opened (some table)) ∧
        after.misuse = store.misuse ∧ (value = 1 → after.isOk = true) ∧
        (outcome.opening ≠ .ok ∨ (store.isOk = true ∧ outcome.create = false) →
          after.isOk = false) := by
  have hafter := afterCall_init beyond store config outcome
  have hreturn := perform_init beyond store config outcome
  rw [hresult] at hafter hreturn
  constructor
  · rintro ⟨husable, hmisuse, hreturns, hfails⟩
    rw [hafter] at husable hmisuse hreturns hfails
    refine ⟨husable, hmisuse, ?_, hfails config outcome rfl⟩
    rintro rfl
    exact hreturns config outcome rfl hreturn
  · rintro ⟨husable, hmisuse, hreturns, hfails⟩
    refine ⟨by rwa [hafter], by rwa [hafter], ?_, ?_⟩
    · intro config' outcome' hinit hone
      rw [hreturn] at hone
      rw [hafter]
      exact hreturns (by simpa using hone)
    · intro config' outcome' hinit hfail
      cases hinit
      rw [hafter]
      exact hfails hfail

/-- A `store_init` is sound exactly when it is orderly. -/
theorem step_init (store : Store) (config : Config) (outcome : InitOutcome) :
    (StepSound beyond store (.init config outcome) ↔ Orderly store (.init config outcome)) ∧
      (Orderly store (.init config outcome) →
        Settled (afterCall beyond store (.init config outcome))) := by
  rw [stepSound_init_iff beyond store config outcome rfl, afterCall_init, Orderly]
  obtain ⟨opening, create⟩ := outcome
  obtain ⟨isOk, db, misuse⟩ := store
  generalize config.dbFile.getD none = found
  cases opening <;> cases isOk <;> cases create <;> cases found <;>
    simp [initResult, Settled, Store.setTable]

theorem step_close {store : Store} (hsettled : Settled store) :
    (StepSound beyond store .close ↔ Orderly store .close) ∧
      (Orderly store .close → Settled (afterCall beyond store .close)) := by
  rcases hsettled with ⟨hok, table, hdb⟩ | ⟨hok, hdb⟩
  · have hafter : afterCall beyond store .close = { store with isOk := false, db := .closed } := by
      rw [afterCall, Call.perform, bind_of_ok (storeClose_of_opened hdb)]
      rfl
    have hsound : StepSound beyond store .close := by
      refine ⟨?_, by rw [hafter], ?_, ?_⟩
      · rw [hafter]
        exact fun husable => absurd husable Bool.false_ne_true
      · intro config outcome hcall
        contradiction
      · intro config outcome hcall
        contradiction
    refine ⟨⟨fun _ => hok, fun _ => hsound⟩, fun _ => ?_⟩
    rw [hafter]
    exact .inr ⟨rfl, rfl⟩
  · have hafter : (afterCall beyond store .close).misuse = store.misuse ++ [.close] := by
      rw [afterCall, Call.perform, bind_of_ok (storeClose_of_closed hdb)]
      rfl
    have hunsound : ¬StepSound beyond store .close := by
      intro hsound
      have := hsound.no_misuse
      rw [hafter] at this
      simp at this
    have hdisorderly : ¬Orderly store .close := by
      rw [Orderly, hok]
      exact Bool.false_ne_true
    exact ⟨iff_of_false hunsound hdisorderly, fun horderly => absurd horderly hdisorderly⟩

theorem step_iff (store : Store) (call : Call) (hsettled : Settled store) :
    (StepSound beyond store call ↔ Orderly store call) ∧
      (Orderly store call → Settled (afterCall beyond store call)) := by
  cases call with
  | init config outcome => exact step_init beyond store config outcome
  | close => exact step_close beyond hsettled
  | get key outcome =>
      obtain ⟨hsound, hafter⟩ := access_sound beyond hsettled
        (.get key outcome) trivial
      exact ⟨iff_of_true hsound trivial, fun _ => hafter⟩
  | set key val outcomes =>
      obtain ⟨hsound, hafter⟩ := access_sound beyond hsettled
        (.set key val outcomes) trivial
      exact ⟨iff_of_true hsound trivial, fun _ => hafter⟩
  | remove key outcome =>
      obtain ⟨hsound, hafter⟩ := access_sound beyond hsettled
        (.remove key outcome) trivial
      exact ⟨iff_of_true hsound trivial, fun _ => hafter⟩

/-! ## Runs -/

/-- A run that begins with `store_init` keeps what `is_ok` promises at every
step exactly when every `store_init` and `store_close` in it is orderly. -/
theorem lifecycle_sound (config : Config) (outcome : InitOutcome)
    (calls : List Call) :
    EachStep (afterCall beyond) (StepSound beyond) Store.initial
        (.init config outcome :: calls) ↔
      EachStep (afterCall beyond) Orderly Store.initial (.init config outcome :: calls) := by
  obtain ⟨hfirst, hsettled⟩ := step_init beyond Store.initial config outcome
  rw [eachStep_cons, eachStep_cons, hfirst]
  apply and_congr_right
  intro horderly
  exact eachStep_iff_guard
    (fun store call hinv => (step_iff beyond store call hinv).2)
    (fun store call hinv => (step_iff beyond store call hinv).1) (hsettled horderly) calls

/-- A failed `sqlite3_open` leaves `is_ok` set over a closed connection. -/
theorem lifecycle_open_failed :
    ¬EachStep (afterCall []) (StepSound []) Store.initial [.init ⟨none⟩ ⟨.failed, true⟩] := by
  intro hsound
  obtain ⟨table, hdb⟩ := hsound.1.usable rfl
  cases hdb

end CcCvStore.Lifecycle
