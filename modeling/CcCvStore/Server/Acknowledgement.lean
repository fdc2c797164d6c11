import CcCvStore.Server.Requests
import CcCvStore.Store.OpenStore

/-!
# Acknowledgements

`route_set` and `route_delete` confirm a request whatever the store call
returned.  A confirmation is honest exactly when the write takes effect, which
depends on the store, on the row of the key and on the SQLite calls.
-/

namespace CcCvStore.Acknowledgement

open CcCvStore.CInteger
open CcCvStore.CString
open CcCvStore.Message
open CcCvStore.WireFormat
open CcCvStore.Backend
open CcCvStore.StoreEffects
open CcCvStore.OpenStore
open CcCvStore.Router
open CcCvStore.Requests

/-- A confirmation is sent only for what the store then says, and a store call
that returned 0 is answered `0`. -/
def Honest (env : Env) (session : Session) : Request → Prop
  | .set key value =>
      let task := parsedTask env.heap (Request.set key value).encode
      let result := router env (env.heap.received (Request.set key value).encode) session
      (Answers result.1 (confirmation digitSet key.bytes) →
          stored result.2.store key.bytes = some (.blob value.bytes)) ∧
        ((storeSet env.outcomes (env.heap.beyond .value) task.key task.data session.store).1 =
          .ok 0 → Answers result.1 [48])
  | .delete key =>
      let task := parsedTask env.heap (Request.delete key).encode
      let result := router env (env.heap.received (Request.delete key).encode) session
      (Answers result.1 (confirmation digitDelete key.bytes) →
          stored result.2.store key.bytes = none) ∧
        ((storeRemove env.outcomes.delete task.key session.store).1 = .ok 0 →
          Answers result.1 [48])
  | .get _ => True

/-- The store is open; a `SET` adds a new key, or finds its key with the very
value, and the SQLite calls it depends on succeed; a `DELETE` binds its key, or
finds it absent, and its other calls succeed. -/
def TakesEffect (outcomes : Outcomes) (store : Store) : Request → Prop
  | .set key value => ∃ table, Ready store table ∧
      ((key.bytes ∉ table ∧ outcomes.insert.prepare = true ∧ outcomes.insert.bindText = true ∧
          outcomes.insert.bindBlob = true ∧ outcomes.insert.step = true) ∨
        (table.lookup key.bytes = some (.blob value.bytes) ∧ outcomes.select.prepare = true ∧
          outcomes.select.bindText = true ∧ outcomes.select.step = true ∧
          outcomes.update.prepare = true ∧ outcomes.update.step = true))
  | .delete key => ∃ table, Ready store table ∧ outcomes.delete.prepare = true ∧
      outcomes.delete.step = true ∧ (outcomes.delete.bindText = true ∨ key.bytes ∉ table)
  | .get _ => True

/-! ## The writes -/

variable {store : Store} {key val : List Byte}

/-- A statement that fails without a table leaves 0. -/
theorem written_of_not_ready (hclosed : ∀ table, ¬Ready store table) (outcome : Outcome)
    (change : DataTable → Option DataTable) : (written store outcome change).1 = 0 := by
  have hreached : reached? store outcome = none := by
    cases hcase : reached? store outcome with
    | none => rfl
    | some table =>
        obtain ⟨hok, -, htable⟩ := reached?_eq_some.mp hcase
        exact absurd ⟨hok, db_of_table? htable⟩ (hclosed table)
  rw [written, hreached]

theorem not_ready_used (hclosed : ∀ table, ¬Ready store table) (table : DataTable) :
    ¬Ready (used store) table := by
  rintro ⟨hok, hdb⟩
  rw [isOk_used] at hok
  rw [db_used] at hdb
  exact hclosed table ⟨hok, hdb⟩

theorem setResult_of_not_ready (hclosed : ∀ table, ¬Ready store table) (outcomes : Outcomes) :
    (setResult store outcomes key val).1 = 0 := by
  rw [setResult]
  cases lookupData store outcomes.select key with
  | none => exact written_of_not_ready (not_ready_used hclosed) _ _
  | some data => exact written_of_not_ready (not_ready_used (not_ready_used hclosed)) _ _

theorem exists_ready_iff {table : DataTable} (hready : Ready store table)
    (P : DataTable → Prop) : (∃ other, Ready store other ∧ P other) ↔ P table := by
  constructor
  · rintro ⟨other, hother, hP⟩
    have hdb := hother.db.symm.trans hready.db
    have hsame : other = table := by simpa using hdb
    exact hsame ▸ hP
  · intro hP
    exact ⟨table, hready, hP⟩

theorem insertResult_effect_iff {table : DataTable} (hready : Ready store table)
    (outcome : Outcome) (hkey : (key.length : Int) ≤ intMax)
    (hval : (val.length : Int) ≤ intMax) :
    ((insertResult store outcome key val).1 ≠ 0 ∧
        stored (insertResult store outcome key val).2 key = some (.blob val)) ↔
      key ∉ table ∧ outcome.prepare = true ∧ outcome.bindText = true ∧
        outcome.bindBlob = true ∧ outcome.step = true := by
  rw [insertResult_ready hready outcome hkey hval]
  by_cases hruns : outcome.prepare ∧ outcome.bindText ∧ outcome.step ∧ key ∉ table
  · obtain ⟨hprepare, hbind, hstep, hnew⟩ := hruns
    rw [if_pos ⟨hprepare, hbind, hstep, hnew⟩, (hready.setTable _).stored,
      AList.lookup_insert]
    cases hblob : outcome.bindBlob <;> simp [hprepare, hbind, hstep, hnew]
  · rw [if_neg hruns]
    apply iff_of_false
    · exact fun hboth => hboth.1 rfl
    · rintro ⟨hnew, hprepare, hbind, -, hstep⟩
      exact hruns ⟨hprepare, hbind, hstep, hnew⟩

theorem updateResult_effect_iff {table : DataTable} (hready : Ready store table)
    (outcome : Outcome) :
    ((updateResult store outcome key val).1 ≠ 0 ∧
        stored (updateResult store outcome key val).2 key = some (.blob val)) ↔
      table.lookup key = some (.blob val) ∧ outcome.prepare = true ∧ outcome.step = true := by
  rw [updateResult_ready hready outcome]
  by_cases hruns : outcome.prepare ∧ outcome.step
  · rw [if_pos hruns, hready.stored]
    simp [hruns.1, hruns.2]
  · rw [if_neg hruns]
    apply iff_of_false
    · exact fun hboth => hboth.1 rfl
    · exact fun hboth => hruns hboth.2

/-- A `store_set` reports success with the value in place exactly when it adds a
new key or leaves the value that is there. -/
theorem setResult_effect_iff (outcomes : Outcomes) (hkey : (key.length : Int) ≤ intMax)
    (hval : (val.length : Int) ≤ intMax) :
    ((setResult store outcomes key val).1 ≠ 0 ∧
        stored (setResult store outcomes key val).2 key = some (.blob val)) ↔
      ∃ table, Ready store table ∧
        ((key ∉ table ∧ outcomes.insert.prepare = true ∧ outcomes.insert.bindText = true ∧
            outcomes.insert.bindBlob = true ∧ outcomes.insert.step = true) ∨
          (table.lookup key = some (.blob val) ∧ outcomes.select.prepare = true ∧
            outcomes.select.bindText = true ∧ outcomes.select.step = true ∧
            outcomes.update.prepare = true ∧ outcomes.update.step = true)) := by
  by_cases hopen : ∃ table, Ready store table
  · obtain ⟨table, hready⟩ := hopen
    rw [exists_ready_iff hready, setResult_ready hready, lookupData_ready hready _ hkey]
    by_cases hselect : outcomes.select.prepare ∧ outcomes.select.bindText ∧ outcomes.select.step
    · rw [if_pos hselect]
      cases hrow : table.lookup key with
      | none =>
          have hnew : key ∉ table := AList.lookup_eq_none.mp hrow
          simp only [insertResult_effect_iff hready outcomes.insert hkey hval, hnew]
          simp
      | some data =>
          have hold : key ∈ table := AList.lookup_isSome.mp (by rw [hrow]; rfl)
          simp only [updateResult_effect_iff hready outcomes.update, hrow, hold, hselect]
          simp
    · rw [if_neg hselect]
      simp only [insertResult_effect_iff hready outcomes.insert hkey hval]
      constructor
      · exact Or.inl
      · rintro (hinsert | ⟨-, hprepare, hbind, hstep, -⟩)
        · exact hinsert
        · exact absurd ⟨hprepare, hbind, hstep⟩ hselect
  · apply iff_of_false
    · rintro ⟨hret, -⟩
      exact hret (setResult_of_not_ready (not_exists.mp hopen) outcomes)
    · rintro ⟨table, hready, -⟩
      exact hopen ⟨table, hready⟩

/-- A `store_remove` reports success with the key gone exactly when its
statement runs, and binds its key or has none to remove. -/
theorem removeResult_effect_iff (outcome : Outcome) (hkey : (key.length : Int) ≤ intMax) :
    ((removeResult store outcome key).1 ≠ 0 ∧
        stored (removeResult store outcome key).2 key = none) ↔
      ∃ table, Ready store table ∧ outcome.prepare = true ∧ outcome.step = true ∧
        (outcome.bindText = true ∨ key ∉ table) := by
  by_cases hopen : ∃ table, Ready store table
  · obtain ⟨table, hready⟩ := hopen
    rw [exists_ready_iff hready, removeResult_ready hready outcome hkey]
    by_cases hruns : outcome.prepare ∧ outcome.step
    · rw [if_pos hruns, (hready.setTable _).stored]
      cases hbind : outcome.bindText with
      | true => simp [hruns.1, hruns.2, AList.lookup_erase]
      | false => simp [hruns.1, hruns.2, AList.lookup_eq_none]
    · rw [if_neg hruns]
      apply iff_of_false
      · exact fun hboth => hboth.1 rfl
      · exact fun hboth => hruns ⟨hboth.1, hboth.2.1⟩
  · apply iff_of_false
    · rintro ⟨hret, -⟩
      exact hret (written_of_not_ready (not_exists.mp hopen) outcome _)
    · rintro ⟨table, hready, -⟩
      exact hopen ⟨table, hready⟩

/-! ## The acknowledgement -/

/-- A reply that is a confirmation is honest when the call did what it confirms
and did not return 0. -/
theorem honest_iff {reply : Except Fault Ptr} {conf : List Byte} (hanswers : Answers reply conf)
    (hconf : conf ≠ [48]) {effect : Prop} {ret : Int} :
    ((Answers reply conf → effect) ∧
        ((.ok ret : Except Fault Int) = .ok 0 → Answers reply [48])) ↔ ret ≠ 0 ∧ effect := by
  constructor
  · rintro ⟨heffect, hzero⟩
    refine ⟨?_, heffect hanswers⟩
    rintro rfl
    exact hconf (answers_unique hanswers (hzero rfl))
  · rintro ⟨hret, heffect⟩
    refine ⟨fun _ => heffect, ?_⟩
    intro hzero
    exact absurd (Except.ok.inj hzero) hret

theorem confirmation_ne_zero (digit : Byte) (key : List Byte) : confirmation digit key ≠ [48] := by
  simp [confirmation]

/-- The router acknowledges honestly exactly when the request takes effect. -/
theorem acknowledgement_iff (env : Env) (hterminated : env.heap.Terminated) (request : Request)
    (hlength : (request.encode.length : Int) < intMax) (session : Session) :
    Honest env session request ↔ TakesEffect env.outcomes session.store request := by
  have hscan := hterminated.scansEnd
  have hfield := keyField_encode request
  have hkeyNe : keyField request.encode ≠ [] := by
    rw [hfield]
    exact request.key.ne_nil
  have hkeyStr : (parsedTask env.heap request.encode).key.str = .ok request.key.bytes := by
    rw [str_key hkeyNe (.inr (hscan _)), visibleKey_of_terminated hterminated, hfield]
  cases request with
  | get key => exact Iff.rfl
  | set key value =>
      have hlong : (key.bytes.length + value.bytes.length + 4 : Int) < intMax := by
        simp only [Request.encode, List.length_cons, List.length_append, List.length_nil]
          at hlength
        omega
      have hdata : dataField (Request.set key value).encode = value.bytes :=
        dataField_encode _ (Int.le_of_lt hlength)
      have hdataStr : (parsedTask env.heap (Request.set key value).encode).data.str =
          .ok value.bytes := by
        rw [str_data (by rw [hdata]; exact value.ne_nil) (.inr (hscan _)),
          visibleData_of_terminated hterminated, hdata]
      have hanswers := answers_confirmation env.heap digitSet_ne key.zero_notMem
        (by omega : (key.bytes.length + 4 : Int) ≤ intMax)
      simp only [Honest, router_set_encode hterminated key value (Int.le_of_lt hlength),
        storeSet_of_str env.outcomes _ hkeyStr hdataStr]
      rw [honest_iff hanswers (confirmation_ne_zero _ _)]
      have hkey : (key.bytes.length : Int) ≤ intMax := by omega
      have hvalue : (value.bytes.length : Int) ≤ intMax := by omega
      exact setResult_effect_iff env.outcomes hkey hvalue
  | delete key =>
      have hlong : (key.bytes.length + 3 : Int) < intMax := by
        simp only [Request.encode, List.length_cons, List.length_append, List.length_nil]
          at hlength
        omega
      have hanswers := answers_confirmation env.heap digitDelete_ne key.zero_notMem
        (by omega : (key.bytes.length + 4 : Int) ≤ intMax)
      simp only [Honest, router_delete_encode hterminated key (Int.le_of_lt hlength),
        storeRemove_of_str env.outcomes.delete hkeyStr]
      rw [honest_iff hanswers (confirmation_ne_zero _ _)]
      have hkey : (key.bytes.length : Int) ≤ intMax := by omega
      exact removeResult_effect_iff env.outcomes.delete hkey

/-- Overwriting the value `v` of the key `k` with `v` is confirmed honestly. -/
theorem acknowledgement_iff_same :
    let env : Env := ⟨⟨fun _ => [0], fun _ => 0⟩, .ok⟩
    let key : Key := ⟨[107], by decide, by decide, by decide⟩
    let value : Value := ⟨[118], by decide, by decide⟩
    let table : DataTable := AList.singleton [107] (.blob [118])
    let store : Store := { isOk := true, db := .opened (some table), misuse := [] }
    Honest env ⟨store, []⟩ (.set key value) := by
  intro env key value table store
  have hterminated : env.heap.Terminated := fun _ => ⟨[], rfl⟩
  exact (acknowledgement_iff env hterminated (.set key value) (by decide) ⟨store, []⟩).mpr
    ⟨table, ⟨rfl, rfl⟩, .inr ⟨rfl, rfl, rfl, rfl, rfl, rfl⟩⟩

/-- On a store that was closed, `1|k|v|` is still confirmed. -/
theorem set_confirmed_when_closed :
    let env : Env := ⟨⟨fun _ => [0], fun _ => 0⟩, .ok⟩
    let key : Key := ⟨[107], by decide, by decide, by decide⟩
    let value : Value := ⟨[118], by decide, by decide⟩
    let store : Store := { isOk := false, db := .closed, misuse := [] }
    ¬Honest env ⟨store, []⟩ (.set key value) := by
  intro env key value store hhonest
  have hreply : (router env (env.heap.received (Request.set key value).encode) ⟨store, []⟩).1 =
      .ok (some ⟨[49, 124, 107, 124, 0], [0]⟩) := by decide +kernel
  have hstored := hhonest.1 ⟨_, hreply, by decide⟩
  revert hstored
  decide +kernel

end CcCvStore.Acknowledgement
