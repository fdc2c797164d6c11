import CcCvStore.Server.Router

/-!
# Complete replies

The confirmations of `SET` and `DELETE` get four bytes more than the key, which
is what they need.  The replies of `GET` get two bytes less than key and value,
or one byte less than the key, and the `0` gets one byte for two.
-/

namespace CcCvStore.Replies

open CcCvStore.CInteger
open CcCvStore.CString
open CcCvStore.Message
open CcCvStore.Backend
open CcCvStore.StoreEffects
open CcCvStore.Router

/-- The answer to a task: `1|k|`, `3|k|`, `2|k|v` or `2|k|`, and `0` to all else. -/
def answer (env : Env) (store : Store) (cmd : Int) (key : List Byte) (hasData : Bool) :
    List Byte :=
  if cmd = cmdSet ∧ hasData then confirmation digitSet key
  else if cmd = cmdDelete then confirmation digitDelete key
  else if cmd = cmdGet then
    confirmation digitGet key ++
      ((lookupData store env.outcomes.select key).map columnBlob).getD []
  else [48]

/-- `router` returns a block that holds the whole answer and a NUL. -/
def IsComplete (env : Env) (task : Task) (session : Session) (reply : List Byte) : Prop :=
  ∃ buf, (respond env task session).1 = .ok (some buf) ∧ reply ++ [0] <+: buf.block

theorem isComplete_of_formatted {env : Env} {task : Task} {session after : Session}
    {msgLen : Int} {reply : List Byte}
    (hrespond : respond env task session = (formatted env.heap msgLen reply, after))
    (hmax : msgLen ≤ intMax) (hfits : (reply.length : Int) < msgLen) :
    IsComplete env task session reply := by
  obtain ⟨rest, hformatted⟩ := formatted_of_fits env.heap hmax hfits
  refine ⟨_, by rw [hrespond, hformatted], rest, ?_⟩
  rw [List.append_assoc]
  rfl

theorem length_confirmation (digit : Byte) (key : List Byte) :
    (confirmation digit key).length = key.length + 3 := by
  simp only [confirmation, List.length_cons, List.length_append, List.length_nil]

/-- A reply formatted into too small a buffer is not complete. -/
theorem not_isComplete_of_formatted {env : Env} {task : Task} {session after : Session}
    {msgLen : Int} {output reply : List Byte}
    (hrespond : respond env task session = (formatted env.heap msgLen output, after))
    (hmin : intMin ≤ msgLen) (hmax : msgLen ≤ intMax) (hlong : msgLen ≤ reply.length) :
    ¬IsComplete env task session reply := by
  rintro ⟨buf, hreply, hprefix⟩
  rw [hrespond] at hreply
  by_cases hneg : msgLen < 0
  · rw [formatted_of_neg env.heap hmin hneg] at hreply
    contradiction
  · have hblock := length_block_formatted hreply
    have hsize := toSize_of_nonneg (by omega : 0 ≤ msgLen) hmax
    have hlength := hprefix.length_le
    rw [List.length_append, List.length_cons, List.length_nil] at hlength
    omega

theorem not_isComplete_zero {env : Env} {task : Task} {session : Session}
    (hrespond : respond env task session = (zeroReply env.heap, session)) :
    ¬IsComplete env task session [48] := by
  rintro ⟨buf, hreply, hprefix⟩
  rw [hrespond] at hreply
  have hblock := length_block_zeroReply hreply
  have hlength := hprefix.length_le
  rw [List.length_append, List.length_cons, List.length_nil] at hlength
  simp only [List.length_cons, List.length_nil] at hlength
  omega

/-- The task of a key and perhaps a value. -/
def taskOf (cmd : Int) (key : Str) (data : Option Str) : Task :=
  { cmd, key := key.ptr, data := data.bind Str.ptr }

theorem set_isComplete (env : Env) (key val : Str) (session : Session)
    (hkey : (key.bytes.length + 4 : Int) ≤ intMax) :
    IsComplete env (taskOf cmdSet key (some val)) session (confirmation digitSet key.bytes) := by
  have hsize : toInt (key.bytes.length + 4) = key.bytes.length + 4 :=
    toInt_of_range (by simp only [intMin]; omega) hkey
  have hrespond := respond_set env (taskOf cmdSet key (some val)) rfl key.str_ptr
    val.str_ptr session
  apply isComplete_of_formatted hrespond
  · rw [hsize]
    exact hkey
  · rw [hsize, length_confirmation]
    omega

theorem delete_isComplete (env : Env) (key : Str) (data : Option Str) (session : Session)
    (hkey : (key.bytes.length + 4 : Int) ≤ intMax) :
    IsComplete env (taskOf cmdDelete key data) session
      (confirmation digitDelete key.bytes) := by
  have hsize : toInt (key.bytes.length + 4) = key.bytes.length + 4 :=
    toInt_of_range (by simp only [intMin]; omega) hkey
  have hrespond := respond_delete env (taskOf cmdDelete key data) rfl key.str_ptr session
  apply isComplete_of_formatted hrespond
  · rw [hsize]
    exact hkey
  · rw [hsize, length_confirmation]
    omega

/-- No reply to a `GET` fits the buffer made for it. -/
theorem get_not_isComplete (env : Env) (hvalue : ∃ rest, env.heap.beyond .value = 0 :: rest)
    (key : Str) (data : Option Str) (session : Session)
    (hkey : (key.bytes.length + 4 : Int) ≤ intMax)
    (hstored : ∀ row, lookupData session.store env.outcomes.select key.bytes = some row →
      0 ∉ columnBlob row ∧
        (key.bytes.length + (columnBlob row).length + 4 : Int) ≤ intMax) :
    ¬IsComplete env (taskOf cmdGet key data) session
      (confirmation digitGet key.bytes ++
        ((lookupData session.store env.outcomes.select key.bytes).map columnBlob).getD []) := by
  cases hlookup : lookupData session.store env.outcomes.select key.bytes with
  | none =>
      have hsize : toInt (key.bytes.length - 1) = key.bytes.length - 1 :=
        toInt_of_range (by simp only [intMin]; omega) (by omega)
      have hrespond := respond_get_none env (taskOf cmdGet key data) rfl key.str_ptr
        hlookup
      rw [hsize] at hrespond
      apply not_isComplete_of_formatted hrespond
      · simp only [intMin]
        omega
      · omega
      · simp only [Option.map_none, Option.getD_none, List.append_nil, length_confirmation]
        omega
  | some row =>
      obtain ⟨hnul, hbound⟩ := hstored row hlookup
      obtain ⟨rest, hrest⟩ := hvalue
      have hval : Ptr.str (some ⟨columnBlob row, env.heap.beyond .value⟩) =
          .ok (columnBlob row) := by
        rw [str_of_mem (by rw [Buf.memory, hrest]; simp), Buf.memory, hrest,
          text_append_nul hnul]
      have hsize : toInt (key.bytes.length + (columnBlob row).length - 2) =
          key.bytes.length + (columnBlob row).length - 2 :=
        toInt_of_range (by simp only [intMin]; omega) (by omega)
      have hrespond := respond_get_some env (taskOf cmdGet key data) rfl key.str_ptr
        hlookup hval
      rw [hsize] at hrespond
      apply not_isComplete_of_formatted hrespond
      · simp only [intMin]
        omega
      · omega
      · simp only [Option.map_some, Option.getD_some, List.length_append, length_confirmation]
        omega

/-- Exactly the confirmations of a `SET` with data and of a `DELETE` are
complete replies. -/
theorem reply_complete_iff (env : Env) (hvalue : ∃ rest, env.heap.beyond .value = 0 :: rest)
    (cmd : Int) (key : Str) (data : Option Str) (session : Session)
    (hkey : (key.bytes.length + 4 : Int) ≤ intMax)
    (hstored : ∀ row, lookupData session.store env.outcomes.select key.bytes = some row →
      0 ∉ columnBlob row ∧
        (key.bytes.length + (columnBlob row).length + 4 : Int) ≤ intMax) :
    IsComplete env (taskOf cmd key data) session
        (answer env session.store cmd key.bytes data.isSome) ↔
      (cmd = cmdSet ∧ data.isSome = true) ∨ cmd = cmdDelete := by
  by_cases hset : cmd = cmdSet
  · subst hset
    cases data with
    | some val => exact iff_of_true (set_isComplete env key val session hkey) (.inl ⟨rfl, rfl⟩)
    | none =>
        apply iff_of_false
        · exact not_isComplete_zero (respond_set_none env _ rfl rfl session)
        · decide
  by_cases hdelete : cmd = cmdDelete
  · subst hdelete
    exact iff_of_true (delete_isComplete env key data session hkey) (.inr rfl)
  by_cases hget : cmd = cmdGet
  · subst hget
    apply iff_of_false
    · exact get_not_isComplete env hvalue key data session hkey hstored
    · simp [cmdGet, cmdSet, cmdDelete]
  · have hanswer : answer env session.store cmd key.bytes data.isSome = [48] := by
      simp only [answer, hset, hdelete, hget, false_and, if_false]
    rw [hanswer]
    apply iff_of_false
    · exact not_isComplete_zero (respond_other env _ hset hget hdelete session)
    · simp [hset, hdelete]

/-- The confirmation of `1|k|v|` on a store that is not open. -/
theorem reply_complete_iff_set :
    let env : Env := ⟨⟨fun _ => [0], fun _ => 0⟩, .ok⟩
    let key : Str := ⟨[107], by decide⟩
    let val : Str := ⟨[118], by decide⟩
    IsComplete env (taskOf cmdSet key (some val)) ⟨Store.initial, []⟩
      (answer env Store.initial cmdSet key.bytes true) := by
  intro env key val
  have hnone : lookupData Store.initial env.outcomes.select key.bytes = none := rfl
  exact (reply_complete_iff env ⟨[], rfl⟩ cmdSet key (some val) ⟨Store.initial, []⟩ (by decide)
    (by rw [hnone]; exact fun _ hdata => absurd hdata.symm (Option.some_ne_none _))).mpr
      (.inl ⟨rfl, rfl⟩)

/-- A `GET` of the key `k` that holds `value` is answered from a block of four
bytes. -/
theorem get_reply_truncated :
    let env : Env := ⟨⟨fun _ => [0], fun _ => 0⟩, .ok⟩
    let key : Str := ⟨[107], by decide⟩
    let table : DataTable := AList.singleton [107] (.blob [118, 97, 108, 117, 101])
    let store : Store := { isOk := true, db := .opened (some table), misuse := [] }
    ¬IsComplete env (taskOf cmdGet key none) ⟨store, []⟩
      (answer env store cmdGet key.bytes false) := by
  rintro env key table store ⟨buf, hreply, hprefix⟩
  have hshort : (respond env (taskOf cmdGet key none) ⟨store, []⟩).1 =
      .ok (some ⟨[50, 124, 107, 0], [0]⟩) := by decide +kernel
  rw [hshort] at hreply
  cases hreply
  revert hprefix
  decide +kernel

end CcCvStore.Replies
