import CcCvStore.Table.FiniteMap

/-!
# Removing a key

`ht_remove` frees the string of a key and leaves the slot and the counter as
they are.  From then on the slot refers to freed memory.  Removing deletes a
key and nothing else exactly when the key was not in the table.
-/

namespace CcCvStore.Removal

open CcCvStore.Runs
open CcCvStore.CString
open CcCvStore.Probing
open CcCvStore.HashTable
open CcCvStore.FiniteMap

variable {Value : Type} {hash : List Byte → UInt64}

/-- A slot of the table holds the key. -/
def Present (state : State Value) (key : List Byte) : Prop :=
  ∃ entry ∈ contents state.table.entries, state.strings entry.key = some key

instance (state : State Value) (key : List Byte) : Decidable (Present state key) :=
  inferInstanceAs (Decidable (∃ entry ∈ contents state.table.entries, _))

/-- What is expected of a table after a removal: the key is gone, the other keys
are as before, the length counts it out, every slot refers to a live string,
`ht_destroy` frees each of them once, and the key can be set again. -/
structure Deleted (hash : List Byte → UInt64) (before : State Value) (key : List Byte)
    (after : State Value) : Prop where
  gone : ∀ env, htGet hash env after key = .ok none
  others : ∀ env other, other ≠ key → htGet hash env after other = htGet hash env before other
  length_eq : htLength after.table =
    if Present before key then htLength before.table - 1 else htLength before.table
  live : Live after.strings after.table.entries
  destroyed_once : (htDestroy after.table).Nodup
  set_again : ∀ env value addr next, htSet hash env after key (some value) = .ok (some addr, next) →
    ∀ env, htGet hash env next key = .ok (some value)

/-- A removal deletes its key and nothing else. -/
def Deletes (hash : List Byte → UInt64) (state : State Value) : Call Value → Prop
  | .set _ _ _ => True
  | .remove key env =>
      ∃ after, htRemove hash env state key = .ok after ∧ Deleted hash state key after

/-- A removal is of a key that is not in the table. -/
def RemovesAbsent (state : State Value) : Call Value → Prop
  | .set _ _ _ => True
  | .remove key _ => ¬Present state key

/-! ## One removal -/

variable {state : State Value}

theorem present_iff (hsound : Sound hash state) (key : List Byte) :
    Present state key ↔
      ∃ entry ∈ contents state.table.entries, keyText state.strings entry = key := by
  apply exists_congr
  intro entry
  apply and_congr_right
  intro hentry
  rw [hsound.strings_eq hentry, Option.some.injEq]

/-- Removing an absent key does nothing. -/
theorem htRemove_of_absent (hsound : Sound hash state) {key : List Byte}
    (habsent : ¬Present state key) (env : Env) : htRemove hash env state key = .ok state := by
  have hnot : ∀ entry ∈ contents state.table.entries, keyText state.strings entry ≠ key :=
    fun entry hentry hkey => habsent ((present_iff hsound key).mpr ⟨entry, hentry, hkey⟩)
  obtain ⟨steps, hfind, -⟩ := hsound.findSlot_of_notMem env hnot
  exact htRemove_of_findSlot hfind

theorem htGet_of_absent (hsound : Sound hash state) {key : List Byte}
    (habsent : ¬Present state key) (env : Env) : htGet hash env state key = .ok none := by
  apply hsound.htGet_of_notMem env
  rw [pairs, List.map_map]
  intro hmem
  obtain ⟨entry, hentry, hkey⟩ := List.mem_map.mp hmem
  exact habsent ((present_iff hsound key).mpr ⟨entry, hentry, hkey⟩)

theorem nodup_htDestroy (hsound : Sound hash state) : (htDestroy state.table).Nodup := by
  have hkeys := hsound.placed.nodup
  have hsplit : (contents state.table.entries).map (keyText state.strings) =
      (htDestroy state.table).map (readString state.strings fun _ => []) := by
    rw [htDestroy, List.map_map]
    rfl
  rw [hsplit] at hkeys
  exact hkeys.of_map

theorem htGet_of_htSet (hsound : Sound hash state) {env : Env} {key : List Byte} {value : Value}
    {addr : Addr} {next : State Value}
    (hset : htSet hash env state key (some value) = .ok (some addr, next)) (later : Env) :
    htGet hash later next key = .ok (some value) := by
  rcases hsound.htSet_cases env key value with
    ⟨after, hfailed, -, -⟩ | ⟨addr', after, hdone, hafter, rest, hperm, -, -⟩
  · rw [hfailed] at hset
    cases hset
  · rw [hdone] at hset
    cases hset
    exact hafter.htGet_of_mem later (hperm.mem_iff.mpr List.mem_cons_self)

theorem deleted_of_absent (hsound : Sound hash state) {key : List Byte}
    (habsent : ¬Present state key) : Deleted hash state key state where
  gone := htGet_of_absent hsound habsent
  others _ _ _ := rfl
  length_eq := (if_neg habsent).symm
  live := hsound.live
  destroyed_once := nodup_htDestroy hsound
  set_again _ _ _ _ := htGet_of_htSet hsound

/-- Removing a key that is there leaves its slot with a freed string. -/
theorem not_deletes_of_present (hsound : Sound hash state) {key : List Byte}
    (hpresent : Present state key) (env : Env) : ¬Deletes hash state (.remove key env) := by
  rintro ⟨after, hremove, hdeleted⟩
  obtain ⟨entry, hentry, hkey⟩ := (present_iff hsound key).mp hpresent
  obtain ⟨index, hfind, -⟩ := hsound.findSlot_of_mem env hentry hkey
  rw [htRemove_of_findSlot hfind] at hremove
  cases hremove
  exact hdeleted.live entry hentry (Function.update_self _ _ _)

theorem deletes_iff (hsound : Sound hash state) (call : Call Value) :
    Deletes hash state call ↔ RemovesAbsent state call := by
  cases call with
  | set key value env => exact Iff.rfl
  | remove key env =>
      constructor
      · intro hdeletes hpresent
        exact not_deletes_of_present hsound hpresent env hdeletes
      · intro habsent
        exact ⟨state, htRemove_of_absent hsound habsent env, deleted_of_absent hsound habsent⟩

/-! ## Runs -/

theorem sound_step (hsound : Sound hash state) (call : Call Value)
    (habsent : RemovesAbsent state call) : Sound hash (step hash state call) := by
  cases call with
  | set key value env =>
      cases value with
      | none => exact hsound
      | some value =>
          rcases hsound.setStep_cases ⟨key, value, env⟩ with ⟨-, hafter, -⟩ | ⟨-, hafter, -⟩
          · exact hafter
          · exact hafter
  | remove key env =>
      rw [step, Call.perform, htRemove_of_absent hsound habsent env]
      exact hsound

/-- In a run of sets and removals, every removal deletes its key and nothing
else exactly when every removal is of a key that is not there. -/
theorem run_deletes_iff (hash : List Byte → UInt64) (calls : List (Call Value)) :
    EachStep (step hash) (Deletes hash) created calls ↔
      EachStep (step hash) RemovesAbsent created calls := by
  have hkeep : ∀ state (call : Call Value), Sound hash state → RemovesAbsent state call →
      Sound hash (step hash state call) := fun _ call hsound => sound_step hsound call
  exact eachStep_iff_guard hkeep (fun _ call hsound => deletes_iff hsound call)
    (sound_created hash) calls

/-- One key, set and removed. -/
def setAndRemove : List (Call Nat) :=
  let env : Env := ⟨true, some 0, fun _ _ => [], fun _ _ _ => []⟩
  [.set [107] (some 1) env, .remove [107] env]

/-- The removal is not one; and while the freed bytes still read as the key, the
key is still found, and counted. -/
theorem remove_leaves_slot :
    ¬EachStep (step hashKey) (Deletes hashKey) created setAndRemove ∧
      (let after := run (step hashKey) created setAndRemove
      htLength after.table = 1 ∧
        htGet hashKey ⟨true, none, fun _ _ => [107], fun _ _ _ => []⟩ after [107] =
          .ok (some 1)) := by
  constructor
  · rintro ⟨-, hremove, -⟩
    refine not_deletes_of_present ?_ ?_ _ hremove
    · exact sound_step (sound_created hashKey) _ trivial
    · decide +kernel
  · decide +kernel

end CcCvStore.Removal
