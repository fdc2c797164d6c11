import CcCvStore.Core.Effect
import CcCvStore.Core.Runs
import CcCvStore.Table.HashTable
import Mathlib.Algebra.Group.Nat.Defs

/-!
# Every probe ends

The loops of `ht.c` have no bound of their own.  They stop because a table
always has an empty slot: there are at most `length` occupied slots, at most
half the capacity, whatever was removed and whatever freed keys read as.
-/

namespace CcCvStore.Probes

open CcCvStore.Effect
open CcCvStore.Runs
open CcCvStore.CString
open CcCvStore.Probing
open CcCvStore.HashTable

variable {Value : Type} (hash : List Byte → UInt64)

/-! ## Slots -/

theorem homeIndex_lt {capacity : Nat} (hpos : 0 < capacity)
    (key : List Byte) : homeIndex hash capacity key < capacity := by
  have hle : homeIndex hash capacity key ≤ capacity - 1 := Nat.and_le_right
  omega

/-- A search in an array with an empty slot ends at a slot of the array. -/
theorem exists_findSlot_eq {entries : Slots (Entry Value)} {home : Nat}
    (hhome : home < entries.length) (hempty : none ∈ entries) (equal : Nat → Addr → Bool) :
    ∃ index found, findSlot entries home equal = .ok (index, found) ∧
      entries[index]? = some found := by
  obtain ⟨stop, found, hprobe⟩ :=
    exists_probe_eq (fun step (entry : Entry Value) => equal step entry.key) hhome hempty 0
  obtain ⟨steps, rfl, hstops⟩ := probe_stops hprobe
  exact ⟨_, found, hprobe, hstops.at_stop⟩

theorem length_contents_set_found {entries : Slots (Entry Value)} {index : Nat}
    {old : Entry Value} (hold : entries[index]? = some (some old)) (new : Entry Value) :
    (contents (entries.set index (some new))).length = (contents entries).length := by
  obtain ⟨left, right, hbefore, hafter⟩ := contents_set_found hold new
  rw [hbefore, hafter, List.length_append, List.length_append]
  rfl

theorem length_contents_set_empty {entries : Slots (Entry Value)} {index : Nat}
    (hempty : entries[index]? = some none) (new : Entry Value) :
    (contents (entries.set index (some new))).length = (contents entries).length + 1 :=
  (contents_set_empty hempty new).length_eq

/-! ## Growth -/

/-- Moving an entry fills at most one slot. -/
theorem exists_htMoveEntry_eq (strings : Strings) (freed : Nat → Addr → List Byte)
    {entries : Slots (Entry Value)} (hempty : none ∈ entries) (entry : Entry Value) :
    ∃ after, htMoveEntry hash strings freed entries entry = .ok after ∧
      after.length = entries.length ∧
      (contents after).length ≤ (contents entries).length + 1 := by
  have hpos : 0 < entries.length := List.length_pos_of_mem hempty
  obtain ⟨index, found, hfind, hslot⟩ := exists_findSlot_eq
    (homeIndex_lt hash hpos (readString strings (freed 0) entry.key)) hempty
    (fun step addr => readString strings (freed (step + 1)) entry.key ==
      readString strings (freed (step + 1)) addr)
  rw [htMoveEntry, hfind, ok_bind]
  cases found with
  | none =>
      refine ⟨_, rfl, List.length_set, ?_⟩
      rw [length_contents_set_empty hslot]
  | some old =>
      refine ⟨_, rfl, List.length_set, ?_⟩
      rw [length_contents_set_found hslot]
      exact Nat.le_succ _

/-- Moving entries into an array with room for all of them. -/
theorem exists_moveEntries_eq (strings : Strings) (moving : Nat → Nat → Addr → List Byte)
    (old : Slots (Entry Value)) (i : Nat) {entries : Slots (Entry Value)}
    (hroom : (contents old).length + (contents entries).length < entries.length) :
    ∃ after, moveEntries hash strings moving old i entries = .ok after ∧
      after.length = entries.length ∧
      (contents after).length ≤ (contents old).length + (contents entries).length := by
  induction old generalizing i entries with
  | nil => exact ⟨entries, rfl, rfl, by simp⟩
  | cons slot old ih =>
      cases slot with
      | none =>
          rw [contents_none_cons] at hroom ⊢
          exact ih (i + 1) hroom
      | some entry =>
          rw [contents_some_cons, List.length_cons] at hroom ⊢
          have hempty : none ∈ entries := none_mem_iff.mpr (by omega)
          obtain ⟨next, hmove, hsize, hcount⟩ :=
            exists_htMoveEntry_eq hash strings (moving i) hempty entry
          have hnext : (contents old).length + (contents next).length < next.length := by omega
          obtain ⟨after, hrest, hlength, hcontents⟩ := ih (i + 1) hnext
          refine ⟨after, ?_, by omega, by omega⟩
          rw [moveEntries, hmove, ok_bind, hrest]

/-! ## The invariant -/

/-- The capacity is a power of two, and at most half of it is counted. -/
structure Bounded (state : State Value) : Prop where
  capacity_eq : ∃ exponent, 0 < exponent ∧ exponent < 64 ∧ state.table.capacity = 2 ^ exponent
  occupied_le : (contents state.table.entries).length ≤ state.table.length
  load : state.table.length ≤ state.table.capacity / 2

variable {state : State Value}

theorem Bounded.two_le (hbounded : Bounded state) : 2 ≤ state.table.capacity := by
  obtain ⟨exponent, hpos, -, hcapacity⟩ := hbounded.capacity_eq
  rw [hcapacity]
  exact Nat.le_self_pow hpos.ne' 2

theorem Bounded.none_mem (hbounded : Bounded state) : none ∈ state.table.entries := by
  have htwo := hbounded.two_le
  have hoccupied := hbounded.occupied_le
  have hload := hbounded.load
  rw [none_mem_iff]
  change _ < state.table.capacity
  omega

theorem Bounded.capacity_lt (hbounded : Bounded state) :
    state.table.capacity < 18446744073709551616 := by
  obtain ⟨exponent, -, hexponent, hcapacity⟩ := hbounded.capacity_eq
  rw [hcapacity]
  exact Nat.pow_lt_pow_right (by decide) hexponent

/-- The half of a capacity is exact. -/
theorem Bounded.half_mul_two (hbounded : Bounded state) :
    state.table.capacity / 2 * 2 = state.table.capacity := by
  obtain ⟨exponent, hpos, -, hcapacity⟩ := hbounded.capacity_eq
  have hdvd : 2 ^ 1 ∣ 2 ^ exponent := Nat.pow_dvd_pow 2 hpos
  rw [hcapacity]
  exact Nat.div_mul_cancel hdvd

/-- A capacity above another is at least twice as large. -/
theorem Bounded.double_le {other : State Value} (hbounded : Bounded state)
    (hother : Bounded other) (hlt : state.table.capacity < other.table.capacity) :
    state.table.capacity * 2 ≤ other.table.capacity := by
  obtain ⟨small, -, -, hsmall⟩ := hbounded.capacity_eq
  obtain ⟨large, -, -, hlarge⟩ := hother.capacity_eq
  rw [hsmall, hlarge] at hlt ⊢
  rw [← Nat.pow_succ]
  exact Nat.pow_le_pow_right (by decide) ((Nat.pow_lt_pow_iff_right (by decide)).mp hlt)

/-- The counter does not overflow. -/
theorem Bounded.length_succ (hbounded : Bounded state)
    (hlength : state.table.length < state.table.capacity / 2) :
    sizeResult (state.table.length + 1) = state.table.length + 1 := by
  have hcapacity := hbounded.capacity_lt
  exact Nat.mod_eq_of_lt (by omega)

theorem bounded_created : Bounded (created : State Value) where
  capacity_eq := ⟨4, by decide, by decide, rfl⟩
  occupied_le := by simp [created]
  load := Nat.zero_le _

/-- Doubling a capacity that does not overflow gives the next power of two. -/
theorem newCapacity_eq {exponent : Nat} (hexponent : exponent < 64)
    (hgrows : 2 ^ exponent ≤ sizeResult (2 ^ exponent * 2)) :
    exponent + 1 < 64 ∧ sizeResult (2 ^ exponent * 2) = 2 ^ exponent * 2 := by
  have hpos : 0 < 2 ^ exponent := Nat.two_pow_pos exponent
  have hlast : exponent ≠ 63 := by
    rintro rfl
    revert hgrows
    decide
  have hlt : exponent + 1 < 64 := by omega
  refine ⟨hlt, Nat.mod_eq_of_lt ?_⟩
  calc 2 ^ exponent * 2 = 2 ^ (exponent + 1) := (Nat.pow_succ 2 exponent).symm
    _ < 2 ^ 64 := Nat.pow_lt_pow_right (by decide) hlt

theorem Bounded.newCapacity_eq (hbounded : Bounded state) {env : Env}
    (hgrows : Grows env state.table.capacity) :
    sizeResult (state.table.capacity * 2) = state.table.capacity * 2 := by
  obtain ⟨exponent, -, hexponent, hcapacity⟩ := hbounded.capacity_eq
  have hfits := hgrows.1
  rw [hcapacity] at hfits ⊢
  exact (Probes.newCapacity_eq hexponent hfits).2

/-- What a growth leaves: a table twice as large with no more occupied slots. -/
structure Expanded (before after : State Value) : Prop where
  strings_eq : after.strings = before.strings
  length_eq : after.table.length = before.table.length
  capacity_eq : after.table.capacity = before.table.capacity * 2
  occupied_le : (contents after.table.entries).length ≤ (contents before.table.entries).length
  bounded : Bounded after

/-- The new array has room for the whole table. -/
theorem Bounded.room (hbounded : Bounded state) {env : Env}
    (hgrows : Grows env state.table.capacity) :
    (contents state.table.entries).length + (contents (List.replicate
        (sizeResult (state.table.capacity * 2)) none : Slots (Entry Value))).length <
      (List.replicate
        (sizeResult (state.table.capacity * 2)) none : Slots (Entry Value)).length := by
  have htwo := hbounded.two_le
  have hoccupied := hbounded.occupied_le
  have hload := hbounded.load
  rw [contents_replicate_none, List.length_replicate, hbounded.newCapacity_eq hgrows,
    List.length_nil]
  omega

theorem Bounded.exists_htExpand_eq (hbounded : Bounded state) {env : Env}
    (hgrows : Grows env state.table.capacity) :
    ∃ after, htExpand hash env state = .ok (true, after) ∧ Expanded state after := by
  obtain ⟨entries, hmove, hsize, hcount⟩ := exists_moveEntries_eq hash
    state.strings env.moving state.table.entries 0 (hbounded.room hgrows)
  rw [contents_replicate_none, List.length_nil, Nat.add_zero] at hcount
  rw [List.length_replicate, hbounded.newCapacity_eq hgrows] at hsize
  refine ⟨_, htExpand_of_grows hgrows hmove, rfl, rfl, hsize, hcount, ?_, ?_, ?_⟩
  · obtain ⟨exponent, hpos, hexponent, hcapacity⟩ := hbounded.capacity_eq
    have hfits := hgrows.1
    rw [hcapacity] at hfits
    refine ⟨exponent + 1, Nat.succ_pos _, (Probes.newCapacity_eq hexponent hfits).1, ?_⟩
    rw [Ht.capacity, hsize, hcapacity, Nat.pow_succ]
  · exact hcount.trans hbounded.occupied_le
  · have hload := hbounded.load
    rw [Ht.capacity, hsize]
    dsimp only
    omega

/-! ## The calls -/

theorem Bounded.exists_findSlot_eq (hbounded : Bounded state) (env : Env) (key : List Byte) :
    ∃ index found, findSlot state.table.entries (homeIndex hash state.table.capacity key)
        (equalTo state env key) = .ok (index, found) ∧
      state.table.entries[index]? = some found := by
  have hpos : 0 < state.table.capacity := Nat.lt_of_lt_of_le Nat.zero_lt_two hbounded.two_le
  exact Probes.exists_findSlot_eq (homeIndex_lt hash hpos key) hbounded.none_mem _

theorem Bounded.exists_htGet_eq (hbounded : Bounded state) (env : Env) (key : List Byte) :
    ∃ value?, htGet hash env state key = .ok value? := by
  obtain ⟨index, found, hfind, -⟩ := hbounded.exists_findSlot_eq hash env key
  exact ⟨_, htGet_of_findSlot hfind⟩

theorem Bounded.exists_htRemove_eq (hbounded : Bounded state) (env : Env) (key : List Byte) :
    ∃ after, htRemove hash env state key = .ok after ∧ Bounded after := by
  obtain ⟨index, found, hfind, -⟩ := hbounded.exists_findSlot_eq hash env key
  refine ⟨_, htRemove_of_findSlot hfind, ?_⟩
  cases found with
  | none => exact hbounded
  | some entry => exact ⟨hbounded.capacity_eq, hbounded.occupied_le, hbounded.load⟩

theorem Bounded.set_found (hbounded : Bounded state) {index : Nat} {old : Entry Value}
    (hold : state.table.entries[index]? = some (some old)) (new : Entry Value) :
    Bounded { state with
      table := { state.table with entries := state.table.entries.set index (some new) } } where
  capacity_eq := by
    rw [Ht.capacity, List.length_set]
    exact hbounded.capacity_eq
  occupied_le := by
    rw [length_contents_set_found hold]
    exact hbounded.occupied_le
  load := by
    rw [Ht.capacity, List.length_set]
    exact hbounded.load

/-- Below the load threshold there is room for one more entry. -/
theorem Bounded.set_empty (hbounded : Bounded state)
    (hlength : state.table.length < state.table.capacity / 2) {index : Nat}
    (hempty : state.table.entries[index]? = some none) (strings : Strings) (new : Entry Value) :
    Bounded { strings := strings,
              table := { entries := state.table.entries.set index (some new),
                         length := sizeResult (state.table.length + 1) } } where
  capacity_eq := by
    rw [Ht.capacity, List.length_set]
    exact hbounded.capacity_eq
  occupied_le := by
    rw [length_contents_set_empty hempty, hbounded.length_succ hlength]
    exact Nat.succ_le_succ hbounded.occupied_le
  load := by
    rw [Ht.capacity, List.length_set, hbounded.length_succ hlength]
    exact hlength

theorem Bounded.exists_htSetEntry_eq (hbounded : Bounded state)
    (hlength : state.table.length < state.table.capacity / 2) (env : Env) (key : List Byte)
    (value : Value) :
    ∃ ret after, htSetEntry hash env state key value = .ok (ret, after) ∧ Bounded after := by
  obtain ⟨index, found, hfind, hslot⟩ := hbounded.exists_findSlot_eq hash env key
  cases found with
  | some entry => exact ⟨_, _, htSetEntry_of_found hfind value, hbounded.set_found hslot _⟩
  | none =>
      cases hdup : duplicate state.strings env.strdup key with
      | none => exact ⟨_, _, htSetEntry_of_no_memory hfind hdup value, hbounded⟩
      | some copied =>
          exact ⟨_, _, htSetEntry_of_empty hfind hdup value,
            hbounded.set_empty hlength hslot copied.2 _⟩

theorem Expanded.length_lt {before after : State Value} (hexpanded : Expanded before after)
    (hbounded : Bounded before) : after.table.length < after.table.capacity / 2 := by
  have htwo := hbounded.two_le
  have hload := hbounded.load
  rw [hexpanded.length_eq, hexpanded.capacity_eq]
  omega

theorem Bounded.exists_htSet_eq (hbounded : Bounded state) (env : Env) (key : List Byte)
    (value : Option Value) :
    ∃ ret after, htSet hash env state key value = .ok (ret, after) ∧ Bounded after := by
  cases value with
  | none => exact ⟨none, state, rfl, hbounded⟩
  | some value =>
      by_cases hlength : state.table.length < state.table.capacity / 2
      · rw [htSet_of_lt hlength]
        exact hbounded.exists_htSetEntry_eq hash hlength env key value
      · have hfull := Nat.le_of_not_lt hlength
        by_cases hgrows : Grows env state.table.capacity
        · obtain ⟨grown, hok, hexpanded⟩ := hbounded.exists_htExpand_eq hash hgrows
          rw [htSet_of_expand hfull hok]
          exact hexpanded.bounded.exists_htSetEntry_eq hash (hexpanded.length_lt hbounded) env
            key value
        · rw [htSet_of_expand hfull (htExpand_of_not_grows hgrows)]
          exact ⟨none, state, rfl, hbounded⟩

theorem bounded_step {state : State Value} (hbounded : Bounded state) (call : Call Value) :
    Bounded (step hash state call) := by
  cases call with
  | set key value env =>
      obtain ⟨ret, after, hset, hafter⟩ := hbounded.exists_htSet_eq hash env key value
      have hperform : (Call.set key value env).perform hash state = .ok after := by
        rw [Call.perform, hset]
        rfl
      rw [step, hperform]
      exact hafter
  | remove key env =>
      obtain ⟨after, hremove, hafter⟩ := hbounded.exists_htRemove_eq hash env key
      have hperform : (Call.remove key env).perform hash state = .ok after := hremove
      rw [step, hperform]
      exact hafter

theorem bounded_run (calls : List (Call Value)) :
    Bounded (run (step hash) (created : State Value) calls) := by
  have hkeep : ∀ state (call : Call Value), Bounded state → Bounded (step hash state call) :=
    fun _ call hbounded => bounded_step hash hbounded call
  exact inv_run_of_step hkeep bounded_created calls

/-! ## Probes end -/

/-- Every loop a call on the table runs stops within one round of the array it
runs on: the calls have results, and there is an empty slot in the table, in
the table after a growth and in the new array behind every entry moved. -/
structure ProbesEnd (hash : List Byte → UInt64) (state : State Value) : Prop where
  get : ∀ env key, ∃ value?, htGet hash env state key = .ok value?
  remove : ∀ env key, ∃ after, htRemove hash env state key = .ok after
  set : ∀ env key value, ∃ result, htSet hash env state key value = .ok result
  occupied_le : (contents state.table.entries).length ≤ state.table.length
  none_mem : none ∈ state.table.entries
  none_mem_expanded : ∀ env, ∃ expanded after, htExpand hash env state = .ok (expanded, after) ∧
    (contents after.table.entries).length ≤ after.table.length ∧ none ∈ after.table.entries
  none_mem_moving : ∀ env moved rest, Grows env state.table.capacity →
    state.table.entries = moved ++ rest →
    ∃ entries, moveEntries hash state.strings env.moving moved 0
        (List.replicate (sizeResult (state.table.capacity * 2)) none) = .ok entries ∧
      none ∈ entries

theorem Bounded.probesEnd (hbounded : Bounded state) : ProbesEnd hash state where
  get := hbounded.exists_htGet_eq hash
  remove env key := by
    obtain ⟨after, hremove, -⟩ := hbounded.exists_htRemove_eq hash env key
    exact ⟨after, hremove⟩
  set env key value := by
    obtain ⟨ret, after, hset, -⟩ := hbounded.exists_htSet_eq hash env key value
    exact ⟨(ret, after), hset⟩
  occupied_le := hbounded.occupied_le
  none_mem := hbounded.none_mem
  none_mem_expanded env := by
    by_cases hgrows : Grows env state.table.capacity
    · obtain ⟨after, hok, hexpanded⟩ := hbounded.exists_htExpand_eq hash hgrows
      exact ⟨true, after, hok, hexpanded.bounded.occupied_le, hexpanded.bounded.none_mem⟩
    · exact ⟨false, state, htExpand_of_not_grows hgrows, hbounded.occupied_le, hbounded.none_mem⟩
  none_mem_moving env moved rest hgrows hsplit := by
    have hcount : (contents state.table.entries).length =
        (contents moved).length + (contents rest).length := by
      rw [hsplit, contents_append, List.length_append]
    have hroom := hbounded.room hgrows
    have hpart : (contents moved).length + (contents (List.replicate
          (sizeResult (state.table.capacity * 2)) none : Slots (Entry Value))).length <
        (List.replicate (sizeResult (state.table.capacity * 2)) none :
          Slots (Entry Value)).length := by omega
    obtain ⟨entries, hmove, hsize, hafter⟩ :=
      exists_moveEntries_eq hash state.strings env.moving moved 0 hpart
    exact ⟨entries, hmove, none_mem_iff.mpr (by omega)⟩

/-- After any run of sets and removes, with any allocation failures and
whatever freed keys read as, every probe ends. -/
theorem run_probesEnd (calls : List (Call Value)) :
    ProbesEnd hash (run (step hash) (created : State Value) calls) :=
  (bounded_run hash calls).probesEnd hash

end CcCvStore.Probes
