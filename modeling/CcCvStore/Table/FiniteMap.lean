import CcCvStore.Core.WriteHistory
import CcCvStore.Table.Probes
import Mathlib.Data.List.Dedup

/-!
# The hash table as a finite map

While nothing is removed, every key string in the table is live and the slots
are arranged: each key stands once, behind occupied slots only on the walk from
its home.  Sets keep this through every growth, and the table maps each key to
the value set last.
-/

namespace CcCvStore.FiniteMap

open CcCvStore.Effect
open CcCvStore.Runs
open CcCvStore.WriteHistory
open CcCvStore.CString
open CcCvStore.Probing
open CcCvStore.HashTable
open CcCvStore.Probes

variable {Value : Type} {hash : List Byte → UInt64}

/-! ## Keys -/

/-- The key of an entry whose string is live. -/
def keyText (strings : Strings) (entry : Entry Value) : List Byte :=
  readString strings (fun _ => []) entry.key

/-- No slot refers to a string that was freed. -/
def Live (strings : Strings) (entries : Slots (Entry Value)) : Prop :=
  ∀ entry ∈ contents entries, strings entry.key ≠ none

theorem readString_of_live {strings : Strings} {addr : Addr} (hlive : strings addr ≠ none)
    (freed other : Addr → List Byte) :
    readString strings freed addr = readString strings other addr := by
  obtain ⟨bytes, hbytes⟩ := Option.ne_none_iff_exists'.mp hlive
  rw [readString, readString, hbytes]
  rfl

/-- A string that was not there before does not change the others. -/
theorem keyText_update {strings : Strings} {addr : Addr} (hnew : strings addr = none)
    {entry : Entry Value} (hlive : strings entry.key ≠ none) (bytes : List Byte) :
    keyText (Function.update strings addr (some bytes)) entry = keyText strings entry := by
  have hother : entry.key ≠ addr := by
    rintro rfl
    exact hlive hnew
  rw [keyText, readString, Function.update_of_ne hother]
  rfl

theorem keyText_update_self (strings : Strings) (addr : Addr) (bytes : List Byte)
    (value : Value) :
    keyText (Function.update strings addr (some bytes)) ⟨addr, value⟩ = bytes := by
  rw [keyText, readString, Function.update_self]
  rfl

/-- The slots are arranged for the size of the array. -/
abbrev Placed (hash : List Byte → UInt64) (strings : Strings) (entries : Slots (Entry Value)) :
    Prop := Arranged (keyText strings) (homeIndex hash entries.length) entries

/-! ## Growth -/

theorem htMoveEntry_eq {strings : Strings} (freed : Nat → Addr → List Byte)
    {entries : Slots (Entry Value)} (hempty : none ∈ entries) (hlive : Live strings entries)
    (hplaced : Placed hash strings entries) {entry : Entry Value}
    (hentry : strings entry.key ≠ none)
    (hnew : ∀ other ∈ contents entries, keyText strings other ≠ keyText strings entry) :
    ∃ after, htMoveEntry hash strings freed entries entry = .ok after ∧
      after.length = entries.length ∧ Placed hash strings after ∧
      (contents after).Perm (entry :: contents entries) := by
  have hpos : 0 < entries.length := List.length_pos_of_mem hempty
  have hhome : readString strings (freed 0) entry.key = keyText strings entry :=
    readString_of_live hentry _ _
  have hhit : ∀ n, ∀ other ∈ contents entries,
      (readString strings (freed (n + 1)) entry.key ==
        readString strings (freed (n + 1)) other.key) = true ↔
      keyText strings other = keyText strings entry := by
    intro n other hother
    rw [beq_iff_eq, readString_of_live hentry _ (fun _ => []),
      readString_of_live (hlive other hother) _ (fun _ => [])]
    exact eq_comm
  obtain ⟨steps, hprobe, hslot, hpasses⟩ :=
    probe_of_notMem (homeIndex_lt hash hpos (keyText strings entry)) hempty hhit hnew
  refine ⟨_, ?_, List.length_set, ?_, contents_set_empty hslot entry⟩
  · rw [htMoveEntry, hhome, findSlot, hprobe]
    rfl
  · rw [Placed, List.length_set]
    exact hplaced.set_empty rfl hslot hpasses hnew

/-- Moving entries with keys of their own keeps all of them. -/
theorem moveEntries_eq {strings : Strings} (moving : Nat → Nat → Addr → List Byte)
    (old : Slots (Entry Value)) (i : Nat) {entries : Slots (Entry Value)}
    (hroom : (contents old).length + (contents entries).length < entries.length)
    (hold : Live strings old) (hlive : Live strings entries)
    (hplaced : Placed hash strings entries)
    (hkeys : ((contents old ++ contents entries).map (keyText strings)).Nodup) :
    ∃ after, moveEntries hash strings moving old i entries = .ok after ∧
      after.length = entries.length ∧ Placed hash strings after ∧
      (contents after).Perm (contents old ++ contents entries) := by
  induction old generalizing i entries with
  | nil => exact ⟨entries, rfl, rfl, hplaced, .refl _⟩
  | cons slot old ih =>
      cases slot with
      | none =>
          rw [contents_none_cons] at hroom hkeys ⊢
          refine ih (i + 1) hroom ?_ hlive hplaced hkeys
          intro entry hentry
          exact hold entry (by rwa [contents_none_cons])
      | some entry =>
          have hfirst : strings entry.key ≠ none := hold entry (by simp)
          have hrest : Live strings old := by
            intro other hother
            exact hold other (by simp [hother])
          rw [contents_some_cons] at hroom hkeys ⊢
          rw [List.length_cons] at hroom
          have hempty : none ∈ entries := none_mem_iff.mpr (by omega)
          have hnew : ∀ other ∈ contents entries,
              keyText strings other ≠ keyText strings entry := by
            intro other hother hsame
            rw [List.cons_append, List.map_cons, List.nodup_cons, ← hsame] at hkeys
            exact hkeys.1 (List.mem_map_of_mem (List.mem_append_right _ hother))
          obtain ⟨next, hmove, hsize, hnext, hperm⟩ :=
            htMoveEntry_eq (moving i) hempty hlive hplaced hfirst hnew
          have hshift : (contents old ++ contents next).Perm
              (entry :: contents old ++ contents entries) :=
            (hperm.append_left (contents old)).trans List.perm_middle
          have hliveNext : Live strings next := by
            intro other hother
            rcases List.mem_cons.mp (hperm.mem_iff.mp hother) with rfl | hmem
            · exact hfirst
            · exact hlive other hmem
          have hcount := hperm.length_eq
          rw [List.length_cons] at hcount
          obtain ⟨after, hafter, hlength, hplacedAfter, hcontents⟩ := ih (i + 1) (by omega) hrest
            hliveNext hnext ((hshift.map (keyText strings)).nodup_iff.mpr hkeys)
          refine ⟨after, ?_, by omega, hplacedAfter, hcontents.trans hshift⟩
          rw [moveEntries, hmove, ok_bind, hafter]

/-! ## Tables without removals -/

/-- The table is bounded, its keys are live and its slots arranged, and `length`
counts them. -/
structure Sound (hash : List Byte → UInt64) (state : State Value) : Prop
    extends Bounded state where
  live : Live state.strings state.table.entries
  placed : Placed hash state.strings state.table.entries
  length_eq : state.table.length = (contents state.table.entries).length

/-- The keys of the table with their values. -/
def pairs (state : State Value) : List (List Byte × Value) :=
  (contents state.table.entries).map fun entry => (keyText state.strings entry, entry.value)

variable {state : State Value}

theorem sound_created (hash : List Byte → UInt64) : Sound hash (created : State Value) where
  toBounded := bounded_created
  live := by
    intro entry hentry
    simp [created] at hentry
  placed := arranged_replicate _ _ _
  length_eq := by simp [created]

/-- What two tables share when one is the other after a growth. -/
structure SameContents (before after : State Value) : Prop where
  strings_eq : after.strings = before.strings
  length_eq : after.table.length = before.table.length
  capacity_le : before.table.capacity ≤ after.table.capacity
  perm : (contents after.table.entries).Perm (contents before.table.entries)

theorem SameContents.refl (state : State Value) : SameContents state state :=
  ⟨rfl, rfl, le_rfl, .refl _⟩

theorem SameContents.pairs_perm {before after : State Value} (hsame : SameContents before after) :
    (pairs after).Perm (pairs before) := by
  rw [pairs, pairs, hsame.strings_eq]
  exact hsame.perm.map _

theorem Sound.exists_htExpand_eq (hsound : Sound hash state) {env : Env}
    (hgrows : Grows env state.table.capacity) :
    ∃ after, htExpand hash env state = .ok (true, after) ∧ SameContents state after ∧
      Expanded state after ∧ Sound hash after := by
  let fresh : Slots (Entry Value) := List.replicate (sizeResult (state.table.capacity * 2)) none
  have hnone : contents fresh = [] := contents_replicate_none _
  have hlive : Live state.strings fresh := by
    intro entry hentry
    rw [hnone] at hentry
    contradiction
  have hkeys : ((contents state.table.entries ++ contents fresh).map
      (keyText state.strings)).Nodup := by
    rw [hnone, List.append_nil]
    exact hsound.placed.nodup
  obtain ⟨entries, hmove, hsize, hplaced, hperm⟩ := moveEntries_eq env.moving state.table.entries 0
    (hsound.room hgrows) hsound.live hlive (arranged_replicate _ (homeIndex hash _) _) hkeys
  rw [hnone, List.append_nil] at hperm
  have hexpand := htExpand_of_grows hgrows hmove
  obtain ⟨after, hok, hexpanded⟩ := hsound.toBounded.exists_htExpand_eq hash hgrows
  rw [hexpand] at hok
  cases hok
  have hcapacity := hexpanded.capacity_eq
  refine ⟨_, hexpand, ⟨rfl, rfl, by omega, hperm⟩, hexpanded, hexpanded.bounded, ?_, hplaced, ?_⟩
  · intro entry hentry
    exact hsound.live entry (hperm.mem_iff.mp hentry)
  · exact hsound.length_eq.trans hperm.length_eq.symm

/-! ## Searching -/

theorem Sound.equalTo_iff (hsound : Sound hash state) (env : Env) (key : List Byte) (n : Nat) :
    ∀ entry ∈ contents state.table.entries,
      equalTo state env key n entry.key = true ↔ keyText state.strings entry = key := by
  intro entry hentry
  rw [equalTo_eq_true_iff, keyText, readString_of_live (hsound.live entry hentry)]

theorem Sound.home_lt (hsound : Sound hash state) (key : List Byte) :
    homeIndex hash state.table.capacity key < state.table.entries.length :=
  homeIndex_lt hash (Nat.lt_of_lt_of_le Nat.zero_lt_two hsound.two_le) key

theorem Sound.findSlot_of_mem (hsound : Sound hash state) (env : Env) {entry : Entry Value}
    (hentry : entry ∈ contents state.table.entries) {key : List Byte}
    (hkey : keyText state.strings entry = key) :
    ∃ index, findSlot state.table.entries (homeIndex hash state.table.capacity key)
        (equalTo state env key) = .ok (index, some entry) ∧
      state.table.entries[index]? = some (some entry) :=
  hsound.placed.probe_of_mem (hsound.home_lt key) hsound.none_mem
    (hsound.equalTo_iff env key) hentry hkey

theorem Sound.findSlot_of_notMem (hsound : Sound hash state) (env : Env) {key : List Byte}
    (hnew : ∀ entry ∈ contents state.table.entries, keyText state.strings entry ≠ key) :
    ∃ steps, findSlot state.table.entries (homeIndex hash state.table.capacity key)
        (equalTo state env key) =
          .ok (walk state.table.capacity (homeIndex hash state.table.capacity key) steps, none) ∧
      state.table.entries[walk state.table.capacity
        (homeIndex hash state.table.capacity key) steps]? = some none ∧
      Passes state.table.entries (homeIndex hash state.table.capacity key) steps :=
  probe_of_notMem (hsound.home_lt key) hsound.none_mem (hsound.equalTo_iff env key) hnew

theorem mem_pairs_iff {key : List Byte} {value : Value} :
    (key, value) ∈ pairs state ↔ ∃ entry ∈ contents state.table.entries,
      keyText state.strings entry = key ∧ entry.value = value := by
  simp [pairs]

theorem Sound.length_pairs (hsound : Sound hash state) :
    (pairs state).length = htLength state.table := by
  rw [pairs, List.length_map, htLength, hsound.length_eq]

theorem Sound.nodup_keys (hsound : Sound hash state) :
    ((pairs state).map Prod.fst).Nodup := by
  rw [pairs, List.map_map]
  exact hsound.placed.nodup

theorem Sound.htGet_of_mem (hsound : Sound hash state) (env : Env) {key : List Byte}
    {value : Value} (hmem : (key, value) ∈ pairs state) :
    htGet hash env state key = .ok (some value) := by
  obtain ⟨entry, hentry, hkey, rfl⟩ := mem_pairs_iff.mp hmem
  obtain ⟨index, hfind, -⟩ := hsound.findSlot_of_mem env hentry hkey
  exact htGet_of_findSlot hfind

theorem Sound.htGet_of_notMem (hsound : Sound hash state) (env : Env) {key : List Byte}
    (hnew : key ∉ (pairs state).map Prod.fst) : htGet hash env state key = .ok none := by
  have hnot : ∀ entry ∈ contents state.table.entries, keyText state.strings entry ≠ key :=
    fun entry hentry hkey =>
      hnew (List.mem_map.mpr ⟨_, mem_pairs_iff.mpr ⟨entry, hentry, hkey, rfl⟩, rfl⟩)
  obtain ⟨steps, hfind, -⟩ := hsound.findSlot_of_notMem env hnot
  exact htGet_of_findSlot hfind

/-! ## Setting -/

/-- One pair was put into the table, in place of the pair of its key if there
was one. -/
def PutInto (before : State Value) (key : List Byte) (value : Value) (after : State Value) : Prop :=
  ∃ rest, (pairs after).Perm ((key, value) :: rest) ∧ key ∉ rest.map Prod.fst ∧
    ((pairs before).Perm rest ∨ ∃ old, (pairs before).Perm ((key, old) :: rest))

theorem Sound.set_found (hsound : Sound hash state) {index : Nat} {old : Entry Value}
    (hold : state.table.entries[index]? = some (some old)) (value : Value) :
    Sound hash { state with table := { state.table with
      entries := state.table.entries.set index (some { old with value }) } } where
  toBounded := hsound.toBounded.set_found hold _
  live := by
    obtain ⟨left, right, hbefore, hafter⟩ := contents_set_found hold { old with value }
    have hlive := hsound.live
    intro entry hentry
    rw [Live, hbefore] at hlive
    rw [hafter] at hentry
    simp only [List.mem_append, List.mem_cons] at hlive hentry
    rcases hentry with hleft | rfl | hright
    · exact hlive entry (.inl hleft)
    · exact hlive old (.inr (.inl rfl))
    · exact hlive entry (.inr (.inr hright))
  placed := by
    rw [Placed, List.length_set]
    exact hsound.placed.set_found hold rfl
  length_eq := by
    rw [length_contents_set_found hold]
    exact hsound.length_eq

theorem Sound.putInto_set_found (hsound : Sound hash state) {index : Nat} {old : Entry Value}
    (hold : state.table.entries[index]? = some (some old)) (value : Value) :
    PutInto state (keyText state.strings old) value { state with table := { state.table with
      entries := state.table.entries.set index (some { old with value }) } } := by
  obtain ⟨left, right, hbefore, hafter⟩ := contents_set_found hold { old with value }
  let pair := fun entry : Entry Value => (keyText state.strings entry, entry.value)
  have hpairs : (pairs state).Perm
      ((keyText state.strings old, old.value) :: (left ++ right).map pair) := by
    rw [pairs, hbefore]
    exact (List.perm_middle.map pair)
  refine ⟨(left ++ right).map pair, ?_, ?_, .inr ⟨old.value, hpairs⟩⟩
  · rw [pairs, hafter]
    exact (List.perm_middle.map pair)
  · have hnodup := (hpairs.map Prod.fst).nodup_iff.mp hsound.nodup_keys
    exact (List.nodup_cons.mp hnodup).1

theorem duplicate_eq_some {strings after : Strings} {choice : Option Addr} {bytes : List Byte}
    {addr : Addr} (hdup : duplicate strings choice bytes = some (addr, after)) :
    strings addr = none ∧ after = Function.update strings addr (some bytes) := by
  cases choice with
  | none => contradiction
  | some chosen =>
      rw [duplicate, Option.bind_some] at hdup
      by_cases hfree : strings chosen = none
      · rw [if_pos hfree] at hdup
        cases hdup
        exact ⟨hfree, rfl⟩
      · rw [if_neg hfree] at hdup
        contradiction

section SetEmpty

variable (hsound : Sound hash state) {key : List Byte} {addr : Addr} {steps : Nat}
  (hslot : state.table.entries[walk state.table.capacity
    (homeIndex hash state.table.capacity key) steps]? = some none)
  (hnew : ∀ entry ∈ contents state.table.entries, keyText state.strings entry ≠ key)
  (hfresh : state.strings addr = none) (value : Value)

include hsound hslot hnew hfresh

theorem Sound.set_empty (hlength : state.table.length < state.table.capacity / 2)
    (hpasses : Passes state.table.entries (homeIndex hash state.table.capacity key) steps) :
    Sound hash
      { strings := Function.update state.strings addr (some key),
        table := { entries := state.table.entries.set (walk state.table.capacity
                     (homeIndex hash state.table.capacity key) steps) (some ⟨addr, value⟩),
                   length := sizeResult (state.table.length + 1) } } where
  toBounded := hsound.toBounded.set_empty hlength hslot _ _
  live := by
    intro entry hentry
    dsimp only at hentry ⊢
    rcases List.mem_cons.mp ((contents_set_empty hslot _).mem_iff.mp hentry) with rfl | hold
    · rw [Function.update_self]
      exact Option.some_ne_none key
    · have hlive := hsound.live entry hold
      have hother : entry.key ≠ addr := by
        rintro rfl
        exact hlive hfresh
      rwa [Function.update_of_ne hother]
  placed := by
    have hkey := keyText_update_self state.strings addr key value
    have hcongr := hsound.placed.congr fun entry hentry =>
      keyText_update hfresh (hsound.live entry hentry) key
    rw [Placed, List.length_set]
    refine hcongr.set_empty hkey hslot hpasses ?_
    intro entry hentry
    rw [keyText_update hfresh (hsound.live entry hentry)]
    exact hnew entry hentry
  length_eq := by
    rw [length_contents_set_empty hslot, hsound.length_succ hlength, hsound.length_eq]

theorem Sound.putInto_set_empty (length : Nat) :
    PutInto state key value
      { strings := Function.update state.strings addr (some key),
        table := { entries := state.table.entries.set (walk state.table.capacity
                     (homeIndex hash state.table.capacity key) steps) (some ⟨addr, value⟩),
                   length := length } } := by
  refine ⟨pairs state, ?_, ?_, .inl (.refl _)⟩
  · have hperm := (contents_set_empty hslot (⟨addr, value⟩ : Entry Value)).map fun entry =>
      (keyText (Function.update state.strings addr (some key)) entry, entry.value)
    rw [List.map_cons, keyText_update_self] at hperm
    have hold : (contents state.table.entries).map (fun entry =>
        (keyText (Function.update state.strings addr (some key)) entry, entry.value)) =
        pairs state := by
      apply List.map_congr_left
      intro entry hentry
      rw [keyText_update hfresh (hsound.live entry hentry)]
    rw [hold] at hperm
    exact hperm
  · rw [pairs, List.map_map]
    intro hmem
    obtain ⟨entry, hentry, hkey⟩ := List.mem_map.mp hmem
    exact hnew entry hentry hkey

end SetEmpty

/-- Below the load threshold an entry is set, or `strdup` fails and nothing
changes. -/
theorem Sound.htSetEntry_cases (hsound : Sound hash state)
    (hlength : state.table.length < state.table.capacity / 2) (env : Env) (key : List Byte)
    (value : Value) :
    htSetEntry hash env state key value = .ok (none, state) ∨
      ∃ addr after, htSetEntry hash env state key value = .ok (some addr, after) ∧
        Sound hash after ∧ PutInto state key value after := by
  by_cases hmem : ∃ entry ∈ contents state.table.entries, keyText state.strings entry = key
  · obtain ⟨entry, hentry, rfl⟩ := hmem
    obtain ⟨index, hfind, hslot⟩ := hsound.findSlot_of_mem env hentry rfl
    exact .inr ⟨_, _, htSetEntry_of_found hfind value, hsound.set_found hslot value,
      hsound.putInto_set_found hslot value⟩
  · have hnew : ∀ entry ∈ contents state.table.entries, keyText state.strings entry ≠ key :=
      fun entry hentry hkey => hmem ⟨entry, hentry, hkey⟩
    obtain ⟨steps, hfind, hslot, hpasses⟩ := hsound.findSlot_of_notMem env hnew
    cases hdup : duplicate state.strings env.strdup key with
    | none => exact .inl (htSetEntry_of_no_memory hfind hdup value)
    | some copied =>
        obtain ⟨addr, strings⟩ := copied
        obtain ⟨hfresh, rfl⟩ := duplicate_eq_some hdup
        exact .inr ⟨addr, _, htSetEntry_of_empty hfind hdup value,
          hsound.set_empty hslot hnew hfresh value hlength hpasses,
          hsound.putInto_set_empty hslot hnew hfresh value _⟩

/-- A set either returns `NULL` and leaves the contents, or puts its pair. -/
theorem Sound.htSet_cases (hsound : Sound hash state) (env : Env) (key : List Byte)
    (value : Value) :
    (∃ after, htSet hash env state key (some value) = .ok (none, after) ∧
        Sound hash after ∧ SameContents state after) ∨
      ∃ addr after, htSet hash env state key (some value) = .ok (some addr, after) ∧
        Sound hash after ∧ PutInto state key value after := by
  by_cases hlength : state.table.length < state.table.capacity / 2
  · rw [htSet_of_lt hlength]
    rcases hsound.htSetEntry_cases hlength env key value with hfailed | hput
    · exact .inl ⟨state, hfailed, hsound, .refl state⟩
    · exact .inr hput
  · have hfull := Nat.le_of_not_lt hlength
    by_cases hgrows : Grows env state.table.capacity
    · obtain ⟨grown, hok, hsame, hexpanded, hgrown⟩ := hsound.exists_htExpand_eq hgrows
      rw [htSet_of_expand hfull hok]
      rcases hgrown.htSetEntry_cases (hexpanded.length_lt hsound.toBounded) env key value with
        hfailed | ⟨addr, after, hset, hafter, rest, hpairs, hnew, hbefore⟩
      · exact .inl ⟨grown, hfailed, hgrown, hsame⟩
      · have hperm := hsame.pairs_perm.symm
        exact .inr ⟨addr, after, hset, hafter, rest, hpairs, hnew,
          hbefore.imp hperm.trans fun ⟨old, hold⟩ => ⟨old, hperm.trans hold⟩⟩
    · rw [htSet_of_expand hfull (htExpand_of_not_grows hgrows)]
      exact .inl ⟨state, rfl, hsound, .refl state⟩

/-! ## Refinement -/

/-- The table holds what a history of writes leaves. -/
structure Refines (hash : List Byte → UInt64) (state : State Value)
    (history : List (Write (List Byte) Value)) : Prop extends Sound hash state where
  holds : ∀ key value, (key, value) ∈ pairs state ↔ current history key = some value

variable {history : List (Write (List Byte) Value)}

theorem refines_created (hash : List Byte → UInt64) : Refines hash (created : State Value) [] where
  toSound := sound_created hash
  holds := by
    intro key value
    simp [pairs, created, current]

theorem Refines.of_sameContents {before after : State Value}
    (hrefines : Refines hash before history) (hsound : Sound hash after)
    (hsame : SameContents before after) : Refines hash after history where
  toSound := hsound
  holds key value := hsame.pairs_perm.mem_iff.trans (hrefines.holds key value)

theorem Refines.of_putInto {before after : State Value} (hrefines : Refines hash before history)
    (hsound : Sound hash after) {key : List Byte} {value : Value}
    (hput : PutInto before key value after) : Refines hash after (.put key value :: history) where
  toSound := hsound
  holds := by
    intro other stored
    obtain ⟨rest, hafter, hnew, hbefore⟩ := hput
    rw [hafter.mem_iff, List.mem_cons, current_put]
    by_cases hkey : other = key
    · subst hkey
      have hrest : (other, stored) ∉ rest := fun hmem =>
        hnew (List.mem_map.mpr ⟨_, hmem, rfl⟩)
      rw [if_pos rfl, or_iff_left hrest]
      simp [eq_comm]
    · have hother : (other, stored) ≠ (key, value) := fun heq => hkey (congrArg Prod.fst heq)
      rw [if_neg hkey, or_iff_right hother, ← hrefines.holds]
      rcases hbefore with hperm | ⟨old, hperm⟩
      · exact hperm.mem_iff.symm
      · have hold : (other, stored) ≠ (key, old) := fun heq => hkey (congrArg Prod.fst heq)
        rw [hperm.mem_iff, List.mem_cons, or_iff_right hold]

theorem Refines.mem_keys_iff (hrefines : Refines hash state history) (key : List Byte) :
    key ∈ (pairs state).map Prod.fst ↔ current history key ≠ none := by
  rw [List.mem_map, Option.ne_none_iff_exists']
  constructor
  · rintro ⟨pair, hpair, rfl⟩
    exact ⟨pair.2, (hrefines.holds _ _).mp hpair⟩
  · rintro ⟨value, hvalue⟩
    exact ⟨(key, value), (hrefines.holds _ _).mpr hvalue, rfl⟩

theorem Refines.htGet_eq (hrefines : Refines hash state history) (env : Env) (key : List Byte) :
    htGet hash env state key = .ok (current history key) := by
  cases hvalue : current history key with
  | none =>
      apply hrefines.htGet_of_notMem env
      rw [hrefines.mem_keys_iff, hvalue]
      exact fun hne => hne rfl
  | some value => exact hrefines.htGet_of_mem env ((hrefines.holds key value).mpr hvalue)

/-! ## Runs of sets -/

/-- A call of `ht_set` with a value other than `NULL`. -/
structure SetCall (Value : Type) where
  key : List Byte
  value : Value
  env : Env

def SetCall.write (call : SetCall Value) : Write (List Byte) Value := .put call.key call.value

def setStep (hash : List Byte → UInt64) (state : State Value) (call : SetCall Value) :
    State Value :=
  step hash state (.set call.key (some call.value) call.env)

/-- The pointer the call returns. -/
def returned (hash : List Byte → UInt64) (state : State Value) (call : SetCall Value) :
    Option Addr :=
  match htSet hash call.env state call.key (some call.value) with
  | .ok (ret, _) => ret
  | .error _ => none

def Succeeds (hash : List Byte → UInt64) (state : State Value) (call : SetCall Value) : Prop :=
  returned hash state call ≠ none

instance (state : State Value) (call : SetCall Value) : Decidable (Succeeds hash state call) :=
  inferInstanceAs (Decidable (_ ≠ _))

theorem setStep_of_htSet {call : SetCall Value} {ret : Option Addr} {after : State Value}
    (hset : htSet hash call.env state call.key (some call.value) = .ok (ret, after)) :
    setStep hash state call = after ∧ returned hash state call = ret := by
  constructor
  · rw [setStep, step, Call.perform, hset]
    rfl
  · rw [returned, hset]

/-- A call that fails leaves the contents, one that succeeds puts its pair. -/
theorem Sound.setStep_cases (hsound : Sound hash state) (call : SetCall Value) :
    (¬Succeeds hash state call ∧ Sound hash (setStep hash state call) ∧
        SameContents state (setStep hash state call)) ∨
      (Succeeds hash state call ∧ Sound hash (setStep hash state call) ∧
        PutInto state call.key call.value (setStep hash state call)) := by
  rcases hsound.htSet_cases call.env call.key call.value with
    ⟨after, hset, hafter, hsame⟩ | ⟨addr, after, hset, hafter, hput⟩
  · obtain ⟨hstep, hret⟩ := setStep_of_htSet hset
    rw [hstep, Succeeds, hret]
    exact .inl ⟨fun hne => hne rfl, hafter, hsame⟩
  · obtain ⟨hstep, hret⟩ := setStep_of_htSet hset
    rw [hstep, Succeeds, hret]
    exact .inr ⟨Option.some_ne_none addr, hafter, hput⟩

/-- The history after a run: the writes of the calls that succeeded, newest
first, before an older history. -/
def written (hash : List Byte → UInt64) :
    State Value → List (SetCall Value) → List (Write (List Byte) Value) →
      List (Write (List Byte) Value)
  | _, [], history => history
  | state, call :: rest, history =>
      written hash (setStep hash state call) rest
        (if Succeeds hash state call then call.write :: history else history)

theorem Refines.step (hrefines : Refines hash state history) (call : SetCall Value) :
    Refines hash (setStep hash state call)
      (if Succeeds hash state call then call.write :: history else history) := by
  rcases hrefines.setStep_cases call with ⟨hfails, hsound, hsame⟩ | ⟨hsucceeds, hsound, hput⟩
  · rw [if_neg hfails]
    exact hrefines.of_sameContents hsound hsame
  · rw [if_pos hsucceeds]
    exact hrefines.of_putInto hsound hput

theorem Refines.run (hrefines : Refines hash state history) (calls : List (SetCall Value)) :
    Refines hash (Runs.run (setStep hash) state calls) (written hash state calls history) := by
  induction calls generalizing state history with
  | nil => exact hrefines
  | cons call rest ih => exact ih (hrefines.step call)

theorem written_of_succeeds {calls : List (SetCall Value)}
    (hsucceeds : EachStep (setStep hash) (Succeeds hash) state calls) :
    written hash state calls history = (calls.map SetCall.write).reverse ++ history := by
  induction calls generalizing state history with
  | nil => rfl
  | cons call rest ih =>
      rw [written, if_pos hsucceeds.1, ih hsucceeds.2, List.map_cons, List.reverse_cons,
        List.append_assoc]
      rfl

/-- Sets erase nothing. -/
theorem value?_of_mem_written (hput : ∀ write ∈ history, write.value? ≠ none)
    (calls : List (SetCall Value)) :
    ∀ write ∈ written hash state calls history, write.value? ≠ none := by
  induction calls generalizing state history with
  | nil => exact hput
  | cons call rest ih =>
      apply ih
      intro write hwrite
      split at hwrite
      · rcases List.mem_cons.mp hwrite with rfl | hmem
        · exact Option.some_ne_none call.value
        · exact hput write hmem
      · exact hput write hwrite

/-! ## The map -/

/-- The slot holds a live string that reads as the key. -/
def HoldsAt (state : State Value) (index : Nat) (key : List Byte) : Prop :=
  ∃ entry, state.table.entries[index]? = some (some entry) ∧ state.strings entry.key = some key

/-- The slot is reached from the home of the key through filled slots only. -/
def ReachedFromHome (hash : List Byte → UInt64) (state : State Value) (index : Nat)
    (key : List Byte) : Prop :=
  ∃ steps, walk state.table.capacity (homeIndex hash state.table.capacity key) steps = index ∧
    Passes state.table.entries (homeIndex hash state.table.capacity key) steps

/-- The table is the finite map that a history of sets leaves. -/
structure IsFiniteMap (hash : List Byte → UInt64) (state : State Value)
    (history : List (Write (List Byte) Value)) : Prop where
  get : ∀ env key, htGet hash env state key = .ok (current history key)
  one_slot : ∀ key ∈ history.map Write.key, ∃! index, HoldsAt state index key
  every_slot : ∀ index entry, state.table.entries[index]? = some (some entry) →
    ∃ key ∈ history.map Write.key, HoldsAt state index key ∧ ReachedFromHome hash state index key
  length_eq_keys : htLength state.table = (history.map Write.key).dedup.length
  length_eq_slots : htLength state.table = (contents state.table.entries).length
  capacity_eq : ∃ exponent, state.table.capacity = 2 ^ exponent
  load : htLength state.table ≤ state.table.capacity / 2

theorem Sound.strings_eq (hsound : Sound hash state) {entry : Entry Value}
    (hentry : entry ∈ contents state.table.entries) :
    state.strings entry.key = some (keyText state.strings entry) := by
  obtain ⟨bytes, hbytes⟩ := Option.ne_none_iff_exists'.mp (hsound.live entry hentry)
  rw [keyText, readString, hbytes]
  rfl

theorem Sound.holdsAt_iff (hsound : Sound hash state) {index : Nat} {key : List Byte} :
    HoldsAt state index key ↔ ∃ entry, state.table.entries[index]? = some (some entry) ∧
      keyText state.strings entry = key := by
  apply exists_congr
  intro entry
  apply and_congr_right
  intro hslot
  rw [hsound.strings_eq (mem_contents_iff.mpr ⟨index, hslot⟩), Option.some.injEq]

theorem Refines.isFiniteMap (hrefines : Refines hash state history)
    (hput : ∀ write ∈ history, write.value? ≠ none) : IsFiniteMap hash state history where
  get := hrefines.htGet_eq
  one_slot := by
    intro key hkey
    rw [← current_ne_none_iff hput, ← hrefines.mem_keys_iff, pairs, List.map_map] at hkey
    obtain ⟨entry, hentry, hsame⟩ := List.mem_map.mp hkey
    obtain ⟨index, hslot⟩ := mem_contents_iff.mp hentry
    refine ⟨index, hrefines.holdsAt_iff.mpr ⟨entry, hslot, hsame⟩, ?_⟩
    intro other hother
    obtain ⟨second, hsecond, hkeySecond⟩ := hrefines.holdsAt_iff.mp hother
    exact index_unique_of_nodup hrefines.placed.nodup hsecond hslot (hkeySecond.trans hsame.symm)
  every_slot := by
    intro index entry hslot
    have hentry := mem_contents_iff.mpr ⟨index, hslot⟩
    refine ⟨keyText state.strings entry, ?_, hrefines.holdsAt_iff.mpr ⟨entry, hslot, rfl⟩,
      hrefines.placed.reached index entry hslot⟩
    rw [← current_ne_none_iff hput, ← hrefines.mem_keys_iff, pairs, List.map_map]
    exact List.mem_map.mpr ⟨entry, hentry, rfl⟩
  length_eq_keys := by
    have hkeys : ((pairs state).map Prod.fst).Perm (history.map Write.key).dedup := by
      rw [List.perm_ext_iff_of_nodup hrefines.nodup_keys (List.nodup_dedup _)]
      intro key
      rw [List.mem_dedup, hrefines.mem_keys_iff, current_ne_none_iff hput]
    calc htLength state.table = ((pairs state).map Prod.fst).length := by
          rw [List.length_map, hrefines.length_pairs]
      _ = (history.map Write.key).dedup.length := hkeys.length_eq
  length_eq_slots := hrefines.length_eq
  capacity_eq := by
    obtain ⟨exponent, -, -, hcapacity⟩ := hrefines.toBounded.capacity_eq
    exact ⟨exponent, hcapacity⟩
  load := hrefines.load

/-- A run of successful sets, with any hash function and through any number of
growths, leaves the finite map of its history. -/
theorem run_isFiniteMap (hash : List Byte → UInt64) (calls : List (SetCall Value))
    (hsucceeds : EachStep (setStep hash) (Succeeds hash) created calls) :
    IsFiniteMap hash (run (setStep hash) created calls)
      (calls.map SetCall.write).reverse := by
  have hrefines := (refines_created hash).run calls
  rw [written_of_succeeds hsucceeds, List.append_nil] at hrefines
  apply hrefines.isFiniteMap
  intro write hwrite
  obtain ⟨call, -, rfl⟩ := List.mem_map.mp (List.mem_reverse.mp hwrite)
  exact Option.some_ne_none call.value

/-- Nine keys, of which the last makes the table grow, and the first once more. -/
theorem run_isFiniteMap_overwrite :
    let env (addr : Addr) : Env := ⟨true, some addr, fun _ _ => [], fun _ _ _ => []⟩
    let calls : List (SetCall Nat) := (List.range 10).map fun addr =>
      ⟨[UInt8.ofNat (97 + addr % 9)], addr, env addr⟩
    (run (setStep hashKey) created calls).table.capacity = 32 ∧
      IsFiniteMap hashKey (run (setStep hashKey) created calls)
        (calls.map SetCall.write).reverse := by
  intro env calls
  exact ⟨by decide +kernel, run_isFiniteMap hashKey calls (by decide +kernel)⟩

end CcCvStore.FiniteMap
