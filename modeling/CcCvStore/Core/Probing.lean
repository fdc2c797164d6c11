import Mathlib.Data.List.Nodup
import Mathlib.Data.List.ReduceOption
import Mathlib.Data.List.Perm.Basic
import Mathlib.Tactic.Common

/-!
# Linear probing

An array of slots is walked from a start, wrapping at its end, until a slot is
empty or holds what is looked for.  An arranged array holds every key once,
behind occupied slots only on the walk from the key's home; searching such an
array finds the slot of a key or the empty slot where it belongs.
-/

namespace CcCvStore.Probing

variable {Slot Key : Type}

abbrev Slots (Slot : Type) := List (Option Slot)

/-- What the occupied slots hold, in the order of the array. -/
def contents (slots : Slots Slot) : List Slot := slots.reduceOption

@[simp]
theorem contents_none_cons (slots : Slots Slot) : contents (none :: slots) = contents slots :=
  List.reduceOption_cons_of_none slots

@[simp]
theorem contents_some_cons (slot : Slot) (slots : Slots Slot) :
    contents (some slot :: slots) = slot :: contents slots :=
  List.reduceOption_cons_of_some slot slots

theorem contents_append (left right : Slots Slot) :
    contents (left ++ right) = contents left ++ contents right :=
  List.reduceOption_append left right

@[simp]
theorem contents_replicate_none (size : Nat) :
    contents (List.replicate size none : Slots Slot) = [] :=
  List.reduceOption_replicate_none

/-! ## The walk -/

def next (size index : Nat) : Nat := if size ≤ index + 1 then 0 else index + 1

/-- Where a walk is after some steps. -/
def walk (size : Nat) : (index steps : Nat) → Nat
  | index, 0 => index
  | index, steps + 1 => walk size (next size index) steps

theorem next_lt {size index : Nat} (hindex : index < size) : next size index < size := by
  unfold next
  split <;> omega

theorem next_eq_mod {size index : Nat} (hindex : index < size) :
    next size index = (index + 1) % size := by
  rw [next]
  split
  · rw [show index + 1 = size by omega, Nat.mod_self]
  · rw [Nat.mod_eq_of_lt (by omega)]

theorem walk_eq_mod {size index : Nat} (hindex : index < size) (steps : Nat) :
    walk size index steps = (index + steps) % size := by
  induction steps generalizing index with
  | zero => exact (Nat.mod_eq_of_lt hindex).symm
  | succ steps ih =>
      rw [walk, ih (next_lt hindex), next_eq_mod hindex, Nat.mod_add_mod, Nat.add_assoc,
        Nat.add_comm 1 steps]

/-- Every slot is met within one round. -/
theorem exists_walk_eq {size index stop : Nat} (hindex : index < size) (hstop : stop < size) :
    ∃ steps < size, walk size index steps = stop := by
  by_cases hle : index ≤ stop
  · refine ⟨stop - index, by omega, ?_⟩
    rw [walk_eq_mod hindex, Nat.add_sub_cancel' hle, Nat.mod_eq_of_lt hstop]
  · refine ⟨size + stop - index, by omega, ?_⟩
    rw [walk_eq_mod hindex, Nat.add_sub_cancel' (by omega), Nat.add_mod_left,
      Nat.mod_eq_of_lt hstop]

/-! ## Probing -/

/-- Why a probe has no result. -/
inductive Stuck where
  /-- It did not stop within the steps it was given. -/
  | endless
  /-- It read outside the array. -/
  | outside
  deriving DecidableEq, Repr

/-- The slot a probe stops at, with what it holds.  `hit` may depend on the
number of the step. -/
def probe (hit : Nat → Slot → Bool) (slots : Slots Slot) :
    (fuel step index : Nat) → Except Stuck (Nat × Option Slot)
  | 0, _, _ => .error .endless
  | fuel + 1, step, index =>
      match slots[index]? with
      | none => .error .outside
      | some none => .ok (index, none)
      | some (some slot) =>
          if hit step slot then .ok (index, some slot)
          else probe hit slots fuel (step + 1) (next slots.length index)

/-- The slots before the end of a walk are occupied. -/
def Passes (slots : Slots Slot) (index steps : Nat) : Prop :=
  ∀ n < steps, ∃ slot, slots[walk slots.length index n]? = some (some slot)

/-- What is known where a probe stopped. -/
structure Stops (hit : Nat → Slot → Bool) (slots : Slots Slot) (step index steps : Nat)
    (found : Option Slot) : Prop where
  at_stop : slots[walk slots.length index steps]? = some found
  passed : ∀ n < steps, ∃ slot, slots[walk slots.length index n]? = some (some slot) ∧
    hit (step + n) slot = false
  hit_found : ∀ slot, found = some slot → hit (step + steps) slot = true

theorem Stops.passes {hit : Nat → Slot → Bool} {slots : Slots Slot} {step index steps : Nat}
    {found : Option Slot} (hstops : Stops hit slots step index steps found) :
    Passes slots index steps := by
  intro n hn
  obtain ⟨slot, hslot, -⟩ := hstops.passed n hn
  exact ⟨slot, hslot⟩

theorem probe_stops {hit : Nat → Slot → Bool} {slots : Slots Slot} {fuel step index stop : Nat}
    {found : Option Slot} (hprobe : probe hit slots fuel step index = .ok (stop, found)) :
    ∃ steps, stop = walk slots.length index steps ∧ Stops hit slots step index steps found := by
  induction fuel generalizing step index with
  | zero => contradiction
  | succ fuel ih =>
      rw [probe] at hprobe
      cases hread : slots[index]? with
      | none =>
          rw [hread] at hprobe
          contradiction
      | some entry =>
          rw [hread] at hprobe
          cases entry with
          | none =>
              cases hprobe
              exact ⟨0, rfl, hread, fun n hn => absurd hn (Nat.not_lt_zero n),
                fun slot hslot => absurd hslot.symm (Option.some_ne_none slot)⟩
          | some slot =>
              cases hhit : hit step slot with
              | true =>
                  simp only [hhit, if_true] at hprobe
                  cases hprobe
                  refine ⟨0, rfl, hread, fun n hn => absurd hn (Nat.not_lt_zero n), ?_⟩
                  intro other heq
                  cases heq
                  exact hhit
              | false =>
                  simp only [hhit, Bool.false_eq_true, if_false] at hprobe
                  obtain ⟨steps, hstop, hstops⟩ := ih hprobe
                  refine ⟨steps + 1, hstop, hstops.at_stop, ?_, ?_⟩
                  · intro n hn
                    cases n with
                    | zero => exact ⟨slot, hread, hhit⟩
                    | succ n =>
                        have hpassed := hstops.passed n (Nat.lt_of_succ_lt_succ hn)
                        rwa [Nat.add_right_comm] at hpassed
                  · intro other heq
                    have hfound := hstops.hit_found other heq
                    rwa [Nat.add_right_comm] at hfound

/-- A probe stops no later than at the first empty slot of its walk. -/
theorem probe_ends (hit : Nat → Slot → Bool) {slots : Slots Slot} {fuel step index steps : Nat}
    (hindex : index < slots.length) (hfuel : steps < fuel)
    (hempty : slots[walk slots.length index steps]? = some none) :
    ∃ stop found, probe hit slots fuel step index = .ok (stop, found) := by
  induction fuel generalizing step index steps with
  | zero => exact absurd hfuel (Nat.not_lt_zero steps)
  | succ fuel ih =>
      rw [probe]
      cases hread : slots[index]? with
      | none => exact absurd hindex (Nat.not_lt.mpr (List.getElem?_eq_none_iff.mp hread))
      | some entry =>
          cases entry with
          | none => exact ⟨index, none, rfl⟩
          | some slot =>
              cases hhit : hit step slot with
              | true => exact ⟨index, some slot, by simp only [hhit, if_true]⟩
              | false =>
                  cases steps with
                  | zero =>
                      rw [walk, hread] at hempty
                      cases hempty
                  | succ steps =>
                      simp only [hhit, Bool.false_eq_true, if_false]
                      exact ih (next_lt hindex) (Nat.lt_of_succ_lt_succ hfuel) hempty

/-- With an empty slot somewhere, a probe stops within one round. -/
theorem exists_probe_eq (hit : Nat → Slot → Bool) {slots : Slots Slot} {index : Nat}
    (hindex : index < slots.length) (hempty : none ∈ slots) (step : Nat) :
    ∃ stop found, probe hit slots slots.length step index = .ok (stop, found) := by
  obtain ⟨place, hplace⟩ := List.mem_iff_getElem?.mp hempty
  obtain ⟨hlt, -⟩ := List.getElem?_eq_some_iff.mp hplace
  obtain ⟨steps, hsteps, hwalk⟩ := exists_walk_eq hindex hlt
  exact probe_ends hit hindex hsteps (hwalk.symm ▸ hplace)

/-! ## Changing a slot -/

variable {slots : Slots Slot} {index : Nat}

theorem mem_contents_iff {slot : Slot} :
    slot ∈ contents slots ↔ ∃ index : Nat, slots[index]? = some (some slot) :=
  List.reduceOption_mem_iff.trans List.mem_iff_getElem?

/-- There is an empty slot exactly when fewer are occupied than there are. -/
theorem none_mem_iff : none ∈ slots ↔ (contents slots).length < slots.length :=
  List.reduceOption_length_lt_iff.symm

theorem contents_set_empty (hempty : slots[index]? = some none) (slot : Slot) :
    (contents (slots.set index (some slot))).Perm (slot :: contents slots) := by
  induction slots generalizing index with
  | nil => contradiction
  | cons entry slots ih =>
      cases index with
      | zero =>
          rw [List.getElem?_cons_zero, Option.some.injEq] at hempty
          rw [hempty, List.set_cons_zero, contents_some_cons, contents_none_cons]
      | succ index =>
          rw [List.getElem?_cons_succ] at hempty
          rw [List.set_cons_succ]
          cases entry with
          | none =>
              rw [contents_none_cons, contents_none_cons]
              exact ih hempty
          | some first =>
              rw [contents_some_cons, contents_some_cons]
              exact ((ih hempty).cons first).trans (List.Perm.swap slot first _)

theorem contents_set_found {old : Slot} (hold : slots[index]? = some (some old)) (new : Slot) :
    ∃ left right, contents slots = left ++ old :: right ∧
      contents (slots.set index (some new)) = left ++ new :: right := by
  induction slots generalizing index with
  | nil => contradiction
  | cons entry slots ih =>
      cases index with
      | zero =>
          rw [List.getElem?_cons_zero, Option.some.injEq] at hold
          refine ⟨[], contents slots, ?_, ?_⟩
          · rw [hold, contents_some_cons]
            rfl
          · rw [List.set_cons_zero, contents_some_cons]
            rfl
      | succ index =>
          rw [List.getElem?_cons_succ] at hold
          obtain ⟨left, right, hbefore, hafter⟩ := ih hold
          rw [List.set_cons_succ]
          cases entry with
          | none =>
              rw [contents_none_cons, contents_none_cons]
              exact ⟨left, right, hbefore, hafter⟩
          | some first =>
              rw [contents_some_cons, contents_some_cons]
              exact ⟨first :: left, right, congrArg (first :: ·) hbefore,
                congrArg (first :: ·) hafter⟩

/-- Arrays that hold the same still do when the same slot content is replaced in
both. -/
theorem perm_contents_set {other : Slots Slot} {place : Nat}
    (hperm : (contents other).Perm (contents slots)) {old : Slot}
    (hold : slots[index]? = some (some old)) (hother : other[place]? = some (some old))
    (new : Slot) :
    (contents (other.set place (some new))).Perm (contents (slots.set index (some new))) := by
  obtain ⟨left, right, hbefore, hafter⟩ := contents_set_found hold new
  obtain ⟨left', right', hbefore', hafter'⟩ := contents_set_found hother new
  rw [hbefore, hbefore'] at hperm
  rw [hafter, hafter']
  have hrest : (left' ++ right').Perm (left ++ right) :=
    (List.perm_middle.symm.trans (hperm.trans List.perm_middle)).cons_inv
  exact List.perm_middle.trans ((hrest.cons new).trans List.perm_middle.symm)

/-- Filling a slot cuts no walk. -/
theorem passes_set {start steps : Nat} (hpasses : Passes slots start steps) (slot : Slot) :
    Passes (slots.set index (some slot)) start steps := by
  intro n hn
  rw [List.length_set]
  obtain ⟨other, hother⟩ := hpasses n hn
  by_cases hsame : index = walk slots.length start n
  · obtain ⟨hlt, -⟩ := List.getElem?_eq_some_iff.mp hother
    exact ⟨slot, by rw [hsame, List.getElem?_set_self hlt]⟩
  · exact ⟨other, by rw [List.getElem?_set_ne hsame, hother]⟩

/-! ## Arranged arrays -/

/-- Every key is held once, and only occupied slots lie between its home and
the slot that holds it. -/
structure Arranged (keyOf : Slot → Key) (home : Key → Nat) (slots : Slots Slot) : Prop where
  nodup : ((contents slots).map keyOf).Nodup
  reached : ∀ index slot, slots[index]? = some (some slot) →
    ∃ steps, walk slots.length (home (keyOf slot)) steps = index ∧
      Passes slots (home (keyOf slot)) steps

variable {keyOf : Slot → Key} {home : Key → Nat}

theorem arranged_replicate (keyOf : Slot → Key) (home : Key → Nat) (size : Nat) :
    Arranged keyOf home (List.replicate size none) where
  nodup := by
    rw [contents_replicate_none]
    exact List.nodup_nil
  reached := by
    intro index slot hslot
    rw [List.getElem?_replicate] at hslot
    split at hslot <;> cases hslot

/-- Only the keys of what is held matter. -/
theorem Arranged.congr (harranged : Arranged keyOf home slots) {other : Slot → Key}
    (hsame : ∀ slot ∈ contents slots, other slot = keyOf slot) : Arranged other home slots where
  nodup := by
    rw [List.map_congr_left hsame]
    exact harranged.nodup
  reached := by
    intro index slot hslot
    rw [hsame slot (mem_contents_iff.mpr ⟨index, hslot⟩)]
    exact harranged.reached index slot hslot

/-- A new key goes where its probe ends. -/
theorem Arranged.set_empty (harranged : Arranged keyOf home slots) {slot : Slot} {key : Key}
    (hkey : keyOf slot = key) {steps : Nat}
    (hempty : slots[walk slots.length (home key) steps]? = some none)
    (hpasses : Passes slots (home key) steps) (hnew : ∀ other ∈ contents slots, keyOf other ≠ key) :
    Arranged keyOf home (slots.set (walk slots.length (home key) steps) (some slot)) where
  nodup := by
    rw [((contents_set_empty hempty slot).map keyOf).nodup_iff, List.map_cons, List.nodup_cons]
    refine ⟨?_, harranged.nodup⟩
    intro hmem
    obtain ⟨other, hother, hsame⟩ := List.mem_map.mp hmem
    exact hnew other hother (hsame.trans hkey)
  reached := by
    intro index other hother
    rw [List.length_set]
    obtain ⟨hlt, -⟩ := List.getElem?_eq_some_iff.mp hempty
    by_cases hsame : walk slots.length (home key) steps = index
    · subst hsame
      rw [List.getElem?_set_self hlt] at hother
      cases hother
      rw [hkey]
      exact ⟨steps, rfl, passes_set hpasses slot⟩
    · rw [List.getElem?_set_ne hsame] at hother
      obtain ⟨others, hwalk, hold⟩ := harranged.reached index other hother
      exact ⟨others, hwalk, passes_set hold slot⟩

/-- A slot may be overwritten under its key. -/
theorem Arranged.set_found (harranged : Arranged keyOf home slots) {old new : Slot}
    (hold : slots[index]? = some (some old)) (hkey : keyOf new = keyOf old) :
    Arranged keyOf home (slots.set index (some new)) where
  nodup := by
    obtain ⟨left, right, hbefore, hafter⟩ := contents_set_found hold new
    have hkeys := harranged.nodup
    rw [hbefore, List.map_append, List.map_cons, ← hkey] at hkeys
    rw [hafter, List.map_append, List.map_cons]
    exact hkeys
  reached := by
    intro place other hother
    rw [List.length_set]
    obtain ⟨hlt, -⟩ := List.getElem?_eq_some_iff.mp hold
    by_cases hsame : index = place
    · subst hsame
      rw [List.getElem?_set_self hlt] at hother
      cases hother
      obtain ⟨steps, hwalk, hpasses⟩ := harranged.reached index old hold
      rw [hkey]
      exact ⟨steps, hwalk, passes_set hpasses new⟩
    · rw [List.getElem?_set_ne hsame] at hother
      obtain ⟨steps, hwalk, hpasses⟩ := harranged.reached place other hother
      exact ⟨steps, hwalk, passes_set hpasses new⟩

/-- A key that is held is held further on, or here, and not both. -/
theorem index_unique_of_nodup {slots : Slots Slot} (hnodup : ((contents slots).map keyOf).Nodup)
    {left right : Nat} {first second : Slot} (hleft : slots[left]? = some (some first))
    (hright : slots[right]? = some (some second)) (hkey : keyOf first = keyOf second) :
    left = right := by
  induction slots generalizing left right with
  | nil => contradiction
  | cons entry slots ih =>
      have htail : ((contents slots).map keyOf).Nodup := by
        cases entry with
        | none => rwa [contents_none_cons] at hnodup
        | some slot =>
            rw [contents_some_cons, List.map_cons] at hnodup
            exact hnodup.of_cons
      have hhead : ∀ {slot other : Slot} {place : Nat}, entry = some slot →
          slots[place]? = some (some other) → keyOf slot ≠ keyOf other := by
        intro slot other place hentry hplace hsame
        rw [hentry, contents_some_cons, List.map_cons, List.nodup_cons] at hnodup
        exact hnodup.1 (hsame ▸ List.mem_map_of_mem (mem_contents_iff.mpr ⟨place, hplace⟩))
      cases left with
      | zero =>
          cases right with
          | zero => rfl
          | succ right => exact absurd hkey (hhead (Option.some.inj hleft) hright)
      | succ left =>
          cases right with
          | zero => exact absurd hkey.symm (hhead (Option.some.inj hright) hleft)
          | succ right => exact congrArg Nat.succ (ih htail hleft hright)

/-! ## Searching an arranged array -/

section Search

variable {key : Key} {hit : Nat → Slot → Bool}

/-- Searching a key that is held finds its slot. -/
theorem Arranged.probe_of_mem (harranged : Arranged keyOf home slots)
    (hhome : home key < slots.length) (hempty : none ∈ slots)
    (hhit : ∀ n, ∀ slot ∈ contents slots, hit n slot = true ↔ keyOf slot = key)
    {slot : Slot} (hslot : slot ∈ contents slots) (hkey : keyOf slot = key) :
    ∃ index, probe hit slots slots.length 0 (home key) = .ok (index, some slot) ∧
      slots[index]? = some (some slot) := by
  obtain ⟨stop, found, hprobe⟩ := exists_probe_eq hit hhome hempty 0
  obtain ⟨steps, rfl, hstops⟩ := probe_stops hprobe
  cases found with
  | none =>
      exfalso
      obtain ⟨place, hplace⟩ := mem_contents_iff.mp hslot
      obtain ⟨before, hwalk, hpasses⟩ := harranged.reached place slot hplace
      rw [hkey] at hwalk hpasses
      rcases Nat.lt_trichotomy before steps with hlt | heq | hgt
      · obtain ⟨other, hother, hmiss⟩ := hstops.passed before hlt
        rw [hwalk, hplace] at hother
        cases hother
        rw [(hhit _ slot hslot).mpr hkey] at hmiss
        contradiction
      · have hstop := hstops.at_stop
        rw [← heq, hwalk, hplace] at hstop
        cases hstop
      · obtain ⟨other, hother⟩ := hpasses steps hgt
        rw [hstops.at_stop] at hother
        cases hother
  | some other =>
      have hother : other ∈ contents slots := mem_contents_iff.mpr ⟨_, hstops.at_stop⟩
      have hsame := (hhit _ other hother).mp (hstops.hit_found other rfl)
      have heq : other = slot :=
        List.inj_on_of_nodup_map harranged.nodup hother hslot (hsame.trans hkey.symm)
      subst heq
      exact ⟨_, hprobe, hstops.at_stop⟩

/-- Searching a key that is not held ends at the slot where it belongs. -/
theorem probe_of_notMem (hhome : home key < slots.length) (hempty : none ∈ slots)
    (hhit : ∀ n, ∀ slot ∈ contents slots, hit n slot = true ↔ keyOf slot = key)
    (hnew : ∀ slot ∈ contents slots, keyOf slot ≠ key) :
    ∃ steps, probe hit slots slots.length 0 (home key) =
        .ok (walk slots.length (home key) steps, none) ∧
      slots[walk slots.length (home key) steps]? = some none ∧
      Passes slots (home key) steps := by
  obtain ⟨stop, found, hprobe⟩ := exists_probe_eq hit hhome hempty 0
  obtain ⟨steps, rfl, hstops⟩ := probe_stops hprobe
  cases found with
  | none => exact ⟨steps, hprobe, hstops.at_stop, hstops.passes⟩
  | some slot =>
      have hslot : slot ∈ contents slots := mem_contents_iff.mpr ⟨_, hstops.at_stop⟩
      exact absurd ((hhit _ slot hslot).mp (hstops.hit_found slot rfl)) (hnew slot hslot)

end Search

end CcCvStore.Probing
