import CcCvStore.Core.Heap
import Mathlib.Data.List.Perm.Basic

/-!
# Who owns the allocated blocks

A ledger lists the live blocks of a memory with their contents.  What a program
may still do with a block is then a question of who has it in its part of the
ledger: a block can be freed once, by its owner, and a memory whose owners have
given everything back has leaked nothing.
-/

namespace CcCvStore.Ownership

open CcCvStore.Heap

variable {Cell : Type*}

/-- Blocks by their address, in no particular order. -/
abbrev Ledger (Cell : Type*) := List (Address × Cell)

/-- The live blocks of the memory are those of the ledger, each listed once. -/
structure Holds (memory : Memory Cell) (ledger : Ledger Cell) : Prop where
  nodup : (ledger.map Prod.fst).Nodup
  cell?_eq_some : ∀ address cell,
    memory.cell? address = some cell ↔ (address, cell) ∈ ledger

namespace Holds

variable {memory : Memory Cell} {ledger other : Ledger Cell} {address : Address} {cell : Cell}

theorem empty : Holds (⟨[]⟩ : Memory Cell) [] where
  nodup := List.nodup_nil
  cell?_eq_some := by simp [Memory.cell?]

/-- The order of a ledger does not count. -/
theorem perm (hholds : Holds memory ledger) (hperm : ledger.Perm other) : Holds memory other where
  nodup := (hperm.map Prod.fst).nodup_iff.mp hholds.nodup
  cell?_eq_some := by
    intro address cell
    rw [hholds.cell?_eq_some, hperm.mem_iff]

theorem second {first next : Address × Cell} (hholds : Holds memory (first :: next :: ledger)) :
    Holds memory (next :: first :: ledger) := hholds.perm (List.Perm.swap _ _ _)

theorem cell?_of_mem (hholds : Holds memory ledger) (hmem : (address, cell) ∈ ledger) :
    memory.cell? address = some cell := (hholds.cell?_eq_some address cell).mpr hmem

/-- A block is live exactly when somebody has it. -/
theorem live_iff (hholds : Holds memory ledger) (address : Address) :
    memory.cell? address ≠ none ↔ address ∈ ledger.map Prod.fst := by
  rw [Option.ne_none_iff_exists', List.mem_map]
  constructor
  · rintro ⟨cell, hcell⟩
    exact ⟨_, (hholds.cell?_eq_some address cell).mp hcell, rfl⟩
  · rintro ⟨⟨_, cell⟩, hmem, rfl⟩
    exact ⟨cell, hholds.cell?_of_mem hmem⟩

/-- What is handed out next is nobody's. -/
theorem fresh (hholds : Holds memory ledger) :
    memory.blocks.length ∉ ledger.map Prod.fst := by
  rw [← hholds.live_iff]
  exact not_not_intro memory.cell?_fresh

theorem load_of_mem (hholds : Holds memory ledger) (hmem : (address, cell) ∈ ledger) :
    memory.load address = .ok cell := Memory.load_of_cell? (hholds.cell?_of_mem hmem)

theorem malloc (hholds : Holds memory ledger) (cell : Cell) :
    Holds (memory.malloc cell).2 (((memory.malloc cell).1, cell) :: ledger) where
  nodup := List.nodup_cons.mpr ⟨hholds.fresh, hholds.nodup⟩
  cell?_eq_some := by
    intro address content
    rw [Memory.cell?_malloc, List.mem_cons, Prod.mk.injEq]
    split
    next hself =>
      have hfresh : (address, content) ∉ ledger := by
        intro hmem
        rw [hself] at hmem
        exact hholds.fresh (List.mem_map.mpr ⟨_, hmem, rfl⟩)
      rw [or_iff_left hfresh, and_iff_right hself, Option.some.injEq]
      exact eq_comm
    next hother =>
      rw [hholds.cell?_eq_some, or_iff_right]
      exact fun hself => hother hself.1

theorem notMem_of_cons (hholds : Holds memory ((address, cell) :: ledger)) (content : Cell) :
    (address, content) ∉ ledger := by
  intro hmem
  exact (List.nodup_cons.mp hholds.nodup).1 (List.mem_map.mpr ⟨_, hmem, rfl⟩)

/-- The other blocks of a ledger keep their contents when one is replaced. -/
theorem cell?_replaced (hholds : Holds memory ((address, cell) :: ledger)) (content : Cell)
    {target : Address} (hother : target ≠ address) :
    memory.cell? target = some content ↔ (target, content) ∈ ledger := by
  rw [hholds.cell?_eq_some, List.mem_cons, or_iff_right]
  intro hself
  exact hother (congrArg Prod.fst hself)

/-- Who owns a block can free it; the rest stays as it was. -/
theorem free (hholds : Holds memory ((address, cell) :: ledger)) :
    ∃ after, memory.free address = .ok after ∧ Holds after ledger := by
  obtain ⟨after, hfree, hcell?⟩ :=
    Memory.replace_of_cell? (hholds.cell?_of_mem List.mem_cons_self) none
  refine ⟨after, hfree, (List.nodup_cons.mp hholds.nodup).2, ?_⟩
  intro target content
  rw [hcell?]
  split
  next hself =>
    subst hself
    exact iff_of_false (Option.some_ne_none _).symm (hholds.notMem_of_cons content)
  next hother => exact hholds.cell?_replaced content hother

/-- Who owns a block can write it. -/
theorem store (hholds : Holds memory ((address, cell) :: ledger)) (written : Cell) :
    ∃ after, memory.store address written = .ok after ∧
      Holds after ((address, written) :: ledger) := by
  obtain ⟨after, hstore, hcell?⟩ :=
    Memory.replace_of_cell? (hholds.cell?_of_mem List.mem_cons_self) (some written)
  refine ⟨after, hstore, hholds.nodup, ?_⟩
  intro target content
  rw [hcell?, List.mem_cons, Prod.mk.injEq]
  split
  next hself =>
    subst hself
    rw [or_iff_left (hholds.notMem_of_cons content), and_iff_right rfl, Option.some.injEq]
    exact eq_comm
  next hother =>
    rw [hholds.cell?_replaced content hother, or_iff_right]
    exact fun hself => hother hself.1

end Holds

/-! ## Ledgers of several owners -/

section Owners

variable {Owner : Type*} (blocks : Owner → Ledger Cell)

/-- The part of one owner set apart from the rest. -/
theorem perm_of_getElem? {owners : List Owner} {index : Nat} {owner : Owner}
    (howner : owners[index]? = some owner) :
    (owners.flatMap blocks).Perm
      (blocks owner ++ (owners.eraseIdx index).flatMap blocks) := by
  obtain ⟨hlt, rfl⟩ := List.getElem?_eq_some_iff.mp howner
  exact (List.getElem_cons_eraseIdx_perm hlt).symm.flatMap_right blocks

/-- The same part once its owner has changed. -/
theorem perm_set {owners : List Owner} {index : Nat} (hlt : index < owners.length)
    (changed : Owner) :
    ((owners.set index changed).flatMap blocks).Perm
      (blocks changed ++ (owners.eraseIdx index).flatMap blocks) :=
  (List.set_perm_cons_eraseIdx hlt changed).flatMap_right blocks

omit blocks in
theorem modify_of_getElem? {owners : List Owner} {index : Nat} {owner : Owner}
    (howner : owners[index]? = some owner) (change : Owner → Owner) :
    owners.modify index change = owners.set index (change owner) := by
  apply List.ext_getElem?
  intro other
  rw [List.getElem?_modify, List.getElem?_set]
  split
  next hself =>
    subst hself
    rw [howner, if_pos (List.getElem?_eq_some_iff.mp howner).1]
    rfl
  next hother => exact id_map _

end Owners

end CcCvStore.Ownership
