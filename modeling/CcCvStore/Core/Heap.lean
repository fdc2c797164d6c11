import Mathlib.Tactic.Common
import Mathlib.Data.List.Nodup

/-!
# Allocated blocks and linked lists

A heap of equally shaped blocks.  Every allocation gets an address of its own,
also where the machine would hand out freed memory again, so an address stays
that of one allocation and a use of a freed block is a fault.
-/

namespace CcCvStore.Heap

variable {Cell : Type*}

abbrev Address := Nat

inductive HeapFault where
  /-- A use of a block that is not allocated, or not any more. -/
  | dead
  deriving DecidableEq, Repr

/-- The block behind a pointer that is followed. -/
def deref : Option Address → Except HeapFault Address
  | some address => .ok address
  | none => .error .dead

/-- The blocks in order of their allocation; `none` is left of a freed one. -/
structure Memory (Cell : Type*) where
  blocks : List (Option Cell)
  deriving DecidableEq

namespace Memory

def cell? (memory : Memory Cell) (address : Address) : Option Cell :=
  memory.blocks[address]?.join

def malloc (memory : Memory Cell) (cell : Cell) : Address × Memory Cell :=
  (memory.blocks.length, ⟨memory.blocks ++ [some cell]⟩)

def load (memory : Memory Cell) (address : Address) : Except HeapFault Cell :=
  match memory.cell? address with
  | some cell => .ok cell
  | none => .error .dead

/-- Replace what a live block holds, or free it. -/
def replace (memory : Memory Cell) (address : Address) (contents : Option Cell) :
    Except HeapFault (Memory Cell) :=
  match memory.cell? address with
  | some _ => .ok ⟨memory.blocks.set address contents⟩
  | none => .error .dead

def store (memory : Memory Cell) (address : Address) (cell : Cell) :
    Except HeapFault (Memory Cell) := memory.replace address (some cell)

def free (memory : Memory Cell) (address : Address) : Except HeapFault (Memory Cell) :=
  memory.replace address none

theorem lt_of_cell? {memory : Memory Cell} {address : Address} {cell : Cell}
    (hcell : memory.cell? address = some cell) : address < memory.blocks.length := by
  by_contra hbeyond
  rw [cell?, List.getElem?_eq_none (Nat.le_of_not_lt hbeyond)] at hcell
  contradiction

theorem load_of_cell? {memory : Memory Cell} {address : Address} {cell : Cell}
    (hcell : memory.cell? address = some cell) : memory.load address = .ok cell := by
  rw [load, hcell]

/-- What is allocated next is not live yet. -/
theorem cell?_fresh (memory : Memory Cell) : memory.cell? memory.blocks.length = none := by
  rw [cell?, List.getElem?_eq_none (Nat.le_refl _)]
  rfl

theorem cell?_malloc (memory : Memory Cell) (cell : Cell) (address : Address) :
    (memory.malloc cell).2.cell? address =
      if address = (memory.malloc cell).1 then some cell else memory.cell? address := by
  change (memory.blocks ++ [some cell])[address]?.join =
    if address = memory.blocks.length then some cell else memory.blocks[address]?.join
  split
  next hself =>
    subst hself
    simp
  next hother =>
    rcases Nat.lt_or_ge address memory.blocks.length with hlt | hge
    · rw [List.getElem?_append_left hlt]
    · rw [List.getElem?_eq_none hge, List.getElem?_eq_none]
      rw [List.length_append, List.length_singleton]
      exact Nat.lt_of_le_of_ne hge (Ne.symm hother)

/-- A live block can be replaced, and only it changes. -/
theorem replace_of_cell? {memory : Memory Cell} {address : Address} {cell : Cell}
    (hcell : memory.cell? address = some cell) (contents : Option Cell) :
    ∃ after, memory.replace address contents = .ok after ∧
      ∀ other, after.cell? other = if other = address then contents else memory.cell? other := by
  refine ⟨⟨memory.blocks.set address contents⟩, by rw [replace, hcell], ?_⟩
  intro other
  rw [cell?, List.getElem?_set]
  split
  next hself =>
    rw [if_pos hself.symm, if_pos (lt_of_cell? hcell)]
    rfl
  next hother => rw [if_neg (Ne.symm hother), cell?]

end Memory

/-! ## Linked lists -/

/-- The cells reached from a pointer by following `next`, ending at `NULL`. -/
def Linked (next : Cell → Option Address) (memory : Memory Cell) :
    Option Address → List (Address × Cell) → Prop
  | start, [] => start = none
  | start, node :: rest =>
      start = some node.1 ∧ memory.cell? node.1 = some node.2 ∧
        Linked next memory (next node.2) rest

variable {next : Cell → Option Address} {memory after : Memory Cell}

namespace Linked

theorem cell? {start : Option Address} {nodes : List (Address × Cell)}
    (hlinked : Linked next memory start nodes) :
    ∀ node ∈ nodes, memory.cell? node.1 = some node.2 := by
  induction nodes generalizing start with
  | nil => simp
  | cons node rest ih =>
      rw [List.forall_mem_cons]
      exact ⟨hlinked.2.1, ih hlinked.2.2⟩

/-- A list is as it was where its cells are. -/
theorem congr {start : Option Address} {nodes : List (Address × Cell)}
    (hlinked : Linked next memory start nodes)
    (hsame : ∀ address ∈ nodes.map Prod.fst, after.cell? address = memory.cell? address) :
    Linked next after start nodes := by
  induction nodes generalizing start with
  | nil => exact hlinked
  | cons node rest ih =>
      rw [List.map_cons, List.forall_mem_cons] at hsame
      exact ⟨hlinked.1, hsame.1.trans hlinked.2.1, ih hlinked.2.2 hsame.2⟩

theorem eq_nil_iff {start : Option Address} {nodes : List (Address × Cell)}
    (hlinked : Linked next memory start nodes) : nodes = [] ↔ start = none := by
  cases nodes with
  | nil => exact iff_of_true rfl hlinked
  | cons node rest =>
      rw [hlinked.1]
      simp

/-- The cell behind a link of the list is the next one of the list. -/
theorem mem_of_next {start : Option Address} {nodes : List (Address × Cell)}
    (hlinked : Linked next memory start nodes) {node : Address × Cell} (hnode : node ∈ nodes)
    {target : Address} (hnext : next node.2 = some target) : target ∈ nodes.map Prod.fst := by
  induction nodes generalizing start with
  | nil => simp at hnode
  | cons head rest ih =>
      rw [List.map_cons, List.mem_cons]
      rcases List.mem_cons.mp hnode with rfl | hrest
      · have htail := hlinked.2.2
        rw [hnext] at htail
        cases rest with
        | nil => exact absurd htail (Option.some_ne_none _)
        | cons second rest =>
            rw [Option.some.inj htail.1, List.map_cons]
            exact .inr List.mem_cons_self
      · exact .inr (ih hlinked.2.2 hrest)

/-- Redirecting the last cell's link to a cell without one appends that cell. -/
theorem append {start : Option Address} {front : List (Address × Cell)}
    {last fresh : Address × Cell} {cell : Cell}
    (hlinked : Linked next memory start (front ++ [last]))
    (hsame : ∀ address ∈ front.map Prod.fst, after.cell? address = memory.cell? address)
    (hlast : after.cell? last.1 = some cell) (hnext : next cell = some fresh.1)
    (hfresh : after.cell? fresh.1 = some fresh.2) (hend : next fresh.2 = none) :
    Linked next after start (front ++ [(last.1, cell), fresh]) := by
  induction front generalizing start with
  | nil => exact ⟨hlinked.1, hlast, hnext, hfresh, hend⟩
  | cons node front ih =>
      rw [List.map_cons, List.forall_mem_cons] at hsame
      exact ⟨hlinked.1, hsame.1.trans hlinked.2.1, ih hlinked.2.2 hsame.2⟩

end Linked

end CcCvStore.Heap
