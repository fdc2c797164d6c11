import CcCvStore.Core.Effect
import CcCvStore.Core.Heap
import Mathlib.Logic.Function.Basic

/-!
# The task queue

The linked list of `sts_queue.c`, and the threads that share one queue.  The
mutex makes a critical section one step; what `push` does before it takes the
lock is a step of its own.
-/

namespace CcCvStore.StsQueue

open CcCvStore.Effect
open CcCvStore.Heap

variable {Value : Type}

structure StsElement (Value : Type) where
  next : Option Address
  value : Option Value
  deriving DecidableEq

structure StsHeader where
  head : Option Address
  tail : Option Address
  deriving DecidableEq

/-- A header together with the memory its elements are in. -/
structure Queue (Value : Type) where
  header : StsHeader
  memory : Memory (StsElement Value)
  deriving DecidableEq

/-! ## The operations -/

def create : Queue Value := ⟨⟨none, none⟩, ⟨[]⟩⟩

/-- `push` up to the lock: the element is allocated and filled in. -/
def newElement (queue : Queue Value) (elem : Option Value) : Address × Queue Value :=
  let (element, memory) := queue.memory.malloc { next := none, value := elem }
  (element, { queue with memory := memory })

/-- The critical section of `push`. -/
def pushLocked (queue : Queue Value) (element : Address) : Except HeapFault (Queue Value) :=
  match queue.header.head with
  | none => .ok { queue with header := ⟨some element, some element⟩ }
  | some _ => do
      let oldTail ← deref queue.header.tail
      let cell ← queue.memory.load oldTail
      let memory ← queue.memory.store oldTail { cell with next := some element }
      return { header := { queue.header with tail := some element }, memory := memory }

def pop (queue : Queue Value) : Except HeapFault (Option Value × Queue Value) :=
  match queue.header.head with
  | none => .ok (none, queue)
  | some head => do
      let cell ← queue.memory.load head
      let memory ← queue.memory.free head
      -- `tail` stays as it is, also where it points to the element freed here
      return (cell.value, { header := { queue.header with head := cell.next }, memory := memory })

/-! ## What the operations do to the list -/

/-- The queue holds the values `waiting`, in the elements `nodes`. -/
structure Represents (queue : Queue Value) (nodes : List (Address × StsElement Value))
    (waiting : List Value) : Prop where
  linked : Linked StsElement.next queue.memory queue.header.head nodes
  nodup : (nodes.map Prod.fst).Nodup
  /-- Where there is an element, `tail` is the last one. -/
  tail : nodes ≠ [] → queue.header.tail = (nodes.map Prod.fst).getLast?
  values : nodes.map (fun node => node.2.value) = waiting.map some

theorem represents_create : Represents (create : Queue Value) [] [] where
  linked := rfl
  nodup := List.nodup_nil
  tail := fun hne => absurd rfl hne
  values := rfl

/-- Memory outside the list does not count. -/
theorem Represents.congr {queue after : Queue Value} {nodes : List (Address × StsElement Value)}
    {waiting : List Value} (hrep : Represents queue nodes waiting)
    (hheader : after.header = queue.header)
    (hsame : ∀ address ∈ nodes.map Prod.fst,
      after.memory.cell? address = queue.memory.cell? address) :
    Represents after nodes waiting where
  linked := by
    rw [hheader]
    exact hrep.linked.congr hsame
  nodup := hrep.nodup
  tail := by
    rw [hheader]
    exact hrep.tail
  values := hrep.values

theorem Represents.nodes_nil_iff {queue : Queue Value}
    {nodes : List (Address × StsElement Value)} {waiting : List Value}
    (hrep : Represents queue nodes waiting) : nodes = [] ↔ waiting = [] := by
  have hlength := congrArg List.length hrep.values
  rw [List.length_map, List.length_map] at hlength
  rw [← List.length_eq_zero_iff, ← List.length_eq_zero_iff, hlength]

/-- The first element of an empty queue, whatever `tail` was left as. -/
theorem Represents.link_empty {queue : Queue Value} {waiting : List Value}
    (hrep : Represents queue [] waiting) {element : Address} {elem : Value}
    (hcell : queue.memory.cell? element = some ⟨none, some elem⟩) :
    Represents { queue with header := ⟨some element, some element⟩ }
      [(element, ⟨none, some elem⟩)] (waiting ++ [elem]) where
  linked := ⟨rfl, hcell, rfl⟩
  nodup := List.nodup_singleton _
  tail := fun _ => rfl
  values := by
    rw [hrep.nodes_nil_iff.mp rfl]
    rfl

theorem Represents.tail_eq_last {queue : Queue Value}
    {front : List (Address × StsElement Value)} {last : Address × StsElement Value}
    {waiting : List Value} (hrep : Represents queue (front ++ [last]) waiting) :
    queue.header.tail = some last.1 := by
  rw [hrep.tail (List.append_ne_nil_of_right_ne_nil _ (List.cons_ne_nil _ _)), List.map_append,
    List.map_cons, List.map_nil, List.getLast?_concat]

/-- The last element linked to one off the list. -/
theorem Represents.link_last {queue : Queue Value}
    {front : List (Address × StsElement Value)} {last : Address × StsElement Value}
    {waiting : List Value} (hrep : Represents queue (front ++ [last]) waiting)
    {element : Address} {elem : Value}
    (hcell : queue.memory.cell? element = some ⟨none, some elem⟩)
    (hoff : element ∉ (front ++ [last]).map Prod.fst) {memory : Memory (StsElement Value)}
    (hmemory : ∀ other, memory.cell? other =
      if other = last.1 then some { last.2 with next := some element }
      else queue.memory.cell? other) :
    Represents ⟨{ queue.header with tail := some element }, memory⟩
      (front ++ [(last.1, { last.2 with next := some element }), (element, ⟨none, some elem⟩)])
      (waiting ++ [elem]) := by
  have hnodup := hrep.nodup
  rw [List.map_append, List.map_cons, List.map_nil] at hoff hnodup
  have hfront : last.1 ∉ front.map Prod.fst := by
    intro hmem
    exact (List.disjoint_of_nodup_append hnodup) hmem (List.mem_singleton_self _)
  have hself : element ≠ last.1 := fun heq => hoff (by rw [heq]; simp)
  exact {
    linked := by
      apply hrep.linked.append _ _ rfl _ rfl
      · intro address hmem
        rw [hmemory, if_neg]
        rintro rfl
        exact hfront hmem
      · rw [hmemory, if_pos rfl]
      · rw [hmemory, if_neg hself, hcell]
    nodup := by
      rw [List.map_append, List.map_cons, List.map_cons, List.map_nil,
        List.append_cons _ last.1 [element]]
      exact List.nodup_append_comm.mp (List.nodup_cons.mpr ⟨hoff, hnodup⟩)
    tail := fun _ => by simp
    values := by
      have hvalues := hrep.values
      rw [List.map_append] at hvalues
      rw [List.map_append, List.map_append, ← hvalues, List.append_assoc]
      rfl }

/-- An element off the list is appended with its value. -/
theorem pushLocked_of_represents {queue : Queue Value}
    {nodes : List (Address × StsElement Value)} {waiting : List Value}
    (hrep : Represents queue nodes waiting) {element : Address} {elem : Value}
    (hcell : queue.memory.cell? element = some ⟨none, some elem⟩)
    (hoff : element ∉ nodes.map Prod.fst) :
    ∃ after nodes', pushLocked queue element = .ok after ∧
      Represents after nodes' (waiting ++ [elem]) ∧
      nodes'.map Prod.fst = nodes.map Prod.fst ++ [element] ∧
      ∀ other, other ∉ nodes.map Prod.fst →
        after.memory.cell? other = queue.memory.cell? other := by
  rcases List.eq_nil_or_concat nodes with rfl | ⟨front, last, hsplit⟩
  · have hempty : queue.header.head = none := hrep.linked
    exact ⟨{ queue with header := ⟨some element, some element⟩ }, _, by rw [pushLocked, hempty],
      hrep.link_empty hcell, rfl, fun _ _ => rfl⟩
  · rw [List.concat_eq_append] at hsplit
    subst hsplit
    have hlast := hrep.linked.cell? last (List.mem_append_right _ List.mem_cons_self)
    obtain ⟨memory, hstore, hmemory⟩ :=
      Memory.replace_of_cell? hlast (some { last.2 with next := some element })
    have hresult : pushLocked queue element =
        .ok ⟨{ queue.header with tail := some element }, memory⟩ := by
      cases hhead : queue.header.head with
      | none =>
          exact absurd (hrep.linked.eq_nil_iff.mpr hhead)
            (List.append_ne_nil_of_right_ne_nil _ (List.cons_ne_nil _ _))
      | some head =>
          simp only [pushLocked, hhead, hrep.tail_eq_last, deref, Memory.load_of_cell? hlast,
            Memory.store, hstore, ok_bind]
          rfl
    refine ⟨_, _, hresult, hrep.link_last hcell hoff hmemory, by simp, ?_⟩
    intro other hother
    rw [hmemory, if_neg]
    rintro rfl
    exact hother (by simp)

theorem pop_of_represents_nil {queue : Queue Value}
    {nodes : List (Address × StsElement Value)} (hrep : Represents queue nodes []) :
    pop queue = .ok (none, queue) := by
  have hnodes := hrep.nodes_nil_iff.mpr rfl
  rw [pop, hrep.linked.eq_nil_iff.mp hnodes]

/-- The first value leaves with its element, and nothing else changes. -/
theorem pop_of_represents_cons {queue : Queue Value}
    {nodes : List (Address × StsElement Value)} {first : Value} {waiting : List Value}
    (hrep : Represents queue nodes (first :: waiting)) :
    ∃ node rest after, nodes = node :: rest ∧ node.2.value = some first ∧
      pop queue = .ok (some first, after) ∧ Represents after rest waiting ∧
      ∀ other, after.memory.cell? other =
        if other = node.1 then none else queue.memory.cell? other := by
  cases nodes with
  | nil => exact absurd (hrep.nodes_nil_iff.mp rfl) (List.cons_ne_nil _ _)
  | cons node rest =>
      obtain ⟨hhead, hcell, hrest⟩ := hrep.linked
      obtain ⟨memory, hfree, hmemory⟩ := Memory.replace_of_cell? hcell none
      have hvalues := hrep.values
      rw [List.map_cons, List.map_cons, List.cons_eq_cons] at hvalues
      have hnodup := List.nodup_cons.mp hrep.nodup
      have hresult : pop queue =
          .ok (some first, ⟨{ queue.header with head := node.2.next }, memory⟩) := by
        simp only [pop, hhead, Memory.load_of_cell? hcell, Memory.free, hfree, ok_bind,
          hvalues.1]
        rfl
      refine ⟨node, rest, _, rfl, hvalues.1, hresult, ?_, hmemory⟩
      exact {
        linked := by
          apply hrest.congr
          intro address hmem
          rw [hmemory, if_neg]
          rintro rfl
          exact hnodup.1 hmem
        nodup := hnodup.2
        tail := by
          intro hne
          have hlast := hrep.tail (List.cons_ne_nil _ _)
          rw [List.map_cons, List.getLast?_cons_of_ne_nil (by simpa using hne)] at hlast
          exact hlast
        values := hvalues.2 }

end CcCvStore.StsQueue
