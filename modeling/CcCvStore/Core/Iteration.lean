import Mathlib.Tactic.Common

/-!
# Iterators

A call of `next` says whether there was another item and moves the iterator,
which then holds the item.  An iterator takes its items from a list when each
call takes the first of those that remain.  It then yields the list in order,
each element once, and after that nothing.
-/

namespace CcCvStore.Iteration

variable {Iterator Item : Type*} (next : Iterator → Bool × Iterator)

/-- The iterator after a number of calls. -/
def afterCalls (start : Iterator) : Nat → Iterator
  | 0 => start
  | calls + 1 => (next (afterCalls start calls)).2

/-- What call number `n`, the first being number 0, returns. -/
def returns (start : Iterator) (n : Nat) : Bool := (next (afterCalls next start n)).1

/-- The item the iterator holds after call number `n`, if that returned true. -/
def yielded (item : Iterator → Option Item) (start : Iterator) (n : Nat) : Option Item :=
  if returns next start n then item (afterCalls next start (n + 1)) else none

/-- Each call takes the first of the items that remain. -/
structure TakesFirst (item : Iterator → Option Item) (remaining : Iterator → List Item) :
    Prop where
  returns_iff : ∀ it, (next it).1 = true ↔ remaining it ≠ []
  item_eq : ∀ it, (next it).1 = true → item (next it).2 = (remaining it).head?
  remaining_eq : ∀ it, remaining (next it).2 = (remaining it).tail

variable {next} {item : Iterator → Option Item} {remaining : Iterator → List Item}

theorem TakesFirst.remaining_afterCalls (htakes : TakesFirst next item remaining)
    (start : Iterator) (n : Nat) :
    remaining (afterCalls next start n) = (remaining start).drop n := by
  induction n with
  | zero => rfl
  | succ n ih => rw [afterCalls, htakes.remaining_eq, ih, List.tail_drop]

/-- A call returns true exactly while there are items. -/
theorem TakesFirst.returns_eq (htakes : TakesFirst next item remaining) (start : Iterator)
    (n : Nat) : returns next start n = decide (n < (remaining start).length) := by
  rw [Bool.eq_iff_iff, returns, htakes.returns_iff, htakes.remaining_afterCalls,
    decide_eq_true_iff, ne_eq, List.drop_eq_nil_iff, Nat.not_le]

theorem TakesFirst.yielded_eq (htakes : TakesFirst next item remaining) (start : Iterator)
    (n : Nat) : yielded next item start n = (remaining start)[n]? := by
  by_cases hn : n < (remaining start).length
  · have hreturns : returns next start n = true := by
      rw [htakes.returns_eq, decide_eq_true hn]
    rw [yielded, if_pos hreturns, afterCalls, htakes.item_eq _ hreturns,
      htakes.remaining_afterCalls, List.head?_drop]
  · have hreturns : ¬returns next start n = true := by
      rw [htakes.returns_eq, decide_eq_true_iff]
      exact hn
    rw [yielded, if_neg hreturns, List.getElem?_eq_none (Nat.le_of_not_lt hn)]

end CcCvStore.Iteration
