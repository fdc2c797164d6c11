import Mathlib.Tactic.Common

/-!
# Half-open slices

An index counts from the start of a sequence or, when it is negative, from its
end, and is clamped to the sequence.  A slice runs from the position of one index
to just before that of another.
-/

namespace CcCvStore.Slice

variable {α : Type*}

/-- Where an index points to in a sequence of some length. -/
def position (length : Nat) (index : Int) : Nat :=
  if 0 ≤ index then min index.toNat length else (length + index).toNat

def slice (items : List α) (start stop : Int) : List α :=
  items.extract (position items.length start) (position items.length stop)

theorem position_of_nonneg (length : Nat) {index : Int} (hindex : 0 ≤ index) :
    position length index = min index.toNat length := if_pos hindex

theorem position_of_neg (length : Nat) {index : Int} (hindex : index < 0) :
    position length index = (length + index).toNat := if_neg (Int.not_le.mpr hindex)

theorem position_le (length : Nat) (index : Int) : position length index ≤ length := by
  unfold position
  split <;> omega

/-- Indexes that count from the same end point in their order. -/
theorem position_mono (length : Nat) {start stop : Int} (hsame : 0 ≤ start ↔ 0 ≤ stop)
    (hle : start ≤ stop) : position length start ≤ position length stop := by
  unfold position
  split <;> split <;> omega

theorem slice_eq_take_drop (items : List α) (start stop : Int) :
    slice items start stop = (items.drop (position items.length start)).take
      (position items.length stop - position items.length start) := List.extract_eq_take_drop

theorem slice_eq_nil_iff {items : List α} {start stop : Int} :
    slice items start stop = [] ↔
      position items.length stop ≤ position items.length start := by
  have hstop := position_le items.length stop
  rw [slice_eq_take_drop, List.take_eq_nil_iff, List.drop_eq_nil_iff]
  omega

theorem mem_of_mem_slice {items : List α} {start stop : Int} {item : α}
    (hmem : item ∈ slice items start stop) : item ∈ items := by
  rw [slice_eq_take_drop] at hmem
  exact List.mem_of_mem_drop (List.mem_of_mem_take hmem)

/-- A slice between indexes from the start: asking for the items between two
indexes, one may ask for more than there are. -/
theorem slice_of_nonneg (items : List α) {start stop : Int} (hstart : 0 ≤ start)
    (hstop : 0 ≤ stop) :
    slice items start stop =
      (items.drop (position items.length start)).take (stop - start).toNat := by
  rw [slice_eq_take_drop, List.take_eq_take_iff, List.length_drop,
    position_of_nonneg _ hstart, position_of_nonneg _ hstop]
  omega

end CcCvStore.Slice
