import Mathlib.Tactic.Common

/-!
# Last-writer-wins maps

What a key maps to after a history of writes: the value of the last `put` of the
key, unless the key was erased after it.  A history lists the newest write
first.
-/

namespace CcCvStore.WriteHistory

variable {Key Value : Type*}

inductive Write (Key Value : Type*) where
  | put (key : Key) (value : Value)
  | erase (key : Key)
  deriving DecidableEq

def Write.key : Write Key Value → Key
  | put key _ => key
  | erase key => key

/-- What the write leaves its key with. -/
def Write.value? : Write Key Value → Option Value
  | put _ value => some value
  | erase _ => none

variable [DecidableEq Key]

/-- The value of a key after a history of writes. -/
def current : List (Write Key Value) → Key → Option Value
  | [], _ => none
  | write :: older, key => if key = write.key then write.value? else current older key

theorem current_cons (write : Write Key Value) (older : List (Write Key Value)) (key : Key) :
    current (write :: older) key =
      if key = write.key then write.value? else current older key := rfl

theorem current_put (key : Key) (value : Value) (older : List (Write Key Value)) (other : Key) :
    current (.put key value :: older) other =
      if other = key then some value else current older other := rfl

theorem current_cons_self (write : Write Key Value) (older : List (Write Key Value)) :
    current (write :: older) write.key = write.value? := if_pos rfl

theorem current_cons_of_ne {write : Write Key Value} {key : Key} (hkey : key ≠ write.key)
    (older : List (Write Key Value)) :
    current (write :: older) key = current older key := if_neg hkey

/-- Writes to other keys do not count. -/
theorem current_append_of_ne {newer : List (Write Key Value)} {key : Key}
    (hother : ∀ write ∈ newer, key ≠ write.key) (older : List (Write Key Value)) :
    current (newer ++ older) key = current older key := by
  induction newer with
  | nil => rfl
  | cons write newer ih =>
      rw [List.cons_append, current_cons_of_ne (hother write List.mem_cons_self)]
      exact ih fun other hmem => hother other (List.mem_cons_of_mem _ hmem)

/-- Where nothing was erased, the keys with a value are the keys written. -/
theorem current_ne_none_iff {history : List (Write Key Value)}
    (hput : ∀ write ∈ history, write.value? ≠ none) (key : Key) :
    current history key ≠ none ↔ key ∈ history.map Write.key := by
  induction history with
  | nil => exact iff_of_false (fun hne => hne rfl) List.not_mem_nil
  | cons write older ih =>
      rw [List.map_cons, List.mem_cons, current_cons]
      by_cases hkey : key = write.key
      · rw [if_pos hkey]
        exact iff_of_true (hput write List.mem_cons_self) (.inl hkey)
      · rw [if_neg hkey, ih fun other hmem => hput other (List.mem_cons_of_mem _ hmem)]
        exact (or_iff_right hkey).symm

/-- A key has a value exactly when that value was put last. -/
theorem current_eq_some_iff {history : List (Write Key Value)} {key : Key} {value : Value} :
    current history key = some value ↔
      ∃ newer older, history = newer ++ .put key value :: older ∧
        ∀ write ∈ newer, key ≠ write.key := by
  constructor
  · intro hcurrent
    induction history with
    | nil => contradiction
    | cons write history ih =>
        rw [current_cons] at hcurrent
        by_cases hkey : key = write.key
        · rw [if_pos hkey] at hcurrent
          cases write with
          | put other stored =>
              cases hcurrent
              cases hkey
              exact ⟨[], history, rfl, by simp⟩
          | erase other => contradiction
        · rw [if_neg hkey] at hcurrent
          obtain ⟨newer, older, hsplit, hother⟩ := ih hcurrent
          refine ⟨write :: newer, older, by rw [hsplit, List.cons_append], ?_⟩
          intro other hmem
          rcases List.mem_cons.mp hmem with rfl | htail
          · exact hkey
          · exact hother other htail
  · rintro ⟨newer, older, rfl, hother⟩
    rw [current_append_of_ne hother]
    exact current_cons_self _ _

end CcCvStore.WriteHistory
