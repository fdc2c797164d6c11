import Mathlib.Data.List.Basic
import Mathlib.Tactic.Common

/-!
# Lines read into a bounded buffer

A reader takes items up to and including the first mark, but never more than a
limit.  The pieces it reads one after the other are the content cut behind
every mark and behind every `limit` items without one.
-/

namespace CcCvStore.TextLines

variable {Item : Type*} [DecidableEq Item] (mark : Item)

/-- What one read takes from the front of `content`. -/
def takeLine : Nat → List Item → List Item
  | 0, _ => []
  | _ + 1, [] => []
  | limit + 1, item :: rest =>
      if item = mark then [item] else item :: takeLine limit rest

variable {mark}

theorem takeLine_isPrefix (limit : Nat) (content : List Item) :
    takeLine mark limit content <+: content := by
  induction limit generalizing content with
  | zero => exact List.nil_prefix
  | succ limit ih =>
      cases content with
      | nil => exact List.nil_prefix
      | cons item rest =>
          rw [takeLine]
          split
          · exact ⟨rest, rfl⟩
          · exact List.cons_prefix_cons.mpr ⟨rfl, ih rest⟩

theorem length_takeLine_le (limit : Nat) (content : List Item) :
    (takeLine mark limit content).length ≤ limit := by
  induction limit generalizing content with
  | zero => exact Nat.le_refl 0
  | succ limit ih =>
      cases content with
      | nil => exact Nat.zero_le _
      | cons item rest =>
          rw [takeLine]
          split
          · exact Nat.succ_le_succ (Nat.zero_le limit)
          · exact Nat.succ_le_succ (ih rest)

theorem takeLine_cons_ne_nil (limit : Nat) (item : Item) (rest : List Item) :
    takeLine mark (limit + 1) (item :: rest) ≠ [] := by
  rw [takeLine]
  split <;> exact List.cons_ne_nil _ _

/-- A complete line that leaves room is taken with its mark. -/
theorem takeLine_of_mark {body : List Item} (hbody : mark ∉ body) {limit : Nat}
    (hlimit : body.length < limit) (rest : List Item) :
    takeLine mark limit (body ++ mark :: rest) = body ++ [mark] := by
  induction body generalizing limit with
  | nil =>
      obtain ⟨limit, rfl⟩ := Nat.exists_eq_add_of_le' hlimit
      exact if_pos rfl
  | cons item body ih =>
      rw [List.mem_cons, not_or] at hbody
      obtain ⟨limit, rfl⟩ := Nat.exists_eq_add_of_le' (Nat.lt_of_le_of_lt (Nat.zero_le _) hlimit)
      have hne : item ≠ mark := fun heq => hbody.1 heq.symm
      rw [List.cons_append, takeLine, if_neg hne, List.cons_append,
        ih hbody.2 (Nat.lt_of_succ_lt_succ hlimit)]

/-! ## All lines -/

variable (mark)

/-- The pieces of a content, each as long as a read with room for `limit + 1`
items makes it. -/
def lines (limit : Nat) (content : List Item) : List (List Item) :=
  match content with
  | [] => []
  | item :: rest =>
      takeLine mark (limit + 1) (item :: rest) ::
        lines limit ((item :: rest).drop (takeLine mark (limit + 1) (item :: rest)).length)
termination_by content.length
decreasing_by
  have hpos := List.length_pos_of_ne_nil (@takeLine_cons_ne_nil _ _ mark limit item rest)
  rw [List.length_drop, List.length_cons]
  omega

variable {mark}

@[simp]
theorem lines_nil (limit : Nat) : lines mark limit [] = [] := by
  rw [lines]

theorem lines_of_ne_nil (limit : Nat) {content : List Item} (hcontent : content ≠ []) :
    lines mark limit content = takeLine mark (limit + 1) content ::
      lines mark limit (content.drop (takeLine mark (limit + 1) content).length) := by
  cases content with
  | nil => exact absurd rfl hcontent
  | cons item rest => rw [lines]

omit [DecidableEq Item] in
theorem length_flatten_le {pieces : List (List Item)} {limit : Nat}
    (hpieces : ∀ piece ∈ pieces, piece.length ≤ limit) :
    pieces.flatten.length ≤ pieces.length * limit := by
  induction pieces with
  | nil => exact Nat.zero_le _
  | cons piece pieces ih =>
      rw [List.forall_mem_cons] at hpieces
      have hrest := ih hpieces.2
      rw [List.flatten_cons, List.length_append, List.length_cons, Nat.succ_mul, Nat.add_comm]
      exact Nat.add_le_add hrest hpieces.1

/-- Complete lines that fit are read one by one. -/
theorem lines_flatten_append {limit : Nat} {bodies : List (List Item)}
    (hmark : ∀ body ∈ bodies, mark ∉ body) (hlength : ∀ body ∈ bodies, body.length ≤ limit)
    (rest : List Item) :
    lines mark limit ((bodies.map (· ++ [mark])).flatten ++ rest) =
      bodies.map (· ++ [mark]) ++ lines mark limit rest := by
  induction bodies with
  | nil => rfl
  | cons body bodies ih =>
      rw [List.forall_mem_cons] at hmark hlength
      have hcontent : ((body :: bodies).map (· ++ [mark])).flatten ++ rest =
          body ++ mark :: ((bodies.map (· ++ [mark])).flatten ++ rest) := by
        rw [List.map_cons, List.flatten_cons, List.append_assoc, List.append_assoc]
        rfl
      have hne : body ++ mark :: ((bodies.map (· ++ [mark])).flatten ++ rest) ≠ [] :=
        List.append_ne_nil_of_right_ne_nil _ (List.cons_ne_nil _ _)
      have hdrop : (body ++ mark :: ((bodies.map (· ++ [mark])).flatten ++ rest)).drop
          (body ++ [mark]).length = (bodies.map (· ++ [mark])).flatten ++ rest := by
        rw [List.append_cons body mark (_ ++ rest), List.drop_left]
      rw [hcontent, lines_of_ne_nil limit hne,
        takeLine_of_mark hmark.1 (Nat.lt_succ_of_le hlength.1), hdrop, ih hmark.2 hlength.2]
      rfl

end CcCvStore.TextLines
