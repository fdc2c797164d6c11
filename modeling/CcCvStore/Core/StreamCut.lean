import Mathlib.Data.List.Forall2

/-!
# Cuts of a stream of frames

A stream of frames reaches its reader in pieces.  Frames here have a mark at
their second place and at their end, and a piece that fits a frame starts with
no mark and is at most one item shorter.  Pieces that fit the frames one by one
are the frames.
-/

namespace CcCvStore.StreamCut

variable {Item Piece Frame Result : Type*}

/-- A first item, the mark, a body and the mark. -/
def IsFrame (mark : Item) (frame : List Item) : Prop :=
  ∃ first body, frame = first :: mark :: (body ++ [mark])

/-- The piece starts with an item that is no mark. -/
def Starts (mark : Item) (piece : List Item) : Prop :=
  ∃ first rest, piece = first :: rest ∧ first ≠ mark

/-- What a piece that stands for a frame looks like. -/
structure Fits (mark : Item) (piece frame : List Item) : Prop where
  isFrame : IsFrame mark frame
  starts : Starts mark piece
  length_le : frame.length ≤ piece.length + 1

/-- Pieces that start with no mark leave no room for one. -/
theorem not_flatten_eq_cons {mark : Item} {pieces : List (List Item)}
    (hstarts : ∀ piece ∈ pieces, Starts mark piece) (rest : List Item) :
    pieces.flatten ≠ mark :: rest := by
  intro hflat
  cases pieces with
  | nil => contradiction
  | cons piece pieces =>
      obtain ⟨first, tail, rfl, hfirst⟩ := hstarts piece List.mem_cons_self
      rw [List.flatten_cons, List.cons_append, List.cons.injEq] at hflat
      exact hfirst hflat.1

theorem starts_of_forall₂ {mark : Item} {pieces frames : List (List Item)}
    (hfits : List.Forall₂ (Fits mark) pieces frames) :
    ∀ piece ∈ pieces, Starts mark piece := by
  induction hfits with
  | nil => exact fun piece hpiece => absurd hpiece List.not_mem_nil
  | cons hfit _ ih =>
      intro piece hpiece
      rcases List.mem_cons.mp hpiece with rfl | hrest
      · exact hfit.starts
      · exact ih piece hrest

/-- A piece that is a frame with some items before it cut off is the frame. -/
theorem Fits.lead_eq_nil {mark : Item} {piece frame lead : List Item}
    (hfit : Fits mark piece frame) (hframe : frame = lead ++ piece) : lead = [] := by
  obtain ⟨first, body, hshape⟩ := hfit.isFrame
  obtain ⟨head, rest, hpiece, hhead⟩ := hfit.starts
  have hlength := hfit.length_le
  rw [hframe, List.length_append] at hlength
  match lead with
  | [] => rfl
  | [_] =>
      rw [hshape, hpiece] at hframe
      simp only [List.singleton_append, List.cons.injEq] at hframe
      exact absurd hframe.2.1.symm hhead
  | _ :: _ :: _ =>
      simp only [List.length_cons] at hlength
      omega

/-- A piece that ends inside its frame leaves the mark to the next piece. -/
theorem Fits.exists_eq_append_mark {mark : Item} {piece frame lead tail : List Item}
    (hfit : Fits mark piece frame) (hframe : frame = lead ++ piece ++ tail) (hne : tail ≠ []) :
    tail = [mark] := by
  obtain ⟨first, body, hshape⟩ := hfit.isFrame
  have hlength := hfit.length_le
  rw [hframe, List.length_append, List.length_append] at hlength
  have hpos := List.length_pos_of_ne_nil hne
  obtain ⟨last, rfl⟩ := List.length_eq_one_iff.mp (show tail.length = 1 by omega)
  have hlast := congrArg List.getLast? (hshape.symm.trans hframe)
  rw [List.getLast?_concat, ← List.cons_append, ← List.cons_append, List.getLast?_concat,
    Option.some.injEq] at hlast
  rw [hlast]

/-- Pieces that fit the frames of a stream and carry it from some item on are
its frames.  The induction keeps what the pieces lag behind as `lead`. -/
theorem lead_eq_nil_and_eq {mark : Item} {pieces frames : List (List Item)}
    (hfits : List.Forall₂ (Fits mark) pieces frames) :
    ∀ lead, frames.flatten = lead ++ pieces.flatten → lead = [] ∧ pieces = frames := by
  induction hfits with
  | nil =>
      intro lead hflat
      exact ⟨(List.append_eq_nil_iff.mp hflat.symm).1, rfl⟩
  | @cons piece frame pieces frames hfit hrest ih =>
      intro lead hflat
      rw [List.flatten_cons, List.flatten_cons, ← List.append_assoc] at hflat
      rcases List.append_eq_append_iff.mp hflat with ⟨late, hlate, hnext⟩ | ⟨tail, htail, hnext⟩
      · obtain ⟨rfl, rfl⟩ := ih late hnext
        rw [List.append_nil] at hlate
        have hlead := hfit.lead_eq_nil hlate.symm
        subst hlead
        exact ⟨rfl, by rw [← hlate, List.nil_append]⟩
      · by_cases hnil : tail = []
        · subst hnil
          rw [List.append_nil] at htail
          obtain ⟨-, rfl⟩ := ih [] hnext.symm
          have hlead := hfit.lead_eq_nil htail
          subst hlead
          exact ⟨rfl, by rw [htail, List.nil_append]⟩
        · rw [hfit.exists_eq_append_mark htail hnil] at hnext
          exact absurd hnext (not_flatten_eq_cons (starts_of_forall₂ hrest) _)

/-- Pieces that fit the frames of a stream one by one and carry the stream are
the frames. -/
theorem eq_of_flatten_eq {mark : Item} {pieces frames : List (List Item)}
    (hfits : List.Forall₂ (Fits mark) pieces frames) (hflat : pieces.flatten = frames.flatten) :
    pieces = frames :=
  (lead_eq_nil_and_eq hfits [] hflat.symm).2

/-! ## One result for each piece -/

theorem length_flatMap_le {results : Piece → List Result}
    (hone : ∀ piece, (results piece).length ≤ 1) (pieces : List Piece) :
    (pieces.flatMap results).length ≤ pieces.length := by
  induction pieces with
  | nil => exact Nat.le_refl 0
  | cons piece pieces ih =>
      rw [List.flatMap_cons, List.length_append, List.length_cons]
      have := hone piece
      omega

/-- When no piece has two results and there are no more pieces than frames,
each piece has the result of its frame. -/
theorem forall₂_of_flatMap_eq {results : Piece → List Result}
    (hone : ∀ piece, (results piece).length ≤ 1) {result : Frame → Result} {pieces : List Piece}
    {frames : List Frame} (hlength : pieces.length ≤ frames.length)
    (hresults : pieces.flatMap results = frames.map result) :
    List.Forall₂ (fun piece frame => results piece = [result frame]) pieces frames := by
  induction pieces generalizing frames with
  | nil =>
      have hnil : frames = [] := List.map_eq_nil_iff.mp hresults.symm
      rw [hnil]
      exact .nil
  | cons piece pieces ih =>
      cases frames with
      | nil => contradiction
      | cons frame frames =>
          have hcount := congrArg List.length hresults
          have hrest := length_flatMap_le hone pieces
          have hfirst := hone piece
          rw [List.flatMap_cons, List.length_append, List.map_cons, List.length_cons,
            List.length_map] at hcount
          rw [List.length_cons, List.length_cons] at hlength
          obtain ⟨only, honly⟩ := List.length_eq_one_iff.mp
            (show (results piece).length = 1 by omega)
          rw [List.flatMap_cons, honly, List.map_cons, List.singleton_append,
            List.cons.injEq] at hresults
          obtain ⟨rfl, htail⟩ := hresults
          exact .cons honly (ih (by omega) htail)

end CcCvStore.StreamCut
