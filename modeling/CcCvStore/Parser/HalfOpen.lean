import CcCvStore.Core.Slice
import CcCvStore.Parser.StrSlice

/-!
# `str_slice` as half-open slicing

Indexes of `str_slice` may count from the start of the string or from its end.
As long as both count from the same end, the offset and the number of bytes are
those of integer arithmetic, and what is copied is the half-open slice.
-/

namespace CcCvStore.HalfOpen

open CcCvStore.Effect
open CcCvStore.CInteger
open CcCvStore.CString
open CcCvStore.Slice
open CcCvStore.StrSlice

/-! ## The index arithmetic -/

/-- The bytes asked for: from the end, those of the slice; from the start, the
distance of the indexes, which may reach past the end of the string. -/
def asked (strLen : Nat) (sliceFrom sliceTo : Int) : Nat :=
  if 0 ≤ sliceFrom then (sliceTo - sliceFrom).toNat
  else position strLen sliceTo - position strLen sliceFrom

theorem cut_of_neg {strLen : Nat} {sliceFrom sliceTo : Int} (hpos : 0 < strLen)
    (hmax : (strLen : Int) ≤ intMax) (horder : sliceFrom < sliceTo) (hfrom : intMin < sliceFrom)
    (hto : sliceTo < 0) :
    cut strLen sliceFrom sliceTo =
      .ok (if (strLen + sliceTo).toNat = 0 then none
        else some ((strLen + sliceFrom).toNat,
          (strLen + sliceTo).toNat - (strLen + sliceFrom).toNat)) := by
  have hnegFrom : sliceFrom < 0 := by omega
  have hminFrom : -sliceFrom ≤ intMax := by
    simp only [intMin, intMax] at *
    omega
  rw [cut, if_pos ⟨hto, horder⟩, cAbs_of_neg (by omega) hto, ok_bind, cAbs_of_neg hfrom hnegFrom,
    ok_bind, toSize_of_nonneg (by omega) (by omega), toSize_of_nonneg (by omega) hminFrom,
    sizeSub_of_le hpos]
  by_cases hbefore : (strLen + sliceTo).toNat = 0
  · rw [if_pos (by omega), if_pos hbefore]
    rfl
  · -- the start that is stored back is the index itself or minus the length
    have hclamped : (if (-sliceFrom).toNat > strLen then toInt (-(strLen : Int)) else sliceFrom) =
        (strLen + sliceFrom).toNat - strLen := by
      split
      · rw [toInt_of_range (by simp only [intMin, intMax] at *; omega) (by omega)]
        omega
      · omega
    have hlength : intResult (sliceTo - ((strLen + sliceFrom).toNat - strLen)) =
        .ok (sliceTo - ((strLen + sliceFrom).toNat - strLen)) :=
      intResult_of_range (by simp only [intMin]; omega) (by omega)
    rw [if_neg (by omega), if_neg hbefore, hclamped]
    dsimp only
    rw [hlength, ok_bind, toSize_of_nonneg (by omega) (by omega),
      toSize_of_nonneg (by omega) (by omega)]
    congr 3
    · omega
    · omega

/-- An `int` that `str_slice` can negate. -/
structure IsIndex (index : Int) : Prop where
  low : intMin < index
  high : index ≤ intMax

theorem asked_le {strLen : Nat} (hmax : (strLen : Int) ≤ intMax) {sliceTo : Int}
    (hto : IsIndex sliceTo) (sliceFrom : Int) :
    asked strLen sliceFrom sliceTo ≤ ptrdiffMax := by
  have hstop := position_le strLen sliceTo
  have hhigh := hto.high
  simp only [intMax, ptrdiffMax] at *
  unfold asked
  split <;> omega

section SameSign

variable {sliceFrom sliceTo : Int} (hsame : 0 ≤ sliceFrom ↔ 0 ≤ sliceTo)

include hsame

/-- `str_slice` finds a slice exactly when it is not empty, from its position. -/
theorem cut_eq {strLen : Nat} (hpos : 0 < strLen) (hmax : (strLen : Int) ≤ intMax)
    (hfrom : IsIndex sliceFrom) (hto : IsIndex sliceTo) :
    cut strLen sliceFrom sliceTo =
      .ok (if position strLen sliceTo ≤ position strLen sliceFrom then none
        else some (position strLen sliceFrom, asked strLen sliceFrom sliceTo)) := by
  by_cases horder : sliceFrom < sliceTo
  · by_cases hnonneg : 0 ≤ sliceFrom
    · have hnonnegTo := hsame.mp hnonneg
      rw [cut_of_nonneg hpos horder hnonneg hto.high, position_of_nonneg _ hnonneg,
        position_of_nonneg _ hnonnegTo, asked, if_pos hnonneg]
      by_cases hbeyond : strLen ≤ sliceFrom.toNat
      · rw [if_pos hbeyond, if_pos (by omega)]
      · rw [if_neg hbeyond, if_neg (by omega), Nat.min_eq_left (by omega)]
    · have hneg : sliceFrom < 0 := by omega
      have hnegTo : sliceTo < 0 := by omega
      rw [cut_of_neg hpos hmax horder hfrom.low hnegTo, asked, if_neg hnonneg,
        position_of_neg _ hneg, position_of_neg _ hnegTo]
      by_cases hbefore : (strLen + sliceTo).toNat = 0
      · rw [if_pos hbefore, if_pos (by omega)]
      · rw [if_neg hbefore, if_neg (by omega)]
  · have hle : sliceTo ≤ sliceFrom := by omega
    rw [cut_of_le hle, if_pos (position_mono strLen hsame.symm hle)]

/-- What is asked for and there is the slice. -/
theorem take_asked_drop (items : List Byte) :
    (items.drop (position items.length sliceFrom)).take (asked items.length sliceFrom sliceTo) =
      slice items sliceFrom sliceTo := by
  by_cases hnonneg : 0 ≤ sliceFrom
  · rw [asked, if_pos hnonneg, slice_of_nonneg items hnonneg (hsame.mp hnonneg)]
  · rw [asked, if_neg hnonneg, slice_eq_take_drop]

end SameSign

/-! ## The slice -/

/-- A result of `str_slice` is the slice: `NULL` for an empty one, and otherwise
a copy of as many bytes as the indexes ask for, from where the slice starts. -/
structure IsHalfOpen (str : Buf) (sliceFrom sliceTo : Int) (beyond : List Byte) (result : Ptr) :
    Prop where
  none_iff : result = none ↔ slice (text str.memory) sliceFrom sliceTo = []
  content_eq : ∀ buf, result = some buf → buf.content = slice (text str.memory) sliceFrom sliceTo
  cut_eq : slice (text str.memory) sliceFrom sliceTo ≠ [] →
    cut (text str.memory).length sliceFrom sliceTo =
      .ok (some (position (text str.memory).length sliceFrom,
        asked (text str.memory).length sliceFrom sliceTo))
  copied : slice (text str.memory) sliceFrom sliceTo ≠ [] →
    cut (text str.memory).length sliceFrom sliceTo >>= copyCut str beyond = .ok result

theorem isHalfOpen_none {str : Buf} {sliceFrom sliceTo : Int}
    (hempty : slice (text str.memory) sliceFrom sliceTo = []) (beyond : List Byte) :
    IsHalfOpen str sliceFrom sliceTo beyond none where
  none_iff := iff_of_true rfl hempty
  content_eq _ hnone := absurd hnone.symm (Option.some_ne_none _)
  cut_eq hne := absurd hempty hne
  copied hne := absurd hempty hne

/-- With two indexes that count from the same end, `str_slice` is half-open
slicing. -/
theorem strSlice_isHalfOpen (str : Buf) (hnul : 0 ∈ str.memory)
    (hmax : ((text str.memory).length : Int) ≤ intMax) (sliceFrom sliceTo : Int)
    (hfrom : IsIndex sliceFrom) (hto : IsIndex sliceTo) (hsame : 0 ≤ sliceFrom ↔ 0 ≤ sliceTo)
    (beyond : List Byte) :
    ∃ result, strSlice str sliceFrom sliceTo beyond = .ok result ∧
      IsHalfOpen str sliceFrom sliceTo beyond result := by
  by_cases htext : text str.memory = []
  · have hempty : slice (text str.memory) sliceFrom sliceTo = [] := by
      rw [slice_eq_take_drop, htext, List.drop_nil, List.take_nil]
    exact ⟨none, strSlice_of_text_nil hnul htext sliceFrom sliceTo beyond,
      isHalfOpen_none hempty beyond⟩
  have hcut := cut_eq hsame (List.length_pos_iff.mpr htext) hmax hfrom hto
  have hslice := strSlice_eq_cut hnul htext sliceFrom sliceTo beyond
  by_cases hempty : slice (text str.memory) sliceFrom sliceTo = []
  · rw [hcut, if_pos (slice_eq_nil_iff.mp hempty)] at hslice
    exact ⟨none, hslice, isHalfOpen_none hempty beyond⟩
  · rw [if_neg (mt slice_eq_nil_iff.mpr hempty)] at hcut
    have hcopy := copyCut_some hnul (position_le _ sliceFrom) (asked_le hmax hto sliceFrom) beyond
    rw [take_asked_drop hsame] at hcopy
    have hzero : 0 ∉ slice (text str.memory) sliceFrom sliceTo := fun hmem =>
      zero_notMem_text str.memory (mem_of_mem_slice hmem)
    rw [hcut, ok_bind, hcopy] at hslice
    refine ⟨_, hslice, iff_of_false (Option.some_ne_none _) hempty, ?_, fun _ => hcut, ?_⟩
    · intro buf heq
      cases heq
      exact text_padded hzero _
    · intro _
      rw [hcut, ok_bind, hcopy]

/-- "Hello" from the third byte from its end to before the last. -/
theorem strSlice_isHalfOpen_hello :
    ∃ result, strSlice (Buf.ofString [72, 101, 108, 108, 111] []) (-3) (-1) [] = .ok result ∧
      IsHalfOpen (Buf.ofString [72, 101, 108, 108, 111] []) (-3) (-1) [] result :=
  strSlice_isHalfOpen (Buf.ofString [72, 101, 108, 108, 111] []) (by decide) (by decide) (-3) (-1)
    ⟨by decide, by decide⟩ ⟨by decide, by decide⟩ (by decide) []

end CcCvStore.HalfOpen
