import CcCvStore.Config.IniText

/-!
# The parser in place and the parser on texts

The code of `ini.c` does to its buffers what the lines of the file mean.
-/

namespace CcCvStore.Ini

open CcCvStore.CInteger
open CcCvStore.CString
open CcCvStore.Effect
open CcCvStore.TextLines

variable {User : Type} {handler : Handler User}

/-- A `char` array holds a string and its NUL. -/
structure Holds (array : List Byte) (size : Nat) (bytes : List Byte) : Prop where
  length_eq : array.length = size
  zero_notMem : 0 ∉ bytes
  exists_eq : ∃ rest, array = bytes ++ 0 :: rest

theorem Holds.arrayStr_eq {array bytes : List Byte} {size : Nat}
    (hholds : Holds array size bytes) : arrayStr array = .ok ⟨bytes, hholds.zero_notMem⟩ := by
  obtain ⟨_, hnul, rest, rfl⟩ := hholds
  exact arrayStr_append_zero hnul rest

/-- The local variables of the parser stand for a scope. -/
structure Agrees (locals : Locals User) (scope : Scope) : Prop where
  length_line : locals.line.length = iniMaxLine
  sectionName : Holds locals.sectionName maxSection scope.sectionName
  prevName : Holds locals.prevName maxName scope.prevName

/-- The verdict on a line, with the number of the first line rejected. -/
def Locals.settle (locals : Locals User) (good : Bool) (user : User) : Locals User :=
  if good then { locals with user } else { locals with user }.fail

/-- What the code did in a line is what the line means. -/
def Does (handler : Handler User) (locals : Locals User) (scope : Scope) (line : Line)
    (result : Except Fault (Locals User)) : Prop :=
  ∃ after : Locals User, Agrees after (scope.after line) ∧ after.lineno = locals.lineno ∧
    after.error = locals.error ∧
    result = (verdict handler locals.user (scope.outcome line)).map
      fun (good, user) => after.settle good user

theorem strncpy0_holds {array body : List Byte} {size : Nat} (hlength : array.length = size)
    (hsize : sizeSub size 1 + 1 = size) (hnul : 0 ∉ body) (rest : List Byte) :
    ∃ after, strncpy0 array (body ++ 0 :: rest) size = .ok after ∧
      Holds after size (body.take (sizeSub size 1)) := by
  have htail : array.length = sizeSub size 1 + 1 := hlength.trans hsize.symm
  obtain ⟨after, hcopy, hafter⟩ := @strncpy0From_append [] array body (sizeSub size 1) size htail
    (Nat.zero_add _).symm hnul rest
  exact ⟨_, hcopy, hafter.trans hlength, fun hmem => hnul (List.mem_of_mem_take hmem), after, rfl⟩

theorem readByte_holds {array bytes : List Byte} {size : Nat} (hholds : Holds array size bytes) :
    ∃ first, readByte array 0 = .ok first ∧ (first ≠ 0 ↔ bytes ≠ []) := by
  obtain ⟨rest, harray⟩ := hholds.exists_eq
  cases bytes with
  | nil => exact ⟨0, by rw [harray]; rfl, iff_of_false (fun hne => hne rfl) (fun hne => hne rfl)⟩
  | cons first bytes =>
      refine ⟨first, by rw [harray]; rfl, iff_of_true ?_ (List.cons_ne_nil _ _)⟩
      rintro rfl
      exact hholds.zero_notMem List.mem_cons_self

/-- An empty string is written over the first byte. -/
theorem writeByte_holds {array bytes : List Byte} {size : Nat} (hholds : Holds array size bytes) :
    ∃ after, writeByte array 0 0 = .ok after ∧ Holds after size [] := by
  obtain ⟨rest, harray⟩ := hholds.exists_eq
  have hlength := hholds.length_eq
  obtain ⟨first, tail, rfl⟩ : ∃ first tail, array = first :: tail :=
    List.exists_cons_of_ne_nil (by
      rw [harray]
      exact List.append_ne_nil_of_right_ne_nil _ (List.cons_ne_nil _ _))
  exact ⟨0 :: tail, writeByte_append [] first 0 tail, hlength, List.not_mem_nil, tail, rfl⟩

theorem callHandler_eq {locals : Locals User} {sectionName name value : List Byte} {size : Nat}
    (hsection : Holds locals.sectionName size sectionName) (hname : 0 ∉ name)
    (hvalue : 0 ∉ value) (restName restValue : List Byte) :
    callHandler handler locals (name ++ 0 :: restName) (value ++ 0 :: restValue) =
      (verdict handler locals.user (.call ⟨sectionName, name, value⟩)).map
        fun (good, user) => locals.settle good user := by
  rw [callHandler, hsection.arrayStr_eq, arrayStr_append_zero hname, arrayStr_append_zero hvalue]
  simp only [ok_bind, verdict]
  cases handler locals.user sectionName name value with
  | error fault => rfl
  | ok called =>
      obtain ⟨result, user⟩ := called
      simp only [ok_bind, Except.map, Locals.settle]
      by_cases hresult : result = 0
      · simp [hresult]
      · simp [hresult]

/-! ## The branches -/

theorem does_malformed {locals : Locals User} {scope : Scope} (hagrees : Agrees locals scope) :
    Does handler locals scope .malformed (.ok locals.fail) :=
  ⟨locals, hagrees, rfl, rfl, rfl⟩

theorem does_skipped {locals : Locals User} {scope : Scope} (hagrees : Agrees locals scope) :
    Does handler locals scope .skipped (.ok locals) :=
  ⟨locals, hagrees, rfl, rfl, rfl⟩

theorem does_sectionLine {locals : Locals User} {scope : Scope} (hagrees : Agrees locals scope)
    {before body rest : List Byte} (hnul : 0 ∉ body)
    (hline : locals.line = before ++ bracketOpen :: (body ++ 0 :: rest)) :
    Does handler locals scope (headingOf body) (sectionLine locals before.length) := by
  have hlength : (before ++ [bracketOpen]).length = before.length + 1 := List.length_append
  have hsplit : locals.line = (before ++ [bracketOpen]) ++ (body ++ 0 :: rest) := by
    rw [hline, List.append_assoc, List.singleton_append]
  have hbody := scan_append_drop [bracketClose] false body
  rw [sectionLine, ← hlength, hsplit, List.drop_left, findCharsOrComment_append _ _ hnul, ok_bind,
    Option.getD_some, headingOf]
  dsimp only
  generalize scan [bracketClose] false body = name at hbody ⊢
  rw [← List.length_append]
  cases hafter : body.drop name.length with
  | nil =>
      rw [hafter, List.append_nil] at hbody
      subst name
      rw [← List.append_assoc, readByte_append, ok_bind, if_neg (by decide)]
      exact does_malformed hagrees
  | cons stop after =>
      rw [hafter] at hbody
      have hmemory : before ++ [bracketOpen] ++ (body ++ 0 :: rest) =
          (before ++ [bracketOpen] ++ name) ++ stop :: (after ++ 0 :: rest) := by
        rw [← hbody]
        simp only [List.append_assoc, List.cons_append]
      rw [hmemory, readByte_append, ok_bind]
      dsimp only
      by_cases hstop : stop = bracketClose
      · have hname : 0 ∉ name := fun hmem => hnul (hbody ▸ List.mem_append_left _ hmem)
        obtain ⟨sectionName, hcopy, hsection⟩ := strncpy0_holds hagrees.sectionName.length_eq
          (by decide) hname (after ++ 0 :: rest)
        obtain ⟨prevName, hwrite, hprev⟩ := writeByte_holds hagrees.prevName
        rw [if_pos hstop, if_pos hstop, writeByte_append, ok_bind, List.append_assoc,
          List.drop_left, hcopy, ok_bind, hwrite, ok_bind]
        refine ⟨{ locals with line := _, sectionName, prevName }, ⟨?_, hsection, hprev⟩,
          rfl, rfl, rfl⟩
        rw [← hagrees.length_line, hsplit, hmemory]
        simp only [List.length_append, List.length_cons]
        omega
      · rw [if_neg hstop, if_neg hstop]
        exact does_malformed hagrees

/-- The text of a value is cut before an inline comment. -/
theorem cutComment_eq (front : List Byte) {value : List Byte} (hnul : 0 ∉ value)
    (rest : List Byte) :
    ∃ tail, cutComment (front ++ (value ++ 0 :: rest)) front.length =
        .ok (front ++ (scan [] false value ++ 0 :: tail)) ∧
      (scan [] false value ++ 0 :: tail).length = (value ++ 0 :: rest).length := by
  have hvalue := scan_append_drop [] false value
  rw [cutComment, List.drop_left, findCharsOrComment_append none _ hnul, ok_bind,
    Option.getD_none]
  dsimp only
  generalize scan [] false value = text at hvalue ⊢
  rw [← List.length_append]
  cases hafter : value.drop text.length with
  | nil =>
      rw [hafter, List.append_nil] at hvalue
      subst text
      refine ⟨rest, ?_, rfl⟩
      rw [← List.append_assoc, readByte_append, ok_bind, if_neg fun hne => hne rfl]
  | cons stop after =>
      rw [hafter] at hvalue
      have hstop : stop ≠ 0 := by
        rintro rfl
        exact hnul (hvalue ▸ List.mem_append_right _ List.mem_cons_self)
      have hmemory : front ++ (value ++ 0 :: rest) =
          (front ++ text) ++ stop :: (after ++ 0 :: rest) := by
        rw [← hvalue]
        simp only [List.append_assoc, List.cons_append]
      refine ⟨after ++ 0 :: rest, ?_, ?_⟩
      · rw [hmemory, readByte_append, ok_bind, if_pos hstop, writeByte_append, List.append_assoc]
      · rw [← hvalue, List.append_assoc, List.length_append, List.length_append]
        rfl

theorem stripValue_eq (front : List Byte) {value : List Byte} (hnul : 0 ∉ value)
    (rest : List Byte) :
    ∃ blank tail, stripValue (front ++ (value ++ 0 :: rest)) front.length =
        .ok ((front ++ blank) ++ (rtrim (ltrim (scan [] false value)) ++ 0 :: tail),
          (front ++ blank).length) ∧
      (blank ++ (rtrim (ltrim (scan [] false value)) ++ 0 :: tail)).length =
        (value ++ 0 :: rest).length := by
  obtain ⟨tail, hcut, htail⟩ := cutComment_eq front hnul rest
  have htext : 0 ∉ ltrim (scan [] false value) :=
    notMem_ltrim fun hmem => hnul ((scan_isPrefix [] false value).subset hmem)
  rw [← htail, stripValue, hcut, ok_bind, List.drop_left, lskip_append, ok_bind]
  generalize scan [] false value = text at htext ⊢
  have hspaces : front ++ (text ++ 0 :: tail) =
      (front ++ text.takeWhile isSpace) ++ (ltrim text ++ 0 :: tail) := by
    rw [← List.append_assoc _ (ltrim text), List.append_assoc front, takeWhile_append_ltrim,
      List.append_assoc]
  dsimp only
  rw [← List.length_append, hspaces, rstrip_append _ htext, ok_bind]
  refine ⟨_, _, rfl, ?_⟩
  have hlength := congrArg List.length (takeWhile_append_ltrim text)
  have hle := length_rtrim_le (ltrim text)
  simp only [List.length_append, List.length_cons, List.length_replicate] at hlength ⊢
  omega

theorem does_pairLine {locals : Locals User} {scope : Scope} (hagrees : Agrees locals scope)
    {before body rest : List Byte} (hnul : 0 ∉ body)
    (hline : locals.line = before ++ (body ++ 0 :: rest)) :
    Does handler locals scope (pairOf body) (pairLine handler locals before.length) := by
  have hbody := scan_append_drop [equalSign, colon] false body
  rw [pairLine, hline, List.drop_left, findCharsOrComment_append _ _ hnul, ok_bind,
    Option.getD_some, pairOf]
  dsimp only
  generalize scan [equalSign, colon] false body = name at hbody ⊢
  rw [← List.length_append]
  cases hafter : body.drop name.length with
  | nil =>
      rw [hafter, List.append_nil] at hbody
      subst name
      rw [← List.append_assoc, readByte_append, ok_bind, if_neg (by decide)]
      exact does_malformed hagrees
  | cons stop value =>
      rw [hafter] at hbody
      have hmemory : before ++ (body ++ 0 :: rest) =
          (before ++ name) ++ stop :: (value ++ 0 :: rest) := by
        rw [← hbody]
        simp only [List.append_assoc, List.cons_append]
      rw [hmemory, readByte_append, ok_bind]
      dsimp only
      by_cases hstop : stop = equalSign ∨ stop = colon
      · have hname : 0 ∉ name := fun hmem => hnul (hbody ▸ List.mem_append_left _ hmem)
        have hvalue : 0 ∉ value := fun hmem =>
          hnul (hbody ▸ List.mem_append_right _ (List.mem_cons_of_mem _ hmem))
        -- What is behind the name up to the value: its NUL and its padding.
        have hgap : before ++ (rtrim name ++ 0 :: (List.replicate
              (name.length - (rtrim name).length) 0 ++ (value ++ 0 :: rest))) =
            (before ++ (rtrim name ++ 0 :: List.replicate
              (name.length - (rtrim name).length) 0)) ++ (value ++ 0 :: rest) := by
          simp only [List.append_assoc, List.cons_append]
        have hgapLength : (before ++ name).length + 1 =
            (before ++ (rtrim name ++ 0 :: List.replicate
              (name.length - (rtrim name).length) 0)).length := by
          have hle := length_rtrim_le name
          simp only [List.length_append, List.length_cons, List.length_replicate]
          omega
        obtain ⟨blank, tail, hstrip, htail⟩ := stripValue_eq
          (before ++ (rtrim name ++ 0 :: List.replicate (name.length - (rtrim name).length) 0))
          hvalue rest
        have hnameMemory : (before ++ (rtrim name ++ 0 :: List.replicate
              (name.length - (rtrim name).length) 0) ++ blank) ++
              (rtrim (ltrim (scan [] false value)) ++ 0 :: tail) =
            before ++ (rtrim name ++ 0 :: (List.replicate (name.length - (rtrim name).length) 0 ++
              blank ++ (rtrim (ltrim (scan [] false value)) ++ 0 :: tail))) := by
          simp only [List.append_assoc, List.cons_append]
        have htext : 0 ∉ rtrim (ltrim (scan [] false value)) := notMem_rtrim
          (notMem_ltrim fun hmem => hvalue ((scan_isPrefix [] false value).subset hmem))
        obtain ⟨prevName, hcopy, hprev⟩ := strncpy0_holds hagrees.prevName.length_eq
          (by decide) (notMem_rtrim hname) (List.replicate (name.length - (rtrim name).length) 0 ++
              blank ++ (rtrim (ltrim (scan [] false value)) ++ 0 :: tail))
        rw [if_pos hstop, if_pos hstop, writeByte_append, ok_bind, List.append_assoc,
          rstrip_append before hname, ok_bind, hgap, hgapLength, hstrip, ok_bind]
        dsimp only
        rw [List.drop_left, hnameMemory, List.drop_left, hcopy, ok_bind]
        have hcall := fun line : List Byte => @callHandler_eq _ handler
          { locals with line, prevName } _ _ _ _ hagrees.sectionName (notMem_rtrim hname) htext
        refine ⟨{ locals with line := _, prevName }, ⟨?_, hagrees.sectionName, hprev⟩, rfl, rfl,
          hcall _ _ _⟩
        rw [← hagrees.length_line, hline, hmemory]
        simp only [List.length_append, List.length_cons, List.length_replicate]
          at htail hgapLength ⊢
        omega
      · rw [if_neg hstop, if_neg hstop]
        exact does_malformed hagrees

theorem does_continued {locals : Locals User} {scope : Scope} (hagrees : Agrees locals scope)
    {start : List Byte} (hnul : 0 ∉ start) (rest : List Byte) :
    Does handler locals scope (.continued start)
      (callHandler handler locals locals.prevName (start ++ 0 :: rest)) := by
  obtain ⟨tail, hprev⟩ := hagrees.prevName.exists_eq
  have hcall := @callHandler_eq _ handler locals _ _ _ _ hagrees.sectionName
    hagrees.prevName.zero_notMem hnul tail rest
  rw [← hprev] at hcall
  exact ⟨locals, hagrees, rfl, rfl, hcall⟩

/-! ## A line -/

/-- A byte that is not part of it ends what may be a byte order mark. -/
theorem byteOrderMark_isPrefix_iff {byte : Byte} (hbyte : byte ∉ byteOrderMark)
    (piece junk : List Byte) :
    byteOrderMark <+: piece ++ byte :: junk ↔ byteOrderMark <+: piece := by
  constructor
  · intro hmark
    rcases Nat.lt_or_ge piece.length byteOrderMark.length with hlt | hge
    · obtain ⟨rest, hrest⟩ := hmark
      have hat := congrArg (fun bytes => bytes[piece.length]?) hrest
      rw [List.getElem?_append_left hlt, List.getElem?_append_right (Nat.le_refl _),
        Nat.sub_self, List.getElem?_cons_zero] at hat
      exact absurd (List.mem_of_getElem? hat) hbyte
    · exact List.prefix_of_prefix_length_le hmark (List.prefix_append _ _) hge
  · exact fun hmark => hmark.trans (List.prefix_append _ _)

/-- A NUL ends the text of a line wherever the line itself goes on. -/
theorem exists_text_append_zero (piece junk : List Byte) :
    ∃ rest, piece ++ 0 :: junk = text piece ++ 0 :: rest := by
  obtain ⟨rest, hrest⟩ :=
    exists_eq_text_append (List.mem_append_right piece (List.mem_cons_self (a := 0) (l := junk)))
  rw [text_append_zero] at hrest
  exact ⟨rest, hrest⟩

/-- The part of the line that `start` points to before it is stripped. -/
def lineStart (lineno : Int) (piece : List Byte) : List Byte :=
  if lineno = 1 ∧ byteOrderMark <+: piece then piece.drop 3 else piece

theorem exists_start (lineno : Int) (piece junk : List Byte) :
    ∃ before rest, piece ++ 0 :: junk = before ++ (text (lineStart lineno piece) ++ 0 :: rest) ∧
      (if lineno = 1 ∧ byteOrderMark.isPrefixOf (piece ++ 0 :: junk) then 3 else 0) =
        before.length ∧
      (before ≠ [] → lineno = 1) := by
  have hprefix : byteOrderMark.isPrefixOf (piece ++ 0 :: junk) = true ↔ byteOrderMark <+: piece :=
    List.isPrefixOf_iff_prefix.trans (byteOrderMark_isPrefix_iff (by decide) piece junk)
  rw [lineStart]
  by_cases hmark : lineno = 1 ∧ byteOrderMark <+: piece
  · obtain ⟨hone, after, rfl⟩ := hmark
    obtain ⟨rest, hrest⟩ := exists_text_append_zero after junk
    refine ⟨byteOrderMark, rest, ?_, ?_, fun _ => hone⟩
    · rw [if_pos ⟨hone, List.prefix_append _ _⟩, List.append_assoc, hrest]
      rfl
    · rw [if_pos ⟨hone, hprefix.mpr (List.prefix_append _ _)⟩]
      rfl
  · obtain ⟨rest, hrest⟩ := exists_text_append_zero piece junk
    refine ⟨[], rest, ?_, ?_, fun hne => absurd rfl hne⟩
    · rw [if_neg hmark, hrest]
      rfl
    · rw [if_neg fun hand => hmark ⟨hand.1, hprefix.mp hand.2⟩]
      rfl

theorem does_parseLine {locals : Locals User} {scope : Scope} (hagrees : Agrees locals scope)
    (hlow : 0 ≤ locals.lineno) (hhigh : locals.lineno < intMax)
    (hfirst : locals.lineno = 0 → scope.prevName = []) {piece junk : List Byte}
    (hline : locals.line = piece ++ 0 :: junk) :
    Does handler { locals with lineno := locals.lineno + 1 } scope
      (scope.lineOf (text (lineStart (locals.lineno + 1) piece))) (parseLine handler locals) := by
  obtain ⟨before, rest, hsplit, hstart, hbefore⟩ :=
    exists_start (locals.lineno + 1) piece junk
  have hnul : 0 ∉ text (lineStart (locals.lineno + 1) piece) := zero_notMem_text _
  rw [← hline] at hsplit hstart
  have hrange : intResult (locals.lineno + 1) = .ok (locals.lineno + 1) :=
    intResult_of_range (by simp only [intMin]; omega) (by omega)
  rw [parseLine, hrange, ok_bind]
  dsimp only
  rw [hstart, hsplit]
  generalize text (lineStart (locals.lineno + 1) piece) = body at hsplit hnul ⊢
  have hlength : (before ++ (rtrim body ++
      0 :: (List.replicate (body.length - (rtrim body).length) 0 ++ rest))).length =
      iniMaxLine := by
    have hle := length_rtrim_le body
    rw [← hagrees.length_line, hsplit]
    simp only [List.length_append, List.length_cons, List.length_replicate]
    omega
  have hstripped : 0 ∉ ltrim (rtrim body) := notMem_ltrim (notMem_rtrim hnul)
  rw [rstrip_append before hnul, ok_bind, List.drop_left, lskip_append, ok_bind, Scope.lineOf,
    lineOf]
  generalize rtrim body = stripped at hlength hstripped ⊢
  generalize List.replicate (body.length - stripped.length) 0 ++ rest = tail at hlength ⊢
  have hspaces := takeWhile_append_ltrim stripped
  have hskipped : ltrim stripped ≠ stripped ↔ stripped.takeWhile isSpace ≠ [] := by
    constructor
    · intro hne hnil
      rw [hnil, List.nil_append] at hspaces
      exact hne hspaces
    · intro hne heq
      rw [heq] at hspaces
      exact hne (List.append_left_eq_self.mp hspaces)
  generalize stripped.takeWhile isSpace = spaces at hspaces hskipped ⊢
  generalize ltrim stripped = start at hspaces hskipped hstripped ⊢
  have hmemory : before ++ (stripped ++ 0 :: tail) =
      (before ++ spaces) ++ (start ++ 0 :: tail) := by
    rw [← hspaces]
    simp only [List.append_assoc]
  rw [hmemory] at hlength
  rw [hmemory, ← List.length_append]
  have hlocals : Agrees
      { locals with
        line := (before ++ spaces) ++ (start ++ 0 :: tail)
        lineno := locals.lineno + 1 } scope :=
    ⟨hlength, hagrees.sectionName, hagrees.prevName⟩
  cases start with
  | nil =>
      rw [List.nil_append, readByte_append, ok_bind, if_pos (by rfl)]
      exact does_skipped hlocals
  | cons first more =>
      have hfirstByte : first ≠ 0 := by
        rintro rfl
        exact hstripped List.mem_cons_self
      obtain ⟨prev, hprev, hprevIff⟩ := readByte_holds hagrees.prevName
      rw [List.cons_append, readByte_append, ok_bind, hprev, ok_bind,
        strchr_of_ne_zero hfirstByte, List.drop_left]
      dsimp only
      by_cases hcomment : first ∈ startCommentPrefixes
      · rw [if_pos hcomment, if_pos (decide_eq_true hcomment)]
        exact does_skipped hlocals
      · rw [if_neg hcomment, if_neg (mt of_decide_eq_true hcomment)]
        have hcontinues : prev ≠ 0 ∧ first ≠ 0 ∧ 0 < (before ++ spaces).length ↔
            decide (scope.prevName ≠ []) = true ∧ first :: more ≠ stripped := by
          rw [decide_eq_true_iff, hprevIff, hskipped]
          constructor
          · rintro ⟨hne, -, hpos⟩
            refine ⟨hne, fun hnil => ?_⟩
            rw [hnil, List.append_nil] at hpos
            have hone := hbefore (List.ne_nil_of_length_pos hpos)
            exact hne (hfirst (by omega))
          · rintro ⟨hne, hsome⟩
            have hpos := List.length_pos_of_ne_nil hsome
            refine ⟨hne, hfirstByte, ?_⟩
            rw [List.length_append]
            omega
        by_cases hcontinued : decide (scope.prevName ≠ []) = true ∧ first :: more ≠ stripped
        · rw [if_pos hcontinued, if_pos (hcontinues.mpr hcontinued)]
          exact does_continued hlocals hstripped tail
        · rw [if_neg hcontinued, if_neg fun hcode => hcontinued (hcontinues.mp hcode)]
          by_cases hbracket : first = bracketOpen
          · subst hbracket
            rw [if_pos rfl, if_pos rfl]
            exact does_sectionLine hlocals
              (fun hmem => hstripped (List.mem_cons_of_mem _ hmem)) rfl
          · rw [if_neg hbracket, if_neg hbracket, if_pos hfirstByte]
            exact does_pairLine hlocals hstripped rfl

end CcCvStore.Ini
