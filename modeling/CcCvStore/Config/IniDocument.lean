import CcCvStore.Config.IniFiles

/-!
# Documents and their files

A document is a list of blank lines, comments, headings, entries and
continuation lines, each with the blanks and remarks around it.  Written out as
a file and parsed again, it gives its entries.
-/

namespace CcCvStore.Ini

open CcCvStore.CInteger
open CcCvStore.CString
open CcCvStore.Effect
open CcCvStore.TextLines

/-! ## Parts of a line -/

/-- Bytes that stand in one line of a text. -/
structure Inline where
  bytes : List Byte
  zero_notMem : 0 ∉ bytes
  newline_notMem : newline ∉ bytes

/-- Space within a line. -/
structure Blank extends Inline where
  isSpace_of_mem : ∀ byte ∈ bytes, isSpace byte = true

def noBlank : Blank := ⟨⟨[], List.not_mem_nil, List.not_mem_nil⟩, List.forall_mem_nil _⟩

/-- No space at either end. -/
def Trimmed (bytes : List Byte) : Prop := rtrim bytes = bytes ∧ ltrim bytes = bytes

theorem head_notMem_of_cons {signs rest : List Byte} {first : Byte} (hfirst : first ∉ signs) :
    ∀ head ∈ (first :: rest).head?, head ∉ signs := by
  rintro head ⟨⟩
  exact hfirst

/-- The name of a section. -/
structure SectionName extends Inline where
  length_lt : bytes.length < maxSection
  scan_eq : scan [bracketClose] false bytes = bytes

/-- The name of an entry. -/
structure Name extends Inline where
  length_lt : bytes.length < maxName
  trimmed : Trimmed bytes
  scan_eq : scan [equalSign, colon] false bytes = bytes
  head_notMem : ∀ first ∈ bytes.head?, first ∉ bracketOpen :: startCommentPrefixes
  ne_nil : bytes ≠ []

/-- The value of an entry. -/
structure Value extends Inline where
  trimmed : Trimmed bytes
  scan_eq : scan [] true bytes = bytes

/-- The value of a continuation line, in which `;` has no meaning. -/
structure More extends Inline where
  trimmed : Trimmed bytes
  head_notMem : ∀ first ∈ bytes.head?, first ∉ startCommentPrefixes
  ne_nil : bytes ≠ []

/-- An inline comment: space and what follows the `;`. -/
structure Remark where
  gap : Blank
  gap_ne_nil : gap.bytes ≠ []
  text : Inline

/-- The separator of an entry. -/
inductive Separator where
  | equalSign
  | colon
  deriving DecidableEq

def Separator.byte : Separator → Byte
  | .equalSign => Ini.equalSign
  | .colon => Ini.colon

/-- The sign in front of a comment. -/
inductive CommentSign where
  | semicolon
  | hash
  deriving DecidableEq

def CommentSign.byte : CommentSign → Byte
  | .semicolon => Ini.semicolon
  | .hash => Ini.hash

/-- A line of a document. -/
inductive Item where
  | blank (spaces : Blank)
  | comment (indent : Blank) (sign : CommentSign) (text : Inline)
  | heading (name : SectionName) (rest : Inline)
  | entry (name : Name) (before : Blank) (separator : Separator) (after : Blank) (value : Value)
      (trailing : Blank) (remark : Option Remark)
  | more (indent : Blank) (indent_ne_nil : indent.bytes ≠ []) (value : More) (trailing : Blank)

def Remark.bytes (remark : Remark) : List Byte :=
  remark.gap.bytes ++ semicolon :: remark.text.bytes

namespace Item

/-- An item as it stands in the file, without the end of the line. -/
def line : Item → List Byte
  | .blank spaces => spaces.bytes
  | .comment indent sign text => indent.bytes ++ sign.byte :: text.bytes
  | .heading name rest => bracketOpen :: (name.bytes ++ bracketClose :: rest.bytes)
  | .entry name before separator after value trailing remark =>
      name.bytes ++ before.bytes ++ separator.byte ::
        (after.bytes ++ value.bytes ++ trailing.bytes ++ (remark.map Remark.bytes).getD [])
  | .more indent _ value trailing => indent.bytes ++ value.bytes ++ trailing.bytes

/-- What the line of an item is to be read as. -/
def meaning : Item → Line
  | .blank _ | .comment .. => .skipped
  | .heading name _ => .heading name.bytes
  | .entry name _ _ _ value _ _ => .pair name.bytes value.bytes
  | .more _ _ value _ => .continued value.bytes

end Item

/-- Every continuation line has a name to continue. -/
def Continued : Bool → List Item → Prop
  | _, [] => True
  | named, .blank _ :: rest | named, .comment .. :: rest => Continued named rest
  | _, .heading .. :: rest => Continued false rest
  | _, .entry .. :: rest => Continued true rest
  | named, .more .. :: rest => named = true ∧ Continued named rest

/-- A byte order mark in front of the first line. -/
def withMark (mark : Bool) : List (List Byte) → List (List Byte)
  | [] => []
  | first :: rest => (if mark then byteOrderMark ++ first else first) :: rest

/-- What an `.ini` file holds. -/
structure Document where
  items : List Item
  /-- The file starts with a byte order mark. -/
  mark : Bool
  continued : Continued false items
  /-- No line outgrows the buffer of the parser. -/
  length_le : ∀ line ∈ withMark mark (items.map Item.line), line.length ≤ iniMaxLine - 2
  /-- Text that looks like a byte order mark is one. -/
  unmarked : mark = false → ∀ first ∈ (items.map Item.line).head?, ¬byteOrderMark <+: first

namespace Document

/-- The file of a document. -/
def render (document : Document) : List Byte :=
  ((withMark document.mark (document.items.map Item.line)).map (· ++ [newline])).flatten

/-- The entries of the items in a section; `prevName` is the last name in it. -/
def entriesFrom (sectionName prevName : List Byte) : List Item → List Entry
  | [] => []
  | .blank _ :: rest | .comment .. :: rest => entriesFrom sectionName prevName rest
  | .heading name _ :: rest => entriesFrom name.bytes [] rest
  | .entry name _ _ _ value _ _ :: rest =>
      ⟨sectionName, name.bytes, value.bytes⟩ :: entriesFrom sectionName name.bytes rest
  | .more _ _ value _ :: rest =>
      ⟨sectionName, prevName, value.bytes⟩ :: entriesFrom sectionName prevName rest

def entries (document : Document) : List Entry := entriesFrom [] [] document.items

end Document

/-! ## Trimming and scanning what is put together -/

theorem rtrim_append_of_ne_nil {right : List Byte} (hright : rtrim right ≠ [])
    (left : List Byte) : rtrim (left ++ right) = left ++ rtrim right := by
  have hreverse : ¬(right.reverse.dropWhile isSpace).isEmpty := by
    intro hempty
    rw [List.isEmpty_iff] at hempty
    exact hright (by rw [rtrim, List.rdropWhile, hempty, List.reverse_nil])
  rw [rtrim, List.rdropWhile, List.reverse_append, List.dropWhile_append, if_neg hreverse,
    List.reverse_append, List.reverse_reverse]
  rfl

theorem rtrim_append_of_spaces {right : List Byte} (hright : ∀ byte ∈ right, isSpace byte = true)
    (left : List Byte) : rtrim (left ++ right) = rtrim left := by
  have hdrop : right.reverse.dropWhile isSpace = [] := by
    rw [List.dropWhile_eq_nil_iff]
    exact fun byte hbyte => hright byte (List.mem_reverse.mp hbyte)
  rw [rtrim, List.rdropWhile, List.reverse_append, List.dropWhile_append, hdrop]
  rfl

theorem rtrim_cons_of_not_space {first : Byte} (hfirst : isSpace first = false)
    (rest : List Byte) : rtrim (first :: rest) = first :: rtrim rest := by
  by_cases hrest : rtrim rest = []
  · have hspaces : ∀ byte ∈ rest, isSpace byte = true := List.rdropWhile_eq_nil_iff.mp hrest
    have htrim := rtrim_append_of_spaces hspaces [first]
    rw [List.singleton_append] at htrim
    rw [htrim, hrest, rtrim, List.rdropWhile_singleton, hfirst]
    rfl
  · exact rtrim_append_of_ne_nil hrest [first]

theorem ltrim_append_of_spaces {left : List Byte} (hleft : ∀ byte ∈ left, isSpace byte = true)
    (right : List Byte) : ltrim (left ++ right) = ltrim right :=
  List.dropWhile_append_of_pos hleft

theorem ltrim_cons_of_not_space {first : Byte} (hfirst : isSpace first = false)
    (rest : List Byte) : ltrim (first :: rest) = first :: rest := by
  rw [ltrim, List.dropWhile_cons_of_neg (by rw [hfirst]; exact Bool.false_ne_true)]

/-- A trimmed text starts with no space. -/
theorem isSpace_head_of_trimmed {bytes : List Byte} (htrimmed : Trimmed bytes) :
    ∀ first ∈ bytes.head?, isSpace first = false := by
  intro first hfirst
  cases bytes with
  | nil => contradiction
  | cons head rest =>
      cases hfirst
      by_contra hspace
      rw [Bool.not_eq_false] at hspace
      have hdrop := htrimmed.2
      rw [ltrim, List.dropWhile_cons_of_pos hspace] at hdrop
      have hle := (List.dropWhile_suffix isSpace (l := rest)).length_le
      rw [hdrop, List.length_cons] at hle
      omega

theorem scan_append {chars : List Byte} {wasSpace : Bool} {left : List Byte}
    (hleft : scan chars wasSpace left = left) (right : List Byte) :
    scan chars wasSpace (left ++ right) =
      left ++ scan chars ((left.getLast?.map isSpace).getD wasSpace) right := by
  induction left generalizing wasSpace with
  | nil => rfl
  | cons char left ih =>
      rw [scan] at hleft
      split at hleft
      · contradiction
      next hgoOn =>
        rw [List.cons_append, scan, if_neg hgoOn, ih (List.cons.inj hleft).2, List.cons_append]
        cases left <;> rfl

theorem scan_cons_of_mem {chars : List Byte} {stop : Byte} (hstop : stop ∈ chars)
    (wasSpace : Bool) (rest : List Byte) : scan chars wasSpace (stop :: rest) = [] :=
  if_pos (.inl hstop)

theorem scan_spaces {chars spaces : List Byte} (hchars : ∀ char ∈ chars, isSpace char = false)
    (hspaces : ∀ byte ∈ spaces, isSpace byte = true) (wasSpace : Bool) :
    scan chars wasSpace spaces = spaces := by
  induction spaces generalizing wasSpace with
  | nil => rfl
  | cons byte spaces ih =>
      rw [List.forall_mem_cons] at hspaces
      have hgoOn : ¬(byte ∈ chars ∨ (wasSpace ∧ byte ∈ inlineCommentPrefixes)) := by
        rintro (hchar | ⟨-, hcomment⟩)
        · exact absurd hspaces.1 (by rw [hchars byte hchar]; exact Bool.false_ne_true)
        · rw [List.mem_singleton.mp hcomment] at hspaces
          exact absurd hspaces.1 (by decide)
      rw [scan, if_neg hgoOn, ih hspaces.2]

/-- A text without a comment behind a space has none elsewhere. -/
theorem scan_of_scan_true {chars bytes : List Byte} (hscan : scan chars true bytes = bytes)
    (wasSpace : Bool) : scan chars wasSpace bytes = bytes := by
  cases wasSpace with
  | true => exact hscan
  | false =>
      cases bytes with
      | nil => rfl
      | cons byte bytes =>
          rw [scan] at hscan
          split at hscan
          · contradiction
          next hgoOn =>
            have hfalse : ¬(byte ∈ chars ∨ (false = true ∧ byte ∈ inlineCommentPrefixes)) :=
              fun hor => hgoOn (hor.imp_right fun hand => ⟨rfl, hand.2⟩)
            rw [scan, if_neg hfalse, (List.cons.inj hscan).2]

/-- Trimming leaves what stands between spaces. -/
theorem trim_between {before value after : List Byte}
    (hbefore : ∀ byte ∈ before, isSpace byte = true) (hvalue : Trimmed value)
    (hafter : ∀ byte ∈ after, isSpace byte = true) :
    rtrim (ltrim (before ++ (value ++ after))) = value := by
  rw [ltrim_append_of_spaces hbefore]
  cases value with
  | nil =>
      have hnil : ltrim ([] ++ after) = [] := List.dropWhile_eq_nil_iff.mpr hafter
      rw [hnil]
      rfl
  | cons first rest =>
      rw [List.cons_append, ltrim_cons_of_not_space (isSpace_head_of_trimmed hvalue first rfl),
        ← List.cons_append, rtrim_append_of_spaces hafter, hvalue.1]

/-! ## Lines read back -/

theorem isSpace_end {trailing : List Byte} (htrailing : ∀ byte ∈ trailing, isSpace byte = true) :
    ∀ byte ∈ trailing ++ [newline], isSpace byte = true := by
  intro byte hbyte
  rcases List.mem_append.mp hbyte with hmem | hmem
  · exact htrailing byte hmem
  · rw [List.mem_singleton.mp hmem]
    rfl

/-- A line that starts with neither a space nor a comment. -/
theorem lineOf_of_rtrim {text rest : List Byte} {first : Byte}
    (htext : rtrim text = first :: rest) (hspace : isSpace first = false)
    (hcomment : first ∉ startCommentPrefixes) (continues : Bool) :
    lineOf continues text =
      if first = bracketOpen then headingOf rest else pairOf (first :: rest) := by
  rw [lineOf, htext, ltrim_cons_of_not_space hspace]
  dsimp only
  rw [if_neg hcomment, if_neg fun hand => hand.2 rfl]

theorem lineOf_blank (spaces : Blank) (continues : Bool) :
    lineOf continues (spaces.bytes ++ [newline]) = .skipped := by
  have hspaces := isSpace_end spaces.isSpace_of_mem
  rw [lineOf, rtrim, List.rdropWhile_eq_nil_iff.mpr hspaces]
  rfl

theorem lineOf_comment (indent : Blank) (sign : CommentSign) (rest : List Byte)
    (continues : Bool) :
    lineOf continues (indent.bytes ++ sign.byte :: rest) = .skipped := by
  have hspace : isSpace sign.byte = false := by cases sign <;> rfl
  have hsign : sign.byte ∈ startCommentPrefixes := by cases sign <;> decide
  have hrtrim := rtrim_cons_of_not_space hspace rest
  rw [lineOf, rtrim_append_of_ne_nil (by rw [hrtrim]; exact List.cons_ne_nil _ _), hrtrim,
    ltrim_append_of_spaces indent.isSpace_of_mem, ltrim_cons_of_not_space hspace]
  dsimp only
  rw [if_pos hsign]

theorem lineOf_heading (name : SectionName) (rest : List Byte) (continues : Bool) :
    lineOf continues (bracketOpen :: (name.bytes ++ bracketClose :: rest)) =
      .heading name.bytes := by
  have hclose : rtrim (bracketClose :: rest) = bracketClose :: rtrim rest :=
    rtrim_cons_of_not_space rfl rest
  have htext : rtrim (bracketOpen :: (name.bytes ++ bracketClose :: rest)) =
      bracketOpen :: (name.bytes ++ bracketClose :: rtrim rest) := by
    rw [rtrim_cons_of_not_space rfl,
      rtrim_append_of_ne_nil (by rw [hclose]; exact List.cons_ne_nil _ _), hclose]
  rw [lineOf_of_rtrim htext rfl (by decide), if_pos rfl, headingOf, scan_append name.scan_eq,
    scan_cons_of_mem List.mem_cons_self, List.append_nil, List.drop_left]
  rfl

theorem lineOf_more (indent : Blank) (hindent : indent.bytes ≠ []) (value : More)
    (trailing : Blank) :
    lineOf true (indent.bytes ++ value.bytes ++ trailing.bytes ++ [newline]) =
      .continued value.bytes := by
  have hvalue : rtrim value.bytes ≠ [] := by
    rw [value.trimmed.1]
    exact value.ne_nil
  rw [lineOf, List.append_assoc, rtrim_append_of_spaces (isSpace_end trailing.isSpace_of_mem),
    rtrim_append_of_ne_nil hvalue, value.trimmed.1, ltrim_append_of_spaces indent.isSpace_of_mem,
    value.trimmed.2]
  have hne : value.bytes ≠ indent.bytes ++ value.bytes := fun heq =>
    hindent (List.append_left_eq_self.mp heq.symm)
  cases hbytes : value.bytes with
  | nil => exact absurd hbytes value.ne_nil
  | cons first rest =>
      rw [hbytes] at hne
      have hfirst : first ∉ startCommentPrefixes := value.head_notMem first (by rw [hbytes]; rfl)
      dsimp only
      rw [if_neg hfirst, if_pos ⟨rfl, hne⟩]

theorem Separator.isSpace_byte (separator : Separator) : isSpace separator.byte = false := by
  cases separator <;> rfl

theorem Separator.byte_mem (separator : Separator) :
    separator.byte ∈ [Ini.equalSign, Ini.colon] := by
  cases separator <;> decide

/-- The name and the separator of an entry are found whatever follows them. -/
theorem lineOf_entry_name (name : Name) (before : Blank) (separator : Separator)
    (rest : List Byte) (continues : Bool) :
    lineOf continues (name.bytes ++ before.bytes ++ separator.byte :: rest) =
      .pair name.bytes (rtrim (ltrim (scan [] false (rtrim rest)))) := by
  have hseparator := rtrim_cons_of_not_space separator.isSpace_byte rest
  have htext : rtrim (name.bytes ++ before.bytes ++ separator.byte :: rest) =
      name.bytes ++ before.bytes ++ separator.byte :: rtrim rest := by
    rw [rtrim_append_of_ne_nil (by rw [hseparator]; exact List.cons_ne_nil _ _), hseparator]
  have hpair : pairOf (name.bytes ++ before.bytes ++ separator.byte :: rtrim rest) =
      .pair name.bytes (rtrim (ltrim (scan [] false (rtrim rest)))) := by
    have hchars : ∀ char ∈ [equalSign, colon], isSpace char = false :=
      List.forall_mem_cons.mpr ⟨rfl, List.forall_mem_singleton.mpr rfl⟩
    have hstop : separator.byte = equalSign ∨ separator.byte = colon := by
      cases separator
      · exact .inl rfl
      · exact .inr rfl
    rw [pairOf, List.append_assoc, scan_append name.scan_eq,
      scan_append (scan_spaces hchars before.isSpace_of_mem _),
      scan_cons_of_mem separator.byte_mem, List.append_nil, ← List.append_assoc, List.drop_left]
    dsimp only
    rw [if_pos hstop, rtrim_append_of_spaces before.isSpace_of_mem, name.trimmed.1]
  cases hbytes : name.bytes with
  | nil => exact absurd hbytes name.ne_nil
  | cons first more =>
      have hfirst := name.head_notMem first (by rw [hbytes]; rfl)
      rw [List.mem_cons, not_or] at hfirst
      have hspace := isSpace_head_of_trimmed name.trimmed first (by rw [hbytes]; rfl)
      rw [hbytes] at htext hpair
      rw [lineOf_of_rtrim htext hspace hfirst.2, if_neg hfirst.1]
      exact hpair

/-- The value of an entry without a remark. -/
theorem value_of_trailing (after : Blank) (value : Value) {trailing : List Byte}
    (htrailing : ∀ byte ∈ trailing, isSpace byte = true) :
    rtrim (ltrim (scan [] false (rtrim (after.bytes ++ value.bytes ++ trailing)))) =
      value.bytes := by
  have hchars : ∀ char ∈ ([] : List Byte), isSpace char = false := List.forall_mem_nil _
  rw [rtrim_append_of_spaces htrailing]
  by_cases hvalue : value.bytes = []
  · have hspaces : rtrim after.bytes = [] :=
      List.rdropWhile_eq_nil_iff.mpr after.isSpace_of_mem
    rw [hvalue, List.append_nil, hspaces]
    rfl
  · rw [rtrim_append_of_ne_nil (by rw [value.trimmed.1]; exact hvalue), value.trimmed.1,
      scan_append (scan_spaces hchars after.isSpace_of_mem _),
      scan_of_scan_true value.scan_eq]
    have htrim := trim_between after.isSpace_of_mem value.trimmed
      (fun byte (hbyte : byte ∈ []) => absurd hbyte List.not_mem_nil)
    rw [List.append_nil] at htrim
    exact htrim

/-- The value of an entry in front of a remark. -/
theorem value_of_remark (after : Blank) (value : Value) {gap : List Byte}
    (hgap : ∀ byte ∈ gap, isSpace byte = true) (hne : gap ≠ []) (rest : List Byte) :
    rtrim (ltrim (scan [] false (rtrim (after.bytes ++ value.bytes ++ gap ++ semicolon :: rest)))) =
      value.bytes := by
  have hchars : ∀ char ∈ ([] : List Byte), isSpace char = false := List.forall_mem_nil _
  have hsemicolon : rtrim (semicolon :: rest) = semicolon :: rtrim rest :=
    rtrim_cons_of_not_space rfl rest
  have hlast : gap.getLast?.map isSpace = some true := by
    rw [List.getLast?_eq_some_getLast hne, Option.map_some, hgap _ (List.getLast_mem hne)]
  have hcut : scan [] true (semicolon :: rtrim rest) = [] :=
    if_pos (.inr ⟨rfl, List.mem_cons_self⟩)
  rw [rtrim_append_of_ne_nil (by rw [hsemicolon]; exact List.cons_ne_nil _ _), hsemicolon,
    List.append_assoc, List.append_assoc, scan_append (scan_spaces hchars after.isSpace_of_mem _),
    scan_append (scan_of_scan_true value.scan_eq _), scan_append (scan_spaces hchars hgap _), hlast,
    Option.getD_some, hcut, List.append_nil]
  exact trim_between after.isSpace_of_mem value.trimmed hgap

/-- A line is read as the item it was written for. -/
theorem lineOf_line (item : Item) {continues : Bool}
    (hcontinues : Continued continues [item]) :
    lineOf continues (item.line ++ [newline]) = item.meaning := by
  cases item with
  | blank spaces => exact lineOf_blank spaces continues
  | comment indent sign text =>
      rw [Item.line, List.append_assoc, List.cons_append]
      exact lineOf_comment indent sign _ continues
  | heading name rest =>
      rw [Item.line, List.cons_append, List.append_assoc, List.cons_append]
      exact lineOf_heading name _ continues
  | entry name before separator after value trailing remark =>
      rw [Item.line, List.append_assoc, List.cons_append, lineOf_entry_name, Item.meaning]
      cases remark with
      | none =>
          rw [Option.map_none, Option.getD_none, List.append_nil, List.append_assoc,
            value_of_trailing after value (isSpace_end trailing.isSpace_of_mem)]
      | some remark =>
          have hgap : ∀ byte ∈ trailing.bytes ++ remark.gap.bytes, isSpace byte = true := by
            intro byte hbyte
            rcases List.mem_append.mp hbyte with hmem | hmem
            · exact trailing.isSpace_of_mem byte hmem
            · exact remark.gap.isSpace_of_mem byte hmem
          have hne : trailing.bytes ++ remark.gap.bytes ≠ [] :=
            List.append_ne_nil_of_right_ne_nil _ remark.gap_ne_nil
          have hvalue := value_of_remark after value hgap hne (remark.text.bytes ++ [newline])
          rw [Option.map_some, Option.getD_some, Remark.bytes]
          simp only [List.append_assoc, List.cons_append] at hvalue ⊢
          rw [hvalue]
  | more indent hindent value trailing =>
      obtain ⟨rfl, -⟩ := hcontinues
      exact lineOf_more indent hindent value trailing

/-! ## Files read back -/

theorem notMem_line {byte : Byte} (hbyte : byte = 0 ∨ byte = newline) (item : Item) :
    byte ∉ item.line := by
  have hinline : ∀ part : Inline, byte ∉ part.bytes := by
    intro part
    rcases hbyte with rfl | rfl
    · exact part.zero_notMem
    · exact part.newline_notMem
  have hsigns : byte ≠ bracketOpen ∧ byte ≠ bracketClose ∧ byte ≠ equalSign ∧ byte ≠ colon ∧
      byte ≠ semicolon ∧ byte ≠ hash := by
    rcases hbyte with rfl | rfl <;> decide
  cases item with
  | blank spaces => exact hinline spaces.toInline
  | comment indent sign text =>
      have hsign : byte ≠ sign.byte := by cases sign <;> simp [CommentSign.byte, hsigns]
      simp [Item.line, hinline, hsign]
  | heading name rest => simp [Item.line, hinline, hsigns]
  | entry name before separator after value trailing remark =>
      have hseparator : byte ≠ separator.byte := by
        cases separator <;> simp [Separator.byte, hsigns]
      cases remark <;> simp [Item.line, Remark.bytes, hinline, hseparator, hsigns]
  | more indent hindent value trailing => simp [Item.line, hinline]

theorem text_line (item : Item) : text (item.line ++ [newline]) = item.line ++ [newline] := by
  apply text_of_notMem
  intro hmem
  rcases List.mem_append.mp hmem with hline | hend
  · exact notMem_line (.inl rfl) item hline
  · exact absurd (List.mem_singleton.mp hend) (by decide)

theorem newline_notMem_withMark (mark : Bool) (items : List Item) :
    ∀ line ∈ withMark mark (items.map Item.line), newline ∉ line := by
  have hplain : ∀ line ∈ items.map Item.line, newline ∉ line := by
    intro line hline
    obtain ⟨item, -, rfl⟩ := List.mem_map.mp hline
    exact notMem_line (.inr rfl) item
  cases hlines : items.map Item.line with
  | nil => exact fun line hline => absurd hline List.not_mem_nil
  | cons first rest =>
      rw [hlines, List.forall_mem_cons] at hplain
      rw [withMark, List.forall_mem_cons]
      refine ⟨?_, hplain.2⟩
      cases mark with
      | false => exact hplain.1
      | true =>
          intro hmem
          rcases List.mem_append.mp hmem with hmark | hfirst
          · exact absurd hmark (by decide)
          · exact hplain.1 hfirst

theorem withoutMark_withMark {mark : Bool} {lines : List (List Byte)}
    (hunmarked : mark = false → ∀ first ∈ lines.head?, ¬byteOrderMark <+: first) :
    withoutMark ((withMark mark lines).map (· ++ [newline])) = lines.map (· ++ [newline]) := by
  cases lines with
  | nil => rfl
  | cons first rest =>
      rw [withMark, List.map_cons, withoutMark, List.map_cons]
      cases mark with
      | false =>
          have hfirst := hunmarked rfl first rfl
          rw [← byteOrderMark_isPrefix_iff (show newline ∉ byteOrderMark by decide) first []]
            at hfirst
          rw [if_neg Bool.false_ne_true, if_neg hfirst]
      | true =>
          rw [if_pos rfl, List.append_assoc, if_pos (List.prefix_append _ _)]
          rfl

theorem length_withMark (mark : Bool) (lines : List (List Byte)) :
    (withMark mark lines).length = lines.length := by
  cases lines <;> rfl

theorem Document.length_render_le (document : Document) :
    document.render.length ≤ document.items.length * (iniMaxLine - 1) := by
  have hlines : ∀ line ∈ (withMark document.mark (document.items.map Item.line)).map
      (· ++ [newline]), line.length ≤ iniMaxLine - 1 := by
    intro line hline
    obtain ⟨body, hbody, rfl⟩ := List.mem_map.mp hline
    rw [List.length_append]
    exact Nat.succ_le_succ (document.length_le body hbody)
  have hflatten := length_flatten_le hlines
  rw [List.length_map, length_withMark, List.length_map] at hflatten
  exact hflatten

/-- The lines the parser reads are those that were written. -/
theorem textLines_render (document : Document) :
    textLines document.render = document.items.map fun item => item.line ++ [newline] := by
  have hread := @lines_flatten_append _ _ newline (iniMaxLine - 2) _
    (newline_notMem_withMark document.mark document.items) document.length_le []
  rw [List.append_nil, lines_nil, List.append_nil] at hread
  rw [textLines, Document.render, hread, withoutMark_withMark document.unmarked, List.map_map,
    List.map_map]
  exact List.map_congr_left fun item _ => text_line item

variable {User : Type} {handler : Handler User}

/-- A handler that accepts every entry. -/
def Accepts (handler : Handler User) (next : User → Entry → User) : Prop :=
  ∀ user (entry : Entry), ∃ result, result ≠ 0 ∧
    handler user entry.sectionName entry.name entry.value = .ok (result, next user entry)

theorem verdict_of_accepts {next : User → Entry → User} (haccepts : Accepts handler next)
    (user : User) (entry : Entry) :
    verdict handler user (.call entry) = .ok (true, next user entry) := by
  obtain ⟨result, hresult, hcall⟩ := haccepts user entry
  rw [verdict, hcall]
  simp [Except.map, hresult]

theorem verdicts_of_accepts {next : User → Entry → User} (haccepts : Accepts handler next)
    {outcomes : List Outcome} (hmalformed : .malformed ∉ outcomes) (user : User) :
    verdicts handler user outcomes =
      .ok (List.replicate outcomes.length true, (called outcomes).foldl next user) := by
  induction outcomes generalizing user with
  | nil => rfl
  | cons outcome rest ih =>
      rw [List.mem_cons, not_or] at hmalformed
      rw [verdicts]
      cases outcome with
      | quiet =>
          simp only [verdict, ok_bind, ih hmalformed.2, List.length_cons, List.replicate_succ,
            called]
      | malformed => exact absurd rfl hmalformed.1
      | call entry =>
          simp only [verdict_of_accepts haccepts, ok_bind, ih hmalformed.2, List.length_cons,
            List.replicate_succ, called, List.foldl_cons]

/-- The items one after the other, with what is known of the lines before. -/
theorem outcomes_items {items : List Item} {sectionName prevName : List Byte}
    (hcontinued : Continued (prevName ≠ []) items) :
    called (outcomes ⟨sectionName, prevName⟩ (items.map fun item => item.line ++ [newline])) =
        Document.entriesFrom sectionName prevName items ∧
      .malformed ∉ outcomes ⟨sectionName, prevName⟩
        (items.map fun item => item.line ++ [newline]) := by
  induction items generalizing sectionName prevName with
  | nil => exact ⟨rfl, List.not_mem_nil⟩
  | cons item rest ih =>
      have hitem : Scope.lineOf ⟨sectionName, prevName⟩ (item.line ++ [newline]) =
          item.meaning := by
        apply lineOf_line
        cases item with
        | more => exact ⟨hcontinued.1, trivial⟩
        | _ => trivial
      rw [List.map_cons, outcomes, hitem, List.mem_cons, not_or]
      cases item with
      | blank spaces =>
          obtain ⟨hcalled, hmalformed⟩ := @ih sectionName prevName hcontinued
          exact ⟨hcalled, Outcome.noConfusion, hmalformed⟩
      | comment indent sign text =>
          obtain ⟨hcalled, hmalformed⟩ := @ih sectionName prevName hcontinued
          exact ⟨hcalled, Outcome.noConfusion, hmalformed⟩
      | heading name text =>
          have hname : name.bytes.take (maxSection - 1) = name.bytes :=
            List.take_of_length_le (Nat.le_of_lt_succ name.length_lt)
          have hnone : decide (([] : List Byte) ≠ []) = false := rfl
          obtain ⟨hcalled, hmalformed⟩ := @ih name.bytes [] (by rw [hnone]; exact hcontinued)
          simp only [Item.meaning, Scope.outcome, Scope.after, hname]
          exact ⟨hcalled, Outcome.noConfusion, hmalformed⟩
      | entry name before separator after value trailing remark =>
          have hname : name.bytes.take (maxName - 1) = name.bytes :=
            List.take_of_length_le (Nat.le_of_lt_succ name.length_lt)
          have hsome : decide (name.bytes ≠ []) = true := decide_eq_true name.ne_nil
          obtain ⟨hcalled, hmalformed⟩ :=
            @ih sectionName name.bytes (by rw [hsome]; exact hcontinued)
          simp only [Item.meaning, Scope.outcome, Scope.after, hname]
          exact ⟨congrArg _ hcalled, Outcome.noConfusion, hmalformed⟩
      | more indent hindent value trailing =>
          obtain ⟨hcalled, hmalformed⟩ := @ih sectionName prevName hcontinued.2
          exact ⟨congrArg _ hcalled, Outcome.noConfusion, hmalformed⟩

/-- The parser finds the entries of a document in its file, and no malformed line. -/
theorem outcomes_render (document : Document) :
    called (outcomes .top (textLines document.render)) = document.entries ∧
      .malformed ∉ outcomes .top (textLines document.render) := by
  rw [textLines_render]
  exact @outcomes_items document.items [] [] document.continued

theorem firstError_replicate_true (count : Nat) : firstError (List.replicate count true) = 0 := by
  refine if_neg fun hmem => ?_
  exact absurd (List.eq_of_mem_replicate hmem) Bool.false_ne_true

theorem parseText_render (document : Document) {next : User → Entry → User}
    (haccepts : Accepts handler next) (user : User) :
    parseText document.render handler user = .ok (0, document.entries.foldl next user) := by
  obtain ⟨hcalled, hmalformed⟩ := outcomes_render document
  rw [parseText, verdicts_of_accepts haccepts hmalformed, Except.map]
  dsimp only
  rw [firstError_replicate_true, hcalled]

/-- `ini_parse` reads back the file of any document: it returns 0 and has
called a handler that accepts everything for the entries of the document, each
under its section, in their order. -/
theorem parse_render (document : Document) {next : User → Entry → User}
    (haccepts : Accepts handler next) (user : User) {rounds : Nat} {stack : List Byte}
    (hstack : stack.length = iniMaxLine) (hfile : (document.render.length : Int) ≤ intMax)
    (hrounds : document.render.length < rounds) :
    parse rounds stack (some document.render) handler user =
      some (.ok (0, document.entries.foldl next user)) := by
  rw [parse, parseFile_eq hstack hfile hrounds, parseText_render document haccepts]

def oneSpace : Blank :=
  ⟨⟨[32], by decide, by decide⟩, List.forall_mem_singleton.mpr rfl⟩

/-- `a`, as a name, a value and a continuation. -/
def letterName : Name :=
  ⟨⟨[97], by decide, by decide⟩, by decide, ⟨rfl, rfl⟩, rfl, head_notMem_of_cons (by decide),
    List.cons_ne_nil _ _⟩
def letterValue : Value := ⟨⟨[97], by decide, by decide⟩, ⟨rfl, rfl⟩, rfl⟩
def letterMore : More :=
  ⟨⟨[97], by decide, by decide⟩, ⟨rfl, rfl⟩, head_notMem_of_cons (by decide),
    List.cons_ne_nil _ _⟩

def letterSection : SectionName := ⟨⟨[97], by decide, by decide⟩, by decide, rfl⟩

/-- A byte order mark, `[a]`, `a : a ;` and the continuation ` a`. -/
def sampleDocument : Document where
  items := [.heading letterSection noBlank.toInline,
    .entry letterName oneSpace .colon oneSpace letterValue noBlank
      (some ⟨oneSpace, List.cons_ne_nil _ _, noBlank.toInline⟩),
    .more oneSpace (List.cons_ne_nil _ _) letterMore oneSpace]
  mark := true
  continued := ⟨rfl, trivial⟩
  length_le := List.forall_mem_cons.mpr ⟨by decide, List.forall_mem_cons.mpr ⟨by decide,
    List.forall_mem_singleton.mpr (by decide)⟩⟩
  unmarked := fun hmark => absurd hmark Bool.true_eq_false.mp

theorem recorder_accepts : Accepts recorder fun seen entry => seen ++ [entry] :=
  fun _ _ => ⟨1, by decide, rfl⟩

theorem parse_render_sample :
    parse 30 (List.replicate 200 7) (some sampleDocument.render) recorder [] =
      some (.ok (0, [⟨[97], [97], [97]⟩, ⟨[97], [97], [97]⟩])) :=
  parse_render sampleDocument recorder_accepts [] List.length_replicate (by decide) (by decide)

end CcCvStore.Ini
