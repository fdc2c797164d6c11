import CcCvStore.Config.Ini
import Mathlib.Data.List.DropRight

/-!
# The parser on texts

What a line of an `.ini` file means, stated on its text: no buffer, no NULs, no
pointers.  The second half says what each helper of `ini.c` does to a line that
holds a text between two other parts.
-/

namespace CcCvStore.Ini

open CcCvStore.CInteger
open CcCvStore.CString
open CcCvStore.Effect
open CcCvStore.TextLines

def rtrim (text : List Byte) : List Byte := text.rdropWhile isSpace

def ltrim (text : List Byte) : List Byte := text.dropWhile isSpace

/-- The part of a text before the first of `chars` or an inline comment. -/
def scan (chars : List Byte) (wasSpace : Bool) : List Byte → List Byte
  | [] => []
  | char :: text =>
      if char ∈ chars ∨ (wasSpace ∧ char ∈ inlineCommentPrefixes) then []
      else char :: scan chars (isSpace char) text

/-- A line of an `.ini` file. -/
inductive Line where
  /-- A comment or a blank line. -/
  | skipped
  | heading (name : List Byte)
  | pair (name value : List Byte)
  /-- An indented line that goes on with the previous name. -/
  | continued (value : List Byte)
  | malformed
  deriving DecidableEq

/-- The line `[text`. -/
def headingOf (text : List Byte) : Line :=
  let name := scan [bracketClose] false text
  match text.drop name.length with
  | [] => .malformed
  | stop :: _ => if stop = bracketClose then .heading name else .malformed

def pairOf (text : List Byte) : Line :=
  let name := scan [equalSign, colon] false text
  match text.drop name.length with
  | [] => .malformed
  | stop :: value =>
      if stop = equalSign ∨ stop = colon then
        .pair (rtrim name) (rtrim (ltrim (scan [] false value)))
      else .malformed

/-- What a line is, where `continues` says that it may continue a name. -/
def lineOf (continues : Bool) (text : List Byte) : Line :=
  let start := ltrim (rtrim text)
  match start with
  | [] => .skipped
  | first :: rest =>
      if first ∈ startCommentPrefixes then .skipped
      else if continues ∧ start ≠ rtrim text then .continued start
      else if first = bracketOpen then headingOf rest
      else pairOf start

/-- What earlier lines mean for the next one; an empty `prevName` is none. -/
structure Scope where
  sectionName : List Byte
  prevName : List Byte
  deriving DecidableEq

def Scope.top : Scope := ⟨[], []⟩

def Scope.after (scope : Scope) : Line → Scope
  | .heading name => ⟨name.take (maxSection - 1), []⟩
  | .pair name _ => { scope with prevName := name.take (maxName - 1) }
  | .skipped | .continued _ | .malformed => scope

/-- What the handler is called with. -/
structure Entry where
  sectionName : List Byte
  name : List Byte
  value : List Byte
  deriving DecidableEq, Repr

/-- What a line makes the parser do. -/
inductive Outcome where
  | quiet
  | malformed
  | call (entry : Entry)
  deriving DecidableEq

def Scope.outcome (scope : Scope) : Line → Outcome
  | .skipped | .heading _ => .quiet
  | .pair name value => .call ⟨scope.sectionName, name, value⟩
  | .continued value => .call ⟨scope.sectionName, scope.prevName, value⟩
  | .malformed => .malformed

def Scope.lineOf (scope : Scope) (text : List Byte) : Line :=
  Ini.lineOf (scope.prevName ≠ []) text

def outcomes : Scope → List (List Byte) → List Outcome
  | _, [] => []
  | scope, text :: rest =>
      scope.outcome (scope.lineOf text) :: outcomes (scope.after (scope.lineOf text)) rest

/-- The entries the handler is called for. -/
def called : List Outcome → List Entry
  | [] => []
  | .call entry :: rest => entry :: called rest
  | .quiet :: rest | .malformed :: rest => called rest

variable {User : Type}

/-- The parser accepts the line, and what its handler makes of the user data. -/
def verdict (handler : Handler User) (user : User) : Outcome → Except Fault (Bool × User)
  | .quiet => .ok (true, user)
  | .malformed => .ok (false, user)
  | .call entry =>
      (handler user entry.sectionName entry.name entry.value).map
        fun (result, user) => (result ≠ 0, user)

def verdicts (handler : Handler User) : User → List Outcome → Except Fault (List Bool × User)
  | user, [] => .ok ([], user)
  | user, outcome :: rest => do
      let (good, user) ← verdict handler user outcome
      let (more, user) ← verdicts handler user rest
      .ok (good :: more, user)

/-- The number of the first line that was not accepted, and 0 without one. -/
def firstError (verdicts : List Bool) : Int :=
  if false ∈ verdicts then verdicts.idxOf false + 1 else 0

/-- A byte order mark in front of the first line does not count. -/
def withoutMark : List (List Byte) → List (List Byte)
  | [] => []
  | first :: rest => (if byteOrderMark <+: first then first.drop 3 else first) :: rest

/-- The texts of the lines of a file. -/
def textLines (file : List Byte) : List (List Byte) :=
  (withoutMark (lines newline (iniMaxLine - 2) file)).map text

/-- What parsing a file means. -/
def parseText (file : List Byte) (handler : Handler User) (user : User) :
    Except Fault (Int × User) :=
  (verdicts handler user (outcomes .top (textLines file))).map fun (verdicts, user) =>
    (firstError verdicts, user)

/-! ## Access to arrays -/

theorem readByte_append (before : List Byte) (byte : Byte) (after : List Byte) :
    readByte (before ++ byte :: after) before.length = .ok byte := by
  rw [readByte, List.getElem?_append_right (Nat.le_refl _), Nat.sub_self,
    List.getElem?_cons_zero]

theorem writeByte_append (before : List Byte) (old new : Byte) (after : List Byte) :
    writeByte (before ++ old :: after) before.length new = .ok (before ++ new :: after) := by
  have hlt : before.length < (before ++ old :: after).length := by
    rw [List.length_append, List.length_cons]
    omega
  rw [writeByte, if_pos hlt, List.set_append_right _ _ (Nat.le_refl _), Nat.sub_self,
    List.set_cons_zero]

theorem arrayStr_append_zero {bytes : List Byte} (hnul : 0 ∉ bytes) (rest : List Byte) :
    arrayStr (bytes ++ 0 :: rest) = .ok ⟨bytes, hnul⟩ := by
  have hmem : 0 ∈ bytes ++ 0 :: rest := List.mem_append_right _ List.mem_cons_self
  rw [arrayStr_of_mem hmem]
  congr 1
  exact Str.ext (text_append_nul hnul rest)

theorem strchr_of_ne_zero {char : Byte} (hchar : char ≠ 0) (chars : List Byte) :
    strchr chars char = decide (char ∈ chars) := by
  have hzero : (char == 0) = false := beq_eq_false_iff_ne.mpr hchar
  rw [strchr, hzero, Bool.false_or, List.contains_eq_mem]

/-! ## The helpers -/

theorem rtrim_isPrefix (body : List Byte) : rtrim body <+: body :=
  List.rdropWhile_prefix isSpace body

theorem length_rtrim_le (body : List Byte) : (rtrim body).length ≤ body.length :=
  (rtrim_isPrefix body).length_le

theorem notMem_rtrim {byte : Byte} {body : List Byte} (hbyte : byte ∉ body) :
    byte ∉ rtrim body := fun hmem => hbyte ((rtrim_isPrefix body).subset hmem)

theorem notMem_ltrim {byte : Byte} {body : List Byte} (hbyte : byte ∉ body) :
    byte ∉ ltrim body := fun hmem => hbyte ((List.dropWhile_suffix isSpace).subset hmem)

/-- The loop removes the spaces one by one from the end. -/
theorem rstripLoop_append (before body tail : List Byte) :
    rstripLoop (before ++ (body ++ tail)) before.length (before.length + body.length) =
      .ok (before ++ (rtrim body ++
        (List.replicate (body.length - (rtrim body).length) 0 ++ tail))) := by
  induction body using List.reverseRecOn generalizing tail with
  | nil =>
      rw [List.length_nil, Nat.add_zero]
      cases hlength : before.length with
      | zero => rfl
      | succ count =>
          rw [rstripLoop, if_neg (Nat.lt_irrefl _)]
          rfl
  | append_singleton body char ih =>
      have hsplit : before ++ (body ++ [char] ++ tail) = (before ++ body) ++ char :: tail := by
        simp only [List.append_assoc, List.singleton_append]
      have hindex : before.length + (body ++ [char]).length = (before ++ body).length + 1 := by
        simp only [List.length_append, List.length_singleton]
        omega
      have hlt : before.length < (before ++ body).length + 1 := by
        rw [List.length_append]
        omega
      rw [hindex, rstripLoop, if_pos hlt, hsplit, readByte_append, ok_bind]
      by_cases hspace : isSpace char
      · have htrim : rtrim (body ++ [char]) = rtrim body :=
          List.rdropWhile_concat_pos isSpace body char hspace
        have hcount : (body ++ [char]).length - (rtrim body).length =
            body.length - (rtrim body).length + 1 := by
          have hle := length_rtrim_le body
          rw [List.length_append, List.length_singleton]
          omega
        rw [if_pos hspace, writeByte_append, ok_bind, List.append_assoc, List.length_append,
          ih (0 :: tail), htrim, hcount, List.replicate_succ', List.append_assoc,
          List.singleton_append]
      · have htrim : rtrim (body ++ [char]) = body ++ [char] :=
          List.rdropWhile_concat_neg isSpace body char hspace
        rw [if_neg hspace, htrim, Nat.sub_self]
        simp only [List.append_assoc, List.replicate_zero, List.nil_append, List.singleton_append]

theorem rstrip_append (before : List Byte) {body : List Byte} (hnul : 0 ∉ body)
    (rest : List Byte) :
    rstrip (before ++ (body ++ 0 :: rest)) before.length =
      .ok (before ++ (rtrim body ++
        0 :: (List.replicate (body.length - (rtrim body).length) 0 ++ rest))) := by
  rw [rstrip, List.drop_left, arrayStr_append_zero hnul, ok_bind, rstripLoop_append,
    ← List.cons_append, ← List.replicate_succ, List.replicate_succ', List.append_assoc,
    List.singleton_append]

theorem lskip_append (body rest : List Byte) :
    lskip (body ++ 0 :: rest) = .ok (body.takeWhile isSpace).length := by
  induction body with
  | nil => rfl
  | cons char body ih =>
      by_cases hspace : isSpace char
      · have hne : (char != 0 && isSpace char) = true := by
          rw [hspace, Bool.and_true, bne_iff_ne]
          rintro rfl
          exact absurd hspace Bool.false_ne_true
        rw [List.cons_append, lskip, if_pos hne, ih, List.takeWhile_cons_of_pos hspace]
        rfl
      · have hfalse : ¬(char != 0 && isSpace char) = true := fun htrue =>
          hspace (Bool.and_eq_true_iff.mp htrue).2
        rw [List.cons_append, lskip, if_neg hfalse, List.takeWhile_cons_of_neg hspace]
        rfl

theorem takeWhile_append_ltrim (body : List Byte) :
    body.takeWhile isSpace ++ ltrim body = body := List.takeWhile_append_dropWhile

theorem scan_isPrefix (chars : List Byte) (wasSpace : Bool) (body : List Byte) :
    scan chars wasSpace body <+: body := by
  induction body generalizing wasSpace with
  | nil => exact List.nil_prefix
  | cons char body ih =>
      rw [scan]
      split
      · exact List.nil_prefix
      · exact List.cons_prefix_cons.mpr ⟨rfl, ih _⟩

theorem scan_append_drop (chars : List Byte) (wasSpace : Bool) (body : List Byte) :
    scan chars wasSpace body ++ body.drop (scan chars wasSpace body).length = body :=
  List.prefix_iff_eq_append.mp (scan_isPrefix chars wasSpace body)

theorem findCharsOrComment_append (chars : Option (List Byte)) (wasSpace : Bool)
    {body : List Byte} (hnul : 0 ∉ body) (rest : List Byte) :
    findCharsOrComment chars wasSpace (body ++ 0 :: rest) =
      .ok (scan (chars.getD []) wasSpace body).length := by
  induction body generalizing wasSpace with
  | nil => rfl
  | cons char body ih =>
      rw [List.mem_cons, not_or] at hnul
      have hchar : char ≠ 0 := fun heq => hnul.1 heq.symm
      have hany : chars.any (strchr · char) = decide (char ∈ chars.getD []) := by
        cases chars with
        | none => rfl
        | some chars => exact strchr_of_ne_zero hchar chars
      have hgoOn : (char != 0 && !(chars.any (strchr · char)) &&
          !(wasSpace && strchr inlineCommentPrefixes char)) = true ↔
          ¬(char ∈ chars.getD [] ∨ (wasSpace ∧ char ∈ inlineCommentPrefixes)) := by
        rw [hany, strchr_of_ne_zero hchar, bne_iff_ne.mpr hchar]
        cases wasSpace <;> simp
      rw [List.cons_append, findCharsOrComment, scan]
      by_cases hstop : char ∈ chars.getD [] ∨ (wasSpace ∧ char ∈ inlineCommentPrefixes)
      · rw [if_pos hstop, if_neg fun hgo => hgoOn.mp hgo hstop]
        rfl
      · rw [if_neg hstop, if_pos (hgoOn.mpr hstop), ih _ hnul.2]
        rfl

/-- `strncpy0` from the end of what it has already written on. -/
theorem strncpy0From_append {before tail body : List Byte} {count size : Nat}
    (htail : tail.length = count + 1) (hsize : sizeSub size 1 = before.length + count)
    (hnul : 0 ∉ body) (rest : List Byte) :
    ∃ after, strncpy0From (before ++ tail) size before.length (body ++ 0 :: rest) =
      .ok (before ++ (body.take count ++ 0 :: after)) ∧
        (body.take count ++ 0 :: after).length = tail.length := by
  induction body generalizing before tail count with
  | nil =>
      obtain ⟨old, after, rfl⟩ := List.exists_cons_of_length_eq_add_one htail
      refine ⟨after, ?_, by rw [List.take_nil]; rfl⟩
      rw [List.nil_append, strncpy0From, if_neg (fun hand => hand.2 rfl), writeByte_append,
        List.take_nil, List.nil_append]
  | cons char body ih =>
      rw [List.mem_cons, not_or] at hnul
      obtain ⟨old, after, rfl⟩ := List.exists_cons_of_length_eq_add_one htail
      have hchar : char ≠ 0 := fun heq => hnul.1 heq.symm
      cases count with
      | zero =>
          refine ⟨after, ?_, rfl⟩
          rw [List.cons_append, strncpy0From, hsize, if_neg (fun hand => Nat.lt_irrefl _ hand.1),
            writeByte_append]
          rfl
      | succ count =>
          have hlt : before.length < sizeSub size 1 := by omega
          have hlength : (before ++ [char]).length = before.length + 1 := List.length_append
          obtain ⟨rest', hcopy, hafter⟩ := @ih (before ++ [char]) after count
            (Nat.succ.inj htail) (by rw [hsize, hlength]; omega) hnul.2
          refine ⟨rest', ?_, ?_⟩
          · rw [List.cons_append, strncpy0From, if_pos ⟨hlt, hchar⟩, writeByte_append, ok_bind,
              ← hlength, List.append_cons, hcopy, List.take_succ_cons, List.append_assoc]
            rfl
          · rw [List.take_succ_cons, List.cons_append, List.length_cons, hafter, List.length_cons]

end CcCvStore.Ini
