import CcCvStore.Config.IniRefinement

/-!
# Parsing whole files

`fgets` and `ini_reader_string` read the same lines, and `ini_parse_stream`
over either of them does what the text of the file means.
-/

namespace CcCvStore.Ini

open CcCvStore.CInteger
open CcCvStore.CString
open CcCvStore.Effect
open CcCvStore.TextLines

variable {User Source : Type} {handler : Handler User}

/-! ## Readers -/

/-- The next line of a content, as long as the line buffer allows. -/
def nextLine (content : List Byte) : List Byte := takeLine newline (iniMaxLine - 1) content

/-- A reader with the content that is still to be read from a stream. -/
structure Reads (reader : Reader Source) (Left : Source → List Byte → Prop) : Prop where
  of_nil : ∀ str stream, Left stream [] →
    ∃ after, reader str iniMaxLine stream = .ok (none, after)
  of_ne_nil : ∀ str stream content, str.length = iniMaxLine → content ≠ [] →
    Left stream content → ∃ junk after,
      reader str iniMaxLine stream = .ok (some (nextLine content ++ 0 :: junk), after) ∧
      (nextLine content ++ 0 :: junk).length = iniMaxLine ∧
      Left after (content.drop (nextLine content).length)

theorem nextLine_ne_nil {content : List Byte} (hcontent : content ≠ []) :
    nextLine content ≠ [] := by
  obtain ⟨byte, rest, rfl⟩ := List.exists_cons_of_ne_nil hcontent
  exact takeLine_cons_ne_nil _ _ _

theorem length_nextLine_lt (content : List Byte) : (nextLine content).length < iniMaxLine :=
  Nat.lt_of_le_of_lt (length_takeLine_le _ _) (by decide)

theorem reads_fgets : Reads fgets (fun stream content => stream = content) := by
  constructor
  · rintro str stream rfl
    exact ⟨[], rfl⟩
  · rintro str stream content hlength hcontent rfl
    have hlt : (nextLine stream).length < str.length := hlength ▸ length_nextLine_lt stream
    have hsplit : overlay (nextLine stream ++ [0]) str =
        nextLine stream ++ 0 :: str.drop (nextLine stream ++ [0]).length := by
      rw [overlay, List.append_assoc, List.singleton_append]
    refine ⟨str.drop (nextLine stream ++ [0]).length, stream.drop (nextLine stream).length,
      ?_, ?_, rfl⟩
    · have hcopy : strcpyArray str (nextLine stream) =
          .ok (nextLine stream ++ 0 :: str.drop (nextLine stream ++ [0]).length) := by
        rw [← hsplit]
        exact if_pos hlt
      have hne := nextLine_ne_nil hcontent
      rw [fgets, ← nextLine]
      cases hline : nextLine stream with
      | nil => exact absurd hline hne
      | cons byte line =>
          rw [hline] at hcopy
          dsimp only
          rw [hcopy, ok_bind]
    · rw [← hsplit, length_overlay, hlength]
      rw [List.length_append]
      exact hlt

/-- The loop of `ini_reader_string` copies one line into the array. -/
theorem readerStringLoop_eq {before tail : List Byte} {num : Nat} (hroom : num ≤ tail.length)
    (content rest : List Byte) :
    readerStringLoop (before ++ tail) num before.length (content ++ rest) content.length =
      .ok (before ++ takeLine newline (num - 1) content ++
          tail.drop (takeLine newline (num - 1) content).length,
        before.length + (takeLine newline (num - 1) content).length,
        ⟨content.drop (takeLine newline (num - 1) content).length ++ rest,
          content.length - (takeLine newline (num - 1) content).length⟩) := by
  induction content generalizing before tail num with
  | nil =>
      have hline : takeLine newline (num - 1) [] = [] := by cases num - 1 <;> rfl
      rw [hline]
      simp [readerStringLoop]
  | cons byte content ih =>
      rw [List.length_cons, List.cons_append, readerStringLoop]
      by_cases hnum : 1 < num
      · obtain ⟨num, rfl⟩ := Nat.exists_eq_add_of_le' hnum
        obtain ⟨old, tail, rfl⟩ := List.exists_cons_of_length_pos (l := tail) (by omega)
        rw [if_pos hnum, writeByte_append, ok_bind]
        have hlimit : num + 1 + 1 - 1 = num + 1 := rfl
        rw [hlimit, takeLine]
        by_cases hnewline : byte = newline
        · rw [if_pos hnewline, if_pos hnewline]
          simp
        · have hbefore : before ++ byte :: tail = (before ++ [byte]) ++ tail := by simp
          have hlength : before.length + 1 = (before ++ [byte]).length := by simp
          rw [if_neg hnewline, if_neg hnewline, hbefore, hlength,
            ih (Nat.le_of_succ_le_succ hroom)]
          simp [Nat.add_assoc, Nat.add_comm 1]
      · have hline : takeLine newline (num - 1) (byte :: content) = [] := by
          rw [show num - 1 = 0 by omega]
          rfl
        rw [if_neg hnum, hline]
        simp

theorem reads_readerString : Reads readerString
    (fun ctx content => ctx.numLeft = content.length ∧ ∃ rest, ctx.ptr = content ++ rest) := by
  constructor
  · rintro str ctx ⟨hleft, -⟩
    exact ⟨ctx, if_pos (.inl hleft)⟩
  · rintro str ctx content hlength hcontent ⟨hleft, rest, hptr⟩
    have hpos := List.length_pos_of_ne_nil hcontent
    have hlt := length_nextLine_lt content
    have hloop := @readerStringLoop_eq [] str iniMaxLine hlength.ge content rest
    rw [← nextLine, List.nil_append, List.length_nil, List.nil_append, Nat.zero_add] at hloop
    obtain ⟨old, junk, hjunk⟩ : ∃ old junk, str.drop (nextLine content).length = old :: junk :=
      List.exists_cons_of_length_pos (by
        rw [List.length_drop]
        omega)
    refine ⟨junk, ⟨content.drop (nextLine content).length ++ rest,
      content.length - (nextLine content).length⟩, ?_, ?_, ?_, rest, rfl⟩
    · rw [readerString, if_neg (by rw [hleft]; exact not_or.mpr ⟨by omega, by decide⟩), hptr,
        hleft, hloop, ok_bind]
      dsimp only
      rw [hjunk, writeByte_append, ok_bind]
    · have hdrop := congrArg List.length hjunk
      rw [List.length_drop, List.length_cons] at hdrop
      rw [List.length_append, List.length_cons]
      omega
    · rw [List.length_drop]

/-! ## The loop -/

@[simp]
theorem Locals.settle_lineno (locals : Locals User) (good : Bool) (user : User) :
    (locals.settle good user).lineno = locals.lineno := by
  cases good <;> rfl

@[simp]
theorem Locals.settle_user (locals : Locals User) (good : Bool) (user : User) :
    (locals.settle good user).user = user := by
  cases good <;> rfl

theorem Agrees.settle {locals : Locals User} {scope : Scope} (hagrees : Agrees locals scope)
    (good : Bool) (user : User) : Agrees (locals.settle good user) scope := by
  cases good <;> exact ⟨hagrees.length_line, hagrees.sectionName, hagrees.prevName⟩

/-- The result of the parser after lines with these verdicts, from where it has
read `lineno` lines with `error` as its result. -/
def errorAfter (lineno error : Int) (verdicts : List Bool) : Int :=
  if error ≠ 0 then error
  else if false ∈ verdicts then lineno + verdicts.idxOf false + 1
  else 0

theorem errorAfter_nil (lineno error : Int) : errorAfter lineno error [] = error := by
  rw [errorAfter, if_neg List.not_mem_nil]
  by_cases herror : error = 0
  · rw [if_neg (not_not.mpr herror), herror]
  · rw [if_pos herror]

theorem errorAfter_settle {locals : Locals User} (hlineno : 0 < locals.lineno) (good : Bool)
    (user : User) (verdicts : List Bool) :
    errorAfter locals.lineno (locals.settle good user).error verdicts =
      errorAfter (locals.lineno - 1) locals.error (good :: verdicts) := by
  cases good with
  | true =>
      simp only [Locals.settle, if_true, errorAfter, List.mem_cons, Bool.false_eq_true, false_or,
        List.idxOf_cons_ne verdicts (show true ≠ false by decide)]
      split
      · rfl
      · split
        · omega
        · rfl
  | false =>
      simp only [Locals.settle, Bool.false_eq_true, if_false, Locals.fail, errorAfter,
        List.mem_cons, true_or, if_true, List.idxOf_cons_self]
      by_cases herror : locals.error = 0
      · rw [if_pos herror, if_pos (by omega), if_neg (not_not.mpr herror)]
        omega
      · rw [if_neg herror, if_pos herror, if_pos herror]

/-- The texts of the lines that follow `lineno` lines. -/
def textsAfter (lineno : Int) (content : List Byte) : List (List Byte) :=
  (if lineno = 0 then withoutMark (lines newline (iniMaxLine - 2) content)
    else lines newline (iniMaxLine - 2) content).map text

@[simp]
theorem textsAfter_nil (lineno : Int) : textsAfter lineno [] = [] := by
  rw [textsAfter, lines_nil]
  split <;> rfl

theorem textsAfter_of_ne_nil {lineno : Int} (hlineno : 0 ≤ lineno) {content : List Byte}
    (hcontent : content ≠ []) :
    textsAfter lineno content = text (lineStart (lineno + 1) (nextLine content)) ::
      textsAfter (lineno + 1) (content.drop (nextLine content).length) := by
  have hlater : ¬lineno + 1 = 0 := by omega
  have hlines : lines newline (iniMaxLine - 2) content = nextLine content ::
      lines newline (iniMaxLine - 2) (content.drop (nextLine content).length) :=
    lines_of_ne_nil _ hcontent
  rw [textsAfter, textsAfter, if_neg hlater, hlines, lineStart]
  by_cases hzero : lineno = 0
  · subst hzero
    simp only [if_true, withoutMark, List.map_cons, Int.zero_add, true_and]
  · have hone : ¬lineno + 1 = 1 := by omega
    simp only [hzero, hone, if_false, List.map_cons, false_and]

theorem parseLoop_eq {reader : Reader Source} {Left : Source → List Byte → Prop}
    (hreads : Reads reader Left) {rounds : Nat} {stream : Source} {content : List Byte}
    (hleft : Left stream content) (hrounds : content.length < rounds) {locals : Locals User}
    {scope : Scope} (hagrees : Agrees locals scope) (hlow : 0 ≤ locals.lineno)
    (hhigh : locals.lineno + content.length ≤ intMax)
    (hfirst : locals.lineno = 0 → scope.prevName = []) :
    (parseLoop reader handler rounds stream locals).map
        (fun result => result.map fun after => (after.error, after.user)) =
      some ((verdicts handler locals.user (outcomes scope (textsAfter locals.lineno content))).map
        fun (verdicts, user) => (errorAfter locals.lineno locals.error verdicts, user)) := by
  induction rounds generalizing stream content locals scope with
  | zero => omega
  | succ rounds ih =>
      rw [parseLoop]
      by_cases hcontent : content = []
      · subst hcontent
        obtain ⟨after, hread⟩ := hreads.of_nil locals.line stream hleft
        rw [hread, textsAfter_nil, outcomes, verdicts]
        simp only [Option.map_some, Except.map, errorAfter_nil]
      · obtain ⟨junk, after, hread, hline, hleftAfter⟩ :=
          hreads.of_ne_nil _ _ _ hagrees.length_line hcontent hleft
        have hpos := List.length_pos_of_ne_nil (nextLine_ne_nil hcontent)
        have hle : (nextLine content).length ≤ content.length :=
          (takeLine_isPrefix _ _).length_le
        have hlt : locals.lineno < intMax := by omega
        obtain ⟨done, hdone, hlineno, herror, hparse⟩ := @does_parseLine _ handler
          { locals with line := nextLine content ++ 0 :: junk } scope
          ⟨hline, hagrees.sectionName, hagrees.prevName⟩ hlow hlt hfirst _ _ rfl
        rw [hread, textsAfter_of_ne_nil hlow hcontent, outcomes, verdicts]
        dsimp only at hlineno herror hparse ⊢
        rw [hparse]
        generalize text (lineStart (locals.lineno + 1) (nextLine content)) = line at hdone ⊢
        cases hverdict : verdict handler locals.user (scope.outcome (scope.lineOf line)) with
        | error fault => rfl
        | ok judged =>
            obtain ⟨good, user⟩ := judged
            have hnext := @ih after (content.drop (nextLine content).length) hleftAfter
              (by rw [List.length_drop]; omega) (done.settle good user) _ (hdone.settle good user)
              (by rw [Locals.settle_lineno, hlineno]; omega)
              (by rw [Locals.settle_lineno, hlineno, List.length_drop]; omega)
              (by rw [Locals.settle_lineno, hlineno]; omega)
            rw [Locals.settle_lineno, Locals.settle_user] at hnext
            simp only [Except.map] at hnext ⊢
            rw [hnext, hlineno, ok_bind]
            cases hmore : verdicts handler user (outcomes (scope.after (scope.lineOf line))
                (textsAfter (locals.lineno + 1) (content.drop (nextLine content).length))) with
            | error fault => rfl
            | ok judged =>
                have herrorAfter := errorAfter_settle (by rw [hlineno]; omega) good user judged.1
                rw [hlineno, herror, Int.add_sub_cancel] at herrorAfter
                simp only [ok_bind, herrorAfter]

theorem agrees_init {stack : List Byte} (hstack : stack.length = iniMaxLine) (user : User) :
    Agrees (.init stack user) .top :=
  ⟨hstack, ⟨rfl, List.not_mem_nil, _, rfl⟩, ⟨rfl, List.not_mem_nil, _, rfl⟩⟩

/-- `ini_parse_stream` over a reader of lines does what the content means. -/
theorem parseStream_eq {reader : Reader Source} {Left : Source → List Byte → Prop}
    (hreads : Reads reader Left) {rounds : Nat} {stream : Source} {content : List Byte}
    (hleft : Left stream content) (hrounds : content.length < rounds) {stack : List Byte}
    (hstack : stack.length = iniMaxLine) (hcontent : (content.length : Int) ≤ intMax)
    (user : User) :
    parseStream rounds stack reader stream handler user =
      some (parseText content handler user) := by
  have hlength : (Locals.init stack user).lineno + content.length ≤ intMax := by
    rw [Locals.init, Int.zero_add]
    exact hcontent
  rw [parseStream, parseLoop_eq hreads hleft hrounds (agrees_init hstack user) (Int.le_refl 0)
    hlength fun _ => rfl, parseText]
  congr 2
  funext ⟨verdicts, user⟩
  simp only [Locals.init, errorAfter, ne_eq, not_true_eq_false, if_false, Int.zero_add, firstError]

theorem parseFile_eq {rounds : Nat} {stack file : List Byte} (hstack : stack.length = iniMaxLine)
    (hfile : (file.length : Int) ≤ intMax) (hrounds : file.length < rounds) (user : User) :
    parseFile rounds stack file handler user = some (parseText file handler user) :=
  parseStream_eq reads_fgets rfl hrounds hstack hfile user

theorem parseString_eq {rounds : Nat} {stack string : List Byte}
    (hstack : stack.length = iniMaxLine) (hnul : 0 ∈ string)
    (hstring : ((text string).length : Int) ≤ intMax) (hrounds : (text string).length < rounds)
    (user : User) :
    parseString rounds stack string handler user =
      some (parseText (text string) handler user) := by
  obtain ⟨rest, hrest⟩ := exists_eq_text_append hnul
  rw [parseString, arrayStr_of_mem hnul]
  exact parseStream_eq reads_readerString ⟨rfl, 0 :: rest, hrest⟩ hrounds hstack hstring user

/-- A file and the same bytes in memory are parsed alike: both parsers return,
run into no fault that is not the handler's, call it for the same entries in
the same order and return 0 or the number of the first line not accepted. -/
theorem parseFile_parseString_agree (handler : Handler User) (user : User) {rounds : Nat}
    {stack file : List Byte} (hstack : stack.length = iniMaxLine)
    (hfile : (file.length : Int) ≤ intMax) (hrounds : file.length < rounds) :
    parseFile rounds stack file handler user = some (parseText file handler user) ∧
      (0 ∉ file → ∀ beyond, parseString rounds stack (file ++ 0 :: beyond) handler user =
        some (parseText file handler user)) := by
  refine ⟨parseFile_eq hstack hfile hrounds user, fun hnul beyond => ?_⟩
  have htext : text (file ++ 0 :: beyond) = file := text_append_nul hnul beyond
  have hmem : 0 ∈ file ++ 0 :: beyond := List.mem_append_right _ List.mem_cons_self
  have hparse := @parseString_eq _ handler rounds stack (file ++ 0 :: beyond) hstack hmem
  rw [htext] at hparse
  exact hparse hfile hrounds user

/-- A handler that accepts every entry and keeps it. -/
def recorder : Handler (List Entry) := fun seen sectionName name value =>
  .ok (1, seen ++ [⟨sectionName, name, value⟩])

/-- The file `[s]`, `a = 1 ; x`, ` 2`, `b` has an error in its fourth line. -/
theorem parseFile_parseString_agree_sample :
    parseFile 30 (List.replicate 200 7)
        [91, 115, 93, 10, 97, 32, 61, 32, 49, 32, 59, 32, 120, 10, 32, 50, 10, 98] recorder [] =
      some (.ok (4, [⟨[115], [97], [49]⟩, ⟨[115], [97], [50]⟩])) ∧
    parseString 30 (List.replicate 200 7)
        ([91, 115, 93, 10, 97, 32, 61, 32, 49, 32, 59, 32, 120, 10, 32, 50, 10, 98] ++ [0])
        recorder [] =
      some (.ok (4, [⟨[115], [97], [49]⟩, ⟨[115], [97], [50]⟩])) := by
  have hmeaning : parseText
      [91, 115, 93, 10, 97, 32, 61, 32, 49, 32, 59, 32, 120, 10, 32, 50, 10, 98] recorder [] =
      .ok (4, [⟨[115], [97], [49]⟩, ⟨[115], [97], [50]⟩]) := by
    decide +kernel
  have hagree := @parseFile_parseString_agree _ recorder [] 30 (List.replicate 200 7)
    [91, 115, 93, 10, 97, 32, 61, 32, 49, 32, 59, 32, 120, 10, 32, 50, 10, 98]
    List.length_replicate (by decide) (by decide)
  rw [hmeaning] at hagree
  exact ⟨hagree.1, hagree.2 (by decide) []⟩

end CcCvStore.Ini
