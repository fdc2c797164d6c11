import CcCvStore.Core.CString
import CcCvStore.Core.Effect
import CcCvStore.Core.TextLines

/-!
# The parser for `.ini` files

`ini.c` with its settings of `ini.h`: a line buffer of 200 bytes on the stack,
a byte order mark and continuation lines allowed, inline comments behind `;`.
The parser works in place: it writes NULs into the line and passes pointers
into it.  A pointer into the line is its offset.
-/

namespace CcCvStore.Ini

open CcCvStore.CInteger
open CcCvStore.CString
open CcCvStore.Effect
open CcCvStore.TextLines

def newline : Byte := 10
def bracketOpen : Byte := 91
def bracketClose : Byte := 93
def equalSign : Byte := 61
def colon : Byte := 58
def semicolon : Byte := 59
def hash : Byte := 35

def iniMaxLine : Nat := 200
def maxSection : Nat := 50
def maxName : Nat := 50

def startCommentPrefixes : List Byte := [semicolon, hash]
def inlineCommentPrefixes : List Byte := [semicolon]

/-- The byte order mark of UTF-8. -/
def byteOrderMark : List Byte := [0xEF, 0xBB, 0xBF]

/-! ## Characters and arrays -/

/-- `isspace` in the C locale. -/
def isSpace (char : Byte) : Bool := char == 32 || (9 ≤ char && char ≤ 13)

/-- `strchr(chars, char) != NULL`; the terminating NUL of `chars` counts. -/
def strchr (chars : List Byte) (char : Byte) : Bool := char == 0 || chars.contains char

def readByte (array : List Byte) (index : Nat) : Except Fault Byte :=
  match array[index]? with
  | some byte => .ok byte
  | none => .error .overrun

def writeByte (array : List Byte) (index : Nat) (byte : Byte) : Except Fault (List Byte) :=
  if index < array.length then .ok (array.set index byte) else .error .wildWrite

/-! ## Helpers of the parser -/

/-- The loop of `rstrip`, with `p` counted from the start of the line. -/
def rstripLoop (line : List Byte) (s : Nat) : Nat → Except Fault (List Byte)
  | 0 => .ok line
  | p + 1 =>
      if s < p + 1 then do
        if isSpace (← readByte line p) then
          let line ← writeByte line p 0
          rstripLoop line s p
        else .ok line
      else .ok line

/-- `rstrip(s)`, where `s` points into `line`. -/
def rstrip (line : List Byte) (s : Nat) : Except Fault (List Byte) := do
  let str ← arrayStr (line.drop s)
  rstripLoop line s (s + str.bytes.length)

/-- How far `lskip` moves over the memory behind its argument. -/
def lskip : List Byte → Except Fault Nat
  | [] => .error .overrun
  | char :: s => if char != 0 && isSpace char then (· + 1) <$> lskip s else .ok 0

/-- How far `find_chars_or_comment` moves; `none` is a `NULL` for `chars`. -/
def findCharsOrComment (chars : Option (List Byte)) (wasSpace : Bool) :
    List Byte → Except Fault Nat
  | [] => .error .overrun
  | char :: s =>
      if char != 0 && !(chars.any (strchr · char)) &&
          !(wasSpace && strchr inlineCommentPrefixes char) then
        (· + 1) <$> findCharsOrComment chars (isSpace char) s
      else .ok 0

/-- `strncpy0` from its `i`-th round on, reading the rest of `src`. -/
def strncpy0From (dest : List Byte) (size i : Nat) : List Byte → Except Fault (List Byte)
  | [] => if i < sizeSub size 1 then .error .overrun else writeByte dest i 0
  | char :: src =>
      if i < sizeSub size 1 ∧ char ≠ 0 then do
        let dest ← writeByte dest i char
        strncpy0From dest size (i + 1) src
      else writeByte dest i 0

def strncpy0 (dest src : List Byte) (size : Nat) : Except Fault (List Byte) :=
  strncpy0From dest size 0 src

/-! ## One line -/

variable {User Source : Type}

/-- An `ini_handler`: what it returns for section, name and value, and what it
makes of the data behind `user`. -/
abbrev Handler (User : Type) : Type :=
  User → List Byte → List Byte → List Byte → Except Fault (Int × User)

/-- The local variables of `ini_parse_stream`, and the data behind `user`. -/
structure Locals (User : Type) where
  line : List Byte
  sectionName : List Byte
  prevName : List Byte
  lineno : Int
  error : Int
  user : User
  deriving DecidableEq

/-- `if (!error) error = lineno;` -/
def Locals.fail (locals : Locals User) : Locals User :=
  { locals with error := if locals.error = 0 then locals.lineno else locals.error }

/-- `if (!HANDLER(user, section, name, value) && !error) error = lineno;` where
`name` and `value` are the memory their pointers lead to. -/
def callHandler (handler : Handler User) (locals : Locals User) (name value : List Byte) :
    Except Fault (Locals User) := do
  let (result, user) ← handler locals.user (← arrayStr locals.sectionName).bytes
    (← arrayStr name).bytes (← arrayStr value).bytes
  let locals := { locals with user }
  .ok (if result = 0 then locals.fail else locals)

/-- The branch of a `[section]` line. -/
def sectionLine (locals : Locals User) (start : Nat) : Except Fault (Locals User) := do
  let end_ := start + 1 +
    (← findCharsOrComment (some [bracketClose]) false (locals.line.drop (start + 1)))
  if (← readByte locals.line end_) = bracketClose then
    let line ← writeByte locals.line end_ 0
    let sectionName ← strncpy0 locals.sectionName (line.drop (start + 1)) maxSection
    let prevName ← writeByte locals.prevName 0 0
    .ok { locals with line, sectionName, prevName }
  else .ok locals.fail

/-- `end = find_chars_or_comment(value, NULL); if (*end) *end = '\0';` -/
def cutComment (line : List Byte) (value : Nat) : Except Fault (List Byte) := do
  let end_ := value + (← findCharsOrComment none false (line.drop value))
  if (← readByte line end_) ≠ 0 then writeByte line end_ 0 else .ok line

/-- The inline comment cut off, and the value stripped on both sides. -/
def stripValue (line : List Byte) (value : Nat) : Except Fault (List Byte × Nat) := do
  let line ← cutComment line value
  let value := value + (← lskip (line.drop value))
  let line ← rstrip line value
  .ok (line, value)

/-- The branch of a `name[=:]value` line. -/
def pairLine (handler : Handler User) (locals : Locals User) (start : Nat) :
    Except Fault (Locals User) := do
  let end_ := start +
    (← findCharsOrComment (some [equalSign, colon]) false (locals.line.drop start))
  let stop ← readByte locals.line end_
  if stop = equalSign ∨ stop = colon then
    let line ← writeByte locals.line end_ 0
    let line ← rstrip line start
    let (line, value) ← stripValue line (end_ + 1)
    let prevName ← strncpy0 locals.prevName (line.drop start) maxName
    let locals := { locals with line, prevName }
    callHandler handler locals (locals.line.drop start) (locals.line.drop value)
  else .ok locals.fail

/-- The body of the loop of `ini_parse_stream`. -/
def parseLine (handler : Handler User) (locals : Locals User) : Except Fault (Locals User) := do
  let lineno ← intResult (locals.lineno + 1)
  let start := if lineno = 1 ∧ byteOrderMark.isPrefixOf locals.line then 3 else 0
  let line ← rstrip locals.line start
  let start := start + (← lskip (line.drop start))
  let locals := { locals with line, lineno }
  let first ← readByte line start
  if strchr startCommentPrefixes first then .ok locals
  else if (← readByte locals.prevName 0) ≠ 0 ∧ first ≠ 0 ∧ 0 < start then
    callHandler handler locals locals.prevName (line.drop start)
  else if first = bracketOpen then sectionLine locals start
  else if first ≠ 0 then pairLine handler locals start
  else .ok locals

/-! ## Streams -/

/-- An `ini_reader`: the array it has filled, or `NULL`, and the stream. -/
abbrev Reader (Source : Type) : Type :=
  List Byte → Nat → Source → Except Fault (Option (List Byte) × Source)

/-- The loop of `ini_parse_stream`, for a number of rounds. -/
def parseLoop (reader : Reader Source) (handler : Handler User) :
    Nat → Source → Locals User → Option (Except Fault (Locals User))
  | 0, _, _ => none
  | rounds + 1, stream, locals =>
      match reader locals.line iniMaxLine stream with
      | .error fault => some (.error fault)
      | .ok (none, _) => some (.ok locals)
      | .ok (some line, stream) =>
          match parseLine handler { locals with line } with
          | .error fault => some (.error fault)
          | .ok locals => parseLoop reader handler rounds stream locals

/-- What `ini_parse_stream` starts from; `line` holds what the stack held. -/
def Locals.init (line : List Byte) (user : User) : Locals User :=
  ⟨line, List.replicate maxSection 0, List.replicate maxName 0, 0, 0, user⟩

/-- `ini_parse_stream`: its result and the data behind `user`. -/
def parseStream (rounds : Nat) (stack : List Byte) (reader : Reader Source) (stream : Source)
    (handler : Handler User) (user : User) : Option (Except Fault (Int × User)) :=
  (parseLoop reader handler rounds stream (.init stack user)).map
    fun result => result.map fun locals => (locals.error, locals.user)

/-- `fgets(str, num, stream)` on a file of which `stream` is still to be read.
Nothing is read only at the end of the file. -/
def fgets : Reader (List Byte) := fun str num stream =>
  match takeLine newline (num - 1) stream with
  | [] => .ok (none, stream)
  | piece => do
      let str ← strcpyArray str piece
      .ok (some str, stream.drop piece.length)

/-- `ini_parse_string_ctx`, with the memory `ptr` leads to. -/
structure ParseStringCtx where
  ptr : List Byte
  numLeft : Nat
  deriving DecidableEq

/-- The loop of `ini_reader_string`: the array, `strp` and the context. -/
def readerStringLoop (str : List Byte) (num strp : Nat) (ptr : List Byte) :
    Nat → Except Fault (List Byte × Nat × ParseStringCtx)
  | 0 => .ok (str, strp, ⟨ptr, 0⟩)
  | numLeft + 1 =>
      if 1 < num then
        match ptr with
        | [] => .error .overrun
        | c :: ptr => do
            let str ← writeByte str strp c
            if c = newline then .ok (str, strp + 1, ⟨ptr, numLeft⟩)
            else readerStringLoop str (num - 1) (strp + 1) ptr numLeft
      else .ok (str, strp, ⟨ptr, numLeft + 1⟩)

def readerString : Reader ParseStringCtx := fun str num ctx =>
  if ctx.numLeft = 0 ∨ num < 2 then .ok (none, ctx)
  else do
    let (str, strp, ctx) ← readerStringLoop str num 0 ctx.ptr ctx.numLeft
    let str ← writeByte str strp 0
    .ok (some str, ctx)

/-- `ini_parse_file`, on a file of which `file` is still to be read. -/
def parseFile (rounds : Nat) (stack file : List Byte) (handler : Handler User) (user : User) :
    Option (Except Fault (Int × User)) :=
  parseStream rounds stack fgets file handler user

/-- `ini_parse_string`, on the memory behind `string`. -/
def parseString (rounds : Nat) (stack string : List Byte) (handler : Handler User)
    (user : User) : Option (Except Fault (Int × User)) :=
  match arrayStr string with
  | .error fault => some (.error fault)
  | .ok str => parseStream rounds stack readerString ⟨string, str.bytes.length⟩ handler user

/-- `ini_parse`: `none` for a file that `fopen` cannot open. -/
def parse (rounds : Nat) (stack : List Byte) (file : Option (List Byte))
    (handler : Handler User) (user : User) : Option (Except Fault (Int × User)) :=
  match file with
  | none => some (.ok (-1, user))
  | some file => parseFile rounds stack file handler user

end CcCvStore.Ini
