import CcCvStore.Config.Settings

/-!
# Configuration files

A configuration written as an `.ini` file is the configuration that
`init_config` reads from it.
-/

namespace CcCvStore.Settings

open CcCvStore.CInteger
open CcCvStore.CString
open CcCvStore.Decimal
open CcCvStore.Effect
open CcCvStore.Ini

/-! ## Numbers in a file -/

/-- An `int` in decimal. -/
def numeral (value : Int) : List Byte :=
  if value < 0 then minusSign :: decimal value.natAbs else decimal value.natAbs

/-- A digit is no space, no sign of the format and no sign of a number. -/
theorem digit_plain {low : Nat} (hlow : low < 10) :
    isSpace (digit low) = false ∧ digit low ∉ inlineCommentPrefixes ∧ digit low ≠ 0 ∧
      digit low ≠ newline ∧ digit low ≠ minusSign ∧ digit low ≠ plusSign := by
  have hdigits : ∀ low < 10, isSpace (digit low) = false ∧
      digit low ∉ inlineCommentPrefixes ∧ digit low ≠ 0 ∧ digit low ≠ newline ∧
      digit low ≠ minusSign ∧ digit low ≠ plusSign := by decide
  exact hdigits low hlow

theorem exists_mem_numeral (value : Int) :
    ∀ char ∈ numeral value, char = minusSign ∨ ∃ low, low < 10 ∧ char = digit low := by
  intro char hchar
  rw [numeral] at hchar
  split at hchar
  · rcases List.mem_cons.mp hchar with rfl | hdigit
    · exact .inl rfl
    · exact .inr (exists_digit_of_mem_decimal _ char hdigit)
  · exact .inr (exists_digit_of_mem_decimal _ char hchar)

theorem numberOf_numeral (value : Int) : numberOf (numeral value) = value := by
  rw [numeral]
  split
  next hneg =>
    rw [numberOf, ltrim_cons_of_not_space rfl]
    dsimp only
    rw [if_pos rfl, readDigits_decimal]
    omega
  next hneg =>
    have hread := readDigits_decimal value.natAbs
    have hdigits := exists_digit_of_mem_decimal value.natAbs
    cases hdecimal : decimal value.natAbs with
    | nil => exact absurd hdecimal (decimal_ne_nil _)
    | cons char rest =>
        rw [hdecimal] at hread hdigits
        obtain ⟨low, hlow, rfl⟩ := hdigits char List.mem_cons_self
        obtain ⟨hspace, -, -, -, hminus, hplus⟩ := digit_plain hlow
        rw [numberOf, ltrim_cons_of_not_space hspace]
        dsimp only
        rw [if_neg hminus, if_neg hplus, hread]
        omega

theorem trimmed_of_not_space {bytes : List Byte}
    (hbytes : ∀ byte ∈ bytes, isSpace byte = false) : Trimmed bytes := by
  constructor
  · rw [rtrim, List.rdropWhile_eq_self_iff]
    intro hne hspace
    exact absurd hspace (by rw [hbytes _ (List.getLast_mem hne)]; exact Bool.false_ne_true)
  · cases bytes with
    | nil => rfl
    | cons first rest => exact ltrim_cons_of_not_space (hbytes first List.mem_cons_self) rest

theorem scan_of_notMem {chars bytes : List Byte}
    (hbytes : ∀ byte ∈ bytes, byte ∉ chars ∧ byte ∉ inlineCommentPrefixes) (wasSpace : Bool) :
    scan chars wasSpace bytes = bytes := by
  induction bytes generalizing wasSpace with
  | nil => rfl
  | cons byte bytes ih =>
      rw [List.forall_mem_cons] at hbytes
      have hgoOn : ¬(byte ∈ chars ∨ (wasSpace ∧ byte ∈ inlineCommentPrefixes)) :=
        not_or.mpr ⟨hbytes.1.1, fun hand => hbytes.1.2 hand.2⟩
      rw [scan, if_neg hgoOn, ih hbytes.2]

theorem numeral_plain (value : Int) : ∀ char ∈ numeral value,
    isSpace char = false ∧ char ∉ inlineCommentPrefixes ∧ char ≠ 0 ∧ char ≠ newline := by
  intro char hchar
  rcases exists_mem_numeral value char hchar with rfl | ⟨low, hlow, rfl⟩
  · decide
  · obtain ⟨hspace, hcomment, hnul, hnewline, -⟩ := digit_plain hlow
    exact ⟨hspace, hcomment, hnul, hnewline⟩

/-- A number as the value of an entry. -/
def numeralValue (value : Int) : Value where
  bytes := numeral value
  zero_notMem := fun hmem => (numeral_plain value 0 hmem).2.2.1 rfl
  newline_notMem := fun hmem => (numeral_plain value newline hmem).2.2.2 rfl
  trimmed := trimmed_of_not_space fun char hchar => (numeral_plain value char hchar).1
  scan_eq := scan_of_notMem
    (fun char hchar => ⟨List.not_mem_nil, (numeral_plain value char hchar).2.1⟩) true

theorem length_numeral_le {value : Int} (hlow : intMin ≤ value) (hhigh : value ≤ intMax) :
    (numeral value).length ≤ 11 := by
  simp only [intMin, intMax] at hlow hhigh
  have hdecimal : (decimal value.natAbs).length ≤ 10 :=
    length_decimal_le (by decide) (show value.natAbs < 10 ^ 10 by omega)
  rw [numeral]
  split
  · rw [List.length_cons]
    omega
  · omega

/-! ## A configuration and its file -/

def serverSection : SectionName := ⟨⟨server, by decide, by decide⟩, by decide, rfl⟩
def storeSection : SectionName := ⟨⟨store, by decide, by decide⟩, by decide, rfl⟩

def hostName : Name :=
  ⟨⟨host, by decide, by decide⟩, by decide, ⟨rfl, rfl⟩, rfl, head_notMem_of_cons (by decide),
    List.cons_ne_nil _ _⟩
def portName : Name :=
  ⟨⟨port, by decide, by decide⟩, by decide, ⟨rfl, rfl⟩, rfl, head_notMem_of_cons (by decide),
    List.cons_ne_nil _ _⟩
def dbFileName : Name :=
  ⟨⟨dbFile, by decide, by decide⟩, by decide, ⟨rfl, rfl⟩, rfl, head_notMem_of_cons (by decide),
    List.cons_ne_nil _ _⟩

/-- The line `name=value`. -/
def plainEntry (name : Name) (value : Value) : Item :=
  .entry name noBlank .equalSign noBlank value noBlank none

/-- The line `[name]`. -/
def plainHeading (name : SectionName) : Item := .heading name noBlank.toInline

/-- A configuration whose lines fit the line buffer. -/
structure Written where
  port : Int
  host : Value
  dbFile : Option Value
  port_range : intMin ≤ port ∧ port ≤ intMax
  length_host : host.bytes.length ≤ 193
  length_dbFile : ∀ value ∈ dbFile, value.bytes.length ≤ 190

namespace Written

def config (written : Written) : StruConfig :=
  ⟨written.port, written.host.bytes, written.dbFile.map fun value => value.bytes⟩

def storeItems : Option Value → List Item
  | none => []
  | some value => [plainHeading storeSection, plainEntry dbFileName value]

/-- The lines of the file, the database in a section of its own. -/
def items (written : Written) : List Item :=
  plainHeading serverSection :: plainEntry hostName written.host ::
    plainEntry portName (numeralValue written.port) :: storeItems written.dbFile

theorem length_plainEntry_le {name : Name} {value : Value}
    (hlength : name.bytes.length + value.bytes.length < iniMaxLine - 2) :
    (plainEntry name value).line.length ≤ iniMaxLine - 2 := by
  simp only [plainEntry, Item.line, noBlank, List.append_nil, List.nil_append, Option.map_none,
    Option.getD_none, List.length_append, List.length_cons]
  omega

theorem continued_items (written : Written) : Continued false written.items := by
  obtain ⟨port, host, dbFile, hport, hhost, hdbFile⟩ := written
  cases dbFile <;> trivial

theorem length_items (written : Written) :
    ∀ line ∈ withMark false (written.items.map Item.line), line.length ≤ iniMaxLine - 2 := by
  have hhost : Settings.host.length + written.host.bytes.length < iniMaxLine - 2 :=
    Nat.lt_of_le_of_lt (Nat.add_le_add_left written.length_host _) (by decide)
  have hport : Settings.port.length + (numeral written.port).length < iniMaxLine - 2 :=
    Nat.lt_of_le_of_lt (Nat.add_le_add_left
      (length_numeral_le written.port_range.1 written.port_range.2) _) (by decide)
  have hstore : ∀ line ∈ (storeItems written.dbFile).map Item.line,
      line.length ≤ iniMaxLine - 2 := by
    cases hdbFile : written.dbFile with
    | none => exact List.forall_mem_nil _
    | some value =>
        have hvalue : Settings.dbFile.length + value.bytes.length < iniMaxLine - 2 :=
          Nat.lt_of_le_of_lt (Nat.add_le_add_left (written.length_dbFile value hdbFile) _)
            (by decide)
        exact List.forall_mem_cons.mpr ⟨by decide,
          List.forall_mem_singleton.mpr (length_plainEntry_le hvalue)⟩
  exact List.forall_mem_cons.mpr ⟨by decide, List.forall_mem_cons.mpr
    ⟨length_plainEntry_le hhost, List.forall_mem_cons.mpr
      ⟨length_plainEntry_le hport, hstore⟩⟩⟩

/-- The file of a configuration. -/
def document (written : Written) : Document where
  items := written.items
  mark := false
  continued := written.continued_items
  length_le := written.length_items
  unmarked := by
    rintro - first hfirst
    cases hfirst
    decide

theorem settingsOf_entries (written : Written) :
    settingsOf written.document.entries = written.config := by
  obtain ⟨number, address, file, hport, haddress, hfile⟩ := written
  have hlastPort : lastValue server Settings.port
      (document ⟨number, address, file, hport, haddress, hfile⟩).entries =
      some (numeral number) := by
    cases file <;> rfl
  have hlastHost : lastValue server Settings.host
      (document ⟨number, address, file, hport, haddress, hfile⟩).entries =
      some address.bytes := by
    cases file <;> rfl
  have hlastFile : lastValue store Settings.dbFile
      (document ⟨number, address, file, hport, haddress, hfile⟩).entries =
      file.map fun value => value.bytes := by
    cases file <;> rfl
  rw [settingsOf, hlastPort, hlastHost, hlastFile, Option.map_some, Option.getD_some,
    Option.getD_some, numberOf_numeral]
  rfl

theorem entries_document (written : Written) :
    written.document.entries = ⟨server, Settings.host, written.host.bytes⟩ ::
      ⟨server, Settings.port, numeral written.port⟩ ::
        (written.dbFile.map fun value => ⟨store, Settings.dbFile, value.bytes⟩).toList := by
  obtain ⟨number, address, file, hport, haddress, hfile⟩ := written
  cases file <;> rfl

theorem portsFit_entries (written : Written) : PortsFit written.document.entries := by
  rw [entries_document]
  intro entry hentry hmatch
  rcases List.mem_cons.mp hentry with rfl | hrest
  · exact absurd hmatch Bool.false_ne_true
  · rcases List.mem_cons.mp hrest with rfl | hstore
    · rw [numberOf_numeral]
      exact written.port_range
    · cases hfile : written.dbFile with
      | none =>
          rw [hfile] at hstore
          contradiction
      | some value =>
          rw [hfile] at hstore
          rw [List.mem_singleton.mp hstore] at hmatch
          exact absurd hmatch Bool.false_ne_true

theorem length_render_le (written : Written) :
    (written.document.render.length : Int) ≤ intMax := by
  have hitems : written.document.items.length ≤ 5 := by
    obtain ⟨number, address, file, hport, haddress, hfile⟩ := written
    cases file with
    | none => exact (show 3 ≤ 5 by decide)
    | some value => exact (show 5 ≤ 5 by decide)
  have hrender := written.document.length_render_le
  simp only [intMax, iniMaxLine] at hrender ⊢
  omega

/-- A configuration written to a file is the one that `init_config` reads from
it, and that `get_config` then hands out. -/
theorem initConfig_written (written : Written) {rounds : Nat} {stack : List Byte}
    (hstack : stack.length = iniMaxLine) (hrounds : written.document.render.length < rounds)
    {statics : Statics} (hinit : statics.isConfigInit ≠ 1) :
    ∃ after, initConfig rounds stack (some written.document.render) statics =
        some (.ok (1, after)) ∧ getConfig after = some written.config := by
  have hentries : entriesOf written.document.render = written.document.entries :=
    (outcomes_render written.document).1
  have hread := initConfig_of_file hstack written.length_render_le hrounds
    (by rw [hentries]; exact written.portsFit_entries) hinit
  refine ⟨_, hread, ?_⟩
  rw [hentries, settingsOf_entries]
  rfl

/-- The address `::`, the port `-1` and no database. -/
def sample : Written where
  port := -1
  host := ⟨⟨[58, 58], by decide, by decide⟩, ⟨rfl, rfl⟩, rfl⟩
  dbFile := none
  port_range := by decide
  length_host := by decide
  length_dbFile := fun value hvalue => absurd hvalue (Option.not_mem_none value)

theorem initConfig_written_sample :
    ∃ after, initConfig 60 (List.replicate 200 7) (some sample.document.render) .initial =
        some (.ok (1, after)) ∧ getConfig after = some ⟨-1, [58, 58], none⟩ :=
  initConfig_written sample List.length_replicate (by decide +kernel) (by decide)

end Written

end CcCvStore.Settings
