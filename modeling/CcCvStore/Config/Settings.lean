import CcCvStore.Config.IniDocument
import CcCvStore.Core.Decimal
import CcCvStore.Core.Runs

/-!
# The configuration

`config.c`: the settings behind a static pointer, filled with defaults and then
from the entries of an `.ini` file, and a flag that says whether this was done.
-/

namespace CcCvStore.Settings

open CcCvStore.CInteger
open CcCvStore.CString
open CcCvStore.Decimal
open CcCvStore.Effect
open CcCvStore.Ini
open CcCvStore.Runs

def serverDefaultPortNum : Int := 8888

/-- `"0.0.0.0"` -/
def defaultAddress : List Byte := [48, 46, 48, 46, 48, 46, 48]

/-- `"server"`, `"host"`, `"port"`, `"store"` and `"db_file"` -/
def server : List Byte := [115, 101, 114, 118, 101, 114]
def host : List Byte := [104, 111, 115, 116]
def port : List Byte := [112, 111, 114, 116]
def store : List Byte := [115, 116, 111, 114, 101]
def dbFile : List Byte := [100, 98, 95, 102, 105, 108, 101]

/-- `struct stru_config` -/
structure StruConfig where
  port : Int
  address : List Byte
  dbFile : Option (List Byte)
  deriving DecidableEq

/-- The static variables of `config.c`. -/
structure Statics where
  config : Option StruConfig
  isConfigInit : Int
  deriving DecidableEq

def Statics.initial : Statics := ⟨none, 0⟩

def minusSign : Byte := 45
def plusSign : Byte := 43

/-- The number at the start of a string. -/
def numberOf (str : List Byte) : Int :=
  match ltrim str with
  | [] => 0
  | sign :: rest =>
      if sign = minusSign then -(readDigits 0 rest : Nat)
      else if sign = plusSign then (readDigits 0 rest : Nat)
      else (readDigits 0 (sign :: rest) : Nat)

/-- `atoi`, undefined where the number does not fit an `int`. -/
def atoi (str : List Byte) : Except Fault Int := intResult (numberOf str)

/-- A write through `config`. -/
def Statics.modify (statics : Statics) (change : StruConfig → StruConfig) :
    Except Fault Statics :=
  match statics.config with
  | none => .error .wildWrite
  | some config => .ok { statics with config := some (change config) }

/-- `MATCH_CONF_VARS(s, n)` -/
def matchConfVars (sectionName name s n : List Byte) : Bool :=
  sectionName == s && name == n

def handler : Handler Statics := fun statics sectionName name value => do
  let statics ← if matchConfVars sectionName name server host then
      statics.modify fun config => { config with address := value }
    else .ok statics
  let statics ← if matchConfVars sectionName name server port then do
      let number ← atoi value
      statics.modify fun config => { config with port := number }
    else .ok statics
  let statics ← if matchConfVars sectionName name store dbFile then
      statics.modify fun config => { config with dbFile := some value }
    else .ok statics
  .ok (1, statics)

def StruConfig.default : StruConfig := ⟨serverDefaultPortNum, defaultAddress, none⟩

/-- `init_config`, with what `ini_parse` finds under the name of its file: the
result and the static variables. -/
def initConfig (rounds : Nat) (stack : List Byte) (file : Option (List Byte))
    (statics : Statics) : Option (Except Fault (Int × Statics)) :=
  if statics.isConfigInit = 1 then some (.ok (1, statics))
  else
    (parse rounds stack file handler { statics with config := some .default }).map
      fun result => result.map fun (error, statics) =>
        if error < 0 then (0, statics) else (1, { statics with isConfigInit := 1 })

def getConfig (statics : Statics) : Option StruConfig :=
  if statics.isConfigInit = 0 then none else statics.config

/-! ## The settings of a file -/

/-- The entries a file makes the parser call its handler for. -/
def entriesOf (file : List Byte) : List Entry := called (outcomes .top (textLines file))

/-- The value that the last entry for a name gives it. -/
def lastValue (sectionName name : List Byte) (entries : List Entry) : Option (List Byte) :=
  (entries.reverse.find? fun entry =>
    matchConfVars entry.sectionName entry.name sectionName name).map Entry.value

/-- What the entries of a file say, and defaults for what they do not say. -/
def settingsOf (entries : List Entry) : StruConfig where
  port := ((lastValue server port entries).map numberOf).getD serverDefaultPortNum
  address := (lastValue server host entries).getD defaultAddress
  dbFile := lastValue store dbFile entries

/-- Every port is an `int`. -/
def PortsFit (entries : List Entry) : Prop :=
  ∀ entry ∈ entries, matchConfVars entry.sectionName entry.name server port = true →
    intMin ≤ numberOf entry.value ∧ numberOf entry.value ≤ intMax

theorem lastValue_concat (sectionName name : List Byte) (entries : List Entry) (entry : Entry) :
    lastValue sectionName name (entries ++ [entry]) =
      if matchConfVars entry.sectionName entry.name sectionName name then some entry.value
      else lastValue sectionName name entries := by
  rw [lastValue, List.reverse_append, List.reverse_singleton, List.singleton_append,
    List.find?_cons]
  cases matchConfVars entry.sectionName entry.name sectionName name <;> rfl

theorem settingsOf_concat (entries : List Entry) (entry : Entry) :
    settingsOf (entries ++ [entry]) =
      { port := if matchConfVars entry.sectionName entry.name server port
          then numberOf entry.value else (settingsOf entries).port
        address := if matchConfVars entry.sectionName entry.name server host
          then entry.value else (settingsOf entries).address
        dbFile := if matchConfVars entry.sectionName entry.name store dbFile
          then some entry.value else (settingsOf entries).dbFile } := by
  simp only [settingsOf, lastValue_concat]
  congr 1
  · split <;> rfl
  · split <;> rfl

/-- One more entry, as the handler applies it. -/
theorem handler_settingsOf {entries : List Entry} {entry : Entry}
    (hfits : PortsFit (entries ++ [entry])) (flag : Int) :
    handler ⟨some (settingsOf entries), flag⟩ entry.sectionName entry.name entry.value =
      .ok (1, ⟨some (settingsOf (entries ++ [entry])), flag⟩) := by
  have hport := hfits entry (List.mem_append_right _ List.mem_cons_self)
  rw [settingsOf_concat, handler]
  by_cases hisPort : matchConfVars entry.sectionName entry.name server port = true
  · have hatoi : atoi entry.value = .ok (numberOf entry.value) :=
      intResult_of_range (hport hisPort).1 (hport hisPort).2
    simp only [hisPort, hatoi, if_true]
    cases matchConfVars entry.sectionName entry.name server host <;>
      cases matchConfVars entry.sectionName entry.name store dbFile <;> rfl
  · simp only [hisPort]
    cases matchConfVars entry.sectionName entry.name server host <;>
      cases matchConfVars entry.sectionName entry.name store dbFile <;> rfl

/-- The calls the parser makes for a file, one after the other. -/
theorem verdicts_settingsOf {rest : List Outcome} {entries : List Entry}
    (hfits : PortsFit (entries ++ called rest)) (flag : Int) :
    ∃ judged, verdicts handler ⟨some (settingsOf entries), flag⟩ rest =
      .ok (judged, ⟨some (settingsOf (entries ++ called rest)), flag⟩) := by
  induction rest generalizing entries with
  | nil => exact ⟨[], by rw [verdicts, called, List.append_nil]⟩
  | cons outcome rest ih =>
      rw [verdicts]
      cases outcome with
      | quiet =>
          obtain ⟨judged, hjudged⟩ := @ih entries hfits
          exact ⟨true :: judged, by simp only [verdict, ok_bind, hjudged]; rfl⟩
      | malformed =>
          obtain ⟨judged, hjudged⟩ := @ih entries hfits
          exact ⟨false :: judged, by simp only [verdict, ok_bind, hjudged]; rfl⟩
      | call entry =>
          have hcalled : entries ++ called (.call entry :: rest) =
              (entries ++ [entry]) ++ called rest := by
            rw [List.append_assoc]
            rfl
          rw [hcalled] at hfits ⊢
          have hone : PortsFit (entries ++ [entry]) := fun entry hentry =>
            hfits entry (List.mem_append_left _ hentry)
          obtain ⟨judged, hjudged⟩ := ih hfits
          refine ⟨true :: judged, ?_⟩
          simp only [verdict, handler_settingsOf hone flag, Except.map, ok_bind, hjudged]
          rfl

theorem firstError_nonneg (verdicts : List Bool) : ¬firstError verdicts < 0 := by
  rw [firstError]
  split <;> omega

/-- The first call that finds the file reads the settings from it, whatever
lines in it are malformed. -/
theorem initConfig_of_file {rounds : Nat} {stack file : List Byte}
    (hstack : stack.length = iniMaxLine) (hfile : (file.length : Int) ≤ intMax)
    (hrounds : file.length < rounds) (hfits : PortsFit (entriesOf file)) {statics : Statics}
    (hinit : statics.isConfigInit ≠ 1) :
    initConfig rounds stack (some file) statics =
      some (.ok (1, ⟨some (settingsOf (entriesOf file)), 1⟩)) := by
  obtain ⟨judged, hjudged⟩ := @verdicts_settingsOf (outcomes .top (textLines file)) [] hfits
    statics.isConfigInit
  have hdefault : settingsOf [] = .default := rfl
  rw [hdefault, List.nil_append, ← entriesOf] at hjudged
  rw [initConfig, if_neg hinit, parse, parseFile_eq hstack hfile hrounds, parseText, hjudged]
  simp only [Except.map, Option.map_some, if_neg (firstError_nonneg judged)]

theorem initConfig_of_none (rounds : Nat) (stack : List Byte) {statics : Statics}
    (hinit : statics.isConfigInit ≠ 1) :
    initConfig rounds stack none statics =
      some (.ok (0, { statics with config := some .default })) := by
  rw [initConfig, if_neg hinit]
  rfl

/-! ## Runs of calls -/

/-- A call of `init_config`: what the stack holds and what is found under the
name of the file. -/
structure InitCall where
  rounds : Nat
  stack : List Byte
  file : Option (List Byte)

def InitCall.perform (call : InitCall) (statics : Statics) :
    Option (Except Fault (Int × Statics)) :=
  initConfig call.rounds call.stack call.file statics

/-- A call that can read its file: the loop may take a round for every byte, and
every port in the file is an `int`. -/
structure InitCall.Valid (call : InitCall) : Prop where
  length_stack : call.stack.length = iniMaxLine
  length_file : ∀ file ∈ call.file, (file.length : Int) ≤ intMax ∧ file.length < call.rounds
  portsFit : ∀ file ∈ call.file, PortsFit (entriesOf file)

def afterInit (statics : Statics) (call : InitCall) : Statics :=
  match call.perform statics with
  | some (.ok (_, after)) => after
  | some (.error _) | none => statics

/-- The first call that finds a file. -/
def firstCall (calls : List InitCall) : Option InitCall :=
  calls.find? fun call => call.file.isSome

/-- The file it finds. -/
def firstFile (calls : List InitCall) : Option (List Byte) := (firstCall calls).bind InitCall.file

/-- The static variables after calls of which the first file is known. -/
def Follows (statics : Statics) : Option (List Byte) → Prop
  | none => statics.isConfigInit = 0
  | some file => statics = ⟨some (settingsOf (entriesOf file)), 1⟩

theorem Follows.getConfig {statics : Statics} {first : Option (List Byte)}
    (hfollows : Follows statics first) :
    getConfig statics = first.map fun file => settingsOf (entriesOf file) := by
  cases first with
  | none => exact if_pos hfollows
  | some file =>
      rw [hfollows]
      rfl

theorem firstCall_concat (calls : List InitCall) (call : InitCall) :
    firstCall (calls ++ [call]) =
      (firstCall calls).or (if call.file.isSome then some call else none) := by
  rw [firstCall, List.find?_append, ← firstCall, List.find?_singleton]

/-- A later call is not the first. -/
theorem firstCall_append {calls : List InitCall} {first : InitCall}
    (hfirst : first ∈ firstCall calls) (call : InitCall) :
    first ∈ firstCall (calls ++ [call]) := by
  rw [firstCall_concat, Option.mem_def.mp hfirst]
  rfl

theorem file_of_firstCall {calls : List InitCall} {first : InitCall}
    (hfirst : firstCall calls = some first) : ∃ file, first.file = some file := by
  rw [← Option.isSome_iff_exists]
  exact @List.find?_some _ (fun call : InitCall => call.file.isSome) _ _ hfirst

/-- One call more: the settings are taken from the first file that is there. -/
theorem Follows.step {statics : Statics} {calls : List InitCall} {call : InitCall}
    (hfollows : Follows statics (firstFile calls))
    (hvalid : ∀ first ∈ firstCall (calls ++ [call]), first.Valid) :
    ∃ after, call.perform statics =
        some (.ok (if (firstFile (calls ++ [call])).isSome then 1 else 0, after)) ∧
      Follows after (firstFile (calls ++ [call])) := by
  rw [firstFile, firstCall_concat]
  rw [firstCall_concat] at hvalid
  cases hfirst : firstCall calls with
  | some first =>
      obtain ⟨file, hfile⟩ := file_of_firstCall hfirst
      rw [firstFile, hfirst, Option.bind_some, hfile] at hfollows
      rw [Option.some_or, Option.bind_some, hfile, InitCall.perform, initConfig, hfollows]
      exact ⟨_, rfl, rfl⟩
  | none =>
      rw [firstFile, hfirst] at hfollows
      rw [hfirst, Option.none_or] at hvalid
      have hinit : statics.isConfigInit ≠ 1 := by
        rw [show statics.isConfigInit = 0 from hfollows]
        decide
      rw [Option.none_or, InitCall.perform]
      cases hfile : call.file with
      | none => exact ⟨_, initConfig_of_none _ _ hinit, hfollows⟩
      | some file =>
          have hcall : call.Valid := by
            apply hvalid
            rw [hfile]
            rfl
          have hlength := hcall.length_file file hfile
          have hread := initConfig_of_file hcall.length_stack hlength.1 hlength.2
            (hcall.portsFit file hfile) hinit
          rw [Option.isSome_some, if_pos rfl, Option.bind_some, hfile]
          exact ⟨_, hread, rfl⟩

theorem follows_run {calls : List InitCall} (hvalid : ∀ first ∈ firstCall calls, first.Valid) :
    Follows (run afterInit .initial calls) (firstFile calls) := by
  induction calls using List.reverseRecOn with
  | nil => rfl
  | append_singleton calls call ih =>
      obtain ⟨after, hperform, hafter⟩ :=
        (ih fun first hfirst => hvalid first (firstCall_append hfirst call)).step hvalid
      have hrun : run afterInit .initial (calls ++ [call]) =
          afterInit (run afterInit .initial calls) call := by
        rw [run, List.foldl_append]
        rfl
      rw [hrun, afterInit, hperform]
      exact hafter

/-- Over any run of calls `init_config` returns 0 until it finds a file and 1
from then on.  Until then `get_config` is `NULL`; afterwards it has the settings
of that file, each the value of its last entry or the default, whatever the file
holds besides and whatever is found under its name later. -/
theorem run_initConfig {calls : List InitCall} {call : InitCall}
    (hvalid : ∀ first ∈ firstCall (calls ++ [call]), first.Valid) :
    ∃ after, call.perform (run afterInit .initial calls) =
        some (.ok (if (firstFile (calls ++ [call])).isSome then 1 else 0, after)) ∧
      getConfig after =
        (firstFile (calls ++ [call])).map fun file => settingsOf (entriesOf file) := by
  obtain ⟨after, hperform, hafter⟩ := (follows_run fun first hfirst =>
    hvalid first (firstCall_append hfirst call)).step hvalid
  exact ⟨after, hperform, hafter.getConfig⟩

/-- No file, a file with `[server]`, `port = 80 x` and a line that is no entry,
and a file whose port is no `int`. -/
theorem run_initConfig_sample :
    let stack : List Byte := List.replicate 200 7
    let heading : List Byte := 91 :: server ++ [93, 10] ++ port
    let first : List Byte := heading ++ [32, 61, 32, 56, 48, 32, 120, 10, 63]
    let last : List Byte := heading ++ 61 :: List.replicate 20 57
    ∃ after, InitCall.perform ⟨0, [], some last⟩
        (run afterInit .initial [⟨1, stack, none⟩, ⟨40, stack, some first⟩]) =
          some (.ok (1, after)) ∧
      getConfig after = some ⟨80, defaultAddress, none⟩ := by
  intro stack heading first last
  have hentries : entriesOf first = [⟨server, port, [56, 48, 32, 120]⟩] := by decide +kernel
  have hvalid : InitCall.Valid ⟨40, stack, some first⟩ := by
    refine ⟨List.length_replicate, ?_, ?_⟩
    · rintro file ⟨⟩
      decide
    · rintro file ⟨⟩ entry hentry -
      rw [hentries] at hentry
      rw [List.mem_singleton.mp hentry]
      decide
  have hfirst : ∀ call ∈ firstCall ([⟨1, stack, none⟩, ⟨40, stack, some first⟩] ++
      [⟨0, [], some last⟩]), call.Valid := by
    rintro call ⟨⟩
    exact hvalid
  obtain ⟨after, hperform, hconfig⟩ := run_initConfig hfirst
  refine ⟨after, hperform, hconfig.trans ?_⟩
  have hfile : firstFile ([⟨1, stack, none⟩, ⟨40, stack, some first⟩] ++
      [⟨0, [], some last⟩]) = some first := rfl
  rw [hfile, Option.map_some, hentries]
  decide

end CcCvStore.Settings
