import CcCvStore.Disc.RecordFile

/-!
# Loading a record file

When the loaders return, and what they have put into the hash table then.  On a
stream whose end-of-file indicator is set the loop never reads and never ends.
-/

namespace CcCvStore.RecordFile

open CcCvStore.CInteger
open CcCvStore.CString
open CcCvStore.Effect
open CcCvStore.Stdio
open CcCvStore.WriteHistory

variable {Value : Type} (format : Format Value)

/-- The string in the key of a record. -/
def keyOf (record : List Byte) : List Byte := text (format.keyField record)

/-- Key and value of the record can be copied. -/
def Readable (record : List Byte) : Prop :=
  0 ∈ format.keyField record ∧ ∃ value, format.loadValue record = .ok value

/-- The loader's rounds over these records. -/
def loadRecords : List (List Byte) → Map Value → Except Fault (Map Value)
  | [], map => .ok map
  | record :: rest, map => do
      let map ← loadItem format record map
      loadRecords rest map

variable {format}

theorem loadItem_of_readable {record : List Byte} (hkey : 0 ∈ format.keyField record)
    {value : Value} (hvalue : format.loadValue record = .ok value) (map : Map Value) :
    loadItem format record map = .ok (.put (keyOf format record) value :: map) := by
  rw [loadItem, arrayStr_of_mem hkey, hvalue]
  rfl

theorem readable_of_loadItem {record : List Byte} {map loaded : Map Value}
    (hload : loadItem format record map = .ok loaded) : Readable format record := by
  rw [loadItem] at hload
  by_cases hkey : 0 ∈ format.keyField record
  · rw [arrayStr_of_mem hkey, ok_bind] at hload
    cases hvalue : format.loadValue record with
    | ok value => exact ⟨hkey, value, hvalue⟩
    | error fault =>
        rw [hvalue] at hload
        contradiction
  · rw [arrayStr_of_notMem hkey] at hload
    contradiction

theorem readable_of_loadRecords {items : List (List Byte)} {map loaded : Map Value}
    (hload : loadRecords format items map = .ok loaded) :
    ∀ record ∈ items, Readable format record := by
  induction items generalizing map with
  | nil => simp
  | cons record rest ih =>
      rw [loadRecords] at hload
      cases hitem : loadItem format record map with
      | ok next =>
          rw [hitem, ok_bind] at hload
          rw [List.forall_mem_cons]
          exact ⟨readable_of_loadItem hitem, ih hload⟩
      | error fault =>
          rw [hitem] at hload
          contradiction

/-- The call of `ht_set` that belongs to a record. -/
def IsCall (format : Format Value) (record : List Byte) (call : Write (List Byte) Value) : Prop :=
  ∃ value, format.loadValue record = .ok value ∧ call = .put (keyOf format record) value

theorem loadRecords_of_readable {items : List (List Byte)}
    (hreadable : ∀ record ∈ items, Readable format record) (map : Map Value) :
    ∃ calls, loadRecords format items map = .ok (calls.reverse ++ map) ∧
      List.Forall₂ (IsCall format) items calls := by
  induction items generalizing map with
  | nil => exact ⟨[], rfl, .nil⟩
  | cons record rest ih =>
      rw [List.forall_mem_cons] at hreadable
      obtain ⟨⟨hkey, value, hvalue⟩, hrest⟩ := hreadable
      obtain ⟨calls, hload, hcalls⟩ := ih hrest (.put (keyOf format record) value :: map)
      refine ⟨.put (keyOf format record) value :: calls, ?_, .cons ⟨value, hvalue, rfl⟩ hcalls⟩
      rw [loadRecords, loadItem_of_readable hkey hvalue, ok_bind, hload, List.reverse_cons,
        List.append_assoc]
      rfl

/-! ## The loop -/

/-- A loop that has returned returns the same with more rounds. -/
theorem init_mono {rounds more : Nat} (hle : rounds ≤ more) {item : List Byte} {fp : Stream}
    {map : Map Value} {result : Except Fault (Disc Value)}
    (hinit : init format rounds item fp map = some result) :
    init format more item fp map = some result := by
  induction rounds generalizing more item fp map with
  | zero => contradiction
  | succ rounds ih =>
      obtain ⟨more, rfl⟩ := Nat.exists_eq_add_of_le' (Nat.lt_of_lt_of_le rounds.succ_pos hle)
      rw [init] at hinit ⊢
      split at hinit
      next hread => exact hinit
      next item fp hread =>
        cases hload : loadItem format item map with
        | ok map =>
            rw [hload] at hinit
            exact ih (by omega) hinit
        | error fault =>
            rw [hload] at hinit
            exact hinit

/-- At end of file no round reads and none is the last one. -/
theorem init_of_eof {fp : Stream} (heof : fp.eof = true) (rounds : Nat) (item : List Byte)
    (map : Map Value) (disc : Disc Value) :
    init format rounds item fp map ≠ some (.ok disc) := by
  induction rounds generalizing map with
  | zero => exact (Option.some_ne_none _).symm
  | succ rounds ih =>
      rw [init, if_pos heof]
      intro hinit
      cases hload : loadItem format item map with
      | ok map =>
          simp only [hload] at hinit
          exact ih map hinit
      | error fault =>
          simp only [hload] at hinit
          cases hinit

theorem init_of_last {fp after : Stream} (heof : fp.eof = false)
    (hread : fp.fread format.size = (none, after)) (rounds : Nat) (item : List Byte)
    (map : Map Value) :
    init format (rounds + 1) item fp map = some (.ok ⟨after, map⟩) := by
  simp only [init, heof, Bool.false_eq_true, if_false, hread]

theorem init_of_read {fp after : Stream} (heof : fp.eof = false) {record : List Byte}
    (hread : fp.fread format.size = (some record, after)) {map loaded : Map Value}
    (hload : loadItem format record map = .ok loaded) (rounds : Nat) (item : List Byte) :
    init format (rounds + 1) item fp map = init format rounds record after loaded := by
  simp only [init, heof, Bool.false_eq_true, if_false, hread, hload]

theorem init_of_unreadable {fp after : Stream} (heof : fp.eof = false) {record : List Byte}
    (hread : fp.fread format.size = (some record, after)) {map : Map Value} {fault : Fault}
    (hload : loadItem format record map = .error fault) (rounds : Nat) (item : List Byte) :
    init format (rounds + 1) item fp map = some (.error fault) := by
  simp only [init, heof, Bool.false_eq_true, if_false, hread, hload]

/-- With the indicator clear, one round for each complete record and a last one. -/
theorem init_of_clear (hsize : 0 < format.size) {fp : Stream} (heof : fp.eof = false)
    {rounds : Nat}
    (hrounds : (records format.size (fp.content.drop fp.position)).length < rounds)
    (item : List Byte) (map : Map Value) :
    init format rounds item fp map = some
      ((loadRecords format (records format.size (fp.content.drop fp.position)) map).map fun map =>
        ⟨{ fp with position := max fp.position fp.content.length, eof := true }, map⟩) := by
  generalize hitems : records format.size (fp.content.drop fp.position) = items at hrounds ⊢
  induction items generalizing rounds fp item map with
  | nil =>
      obtain ⟨rounds, rfl⟩ := Nat.exists_eq_add_of_le' hrounds
      exact init_of_last heof (Stream.fread_of_nil hsize heof hitems) rounds item map
  | cons record rest ih =>
      obtain ⟨rounds, rfl⟩ := Nat.exists_eq_add_of_le' (Nat.zero_lt_of_lt hrounds)
      obtain ⟨hread, hle, hrest⟩ := Stream.fread_of_cons hsize heof hitems
      rw [loadRecords]
      cases hload : loadItem format record map with
      | error fault =>
          rw [init_of_unreadable heof hread hload]
          rfl
      | ok map =>
          rw [init_of_read heof hread hload]
          have hclear : ({ fp with position := fp.position + format.size } : Stream).eof = false :=
            heof
          have hfewer : rest.length < rounds := Nat.lt_of_succ_lt_succ hrounds
          simp only [ih hclear record map hrest hfewer, ok_bind, Nat.max_eq_right hle,
            Nat.max_eq_right (Nat.le_of_add_right_le hle)]

/-! ## What a loader does -/

/-- The loader returns, having called `ht_set` once for each complete record
from the position on, in order, with that record's key and value. -/
def LoadsEach (format : Format Value)
    (load : Nat → List Byte → Stream → Map Value → Option (Except Fault (Disc Value)))
    (item : List Byte) (fp : Stream) (map : Map Value) : Prop :=
  ∃ rounds after calls, load rounds item fp map = some (.ok ⟨after, calls.reverse ++ map⟩) ∧
    List.Forall₂ (IsCall format) (records format.size (fp.content.drop fp.position)) calls

theorem loadsEach_iff (hsize : 0 < format.size) (item : List Byte) (fp : Stream)
    (map : Map Value) :
    LoadsEach format (init format) item fp map ↔ fp.eof = false ∧
      ∀ record ∈ records format.size (fp.content.drop fp.position), Readable format record := by
  constructor
  · rintro ⟨rounds, after, calls, hinit, -⟩
    have heof : fp.eof = false := by
      by_contra hset
      exact init_of_eof (eq_true_of_ne_false hset) rounds item map _ hinit
    refine ⟨heof, ?_⟩
    let count := (records format.size (fp.content.drop fp.position)).length
    have hlong := init_mono (Nat.le_max_left rounds (count + 1)) hinit
    rw [init_of_clear hsize heof (Nat.le_max_right rounds (count + 1))] at hlong
    cases hload : loadRecords format
        (records format.size (fp.content.drop fp.position)) map with
    | ok loaded => exact readable_of_loadRecords hload
    | error fault =>
        rw [hload] at hlong
        cases hlong
  · rintro ⟨heof, hreadable⟩
    obtain ⟨calls, hload, hcalls⟩ := loadRecords_of_readable hreadable map
    have hinit := init_of_clear hsize heof (Nat.lt_succ_self _) item map
    rw [hload] at hinit
    exact ⟨_, _, calls, hinit, hcalls⟩

theorem readable_idx_iff (record : List Byte) :
    Readable idxFormat record ↔ 0 ∈ idxFormat.keyField record :=
  and_iff_left ⟨_, rfl⟩

theorem readable_dt_iff (record : List Byte) :
    Readable dtFormat record ↔
      0 ∈ dtFormat.keyField record ∧ 0 ∈ record.drop maxKeySize := by
  apply and_congr_right
  intro _
  constructor
  · rintro ⟨value, hvalue⟩
    by_contra hnul
    have hfault : dtFormat.loadValue record = .error .overrun := arrayStr_of_notMem hnul
    rw [hfault] at hvalue
    contradiction
  · intro hnul
    exact ⟨_, arrayStr_of_mem hnul⟩

/-- Loading does what it should exactly where the stream's end-of-file
indicator is clear and the strings of the records end within their arrays. -/
theorem init_loads_iff (item : List Byte) (fp : Stream) :
    (∀ map, LoadsEach idxFormat idxInit item fp map ↔ fp.eof = false ∧
      ∀ record ∈ records idxFormat.size (fp.content.drop fp.position),
        0 ∈ idxFormat.keyField record) ∧
    ∀ map, LoadsEach dtFormat dtInit item fp map ↔ fp.eof = false ∧
      ∀ record ∈ records dtFormat.size (fp.content.drop fp.position),
        0 ∈ dtFormat.keyField record ∧ 0 ∈ record.drop maxKeySize := by
  constructor
  · intro map
    rw [idxInit, loadsEach_iff idxFormat_lawful.size_pos]
    simp only [readable_idx_iff]
  · intro map
    rw [dtInit, loadsEach_iff dtFormat_lawful.size_pos]
    simp only [readable_dt_iff]

/-- A stream that was read to its end before: the loader calls `ht_set` with
what the stack held, over and over. -/
theorem idxInit_endless :
    ¬LoadsEach idxFormat idxInit (List.replicate 132 0) ⟨[], 0, true⟩ [] := by
  rintro ⟨rounds, after, calls, hinit, -⟩
  exact init_of_eof rfl rounds _ [] _ hinit

end CcCvStore.RecordFile
