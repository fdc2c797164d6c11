import CcCvStore.Disc.Loading
import Mathlib.Data.List.Nodup

/-!
# Contents of a record file

A file of complete records with distinct keys maps each key to the value of its
record.  A load reads that map, and an addition changes it at one key.
-/

namespace CcCvStore.RecordFile

open CcCvStore.CInteger
open CcCvStore.CString
open CcCvStore.Effect
open CcCvStore.Stdio
open CcCvStore.WriteHistory

variable {Value : Type} (format : Format Value)

/-- What the records map a key to. -/
def fileValue : List (List Byte) → List Byte → Option Value
  | [], _ => none
  | record :: rest, key =>
      if keyOf format record = key then (format.loadValue record).toOption
      else fileValue rest key

/-- The keys of the complete records of a file. -/
def fileKeys (content : List Byte) : List (List Byte) :=
  (records format.size content).map (keyOf format)

/-- Complete records with distinct keys, and what a crash may have left behind
them. -/
structure WellFormed (items : List (List Byte)) (torn : List Byte) : Prop where
  length_eq : ∀ record ∈ items, record.length = format.size
  readable : ∀ record ∈ items, Readable format record
  nodup : (items.map (keyOf format)).Nodup
  torn_lt : torn.length < format.size

/-- A fresh `*_init` of a file into an empty table. -/
def reload (init : Init Value) (content : List Byte) : Option (Except Fault (Disc Value)) :=
  init (content.length + 1) [] (fopen content) []

variable {format}

theorem fileValue_cons_of_ne {record key : List Byte} (hkey : keyOf format record ≠ key)
    (rest : List (List Byte)) :
    fileValue format (record :: rest) key = fileValue format rest key := if_neg hkey

theorem fileValue_cons_self {record : List Byte} {value : Value}
    (hvalue : format.loadValue record = .ok value) (rest : List (List Byte)) :
    fileValue format (record :: rest) (keyOf format record) = some value := by
  rw [fileValue, if_pos rfl, hvalue]
  rfl

theorem fileValue_of_notMem {items : List (List Byte)} {key : List Byte}
    (hkey : key ∉ items.map (keyOf format)) : fileValue format items key = none := by
  induction items with
  | nil => rfl
  | cons record rest ih =>
      rw [List.map_cons, List.mem_cons, not_or] at hkey
      rw [fileValue_cons_of_ne (Ne.symm hkey.1), ih hkey.2]

theorem fileValue_ne_none_iff {items : List (List Byte)}
    (hreadable : ∀ record ∈ items, Readable format record) (key : List Byte) :
    fileValue format items key ≠ none ↔ key ∈ items.map (keyOf format) := by
  induction items with
  | nil => exact iff_of_false (fun hne => hne rfl) List.not_mem_nil
  | cons record rest ih =>
      rw [List.forall_mem_cons] at hreadable
      obtain ⟨⟨-, value, hvalue⟩, hrest⟩ := hreadable
      rw [List.map_cons, List.mem_cons]
      by_cases hkey : keyOf format record = key
      · subst hkey
        rw [fileValue_cons_self hvalue]
        exact iff_of_true (Option.some_ne_none _) (.inl rfl)
      · rw [fileValue_cons_of_ne hkey, ih hrest]
        exact (or_iff_right (Ne.symm hkey)).symm

/-- A record behind the others counts for a key that has none. -/
theorem fileValue_concat {items : List (List Byte)} {record : List Byte} {value : Value}
    (hvalue : format.loadValue record = .ok value)
    (hnew : keyOf format record ∉ items.map (keyOf format)) (key : List Byte) :
    fileValue format (items ++ [record]) key =
      if key = keyOf format record then some value else fileValue format items key := by
  induction items with
  | nil =>
      rw [List.nil_append]
      split
      next hkey => rw [hkey, fileValue_cons_self hvalue]
      next hkey => exact fileValue_cons_of_ne (Ne.symm hkey) []
  | cons first rest ih =>
      rw [List.map_cons, List.mem_cons, not_or] at hnew
      rw [List.cons_append]
      by_cases hfirst : keyOf format first = key
      · have hkey : key ≠ keyOf format record := fun heq => hnew.1 (heq.symm.trans hfirst.symm)
        rw [fileValue, if_pos hfirst, if_neg hkey, fileValue, if_pos hfirst]
      · rw [fileValue_cons_of_ne hfirst, fileValue_cons_of_ne hfirst, ih hnew.2]

/-- A record in the place of the one with its key. -/
theorem fileValue_set {items : List (List Byte)} {record : List Byte} {value : Value}
    (hvalue : format.loadValue record = .ok value)
    (hmem : keyOf format record ∈ items.map (keyOf format)) (key : List Byte) :
    fileValue format
        (items.set ((items.map (keyOf format)).idxOf (keyOf format record)) record) key =
      if key = keyOf format record then some value else fileValue format items key := by
  induction items with
  | nil => simp at hmem
  | cons first rest ih =>
      rw [List.map_cons]
      by_cases hfirst : keyOf format first = keyOf format record
      · rw [hfirst, List.idxOf_cons_self, List.set_cons_zero]
        split
        next hkey => rw [hkey, fileValue_cons_self hvalue]
        next hkey =>
          rw [fileValue_cons_of_ne (Ne.symm hkey), fileValue_cons_of_ne]
          rw [hfirst]
          exact Ne.symm hkey
      · rw [List.map_cons, List.mem_cons] at hmem
        have hrest := hmem.resolve_left (Ne.symm hfirst)
        rw [List.idxOf_cons_ne _ hfirst, List.set_cons_succ]
        by_cases hkey : keyOf format first = key
        · have hne : key ≠ keyOf format record := hkey ▸ hfirst
          rw [fileValue, if_pos hkey, if_neg hne, fileValue, if_pos hkey]
        · rw [fileValue_cons_of_ne hkey, fileValue_cons_of_ne hkey, ih hrest]

theorem map_keyOf_set {items : List (List Byte)} {record : List Byte}
    (hmem : keyOf format record ∈ items.map (keyOf format)) :
    (items.set ((items.map (keyOf format)).idxOf (keyOf format record)) record).map
      (keyOf format) = items.map (keyOf format) := by
  rw [List.map_set]
  have hlt := List.idxOf_lt_length_of_mem hmem
  conv_rhs => rw [← List.set_getElem_self hlt, List.getElem_idxOf hlt]

/-! ## Well formed files -/

/-- A complete record with this key and value. -/
structure Holds (format : Format Value) (record key : List Byte) (value : Value) : Prop where
  length_eq : record.length = format.size
  key_eq : keyOf format record = key
  readable : Readable format record
  value_eq : format.loadValue record = .ok value

theorem wellFormed_empty (hsize : 0 < format.size) : WellFormed format [] [] where
  length_eq := by simp
  readable := by simp
  nodup := List.nodup_nil
  torn_lt := hsize

theorem WellFormed.concat {items : List (List Byte)} {torn record key : List Byte}
    {value : Value} (hwell : WellFormed format items torn)
    (hholds : Holds format record key value) (hnew : key ∉ items.map (keyOf format)) :
    WellFormed format (items ++ [record]) torn where
  length_eq := by
    rw [List.forall_mem_append, List.forall_mem_singleton]
    exact ⟨hwell.length_eq, hholds.length_eq⟩
  readable := by
    rw [List.forall_mem_append, List.forall_mem_singleton]
    exact ⟨hwell.readable, hholds.readable⟩
  nodup := by
    rw [List.map_append, List.map_cons, List.map_nil, hholds.key_eq]
    exact List.nodup_append_comm.mp (List.nodup_cons.mpr ⟨hnew, hwell.nodup⟩)
  torn_lt := hwell.torn_lt

theorem WellFormed.set {items : List (List Byte)} {torn record key : List Byte}
    {value : Value} (hwell : WellFormed format items torn)
    (hholds : Holds format record key value) (hmem : key ∈ items.map (keyOf format)) :
    WellFormed format (items.set ((items.map (keyOf format)).idxOf key) record) torn where
  length_eq := by
    intro other hother
    rcases List.mem_or_eq_of_mem_set hother with hold | rfl
    · exact hwell.length_eq other hold
    · exact hholds.length_eq
  readable := by
    intro other hother
    rcases List.mem_or_eq_of_mem_set hother with hold | rfl
    · exact hwell.readable other hold
    · exact hholds.readable
  nodup := by
    rw [← hholds.key_eq] at hmem ⊢
    rw [map_keyOf_set hmem]
    exact hwell.nodup
  torn_lt := hwell.torn_lt

/-! ## Loading -/

/-- Each key is loaded with the value of its record. -/
theorem current_loadRecords {items : List (List Byte)}
    (hreadable : ∀ record ∈ items, Readable format record)
    (hnodup : (items.map (keyOf format)).Nodup) (map : Map Value) :
    ∃ loaded, loadRecords format items map = .ok loaded ∧
      ∀ key, current loaded key = (fileValue format items key).or (current map key) := by
  induction items generalizing map with
  | nil => exact ⟨map, rfl, fun _ => rfl⟩
  | cons record rest ih =>
      rw [List.forall_mem_cons] at hreadable
      obtain ⟨⟨hkey, value, hvalue⟩, hrest⟩ := hreadable
      rw [List.map_cons, List.nodup_cons] at hnodup
      obtain ⟨loaded, hload, hloaded⟩ :=
        ih hrest hnodup.2 (.put (keyOf format record) value :: map)
      refine ⟨loaded, ?_, ?_⟩
      · rw [loadRecords, loadItem_of_readable hkey hvalue, ok_bind, hload]
      · intro key
        rw [hloaded, current_put]
        by_cases hself : key = keyOf format record
        · subst hself
          rw [fileValue_of_notMem hnodup.1, fileValue_cons_self hvalue, if_pos rfl]
          rfl
        · rw [fileValue_cons_of_ne (Ne.symm hself), if_neg hself]

theorem length_records_le (size : Nat) (content : List Byte) :
    (records size content).length ≤ content.length := by
  rw [records, List.length_map, List.length_range]
  exact Nat.div_le_self _ _

theorem WellFormed.records_eq (hsize : 0 < format.size) {items : List (List Byte)}
    {torn : List Byte} (hwell : WellFormed format items torn) :
    records format.size (items.flatten ++ torn) = items :=
  records_flatten hsize hwell.length_eq hwell.torn_lt

theorem WellFormed.fileKeys_eq (hsize : 0 < format.size) {items : List (List Byte)}
    {torn : List Byte} (hwell : WellFormed format items torn) :
    fileKeys format (items.flatten ++ torn) = items.map (keyOf format) := by
  rw [fileKeys, hwell.records_eq hsize]

theorem WellFormed.exists_reload (hsize : 0 < format.size) {items : List (List Byte)}
    {torn : List Byte} (hwell : WellFormed format items torn) :
    ∃ disc, reload (init format) (items.flatten ++ torn) = some (.ok disc) ∧
      disc.fp.content = items.flatten ++ torn ∧
      ∀ key, htGet disc.map key = fileValue format items key := by
  obtain ⟨loaded, hload, hloaded⟩ := current_loadRecords hwell.readable hwell.nodup []
  have hrounds := Nat.lt_succ_of_le (length_records_le format.size (items.flatten ++ torn))
  have hinit : reload (init format) (items.flatten ++ torn) = _ :=
    init_of_clear hsize rfl hrounds [] []
  have hrecords : records format.size
      ((fopen (items.flatten ++ torn)).content.drop (fopen (items.flatten ++ torn)).position) =
        items := hwell.records_eq hsize
  rw [hrecords, hload] at hinit
  refine ⟨_, hinit, rfl, ?_⟩
  intro key
  exact (hloaded key).trans (Option.or_none)

end CcCvStore.RecordFile
