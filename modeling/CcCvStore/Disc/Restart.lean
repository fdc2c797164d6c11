import CcCvStore.Core.Runs
import CcCvStore.Disc.FileContents

/-!
# Restarts

What a load of the file finds after additions.  An addition of a new key writes
at the end of the file, so what a crash left there shifts the new record; an
addition of a known key writes over its record.
-/

namespace CcCvStore.RecordFile

open CcCvStore.CInteger
open CcCvStore.CString
open CcCvStore.Effect
open CcCvStore.Runs
open CcCvStore.Stdio
open CcCvStore.WriteHistory

variable {Value : Type} {format : Format Value} {Fits : Value → Prop}

/-! ## The search for a record -/

theorem getIndexKeyLoop_of_read {fp after : Stream} (heof : fp.eof = false)
    {record : List Byte} (hread : fp.fread format.size = (some record, after)) (key : Key)
    (rounds : Nat) (n : Int) :
    getIndexKeyLoop format key (rounds + 1) n fp =
      if keyOf format record = key.bytes then .ok (n, after)
      else (do
        let n ← intResult (n + 1)
        getIndexKeyLoop format key rounds n after) := by
  simp only [getIndexKeyLoop, heof, Bool.false_eq_true, if_false, hread, keyOf]
  rfl

/-- The search counts the records before the key's; the count is an `int`. -/
theorem getIndexKeyLoop_of_mem (hsize : 0 < format.size) {key : Key} {fp : Stream}
    (heof : fp.eof = false) {items : List (List Byte)}
    (hitems : records format.size (fp.content.drop fp.position) = items)
    (hmem : key.bytes ∈ items.map (keyOf format)) {rounds : Nat}
    (hrounds : items.length < rounds) {n : Int} (hlow : 0 ≤ n) (hhigh : n ≤ intMax) :
    (n + (items.map (keyOf format)).idxOf key.bytes ≤ intMax →
      ∃ after, getIndexKeyLoop format key rounds n fp =
        .ok (n + (items.map (keyOf format)).idxOf key.bytes, after) ∧
        after.content = fp.content) ∧
    (intMax < n + (items.map (keyOf format)).idxOf key.bytes →
      getIndexKeyLoop format key rounds n fp = .error .intOverflow) := by
  induction items generalizing fp rounds n with
  | nil => simp at hmem
  | cons record rest ih =>
      obtain ⟨rounds, rfl⟩ := Nat.exists_eq_add_of_le' (Nat.zero_lt_of_lt hrounds)
      obtain ⟨hread, -, hrest⟩ := Stream.fread_of_cons hsize heof hitems
      rw [getIndexKeyLoop_of_read heof hread, List.map_cons]
      by_cases hkey : keyOf format record = key.bytes
      · rw [if_pos hkey, hkey, List.idxOf_cons_self, Int.natCast_zero, Int.add_zero]
        exact ⟨fun _ => ⟨_, rfl, rfl⟩, fun hover => absurd hhigh (Int.not_le.mpr hover)⟩
      · rw [if_neg hkey, List.idxOf_cons_ne _ hkey]
        rw [List.map_cons, List.mem_cons] at hmem
        have hlater := hmem.resolve_left (Ne.symm hkey)
        have hshift : n + ((rest.map (keyOf format)).idxOf key.bytes).succ =
            n + 1 + (rest.map (keyOf format)).idxOf key.bytes := by omega
        rw [hshift]
        rcases Int.lt_or_le intMax (n + 1) with hover | hroom
        · -- the increment itself overflows
          rw [intResult_eq_error _ fun hrange => absurd hrange.2 (Int.not_le.mpr hover)]
          exact ⟨fun hfits => absurd hfits (by omega), fun _ => rfl⟩
        · have hnext : intResult (n + 1) = .ok (n + 1) := by
            apply intResult_of_range _ hroom
            rw [intMin]
            omega
          rw [hnext, ok_bind]
          have hclear : ({ fp with position := fp.position + format.size } : Stream).eof = false :=
            heof
          exact ih hclear hrest hlater (Nat.lt_of_succ_lt_succ hrounds) (by omega) hroom

/-! ## One addition -/

/-- File and table hold the same keys, and the file holds the values added. -/
structure Tracked (format : Format Value) (disc : Disc Value) (added : Map Value)
    (items : List (List Byte)) (torn : List Byte) : Prop extends
    WellFormed format items torn where
  content : disc.fp.content = items.flatten ++ torn
  keys : ∀ key, htGet disc.map key ≠ none ↔ key ∈ items.map (keyOf format)
  values : ∀ key, current added key = fileValue format items key

variable {disc : Disc Value} {added : Map Value} {items : List (List Byte)} {torn : List Byte}

/-- The state after a load. -/
theorem WellFormed.tracked (hwell : WellFormed format items torn)
    (hcontent : disc.fp.content = items.flatten ++ torn)
    (hmap : ∀ key, htGet disc.map key = fileValue format items key) :
    Tracked format disc disc.map items torn where
  toWellFormed := hwell
  content := hcontent
  keys key := by
    rw [hmap]
    exact fileValue_ne_none_iff hwell.readable key
  values := hmap

theorem Tracked.getIndexKey_eq (hsize : 0 < format.size)
    (htracked : Tracked format disc added items torn) {key : Key}
    (hmem : key.bytes ∈ items.map (keyOf format)) :
    (((items.map (keyOf format)).idxOf key.bytes : Int) ≤ intMax →
      ∃ after, getIndexKey format key disc.fp =
        .ok ((items.map (keyOf format)).idxOf key.bytes, after) ∧
        after.content = disc.fp.content) ∧
    (intMax < (items.map (keyOf format)).idxOf key.bytes →
      getIndexKey format key disc.fp = .error .intOverflow) := by
  have hstart : disc.fp.fseekSet 0 = ⟨disc.fp.content, 0, false⟩ :=
    Stream.fseekSet_natCast disc.fp 0
  have hitems : records format.size (disc.fp.content.drop 0) = items := by
    rw [List.drop_zero, htracked.content, htracked.records_eq hsize]
  have hrounds : items.length < disc.fp.content.length + 1 := by
    rw [← hitems]
    exact Nat.lt_succ_of_le (length_records_le _ _)
  have hclear : (⟨disc.fp.content, 0, false⟩ : Stream).eof = false := rfl
  have hloop := getIndexKeyLoop_of_mem hsize hclear hitems hmem hrounds (Int.le_refl 0) (by decide)
  rw [getIndexKey, hstart]
  rwa [Int.zero_add] at hloop

/-- The record an addition writes. -/
theorem Lawful.exists_record (hlawful : Lawful format Fits) (stack : Nat → Byte) (key : Key)
    {value : Value} (hfits : Fits value) :
    ∃ record, format.fill ((List.range format.size).map stack) key value = .ok record ∧
      Holds format record key.bytes value := by
  have hstack : ((List.range format.size).map stack).length = format.size := by
    rw [List.length_map, List.length_range]
  obtain ⟨record, hfill, hlength, hkey, hvalue⟩ := hlawful.fill _ key value hstack hfits
  have hnul : 0 ∈ format.keyField record := by
    by_contra hnot
    rw [arrayStr_of_notMem hnot] at hkey
    contradiction
  rw [arrayStr_of_mem hnul] at hkey
  exact ⟨record, hfill, hlength, congrArg Str.bytes (Except.ok.inj hkey), ⟨hnul, value, hvalue⟩,
    hvalue⟩

theorem Lawful.fits_of_add (hlawful : Lawful format Fits) {stack : Nat → Byte} {key : Key}
    {value : Value} {after : Disc Value}
    (hadd : format.addKeyPosition stack key value disc = .ok after) : Fits value := by
  rw [Format.addKeyPosition, RecordFile.addKeyPosition] at hadd
  cases hfill : format.fill ((List.range format.size).map stack) key value with
  | ok record => exact hlawful.fits _ key value record (by simp) hfill
  | error fault =>
      rw [hfill] at hadd
      contradiction

/-- A new key gets a record at the end of a file without a torn one. -/
theorem Tracked.add_new (hlawful : Lawful format Fits)
    (htracked : Tracked format disc added items []) (stack : Nat → Byte) {key : Key}
    {value : Value} (hfits : Fits value) (hnew : htGet disc.map key.bytes = none) :
    ∃ after items', format.addKeyPosition stack key value disc = .ok after ∧
      after.map = .put key.bytes value :: disc.map ∧
      Tracked format after (.put key.bytes value :: added) items' [] := by
  obtain ⟨record, hfill, hholds⟩ := hlawful.exists_record stack key hfits
  have hfresh : key.bytes ∉ items.map (keyOf format) := by
    rw [← htracked.keys, hnew, ne_eq, not_not]
  refine ⟨⟨disc.fp.fseekEnd.fwrite record, htSet disc.map key.bytes value⟩, items ++ [record],
    ?_, rfl, ?_⟩
  · simp only [RecordFile.addKeyPosition, hfill, hnew, ok_bind]
    rfl
  · exact {
      toWellFormed := htracked.toWellFormed.concat hholds hfresh
      content := by
        change Stream.overwrite disc.fp.content disc.fp.content.length record = _
        rw [overwrite_end, htracked.content, List.append_nil, List.append_nil,
          List.flatten_append, List.flatten_singleton]
      keys := by
        intro other
        rw [htGet, htSet, current_put, List.map_append, List.mem_append, List.map_cons,
          List.map_nil, List.mem_singleton, hholds.key_eq]
        split
        next hself => exact iff_of_true (Option.some_ne_none _) (.inr hself)
        next hother => exact (htracked.keys other).trans (or_iff_left hother).symm
      values := by
        intro other
        rw [← hholds.key_eq] at hfresh
        rw [current_put, fileValue_concat hholds.value_eq hfresh, hholds.key_eq,
          htracked.values] }

/-- A known key's record is written over, wherever the file ends. -/
theorem Tracked.add_known (hlawful : Lawful format Fits)
    (htracked : Tracked format disc added items torn) (stack : Nat → Byte) {key : Key}
    {value old : Value} (hfits : Fits value) (hold : htGet disc.map key.bytes = some old)
    (hindex : ((items.map (keyOf format)).idxOf key.bytes : Int) ≤ intMax) :
    ∃ after items', format.addKeyPosition stack key value disc = .ok after ∧
      after.map = disc.map ∧
      Tracked format after (.put key.bytes value :: added) items' torn := by
  obtain ⟨record, hfill, hholds⟩ := hlawful.exists_record stack key hfits
  have hknown : key.bytes ∈ items.map (keyOf format) := by
    rw [← htracked.keys, hold]
    exact Option.some_ne_none _
  let index := (items.map (keyOf format)).idxOf key.bytes
  have hlt : index < items.length := by
    have hbound := List.idxOf_lt_length_of_mem hknown
    rwa [List.length_map] at hbound
  obtain ⟨fp, hfound, hsame⟩ := (htracked.getIndexKey_eq hlawful.size_pos hknown).1 hindex
  refine ⟨{ disc with fp := (fp.fseekSet (format.size * index)).fwrite record },
    items.set index record, ?_, rfl, ?_⟩
  · simp only [RecordFile.addKeyPosition, hfill, hold, hfound, ok_bind]
    rfl
  · have hself : keyOf format record ∈ items.map (keyOf format) := hholds.key_eq.symm ▸ hknown
    have hset : items.set ((items.map (keyOf format)).idxOf (keyOf format record)) record =
        items.set index record := by rw [hholds.key_eq]
    exact {
      toWellFormed := htracked.toWellFormed.set hholds hknown
      content := by
        have hoffset : (format.size : Int) * index = (index * format.size : Nat) := by
          rw [Int.natCast_mul, Int.mul_comm]
        rw [hoffset, Stream.fseekSet_natCast]
        change Stream.overwrite fp.content (index * format.size) record = _
        rw [hsame, htracked.content,
          overwrite_record htracked.length_eq hlt hholds.length_eq]
      keys := by
        intro other
        rw [← hset, map_keyOf_set hself]
        exact htracked.keys other
      values := by
        intro other
        rw [current_put, ← hset, fileValue_set hholds.value_eq hself, hholds.key_eq,
          htracked.values] }

/-- A known key too far into the file is not found. -/
theorem Tracked.add_beyond (hlawful : Lawful format Fits)
    (htracked : Tracked format disc added items torn) (stack : Nat → Byte) {key : Key}
    {value old : Value} (hold : htGet disc.map key.bytes = some old)
    (hindex : intMax < (items.map (keyOf format)).idxOf key.bytes) (after : Disc Value) :
    format.addKeyPosition stack key value disc ≠ .ok after := by
  have hknown : key.bytes ∈ items.map (keyOf format) := by
    rw [← htracked.keys, hold]
    exact Option.some_ne_none _
  have hsearch := htracked.getIndexKey_eq hlawful.size_pos hknown
  intro hadd
  cases hfill : format.fill ((List.range format.size).map stack) key value with
  | ok record =>
      simp only [RecordFile.addKeyPosition, hfill, hold, hsearch.2 hindex, ok_bind,
        error_bind] at hadd
      contradiction
  | error fault =>
      simp only [RecordFile.addKeyPosition, hfill, error_bind] at hadd
      contradiction

/-! ## Runs of additions -/

/-- The arguments of a call, and what its local record holds at first. -/
structure Addition (Value : Type) where
  stack : Nat → Byte
  key : Key
  value : Value

/-- The file in use, and everything that should be in it. -/
structure World (Value : Type) where
  disc : Disc Value
  added : Map Value

/-- After a load, what the file held should be in it. -/
def World.start (disc : Disc Value) : World Value := ⟨disc, disc.map⟩

def step (addKeyPosition : AddKeyPosition Value) (world : World Value) (add : Addition Value) :
    World Value :=
  match addKeyPosition add.stack add.key add.value world.disc with
  | .ok disc => ⟨disc, .put add.key.bytes add.value :: world.added⟩
  | .error _ => world

/-- A fresh load finds the value added last for each key, or the one the file
held before, and no key has two records. -/
def Restarts (format : Format Value) (init : Init Value) (content : List Byte)
    (added : Map Value) : Prop :=
  ∃ fresh, reload init content = some (.ok fresh) ∧
    (∀ key, htGet fresh.map key = current added key) ∧ (fileKeys format content).Nodup

/-- The call returns, and what was added so far is found after a restart. -/
def Survives (format : Format Value) (addKeyPosition : AddKeyPosition Value) (init : Init Value)
    (world : World Value) (add : Addition Value) : Prop :=
  ∃ after, addKeyPosition add.stack add.key add.value world.disc = .ok after ∧
    Restarts format init after.fp.content (.put add.key.bytes add.value :: world.added)

/-- The value fits its array; a new key meets no torn record, and the record of
a known one can be counted to. -/
def Placed (format : Format Value) (Fits : Value → Prop) (world : World Value)
    (add : Addition Value) : Prop :=
  Fits add.value ∧
    (htGet world.disc.map add.key.bytes = none →
      world.disc.fp.content.length % format.size = 0) ∧
    (htGet world.disc.map add.key.bytes ≠ none →
      ((fileKeys format world.disc.fp.content).idxOf add.key.bytes : Int) ≤ intMax)

theorem step_of_ok {world : World Value} {add : Addition Value} {after : Disc Value}
    (hadd : format.addKeyPosition add.stack add.key add.value world.disc = .ok after) :
    step format.addKeyPosition world add =
      ⟨after, .put add.key.bytes add.value :: world.added⟩ := by
  rw [step, hadd]

theorem Tracked.torn_eq_nil
    (htracked : Tracked format disc added items torn)
    (haligned : disc.fp.content.length % format.size = 0) : torn = [] := by
  have hlength : disc.fp.content.length = torn.length + items.length * format.size := by
    rw [htracked.content, List.length_append, length_flatten htracked.length_eq, Nat.add_comm]
  rw [hlength, Nat.add_mul_mod_self_right, Nat.mod_eq_of_lt htracked.torn_lt] at haligned
  exact List.eq_nil_of_length_eq_zero haligned

theorem Tracked.fileKeys_eq (hsize : 0 < format.size)
    (htracked : Tracked format disc added items torn) :
    fileKeys format disc.fp.content = items.map (keyOf format) := by
  rw [htracked.content, htracked.toWellFormed.fileKeys_eq hsize]

theorem Tracked.restarts (hsize : 0 < format.size)
    (htracked : Tracked format disc added items torn) :
    Restarts format (init format) disc.fp.content added := by
  obtain ⟨fresh, hreload, -, hfresh⟩ := htracked.toWellFormed.exists_reload hsize
  refine ⟨fresh, ?_, ?_, ?_⟩
  · rw [htracked.content, hreload]
  · intro key
    rw [hfresh, htracked.values]
  · rw [htracked.fileKeys_eq hsize]
    exact htracked.nodup

theorem Tracked.add_of_placed (hlawful : Lawful format Fits) {world : World Value}
    (htracked : Tracked format world.disc world.added items torn) {add : Addition Value}
    (hplaced : Placed format Fits world add) :
    ∃ after items' torn',
      format.addKeyPosition add.stack add.key add.value world.disc = .ok after ∧
      Tracked format after (.put add.key.bytes add.value :: world.added) items' torn' := by
  obtain ⟨hfits, hnew, hknown⟩ := hplaced
  cases hmap : htGet world.disc.map add.key.bytes with
  | none =>
      have htorn := htracked.torn_eq_nil (hnew hmap)
      subst htorn
      obtain ⟨after, items', hadd, -, hafter⟩ := htracked.add_new hlawful add.stack hfits hmap
      exact ⟨after, items', [], hadd, hafter⟩
  | some old =>
      have hindex := hknown (by rw [hmap]; exact Option.some_ne_none _)
      rw [htracked.fileKeys_eq hlawful.size_pos] at hindex
      obtain ⟨after, items', hadd, -, hafter⟩ :=
        htracked.add_known hlawful add.stack hfits hmap hindex
      exact ⟨after, items', torn, hadd, hafter⟩

/-- In a run of placed additions everything added survives a restart. -/
theorem Tracked.eachStep_survives (hlawful : Lawful format Fits)
    (htracked : Tracked format disc added items torn) {adds : List (Addition Value)}
    (hplaced : EachStep (step format.addKeyPosition) (Placed format Fits) ⟨disc, added⟩ adds) :
    EachStep (step format.addKeyPosition) (Survives format format.addKeyPosition (init format))
      ⟨disc, added⟩ adds := by
  have hkeep : ∀ (world : World Value) add,
      (∃ items torn, Tracked format world.disc world.added items torn) →
        Placed format Fits world add →
          ∃ items torn, Tracked format (step format.addKeyPosition world add).disc
            (step format.addKeyPosition world add).added items torn := by
    rintro world add ⟨items, torn, htracked⟩ hplaced
    obtain ⟨after, items', torn', hadd, hafter⟩ := htracked.add_of_placed hlawful hplaced
    rw [step_of_ok hadd]
    exact ⟨items', torn', hafter⟩
  have hgood : ∀ (world : World Value) add,
      (∃ items torn, Tracked format world.disc world.added items torn) →
        Placed format Fits world add →
          Survives format format.addKeyPosition (init format) world add := by
    rintro world add ⟨items, torn, htracked⟩ hplaced
    obtain ⟨after, items', torn', hadd, hafter⟩ := htracked.add_of_placed hlawful hplaced
    exact ⟨after, hadd, hafter.restarts hlawful.size_pos⟩
  exact eachStep_of_guard hkeep hgood ⟨items, torn, htracked⟩ hplaced

/-- From a well formed file on: the load finds its records, and placed
additions survive. -/
theorem WellFormed.survives (hlawful : Lawful format Fits)
    (hwell : WellFormed format items torn) :
    (∃ disc, reload (init format) (items.flatten ++ torn) = some (.ok disc)) ∧
      ∀ disc, reload (init format) (items.flatten ++ torn) = some (.ok disc) →
        (∀ key, htGet disc.map key = fileValue format items key) ∧
        ∀ adds, EachStep (step format.addKeyPosition) (Placed format Fits) (.start disc) adds →
          EachStep (step format.addKeyPosition)
            (Survives format format.addKeyPosition (init format)) (.start disc) adds := by
  obtain ⟨disc, hreload, hcontent, hmap⟩ := hwell.exists_reload hlawful.size_pos
  refine ⟨⟨disc, hreload⟩, ?_⟩
  intro other hother
  rw [hreload] at hother
  cases hother
  exact ⟨hmap, fun adds => (hwell.tracked hcontent hmap).eachStep_survives hlawful⟩

/-- What is added to a well formed file is found after a restart, in every run
whose additions are placed. -/
theorem additions_found (idxItems dtItems : List (List Byte)) (idxTorn dtTorn : List Byte)
    (hidx : WellFormed idxFormat idxItems idxTorn) (hdt : WellFormed dtFormat dtItems dtTorn) :
    ((∃ disc, reload idxInit (idxItems.flatten ++ idxTorn) = some (.ok disc)) ∧
      ∀ disc, reload idxInit (idxItems.flatten ++ idxTorn) = some (.ok disc) →
        (∀ key, htGet disc.map key = fileValue idxFormat idxItems key) ∧
        ∀ adds, EachStep (step idxAddKeyPosition) (Placed idxFormat fun _ => True)
            (.start disc) adds →
          EachStep (step idxAddKeyPosition) (Survives idxFormat idxAddKeyPosition idxInit)
            (.start disc) adds) ∧
    (∃ disc, reload dtInit (dtItems.flatten ++ dtTorn) = some (.ok disc)) ∧
      ∀ disc, reload dtInit (dtItems.flatten ++ dtTorn) = some (.ok disc) →
        (∀ key, htGet disc.map key = fileValue dtFormat dtItems key) ∧
        ∀ adds, EachStep (step dtAddKeyPosition)
            (Placed dtFormat fun value => value.bytes.length < maxValueSize) (.start disc) adds →
          EachStep (step dtAddKeyPosition) (Survives dtFormat dtAddKeyPosition dtInit)
            (.start disc) adds :=
  ⟨hidx.survives idxFormat_lawful, hdt.survives dtFormat_lawful⟩

theorem zero_notMem_sample : (0 : Byte) ∉ [107] := by decide

theorem length_sample : ([107] : List Byte).length < maxKeySize := by decide

def sampleKey : Key := ⟨⟨[107], zero_notMem_sample⟩, length_sample⟩

/-- The record of the sample key with position `1`. -/
def sampleRecord : List Byte := intBytes 1 ++ 107 :: List.replicate 127 0

def sampleAddition (position : Int32) : Addition Int32 := ⟨fun _ => 0, sampleKey, position⟩

theorem sampleRecord_wellFormed : WellFormed idxFormat [sampleRecord] [7] where
  length_eq := by decide +kernel
  readable := by
    rw [List.forall_mem_singleton]
    exact ⟨by decide +kernel, 1, by decide +kernel⟩
  nodup := by decide +kernel
  torn_lt := by decide

/-- Behind a torn record the known key can still be added. -/
theorem additions_found_known :
    EachStep (step idxAddKeyPosition) (Survives idxFormat idxAddKeyPosition idxInit)
      (.start ⟨⟨sampleRecord ++ [7], 133, true⟩, [.put [107] 1]⟩)
      [sampleAddition 2, sampleAddition 3] := by
  apply ((additions_found [sampleRecord] [] [7] [] sampleRecord_wellFormed
    (wellFormed_empty dtFormat_lawful.size_pos)).1.2 _ _).2
  · rw [eachStep_cons, eachStep_cons]
    unfold Placed
    decide +kernel
  · decide +kernel

/-- A single byte left by a crash: the added record is loaded one byte off, and
its key is not found. -/
theorem torn_byte_shifts_record :
    reload idxInit [1] = some (.ok ⟨⟨[1], 1, true⟩, []⟩) ∧
      ¬EachStep (step idxAddKeyPosition) (Survives idxFormat idxAddKeyPosition idxInit)
        (.start ⟨⟨[1], 1, true⟩, []⟩) [sampleAddition 1] := by
  refine ⟨by decide +kernel, ?_⟩
  rintro ⟨⟨after, hadd, fresh, hreload, hfound, -⟩, -⟩
  have hafter : idxAddKeyPosition (fun _ => 0) sampleKey 1 ⟨⟨[1], 1, true⟩, []⟩ =
      .ok ⟨⟨1 :: sampleRecord, 133, false⟩, [.put [107] 1]⟩ := by decide +kernel
  have hshifted : reload idxInit (1 :: sampleRecord) =
      some (.ok ⟨⟨1 :: sampleRecord, 133, true⟩, [.put [] 257]⟩) := by decide +kernel
  cases hafter.symm.trans hadd
  cases hshifted.symm.trans hreload
  exact absurd (hfound [107]) (by decide +kernel)

end CcCvStore.RecordFile
