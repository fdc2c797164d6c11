import CcCvStore.Disc.Restart

/-!
# Table and file

Whether the table in memory and the file agree.  An addition of a known key
writes over its record and leaves the table as it was, so the two agree as long
as no known key is added with another value.
-/

namespace CcCvStore.RecordFile

open CcCvStore.CInteger
open CcCvStore.CString
open CcCvStore.Effect
open CcCvStore.Runs
open CcCvStore.Stdio
open CcCvStore.WriteHistory

variable {Value : Type} {format : Format Value} {Fits Valid : Value → Prop}
  {disc : Disc Value} {added : Map Value} {items : List (List Byte)}

/-! ## Files of the module -/

/-- One call of `*_add_key_position` on a file in use. -/
def addTo (addKeyPosition : AddKeyPosition Value) (disc : Disc Value) (add : Addition Value) :
    Except Fault (Disc Value) := addKeyPosition add.stack add.key add.value disc

/-- The files that loads and additions make out of an empty one. -/
inductive Produced (addKeyPosition : AddKeyPosition Value) (init : Init Value)
    (Valid : Value → Prop) : List Byte → Prop where
  | empty : Produced addKeyPosition init Valid []
  | session {content : List Byte} {disc after : Disc Value} {adds : List (Addition Value)}
      (hcontent : Produced addKeyPosition init Valid content)
      (hload : reload init content = some (.ok disc))
      (hvalid : ∀ add ∈ adds, Valid add.value)
      (hrun : tryRun (addTo addKeyPosition) disc adds = .ok after) :
      Produced addKeyPosition init Valid after.fp.content

/-- An addition that returns leaves a well formed file with the value in it. -/
theorem Tracked.of_add (hlawful : Lawful format Fits)
    (htracked : Tracked format disc added items []) {add : Addition Value} {after : Disc Value}
    (hadd : addTo format.addKeyPosition disc add = .ok after) :
    (∃ items', Tracked format after (.put add.key.bytes add.value :: added) items' []) ∧
      ((htGet disc.map add.key.bytes = none ∧
          after.map = .put add.key.bytes add.value :: disc.map) ∨
        (htGet disc.map add.key.bytes ≠ none ∧ after.map = disc.map)) := by
  have hfits := hlawful.fits_of_add hadd
  cases hmap : htGet disc.map add.key.bytes with
  | none =>
      obtain ⟨result, items', hresult, hput, htracked'⟩ :=
        htracked.add_new hlawful add.stack hfits hmap
      cases hresult.symm.trans hadd
      exact ⟨⟨items', htracked'⟩, .inl ⟨rfl, hput⟩⟩
  | some old =>
      have hindex : ((items.map (keyOf format)).idxOf add.key.bytes : Int) ≤ intMax := by
        by_contra hbeyond
        exact htracked.add_beyond hlawful add.stack hmap (Int.not_le.mp hbeyond) after hadd
      obtain ⟨result, items', hresult, hput, htracked'⟩ :=
        htracked.add_known hlawful add.stack hfits hmap hindex
      cases hresult.symm.trans hadd
      exact ⟨⟨items', htracked'⟩, .inr ⟨Option.some_ne_none _, hput⟩⟩

theorem valid_put {map : Map Value} (hmap : ∀ key value, current map key = some value → Valid value)
    {added : Value} (hadded : Valid added) (name : List Byte) :
    ∀ key value, current (.put name added :: map) key = some value → Valid value := by
  intro key value hcurrent
  rw [current_put] at hcurrent
  split at hcurrent
  next =>
    cases hcurrent
    exact hadded
  next => exact hmap key value hcurrent

theorem Tracked.of_adds (hlawful : Lawful format Fits)
    (htracked : Tracked format disc added items [])
    (hadded : ∀ key value, current added key = some value → Valid value)
    {adds : List (Addition Value)} (hvalid : ∀ add ∈ adds, Valid add.value) {after : Disc Value}
    (hrun : tryRun (addTo format.addKeyPosition) disc adds = .ok after) :
    ∃ added' items', Tracked format after added' items' [] ∧
      ∀ key value, current added' key = some value → Valid value := by
  induction adds generalizing disc added items with
  | nil =>
      cases hrun
      exact ⟨added, items, htracked, hadded⟩
  | cons add rest ih =>
      rw [List.forall_mem_cons] at hvalid
      cases hadd : addTo format.addKeyPosition disc add with
      | ok next =>
          rw [tryRun_cons_of_ok hadd] at hrun
          obtain ⟨⟨items', hnext⟩, -⟩ := htracked.of_add hlawful hadd
          exact ih hnext (valid_put hadded hvalid.1 _) hvalid.2 hrun
      | error fault =>
          rw [tryRun, hadd] at hrun
          contradiction

/-- The files of the module are well formed and hold valid values. -/
theorem Produced.wellFormed (hlawful : Lawful format Fits) {content : List Byte}
    (hproduced : Produced format.addKeyPosition (init format) Valid content) :
    ∃ items, content = items.flatten ++ [] ∧ WellFormed format items [] ∧
      ∀ key value, fileValue format items key = some value → Valid value := by
  induction hproduced with
  | empty =>
      exact ⟨[], rfl, wellFormed_empty hlawful.size_pos, fun _ _ hvalue => by contradiction⟩
  | @session content loaded after adds hcontent hload hvalid hrun ih =>
      obtain ⟨items, rfl, hwell, hvalues⟩ := ih
      obtain ⟨disc, hreload, hsame, hmap⟩ := hwell.exists_reload hlawful.size_pos
      cases hreload.symm.trans hload
      have hstart : ∀ key value, current loaded.map key = some value → Valid value := by
        intro key value hcurrent
        exact hvalues key value ((hmap key).symm.trans hcurrent)
      obtain ⟨added, items', htracked, hadded⟩ :=
        (hwell.tracked hsame hmap).of_adds hlawful hstart hvalid hrun
      refine ⟨items', htracked.content, htracked.toWellFormed, ?_⟩
      intro key value hvalue
      exact hadded key value ((htracked.values key).trans hvalue)

/-! ## Agreement -/

/-- Table and file both hold what was added. -/
def InStep (format : Format Value) (Valid : Value → Prop) (world : World Value) : Prop :=
  (∃ items, Tracked format world.disc world.added items []) ∧
    (∀ key value, current world.added key = some value → Valid value) ∧
    ∀ key, htGet world.disc.map key = current world.added key

/-- The call returns, and leaves table and file in agreement. -/
def AgreesAfter (addKeyPosition : AddKeyPosition Value) (Agrees : World Value → Prop)
    (world : World Value) (add : Addition Value) : Prop :=
  ∃ after, addTo addKeyPosition world.disc add = .ok after ∧
    Agrees ⟨after, .put add.key.bytes add.value :: world.added⟩

/-- The value fits its array; the key is new, or is known with this very value
and its record can be counted to. -/
def Unchanging (format : Format Value) (Fits : Value → Prop) (world : World Value)
    (add : Addition Value) : Prop :=
  Fits add.value ∧ (htGet world.disc.map add.key.bytes = none ∨
    htGet world.disc.map add.key.bytes = some add.value ∧
      ((fileKeys format world.disc.fp.content).idxOf add.key.bytes : Int) ≤ intMax)

theorem InStep.add (hlawful : Lawful format Fits) {world : World Value}
    (hstep : InStep format Valid world) {add : Addition Value} (hvalid : Valid add.value)
    (hunchanging : Unchanging format Fits world add) :
    ∃ after, addTo format.addKeyPosition world.disc add = .ok after ∧
      InStep format Valid ⟨after, .put add.key.bytes add.value :: world.added⟩ := by
  obtain ⟨⟨items, htracked⟩, hadded, hmap⟩ := hstep
  obtain ⟨hfits, hnew | ⟨hsame, hindex⟩⟩ := hunchanging
  · obtain ⟨after, items', hadd, hput, hafter⟩ :=
      htracked.add_new hlawful add.stack hfits hnew
    refine ⟨after, hadd, ⟨items', hafter⟩, valid_put hadded hvalid _, ?_⟩
    intro key
    rw [hput, htGet, current_put, current_put, ← hmap]
    rfl
  · rw [htracked.fileKeys_eq hlawful.size_pos] at hindex
    obtain ⟨after, items', hadd, hkept, hafter⟩ :=
      htracked.add_known hlawful add.stack hfits hsame hindex
    refine ⟨after, hadd, ⟨items', hafter⟩, valid_put hadded hvalid _, ?_⟩
    intro key
    rw [hkept, current_put]
    split
    next hself => rw [hself, hsame]
    next => exact hmap key

/-- A call that returns with the last value in the table was unchanging. -/
theorem InStep.unchanging (hlawful : Lawful format Fits) {world : World Value}
    (hstep : InStep format Valid world) {add : Addition Value} {after : Disc Value}
    (hadd : addTo format.addKeyPosition world.disc add = .ok after)
    (hlast : ∀ old, htGet after.map add.key.bytes = some old → old = add.value) :
    Unchanging format Fits world add := by
  obtain ⟨⟨items, htracked⟩, -, -⟩ := hstep
  refine ⟨hlawful.fits_of_add hadd, ?_⟩
  cases hmap : htGet world.disc.map add.key.bytes with
  | none => exact .inl rfl
  | some old =>
      obtain ⟨-, ⟨hnone, -⟩ | ⟨-, hkept⟩⟩ := htracked.of_add hlawful hadd
      · rw [hmap] at hnone
        contradiction
      · have hold : old = add.value := hlast old (by rw [hkept, hmap])
        refine .inr ⟨congrArg some hold, ?_⟩
        rw [htracked.fileKeys_eq hlawful.size_pos]
        by_contra hbeyond
        exact htracked.add_beyond hlawful add.stack hmap (Int.not_le.mp hbeyond) after hadd

/-- For a notion of agreement that holds of tables in step with the file, and
that tells the last value. -/
theorem eachStep_agrees_iff (hlawful : Lawful format Fits) {Agrees : World Value → Prop}
    (hagrees : ∀ world, InStep format Valid world → Agrees world)
    (hlast : ∀ disc added (key : Key) value old,
      Agrees ⟨disc, .put key.bytes value :: added⟩ →
        htGet disc.map key.bytes = some old → old = value)
    {world : World Value} (hstep : InStep format Valid world) {adds : List (Addition Value)}
    (hvalid : ∀ add ∈ adds, Valid add.value) :
    EachStep (step format.addKeyPosition) (AgreesAfter format.addKeyPosition Agrees) world adds ↔
      EachStep (step format.addKeyPosition) (Unchanging format Fits) world adds := by
  have hkeep : ∀ (world : World Value) (add : Addition Value), Valid add.value →
      InStep format Valid world → Unchanging format Fits world add →
        InStep format Valid (step format.addKeyPosition world add) := by
    intro world add hvalid hstep hunchanging
    obtain ⟨after, hadd, hafter⟩ := hstep.add hlawful hvalid hunchanging
    rw [step_of_ok hadd]
    exact hafter
  have hexact : ∀ (world : World Value) (add : Addition Value), Valid add.value →
      InStep format Valid world →
        (AgreesAfter format.addKeyPosition Agrees world add ↔
          Unchanging format Fits world add) := by
    intro world add hvalid hstep
    constructor
    · rintro ⟨after, hadd, hafter⟩
      exact hstep.unchanging hlawful hadd fun old => hlast _ _ _ _ old hafter
    · intro hunchanging
      obtain ⟨after, hadd, hafter⟩ := hstep.add hlawful hvalid hunchanging
      exact ⟨after, hadd, hagrees _ hafter⟩
  exact eachStep_iff_guard_of_valid hkeep hexact hstep hvalid

/-- A load of a file of the module leaves the table in step with it. -/
theorem Produced.inStep (hlawful : Lawful format Fits) {content : List Byte}
    (hproduced : Produced format.addKeyPosition (init format) Valid content) :
    (∃ disc, reload (init format) content = some (.ok disc)) ∧
      ∀ disc, reload (init format) content = some (.ok disc) →
        InStep format Valid (.start disc) := by
  obtain ⟨items, rfl, hwell, hvalues⟩ := hproduced.wellFormed hlawful
  obtain ⟨fresh, hreload, hsame, hmap⟩ := hwell.exists_reload hlawful.size_pos
  refine ⟨⟨fresh, hreload⟩, ?_⟩
  intro disc hload
  cases hreload.symm.trans hload
  refine ⟨⟨items, hwell.tracked hsame hmap⟩, ?_, fun _ => rfl⟩
  intro key value hcurrent
  exact hvalues key value ((hmap key).symm.trans hcurrent)

/-! ## The two files -/

/-- The position read is the one added last, the one a fresh load would find,
and `-1` where the file has no record. -/
def IdxAgrees (world : World Int32) : Prop :=
  ∃ fresh, reload idxInit world.disc.fp.content = some (.ok fresh) ∧ ∀ key : Key,
    idxGetKeyPos key world.disc.map = (current world.added key.bytes).getD (-1) ∧
    idxGetKeyPos key fresh.map = idxGetKeyPos key world.disc.map ∧
    (idxGetKeyPos key world.disc.map = -1 ↔
      key.bytes ∉ fileKeys idxFormat world.disc.fp.content)

/-- The value in the table is the one added last and the one a fresh load would
find. -/
def DtAgrees (world : World Str) : Prop :=
  ∃ fresh, reload dtInit world.disc.fp.content = some (.ok fresh) ∧ ∀ key : Key,
    htGet world.disc.map key.bytes = current world.added key.bytes ∧
    htGet fresh.map key.bytes = htGet world.disc.map key.bytes

theorem idxGetKeyPos_eq (key : Key) (map : Map Int32) :
    idxGetKeyPos key map = (htGet map key.bytes).getD (-1) := by
  rw [idxGetKeyPos]
  cases htGet map key.bytes <;> rfl

theorem idxAgrees_of_inStep (world : World Int32) (hstep : InStep idxFormat (0 ≤ ·) world) :
    IdxAgrees world := by
  obtain ⟨⟨items, htracked⟩, hadded, hmap⟩ := hstep
  have hsize := idxFormat_lawful.size_pos
  obtain ⟨fresh, hreload, hfresh, -⟩ := htracked.restarts hsize
  refine ⟨fresh, hreload, ?_⟩
  intro key
  refine ⟨?_, ?_, ?_⟩
  · rw [idxGetKeyPos_eq, hmap]
  · rw [idxGetKeyPos_eq, idxGetKeyPos_eq, hmap, hfresh]
  · rw [htracked.fileKeys_eq hsize, ← htracked.keys, not_not, idxGetKeyPos_eq]
    cases hvalue : htGet world.disc.map key.bytes with
    | none => exact iff_of_true rfl rfl
    | some position =>
        have hnonneg := hadded key.bytes position ((hmap _).symm.trans hvalue)
        refine iff_of_false ?_ (Option.some_ne_none _)
        intro hminus
        rw [Option.getD_some] at hminus
        rw [hminus] at hnonneg
        contradiction

theorem dtAgrees_of_inStep (world : World Str)
    (hstep : InStep dtFormat (fun _ => True) world) : DtAgrees world := by
  obtain ⟨⟨items, htracked⟩, -, hmap⟩ := hstep
  obtain ⟨fresh, hreload, hfresh, -⟩ := htracked.restarts dtFormat_lawful.size_pos
  refine ⟨fresh, hreload, ?_⟩
  intro key
  exact ⟨hmap key.bytes, by rw [hfresh, hmap]⟩

/-- Table and file agree throughout a run exactly when each of its additions is
unchanging. -/
theorem table_agrees_iff {idxContent dtContent : List Byte}
    (hidx : Produced idxAddKeyPosition idxInit (0 ≤ ·) idxContent)
    (hdt : Produced dtAddKeyPosition dtInit (fun _ => True) dtContent) :
    ((∃ disc, reload idxInit idxContent = some (.ok disc)) ∧
      ∀ disc, reload idxInit idxContent = some (.ok disc) →
        IdxAgrees (.start disc) ∧
        ∀ adds : List (Addition Int32), (∀ add ∈ adds, 0 ≤ add.value) →
          (EachStep (step idxAddKeyPosition) (AgreesAfter idxAddKeyPosition IdxAgrees)
              (.start disc) adds ↔
            EachStep (step idxAddKeyPosition) (Unchanging idxFormat fun _ => True)
              (.start disc) adds)) ∧
    (∃ disc, reload dtInit dtContent = some (.ok disc)) ∧
      ∀ disc, reload dtInit dtContent = some (.ok disc) →
        DtAgrees (.start disc) ∧
        ∀ adds : List (Addition Str),
          (EachStep (step dtAddKeyPosition) (AgreesAfter dtAddKeyPosition DtAgrees)
              (.start disc) adds ↔
            EachStep (step dtAddKeyPosition)
              (Unchanging dtFormat fun value => value.bytes.length < maxValueSize)
              (.start disc) adds) := by
  obtain ⟨hidxLoad, hidxStep⟩ := hidx.inStep idxFormat_lawful
  obtain ⟨hdtLoad, hdtStep⟩ := hdt.inStep dtFormat_lawful
  refine ⟨⟨hidxLoad, ?_⟩, hdtLoad, ?_⟩
  · intro disc hload
    have hstep := hidxStep disc hload
    refine ⟨idxAgrees_of_inStep _ hstep, ?_⟩
    intro adds hvalid
    apply eachStep_agrees_iff idxFormat_lawful idxAgrees_of_inStep _ hstep hvalid
    rintro disc added key value old ⟨fresh, -, hread⟩ hold
    have hposition := (hread key).1
    rw [idxGetKeyPos_eq, hold, current_put, if_pos rfl] at hposition
    exact hposition
  · intro disc hload
    have hstep := hdtStep disc hload
    refine ⟨dtAgrees_of_inStep _ hstep, ?_⟩
    intro adds
    apply eachStep_agrees_iff dtFormat_lawful dtAgrees_of_inStep _ hstep fun _ _ => trivial
    rintro disc added key value old ⟨fresh, -, hread⟩ hold
    have hvalue := (hread key).1
    rw [hold, current_put, if_pos rfl] at hvalue
    exact Option.some.inj hvalue

/-- New keys, and a known one with the position it has. -/
theorem table_agrees_same :
    EachStep (step idxAddKeyPosition) (AgreesAfter idxAddKeyPosition IdxAgrees)
      (.start ⟨⟨[], 0, true⟩, []⟩)
      [sampleAddition 1, sampleAddition 1] := by
  apply (((table_agrees_iff .empty .empty).1.2 ⟨⟨[], 0, true⟩, []⟩ (by decide +kernel)).2 _
    (by decide +kernel)).mpr
  rw [eachStep_cons, eachStep_cons]
  unfold Unchanging
  decide +kernel

/-- The position added last is in the file; the one read is the first. -/
theorem known_key_stays_stale :
    reload idxInit [] = some (.ok ⟨⟨[], 0, true⟩, []⟩) ∧
      ¬EachStep (step idxAddKeyPosition) (AgreesAfter idxAddKeyPosition IdxAgrees)
        (.start ⟨⟨[], 0, true⟩, []⟩) [sampleAddition 1, sampleAddition 2] := by
  refine ⟨by decide +kernel, ?_⟩
  have hadded : idxAddKeyPosition (fun _ => 0) sampleKey 1 ⟨⟨[], 0, true⟩, []⟩ =
      .ok ⟨⟨sampleRecord, 132, false⟩, [.put [107] 1]⟩ := by decide +kernel
  have hfirst : step idxAddKeyPosition (.start ⟨⟨[], 0, true⟩, []⟩) (sampleAddition 1) =
      ⟨⟨⟨sampleRecord, 132, false⟩, [.put [107] 1]⟩, [.put [107] 1]⟩ := step_of_ok hadded
  have hsecond : addTo idxAddKeyPosition ⟨⟨sampleRecord, 132, false⟩, [.put [107] 1]⟩
      (sampleAddition 2) =
        .ok ⟨⟨intBytes 2 ++ sampleRecord.drop 4, 132, false⟩, [.put [107] 1]⟩ := by
    decide +kernel
  rintro ⟨-, ⟨after, hadd, fresh, -, hread⟩, -⟩
  rw [hfirst] at hadd
  cases hsecond.symm.trans hadd
  exact absurd (hread sampleKey).1 (by decide +kernel)

end CcCvStore.RecordFile
