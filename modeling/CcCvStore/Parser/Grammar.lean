import CcCvStore.Parser.WireFormat

/-!
# The messages the parser accepts

The parser checks the length of a message and the first byte, and no other
byte of the frame: byte 1 is skipped, the last byte of a `SET` is left out
whatever it is, and every scan stops at a NUL.  The forms below are exactly
the messages that come out as a task with a key.
-/

namespace CcCvStore.Grammar

open CcCvStore.CInteger
open CcCvStore.CString
open CcCvStore.StrSlice
open CcCvStore.Message
open CcCvStore.WireFormat

/-- `parse_client_msg` turns `message` into a task with this command and these
contents of key and data. -/
def Parses (heap : Heap) (message : List Byte) (cmd : Int)
    (key data : Option (List Byte)) : Prop :=
  ∃ task, parseClientMsg heap (heap.received message) = .ok task ∧
    task.cmd = cmd ∧ task.key.map Buf.content = key ∧
    task.data.map Buf.content = data

/-- A command digit, a byte that is not NUL and a key, then `rest`. -/
structure IsKeyed (digit : Byte) (message key rest : List Byte) : Prop where
  shape : ∃ sep, sep ≠ 0 ∧ message = digit :: sep :: (key ++ rest)
  key_ne_nil : key ≠ []
  bar_notMem : bar ∉ key
  zero_notMem : 0 ∉ key

/-- A keyed message that goes on with the separator, a value and `rest`. -/
structure IsSet (message key value rest : List Byte) : Prop where
  keyed : IsKeyed digitSet message key (bar :: (value ++ rest))
  value_ne_nil : value ≠ []
  value_zero_notMem : 0 ∉ value

/-- What may follow the key of an accepted `GET` or `DELETE`. -/
def KeyEnds (rest : List Byte) : Prop :=
  rest = [] ∨ rest.head? = some bar ∨ rest.head? = some 0

/-- Where the value of an accepted `SET` ends: at the last byte of the message
by the parser's count, which takes the length as an `int`, or before it at a
NUL. -/
def ValueEnds (message key value rest : List Byte) : Prop :=
  (key.length + value.length + 4 : Int) = toInt message.length ∨
    ((key.length + value.length + 4 : Int) < toInt message.length ∧ rest.head? = some 0)

/-- The digit that announces a command. -/
inductive Announces : Byte → Int → Prop where
  | set : Announces digitSet cmdSet
  | get : Announces digitGet cmdGet
  | delete : Announces digitDelete cmdDelete

theorem command_eq_iff {digit : Byte} {cmd : Int} (hdigit : Announces digit cmd)
    (message : List Byte) : command message = cmd ↔ message.head? = some digit := by
  cases message with
  | nil => cases hdigit <;> simp [command, cmdSet, cmdGet, cmdDelete]
  | cons first rest =>
      rw [List.head?_cons, Option.some.injEq, command]
      by_cases hdelete : first = digitDelete
      · subst hdelete
        cases hdigit <;> decide
      by_cases hget : first = digitGet
      · subst hget
        cases hdigit <;> decide
      by_cases hset : first = digitSet
      · subst hset
        cases hdigit <;> decide
      · rw [if_neg hdelete, if_neg hget, if_neg hset]
        cases hdigit <;> simp [cmdSet, cmdGet, cmdDelete, hdelete, hget, hset]

theorem Announces.ne_zero {digit : Byte} {cmd : Int} (hdigit : Announces digit cmd) :
    digit ≠ 0 := by
  cases hdigit <;> decide

/-- Under the index bound, what a message parses to is its command and fields. -/
theorem parses_iff {heap : Heap} (hscan : 0 ∈ heap.beyond .receive)
    {message : List Byte} (cmd : Int) (key data : Option (List Byte)) :
    Parses heap message cmd key data ↔
      IndexesFit message ∧ command message = cmd ∧
        (if keyField message = [] then none else some (keyField message)) = key ∧
        (if dataField message = [] then none else some (dataField message)) = data := by
  have hnul : 0 ∈ message ++ heap.beyond .receive := List.mem_append_right _ hscan
  rw [← keyContent_parsedTask heap, ← dataContent_parsedTask heap]
  constructor
  · rintro ⟨task, hparse, hcmd, hkey, hdata⟩
    by_cases hfit : IndexesFit message
    · rw [parseClientMsg_eq hnul hfit, Except.ok.injEq] at hparse
      subst hparse
      exact ⟨hfit, hcmd, hkey, hdata⟩
    · rw [parseClientMsg_eq_error hnul hfit] at hparse
      contradiction
  · rintro ⟨hfit, hcmd, hkey, hdata⟩
    exact ⟨_, parseClientMsg_eq hnul hfit, hcmd, hkey, hdata⟩

/-! ## Reading the fields back -/

/-- A message with a key has a first and a second byte, neither of them NUL. -/
theorem exists_frame {message : List Byte} (hkey : keyField message ≠ []) :
    ∃ first sep body, message = first :: sep :: body ∧ first ≠ 0 ∧ sep ≠ 0 := by
  match message with
  | [] => exact absurd rfl hkey
  | [_] => exact absurd (window_of_short (by simp) _) hkey
  | first :: sep :: body =>
      have hhead : 0 ∉ (first :: sep :: body).take 2 := by
        intro hmem
        exact hkey (if_pos hmem)
      refine ⟨first, sep, body, rfl, ?_, ?_⟩
      · rintro rfl
        simp at hhead
      · rintro rfl
        simp at hhead

theorem keyField_of_notMem {first sep : Byte} (hfirst : first ≠ 0) (hsep : sep ≠ 0)
    {body : List Byte} (hbar : bar ∉ body) :
    keyField (first :: sep :: body) = text body := by
  have hhead : 0 ∉ [first, sep] := by simp [hfirst.symm, hsep.symm]
  rw [keyField, keyEnd_of_notMem first sep hbar, window, Nat.add_sub_cancel_left]
  simp only [List.take_succ_cons, List.take_zero, List.drop_succ_cons, List.drop_zero,
    if_neg hhead, List.take_length]

theorem dataField_of_notMem (first sep : Byte) {body : List Byte} (hbar : bar ∉ body) :
    dataField (first :: sep :: body) = [] := by
  rw [dataField, keyEnd_of_notMem first sep hbar]
  exact window_of_short (by simp only [List.length_cons]; omega) _

/-- What lies behind the text of a sequence begins with a NUL. -/
theorem text_split (bytes : List Byte) :
    text bytes = bytes ∨ ∃ rest, bytes = text bytes ++ 0 :: rest := by
  by_cases hnul : 0 ∈ bytes
  · exact .inr (exists_eq_text_append hnul)
  · exact .inl (text_of_notMem hnul)

/-- The key of a message stands behind its second byte and ends at the end of
the message, at a separator or at a NUL. -/
theorem exists_isKeyed {digit : Byte} {cmd : Int} (hdigit : Announces digit cmd)
    {message : List Byte} (hcmd : command message = cmd) (hkey : keyField message ≠ []) :
    ∃ rest, IsKeyed digit message (keyField message) rest ∧ KeyEnds rest := by
  obtain ⟨first, sep, body, rfl, hfirst, hsep⟩ := exists_frame hkey
  have hhead : first = digit := by
    have := (command_eq_iff hdigit _).mp hcmd
    simpa using this
  subst hhead
  have hshape : ∀ rest, body = keyField (first :: sep :: body) ++ rest →
      bar ∉ keyField (first :: sep :: body) → KeyEnds rest →
      ∃ rest, IsKeyed first (first :: sep :: body) (keyField (first :: sep :: body)) rest ∧
        KeyEnds rest := by
    intro rest hbody hbar hends
    refine ⟨rest, ⟨⟨sep, hsep, ?_⟩, hkey, hbar, zero_notMem_window _ _ _⟩, hends⟩
    rw [← hbody]
  by_cases hbar : bar ∈ body
  · obtain ⟨segment, rest, rfl, hsegment⟩ := List.eq_append_cons_of_mem hbar
    rw [keyField_append hfirst hsep hsegment] at hshape ⊢
    have hnot : bar ∉ text segment := fun hmem =>
      hsegment ((text_isPrefix segment).subset hmem)
    rcases text_split segment with hwhole | ⟨tail, htail⟩
    · exact hshape (bar :: rest) (by rw [hwhole]) hnot (.inr (.inl rfl))
    · refine hshape (0 :: tail ++ bar :: rest) ?_ hnot (.inr (.inr rfl))
      conv_lhs => rw [htail]
      rw [List.append_assoc]
  · rw [keyField_of_notMem hfirst hsep hbar] at hshape ⊢
    have hnot : bar ∉ text body := fun hmem => hbar ((text_isPrefix body).subset hmem)
    rcases text_split body with hwhole | ⟨tail, htail⟩
    · exact hshape [] (by rw [hwhole, List.append_nil]) hnot (.inl rfl)
    · exact hshape (0 :: tail) htail hnot (.inr (.inr rfl))

theorem toInt_length_le (message : List Byte) : toInt message.length ≤ message.length := by
  simp only [toInt]
  omega

theorem zero_notMem_of_window {message : List Byte} {start size : Nat}
    (hwindow : window message start size ≠ []) : 0 ∉ message.take start := by
  intro hnul
  exact hwindow (if_pos hnul)

theorem zero_notMem_of_dataField {first sep : Byte} {key rest : List Byte}
    (hbar : bar ∉ key) (hdata : dataField (first :: sep :: (key ++ bar :: rest)) ≠ []) :
    0 ∉ key := by
  intro hnul
  apply zero_notMem_of_window hdata
  rw [keyEnd_append first sep hbar, show 2 + key.length + 1 = key.length + 1 + 1 + 1 by omega,
    List.take_succ_cons, List.take_succ_cons, List.take_append]
  simp only [List.mem_cons, List.mem_append]
  right; right; left
  rw [List.take_of_length_le (Nat.le_succ _)]
  exact hnul

/-- The value of a `SET` stands behind the first separator and ends before the
last byte. -/
theorem exists_isSet {message : List Byte} (hcmd : command message = cmdSet)
    (hkey : keyField message ≠ []) (hdata : dataField message ≠ []) :
    ∃ rest, IsSet message (keyField message) (dataField message) rest ∧
      ValueEnds message (keyField message) (dataField message) rest := by
  obtain ⟨first, sep, body, rfl, hfirst, hsep⟩ := exists_frame hkey
  have hhead : first = digitSet := by
    have := (command_eq_iff .set _).mp hcmd
    simpa using this
  subst hhead
  by_cases hbar : bar ∈ body
  · obtain ⟨key, rest, rfl, hnot⟩ := List.eq_append_cons_of_mem hbar
    have hnul : 0 ∉ key := zero_notMem_of_dataField hnot hdata
    have hfield : keyField (digitSet :: sep :: (key ++ bar :: rest)) = key := by
      rw [keyField_append hfirst hsep hnot, text_of_notMem hnul]
    have hvalue := dataField_append_take hfirst hsep hnot hnul rest
    have hsize := dataSize_append digitSet sep hnot rest
    have hwrap := toInt_length_le (digitSet :: sep :: (key ++ bar :: rest))
    rw [hfield] at hkey ⊢
    generalize hmessage : digitSet :: sep :: (key ++ bar :: rest) = message at *
    have hshape : ∀ tail, rest = dataField message ++ tail →
        ValueEnds message key (dataField message) tail →
        ∃ rest, IsSet message key (dataField message) rest ∧
          ValueEnds message key (dataField message) rest := by
      intro tail htail hends
      refine ⟨tail, ⟨⟨⟨sep, hsep, ?_⟩, hkey, hnot, hnul⟩, hdata, zero_notMem_window _ _ _⟩,
        hends⟩
      rw [← htail, hmessage]
    have hlength : message.length = key.length + rest.length + 3 := by
      rw [← hmessage]
      simp only [List.length_cons, List.length_append]
      omega
    have hpos : 0 < (dataField message).length := List.length_pos_iff.mpr hdata
    rcases text_split (rest.take (dataSize message)) with hwhole | ⟨tail, htail⟩
    · rw [hwhole] at hvalue
      have hcount : (dataField message).length = dataSize message := by
        rw [hvalue, List.length_take]
        omega
      apply hshape (rest.drop (dataSize message))
      · rw [hvalue, List.take_append_drop]
      · left
        omega
    · rw [← hvalue] at htail
      have hcount := congrArg List.length htail
      rw [List.length_take, List.length_append, List.length_cons] at hcount
      apply hshape (0 :: (tail ++ rest.drop (dataSize message)))
      · rw [← List.cons_append, ← List.append_assoc, ← htail, List.take_append_drop]
      · right
        exact ⟨by omega, rfl⟩
  · exact absurd (dataField_of_notMem _ _ hbar) hdata

/-! ## Which messages are accepted -/

theorem IsKeyed.command {digit : Byte} {cmd : Int} (hdigit : Announces digit cmd)
    {message key rest : List Byte} (hkeyed : IsKeyed digit message key rest) :
    command message = cmd := by
  obtain ⟨sep, hsep, rfl⟩ := hkeyed.shape
  exact (command_eq_iff hdigit _).mpr rfl

theorem IsKeyed.keyField {digit : Byte} {cmd : Int} (hdigit : Announces digit cmd)
    {message key rest : List Byte} (hkeyed : IsKeyed digit message key rest)
    (hends : KeyEnds rest) : keyField message = key := by
  obtain ⟨sep, hsep, rfl⟩ := hkeyed.shape
  have hbar := hkeyed.bar_notMem
  have hnul := hkeyed.zero_notMem
  rcases hends with rfl | hhead | hhead
  · rw [List.append_nil, keyField_of_notMem hdigit.ne_zero hsep hbar, text_of_notMem hnul]
  · obtain ⟨tail, rfl⟩ := List.head?_eq_some_iff.mp hhead
    rw [keyField_append hdigit.ne_zero hsep hbar, text_of_notMem hnul]
  · obtain ⟨tail, rfl⟩ := List.head?_eq_some_iff.mp hhead
    by_cases hmem : bar ∈ tail
    · obtain ⟨segment, after, rfl, hsegment⟩ := List.eq_append_cons_of_mem hmem
      have hnot : bar ∉ key ++ 0 :: segment := by
        simp [hbar, hsegment, bar_ne]
      have hsplit : key ++ 0 :: (segment ++ bar :: after) =
          (key ++ 0 :: segment) ++ bar :: after := by simp
      rw [hsplit, keyField_append hdigit.ne_zero hsep hnot, text_append_nul hnul]
    · have hnot : bar ∉ key ++ 0 :: tail := by
        simp [hbar, hmem, bar_ne]
      rw [keyField_of_notMem hdigit.ne_zero hsep hnot, text_append_nul hnul]

theorem IsSet.dataField {message key value rest : List Byte}
    (hset : IsSet message key value rest) (hends : ValueEnds message key value rest) :
    dataField message = value := by
  obtain ⟨sep, hsep, rfl⟩ := hset.keyed.shape
  have hsize := dataSize_append digitSet sep hset.keyed.bar_notMem (value ++ rest)
  rw [dataField_append_take digitSet_ne hsep hset.keyed.bar_notMem hset.keyed.zero_notMem,
    hsize]
  have hnul := hset.value_zero_notMem
  rcases hends with hlast | ⟨hbefore, hhead⟩
  · rw [List.take_left' (by omega), text_of_notMem hnul]
  · obtain ⟨tail, rfl⟩ := List.head?_eq_some_iff.mp hhead
    rw [List.take_append, List.take_of_length_le (by omega)]
    obtain ⟨count, hcount⟩ : ∃ count, (toInt (digitSet :: sep :: (key ++ bar ::
        (value ++ 0 :: tail))).length - key.length - 4).toNat - value.length = count + 1 :=
      ⟨_, (Nat.succ_pred_eq_of_pos (by omega)).symm⟩
    rw [hcount, List.take_succ_cons, text_append_nul hnul]

theorem IsSet.indexesFit {message key value rest : List Byte}
    (hset : IsSet message key value rest) (hends : ValueEnds message key value rest) :
    IndexesFit message := by
  have hrange := toInt_range message.length
  have hend : keyEnd message = 2 + key.length := by
    obtain ⟨sep, hsep, rfl⟩ := hset.keyed.shape
    exact keyEnd_append digitSet sep hset.keyed.bar_notMem _
  have hcount : (key.length + value.length + 4 : Int) ≤ toInt message.length := by
    rcases hends with hlast | ⟨hbefore, -⟩ <;> omega
  refine .inr ⟨by omega, fun _ => ⟨by omega, ?_⟩⟩
  simp only [intMin]
  omega

theorem some_of_field {field key : List Byte}
    (hfield : (if field = [] then none else some field) = some key) :
    field ≠ [] ∧ field = key := by
  by_cases hnil : field = []
  · rw [if_pos hnil] at hfield
    contradiction
  · rw [if_neg hnil, Option.some.injEq] at hfield
    exact ⟨hnil, hfield⟩

/-- A message becomes a `SET` with a key and a value exactly when it is the
digit, one byte that is not NUL, the key, the separator, the value and an
ending; and a task with a key exactly when it is the digit, one byte that is
not NUL, the key and either nothing, a separator or a NUL. -/
theorem parseClientMsg_grammar (heap : Heap) (hscan : 0 ∈ heap.beyond .receive)
    (message key : List Byte) :
    (∀ value, Parses heap message cmdSet (some key) (some value) ↔
      ∃ rest, IsSet message key value rest ∧ ValueEnds message key value rest) ∧
    (∀ digit cmd, Announces digit cmd →
      ((∃ data, Parses heap message cmd (some key) data) ↔
        IndexesFit message ∧ ∃ rest, IsKeyed digit message key rest ∧ KeyEnds rest)) := by
  constructor
  · intro value
    rw [parses_iff hscan]
    constructor
    · rintro ⟨-, hcmd, hkey, hdata⟩
      obtain ⟨hkeyNe, rfl⟩ := some_of_field hkey
      obtain ⟨hdataNe, rfl⟩ := some_of_field hdata
      exact exists_isSet hcmd hkeyNe hdataNe
    · rintro ⟨rest, hset, hends⟩
      have hkey := hset.keyed.keyField .set (.inr (.inl rfl))
      have hdata := hset.dataField hends
      refine ⟨hset.indexesFit hends, hset.keyed.command .set, ?_, ?_⟩
      · rw [hkey, if_neg hset.keyed.key_ne_nil]
      · rw [hdata, if_neg hset.value_ne_nil]
  · intro digit cmd hdigit
    constructor
    · rintro ⟨data, hparses⟩
      obtain ⟨hfit, hcmd, hkey, -⟩ := (parses_iff hscan _ _ _).mp hparses
      obtain ⟨hkeyNe, rfl⟩ := some_of_field hkey
      exact ⟨hfit, exists_isKeyed hdigit hcmd hkeyNe⟩
    · rintro ⟨hfit, rest, hkeyed, hends⟩
      refine ⟨_, (parses_iff hscan _ _ _).mpr ⟨hfit, hkeyed.command hdigit, ?_, rfl⟩⟩
      rw [hkeyed.keyField hdigit hends, if_neg hkeyed.key_ne_nil]

/-- `1xk|v!` becomes the `SET` of `1|k|v|`. -/
theorem parseClientMsg_grammar_alias :
    Parses ⟨fun _ => [0], fun _ => 0⟩ [49, 120, 107, 124, 118, 33] cmdSet
      (some [107]) (some [118]) :=
  ((parseClientMsg_grammar _ (by decide) _ _).1 _).mpr
    ⟨[33], ⟨⟨⟨120, by decide, rfl⟩, by decide, by decide, by decide⟩, by decide, by decide⟩,
      .inl (by decide)⟩

/-- So a `SET` that is accepted need not be the documented message. -/
theorem parseClientMsg_accepts_other :
    ¬∀ (heap : Heap) (message key value : List Byte), 0 ∈ heap.beyond .receive →
      Parses heap message cmdSet (some key) (some value) →
        message = digitSet :: bar :: (key ++ bar :: (value ++ [bar])) := by
  intro hexact
  have hparses : Parses ⟨fun _ => [0], fun _ => 0⟩ [49, 120, 107, 124, 118, 33] cmdSet
      (some [107]) (some [118]) :=
    (parses_iff (by decide) _ _ _).mpr ⟨.inr (by decide), by decide, by decide, by decide⟩
  have hsame := hexact _ _ _ _ (by decide) hparses
  revert hsame
  decide

end CcCvStore.Grammar
