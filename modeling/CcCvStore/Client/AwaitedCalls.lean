import CcCvStore.Client.ClientLink

/-!
# Calls that are awaited

A client that calls only when its promises are settled, with keys that can be
sent, and whose writes reach a buffer with a NUL behind them, gets what it waits
for: the server confirms its calls in order, each promise settles with the
confirmation of its own call, and nothing else settles it.
-/

namespace CcCvStore.ClientLink

open CcCvStore.CInteger
open CcCvStore.CString
open CcCvStore.Message
open CcCvStore.WireFormat
open CcCvStore.Grammar
open CcCvStore.Backend
open CcCvStore.Router
open CcCvStore.Framing
open CcCvStore.Unicode
open CcCvStore.ClientJs
open CcCvStore.EventLoop
open CcCvStore.SharedMap
open CcCvStore.Promises
open CcCvStore.Runs

/-! ## Updates with a NUL behind them -/

theorem text_dropLast_append {bytes : List Byte} (hnul : 0 ∉ bytes) (rest : List Byte) :
    text (bytes ++ 0 :: rest).dropLast = bytes := by
  rw [List.dropLast_append_of_ne_nil (List.cons_ne_nil _ _)]
  cases rest with
  | nil =>
      rw [List.dropLast_singleton, List.append_nil]
      exact text_of_notMem hnul
  | cons byte rest =>
      rw [List.dropLast_cons_cons]
      exact text_append_nul hnul _

/-- The key of a message ends at a NUL, wherever the next separator stands. -/
theorem keyField_append_nul {first sep : Byte} (hfirst : first ≠ 0) (hsep : sep ≠ 0)
    {key : List Byte} (hbar : bar ∉ key) (hnul : 0 ∉ key) (rest : List Byte) :
    keyField (first :: sep :: (key ++ 0 :: rest)) = key := by
  by_cases hmem : bar ∈ rest
  · obtain ⟨before, after, rfl, hbefore⟩ := List.eq_append_cons_of_mem hmem
    have hbody : bar ∉ key ++ 0 :: before := by
      simp only [List.mem_append, List.mem_cons, not_or]
      exact ⟨hbar, bar_ne, hbefore⟩
    have hfield := keyField_append hfirst hsep hbody after
    rw [text_append_nul hnul, List.append_assoc, List.cons_append] at hfield
    exact hfield
  · have hbody : bar ∉ key ++ 0 :: rest := by
      simp only [List.mem_append, List.mem_cons, not_or]
      exact ⟨hbar, bar_ne, hmem⟩
    rw [keyField_of_notMem hfirst hsep hbody, text_append_nul hnul]

/-- The server confirms a update that arrives alone. -/
theorem demand_reply_message (update : Update) {rest : List Byte}
    (hlength : (update.message ++ 0 :: rest).length ≤ suggestedSize) (history : History) :
    (demand (update.message ++ 0 :: rest)).reply history = update.reply := by
  cases update with
  | set key data =>
      have hmessage : (Update.set key data).message ++ 0 :: rest = digitSet :: bar ::
          (key.key.bytes ++ bar :: (data.value.bytes ++ 0 :: rest)) := by
        simp only [Update.message, List.cons_append, List.append_assoc]
      rw [hmessage] at hlength ⊢
      have hmax := Int.le_trans (Int.le_add_of_nonneg_right (by decide)) (room_of_le hlength)
      have hcommand := (command_eq_iff .set (digitSet :: bar ::
        (key.key.bytes ++ bar :: (data.value.bytes ++ 0 :: rest)))).mpr rfl
      have hdata := dataField_append digitSet_ne bar_ne key.key.bar_notMem key.key.zero_notMem hmax
      rw [text_dropLast_append data.value.zero_notMem] at hdata
      rw [demand, if_pos hcommand, hdata, if_neg data.value.ne_nil,
        keyField_append digitSet_ne bar_ne key.key.bar_notMem, text_of_notMem key.key.zero_notMem]
      rfl
  | remove key =>
      have hmessage : (Update.remove key).message ++ 0 :: rest = digitDelete :: bar ::
          (key.key.bytes ++ 0 :: rest) := rfl
      have hcommand := (command_eq_iff .delete (digitDelete :: bar ::
        (key.key.bytes ++ 0 :: rest))).mpr rfl
      rw [hmessage, demand, hcommand,
        keyField_append_nul digitDelete_ne bar_ne key.key.bar_notMem key.key.zero_notMem]
      rfl

/-! ## One call at a time -/

/-- The script calls only when no promise is pending, and what arrives from it
has a NUL behind it. -/
def Awaited (link : Link) : Act → Prop
  | .call _ => ∀ promise ∈ link.script.promises, promise.settled ≠ none
  | .arrive count stale _ => (stale.drop (link.script.arriving count).length).head? = some 0
  | _ => True

instance instDecidableAwaited (link : Link) : ∀ act, Decidable (Awaited link act)
  | .loop _ => inferInstanceAs (Decidable True)
  | .call _ =>
      inferInstanceAs (Decidable (∀ promise ∈ link.script.promises, promise.settled ≠ none))
  | .arrive count stale _ => inferInstanceAs
      (Decidable ((stale.drop (link.script.arriving count).length).head? = some 0))
  | .hear _ => inferInstanceAs (Decidable True)

/-- Only updates are called, with keys that are Unicode. -/
def Answerable : Act → Prop
  | .call method => ∃ update : Update, method = update.method ∧ IsWellFormed update.key.units
  | _ => True

/-- All calls but the last one are over; the last one is over, on its way to the
server, or on its way back. -/
inductive Orderly : List (List Byte) → Script → Prop
  | idle (earlier : List Update) :
      Orderly (earlier.map Update.reply) ⟨earlier.map Update.answered, [], earlier.length⟩
  | asked (earlier : List Update) (update : Update) (hkey : IsWellFormed update.key.units) :
      Orderly (earlier.map Update.reply)
        ⟨earlier.map Update.answered ++ [update.pending], [update.message], earlier.length⟩
  | confirmed (earlier : List Update) (update : Update) (hkey : IsWellFormed update.key.units) :
      Orderly (earlier.map Update.reply ++ [update.reply])
        ⟨earlier.map Update.answered ++ [update.pending], [], earlier.length⟩

namespace Orderly

variable {replies : List (List Byte)} {script : Script}

theorem call (horderly : Orderly replies script) (update : Update)
    (hkey : IsWellFormed update.key.units)
    (hsettled : ∀ promise ∈ script.promises, promise.settled ≠ none) :
    Orderly replies (script.call update.method) := by
  cases horderly with
  | idle earlier =>
      rw [Script.call, update.written_eq]
      exact .asked earlier update hkey
  | asked earlier last => exact absurd rfl (hsettled last.pending (by simp))
  | confirmed earlier last => exact absurd rfl (hsettled last.pending (by simp))

theorem arrive (horderly : Orderly replies script) {count : Nat}
    (hcount : 0 < count ∧ count ≤ script.unread.length) :
    ∃ update : Update, script.arriving count = update.message ∧
      Orderly (replies ++ [update.reply]) (script.arrived count) := by
  cases horderly with
  | asked earlier update hkey =>
      obtain rfl : count = 1 := Nat.le_antisymm hcount.2 hcount.1
      exact ⟨update, List.append_nil _, .confirmed earlier update hkey⟩
  | idle earlier => exact absurd (Nat.lt_of_lt_of_le hcount.1 hcount.2) (Nat.lt_irrefl 0)
  | confirmed earlier update =>
      exact absurd (Nat.lt_of_lt_of_le hcount.1 hcount.2) (Nat.lt_irrefl 0)

theorem hear (horderly : Orderly replies script) {count : Nat} (hcount : 0 < count)
    (hheard : script.heard + count ≤ replies.length) :
    Orderly replies (script.hear replies count) := by
  cases horderly with
  | confirmed earlier update hkey =>
      have hone : count = 1 := by
        simp only [List.length_append, List.length_map, List.length_singleton] at hheard
        omega
      subst hone
      have hdata : (((earlier.map Update.reply ++ [update.reply]).drop earlier.length).take
          1).flatten = update.reply := by
        rw [List.drop_left' (List.length_map _)]
        exact List.append_nil _
      have hpromises : (earlier.map Update.answered ++ [update.pending]).map
          (Promise.hear update.reply) = (earlier ++ [update]).map Update.answered := by
        rw [List.map_append, List.map_append, List.map_map, List.map_singleton,
          update.hear_reply hkey]
        rfl
      have hidle := Orderly.idle (earlier ++ [update])
      rw [List.map_append, List.length_append] at hidle
      rw [Script.hear, hdata, hpromises]
      exact hidle
  | idle earlier =>
      rw [List.length_map] at hheard
      exact absurd hheard (Nat.not_le.mpr (Nat.lt_add_of_pos_right hcount))
  | asked earlier update =>
      rw [List.length_map] at hheard
      exact absurd hheard (Nat.not_le.mpr (Nat.lt_add_of_pos_right hcount))

end Orderly

variable {client : Nat} {course : Course}

theorem orderly_step {link : Link} {act : Act} (hlinks : Links link course)
    (hpermitted : Permitted client link act) (hawaited : Awaited link act)
    (hanswerable : Answerable act)
    (horderly : Orderly (course.board.replies client) course.script) :
    Orderly ((course.step client act).board.replies client) (course.step client act).script := by
  cases act with
  | loop event =>
      rw [Course.step]
      dsimp only
      rw [replies_step _ hpermitted.2]
      exact horderly
  | call method =>
      obtain ⟨update, rfl, hkey⟩ := hanswerable
      rw [Awaited, hlinks.script_eq] at hawaited
      exact horderly.call update hkey hawaited
  | arrive count stale env =>
      obtain ⟨hcount, -, hreadable⟩ := hpermitted
      rw [hlinks.script_eq] at hcount hreadable
      rw [Awaited, hlinks.script_eq] at hawaited
      obtain ⟨update, harriving, hafter⟩ := horderly.arrive hcount
      obtain ⟨rest, hrest⟩ := List.head?_eq_some_iff.mp hawaited
      rw [hrest, harriving] at hreadable
      rw [Course.step]
      dsimp only
      rw [step_arrival _ (by rw [harriving]; exact update.message_ne_nil), Board.replies_read,
        hrest, harriving, demand_reply_message update hreadable.1]
      exact hafter
  | hear count =>
      obtain ⟨hcount, hheard⟩ := exists_replies_of_hear hlinks hpermitted
      exact horderly.hear hcount hheard

/-- What some calls have come to: the server confirms them in order, and those
whose confirmation was heard are settled. -/
structure Served (calls : List Update) (replies : List (List Byte)) (script : Script) : Prop where
  confirmed : replies = (calls.take replies.length).map Update.reply
  accounted : replies.length + script.unread.length = calls.length
  settled : script.promises = (calls.take script.heard).map Update.answered ++
    (calls.drop script.heard).map Update.pending

theorem Orderly.served {replies : List (List Byte)} {script : Script}
    (horderly : Orderly replies script) : ∃ calls, Served calls replies script := by
  cases horderly with
  | idle earlier =>
      refine ⟨earlier, ?_, List.length_map _, ?_⟩
      · rw [List.length_map, List.take_length]
      · rw [List.take_length, List.drop_length, List.map_nil, List.append_nil]
  | asked earlier update hkey =>
      refine ⟨earlier ++ [update], ?_, ?_, ?_⟩
      · rw [List.length_map, List.take_left]
      · rw [List.length_map, List.length_append]
        rfl
      · rw [List.take_left, List.drop_left]
        rfl
  | confirmed earlier update hkey =>
      have hreplies : earlier.map Update.reply ++ [update.reply] =
          (earlier ++ [update]).map Update.reply := by
        rw [List.map_append, List.map_singleton]
      refine ⟨earlier ++ [update], ?_, ?_, ?_⟩
      · rw [hreplies, List.length_map, List.take_length]
      · rw [hreplies, List.length_map]
        rfl
      · rw [List.take_left, List.drop_left]
        rfl

theorem Served.methods {calls : List Update} {replies : List (List Byte)} {script : Script}
    (hserved : Served calls replies script) :
    script.promises.map Promise.method = calls.map Update.method := by
  have hanswered : Promise.method ∘ Update.answered = Update.method := rfl
  have hpending : Promise.method ∘ Update.pending = Update.method := rfl
  rw [hserved.settled, List.map_append, List.map_map, List.map_map, hanswered, hpending,
    ← List.map_append, List.take_append_drop]

variable {session : Session} {table : DataTable} {history : History} {acts : List Act}

/-- Whatever the other clients do, the calls of a client that awaits them are
served. -/
theorem run_awaited (hholding : Holding session.store table history)
    (hguard : EachTry (step client) (fun link act => Permitted client link act ∧ Awaited link act)
      (start session) acts)
    (hanswerable : ∀ act ∈ acts, Answerable act) (hsound : ∀ act ∈ acts, Sound act) :
    ∃ link replies calls, tryRun (step client) (start session) acts = .ok link ∧
      repliesTo link.server client = .ok replies ∧ Served calls replies link.script ∧
      calls.map Update.method = acts.filterMap Act.called := by
  have hkeep : ∀ link course act, Links link course →
      (Permitted client link act ∧ Awaited link act) ∧ Answerable act →
      Orderly (course.board.replies client) course.script →
      Orderly ((course.step client act).board.replies client)
        (course.step client act).script :=
    fun _ _ _ hlinks hguard => orderly_step hlinks hguard.1.1 hguard.1.2 hguard.2
  obtain ⟨link, course, hrun, hlinks, horderly⟩ := run_links (fun _ _ hguard => hguard.1.1) hkeep
    hholding (Orderly.idle []) hsound (hguard.and_forall hanswerable)
  obtain ⟨calls, hserved⟩ := horderly.served
  rw [← hlinks.script_eq] at hserved
  refine ⟨link, _, calls, hrun, repliesTo_of_shows hlinks.shows_board client, hserved, ?_⟩
  rw [← hserved.methods, methods_run hrun]
  rfl

/-- A key is set and removed while another client asks for it. -/
theorem run_awaited_set_remove :
    let env : Env := ⟨⟨fun _ => [0], fun _ => 0⟩, .ok⟩
    let session : Session := ⟨{ isOk := true, db := .opened (some ∅), misuse := [] }, []⟩
    let stale : List Byte := List.replicate 12 0
    let acts : List Act := [
      .loop (.newConnection 0 true), .loop (.newConnection 0 true),
      .call (.setData [107] [118]), .arrive 1 stale env,
      .loop (.read 1 4 [digitGet, bar, 107, bar] stale env true), .hear 1,
      .call (.removeData [107]), .loop (.written 0 0), .arrive 1 stale env, .hear 1]
    (tryRun (step 0) (start session) acts).toOption.map (fun link => link.script.promises) =
        some [⟨.setData [107] [118], some .true⟩, ⟨.removeData [107], some (.string [])⟩] ∧
      ∃ link replies calls, tryRun (step 0) (start session) acts = .ok link ∧
        repliesTo link.server 0 = .ok replies ∧ Served calls replies link.script ∧
        calls.map Update.method = acts.filterMap Act.called := by
  intro env session stale acts
  have hguard : EachTry (step 0) (fun link act => Permitted 0 link act ∧ Awaited link act)
      (start session) acts := by decide +kernel
  let key : ClientKey := ⟨[107], by decide, by decide, by decide⟩
  let data : ClientData := ⟨[118], by decide, by decide⟩
  have hanswerable : ∀ act ∈ acts, Answerable act := by
    intro act hmem
    match act with
    | .call method =>
        have hcall : method = .setData [107] [118] ∨ method = .removeData [107] := by
          simpa [acts] using hmem
        rcases hcall with rfl | rfl
        · exact ⟨.set key data, rfl, by decide +kernel⟩
        · exact ⟨.remove key, rfl, by decide +kernel⟩
    | .loop _ => trivial
    | .arrive _ _ _ => trivial
    | .hear _ => trivial
  have hterminated : env.heap.Terminated := fun _ => ⟨[], rfl⟩
  have hsound : ∀ act ∈ acts, Sound act := by
    intro act hmem
    match act with
    | .call _ => trivial
    | .hear _ => trivial
    | .arrive _ _ other =>
        have henv : other = env := by
          simp only [acts, List.mem_cons, reduceCtorEq, Act.arrive.injEq, List.not_mem_nil] at hmem
          tauto
        rw [henv]
        exact ⟨hterminated, rfl⟩
    | .loop event =>
        have hevent : event = .newConnection 0 true ∨
            event = .read 1 4 [digitGet, bar, 107, bar] stale env true ∨ event = .written 0 0 := by
          simp only [acts, List.mem_cons, reduceCtorEq, Act.loop.injEq, List.not_mem_nil] at hmem
          tauto
        rcases hevent with rfl | rfl | rfl
        · trivial
        · exact fun _ => ⟨rfl, hterminated, rfl, by decide, by decide⟩
        · trivial
  exact ⟨by decide +kernel, run_awaited (.of_empty ⟨rfl, rfl⟩) hguard hanswerable hsound⟩

end CcCvStore.ClientLink
