import CcCvStore.Client.ClientLink

/-!
# Calls that stay pending

`getData` writes nothing, so no reply is ever one to it, and its promise stays
pending whatever the client and the others do.  Calls that wait for different
replies need a reply each, but a read of the server gives one reply only, however
many writes it takes in: the others stay pending too.
-/

namespace CcCvStore.ClientLink

open CcCvStore.CString
open CcCvStore.Message
open CcCvStore.Grammar
open CcCvStore.Backend
open CcCvStore.Router
open CcCvStore.Unicode
open CcCvStore.ClientJs
open CcCvStore.EventLoop
open CcCvStore.SharedMap
open CcCvStore.Promises
open CcCvStore.Runs

variable {client : Nat} {course : Course}

/-! ## What is written and what is answered -/

/-- A write of the client: a `SET` or a `DELETE` of anything. -/
def IsWrite (message : List Byte) : Prop :=
  message.head? = some digitSet ∨ message.head? = some digitDelete

/-- The beginning of a reply to anything but a `GET`. -/
def NotGet (reply : List Byte) : Prop :=
  ∃ digit unit rest, Spells digit unit ∧ unit ≠ unitGet ∧ reply = digit :: rest

theorem isWrite_written {method : Method} {message : List Byte}
    (hwritten : method.call.written = some message) : IsWrite message := by
  cases method with
  | setData key data =>
      cases hwritten
      rw [ClientJs.write, encode_cons (by decide)]
      exact .inl rfl
  | removeData key =>
      cases hwritten
      rw [ClientJs.write, encode_cons (by decide)]
      exact .inr rfl
  | getData key => contradiction

theorem IsWrite.ne_nil {message : List Byte} (hwrite : IsWrite message) : message ≠ [] := by
  rintro rfl
  rcases hwrite with hnone | hnone <;> contradiction

theorem IsWrite.append {message : List Byte} (hwrite : IsWrite message) (rest : List Byte) :
    IsWrite (message ++ rest) := by
  rw [IsWrite, List.head?_append_of_ne_nil message hwrite.ne_nil]
  exact hwrite

/-- The server answers a write with its confirmation or with `0`. -/
theorem IsWrite.notGet_reply {message : List Byte} (hwrite : IsWrite message)
    (history : History) : NotGet ((demand message).reply history) := by
  rcases hwrite with hset | hdelete
  · rw [← command_eq_iff .set] at hset
    rw [demand, if_pos hset]
    split
    · exact ⟨_, _, _, spells_zero, by decide, rfl⟩
    · exact ⟨_, _, _, spells_set, by decide, rfl⟩
  · rw [← command_eq_iff .delete] at hdelete
    rw [demand, hdelete]
    exact ⟨_, _, _, spells_delete, by decide, rfl⟩

theorem NotGet.append {reply : List Byte} (hreply : NotGet reply) (rest : List Byte) :
    NotGet (reply ++ rest) := by
  obtain ⟨digit, unit, tail, hspells, hother, rfl⟩ := hreply
  exact ⟨digit, unit, tail ++ rest, hspells, hother, rfl⟩

/-- What is taken from the front of a list of strings begins like the first. -/
theorem flatten_take_of_pos {P : List Byte → Prop}
    (happend : ∀ first rest, P first → P (first ++ rest)) {strings : List (List Byte)}
    (hstrings : ∀ string ∈ strings, P string) {count : Nat} (hcount : 0 < count)
    (hlength : 0 < strings.length) : P (strings.take count).flatten := by
  obtain ⟨first, rest, rfl⟩ := List.exists_cons_of_length_pos hlength
  obtain ⟨count, rfl⟩ := Nat.exists_eq_add_of_le' hcount
  rw [List.take_succ_cons, List.flatten_cons]
  exact happend _ _ (hstrings first List.mem_cons_self)

/-! ## `getData` -/

/-- Nothing a `getData` could take for its reply is on the way. -/
structure Unanswered (client : Nat) (course : Course) : Prop where
  replies : ∀ reply ∈ course.board.replies client, NotGet reply
  unread : ∀ message ∈ course.script.unread, IsWrite message
  pending : ∀ promise ∈ course.script.promises,
    promise.method.awaits.1 = unitGet → promise.settled = none

theorem Unanswered.opening (client : Nat) (history : History) :
    Unanswered client (.opening history) where
  replies := List.forall_mem_nil _
  unread := List.forall_mem_nil _
  pending := List.forall_mem_nil _

namespace Unanswered

theorem call (hinv : Unanswered client course) (method : Method) :
    Unanswered client (course.step client (.call method)) where
  replies := hinv.replies
  unread := by
    rw [Course.step, Script.call, List.forall_mem_append]
    exact ⟨hinv.unread, fun message hmem => isWrite_written (Option.mem_toList.mp hmem)⟩
  pending := by
    rw [Course.step, Script.call, List.forall_mem_append]
    exact ⟨hinv.pending, List.forall_mem_singleton.mpr fun _ => rfl⟩

theorem arrive (hinv : Unanswered client course) {count : Nat}
    (hcount : 0 < count ∧ count ≤ course.script.unread.length) (stale : List Byte) (env : Env) :
    Unanswered client (course.step client (.arrive count stale env)) where
  replies := by
    have hwrite : IsWrite (course.script.arriving count) :=
      flatten_take_of_pos (fun _ rest hfirst => hfirst.append rest) hinv.unread hcount.1
        (Nat.lt_of_lt_of_le hcount.1 hcount.2)
    rw [Course.step]
    dsimp only
    rw [step_arrival _ hwrite.ne_nil, Board.replies_read, List.forall_mem_append]
    exact ⟨hinv.replies, List.forall_mem_singleton.mpr ((hwrite.append _).notGet_reply _)⟩
  unread := fun message hmem => hinv.unread message (List.mem_of_mem_drop hmem)
  pending := hinv.pending

theorem hear (hinv : Unanswered client course) {count : Nat} (hcount : 0 < count)
    (hheard : course.script.heard + count ≤ (course.board.replies client).length) :
    Unanswered client (course.step client (.hear count)) where
  replies := hinv.replies
  unread := hinv.unread
  pending := by
    have hdropped : ∀ reply ∈ (course.board.replies client).drop course.script.heard,
        NotGet reply := fun reply hmem => hinv.replies reply (List.mem_of_mem_drop hmem)
    obtain ⟨digit, unit, rest, hspells, hother, hdata⟩ :=
      flatten_take_of_pos (fun _ rest hfirst => NotGet.append hfirst rest) hdropped hcount
        (by rw [List.length_drop]; omega)
    intro promise hmem
    rw [Course.step, Script.hear, hdata] at hmem
    obtain ⟨before, hbefore, rfl⟩ := List.mem_map.mp hmem
    intro hget
    have hget : before.method.awaits.1 = unitGet := hget
    rw [hear_of_digit hspells (by rw [hget]; exact hother.symm)]
    exact hinv.pending before hbefore hget

end Unanswered

theorem unanswered_step {link : Link} {act : Act} (hlinks : Links link course)
    (hpermitted : Permitted client link act) (hinv : Unanswered client course) :
    Unanswered client (course.step client act) := by
  cases act with
  | loop event =>
      refine ⟨?_, hinv.unread, hinv.pending⟩
      rw [Course.step]
      dsimp only
      rw [replies_step _ hpermitted.2]
      exact hinv.replies
  | call method => exact hinv.call method
  | arrive count stale env =>
      have hcount := hpermitted.1
      rw [hlinks.script_eq] at hcount
      exact hinv.arrive hcount stale env
  | hear count =>
      obtain ⟨hcount, hheard⟩ := exists_replies_of_hear hlinks hpermitted
      exact hinv.hear hcount hheard

variable {session : Session} {table : DataTable} {history : History} {acts : List Act}

/-- However the client, its server and the other clients go on, no promise of
`getData` is settled. -/
theorem getData_pending (hholding : Holding session.store table history)
    (hpermitted : EachTry (step client) (Permitted client) (start session) acts)
    (hsound : ∀ act ∈ acts, Sound act) :
    ∃ link, tryRun (step client) (start session) acts = .ok link ∧
      link.script.promises.map Promise.method = acts.filterMap Act.called ∧
      ∀ promise ∈ link.script.promises, ∀ key, promise.method = .getData key →
        promise.settled = none := by
  obtain ⟨link, course, hrun, hlinks, hinv⟩ := run_links (fun _ _ => id)
    (fun _ _ _ => unanswered_step) hholding (Unanswered.opening client history) hsound hpermitted
  refine ⟨link, hrun, methods_run hrun, fun promise hmem key hget => ?_⟩
  rw [hlinks.script_eq] at hmem
  exact hinv.pending promise hmem (congrArg (fun method => method.awaits.1) hget)

/-- A key is asked for and then set; only the second promise is settled. -/
theorem getData_pending_beside_set :
    let env : Env := ⟨⟨fun _ => [0], fun _ => 0⟩, .ok⟩
    let session : Session := ⟨{ isOk := true, db := .opened (some ∅), misuse := [] }, []⟩
    let acts : List Act := [
      .loop (.newConnection 0 true), .call (.getData [107]), .call (.setData [107] [118]),
      .arrive 1 [0, 0, 0, 0, 0, 0] env, .loop (.written 0 0), .hear 1]
    (tryRun (step 0) (start session) acts).toOption.map (fun link => link.script.promises) =
        some [⟨.getData [107], none⟩, ⟨.setData [107] [118], some .true⟩] ∧
      ∃ link, tryRun (step 0) (start session) acts = .ok link ∧
        link.script.promises.map Promise.method = acts.filterMap Act.called ∧
        ∀ promise ∈ link.script.promises, ∀ key, promise.method = .getData key →
          promise.settled = none := by
  intro env session acts
  have hpermitted : EachTry (step 0) (Permitted 0) (start session) acts := by decide +kernel
  have hsound : ∀ act ∈ acts, Sound act := by
    refine List.forall_mem_cons.mpr ⟨trivial, List.forall_mem_cons.mpr ⟨trivial, ?_⟩⟩
    refine List.forall_mem_cons.mpr ⟨trivial, List.forall_mem_cons.mpr ⟨⟨?_, rfl⟩, ?_⟩⟩
    · exact fun _ => ⟨[], rfl⟩
    · exact List.forall_mem_cons.mpr ⟨trivial, List.forall_mem_singleton.mpr trivial⟩
  exact ⟨by decide +kernel, getData_pending (.of_empty ⟨rfl, rfl⟩) hpermitted hsound⟩

/-! ## Calls that are read together -/

/-- A call waits for another reply than those before it. -/
def Distinct (link : Link) : Act → Prop
  | .call method => method.awaits ∉ link.script.promises.map fun promise => promise.method.awaits
  | _ => True

instance instDecidableDistinct (link : Link) : ∀ act, Decidable (Distinct link act)
  | .call method => inferInstanceAs
      (Decidable (method.awaits ∉ link.script.promises.map fun promise => promise.method.awaits))
  | .loop _ => inferInstanceAs (Decidable True)
  | .arrive _ _ _ => inferInstanceAs (Decidable True)
  | .hear _ => inferInstanceAs (Decidable True)

/-- Every settled promise has taken a reply for itself. -/
structure Counted (client : Nat) (course : Course) : Prop where
  distinct : (course.script.promises.map fun promise => promise.method.awaits).Nodup
  settled_le : course.script.promises.countP Promise.isSettled ≤ course.script.heard
  heard_le : course.script.heard ≤ (course.board.replies client).length

theorem Counted.opening (client : Nat) (history : History) :
    Counted client (.opening history) := ⟨List.nodup_nil, Nat.le_refl 0, Nat.le_refl 0⟩

theorem length_replies_le (board : Board) (event : Event) :
    (board.replies client).length ≤ ((board.step event).replies client).length := by
  cases event with
  | read other nread received stale env taken =>
      rw [Board.step]
      split
      next =>
        by_cases hself : client = other
        · subst hself
          rw [Board.replies_read, List.length_append]
          exact Nat.le_add_right _ _
        · rw [Board.replies_read_of_ne _ hself]
      next => exact Nat.le_refl _
  | _ => exact Nat.le_refl _

namespace Counted

theorem call (hinv : Counted client course) {method : Method}
    (hdistinct : method.awaits ∉ course.script.promises.map fun promise => promise.method.awaits) :
    Counted client (course.step client (.call method)) where
  distinct := by
    rw [Course.step, Script.call, List.map_append, List.nodup_append_comm]
    exact List.nodup_cons.mpr ⟨hdistinct, hinv.distinct⟩
  settled_le := by
    rw [Course.step, Script.call, List.countP_append]
    exact hinv.settled_le
  heard_le := hinv.heard_le

theorem hear (hinv : Counted client course) {count : Nat} (hcount : 0 < count)
    (hheard : course.script.heard + count ≤ (course.board.replies client).length) :
    Counted client (course.step client (.hear count)) where
  distinct := by
    rw [Course.step, Script.hear, List.map_map]
    exact hinv.distinct
  settled_le := by
    rw [Course.step, Script.hear]
    refine (countP_hear_le hinv.distinct _).trans ?_
    exact Nat.add_le_add hinv.settled_le hcount
  heard_le := hheard

end Counted

theorem counted_step {link : Link} {act : Act} (hlinks : Links link course)
    (hpermitted : Permitted client link act) (hdistinct : Distinct link act)
    (hinv : Counted client course) : Counted client (course.step client act) := by
  cases act with
  | loop event =>
      exact ⟨hinv.distinct, hinv.settled_le, hinv.heard_le.trans (length_replies_le _ event)⟩
  | call method =>
      rw [Distinct, hlinks.script_eq] at hdistinct
      exact hinv.call hdistinct
  | arrive count stale env =>
      exact ⟨hinv.distinct, hinv.settled_le, hinv.heard_le.trans (length_replies_le _ _)⟩
  | hear count =>
      obtain ⟨hcount, hheard⟩ := exists_replies_of_hear hlinks hpermitted
      exact hinv.hear hcount hheard

/-- Of calls that wait for different replies, no more are settled than the server
has sent replies. -/
theorem run_settled_le (hholding : Holding session.store table history)
    (hguard : EachTry (step client) (fun link act => Permitted client link act ∧ Distinct link act)
      (start session) acts)
    (hsound : ∀ act ∈ acts, Sound act) :
    ∃ link replies, tryRun (step client) (start session) acts = .ok link ∧
      repliesTo link.server client = .ok replies ∧
      link.script.promises.map Promise.method = acts.filterMap Act.called ∧
      link.script.promises.countP Promise.isSettled ≤ replies.length := by
  obtain ⟨link, course, hrun, hlinks, hinv⟩ := run_links (fun _ _ hguard => hguard.1)
    (fun _ _ _ hlinks hguard => counted_step hlinks hguard.1 hguard.2) hholding
    (Counted.opening client history) hsound hguard
  refine ⟨link, _, hrun, repliesTo_of_shows hlinks.shows_board client, methods_run hrun, ?_⟩
  rw [hlinks.script_eq]
  exact hinv.settled_le.trans hinv.heard_le

/-- Two keys are set at once and read together; the second promise stays pending. -/
theorem run_settled_le_two_calls :
    let env : Env := ⟨⟨fun _ => [0], fun _ => 0⟩, .ok⟩
    let session : Session := ⟨{ isOk := true, db := .opened (some ∅), misuse := [] }, []⟩
    let acts : List Act := [
      .loop (.newConnection 0 true), .call (.setData [107] [118]), .call (.setData [108] [119]),
      .arrive 2 (List.replicate 12 0) env, .loop (.written 0 0), .hear 1]
    (tryRun (step 0) (start session) acts).toOption.map (fun link => link.script.promises) =
        some [⟨.setData [107] [118], some .true⟩, ⟨.setData [108] [119], none⟩] ∧
      ∃ link replies, tryRun (step 0) (start session) acts = .ok link ∧
        repliesTo link.server 0 = .ok replies ∧
        link.script.promises.map Promise.method = acts.filterMap Act.called ∧
        link.script.promises.countP Promise.isSettled ≤ replies.length := by
  intro env session acts
  have hguard : EachTry (step 0) (fun link act => Permitted 0 link act ∧ Distinct link act)
      (start session) acts := by decide +kernel
  have hsound : ∀ act ∈ acts, Sound act := by
    refine List.forall_mem_cons.mpr ⟨trivial, List.forall_mem_cons.mpr ⟨trivial, ?_⟩⟩
    refine List.forall_mem_cons.mpr ⟨trivial, List.forall_mem_cons.mpr ⟨⟨?_, rfl⟩, ?_⟩⟩
    · exact fun _ => ⟨[], rfl⟩
    · exact List.forall_mem_cons.mpr ⟨trivial, List.forall_mem_singleton.mpr trivial⟩
  exact ⟨by decide +kernel, run_settled_le (.of_empty ⟨rfl, rfl⟩) hguard hsound⟩

end CcCvStore.ClientLink
