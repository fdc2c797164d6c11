import CcCvStore.Client.Promises
import CcCvStore.Server.SharedMap

/-!
# A client and its server

A script calls the methods of `client.js` while the server serves other clients
too.  Writes reach the server in order, several perhaps in one read, and so do
replies the client.  Over the map that the server's clients share, this is a
machine without memory and without faults.
-/

namespace CcCvStore.ClientLink

open CcCvStore.Effect
open CcCvStore.CString
open CcCvStore.Message
open CcCvStore.Backend
open CcCvStore.WireFormat
open CcCvStore.Router
open CcCvStore.Framing
open CcCvStore.RequestMemory
open CcCvStore.EventLoop
open CcCvStore.Conversations
open CcCvStore.SharedMap
open CcCvStore.Promises
open CcCvStore.Runs

/-- The client's side, with what it has written and what it has read. -/
structure Script where
  promises : List Promise
  /-- Its writes that the server has not read. -/
  unread : List (List Byte)
  /-- The number of replies it has heard. -/
  heard : Nat

namespace Script

def call (script : Script) (method : Method) : Script :=
  { script with
    promises := script.promises ++ [.pending method]
    unread := script.unread ++ method.call.written.toList }

/-- What the server receives when it reads so many writes. -/
def arriving (script : Script) (count : Nat) : List Byte := (script.unread.take count).flatten

def arrived (script : Script) (count : Nat) : Script :=
  { script with unread := script.unread.drop count }

/-- The socket hands out so many replies in one piece, which every listener hears. -/
def hear (script : Script) (replies : List (List Byte)) (count : Nat) : Script :=
  let binData := ((replies.drop script.heard).take count).flatten
  { script with
    promises := script.promises.map (Promise.hear binData)
    heard := script.heard + count }

end Script

inductive Act where
  /-- What else happens in the loop of the server. -/
  | loop (event : Event)
  | call (method : Method)
  /-- The server reads so many writes of the client at once. -/
  | arrive (count : Nat) (stale : List Byte) (env : Env)
  | hear (count : Nat)

/-- The method an act calls. -/
def Act.called : Act → Option Method
  | .call method => some method
  | _ => none

/-- The read of the server in which writes of a client arrive. -/
def arrival (client : Nat) (script : Script) (count : Nat) (stale : List Byte) (env : Env) :
    Event :=
  .read client (script.arriving count).length (script.arriving count) stale env true

structure Link where
  server : Server
  script : Script

/-- What the server has sent on a connection or is sending, in order. -/
def repliesTo (server : Server) (client : Nat) : Except LoopFault (List (List Byte)) :=
  match server.connections[client]? with
  | none => .ok []
  | some connection => do
      let waiting ← connection.writes.mapM fun write => sentFrom server.memory write.buf
      return connection.results.map Prod.fst ++ waiting

/-- The client has the connection with this number. -/
def step (client : Nat) (link : Link) : Act → Except LoopFault Link
  | .loop event => do
      return { link with server := ← EventLoop.step link.server event }
  | .call method => .ok { link with script := link.script.call method }
  | .arrive count stale env => do
      let server ← EventLoop.step link.server (arrival client link.script count stale env)
      return ⟨server, link.script.arrived count⟩
  | .hear count => do
      return { link with script := link.script.hear (← repliesTo link.server client) count }

def start (session : Session) : Link := ⟨EventLoop.start session, ⟨[], [], 0⟩⟩

/-! ## What can happen -/

/-- Bytes are read from this client. -/
def ReadsFrom (client : Nat) : Event → Prop
  | .read other nread _ _ _ _ => other = client ∧ 0 < nread
  | _ => False

instance instDecidableReadsFrom (client : Nat) : ∀ event, Decidable (ReadsFrom client event)
  | .read other nread _ _ _ _ => inferInstanceAs (Decidable (other = client ∧ 0 < nread))
  | .newConnection _ _ => inferInstanceAs (Decidable False)
  | .written _ _ => inferInstanceAs (Decidable False)
  | .closed _ => inferInstanceAs (Decidable False)

/-- The message fits the buffer, and what it asks has a key. -/
def Readable (message : List Byte) : Prop :=
  message.length ≤ suggestedSize ∧ (demand message).key? ≠ some []

/-- Only what was written arrives, and only what was sent is heard. -/
def Permitted (client : Nat) (link : Link) : Act → Prop
  | .loop event => Allowed link.server event ∧ ¬ReadsFrom client event
  | .call _ => True
  | .arrive count stale env =>
      (0 < count ∧ count ≤ link.script.unread.length) ∧
        Allowed link.server (arrival client link.script count stale env) ∧
        Readable (link.script.arriving count ++
          stale.drop (link.script.arriving count).length)
  | .hear count =>
      0 < count ∧ ∃ replies ∈ (repliesTo link.server client).toOption,
        link.script.heard + count ≤ replies.length

instance instDecidableReadable (message : List Byte) : Decidable (Readable message) :=
  inferInstanceAs (Decidable
    (message.length ≤ suggestedSize ∧ (demand message).key? ≠ some []))

instance instDecidablePermitted (client : Nat) (link : Link) :
    ∀ act, Decidable (Permitted client link act)
  | .loop event =>
      inferInstanceAs (Decidable (Allowed link.server event ∧ ¬ReadsFrom client event))
  | .call _ => inferInstanceAs (Decidable True)
  | .arrive count stale env =>
      inferInstanceAs (Decidable ((0 < count ∧ count ≤ link.script.unread.length) ∧
        Allowed link.server (arrival client link.script count stale env) ∧
        Readable (link.script.arriving count ++
          stale.drop (link.script.arriving count).length)))
  | .hear count =>
      inferInstanceAs (Decidable (0 < count ∧
        ∃ replies ∈ (repliesTo link.server client).toOption,
          link.script.heard + count ≤ replies.length))

/-- SQLite does its part, libuv takes the replies, and memory past an allocation
starts with a NUL. -/
def Sound : Act → Prop
  | .loop event => Expected event
  | .arrive _ _ env => env.heap.Terminated ∧ env.outcomes = .ok
  | _ => True

/-! ## The link over the map -/

/-- The client's side, beside the map of all clients. -/
structure Course where
  board : Board
  script : Script

def Course.step (client : Nat) (course : Course) : Act → Course
  | .loop event => { course with board := course.board.step event }
  | .call method => { course with script := course.script.call method }
  | .arrive count stale env =>
      ⟨course.board.step (arrival client course.script count stale env),
        course.script.arrived count⟩
  | .hear count =>
      { course with script := course.script.hear (course.board.replies client) count }

structure Links (link : Link) (course : Course) : Prop where
  shows_board : Shows link.server course.board
  script_eq : link.script = course.script

variable {client : Nat} {link : Link} {course : Course} {server : Server} {board : Board}

/-- The replies of a connection are those on the board. -/
theorem repliesTo_of_shows (hshows : Shows server board) (client : Nat) :
    repliesTo server client = .ok (board.replies client) := by
  rw [repliesTo]
  cases hconnection : server.connections[client]? with
  | none =>
      obtain ⟨_, ⟨guests, lost, hserves, rfl⟩, hmirrors⟩ := hshows.conversations
      rw [hserves.connections, List.getElem?_eq_none_iff, List.length_map] at hconnection
      rw [hmirrors.unheard client (Nat.le_trans (List.length_map _).le hconnection)]
  | some connection =>
      obtain ⟨pending, hwaits, hreplies⟩ := hshows.replies hconnection
      dsimp only
      rw [mapM_of_forall₂ hwaits, ok_bind, hreplies]
      rfl

theorem exists_of_related {result : Except LoopFault Server}
    (hrelated : Related SameFault Shows result (.ok board)) :
    ∃ after, result = .ok after ∧ Shows after board := by
  cases result with
  | error fault => exact hrelated.elim
  | ok after => exact ⟨after, rfl, hrelated⟩

theorem expected_arrival {script : Script} {count : Nat} {stale : List Byte} {env : Env}
    (henv : env.heap.Terminated ∧ env.outcomes = .ok)
    (hreadable : Readable (script.arriving count ++
      stale.drop (script.arriving count).length)) :
    Expected (arrival client script count stale env) :=
  fun _ => ⟨rfl, henv.1, henv.2, hreadable.1, hreadable.2⟩

/-- The link does what the machine over the map does. -/
theorem links_step (hlinks : Links link course) {act : Act} (hpermitted : Permitted client link act)
    (hsound : Sound act) :
    Related SameFault Links (step client link act) (.ok (course.step client act)) := by
  obtain ⟨server, script⟩ := link
  obtain ⟨hshows, rfl⟩ := hlinks
  cases act with
  | loop event =>
      obtain ⟨after, hstep, hafter⟩ := exists_of_related (shows_step hshows hpermitted.1 hsound)
      simp only [step, hstep, ok_bind]
      exact ⟨hafter, rfl⟩
  | call method => exact ⟨hshows, rfl⟩
  | arrive count stale env =>
      obtain ⟨after, hstep, hafter⟩ := exists_of_related (shows_step hshows hpermitted.2.1
        (expected_arrival hsound hpermitted.2.2))
      simp only [step, hstep, ok_bind]
      exact ⟨hafter, rfl⟩
  | hear count =>
      simp only [step, repliesTo_of_shows hshows, ok_bind]
      exact ⟨hshows, rfl⟩

/-! ## Runs -/

/-- A call adds its promise, and no act takes one back. -/
theorem methods_step {act : Act} {after : Link} (hstep : step client link act = .ok after) :
    after.script.promises.map Promise.method =
      link.script.promises.map Promise.method ++ act.called.toList := by
  cases act with
  | loop event =>
      obtain ⟨server, -, hafter⟩ := exists_of_bind_eq_ok hstep
      cases hafter
      exact (List.append_nil _).symm
  | call method =>
      cases hstep
      exact List.map_append
  | arrive count stale env =>
      obtain ⟨server, -, hafter⟩ := exists_of_bind_eq_ok hstep
      cases hafter
      exact (List.append_nil _).symm
  | hear count =>
      obtain ⟨replies, -, hafter⟩ := exists_of_bind_eq_ok hstep
      cases hafter
      rw [Script.hear, List.map_map]
      exact (List.append_nil _).symm

/-- The promises are those of the calls of the run, in their order. -/
theorem methods_run {acts : List Act} {after : Link}
    (hrun : tryRun (step client) link acts = .ok after) :
    after.script.promises.map Promise.method =
      link.script.promises.map Promise.method ++ acts.filterMap Act.called := by
  induction acts generalizing link with
  | nil =>
      cases hrun
      exact (List.append_nil _).symm
  | cons act rest ih =>
      obtain ⟨next, hstep, hrest⟩ := exists_of_tryRun_cons hrun
      rw [ih hrest, methods_step hstep, List.append_assoc, List.filterMap_cons]
      cases act.called <;> rfl

/-- The client before its first call, beside a map with a history. -/
def Course.opening (history : History) : Course := ⟨.opening history, ⟨[], [], 0⟩⟩

variable {session : Session} {table : DataTable} {history : History}

theorem links_start (hholding : Holding session.store table history) :
    Links (start session) (.opening history) := ⟨shows_start hholding, rfl⟩

/-- What steps under a guard keep over the map, a run of the link keeps. -/
theorem run_links {Guard : Link → Act → Prop} {Inv : Course → Prop}
    (hpermitted : ∀ link act, Guard link act → Permitted client link act)
    (hkeep : ∀ link course act, Links link course → Guard link act → Inv course →
      Inv (course.step client act))
    (hholding : Holding session.store table history) (hstart : Inv (.opening history))
    {acts : List Act} (hsound : ∀ act ∈ acts, Sound act)
    (hguard : EachTry (step client) Guard (start session) acts) :
    ∃ link course, tryRun (step client) (start session) acts = .ok link ∧
      Links link course ∧ Inv course := by
  have hstep : ∀ link course act, Links link course ∧ Inv course →
      Guard link act ∧ Sound act →
      Related SameFault (fun link course => Links link course ∧ Inv course)
        (step client link act) (.ok (course.step client act)) := by
    rintro link course act ⟨hlinks, hinv⟩ ⟨hallowed, hsound⟩
    have hrelated := links_step hlinks (hpermitted link act hallowed) hsound
    revert hrelated
    cases step client link act with
    | error fault => exact id
    | ok after => exact fun hafter => ⟨hafter, hkeep link course act hlinks hallowed hinv⟩
  have hrelated := related_tryRun hstep ⟨links_start hholding, hstart⟩
    (hguard.and_forall hsound)
  rw [tryRun_of_total] at hrelated
  revert hrelated
  cases tryRun (step client) (start session) acts with
  | error fault => exact False.elim
  | ok link => exact fun hafter => ⟨link, _, rfl, hafter⟩

/-- Only reads from a client add to its replies. -/
theorem replies_step (board : Board) {event : Event} (hother : ¬ReadsFrom client event) :
    (board.step event).replies client = board.replies client := by
  cases event with
  | read other nread received stale env taken =>
      rw [Board.step]
      split
      next hnread =>
        exact board.replies_read_of_ne (fun hself => hother ⟨hself.symm, hnread⟩) _
      next => rfl
  | _ => rfl

/-- A read of writes of the client adds the reply to what has arrived. -/
theorem step_arrival (board : Board) {script : Script} {count : Nat}
    (hwrites : script.arriving count ≠ []) (stale : List Byte) (env : Env) :
    board.step (arrival client script count stale env) = board.read client
      (script.arriving count ++ stale.drop (script.arriving count).length) := by
  rw [arrival, Board.step, if_pos]
  exact Int.natCast_pos.mpr (List.length_pos_of_ne_nil hwrites)

theorem exists_replies_of_hear (hlinks : Links link course) {count : Nat}
    (hpermitted : Permitted client link (.hear count)) :
    0 < count ∧ course.script.heard + count ≤ (course.board.replies client).length := by
  obtain ⟨hcount, replies, hreplies, hlength⟩ := hpermitted
  rw [repliesTo_of_shows hlinks.shows_board client] at hreplies
  cases hreplies
  rw [hlinks.script_eq] at hlength
  exact ⟨hcount, hlength⟩

end CcCvStore.ClientLink
