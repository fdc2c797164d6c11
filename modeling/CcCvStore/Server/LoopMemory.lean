import CcCvStore.Server.LoopRefinement

/-!
# The memory of the event loop

At any time the live blocks are the handles of the connections, the requests
that wait with their replies, what `uv_write` refused, and one copy for each
value that a `SET` has found and overwritten.  No callback frees a block twice or
uses one it has freed, however the events of the clients mix.
-/

namespace CcCvStore.LoopMemory

open CcCvStore.Heap
open CcCvStore.Message
open CcCvStore.Router
open CcCvStore.RequestMemory
open CcCvStore.EventLoop
open CcCvStore.Conversations
open CcCvStore.Ownership
open CcCvStore.Runs

/-- The two blocks of a write. -/
def blocksOf (write : Write) : List Address := write.req :: write.buf.base.toList

def heldBy (connection : Connection) : List Address :=
  (if connection.phase = .closed then [] else [connection.handle]) ++
    connection.writes.flatMap blocksOf

/-- The blocks that the connections and the refused writes still refer to. -/
def owned (server : Server) : List Address :=
  server.connections.flatMap heldBy ++ server.refused.flatMap blocksOf

/-- The live blocks are the owned ones and these copies, each once. -/
structure Accounted (server : Server) (copies : List Address) : Prop where
  nodup : (owned server ++ copies).Nodup
  live_iff : ∀ address,
    server.memory.cell? address ≠ none ↔ address ∈ owned server ++ copies

/-! ## Ledgers by their addresses -/

variable {server : Server} {guests : List Guest} {lost : Lost}

theorem addresses_waiting (waiting : List Waiting) :
    (waiting.flatMap Waiting.blocks).map Prod.fst =
      (waiting.map Waiting.write).flatMap blocksOf := by
  rw [List.map_flatMap, List.flatMap_map]
  rfl

theorem addresses_guest (guest : Guest) :
    guest.blocks.map Prod.fst = heldBy guest.connection := by
  rw [Guest.blocks, List.map_append, addresses_waiting, heldBy, Guest.handleBlock]
  congr 1
  exact apply_ite (List.map Prod.fst) _ _ _

theorem addresses_cells (kept : List Kept) : (cells kept).map Prod.fst = kept.map Kept.address := by
  rw [cells, List.map_map]
  rfl

theorem addresses_serves (hserves : Serves server guests lost) :
    (guests.flatMap Guest.blocks ++ lost.blocks).map Prod.fst =
      owned server ++ lost.copies.map Kept.address := by
  have hguests : (guests.flatMap Guest.blocks).map Prod.fst =
      server.connections.flatMap heldBy := by
    simp only [hserves.connections, List.map_flatMap, List.flatMap_map, addresses_guest]
  rw [Lost.blocks, List.map_append, List.map_append, hguests, addresses_waiting, addresses_cells,
    owned, hserves.refused, List.append_assoc]

theorem accounted_of_serves (hserves : Serves server guests lost) :
    Accounted server (lost.copies.map Kept.address) where
  nodup := by
    rw [← addresses_serves hserves]
    exact hserves.memory.nodup
  live_iff := by
    intro address
    rw [← addresses_serves hserves]
    exact hserves.memory.live_iff address

/-- Closed connections own nothing. -/
theorem owned_of_closed (hserves : Serves server guests lost)
    (hclosed : ∀ connection ∈ server.connections, connection.phase = .closed)
    (hrefused : server.refused = []) : owned server = [] := by
  have hconnections : server.connections.flatMap heldBy = [] := by
    rw [List.flatMap_eq_nil_iff]
    intro connection hmem
    have hphase := hclosed connection hmem
    rw [hserves.connections] at hmem
    obtain ⟨guest, -, rfl⟩ := List.mem_map.mp hmem
    rw [heldBy, if_pos hphase, Guest.connection, guest.waiting_of_closed hphase]
    rfl
  rw [owned, hconnections, hrefused]
  rfl

/-! ## Whole runs -/

theorem refines_start (session : Session) : Refines (start session) (atStart session) :=
  ⟨[], ⟨[], []⟩, ⟨Holds.empty, rfl, rfl⟩, rfl⟩

theorem related_run (session : Session) {events : List Event}
    (hallowed : EachTry step Allowed (start session) events) :
    Related SameFault Refines (tryRun step (start session) events)
      (tryRun specify (atStart session) events) := by
  have hstep : ∀ server desk event, Refines server desk → Allowed server event →
      Related SameFault Refines (step server event) (specify desk event) :=
    fun _ _ _ hrefines => refines_step hrefines
  exact related_tryRun hstep (refines_start session) hallowed

/-- In every run that libuv allows, the loop stops only where the code of a
request does; else every live block is accounted for, and once all clients have
gone and no write was refused, the copies are what is left. -/
theorem run_accounted (session : Session) {events : List Event}
    (hallowed : EachTry step Allowed (start session) events) :
    (∀ fault, tryRun step (start session) events ≠ .error (.heap fault)) ∧
    (∀ fault, tryRun step (start session) events = .error (.code fault) ↔
      tryRun specify (atStart session) events = .error fault) ∧
    ∀ server, tryRun step (start session) events = .ok server →
      ∃ desk copies, tryRun specify (atStart session) events = .ok desk ∧
        copies.length = desk.lost ∧ Accounted server copies ∧
        ((∀ connection ∈ server.connections, connection.phase = .closed) →
          server.refused = [] →
          ∀ address, server.memory.cell? address ≠ none ↔ address ∈ copies) := by
  have hrelated := related_run session hallowed
  cases hrun : tryRun step (start session) events with
  | error stopped =>
      cases hspecify : tryRun specify (atStart session) events with
      | error fault =>
          rw [hrun, hspecify] at hrelated
          cases hrelated
          refine ⟨by intro fault; nofun, ?_, nofun⟩
          intro other
          simp
      | ok desk =>
          rw [hrun, hspecify] at hrelated
          exact hrelated.elim
  | ok server =>
      cases hspecify : tryRun specify (atStart session) events with
      | error fault =>
          rw [hrun, hspecify] at hrelated
          exact hrelated.elim
      | ok desk =>
          rw [hrun, hspecify] at hrelated
          obtain ⟨guests, lost, hserves, rfl⟩ := hrelated
          refine ⟨nofun, by simp, ?_⟩
          rintro _ ⟨⟩
          have haccounted := accounted_of_serves hserves
          refine ⟨_, _, rfl, List.length_map _, haccounted, ?_⟩
          intro hclosed hrefused address
          rw [haccounted.live_iff, owned_of_closed hserves hclosed hrefused, List.nil_append]

/-- Two clients set one key, both leave, and the copy of the second `SET` stays. -/
theorem run_accounted_two_clients :
    let env : Env := ⟨⟨fun _ => [0], fun _ => 0⟩, .ok⟩
    let session : Session := ⟨{ isOk := true, db := .opened (some ∅), misuse := [] }, []⟩
    let events : List Event := [
      .newConnection 0 true, .newConnection 0 true,
      .read 0 6 [49, 124, 107, 124, 118, 124] (List.replicate 8 0) env true,
      .read 1 6 [49, 124, 107, 124, 119, 124] (List.replicate 8 7) env true,
      .written 1 0, .read 0 (-4095) [] (List.replicate 8 0) env true, .written 0 0, .closed 0,
      .read 1 (-4095) [] (List.replicate 8 0) env true, .closed 1]
    ∃ server ∈ (tryRun step (start session) events).toOption, ∃ copy : Address,
      Accounted server [copy] ∧
        ∀ address, server.memory.cell? address ≠ none ↔ address = copy := by
  intro env session events
  have hsafe := run_accounted session (show EachTry step Allowed (start session) events by
    decide +kernel)
  have hover : ∀ server ∈ (tryRun step (start session) events).toOption,
      (∀ connection ∈ server.connections, connection.phase = .closed) ∧
        server.refused = [] := by decide +kernel
  have hlost : ∀ desk ∈ (tryRun specify (atStart session) events).toOption,
      desk.lost = 1 := by decide +kernel
  cases hrun : tryRun step (start session) events with
  | error stopped =>
      have hok : (tryRun step (start session) events).toOption.isSome := by decide +kernel
      rw [hrun] at hok
      exact absurd hok Bool.false_ne_true
  | ok server =>
      obtain ⟨desk, copies, hspecify, hlength, haccounted, hleft⟩ := hsafe.2.2 server hrun
      rw [hspecify] at hlost
      rw [hlost desk rfl] at hlength
      obtain ⟨copy, rfl⟩ := List.length_eq_one_iff.mp hlength
      rw [hrun] at hover
      obtain ⟨hclosed, hrefused⟩ := hover server rfl
      refine ⟨server, rfl, copy, haccounted, fun address => ?_⟩
      rw [hleft hclosed hrefused, List.mem_singleton]

end CcCvStore.LoopMemory
