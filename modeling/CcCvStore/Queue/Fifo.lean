import CcCvStore.Core.Runs
import CcCvStore.Queue.StsQueue
import Mathlib.Data.List.ReduceOption

/-!
# First in, first out

Any number of threads, each with its own calls, take steps on one queue in any
order.  The values popped are the first of the values pushed, no freed element
is used, and `destroy` leaves nothing behind.
-/

namespace CcCvStore.StsQueue

open CcCvStore.Effect
open CcCvStore.Heap
open CcCvStore.Runs

variable {Value Thread : Type}

/-! ## Threads -/

/-- The calls a thread makes; the pointers pushed are not `NULL`. -/
inductive Call (Value : Type) where
  | push (elem : Value)
  | pop
  | destroy
  deriving DecidableEq

structure World (Thread Value : Type) where
  queue : Queue Value
  /-- The calls each thread has still to return from, the first one first. -/
  todo : Thread → List (Call Value)
  /-- The element of a `push` that waits for the lock. -/
  element : Thread → Option Address
  /-- The values pushed, in the order of the critical sections. -/
  pushed : List Value
  /-- The results of all calls of `pop`, `NULL` as `none`. -/
  popped : List (Option Value)

def World.start (programs : Thread → List (Call Value)) : World Thread Value where
  queue := create
  todo := programs
  element _ := none
  pushed := []
  popped := []

variable [DecidableEq Thread]

/-- A thread has returned from its first call. -/
def World.finish (world : World Thread Value) (thread : Thread) : World Thread Value :=
  { world with todo := Function.update world.todo thread (world.todo thread).tail }

/-- One call of `pop`, with its result. -/
def World.pop (world : World Thread Value) :
    Except HeapFault (Option Value × World Thread Value) := do
  let (value, queue) ← StsQueue.pop world.queue
  return (value, { world with queue := queue, popped := world.popped ++ [value] })

/-- `push` up to the lock. -/
def World.newElement (world : World Thread Value) (thread : Thread) (elem : Value) :
    World Thread Value :=
  let (element, queue) := StsQueue.newElement world.queue (some elem)
  { world with queue := queue, element := Function.update world.element thread (some element) }

/-- `push` from the lock on. -/
def World.pushLocked (world : World Thread Value) (thread : Thread) (element : Address)
    (elem : Value) : Except HeapFault (World Thread Value) := do
  let queue ← StsQueue.pushLocked world.queue element
  return { world with
    queue := queue
    element := Function.update world.element thread none
    pushed := world.pushed ++ [elem] }

def step (world : World Thread Value) (thread : Thread) :
    Except HeapFault (World Thread Value) :=
  match world.todo thread, world.element thread with
  | [], _ => .ok world
  | .push elem :: _, none => .ok (world.newElement thread elem)
  | .push elem :: _, some element => do
      let after ← world.pushLocked thread element elem
      return after.finish thread
  | .pop :: _, _ => do
      let (_, after) ← world.pop
      return after.finish thread
  | .destroy :: _, _ => do
      let (mem, after) ← world.pop
      -- `while ((mem = pop(header)) != NULL)`
      return if mem.isSome then after else after.finish thread

/-! ## The invariant -/

/-- The queue holds `waiting` in `nodes`; what else is live is the element of a
thread that waits for the lock. -/
structure Intact (world : World Thread Value) (nodes : List (Address × StsElement Value))
    (waiting : List Value) : Prop where
  represents : Represents world.queue nodes waiting
  history : world.pushed = world.popped.reduceOption ++ waiting
  held : ∀ thread element, world.element thread = some element →
    element ∉ nodes.map Prod.fst ∧ ∃ elem rest, world.todo thread = .push elem :: rest ∧
      world.queue.memory.cell? element = some ⟨none, some elem⟩
  distinct : ∀ thread other element, world.element thread = some element →
    world.element other = some element → thread = other
  live : ∀ address, world.queue.memory.cell? address ≠ none →
    address ∈ nodes.map Prod.fst ∨ ∃ thread, world.element thread = some address

variable {world : World Thread Value} {nodes : List (Address × StsElement Value)}
  {waiting : List Value}

omit [DecidableEq Thread] in
theorem intact_start (programs : Thread → List (Call Value)) :
    Intact (World.start programs) [] [] where
  represents := represents_create
  history := rfl
  held _ _ helement := absurd helement (Option.some_ne_none _).symm
  distinct _ _ _ helement := absurd helement (Option.some_ne_none _).symm
  live _ hlive := absurd rfl hlive

omit [DecidableEq Thread] in
/-- Only a thread that pushes holds an element. -/
theorem Intact.element_eq_none (hintact : Intact world nodes waiting) {thread : Thread}
    {call : Call Value} {rest : List (Call Value)} (htodo : world.todo thread = call :: rest)
    (hcall : ∀ elem, call ≠ .push elem) : world.element thread = none := by
  cases helement : world.element thread with
  | none => rfl
  | some element =>
      obtain ⟨-, elem, others, hpush, -⟩ := hintact.held thread element helement
      rw [htodo] at hpush
      exact absurd (List.cons.inj hpush).1 (hcall elem)

theorem Intact.finish (hintact : Intact world nodes waiting) {thread : Thread}
    (helement : world.element thread = none) : Intact (world.finish thread) nodes waiting where
  represents := hintact.represents
  history := hintact.history
  held other element hother := by
    obtain ⟨hoff, elem, rest, htodo, hcell⟩ := hintact.held other element hother
    refine ⟨hoff, elem, rest, ?_, hcell⟩
    have hne : other ≠ thread := by
      rintro rfl
      exact Option.some_ne_none _ (hother.symm.trans helement)
    exact (Function.update_of_ne hne _ _).trans htodo
  distinct := hintact.distinct
  live := hintact.live

omit [DecidableEq Thread] in
theorem Intact.of_pop_nil (hintact : Intact world [] []) :
    Intact { world with popped := world.popped ++ [none] } [] [] where
  represents := hintact.represents
  history := by
    change world.pushed = (world.popped ++ [none]).reduceOption ++ []
    rw [List.reduceOption_append, List.append_assoc]
    exact hintact.history
  held := hintact.held
  distinct := hintact.distinct
  live := hintact.live

omit [DecidableEq Thread] in
/-- Only the first element is freed. -/
theorem Intact.of_pop_cons {node : Address × StsElement Value} {first : Value}
    (hintact : Intact world (node :: nodes) (first :: waiting)) {queue : Queue Value}
    (hrep : Represents queue nodes waiting)
    (hmemory : ∀ address, queue.memory.cell? address =
      if address = node.1 then none else world.queue.memory.cell? address) :
    Intact { world with queue := queue, popped := world.popped ++ [some first] } nodes waiting where
  represents := hrep
  history := by
    change world.pushed = (world.popped ++ [some first]).reduceOption ++ waiting
    rw [hintact.history, List.reduceOption_append, List.append_assoc]
    rfl
  held := by
    intro thread element helement
    obtain ⟨hoff, elem, todo, htodo, hcell⟩ := hintact.held thread element helement
    rw [List.map_cons, List.mem_cons, not_or] at hoff
    refine ⟨hoff.2, elem, todo, htodo, ?_⟩
    rw [hmemory, if_neg hoff.1, hcell]
  distinct := hintact.distinct
  live := by
    intro address hlive
    rw [hmemory] at hlive
    split at hlive
    next => contradiction
    next hne =>
      rcases hintact.live address hlive with hmem | hheld
      · rw [List.map_cons, List.mem_cons] at hmem
        exact .inl (hmem.resolve_left hne)
      · exact .inr hheld

omit [DecidableEq Thread] in
/-- A `pop` takes the first value with its element, or finds nothing. -/
theorem Intact.pop (hintact : Intact world nodes waiting) :
    ∃ after, world.pop = .ok (waiting.head?, after) ∧ Intact after nodes.tail waiting.tail ∧
      after.todo = world.todo ∧ after.element = world.element ∧
      after.popped = world.popped ++ [waiting.head?] ∧
      ∀ address, after.queue.memory.cell? address =
        if (nodes.map Prod.fst).head? = some address then none
        else world.queue.memory.cell? address := by
  cases waiting with
  | nil =>
      have hnodes := hintact.represents.nodes_nil_iff.mpr rfl
      subst hnodes
      refine ⟨{ world with popped := world.popped ++ [none] }, ?_, hintact.of_pop_nil, rfl, rfl,
        rfl, ?_⟩
      · simp only [World.pop, pop_of_represents_nil hintact.represents, ok_bind]
        rfl
      · intro address
        exact (if_neg (Option.some_ne_none _).symm).symm
  | cons first waiting =>
      obtain ⟨node, rest, queue, hnodes, hvalue, hpop, hrep, hmemory⟩ :=
        pop_of_represents_cons hintact.represents
      subst hnodes
      refine ⟨{ world with queue := queue, popped := world.popped ++ [some first] },
        ?_, hintact.of_pop_cons hrep hmemory, rfl, rfl, rfl, ?_⟩
      · simp only [World.pop, hpop, ok_bind]
        rfl
      · intro address
        rw [hmemory]
        exact if_congr (eq_comm.trans Option.some_inj.symm) rfl rfl

omit [DecidableEq Thread] in
theorem Intact.live_of_mem (hintact : Intact world nodes waiting) :
    ∀ address ∈ nodes.map Prod.fst, world.queue.memory.cell? address ≠ none := by
  intro address hmem
  obtain ⟨node, hnode, rfl⟩ := List.mem_map.mp hmem
  rw [hintact.represents.linked.cell? node hnode]
  exact Option.some_ne_none _

omit [DecidableEq Thread] in
theorem Intact.live_of_held (hintact : Intact world nodes waiting) {thread : Thread}
    {element : Address} (helement : world.element thread = some element) :
    world.queue.memory.cell? element ≠ none := by
  obtain ⟨-, elem, rest, -, hcell⟩ := hintact.held thread element helement
  rw [hcell]
  exact Option.some_ne_none _

/-- The new element is its thread's alone. -/
theorem Intact.newElement (hintact : Intact world nodes waiting) {thread : Thread}
    {elem : Value} {rest : List (Call Value)} (htodo : world.todo thread = .push elem :: rest)
    (hnone : world.element thread = none) :
    Intact (world.newElement thread elem) nodes waiting := by
  have hnew : ∀ address, (world.newElement thread elem).queue.memory.cell? address =
      if address = world.queue.memory.blocks.length then some ⟨none, some elem⟩
      else world.queue.memory.cell? address :=
    world.queue.memory.cell?_malloc { next := none, value := some elem }
  have hold : ∀ {address}, world.queue.memory.cell? address ≠ none →
      address ≠ world.queue.memory.blocks.length := by
    rintro address hlive rfl
    exact hlive world.queue.memory.cell?_fresh
  have hself : (world.newElement thread elem).element thread =
      some world.queue.memory.blocks.length := Function.update_self _ _ _
  have hother : ∀ {other}, other ≠ thread →
      (world.newElement thread elem).element other = world.element other :=
    fun hne => Function.update_of_ne hne _ _
  exact {
    represents := by
      have hheader : (world.newElement thread elem).queue.header = world.queue.header := rfl
      apply hintact.represents.congr hheader
      intro address hmem
      rw [hnew, if_neg (hold (hintact.live_of_mem address hmem))]
    history := hintact.history
    held := by
      intro other element helement
      by_cases heq : other = thread
      · rw [heq, hself] at helement
        cases helement
        refine ⟨fun hmem => hold (hintact.live_of_mem _ hmem) rfl, elem, rest, ?_, ?_⟩
        · rw [heq]
          exact htodo
        · rw [hnew, if_pos rfl]
      · rw [hother heq] at helement
        obtain ⟨hoff, elem, rest, hpush, hcell⟩ := hintact.held other element helement
        refine ⟨hoff, elem, rest, hpush, ?_⟩
        rw [hnew, if_neg (hold (hintact.live_of_held helement)), hcell]
    distinct := by
      intro left right element hleft hright
      by_cases hl : left = thread <;> by_cases hr : right = thread
      · rw [hl, hr]
      · rw [hl, hself] at hleft
        rw [hother hr] at hright
        cases hleft
        exact absurd rfl (hold (hintact.live_of_held hright))
      · rw [hr, hself] at hright
        rw [hother hl] at hleft
        cases hright
        exact absurd rfl (hold (hintact.live_of_held hleft))
      · rw [hother hl] at hleft
        rw [hother hr] at hright
        exact hintact.distinct left right element hleft hright
    live := by
      intro address hlive
      rw [hnew] at hlive
      split at hlive
      next heq => exact .inr ⟨thread, by rw [hself, heq]⟩
      next hne =>
        rcases hintact.live address hlive with hmem | ⟨other, hheld⟩
        · exact .inl hmem
        · refine .inr ⟨other, ?_⟩
          rw [hother, hheld]
          rintro rfl
          exact Option.some_ne_none _ (hheld.symm.trans hnone) }

/-- A value enters the queue when its element enters the list. -/
theorem Intact.pushLocked (hintact : Intact world nodes waiting) {thread : Thread}
    {element : Address} {elem : Value} {rest : List (Call Value)}
    (htodo : world.todo thread = .push elem :: rest)
    (helement : world.element thread = some element) :
    ∃ after nodes', world.pushLocked thread element elem = .ok after ∧
      Intact after nodes' (waiting ++ [elem]) ∧ after.element thread = none := by
  obtain ⟨hoff, elem', rest', htodo', hcell⟩ := hintact.held thread element helement
  rw [htodo] at htodo'
  cases htodo'
  obtain ⟨queue, nodes', hpush, hrep, hnodes, hmemory⟩ :=
    pushLocked_of_represents hintact.represents hcell hoff
  have hother : ∀ {other}, other ≠ thread →
      Function.update world.element thread none other = world.element other :=
    fun hne => Function.update_of_ne hne _ _
  have hheld : ∀ {other held}, Function.update world.element thread none other = some held →
      other ≠ thread ∧ world.element other = some held := by
    intro other held hupdate
    by_cases heq : other = thread
    · rw [heq, Function.update_self] at hupdate
      contradiction
    · exact ⟨heq, (hother heq).symm.trans hupdate⟩
  refine ⟨{ world with
    queue := queue
    element := Function.update world.element thread none
    pushed := world.pushed ++ [elem] }, nodes', ?_, ?_, Function.update_self _ _ _⟩
  · simp only [World.pushLocked, hpush, ok_bind]
    rfl
  · exact {
      represents := hrep
      history := by
        change world.pushed ++ [elem] = world.popped.reduceOption ++ (waiting ++ [elem])
        rw [hintact.history, List.append_assoc]
      held := by
        intro other held hupdate
        obtain ⟨hne, hbefore⟩ := hheld hupdate
        obtain ⟨hheldOff, elem, rest, hpushing, hcell⟩ := hintact.held other held hbefore
        refine ⟨?_, elem, rest, hpushing, (hmemory held hheldOff).trans hcell⟩
        rw [hnodes, List.mem_append, List.mem_singleton, not_or]
        refine ⟨hheldOff, ?_⟩
        rintro rfl
        exact hne (hintact.distinct other thread held hbefore helement)
      distinct := by
        intro left right held hleft hright
        exact hintact.distinct left right held (hheld hleft).2 (hheld hright).2
      live := by
        intro address hlive
        rw [hnodes, List.mem_append, List.mem_singleton]
        by_cases hmem : address ∈ nodes.map Prod.fst
        · exact .inl (.inl hmem)
        · change queue.memory.cell? address ≠ none at hlive
          rw [hmemory address hmem] at hlive
          obtain ⟨other, hbefore⟩ := (hintact.live address hlive).resolve_left hmem
          by_cases heq : other = thread
          · rw [heq, helement] at hbefore
            exact .inl (.inr (Option.some.inj hbefore).symm)
          · exact .inr ⟨other, (hother heq).trans hbefore⟩ }

/-! ## Runs -/

/-- No step of any thread stops, and each keeps the invariant. -/
theorem Intact.step (hintact : Intact world nodes waiting) (thread : Thread) :
    ∃ after, step world thread = .ok after ∧ ∃ nodes waiting, Intact after nodes waiting := by
  cases htodo : world.todo thread with
  | nil => exact ⟨world, by simp only [StsQueue.step, htodo], nodes, waiting, hintact⟩
  | cons call rest =>
      cases call with
      | push elem =>
          cases helement : world.element thread with
          | none =>
              exact ⟨world.newElement thread elem, by simp only [StsQueue.step, htodo, helement],
                nodes, waiting, hintact.newElement htodo helement⟩
          | some element =>
              obtain ⟨after, nodes', hpush, hafter, hnone⟩ :=
                hintact.pushLocked htodo helement
              refine ⟨after.finish thread, ?_, nodes', _, hafter.finish hnone⟩
              simp only [StsQueue.step, htodo, helement, hpush, ok_bind]
              rfl
      | pop =>
          have hnone := hintact.element_eq_none htodo (by simp)
          obtain ⟨after, hpop, hafter, -, helement, -⟩ := hintact.pop
          refine ⟨after.finish thread, ?_, _, _, hafter.finish (by rw [helement, hnone])⟩
          simp only [StsQueue.step, htodo, hpop, ok_bind]
          rfl
      | destroy =>
          have hnone := hintact.element_eq_none htodo (by simp)
          obtain ⟨after, hpop, hafter, -, helement, -⟩ := hintact.pop
          refine ⟨if waiting.head?.isSome then after else after.finish thread, ?_,
            nodes.tail, waiting.tail, ?_⟩
          · simp only [StsQueue.step, htodo, hpop, ok_bind]
            rfl
          · split
            · exact hafter
            · exact hafter.finish (by rw [helement, hnone])

/-- `destroy` with nobody in between takes every element out of the list, once
each and in their order, and returns. -/
theorem Intact.destroy (hintact : Intact world nodes waiting) {thread : Thread}
    {rest : List (Call Value)} (htodo : world.todo thread = .destroy :: rest) :
    ∃ after, tryRun StsQueue.step world (List.replicate (nodes.length + 1) thread) = .ok after ∧
      after.todo thread = rest ∧ after.queue.header.head = none ∧
      after.popped = world.popped ++ nodes.map (fun node => node.2.value) ++ [none] ∧
      ∀ address, after.queue.memory.cell? address =
        if address ∈ nodes.map Prod.fst then none else world.queue.memory.cell? address := by
  induction waiting generalizing world nodes with
  | nil =>
      have hnodes := hintact.represents.nodes_nil_iff.mpr rfl
      subst hnodes
      obtain ⟨after, hpop, hafter, hcalls, -, hpopped, hmemory⟩ := hintact.pop
      have hstep : StsQueue.step world thread = .ok (after.finish thread) := by
        simp only [StsQueue.step, htodo, hpop, ok_bind]
        rfl
      refine ⟨after.finish thread, ?_, ?_, hafter.represents.linked, ?_, ?_⟩
      · exact tryRun_cons_of_ok hstep []
      · change Function.update after.todo thread (after.todo thread).tail thread = rest
        rw [Function.update_self, hcalls, htodo, List.tail_cons]
      · rw [List.map_nil, List.append_nil]
        exact hpopped
      · intro address
        exact (hmemory address).trans rfl
  | cons first waiting ih =>
      obtain ⟨after, hpop, hafter, hcalls, -, hpopped, hmemory⟩ := hintact.pop
      have hstep : StsQueue.step world thread = .ok after := by
        simp only [StsQueue.step, htodo, hpop, ok_bind]
        rfl
      cases nodes with
      | nil => exact absurd (hintact.represents.nodes_nil_iff.mp rfl) (List.cons_ne_nil _ _)
      | cons node nodes =>
          have hvalue := hintact.represents.values
          rw [List.map_cons, List.map_cons, List.cons_eq_cons] at hvalue
          obtain ⟨final, hrun, hrest, hhead, hfinal, hfreed⟩ :=
            ih hafter (by rw [hcalls, htodo])
          refine ⟨final, ?_, hrest, hhead, ?_, ?_⟩
          · rw [List.length_cons, List.replicate_succ, tryRun_cons_of_ok hstep]
            exact hrun
          · rw [hfinal, hpopped, List.map_cons, hvalue.1, List.append_assoc world.popped]
            rfl
          · intro address
            rw [hfreed, hmemory]
            rw [List.map_cons, List.head?_cons, List.tail_cons, ← ite_or]
            apply if_congr _ rfl rfl
            rw [List.mem_cons, Option.some_inj, or_comm, eq_comm]

/-- What holds of the queue whenever no critical section is being executed. -/
structure Fifo (world : World Thread Value) : Prop where
  /-- The values returned so far are the first ones pushed. -/
  returned : world.popped.reduceOption <+: world.pushed
  /-- `pop` finds an empty queue when all values pushed have been returned. -/
  pop_null_iff : ∃ value after, pop world.queue = .ok (value, after) ∧
    (value = none ↔ world.popped.reduceOption = world.pushed)
  /-- The elements from `head` on are distinct, and `tail` is the last of them. -/
  chain : ∃ nodes, Linked StsElement.next world.queue.memory world.queue.header.head nodes ∧
    (nodes.map Prod.fst).Nodup ∧
    (nodes ≠ [] → world.queue.header.tail = (nodes.map Prod.fst).getLast?)
  /-- No element that is not freed links to one that is. -/
  links : ∀ address cell target, world.queue.memory.cell? address = some cell →
    cell.next = some target → world.queue.memory.cell? target ≠ none
  /-- `destroy` returns only from an empty queue, also with others in between. -/
  destroyed : ∀ thread rest after, world.todo thread = .destroy :: rest →
    step world thread = .ok after → after.todo thread = rest →
    after.queue.header.head = none ∧ after.popped.reduceOption = after.pushed
  /-- Left alone, `destroy` returns, having removed each element once. -/
  destroy : ∀ thread rest, world.todo thread = .destroy :: rest →
    ∃ nodes after, Linked StsElement.next world.queue.memory world.queue.header.head nodes ∧
      tryRun step world (List.replicate (nodes.length + 1) thread) = .ok after ∧
      after.todo thread = rest ∧ after.queue.header.head = none ∧
      after.popped = world.popped ++ nodes.map (fun node => node.2.value) ++ [none] ∧
      ∀ address, after.queue.memory.cell? address =
        if address ∈ nodes.map Prod.fst then none else world.queue.memory.cell? address

omit [DecidableEq Thread] in
theorem Intact.returned_eq_iff (hintact : Intact world nodes waiting) :
    world.popped.reduceOption = world.pushed ↔ waiting = [] := by
  rw [hintact.history, List.self_eq_append_right]

omit [DecidableEq Thread] in
theorem Intact.links (hintact : Intact world nodes waiting) {address target : Address}
    {cell : StsElement Value} (hcell : world.queue.memory.cell? address = some cell)
    (hnext : cell.next = some target) : world.queue.memory.cell? target ≠ none := by
  have hlive : world.queue.memory.cell? address ≠ none := by
    rw [hcell]
    exact Option.some_ne_none _
  rcases hintact.live address hlive with hmem | ⟨thread, helement⟩
  · obtain ⟨node, hnode, rfl⟩ := List.mem_map.mp hmem
    rw [hintact.represents.linked.cell? node hnode] at hcell
    cases hcell
    exact hintact.live_of_mem target (hintact.represents.linked.mem_of_next hnode hnext)
  · -- an element that waits for the lock links to nothing yet
    obtain ⟨-, elem, rest, -, hheld⟩ := hintact.held thread address helement
    rw [hheld] at hcell
    cases hcell
    contradiction

theorem Intact.destroyed (hintact : Intact world nodes waiting) {thread : Thread}
    {rest : List (Call Value)} {after : World Thread Value}
    (htodo : world.todo thread = .destroy :: rest)
    (hstep : StsQueue.step world thread = .ok after) (hrest : after.todo thread = rest) :
    after.queue.header.head = none ∧ after.popped.reduceOption = after.pushed := by
  obtain ⟨popped, hpop, hpopped, hcalls, -⟩ := hintact.pop
  simp only [StsQueue.step, htodo, hpop, ok_bind] at hstep
  cases waiting with
  | nil =>
      cases hstep
      exact ⟨hpopped.represents.linked.eq_nil_iff.mp (hpopped.represents.nodes_nil_iff.mpr rfl),
        hpopped.returned_eq_iff.mpr rfl⟩
  | cons first waiting =>
      -- a value was popped, so the loop goes on
      cases hstep
      rw [List.head?_cons, Option.isSome_some, if_pos rfl, hcalls, htodo] at hrest
      exact absurd hrest (List.cons_ne_self _ _)

theorem Intact.fifo (hintact : Intact world nodes waiting) : Fifo world where
  returned := ⟨waiting, hintact.history.symm⟩
  pop_null_iff := by
    rw [hintact.returned_eq_iff]
    cases waiting with
    | nil => exact ⟨none, _, pop_of_represents_nil hintact.represents, by simp⟩
    | cons first waiting =>
        obtain ⟨-, -, after, -, -, hpop, -⟩ := pop_of_represents_cons hintact.represents
        exact ⟨some first, after, hpop, by simp⟩
  chain := ⟨nodes, hintact.represents.linked, hintact.represents.nodup, hintact.represents.tail⟩
  links _ _ _ := hintact.links
  destroyed _ _ _ := hintact.destroyed
  destroy _ _ htodo := by
    obtain ⟨after, hafter⟩ := hintact.destroy htodo
    exact ⟨nodes, after, hintact.represents.linked, hafter⟩

/-- Whatever the threads call and however their steps interleave, no freed
element is used and the queue is first in, first out. -/
theorem run_fifo (programs : Thread → List (Call Value)) (schedule : List Thread) :
    ∃ world, tryRun step (World.start programs) schedule = .ok world ∧ Fifo world := by
  have hkeep : ∀ (world : World Thread Value) thread,
      (∃ nodes waiting, Intact world nodes waiting) →
        ∃ after, step world thread = .ok after ∧ ∃ nodes waiting, Intact after nodes waiting := by
    rintro world thread ⟨nodes, waiting, hintact⟩
    exact hintact.step thread
  obtain ⟨world, hrun, nodes, waiting, hintact⟩ :=
    inv_tryRun hkeep ⟨[], [], intact_start programs⟩ schedule
  exact ⟨world, hrun, hintact.fifo⟩

end CcCvStore.StsQueue
