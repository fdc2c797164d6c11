import Mathlib.Tactic.Common

/-!
# Runs of a state machine

A run feeds a list of calls to a step function.  Properties of a run are stated
about each call together with the state it is made in, and follow from what a
single step does by the rules below.
-/

namespace CcCvStore.Runs

variable {State Call : Type*} (step : State → Call → State)

/-- The state after a list of calls. -/
def run (start : State) (calls : List Call) : State := calls.foldl step start

/-- `P` holds of every call of the run and the state it is made in. -/
def EachStep (P : State → Call → Prop) : State → List Call → Prop
  | _, [] => True
  | state, call :: rest => P state call ∧ EachStep P (step state call) rest

variable {step} {P Guard Good : State → Call → Prop} {Inv : State → Prop}

@[simp]
theorem eachStep_cons (start : State) (call : Call) (rest : List Call) :
    EachStep step P start (call :: rest) ↔
      P start call ∧ EachStep step P (step start call) rest := Iff.rfl

instance instDecidableEachStep [∀ state call, Decidable (P state call)] (start : State)
    (calls : List Call) : Decidable (EachStep step P start calls) :=
  match calls with
  | [] => isTrue trivial
  | call :: rest =>
      have : Decidable (EachStep step P (step start call) rest) :=
        instDecidableEachStep (step start call) rest
      inferInstanceAs (Decidable (P start call ∧ EachStep step P (step start call) rest))

/-- An invariant that every step keeps holds after every run. -/
theorem inv_run_of_step (hkeep : ∀ state call, Inv state → Inv (step state call)) {start : State}
    (hstart : Inv start) (calls : List Call) : Inv (run step start calls) := by
  induction calls generalizing start with
  | nil => exact hstart
  | cons call rest ih => exact ih (hkeep start call hstart)

/-- What a guarded step does in a state of the invariant holds of each step of
a guarded run. -/
theorem eachStep_of_guard
    (hkeep : ∀ state call, Inv state → Guard state call → Inv (step state call))
    (hgood : ∀ state call, Inv state → Guard state call → Good state call)
    {start : State} (hstart : Inv start) {calls : List Call}
    (hguard : EachStep step Guard start calls) : EachStep step Good start calls := by
  induction calls generalizing start with
  | nil => trivial
  | cons call rest ih =>
      exact ⟨hgood start call hstart hguard.1,
        ih (hkeep start call hstart hguard.1) hguard.2⟩

/-- Where the guard of a step is exactly what makes it good, for calls that are
promised to be valid, a run is good exactly when it is guarded. -/
theorem eachStep_iff_guard_of_valid {Valid : Call → Prop}
    (hkeep : ∀ state call, Valid call → Inv state → Guard state call → Inv (step state call))
    (hexact : ∀ state call, Valid call → Inv state → (Good state call ↔ Guard state call))
    {start : State} (hstart : Inv start) {calls : List Call}
    (hvalid : ∀ call ∈ calls, Valid call) :
    EachStep step Good start calls ↔ EachStep step Guard start calls := by
  induction calls generalizing start with
  | nil => exact Iff.rfl
  | cons call rest ih =>
      rw [List.forall_mem_cons] at hvalid
      rw [eachStep_cons, eachStep_cons, hexact start call hvalid.1 hstart]
      apply and_congr_right
      intro hguard
      exact ih (hkeep start call hvalid.1 hstart hguard) hvalid.2

theorem eachStep_iff_guard
    (hkeep : ∀ state call, Inv state → Guard state call → Inv (step state call))
    (hexact : ∀ state call, Inv state → (Good state call ↔ Guard state call))
    {start : State} (hstart : Inv start) (calls : List Call) :
    EachStep step Good start calls ↔ EachStep step Guard start calls := by
  have hvalid : ∀ call ∈ calls, (fun _ : Call => True) call := fun _ _ => trivial
  exact eachStep_iff_guard_of_valid (fun state call _ => hkeep state call)
    (fun state call _ => hexact state call) hstart hvalid

/-! ## Steps that may stop at a fault -/

section Faults

variable {Fault : Type*} {tryStep : State → Call → Except Fault State}

/-- The state after a list of calls, unless one of them stops. -/
def tryRun (tryStep : State → Call → Except Fault State) :
    State → List Call → Except Fault State
  | state, [] => .ok state
  | state, call :: rest =>
      match tryStep state call with
      | .ok after => tryRun tryStep after rest
      | .error fault => .error fault

theorem tryRun_cons_of_ok {state after : State} {call : Call}
    (hstep : tryStep state call = .ok after) (rest : List Call) :
    tryRun tryStep state (call :: rest) = tryRun tryStep after rest := by
  rw [tryRun, hstep]

theorem exists_of_tryRun_cons {state after : State} {call : Call} {rest : List Call}
    (hrun : tryRun tryStep state (call :: rest) = .ok after) :
    ∃ next, tryStep state call = .ok next ∧ tryRun tryStep next rest = .ok after := by
  rw [tryRun] at hrun
  split at hrun
  next next hstep => exact ⟨next, hstep, hrun⟩
  next => contradiction

/-- Steps that never stop run as those of a machine that cannot. -/
theorem tryRun_of_total (step : State → Call → State) (start : State) (calls : List Call) :
    tryRun (fun state call => (.ok (step state call) : Except Fault State)) start calls =
      .ok (run step start calls) := by
  induction calls generalizing start with
  | nil => rfl
  | cons call rest ih => exact ih (step start call)

/-- Where the invariant lets no step stop, no run does, and it keeps the invariant. -/
theorem inv_tryRun
    (hkeep : ∀ state call, Inv state → ∃ after, tryStep state call = .ok after ∧ Inv after)
    {start : State} (hstart : Inv start) (calls : List Call) :
    ∃ after, tryRun tryStep start calls = .ok after ∧ Inv after := by
  induction calls generalizing start with
  | nil => exact ⟨start, rfl, hstart⟩
  | cons call rest ih =>
      obtain ⟨next, hstep, hnext⟩ := hkeep start call hstart
      rw [tryRun_cons_of_ok hstep]
      exact ih hnext

/-- `P` holds of every call a run gets to and the state it is made in. -/
def EachTry (tryStep : State → Call → Except Fault State) (P : State → Call → Prop) :
    State → List Call → Prop
  | _, [] => True
  | state, call :: rest =>
      P state call ∧ ∀ after ∈ (tryStep state call).toOption, EachTry tryStep P after rest

/-- What holds of every call holds of those a run gets to. -/
theorem EachTry.and_forall {tryStep : State → Call → Except Fault State} {Valid : Call → Prop}
    {start : State} {calls : List Call} (heach : EachTry tryStep P start calls)
    (hvalid : ∀ call ∈ calls, Valid call) :
    EachTry tryStep (fun state call => P state call ∧ Valid call) start calls := by
  induction calls generalizing start with
  | nil => trivial
  | cons call rest ih =>
      rw [List.forall_mem_cons] at hvalid
      exact ⟨⟨heach.1, hvalid.1⟩, fun after hafter => ih (heach.2 after hafter) hvalid.2⟩

instance instDecidableEachTry [∀ state call, Decidable (P state call)] (start : State)
    (calls : List Call) : Decidable (EachTry tryStep P start calls) :=
  match calls with
  | [] => isTrue trivial
  | call :: rest =>
      have : ∀ after, Decidable (EachTry tryStep P after rest) :=
        fun after => instDecidableEachTry after rest
      inferInstanceAs (Decidable (P start call ∧
        ∀ after ∈ (tryStep start call).toOption, EachTry tryStep P after rest))

end Faults

/-! ## Two machines side by side -/

section Simulation

variable {Fault Abstract Refused : Type*} {tryStep : State → Call → Except Fault State}
  {specify : Abstract → Call → Except Refused Abstract} {Rel : State → Abstract → Prop}
  {RelFault : Fault → Refused → Prop}

/-- Both machines go on in related states, or both stop at related faults. -/
def Related (RelFault : Fault → Refused → Prop) (Rel : State → Abstract → Prop) :
    Except Fault State → Except Refused Abstract → Prop
  | .ok state, .ok abstract => Rel state abstract
  | .error fault, .error refused => RelFault fault refused
  | _, _ => False

/-- Steps that keep two machines related keep them related over a run. -/
theorem related_tryRun
    (hstep : ∀ state abstract call, Rel state abstract → Guard state call →
      Related RelFault Rel (tryStep state call) (specify abstract call))
    {start : State} {origin : Abstract} (hstart : Rel start origin) {calls : List Call}
    (hguard : EachTry tryStep Guard start calls) :
    Related RelFault Rel (tryRun tryStep start calls) (tryRun specify origin calls) := by
  induction calls generalizing start origin with
  | nil => exact hstart
  | cons call rest ih =>
      have hrel := hstep start origin call hstart hguard.1
      have hrest := hguard.2
      rw [tryRun, tryRun]
      revert hrel hrest
      cases tryStep start call <;> cases specify origin call
      case ok.ok state abstract => exact fun hrel hrest => ih hrel (hrest state rfl)
      case error.error fault refused => exact fun hrel _ => hrel
      all_goals exact fun hrel _ => hrel.elim

end Simulation

end CcCvStore.Runs
