import Mathlib.Tactic.Common

/-!
# Computations that may stop at a fault

A C function either returns or does something the language leaves undefined.
`Exec` threads a state through such a computation and keeps the state reached
when it stops, so that what happened before a fault can still be stated.
-/

namespace CcCvStore.Effect

variable {Fault State Part Value Next : Type}

@[simp]
theorem ok_bind (value : Value) (next : Value → Except Fault Next) :
    (Except.ok value >>= next) = next value := rfl

@[simp]
theorem error_bind (fault : Fault) (next : Value → Except Fault Next) :
    ((Except.error fault : Except Fault Value) >>= next) = .error fault := rfl

/-- What ends well has begun well. -/
theorem exists_of_bind_eq_ok {result : Except Fault Value} {next : Value → Except Fault Next}
    {last : Next} (hbind : (result >>= next) = .ok last) :
    ∃ value, result = .ok value ∧ next value = .ok last := by
  cases result with
  | error fault => contradiction
  | ok value => exact ⟨value, rfl, hbind⟩

theorem mapM_of_forall₂ {visit : Value → Except Fault Next} {values : List Value}
    {results : List Next}
    (hvisit : List.Forall₂ (fun value result => visit value = .ok result) values results) :
    values.mapM visit = .ok results := by
  induction hvisit with
  | nil => rfl
  | cons hvalue _ ih =>
      rw [List.mapM_cons, hvalue, ok_bind, ih, ok_bind]
      rfl

/-- A stateful computation that ends with a value or at a fault. -/
def Exec (Fault State Value : Type) : Type :=
  State → Except Fault Value × State

instance : Monad (Exec Fault State) where
  pure value := fun state => (.ok value, state)
  bind run next := fun state =>
    match run state with
    | (.ok value, after) => next value after
    | (.error fault, after) => (.error fault, after)

/-- A computation without state of its own. -/
def lift (result : Except Fault Value) : Exec Fault State Value :=
  fun state => (result, state)

instance : MonadLift (Except Fault) (Exec Fault State) where
  monadLift := lift

def readState : Exec Fault State State := fun state => (.ok state, state)

def modifyState (change : State → State) : Exec Fault State Unit :=
  fun state => (.ok (), change state)

/-- Run a computation on one part of a larger state. -/
def onPart (view : State → Part) (update : Part → State → State)
    (run : Exec Fault Part Value) : Exec Fault State Value :=
  fun state => ((run (view state)).1, update (run (view state)).2 state)

@[simp]
theorem pure_apply (value : Value) (state : State) :
    (pure value : Exec Fault State Value) state = (.ok value, state) := rfl

@[simp]
theorem liftM_apply (result : Except Fault Value) (state : State) :
    (liftM result : Exec Fault State Value) state = (result, state) := rfl

@[simp]
theorem readState_apply (state : State) :
    (readState : Exec Fault State State) state = (.ok state, state) := rfl

@[simp]
theorem modifyState_apply (change : State → State) (state : State) :
    (modifyState change : Exec Fault State Unit) state =
      (.ok (), change state) := rfl

@[simp]
theorem onPart_apply (view : State → Part) (update : Part → State → State)
    (run : Exec Fault Part Value) (state : State) :
    onPart view update run state =
      ((run (view state)).1, update (run (view state)).2 state) := rfl

theorem bind_apply (run : Exec Fault State Value)
    (next : Value → Exec Fault State Next) (state : State) :
    (run >>= next) state =
      match run state with
      | (.ok value, after) => next value after
      | (.error fault, after) => (.error fault, after) := rfl

/-- A computation that returned hands its value and state to the rest. -/
theorem bind_of_ok {run : Exec Fault State Value}
    {next : Value → Exec Fault State Next} {state after : State} {value : Value}
    (hrun : run state = (.ok value, after)) :
    (run >>= next) state = next value after := by
  rw [bind_apply, hrun]

/-- A computation that stopped skips the rest. -/
theorem bind_of_error {run : Exec Fault State Value}
    {next : Value → Exec Fault State Next} {state after : State} {fault : Fault}
    (hrun : run state = (.error fault, after)) :
    (run >>= next) state = (.error fault, after) := by
  rw [bind_apply, hrun]

/-! ## Invariants of a computation -/

/-- A computation that leaves an invariant intact wherever it stops. -/
def Preserves (Inv : State → Prop) (run : Exec Fault State Value) : Prop :=
  ∀ state, Inv state → Inv (run state).2

variable {Inv : State → Prop}

theorem preserves_pure (value : Value) :
    Preserves Inv (pure value : Exec Fault State Value) := fun _ hinv => hinv

theorem preserves_liftM (result : Except Fault Value) :
    Preserves Inv (liftM result : Exec Fault State Value) := fun _ hinv => hinv

theorem preserves_modifyState {change : State → State}
    (hchange : ∀ state, Inv state → Inv (change state)) :
    Preserves Inv (modifyState change : Exec Fault State Unit) := hchange

theorem preserves_bind {run : Exec Fault State Value} {next : Value → Exec Fault State Next}
    (hrun : Preserves Inv run) (hnext : ∀ value, Preserves Inv (next value)) :
    Preserves Inv (run >>= next) := by
  intro state hinv
  have hafter := hrun state hinv
  rw [bind_apply]
  rcases hresult : run state with ⟨result, after⟩
  rw [hresult] at hafter
  cases result with
  | ok value => exact hnext value after hafter
  | error fault => exact hafter

/-- A computation that stops at no other faults than these. -/
def FaultsIn (allowed : Fault → Prop) (run : Exec Fault State Value) : Prop :=
  ∀ state fault, (run state).1 = .error fault → allowed fault

variable {allowed : Fault → Prop}

theorem faultsIn_pure (value : Value) :
    FaultsIn allowed (pure value : Exec Fault State Value) := by
  intro state fault hfault
  contradiction

theorem faultsIn_liftM {result : Except Fault Value}
    (hresult : ∀ fault, result = .error fault → allowed fault) :
    FaultsIn allowed (liftM result : Exec Fault State Value) := fun _ => hresult

theorem faultsIn_modifyState (change : State → State) :
    FaultsIn allowed (modifyState change : Exec Fault State Unit) := by
  intro state fault hfault
  contradiction

theorem faultsIn_bind {run : Exec Fault State Value} {next : Value → Exec Fault State Next}
    (hrun : FaultsIn allowed run) (hnext : ∀ value, FaultsIn allowed (next value)) :
    FaultsIn allowed (run >>= next) := by
  intro state fault hfault
  rw [bind_apply] at hfault
  rcases hresult : run state with ⟨result, after⟩
  rw [hresult] at hfault
  cases result with
  | ok value => exact hnext value after fault hfault
  | error stopped =>
      cases hfault
      exact hrun state fault (congrArg Prod.fst hresult)

end CcCvStore.Effect
