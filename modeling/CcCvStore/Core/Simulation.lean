import CcCvStore.Core.Effect

/-!
# One computation simulated by another

Two computations with states of their own are run side by side.  They both
return, and then the values and states are related, or they both stop, at
related faults.  The rules follow the way the computations are put together.
-/

namespace CcCvStore.Simulation

open CcCvStore.Effect

variable {Fault Refused State Abstract Value Result Next Later : Type}

/-- `run` does with `state` what `plain` does with `abstract`. -/
def Simulates (RelFault : Fault → Refused → Prop)
    (Post : Value → State → Result → Abstract → Prop) (run : Exec Fault State Value)
    (plain : Exec Refused Abstract Result) (state : State) (abstract : Abstract) : Prop :=
  match run state, plain abstract with
  | (.ok value, after), (.ok result, reached) => Post value after result reached
  | (.error fault, _), (.error refused, _) => RelFault fault refused
  | _, _ => False

variable {RelFault : Fault → Refused → Prop} {Post : Value → State → Result → Abstract → Prop}
  {run : Exec Fault State Value} {plain : Exec Refused Abstract Result}
  {next : Value → Exec Fault State Next} {later : Result → Exec Refused Abstract Later}
  {state : State} {abstract : Abstract}

/-- What the first parts end with is where the rest goes on. -/
theorem Simulates.bind {Mid : Value → State → Result → Abstract → Prop}
    {After : Next → State → Later → Abstract → Prop}
    (hrun : Simulates RelFault Mid run plain state abstract)
    (hnext : ∀ value after result reached, plain abstract = (.ok result, reached) →
      Mid value after result reached →
      Simulates RelFault After (next value) (later result) after reached) :
    Simulates RelFault After (run >>= next) (plain >>= later) state abstract := by
  unfold Simulates at hrun ⊢
  rw [bind_apply, bind_apply]
  rcases hleft : run state with ⟨fault | value, after⟩ <;>
    rcases hright : plain abstract with ⟨refused | result, reached⟩ <;>
    rw [hleft, hright] at hrun
  · exact hrun
  · exact hrun.elim
  · exact hrun.elim
  · exact hnext _ _ _ _ hright hrun

/-- A step that only the first computation makes. -/
theorem Simulates.bind_left {Post : Next → State → Result → Abstract → Prop} {value : Value}
    {after : State} (hrun : run state = (.ok value, after))
    (hnext : Simulates RelFault Post (next value) plain after abstract) :
    Simulates RelFault Post (run >>= next) plain state abstract := by
  unfold Simulates at hnext ⊢
  rwa [bind_of_ok hrun]

theorem Simulates.mono {Weaker : Value → State → Result → Abstract → Prop}
    (hrun : Simulates RelFault Post run plain state abstract)
    (hweaker : ∀ value after result reached, Post value after result reached →
      Weaker value after result reached) :
    Simulates RelFault Weaker run plain state abstract := by
  unfold Simulates at hrun ⊢
  revert hrun
  rcases run state with ⟨fault | value, after⟩ <;>
    rcases plain abstract with ⟨refused | result, reached⟩
  · exact id
  · exact id
  · exact id
  · exact hweaker _ _ _ _

/-- A step of the first computation that ends like another one. -/
theorem Simulates.bind_congr {Post : Next → State → Result → Abstract → Prop}
    {other : Exec Fault State Value} (hsame : run state = other state)
    (hother : Simulates RelFault Post (other >>= next) plain state abstract) :
    Simulates RelFault Post (run >>= next) plain state abstract := by
  unfold Simulates at hother ⊢
  rw [bind_apply] at hother ⊢
  rwa [hsame]

/-- A step that only the first computation makes at the end. -/
theorem Simulates.then_left {Mid : Value → State → Result → Abstract → Prop}
    {Post : Next → State → Result → Abstract → Prop}
    (hrun : Simulates RelFault Mid run plain state abstract)
    (hnext : ∀ value after result reached, plain abstract = (.ok result, reached) →
      Mid value after result reached →
      ∃ last final, next value after = (.ok last, final) ∧ Post last final result reached) :
    Simulates RelFault Post (run >>= next) plain state abstract := by
  unfold Simulates at hrun ⊢
  rw [bind_apply]
  rcases hleft : run state with ⟨fault | value, after⟩ <;>
    rcases hright : plain abstract with ⟨refused | result, reached⟩ <;>
    rw [hleft, hright] at hrun
  · exact hrun
  · exact hrun.elim
  · exact hrun.elim
  · obtain ⟨last, final, hlast, hpost⟩ := hnext _ _ _ _ hright hrun
    dsimp only
    rw [hlast]
    exact hpost

end CcCvStore.Simulation
