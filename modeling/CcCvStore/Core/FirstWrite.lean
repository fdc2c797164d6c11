import CcCvStore.Core.WriteHistory

/-!
# Maps that keep the first write

What a key maps to after a history of writes when a `put` of a present key
changes nothing: the value of the first `put` since the key was erased.  As in
`WriteHistory`, a history lists the newest write first.
-/

namespace CcCvStore.WriteHistory

variable {Key Value : Type*}

/-- What the write leaves its key with, where it had `before`. -/
def Write.keeping : Write Key Value → Option Value → Option Value
  | put _ value, before => before.or (some value)
  | erase _, _ => none

variable [DecidableEq Key]

def kept : List (Write Key Value) → Key → Option Value
  | [], _ => none
  | write :: older, key =>
      if key = write.key then write.keeping (kept older key) else kept older key

theorem kept_put (key : Key) (value : Value) (older : List (Write Key Value)) (other : Key) :
    kept (.put key value :: older) other =
      if other = key then (kept older other).or (some value) else kept older other := rfl

theorem kept_erase (key : Key) (older : List (Write Key Value)) (other : Key) :
    kept (.erase key :: older) other = if other = key then none else kept older other := rfl

/-- A `put` of a present key changes no key. -/
theorem kept_put_present {key : Key} {older : List (Write Key Value)} {present : Value}
    (hpresent : kept older key = some present) (value : Value) :
    kept (.put key value :: older) = kept older := by
  funext other
  rw [kept_put]
  split
  next hself => rw [hself, hpresent, Option.some_or]
  next => rfl

/-- What is kept was put when the key was absent, and not erased since. -/
theorem kept_eq_some_iff {history : List (Write Key Value)} {key : Key} {value : Value} :
    kept history key = some value ↔
      ∃ newer older, history = newer ++ .put key value :: older ∧
        kept older key = none ∧ .erase key ∉ newer := by
  constructor
  · intro hkept
    induction history with
    | nil => contradiction
    | cons write older ih =>
        have hlater : kept older key = some value → write ≠ .erase key →
            ∃ newer before, write :: older = newer ++ .put key value :: before ∧
              kept before key = none ∧ .erase key ∉ newer := by
          intro hkept hwrite
          obtain ⟨newer, before, rfl, hbefore, hnewer⟩ := ih hkept
          refine ⟨write :: newer, before, rfl, hbefore, ?_⟩
          exact List.not_mem_cons_of_ne_of_not_mem hwrite.symm hnewer
        cases write with
        | erase erased =>
            rw [kept_erase] at hkept
            split at hkept
            next => contradiction
            next hother => exact hlater hkept fun heq => hother (Write.erase.inj heq).symm
        | put added content =>
            rw [kept_put] at hkept
            split at hkept
            next hself =>
              subst hself
              cases hbefore : kept older key with
              | none =>
                  rw [hbefore, Option.none_or, Option.some.injEq] at hkept
                  subst hkept
                  exact ⟨[], older, rfl, hbefore, List.not_mem_nil⟩
              | some present =>
                  rw [hbefore, Option.some_or] at hkept
                  exact hlater (hbefore.trans hkept) nofun
            next => exact hlater hkept nofun
  · rintro ⟨newer, older, rfl, hbefore, hnewer⟩
    induction newer with
    | nil => rw [List.nil_append, kept_put, if_pos rfl, hbefore, Option.none_or]
    | cons write newer ih =>
        obtain ⟨hwrite, hnewer⟩ := List.ne_and_not_mem_of_not_mem_cons hnewer
        have hkept := ih hnewer
        cases write with
        | erase erased =>
            rw [List.cons_append, kept_erase, if_neg (fun heq => hwrite (congrArg _ heq)), hkept]
        | put added content =>
            rw [List.cons_append, kept_put, hkept, Option.some_or, ite_self]

theorem mem_of_kept {history : List (Write Key Value)} {key : Key} {value : Value}
    (hkept : kept history key = some value) : .put key value ∈ history := by
  obtain ⟨newer, older, rfl, -, -⟩ := kept_eq_some_iff.mp hkept
  exact List.mem_append_right _ List.mem_cons_self

end CcCvStore.WriteHistory
