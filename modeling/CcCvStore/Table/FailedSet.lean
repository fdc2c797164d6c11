import CcCvStore.Table.FiniteMap

/-!
# A set that fails

`ht_set` fails when the table cannot grow or the key cannot be copied, the
latter possibly after a growth.  The table is then as it was or grown, with the
same entries; and a grown table does all that the table would have done.
-/

namespace CcCvStore.FailedSet

open CcCvStore.Runs
open CcCvStore.WriteHistory
open CcCvStore.CString
open CcCvStore.Probing
open CcCvStore.HashTable
open CcCvStore.Probes
open CcCvStore.FiniteMap

variable {Value : Type} {hash : List Byte → UInt64}

/-- Which calls of a run succeed. -/
def outcomes (hash : List Byte → UInt64) : State Value → List (SetCall Value) → List Bool
  | _, [] => []
  | state, call :: rest =>
      decide (Succeeds hash state call) :: outcomes hash (setStep hash state call) rest

/-- After the call the table is as if it had not been made: now, and after any
further sets that succeed alike; and further sets that would have succeeded
still do. -/
structure Unnoticed (hash : List Byte → UInt64) (before after : State Value) : Prop where
  get : ∀ env key, htGet hash env after key = htGet hash env before key
  length : htLength after.table = htLength before.table
  entries : (contents after.table.entries).Perm (contents before.table.entries)
  strings : after.strings = before.strings
  sound : Sound hash after
  later : ∀ first second : List (SetCall Value),
    first.map SetCall.write = second.map SetCall.write →
    outcomes hash before first = outcomes hash after second →
    (∀ env key, htGet hash env (run (setStep hash) after second) key =
        htGet hash env (run (setStep hash) before first) key) ∧
      htLength (run (setStep hash) after second).table =
        htLength (run (setStep hash) before first).table
  later_succeeds : ∀ calls, EachStep (setStep hash) (Succeeds hash) before calls →
    EachStep (setStep hash) (Succeeds hash) after calls

/-! ## The same history -/

variable {before after : State Value} {history : List (Write (List Byte) Value)}

theorem written_congr {first second : List (SetCall Value)}
    (hwrites : first.map SetCall.write = second.map SetCall.write)
    (houtcomes : outcomes hash before first = outcomes hash after second) :
    written hash before first history = written hash after second history := by
  induction first generalizing before after second history with
  | nil =>
      cases second with
      | nil => rfl
      | cons call rest => contradiction
  | cons call rest ih =>
      cases second with
      | nil => contradiction
      | cons other others =>
          rw [List.map_cons, List.map_cons, List.cons.injEq] at hwrites
          rw [outcomes, outcomes, List.cons.injEq, decide_eq_decide] at houtcomes
          rw [written, written, ih hwrites.2 houtcomes.2, hwrites.1]
          simp only [houtcomes.1]

theorem length_eq_of_refines (hbefore : Refines hash before history)
    (hafter : Refines hash after history) : htLength after.table = htLength before.table := by
  have hkeys : ((pairs after).map Prod.fst).Perm ((pairs before).map Prod.fst) := by
    rw [List.perm_ext_iff_of_nodup hafter.nodup_keys hbefore.nodup_keys]
    intro key
    rw [hafter.mem_keys_iff, hbefore.mem_keys_iff]
  calc htLength after.table = ((pairs after).map Prod.fst).length := by
        rw [List.length_map, hafter.length_pairs]
    _ = ((pairs before).map Prod.fst).length := hkeys.length_eq
    _ = htLength before.table := by rw [List.length_map, hbefore.length_pairs]

/-! ## Ahead of the other table -/

/-- In the grown table an entry is set wherever it is set in the other. -/
theorem htSetEntry_ahead (hbefore : Sound hash before) (hafter : Sound hash after)
    (hsame : SameContents before after) {env : Env} {key : List Byte} {value : Value} {addr : Addr}
    {next : State Value} (hset : htSetEntry hash env before key value = .ok (some addr, next)) :
    ∃ ahead, htSetEntry hash env after key value = .ok (some addr, ahead) ∧
      SameContents next ahead := by
  have hstrings := hsame.strings_eq
  have hcapacity := hsame.capacity_le
  by_cases hmem : ∃ entry ∈ contents before.table.entries, keyText before.strings entry = key
  · obtain ⟨entry, hentry, hkey⟩ := hmem
    obtain ⟨index, hfind, hslot⟩ := hbefore.findSlot_of_mem env hentry hkey
    obtain ⟨place, hfind', hslot'⟩ := hafter.findSlot_of_mem env
      (hsame.perm.mem_iff.mpr hentry) (hstrings ▸ hkey)
    rw [htSetEntry_of_found hfind] at hset
    cases hset
    refine ⟨_, htSetEntry_of_found hfind' value, hstrings, hsame.length_eq, ?_,
      perm_contents_set hsame.perm hslot hslot' _⟩
    simpa only [Ht.capacity, List.length_set] using hcapacity
  · have hnew : ∀ entry ∈ contents before.table.entries, keyText before.strings entry ≠ key :=
      fun entry hentry hkey => hmem ⟨entry, hentry, hkey⟩
    have hnew' : ∀ entry ∈ contents after.table.entries, keyText after.strings entry ≠ key := by
      intro entry hentry
      rw [hstrings]
      exact hnew entry (hsame.perm.mem_iff.mp hentry)
    obtain ⟨steps, hfind, hslot, -⟩ := hbefore.findSlot_of_notMem env hnew
    obtain ⟨steps', hfind', hslot', -⟩ := hafter.findSlot_of_notMem env hnew'
    cases hdup : duplicate before.strings env.strdup key with
    | none =>
        rw [htSetEntry_of_no_memory hfind hdup] at hset
        cases hset
    | some copied =>
        rw [htSetEntry_of_empty hfind hdup] at hset
        cases hset
        rw [← hstrings] at hdup
        refine ⟨_, htSetEntry_of_empty hfind' hdup value, rfl, ?_, ?_, ?_⟩
        · exact congrArg (fun length => sizeResult (length + 1)) hsame.length_eq
        · simpa only [Ht.capacity, List.length_set] using hcapacity
        · exact (contents_set_empty hslot' _).trans
            ((hsame.perm.cons _).trans (contents_set_empty hslot _).symm)

theorem htSet_ahead (hbefore : Sound hash before) (hafter : Sound hash after)
    (hsame : SameContents before after) {env : Env} {key : List Byte} {value : Value} {addr : Addr}
    {next : State Value} (hset : htSet hash env before key (some value) = .ok (some addr, next)) :
    ∃ ahead, htSet hash env after key (some value) = .ok (some addr, ahead) ∧
      SameContents next ahead := by
  have hlengthEq := hsame.length_eq
  have hcapacity := hsame.capacity_le
  have hhalf := hbefore.half_mul_two
  have hhalf' := hafter.half_mul_two
  by_cases hlength : before.table.length < before.table.capacity / 2
  · rw [htSet_of_lt hlength] at hset
    rw [htSet_of_lt (by omega)]
    exact htSetEntry_ahead hbefore hafter hsame hset
  · have hfull := Nat.le_of_not_lt hlength
    by_cases hgrows : Grows env before.table.capacity
    · obtain ⟨grown, hok, hgrownSame, hexpanded, hgrown⟩ := hbefore.exists_htExpand_eq hgrows
      rw [htSet_of_expand hfull hok, if_pos rfl] at hset
      have hdouble := hexpanded.capacity_eq
      by_cases hroom : after.table.length < after.table.capacity / 2
      · have hlarger := hbefore.toBounded.double_le hafter.toBounded (by omega)
        rw [htSet_of_lt hroom]
        refine htSetEntry_ahead hgrown hafter ⟨?_, ?_, ?_, ?_⟩ hset
        · rw [hsame.strings_eq, hgrownSame.strings_eq]
        · rw [hsame.length_eq, hgrownSame.length_eq]
        · omega
        · exact hsame.perm.trans hgrownSame.perm.symm
      · have hload := hbefore.load
        have hequal : after.table.capacity = before.table.capacity := by omega
        obtain ⟨grown', hok', hgrownSame', hexpanded', hgrown'⟩ :=
          hafter.exists_htExpand_eq (hequal.symm ▸ hgrows)
        have hdouble' := hexpanded'.capacity_eq
        rw [htSet_of_expand (Nat.le_of_not_lt hroom) hok', if_pos rfl]
        refine htSetEntry_ahead hgrown hgrown' ⟨?_, ?_, ?_, ?_⟩ hset
        · rw [hgrownSame'.strings_eq, hsame.strings_eq, hgrownSame.strings_eq]
        · rw [hgrownSame'.length_eq, hsame.length_eq, hgrownSame.length_eq]
        · omega
        · exact hgrownSame'.perm.trans (hsame.perm.trans hgrownSame.perm.symm)
    · rw [htSet_of_expand hfull (htExpand_of_not_grows hgrows)] at hset
      cases hset

theorem sound_setStep {state : State Value} (hsound : Sound hash state) (call : SetCall Value) :
    Sound hash (setStep hash state call) := by
  rcases hsound.setStep_cases call with ⟨-, hafter, -⟩ | ⟨-, hafter, -⟩
  · exact hafter
  · exact hafter

theorem succeeds_ahead (hbefore : Sound hash before) (hafter : Sound hash after)
    (hsame : SameContents before after) {calls : List (SetCall Value)}
    (hsucceeds : EachStep (setStep hash) (Succeeds hash) before calls) :
    EachStep (setStep hash) (Succeeds hash) after calls := by
  induction calls generalizing before after with
  | nil => trivial
  | cons call rest ih =>
      obtain ⟨addr, hret⟩ := Option.ne_none_iff_exists'.mp hsucceeds.1
      have hsound := (hbefore.htSet_cases call.env call.key call.value)
      rcases hsound with ⟨next, hset, -, -⟩ | ⟨addr', next, hset, hnext, -⟩
      · rw [(setStep_of_htSet hset).2] at hret
        contradiction
      · obtain ⟨ahead, hset', hsame'⟩ := htSet_ahead hbefore hafter hsame hset
        obtain ⟨hstep, -⟩ := setStep_of_htSet hset
        obtain ⟨hstep', hret'⟩ := setStep_of_htSet hset'
        have hahead : Sound hash ahead := hstep' ▸ sound_setStep hafter call
        refine ⟨?_, ?_⟩
        · rw [Succeeds, hret']
          exact Option.some_ne_none addr'
        · have hrest := hsucceeds.2
          rw [hstep] at hrest
          rw [hstep']
          exact ih hnext hahead hsame' hrest

/-! ## Failed sets -/

/-- After any run of sets, a set that fails for want of memory or capacity goes
unnoticed. -/
theorem failed_set_unnoticed (hash : List Byte → UInt64) (calls : List (SetCall Value))
    (call : SetCall Value)
    (hfails : ¬Succeeds hash (run (setStep hash) created calls) call) :
    Unnoticed hash (run (setStep hash) created calls)
      (setStep hash (run (setStep hash) created calls) call) := by
  have hbefore := (refines_created hash).run calls
  generalize run (setStep hash) created calls = before at hfails hbefore ⊢
  generalize written hash created calls [] = history at hbefore
  rcases hbefore.setStep_cases call with ⟨-, hsound, hsame⟩ | ⟨hsucceeds, -, -⟩
  · have hafter := hbefore.of_sameContents hsound hsame
    exact {
      get := fun env key => (hafter.htGet_eq env key).trans (hbefore.htGet_eq env key).symm
      length := hsame.length_eq
      entries := hsame.perm
      strings := hsame.strings_eq
      sound := hsound
      later := by
        intro first second hwrites houtcomes
        have hfirst := hbefore.run first
        have hsecond := hafter.run second
        rw [← written_congr hwrites houtcomes] at hsecond
        exact ⟨fun env key => (hsecond.htGet_eq env key).trans (hfirst.htGet_eq env key).symm,
          length_eq_of_refines hfirst hsecond⟩
      later_succeeds := fun later hlater =>
        succeeds_ahead hbefore.toSound hsound hsame hlater }
  · exact absurd hsucceeds hfails

/-- The ninth key: the table grows, and then the key cannot be copied. -/
theorem failed_set_unnoticed_grown :
    let env (copy : Option Addr) : Env := ⟨true, copy, fun _ _ => [], fun _ _ _ => []⟩
    let calls : List (SetCall Nat) :=
      (List.range 8).map fun i => ⟨[UInt8.ofNat (i + 97)], i, env (some i)⟩
    let before := run (setStep hashKey) created calls
    Unnoticed hashKey before (setStep hashKey before ⟨[107], 9, env none⟩) := by
  intro env calls before
  exact failed_set_unnoticed hashKey calls _ (by decide +kernel)

end CcCvStore.FailedSet
