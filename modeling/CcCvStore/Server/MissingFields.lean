import CcCvStore.Server.Requests

/-!
# Messages with missing fields

A message can lack its key or its data in many ways.  Only a `SET` without data
is caught, by the test in `route_set`; every other route takes the length of
its key without looking at it.
-/

namespace CcCvStore.MissingFields

open CcCvStore.CInteger
open CcCvStore.CString
open CcCvStore.Message
open CcCvStore.Backend
open CcCvStore.StoreEffects
open CcCvStore.Router
open CcCvStore.Requests

/-- A known command without its key, or a `SET` without its data. -/
def FieldMissing (task : Task) : Prop :=
  (task.key = none ∧ (task.cmd = cmdSet ∨ task.cmd = cmdGet ∨ task.cmd = cmdDelete)) ∨
    (task.data = none ∧ task.cmd = cmdSet)

/-- The router gets to a reply, and answers `0` with the store unchanged when a
field is missing. -/
def Copes (env : Env) (session : Session) (message : List Byte) : Prop :=
  (∃ buf, (router env (env.heap.received message) session).1 = .ok (some buf)) ∧
    ∀ task, parseClientMsg env.heap (env.heap.received message) = .ok task →
      FieldMissing task →
        Answers (router env (env.heap.received message) session).1 [48] ∧
          (router env (env.heap.received message) session).2.store = session.store

/-- An `int` that was given `size` is not negative. -/
def NotNegative (size : Int) : Prop := size % 4294967296 < 2147483648

/-- The message is parsed without overflow; it is one the router ignores, or it
has a key and the size of its reply does not become negative. -/
def Safe (env : Env) (session : Session) (message : List Byte) : Prop :=
  IndexesFit message ∧ (Ignored message ∨ (keyField message ≠ [] ∧
    (command message = cmdSet ∨ command message = cmdDelete →
      NotNegative ((visibleKey env.heap message).length + 4)) ∧
    (command message = cmdGet →
      match lookupData session.store env.outcomes.select (visibleKey env.heap message) with
      | some data => NotNegative ((visibleKey env.heap message).length +
          (visibleValue env.heap data).length - 2)
      | none => NotNegative ((visibleKey env.heap message).length - 1))))

theorem notNegative_iff (size : Int) : NotNegative size ↔ 0 ≤ toInt size := by
  simp only [NotNegative, toInt]
  omega

/-- A reply buffer can be made exactly when its size is not negative. -/
theorem formatted_ok_iff (heap : Heap) (size : Int) (output : List Byte) :
    (∃ buf, formatted heap (toInt size) output = .ok (some buf)) ↔ NotNegative size := by
  obtain ⟨hmin, hmax⟩ := toInt_range size
  rw [notNegative_iff]
  constructor
  · rintro ⟨buf, hformatted⟩
    by_contra hneg
    rw [formatted_of_neg heap hmin (by omega)] at hformatted
    contradiction
  · intro hsize
    by_cases hzero : toInt size = 0
    · rw [hzero]
      exact ⟨_, formatted_zero heap output⟩
    · obtain ⟨rest, hformatted⟩ := formatted_of_pos heap (by omega : 0 < toInt size) hmax output
      exact ⟨_, hformatted⟩

/-- The answer `0` writes its NUL behind its block of one byte. -/
theorem zeroReply_eq {heap : Heap} (hscan : 0 ∈ heap.beyond .reply) :
    ∃ rest, zeroReply heap = .ok (some ⟨[48], 0 :: rest⟩) := by
  obtain ⟨first, rest, hbeyond⟩ := List.exists_cons_of_ne_nil (List.ne_nil_of_mem hscan)
  refine ⟨rest, ?_⟩
  rw [zeroReply, hbeyond]
  rfl

variable {env : Env} {session : Session} {message : List Byte}

theorem fieldMissing_iff (heap : Heap) (message : List Byte) :
    FieldMissing (parsedTask heap message) ↔
      (keyField message = [] ∧ (command message = cmdSet ∨ command message = cmdGet ∨
        command message = cmdDelete)) ∨ (dataField message = [] ∧ command message = cmdSet) := by
  rw [FieldMissing, key_eq_none_iff, data_eq_none_iff]
  rfl

/-- An ignored message is answered `0`. -/
theorem copes_of_ignored (hscan : env.heap.ScansEnd) (hfit : IndexesFit message)
    (hignored : Ignored message) : Copes env session message := by
  have hnul : 0 ∈ message ++ env.heap.beyond .receive := List.mem_append_right _ (hscan _)
  obtain ⟨rest, hzero⟩ := zeroReply_eq (hscan .reply)
  have hrouter : router env (env.heap.received message) session =
      (.ok (some ⟨[48], 0 :: rest⟩), session) := by
    rw [router_received env hnul hfit, respond_ignored hignored, hzero]
  rw [Copes, hrouter]
  exact ⟨⟨_, rfl⟩, fun task hparse hmissing => ⟨⟨_, rfl, rfl⟩, rfl⟩⟩

/-- Without a key, a message that is acted on stops the router. -/
theorem not_copes_of_key (hscan : env.heap.ScansEnd) (hfit : IndexesFit message)
    (hacted : ¬Ignored message) (hkey : keyField message = []) :
    ¬Copes env session message := by
  rintro ⟨⟨buf, hreply⟩, -⟩
  have hnul : 0 ∈ message ++ env.heap.beyond .receive := List.mem_append_right _ (hscan _)
  have hnone : (parsedTask env.heap message).key.str = .error .nullArgument := by
    rw [(key_eq_none_iff _ _).mpr hkey]
    rfl
  obtain ⟨fault, -, herror⟩ := respond_key_error env (usesKey_of_not_ignored env.heap hacted)
    hnone session
  rw [router_received env hnul hfit, herror] at hreply
  contradiction

/-- With all its fields a message is answered from its reply buffer. -/
theorem copes_iff_formatted (hscan : env.heap.ScansEnd) (hfit : IndexesFit message)
    (hkey : keyField message ≠ []) (hdata : command message = cmdSet → dataField message ≠ [])
    {size : Int} {output : List Byte} {after : Session}
    (hrouter : router env (env.heap.received message) session =
      (formatted env.heap (toInt size) output, after)) :
    Copes env session message ↔ NotNegative size := by
  have hnul : 0 ∈ message ++ env.heap.beyond .receive := List.mem_append_right _ (hscan _)
  have hcomplete : ∀ task, parseClientMsg env.heap (env.heap.received message) = .ok task →
      ¬FieldMissing task := by
    intro task hparse
    rw [parseClientMsg_eq hnul hfit, Except.ok.injEq] at hparse
    rw [← hparse, fieldMissing_iff]
    rintro (⟨hnil, -⟩ | ⟨hnil, hset⟩)
    · exact hkey hnil
    · exact hdata hset hnil
  rw [← formatted_ok_iff env.heap size output, Copes, hrouter]
  constructor
  · exact And.left
  · exact fun hreply => ⟨hreply, fun task hparse hmissing =>
      absurd hmissing (hcomplete task hparse)⟩

/-- The router copes with a message exactly when the message is safe. -/
theorem router_copes_iff (env : Env) (hscan : env.heap.ScansEnd) (message : List Byte)
    (session : Session) : Copes env session message ↔ Safe env session message := by
  have hnul : 0 ∈ message ++ env.heap.beyond .receive := List.mem_append_right _ (hscan _)
  by_cases hfit : IndexesFit message
  · by_cases hignored : Ignored message
    · exact iff_of_true (copes_of_ignored hscan hfit hignored) ⟨hfit, .inl hignored⟩
    by_cases hkey : keyField message = []
    · apply iff_of_false (not_copes_of_key hscan hfit hignored hkey)
      rintro ⟨-, hsafe | ⟨hne, -⟩⟩
      · exact hignored hsafe
      · exact hne hkey
    have hdata : command message = cmdSet → dataField message ≠ [] :=
      fun hcmd hnil => hignored (.inl ⟨hcmd, hnil⟩)
    rw [Safe]
    simp only [hfit, hignored, ne_eq, hkey, not_false_eq_true, true_and, false_or]
    by_cases hset : command message = cmdSet
    · rw [copes_iff_formatted hscan hfit hkey hdata
        (router_set hscan hfit hset hkey (hdata hset) session)]
      simp [hset, cmdSet, cmdGet]
    by_cases hdelete : command message = cmdDelete
    · rw [copes_iff_formatted hscan hfit hkey hdata
        (router_delete hscan hfit hdelete hkey session)]
      simp [hdelete, cmdDelete, cmdGet]
    by_cases hget : command message = cmdGet
    · cases hlookup : lookupData session.store env.outcomes.select
        (visibleKey env.heap message) with
      | none =>
          rw [copes_iff_formatted hscan hfit hkey hdata
            (router_get_none hscan hfit hget hkey hlookup)]
          simp [hget, cmdGet, cmdSet, cmdDelete]
      | some data =>
          rw [copes_iff_formatted hscan hfit hkey hdata
            (router_get_some hscan hfit hget hkey hlookup)]
          simp [hget, cmdGet, cmdSet, cmdDelete]
    · exact absurd (.inr ⟨hset, hget, hdelete⟩) hignored
  · apply iff_of_false
    · rintro ⟨⟨buf, hreply⟩, -⟩
      rw [router_overflow env hnul hfit] at hreply
      contradiction
    · exact fun hsafe => hfit hsafe.1

/-- `1|k` has no data and is answered `0`. -/
theorem router_copes_iff_short :
    Copes ⟨⟨fun _ => [0], fun _ => 0⟩, .ok⟩ ⟨Store.initial, []⟩ [49, 124, 107] :=
  (router_copes_iff _ (fun _ => List.mem_cons_self) _ _).mpr
    ⟨.inr (by decide), .inl (.inl ⟨by decide, by decide⟩)⟩

/-- `2|` has no key, and the router takes its length. -/
theorem get_without_key :
    ¬Copes ⟨⟨fun _ => [0], fun _ => 0⟩, .ok⟩ ⟨Store.initial, []⟩ [50, 124] := by
  rintro ⟨⟨buf, hreply⟩, -⟩
  have hfault : (router ⟨⟨fun _ => [0], fun _ => 0⟩, .ok⟩
      (Heap.received ⟨fun _ => [0], fun _ => 0⟩ [50, 124]) ⟨Store.initial, []⟩).1 =
        .error .nullArgument := by decide +kernel
  rw [hfault] at hreply
  contradiction

end CcCvStore.MissingFields
