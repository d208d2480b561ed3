import Sysbench.Scripting.Session

/-!
# Scripting/ErrorCodes — the way of an error code from the driver to the restart loop

For each `db_query` of a script the driver does two operations, `query` and `store_results`, and
either may return any code.  The code of the first comes back as an error of the script, which ends
`event()` and is looked at by the restart loop; the code of the second is dropped on the way
(`sb_lua_db_query`).  Nothing else is assumed of the driver.
-/

namespace Sysbench.Scripting

/-! ## One call of `event()` -/

/-- The codes the driver returns for one `db_query` of the script. -/
structure Codes where
  query : DbError
  storeResults : DbError
  deriving DecidableEq

/-- An operation of the driver, with the code it returned. -/
inductive DriverOp
  | query (code : DbError)
  | storeResults (code : DbError)
  deriving DecidableEq

/-- The code. -/
def DriverOp.code : DriverOp → DbError
  | .query code | .storeResults code => code

/-- `con->db_errno` after `db_query`. -/
def dbErrno : DbError → DbError
  | .reconnected => .restartTransaction
  | code => code

/-- What has been done, and the error it ended with, if it did. -/
abbrev Ended : Type := List DriverOp × Option DbError

/-- `sb_lua_db_query`. -/
def sbLuaDbQueryCodes (c : Codes) : Ended :=
  if c.query = .none then ([.query c.query, .storeResults c.storeResults], none)
  else ([.query c.query], some (dbErrno c.query))

/-- `event()`: an error leaves it. -/
def runEvent : List Codes → Ended
  | [] => ([], none)
  | c :: cs =>
    if (sbLuaDbQueryCodes c).2.isSome then sbLuaDbQueryCodes c
    else ((sbLuaDbQueryCodes c).1 ++ (runEvent cs).1, (runEvent cs).2)

/-! ## The restart loop -/

/-- What `sb_lua_op_execute_request` has done: the attempts it made, and what it returned; as long
as it asks for another attempt, it has not returned. -/
structure RequestRun where
  attempts : List (List Codes)
  returned : Option ℕ

/-- `sb_lua_op_execute_request`, over the codes of the attempts to come. -/
def sbLuaOpExecuteRequest : List (List Codes) → RequestRun
  | [] => ⟨[], none⟩
  | a :: attempts =>
    match (runEvent a).2 with
    | none => ⟨[a], some 0⟩
    | some .restartTransaction =>
      ⟨a :: (sbLuaOpExecuteRequest attempts).attempts, (sbLuaOpExecuteRequest attempts).returned⟩
    | some _ => ⟨[a], some 1⟩

/-- An operation that failed was the last, and an error came of it. -/
def EndsOnError (r : Ended) : Prop :=
  ∀ pre op post, r.1 = pre ++ op :: post → op.code ≠ .none → post = [] ∧ r.2.isSome

/-- **No error is swallowed**: the event is completed only if each operation of the last attempt
succeeded, and an operation that did not was the last of its attempt and ended it with an error. -/
structure NoneSwallowed (attempts : List (List Codes)) : Prop where
  completed : (sbLuaOpExecuteRequest attempts).returned = some 0 →
    ∀ last ∈ (sbLuaOpExecuteRequest attempts).attempts.getLast?,
      ∀ op ∈ (runEvent last).1, op.code = .none
  ends : ∀ a ∈ (sbLuaOpExecuteRequest attempts).attempts, EndsOnError (runEvent a)

/-- The first query that fails asks for a restart. -/
def Restarts (a : List Codes) : Prop :=
  ∃ pre c post, a = pre ++ c :: post ∧ (∀ b ∈ pre, b.query = .none) ∧
    (c.query = .restartTransaction ∨ c.query = .reconnected)

/-- No result that is fetched has an error: not before the first query that fails, in any attempt
that is made. -/
def StoresOk (attempts : List (List Codes)) : Prop :=
  ∀ pre a post, attempts = pre ++ a :: post → (∀ b ∈ pre, Restarts b) →
    ∀ c ∈ a.takeWhile (·.query = .none), c.storeResults = .none

/-! ## One attempt -/

theorem runEvent_ok {c : Codes} (h : c.query = .none) (cs : List Codes) :
    runEvent (c :: cs)
      = (.query .none :: .storeResults c.storeResults :: (runEvent cs).1, (runEvent cs).2) := by
  rw [runEvent, sbLuaDbQueryCodes, if_pos h, h]
  rfl

theorem runEvent_failed {c : Codes} (h : c.query ≠ .none) (cs : List Codes) :
    runEvent (c :: cs) = ([.query c.query], some (dbErrno c.query)) := by
  rw [runEvent, sbLuaDbQueryCodes, if_neg h]
  rfl

theorem endsOnError_nil (e : Option DbError) : EndsOnError ([], e) :=
  fun pre op post h => absurd h (by simp)

theorem endsOnError_cons {op : DriverOp} {ops : List DriverOp} {e : Option DbError} :
    EndsOnError (op :: ops, e) ↔
      (op.code ≠ .none → ops = [] ∧ e.isSome) ∧ EndsOnError (ops, e) := by
  constructor
  · intro h
    refine ⟨h [] op ops rfl, fun pre op' post heq => h (op :: pre) op' post ?_⟩
    rw [List.cons_append, ← heq]
  · rintro ⟨hop, hops⟩ pre op' post heq hcode
    rcases pre with - | ⟨op'', pre⟩
    · obtain ⟨rfl, rfl⟩ := List.cons.inj heq
      exact hop hcode
    · exact hops pre op' post (List.cons.inj heq).2 hcode

/-- An attempt that does nothing ends without an error. -/
theorem runEvent_of_ops_nil : ∀ {a : List Codes}, (runEvent a).1 = [] → (runEvent a).2 = none
  | [], _ => rfl
  | c :: cs, h => by
    by_cases hc : c.query = .none
    · rw [runEvent_ok hc] at h
      exact absurd h (List.cons_ne_nil _ _)
    · rw [runEvent_failed hc] at h
      exact absurd h (List.cons_ne_nil _ _)

/-- **Every error ends the attempt exactly when no fetched result has one.** -/
theorem endsOnError_iff : ∀ a : List Codes,
    EndsOnError (runEvent a) ↔ ∀ c ∈ a.takeWhile (·.query = .none), c.storeResults = .none
  | [] => iff_of_true (endsOnError_nil none) (by simp)
  | c :: cs => by
    by_cases hc : c.query = .none
    · -- The operations of the statement, and then those of the rest.
      have hstore : (c.storeResults ≠ .none → (runEvent cs).1 = [] ∧ (runEvent cs).2.isSome) ↔
          c.storeResults = .none := by
        refine ⟨fun h => ?_, fun h hne => absurd h hne⟩
        by_contra hne
        obtain ⟨hops, hsome⟩ := h hne
        rw [runEvent_of_ops_nil hops] at hsome
        exact absurd hsome (by decide)
      rw [List.takeWhile_cons_of_pos (by simpa using hc), List.forall_mem_cons,
        ← endsOnError_iff cs, runEvent_ok hc, endsOnError_cons, endsOnError_cons]
      dsimp only [DriverOp.code]
      rw [hstore]
      exact and_iff_right fun h => absurd rfl h
    · rw [List.takeWhile_cons_of_neg (by simpa using hc), runEvent_failed hc, endsOnError_cons]
      exact iff_of_true ⟨fun _ => ⟨rfl, rfl⟩, endsOnError_nil _⟩ (by simp)

/-! ## All attempts -/

/-- An attempt asks for a restart exactly when its first failing query does. -/
theorem runEvent_restart_iff : ∀ a : List Codes,
    (runEvent a).2 = some .restartTransaction ↔ Restarts a
  | [] => iff_of_false (by simp [runEvent]) fun ⟨pre, c, post, h, _⟩ => absurd h (by simp)
  | c :: cs => by
    by_cases hc : c.query = .none
    · rw [runEvent_ok hc]
      refine (runEvent_restart_iff cs).trans ⟨?_, ?_⟩
      · rintro ⟨pre, d, post, rfl, hpre, hd⟩
        exact ⟨c :: pre, d, post, rfl, List.forall_mem_cons.mpr ⟨hc, hpre⟩, hd⟩
      · rintro ⟨pre, d, post, heq, hpre, hd⟩
        rcases pre with - | ⟨b, pre⟩
        · obtain ⟨rfl, rfl⟩ := List.cons.inj heq
          rcases hd with hd | hd <;> exact absurd (hc.symm.trans hd) (by decide)
        · exact ⟨pre, d, post, (List.cons.inj heq).2, (List.forall_mem_cons.mp hpre).2, hd⟩
    · rw [runEvent_failed hc]
      have herrno : some (dbErrno c.query) = some .restartTransaction ↔
          c.query = .restartTransaction ∨ c.query = .reconnected := by
        cases c.query <;> decide
      rw [herrno]
      refine ⟨fun h => ⟨[], c, cs, rfl, fun b hb => absurd hb List.not_mem_nil, h⟩, ?_⟩
      rintro ⟨pre, d, post, heq, hpre, hd⟩
      rcases pre with - | ⟨b, pre⟩
      · obtain ⟨rfl, rfl⟩ := List.cons.inj heq
        exact hd
      · obtain ⟨rfl, -⟩ := List.cons.inj heq
        exact absurd (hpre _ List.mem_cons_self) hc

theorem sbLuaOpExecuteRequest_restart {a : List Codes} (h : Restarts a)
    (attempts : List (List Codes)) : sbLuaOpExecuteRequest (a :: attempts)
      = ⟨a :: (sbLuaOpExecuteRequest attempts).attempts,
        (sbLuaOpExecuteRequest attempts).returned⟩ := by
  rw [sbLuaOpExecuteRequest, (runEvent_restart_iff a).mpr h]

theorem sbLuaOpExecuteRequest_return {a : List Codes} (h : ¬ Restarts a)
    (attempts : List (List Codes)) : sbLuaOpExecuteRequest (a :: attempts)
      = ⟨[a], some (if (runEvent a).2 = none then 0 else 1)⟩ := by
  rw [← runEvent_restart_iff] at h
  rw [sbLuaOpExecuteRequest]
  cases hended : (runEvent a).2 with
  | none => rfl
  | some code =>
    cases code with
    | restartTransaction => exact absurd hended h
    | _ => rfl

/-- An attempt is made when all before it ask for a restart. -/
theorem mem_attempts_iff {a : List Codes} : ∀ {attempts : List (List Codes)},
    a ∈ (sbLuaOpExecuteRequest attempts).attempts ↔
      ∃ pre post, attempts = pre ++ a :: post ∧ ∀ b ∈ pre, Restarts b
  | [] => iff_of_false List.not_mem_nil fun ⟨pre, post, h, _⟩ => absurd h (by simp)
  | b :: attempts => by
    by_cases hb : Restarts b
    · rw [sbLuaOpExecuteRequest_restart hb, List.mem_cons, mem_attempts_iff]
      constructor
      · rintro (rfl | ⟨pre, post, rfl, hpre⟩)
        · exact ⟨[], attempts, rfl, fun b hb => absurd hb List.not_mem_nil⟩
        · exact ⟨b :: pre, post, rfl, List.forall_mem_cons.mpr ⟨hb, hpre⟩⟩
      · rintro ⟨pre, post, heq, hpre⟩
        rcases pre with - | ⟨b', pre⟩
        · exact .inl (List.cons.inj heq).1.symm
        · exact .inr ⟨pre, post, (List.cons.inj heq).2, (List.forall_mem_cons.mp hpre).2⟩
    · rw [sbLuaOpExecuteRequest_return hb, List.mem_singleton]
      constructor
      · rintro rfl
        exact ⟨[], attempts, rfl, fun b hb => absurd hb List.not_mem_nil⟩
      · rintro ⟨pre, post, heq, hpre⟩
        rcases pre with - | ⟨b', pre⟩
        · exact (List.cons.inj heq).1.symm
        · obtain ⟨rfl, -⟩ := List.cons.inj heq
          exact absurd (hpre _ List.mem_cons_self) hb

/-- The last attempt of a completed event ended without an error. -/
theorem exists_last_of_returned_zero : ∀ {attempts : List (List Codes)},
    (sbLuaOpExecuteRequest attempts).returned = some 0 →
    ∃ pre last, (sbLuaOpExecuteRequest attempts).attempts = pre ++ [last] ∧
      (runEvent last).2 = none
  | [], h => absurd h (by simp [sbLuaOpExecuteRequest])
  | a :: attempts, h => by
    by_cases ha : Restarts a
    · rw [sbLuaOpExecuteRequest_restart ha] at h ⊢
      obtain ⟨pre, last, heq, hended⟩ := exists_last_of_returned_zero h
      exact ⟨a :: pre, last, congrArg (a :: ·) heq, hended⟩
    · rw [sbLuaOpExecuteRequest_return ha] at h ⊢
      refine ⟨[], a, rfl, ?_⟩
      by_contra hended
      rw [if_neg hended] at h
      exact Nat.one_ne_zero (Option.some.inj h)

/-- **No error is swallowed exactly when no fetched result has one.** -/
theorem noneSwallowed_iff (attempts : List (List Codes)) :
    NoneSwallowed attempts ↔ StoresOk attempts := by
  have hends : (∀ a ∈ (sbLuaOpExecuteRequest attempts).attempts, EndsOnError (runEvent a)) ↔
      StoresOk attempts := by
    constructor
    · intro h pre a post heq hpre
      exact (endsOnError_iff a).mp (h a (mem_attempts_iff.mpr ⟨pre, post, heq, hpre⟩))
    · intro h a ha
      obtain ⟨pre, post, heq, hpre⟩ := mem_attempts_iff.mp ha
      exact (endsOnError_iff a).mpr (h pre a post heq hpre)
  refine ⟨fun h => hends.mp h.ends, fun h => ⟨fun hreturned last hlast op hop => ?_, hends.mpr h⟩⟩
  by_contra hcode
  obtain ⟨made, last', hmade, hended⟩ := exists_last_of_returned_zero hreturned
  obtain rfl : last' = last := by
    rw [hmade, List.getLast?_concat] at hlast
    exact Option.some.inj hlast
  obtain ⟨pre, post, heq⟩ := List.append_of_mem hop
  have hsome := (hends.mpr h last' (List.mem_of_getLast? hlast) pre op post heq hcode).2
  rw [hended] at hsome
  exact absurd hsome (by decide)

/-- One `SELECT` whose rows are lost with the connection: the event is completed. -/
theorem swallows_storeResults :
    (sbLuaOpExecuteRequest [[⟨.none, .reconnected⟩, ⟨.none, .none⟩]]).returned = some 0 ∧
    ¬ NoneSwallowed [[⟨.none, .reconnected⟩, ⟨.none, .none⟩]] := by
  refine ⟨rfl, fun h => ?_⟩
  have hcode := h.completed rfl _ rfl (.storeResults .reconnected) (by decide)
  exact absurd hcode (by decide)

end Sysbench.Scripting
