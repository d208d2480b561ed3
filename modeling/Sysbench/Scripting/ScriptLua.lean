import Sysbench.Machinery.Traces
import Sysbench.Scripting.Session

/-!
# Scripting/ScriptLua — a script on its connection, and the restart loop

A worker calls `event()` of its script, which sends statements one after the other until one fails;
`sb_lua_op_execute_request` calls it again, on the same connection, for as long as the driver asks
for a restart.  One such call is an **attempt**: the numbers the script draws in it, and what
happens to each of its statements.

`Runs p s calls s' commits` is how attempts are reasoned about: every statement sent is legal, and
up to the first failure the calls take the session from `s` to `s'` and commit `commits`.
-/

namespace Sysbench.Scripting

variable (p : ErrorPolicy)

/-! ## One call of the script -/

/-- `db_store_results`: only a statement that is answered by rows can fail here. -/
def dbStoreResults (q : Stmt) (o : Outcome) (s : Session) : Session :=
  if q.hasRows then o.store.elim s (s.afterError p) else s

/-- `sb_lua_db_query`: what `db_store_results` returns is not looked at. -/
def sbLuaDbQuery (s : Session) (q : Stmt) (o : Outcome) : Reply :=
  let r := dbQuery p s q o
  if r.errno = .none then { r with session := dbStoreResults p q o r.session } else r

/-- A statement, and what happens to it. -/
abbrev Call := Stmt × Outcome

/-- What a call of `event()` has done: the statements sent, each with the state it was sent in; the
commits; and the error it ended with. -/
structure Run where
  sent : List (Trx × Stmt)
  commits : List (List Write)
  session : Session
  errno : DbError

/-- One run after another. -/
def Run.andThen (r r' : Run) : Run :=
  ⟨r.sent ++ r'.sent, r.commits ++ r'.commits, r'.session, r'.errno⟩

/-- The statements of a script in order, until one fails: `lua_error` leaves `event()`. -/
def runCalls : Session → List Call → Run
  | s, [] => ⟨[], [], s, .none⟩
  | s, (q, o) :: calls =>
    let r := sbLuaDbQuery p s q o
    let run : Run := ⟨[(s.trx, q)], r.commits, r.session, r.errno⟩
    if r.errno = .none then run.andThen (runCalls r.session calls) else run

/-! ## The restart loop -/

variable {δ : Type}

/-- One call of `event()`: what it draws, and what happens to its `k`-th statement. -/
structure Attempt (δ : Type) where
  draws : δ
  outcome : ℕ → Outcome

/-- The statements `qs`, the first of them the `k`-th of the attempt. -/
def callsFrom (outcome : ℕ → Outcome) (k : ℕ) (qs : List Stmt) : List Call :=
  (qs.zipIdx k).map fun x => (x.1, outcome x.2)

/-- The calls the script makes, if none of them fails. -/
def Attempt.calls (script : δ → List Stmt) (a : Attempt δ) : List Call :=
  callsFrom a.outcome 0 (script a.draws)

/-- An attempt, and what it did. -/
structure Record (δ : Type) where
  attempt : Attempt δ
  run : Run

/-- A worker: its session, the requests it has still to execute, and whether it goes on. -/
structure Worker where
  session : Session
  requests : ℕ
  running : Bool

/-- A worker that has connected and has `requests` requests to execute. -/
def startWorker (requests : ℕ) : Worker := ⟨.fresh, requests, true⟩

/-- An iteration of the loop of `sb_lua_op_execute_request`: on `SB_DB_ERROR_RESTART_TRANSACTION`
the same request is tried again, on any other error the worker stops. -/
def workerStep (script : δ → List Stmt) (w : Worker) (a : Attempt δ) :
    Option (Record δ × Worker) :=
  if w.running ∧ 0 < w.requests then
    let run := runCalls p w.session (a.calls script)
    some (⟨a, run⟩, match run.errno with
      | .none => ⟨run.session, w.requests - 1, true⟩
      | .restartTransaction => ⟨run.session, w.requests, true⟩
      | _ => ⟨run.session, w.requests, false⟩)
  else none

variable {p} in
/-- A step records one attempt, and the worker goes on with the session it ended in. -/
theorem workerStep_eq {script : δ → List Stmt} {w w' : Worker} {a : Attempt δ} {r : Record δ}
    (h : workerStep p script w a = some (r, w')) :
    r = ⟨a, runCalls p w.session (a.calls script)⟩ ∧ w'.session = r.run.session := by
  simp only [workerStep, Option.ite_none_right_eq_some, Option.some.injEq, Prod.mk.injEq] at h
  obtain ⟨-, rfl, rfl⟩ := h
  refine ⟨rfl, ?_⟩
  split <;> rfl

/-! ## What happens to a list of calls -/

/-- The first failure. -/
def failure? (calls : List Call) : Option Failure := calls.findSome? (·.2.query)

/-- The calls before it. -/
def executed (calls : List Call) : List Call := calls.takeWhile (·.2.query.isNone)

/-- The writes made before it. -/
def writesMade (calls : List Call) : List Write := (executed calls).filterMap (·.1.write?)

/-- Before it, the rows of some query could not be stored, for a reason that ends what the session
holds. -/
def rowsLost (h : Held) (calls : List Call) : Bool :=
  (executed calls).any fun c => c.1.hasRows && c.2.store.any (loses p h)

/-- **The calls run** from `s` to `s'`, as far as they are executed. -/
structure Runs (s : Session) (calls : List Call) (s' : Session) (commits : List (List Write)) :
    Prop where
  legal : ∀ x ∈ (runCalls p s calls).sent, Legal x.1 x.2
  commits_eq : (runCalls p s calls).commits = commits
  errno_eq : (runCalls p s calls).errno = (failure? calls).elim .none (errno p)
  session_eq : (runCalls p s calls).session = (failure? calls).elim s' (s'.afterError p)

variable {p} {s s' s'' : Session} {q : Stmt} {o : Outcome} {f : Failure} {t : Trx}
  {calls calls' : List Call} {commits commits' : List (List Write)}

theorem failure?_ok (ho : o.query = none) : failure? ((q, o) :: calls) = failure? calls := by
  simp [failure?, ho]

theorem failure?_failed (ho : o.query = some f) : failure? ((q, o) :: calls) = some f := by
  simp [failure?, ho]

theorem failure?_one : failure? [(q, o)] = o.query := by
  cases ho : o.query <;> simp [failure?, ho]

theorem failure?_append :
    failure? (calls ++ calls') = (failure? calls).or (failure? calls') := List.findSome?_append

theorem executed_append_of_ok (h : failure? calls = none) :
    executed (calls ++ calls') = calls ++ executed calls' := by
  refine List.takeWhile_append_of_pos fun c hc => ?_
  simpa using List.findSome?_eq_none_iff.mp h c hc

theorem executed_append_of_failed (h : failure? calls = some f) :
    executed (calls ++ calls') = executed calls := by
  induction calls with
  | nil => simp [failure?] at h
  | cons c calls ih =>
    cases hc : c.2.query with
    | none => simpa [executed, failure?, hc] using ih (by simpa [failure?, hc] using h)
    | some g => simp [executed, hc]

theorem executed_of_ok (h : failure? calls = none) : executed calls = calls := by
  have hnil : executed (calls ++ []) = calls ++ executed [] := executed_append_of_ok h
  simpa [executed] using hnil

theorem writesMade_ok (ho : o.query = none) (hq : q.write? = none) :
    writesMade ((q, o) :: calls) = writesMade calls := by
  simp [writesMade, executed, ho, hq]

theorem writesMade_append_one (hq : q.write? = none) :
    writesMade (calls ++ [(q, o)]) = writesMade calls := by
  cases hf : failure? calls with
  | some f => rw [writesMade, executed_append_of_failed hf, writesMade]
  | none =>
    rw [writesMade, executed_append_of_ok hf, writesMade, executed_of_ok hf, List.filterMap_append]
    cases ho : o.query <;> simp [executed, ho, hq]

theorem runCalls_append :
    runCalls p s (calls ++ calls') =
      if (runCalls p s calls).errno = .none then
        (runCalls p s calls).andThen (runCalls p (runCalls p s calls).session calls')
      else runCalls p s calls := by
  induction calls generalizing s with
  | nil => simp [runCalls, Run.andThen]
  | cons c calls ih =>
    obtain ⟨q, o⟩ := c
    simp only [List.cons_append, runCalls]
    split_ifs with hc hr
    · simp only [ih, if_pos (show (runCalls p _ calls).errno = .none from hr), Run.andThen,
        List.append_assoc]
    · rw [ih, if_neg (show ¬ (runCalls p _ calls).errno = .none from hr)]
    · rfl

namespace Runs

theorem nil : Runs p s [] s [] := ⟨by simp [runCalls], rfl, rfl, rfl⟩

/-- The first statement fails. -/
theorem failed (hq : Legal s.trx q) (ho : o.query = some f) : Runs p s ((q, o) :: calls) s [] := by
  have hreply : sbLuaDbQuery p s q o = ⟨s.afterError p f, [], errno p f⟩ := by
    simp [sbLuaDbQuery, dbQuery_failed hq ho, errno_ne_none]
  refine ⟨?_, ?_, ?_, ?_⟩ <;>
    simp [runCalls, hreply, errno_ne_none, failure?_failed ho, hq]

/-- The first statement succeeds. -/
theorem cons (hq : s.trx.next q = some t) (ho : o.query = none)
    (h : Runs p (dbStoreResults p q o (s.exec t q).1) calls s' commits) :
    Runs p s ((q, o) :: calls) s' ((s.exec t q).2 ++ commits) := by
  have hreply : sbLuaDbQuery p s q o
      = ⟨dbStoreResults p q o (s.exec t q).1, (s.exec t q).2, .none⟩ := by
    simp [sbLuaDbQuery, dbQuery_ok hq ho]
  have hrun : runCalls p s ((q, o) :: calls)
      = (⟨[(s.trx, q)], (s.exec t q).2, dbStoreResults p q o (s.exec t q).1, .none⟩ : Run).andThen
        (runCalls p (dbStoreResults p q o (s.exec t q).1) calls) := by
    simp [runCalls, hreply]
  refine ⟨?_, ?_, ?_, ?_⟩
  · simp only [hrun, Run.andThen, List.forall_mem_append, List.forall_mem_singleton]
    exact ⟨by simp [Legal, hq], h.legal⟩
  · simp [hrun, Run.andThen, h.commits_eq]
  · simp [hrun, Run.andThen, h.errno_eq, failure?_ok ho]
  · simp [hrun, Run.andThen, h.session_eq, failure?_ok ho]

/-- The same, for a statement that is not answered by rows. -/
theorem cons_of_exec (hq : s.trx.next q = some t) (ho : o.query = none)
    (hexec : s.exec t q = (s'', commits')) (hrows : q.hasRows = false)
    (h : Runs p s'' calls s' commits) : Runs p s ((q, o) :: calls) s' (commits' ++ commits) := by
  have hstore : dbStoreResults p q o (s.exec t q).1 = s'' := by simp [hexec, dbStoreResults, hrows]
  simpa [hexec] using Runs.cons hq ho (hstore ▸ h)

/-- The calls run without a failure. -/
theorem errno_none_iff (h : Runs p s calls s' commits) :
    (runCalls p s calls).errno = .none ↔ failure? calls = none := by
  rw [h.errno_eq]
  cases failure? calls <;> simp [errno_ne_none]

/-- What comes after a failure is not executed. -/
theorem append_of_failed (h : Runs p s calls s' commits) (hf : failure? calls = some f) :
    Runs p s (calls ++ calls') s' commits := by
  have hrun : runCalls p s (calls ++ calls') = runCalls p s calls := by
    rw [runCalls_append, if_neg]
    simp [h.errno_none_iff, hf]
  have hfail : failure? (calls ++ calls') = failure? calls := by simp [failure?_append, hf]
  exact ⟨hrun ▸ h.legal, hrun ▸ h.commits_eq, by rw [hrun, hfail, h.errno_eq],
    by rw [hrun, hfail, h.session_eq]⟩

/-- Without a failure the calls after it run from where it ended. -/
theorem runCalls_append (h : Runs p s calls s' commits) (hf : failure? calls = none) :
    runCalls p s (calls ++ calls')
      = (⟨(runCalls p s calls).sent, commits, s', .none⟩ : Run).andThen (runCalls p s' calls') := by
  have herr := h.errno_none_iff.mpr hf
  have hs : (runCalls p s calls).session = s' := by simp [h.session_eq, hf]
  rw [Scripting.runCalls_append, if_pos herr, hs]
  simp [Run.andThen, h.commits_eq]

theorem append (h : Runs p s calls s' commits) (hf : failure? calls = none)
    (h' : Runs p s' calls' s'' commits') :
    Runs p s (calls ++ calls') s'' (commits ++ commits') := by
  have hfail : failure? (calls ++ calls') = failure? calls' := by simp [failure?_append, hf]
  refine ⟨?_, ?_, ?_, ?_⟩ <;> rw [h.runCalls_append hf]
  · simp only [Run.andThen, List.forall_mem_append]
    exact ⟨h.legal, h'.legal⟩
  · simp [Run.andThen, h'.commits_eq]
  · simp [Run.andThen, h'.errno_eq, hfail]
  · simp [Run.andThen, h'.session_eq, hfail]

/-- A last statement that changes nothing. -/
theorem append_one (h : Runs p s calls s' commits) (h' : Runs p s' [(q, o)] s' []) :
    Runs p s (calls ++ [(q, o)]) s' commits := by
  cases hf : failure? calls with
  | some f => exact h.append_of_failed hf
  | none => simpa using h.append hf h'

end Runs

/-- The first statement is sent whatever comes of it. -/
theorem head_mem_sent : (s.trx, q) ∈ (runCalls p s ((q, o) :: calls)).sent := by
  simp only [runCalls]
  split_ifs <;> simp [Run.andThen]

/-- So is the statement after calls that do not fail. -/
theorem Runs.next_mem_sent (h : Runs p s calls s' commits) (hf : failure? calls = none) :
    (s'.trx, q) ∈ (Scripting.runCalls p s (calls ++ (q, o) :: calls')).sent := by
  rw [h.runCalls_append hf]
  exact List.mem_append_right _ head_mem_sent

end Sysbench.Scripting
