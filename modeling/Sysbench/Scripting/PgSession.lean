import Sysbench.Scripting.Atomicity

/-!
# Scripting/PgSession — `oltp.lua` on a PostgreSQL server

`pgsql_check_status` reads the text of an error: where it tells of a deadlock or a duplicate key, it
sends `ROLLBACK` itself and asks for a restart, and on any other text the worker stops.  So a
transaction never outlives its attempt, and what takes effect are whole events, each once.  The one
exception is a connection that breaks under `COMMIT`, of which nobody knows whether it took effect.

A statement that fails leaves its `PGresult` behind, and so does the `ROLLBACK`.
-/

namespace Sysbench.Scripting.Pg

/-! ## The server -/

/-- A connection as `PQtransactionStatus` has it; in a transaction, with the writes that wait for
its end.  A connection that is lost is `unknown`. -/
inductive PgTrx
  | idle
  | inTrans (pending : List Write)
  | inError
  | unknown
  deriving DecidableEq, Repr

namespace PgTrx

/-- A statement that succeeds: the transaction after it, and what it commits.  A `BEGIN` inside a
transaction changes nothing, and a `COMMIT` of one that has failed rolls it back.  The rest is not
executed there, or not SQL to this server. -/
def exec : PgTrx → Stmt → Option (PgTrx × List (List Write))
  | .idle, .beginTrx => some (.inTrans [], [])
  | .inTrans ps, .beginTrx => some (.inTrans ps, [])
  | .idle, .commit | .inError, .commit => some (.idle, [])
  | .inTrans ps, .commit => some (.idle, [ps])
  | .idle, .write w => some (.idle, [[w]])
  | .inTrans ps, .write w => some (.inTrans (ps ++ [w]), [])
  | .idle, .pointSelect .. | .idle, .rangeSelect .. => some (.idle, [])
  | .inTrans ps, .pointSelect .. | .inTrans ps, .rangeSelect .. => some (.inTrans ps, [])
  | _, _ => none

/-- A statement that fails: a transaction waits for its end, and has it if that is what failed. -/
def refuse : PgTrx → Stmt → PgTrx
  | .inTrans _, .commit | .inError, .commit => .idle
  | .inTrans _, _ => .inError
  | t, _ => t

/-- How the error begins, for a statement that is not executed in this state. -/
def complaint : PgTrx → String
  | .inError =>
    "ERROR:  current transaction is aborted, commands ignored until end of transaction block"
  | _ => "ERROR:  syntax error at or near"

end PgTrx

/-- What happens to a statement: it goes through, the server reports an error, or the connection
breaks, with the statement executed or not and a `PGresult` for the caller or none. -/
inductive Fate
  | done
  | refused (text : String)
  | broken (text : String) (applied result : Bool)
  deriving DecidableEq, Repr

/-- What happens to a statement, and to the `ROLLBACK` after it: `some` if the connection breaks
there, with a `PGresult` or none. -/
structure PgOutcome where
  fate : Fate := .done
  rollback : Option Bool := none
  deriving DecidableEq, Repr

/-- What `PQexec` leaves: the transaction, what was committed, whether there is a `PGresult`, and
the text of `PQerrorMessage` unless it succeeded. -/
structure PgAnswer where
  trx : PgTrx
  commits : List (List Write)
  result : Bool
  error : Option String

/-- `PQexec`. -/
def pqExec (t : PgTrx) (q : Stmt) (fate : Fate) : PgAnswer :=
  if t = .unknown then ⟨.unknown, [], false, some "no connection to the server"⟩
  else match fate with
    | .broken text applied result =>
      ⟨.unknown, if applied then (t.exec q).elim [] Prod.snd else [], result, some text⟩
    | .refused text => ⟨t.refuse q, [], true, some text⟩
    | .done => match t.exec q with
      | some (t', commits) => ⟨t', commits, true, none⟩
      | none => ⟨t.refuse q, [], true, some t.complaint⟩

/-! ## The driver -/

/-- `strcasestr`. -/
def strcasestr (haystack needle : String) : Bool :=
  decide (needle.toList.map Char.toLower <:+: haystack.toList.map Char.toLower)

/-- What `pgsql_check_status` looks for. -/
def restartTexts : List String :=
  ["deadlock detected", "Lock wait timeout", "deadlock",
    "duplicate key value violates unique constraint"]

/-- The error asks for a restart. -/
def restarts (errmsg : String) : Bool := restartTexts.any (strcasestr errmsg)

/-- A connection: the transaction at the server, and the `PGresult`s that were not cleared. -/
structure PgConn where
  trx : PgTrx
  live : ℕ
  deriving DecidableEq, Repr

/-- A connection that has just been made. -/
def PgConn.fresh : PgConn := ⟨.idle, 0⟩

/-- `PQexec` of `ROLLBACK`, whose result is not looked at. -/
def PgConn.rollback (c : PgConn) (breaks : Option Bool) : PgConn :=
  if c.trx = .unknown then c
  else match breaks with
    | none => ⟨.idle, c.live + 1⟩
    | some result => ⟨.unknown, c.live + result.toNat⟩

/-- `pgsql_check_status`. -/
def pgsqlCheckStatus (c : PgConn) (error : Option String) (breaks : Option Bool) :
    DbError × PgConn :=
  match error with
  | none => (.none, c)
  | some errmsg =>
    if restarts errmsg then (.restartTransaction, c.rollback breaks) else (.failed, c)

/-- What a call has committed, the connection after it, and `db_errno`. -/
structure PgReply where
  commits : List (List Write)
  conn : PgConn
  errno : DbError

/-- `pgsql_drv_query`. -/
def pgsqlDrvQuery (c : PgConn) (q : Stmt) (o : PgOutcome) : PgReply :=
  let a := pqExec c.trx q o.fate
  let rc := pgsqlCheckStatus ⟨a.trx, c.live + a.result.toNat⟩ a.error o.rollback
  ⟨a.commits, rc.2, rc.1⟩

/-- `sb_lua_db_query`: `db_free_results` clears the `PGresult` that `rs->ptr` is set to, which is so
after success only. -/
def sbLuaDbQuery (c : PgConn) (q : Stmt) (o : PgOutcome) : PgReply :=
  let r := pgsqlDrvQuery c q o
  if r.errno = .none then { r with conn := { r.conn with live := r.conn.live - 1 } } else r

/-- The statements of a script from the `k`-th on, until one fails: `lua_error` leaves `event()`. -/
def runStmts (outcome : ℕ → PgOutcome) : ℕ → PgConn → List Stmt → PgReply
  | _, c, [] => ⟨[], c, .none⟩
  | k, c, q :: qs =>
    let r := sbLuaDbQuery c q (outcome k)
    if r.errno = .none then
      let rest := runStmts outcome (k + 1) r.conn qs
      { rest with commits := r.commits ++ rest.commits }
    else r

/-! ## The script and its worker -/

/-- `event` of `oltp.lua`, as `thread_init` prepares it for this driver. -/
def pgEvent (cfg : OltpConfig) (d : Draws) : List Stmt :=
  if cfg.skipTrx then body cfg d else .beginTrx :: (body cfg d ++ [.commit])

/-- One call of `event()`: what it draws, and what happens to its `k`-th statement. -/
structure PgAttempt where
  draws : Draws
  outcome : ℕ → PgOutcome

/-- An attempt, and what it did. -/
structure PgRecord where
  attempt : PgAttempt
  run : PgReply

/-- A worker: its connection, the requests it has still to execute, and whether it goes on. -/
structure PgWorker where
  conn : PgConn
  requests : ℕ
  running : Bool

/-- A worker that has connected and has `requests` requests to execute. -/
def startPgWorker (requests : ℕ) : PgWorker := ⟨.fresh, requests, true⟩

/-- An iteration of the loop of `sb_lua_op_execute_request`. -/
def pgWorkerStep (cfg : OltpConfig) (w : PgWorker) (a : PgAttempt) :
    Option (PgRecord × PgWorker) :=
  if w.running ∧ 0 < w.requests then
    let run := runStmts a.outcome 0 w.conn (pgEvent cfg a.draws)
    some (⟨a, run⟩, match run.errno with
      | .none => ⟨run.conn, w.requests - 1, true⟩
      | .restartTransaction => ⟨run.conn, w.requests, true⟩
      | _ => ⟨run.conn, w.requests, false⟩)
  else none

/-! ## What a run of statements does -/

/-- Statements that all go through: the transaction after them, and what they commit. -/
def PgTrx.execs : PgTrx → List Stmt → Option (PgTrx × List (List Write))
  | t, [] => some (t, [])
  | t, q :: qs => (t.exec q).bind fun r => (r.1.execs qs).map fun r' => (r'.1, r.2 ++ r'.2)

/-- An attempt that an error has ended: if it is to be restarted, its transaction is over. -/
def Ended (r : PgReply) : Prop :=
  r.errno = .failed ∨
    r.errno = .restartTransaction ∧ (r.conn.trx = .idle ∨ r.conn.trx = .unknown)

section Calls

variable {c : PgConn} {q : Stmt} {qs qs' : List Stmt} {o : PgOutcome} {outcome : ℕ → PgOutcome}
  {k : ℕ} {t : PgTrx} {commits : List (List Write)}

theorem Ended.errno_ne_none {r : PgReply} (h : Ended r) : r.errno ≠ .none := by
  rcases h with h | ⟨h, -⟩ <;> simp [h]

theorem rollback_trx (c : PgConn) (breaks : Option Bool) :
    (c.rollback breaks).trx = .idle ∨ (c.rollback breaks).trx = .unknown := by
  unfold PgConn.rollback
  split_ifs with h
  · exact .inr h
  · cases breaks
    · exact .inl rfl
    · exact .inr rfl

theorem ended_checkStatus {errmsg : String} {breaks : Option Bool} :
    Ended ⟨commits, (pgsqlCheckStatus c (some errmsg) breaks).2,
      (pgsqlCheckStatus c (some errmsg) breaks).1⟩ := by
  simp only [pgsqlCheckStatus]
  split_ifs
  · exact .inr ⟨rfl, rollback_trx c breaks⟩
  · exact .inl rfl

/-- A lost connection stays lost. -/
theorem checkStatus_unknown (hc : c.trx = .unknown) (error : Option String)
    (breaks : Option Bool) : (pgsqlCheckStatus c error breaks).2 = c := by
  cases error with
  | none => rfl
  | some errmsg =>
    simp only [pgsqlCheckStatus, PgConn.rollback, hc, if_true]
    split_ifs <;> rfl

/-- `PQexec` succeeds only where the statement is executed. -/
theorem pqExec_spec (t : PgTrx) (q : Stmt) (fate : Fate) :
    ((pqExec t q fate).error = none ∧ (pqExec t q fate).result = true ∧
        t.exec q = some ((pqExec t q fate).trx, (pqExec t q fate).commits)) ∨
      ((pqExec t q fate).error ≠ none ∧
        ((pqExec t q fate).commits = [] ∨ (pqExec t q fate).trx = .unknown ∧
          ∃ t', t.exec q = some (t', (pqExec t q fate).commits))) := by
  by_cases ht : t = .unknown
  · exact .inr (by simp [pqExec, ht])
  · simp only [pqExec, ht, if_false]
    cases fate with
    | done =>
      cases hexec : t.exec q with
      | none => exact .inr ⟨nofun, .inl rfl⟩
      | some r => exact .inl ⟨rfl, rfl, rfl⟩
    | refused text => exact .inr ⟨nofun, .inl rfl⟩
    | broken text applied result =>
      refine .inr ⟨nofun, ?_⟩
      cases applied with
      | false => exact .inl rfl
      | true =>
        cases hexec : t.exec q with
        | none => exact .inl rfl
        | some r => exact .inr ⟨rfl, r.1, rfl⟩

/-- **One call**: the statement goes through and its result is cleared, or an error ends the
attempt.  Then it has committed nothing, unless the connection broke under it. -/
theorem sbLuaDbQuery_spec (c : PgConn) (q : Stmt) (o : PgOutcome) :
    ((sbLuaDbQuery c q o).errno = .none ∧ (sbLuaDbQuery c q o).conn.live = c.live ∧
        c.trx.exec q = some ((sbLuaDbQuery c q o).conn.trx, (sbLuaDbQuery c q o).commits)) ∨
      (Ended (sbLuaDbQuery c q o) ∧
        ((sbLuaDbQuery c q o).commits = [] ∨ (sbLuaDbQuery c q o).conn.trx = .unknown ∧
          ∃ t, c.trx.exec q = some (t, (sbLuaDbQuery c q o).commits))) := by
  rcases pqExec_spec c.trx q o.fate with ⟨herr, hres, hexec⟩ | ⟨herr, hcommits⟩
  · refine .inl ?_
    simp [sbLuaDbQuery, pgsqlDrvQuery, herr, hres, pgsqlCheckStatus, hexec]
  · obtain ⟨errmsg, herr⟩ := Option.ne_none_iff_exists'.mp herr
    have hended : Ended (pgsqlDrvQuery c q o) := by
      simpa only [pgsqlDrvQuery, herr] using ended_checkStatus
    have hquery : sbLuaDbQuery c q o = pgsqlDrvQuery c q o := if_neg hended.errno_ne_none
    rw [hquery]
    refine .inr ⟨hended, hcommits.imp_right fun ⟨hlost, hexec⟩ => ⟨?_, hexec⟩⟩
    simp only [pgsqlDrvQuery]
    rw [checkStatus_unknown hlost, hlost]

/-- **A run of statements**: all go through, or an error ends the attempt after some of them have
committed what they had to commit.  All have only if the connection broke. -/
theorem runStmts_spec (outcome : ℕ → PgOutcome) (k : ℕ) (c : PgConn) (qs : List Stmt) :
    ((runStmts outcome k c qs).errno = .none ∧ (runStmts outcome k c qs).conn.live = c.live ∧
        c.trx.execs qs
          = some ((runStmts outcome k c qs).conn.trx, (runStmts outcome k c qs).commits)) ∨
      (Ended (runStmts outcome k c qs) ∧ ∃ qs' t, qs' <+: qs ∧
        c.trx.execs qs' = some (t, (runStmts outcome k c qs).commits) ∧
        (qs' = qs → (runStmts outcome k c qs).conn.trx = .unknown)) := by
  induction qs generalizing k c with
  | nil => exact .inl ⟨rfl, rfl, rfl⟩
  | cons q qs ih =>
    rcases sbLuaDbQuery_spec c q (outcome k) with ⟨hok, hlive, hexec⟩ | ⟨hended, hcommits⟩
    · simp only [runStmts, if_pos hok]
      rcases ih (k + 1) (sbLuaDbQuery c q (outcome k)).conn with
        ⟨hrest, hlive', hexecs⟩ | ⟨hrest, qs', t, hpre, hexecs, hall⟩
      · exact .inl ⟨hrest, hlive'.trans hlive, by simp [PgTrx.execs, hexec, hexecs]⟩
      · refine .inr ⟨hrest, q :: qs', t, (List.cons_prefix_cons).mpr ⟨rfl, hpre⟩, ?_, fun h => ?_⟩
        · simp [PgTrx.execs, hexec, hexecs]
        · exact hall (List.cons.inj h).2
    · simp only [runStmts, if_neg hended.errno_ne_none]
      refine .inr ⟨hended, ?_⟩
      rcases hcommits with hnil | ⟨hlost, t, hexec⟩
      · exact ⟨[], c.trx, List.nil_prefix, by rw [hnil]; rfl, fun h => absurd h (by simp)⟩
      · exact ⟨[q], t, by simp, by simp [PgTrx.execs, hexec], fun _ => hlost⟩

/-- On a connection that is lost nothing is executed, and the worker stops. -/
theorem runStmts_unknown (outcome : ℕ → PgOutcome) (k : ℕ) (hc : c.trx = .unknown) (hqs : qs ≠ []) :
    runStmts outcome k c qs = ⟨[], c, .failed⟩ := by
  obtain ⟨q, qs, rfl⟩ := List.exists_cons_of_ne_nil hqs
  have htext : restarts "no connection to the server" = false := by decide
  have hquery : sbLuaDbQuery c q (outcome k) = ⟨[], c, .failed⟩ := by
    obtain ⟨t, live⟩ := c
    obtain rfl := hc
    simp [sbLuaDbQuery, pgsqlDrvQuery, pqExec, pgsqlCheckStatus, htext]
  simp [runStmts, hquery]

theorem execs_append (t : PgTrx) (qs qs' : List Stmt) :
    t.execs (qs ++ qs')
      = (t.execs qs).bind fun r => (r.1.execs qs').map fun r' => (r'.1, r.2 ++ r'.2) := by
  induction qs generalizing t with
  | nil => simp [PgTrx.execs]
  | cons q qs ih =>
    cases hexec : t.exec q with
    | none => simp [PgTrx.execs, hexec]
    | some r =>
      cases hexecs : r.1.execs qs <;>
        simp [PgTrx.execs, hexec, hexecs, ih, Function.comp_def, List.append_assoc]

/-- The statements of a body: they read or write rows. -/
def Works (q : Stmt) : Prop := q.hasRows = true ∨ ∃ w, q = .write w

theorem works_of_mem_body {cfg : OltpConfig} {d : Draws} (hq : q ∈ body cfg d) : Works q := by
  rcases List.mem_append.mp hq with hq | hq
  · exact .inl (hasRows_of_mem_reads hq)
  · obtain ⟨w, -, rfl⟩ := List.mem_map.mp hq
    exact .inr ⟨w, rfl⟩

/-- In a transaction the writes wait for its end. -/
theorem execs_inTrans (hworks : ∀ q ∈ qs, Works q) (ps : List Write) :
    (PgTrx.inTrans ps).execs qs = some (.inTrans (ps ++ qs.filterMap Stmt.write?), []) := by
  induction qs generalizing ps with
  | nil => simp [PgTrx.execs]
  | cons q qs ih =>
    obtain ⟨hq, htail⟩ := List.forall_mem_cons.mp hworks
    rcases hq with hrows | ⟨w, rfl⟩
    · have hexec : (PgTrx.inTrans ps).exec q = some (.inTrans ps, []) := by
        cases q <;> first | rfl | cases hrows
      simp [PgTrx.execs, hexec, ih htail, write?_of_hasRows hrows]
    · simp [PgTrx.execs, PgTrx.exec, ih htail, Stmt.write?]

/-- Outside one, each commits itself. -/
theorem execs_idle (hworks : ∀ q ∈ qs, Works q) :
    PgTrx.idle.execs qs = some (.idle, (qs.filterMap Stmt.write?).map ([·])) := by
  induction qs with
  | nil => rfl
  | cons q qs ih =>
    obtain ⟨hq, htail⟩ := List.forall_mem_cons.mp hworks
    rcases hq with hrows | ⟨w, rfl⟩
    · have hexec : PgTrx.idle.exec q = some (.idle, []) := by
        cases q <;> first | rfl | cases hrows
      simp [PgTrx.execs, hexec, ih htail, write?_of_hasRows hrows]
    · simp [PgTrx.execs, PgTrx.exec, ih htail, Stmt.write?]

end Calls

/-! ## One attempt -/

variable {cfg : OltpConfig} {d : Draws} {c : PgConn} {outcome : ℕ → PgOutcome}

/-- Up to its `COMMIT` an event has committed nothing. -/
theorem execs_opening {qs : List Stmt} (hpre : qs <+: .beginTrx :: body cfg d) :
    ∃ t, PgTrx.idle.execs qs = some (t, []) := by
  cases qs with
  | nil => exact ⟨_, rfl⟩
  | cons q qs =>
    obtain ⟨rfl, hbody⟩ := List.cons_prefix_cons.mp hpre
    have hworks : ∀ q ∈ qs, Works q := fun q hq => works_of_mem_body (hbody.subset hq)
    exact ⟨_, by simp [PgTrx.execs, PgTrx.exec, execs_inTrans hworks]; rfl⟩

/-- And with it, all its writes. -/
theorem execs_event :
    PgTrx.idle.execs (.beginTrx :: body cfg d ++ [.commit]) = some (.idle, [writes cfg d]) := by
  have hworks : ∀ q ∈ body cfg d, Works q := fun q hq => works_of_mem_body hq
  have hbody := execs_inTrans hworks []
  rw [execs_append]
  simp [PgTrx.execs, PgTrx.exec, hbody, filterMap_body]

theorem pgEvent_trx (hskip : cfg.skipTrx = false) :
    pgEvent cfg d = .beginTrx :: body cfg d ++ [.commit] := by
  simp [pgEvent, hskip]

/-- **An attempt in a transaction** commits all its writes at once and is complete, or it is ended
by an error and commits nothing, unless the connection breaks. -/
theorem attempt_trx (outcome : ℕ → PgOutcome) (d : Draws) (hskip : cfg.skipTrx = false)
    (hc : c.trx = .idle) :
    let r := runStmts outcome 0 c (pgEvent cfg d)
    (r.errno = .none ∧ r.conn.trx = .idle ∧ r.commits = [writes cfg d]) ∨
      (Ended r ∧ (r.commits = [] ∨ r.conn.trx = .unknown ∧ r.commits = [writes cfg d])) := by
  rw [pgEvent_trx hskip]
  intro r
  have hr : r = runStmts outcome 0 c (.beginTrx :: body cfg d ++ [.commit]) := rfl
  have hspec := runStmts_spec outcome 0 c (.beginTrx :: body cfg d ++ [.commit])
  rw [← hr, hc, execs_event, Option.some.injEq, Prod.mk.injEq] at hspec
  rcases hspec with ⟨hok, -, htrx, hcommits⟩ | ⟨hended, qs, t, hpre, hexecs, hall⟩
  · exact .inl ⟨hok, htrx.symm, hcommits.symm⟩
  · refine .inr ⟨hended, ?_⟩
    rcases List.prefix_concat_iff.mp hpre with rfl | hopening
    · rw [execs_event, Option.some.injEq, Prod.mk.injEq] at hexecs
      exact .inr ⟨hall rfl, hexecs.2.symm⟩
    · obtain ⟨t', hnone⟩ := execs_opening hopening
      rw [hnone, Option.some.injEq, Prod.mk.injEq] at hexecs
      exact .inl hexecs.2.symm

/-- **The record of an attempt is a whole event**: complete, it has committed all its writes at
once; else it has committed nothing, or the connection is lost. -/
structure WholeEvent (cfg : OltpConfig) (r : PgRecord) : Prop where
  complete : r.run.errno = .none →
    effective r.run.commits = effective [writes cfg r.attempt.draws]
  ended : r.run.errno ≠ .none → effective r.run.commits = [] ∨ r.run.conn.trx = .unknown ∧
    effective r.run.commits = effective [writes cfg r.attempt.draws]

/-- No transaction is open, and none has failed. -/
def Rests (c : PgConn) : Prop := c.trx = .idle ∨ c.trx = .unknown

theorem Ended.rests {r : PgReply} (h : Ended r) (hne : r.errno ≠ .failed) : Rests r.conn :=
  h.elim (fun hfailed => absurd hfailed hne) And.right

theorem writes_readOnly (hro : cfg.readOnly = true) : writes cfg d = [] := if_pos hro

/-- An event that only reads commits nothing. -/
theorem attempt_reads (outcome : ℕ → PgOutcome) (d : Draws) (hskip : cfg.skipTrx = true)
    (hro : cfg.readOnly = true) (hc : Rests c) :
    let r := runStmts outcome 0 c (pgEvent cfg d)
    (r.errno = .none ∧ Rests r.conn ∨ Ended r) ∧ r.commits = [] := by
  intro r
  have hexecs : ∀ qs, qs <+: pgEvent cfg d → ∀ t commits,
      c.trx.execs qs = some (t, commits) → t = c.trx ∧ commits = [] := by
    intro qs hpre t commits hqs
    rw [pgEvent, if_pos hskip] at hpre
    have hworks : ∀ q ∈ qs, Works q := fun q hq => works_of_mem_body (hpre.subset hq)
    have hnone : qs.filterMap Stmt.write? = [] := by
      have hbody : (body cfg d).filterMap Stmt.write? = writes cfg d := filterMap_body
      rw [writes_readOnly hro, List.filterMap_eq_nil_iff] at hbody
      exact List.filterMap_eq_nil_iff.mpr fun q hq => hbody q (hpre.subset hq)
    rcases hc with hidle | hlost
    · rw [hidle, execs_idle hworks, hnone] at hqs
      obtain ⟨rfl, rfl⟩ := Prod.mk.inj (Option.some.inj hqs)
      exact ⟨hidle.symm, rfl⟩
    · cases qs with
      | nil => exact (Prod.mk.inj (Option.some.inj hqs)).imp Eq.symm Eq.symm
      | cons q qs => simp [hlost, PgTrx.execs, PgTrx.exec] at hqs
  rcases runStmts_spec outcome 0 c (pgEvent cfg d) with
    ⟨hok, -, hall⟩ | ⟨hended, qs, t, hpre, hqs, -⟩
  · obtain ⟨htrx, hcommits⟩ := hexecs _ List.prefix_rfl _ _ hall
    exact ⟨.inl ⟨hok, by rwa [Rests, htrx]⟩, hcommits⟩
  · exact ⟨.inr hended, (hexecs _ hpre _ _ hqs).2⟩

/-- **One attempt** of a script that opens transactions, or only reads. -/
theorem attempt_whole {a : PgAttempt} (hcfg : cfg.skipTrx = false ∨ cfg.readOnly = true)
    (hc : Rests c) :
    WholeEvent cfg ⟨a, runStmts a.outcome 0 c (pgEvent cfg a.draws)⟩ ∧
      ((runStmts a.outcome 0 c (pgEvent cfg a.draws)).errno ≠ .failed →
        Rests (runStmts a.outcome 0 c (pgEvent cfg a.draws)).conn) := by
  cases hskip : cfg.skipTrx with
  | false =>
    rcases hc with hidle | hlost
    · rcases attempt_trx a.outcome a.draws hskip hidle with
        ⟨hok, htrx, hcommits⟩ | ⟨hended, hcommits⟩
      · refine ⟨⟨fun _ => by rw [hcommits], fun hne => absurd hok hne⟩, fun _ => .inl htrx⟩
      · refine ⟨⟨fun hok => absurd hok hended.errno_ne_none, fun _ => ?_⟩, hended.rests⟩
        rcases hcommits with hnil | ⟨hlost, hall⟩
        · exact .inl (by rw [hnil]; rfl)
        · exact .inr ⟨hlost, by rw [hall]⟩
    · have hne : pgEvent cfg a.draws ≠ [] := by simp [pgEvent_trx hskip]
      rw [runStmts_unknown a.outcome 0 hlost hne]
      exact ⟨⟨nofun, fun _ => .inl rfl⟩, fun _ => .inr hlost⟩
  | true =>
    have hro := hcfg.resolve_left (by simp [hskip])
    obtain ⟨hrun, hcommits⟩ := attempt_reads a.outcome a.draws hskip hro hc
    refine ⟨⟨fun _ => ?_, fun _ => .inl (by rw [hcommits]; rfl)⟩, fun hne => ?_⟩
    · rw [hcommits, writes_readOnly hro]
      rfl
    · exact hrun.elim And.right fun hended => hended.rests hne

/-! ## Every run of the workers -/

section Workers

variable {requests : ℕ} {outs : List PgRecord} {w w' : PgWorker} {a : PgAttempt} {r : PgRecord}

/-- **What a step of a worker does.** -/
theorem pgWorkerStep_eq (h : pgWorkerStep cfg w a = some (r, w')) :
    w.running = true ∧ 0 < w.requests ∧
      r = ⟨a, runStmts a.outcome 0 w.conn (pgEvent cfg a.draws)⟩ ∧ w'.conn = r.run.conn ∧
      w'.requests = (if r.run.errno = .none then w.requests - 1 else w.requests) ∧
      (w'.running = true → r.run.errno ≠ .failed) := by
  simp only [pgWorkerStep, Option.ite_none_right_eq_some, Option.some.injEq, Prod.mk.injEq] at h
  obtain ⟨⟨hrunning, hpos⟩, rfl, rfl⟩ := h
  refine ⟨hrunning, hpos, rfl, ?_, ?_, ?_⟩ <;> dsimp only <;> split <;> simp_all

/-- In every run each record is a whole event, and a worker that goes on rests. -/
theorem wholeEvents_of_trace (hcfg : cfg.skipTrx = false ∨ cfg.readOnly = true)
    (h : Trace (pgWorkerStep cfg) (startPgWorker requests) outs w) :
    (w.running = true → Rests w.conn) ∧ ∀ r ∈ outs, WholeEvent cfg r := by
  refine h.invariant (fun outs w => (w.running = true → Rests w.conn) ∧
    ∀ r ∈ outs, WholeEvent cfg r) ⟨fun _ => .inl rfl, by simp⟩ ?_
  intro outs w a r w' ⟨hrests, hall⟩ hstep
  obtain ⟨hrunning, -, rfl, hconn, -, hgo⟩ := pgWorkerStep_eq hstep
  obtain ⟨hwhole, hrests'⟩ := attempt_whole (a := a) hcfg (hrests hrunning)
  refine ⟨fun hon => hconn ▸ hrests' (hgo hon), ?_⟩
  simpa only [List.forall_mem_append, List.forall_mem_singleton] using ⟨hall, hwhole⟩

/-- Statements that all go through. -/
theorem runStmts_done {qs : List Stmt} {t : PgTrx} {commits : List (List Write)} {k : ℕ}
    (hdone : ∀ k, outcome k = {}) (h : c.trx.execs qs = some (t, commits)) :
    runStmts outcome k c qs = ⟨commits, ⟨t, c.live⟩, .none⟩ := by
  induction qs generalizing c k commits with
  | nil =>
    obtain ⟨rfl, rfl⟩ := Prod.mk.inj (Option.some.inj h)
    rfl
  | cons q qs ih =>
    obtain ⟨⟨t₁, commits₁⟩, hexec, h⟩ := Option.bind_eq_some_iff.mp h
    obtain ⟨⟨t₂, commits₂⟩, hexecs, h⟩ := Option.map_eq_some_iff.mp h
    obtain ⟨rfl, rfl⟩ := Prod.mk.inj h
    have hlive : c.trx ≠ .unknown := by
      rintro hc
      simp [hc, PgTrx.exec] at hexec
    have hquery : sbLuaDbQuery c q (outcome k) = ⟨commits₁, ⟨t₁, c.live⟩, .none⟩ := by
      simp [sbLuaDbQuery, pgsqlDrvQuery, pqExec, hlive, hdone, hexec, pgsqlCheckStatus]
    simp [runStmts, hquery, ih (c := ⟨t₁, c.live⟩) hexecs]

/-- Without a transaction each write of a complete event commits itself. -/
theorem runStmts_noTrx (hskip : cfg.skipTrx = true) (hc : c.trx = .idle)
    (hdone : ∀ k, outcome k = {}) :
    runStmts outcome 0 c (pgEvent cfg d)
      = ⟨(writes cfg d).map ([·]), ⟨.idle, c.live⟩, .none⟩ := by
  refine runStmts_done hdone ?_
  rw [hc, pgEvent, if_pos hskip, execs_idle fun q hq => works_of_mem_body hq, filterMap_body]

/-- Such an event is not whole. -/
theorem exists_splitEvent (hskip : cfg.skipTrx = true) (hro : cfg.readOnly = false) :
    ∃ outs w, Trace (pgWorkerStep cfg) (startPgWorker 1) outs w ∧
      (∀ r ∈ outs, r.attempt.draws = drawsOf 1) ∧ ∃ r ∈ outs, ¬ WholeEvent cfg r := by
  let a : PgAttempt := ⟨drawsOf 1, fun _ => {}⟩
  let r : PgRecord := ⟨a, ⟨(writes cfg a.draws).map ([·]), .fresh, .none⟩⟩
  have hrun : runStmts a.outcome 0 PgConn.fresh (pgEvent cfg a.draws) = r.run :=
    runStmts_noTrx hskip rfl fun _ => rfl
  have hstep : pgWorkerStep cfg (startPgWorker 1) a = some (r, ⟨.fresh, 0, true⟩) := by
    simp [pgWorkerStep, startPgWorker, hrun, r]
  refine ⟨[r], _, Trace.nil.snoc hstep, by simp [r, a], r, by simp, fun hwhole => ?_⟩
  -- two writes or more cannot be one commit
  have hlen : 2 ≤ (writes cfg a.draws).length :=
    two_le_length_writes.resolve_left (by simp [writes, hro])
  have hne : writes cfg a.draws ≠ [] := List.ne_nil_of_length_pos (by omega)
  have heq : (writes cfg a.draws).map ([·]) = [writes cfg a.draws] := by
    have hall := hwhole.complete rfl
    rwa [effective_singles, effective_one, if_neg hne] at hall
  have hone := congrArg List.length heq
  simp only [List.length_map, List.length_singleton] at hone
  omega

end Workers

/-- A commit that takes effect puts back the row it takes. -/
theorem applyCommit_of_mem {db : Tables} {r : PgRecord} {commit : List Write}
    (hr : WholeEvent cfg r) (hrow : r.attempt.draws.rowId ∈ db r.attempt.draws.table)
    (hmem : commit ∈ r.run.commits) : applyCommit db commit = db := by
  by_cases hnil : commit = []
  · rw [hnil]
    rfl
  · have hcommit : commit ∈ effective r.run.commits :=
      List.mem_filter.mpr ⟨hmem, by simpa using hnil⟩
    have heq : commit = writes cfg r.attempt.draws := by
      by_cases hok : r.run.errno = .none
      · rw [hr.complete hok] at hcommit
        exact List.mem_singleton.mp (List.mem_of_mem_filter hcommit)
      · rcases hr.ended hok with hnone | ⟨-, hall⟩
        · simp [hnone] at hcommit
        · rw [hall] at hcommit
          exact List.mem_singleton.mp (List.mem_of_mem_filter hcommit)
    rw [heq]
    exact applyCommit_writes_eq_iff.mpr fun _ => hrow

/-- **Atomic events**: each worker commits whole events and nothing else, and in whatever order the
commits of the workers take effect, the tables keep their rows. -/
structure AtomicPg {ι : Type} (cfg : OltpConfig) (db : Tables) (outs : ι → List PgRecord) :
    Prop where
  whole : ∀ i, ∀ r ∈ outs i, WholeEvent cfg r
  rows : ∀ log : List (List Write), (∀ commit ∈ log, ∃ i, ∃ r ∈ outs i, commit ∈ r.run.commits) →
    log.foldl applyCommit db = db

/-- **On PostgreSQL every run of `oltp.lua` is atomic, however its statements fail**, exactly when
the script opens transactions or writes nothing: for any number of workers and whatever they draw
from the rows of the tables. -/
theorem atomicPg_iff (cfg : OltpConfig) :
    (∀ (ι : Type) (db : Tables) (requests : ι → ℕ) (outs : ι → List PgRecord) (w : ι → PgWorker),
      (∀ i, Trace (pgWorkerStep cfg) (startPgWorker (requests i)) (outs i) (w i)) →
      (∀ i, ∀ r ∈ outs i, r.attempt.draws.rowId ∈ db r.attempt.draws.table) →
      AtomicPg cfg db outs) ↔
      cfg.skipTrx = false ∨ cfg.readOnly = true := by
  constructor
  · intro hall
    by_contra hcfg
    obtain ⟨hskip, hro⟩ := not_or.mp hcfg
    obtain ⟨outs, w, htrace, hdraws, r, hr, hsplit⟩ :=
      exists_splitEvent (Bool.not_eq_false _ ▸ hskip) (Bool.not_eq_true _ ▸ hro)
    have hat := hall Unit (fun _ => {1}) (fun _ => 1) (fun _ => outs) (fun _ => w) (fun _ => htrace)
      fun _ r hr => by simp [hdraws r hr, drawsOf]
    exact hsplit (hat.whole () r hr)
  · intro hcfg ι db requests outs w htraces hrows
    have hwhole := fun i => (wholeEvents_of_trace hcfg (htraces i)).2
    refine ⟨hwhole, fun log hlog => ?_⟩
    induction log with
    | nil => rfl
    | cons commit log ih =>
      obtain ⟨⟨i, r, hr, hmem⟩, htail⟩ := List.forall_mem_cons.mp hlog
      rw [List.foldl_cons, applyCommit_of_mem (hwhole i r hr) (hrows i r hr) hmem]
      exact ih htail

/-! ## Each request takes effect once -/

/-- The attempt came to its end. -/
def PgRecord.isComplete (r : PgRecord) : Bool := decide (r.run.errno = .none)

/-- **Commits and requests agree**: the commits are those of the complete attempts, as many as
requests were executed, and at most one more, under which the connection was lost. -/
structure ExactlyOnce (cfg : OltpConfig) (requests : ℕ) (outs : List PgRecord) (w : PgWorker)
    (last : List (List Write)) : Prop where
  commits : outs.flatMap (·.run.commits)
    = (outs.filter PgRecord.isComplete).map (fun r => writes cfg r.attempt.draws) ++ last
  executed : (outs.filter PgRecord.isComplete).length + w.requests = requests
  last : last = [] ∨ w.conn.trx = .unknown ∧
    ∃ r ∈ outs, r.isComplete = false ∧ last = [writes cfg r.attempt.draws]

section Workers

variable {requests : ℕ} {outs : List PgRecord} {w w' : PgWorker} {a : PgAttempt} {r : PgRecord}
  {last : List (List Write)}

/-- An attempt after which as much has been committed as before. -/
theorem ExactlyOnce.snoc_idle (h : ExactlyOnce cfg requests outs w last)
    (hr : r.isComplete = false) (hcommits : r.run.commits = []) (hreq : w'.requests = w.requests)
    (hlost : w.conn.trx = .unknown → w'.conn.trx = .unknown) :
    ExactlyOnce cfg requests (outs ++ [r]) w' last where
  commits := by simp [hcommits, h.commits, hr]
  executed := by simpa [hr, hreq] using h.executed
  last := h.last.imp_right fun ⟨htrx, r', hr', hlast⟩ =>
    ⟨hlost htrx, r', List.mem_append_left _ hr', hlast⟩

theorem exactlyOnce_step (hskip : cfg.skipTrx = false) (h : ExactlyOnce cfg requests outs w last)
    (hrests : Rests w.conn) (hstep : pgWorkerStep cfg w a = some (r, w')) :
    ∃ last', ExactlyOnce cfg requests (outs ++ [r]) w' last' := by
  obtain ⟨-, hpos, rfl, hconn, hreq, -⟩ := pgWorkerStep_eq hstep
  rcases hrests with hidle | hlost
  · have hnone : last = [] := h.last.resolve_right fun hl => by simp [hidle] at hl
    subst hnone
    rcases attempt_trx a.outcome a.draws hskip hidle with
      ⟨hok, -, hcommits⟩ | ⟨hended, hcommits⟩
    · rw [if_pos hok] at hreq
      have hr : PgRecord.isComplete ⟨a, runStmts a.outcome 0 w.conn (pgEvent cfg a.draws)⟩ = true :=
        decide_eq_true hok
      have hex := h.executed
      refine ⟨[], ?_, ?_, .inl rfl⟩
      · simp [h.commits, hcommits, hr]
      · simp only [List.filter_append, List.filter_cons, List.filter_nil, hr, if_true,
          List.length_append, List.length_singleton]
        omega
    · have hr :
          PgRecord.isComplete ⟨a, runStmts a.outcome 0 w.conn (pgEvent cfg a.draws)⟩ = false :=
        decide_eq_false hended.errno_ne_none
      rw [if_neg hended.errno_ne_none] at hreq
      rcases hcommits with hnil | ⟨hlost, hall⟩
      · exact ⟨[], h.snoc_idle hr hnil hreq fun hl => by simp [hidle] at hl⟩
      · refine ⟨[writes cfg a.draws], ?_, ?_, .inr ⟨hconn ▸ hlost, _, by simp, hr, rfl⟩⟩
        · simp [h.commits, hall, hr]
        · simpa [hr, hreq] using h.executed
  · have hne : pgEvent cfg a.draws ≠ [] := by simp [pgEvent_trx hskip]
    have hrun := runStmts_unknown a.outcome 0 hlost hne
    rw [hrun] at hreq hconn ⊢
    exact ⟨last, h.snoc_idle rfl rfl hreq fun _ => by rw [hconn, hlost]⟩

/-- **Every request takes effect exactly once**, in every run with transactions, however often its
attempts are restarted; only a connection that breaks under `COMMIT` leaves a commit without its
request, and then the worker does nothing more. -/
theorem request_exactly_once (hskip : cfg.skipTrx = false)
    (h : Trace (pgWorkerStep cfg) (startPgWorker requests) outs w) :
    ∃ last, ExactlyOnce cfg requests outs w last := by
  refine (h.invariant (fun outs w => (w.running = true → Rests w.conn) ∧
    ∃ last, ExactlyOnce cfg requests outs w last) ?_ ?_).2
  · exact ⟨fun _ => .inl rfl, [], rfl, by simp [startPgWorker], .inl rfl⟩
  · intro outs w a r w' ⟨hrests, last, honce⟩ hstep
    obtain ⟨hrunning, -, rfl, hconn, -, hgo⟩ := pgWorkerStep_eq hstep
    have hrests' := (attempt_whole (a := a) (.inl hskip) (hrests hrunning)).2
    exact ⟨fun hon => hconn ▸ hrests' (hgo hon),
      exactlyOnce_step hskip honce (hrests hrunning) hstep⟩

/-- What the server says of a deadlock. -/
def insertDeadlock : PgOutcome := { fate := .refused "ERROR:  deadlock detected" }

/-- The `INSERT` runs into a deadlock; the second attempt is complete. -/
theorem request_exactly_once_deadlock :
    ∃ outs w, Trace (pgWorkerStep {}) (startPgWorker 1) outs w ∧
      outs.map (·.run.errno) = [.restartTransaction, .none] ∧
      outs.flatMap (·.run.commits) = [writes {} (drawsOf 2)] := by
  have h₁ : Trace (pgWorkerStep {}) (startPgWorker 1) [_] _ :=
    Trace.nil.snoc (i := ⟨drawsOf 1, fun k => if k = 18 then insertDeadlock else {}⟩) rfl
  have h₂ := h₁.snoc (i := ⟨drawsOf 2, fun _ => {}⟩) rfl
  obtain ⟨last, honce⟩ := request_exactly_once rfl h₂
  have hlast : last = [] := honce.last.resolve_right fun hl => absurd hl.1 (by decide)
  refine ⟨_, _, h₂, by decide, honce.commits.trans ?_⟩
  rw [hlast]
  rfl

end Workers

/-! ## What is never cleared -/

/-- The `PGresult`s a call leaves behind. -/
def leaks : DbError → ℕ
  | .none => 0
  | .restartTransaction => 2
  | _ => 1

/-- The connection holds. -/
def PgOutcome.holds (o : PgOutcome) : Bool :=
  match o.fate with
  | .broken .. => false
  | _ => o.rollback.isNone

section Leaks

variable {q : Stmt} {qs : List Stmt} {o : PgOutcome} {k : ℕ}

theorem exec_ne_unknown {t t' : PgTrx} {commits : List (List Write)}
    (h : t.exec q = some (t', commits)) : t' ≠ .unknown := by
  rintro rfl
  revert h
  cases t <;> cases q <;> simp [PgTrx.exec]

theorem refuse_ne_unknown {t : PgTrx} (ht : t ≠ .unknown) : t.refuse q ≠ .unknown := by
  cases t <;> cases q <;> first | exact (ht rfl).elim | simp [PgTrx.refuse]

theorem pqExec_holds {t : PgTrx} (ht : t ≠ .unknown) (ho : o.holds = true) :
    (pqExec t q o.fate).trx ≠ .unknown ∧ (pqExec t q o.fate).result = true := by
  simp only [pqExec, ht, if_false]
  cases hfate : o.fate with
  | done =>
    cases hexec : t.exec q with
    | none => exact ⟨refuse_ne_unknown ht, rfl⟩
    | some r => exact ⟨exec_ne_unknown hexec, rfl⟩
  | refused text => exact ⟨refuse_ne_unknown ht, rfl⟩
  | broken => simp [PgOutcome.holds, hfate] at ho

theorem sbLuaDbQuery_live (hc : c.trx ≠ .unknown) (ho : o.holds = true) :
    (sbLuaDbQuery c q o).conn.trx ≠ .unknown ∧
      (sbLuaDbQuery c q o).conn.live = c.live + leaks (sbLuaDbQuery c q o).errno := by
  obtain ⟨htrx, hres⟩ := pqExec_holds (q := q) hc ho
  have hrollback : o.rollback = none := by
    revert ho
    unfold PgOutcome.holds
    split <;> simp
  cases herr : (pqExec c.trx q o.fate).error with
  | none =>
    simp [sbLuaDbQuery, pgsqlDrvQuery, pgsqlCheckStatus, herr, hres, htrx, leaks]
  | some errmsg =>
    cases hrestarts : restarts errmsg <;>
      simp [sbLuaDbQuery, pgsqlDrvQuery, pgsqlCheckStatus, PgConn.rollback, herr, hres, htrx, leaks,
        hrestarts, hrollback]

theorem runStmts_live (qs : List Stmt) (k : ℕ) (hc : c.trx ≠ .unknown)
    (ho : ∀ k, (outcome k).holds = true) :
    (runStmts outcome k c qs).conn.trx ≠ .unknown ∧
      (runStmts outcome k c qs).conn.live = c.live + leaks (runStmts outcome k c qs).errno := by
  induction qs generalizing c k with
  | nil => exact ⟨hc, rfl⟩
  | cons q qs ih =>
    obtain ⟨htrx, hlive⟩ := sbLuaDbQuery_live (q := q) hc (ho k)
    simp only [runStmts]
    split_ifs with hok
    · rw [hok] at hlive
      obtain ⟨htrx', hlive'⟩ := ih (k + 1) htrx
      exact ⟨htrx', by rw [hlive', hlive]; rfl⟩
    · exact ⟨htrx, hlive⟩

end Leaks

/-- **The driver keeps one `PGresult` for a failure and two for a restart**, over every run on a
connection that holds; a statement that succeeds leaves none. -/
theorem results_leaked {requests : ℕ} {outs : List PgRecord} {w : PgWorker}
    (h : Trace (pgWorkerStep cfg) (startPgWorker requests) outs w)
    (ho : ∀ r ∈ outs, ∀ k, (r.attempt.outcome k).holds = true) :
    w.conn.live = (outs.map fun r => leaks r.run.errno).sum := by
  have hall := h.invariant (fun outs w => (∀ r ∈ outs, ∀ k, (r.attempt.outcome k).holds = true) →
    w.conn.trx ≠ .unknown ∧ w.conn.live = (outs.map fun r => leaks r.run.errno).sum) ?_ ?_
  · exact (hall ho).2
  · exact fun _ => ⟨nofun, rfl⟩
  · intro outs w a r w' ih hstep ho
    obtain ⟨hbefore, hlast⟩ := List.forall_mem_append.mp ho
    obtain ⟨htrx, hlive⟩ := ih hbefore
    obtain ⟨-, -, rfl, hconn, -, -⟩ := pgWorkerStep_eq hstep
    obtain ⟨htrx', hlive'⟩ := runStmts_live (pgEvent cfg a.draws) 0 htrx
      (List.forall_mem_singleton.mp hlast)
    refine ⟨hconn ▸ htrx', ?_⟩
    rw [hconn, hlive', hlive]
    simp

/-- A deadlock and then a complete attempt. -/
theorem results_leaked_deadlock :
    ∃ outs w, Trace (pgWorkerStep {}) (startPgWorker 1) outs w ∧
      outs.map (·.run.errno) = [.restartTransaction, .none] ∧ w.conn.live = 2 := by
  have h₁ : Trace (pgWorkerStep {}) (startPgWorker 1) [_] _ :=
    Trace.nil.snoc (i := ⟨drawsOf 1, fun k => if k = 18 then insertDeadlock else {}⟩) rfl
  have h₂ := h₁.snoc (i := ⟨drawsOf 2, fun _ => {}⟩) rfl
  refine ⟨_, _, h₂, by decide, (results_leaked h₂ ?_).trans (by decide)⟩
  intro r hr k
  simp only [List.mem_append, List.mem_singleton] at hr
  rcases hr with rfl | rfl
  · dsimp only
    split_ifs <;> rfl
  · rfl

end Sysbench.Scripting.Pg
