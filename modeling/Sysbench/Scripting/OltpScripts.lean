import Sysbench.Scripting.ScriptLua

/-!
# Scripting/OltpScripts — `oltp.lua` and `oltp-xa.lua`

Both scripts send the same reads and writes; they differ in the statements around them.  The numbers
`sb_rand` returns are arbitrary here: what it is asked for is a row of the table, but it is not
bound to give one.
-/

namespace Sysbench.Scripting

/-- The options of the scripts, as `set_vars` leaves them. -/
structure OltpConfig where
  mysqlTableEngine : String := "innodb"
  rangeSize : ℤ := 100
  pointSelects : ℕ := 10
  simpleRanges : ℕ := 1
  sumRanges : ℕ := 1
  orderRanges : ℕ := 1
  distinctRanges : ℕ := 1
  indexUpdates : ℕ := 1
  nonIndexUpdates : ℕ := 1
  useXaPct : ℚ := 0
  useXa2pcPct : ℚ := 100
  readOnly : Bool := false
  writeOnly : Bool := false
  skipTrx : Bool := false

/-- What one call of `event()` draws. -/
structure Draws where
  useXa : ℤ
  table : ℤ
  pointId : ℕ → ℤ
  rangeStart : RangeQuery → ℕ → ℤ
  indexId : ℕ → ℤ
  nonIndexId : ℕ → ℤ
  cVal : ℕ → String
  rowId : ℤ
  rowK : ℤ
  rowC : String
  rowPad : String
  twoPhase : ℤ

/-- Wherever `event()` draws a row, it gets row `id` of table 1. -/
def drawsOf (id : ℤ) : Draws where
  useXa := 1
  table := 1
  pointId _ := id
  rangeStart _ _ := id
  indexId _ := id
  nonIndexId _ := id
  cVal _ := ""
  rowId := id
  rowK := id
  rowC := ""
  rowPad := ""
  twoPhase := 1

variable (cfg : OltpConfig) (d : Draws)

/-- `n` range queries of one kind. -/
def ranges (query : RangeQuery) (n : ℕ) : List Stmt :=
  (List.range n).map fun i =>
    .rangeSelect query d.table (d.rangeStart query i) (d.rangeStart query i + (cfg.rangeSize - 1))

/-- The statements that are left out with `oltp_write_only`. -/
def reads : List Stmt :=
  if cfg.writeOnly then []
  else (List.range cfg.pointSelects).map (fun i => .pointSelect d.table (d.pointId i)) ++
    ranges cfg d .simple cfg.simpleRanges ++ ranges cfg d .sum cfg.sumRanges ++
    ranges cfg d .order cfg.orderRanges ++ ranges cfg d .distinct cfg.distinctRanges

/-- The updates, which touch no id. -/
def updates : List Write :=
  (List.range cfg.indexUpdates).map (fun i => .updateIndex d.table (d.indexId i)) ++
    (List.range cfg.nonIndexUpdates).map
      (fun i => .updateNonIndex d.table (d.nonIndexId i) (d.cVal i))

/-- The statements that are left out with `oltp_read_only`. -/
def writes : List Write :=
  if cfg.readOnly then []
  else updates cfg d ++
    [.delete d.table d.rowId, .insert d.table d.rowId d.rowK d.rowC d.rowPad]

/-- What both scripts do between the first and the last statement. -/
def body : List Stmt := reads cfg d ++ (writes cfg d).map .write

/-- `begin_query`. -/
def beginQuery : Stmt := if cfg.mysqlTableEngine = "myisam" then .lockTables else .beginTrx

/-- `commit_query`. -/
def commitQuery : Stmt := if cfg.mysqlTableEngine = "myisam" then .unlockTables else .commit

/-- `event` of `oltp.lua`. -/
def oltpEvent : List Stmt :=
  if cfg.skipTrx then body cfg d else beginQuery cfg :: (body cfg d ++ [commitQuery cfg])

/-- `use_xa`. -/
def usesXa : Bool := d.useXa ≤ cfg.useXaPct

/-- `xatxnid`. -/
def xatxnid (threadId : ℕ) : String := "xa_" ++ toString threadId

/-- `end_xa`. -/
def endXa (xid : String) (nphases : ℕ) : List Stmt :=
  if nphases = 2 then [.xaEnd xid, .xaPrepare xid, .xaCommit xid]
  else [.xaEnd xid, .xaCommitOnePhase xid]

/-- `start_txn_stmt`. -/
def startTxnStmt (threadId : ℕ) : Stmt :=
  if usesXa cfg d then .xaStart (xatxnid threadId) else beginQuery cfg

/-- The statements at the end of `event` of `oltp-xa.lua`, where `commit_query` is always
`COMMIT`. -/
def endTxnStmts (threadId : ℕ) : List Stmt :=
  if usesXa cfg d then endXa (xatxnid threadId) (if cfg.useXa2pcPct < d.twoPhase then 1 else 2)
  else [.commit]

/-- `event` of `oltp-xa.lua`. -/
def oltpXaEvent (threadId : ℕ) : List Stmt :=
  if cfg.skipTrx then body cfg d
  else startTxnStmt cfg d threadId :: (body cfg d ++ endTxnStmts cfg d threadId)

/-- The calls of the body of an attempt. -/
def bodyCalls (a : Attempt Draws) : List Call := callsFrom a.outcome 1 (body cfg a.draws)

/-! ## The reads and writes on a session -/

section Calls

variable {o : ℕ → Outcome} {k : ℕ}

@[simp] theorem callsFrom_nil : callsFrom o k [] = [] := rfl

@[simp] theorem callsFrom_cons {q : Stmt} {qs : List Stmt} :
    callsFrom o k (q :: qs) = (q, o k) :: callsFrom o (k + 1) qs := by
  simp [callsFrom, List.zipIdx_cons]

@[simp] theorem callsFrom_append {qs qs' : List Stmt} :
    callsFrom o k (qs ++ qs') = callsFrom o k qs ++ callsFrom o (k + qs.length) qs' := by
  simp [callsFrom, List.zipIdx_append]

/-- Statements that do not fail make all their writes. -/
theorem writesMade_of_ok {qs : List Stmt} (hf : failure? (callsFrom o k qs) = none) :
    writesMade (callsFrom o k qs) = qs.filterMap Stmt.write? := by
  have hfst : (callsFrom o k qs).map Prod.fst = qs := by
    simp [callsFrom, Function.comp_def, List.zipIdx_map_fst]
  conv_rhs => rw [← hfst, List.filterMap_map]
  rw [writesMade, executed_of_ok hf]
  rfl

theorem forall_mem_callsFrom {P : Stmt → Prop} {qs : List Stmt} (h : ∀ q ∈ qs, P q) :
    ∀ c ∈ callsFrom o k qs, P c.1 := by
  intro c hc
  simp only [callsFrom, List.mem_map] at hc
  obtain ⟨x, hx, rfl⟩ := hc
  exact h _ (List.fst_mem_of_mem_zipIdx hx)

end Calls

variable {cfg d} {p : ErrorPolicy} {s : Session} {calls : List Call}

theorem hasRows_of_mem_reads {q : Stmt} (h : q ∈ reads cfg d) : q.hasRows = true := by
  simp only [reads, ranges, List.mem_ite_nil_left, List.mem_append, List.mem_map] at h
  rcases h.2 with (((⟨i, -, rfl⟩ | ⟨i, -, rfl⟩) | ⟨i, -, rfl⟩) | ⟨i, -, rfl⟩) | ⟨i, -, rfl⟩ <;> rfl

/-- What is answered by rows writes none. -/
theorem write?_of_hasRows {q : Stmt} (h : q.hasRows = true) : q.write? = none := by
  cases q with
  | write => cases h
  | _ => rfl

theorem filterMap_body : (body cfg d).filterMap Stmt.write? = writes cfg d := by
  have hreads : (reads cfg d).filterMap Stmt.write? = [] :=
    List.filterMap_eq_nil_iff.mpr fun q hq => write?_of_hasRows (hasRows_of_mem_reads hq)
  rw [body, List.filterMap_append, hreads, List.filterMap_map]
  simp [Function.comp_def, Stmt.write?]

theorem filterMap_oltpEvent : (oltpEvent cfg d).filterMap Stmt.write? = writes cfg d := by
  have hbegin : (beginQuery cfg).write? = none := by unfold beginQuery; split_ifs <;> rfl
  have hcommit : (commitQuery cfg).write? = none := by unfold commitQuery; split_ifs <;> rfl
  unfold oltpEvent
  split_ifs
  · exact filterMap_body
  · simp [hbegin, hcommit, filterMap_body]

/-- **The calls of a body**: reads, then writes. -/
def IsBody (calls : List Call) : Prop :=
  ∃ rs ws : List Call, calls = rs ++ ws ∧ (∀ c ∈ rs, c.1.hasRows = true) ∧
    ∀ c ∈ ws, ∃ w, c.1 = .write w

theorem isBody_body {o : ℕ → Outcome} {k : ℕ} : IsBody (callsFrom o k (body cfg d)) := by
  refine ⟨_, _, callsFrom_append, forall_mem_callsFrom fun q => hasRows_of_mem_reads,
    forall_mem_callsFrom (P := fun q => ∃ w, q = .write w) fun q hq => ?_⟩
  obtain ⟨w, -, rfl⟩ := List.mem_map.mp hq
  exact ⟨w, rfl⟩

theorem runs_reads (hcalls : ∀ c ∈ calls, c.1.hasRows = true) (hs : s.trx.works = true) :
    Runs p s calls (if rowsLost p s.trx.held calls then .fresh else s) [] := by
  induction calls generalizing s with
  | nil => simpa [rowsLost, executed] using Runs.nil
  | cons c calls ih =>
    obtain ⟨q, o⟩ := c
    obtain ⟨hq, hcalls⟩ := List.forall_mem_cons.mp hcalls
    have hnext := next_of_hasRows hs hq
    cases ho : o.query with
    | some f => simpa [rowsLost, executed, ho] using Runs.failed (by simp [Legal, hnext]) ho
    | none =>
      have hlost : rowsLost p s.trx.held ((q, o) :: calls)
          = (o.store.any (loses p s.trx.held) || rowsLost p s.trx.held calls) := by
        simp [rowsLost, executed, ho, hq]
      have hstore : dbStoreResults p q o (s.exec s.trx q).1
          = if o.store.any (loses p s.trx.held) then .fresh else s := by
        rw [dbStoreResults, if_pos hq, exec_of_hasRows hq]
        cases o.store <;> rfl
      suffices h : Runs p (dbStoreResults p q o (s.exec s.trx q).1) calls
          (if rowsLost p s.trx.held ((q, o) :: calls) then .fresh else s) [] by
        simpa [exec_of_hasRows hq] using Runs.cons hnext ho h
      rw [hstore, hlost]
      cases o.store.any (loses p s.trx.held) with
      | true => simpa using ih hcalls (s := .fresh) rfl
      | false => simpa using ih hcalls hs

theorem writesMade_write {w : Write} {o : Outcome} (ho : o.query = none) :
    writesMade ((.write w, o) :: calls) = w :: writesMade calls := by
  simp [writesMade, executed, ho, Stmt.write?]

/-- The session after the writes `ws`, and what they have committed: in a transaction they wait for
its end, outside one each commits itself. -/
def Session.work (s : Session) (ws : List Write) : Session × List (List Write) :=
  if s.trx = .outside then (s, ws.map ([·])) else (⟨s.trx, s.pending ++ ws⟩, [])

theorem work_nil : s.work [] = (s, []) := by
  unfold Session.work
  split_ifs <;> simp

theorem work_cons (w : Write) (ws : List Write) :
    s.work (w :: ws) = (((s.work [w]).1.work ws).1,
      (s.work [w]).2 ++ ((s.work [w]).1.work ws).2) := by
  by_cases ht : s.trx = .outside <;> simp [Session.work, ht]

theorem work_trx (ws : List Write) : (s.work ws).1.trx = s.trx := by
  unfold Session.work
  split_ifs <;> rfl

theorem runs_writes (hcalls : ∀ c ∈ calls, ∃ w, c.1 = .write w) (hs : s.trx.works = true) :
    Runs p s calls (s.work (writesMade calls)).1 (s.work (writesMade calls)).2 := by
  induction calls generalizing s with
  | nil => simpa [writesMade, executed, work_nil] using Runs.nil
  | cons c calls ih =>
    obtain ⟨q, o⟩ := c
    obtain ⟨⟨w, rfl⟩, htail⟩ := List.forall_mem_cons.mp hcalls
    have hnext : s.trx.next (.write w) = some s.trx := if_pos hs
    cases ho : o.query with
    | some f =>
      simpa [writesMade, executed, ho, work_nil] using Runs.failed (by simp [Legal, hnext]) ho
    | none =>
      rw [writesMade_write ho, work_cons]
      refine Runs.cons hnext ho ?_
      exact ih htail (show (s.work [w]).1.trx.works = true by rw [work_trx, hs])

/-- Reads make no writes. -/
theorem writesMade_reads (hcalls : ∀ c ∈ calls, c.1.hasRows = true) : writesMade calls = [] := by
  refine List.filterMap_eq_nil_iff.mpr fun c hc => ?_
  exact write?_of_hasRows (hcalls c ((List.takeWhile_sublist _).mem hc))

/-- Writes are not answered by rows. -/
theorem rowsLost_writes {h : Held} (hcalls : ∀ c ∈ calls, ∃ w, c.1 = .write w) :
    rowsLost p h calls = false := by
  refine List.any_eq_false.mpr fun c hc => ?_
  obtain ⟨w, hw⟩ := hcalls c ((List.takeWhile_sublist _).mem hc)
  simp [hw, Stmt.hasRows]

/-- **The body of an event** reads, and so may lose what the session holds; then it writes. -/
theorem runs_body (hb : IsBody calls) (hs : s.trx.works = true) :
    Runs p s calls
      ((if rowsLost p s.trx.held calls then .fresh else s : Session).work (writesMade calls)).1
      ((if rowsLost p s.trx.held calls then .fresh else s : Session).work
        (writesMade calls)).2 := by
  obtain ⟨rs, ws, rfl, hrs, hws⟩ := hb
  have hreads := runs_reads (p := p) hrs hs
  cases hf : failure? rs with
  | some f =>
    have hlost : rowsLost p s.trx.held (rs ++ ws) = rowsLost p s.trx.held rs := by
      simp [rowsLost, executed_append_of_failed hf]
    have hmade : writesMade (rs ++ ws) = [] := by
      rw [writesMade, executed_append_of_failed hf]
      exact writesMade_reads hrs
    rw [hlost, hmade, work_nil]
    exact hreads.append_of_failed hf
  | none =>
    have hlost : rowsLost p s.trx.held (rs ++ ws) = rowsLost p s.trx.held rs := by
      have hrows := rowsLost_writes (p := p) (h := s.trx.held) hws
      simp only [rowsLost] at hrows ⊢
      rw [executed_append_of_ok hf, List.any_append, hrows, executed_of_ok hf, Bool.or_false]
    have hmade : writesMade (rs ++ ws) = writesMade ws := by
      have hnone := writesMade_reads hrs
      simp only [writesMade] at hnone ⊢
      rw [executed_append_of_ok hf, List.filterMap_append, ← executed_of_ok hf, hnone,
        List.nil_append]
    rw [hlost, hmade]
    refine hreads.append hf (runs_writes hws ?_)
    split_ifs
    · rfl
    · exact hs

/-- A transaction that is not lost keeps the writes. -/
theorem runs_body_kept (hb : IsBody calls) (hl : rowsLost p .transaction calls = false) :
    Runs p ⟨.plain, []⟩ calls ⟨.plain, writesMade calls⟩ [] := by
  have h := runs_body (p := p) (s := ⟨.plain, []⟩) hb rfl
  simp only [Trx.held, hl, Bool.false_eq_true, if_false] at h
  exact h

/-- A transaction that is lost leaves the writes to themselves. -/
theorem runs_body_lost (hb : IsBody calls) (hl : rowsLost p .transaction calls = true) :
    Runs p ⟨.plain, []⟩ calls .fresh ((writesMade calls).map ([·])) := by
  have h := runs_body (p := p) (s := ⟨.plain, []⟩) hb rfl
  simp only [Trx.held, hl, if_true] at h
  exact h

/-- So does a session that has no transaction. -/
theorem runs_body_fresh (hb : IsBody calls) :
    Runs p .fresh calls .fresh ((writesMade calls).map ([·])) := by
  have h := runs_body (p := p) (s := .fresh) hb rfl
  rw [ite_self] at h
  exact h

/-- A statement that ends the transaction. -/
theorem runs_closing {q : Stmt} {o : Outcome} (hnext : s.trx.next q = some .outside)
    (hexec : s.exec .outside q = (.fresh, [s.pending])) (hrows : q.hasRows = false) :
    Runs p s [(q, o)] (if o.query = none then .fresh else s)
      (if o.query = none then [s.pending] else []) := by
  cases ho : o.query with
  | some f => simpa using Runs.failed (by simp [Legal, hnext]) ho
  | none =>
    simpa using Runs.cons_of_exec hnext ho hexec hrows Runs.nil

end Sysbench.Scripting
