import Sysbench.Database.Emulation

/-!
# Database/ReportDeltas — what an intermediate report subtracts

An intermediate report prints, for five sums over the counters of the threads, the difference to
what the sum was at the previous intermediate report; a cumulative report clears the counters and
these **baselines** with them.  `db_reset_stats` lists what it clears by hand, and leaves out
`last_reconnects`.

So four of the five differences are always right.  The fifth is right unless a cumulative report
came between two intermediate ones and the first of them had seen a reconnect: then the baseline is
left over from before the reset, and the difference is too small by it, or underflows.
-/

namespace Sysbench.Database

open Scripting (DbError)

/-- The sums an intermediate report prints, each with its `last_` variable. -/
inductive Shown
  | transactions
  | readOps
  | writeOps
  | errors
  | reconnects
  deriving DecidableEq, Repr

/-- The counter of thread `i`. -/
def threadCount {W : Type} (db : DbState W) (i : ℕ) : Shown → ℕ
  | .transactions => db.stats i .transactions
  | .readOps => db.stats i .readOps
  | .writeOps => db.stats i .writeOps
  | .errors => db.errors i
  | .reconnects => db.reconnects i

/-- The counters of the threads, and the `last_` variables. -/
structure Reporting where
  db : DbState Unit
  last : Shown → ℕ

/-- The sum over the `n` threads. -/
def Reporting.summed (n : ℕ) (s : Reporting) (c : Shown) : ℕ :=
  ∑ i ∈ Finset.range n, threadCount s.db i c

/-- `db_reset_stats`. -/
def dbResetStats (n : ℕ) (s : Reporting) : Reporting where
  db :=
    { s.db with
      stats := fun i => if i < n then 0 else s.db.stats i
      errors := fun i => if 0 ≤ i ∧ i < n then 0 else s.db.errors i
      reconnects := fun i => if 0 ≤ i ∧ i < n then 0 else s.db.reconnects i }
  last
    | .transactions => 0
    | .readOps => 0
    | .writeOps => 0
    | .errors => 0
    | .reconnects => s.last .reconnects

/-- A call of thread `id` that the driver answers with `code`, a query or a prepared statement; or
a report. -/
inductive ReportMove
  | query (id : ℕ) (text : List UInt8) (code : DbError)
  | execute (id : ℕ) (stmt : EmulatedStmt Unit) (code : DbError)
  | intermediate
  | cumulative

/-- One step with `n` threads, a report being one step. -/
def reportMove (n : ℕ) (s : Reporting) : ReportMove → Option Reporting
  | .query id text code =>
    if id < n then
      some { s with db := (dbQuery (fun _ _ => (code, (none : Option Unit), ())) id s.db text).2 }
    else none
  | .execute id stmt code =>
    if id < n then
      (dbExecute (fun _ _ => .ok (code, (none : Option Unit), ())) id s.db stmt).toOption.map
        fun p => { s with db := p.2 }
    else none
  | .intermediate => some { s with last := s.summed n }
  | .cumulative => some (dbResetStats n s)

/-- Before the first query. -/
def startReporting : Reporting := ⟨⟨.none, fun _ => 0, fun _ => 0, fun _ => 0, ()⟩, fun _ => 0⟩

/-! ## What is counted, and since when -/

/-- What a call counts for that executed a query of a type and was answered with `code`. -/
def callCount (type : QueryType) (code : DbError) : Shown → ℕ
  | .transactions => if code = .none then type.counts .transactions else 0
  | .readOps => if code = .none then type.counts .readOps else 0
  | .writeOps => if code = .none then type.counts .writeOps else 0
  | .errors => if code = .restartTransaction then 1 else 0
  | .reconnects => if code = .reconnected then 1 else 0

/-- The events since the later of the last intermediate report and the last reset, after a step. -/
def ReportMove.since (c : Shown) (k : ℕ) : ReportMove → ℕ
  | .query _ text code => k + callCount (queryType text) code c
  | .execute _ stmt code => k + callCount stmt.type code c
  | .intermediate | .cumulative => 0

/-- There was a reset since the last intermediate report, after a step. -/
def ReportMove.reset (b : Bool) : ReportMove → Bool
  | .query _ _ _ | .execute _ _ _ => b
  | .intermediate => false
  | .cumulative => true

/-- The number of events of a kind since the later of the last intermediate report and the last
reset. -/
def eventsSince (c : Shown) (hist : List (Reporting × ReportMove)) : ℕ :=
  hist.foldl (fun k e => e.2.since c k) 0

/-- There was a cumulative report since the last intermediate one. -/
def resetSince (hist : List (Reporting × ReportMove)) : Bool :=
  hist.foldl (fun b e => e.2.reset b) false

/-- **The differences of a report are right**: no sum is below its baseline, and what it exceeds it
by are the events since the later of the last intermediate report and the last reset. -/
def DeltasRight (n : ℕ) (before : List (Reporting × ReportMove)) (s : Reporting) : Prop :=
  ∀ c, s.last c ≤ s.summed n c ∧ s.summed n c - s.last c = eventsSince c before

variable {n : ℕ} {s s' : Reporting} {hist before after : List (Reporting × ReportMove)}
  {c : Shown}

/-! ## One step -/

/-- The counters after a call that ended with `code`. -/
theorem threadCount_call {W : Type} {db db' : DbState W} {id : ℕ} {type : QueryType}
    (code : DbError)
    (hstats : db'.stats = if code = .none then dbUpdateThreadStats db.stats id type else db.stats)
    (herrors : db'.errors = (db.fail id code).errors)
    (hreconnects : db'.reconnects = (db.fail id code).reconnects) (i : ℕ) (c : Shown) :
    threadCount db' i c = threadCount db i c + if i = id then callCount type code c else 0 := by
  have hid : ¬ (id : ℤ) < 0 := not_lt.mpr (Int.natCast_nonneg id)
  rcases eq_or_ne i id with rfl | hne
  · cases code <;> cases c <;>
      simp [threadCount, callCount, hstats, herrors, hreconnects, DbState.fail,
        dbUpdateThreadStats, hid]
  · have hne' : (i : ℤ) ≠ id := fun heq => hne (Int.ofNat.inj heq)
    cases code <;> cases c <;>
      simp [threadCount, hstats, herrors, hreconnects, DbState.fail, dbUpdateThreadStats, hid, hne,
        hne']

/-- A call adds to the sums what it counts for. -/
theorem summed_call {id : ℕ} {type : QueryType} (code : DbError) (hid : id < n)
    (hstats : s'.db.stats
      = if code = .none then dbUpdateThreadStats s.db.stats id type else s.db.stats)
    (herrors : s'.db.errors = (s.db.fail id code).errors)
    (hreconnects : s'.db.reconnects = (s.db.fail id code).reconnects) (c : Shown) :
    s'.summed n c = s.summed n c + callCount type code c := by
  unfold Reporting.summed
  rw [Finset.sum_congr rfl fun i _ => threadCount_call code hstats herrors hreconnects i c,
    Finset.sum_add_distrib, Finset.sum_ite_eq', if_pos (Finset.mem_range.mpr hid)]

/-- A reset clears the sums. -/
theorem summed_dbResetStats (c : Shown) : (dbResetStats n s).summed n c = 0 := by
  refine Finset.sum_eq_zero fun i hi => ?_
  have hi := Finset.mem_range.mp hi
  cases c <;> simp [threadCount, dbResetStats, hi]

/-- **What a step does**: a call adds what it counts for, and the reports set baselines. -/
theorem reportMove_cases {m : ReportMove} (h : reportMove n s m = some s') :
    (s'.last = s.last ∧ (∀ c k, m.since c k + s.summed n c = k + s'.summed n c) ∧
      ∀ b, m.reset b = b) ∨
    (m = .intermediate ∧ s' = { s with last := s.summed n }) ∨
    (m = .cumulative ∧ s' = dbResetStats n s) := by
  cases m with
  | query id text code =>
    obtain ⟨hid, h⟩ := Option.ite_none_right_eq_some.mp h
    have hs := Option.some.inj h
    have hsum : ∀ c, s'.summed n c = s.summed n c + callCount (queryType text) code c := by
      refine summed_call code hid ?_ ?_ ?_ <;> rw [← hs] <;> cases code <;> rfl
    refine .inl ⟨by rw [← hs], fun c k => ?_, fun b => rfl⟩
    rw [hsum, ReportMove.since]
    omega
  | execute id stmt code =>
    obtain ⟨hid, h⟩ := Option.ite_none_right_eq_some.mp h
    obtain ⟨p, hp, hs⟩ := Option.map_eq_some_iff.mp h
    have hsum : ∀ c, s'.summed n c = s.summed n c + callCount stmt.type code c := by
      refine summed_call code hid ?_ ?_ ?_ <;> rw [← hs] <;> cases code <;> cases hp <;> rfl
    refine .inl ⟨by rw [← hs], fun c k => ?_, fun b => rfl⟩
    rw [hsum, ReportMove.since]
    omega
  | intermediate =>
    obtain rfl := Option.some.inj h
    exact .inr (.inl ⟨rfl, rfl⟩)
  | cumulative =>
    obtain rfl := Option.some.inj h
    exact .inr (.inr ⟨rfl, rfl⟩)

/-! ## Whole runs -/

/-- **The baselines at any time**: those that a reset clears are behind the sums by the events
since; the one it does not clear is, unless there was a reset. -/
structure Baselines (n : ℕ) (hist : List (Reporting × ReportMove)) (s : Reporting) : Prop where
  cleared : ∀ c, c ≠ .reconnects → s.summed n c = s.last c + eventsSince c hist
  current : resetSince hist = false →
    s.summed n .reconnects = s.last .reconnects + eventsSince .reconnects hist
  stale : resetSince hist = true → s.summed n .reconnects = eventsSince .reconnects hist

theorem baselines_start (n : ℕ) : Baselines n [] startReporting := by
  have hzero : ∀ c, startReporting.summed n c = 0 := fun c =>
    Finset.sum_eq_zero fun i _ => by cases c <;> rfl
  exact ⟨fun c _ => hzero c, fun _ => hzero _, fun _ => hzero _⟩

theorem eventsSince_concat (c : Shown) (hist : List (Reporting × ReportMove)) (m : ReportMove) :
    eventsSince c (hist ++ [(s, m)]) = m.since c (eventsSince c hist) := by
  simp [eventsSince]

theorem resetSince_concat (hist : List (Reporting × ReportMove)) (m : ReportMove) :
    resetSince (hist ++ [(s, m)]) = m.reset (resetSince hist) := by
  simp [resetSince]

/-- **One step.** -/
theorem Baselines.step {m : ReportMove} (hB : Baselines n hist s)
    (h : reportMove n s m = some s') : Baselines n (hist ++ [(s, m)]) s' := by
  rcases reportMove_cases h with ⟨hlast, hsum, hreset⟩ | ⟨rfl, rfl⟩ | ⟨rfl, rfl⟩
  · have hadd : ∀ c, s'.summed n c + eventsSince c hist
        = s.summed n c + eventsSince c (hist ++ [(s, m)]) := fun c => by
      rw [eventsSince_concat, add_comm (s'.summed n c), ← hsum, add_comm]
    refine ⟨fun c hc => ?_, fun hno => ?_, fun hyes => ?_⟩
    · have hc' := hB.cleared c hc
      have := hadd c
      rw [hlast]
      omega
    · rw [resetSince_concat, hreset] at hno
      have hc' := hB.current hno
      have := hadd .reconnects
      rw [hlast]
      omega
    · rw [resetSince_concat, hreset] at hyes
      have hc' := hB.stale hyes
      have := hadd .reconnects
      omega
  · refine ⟨fun c _ => ?_, fun _ => ?_, fun hyes => ?_⟩
    · rw [eventsSince_concat]
      rfl
    · rw [eventsSince_concat]
      rfl
    · rw [resetSince_concat] at hyes
      cases hyes
  · refine ⟨fun c hc => ?_, fun hno => ?_, fun _ => ?_⟩
    · rw [summed_dbResetStats, eventsSince_concat]
      cases c <;> first | rfl | exact absurd rfl hc
    · rw [resetSince_concat] at hno
      cases hno
    · rw [summed_dbResetStats, eventsSince_concat]
      rfl

theorem baselines_of_run (h : Run (reportMove n) startReporting hist s) : Baselines n hist s :=
  h.induction (Baselines n) (baselines_start n) fun _ _ _ _ hB => hB.step

/-- **One report**: its differences are right exactly when no reset has left a baseline behind. -/
theorem deltasRight_iff (hB : Baselines n before s) :
    DeltasRight n before s ↔ (resetSince before = true → s.last .reconnects = 0) := by
  constructor
  · intro hright hreset
    have hstale := hB.stale hreset
    obtain ⟨hle, hsub⟩ := hright .reconnects
    omega
  · intro hok c
    by_cases hc : c = .reconnects
    · subst hc
      cases hreset : resetSince before with
      | false =>
        have hcur := hB.current hreset
        exact ⟨by omega, by omega⟩
      | true =>
        have hstale := hB.stale hreset
        have hzero := hok hreset
        exact ⟨by omega, by omega⟩
    · have hcleared := hB.cleared c hc
      exact ⟨by omega, by omega⟩

/-- **The five differences are right at every intermediate report of a run if and only if at each of
them that follows a reset the report before had seen no reconnect**: `last_reconnects` is 0. -/
theorem reportDeltas_iff (n : ℕ) (h : Run (reportMove n) startReporting hist s) :
    (∀ before e after, hist = before ++ e :: after → e.2 = .intermediate →
      DeltasRight n before e.1) ↔
    ∀ before e after, hist = before ++ e :: after → e.2 = .intermediate →
      resetSince before = true → e.1.last .reconnects = 0 := by
  have hat : ∀ before e after, hist = before ++ e :: after →
      (DeltasRight n before e.1 ↔ (resetSince before = true → e.1.last .reconnects = 0)) := by
    rintro before e after rfl
    obtain ⟨s', hbefore, -, -⟩ := h.split
    exact deltasRight_iff (baselines_of_run hbefore)
  constructor
  · intro hright before e after heq hreport
    exact (hat before e after heq).mp (hright before e after heq hreport)
  · intro hok before e after heq hreport
    exact (hat before e after heq).mpr (hok before e after heq hreport)

/-- The text of a read query. -/
def selectText : List UInt8 := "select 1".toUTF8.toList

/-- Both kinds of report, and no reconnect. -/
def quietReports : List ReportMove :=
  [.query 0 selectText .none, .intermediate, .query 0 selectText .restartTransaction, .cumulative,
    .query 0 selectText .none, .intermediate]

theorem reportDeltas_quietReports :
    ∃ hist s, Run (reportMove 1) startReporting hist s ∧ hist.map Prod.snd = quietReports ∧
      ∀ before e after, hist = before ++ e :: after → e.2 = .intermediate →
        DeltasRight 1 before e.1 := by
  obtain ⟨hist, s, hplay, hmoves, hall⟩ : ∃ hist s,
      Run.play (reportMove 1) startReporting quietReports = some (hist, s) ∧
      hist.map Prod.snd = quietReports ∧ ∀ e ∈ hist, e.1.last .reconnects = 0 :=
    ⟨_, _, rfl, rfl, by decide⟩
  have hrun := Run.of_play hplay
  refine ⟨hist, s, hrun, hmoves, (reportDeltas_iff 1 hrun).mpr ?_⟩
  rintro before e after rfl _ _
  exact hall e (List.mem_append_right before List.mem_cons_self)

/-- A reconnect, and an intermediate report on both sides of a cumulative one. -/
def reconnectReports : List ReportMove :=
  [.query 0 selectText .reconnected, .intermediate, .cumulative, .intermediate]

/-- **One reconnect before a reset**: the second intermediate report subtracts 1 from 0, and prints
a rate of 2 ^ 64 - 1 reconnects. -/
theorem reportDeltas_underflow :
    ∃ before e s, Run (reportMove 1) startReporting (before ++ [e]) s ∧
      (before ++ [e]).map Prod.snd = reconnectReports ∧ e.2 = .intermediate ∧
      e.1.summed 1 .reconnects = 0 ∧ e.1.last .reconnects = 1 ∧
      toU64 ((e.1.summed 1 .reconnects : ℤ) - e.1.last .reconnects) = 2 ^ 64 - 1 ∧
      ¬ DeltasRight 1 before e.1 := by
  have h : Run.play (reportMove 1) startReporting reconnectReports = some ([_, _, _] ++ [_], _) :=
    rfl
  refine ⟨_, _, _, Run.of_play h, rfl, rfl, by decide, by decide, by decide, fun hright => ?_⟩
  exact absurd (hright .reconnects).1 (by decide)

end Sysbench.Database
