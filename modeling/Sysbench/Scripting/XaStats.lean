import Sysbench.Scripting.OltpScripts
import Sysbench.Database.ThreadStats

/-!
# Scripting/XaStats — what the counters say of a run of `oltp-xa.lua`

The script knows where a transaction ends; the counters only see the text of the statements, each of
which `db_query` counts by the word it begins with.  `COMMIT` is a transaction, and `XA COMMIT` is
not.  So every statement is counted once (`StatsInv.ops`), and the transactions are the events that
did not use XA.
-/

namespace Sysbench.Scripting

open Database

/-! ## The text of the statements -/

/-- A number in a text. -/
def digits (z : ℤ) : List Char := (toString z).toList

/-- The text of a write. -/
def Write.text : Write → List Char
  | .updateIndex table id =>
    "UPDATE sbtest".toList ++ digits table ++ " SET k=k+1 WHERE id=".toList ++ digits id
  | .updateNonIndex table id c =>
    "UPDATE sbtest".toList ++ digits table ++ " SET c='".toList ++ c.toList ++
      "' WHERE id=".toList ++ digits id
  | .delete table id =>
    "DELETE FROM sbtest".toList ++ digits table ++ " WHERE id=".toList ++ digits id
  | .insert table id k c pad =>
    "INSERT INTO sbtest".toList ++ digits table ++ " (id, k, c, pad) VALUES (".toList ++
      digits id ++ ", ".toList ++ digits k ++ ", '".toList ++ c.toList ++ "', '".toList ++
      pad.toList ++ "')".toList

/-- What a range query selects. -/
def RangeQuery.columns : RangeQuery → List Char
  | .simple | .order => "SELECT c FROM sbtest".toList
  | .sum => "SELECT SUM(K) FROM sbtest".toList
  | .distinct => "SELECT DISTINCT c FROM sbtest".toList

/-- The end of a range query. -/
def RangeQuery.order? : RangeQuery → List Char
  | .simple | .sum => []
  | .order | .distinct => " ORDER BY c".toList

/-- The text of a statement, as the script composes it. -/
def Stmt.text : Stmt → List Char
  | .beginTrx => "BEGIN".toList
  | .commit => "COMMIT".toList
  | .lockTables => "LOCK TABLES sbtest WRITE".toList
  | .unlockTables => "UNLOCK TABLES".toList
  | .xaStart xid => "XA START '".toList ++ xid.toList ++ "'".toList
  | .xaEnd xid => "XA END '".toList ++ xid.toList ++ "'".toList
  | .xaPrepare xid => "XA PREPARE '".toList ++ xid.toList ++ "'".toList
  | .xaCommit xid => "XA COMMIT '".toList ++ xid.toList ++ "'".toList
  | .xaCommitOnePhase xid => "XA COMMIT '".toList ++ xid.toList ++ "' ONE PHASE".toList
  | .pointSelect table id =>
    "SELECT c FROM sbtest".toList ++ digits table ++ " WHERE id=".toList ++ digits id
  | .rangeSelect query table first last =>
    query.columns ++ digits table ++ " WHERE id BETWEEN ".toList ++ digits first ++
      " AND ".toList ++ digits first ++ "+".toList ++ digits (last - first) ++ query.order?
  | .write w => w.text

/-- The type a statement is counted under. -/
def Stmt.type (q : Stmt) : QueryType := dbGetQueryType q.text

/-- **How the statements are counted**: what ends a branch is not a commit. -/
theorem type_eq (q : Stmt) : q.type = match q with
    | .commit | .unlockTables => .commit
    | .pointSelect .. | .rangeSelect .. => .read
    | .write _ => .write
    | _ => .other := by
  cases q with
  | rangeSelect query => cases query <;> rfl
  | write w => cases w <;> rfl
  | _ => rfl

/-! ## The statements of an event -/

variable {cfg : OltpConfig} {d : Draws} {i : ℕ}

theorem type_ne_commit {q : Stmt} (hcommit : q ≠ .commit) (hunlock : q ≠ .unlockTables) :
    q.type ≠ .commit := by
  rw [type_eq]
  cases q with
  | commit => exact absurd rfl hcommit
  | unlockTables => exact absurd rfl hunlock
  | _ => exact QueryType.noConfusion

theorem type_of_mem_body {q : Stmt} (h : q ∈ body cfg d) : q.type ≠ .commit := by
  rcases List.mem_append.mp h with h | h
  · have hrows := hasRows_of_mem_reads h
    refine type_ne_commit ?_ ?_ <;> rintro rfl <;> cases hrows
  · obtain ⟨w, -, rfl⟩ := List.mem_map.mp h
    exact type_ne_commit (by simp) (by simp)

theorem type_startTxnStmt : (startTxnStmt cfg d i).type ≠ .commit := by
  unfold startTxnStmt beginQuery
  split_ifs <;> exact type_ne_commit (by simp) (by simp)

/-- `end_xa` sends nothing that is counted as a commit. -/
theorem endXa_eq (xid : String) (nphases : ℕ) :
    ∃ (init : List Stmt) (last : Stmt), endXa xid nphases = init ++ [last] ∧
      (∀ q ∈ init, q.type ≠ .commit) ∧ last.type ≠ .commit := by
  have hend : (Stmt.xaEnd xid).type ≠ .commit := type_ne_commit (by simp) (by simp)
  have hprepare : (Stmt.xaPrepare xid).type ≠ .commit := type_ne_commit (by simp) (by simp)
  unfold endXa
  split_ifs
  · refine ⟨[.xaEnd xid, .xaPrepare xid], .xaCommit xid, rfl, ?_,
      type_ne_commit (by simp) (by simp)⟩
    rw [List.forall_mem_cons, List.forall_mem_singleton]
    exact ⟨hend, hprepare⟩
  · exact ⟨[.xaEnd xid], .xaCommitOnePhase xid, rfl, List.forall_mem_singleton.mpr hend,
      type_ne_commit (by simp) (by simp)⟩

theorem endTxnStmts_eq (cfg : OltpConfig) (d : Draws) (i : ℕ) :
    ∃ (init : List Stmt) (last : Stmt), endTxnStmts cfg d i = init ++ [last] ∧
      (∀ q ∈ init, q.type ≠ .commit) ∧ (last.type = .commit ↔ usesXa cfg d = false) := by
  unfold endTxnStmts
  cases hxa : usesXa cfg d with
  | true =>
    obtain ⟨init, last, heq, hinit, hlast⟩ := endXa_eq (xatxnid i)
      (if cfg.useXa2pcPct < d.twoPhase then 1 else 2)
    exact ⟨init, last, heq, hinit, iff_of_false hlast (by decide)⟩
  | false =>
    exact ⟨[], .commit, rfl, fun q hq => absurd hq List.not_mem_nil, iff_of_true rfl rfl⟩

/-- **An event ends with its commit**, which is counted as one exactly when it did not use XA; no
statement before it is. -/
theorem oltpXaEvent_eq (hskip : cfg.skipTrx = false) : ∃ (init : List Stmt) (last : Stmt),
    oltpXaEvent cfg d i = init ++ [last] ∧ (∀ q ∈ init, q.type ≠ .commit) ∧
      (last.type = .commit ↔ usesXa cfg d = false) := by
  have hevent : oltpXaEvent cfg d i
      = startTxnStmt cfg d i :: (body cfg d ++ endTxnStmts cfg d i) := by
    rw [oltpXaEvent, hskip]
    rfl
  obtain ⟨ends, last, hends, hinit, hlast⟩ := endTxnStmts_eq cfg d i
  refine ⟨startTxnStmt cfg d i :: (body cfg d ++ ends), last, ?_, ?_, hlast⟩
  · rw [hevent, hends]
    simp
  · rw [List.forall_mem_cons, List.forall_mem_append]
    exact ⟨type_startTxnStmt, fun q => type_of_mem_body, hinit⟩

/-! ## The threads -/

/-- A thread: the event it is in, with the statements it has still to send; the events it has
completed; and the number of statements it has sent. -/
structure XaThread where
  current : Option (Draws × List Stmt)
  completed : List Draws
  sent : ℕ

/-- All threads, and their counters. -/
structure XaThreads where
  stats : ℕ → Counts
  thread : ℕ → XaThread

/-- Before the first event. -/
def startThreads : XaThreads := ⟨fun _ => 0, fun _ => ⟨none, [], 0⟩⟩

/-- A thread calls `event()`, or sends the next statement of it. -/
inductive XaMove
  | event (i : ℕ) (d : Draws)
  | send (i : ℕ)

/-- The thread has sent the first of the statements left. -/
def XaThread.afterSend (t : XaThread) (d : Draws) (qs : List Stmt) : XaThread :=
  if qs = [] then ⟨none, t.completed ++ [d], t.sent + 1⟩
  else ⟨some (d, qs), t.completed, t.sent + 1⟩

/-- A move of one of the `n` threads; all statements succeed, and `db_query` counts each.  An event
is completed with its last statement. -/
def xaMove (cfg : OltpConfig) (n : ℕ) (s : XaThreads) : XaMove → Option XaThreads
  | .event i d =>
    if i < n ∧ (s.thread i).current.isNone then
      some ⟨s.stats, Function.update s.thread i
        ⟨some (d, oltpXaEvent cfg d i), (s.thread i).completed, (s.thread i).sent⟩⟩
    else none
  | .send i =>
    if i < n then match (s.thread i).current with
      | some (d, q :: qs) =>
        some ⟨dbUpdateThreadStats s.stats i q.type,
          Function.update s.thread i ((s.thread i).afterSend d qs)⟩
      | _ => none
    else none

/-- What the counters of a thread say: it is in the middle of an event or between two; its
transactions are the completed events without XA; and its operations are the statements. -/
structure StatsInv (cfg : OltpConfig) (i : ℕ) (c : Counts) (t : XaThread) : Prop where
  rest : ∀ d qs, t.current = some (d, qs) → qs ≠ [] ∧ qs <:+ oltpXaEvent cfg d i
  transactions : c .transactions = t.completed.countP (!usesXa cfg ·)
  ops : c .readOps + c .writeOps + c .otherOps = t.sent

theorem ops_counts (type : QueryType) :
    type.counts .readOps + type.counts .writeOps + type.counts .otherOps = 1 := by
  cases type <;> rfl

theorem transactions_counts (type : QueryType) :
    type.counts .transactions = if type = .commit then 1 else 0 := by
  cases type <;> rfl

theorem dbUpdateThreadStats_natCast (stats : ℕ → Counts) (i : ℕ) (type : QueryType) :
    dbUpdateThreadStats stats i type = Function.update stats i (stats i + type.counts) := by
  rw [dbUpdateThreadStats, if_neg (Int.not_lt.mpr (Int.natCast_nonneg i)), Int.toNat_natCast]

/-- What is left of a list after one element, when it ends in `last`. -/
theorem suffix_cases {α : Type} {init qs : List α} {last q : α} (h : q :: qs <:+ init ++ [last]) :
    (qs = [] ∧ q = last) ∨ (qs ≠ [] ∧ q ∈ init) := by
  obtain ⟨pre, hpre⟩ := h
  rcases List.eq_nil_or_concat qs with rfl | ⟨qs, b, rfl⟩
  · exact .inl ⟨rfl, (List.append_inj' hpre rfl).2 |> List.singleton_inj.mp⟩
  · refine .inr ⟨by simp, ?_⟩
    rw [List.concat_eq_append, ← List.cons_append, ← List.append_assoc] at hpre
    rw [← (List.append_inj' hpre rfl).1]
    simp

/-- **One statement**: only the last of an event without XA is a transaction. -/
theorem StatsInv.afterSend {i : ℕ} {c : Counts} {t : XaThread} {d : Draws} {q : Stmt}
    {qs : List Stmt} (hskip : cfg.skipTrx = false) (h : StatsInv cfg i c t)
    (hcurrent : t.current = some (d, q :: qs)) :
    StatsInv cfg i (c + q.type.counts) (t.afterSend d qs) := by
  obtain ⟨-, hsuffix⟩ := h.rest d (q :: qs) hcurrent
  obtain ⟨init, last, hevent, hinit, hlast⟩ := oltpXaEvent_eq (d := d) (i := i) hskip
  have hops : (c + q.type.counts) .readOps + (c + q.type.counts) .writeOps
      + (c + q.type.counts) .otherOps = t.sent + 1 := by
    rw [← h.ops, ← ops_counts q.type]
    simp only [Pi.add_apply]
    abel
  rcases suffix_cases (hevent ▸ hsuffix) with ⟨rfl, rfl⟩ | ⟨hqs, hq⟩
  · rw [XaThread.afterSend, if_pos rfl]
    refine ⟨fun d qs hnone => absurd hnone (by simp), ?_, hops⟩
    rw [Pi.add_apply, h.transactions, transactions_counts, List.countP_append,
      List.countP_singleton]
    simp only [hlast, Bool.not_eq_true']
  · rw [XaThread.afterSend, if_neg hqs]
    refine ⟨?_, ?_, hops⟩
    · intro d' qs' hsome
      obtain ⟨rfl, rfl⟩ := Prod.mk.inj (Option.some.inj hsome)
      exact ⟨hqs, (List.suffix_cons q qs).trans hsuffix⟩
    · rw [Pi.add_apply, h.transactions, transactions_counts, if_neg (hinit q hq), add_zero]

theorem StatsInv.afterEvent {i : ℕ} {c : Counts} {t : XaThread} (hskip : cfg.skipTrx = false)
    (h : StatsInv cfg i c t) (d : Draws) :
    StatsInv cfg i c ⟨some (d, oltpXaEvent cfg d i), t.completed, t.sent⟩ := by
  refine ⟨fun d' qs hsome => ?_, h.transactions, h.ops⟩
  obtain ⟨rfl, rfl⟩ := Prod.mk.inj (Option.some.inj hsome)
  obtain ⟨init, last, hevent, -⟩ := oltpXaEvent_eq (d := d) (i := i) hskip
  exact ⟨by simp [hevent], List.suffix_rfl⟩

/-- **A move keeps what the counters say.** -/
theorem statsInv_xaMove (hskip : cfg.skipTrx = false) {n : ℕ} {s s' : XaThreads} {m : XaMove}
    (h : ∀ i, StatsInv cfg i (s.stats i) (s.thread i)) (hmove : xaMove cfg n s m = some s') :
    ∀ i, StatsInv cfg i (s'.stats i) (s'.thread i) := by
  intro k
  cases m with
  | event i d =>
    simp only [xaMove, Option.ite_none_right_eq_some, Option.some.injEq] at hmove
    obtain ⟨-, rfl⟩ := hmove
    dsimp only
    rcases eq_or_ne k i with rfl | hk
    · rw [Function.update_self]
      exact (h k).afterEvent hskip d
    · rw [Function.update_of_ne hk]
      exact h k
  | send i =>
    simp only [xaMove] at hmove
    split_ifs at hmove with hi
    split at hmove
    · rename_i d q qs hcurrent
      obtain rfl := Option.some.inj hmove
      dsimp only
      rw [dbUpdateThreadStats_natCast]
      rcases eq_or_ne k i with rfl | hk
      · rw [Function.update_self, Function.update_self]
        exact (h k).afterSend hskip hcurrent
      · rw [Function.update_of_ne hk, Function.update_of_ne hk]
        exact h k
    · exact absurd hmove (by simp)

theorem statsInv_startThreads (i : ℕ) :
    StatsInv cfg i (startThreads.stats i) (startThreads.thread i) :=
  ⟨fun d qs h => absurd h (by simp [startThreads]), rfl, rfl⟩

/-- **The transactions are the completed events exactly when none of them used XA**; the operations
are always the statements sent. -/
theorem transactions_eq_completed_iff (cfg : OltpConfig) (n : ℕ) (hskip : cfg.skipTrx = false)
    {hist : List (XaThreads × XaMove)} {s : XaThreads}
    (h : Sysbench.Run (xaMove cfg n) startThreads hist s) :
    (∑ i ∈ Finset.range n, s.stats i .transactions
        = ∑ i ∈ Finset.range n, (s.thread i).completed.length ∧
      ∑ i ∈ Finset.range n, (s.stats i .readOps + s.stats i .writeOps + s.stats i .otherOps)
        = ∑ i ∈ Finset.range n, (s.thread i).sent) ↔
      ∀ i < n, ∀ d ∈ (s.thread i).completed, usesXa cfg d = false := by
  have hinv := Sysbench.Run.invariant (fun s => ∀ i, StatsInv cfg i (s.stats i) (s.thread i))
    (fun _ => True) statsInv_startThreads (fun _ _ _ hI _ hs => statsInv_xaMove hskip hI hs) h
    fun _ _ => trivial
  have hops : ∑ i ∈ Finset.range n, (s.stats i .readOps + s.stats i .writeOps + s.stats i .otherOps)
      = ∑ i ∈ Finset.range n, (s.thread i).sent :=
    Finset.sum_congr rfl fun i _ => (hinv i).ops
  have htrans : ∑ i ∈ Finset.range n, s.stats i .transactions
      = ∑ i ∈ Finset.range n, (s.thread i).completed.countP (!usesXa cfg ·) :=
    Finset.sum_congr rfl fun i _ => (hinv i).transactions
  rw [and_iff_left hops, htrans,
    Finset.sum_eq_sum_iff_of_le fun i _ => List.countP_le_length]
  simp only [Finset.mem_range, List.countP_eq_length, Bool.not_eq_true']

/-- Events of one point select, with XA or without. -/
def onePointSelect (useXaPct : ℚ) : OltpConfig :=
  { pointSelects := 1, simpleRanges := 0, sumRanges := 0, orderRanges := 0, distinctRanges := 0,
    readOnly := true, useXaPct := useXaPct }

/-- One event of `k` statements. -/
def oneEvent (k : ℕ) : List XaMove := .event 0 (drawsOf 1) :: List.replicate k (.send 0)

/-- `BEGIN`, `SELECT`, `COMMIT`: one transaction. -/
theorem transactions_eq_completed_plain : ∃ hist s,
    Sysbench.Run (xaMove (onePointSelect 0) 1) startThreads hist s ∧
      hist.map Prod.snd = oneEvent 3 ∧ (s.thread 0).completed.length = 1 ∧
      ∑ i ∈ Finset.range 1, s.stats i .transactions
        = ∑ i ∈ Finset.range 1, (s.thread i).completed.length := by
  have h : Sysbench.Run.play (xaMove (onePointSelect 0) 1) startThreads (oneEvent 3)
      = some (_, _) := rfl
  have hrun := Sysbench.Run.of_play h
  exact ⟨_, _, hrun, rfl, rfl,
    ((transactions_eq_completed_iff (onePointSelect 0) 1 rfl hrun).mpr (by decide)).1⟩

/-- **`XA START`, `SELECT`, `XA END`, `XA PREPARE`, `XA COMMIT`**: no transaction. -/
theorem transactions_miss_xa : ∃ hist s,
    Sysbench.Run (xaMove (onePointSelect 100) 1) startThreads hist s ∧
      (s.thread 0).completed.length = 1 ∧ s.stats 0 .transactions = 0 := by
  have h : Sysbench.Run.play (xaMove (onePointSelect 100) 1) startThreads (oneEvent 5)
      = some (_, _) := rfl
  exact ⟨_, _, Sysbench.Run.of_play h, rfl, rfl⟩

end Sysbench.Scripting
