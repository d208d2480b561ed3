import Sysbench.Scripting.OltpScripts

/-!
# Scripting/Atomicity — which writes `oltp.lua` commits

A complete call of `event()` deletes a row and inserts it again, in one transaction; so a run keeps
the rows of every table if what it commits are whole events.  An attempt that fails leaves its
transaction open when the server does not roll it back, and the `BEGIN` of the next attempt commits
what the failed one had written.  `carries` says which attempts leave writes behind, `Unmixed` which
attempts commit nothing but their own.
-/

namespace Sysbench.Scripting

/-! ## Rows -/

/-- The row ids of each table. -/
abbrev Tables := ℤ → Finset ℤ

/-- The write takes effect. -/
def applyWrite (db : Tables) : Write → Tables
  | .delete table id => Function.update db table ((db table).erase id)
  | .insert table id .. => Function.update db table (insert id (db table))
  | .updateIndex .. | .updateNonIndex .. => db

/-- A commit takes effect. -/
def applyCommit (db : Tables) (commit : List Write) : Tables := commit.foldl applyWrite db

variable {p : ErrorPolicy} {cfg : OltpConfig} {d : Draws} {db : Tables}

theorem applyCommit_updates (cfg : OltpConfig) (d : Draws) (db : Tables) :
    applyCommit db (updates cfg d) = db := by
  simp only [applyCommit, updates, List.foldl_append, List.foldl_map, applyWrite, List.foldl_fixed]

/-- A complete event puts back the row it takes. -/
theorem applyCommit_writes (hro : cfg.readOnly = false) :
    applyCommit db (writes cfg d) = Function.update db d.table (insert d.rowId (db d.table)) := by
  have hupdates := applyCommit_updates cfg d db
  have hrow : insert d.rowId ((db d.table).erase d.rowId) = insert d.rowId (db d.table) := by
    ext i
    by_cases hi : i = d.rowId <;> simp [hi]
  rw [applyCommit] at hupdates ⊢
  rw [writes, if_neg (by simp [hro]), List.foldl_append, hupdates]
  simp [applyWrite, hrow]

theorem applyCommit_writes_eq_iff :
    applyCommit db (writes cfg d) = db ↔ (cfg.readOnly = false → d.rowId ∈ db d.table) := by
  cases hro : cfg.readOnly with
  | true => simp [writes, hro, applyCommit]
  | false => simp [applyCommit_writes hro, Function.update_eq_self_iff]

/-- An event that writes makes two writes at least. -/
theorem two_le_length_writes : writes cfg d = [] ∨ 2 ≤ (writes cfg d).length := by
  unfold writes
  split_ifs
  · exact .inl rfl
  · exact .inr (by simp only [List.length_append, List.length_cons]; omega)

/-! ## What an attempt commits -/

/-- The commits that take effect. -/
def effective (commits : List (List Write)) : List (List Write) := commits.filter (· ≠ [])

/-- The attempt has committed its own writes, all of them, if it is complete; else nothing. -/
def CommitsWhole (cfg : OltpConfig) (r : Record Draws) : Prop :=
  effective r.run.commits
    = if r.run.errno = .none then effective [writes cfg r.attempt.draws] else []

variable {ws vs : List Write} {commits commits' : List (List Write)}

theorem effective_append :
    effective (commits ++ commits') = effective commits ++ effective commits' :=
  List.filter_append ..

theorem effective_one (ps : List Write) : effective [ps] = if ps = [] then [] else [ps] := by
  by_cases h : ps = [] <;> simp [effective, h]

/-- A write that commits itself takes effect. -/
theorem effective_singles : effective (ws.map ([·])) = ws.map ([·]) := by
  simp [effective, List.filter_eq_self]

/-- What was pending before, and then the transaction of the attempt. -/
theorem effective_kept_iff {done : Prop} [Decidable done] (ps : List Write) (hw : done → ws = vs) :
    (effective ([ps] ++ if done then [ws] else []) = if done then effective [vs] else []) ↔
      ps = [] := by
  rw [effective_append, effective_one]
  by_cases hd : done
  · rw [if_pos hd, if_pos hd, hw hd]
    by_cases hps : ps = [] <;> simp [hps]
  · by_cases hps : ps = [] <;> simp [hd, hps, effective]

/-- What was pending before, and then the writes of the attempt one by one. -/
theorem effective_lost_iff {done : Prop} [Decidable done] (ps : List Write) (hw : done → ws = vs)
    (hvs : vs = [] ∨ 2 ≤ vs.length) :
    (effective [ps] ++ ws.map ([·]) = if done then effective [vs] else []) ↔ ps = [] ∧ ws = [] := by
  rw [effective_one]
  by_cases hd : done
  · rw [if_pos hd, effective_one, ← hw hd]
    by_cases hws : ws = []
    · by_cases hps : ps = [] <;> simp [hps, hws]
    · -- two writes or more cannot be one commit
      have hlen : 2 ≤ ws.length := by rw [hw hd] at hws ⊢; exact hvs.resolve_left hws
      simp only [hws, if_false, and_false, iff_false]
      intro heq
      have := congrArg List.length heq
      simp only [List.length_append, List.length_map, List.length_singleton] at this
      omega
  · by_cases hps : ps = [] <;> simp [hd, hps]

/-! ## Attempts in a transaction -/

variable (p cfg)

/-- The script opens transactions: `BEGIN` is neither left out nor replaced by `LOCK TABLES`. -/
def opensTrx : Bool := !cfg.skipTrx && cfg.mysqlTableEngine != "myisam"

/-- The calls after the first statement. -/
def restCalls (a : Attempt Draws) : List Call :=
  bodyCalls cfg a ++ [(commitQuery cfg, a.outcome (1 + (body cfg a.draws).length))]

/-- **The attempt leaves writes behind**, its own or those of an attempt before it. -/
def carries (carried : Bool) (a : Attempt Draws) : Bool :=
  opensTrx cfg && match (a.outcome 0).query with
    | some f => carried && !loses p .transaction f
    | none => match failure? (restCalls cfg a) with
      | none => false
      | some f => !(writesMade (bodyCalls cfg a)).isEmpty &&
        !rowsLost p .transaction (bodyCalls cfg a) && !loses p .transaction f

/-- **The attempt commits nothing but a whole event**: its `BEGIN` finds no writes of an earlier
attempt, and it makes no write outside a transaction. -/
def Unmixed (carried : Bool) (a : Attempt Draws) : Prop :=
  if opensTrx cfg then
    (a.outcome 0).query = none → carried = false ∧
      (rowsLost p .transaction (bodyCalls cfg a) = true → writesMade (bodyCalls cfg a) = [])
  else writesMade (a.calls (oltpEvent cfg)) = []

instance (carried : Bool) (a : Attempt Draws) : Decidable (Unmixed p cfg carried a) :=
  inferInstanceAs (Decidable (if opensTrx cfg then (_ → _) else _))

variable {p cfg} {s b : Session} {a : Attempt Draws}

theorem calls_trx (htrx : opensTrx cfg = true) :
    a.calls (oltpEvent cfg) = (.beginTrx, a.outcome 0) :: restCalls cfg a := by
  simp only [opensTrx, Bool.and_eq_true, Bool.not_eq_true', bne_iff_ne] at htrx
  simp [Attempt.calls, oltpEvent, htrx.1, htrx.2, restCalls, bodyCalls, beginQuery]

/-- The body, and then `COMMIT`. -/
theorem runs_bodyCommit {calls : List Call} {o : Outcome} (hb : b.trx.held ≠ .branch)
    (hbody : Runs p s calls b commits) :
    Runs p s (calls ++ [(Stmt.commit, o)])
      (if failure? (calls ++ [(Stmt.commit, o)]) = none then .fresh else b)
      (commits ++ if failure? (calls ++ [(Stmt.commit, o)]) = none then [b.pending] else []) := by
  cases hf : failure? calls with
  | some f => simpa [failure?_append, hf] using hbody.append_of_failed hf
  | none =>
    have hlast : failure? (calls ++ [(Stmt.commit, o)]) = o.query := by
      rw [failure?_append, hf, failure?_one, Option.none_or]
    rw [hlast]
    exact hbody.append hf (runs_closing (if_neg hb) rfl rfl)

theorem restCalls_trx (htrx : opensTrx cfg = true) :
    restCalls cfg a
      = bodyCalls cfg a ++ [(Stmt.commit, a.outcome (1 + (body cfg a.draws).length))] := by
  simp only [opensTrx, Bool.and_eq_true, Bool.not_eq_true', bne_iff_ne] at htrx
  simp [restCalls, commitQuery, htrx.2]

theorem writesMade_of_done (htrx : opensTrx cfg = true)
    (hf : failure? (restCalls cfg a) = none) :
    writesMade (bodyCalls cfg a) = writes cfg a.draws := by
  rw [restCalls_trx htrx, failure?_append, Option.or_eq_none_iff] at hf
  rw [bodyCalls, writesMade_of_ok hf.1, filterMap_body]

/-- `BEGIN` commits what was pending and opens a transaction, in which the attempt stays. -/
theorem runs_trx_kept (htrx : opensTrx cfg = true) (hs : s.trx.held ≠ .branch)
    (ho : (a.outcome 0).query = none)
    (hl : rowsLost p .transaction (bodyCalls cfg a) = false) :
    Runs p s (a.calls (oltpEvent cfg))
      (if failure? (restCalls cfg a) = none then .fresh
        else ⟨.plain, writesMade (bodyCalls cfg a)⟩)
      ([s.pending] ++
        if failure? (restCalls cfg a) = none then [writesMade (bodyCalls cfg a)] else []) := by
  rw [calls_trx htrx, restCalls_trx htrx]
  exact Runs.cons_of_exec (if_neg hs) ho rfl rfl
    (runs_bodyCommit (by simp [Trx.held]) (runs_body_kept isBody_body hl))

/-- The transaction ends while rows are stored, and the attempt goes on without it. -/
theorem runs_trx_lost (htrx : opensTrx cfg = true) (hs : s.trx.held ≠ .branch)
    (ho : (a.outcome 0).query = none)
    (hl : rowsLost p .transaction (bodyCalls cfg a) = true) :
    Runs p s (a.calls (oltpEvent cfg)) .fresh
      ([s.pending] ++ ((writesMade (bodyCalls cfg a)).map ([·]) ++
        if failure? (restCalls cfg a) = none then [[]] else [])) := by
  rw [calls_trx htrx, restCalls_trx htrx]
  have hrest := runs_bodyCommit (o := a.outcome (1 + (body cfg a.draws).length))
    (by simp [Session.fresh, Trx.held]) (runs_body_lost isBody_body hl)
  rw [ite_self] at hrest
  exact Runs.cons_of_exec (if_neg hs) ho rfl rfl hrest

/-! ## Attempts without a transaction -/

theorem runs_unlockTables {o : Outcome} : Runs p .fresh [(.unlockTables, o)] .fresh [] := by
  cases ho : o.query with
  | some f => exact Runs.failed rfl ho
  | none => exact Runs.cons_of_exec rfl ho rfl rfl Runs.nil

/-- Each write commits itself. -/
theorem runs_noTrx (htrx : opensTrx cfg = false) :
    ∃ commits, Runs p .fresh (a.calls (oltpEvent cfg)) .fresh commits ∧
      effective commits = (writesMade (a.calls (oltpEvent cfg))).map ([·]) := by
  cases hsk : cfg.skipTrx with
  | true =>
    have hcalls : a.calls (oltpEvent cfg) = callsFrom a.outcome 0 (body cfg a.draws) := by
      simp [Attempt.calls, oltpEvent, hsk]
    rw [hcalls]
    exact ⟨_, runs_body_fresh isBody_body, effective_singles⟩
  | false =>
    have heng : cfg.mysqlTableEngine = "myisam" := by simpa [opensTrx, hsk] using htrx
    have hcalls : a.calls (oltpEvent cfg) = (.lockTables, a.outcome 0) :: (bodyCalls cfg a ++
        [(Stmt.unlockTables, a.outcome (1 + (body cfg a.draws).length))]) := by
      simp [Attempt.calls, oltpEvent, hsk, heng, bodyCalls, beginQuery, commitQuery]
    rw [hcalls]
    cases ho : (a.outcome 0).query with
    | some f =>
      refine ⟨[], Runs.failed rfl ho, ?_⟩
      simp [writesMade, executed, ho, effective]
    | none =>
      rw [writesMade_ok ho rfl, writesMade_append_one rfl]
      have hbody : Runs p .fresh (bodyCalls cfg a) .fresh _ := runs_body_fresh isBody_body
      refine ⟨_, Runs.cons_of_exec rfl ho rfl rfl (hbody.append_one runs_unlockTables), ?_⟩
      rw [effective_append, effective_singles]
      rfl

/-! ## Every run of the workers -/

/-- What the session has pending, given whether writes were left behind. -/
def Pends (cfg : OltpConfig) (carried : Bool) (s : Session) : Prop :=
  if opensTrx cfg then (s = .fresh ∨ s.trx = .plain) ∧ (carried = true ↔ s.pending ≠ [])
  else s = .fresh

theorem pends_fresh : Pends cfg false .fresh := by
  unfold Pends
  split_ifs
  · exact ⟨.inl rfl, by simp [Session.fresh]⟩
  · rfl

variable {carried : Bool}

/-- A failure leaves what is pending, or the server drops it. -/
theorem pends_afterError (htrx : opensTrx cfg = true) (hs : Pends cfg carried s) (f : Failure) :
    Pends cfg (carried && !loses p .transaction f) (s.afterError p f) := by
  rw [Pends, if_pos htrx] at hs ⊢
  rcases hs.1 with rfl | hplain
  · have hfalse : carried = false := by simpa [Session.fresh] using hs.2
    rw [afterError_fresh, hfalse]
    simp [Session.fresh]
  · simp only [Session.afterError, hplain, Trx.held]
    cases loses p .transaction f with
    | true => simp [Session.fresh]
    | false => simp [hplain, hs.2]

theorem pends_plain (htrx : opensTrx cfg = true) : Pends cfg (!ws.isEmpty) ⟨.plain, ws⟩ := by
  simp [Pends, htrx]

theorem held_of_pends (htrx : opensTrx cfg = true) (hs : Pends cfg carried s) :
    s.trx.held ≠ .branch := by
  rw [Pends, if_pos htrx] at hs
  rcases hs.1 with h | h <;> simp [h, Session.fresh, Trx.held]

/-- **`BEGIN` fails**: nothing is committed, and what was pending still is, or is rolled back. -/
theorem attempt_begin_failed {f : Failure} (htrx : opensTrx cfg = true) (hs : Pends cfg carried s)
    (ho : (a.outcome 0).query = some f) :
    CommitsWhole cfg ⟨a, runCalls p s (a.calls (oltpEvent cfg))⟩ ∧
      Pends cfg (carries p cfg carried a) (runCalls p s (a.calls (oltpEvent cfg))).session := by
  have hruns : Runs p s (a.calls (oltpEvent cfg)) s [] := by
    rw [calls_trx htrx]
    exact Runs.failed (by simp [Legal, Trx.next, held_of_pends htrx hs]) ho
  have hfail : failure? (a.calls (oltpEvent cfg)) = some f := by
    rw [calls_trx htrx, failure?_failed ho]
  refine ⟨?_, ?_⟩
  · simp [CommitsWhole, hruns.commits_eq, hruns.errno_none_iff, hfail, effective]
  · rw [hruns.session_eq, hfail, Option.elim_some]
    simpa only [carries, htrx, Bool.true_and, ho] using pends_afterError htrx hs f

/-- **`BEGIN` succeeds** and the transaction is kept: it commits what was pending, and the end of
the transaction the writes of the attempt. -/
theorem attempt_kept (htrx : opensTrx cfg = true) (hs : Pends cfg carried s)
    (ho : (a.outcome 0).query = none) (hl : rowsLost p .transaction (bodyCalls cfg a) = false) :
    (CommitsWhole cfg ⟨a, runCalls p s (a.calls (oltpEvent cfg))⟩ ↔ s.pending = []) ∧
      Pends cfg (carries p cfg carried a) (runCalls p s (a.calls (oltpEvent cfg))).session := by
  have hruns := runs_trx_kept (p := p) htrx (held_of_pends htrx hs) ho hl
  have hfail : failure? (a.calls (oltpEvent cfg)) = failure? (restCalls cfg a) := by
    rw [calls_trx htrx, failure?_ok ho]
  refine ⟨?_, ?_⟩
  · simp only [CommitsWhole, hruns.commits_eq, hruns.errno_none_iff, hfail]
    exact effective_kept_iff _ (writesMade_of_done htrx)
  · rw [hruns.session_eq, hfail]
    simp only [carries, htrx, Bool.true_and, ho]
    cases hf : failure? (restCalls cfg a) with
    | none => exact pends_fresh
    | some f => simpa [hl] using pends_afterError htrx (pends_plain htrx) f

/-- **`BEGIN` succeeds** and the transaction is lost: each later write commits itself. -/
theorem attempt_lost (htrx : opensTrx cfg = true) (hs : Pends cfg carried s)
    (ho : (a.outcome 0).query = none) (hl : rowsLost p .transaction (bodyCalls cfg a) = true) :
    (CommitsWhole cfg ⟨a, runCalls p s (a.calls (oltpEvent cfg))⟩ ↔
        s.pending = [] ∧ writesMade (bodyCalls cfg a) = []) ∧
      Pends cfg (carries p cfg carried a) (runCalls p s (a.calls (oltpEvent cfg))).session := by
  have hruns := runs_trx_lost (p := p) htrx (held_of_pends htrx hs) ho hl
  have hfail : failure? (a.calls (oltpEvent cfg)) = failure? (restCalls cfg a) := by
    rw [calls_trx htrx, failure?_ok ho]
  have hnil : effective (if failure? (restCalls cfg a) = none then [[]] else []) = [] := by
    split_ifs <;> rfl
  refine ⟨?_, ?_⟩
  · simp only [CommitsWhole, hruns.commits_eq, hruns.errno_none_iff, hfail, effective_append,
      effective_singles, hnil, List.append_nil]
    exact effective_lost_iff _ (writesMade_of_done htrx) two_le_length_writes
  · rw [hruns.session_eq, hfail]
    simp only [carries, htrx, Bool.true_and, ho]
    cases hf : failure? (restCalls cfg a) with
    | none => exact pends_fresh
    | some f => simpa [hl, afterError_fresh] using pends_fresh

/-- **No transaction is opened**: each write commits itself. -/
theorem attempt_noTrx (htrx : opensTrx cfg = false) :
    (CommitsWhole cfg ⟨a, runCalls p .fresh (a.calls (oltpEvent cfg))⟩ ↔
        writesMade (a.calls (oltpEvent cfg)) = []) ∧
      (runCalls p .fresh (a.calls (oltpEvent cfg))).session = .fresh := by
  obtain ⟨commits, hruns, heff⟩ := runs_noTrx (p := p) (a := a) htrx
  have hdone : failure? (a.calls (oltpEvent cfg)) = none →
      writesMade (a.calls (oltpEvent cfg)) = writes cfg a.draws := fun hf => by
    rw [Attempt.calls] at hf ⊢
    rw [writesMade_of_ok hf, filterMap_oltpEvent]
  refine ⟨?_, ?_⟩
  · simp only [CommitsWhole, hruns.commits_eq, hruns.errno_none_iff, heff]
    simpa [effective_one] using effective_lost_iff [] hdone two_le_length_writes
  · rw [hruns.session_eq]
    cases failure? (a.calls (oltpEvent cfg)) with
    | none => rfl
    | some f => exact afterError_fresh

/-- **One attempt** commits nothing but a whole event exactly when it is unmixed. -/
theorem attempt_commits (hs : Pends cfg carried s) :
    (CommitsWhole cfg ⟨a, runCalls p s (a.calls (oltpEvent cfg))⟩ ↔ Unmixed p cfg carried a) ∧
      Pends cfg (carries p cfg carried a) (runCalls p s (a.calls (oltpEvent cfg))).session := by
  cases htrx : opensTrx cfg with
  | false =>
    have hfresh : s = .fresh := by simpa [Pends, htrx] using hs
    subst hfresh
    obtain ⟨hiff, hsession⟩ := attempt_noTrx (p := p) (a := a) htrx
    rw [hiff, hsession, Unmixed, if_neg (by simp [htrx]), carries, htrx]
    exact ⟨.rfl, pends_fresh⟩
  | true =>
    have hcarried : carried = false ↔ s.pending = [] := by
      rw [Pends, if_pos htrx] at hs
      rw [← Bool.not_eq_true, hs.2, not_not]
    rw [Unmixed, if_pos htrx, hcarried]
    cases ho : (a.outcome 0).query with
    | some f =>
      obtain ⟨hwhole, hpends⟩ := attempt_begin_failed (p := p) htrx hs ho
      exact ⟨iff_of_true hwhole nofun, hpends⟩
    | none =>
      cases hl : rowsLost p .transaction (bodyCalls cfg a) with
      | false => simpa using attempt_kept htrx hs ho hl
      | true => simpa using attempt_lost htrx hs ho hl

/-- Every statement of an attempt is legal, and it is complete unless one fails. -/
theorem attempt_complete_iff (hs : Pends cfg carried s) :
    (runCalls p s (a.calls (oltpEvent cfg))).errno = .none ↔
      failure? (a.calls (oltpEvent cfg)) = none := by
  suffices h : ∃ s' commits, Runs p s (a.calls (oltpEvent cfg)) s' commits by
    obtain ⟨s', commits, hruns⟩ := h
    exact hruns.errno_none_iff
  cases htrx : opensTrx cfg with
  | false =>
    have hfresh : s = .fresh := by simpa [Pends, htrx] using hs
    obtain ⟨commits, hruns, -⟩ := runs_noTrx (p := p) (a := a) htrx
    exact ⟨_, _, hfresh ▸ hruns⟩
  | true =>
    have hheld := held_of_pends htrx hs
    cases ho : (a.outcome 0).query with
    | some f =>
      rw [calls_trx htrx]
      exact ⟨_, _, Runs.failed (by simp [Legal, Trx.next, hheld]) ho⟩
    | none =>
      cases hl : rowsLost p .transaction (bodyCalls cfg a) with
      | false => exact ⟨_, _, runs_trx_kept htrx hheld ho hl⟩
      | true => exact ⟨_, _, runs_trx_lost htrx hheld ho hl⟩

section Workers

variable {requests : ℕ} {outs : List (Record Draws)} {w : Worker}

/-- A worker commits whole events exactly when its attempts are unmixed one after the other. -/
theorem commitsWhole_iff (h : Trace (workerStep p (oltpEvent cfg)) (startWorker requests) outs w) :
    (∀ r ∈ outs, CommitsWhole cfg r) ↔
      Along (carries p cfg) (Unmixed p cfg) false (outs.map (·.attempt)) := by
  rw [along_map]
  refine h.forall_iff_along (fun carried w => Pends cfg carried w.session) pends_fresh ?_
  intro carried w a r w' hs hstep
  obtain ⟨rfl, hsession⟩ := workerStep_eq hstep
  obtain ⟨hiff, hpends⟩ := attempt_commits (p := p) (a := a) hs
  exact ⟨hiff, fun _ => hsession ▸ hpends⟩

/-- Its attempts are complete unless a statement fails. -/
theorem complete_iff (h : Trace (workerStep p (oltpEvent cfg)) (startWorker requests) outs w) :
    ∀ r ∈ outs, r.run.errno = .none ↔ failure? (r.attempt.calls (oltpEvent cfg)) = none := by
  refine (h.invariant (fun outs w => (∃ carried, Pends cfg carried w.session) ∧ ∀ r ∈ outs,
    (r.run.errno = .none ↔ failure? (r.attempt.calls (oltpEvent cfg)) = none)) ?_ ?_).2
  · exact ⟨⟨false, pends_fresh⟩, by simp⟩
  · rintro outs w a r w' ⟨⟨carried, hs⟩, hall⟩ hstep
    obtain ⟨rfl, hsession⟩ := workerStep_eq hstep
    refine ⟨⟨_, hsession ▸ (attempt_commits (p := p) (a := a) hs).2⟩, ?_⟩
    simpa only [List.forall_mem_append, List.forall_mem_singleton] using
      ⟨hall, attempt_complete_iff hs⟩

end Workers

/-- Where whole events are committed, a commit that takes effect is that of a complete attempt. -/
theorem mem_commits {r : Record Draws} {c : List Write} (hr : CommitsWhole cfg r)
    (hc : c ∈ r.run.commits) (hne : c ≠ []) :
    r.run.errno = .none ∧ c = writes cfg r.attempt.draws := by
  have hmem : c ∈ effective r.run.commits := List.mem_filter.mpr ⟨hc, by simpa using hne⟩
  rw [hr] at hmem
  split_ifs at hmem with hdone
  · exact ⟨hdone, by simpa using (List.mem_filter.mp hmem).1⟩
  · simp at hmem

theorem writes_mem_commits {r : Record Draws} (hr : CommitsWhole cfg r)
    (hdone : r.run.errno = .none) (hro : cfg.readOnly = false) :
    writes cfg r.attempt.draws ∈ r.run.commits := by
  have hne : writes cfg r.attempt.draws ≠ [] := by simp [writes, hro]
  have hmem : writes cfg r.attempt.draws ∈ effective r.run.commits := by
    rw [hr, if_pos hdone, effective_one, if_neg hne]
    exact List.mem_singleton_self _
  exact (List.mem_filter.mp hmem).1

/-- **Atomic events**: each worker commits whole events and nothing else, and in whatever order the
commits of the workers take effect, the tables keep their rows. -/
structure AtomicEvents {ι : Type} (cfg : OltpConfig) (db : Tables)
    (outs : ι → List (Record Draws)) : Prop where
  whole : ∀ i, ∀ r ∈ outs i, CommitsWhole cfg r
  rows : ∀ log : List (List Write), (∀ c ∈ log, ∃ i, ∃ r ∈ outs i, c ∈ r.run.commits) →
    log.foldl applyCommit db = db

/-- **When events are atomic**: for every list of ignored errors, every server, every configuration,
any number of workers and all their runs, however their statements fail and whatever they draw. -/
theorem atomicEvents_iff {ι : Type} (p : ErrorPolicy) (cfg : OltpConfig) (db : Tables)
    (requests : ι → ℕ) {outs : ι → List (Record Draws)} {w : ι → Worker}
    (h : ∀ i, Trace (workerStep p (oltpEvent cfg)) (startWorker (requests i)) (outs i) (w i)) :
    AtomicEvents cfg db outs ↔
      ∀ i, Along (carries p cfg) (Unmixed p cfg) false ((outs i).map (·.attempt)) ∧
        ∀ r ∈ outs i, failure? (r.attempt.calls (oltpEvent cfg)) = none → cfg.readOnly = false →
          r.attempt.draws.rowId ∈ db r.attempt.draws.table := by
  constructor
  · intro hat i
    refine ⟨(commitsWhole_iff (h i)).mp (hat.whole i), fun r hr hdone hro => ?_⟩
    have hmem := writes_mem_commits (hat.whole i r hr) ((complete_iff (h i) r hr).mpr hdone) hro
    have hrows := hat.rows [writes cfg r.attempt.draws] (by simpa using ⟨i, r, hr, hmem⟩)
    exact applyCommit_writes_eq_iff.mp hrows hro
  · intro hcond
    have hwhole := fun i => (commitsWhole_iff (h i)).mpr (hcond i).1
    refine ⟨hwhole, fun log hlog => ?_⟩
    have hkeep : ∀ c ∈ log, applyCommit db c = db := by
      intro c hc
      obtain ⟨i, r, hr, hmem⟩ := hlog c hc
      by_cases hne : c = []
      · rw [hne]
        rfl
      · obtain ⟨hdone, rfl⟩ := mem_commits (hwhole i r hr) hmem hne
        exact applyCommit_writes_eq_iff.mpr ((hcond i).2 r hr ((complete_iff (h i) r hr).mp hdone))
    induction log with
    | nil => rfl
    | cons c log ih =>
      rw [List.foldl_cons, hkeep c (by simp)]
      exact ih (fun c' hc' => hlog c' (by simp [hc'])) fun c' hc' => hkeep c' (by simp [hc'])

/-- A `SELECT` runs into a lock wait timeout before anything is written. -/
theorem atomicEvents_twoAttempts :
    ∃ outs w, Trace (workerStep .default (oltpEvent {})) (startWorker 1) outs w ∧
      outs.map (·.run.errno) = [.restartTransaction, .none] ∧
      AtomicEvents {} (fun _ => {1}) fun _ : Unit => outs := by
  have h₀ : Trace (workerStep .default (oltpEvent {})) (startWorker 1) [] _ := .nil
  have h₂ :=
    (h₀.snoc (i := ⟨drawsOf 1, failsAt 3 1205⟩) rfl).snoc (i := ⟨drawsOf 1, fun _ => {}⟩) rfl
  refine ⟨_, _, h₂, by decide, ?_⟩
  exact (atomicEvents_iff _ _ _ (fun _ => 1) fun _ => h₂).mpr fun _ => ⟨by decide, by decide⟩

/-- The `INSERT` runs into a lock wait timeout: the `BEGIN` of the second attempt commits the
`DELETE` of the first, and the row is gone. -/
theorem deletedRow_lost :
    ∃ outs w, Trace (workerStep .default (oltpEvent {})) (startWorker 1) outs w ∧
      outs.map (·.run.errno) = [.restartTransaction, .none] ∧
      (outs.flatMap (·.run.commits)).foldl applyCommit (fun _ => {1, 2}) 1 = {2} ∧
      ¬ AtomicEvents {} (fun _ => {1, 2}) fun _ : Unit => outs := by
  have h₀ : Trace (workerStep .default (oltpEvent {})) (startWorker 1) [] _ := .nil
  have h₂ :=
    (h₀.snoc (i := ⟨drawsOf 1, failsAt 18 1205⟩) rfl).snoc (i := ⟨drawsOf 2, fun _ => {}⟩) rfl
  refine ⟨_, _, h₂, by decide, by decide, fun hat => ?_⟩
  have hrows := hat.rows _ fun c hc => ⟨(), List.mem_flatMap.mp hc⟩
  exact absurd (congrFun hrows 1) (by decide)

end Sysbench.Scripting
