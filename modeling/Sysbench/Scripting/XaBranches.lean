import Sysbench.Scripting.OltpScripts

/-!
# Scripting/XaBranches — when `oltp-xa.lua` sends only legal statements

The script assumes that its connection holds nothing when `event()` is called.  The restart loop
does not see to that: neither it nor the driver ends what a failed attempt leaves behind.  `leaves`
says what that is, from the way the attempt failed; `Harmless` says which attempts go well after
it.
-/

namespace Sysbench.Scripting

variable (p : ErrorPolicy) (cfg : OltpConfig) (threadId : ℕ)

/-- The calls after the body. -/
def endCalls (a : Attempt Draws) : List Call :=
  callsFrom a.outcome (1 + (body cfg a.draws).length) (endTxnStmts cfg a.draws threadId)

/-- What the first statement opens. -/
def opened (d : Draws) : Trx :=
  if usesXa cfg d then .active (xatxnid threadId)
  else if cfg.mysqlTableEngine = "myisam" then .outside else .plain

/-- **What an attempt leaves behind** on a connection that held `h`. -/
def leaves (h : Held) (a : Attempt Draws) : Held :=
  if cfg.skipTrx then h
  else match (a.outcome 0).query with
    | some f => if loses p h f then .nothing else h
    | none => match failure? (bodyCalls cfg a ++ endCalls cfg threadId a) with
      | none => .nothing
      | some f =>
        let h' := (opened cfg threadId a.draws).held
        if rowsLost p h' (bodyCalls cfg a) || loses p h' f then .nothing else h'

/-- The attempt opens a branch, loses it with its connection while it stores rows, and still comes
to `XA END`. -/
def losesBranch (a : Attempt Draws) : Prop :=
  cfg.skipTrx = false ∧ usesXa cfg a.draws = true ∧ (a.outcome 0).query = none ∧
    failure? (bodyCalls cfg a) = none ∧ rowsLost p .branch (bodyCalls cfg a) = true

/-- **The attempts that go well** on a connection that holds `h`. -/
def Harmless (h : Held) (a : Attempt Draws) : Prop :=
  match h with
  | .nothing => ¬ losesBranch p cfg a
  | .transaction => usesXa cfg a.draws = false
  | .branch => False

instance (a : Attempt Draws) : Decidable (losesBranch p cfg a) :=
  inferInstanceAs (Decidable (_ ∧ _))

instance (h : Held) (a : Attempt Draws) : Decidable (Harmless p cfg h a) :=
  match h with
  | .nothing => inferInstanceAs (Decidable (¬ _))
  | .transaction => inferInstanceAs (Decidable (_ = _))
  | .branch => inferInstanceAs (Decidable False)

/-! ## What a session holds -/

/-- The session holds `h`; one that holds nothing is as good as new. -/
def Holds (h : Held) (s : Session) : Prop := s.trx.held = h ∧ (h = .nothing → s = .fresh)

variable {p cfg threadId} {s : Session} {h : Held} {o : ℕ → Outcome} {k : ℕ} {a : Attempt Draws}

theorem holds_fresh : Holds .nothing .fresh := ⟨rfl, fun _ => rfl⟩

theorem holds_branch (hs : s.trx.held = .branch) : Holds .branch s := ⟨hs, by simp⟩

theorem Holds.afterError (hs : Holds h s) (f : Failure) :
    Holds (if loses p h f then .nothing else h) (s.afterError p f) := by
  rw [Session.afterError, hs.1]
  split_ifs
  · exact holds_fresh
  · exact hs

theorem Holds.work (hs : Holds h s) (ws : List Write) : Holds h (s.work ws).1 := by
  refine ⟨by rw [work_trx, hs.1], fun hh => ?_⟩
  rw [hs.2 hh]
  rfl

/-- Calls that keep to a session as good as new leave it so, even when they fail. -/
theorem Runs.holds_fresh {calls : List Call} {commits : List (List Write)}
    (hruns : Runs p s calls .fresh commits) :
    Holds .nothing (runCalls p s calls).session := by
  rw [hruns.session_eq]
  cases failure? calls with
  | none => exact Scripting.holds_fresh
  | some f => simpa using Scripting.holds_fresh.afterError f

/-! ## The statements after the body -/

/-- The calls end what the session holds, or leave it held. -/
def Ends (p : ErrorPolicy) (s : Session) (calls : List Call) : Prop :=
  ∃ s' commits, Runs p s calls s' commits ∧
    Holds (if failure? calls = none then .nothing else s.trx.held) s'

theorem ends_closing {q : Stmt} {o : Outcome} (hs : Holds s.trx.held s)
    (hnext : s.trx.next q = some .outside) (hexec : s.exec .outside q = (.fresh, [s.pending]))
    (hrows : q.hasRows = false) : Ends p s [(q, o)] := by
  refine ⟨_, _, runs_closing hnext hexec hrows, ?_⟩
  rw [failure?_one]
  split_ifs
  · exact holds_fresh
  · exact hs

theorem ends_cons {q : Stmt} {o : Outcome} {t : Trx} {calls : List Call}
    (hs : s.trx.held = .branch) (ht : t.held = .branch) (hnext : s.trx.next q = some t)
    (hexec : s.exec t q = (⟨t, s.pending⟩, [])) (hrows : q.hasRows = false)
    (h : Ends p ⟨t, s.pending⟩ calls) : Ends p s ((q, o) :: calls) := by
  cases ho : o.query with
  | some f =>
    refine ⟨s, [], Runs.failed (by simp [Legal, hnext]) ho, ?_⟩
    rw [failure?_failed ho, if_neg (by simp), hs]
    exact holds_branch hs
  | none =>
    obtain ⟨s', commits, hruns, hholds⟩ := h
    refine ⟨s', _, Runs.cons_of_exec hnext ho hexec hrows hruns, ?_⟩
    rwa [failure?_ok ho, hs, ← ht]

/-- `end_xa` keeps to the states of the branch. -/
theorem ends_endXa {xid : String} (n : ℕ) (hs : s.trx = .active xid) :
    Ends p s (callsFrom o k (endXa xid n)) := by
  have hbranch : s.trx.held = .branch := by rw [hs]; rfl
  unfold endXa
  split_ifs
  · simp only [callsFrom_cons]
    refine ends_cons (t := .idle xid) hbranch rfl (if_pos hs) rfl rfl ?_
    refine ends_cons (t := .prepared xid) rfl rfl (if_pos rfl) rfl rfl ?_
    exact ends_closing (holds_branch rfl) (if_pos rfl) rfl rfl
  · simp only [callsFrom_cons]
    refine ends_cons (t := .idle xid) hbranch rfl (if_pos hs) rfl rfl ?_
    exact ends_closing (holds_branch rfl) (if_pos rfl) rfl rfl

/-- The statements after the body, on a session that holds what they are for. -/
theorem ends_endCalls (hs : Holds s.trx.held s)
    (hxa : usesXa cfg a.draws = true → s.trx = .active (xatxnid threadId))
    (hplain : usesXa cfg a.draws = false → s.trx.held ≠ .branch) :
    Ends p s (endCalls cfg threadId a) := by
  unfold endCalls endTxnStmts
  cases h : usesXa cfg a.draws with
  | true => exact ends_endXa _ (hxa h)
  | false => exact ends_closing hs (if_neg (hplain h)) rfl rfl

/-! ## One attempt -/

theorem opened_works (cfg : OltpConfig) (threadId : ℕ) (d : Draws) :
    (opened cfg threadId d).works = true := by
  unfold opened
  split_ifs <;> rfl

theorem holds_mk (t : Trx) : Holds t.held ⟨t, []⟩ := by
  refine ⟨rfl, fun ht => ?_⟩
  cases t <;> first | rfl | cases ht

theorem opened_held_ne_branch {d : Draws} (hxa : usesXa cfg d = false) :
    (opened cfg threadId d).held ≠ .branch := by
  unfold opened
  split_ifs with h
  · simp [hxa] at h
  all_goals simp [Trx.held]

/-- The body keeps what the session holds, or loses it while it stores rows. -/
theorem runs_bodyCalls (p : ErrorPolicy) (cfg : OltpConfig) (a : Attempt Draws) {t : Trx}
    (ht : t.works = true) :
    ∃ s' commits, Runs p ⟨t, []⟩ (bodyCalls cfg a) s' commits ∧
      (rowsLost p t.held (bodyCalls cfg a) = true → s' = .fresh) ∧
      (rowsLost p t.held (bodyCalls cfg a) = false → s'.trx = t ∧ Holds t.held s') := by
  refine ⟨_, _, runs_body isBody_body ht, fun hl => ?_, fun hl => ?_⟩
  · rw [if_pos hl]
    exact (holds_fresh.work _).2 rfl
  · rw [if_neg (Bool.eq_false_iff.mp hl)]
    exact ⟨work_trx _, (holds_mk t).work _⟩

/-- **After the first statement** the attempt goes well unless it loses its branch. -/
theorem runs_rest (threadId : ℕ)
    (hlost : ¬ (usesXa cfg a.draws = true ∧ failure? (bodyCalls cfg a) = none ∧
      rowsLost p .branch (bodyCalls cfg a) = true)) :
    ∃ s' commits,
      Runs p ⟨opened cfg threadId a.draws, []⟩ (bodyCalls cfg a ++ endCalls cfg threadId a)
        s' commits ∧
      Holds (if failure? (bodyCalls cfg a ++ endCalls cfg threadId a) = none ∨
          rowsLost p (opened cfg threadId a.draws).held (bodyCalls cfg a) = true then .nothing
        else (opened cfg threadId a.draws).held) s' := by
  obtain ⟨s₂, commits, hbody, hgone, hkept⟩ :=
    runs_bodyCalls p cfg a (opened_works cfg threadId a.draws)
  have hs₂ : Holds (if rowsLost p (opened cfg threadId a.draws).held (bodyCalls cfg a) = true
      then .nothing else (opened cfg threadId a.draws).held) s₂ := by
    split_ifs with hl
    · exact hgone hl ▸ holds_fresh
    · exact (hkept (by simpa using hl)).2
  cases hf : failure? (bodyCalls cfg a) with
  | some f =>
    exact ⟨s₂, _, hbody.append_of_failed hf, by simpa [failure?_append, hf] using hs₂⟩
  | none =>
    have hend : Ends p s₂ (endCalls cfg threadId a) := by
      refine ends_endCalls ⟨rfl, fun hh => hs₂.2 (hs₂.1 ▸ hh)⟩ (fun hxa => ?_) fun hxa => ?_
      · -- the branch is still there, for else the attempt would come to `XA END` without it
        have htrx : opened cfg threadId a.draws = .active (xatxnid threadId) := if_pos hxa
        rw [htrx] at hkept
        refine (hkept (Bool.eq_false_iff.mpr fun hl => hlost ⟨hxa, hf, hl⟩)).1
      · rw [hs₂.1]
        split_ifs
        · simp
        · exact opened_held_ne_branch hxa
    obtain ⟨s', commits', hruns, hholds⟩ := hend
    refine ⟨s', _, hbody.append hf hruns, ?_⟩
    rw [hs₂.1] at hholds
    simpa [failure?_append, hf, ite_or] using hholds

theorem calls_xaEvent (hskip : cfg.skipTrx = false) :
    a.calls (oltpXaEvent cfg · threadId) = (startTxnStmt cfg a.draws threadId, a.outcome 0) ::
      (bodyCalls cfg a ++ endCalls cfg threadId a) := by
  simp [Attempt.calls, oltpXaEvent, hskip, bodyCalls, endCalls]

theorem calls_skipTrx (hskip : cfg.skipTrx = true) :
    a.calls (oltpXaEvent cfg · threadId) = callsFrom a.outcome 0 (body cfg a.draws) := by
  simp [Attempt.calls, oltpXaEvent, hskip]

/-- The first statement is legal on a connection that holds nothing; `BEGIN` and `LOCK TABLES` are
legal in a transaction, too, and end it. -/
theorem exec_start (cfg : OltpConfig) (threadId : ℕ) (hs : Holds h s)
    (hok : h = .nothing ∨ h = .transaction ∧ usesXa cfg a.draws = false) :
    s.trx.next (startTxnStmt cfg a.draws threadId) = some (opened cfg threadId a.draws) ∧
      ∃ commits, s.exec (opened cfg threadId a.draws) (startTxnStmt cfg a.draws threadId)
        = (⟨opened cfg threadId a.draws, []⟩, commits) := by
  unfold startTxnStmt opened beginQuery
  rcases hok with rfl | ⟨rfl, hxa⟩
  · rw [hs.2 rfl]
    split_ifs <;> exact ⟨rfl, _, rfl⟩
  · have hheld : s.trx.held ≠ .branch := by simp [hs.1]
    simp only [hxa, Bool.false_eq_true, if_false]
    split_ifs <;> exact ⟨if_neg hheld, _, rfl⟩

/-- It is illegal in a branch, and `XA START` in a transaction. -/
theorem not_legal_start (hs : Holds h s)
    (hbad : h = .branch ∨ h = .transaction ∧ usesXa cfg a.draws = true) :
    ¬ Legal s.trx (startTxnStmt cfg a.draws threadId) := by
  unfold startTxnStmt beginQuery Legal
  rcases hbad with rfl | ⟨rfl, hxa⟩
  · have hout : s.trx ≠ .outside := fun h => by simp [h, Trx.held, Holds] at hs
    split_ifs <;> simp [Trx.next, hs.1, hout]
  · have hout : s.trx ≠ .outside := fun h => by simp [h, Trx.held, Holds] at hs
    simp [hxa, Trx.next, hout]

theorem hasRows_startTxnStmt (d : Draws) : (startTxnStmt cfg d threadId).hasRows = false := by
  unfold startTxnStmt beginQuery
  split_ifs <;> rfl

theorem harmless_rest (hok : Harmless p cfg h a) (hsk : cfg.skipTrx = false)
    (ho : (a.outcome 0).query = none) :
    ¬ (usesXa cfg a.draws = true ∧ failure? (bodyCalls cfg a) = none ∧
      rowsLost p .branch (bodyCalls cfg a) = true) := by
  rintro ⟨hxa, hf, hl⟩
  cases h with
  | nothing => exact hok ⟨hsk, hxa, ho, hf, hl⟩
  | transaction => simp [Harmless, hxa] at hok
  | branch => exact hok

/-- **A harmless attempt** sends only legal statements, and leaves behind what `leaves` says. -/
theorem attempt_legal (hs : Holds h s) (hskip : h ≠ .nothing → cfg.skipTrx = false)
    (hok : Harmless p cfg h a) :
    (∀ x ∈ (runCalls p s (a.calls (oltpXaEvent cfg · threadId))).sent, Legal x.1 x.2) ∧
      Holds (leaves p cfg threadId h a)
        (runCalls p s (a.calls (oltpXaEvent cfg · threadId))).session := by
  cases hsk : cfg.skipTrx with
  | true =>
    obtain rfl : h = .nothing := by
      by_contra hne
      simp [hskip hne] at hsk
    obtain rfl := hs.2 rfl
    rw [calls_skipTrx hsk, leaves, if_pos hsk]
    have hruns : Runs p .fresh (callsFrom a.outcome 0 (body cfg a.draws)) .fresh _ :=
      runs_body_fresh isBody_body
    exact ⟨hruns.legal, hruns.holds_fresh⟩
  | false =>
    have hstart : h = .nothing ∨ h = .transaction ∧ usesXa cfg a.draws = false := by
      cases h <;> simp_all [Harmless]
    obtain ⟨hnext, commits₀, hexec⟩ := exec_start cfg threadId hs hstart
    rw [calls_xaEvent hsk]
    cases ho : (a.outcome 0).query with
    | some f =>
      have hruns : Runs p s ((startTxnStmt cfg a.draws threadId, a.outcome 0) ::
          (bodyCalls cfg a ++ endCalls cfg threadId a)) s [] :=
        Runs.failed (by simp [Legal, hnext]) ho
      refine ⟨hruns.legal, ?_⟩
      rw [hruns.session_eq, failure?_failed ho, leaves, if_neg (by simp [hsk])]
      simpa [ho] using hs.afterError f
    | none =>
      obtain ⟨s', commits, hrest, hholds⟩ := runs_rest threadId (harmless_rest hok hsk ho)
      have hruns := Runs.cons_of_exec hnext ho hexec (hasRows_startTxnStmt _) hrest
      refine ⟨hruns.legal, ?_⟩
      rw [hruns.session_eq, failure?_ok ho, leaves, if_neg (by simp [hsk])]
      simp only [ho]
      cases hf : failure? (bodyCalls cfg a ++ endCalls cfg threadId a) with
      | none => simpa [hf] using hholds
      | some f =>
        simp only [hf, reduceCtorEq, false_or] at hholds
        have hafter := hholds.afterError (p := p) f
        cases hl : rowsLost p (opened cfg threadId a.draws).held (bodyCalls cfg a) <;>
          simpa [hl] using hafter

/-- A branch is ended by `XA END` first. -/
theorem endCalls_xa (threadId : ℕ) (hxa : usesXa cfg a.draws = true) :
    ∃ o rest, endCalls cfg threadId a = (.xaEnd (xatxnid threadId), o) :: rest := by
  unfold endCalls endTxnStmts endXa
  rw [if_pos hxa]
  split_ifs <;> exact ⟨_, _, callsFrom_cons⟩

/-- **Any other attempt** sends an illegal statement. -/
theorem attempt_illegal (hs : Holds h s) (hskip : h ≠ .nothing → cfg.skipTrx = false)
    (hbad : ¬ Harmless p cfg h a) :
    ¬ ∀ x ∈ (runCalls p s (a.calls (oltpXaEvent cfg · threadId))).sent, Legal x.1 x.2 := by
  intro hall
  by_cases hstart : h = .branch ∨ h = .transaction ∧ usesXa cfg a.draws = true
  · have hsk : cfg.skipTrx = false := hskip (by rcases hstart with rfl | ⟨rfl, -⟩ <;> simp)
    rw [calls_xaEvent hsk] at hall
    exact not_legal_start hs hstart (hall _ head_mem_sent)
  · -- the branch was lost, and `XA END` is sent without it
    obtain ⟨rfl, hsk, hxa, ho, hf, hl⟩ : h = .nothing ∧ losesBranch p cfg a := by
      cases h <;> simp_all [Harmless]
    obtain ⟨hnext, commits₀, hexec⟩ := exec_start (a := a) cfg threadId hs (.inl rfl)
    have htrx : opened cfg threadId a.draws = .active (xatxnid threadId) := if_pos hxa
    obtain ⟨s₂, commits, hbody, hgone, -⟩ :=
      runs_bodyCalls p cfg a (opened_works cfg threadId a.draws)
    obtain rfl : s₂ = .fresh := hgone (by rw [htrx]; exact hl)
    have hruns := Runs.cons_of_exec hnext ho hexec (hasRows_startTxnStmt _) hbody
    obtain ⟨o, rest, hend⟩ := endCalls_xa threadId hxa
    rw [calls_xaEvent hsk, hend, ← List.cons_append] at hall
    simpa [Legal, Trx.next, Session.fresh] using
      hall _ (hruns.next_mem_sent (by rw [failure?_ok ho, hf]))

/-! ## Every run of a worker -/

/-- **Every statement in its place**: for every list of ignored errors, every server, every
configuration of the script and every run of a worker, however its statements fail and whatever it
draws, the statements sent are all legal exactly when every attempt was harmless after what the
attempts before it had left behind. -/
theorem xaStatements_legal_iff (p : ErrorPolicy) (cfg : OltpConfig) (threadId requests : ℕ)
    {outs : List (Record Draws)} {w : Worker}
    (h : Trace (workerStep p (oltpXaEvent cfg · threadId)) (startWorker requests) outs w) :
    (∀ r ∈ outs, ∀ x ∈ r.run.sent, Legal x.1 x.2) ↔
      Along (leaves p cfg threadId) (Harmless p cfg) .nothing (outs.map (·.attempt)) := by
  rw [along_map]
  refine h.forall_iff_along (fun held w =>
    Holds held w.session ∧ (held ≠ .nothing → cfg.skipTrx = false)) ⟨holds_fresh, by simp⟩ ?_
  rintro held w a r w' ⟨hs, hskip⟩ hstep
  obtain ⟨rfl, hsession⟩ := workerStep_eq hstep
  refine ⟨⟨fun hall => ?_, fun hok => (attempt_legal hs hskip hok).1⟩, fun hok => ⟨?_, ?_⟩⟩
  · by_contra hbad
    exact attempt_illegal hs hskip hbad hall
  · exact hsession ▸ (attempt_legal hs hskip hok).2
  · intro hne
    cases hsk : cfg.skipTrx with
    | false => rfl
    | true => simpa [hsk] using hskip (by simpa [leaves, hsk] using hne)

/-- `XA START` itself fails, for a lock wait timeout, and the branch is opened at the second
attempt. -/
theorem xaStatements_legal_twoAttempts :
    ∃ outs w, Trace (workerStep .default (oltpXaEvent { useXaPct := 100 } · 0))
      (startWorker 1) outs w ∧
      outs.map (·.run.errno) = [.restartTransaction, .none] ∧
      ∀ r ∈ outs, ∀ x ∈ r.run.sent, Legal x.1 x.2 := by
  have h₀ : Trace (workerStep .default (oltpXaEvent { useXaPct := 100 } · 0))
      (startWorker 1) [] _ := .nil
  have h₂ :=
    (h₀.snoc (i := ⟨drawsOf 1, failsAt 0 1205⟩) rfl).snoc (i := ⟨drawsOf 1, fun _ => {}⟩) rfl
  exact ⟨_, _, h₂, by decide, (xaStatements_legal_iff _ _ _ _ h₂).mpr (by decide)⟩

/-- The first `UPDATE` of a branch runs into a lock wait timeout: the driver asks for a restart, and
`XA START` is sent in the branch. -/
theorem xaStart_sent_in_branch :
    ∃ outs w, Trace (workerStep .default (oltpXaEvent { useXaPct := 100 } · 0))
      (startWorker 1) outs w ∧
      outs.map (·.run.errno) = [.restartTransaction, .failed] ∧
      ¬ ∀ r ∈ outs, ∀ x ∈ r.run.sent, Legal x.1 x.2 := by
  have h₀ : Trace (workerStep .default (oltpXaEvent { useXaPct := 100 } · 0))
      (startWorker 1) [] _ := .nil
  have h₂ :=
    (h₀.snoc (i := ⟨drawsOf 1, failsAt 15 1205⟩) rfl).snoc (i := ⟨drawsOf 1, fun _ => {}⟩) rfl
  exact ⟨_, _, h₂, by decide, by decide⟩

end Sysbench.Scripting
