import Sysbench.Machinery.Traces
import Sysbench.Scripting.OltpScripts

/-!
# Scripting/XaInDoubt — the branches of many threads on one server

Both XA scripts call the branches of a thread `xa_` and its number, in every event and every run.
A branch that is prepared survives its connection: it stays **in doubt** at the server until someone
ends it, which the scripts never do.  The server then refuses the name.

A run is any interleaving of the threads, statement by statement, over any number of invocations
that ignore the same errors; a connection may break under a statement, before or after the server
has executed it.
-/

namespace Sysbench.Scripting.InDoubt

/-! ## The scripts -/

/-- The scripts that open branches. -/
inductive XaScript
  | oltpXa
  | updateNonIndexXa
  deriving DecidableEq, Repr

/-- `event` of `update_non_index_xa.lua`. -/
def updateNonIndexXaEvent (cfg : OltpConfig) (d : Draws) (threadId : ℕ) : List Stmt :=
  let update : Stmt := .write (.updateNonIndex d.table (d.nonIndexId 0) (d.cVal 0))
  if usesXa cfg d then
    .xaStart (xatxnid threadId) :: update ::
      endXa (xatxnid threadId) (if cfg.useXa2pcPct < d.twoPhase then 1 else 2)
  else [update]

/-- `event` of the script. -/
def XaScript.event (cfg : OltpConfig) (d : Draws) (threadId : ℕ) : XaScript → List Stmt
  | .oltpXa => oltpXaEvent cfg d threadId
  | .updateNonIndexXa => updateNonIndexXaEvent cfg d threadId

/-- The branch a statement names. -/
def xidOf : Stmt → Option String
  | .xaStart xid | .xaEnd xid | .xaPrepare xid | .xaCommit xid | .xaCommitOnePhase xid => some xid
  | _ => none

/-- The branch a session is in. -/
def branchOf : Trx → Option String
  | .active xid | .idle xid | .prepared xid => some xid
  | _ => none

/-! ## Threads and server -/

/-- What a thread is doing: it has no connection, or runs on one, or an error has stopped it, which
leaves the connection open until the process ends. -/
inductive Phase
  | closed
  | running
  | stopped
  deriving DecidableEq, Repr

/-- A thread: its session at the server, and what `event()` has still to send. -/
structure XaThread where
  phase : Phase
  trx : Trx
  todo : List Stmt
  deriving DecidableEq, Repr

/-- The threads of an invocation, and the branches in doubt. -/
structure XaSystem (n : ℕ) where
  thread : Fin n → XaThread
  inDoubt : Finset String

/-- What happens to a statement: the server executes it, or finds that it may not; it reports an
error; or the connection breaks.  `store` is how `mysql_store_result` fails, if it does. -/
inductive XaFate
  | done (store : Option Failure)
  | error (code : ℕ)
  | lost (code : ℕ) (applied reconnect : Bool)
  deriving DecidableEq, Repr

/-- A thread connects, as a run starts; it calls `event()`; it sends the next statement; its
connection is closed. -/
inductive XaMove
  | connect
  | event (script : XaScript) (cfg : OltpConfig) (d : Draws)
  | send (fate : XaFate)
  | close

/-- `ER_XAER_DUPID`. -/
def xaerDupid : ℕ := 1440

variable {n : ℕ}

namespace XaSystem

/-- The name is in use. -/
def Taken (s : XaSystem n) (xid : String) : Prop :=
  xid ∈ s.inDoubt ∨ ∃ j, branchOf (s.thread j).trx = some xid

instance (s : XaSystem n) (xid : String) : Decidable (s.Taken xid) :=
  inferInstanceAs (Decidable (_ ∨ _))

/-- The session after the statement, or the error with which the server refuses it.  That the
session may open a branch at all is looked at before the name. -/
def execute (s : XaSystem n) (t : Trx) (q : Stmt) : Except ℕ Trx :=
  match t.next q with
  | none => .error (refusal t).code
  | some t' =>
    match q with
    | .xaStart xid => if s.Taken xid then .error xaerDupid else .ok t'
    | _ => .ok t'

/-- The thread after the driver has reported an error: `event()` is left, and called again if so. -/
def stopOr (e : DbError) (t : Trx) : XaThread :=
  ⟨if e = .restartTransaction then .running else .stopped, t, []⟩

/-- The session after an error that does not end its connection. -/
def rolledBack (p : ErrorPolicy) (t : Trx) (code : ℕ) : Trx :=
  if loses p t.held ⟨code, false⟩ then .outside else t

/-- The session a broken connection leaves behind. -/
def lastTrx (s : XaSystem n) (t : Trx) (q : Stmt) (applied : Bool) : Trx :=
  if applied then (s.execute t q).toOption.getD t else t

/-- The branches that survive the connection. -/
def abandoned : Trx → Finset String
  | .prepared xid => {xid}
  | _ => ∅

/-- Thread `i` goes on as `w`. -/
def goto (s : XaSystem n) (i : Fin n) (w : XaThread) : XaSystem n :=
  { s with thread := Function.update s.thread i w }

/-- The connection of thread `i` ends, with its session in `t`; the thread goes on as `w`. -/
def hangUp (s : XaSystem n) (i : Fin n) (t : Trx) (w : XaThread) : XaSystem n :=
  ⟨Function.update s.thread i w, s.inDoubt ∪ abandoned t⟩

/-- The next statement of thread `i`. -/
def sendStmt (p : ErrorPolicy) (s : XaSystem n) (i : Fin n) (q : Stmt) (qs : List Stmt) :
    XaFate → Option (XaSystem n)
  | .done store =>
    let w := s.thread i
    match s.execute w.trx q with
    | .ok t =>
      -- the rows are stored, or the driver connects again without a word
      let t' := if q.hasRows && store.any (loses p t.held) then .outside else t
      some (s.goto i ⟨.running, t', qs⟩)
    | .error code => some (s.goto i (stopOr (errno p ⟨code, false⟩) (rolledBack p w.trx code)))
  | .error code =>
    let w := s.thread i
    if code ∈ lostCodes then none
    else some (s.goto i (stopOr (errno p ⟨code, false⟩) (rolledBack p w.trx code)))
  | .lost code applied reconnect =>
    let w := s.thread i
    if code ∈ lostCodes then
      some (s.hangUp i (s.lastTrx w.trx q applied) (stopOr (errno p ⟨code, reconnect⟩) .outside))
    else none

/-- A move of thread `i`. -/
def move (p : ErrorPolicy) (s : XaSystem n) :
    Fin n × XaMove → Option (XaSystem n)
  | (i, m) =>
    let w := s.thread i
    match m, w.phase, w.todo with
    | .connect, .closed, _ => some (s.goto i ⟨.running, .outside, []⟩)
    | .event script cfg d, .running, [] =>
      some (s.goto i { w with todo := script.event cfg d i })
    | .send fate, .running, q :: qs => s.sendStmt p i q qs fate
    | .close, .running, _ | .close, .stopped, _ =>
      some (s.hangUp i w.trx ⟨.closed, .outside, []⟩)
    | _, _, _ => none

/-- No thread has a connection yet, and no branch is in doubt. -/
def start : XaSystem n := ⟨fun _ => ⟨.closed, .outside, []⟩, ∅⟩

/-- The session with which a move ends a connection, if it ends one. -/
def ended (s : XaSystem n) : Fin n × XaMove → Option Trx
  | (i, .close) => some (s.thread i).trx
  | (i, .send (.lost _ applied _)) =>
    (s.thread i).todo.head?.map fun q => s.lastTrx (s.thread i).trx q applied
  | _ => none

end XaSystem

/-- The move ends a connection whose branch is prepared. -/
def Strands (e : XaSystem n × (Fin n × XaMove)) : Prop :=
  ∃ xid, e.1.ended e.2 = some (.prepared xid)

/-! ## Every thread keeps to its own name -/

theorem xatxnid_injective : Function.Injective xatxnid := by
  intro i j h
  have hchars := congrArg String.toList h
  simp only [xatxnid, String.toList_append, List.append_cancel_left_eq] at hchars
  have hvalue := congrArg (fun cs => Nat.ofDigitChars 10 cs 0) hchars
  simpa [Nat.repr_eq_ofList_toDigits] using hvalue

/-- What a thread does is about its own branch. -/
structure KeepsName (i : ℕ) (w : XaThread) : Prop where
  trx : ∀ xid, branchOf w.trx = some xid → xid = xatxnid i
  todo : ∀ q ∈ w.todo, ∀ xid, xidOf q = some xid → xid = xatxnid i

section Names

variable {cfg : OltpConfig} {d : Draws} {i : ℕ} {t t' : Trx} {q : Stmt}
  {qs : List Stmt} {xid : String} {w : XaThread}

theorem xidOf_body (h : q ∈ body cfg d) : xidOf q = none := by
  rcases List.mem_append.mp h with hread | hwrite
  · have hrows := hasRows_of_mem_reads hread
    cases q <;> first | rfl | cases hrows
  · obtain ⟨w, -, rfl⟩ := List.mem_map.mp hwrite
    rfl

theorem xidOf_endXa {k : ℕ} (h : q ∈ endXa xid k) : xidOf q = some xid := by
  unfold endXa at h
  split_ifs at h <;> simp only [List.mem_cons, List.not_mem_nil, or_false] at h
  · rcases h with rfl | rfl | rfl <;> rfl
  · rcases h with rfl | rfl <;> rfl

/-- The statements of an event name the branch of the thread. -/
theorem xidOf_event (script : XaScript) (h : q ∈ script.event cfg d i)
    (hxid : xidOf q = some xid) : xid = xatxnid i := by
  have hbegin : xidOf (beginQuery cfg) = none := by
    unfold beginQuery
    split_ifs <;> rfl
  cases script with
  | oltpXa =>
    simp only [XaScript.event, oltpXaEvent] at h
    split_ifs at h
    · simp [xidOf_body h] at hxid
    · rcases List.mem_cons.mp h with rfl | h
      · unfold startTxnStmt at hxid
        split_ifs at hxid
        · exact (Option.some.inj hxid).symm
        · simp [hbegin] at hxid
      · rcases List.mem_append.mp h with h | h
        · simp [xidOf_body h] at hxid
        · unfold endTxnStmts at h
          cases hxa : usesXa cfg d with
          | true =>
            rw [if_pos hxa] at h
            exact Option.some.inj (hxid.symm.trans (xidOf_endXa h))
          | false =>
            rw [if_neg (by simp [hxa]), List.mem_singleton] at h
            rw [h] at hxid
            cases hxid
  | updateNonIndexXa =>
    simp only [XaScript.event, updateNonIndexXaEvent] at h
    cases hxa : usesXa cfg d with
    | true =>
      rw [if_pos hxa] at h
      rcases List.mem_cons.mp h with rfl | h
      · exact (Option.some.inj hxid).symm
      · rcases List.mem_cons.mp h with rfl | h
        · cases hxid
        · exact Option.some.inj (hxid.symm.trans (xidOf_endXa h))
    | false =>
      rw [if_neg (by simp [hxa]), List.mem_singleton] at h
      rw [h] at hxid
      cases hxid

/-- A statement leads into no branch but the one it names. -/
theorem branchOf_next (h : t.next q = some t') (hb : branchOf t' = some xid) :
    branchOf t = some xid ∨ xidOf q = some xid := by
  cases q <;>
    simp only [Trx.next, Option.ite_none_left_eq_some, Option.ite_none_right_eq_some,
      Option.some.injEq] at h <;> obtain ⟨-, rfl⟩ := h
  all_goals first
    | exact .inl hb
    | exact .inr hb
    | cases hb

/-- Only `XA START` opens one. -/
theorem eq_xaStart_of_next (h : t.next q = some t') (ht : branchOf t = none)
    (hb : branchOf t' = some xid) : q = .xaStart xid := by
  cases q <;>
    simp only [Trx.next, Option.ite_none_left_eq_some, Option.ite_none_right_eq_some,
      Option.some.injEq] at h <;> obtain ⟨hcond, rfl⟩ := h
  case xaStart x => exact congrArg Stmt.xaStart (Option.some.inj hb)
  case xaEnd x | xaPrepare x =>
    rw [hcond] at ht
    cases ht
  all_goals first
    | cases hb
    | exact absurd (ht.symm.trans hb) nofun

end Names

/-! ## What a move does -/

section Moves

variable {p : ErrorPolicy} {s s' : XaSystem n} {i : Fin n} {m : XaMove}
  {t t' : Trx} {q : Stmt} {qs : List Stmt} {fate : XaFate} {xid : String}

theorem next_of_execute (h : s.execute t q = .ok t') :
    t.next q = some t' ∧ ∀ xid, q = .xaStart xid → ¬ s.Taken xid := by
  unfold XaSystem.execute at h
  cases hnext : t.next q with
  | none => simp [hnext] at h
  | some u =>
    simp only [hnext] at h
    split at h
    · split_ifs at h with htaken
      obtain rfl := Except.ok.inj h
      refine ⟨rfl, fun xid hq => ?_⟩
      obtain rfl := Stmt.xaStart.inj hq
      exact htaken
    · rename_i hne
      obtain rfl := Except.ok.inj h
      exact ⟨rfl, fun xid hq => absurd hq (hne xid)⟩

/-- Where the session of thread `i` may get in one move. -/
def Reaches (s : XaSystem n) (i : Fin n) (t : Trx) : Prop :=
  t = .outside ∨ t = (s.thread i).trx ∨
    ∃ q ∈ (s.thread i).todo, s.execute (s.thread i).trx q = .ok t

/-- **What a move does**: the thread goes on with its session, or the connection ends. -/
inductive Moved (s : XaSystem n) (i : Fin n) (ended : Option Trx) :
    XaSystem n → Prop
  | goesOn {w : XaThread} (hended : ended = none) (htrx : Reaches s i w.trx)
      (htodo : ∀ q ∈ w.todo, q ∈ (s.thread i).todo ∨
        ∃ script cfg d, q ∈ XaScript.event cfg d i script) :
      Moved s i ended (s.goto i w)
  | hangsUp {t : Trx} {phase : Phase} (hended : ended = some t) (htrx : Reaches s i t) :
      Moved s i ended (s.hangUp i t ⟨phase, .outside, []⟩)

theorem reaches_rolledBack {code : ℕ} :
    Reaches s i (XaSystem.rolledBack p (s.thread i).trx code) := by
  unfold XaSystem.rolledBack
  split_ifs
  · exact .inl rfl
  · exact .inr (.inl rfl)

theorem reaches_lastTrx {applied : Bool} (hq : q ∈ (s.thread i).todo) :
    Reaches s i (s.lastTrx (s.thread i).trx q applied) := by
  unfold XaSystem.lastTrx
  split_ifs
  · cases h : s.execute (s.thread i).trx q with
    | error => exact .inr (.inl rfl)
    | ok t => exact .inr (.inr ⟨q, hq, h⟩)
  · exact .inr (.inl rfl)

theorem moved_sendStmt (htodo : (s.thread i).todo = q :: qs)
    (h : s.sendStmt p i q qs fate = some s') :
    Moved s i (s.ended (i, .send fate)) s' := by
  have hq : q ∈ (s.thread i).todo := by simp [htodo]
  have hstop : ∀ e code, Moved s i none
      (s.goto i (XaSystem.stopOr e (XaSystem.rolledBack p (s.thread i).trx code))) :=
    fun e code => .goesOn rfl reaches_rolledBack (by simp [XaSystem.stopOr])
  cases fate with
  | done store =>
    simp only [XaSystem.sendStmt] at h
    split at h <;> obtain rfl := Option.some.inj h
    · rename_i t hexec
      refine .goesOn rfl ?_ fun q' hq' => .inl (htodo ▸ List.mem_cons_of_mem q hq')
      dsimp only
      split_ifs
      · exact .inl rfl
      · exact .inr (.inr ⟨q, hq, hexec⟩)
    · exact hstop _ _
  | error code =>
    simp only [XaSystem.sendStmt, Option.ite_none_left_eq_some, Option.some.injEq] at h
    obtain ⟨-, rfl⟩ := h
    exact hstop _ _
  | lost code applied reconnect =>
    simp only [XaSystem.sendStmt, Option.ite_none_right_eq_some, Option.some.injEq] at h
    obtain ⟨-, rfl⟩ := h
    exact .hangsUp (by simp [XaSystem.ended, htodo]) (reaches_lastTrx hq)

theorem moved_of_move (h : s.move p (i, m) = some s') : Moved s i (s.ended (i, m)) s' := by
  unfold XaSystem.move at h
  dsimp only at h
  split at h
  · obtain rfl := Option.some.inj h
    exact .goesOn rfl (.inl rfl) (by simp)
  · obtain rfl := Option.some.inj h
    exact .goesOn rfl (.inr (.inl rfl)) fun q hq => .inr ⟨_, _, _, hq⟩
  · rename_i htodo
    exact moved_sendStmt htodo h
  · obtain rfl := Option.some.inj h
    exact .hangsUp rfl (.inr (.inl rfl))
  · obtain rfl := Option.some.inj h
    exact .hangsUp rfl (.inr (.inl rfl))
  · cases h

end Moves

/-! ## Every run -/

section Runs

variable {p : ErrorPolicy} {s s' : XaSystem n} {i j : Fin n} {m : XaMove}
  {t : Trx} {xid : String} {hist after : List (XaSystem n × (Fin n × XaMove))}
  {e : XaSystem n × (Fin n × XaMove)}

/-- **A thread gets into its own branch only.** -/
theorem name_of_reaches (hk : KeepsName i (s.thread i)) (h : Reaches s i t)
    (hb : branchOf t = some xid) : xid = xatxnid i := by
  rcases h with rfl | rfl | ⟨q, hq, hexec⟩
  · cases hb
  · exact hk.trx xid hb
  · rcases branchOf_next (next_of_execute hexec).1 hb with hbefore | hnamed
    · exact hk.trx xid hbefore
    · exact hk.todo q hq xid hnamed

theorem keepsName_of_moved {ended : Option Trx} (hk : ∀ j : Fin n, KeepsName j (s.thread j))
    (h : Moved s i ended s') (j : Fin n) : KeepsName j (s'.thread j) := by
  have hothers : ∀ w : XaThread, KeepsName i w →
      KeepsName j (Function.update s.thread i w j) := by
    intro w hw
    rcases eq_or_ne j i with rfl | hne
    · rwa [Function.update_self]
    · rw [Function.update_of_ne hne]
      exact hk j
  cases h with
  | goesOn hended htrx htodo =>
    refine hothers _ ⟨fun xid hb => name_of_reaches (hk i) htrx hb, fun q hq xid hxid => ?_⟩
    rcases htodo q hq with hold | ⟨script, cfg, d, hnew⟩
    · exact (hk i).todo q hold xid hxid
    · exact xidOf_event script hnew hxid
  | hangsUp hended htrx => exact hothers _ ⟨by simp [branchOf], by simp⟩

theorem mem_abandoned : xid ∈ XaSystem.abandoned t ↔ t = .prepared xid := by
  cases t <;> simp [XaSystem.abandoned, eq_comm]

/-- **The names in doubt**: those of the threads that have left a prepared branch behind. -/
structure NamesInv (hist : List (XaSystem n × (Fin n × XaMove))) (s : XaSystem n) : Prop where
  keeps : ∀ j : Fin n, KeepsName j (s.thread j)
  inDoubt : ∀ j : Fin n, xatxnid j ∈ s.inDoubt ↔ ∃ e ∈ hist, e.2.1 = j ∧ Strands e

theorem NamesInv.step (h : NamesInv hist s) (hs : s.move p (i, m) = some s') :
    NamesInv (hist ++ [(s, (i, m))]) s' := by
  have hmoved := moved_of_move hs
  refine ⟨keepsName_of_moved h.keeps hmoved, fun j => ?_⟩
  have hsplit : (∃ e ∈ hist ++ [(s, (i, m))], e.2.1 = j ∧ Strands e) ↔
      xatxnid j ∈ s.inDoubt ∨ i = j ∧ Strands (s, (i, m)) := by
    simp [h.inDoubt j, or_and_right, exists_or]
  rw [hsplit]
  generalize hended : s.ended (i, m) = ended at hmoved
  cases hmoved with
  | goesOn hnone =>
    have hno : ¬ Strands (s, (i, m)) := fun ⟨xid, hxid⟩ => by
      simp only [hended, hnone] at hxid
      cases hxid
    simp [hno, XaSystem.goto]
  | @hangsUp t phase hsome htrx =>
    have hyes : Strands (s, (i, m)) ↔ ∃ xid, t = .prepared xid := by
      simp [Strands, hended, hsome]
    have hname : (∃ xid, t = .prepared xid) → t = .prepared (xatxnid i) := by
      rintro ⟨xid, rfl⟩
      exact congrArg Trx.prepared (name_of_reaches (h.keeps i) htrx rfl)
    simp only [XaSystem.hangUp, Finset.mem_union, mem_abandoned, hyes]
    refine or_congr_right ⟨fun hj => ?_, ?_⟩
    · have hinj := Trx.prepared.inj (hj.symm.trans (hname ⟨_, hj⟩))
      exact ⟨(Fin.ext (xatxnid_injective hinj)).symm, _, hj⟩
    · rintro ⟨rfl, hex⟩
      exact hname hex

theorem namesInv_start : NamesInv [] (XaSystem.start : XaSystem n) where
  keeps _ := ⟨nofun, nofun⟩
  inDoubt _ := by simp [XaSystem.start]

theorem namesInv_of_run (hrun : Sysbench.Run (XaSystem.move p) XaSystem.start hist s) :
    NamesInv hist s :=
  hrun.induction NamesInv namesInv_start fun _ _ _ _ h hs => h.step hs

/-- **`XA START` is refused for its name exactly when the thread of that number has lost a prepared
branch before**, in this invocation or an earlier one; no other thread is ever the cause. -/
theorem xaStart_refused_iff {qs : List Stmt}
    (hrun : Sysbench.Run (XaSystem.move p) XaSystem.start hist s)
    (htodo : (s.thread i).todo = .xaStart xid :: qs) (hout : (s.thread i).trx = .outside) :
    s.execute (s.thread i).trx (.xaStart xid) = .error xaerDupid ↔
      ∃ e ∈ hist, e.2.1 = i ∧ Strands e := by
  have hinv := namesInv_of_run hrun
  have hname : xid = xatxnid i := (hinv.keeps i).todo (.xaStart xid) (by simp [htodo]) xid rfl
  have htaken : s.Taken xid ↔ xid ∈ s.inDoubt := by
    refine ⟨fun h => h.elim id fun ⟨j, hj⟩ => ?_, .inl⟩
    -- a thread in this branch would be the thread itself, which is in none
    have hij : i = j := Fin.ext (xatxnid_injective (hname ▸ (hinv.keeps j).trx xid hj))
    rw [← hij, hout] at hj
    cases hj
  rw [← hinv.inDoubt i, ← hname, ← htaken]
  simp [XaSystem.execute, hout, Trx.next]

/-- An event in two phases, whose connection breaks before `XA COMMIT` gets through; then the next
invocation calls `event()`. -/
def brokenCommit : List (Fin 1 × XaMove) :=
  [.connect, .event .updateNonIndexXa { useXaPct := 100 } (drawsOf 1), .send (.done none),
    .send (.done none), .send (.done none), .send (.done none), .send (.lost 2013 false false),
    .close, .connect, .event .updateNonIndexXa { useXaPct := 100 } (drawsOf 1)].map (soleParty, ·)

theorem xaStart_refused_iff_brokenCommit :
    ∃ hist s, Sysbench.Run (XaSystem.move .default) XaSystem.start hist s ∧
      s.execute (s.thread soleParty).trx (.xaStart (xatxnid 0)) = .error xaerDupid := by
  have h : Run.play (XaSystem.move .default) XaSystem.start brokenCommit = some (_, _) := rfl
  have hrun := Run.of_play h
  exact ⟨_, _, hrun, (xaStart_refused_iff hrun rfl rfl).mpr
    ⟨_, List.mem_of_getElem? (i := 6) rfl, rfl, xatxnid 0, rfl⟩⟩

/-- A thread whose name is in doubt opens no branch. -/
theorem branchOf_of_inDoubt (hk : KeepsName i (s.thread i)) (hdoubt : xatxnid i ∈ s.inDoubt)
    (hnone : branchOf (s.thread i).trx = none) (h : Reaches s i t) : branchOf t = none := by
  rcases h with rfl | rfl | ⟨q, hq, hexec⟩
  · rfl
  · exact hnone
  · obtain ⟨hnext, hfree⟩ := next_of_execute hexec
    by_contra hb
    obtain ⟨xid, hb⟩ := Option.ne_none_iff_exists'.mp hb
    obtain rfl := eq_xaStart_of_next hnext hnone hb
    refine hfree xid rfl (.inl ?_)
    rwa [(hk.todo _ hq xid rfl : xid = xatxnid i)]

theorem branchOf_of_stranded (hrun : Sysbench.Run (XaSystem.move p) XaSystem.start hist s) :
    ∀ i, (∃ e ∈ hist, e.2.1 = i ∧ Strands e) → branchOf (s.thread i).trx = none := by
  refine (hrun.induction (fun hist s => NamesInv hist s ∧ ∀ i : Fin n,
    (∃ e ∈ hist, e.2.1 = i ∧ Strands e) → branchOf (s.thread i).trx = none) ?_ ?_).2
  · exact ⟨namesInv_start, by simp⟩
  · intro hist s ⟨i, m⟩ s' ⟨hinv, hall⟩ hs
    refine ⟨hinv.step hs, fun j hstranded => ?_⟩
    have hmoved := moved_of_move hs
    generalize hended : s.ended (i, m) = ended at hmoved
    cases hmoved with
    | @goesOn w hnone htrx htodo =>
      have hbefore : ∃ e ∈ hist, e.2.1 = j ∧ Strands e :=
        (hinv.inDoubt j).mp (((hinv.step hs).inDoubt j).mpr hstranded)
      rcases eq_or_ne j i with rfl | hne
      · simp only [XaSystem.goto, Function.update_self]
        exact branchOf_of_inDoubt (hinv.keeps j) ((hinv.inDoubt j).mpr hbefore)
          (hall j hbefore) htrx
      · simp only [XaSystem.goto, Function.update_of_ne hne]
        exact hall j hbefore
    | @hangsUp t phase hsome htrx =>
      rcases eq_or_ne j i with rfl | hne
      · simp [XaSystem.hangUp, branchOf]
      · have hbefore : ∃ e ∈ hist, e.2.1 = j ∧ Strands e := by
          obtain ⟨e, he, hj, hstr⟩ := hstranded
          rcases List.mem_append.mp he with he | he
          · exact ⟨e, he, hj, hstr⟩
          · rw [List.mem_singleton.mp he] at hj
            exact absurd hj.symm hne
        simp only [XaSystem.hangUp, Function.update_of_ne hne]
        exact hall j hbefore

/-- **A thread that has left a branch in doubt never has a branch again**, in no later invocation
either: it leaves no second one behind, and its events get no further than `XA START`. -/
theorem stranded_for_good (before : List (XaSystem n × (Fin n × XaMove)))
    (hrun : Sysbench.Run (XaSystem.move p) XaSystem.start (before ++ e :: after) s)
    (hstr : Strands e) :
    branchOf (s.thread e.2.1).trx = none ∧
      ∀ e' ∈ after, e'.2.1 = e.2.1 →
        branchOf (e'.1.thread e.2.1).trx = none ∧ ¬ Strands e' := by
  refine ⟨branchOf_of_stranded hrun _ ⟨e, by simp, rfl, hstr⟩, fun e' he' hi => ?_⟩
  obtain ⟨after₁, after₂, rfl⟩ := List.append_of_mem he'
  rw [← List.cons_append, ← List.append_assoc] at hrun
  obtain ⟨s₁, hbefore, hmove, -⟩ := hrun.split
  have hmem : ∃ e₀ ∈ before ++ e :: after₁, e₀.2.1 = e.2.1 ∧ Strands e₀ := ⟨e, by simp, rfl, hstr⟩
  have hnone := branchOf_of_stranded hbefore _ hmem
  refine ⟨hnone, fun ⟨xid, hended⟩ => ?_⟩
  obtain ⟨t, ⟨k, m⟩⟩ := e'
  obtain rfl : k = e.2.1 := hi
  have hinv := namesInv_of_run hbefore
  have hmoved := moved_of_move hmove
  rw [show t.ended (e.2.1, m) = some (.prepared xid) from hended] at hmoved
  cases hmoved with
  | goesOn hno => cases hno
  | hangsUp hsome htrx =>
    obtain rfl := Option.some.inj hsome
    have hb := branchOf_of_inDoubt (hinv.keeps _) ((hinv.inDoubt _).mpr hmem) hnone htrx
    cases hb

theorem stranded_for_good_brokenCommit :
    ∃ hist s, Sysbench.Run (XaSystem.move .default) XaSystem.start hist s ∧
      (s.thread soleParty).phase = .running ∧ branchOf (s.thread soleParty).trx = none := by
  have h : Run.play (XaSystem.move .default) XaSystem.start brokenCommit
      = some (_ :: _ :: _ :: _ :: _ :: _ :: _ :: _, _) := rfl
  have hrun := Run.of_play h
  have hstranded := stranded_for_good [_, _, _, _, _, _] hrun ⟨xatxnid 0, rfl⟩
  exact ⟨_, _, hrun, rfl, hstranded.1⟩

end Runs

end Sysbench.Scripting.InDoubt
