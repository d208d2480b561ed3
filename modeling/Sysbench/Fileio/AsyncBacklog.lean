import Sysbench.Fileio.Counters

/-!
# Fileio/AsyncBacklog — how many operations a thread has outstanding, and that none is lost

The queue of a thread is created for `--file-async-backlog` operations, and the array of events has
as many places.  One count, `nrequests`, keeps the thread inside both: it goes up with each
submission and down with each completion obtained, the thread waits as soon as it reaches the
backlog, and `file_thread_done` asks for as many completions as it says.

An operation submitted is **outstanding** until it is obtained, and counted when it is.  So what was
submitted is what was counted and what is outstanding (`Run.balance`), and a thread that is done has
nothing outstanding.
-/

namespace Sysbench.Fileio

variable {cfg : AioConfig} {s s' : AioThread} {m : AioMove}

/-- The kernel does not fail in the step; the validation of what was read may. -/
def kernelSucceeds (w : IoThread) : IoMove → Bool
  | .aio (.finish _) => true
  | m => succeeds w m

/-! ## The bound -/

/-- **Nothing has failed, and the backlog is respected**: a thread that does not wait has room for
one more operation. -/
structure Bounded (cfg : AioConfig) (s : AioThread) : Prop extends Settled s where
  le : s.outstanding ≤ cfg.backlog
  room : s.phase.running = true ∨ s.phase = .failed → s.outstanding < cfg.backlog

theorem bounded_startAio (cfg : AioConfig) : Bounded cfg startAio where
  toSettled := settled_startAio
  le := Nat.zero_le _
  room := fun _ => cfg.backlog_pos

/-- A step without a failure keeps the thread settled. -/
theorem Settled.kernel (hS : Settled s) (hok : kernelSucceeds (.aio s) (.aio m) = true)
    (h : aioMove cfg s m = some s') : Settled s' := by
  cases m with
  | finish passed =>
    have hstep := aioStep_of_aioMove h
    have hC := (consistent_step hS.consistent hstep).mpr (hS.not_failedBatch _)
    cases hstep with
    | finish hrunning hnext =>
      rcases hnext with rfl | rfl
      all_goals exact hS.of_same hC rfl rfl (by simp) (by simp)
  | _ =>
    refine (hS.step ?_ h).1
    exact hok

theorem outstanding_submit (type : FileOp) (len : ℤ) :
    (s.submit cfg type len).outstanding = s.outstanding + 1 := by
  simp only [AioThread.submit, AioThread.outstanding, List.length_append, List.length_singleton]
  omega

theorem outstanding_fileWait {nr : ℕ} (hnr : nr ≤ s.completed.length) :
    (s.fileWait nr).outstanding + nr = s.outstanding := by
  simp only [AioThread.fileWait, AioThread.outstanding, List.length_drop]
  omega

/-- **One step keeps the bound.** -/
theorem Bounded.step (hB : Bounded cfg s) (hok : kernelSucceeds (.aio s) (.aio m) = true)
    (h : aioMove cfg s m = some s') : Bounded cfg s' := by
  have hle := hB.le
  suffices hbound : s'.outstanding ≤ cfg.backlog ∧
      (s'.phase.running = true ∨ s'.phase = .failed → s'.outstanding < cfg.backlog) from
    ⟨hB.toSettled.kernel hok h, hbound.1, hbound.2⟩
  cases aioStep_of_aioMove h with
  | fill hidle => exact ⟨hle, fun _ => hB.room (.inl (by rw [hidle]; rfl))⟩
  | @submit type len hrunning =>
    have hroom := hB.room (.inl hrunning)
    have hreq := hB.consistent.nrequests
    rw [outstanding_submit]
    refine ⟨hroom, fun hphase => ?_⟩
    -- the thread goes on exactly when its count is below the backlog
    simp only [AioThread.submit] at hphase
    split_ifs at hphase with hlt
    · omega
    · simp [AioPhase.running] at hphase
  | submitFails => cases hok
  | complete hoper =>
    rw [outstanding_complete hoper]
    exact ⟨hle, hB.room⟩
  | getevents hnreq hmin hpos hnr =>
    have hout := outstanding_fileWait hnr
    exact ⟨by omega, fun _ => by omega⟩
  | geteventsFails => cases hok
  | fsync hphase => exact ⟨hle, fun _ => hB.room (.inl (running_of_afterFsync hphase).1)⟩
  | finish hrunning => exact ⟨hle, fun _ => hB.room (.inl hrunning)⟩
  | leave hphase =>
    refine ⟨hle, fun _ => hB.room ?_⟩
    rcases hphase with hphase | hphase
    · exact .inl (by rw [hphase]; rfl)
    · exact .inr hphase

/-- **The last wait asks for what can be had**: for all that is outstanding, which is something and
fits the array of events. -/
theorem Bounded.draining_le (hB : Bounded cfg s) {nreq : ℕ} (h : s.phase = .draining nreq) :
    nreq = s.outstanding ∧ nreq ≤ cfg.backlog := by
  have hall := hB.draining nreq h
  exact ⟨hall, hall ▸ hB.le⟩

/-! ## What is submitted, and what is counted -/

/-- The operations a thread has outstanding. -/
def AioThread.opers (s : AioThread) : Multiset AioOper :=
  (s.completed.map Prod.fst : List AioOper) + (s.pending : Multiset AioOper)

/-- What a step submits. -/
def aioSubmits (s : AioThread) : AioMove → Multiset AioOper
  | .submit type len => {⟨s.submissions, type, len⟩}
  | _ => 0

/-- The operations a step finds completed and counts. -/
def aioCollects (s : AioThread) : AioMove → Multiset AioOper
  | .getevents nr => (((s.completed.take nr).takeWhile eventOk).map Prod.fst : List AioOper)
  | _ => 0

theorem card_opers : Multiset.card s.opers = s.outstanding := by
  simp [AioThread.opers, AioThread.outstanding, add_comm]

/-- **One step**: what is submitted is outstanding until it is collected. -/
theorem opers_step (hS : Settled s) (h : aioMove cfg s m = some s') :
    s.opers + aioSubmits s m = s'.opers + aioCollects s m := by
  cases aioStep_of_aioMove h with
  | submit hrunning =>
    simp only [AioThread.opers, AioThread.submit, aioSubmits, aioCollects, add_zero,
      ← Multiset.coe_add, Multiset.coe_singleton, add_assoc]
  | @complete k res oper hoper =>
    obtain ⟨hk, rfl⟩ := List.getElem?_eq_some_iff.mp hoper
    have hperm := List.getElem_cons_eraseIdx_perm hk
    have hsplit : (s.pending : Multiset AioOper) = {s.pending[k]} + (s.pending.eraseIdx k) :=
      (Multiset.coe_eq_coe.mpr hperm).symm
    simp only [AioThread.opers, aioSubmits, aioCollects, add_zero, List.map_append, List.map_cons,
      List.map_nil, ← Multiset.coe_add, Multiset.coe_singleton, hsplit, add_assoc]
  | @getevents nr nreq hnreq hmin hpos hnr =>
    have hsplit : ((s.completed.map Prod.fst : List AioOper) : Multiset AioOper)
        = ((s.completed.take nr).map Prod.fst : List AioOper)
          + ((s.completed.drop nr).map Prod.fst : List AioOper) := by
      rw [Multiset.coe_add, ← List.map_append, List.take_append_drop]
    simp only [AioThread.opers, AioThread.fileWait, aioSubmits, aioCollects, add_zero,
      hS.takeWhile_eq, hsplit]
    abel
  | _ => simp [aioSubmits, aioCollects, AioThread.opers]

/-! ## All threads, and the counters -/

section Threads

variable {cfg : IoSettings} {threads : ℕ} {r r' : IoRun threads} {i : RunMove threads}
  {hist : List (IoRun threads × RunMove threads)} {t : Fin threads}

/-- The kernel does not fail in a step of the run. -/
def kernelOk (e : IoRun threads × RunMove threads) : Bool :=
  match e.2 with
  | .worker t m => kernelSucceeds (e.1.thread t) m
  | .report => true

/-- What a step of the run does for thread `t`, by what a step of that thread does. -/
def ofThread (t : Fin threads) (f : AioThread → AioMove → Multiset AioOper)
    (e : IoRun threads × RunMove threads) : Multiset AioOper :=
  match e.2, e.1.thread t with
  | .worker t' (.aio m), .aio s => if t' = t then f s m else 0
  | _, _ => 0

/-- The operations thread `t` has submitted in a run. -/
def submittedBy (t : Fin threads) (hist : List (IoRun threads × RunMove threads)) :
    Multiset AioOper :=
  (hist.map (ofThread t aioSubmits)).sum

/-- The operations of thread `t` that `file_wait` has counted, each as often as it has. -/
def collectedBy (t : Fin threads) (hist : List (IoRun threads × RunMove threads)) :
    Multiset AioOper :=
  (hist.map (ofThread t aioCollects)).sum

/-- What an operation adds to the counters. -/
def operTally (oper : AioOper) : Tally := total (aioEvent oper)

/-- The step counts the fsync of a write, with `--file-fsync-all`. -/
def countsFsync (e : IoRun threads × RunMove threads) : Bool :=
  match e.2 with
  | .worker t (.aio (.finish _)) =>
    match e.1.thread t with
    | .aio s => s.phase = .synced
    | .sync _ => false
  | _ => false

/-- A worker of asynchronous mode that respects the backlog. -/
def IoThread.Bounded (cfg : AioConfig) : IoThread → Prop
  | .aio s => Fileio.Bounded cfg s
  | .sync _ => False

/-- What a worker has outstanding. -/
def IoThread.opers : IoThread → Multiset AioOper
  | .aio s => s.opers
  | .sync _ => 0

theorem bounded_startRun (hmode : cfg.ioMode = .async) (t : Fin threads) :
    ((startRun cfg : IoRun threads).thread t).Bounded cfg.toAioConfig := by
  simp only [startRun, startThread, if_pos hmode]
  exact bounded_startAio cfg.toAioConfig

theorem IoThread.Bounded.exists_aio {w : IoThread} {c : AioConfig} (h : w.Bounded c) :
    ∃ s, w = .aio s ∧ Fileio.Bounded c s := by
  cases w with
  | aio s => exact ⟨s, rfl, h⟩
  | sync phase => exact h.elim

/-- **What a step of a run in asynchronous mode is**: a report, or a step of one thread. -/
theorem ioMove_cases (hB : ∀ t, (r.thread t).Bounded cfg.toAioConfig)
    (h : ioMove cfg r i = some r') :
    (i = .report ∧ r'.thread = r.thread ∧ tally r'.stats = tally r.stats) ∨
      ∃ t m s s', i = .worker t (.aio m) ∧ r.thread t = .aio s ∧
        aioMove cfg.toAioConfig s m = some s' ∧
        r'.thread = Function.update r.thread t (.aio s') ∧
        r'.stats = (aioCounts s m).foldl (fun stats op => updateStats stats op.event) r.stats := by
  cases i with
  | report =>
    obtain rfl := Option.some.inj h
    exact .inl ⟨rfl, rfl, tally_intermediate _⟩
  | worker t m =>
    obtain ⟨w, hw, rfl⟩ := Option.map_eq_some_iff.mp h
    obtain ⟨s, hs, -⟩ := (hB t).exists_aio
    rw [hs] at hw
    cases m with
    | sync m => cases hw
    | aio m =>
      obtain ⟨s', hs', rfl⟩ := Option.map_eq_some_iff.mp hw
      refine .inr ⟨t, m, s, s', rfl, hs, hs', rfl, ?_⟩
      simp only [hs, counts]

/-- **One step keeps every thread within the backlog**, and for each what is submitted is
outstanding until it is collected. -/
theorem opers_ioMove (hB : ∀ t, (r.thread t).Bounded cfg.toAioConfig)
    (hok : kernelOk (r, i) = true) (h : ioMove cfg r i = some r') (t : Fin threads) :
    (r'.thread t).Bounded cfg.toAioConfig ∧
      (r.thread t).opers + ofThread t aioSubmits (r, i)
        = (r'.thread t).opers + ofThread t aioCollects (r, i) := by
  rcases ioMove_cases hB h with ⟨rfl, hthread, -⟩ | ⟨t', m, s, s', rfl, hs, hmove, hthread, -⟩
  · rw [hthread]
    exact ⟨hB t, rfl⟩
  rw [hthread]
  obtain ⟨u, hu, hbound⟩ := (hB t).exists_aio
  by_cases ht : t' = t
  · subst ht
    obtain rfl := IoThread.aio.inj (hs.symm.trans hu)
    have hkernel : kernelSucceeds (.aio s) (.aio m) = true := by
      rw [← hs]
      exact hok
    rw [Function.update_self, hs]
    simp only [ofThread, hs, if_true]
    exact ⟨hbound.step hkernel hmove, opers_step hbound.toSettled hmove⟩
  · rw [Function.update_of_ne (Ne.symm ht)]
    simp only [ofThread, hu, if_neg ht]
    exact ⟨hbound, trivial⟩

/-- **Every thread, at every time**: within the backlog, and nothing lost. -/
theorem opers_of_run (hmode : cfg.ioMode = .async)
    (hrun : Run (ioMove cfg) (startRun cfg) hist r) (hok : ∀ e ∈ hist, kernelOk e = true)
    (t : Fin threads) :
    (r.thread t).Bounded cfg.toAioConfig ∧
      submittedBy t hist = (r.thread t).opers + collectedBy t hist := by
  have hstart : ((startRun cfg : IoRun threads).thread t).opers = 0 := by
    simp only [startRun, startThread, if_pos hmode]
    rfl
  have hbound := hrun.invariant (fun r => ∀ t, (r.thread t).Bounded cfg.toAioConfig)
    (fun e => kernelOk e = true) (bounded_startRun hmode)
    (fun r i r' hB hok h t => (opers_ioMove hB hok h t).1) hok
  have hbalance := hrun.balance (fun r => (r.thread t).opers) (ofThread t aioSubmits)
    (ofThread t aioCollects) (fun r => ∀ t, (r.thread t).Bounded cfg.toAioConfig)
    (fun e => kernelOk e = true) (bounded_startRun hmode)
    (fun r i r' hB hok h => ⟨fun t => (opers_ioMove hB hok h t).1, (opers_ioMove hB hok h t).2⟩) hok
  rw [hstart, zero_add] at hbalance
  exact ⟨hbound t, hbalance⟩

/-- **What a step counts** is what it collects, and the fsync of a write. -/
theorem total_aioCounts (s : AioThread) (m : AioMove) :
    total (aioCounts s m) = ((aioCollects s m).map operTally).sum
      + if (∃ passed, m = .finish passed) ∧ s.phase = .synced then opTally .fsync else 0 := by
  cases m with
  | getevents nr =>
    have htotal : ∀ events : List (AioOper × ℤ),
        total (events.flatMap fun event => aioEvent event.1)
          = ((events.map Prod.fst).map operTally).sum := by
      intro events
      induction events with
      | nil => rfl
      | cons event events ih =>
        rw [List.flatMap_cons, total_append, ih]
        rfl
    simp [aioCounts, aioCollects, htotal]
  | finish passed =>
    by_cases hphase : s.phase = .synced <;> simp [aioCounts, aioCollects, hphase]
  | _ => simp [aioCounts, aioCollects]

/-- A step collects for the thread that makes it and for no other. -/
theorem sum_ofThread_worker {m : AioMove} {s : AioThread} (hs : r.thread t = .aio s) :
    ∑ t', ((ofThread t' aioCollects (r, .worker t (.aio m))).map operTally).sum
      = ((aioCollects s m).map operTally).sum := by
  rw [Finset.sum_eq_single t]
  · simp [ofThread, hs]
  · intro t' _ hne
    unfold ofThread
    split
    next heq _ =>
      obtain ⟨rfl, -⟩ := RunMove.worker.inj heq
      rw [if_neg (Ne.symm hne)]
      rfl
    next => rfl
  · exact fun hmem => absurd (Finset.mem_univ t) hmem

/-- **The counters are what the threads have collected**, each operation once, and the fsyncs of
`--file-fsync-all`. -/
theorem tally_of_run (hmode : cfg.ioMode = .async)
    (hrun : Run (ioMove cfg) (startRun cfg) hist r) (hok : ∀ e ∈ hist, kernelOk e = true) :
    tally r.stats = stored (∑ t, ((collectedBy t hist).map operTally).sum
      + hist.countP countsFsync • opTally .fsync) := by
  refine (hrun.induction (fun hist r => (∀ e ∈ hist, kernelOk e = true) →
    (∀ t, (r.thread t).Bounded cfg.toAioConfig) ∧
    tally r.stats = stored (∑ t, ((collectedBy t hist).map operTally).sum
      + hist.countP countsFsync • opTally .fsync)) (fun _ => ?_) ?_ hok).2
  · refine ⟨bounded_startRun hmode, ?_⟩
    simp [collectedBy, startRun]
    rfl
  intro hist r i r' hind hmove hall
  rw [List.forall_mem_append, List.forall_mem_singleton] at hall
  obtain ⟨hB, htally⟩ := hind hall.1
  refine ⟨fun t => (opers_ioMove hB hall.2 hmove t).1, ?_⟩
  have hcollected : ∑ t, ((collectedBy t (hist ++ [(r, i)])).map operTally).sum
      = ∑ t, ((collectedBy t hist).map operTally).sum
        + ∑ t, ((ofThread t aioCollects (r, i)).map operTally).sum := by
    rw [← Finset.sum_add_distrib]
    refine Finset.sum_congr rfl fun t _ => ?_
    rw [collectedBy, List.map_append, List.sum_append, Multiset.map_add, Multiset.sum_add]
    simp [collectedBy]
  rw [hcollected, countP_concat]
  rcases ioMove_cases hB hmove with
    ⟨rfl, -, hstats⟩ | ⟨t, m, s, s', rfl, hs, -, -, hstats⟩
  · rw [hstats, htally]
    simp [ofThread, countsFsync]
  · rw [hstats, tally_foldl _ htally, sum_ofThread_worker hs, total_aioCounts]
    congr 1
    rw [add_smul]
    have hfsync : (countsFsync (r, RunMove.worker t (.aio m))).toNat • opTally .fsync
        = if (∃ passed, m = .finish passed) ∧ s.phase = .synced then opTally .fsync else 0 := by
      cases m with
      | finish passed => by_cases hphase : s.phase = .synced <;> simp [countsFsync, hs, hphase]
      | _ => simp [countsFsync]
    rw [hfsync]
    abel

/-- The number of submissions a worker has made. -/
def IoThread.submissions : IoThread → ℕ
  | .aio s => s.submissions
  | .sync _ => 0

theorem submissions_step {c : AioConfig} {s s' : AioThread} {m : AioMove}
    (h : aioMove c s m = some s') :
    Multiset.range s.submissions + (aioSubmits s m).map AioOper.id
      = Multiset.range s'.submissions := by
  cases aioStep_of_aioMove h with
  | submit hrunning =>
    simp only [aioSubmits, AioThread.submit, Multiset.map_singleton, Multiset.range_succ]
    rw [add_comm, Multiset.singleton_add]
  | _ => simp [aioSubmits, AioThread.fileWait]

/-- **The operations a thread has submitted are numbered**, so no two of them are one. -/
theorem submittedBy_ids (hmode : cfg.ioMode = .async)
    (hrun : Run (ioMove cfg) (startRun cfg) hist r) (hok : ∀ e ∈ hist, kernelOk e = true)
    (t : Fin threads) :
    (submittedBy t hist).map AioOper.id = Multiset.range (r.thread t).submissions := by
  refine (hrun.induction (fun hist r => (∀ e ∈ hist, kernelOk e = true) →
    (∀ t, (r.thread t).Bounded cfg.toAioConfig) ∧
    (submittedBy t hist).map AioOper.id = Multiset.range (r.thread t).submissions)
    (fun _ => ⟨bounded_startRun hmode, ?_⟩) ?_ hok).2
  · simp only [startRun, startThread, if_pos hmode]
    rfl
  intro hist r i r' hind hmove hall
  rw [List.forall_mem_append, List.forall_mem_singleton] at hall
  obtain ⟨hB, hids⟩ := hind hall.1
  refine ⟨fun t => (opers_ioMove hB hall.2 hmove t).1, ?_⟩
  have hsubmitted : submittedBy t (hist ++ [(r, i)])
      = submittedBy t hist + ofThread t aioSubmits (r, i) := by
    simp [submittedBy]
  rw [hsubmitted, Multiset.map_add, hids]
  rcases ioMove_cases hB hmove with
    ⟨rfl, hthread, -⟩ | ⟨t', m, s, s', rfl, hs, haio, hthread, -⟩
  · rw [hthread]
    simp [ofThread]
  rw [hthread]
  by_cases ht : t' = t
  · subst ht
    rw [Function.update_self, hs]
    simp only [ofThread, hs, if_true]
    exact submissions_step haio
  · obtain ⟨u, hu, -⟩ := (hB t).exists_aio
    rw [Function.update_of_ne (Ne.symm ht)]
    simp [ofThread, hu, ht]

/-- **The backlog is respected and no operation is lost.**  In asynchronous mode, whatever the order
of requests and completions, as long as the kernel does not fail: a thread has at most a backlog of
operations outstanding, and fewer when `file_submit_or_wait` returns; `file_thread_done` asks for
all that is outstanding, which the array of events can hold; when it returns nothing is, and what
the thread has submitted is what was counted, each operation once.  The counters are what was
counted. -/
theorem asyncBacklog_respected (hmode : cfg.ioMode = .async)
    (hrun : Run (ioMove cfg) (startRun cfg) hist r) (hok : ∀ e ∈ hist, kernelOk e = true) :
    (∀ t, ∃ s, r.thread t = .aio s ∧ s.outstanding ≤ cfg.backlog ∧
      (∀ oper, s.phase = .submitted oper → s.outstanding < cfg.backlog) ∧
      (∀ nreq, s.phase = .draining nreq → nreq = s.outstanding ∧ nreq ≤ cfg.backlog) ∧
      (s.phase = .ended → s.outstanding = 0 ∧ ((submittedBy t hist).map AioOper.id).Nodup ∧
        collectedBy t hist = submittedBy t hist)) ∧
      tally r.stats = stored (∑ t, ((collectedBy t hist).map operTally).sum
        + hist.countP countsFsync • opTally .fsync) := by
  refine ⟨fun t => ?_, tally_of_run hmode hrun hok⟩
  obtain ⟨hbound, hbalance⟩ := opers_of_run hmode hrun hok t
  obtain ⟨s, hs, hB⟩ := hbound.exists_aio
  refine ⟨s, hs, hB.le, fun oper hphase => hB.room (.inl (by rw [hphase]; rfl)),
    fun nreq => hB.draining_le, fun hend => ?_⟩
  have hnone := hB.ended hend
  refine ⟨hnone, ?_, ?_⟩
  · rw [submittedBy_ids hmode hrun hok t]
    exact Multiset.nodup_range _
  · have hopers : (r.thread t).opers = 0 := by
      rw [hs]
      exact Multiset.card_eq_zero.mp (card_opers.trans hnone)
    rw [hbalance, hopers, zero_add]

/-- Up to two operations at a time. -/
def twoAtATime : IoSettings := ⟨⟨2, false, false, Nat.two_pos⟩, .async⟩

/-- A read and a write; the write completes first, while the thread waits, and the read when it is
on its way out. -/
def readThenWrite : List (RunMove 1) :=
  [.worker soleParty (.aio (.submit .read 16)), .worker soleParty (.aio (.finish true)),
    .worker soleParty (.aio (.submit .write 32)), .worker soleParty (.aio (.complete 1 32)),
    .worker soleParty (.aio (.getevents 1)), .worker soleParty (.aio (.finish true)),
    .worker soleParty (.aio .leave), .worker soleParty (.aio (.complete 0 16)),
    .worker soleParty (.aio (.getevents 1))]

theorem asyncBacklog_readThenWrite :
    ∃ hist r, Run (ioMove twoAtATime) (startRun twoAtATime) hist r ∧
      hist.map Prod.snd = readThenWrite ∧ tally r.stats = (1, 1, 0, 16, 32) ∧
      collectedBy soleParty hist = submittedBy soleParty hist := by
  have h : Run.play (ioMove twoAtATime) (startRun twoAtATime) readThenWrite = some (_, _) := rfl
  have hrun := Run.of_play h
  obtain ⟨s, hs, -, -, -, hend⟩ := (asyncBacklog_respected rfl hrun (by decide)).1 soleParty
  refine ⟨_, _, hrun, rfl, by decide, (hend ?_).2.2⟩
  obtain rfl := IoThread.aio.inj hs
  rfl

end Threads

end Sysbench.Fileio
