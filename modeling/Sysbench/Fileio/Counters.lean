import Mathlib.Algebra.Order.Monoid.Prod
import Sysbench.Fileio.AsyncIo
import Sysbench.Fileio.FileStats

/-!
# Fileio/Counters — which operations are counted, and by whom

In synchronous and mmap mode `file_execute_request` counts each operation it has made; in
asynchronous mode it leaves reads and writes to `file_wait`, which counts them when they have
completed.  It leaves fsync requests to `file_wait` too, but those are made on the spot in every
mode, and nobody counts them.  The fsyncs of `--file-fsync-all` are counted where they are made.

A thread **keeps** the operations it has made and not yet counted; none are left when it has ended.
So the counters tell what was done exactly when no fsync request was executed in asynchronous mode,
and the counts fit the counters (`counters_exact_iff`).
-/

namespace Sysbench.Fileio

/-- The settings that decide who counts. -/
structure IoSettings extends AioConfig where
  ioMode : IoMode

/-- What is done to a file, and counted. -/
inductive IoOp
  | read (size : ℤ)
  | write (size : ℤ)
  | fsync
  deriving DecidableEq

/-- The update of the counters for an operation. -/
def IoOp.event : IoOp → StatEvent
  | .read size => .read size
  | .write size => .write size
  | .fsync => .fsync

/-! ## Synchronous and mmap mode -/

/-- Where a worker is: between two requests; with a write made whose fsync comes next; with the
counters to be updated; out of its loop after an error; or done. -/
inductive SyncPhase
  | idle
  | syncing (size : ℤ)
  | counting (op : IoOp) (rest : List IoOp)
  | failed
  | ended
  deriving DecidableEq

/-- One step: the operation of a request is made, the fsync of a write is, a counter is updated
under `exec_mutex`; something fails; or the worker ends. -/
inductive SyncMove
  | execute (op : FileOp) (size : ℤ)
  | fsync
  | count
  | fail
  | leave
  deriving DecidableEq

/-- `file_execute_request`.  A read may fail after it was made, by its validation. -/
def syncMove (fsyncAll : Bool) : SyncPhase → SyncMove → Option SyncPhase
  | .idle, .execute .read size => some (.counting (.read size) [])
  | .idle, .execute .write size =>
    some (if fsyncAll then .syncing size else .counting (.write size) [])
  | .idle, .execute .fsync _ => some (if fsyncAll then .idle else .counting .fsync [])
  | .syncing size, .fsync => some (.counting .fsync [.write size])
  | .counting _ [], .count => some .idle
  | .counting _ (op :: rest), .count => some (.counting op rest)
  | .idle, .fail | .syncing _, .fail | .counting (.read _) [], .fail => some .failed
  | .idle, .leave | .failed, .leave => some .ended
  | _, _ => none

/-- What a step does to the files. -/
def syncPerforms (fsyncAll : Bool) : SyncPhase → SyncMove → List IoOp
  | .idle, .execute .read size => [.read size]
  | .idle, .execute .write size => [.write size]
  | .idle, .execute .fsync _ => if fsyncAll then [] else [.fsync]
  | .syncing _, .fsync => [.fsync]
  | _, _ => []

/-- What a step counts. -/
def syncCounts : SyncPhase → SyncMove → List IoOp
  | .counting op _, .count => [op]
  | _, _ => []

/-! ## Asynchronous mode -/

/-- What `file_wait` counts for a completion that is good. -/
def aioEvent (oper : AioOper) : List IoOp :=
  match oper.type with
  | .read => [.read oper.len]
  | .write => [.write oper.len]
  | .fsync => [.fsync]
  | .null => []

/-- What a step does to the files: the kernel makes a read or a write, the worker an fsync. -/
def aioPerforms (s : AioThread) : AioMove → List IoOp
  | .complete k res =>
    match s.pending[k]? with
    | some oper => if eventOk (oper, res) then aioEvent oper else []
    | none => []
  | .fsync true => [.fsync]
  | _ => []

/-- What a step counts: `file_wait` the good completions before the first bad one, and the end of a
write its fsync. -/
def aioCounts (s : AioThread) : AioMove → List IoOp
  | .getevents nr => ((s.completed.take nr).takeWhile eventOk).flatMap fun event => aioEvent event.1
  | .finish _ => if s.phase = .synced then [.fsync] else []
  | _ => []

/-! ## All modes -/

/-- A worker in one of the modes. -/
inductive IoThread
  | sync (phase : SyncPhase)
  | aio (s : AioThread)

/-- A step in one of the modes. -/
inductive IoMove
  | sync (m : SyncMove)
  | aio (m : AioMove)

variable (cfg : IoSettings)

/-- A worker before its first request. -/
def startThread : IoThread := if cfg.ioMode = .async then .aio startAio else .sync .idle

/-- One step of a worker. -/
def threadMove : IoThread → IoMove → Option IoThread
  | .sync phase, .sync m => (syncMove cfg.fsyncAll phase m).map .sync
  | .aio s, .aio m => (aioMove cfg.toAioConfig s m).map .aio
  | _, _ => none

/-- What it does to the files. -/
def performs : IoThread → IoMove → List IoOp
  | .sync phase, .sync m => syncPerforms cfg.fsyncAll phase m
  | .aio s, .aio m => aioPerforms s m
  | _, _ => []

/-- What it counts. -/
def counts : IoThread → IoMove → List IoOp
  | .sync phase, .sync m => syncCounts phase m
  | .aio s, .aio m => aioCounts s m
  | _, _ => []

/-- The worker has executed `file_thread_done`. -/
def IoThread.Ended : IoThread → Prop
  | .sync phase => phase = .ended
  | .aio s => s.phase = .ended

/-- The workers, the counters, and all that was done to the files. -/
structure IoRun (threads : ℕ) where
  thread : Fin threads → IoThread
  stats : FileStats
  ops : List IoOp

/-- A step of a worker, or an intermediate report. -/
inductive RunMove (threads : ℕ)
  | worker (t : Fin threads) (m : IoMove)
  | report

/-- An update of the counters. -/
def updateStats (s : FileStats) (event : StatEvent) : FileStats := (fileStats s event).getD s

variable {threads : ℕ}

/-- One step of a run without checkpoint reports. -/
def ioMove (s : IoRun threads) : RunMove threads → Option (IoRun threads)
  | .worker t m =>
    (threadMove cfg (s.thread t) m).map fun thread =>
      { thread := Function.update s.thread t thread
        stats := (counts (s.thread t) m).foldl (fun stats op => updateStats stats op.event) s.stats
        ops := s.ops ++ performs cfg (s.thread t) m }
  | .report => some { s with stats := updateStats s.stats .intermediate }

/-- The start of a run. -/
def startRun : IoRun threads := ⟨fun _ => startThread cfg, clearStats, []⟩

/-! ## What is claimed of the counters -/

/-- What an operation counts for. -/
def opTally (op : IoOp) : Tally := counted (clearStats, op.event)

/-- The numbers of reads, writes and fsyncs, and the bytes read and written. -/
def total (ops : List IoOp) : Tally := (ops.map opTally).sum

/-- Nothing fails in the step: no call, no validation and no completion; and what is transferred is
not negative. -/
def succeeds : IoThread → IoMove → Bool
  | .sync _, .sync (.execute _ size) => 0 ≤ size
  | .sync _, .sync .fail => false
  | .aio s, .aio (.complete k res) =>
    s.pending[k]?.all fun oper => eventOk (oper, res) && 0 ≤ oper.len
  | .aio _, .aio .submitFails | .aio _, .aio .geteventsFails => false
  | .aio _, .aio (.fsync ok) => ok
  | .aio _, .aio (.finish passed) => passed
  | _, _ => true

/-- A step of a run that does not fail. -/
def errorFree (e : IoRun threads × RunMove threads) : Bool :=
  match e.2 with
  | .worker t m => succeeds (e.1.thread t) m
  | .report => true

/-- An fsync request is executed. -/
def executesFsync : IoThread → IoMove → Bool
  | .sync .idle, .sync (.execute .fsync _) => true
  | .aio s, .aio (.fsync _) => s.phase = .idle
  | _, _ => false

/-- The step executes an fsync request. -/
def isFsyncRequest (e : IoRun threads × RunMove threads) : Bool :=
  match e.2 with
  | .worker t m => executesFsync (e.1.thread t) m
  | .report => false

/-- The operation counters are `int`, the byte counters `unsigned long long`. -/
structure FitsCounters (q : Tally) : Prop where
  reads : q.1 < 2 ^ 31
  writes : q.2.1 < 2 ^ 31
  fsyncs : q.2.2.1 < 2 ^ 31
  bytesRead : q.2.2.2.1 < 2 ^ 64
  bytesWritten : q.2.2.2.2 < 2 ^ 64

/-! ## What a worker keeps -/

section Totals

@[simp] theorem total_nil : total [] = 0 := rfl

@[simp] theorem total_cons (op : IoOp) (ops : List IoOp) :
    total (op :: ops) = opTally op + total ops := by
  simp [total]

@[simp] theorem total_append (ops ops' : List IoOp) :
    total (ops ++ ops') = total ops + total ops' := by
  simp [total]

end Totals

/-- What a worker of synchronous or mmap mode has done and not counted. -/
def SyncPhase.kept : SyncPhase → Tally
  | .syncing size => opTally (.write size)
  | .counting op rest => total (op :: rest)
  | .idle | .failed | .ended => 0

/-- What the kernel has completed for a worker of asynchronous mode, and the fsync of a write. -/
def AioThread.kept (s : AioThread) : Tally :=
  total (s.completed.flatMap fun event => aioEvent event.1) +
    if s.phase = .synced then opTally .fsync else 0

/-- What a worker keeps. -/
def IoThread.kept : IoThread → Tally
  | .sync phase => phase.kept
  | .aio s => s.kept

/-- What a step leaves to nobody: an fsync request executed in asynchronous mode. -/
def skips : IoThread → IoMove → Bool
  | .aio s, .aio m => executesFsync (.aio s) (.aio m)
  | _, _ => false

/-- **One step of synchronous or mmap mode.** -/
theorem syncMove_kept {fsyncAll : Bool} {phase phase' : SyncPhase} {m : SyncMove}
    (h : syncMove fsyncAll phase m = some phase') (hok : succeeds (.sync phase) (.sync m) = true) :
    phase.kept + total (syncPerforms fsyncAll phase m)
      = phase'.kept + total (syncCounts phase m) := by
  cases phase with
  | idle =>
    cases m with
    | execute op size =>
      cases op with
      | read => obtain rfl := Option.some.inj h; simp [SyncPhase.kept, syncPerforms, syncCounts]
      | write =>
        obtain rfl := Option.some.inj h
        cases fsyncAll <;> simp [SyncPhase.kept, syncPerforms, syncCounts]
      | fsync =>
        obtain rfl := Option.some.inj h
        cases fsyncAll <;> simp [SyncPhase.kept, syncPerforms, syncCounts]
      | null => cases h
    | fail => cases hok
    | leave => obtain rfl := Option.some.inj h; rfl
    | fsync | count => cases h
  | syncing size =>
    cases m with
    | fsync =>
      obtain rfl := Option.some.inj h
      simp [SyncPhase.kept, syncPerforms, syncCounts, add_comm]
    | fail => cases hok
    | execute | count | leave => cases h
  | counting op rest =>
    cases m with
    | count =>
      cases rest with
      | nil =>
        obtain rfl := Option.some.inj h
        simp [SyncPhase.kept, syncPerforms, syncCounts]
      | cons next rest =>
        obtain rfl := Option.some.inj h
        simp [SyncPhase.kept, syncPerforms, syncCounts, add_comm]
    | fail => cases hok
    | execute | fsync | leave => simp [syncMove] at h
  | failed =>
    cases m with
    | leave => obtain rfl := Option.some.inj h; rfl
    | execute | fsync | count | fail => cases h
  | ended => cases m <;> cases h

/-! ## A worker of asynchronous mode -/

/-- Nothing has failed: the completions are good, the count of queued requests is right, and a
worker that has ended has nothing outstanding. -/
structure Settled (s : AioThread) : Prop where
  good : ∀ event ∈ s.completed, eventOk event = true
  consistent : Consistent s
  draining : ∀ nreq, s.phase = .draining nreq → nreq = s.outstanding
  ended : s.phase = .ended → s.outstanding = 0

variable {cfg} {s s' : AioThread} {m : AioMove}

theorem settled_startAio : Settled startAio :=
  ⟨nofun, consistent_startAio, nofun, fun _ => rfl⟩

/-- Good completions make a good batch. -/
theorem Settled.not_failedBatch (hS : Settled s) (m : AioMove) : ¬ FailedBatch (s, m) := by
  cases m with
  | getevents nr =>
    rintro ⟨event, hmem, hbad⟩
    exact absurd (hS.good event (List.mem_of_mem_take hmem)) (by simp [hbad])
  | _ => exact id

theorem Settled.takeWhile_eq (hS : Settled s) (nr : ℕ) :
    (s.completed.take nr).takeWhile eventOk = s.completed.take nr :=
  List.takeWhile_eq_self_iff.mpr fun event hmem => hS.good event (List.mem_of_mem_take hmem)

/-- The last wait takes all that is outstanding. -/
theorem Settled.fileWait_ended {nr nreq : ℕ} (hS : Settled s) (hnreq : s.phase.nreq = some nreq)
    (hmin : nreq ≤ nr) (hnr : nr ≤ s.completed.length) (hend : (s.fileWait nr).phase = .ended) :
    (s.fileWait nr).outstanding = 0 := by
  cases hphase : s.phase with
  | draining n =>
    rw [hphase] at hnreq
    obtain rfl := Option.some.inj hnreq
    have hall := hS.draining n hphase
    simp only [AioThread.outstanding, AioThread.fileWait, List.length_drop] at hall ⊢
    omega
  | waiting oper =>
    simp only [AioThread.fileWait, hphase, AioPhase.afterWait] at hend
    split_ifs at hend
  | _ => rw [hphase] at hnreq; cases hnreq

/-- A step that changes neither what is outstanding nor the completions. -/
theorem Settled.of_same (hS : Settled s) (hC : Consistent s')
    (hcompleted : s'.completed = s.completed) (hout : s'.outstanding = s.outstanding)
    (hdrain : ∀ nreq, s'.phase = .draining nreq → nreq = s.outstanding)
    (hend : s'.phase = .ended → s.outstanding = 0) : Settled s' :=
  ⟨hcompleted ▸ hS.good, hC, fun nreq h => hout ▸ hdrain nreq h, fun h => hout ▸ hend h⟩

/-- A step that does not touch the completions, nor an fsync to be counted. -/
theorem kept_of_same (hcompleted : s'.completed = s.completed) (hphase : s.phase ≠ .synced)
    (hphase' : s'.phase ≠ .synced) : s'.kept = s.kept := by
  rw [AioThread.kept, AioThread.kept, hcompleted, if_neg hphase, if_neg hphase']

theorem ne_synced_of_submits {cfg : AioConfig} {phase : AioPhase} {type : FileOp} {len : ℤ}
    (h : phase.submits cfg type len) : phase ≠ .synced := by
  rintro rfl
  cases h

theorem ne_synced_of_nreq {phase : AioPhase} {nreq : ℕ} (h : phase.nreq = some nreq) (ok : Bool) :
    phase ≠ .synced ∧ phase.afterWait ok ≠ .synced := by
  cases phase with
  | waiting oper => cases ok <;> simp [AioPhase.afterWait]
  | draining => simp [AioPhase.afterWait]
  | _ => cases h

theorem settled_submit {cfg : AioConfig} {type : FileOp} {len : ℤ} (hS : Settled s)
    (hC : Consistent (s.submit cfg type len)) (hphase : s.phase ≠ .synced) :
    Settled (s.submit cfg type len) ∧ (s.submit cfg type len).kept = s.kept := by
  have hnext : (s.submit cfg type len).phase = .submitted ⟨s.submissions, type, len⟩ ∨
      (s.submit cfg type len).phase = .waiting ⟨s.submissions, type, len⟩ := by
    simp only [AioThread.submit]
    split <;> simp
  refine ⟨⟨hS.good, hC, fun nreq h => ?_, fun h => ?_⟩, kept_of_same rfl hphase ?_⟩
  · rcases hnext with hnext | hnext <;> rw [hnext] at h <;> cases h
  · rcases hnext with hnext | hnext <;> rw [hnext] at h <;> cases h
  · rcases hnext with hnext | hnext <;> simp [hnext]

/-- A completion that does not fail is good. -/
theorem good_of_succeeds {k : ℕ} {res : ℤ} {oper : AioOper} (hoper : s.pending[k]? = some oper)
    (hok : succeeds (.aio s) (.aio (.complete k res)) = true) :
    eventOk (oper, res) = true ∧ 0 ≤ oper.len := by
  simpa [succeeds, hoper] using hok

/-- **The kernel completes an operation**: it is made, and to be counted. -/
theorem settled_complete {k : ℕ} {res : ℤ} {oper : AioOper} (hS : Settled s)
    (hoper : s.pending[k]? = some oper) (hgood : eventOk (oper, res) = true)
    (hs' : s' = { s with
      pending := s.pending.eraseIdx k
      completed := s.completed ++ [(oper, res)] })
    (hC : Consistent s') :
    Settled s' ∧ s'.kept = s.kept + total (aioPerforms s (.complete k res)) := by
  subst hs'
  refine ⟨⟨fun event hmem => ?_, hC, fun nreq h => ?_, fun h => ?_⟩, ?_⟩
  · rcases List.mem_append.mp hmem with hmem | hmem
    · exact hS.good event hmem
    · rw [List.mem_singleton.mp hmem]
      exact hgood
  · rw [outstanding_complete hoper]
    exact hS.draining nreq h
  · rw [outstanding_complete hoper]
    exact hS.ended h
  · simp only [AioThread.kept, aioPerforms, hoper, hgood, if_true, List.flatMap_append,
      List.flatMap_singleton, total_append]
    abel

/-- **A batch is obtained**: it is counted. -/
theorem settled_fileWait {nr nreq : ℕ} (hS : Settled s) (hC : Consistent (s.fileWait nr))
    (hnreq : s.phase.nreq = some nreq) (hmin : nreq ≤ nr) (hnr : nr ≤ s.completed.length) :
    Settled (s.fileWait nr) ∧
      s.kept = (s.fileWait nr).kept + total (aioCounts s (.getevents nr)) := by
  obtain ⟨hbefore, hafter⟩ := ne_synced_of_nreq hnreq ((s.completed.take nr).all eventOk)
  have hsome : s.phase.nreq.isSome := by rw [hnreq]; rfl
  refine ⟨⟨fun event hmem => ?_, hC, fun n h => ?_, hS.fileWait_ended hnreq hmin hnr⟩, ?_⟩
  · exact hS.good event (List.mem_of_mem_drop hmem)
  · exact absurd h (afterWait_ne_draining hsome _)
  · have hsplit : s.completed.flatMap (fun event => aioEvent event.1)
        = (s.completed.take nr).flatMap (fun event => aioEvent event.1)
          ++ (s.completed.drop nr).flatMap (fun event => aioEvent event.1) := by
      rw [← List.flatMap_append, List.take_append_drop]
    have hafter : (s.fileWait nr).phase ≠ .synced := hafter
    rw [AioThread.kept, AioThread.kept, if_neg hbefore, if_neg hafter, aioCounts, hS.takeWhile_eq,
      hsplit, total_append, add_zero, add_zero, add_comm]
    rfl

/-- **One step of asynchronous mode.** -/
theorem Settled.step {cfg : AioConfig} (hS : Settled s) (hok : succeeds (.aio s) (.aio m) = true)
    (h : aioMove cfg s m = some s') :
    Settled s' ∧ s.kept + total (aioPerforms s m) = s'.kept + total (aioCounts s m) +
      if skips (.aio s) (.aio m) then opTally .fsync else 0 := by
  have hstep := aioStep_of_aioMove h
  have hC := (consistent_step hS.consistent hstep).mpr (hS.not_failedBatch m)
  cases hstep with
  | fill hidle =>
    refine ⟨hS.of_same hC rfl rfl nofun nofun, ?_⟩
    simp [AioThread.kept, aioPerforms, aioCounts, skips, executesFsync, hidle]
  | submit hrunning =>
    obtain ⟨hsubmits, -⟩ := Option.ite_none_right_eq_some.mp h
    obtain ⟨hS', hkept⟩ := settled_submit hS hC (ne_synced_of_submits hsubmits)
    refine ⟨hS', ?_⟩
    rw [hkept]
    simp [aioPerforms, aioCounts, skips, executesFsync]
  | submitFails => cases hok
  | complete hoper =>
    obtain ⟨hS', hkept⟩ := settled_complete hS hoper (good_of_succeeds hoper hok).1 rfl hC
    refine ⟨hS', ?_⟩
    rw [hkept]
    simp [aioCounts, skips, executesFsync]
  | getevents hnreq hmin hpos hnr =>
    obtain ⟨hS', hkept⟩ := settled_fileWait hS hC hnreq hmin hnr
    refine ⟨hS', ?_⟩
    rw [hkept]
    simp [aioPerforms, skips, executesFsync]
  | geteventsFails hnreq => cases hok
  | @fsync ok phase hphase =>
    obtain rfl : ok = true := hok
    cases hs : s.phase with
    | idle =>
      obtain ⟨-, hphase⟩ := Option.ite_none_left_eq_some.mp (hs ▸ hphase)
      obtain rfl := Option.some.inj hphase
      refine ⟨hS.of_same hC rfl rfl nofun nofun, ?_⟩
      simp [AioThread.kept, aioPerforms, aioCounts, skips, executesFsync, hs]
    | submitted oper =>
      obtain ⟨-, hphase⟩ := Option.ite_none_right_eq_some.mp (hs ▸ hphase)
      obtain rfl := Option.some.inj hphase
      refine ⟨hS.of_same hC rfl rfl nofun nofun, ?_⟩
      simp [AioThread.kept, aioPerforms, aioCounts, skips, executesFsync, hs]
    | _ => rw [hs] at hphase; cases hphase
  | finish hrunning hnext =>
    rcases hnext with rfl | rfl
    all_goals
      refine ⟨hS.of_same hC rfl rfl nofun nofun, ?_⟩
      simp only [AioThread.kept, aioPerforms, aioCounts, skips, executesFsync]
      split <;> simp
  | leave hphase =>
    have hsynced : s.phase ≠ .synced := by rcases hphase with h | h <;> rw [h] <;> nofun
    have hreq := hS.consistent.nrequests
    by_cases hpos : 0 < s.nrequests
    · rw [if_pos hpos] at hC ⊢
      refine ⟨hS.of_same hC rfl rfl (fun nreq h => ?_) nofun, ?_⟩
      · rw [← AioPhase.draining.inj h, hreq]
      · simp [AioThread.kept, aioPerforms, aioCounts, skips, executesFsync, hsynced]
    · rw [if_neg hpos] at hC ⊢
      refine ⟨hS.of_same hC rfl rfl nofun fun _ => by omega, ?_⟩
      simp [AioThread.kept, aioPerforms, aioCounts, skips, executesFsync, hsynced]

/-! ## The counters -/

/-- What the counters hold of a total. -/
def stored (q : Tally) : Tally :=
  (toI32 q.1, toI32 q.2.1, toI32 q.2.2.1, toU64 q.2.2.2.1, toU64 q.2.2.2.2)

theorem toI32_add_one (x : ℤ) : toI32 (toI32 x + 1) = toI32 (x + 1) := by
  unfold toI32
  omega

theorem toU64_add_left (x y : ℤ) : toU64 (toU64 x + y) = toU64 (x + y) := by
  unfold toU64
  omega

/-- An intermediate report changes none of the counters. -/
theorem tally_intermediate (stats : FileStats) :
    tally (updateStats stats .intermediate) = tally stats := rfl

/-- **Each operation is counted once.** -/
theorem tally_updateStats {stats : FileStats} {q : Tally} (op : IoOp)
    (h : tally stats = stored q) :
    tally (updateStats stats op.event) = stored (q + opTally op) := by
  simp only [tally, stored, Prod.mk.injEq] at h
  obtain ⟨hreads, hwrites, hother, hread, hwritten⟩ := h
  cases op with
  | _ =>
    simp [updateStats, fileStats, tally, stored, opTally, IoOp.event, counted, hreads, hwrites,
      hother, hread, hwritten, toI32_add_one, toU64_add_left]

theorem tally_foldl {stats : FileStats} {q : Tally} (ops : List IoOp)
    (h : tally stats = stored q) :
    tally (ops.foldl (fun stats op => updateStats stats op.event) stats)
      = stored (q + total ops) := by
  induction ops generalizing stats q with
  | nil => simpa using h
  | cons op ops ih =>
    rw [List.foldl_cons, ih (tally_updateStats op h), total_cons, add_assoc]

/-! ## A run -/

/-- What the steps of a run have counted. -/
def countedIn (hist : List (IoRun threads × RunMove threads)) : List IoOp :=
  hist.flatMap fun e =>
    match e.2 with
    | .worker t m => counts (e.1.thread t) m
    | .report => []

/-- The step executes an fsync request in asynchronous mode. -/
def stepSkips (e : IoRun threads × RunMove threads) : Bool :=
  match e.2 with
  | .worker t m => skips (e.1.thread t) m
  | .report => false

/-- A worker of the mode that is set, where nothing has failed. -/
def Sound (cfg : IoSettings) : IoThread → Prop
  | .sync _ => cfg.ioMode ≠ .async
  | .aio s => cfg.ioMode = .async ∧ Settled s

/-- **One step of a worker, in any mode.** -/
theorem Sound.step {w w' : IoThread} {m : IoMove} (hw : Sound cfg w) (hok : succeeds w m = true)
    (h : threadMove cfg w m = some w') :
    Sound cfg w' ∧ w.kept + total (performs cfg w m)
      = w'.kept + total (counts w m) + if skips w m then opTally .fsync else 0 := by
  cases w with
  | sync phase =>
    cases m with
    | sync m =>
      obtain ⟨phase', hphase, rfl⟩ := Option.map_eq_some_iff.mp h
      refine ⟨hw, ?_⟩
      have hkept := syncMove_kept hphase hok
      simpa [IoThread.kept, performs, counts, skips] using hkept
    | aio m => cases h
  | aio s =>
    cases m with
    | sync m => cases h
    | aio m =>
      obtain ⟨s', hs, rfl⟩ := Option.map_eq_some_iff.mp h
      obtain ⟨hS, hkept⟩ := hw.2.step hok hs
      exact ⟨⟨hw.1, hS⟩, hkept⟩

/-- An fsync request is left uncounted exactly in asynchronous mode. -/
theorem skips_iff {w w' : IoThread} {m : IoMove} (hw : Sound cfg w)
    (h : threadMove cfg w m = some w') :
    skips w m = true ↔ cfg.ioMode = .async ∧ cfg.fsyncAll = false ∧ executesFsync w m = true := by
  cases w with
  | sync phase =>
    have hmode : cfg.ioMode ≠ .async := hw
    cases m <;> simp [skips, hmode]
  | aio s =>
    cases m with
    | sync m => cases h
    | aio m =>
      have hmode : cfg.ioMode = .async := hw.1
      refine ⟨fun hskip => ⟨hmode, ?_, hskip⟩, fun h => h.2.2⟩
      obtain ⟨s', hs, -⟩ := Option.map_eq_some_iff.mp h
      cases m with
      | fsync ok =>
        have hidle : s.phase = .idle := by simpa [skips, executesFsync] using hskip
        obtain ⟨phase, hphase, -⟩ := Option.map_eq_some_iff.mp hs
        rw [hidle] at hphase
        obtain ⟨hall, -⟩ := Option.ite_none_left_eq_some.mp hphase
        simpa using hall
      | _ => simp [skips, executesFsync] at hskip

/-- **The invariant of a run**: all that was done is counted, kept by a worker, or left
uncounted. -/
structure Ledger (cfg : IoSettings) (hist : List (IoRun threads × RunMove threads))
    (s : IoRun threads) : Prop where
  sound : ∀ t, Sound cfg (s.thread t)
  stats : tally s.stats = stored (total (countedIn hist))
  balance : total s.ops = total (countedIn hist) + ∑ t, (s.thread t).kept
    + hist.countP stepSkips • opTally .fsync
  uncounted : ∀ e ∈ hist, stepSkips e = true ↔
    cfg.ioMode = .async ∧ cfg.fsyncAll = false ∧ isFsyncRequest e = true
  nonneg : ∀ op ∈ s.ops, 0 ≤ opTally op

variable {hist : List (IoRun threads × RunMove threads)} {r r' : IoRun threads}

theorem ledger_start : Ledger cfg [] (startRun cfg : IoRun threads) where
  sound _ := by
    by_cases hmode : cfg.ioMode = .async
    · simp only [startRun, startThread, if_pos hmode]
      exact ⟨hmode, settled_startAio⟩
    · simp only [startRun, startThread, if_neg hmode]
      exact hmode
  stats := rfl
  balance := by
    have hkept : (startThread cfg).kept = 0 := by
      by_cases hmode : cfg.ioMode = .async <;>
        simp [startThread, hmode, IoThread.kept, SyncPhase.kept, AioThread.kept, startAio]
    simp [startRun, countedIn, hkept]
  uncounted := by simp
  nonneg := by simp [startRun]

theorem opTally_read {size : ℤ} (h : 0 ≤ size) : 0 ≤ opTally (.read size) := by
  simpa [opTally, IoOp.event, counted, Prod.le_def] using h

theorem opTally_write {size : ℤ} (h : 0 ≤ size) : 0 ≤ opTally (.write size) := by
  simpa [opTally, IoOp.event, counted, Prod.le_def] using h

theorem opTally_fsync : 0 ≤ opTally .fsync := by
  simp [opTally, IoOp.event, counted, Prod.le_def]

theorem aioEvent_nonneg {oper : AioOper} (h : 0 ≤ oper.len) :
    ∀ op ∈ aioEvent oper, 0 ≤ opTally op := by
  intro op hop
  unfold aioEvent at hop
  split at hop
  case h_1 => rw [List.mem_singleton.mp hop]; exact opTally_read h
  case h_2 => rw [List.mem_singleton.mp hop]; exact opTally_write h
  case h_3 => rw [List.mem_singleton.mp hop]; exact opTally_fsync
  case h_4 => cases hop

/-- What is done to the files without a failure transfers no negative number of bytes. -/
theorem performs_nonneg {w : IoThread} {m : IoMove} (hok : succeeds w m = true) :
    ∀ op ∈ performs cfg w m, 0 ≤ opTally op := by
  intro op hop
  cases w with
  | sync phase =>
    cases m with
    | sync m =>
      simp only [performs] at hop
      unfold syncPerforms at hop
      split at hop
      case h_1 => rw [List.mem_singleton.mp hop]; exact opTally_read (of_decide_eq_true hok)
      case h_2 => rw [List.mem_singleton.mp hop]; exact opTally_write (of_decide_eq_true hok)
      case h_3 =>
        split at hop
        · cases hop
        · rw [List.mem_singleton.mp hop]; exact opTally_fsync
      case h_4 => rw [List.mem_singleton.mp hop]; exact opTally_fsync
      case h_5 => cases hop
    | aio m => cases hop
  | aio s =>
    cases m with
    | sync m => cases hop
    | aio m =>
      simp only [performs] at hop
      unfold aioPerforms at hop
      split at hop
      case h_1 k res =>
        split at hop
        case h_1 oper hoper =>
          split at hop
          · exact aioEvent_nonneg (good_of_succeeds hoper hok).2 op hop
          · cases hop
        case h_2 => cases hop
      case h_2 => rw [List.mem_singleton.mp hop]; exact opTally_fsync
      case h_3 => cases hop

theorem Ledger.worker {t : Fin threads} {m : IoMove} {w : IoThread} (hL : Ledger cfg hist r)
    (hok : succeeds (r.thread t) m = true) (h : threadMove cfg (r.thread t) m = some w) :
    Ledger cfg (hist ++ [(r, RunMove.worker t m)])
      { thread := Function.update r.thread t w
        stats := (counts (r.thread t) m).foldl (fun stats op => updateStats stats op.event) r.stats
        ops := r.ops ++ performs cfg (r.thread t) m } := by
  obtain ⟨hsound, hkept⟩ := (hL.sound t).step hok h
  have hcounted : total (countedIn (hist ++ [(r, RunMove.worker t m)]))
      = total (countedIn hist) + total (counts (r.thread t) m) := by
    simp [countedIn]
  refine ⟨?_, ?_, ?_, ?_, ?_⟩
  · exact (forall_update_of_forall hL.sound).mpr hsound
  · rw [hcounted]
    exact tally_foldl _ hL.stats
  · have hsum : ∑ i, (Function.update r.thread t w i).kept + (r.thread t).kept
        = ∑ i, (r.thread i).kept + w.kept := by
      have hne : ∀ i, i ≠ t → (Function.update r.thread t w i).kept = (r.thread i).kept :=
        fun i hi => by rw [Function.update_of_ne hi]
      rw [sum_add_eq_of_ne (Finset.mem_univ t) hne, Function.update_self]
    have hskips : (hist ++ [(r, RunMove.worker t m)]).countP stepSkips • opTally .fsync
        = hist.countP stepSkips • opTally .fsync
          + if skips (r.thread t) m then opTally .fsync else 0 := by
      rw [countP_concat, add_smul]
      change _ + (skips (r.thread t) m).toNat • opTally .fsync = _
      cases skips (r.thread t) m <;> simp
    rw [hcounted, hskips, total_append, hL.balance, eq_sub_of_add_eq hsum,
      eq_sub_of_add_eq' hkept]
    abel
  · intro e he
    rcases List.mem_append.mp he with he | he
    · exact hL.uncounted e he
    · rw [List.mem_singleton.mp he]
      exact skips_iff (hL.sound t) h
  · intro op hop
    rcases List.mem_append.mp hop with hop | hop
    · exact hL.nonneg op hop
    · exact performs_nonneg hok op hop

theorem Ledger.step {m : RunMove threads} (hL : Ledger cfg hist r) (hok : errorFree (r, m) = true)
    (h : ioMove cfg r m = some r') : Ledger cfg (hist ++ [(r, m)]) r' := by
  cases m with
  | worker t m =>
    obtain ⟨w, hw, rfl⟩ := Option.map_eq_some_iff.mp h
    exact hL.worker hok hw
  | report =>
    obtain rfl := Option.some.inj h
    have hcounted : countedIn (hist ++ [(r, RunMove.report)]) = countedIn hist := by
      simp [countedIn]
    refine ⟨hL.sound, ?_, ?_, ?_, hL.nonneg⟩
    · rw [hcounted, tally_intermediate, hL.stats]
    · rw [hcounted, countP_concat]
      exact hL.balance
    · intro e he
      rcases List.mem_append.mp he with he | he
      · exact hL.uncounted e he
      · rw [List.mem_singleton.mp he]
        simp [stepSkips, isFsyncRequest]

theorem ledger_of_run (hrun : Run (ioMove cfg) (startRun cfg) hist r)
    (hok : ∀ e ∈ hist, errorFree e = true) : Ledger cfg hist r := by
  refine hrun.induction (fun hist r => (∀ e ∈ hist, errorFree e = true) → Ledger cfg hist r)
    (fun _ => ledger_start) ?_ hok
  intro hist r m r' hind hmove hall
  rw [List.forall_mem_append, List.forall_mem_singleton] at hall
  exact (hind hall.1).step hall.2 hmove

/-- A worker that has ended keeps nothing. -/
theorem Sound.kept_eq_zero {w : IoThread} (hw : Sound cfg w) (hend : w.Ended) : w.kept = 0 := by
  cases w with
  | sync phase =>
    obtain rfl : phase = .ended := hend
    rfl
  | aio s =>
    have hphase : s.phase = .ended := hend
    have hnone : s.completed = [] := by
      have hout := hw.2.ended hphase
      exact List.length_eq_zero_iff.mp (Nat.eq_zero_of_add_eq_zero_left hout)
    simp [IoThread.kept, AioThread.kept, hnone, hphase]

theorem total_fsyncs_nonneg (ops : List IoOp) : 0 ≤ (total ops).2.2.1 := by
  induction ops with
  | nil => rfl
  | cons op ops ih =>
    rw [total_cons]
    change 0 ≤ (opTally op).2.2.1 + (total ops).2.2.1
    have hop : 0 ≤ (opTally op).2.2.1 := by cases op <;> simp [opTally, IoOp.event, counted]
    omega

/-- **The counters hold a total exactly when it fits them and nothing is missing.** -/
theorem stored_eq_iff {q : Tally} {n : ℕ} (hfsyncs : 0 ≤ q.2.2.1)
    (hnonneg : 0 ≤ q + n • opTally .fsync) :
    stored q = q + n • opTally .fsync ↔ n = 0 ∧ FitsCounters (q + n • opTally .fsync) := by
  obtain ⟨reads, writes, fsyncs, bytesRead, bytesWritten⟩ := q
  have hskipped : n • opTally .fsync = (0, 0, (n : ℤ), 0, 0) := by
    simp [opTally, IoOp.event, counted]
  rw [hskipped] at hnonneg ⊢
  simp only [Prod.mk_add_mk, add_zero, stored, Prod.mk.injEq]
  have hnonneg : 0 ≤ reads ∧ 0 ≤ writes ∧ 0 ≤ fsyncs + n ∧ 0 ≤ bytesRead ∧ 0 ≤ bytesWritten := by
    simpa [Prod.le_def] using hnonneg
  have hfsyncs : 0 ≤ fsyncs := hfsyncs
  constructor
  · rintro ⟨h₁, h₂, h₃, h₄, h₅⟩
    unfold toI32 at h₁ h₂ h₃
    unfold toU64 at h₄ h₅
    refine ⟨by omega, ?_⟩
    constructor <;> dsimp only <;> omega
  · rintro ⟨rfl, hfits⟩
    obtain ⟨h₁, h₂, h₃, h₄, h₅⟩ := hfits
    unfold toI32 toU64
    dsimp only at *
    omega

/-- **The counters are the numbers of reads, writes and fsyncs made and of the bytes transferred if
and only if no fsync request was executed in asynchronous mode, unless each write has its own, and
the numbers fit the counters**: in every mode, for every order of steps of any workers that have
all ended, when nothing has failed. -/
theorem counters_exact_iff (hrun : Run (ioMove cfg) (startRun cfg) hist r)
    (hok : ∀ e ∈ hist, errorFree e = true) (hend : ∀ t, (r.thread t).Ended) :
    tally r.stats = total r.ops ↔
      (cfg.ioMode = .async → cfg.fsyncAll = false → ∀ e ∈ hist, isFsyncRequest e = false) ∧
        FitsCounters (total r.ops) := by
  have hL := ledger_of_run hrun hok
  have hkept : ∑ t, (r.thread t).kept = 0 :=
    Finset.sum_eq_zero fun t _ => (hL.sound t).kept_eq_zero (hend t)
  have hops := hL.balance
  rw [hkept, add_zero] at hops
  have hnonneg : 0 ≤ total r.ops := by
    refine List.sum_nonneg fun q hq => ?_
    obtain ⟨op, hop, rfl⟩ := List.mem_map.mp hq
    exact hL.nonneg op hop
  have hnone : hist.countP stepSkips = 0 ↔
      (cfg.ioMode = .async → cfg.fsyncAll = false → ∀ e ∈ hist, isFsyncRequest e = false) := by
    rw [List.countP_eq_zero]
    refine ⟨fun h hasync hall e he => ?_, fun h e he hskip => ?_⟩
    · by_contra hreq
      exact h e he ((hL.uncounted e he).mpr ⟨hasync, hall, by simpa using hreq⟩)
    · obtain ⟨hasync, hall, hreq⟩ := (hL.uncounted e he).mp hskip
      exact absurd (h hasync hall e he) (by simp [hreq])
  rw [hops] at hnonneg ⊢
  rw [hL.stats, stored_eq_iff (total_fsyncs_nonneg _) hnonneg, hnone]

/-- One write at a time, in any mode. -/
def writesOnly (ioMode : IoMode) : IoSettings := ⟨oneByOne, ioMode⟩

/-- A write and an fsync request, made and counted on the spot. -/
def syncWrite : List (RunMove 1) :=
  [.worker soleParty (.sync (.execute .write 16)), .worker soleParty (.sync .count), .report,
    .worker soleParty (.sync (.execute .fsync 0)), .worker soleParty (.sync .count),
    .worker soleParty (.sync .leave)]

theorem counters_exact_syncWrite :
    ∃ hist r, Run (ioMove (writesOnly .sync)) (startRun (writesOnly .sync)) hist r ∧
      hist.map Prod.snd = syncWrite ∧ tally r.stats = (0, 1, 1, 0, 16) ∧
      tally r.stats = total r.ops := by
  have h : Run.play (ioMove (writesOnly .sync)) (startRun (writesOnly .sync)) syncWrite
      = some (_, _) := rfl
  have hrun := Run.of_play h
  refine ⟨_, _, hrun, rfl, by decide, (counters_exact_iff hrun ?_ ?_).mpr ⟨?_, ?_⟩⟩
  · decide
  · intro t
    obtain rfl := Fin.eq_zero t
    rfl
  · intro hasync
    cases hasync
  · constructor <;> decide

/-- A write that the kernel makes, and an fsync request. -/
def asyncWrite : List (RunMove 1) :=
  [.worker soleParty (.aio (.submit .write 16)), .worker soleParty (.aio (.complete 0 16)),
    .worker soleParty (.aio (.getevents 1)), .worker soleParty (.aio (.finish true)),
    .worker soleParty (.aio (.fsync true)), .worker soleParty (.aio .leave)]

/-- **An fsync request in asynchronous mode**: it is made, and `other_ops` stays 0. -/
theorem counters_missFsync :
    ∃ hist r, Run (ioMove (writesOnly .async)) (startRun (writesOnly .async)) hist r ∧
      hist.map Prod.snd = asyncWrite ∧ (∀ e ∈ hist, errorFree e = true) ∧
      (∀ t, (r.thread t).Ended) ∧
      r.ops = [.write 16, .fsync] ∧ total r.ops = (0, 1, 1, 0, 16) ∧
      tally r.stats = (0, 1, 0, 0, 16) ∧ tally r.stats ≠ total r.ops := by
  have h : Run.play (ioMove (writesOnly .async)) (startRun (writesOnly .async)) asyncWrite
      = some (_, _) := rfl
  refine ⟨_, _, Run.of_play h, rfl, ?_, ?_, rfl, by decide, by decide, by decide⟩
  · decide
  · intro t
    obtain rfl := Fin.eq_zero t
    rfl

end Sysbench.Fileio
