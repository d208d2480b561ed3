import Sysbench.Machinery.LockOrder
import Sysbench.Threads.StartBarrier

/-!
# Threads/LockHierarchy — the mutexes of a whole run

Every mutex that the threads of `run_test` take, and the lock program of every function that takes
one: what it locks, what it calls while it holds the lock, and in which order.  A branch that the
locks do not depend on is a choice; a loop is any finite number of turns, so the paths are those on
which the calls return.  `pthread_cond_wait` gives the mutex back and takes it again, so a section
with a wait is any number of sections.  The threads are neither cancelled nor, before the last part,
interrupted.

The mutexes have a **rank**, and no function takes one inside a section of its own rank or of a
higher one (`threadProg_above`).
-/

namespace Sysbench.Threads.Locks

/-- The mutexes. -/
inductive SbMutex
  | barrier
  | reportInterval
  | exec
  | eventQueue
  | timers
  | stat (id : ℕ)
  | hosts
  | rnd
  | request
  | test (i : ℕ)
  | percentile
  | localPercentile
  | text
  deriving DecidableEq, Repr

/-- The order in which the mutexes are taken. -/
def SbMutex.rank : SbMutex → ℕ
  | .barrier | .reportInterval => 0
  | .exec | .eventQueue => 1
  | .timers | .stat _ | .hosts | .rnd | .request | .test _ => 2
  | .percentile | .localPercentile => 3
  | .text => 4

open LockProg

/-- Any of the programs, any number of times. -/
def anyOf {κ : Type} : List (LockProg κ) → LockProg κ
  | [] => .skip
  | p :: ps => .star (.choice p (anyOf ps))

theorem above_anyOf {κ : Type} {rank : κ → ℕ} {n : ℕ} {ps : List (LockProg κ)}
    (h : ∀ p ∈ ps, Above rank n p) : Above rank n (anyOf ps) := by
  induction ps with
  | nil => trivial
  | cons p ps ih =>
    exact ⟨h p List.mem_cons_self, ih fun q hq => h q (List.mem_cons_of_mem _ hq)⟩

/-! ## The logger -/

/-- `log_text` and `log_errno`: `text_handler_process` locks unless the message is not printed. -/
def logText : LockProg SbMutex := maybe (leaf .text)

/-- `log_timestamp`: its messages skip the check for duplicates. -/
def logTimestamp : LockProg SbMutex := .skip

/-- `sb_timer_start`, `sb_timer_stop`, `sb_timer_value` and `sb_timer_split` warn of a timer that is
in another state than they expect. -/
def sbTimer : LockProg SbMutex := logText

/-- `oper_handler_process`, for a start and for a stop; `timers_mutex` is there for checkpoints
only. -/
def operHandlerProcess (checkpoints : Bool) : LockProg SbMutex :=
  .choice (critWhen checkpoints .timers sbTimer)
    (.seq (critWhen checkpoints .timers (.seq sbTimer sbTimer)) (leaf .percentile))

/-- `print_global_stats`: it splits the timer, and calculates and resets the percentile, inside the
section. -/
def printGlobalStats (checkpoints : Bool) : LockProg SbMutex :=
  .seq (critWhen checkpoints .timers (all [sbTimer, leaf .percentile, leaf .percentile]))
    (.star logText)

/-! ## The tests -/

/-- The tests, with the number of mutexes of their own. -/
inductive TestKind
  | lua
  | fileio
  | memory
  | cpu
  | threads (locks : ℕ)
  | mutex (num : ℕ)
  deriving DecidableEq, Repr

/-- `db_update_thread_stats`: an unknown type is logged inside the section. -/
def dbUpdateThreadStats (id : ℕ) : LockProg SbMutex := .crit (.stat id) logText

/-- The loop of `db_print_stats` over the threads. -/
def sumThreadStats (numThreads : ℕ) : LockProg SbMutex :=
  all ((List.range numThreads).map fun i => leaf (.stat i))

/-- `print_stats(SB_STAT_INTERMEDIATE)`. -/
def printIntermediate (cfg : RunConfig) : TestKind → LockProg SbMutex
  | .lua => all [sumThreadStats cfg.numThreads, sbTimer, leaf .localPercentile, logTimestamp,
      when (0 < cfg.txRate) (.crit .eventQueue logTimestamp), leaf .exec, leaf .localPercentile]
  | .fileio => all [.crit .exec sbTimer, leaf .localPercentile, logTimestamp, leaf .localPercentile]
  | .memory => .crit .exec (.seq sbTimer logTimestamp)
  | _ => .skip

/-- `print_stats(SB_STAT_CUMULATIVE)`; a warning of a timer is one more text. -/
def printCumulative (cfg : RunConfig) : TestKind → LockProg SbMutex
  | .lua => .seq (sumThreadStats cfg.numThreads) (.star logText)
  | .fileio | .memory => .star logText
  | _ => .skip

/-- `file_get_seq_request`: `check_seq_req` warns inside the section. -/
def fileGetSeqRequest : LockProg SbMutex := .crit .exec (.star logText)

/-- `file_get_rnd_request`: the turns of `retry` are inside the section, and take no mutex. -/
def fileGetRndRequest : LockProg SbMutex := .crit .exec (.star .skip)

/-- `get_request`. -/
def getRequest : TestKind → LockProg SbMutex
  | .fileio => .choice fileGetSeqRequest fileGetRndRequest
  | .memory | .threads _ => leaf .exec
  | .cpu => maybe (leaf .request)
  | .lua | .mutex _ => .skip

/-- A mutex of the test's own, one of `n`. -/
def oneOf (n : ℕ) : LockProg SbMutex := anyOf ((List.range n).map fun i => leaf (.test i))

/-- `execute_request` of worker `id`. -/
def executeRequest (checkpoints : Bool) (id : ℕ) : TestKind → LockProg SbMutex
  | .lua => anyOf [logText, operHandlerProcess checkpoints, dbUpdateThreadStats id, leaf .hosts,
      leaf .rnd, leaf .localPercentile]
  | .fileio => anyOf [logText, operHandlerProcess checkpoints, leaf .exec, leaf .localPercentile]
  | .memory | .cpu => anyOf [logText, operHandlerProcess checkpoints]
  | .threads n | .mutex n => anyOf [operHandlerProcess checkpoints, oneOf n]

/-- `file_wait`: each operation that completes is counted under the execution mutex. -/
def fileWait : LockProg SbMutex := anyOf [logText, leaf .exec]

/-- `thread_init` of worker `id`: a script may do there what it does in an event. -/
def threadInit (checkpoints : Bool) (id : ℕ) : TestKind → LockProg SbMutex
  | .lua => executeRequest checkpoints id .lua
  | _ => .skip

/-- `thread_done` of worker `id`; `file_thread_done` waits for what is still under way. -/
def threadDone (checkpoints : Bool) (id : ℕ) : TestKind → LockProg SbMutex
  | .lua => executeRequest checkpoints id .lua
  | .fileio => maybe fileWait
  | _ => .skip

/-! ## The threads -/

/-- `sb_barrier_wait`: `threads_started_callback` starts the timers inside the last section. -/
def sbBarrierWait : LockProg SbMutex := .star (.crit .barrier (.star sbTimer))

/-- The section that takes an event from the queue, with its `pthread_cond_wait`s, and the time that
the event has waited. -/
def takeEvent : LockProg SbMutex :=
  .seq (.seq (leaf .eventQueue) (.star (leaf .eventQueue))) sbTimer

/-- A turn of the loop of `worker_thread`, to its end. -/
def workerTurn (cfg : RunConfig) (kind : TestKind) (id : ℕ) : LockProg SbMutex :=
  all [when (0 < cfg.txRate) takeEvent, getRequest kind,
    maybe (executeRequest (0 < cfg.nCheckpoints) id kind),
    when (0 < cfg.txRate) (leaf .eventQueue), sbTimer, logText]

/-- A turn that a full queue or a request that fails breaks off. -/
def workerBreak (cfg : RunConfig) (kind : TestKind) (id : ℕ) : LockProg SbMutex :=
  .choice (when (0 < cfg.txRate) logText)
    (all [when (0 < cfg.txRate) takeEvent, getRequest kind,
      executeRequest (0 < cfg.nCheckpoints) id kind])

/-- `worker_thread`: when the initialization fails, here or elsewhere, there are no requests and no
`thread_done`. -/
def workerThread (cfg : RunConfig) (kind : TestKind) (id : ℕ) : LockProg SbMutex :=
  all [threadInit (0 < cfg.nCheckpoints) id kind, logText, sbBarrierWait,
    maybe (all [.star (workerTurn cfg kind id), maybe (workerBreak cfg kind id),
      threadDone (0 < cfg.nCheckpoints) id kind])]

/-- `eventgen_thread_proc`; with a full queue it ends. -/
def eventgenThreadProc : LockProg SbMutex :=
  all [logText, sbBarrierWait, sbTimer,
    .star (all [sbTimer, logTimestamp, sbTimer, leaf .eventQueue]), logText]

/-- `report_thread_proc`; without `print_stats` it says so and ends. -/
def reportThreadProc (cfg : RunConfig) (kind : TestKind) : LockProg SbMutex :=
  all [logText, sbBarrierWait, logText, sbTimer,
    .star (.seq (.crit .reportInterval (maybe (printIntermediate cfg kind))) sbTimer)]

/-- `checkpoints_thread_proc`: the execution mutex is held for the whole report. -/
def checkpointsThreadProc (cfg : RunConfig) (kind : TestKind) : LockProg SbMutex :=
  all [logText, sbBarrierWait, logText,
    .star (.seq (.star sbTimer) (.crit .exec (all [logTimestamp, printCumulative cfg kind,
      printGlobalStats (0 < cfg.nCheckpoints)])))]

/-- `sigalrm_forced_shutdown_handler`, up to `exit`: it stops the timers first. -/
def forcedShutdown (cfg : RunConfig) (kind : TestKind) : LockProg SbMutex :=
  all [sbTimer, sbTimer, sbTimer, logText, printCumulative cfg kind,
    printGlobalStats (0 < cfg.nCheckpoints)]

/-- `run_test` in the main thread from the barrier on, with `log_done` after it; the signal finds it
in `pthread_join`, if it comes.  A failed initialization and a failed `cleanup` return at once. -/
def runTest (cfg : RunConfig) (kind : TestKind) : LockProg SbMutex :=
  all [.star logText, sbBarrierWait, logText,
    maybe (.choice (forcedShutdown cfg kind)
      (all [.star logText, leaf .reportInterval, .star logText,
        maybe (all [maybe (printCumulative cfg kind), .star logText,
          printGlobalStats (0 < cfg.nCheckpoints)])]))]

/-- The program of each thread. -/
def threadProg (cfg : RunConfig) (kind : TestKind) : Thread cfg.numThreads → LockProg SbMutex
  | .main => runTest cfg kind
  | .report => reportThreadProc cfg kind
  | .eventgen => eventgenThreadProc
  | .checkpoints => checkpointsThreadProc cfg kind
  | .worker i => workerThread cfg kind i

/-! ## The order -/

variable {cfg : RunConfig} {kind : TestKind} {n : ℕ} {checkpoints : Bool}

theorem above_logText (h : n ≤ 4) : Above SbMutex.rank n logText := by simpa [logText, SbMutex.rank]

theorem above_operHandlerProcess (h : n ≤ 2) :
    Above SbMutex.rank n (operHandlerProcess checkpoints) := by
  have htimer : Above SbMutex.rank 3 sbTimer := above_logText (by decide)
  have hpercentile : n ≤ SbMutex.rank .percentile := h.trans (by decide)
  exact ⟨above_critWhen h htimer, above_critWhen h ⟨htimer, htimer⟩, hpercentile, trivial⟩

theorem above_printGlobalStats (h : n ≤ 2) :
    Above SbMutex.rank n (printGlobalStats checkpoints) := by
  have htimer : Above SbMutex.rank 3 sbTimer := above_logText (by decide)
  exact ⟨above_critWhen h (by simp [SbMutex.rank, htimer]), above_logText (by omega)⟩

theorem above_sumThreadStats (h : n ≤ 2) (numThreads : ℕ) :
    Above SbMutex.rank n (sumThreadStats numThreads) := by
  simpa [sumThreadStats, SbMutex.rank] using fun _ _ => h

theorem above_printIntermediate (h : n ≤ 1) :
    Above SbMutex.rank n (printIntermediate cfg kind) := by
  have hstats := above_sumThreadStats (h.trans one_le_two) cfg.numThreads
  have htimer : ∀ m ≤ 4, Above SbMutex.rank m sbTimer := fun m hm => above_logText hm
  cases kind with
  | lua =>
    simp [printIntermediate, logTimestamp, SbMutex.rank, hstats, htimer n (by omega)]
    omega
  | fileio =>
    simp [printIntermediate, logTimestamp, SbMutex.rank, htimer]
    omega
  | memory => simpa [printIntermediate, logTimestamp, SbMutex.rank, htimer] using h
  | _ => trivial

theorem above_printCumulative (h : n ≤ 2) : Above SbMutex.rank n (printCumulative cfg kind) := by
  have htext : Above SbMutex.rank n logText := above_logText (by omega)
  cases kind with
  | lua => exact ⟨above_sumThreadStats h cfg.numThreads, htext⟩
  | fileio | memory => exact htext
  | _ => trivial

theorem above_getRequest (h : n ≤ 1) : Above SbMutex.rank n (getRequest kind) := by
  cases kind with
  | fileio => exact ⟨⟨h, above_logText (by decide)⟩, h, trivial⟩
  | memory | threads => simpa [getRequest, SbMutex.rank] using h
  | cpu => simpa [getRequest, SbMutex.rank] using h.trans one_le_two
  | _ => trivial

theorem above_executeRequest (h : n ≤ 1) (id : ℕ) :
    Above SbMutex.rank n (executeRequest checkpoints id kind) := by
  have htext : Above SbMutex.rank n logText := above_logText (by omega)
  have hoper : Above SbMutex.rank n (operHandlerProcess checkpoints) :=
    above_operHandlerProcess (by omega)
  have hone : ∀ k, Above SbMutex.rank n (oneOf k) := fun k => above_anyOf fun p hp => by
    obtain ⟨i, -, rfl⟩ := List.mem_map.mp hp
    simpa [SbMutex.rank] using h.trans one_le_two
  have hstats : Above SbMutex.rank n (dbUpdateThreadStats id) :=
    ⟨h.trans one_le_two, above_logText (by simp [SbMutex.rank])⟩
  cases kind with
  | lua =>
    refine above_anyOf ?_
    simp [htext, hoper, hstats, SbMutex.rank]
    omega
  | fileio =>
    refine above_anyOf ?_
    simp [htext, hoper, SbMutex.rank]
    omega
  | memory | cpu => exact above_anyOf (by simp [htext, hoper])
  | threads | mutex => exact above_anyOf (by simp [hoper, hone])

theorem above_threadInit (h : n ≤ 1) (id : ℕ) :
    Above SbMutex.rank n (threadInit checkpoints id kind) := by
  cases kind with
  | lua =>
    change Above SbMutex.rank n (executeRequest checkpoints id .lua)
    exact above_executeRequest h id
  | _ => trivial

theorem above_threadDone (h : n ≤ 1) (id : ℕ) :
    Above SbMutex.rank n (threadDone checkpoints id kind) := by
  cases kind with
  | lua =>
    change Above SbMutex.rank n (executeRequest checkpoints id .lua)
    exact above_executeRequest h id
  | fileio =>
    have hexec : n ≤ SbMutex.rank .exec := h
    exact above_maybe.mpr (above_anyOf (by simp [above_logText, hexec, h.trans]))
  | _ => trivial

theorem above_workerTurn (id : ℕ) : Above SbMutex.rank 0 (workerTurn cfg kind id) := by
  simp [workerTurn, takeEvent, sbTimer, above_logText, above_getRequest, above_executeRequest]

theorem above_workerBreak (id : ℕ) : Above SbMutex.rank 0 (workerBreak cfg kind id) := by
  simp [workerBreak, takeEvent, sbTimer, above_logText, above_getRequest, above_executeRequest]

theorem above_forcedShutdown : Above SbMutex.rank 0 (forcedShutdown cfg kind) := by
  simp [forcedShutdown, sbTimer, above_logText, above_printCumulative, above_printGlobalStats]

/-- **No thread takes a mutex inside a section of its own rank or of a higher one.** -/
theorem threadProg_above (cfg : RunConfig) (kind : TestKind) (t : Thread cfg.numThreads) :
    Above SbMutex.rank 0 (threadProg cfg kind t) := by
  have htext : Above SbMutex.rank 0 logText := above_logText (by decide)
  have htimer : ∀ m ≤ 4, Above SbMutex.rank m sbTimer := fun m hm => above_logText hm
  have hwait : Above SbMutex.rank 0 sbBarrierWait := by simp [sbBarrierWait, SbMutex.rank, htimer]
  cases t with
  | main =>
    simp [threadProg, runTest, htext, hwait, above_forcedShutdown, above_printCumulative,
      above_printGlobalStats]
  | report =>
    simp [threadProg, reportThreadProc, htext, htimer, hwait, SbMutex.rank, above_printIntermediate]
  | eventgen => simp [threadProg, eventgenThreadProc, logTimestamp, htext, htimer, hwait]
  | checkpoints =>
    simp [threadProg, checkpointsThreadProc, logTimestamp, htext, htimer, hwait, SbMutex.rank,
      above_printCumulative, above_printGlobalStats]
  | worker i =>
    simp [threadProg, workerThread, htext, hwait, above_threadInit, above_workerTurn,
      above_workerBreak, above_threadDone]

/-- **The threads of a run never lock each other out**: however they are scheduled and whichever way
their functions go, as long as these return, from every state they reach all of them can finish what
they do with the mutexes. -/
theorem threads_never_deadlock {todo : Thread cfg.numThreads → List (LockOp SbMutex)}
    (hpath : ∀ t, (threadProg cfg kind t).Path (todo t))
    {hist : List (LockState SbMutex (Thread cfg.numThreads) × Thread cfg.numThreads)}
    {s : LockState SbMutex (Thread cfg.numThreads)}
    (hrun : Run lockMove (startLocks todo) hist s) :
    ∃ hist' s', Run lockMove s hist' s' ∧ ∀ t, s'.todo t = [] :=
  exists_completion_of_above (threadProg_above cfg kind) hpath hrun

/-- A run of the memory test with one worker and reports. -/
def oneWorker : RunConfig := ⟨1, 1, 0, 0, by decide⟩

/-- Its worker. -/
def soleWorker : Thread 1 := .worker soleParty

/-- The reporting thread is inside its report when the worker asks for a request. -/
def reportAndRequest : List (Thread 1) :=
  List.replicate 12 .report ++ List.replicate 6 soleWorker

theorem threads_never_deadlock_oneWorker :
    ∃ (hist : List (LockState SbMutex (Thread 1) × Thread 1)) (s : LockState SbMutex (Thread 1)),
      Run lockMove (startLocks fun t => (threadProg oneWorker .memory t).firstPath) hist s ∧
      s.owner .exec = some .report ∧ lockMove s soleWorker = none ∧
      ∃ hist' s', Run lockMove s hist' s' ∧ ∀ t, s'.todo t = [] := by
  have h : Run.play lockMove (startLocks fun t => (threadProg oneWorker .memory t).firstPath)
      reportAndRequest = some (_, _) := rfl
  have hrun := Run.of_play h
  exact ⟨_, _, hrun, rfl, rfl, threads_never_deadlock (fun t => path_firstPath _) hrun⟩

/-! ## The forced shutdown -/

/-- A signal handler that does `ops` interrupts thread `t`. -/
def interrupt {n : ℕ} (s : LockState SbMutex (Thread n)) (t : Thread n)
    (ops : List (LockOp SbMutex)) :
    LockState SbMutex (Thread n) :=
  { s with todo := Function.update s.todo t (ops ++ s.todo t) }

/-- Whatever way it goes, `print_global_stats` takes the mutex of the percentile, and that of the
timers if there are checkpoints. -/
theorem acquire_mem_of_printGlobalStats {ops : List (LockOp SbMutex)} {m : SbMutex}
    (h : (printGlobalStats checkpoints).Path ops)
    (hm : m = .percentile ∨ m = .timers ∧ checkpoints = true) : .acquire m ∈ ops := by
  have hbody : ∀ {ops}, (all [sbTimer, leaf .percentile, leaf .percentile]).Path ops →
      LockOp.acquire SbMutex.percentile ∈ ops := fun hp => by
    obtain ⟨_, hleaf, hsub⟩ := path_all_of_mem hp (show leaf SbMutex.percentile ∈ _ by simp)
    cases hleaf
    exact hsub List.mem_cons_self
  obtain ⟨_, _, hsection, -, rfl⟩ := path_seq.mp h
  refine List.mem_append_left _ ?_
  cases checkpoints with
  | true =>
    cases hsection with
    | crit hp =>
      rcases hm with rfl | ⟨rfl, -⟩
      · exact List.mem_cons_of_mem _ (List.mem_append_left _ (hbody hp))
      · exact List.mem_cons_self
  | false =>
    obtain rfl : m = .percentile := hm.resolve_right (by simp)
    exact hbody hsection

theorem acquire_mem_of_forcedShutdown {ops : List (LockOp SbMutex)} {m : SbMutex}
    (h : (forcedShutdown cfg kind).Path ops)
    (hm : m = .percentile ∨ m = .timers ∧ 0 < cfg.nCheckpoints) : .acquire m ∈ ops := by
  obtain ⟨part, hpart, hsub⟩ := path_all_of_mem h
    (show printGlobalStats (0 < cfg.nCheckpoints) ∈ _ by simp)
  exact hsub (acquire_mem_of_printGlobalStats hpart (by simpa using hm))

/-- **A forced shutdown that interrupts a thread inside one of these sections never ends**: in every
run from there the thread still wants the mutex that it holds, and nobody else gets it. -/
theorem forcedShutdown_hangs {ops : List (LockOp SbMutex)} {m : SbMutex}
    {s s' : LockState SbMutex (Thread cfg.numThreads)} {t : Thread cfg.numThreads}
    {hist : List (LockState SbMutex (Thread cfg.numThreads) × Thread cfg.numThreads)}
    (hpath : (forcedShutdown cfg kind).Path ops)
    (hm : m = .percentile ∨ m = .timers ∧ 0 < cfg.nCheckpoints) (hown : s.owner m = some t)
    (hrun : Run lockMove (interrupt s t ops) hist s') :
    s'.owner m = some t ∧ .acquire m ∈ s'.todo t := by
  have hascends : Ascends SbMutex.rank [] (ops ++ []) :=
    hpath.ascends above_forcedShutdown (by simp) rfl
  rw [List.append_nil] at hascends
  obtain ⟨pre, post, rfl, hpre⟩ :=
    hascends.exists_acquire List.not_mem_nil (acquire_mem_of_forcedShutdown hpath hm)
  have hheld : (interrupt s t (pre ++ .acquire m :: post)).owner m = some t := hown
  have htodo : (interrupt s t (pre ++ .acquire m :: post)).todo t
      = pre ++ .acquire m :: (post ++ s.todo t) := by
    simp [interrupt]
  obtain ⟨hown', ops', htodo'⟩ := reacquires_forever hheld htodo hpre hrun
  exact ⟨hown', by simp [htodo']⟩

/-- The worker is inside `sb_percentile_update`. -/
def updating : LockState SbMutex (Thread 1) :=
  ⟨Function.update (fun _ => none) .percentile (some soleWorker),
    Function.update (fun _ => []) soleWorker [.release .percentile]⟩

theorem forcedShutdown_hangs_updating :
    ∃ (hist : List (LockState SbMutex (Thread 1) × Thread 1)) (s' : LockState SbMutex (Thread 1)),
      Run lockMove (interrupt updating soleWorker (forcedShutdown oneWorker .memory).firstPath)
        hist s' ∧ lockMove s' soleWorker = none ∧
      s'.owner .percentile = some soleWorker ∧ .acquire .percentile ∈ s'.todo soleWorker := by
  have h : Run.play lockMove
      (interrupt updating soleWorker (forcedShutdown oneWorker .memory).firstPath)
      (List.replicate 12 soleWorker) = some (_, _) := rfl
  have hrun := Run.of_play h
  have hpath : (forcedShutdown oneWorker .memory).Path _ := path_firstPath _
  have hheld : updating.owner .percentile = some soleWorker := rfl
  have hstuck := forcedShutdown_hangs hpath (.inl rfl) hheld hrun
  exact ⟨_, _, hrun, rfl, hstuck⟩

end Sysbench.Threads.Locks
