import Sysbench.Machinery.Traces

/-!
# Threads/Shutdown — the end of `run_test`

When the workers have been joined, the main thread still shares two mutexes with the threads that
print statistics: `report_interval_mutex` with the reporting thread, and the execution mutex with
both that thread and the one for checkpoints.  It silences the reporting thread, cleans up, prints
the final statistics, destroys the execution mutex, and only then cancels and joins the two threads.
A thread is cancelled where it sleeps or where it prints, with the mutexes it holds there.

A step answers whether it is **faulty**: a mutex is locked or unlocked after its destruction,
destroyed while it is held, or left behind by a cancelled thread, or a report is printed into the
final one.

The runs are those without `--tx-rate`: there is no event generator to be cancelled, nor one that
finds its queue full.
-/

namespace Sysbench.Threads

/-- The threads that are still there. -/
inductive Party
  | main
  | reporter
  | checkpoints
  deriving DecidableEq, Repr

/-- A mutex of `pthreads`. -/
inductive MutexState
  | free
  | held (p : Party)
  | destroyed
  deriving DecidableEq, Repr

/-- What can go wrong. -/
inductive Fault
  | lockDestroyed
  | unlockDestroyed
  | destroyHeld
  | leftBehind
  | overlap
  deriving DecidableEq, Repr

/-- What a step answers: who is at fault, if anybody. -/
abbrev ShutdownObs := Option (Party × Fault)

/-- Where the main thread is, from the join of the last worker on; `cleanupFailed` is the early
`return 1`. -/
inductive MainPc
  | locking
  | silencing
  | cleanup
  | printing
  | printed
  | destroyExec
  | done
  | cancelReporter
  | joinReporter
  | destroyInterval
  | cancelCheckpoints
  | joinCheckpoints
  | returned (res : ℤ)
  | cleanupFailed
  deriving DecidableEq, Repr

/-- Where the reporting thread is in its loop; `counting` is the section of `print_stats` under the
execution mutex. -/
inductive ReporterPc
  | asleep
  | locking
  | testing
  | printing
  | counting
  | printed
  | unlocking
  | dead
  deriving DecidableEq, Repr

/-- Where the checkpoints thread is in its loop, with the number of checkpoints after this one. -/
inductive CheckpointsPc
  | next (left : ℕ)
  | asleep (left : ℕ)
  | locking (left : ℕ)
  | printing (left : ℕ)
  | dead
  deriving DecidableEq, Repr

/-- What `run_test` was started with, next to `tx_rate = 0`: the interval of the reports, the number
of checkpoints, whether the test has `print_stats`, whether an error is set by now, and whether its
`cleanup` succeeds. -/
structure ShutdownConfig where
  reportInterval : ℕ
  nCheckpoints : ℕ
  hasPrintStats : Bool
  error : Bool
  cleanupOk : Bool
  deriving DecidableEq, Repr

/-- The two mutexes, `sb_globals.report_interval`, the cancellation requests and the threads. -/
structure Shutdown where
  interval : MutexState
  exec : MutexState
  reportInterval : ℕ
  cancelsReporter : Bool
  cancelsCheckpoints : Bool
  main : MainPc
  reporter : ReporterPc
  checkpoints : CheckpointsPc
  deriving DecidableEq, Repr

/-- The last worker has been joined.  A thread that is not created, or that finds no `print_stats`,
is as good as one that has ended. -/
def startShutdown (cfg : ShutdownConfig) : Shutdown where
  interval := .free
  exec := .free
  reportInterval := cfg.reportInterval
  cancelsReporter := false
  cancelsCheckpoints := false
  main := .locking
  reporter := if 0 < cfg.reportInterval ∧ cfg.hasPrintStats = true then .asleep else .dead
  checkpoints :=
    if 0 < cfg.nCheckpoints ∧ cfg.hasPrintStats = true then .next cfg.nCheckpoints else .dead

/-- `pthread_mutex_lock`, if it returns. -/
def lockBy (p : Party) (m : MutexState) : Option (ShutdownObs × MutexState) :=
  match m with
  | .free => some (none, .held p)
  | .held _ => none
  | .destroyed => some (some (p, .lockDestroyed), .destroyed)

/-- `pthread_mutex_unlock` by the holder. -/
def unlockBy (p : Party) (m : MutexState) : ShutdownObs × MutexState :=
  match m with
  | .free | .held _ => (none, .free)
  | .destroyed => (some (p, .unlockDestroyed), .destroyed)

/-- `pthread_mutex_destroy`, by the main thread. -/
def destroy (m : MutexState) : ShutdownObs × MutexState :=
  match m with
  | .held _ => (some (.main, .destroyHeld), .destroyed)
  | _ => (none, .destroyed)

namespace Shutdown

/-- A report is being printed by another thread than the main one. -/
def reports (s : Shutdown) : Bool :=
  match s.reporter, s.checkpoints with
  | .printing, _ | .counting, _ | .printed, _ | _, .printing _ => true
  | _, _ => false

/-- The final report is being printed. -/
def finalReport (s : Shutdown) : Bool := s.main = .printed

/-- The next step of the main thread, if it can make it. -/
def mainStep (cfg : ShutdownConfig) (s : Shutdown) : Option (ShutdownObs × Shutdown) :=
  match s.main with
  | .locking =>
    (lockBy .main s.interval).map fun r => (r.1, { s with interval := r.2, main := .silencing })
  | .silencing =>
    let r := unlockBy .main s.interval
    some (r.1, { s with interval := r.2, reportInterval := 0, main := .cleanup })
  | .cleanup => some (none, { s with main := if cfg.cleanupOk then .printing else .cleanupFailed })
  | .printing =>
    if cfg.hasPrintStats && !cfg.error then
      some (if s.reports then some (.main, .overlap) else none, { s with main := .printed })
    else some (none, { s with main := .destroyExec })
  | .printed => some (none, { s with main := .destroyExec })
  | .destroyExec =>
    let r := destroy s.exec
    some (r.1, { s with exec := r.2, main := .done })
  | .done => some (none, { s with main := .cancelReporter })
  | .cancelReporter => some (none, { s with cancelsReporter := true, main := .joinReporter })
  | .joinReporter =>
    if s.reporter = .dead then some (none, { s with main := .destroyInterval }) else none
  | .destroyInterval =>
    let r := destroy s.interval
    some (r.1, { s with interval := r.2, main := .cancelCheckpoints })
  | .cancelCheckpoints =>
    some (none, { s with cancelsCheckpoints := true, main := .joinCheckpoints })
  | .joinCheckpoints =>
    if s.checkpoints = .dead then
      some (none, { s with main := .returned (if cfg.error then 1 else 0) })
    else none
  | .returned _ | .cleanupFailed => none

/-- The next step of the reporting thread, if it can make it. -/
def reporterStep (s : Shutdown) : Option (ShutdownObs × Shutdown) :=
  match s.reporter with
  | .asleep => some (none, { s with reporter := .locking })
  | .locking =>
    (lockBy .reporter s.interval).map fun r =>
      (r.1, { s with interval := r.2, reporter := .testing })
  | .testing =>
    if 0 < s.reportInterval then
      some (if s.finalReport then some (.reporter, .overlap) else none,
        { s with reporter := .printing })
    else some (none, { s with reporter := .unlocking })
  | .printing =>
    (lockBy .reporter s.exec).map fun r => (r.1, { s with exec := r.2, reporter := .counting })
  | .counting =>
    let r := unlockBy .reporter s.exec
    some (r.1, { s with exec := r.2, reporter := .printed })
  | .printed => some (none, { s with reporter := .unlocking })
  | .unlocking =>
    let r := unlockBy .reporter s.interval
    some (r.1, { s with interval := r.2, reporter := .asleep })
  | .dead => none

/-- The next step of the checkpoints thread, if it can make it; it may find that a checkpoint has
passed. -/
def checkpointsStep (passed : Bool) (s : Shutdown) : Option (ShutdownObs × Shutdown) :=
  match s.checkpoints with
  | .next 0 => some (none, { s with checkpoints := .dead })
  | .next (left + 1) =>
    some (none, { s with checkpoints := if passed then .next left else .asleep left })
  | .asleep left => some (none, { s with checkpoints := .locking left })
  | .locking left =>
    (lockBy .checkpoints s.exec).map fun r =>
      (if s.finalReport then some (.checkpoints, .overlap) else r.1,
        { s with exec := r.2, checkpoints := .printing left })
  | .printing left =>
    let r := unlockBy .checkpoints s.exec
    some (r.1, { s with exec := r.2, checkpoints := .next left })
  | .dead => none

/-- The reporting thread acts on its cancellation. -/
def reporterDies (s : Shutdown) : Option (ShutdownObs × Shutdown) :=
  if s.cancelsReporter then
    match s.reporter with
    | .asleep => some (none, { s with reporter := .dead })
    | .printing | .counting | .printed =>
      some (some (.reporter, .leftBehind), { s with reporter := .dead })
    | _ => none
  else none

/-- The checkpoints thread acts on its cancellation. -/
def checkpointsDies (s : Shutdown) : Option (ShutdownObs × Shutdown) :=
  if s.cancelsCheckpoints then
    match s.checkpoints with
    | .asleep _ => some (none, { s with checkpoints := .dead })
    | .printing _ => some (some (.checkpoints, .leftBehind), { s with checkpoints := .dead })
    | _ => none
  else none

end Shutdown

/-- A step of one of the threads. -/
inductive ShutdownMove
  | main
  | reporter
  | reporterDies
  | checkpoints (passed : Bool)
  | checkpointsDies
  deriving DecidableEq, Repr

def shutdownStep (cfg : ShutdownConfig) (s : Shutdown) :
    ShutdownMove → Option (ShutdownObs × Shutdown)
  | .main => s.mainStep cfg
  | .reporter => s.reporterStep
  | .reporterDies => s.reporterDies
  | .checkpoints passed => s.checkpointsStep passed
  | .checkpointsDies => s.checkpointsDies

/-! ## The invariant -/

namespace MainPc

/-- The reports have been silenced. -/
def silenced : MainPc → Bool
  | .locking | .silencing => false
  | _ => true

/-- The execution mutex has been destroyed. -/
def execGone : MainPc → Bool
  | .done | .cancelReporter | .joinReporter | .destroyInterval | .cancelCheckpoints
  | .joinCheckpoints | .returned _ => true
  | _ => false

/-- The reporting thread has been joined. -/
def joined : MainPc → Bool
  | .destroyInterval | .cancelCheckpoints | .joinCheckpoints | .returned _ => true
  | _ => false

/-- `report_interval_mutex` has been destroyed. -/
def intervalGone : MainPc → Bool
  | .cancelCheckpoints | .joinCheckpoints | .returned _ => true
  | _ => false

/-- The main thread is past `cleanup`. -/
def cleaned : MainPc → Bool
  | .locking | .silencing | .cleanup | .cleanupFailed => false
  | _ => true

theorem execGone_of_intervalGone {p : MainPc} (h : p.intervalGone = true) : p.execGone = true := by
  cases p <;> simp_all [intervalGone, execGone]

theorem cleaned_of_execGone {p : MainPc} (h : p.execGone = true) : p.cleaned = true := by
  cases p <;> simp_all [cleaned, execGone]

end MainPc

/-- The reporting thread holds `report_interval_mutex`. -/
def ReporterPc.holds : ReporterPc → Bool
  | .testing | .printing | .counting | .printed | .unlocking => true
  | _ => false

/-- The reporting thread prints. -/
def ReporterPc.prints : ReporterPc → Bool
  | .printing | .counting | .printed => true
  | _ => false

/-- The checkpoints thread prints. -/
def CheckpointsPc.prints : CheckpointsPc → Bool
  | .printing _ => true
  | _ => false

/-- **The invariant**: the mutexes are held by those who are in the places for it, and after it has
been silenced the reporting thread prints no more. -/
structure ShutdownInv (cfg : ShutdownConfig) (s : Shutdown) : Prop where
  intervalMain : s.interval = .held .main ↔ s.main = .silencing
  intervalReporter : s.interval = .held .reporter ↔ s.reporter.holds = true
  intervalOther : s.interval ≠ .held .checkpoints
  intervalGone : s.interval = .destroyed ↔ s.main.intervalGone = true
  execMain : s.exec ≠ .held .main
  execReporter : s.exec = .held .reporter ↔ s.reporter = .counting
  execCheckpoints :
    s.exec = .held .checkpoints ↔ s.checkpoints.prints = true ∧ s.main.execGone = false
  execGone : s.exec = .destroyed ↔ s.main.execGone = true
  quiet : s.main.silenced = true → s.reportInterval = 0 ∧ s.reporter.prints = false
  joined : s.main.joined = true → s.reporter = .dead
  ended : ∀ res, s.main = .returned res → s.checkpoints = .dead
  cancelsReporter : s.cancelsReporter = true → s.main.silenced = true
  cancelsCheckpoints : s.cancelsCheckpoints = true → s.main.intervalGone = true
  cleaned : s.main.cleaned = true → cfg.cleanupOk = true
  created : s.checkpoints ≠ .dead → 0 < cfg.nCheckpoints ∧ cfg.hasPrintStats = true

variable {cfg : ShutdownConfig} {s s' : Shutdown} {o : ShutdownObs} {m : ShutdownMove}

theorem shutdownInv_start (cfg : ShutdownConfig) : ShutdownInv cfg (startShutdown cfg) := by
  unfold startShutdown
  constructor
  all_goals split_ifs <;> simp_all [MainPc.silenced, MainPc.intervalGone, MainPc.execGone,
    MainPc.joined, MainPc.cleaned, ReporterPc.holds, CheckpointsPc.prints]

/-- **The steps under the invariant**, each with what it needs of the state before it. -/
inductive ShutdownStep (cfg : ShutdownConfig) (s : Shutdown) : ShutdownObs → Shutdown → Prop
  | mainLocks (hpc : s.main = .locking) (hfree : s.interval = .free) :
      ShutdownStep cfg s none { s with interval := .held .main, main := .silencing }
  | silences (hpc : s.main = .silencing) :
      ShutdownStep cfg s none { s with interval := .free, reportInterval := 0, main := .cleanup }
  | cleans (hpc : s.main = .cleanup) (hok : cfg.cleanupOk = true) :
      ShutdownStep cfg s none { s with main := .printing }
  | failsCleanup (hpc : s.main = .cleanup) (hok : cfg.cleanupOk = false) :
      ShutdownStep cfg s none { s with main := .cleanupFailed }
  | printsFinal (hpc : s.main = .printing) :
      ShutdownStep cfg s (if s.reports then some (.main, .overlap) else none)
        { s with main := .printed }
  | skipsFinal (hpc : s.main = .printing ∨ s.main = .printed) :
      ShutdownStep cfg s none { s with main := .destroyExec }
  | destroysExec (hpc : s.main = .destroyExec) :
      ShutdownStep cfg s (destroy s.exec).1 { s with exec := .destroyed, main := .done }
  | done (hpc : s.main = .done) : ShutdownStep cfg s none { s with main := .cancelReporter }
  | cancelsReporter (hpc : s.main = .cancelReporter) :
      ShutdownStep cfg s none { s with cancelsReporter := true, main := .joinReporter }
  | joinsReporter (hpc : s.main = .joinReporter) (hdead : s.reporter = .dead) :
      ShutdownStep cfg s none { s with main := .destroyInterval }
  | destroysInterval (hpc : s.main = .destroyInterval) (hfree : s.interval = .free) :
      ShutdownStep cfg s none { s with interval := .destroyed, main := .cancelCheckpoints }
  | cancelsCheckpoints (hpc : s.main = .cancelCheckpoints) :
      ShutdownStep cfg s none { s with cancelsCheckpoints := true, main := .joinCheckpoints }
  | returns (hpc : s.main = .joinCheckpoints) (hdead : s.checkpoints = .dead) :
      ShutdownStep cfg s none { s with main := .returned (if cfg.error then 1 else 0) }
  | wakes (hpc : s.reporter = .asleep) :
      ShutdownStep cfg s none { s with reporter := .locking }
  | locks (hpc : s.reporter = .locking) (hfree : s.interval = .free) :
      ShutdownStep cfg s none { s with interval := .held .reporter, reporter := .testing }
  | prints (hpc : s.reporter = .testing) (hpos : 0 < s.reportInterval) :
      ShutdownStep cfg s none { s with reporter := .printing }
  | skips (hpc : s.reporter = .testing ∨ s.reporter = .printed) :
      ShutdownStep cfg s none { s with reporter := .unlocking }
  | counts (hpc : s.reporter = .printing) (hfree : s.exec = .free) :
      ShutdownStep cfg s none { s with exec := .held .reporter, reporter := .counting }
  | counted (hpc : s.reporter = .counting) :
      ShutdownStep cfg s none { s with exec := .free, reporter := .printed }
  | unlocks (hpc : s.reporter = .unlocking) :
      ShutdownStep cfg s none { s with interval := .free, reporter := .asleep }
  | dies (hpc : s.reporter = .asleep) (hcancel : s.cancelsReporter = true) :
      ShutdownStep cfg s none { s with reporter := .dead }
  | ends (hpc : s.checkpoints = .next 0) : ShutdownStep cfg s none { s with checkpoints := .dead }
  | turns {p : CheckpointsPc} (halive : s.checkpoints ≠ .dead)
      (hpc : s.checkpoints.prints = false) (hp : p.prints = false) :
      ShutdownStep cfg s none { s with checkpoints := p }
  | locksExec {left : ℕ} (hpc : s.checkpoints = .locking left) (hfree : s.exec = .free) :
      ShutdownStep cfg s (if s.finalReport then some (.checkpoints, .overlap) else none)
        { s with exec := .held .checkpoints, checkpoints := .printing left }
  | locksGone {left : ℕ} (hpc : s.checkpoints = .locking left) (hgone : s.exec = .destroyed) :
      ShutdownStep cfg s (some (.checkpoints, .lockDestroyed))
        { s with exec := .destroyed, checkpoints := .printing left }
  | unlocksExec {left : ℕ} (hpc : s.checkpoints = .printing left)
      (hheld : s.exec = .held .checkpoints) :
      ShutdownStep cfg s none { s with exec := .free, checkpoints := .next left }
  | unlocksGone {left : ℕ} (hpc : s.checkpoints = .printing left) (hgone : s.exec = .destroyed) :
      ShutdownStep cfg s (some (.checkpoints, .unlockDestroyed))
        { s with exec := .destroyed, checkpoints := .next left }
  | diesPrinting {left : ℕ} (hpc : s.checkpoints = .printing left)
      (hcancel : s.cancelsCheckpoints = true) :
      ShutdownStep cfg s (some (.checkpoints, .leftBehind)) { s with checkpoints := .dead }

theorem lockBy_of_ne_destroyed {p : Party} {μ : MutexState} {r : ShutdownObs × MutexState}
    (h : lockBy p μ = some r) (hne : μ ≠ .destroyed) : μ = .free ∧ r = (none, .held p) := by
  cases μ with
  | free => exact ⟨rfl, (Option.some.inj h).symm⟩
  | held q => cases h
  | destroyed => exact (hne rfl).elim

theorem unlockBy_held {p q : Party} {μ : MutexState} (h : μ = .held q) :
    unlockBy p μ = (none, .free) := by rw [h]; rfl

/-- The steps of the main thread. -/
theorem shutdownStep_main (h : ShutdownInv cfg s) (hs : s.mainStep cfg = some (o, s')) :
    ShutdownStep cfg s o s' := by
  unfold Shutdown.mainStep at hs
  split at hs
  next hpc =>
    obtain ⟨r, hr, hs⟩ := Option.map_eq_some_iff.mp hs
    have hne : s.interval ≠ .destroyed := fun hgone => by
      simp [h.intervalGone, hpc, MainPc.intervalGone] at hgone
    obtain ⟨hfree, rfl⟩ := lockBy_of_ne_destroyed hr hne
    obtain ⟨rfl, rfl⟩ := Prod.mk.inj hs
    exact .mainLocks hpc hfree
  next hpc =>
    rw [unlockBy_held (h.intervalMain.mpr hpc)] at hs
    obtain ⟨rfl, rfl⟩ := Prod.mk.inj (Option.some.inj hs)
    exact .silences hpc
  next hpc =>
    obtain ⟨rfl, rfl⟩ := Prod.mk.inj (Option.some.inj hs)
    split
    next hok => exact .cleans hpc hok
    next hok => exact .failsCleanup hpc (by simpa using hok)
  next hpc =>
    split at hs
    next =>
      obtain ⟨rfl, rfl⟩ := Prod.mk.inj (Option.some.inj hs)
      exact .printsFinal hpc
    next =>
      obtain ⟨rfl, rfl⟩ := Prod.mk.inj (Option.some.inj hs)
      exact .skipsFinal (.inl hpc)
  next hpc =>
    obtain ⟨rfl, rfl⟩ := Prod.mk.inj (Option.some.inj hs)
    exact .skipsFinal (.inr hpc)
  next hpc =>
    obtain ⟨rfl, rfl⟩ := Prod.mk.inj (Option.some.inj hs)
    have hgone : (destroy s.exec).2 = .destroyed := by cases s.exec <;> rfl
    rw [hgone]
    exact .destroysExec hpc
  next hpc =>
    obtain ⟨rfl, rfl⟩ := Prod.mk.inj (Option.some.inj hs)
    exact .done hpc
  next hpc =>
    obtain ⟨rfl, rfl⟩ := Prod.mk.inj (Option.some.inj hs)
    exact .cancelsReporter hpc
  next hpc =>
    obtain ⟨hdead, hs⟩ := Option.ite_none_right_eq_some.mp hs
    obtain ⟨rfl, rfl⟩ := Prod.mk.inj (Option.some.inj hs)
    exact .joinsReporter hpc hdead
  next hpc =>
    -- the reporting thread has been joined, so nobody holds the mutex
    have hdead := h.joined (by rw [hpc]; rfl)
    have hfree : s.interval = .free := by
      cases hi : s.interval with
      | free => rfl
      | held p =>
        cases p with
        | main => simp [h.intervalMain.mp hi] at hpc
        | reporter => exact absurd (h.intervalReporter.mp hi) (by rw [hdead]; decide)
        | checkpoints => exact (h.intervalOther hi).elim
      | destroyed => exact absurd (h.intervalGone.mp hi) (by rw [hpc]; decide)
    rw [hfree] at hs
    obtain ⟨rfl, rfl⟩ := Prod.mk.inj (Option.some.inj hs)
    exact .destroysInterval hpc hfree
  next hpc =>
    obtain ⟨rfl, rfl⟩ := Prod.mk.inj (Option.some.inj hs)
    exact .cancelsCheckpoints hpc
  next hpc =>
    obtain ⟨hdead, hs⟩ := Option.ite_none_right_eq_some.mp hs
    obtain ⟨rfl, rfl⟩ := Prod.mk.inj (Option.some.inj hs)
    exact .returns hpc hdead
  next => cases hs
  next => cases hs

/-- A reporting thread that holds `report_interval_mutex` or the execution mutex, or is about to, is
there before these are destroyed. -/
theorem ShutdownInv.reporter_mutexes (h : ShutdownInv cfg s) (halive : s.reporter ≠ .dead) :
    s.interval ≠ .destroyed ∧ (s.reporter.prints = true → s.exec ≠ .destroyed) := by
  refine ⟨fun hgone => halive (h.joined ?_), fun hprints hgone => ?_⟩
  · have hpc := h.intervalGone.mp hgone
    cases hm : s.main <;> simp_all [MainPc.intervalGone, MainPc.joined]
  · have hpc := h.execGone.mp hgone
    have hquiet : s.main.silenced = true := by
      cases hm : s.main <;> simp_all [MainPc.execGone, MainPc.silenced]
    simp [(h.quiet hquiet).2] at hprints

/-- The steps of the reporting thread: none is at fault. -/
theorem shutdownStep_reporter (h : ShutdownInv cfg s) (hs : s.reporterStep = some (o, s')) :
    ShutdownStep cfg s o s' := by
  have hmutex := h.reporter_mutexes
  unfold Shutdown.reporterStep at hs
  split at hs
  next hpc =>
    obtain ⟨rfl, rfl⟩ := Prod.mk.inj (Option.some.inj hs)
    exact .wakes hpc
  next hpc =>
    obtain ⟨r, hr, hs⟩ := Option.map_eq_some_iff.mp hs
    obtain ⟨hfree, rfl⟩ := lockBy_of_ne_destroyed hr (hmutex (by simp [hpc])).1
    obtain ⟨rfl, rfl⟩ := Prod.mk.inj hs
    exact .locks hpc hfree
  next hpc =>
    split at hs
    next hpos =>
      have hfinal : s.finalReport = false := by
        cases hm : s.main <;> simp [Shutdown.finalReport, hm]
        have hquiet := h.quiet (by rw [hm]; rfl)
        omega
      rw [hfinal] at hs
      obtain ⟨rfl, rfl⟩ := Prod.mk.inj (Option.some.inj hs)
      exact .prints hpc hpos
    next =>
      obtain ⟨rfl, rfl⟩ := Prod.mk.inj (Option.some.inj hs)
      exact .skips (.inl hpc)
  next hpc =>
    obtain ⟨r, hr, hs⟩ := Option.map_eq_some_iff.mp hs
    obtain ⟨hfree, rfl⟩ := lockBy_of_ne_destroyed hr ((hmutex (by simp [hpc])).2 (by rw [hpc]; rfl))
    obtain ⟨rfl, rfl⟩ := Prod.mk.inj hs
    exact .counts hpc hfree
  next hpc =>
    rw [unlockBy_held (h.execReporter.mpr hpc)] at hs
    obtain ⟨rfl, rfl⟩ := Prod.mk.inj (Option.some.inj hs)
    exact .counted hpc
  next hpc =>
    obtain ⟨rfl, rfl⟩ := Prod.mk.inj (Option.some.inj hs)
    exact .skips (.inr hpc)
  next hpc =>
    rw [unlockBy_held (h.intervalReporter.mpr (by rw [hpc]; rfl))] at hs
    obtain ⟨rfl, rfl⟩ := Prod.mk.inj (Option.some.inj hs)
    exact .unlocks hpc
  next => cases hs

/-- The reporting thread is cancelled where it sleeps. -/
theorem shutdownStep_reporterDies (h : ShutdownInv cfg s) (hs : s.reporterDies = some (o, s')) :
    ShutdownStep cfg s o s' := by
  obtain ⟨hcancel, hs⟩ := Option.ite_none_right_eq_some.mp hs
  have hquiet := (h.quiet (h.cancelsReporter hcancel)).2
  split at hs
  next hpc =>
    obtain ⟨rfl, rfl⟩ := Prod.mk.inj (Option.some.inj hs)
    exact .dies hpc hcancel
  next hpc => simp [hpc, ReporterPc.prints] at hquiet
  next hpc => simp [hpc, ReporterPc.prints] at hquiet
  next hpc => simp [hpc, ReporterPc.prints] at hquiet
  next => cases hs

/-- The steps of the checkpoints thread. -/
theorem shutdownStep_checkpoints {passed : Bool} (h : ShutdownInv cfg s)
    (hs : s.checkpointsStep passed = some (o, s')) : ShutdownStep cfg s o s' := by
  unfold Shutdown.checkpointsStep at hs
  split at hs
  next hpc =>
    obtain ⟨rfl, rfl⟩ := Prod.mk.inj (Option.some.inj hs)
    exact .ends hpc
  next hpc =>
    obtain ⟨rfl, rfl⟩ := Prod.mk.inj (Option.some.inj hs)
    exact .turns (by simp [hpc]) (by rw [hpc]; rfl) (by cases passed <;> rfl)
  next hpc =>
    obtain ⟨rfl, rfl⟩ := Prod.mk.inj (Option.some.inj hs)
    exact .turns (by simp [hpc]) (by rw [hpc]; rfl) rfl
  next hpc =>
    obtain ⟨r, hr, hs⟩ := Option.map_eq_some_iff.mp hs
    by_cases hgone : s.exec = .destroyed
    · have hfinal : s.finalReport = false := by
        have hm := h.execGone.mp hgone
        cases hpc : s.main <;> simp_all [Shutdown.finalReport, MainPc.execGone]
      rw [hgone] at hr
      obtain rfl := Option.some.inj hr
      rw [hfinal] at hs
      obtain ⟨rfl, rfl⟩ := Prod.mk.inj hs
      exact .locksGone hpc hgone
    · obtain ⟨hfree, rfl⟩ := lockBy_of_ne_destroyed hr hgone
      obtain ⟨rfl, rfl⟩ := Prod.mk.inj hs
      exact .locksExec hpc hfree
  next left hpc =>
    by_cases hgone : s.exec = .destroyed
    · rw [hgone] at hs
      obtain ⟨rfl, rfl⟩ := Prod.mk.inj (Option.some.inj hs)
      exact .unlocksGone hpc hgone
    · have hheld : s.exec = .held .checkpoints := by
        refine h.execCheckpoints.mpr ⟨by rw [hpc]; rfl, ?_⟩
        rw [h.execGone] at hgone
        simpa using hgone
      rw [unlockBy_held hheld] at hs
      obtain ⟨rfl, rfl⟩ := Prod.mk.inj (Option.some.inj hs)
      exact .unlocksExec hpc hheld
  next => cases hs

theorem shutdownStep_checkpointsDies (hs : s.checkpointsDies = some (o, s')) :
    ShutdownStep cfg s o s' := by
  obtain ⟨hcancel, hs⟩ := Option.ite_none_right_eq_some.mp hs
  split at hs
  next hpc =>
    obtain ⟨rfl, rfl⟩ := Prod.mk.inj (Option.some.inj hs)
    exact .turns (by simp [hpc]) (by rw [hpc]; rfl) rfl
  next hpc =>
    obtain ⟨rfl, rfl⟩ := Prod.mk.inj (Option.some.inj hs)
    exact .diesPrinting hpc hcancel
  next => cases hs

theorem shutdownStep_cases (h : ShutdownInv cfg s) (hs : shutdownStep cfg s m = some (o, s')) :
    ShutdownStep cfg s o s' := by
  cases m with
  | main => exact shutdownStep_main h hs
  | reporter => exact shutdownStep_reporter h hs
  | reporterDies => exact shutdownStep_reporterDies h hs
  | checkpoints passed => exact shutdownStep_checkpoints h hs
  | checkpointsDies => exact shutdownStep_checkpointsDies hs

/-- **Every step keeps who holds `report_interval_mutex`.** -/
theorem ShutdownInv.interval_step (h : ShutdownInv cfg s) (hs : ShutdownStep cfg s o s') :
    (s'.interval = .held .main ↔ s'.main = .silencing) ∧
      (s'.interval = .held .reporter ↔ s'.reporter.holds = true) ∧
      s'.interval ≠ .held .checkpoints ∧
      (s'.interval = .destroyed ↔ s'.main.intervalGone = true) := by
  have hmain := h.intervalMain
  have hreporter := h.intervalReporter
  have hother := h.intervalOther
  have hgone := h.intervalGone
  have hjoined := h.joined
  cases hs with
  | skipsFinal hpc => rcases hpc with hpc | hpc <;> simp_all [MainPc.intervalGone]
  | skips hpc => rcases hpc with hpc | hpc <;> simp_all [ReporterPc.holds]
  | _ => simp_all [MainPc.intervalGone, ReporterPc.holds, MainPc.joined]

/-- **Every step keeps who holds the execution mutex.** -/
theorem ShutdownInv.exec_step (h : ShutdownInv cfg s) (hs : ShutdownStep cfg s o s') :
    s'.exec ≠ .held .main ∧ (s'.exec = .held .reporter ↔ s'.reporter = .counting) ∧
      (s'.exec = .held .checkpoints ↔
        s'.checkpoints.prints = true ∧ s'.main.execGone = false) ∧
      (s'.exec = .destroyed ↔ s'.main.execGone = true) := by
  have hmain := h.execMain
  have hreporter := h.execReporter
  have hcheckpoints := h.execCheckpoints
  have hgone := h.execGone
  cases hs with
  | skipsFinal hpc => rcases hpc with hpc | hpc <;> simp_all [MainPc.execGone]
  | skips hpc => rcases hpc with hpc | hpc <;> simp_all
  | destroysExec hpc =>
    have hquiet := (h.quiet (by rw [hpc]; rfl)).2
    have hne : s.reporter ≠ .counting := fun hc => by simp [hc, ReporterPc.prints] at hquiet
    simp_all [MainPc.execGone]
  | diesPrinting hpc hcancel =>
    have hpast := MainPc.execGone_of_intervalGone (h.cancelsCheckpoints hcancel)
    simp_all [CheckpointsPc.prints]
  | _ => simp_all [MainPc.execGone, CheckpointsPc.prints]

theorem ShutdownInv.quiet_step (h : ShutdownInv cfg s) (hs : ShutdownStep cfg s o s')
    (hpc' : s'.main.silenced = true) : s'.reportInterval = 0 ∧ s'.reporter.prints = false := by
  have hquiet := h.quiet
  have hmain := h.intervalMain
  have hreporter := h.intervalReporter
  cases hs with
  | skipsFinal hpc => rcases hpc with hpc | hpc <;> simp_all [MainPc.silenced]
  | skips hpc => rcases hpc with hpc | hpc <;> simp_all [ReporterPc.prints]
  | silences hpc =>
    -- the mutex is the main thread's, so the reporting thread is not printing
    refine ⟨rfl, ?_⟩
    have hheld := hmain.mpr hpc
    cases hr : s.reporter <;> simp_all [ReporterPc.prints, ReporterPc.holds]
  | _ => simp_all [MainPc.silenced, ReporterPc.prints]

/-- **Every step keeps the order of the main thread's steps.** -/
theorem ShutdownInv.order_step (h : ShutdownInv cfg s) (hs : ShutdownStep cfg s o s') :
    (s'.main.joined = true → s'.reporter = .dead) ∧
      (∀ res, s'.main = .returned res → s'.checkpoints = .dead) ∧
      (s'.cancelsReporter = true → s'.main.silenced = true) ∧
      (s'.cancelsCheckpoints = true → s'.main.intervalGone = true) ∧
      (s'.main.cleaned = true → cfg.cleanupOk = true) ∧
      (s'.checkpoints ≠ .dead → 0 < cfg.nCheckpoints ∧ cfg.hasPrintStats = true) := by
  have hjoined := h.joined
  have hended := h.ended
  have hreporter := h.cancelsReporter
  have hcheckpoints := h.cancelsCheckpoints
  have hcleaned := h.cleaned
  have hcreated := h.created
  cases hs with
  | skipsFinal hpc => rcases hpc with hpc | hpc <;>
      simp_all [MainPc.joined, MainPc.silenced, MainPc.intervalGone, MainPc.cleaned]
  | skips hpc => rcases hpc with hpc | hpc <;> simp_all
  | _ => simp_all [MainPc.joined, MainPc.silenced, MainPc.intervalGone, MainPc.cleaned]

theorem ShutdownInv.step (h : ShutdownInv cfg s) (hs : shutdownStep cfg s m = some (o, s')) :
    ShutdownInv cfg s' := by
  have hcases := shutdownStep_cases h hs
  obtain ⟨i1, i2, i3, i4⟩ := h.interval_step hcases
  obtain ⟨e1, e2, e3, e4⟩ := h.exec_step hcases
  obtain ⟨m1, m2, m3, m4, m5, m6⟩ := h.order_step hcases
  exact ⟨i1, i2, i3, i4, e1, e2, e3, e4, h.quiet_step hcases, m1, m2, m3, m4, m5, m6⟩

variable {outs : List ShutdownObs}

theorem shutdownInv_of_trace (h : Trace (shutdownStep cfg) (startShutdown cfg) outs s) :
    ShutdownInv cfg s :=
  h.invariant (fun _ => ShutdownInv cfg) (shutdownInv_start cfg) fun _ _ _ _ _ hI hs => hI.step hs

/-! ## The reporting thread -/

theorem ShutdownStep.ne_reporter (hs : ShutdownStep cfg s o s') (f : Fault) :
    o ≠ some (.reporter, f) := by
  cases hs with
  | printsFinal => split <;> simp
  | destroysExec => cases s.exec <;> simp [destroy]
  | locksExec => split <;> simp
  | _ => simp

/-- **Silencing the reporting thread and killing it late is enough for it**: in every interleaving
it never touches a destroyed mutex, leaves no mutex behind and prints nothing into the final report;
and when `run_test` returns at its end, not after a `cleanup` that failed, both threads have ended.
-/
theorem reporter_blameless (h : Trace (shutdownStep cfg) (startShutdown cfg) outs s) :
    (∀ o ∈ outs, ∀ f, o ≠ some (.reporter, f)) ∧
      ∀ res, s.main = .returned res → s.reporter = .dead ∧ s.checkpoints = .dead := by
  have hinv := shutdownInv_of_trace h
  refine ⟨?_, fun res hpc => ⟨hinv.joined (by rw [hpc]; rfl), hinv.ended res hpc⟩⟩
  refine (h.invariant (fun outs s => ShutdownInv cfg s ∧ ∀ o ∈ outs, ∀ f, o ≠ some (.reporter, f))
    ⟨shutdownInv_start cfg, by simp⟩ ?_).2
  intro outs s m o s' ⟨hI, hall⟩ hs
  refine ⟨hI.step hs, fun o' ho' => ?_⟩
  rcases List.mem_append.mp ho' with ho' | ho'
  · exact hall o' ho'
  · rw [List.mem_singleton.mp ho']
    exact (shutdownStep_cases hI hs).ne_reporter

/-- The reporting thread sleeps while the main thread finishes, and dies when it is cancelled. -/
def quietEnd : List ShutdownMove :=
  [.main, .main, .main, .main, .main, .main, .main, .main, .reporterDies, .main, .main, .main,
    .main]

theorem reporter_blameless_quietEnd :
    ∃ outs s, Trace (shutdownStep ⟨10, 0, true, false, true⟩)
        (startShutdown ⟨10, 0, true, false, true⟩) outs s ∧
      s.main = .returned 0 ∧ s.reporter = .dead ∧ s.checkpoints = .dead := by
  have h : Trace.play (shutdownStep ⟨10, 0, true, false, true⟩)
      (startShutdown ⟨10, 0, true, false, true⟩) quietEnd = some (_, _) := rfl
  have htrace := Trace.of_play h
  exact ⟨_, _, htrace, rfl, (reporter_blameless htrace).2 0 rfl⟩

/-! ## The checkpoints thread -/

/-- The checkpoints thread has nothing to do with the end of the run. -/
def NoCheckpointsAtEnd (cfg : ShutdownConfig) : Prop :=
  cfg.nCheckpoints = 0 ∨ cfg.hasPrintStats = false ∨ cfg.cleanupOk = false

theorem ShutdownInv.dead_of_cleaned (h : ShutdownInv cfg s) (hsafe : NoCheckpointsAtEnd cfg)
    (hpc : s.main.cleaned = true) : s.checkpoints = .dead := by
  by_contra halive
  obtain ⟨hpos, hstats⟩ := h.created halive
  have hok := h.cleaned hpc
  rcases hsafe with hzero | hnone | hfail
  · omega
  · simp [hnone] at hstats
  · simp [hfail] at hok

theorem ShutdownStep.eq_none (hs : ShutdownStep cfg s o s') (h : ShutdownInv cfg s)
    (hsafe : NoCheckpointsAtEnd cfg) : o = none := by
  have hdead := h.dead_of_cleaned hsafe
  cases hs with
  | printsFinal hpc =>
    have hquiet := (h.quiet (by rw [hpc]; rfl)).2
    have hfree : s.reports = false := by
      cases hr : s.reporter <;>
        simp_all [Shutdown.reports, ReporterPc.prints, MainPc.cleaned]
    simp [hfree]
  | destroysExec hpc =>
    have hquiet := (h.quiet (by rw [hpc]; rfl)).2
    cases he : s.exec with
    | free => rfl
    | destroyed => rfl
    | held p =>
      cases p with
      | main => exact (h.execMain he).elim
      | reporter => simp [h.execReporter.mp he, ReporterPc.prints] at hquiet
      | checkpoints =>
        have hprints := (h.execCheckpoints.mp he).1
        simp [hdead (by rw [hpc]; rfl), CheckpointsPc.prints] at hprints
  | locksExec hpc hfree =>
    have hfinal : s.finalReport = false := by
      cases hm : s.main <;> simp_all [Shutdown.finalReport, MainPc.cleaned]
    simp [hfinal]
  | locksGone hpc hgone =>
    simp [hdead (MainPc.cleaned_of_execGone (h.execGone.mp hgone))] at hpc
  | unlocksGone hpc hgone =>
    simp [hdead (MainPc.cleaned_of_execGone (h.execGone.mp hgone))] at hpc
  | diesPrinting hpc hcancel =>
    have hpast := MainPc.execGone_of_intervalGone (h.cancelsCheckpoints hcancel)
    simp [hdead (MainPc.cleaned_of_execGone hpast)] at hpc
  | _ => rfl

/-- The checkpoints thread is about to lock the execution mutex, and the main thread has destroyed
it. -/
def checkpointDue (cfg : ShutdownConfig) (left : ℕ) : Shutdown :=
  ⟨.free, .destroyed, 0, false, false, .done, (startShutdown cfg).reporter, .locking left⟩

theorem exists_trace_checkpointDue (reportInterval left : ℕ) (error : Bool) :
    ∃ outs, Trace (shutdownStep ⟨reportInterval, left + 1, true, error, true⟩)
      (startShutdown ⟨reportInterval, left + 1, true, error, true⟩) outs
      (checkpointDue ⟨reportInterval, left + 1, true, error, true⟩ left) := by
  have hstart : Trace (shutdownStep ⟨reportInterval, left + 1, true, error, true⟩)
      (startShutdown ⟨reportInterval, left + 1, true, error, true⟩) [] _ := Trace.nil
  have hsleeps := hstart.snoc (i := .checkpoints false) rfl
  have hdue := hsleeps.snoc (i := .checkpoints false) rfl
  have hlocks := hdue.snoc (i := .main) rfl
  have hsilences := hlocks.snoc (i := .main) rfl
  have hcleans := hsilences.snoc (i := .main) rfl
  cases error with
  | true =>
    have hskips := hcleans.snoc (i := .main) rfl
    exact ⟨_, hskips.snoc (i := .main) rfl⟩
  | false =>
    have hprints := hcleans.snoc (i := .main) rfl
    have hprinted := hprints.snoc (i := .main) rfl
    exact ⟨_, hprinted.snoc (i := .main) rfl⟩

/-- **The end of a run is free of faults, in every interleaving, exactly when no checkpoints thread
is there to see it**: the thread was not created or has nothing to print, or `cleanup` fails and
`run_test` returns at once. -/
theorem shutdown_blameless_iff (cfg : ShutdownConfig) :
    (∀ outs s, Trace (shutdownStep cfg) (startShutdown cfg) outs s → ∀ o ∈ outs, o = none) ↔
      NoCheckpointsAtEnd cfg := by
  refine ⟨fun hall => ?_, fun hsafe outs s h => ?_⟩
  · obtain ⟨reportInterval, nCheckpoints, hasPrintStats, error, cleanupOk⟩ := cfg
    by_contra hunsafe
    simp only [NoCheckpointsAtEnd, not_or, Bool.not_eq_false] at hunsafe
    obtain ⟨hpos, rfl, rfl⟩ := hunsafe
    obtain ⟨left, rfl⟩ := Nat.exists_eq_succ_of_ne_zero hpos
    obtain ⟨outs, h⟩ := exists_trace_checkpointDue reportInterval left error
    have hlock := h.snoc (i := .checkpoints false) rfl
    have hnone := hall _ _ hlock _ (List.mem_append_right _ (List.mem_singleton_self _))
    cases hnone
  · refine (h.invariant (fun outs s => ShutdownInv cfg s ∧ ∀ o ∈ outs, o = none)
      ⟨shutdownInv_start cfg, by simp⟩ ?_).2
    intro outs s m o s' ⟨hI, hall⟩ hs
    refine ⟨hI.step hs, fun o' ho' => ?_⟩
    rcases List.mem_append.mp ho' with ho' | ho'
    · exact hall o' ho'
    · rw [List.mem_singleton.mp ho']
      exact (shutdownStep_cases hI hs).eq_none hI hsafe

end Sysbench.Threads
