import Mathlib.Data.BitVec
import Sysbench.Machinery.Traces

/-!
# Logging/OperHandler — the timers of the operations and the reports made from them

Each thread has a timer.  A start message starts it, a stop message stops it and adds the elapsed
time to it, both under `timers_mutex`; the stop message then adds the time to the histogram of the
percentiles, under that structure's own mutex.  `print_global_stats` copies all timers, resets them,
computes the percentile and resets the histogram while it holds `timers_mutex`, and merges and
prints the copies after it has released it.  All counts are `unsigned long long`.
-/

namespace Sysbench.Logging

/-- `unsigned long long`. -/
abbrev U64 : Type := BitVec 64

/-! ## Timers -/

/-- `timer_state_t`. -/
inductive TimerState
  | uninitialized
  | initialized
  | stopped
  | running
  deriving DecidableEq, Repr

/-- `sb_timer_t`.  A `struct timespec` is its number of nanoseconds. -/
structure Timer where
  timeStart : ℤ
  timeEnd : ℤ
  timeSplit : ℤ
  elapsed : U64
  minTime : U64
  maxTime : U64
  sumTime : U64
  events : U64
  queueTime : U64
  state : TimerState
  deriving DecidableEq

/-- `TIMESPEC_DIFF`. -/
def timespecDiff (a b : ℤ) : U64 := BitVec.ofInt 64 (a - b)

/-- `sb_timer_update`, at time `now`. -/
def sbTimerUpdate (t : Timer) (now : ℤ) : Timer :=
  { t with timeEnd := now, elapsed := timespecDiff now t.timeStart + t.queueTime }

/-- `sb_timer_reset`: the counters, not the state. -/
def sbTimerReset (t : Timer) : Timer :=
  { t with minTime := BitVec.allOnes 64, maxTime := 0, sumTime := 0, events := 0, elapsed := 0,
           queueTime := 0 }

/-- `sb_timer_init`. -/
def sbTimerInit (t : Timer) : Timer :=
  { sbTimerReset { t with timeStart := 0, timeEnd := 0, timeSplit := 0 } with
      state := .initialized }

/-- `sb_timer_running`. -/
def sbTimerRunning (t : Timer) : Bool := t.state = .running

/-- `sb_timer_start`; a running timer is started again with a warning, an uninitialized one
aborts. -/
def sbTimerStart (t : Timer) (now : ℤ) : Option Timer :=
  if t.state = .uninitialized then none
  else some { t with timeStart := now, timeSplit := now, state := .running }

/-- What `sb_timer_stop` does to a timer that is initialized. -/
def Timer.finish (t : Timer) (now : ℤ) : Timer :=
  let t := sbTimerUpdate t now
  { t with
    events := t.events + 1
    sumTime := t.sumTime + t.elapsed
    minTime := if t.elapsed < t.minTime then t.elapsed else t.minTime
    maxTime := if t.elapsed > t.maxTime then t.elapsed else t.maxTime
    state := .stopped }

/-- `sb_timer_stop`; only an uninitialized timer aborts. -/
def sbTimerStop (t : Timer) (now : ℤ) : Option Timer :=
  if t.state = .uninitialized then none else some (t.finish now)

/-- `sb_timer_value`, with the timer it leaves. -/
def sbTimerValue (t : Timer) (now : ℤ) : Option (U64 × Timer) :=
  match t.state with
  | .initialized => some (0, t)
  | .stopped => some (t.elapsed, t)
  | .running => some ((sbTimerUpdate t now).elapsed, sbTimerUpdate t now)
  | .uninitialized => none

/-- A worker has taken an event from the queue, where it had waited for `time`. -/
def Timer.setQueueTime (t : Timer) (time : U64) : Timer := { t with queueTime := time }

/-- `sb_timer_split`, with the timer it leaves. -/
def sbTimerSplit (t : Timer) (now : ℤ) : Option (U64 × Timer) :=
  match t.state with
  | .initialized => some (0, t)
  | .stopped => some (timespecDiff t.timeEnd t.timeSplit, { t with timeSplit := t.timeEnd })
  | .running =>
    some (timespecDiff now t.timeSplit,
      { t with elapsed := timespecDiff now t.timeStart, timeSplit := now })
  | .uninitialized => none

/-- `merge_timers`: the other fields are cleared. -/
def mergeTimers (t₁ t₂ : Timer) : Timer where
  timeStart := 0
  timeEnd := 0
  timeSplit := 0
  elapsed := t₁.elapsed + t₂.elapsed
  minTime := if t₁.minTime < t₂.minTime then t₁.minTime else t₂.minTime
  maxTime := if t₁.maxTime > t₂.maxTime then t₁.maxTime else t₂.maxTime
  sumTime := t₁.sumTime + t₂.sumTime
  events := t₁.events + t₂.events
  queueTime := 0
  state := .uninitialized

/-- `get_avg_time`. -/
def getAvgTime (t : Timer) : U64 := if t.events = 0 then 0 else t.sumTime / t.events

/-- A timer whose memory is all zero. -/
def blankTimer : Timer := ⟨0, 0, 0, 0, 0, 0, 0, 0, 0, .uninitialized⟩

/-! ## The histogram -/

/-- The counters of `sb_percentile_t`. -/
structure Percentile where
  total : U64
  values : ℕ → U64

/-- What the floating-point part of `sb_percentile.c` decides: the bucket of a value, and of a
total the rank `nmax` to be reached. -/
structure Scale where
  size : ℕ
  bucket : U64 → ℕ
  rank : U64 → U64

/-- `sb_percentile_update`. -/
def sbPercentileUpdate (scale : Scale) (p : Percentile) (value : U64) : Percentile :=
  let b := scale.bucket value
  ⟨p.total + 1, Function.update p.values b (p.values b + 1)⟩

/-- The loop of `sb_percentile_calculate`: the first bucket at which `nmax` is reached. -/
def rankBucket (values : ℕ → U64) (nmax : U64) : (fuel i : ℕ) → (ncur : U64) → ℕ
  | 0, i, _ => i
  | fuel + 1, i, ncur =>
    if nmax ≤ ncur + values i then i else rankBucket values nmax fuel (i + 1) (ncur + values i)

/-- `sb_percentile_calculate`: the bucket whose value is returned, none where nothing was
counted. -/
def sbPercentileCalculate (scale : Scale) (p : Percentile) : Option ℕ :=
  if p.total = 0 then none
  else some (rankBucket p.values (scale.rank p.total) (scale.size - 1) 1 (p.values 0))

/-- `sb_percentile_reset`. -/
def sbPercentileReset : Percentile := ⟨0, fun _ => 0⟩

/-! ## The handler -/

/-- Where a call of `print_global_stats` is: not in one, holding `timers_mutex` with the timers
copied and reset, with the percentile computed, or past `timers_mutex` with the copies to be
merged. -/
inductive Stage
  | idle
  | copied (totalTimeNs : U64)
  | calculated (totalTimeNs : U64) (percentileVal : Option ℕ)
  | released (totalTimeNs : U64) (percentileVal : Option ℕ)

/-- The call holds `timers_mutex`. -/
def Stage.holdsMutex : Stage → Bool
  | .copied _ | .calculated _ _ => true
  | .idle | .released _ _ => false

/-- The statistics of the operations.  `stopping t` is the value a stop message of thread `t` has
taken from its timer and not yet added to the histogram. -/
structure OperStats where
  timers : ℕ → Timer
  timersCopy : ℕ → Timer
  percentile : Percentile
  cumulativeTimer2 : Timer
  forcedShutdownInProgress : Bool
  stopping : ℕ → Option U64
  stage : Stage

/-- After `oper_handler_init` and the start of the test. -/
def operHandlerInit (now : ℤ) : OperStats where
  timers _ := sbTimerInit blankTimer
  timersCopy _ := blankTimer
  percentile := sbPercentileReset
  cumulativeTimer2 := { sbTimerInit blankTimer with timeStart := now, timeSplit := now,
                                                    state := .running }
  forcedShutdownInProgress := false
  stopping _ := none
  stage := .idle

/-- One atomic step: a worker stores the queue time of its event, sends a start message, takes the
section of a stop message under `timers_mutex` or the one under the mutex of the histogram; a
report copies, calculates, resets and releases, or prints; the time limit forces the shutdown. -/
inductive OperMove
  | queue (t : ℕ) (time : U64)
  | start (t : ℕ) (now : ℤ)
  | stop (t : ℕ) (now : ℤ)
  | updatePercentile (t : ℕ)
  | copyTimers (now : ℤ)
  | calculate
  | resetPercentile
  | print (now : ℕ → ℤ)
  | forceShutdown

/-- The section of a stop message under `timers_mutex`. -/
def OperStats.stop (s : OperStats) (t : ℕ) (now : ℤ) : Option OperStats :=
  (sbTimerStop (s.timers t) now).bind fun timer =>
    (sbTimerValue timer now).map fun (value, timer) =>
      { s with timers := Function.update s.timers t timer,
               stopping := Function.update s.stopping t (some value) }

/-- The copy of thread `i` as a report merges it: on a forced shutdown running timers are
stopped. -/
def OperStats.merged (s : OperStats) (now : ℕ → ℤ) (i : ℕ) : Timer :=
  if s.forcedShutdownInProgress ∧ sbTimerRunning (s.timersCopy i) then
    (s.timersCopy i).finish (now i)
  else s.timersCopy i

/-- One step of a run with `n` threads. -/
def operMove (scale : Scale) (n : ℕ) (s : OperStats) : OperMove → Option OperStats
  | .queue t time =>
    if t < n ∧ s.stopping t = none then
      some { s with timers := Function.update s.timers t (s.timers t |>.setQueueTime time) }
    else none
  | .start t now =>
    if (t < n ∧ s.stopping t = none) ∧ s.stage.holdsMutex = false then
      (sbTimerStart (s.timers t) now).map fun timer =>
        { s with timers := Function.update s.timers t timer }
    else none
  | .stop t now =>
    if (t < n ∧ s.stopping t = none) ∧ s.stage.holdsMutex = false then s.stop t now else none
  | .updatePercentile t =>
    if t < n then
      (s.stopping t).map fun value =>
        { s with percentile := sbPercentileUpdate scale s.percentile value,
                 stopping := Function.update s.stopping t none }
    else none
  | .copyTimers now =>
    match s.stage with
    | .idle =>
      (sbTimerSplit s.cumulativeTimer2 now).map fun (totalTimeNs, timer2) =>
        { s with timersCopy := s.timers, timers := fun i => sbTimerReset (s.timers i),
                 cumulativeTimer2 := timer2, stage := .copied totalTimeNs }
    | _ => none
  | .calculate =>
    match s.stage with
    | .copied totalTimeNs =>
      some { s with stage := .calculated totalTimeNs (sbPercentileCalculate scale s.percentile) }
    | _ => none
  | .resetPercentile =>
    match s.stage with
    | .calculated totalTimeNs percentileVal =>
      some { s with percentile := sbPercentileReset,
                    stage := .released totalTimeNs percentileVal }
    | _ => none
  | .print now =>
    match s.stage with
    | .released _ _ => some { s with timersCopy := s.merged now, stage := .idle }
    | _ => none
  | .forceShutdown => some { s with forcedShutdownInProgress := true }

/-- What a report prints: the merged timer `t` with its event count and times, the average time, the
total time, the percentile, and the operations found running on a forced shutdown, with their
times. -/
structure Report where
  t : Timer
  avgTime : U64
  totalTimeNs : U64
  percentileVal : Option ℕ
  unfinished : List U64

/-- `t`, after merging the first `n` timers into it. -/
def mergeAll (timers : ℕ → Timer) (n : ℕ) : Timer :=
  (List.range n).foldl (fun t i => mergeTimers t (timers i)) (sbTimerInit blankTimer)

/-- The times of the operations a report finds running, where it stops them. -/
def OperStats.unfinished (n : ℕ) (s : OperStats) (now : ℕ → ℤ) : List U64 :=
  if s.forcedShutdownInProgress then
    ((List.range n).filter fun i => sbTimerRunning (s.timersCopy i)).map fun i =>
      ((s.timersCopy i).finish (now i)).elapsed
  else []

/-- The report a step prints. -/
def printed (n : ℕ) (e : OperStats × OperMove) : Option Report :=
  match e.2, e.1.stage with
  | .print now, .released totalTimeNs percentileVal =>
    let t := mergeAll (e.1.merged now) n
    some ⟨t, getAvgTime t, totalTimeNs, percentileVal, e.1.unfinished n now⟩
  | _, _ => none

/-- The elapsed time a stop message records. -/
def stopTime (e : OperStats × OperMove) : Option U64 :=
  match e.2 with
  | .stop t now => some ((e.1.timers t).finish now).elapsed
  | _ => none

/-! ## What a step can do -/

/-- What a timer has counted: its events and their time. -/
def Timer.counted (t : Timer) : U64 × U64 := (t.events, t.sumTime)

@[simp] theorem counted_reset (t : Timer) : (sbTimerReset t).counted = 0 := rfl

@[simp] theorem counted_setQueueTime (t : Timer) (time : U64) :
    (t.setQueueTime time).counted = t.counted := rfl

@[simp] theorem counted_finish (t : Timer) (now : ℤ) :
    (t.finish now).counted = t.counted + (1, (t.finish now).elapsed) := rfl

@[simp] theorem counted_mergeTimers (t₁ t₂ : Timer) :
    (mergeTimers t₁ t₂).counted = t₁.counted + t₂.counted := rfl

theorem counted_start {t t' : Timer} {now : ℤ} (h : sbTimerStart t now = some t') :
    t'.counted = t.counted := by
  unfold sbTimerStart at h
  split_ifs at h
  obtain rfl := Option.some.inj h
  rfl

/-- The section of a stop message records the elapsed time and keeps it for the histogram. -/
theorem stop_eq {s s' : OperStats} {t : ℕ} {now : ℤ} (h : s.stop t now = some s') :
    s' = { s with
      timers := Function.update s.timers t ((s.timers t).finish now)
      stopping := Function.update s.stopping t (some ((s.timers t).finish now).elapsed) } := by
  obtain ⟨timer, hstop, h⟩ := Option.bind_eq_some_iff.mp h
  unfold sbTimerStop at hstop
  split_ifs at hstop
  obtain rfl := Option.some.inj hstop
  obtain ⟨p, hvalue, rfl⟩ := Option.map_eq_some_iff.mp h
  obtain rfl := Option.some.inj hvalue
  rfl

/-- **The steps**, each with what it needs of the state before it. -/
inductive OperStep (scale : Scale) (n : ℕ) (s : OperStats) : OperMove → OperStats → Prop
  | queue {t : ℕ} {time : U64} (ht : t < n) :
      OperStep scale n s (.queue t time)
        { s with timers := Function.update s.timers t ((s.timers t).setQueueTime time) }
  | start {t : ℕ} {now : ℤ} {timer : Timer} (ht : t < n)
      (hcounted : timer.counted = (s.timers t).counted) :
      OperStep scale n s (.start t now) { s with timers := Function.update s.timers t timer }
  | stop {t : ℕ} {now : ℤ} (ht : t < n) (hnone : s.stopping t = none)
      (hfree : s.stage.holdsMutex = false) :
      OperStep scale n s (.stop t now) { s with
        timers := Function.update s.timers t ((s.timers t).finish now)
        stopping := Function.update s.stopping t (some ((s.timers t).finish now).elapsed) }
  | updatePercentile {t : ℕ} {value : U64} (ht : t < n) (hvalue : s.stopping t = some value) :
      OperStep scale n s (.updatePercentile t) { s with
        percentile := sbPercentileUpdate scale s.percentile value
        stopping := Function.update s.stopping t none }
  | copyTimers {now : ℤ} {totalTimeNs : U64} {timer2 : Timer} (hidle : s.stage = .idle) :
      OperStep scale n s (.copyTimers now) { s with
        timersCopy := s.timers
        timers := fun i => sbTimerReset (s.timers i)
        cumulativeTimer2 := timer2
        stage := .copied totalTimeNs }
  | calculate {totalTimeNs : U64} {percentileVal : Option ℕ}
      (hcopied : s.stage = .copied totalTimeNs) :
      OperStep scale n s .calculate { s with stage := .calculated totalTimeNs percentileVal }
  | resetPercentile {totalTimeNs : U64} {percentileVal : Option ℕ}
      (hcalc : s.stage = .calculated totalTimeNs percentileVal) :
      OperStep scale n s .resetPercentile { s with
        percentile := sbPercentileReset
        stage := .released totalTimeNs percentileVal }
  | print {now : ℕ → ℤ} {totalTimeNs : U64} {percentileVal : Option ℕ}
      (hrel : s.stage = .released totalTimeNs percentileVal) :
      OperStep scale n s (.print now) { s with timersCopy := s.merged now, stage := .idle }
  | forceShutdown :
      OperStep scale n s .forceShutdown { s with forcedShutdownInProgress := true }

theorem operStep_of_operMove {scale : Scale} {n : ℕ} {s s' : OperStats} {i : OperMove}
    (h : operMove scale n s i = some s') : OperStep scale n s i s' := by
  cases i with
  | queue t time =>
    simp only [operMove] at h
    split_ifs at h with hok
    obtain rfl := Option.some.inj h
    exact .queue hok.1
  | start t now =>
    simp only [operMove] at h
    split_ifs at h with hok
    obtain ⟨timer, hstart, rfl⟩ := Option.map_eq_some_iff.mp h
    exact .start hok.1.1 (counted_start hstart)
  | stop t now =>
    simp only [operMove] at h
    split_ifs at h with hok
    obtain rfl := stop_eq h
    exact .stop hok.1.1 hok.1.2 hok.2
  | updatePercentile t =>
    simp only [operMove] at h
    split_ifs at h with ht
    obtain ⟨value, hvalue, rfl⟩ := Option.map_eq_some_iff.mp h
    exact .updatePercentile ht hvalue
  | copyTimers now =>
    simp only [operMove] at h
    split at h
    · rename_i hidle
      obtain ⟨p, -, rfl⟩ := Option.map_eq_some_iff.mp h
      exact .copyTimers hidle
    · cases h
  | calculate =>
    simp only [operMove] at h
    split at h
    · rename_i hcopied
      obtain rfl := Option.some.inj h
      exact .calculate hcopied
    · cases h
  | resetPercentile =>
    simp only [operMove] at h
    split at h
    · rename_i hcalc
      obtain rfl := Option.some.inj h
      exact .resetPercentile hcalc
    · cases h
  | print now =>
    simp only [operMove] at h
    split at h
    · rename_i hrel
      obtain rfl := Option.some.inj h
      exact .print hrel
    · cases h
  | forceShutdown =>
    obtain rfl := Option.some.inj h
    exact .forceShutdown

end Sysbench.Logging
