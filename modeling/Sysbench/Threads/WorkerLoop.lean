import Sysbench.Logging.OperHandler

/-!
# Threads/WorkerLoop — the loop of a worker, its requests and its timer

Without `--tx-rate` a worker asks for a request, executes it and decides at the end of the loop
whether to go on; all workers share the counter of requests and the error flag.  In the Lua and the
cpu test the limit is tested in one step and the request counted in another; the threads test does
both under its mutex.  `sb_lua_op_execute_request` starts the timer once, calls `event()` until it
does not ask for a restart, and stops the timer if it succeeded.

`LoopStep` is all a worker can do.  Two things follow for every run: the timers have one operation
for each request that succeeded, from its first attempt on (`TimerInv`), and once the flag is set
each worker has at most one more request ahead of it (`startsLeft`).
-/

namespace Sysbench.Threads

open Logging

/-- Where a worker is in its loop; `finished` is the end of its body, with whether it was given the
null request. -/
inductive WorkerPhase
  | top
  | tested
  | granted
  | running
  | finished (null : Bool)
  | stopped
  deriving DecidableEq, Repr

/-- The counter of requests, `sb_globals.error`, and of each worker where it is and its timer. -/
structure Loop where
  counter : ℕ
  error : Bool
  phase : ℕ → WorkerPhase
  timer : ℕ → Timer

/-- How a call of `event()` ends: it asks for a restart, it succeeds, or it fails with any other
error. -/
inductive EventOutcome
  | restart
  | success (now : ℤ)
  | failure
  deriving DecidableEq

/-- One step of a worker. -/
inductive LoopAction
  | test
  | count
  | start (now : ℤ)
  | attempt (o : EventOutcome)
  | check (timeUp : Bool)
  deriving DecidableEq

/-- A step, and whose it is. -/
structure LoopMove where
  worker : ℕ
  action : LoopAction
  deriving DecidableEq

/-- The number of workers, `--max-requests`, and whether `get_request` holds a mutex. -/
structure LoopConfig where
  workers : ℕ
  maxRequests : ℕ
  locked : Bool

/-- Worker `i` is in phase `w`. -/
def Loop.put (s : Loop) (i : ℕ) (w : WorkerPhase) : Loop :=
  { s with phase := Function.update s.phase i w }

/-- One more request; the counter is an `unsigned int`. -/
def Loop.countRequest (s : Loop) : Loop := { s with counter := (s.counter + 1) % 2 ^ 32 }

/-- The timer of worker `i`. -/
def Loop.putTimer (s : Loop) (i : ℕ) (t : Timer) : Loop :=
  { s with timer := Function.update s.timer i t }

section Put

variable (s : Loop) (i : ℕ) (w : WorkerPhase) (t : Timer)

@[simp] theorem Loop.put_counter : (s.put i w).counter = s.counter := rfl
@[simp] theorem Loop.put_error : (s.put i w).error = s.error := rfl
@[simp] theorem Loop.put_timer : (s.put i w).timer = s.timer := rfl
@[simp] theorem Loop.put_phase : (s.put i w).phase = Function.update s.phase i w := rfl
@[simp] theorem Loop.countRequest_error : s.countRequest.error = s.error := rfl
@[simp] theorem Loop.countRequest_phase : s.countRequest.phase = s.phase := rfl
@[simp] theorem Loop.countRequest_timer : s.countRequest.timer = s.timer := rfl
@[simp] theorem Loop.putTimer_counter : (s.putTimer i t).counter = s.counter := rfl
@[simp] theorem Loop.putTimer_error : (s.putTimer i t).error = s.error := rfl
@[simp] theorem Loop.putTimer_phase : (s.putTimer i t).phase = s.phase := rfl
@[simp] theorem Loop.putTimer_timer : (s.putTimer i t).timer = Function.update s.timer i t := rfl

end Put

variable (cfg : LoopConfig)

/-- The test of `get_request`: the limit is reached. -/
def limitReached (s : Loop) : Bool := cfg.maxRequests ≠ 0 && cfg.maxRequests ≤ s.counter

/-- A step of `worker_thread`, with `sb_lua_get_request` (`cpu_get_request`, and locked
`threads_get_request`) and `sb_lua_op_execute_request`.  An event that fails sets the flag, and the
worker breaks out of the loop. -/
def loopMove (s : Loop) (m : LoopMove) : Option Loop :=
  if m.worker < cfg.workers then
    match s.phase m.worker, m.action with
    | .top, .test =>
      if limitReached cfg s then some (s.put m.worker (.finished true))
      else if cfg.locked then some (s.countRequest.put m.worker .granted)
      else some (s.put m.worker .tested)
    | .tested, .count => some (s.countRequest.put m.worker .granted)
    | .granted, .start now =>
      (sbTimerStart (s.timer m.worker) now).map fun t =>
        (s.putTimer m.worker t).put m.worker .running
    | .running, .attempt .restart => some s
    | .running, .attempt (.success now) =>
      (sbTimerStop (s.timer m.worker) now).map fun t =>
        (s.putTimer m.worker t).put m.worker (.finished false)
    | .running, .attempt .failure => some ({ s with error := true }.put m.worker .stopped)
    | .finished null, .check timeUp =>
      some (s.put m.worker (if timeUp || null || s.error then .stopped else .top))
    | _, _ => none
  else none

/-- All workers at the top of their loops. -/
def startLoop (timer : ℕ → Timer) : Loop := ⟨0, false, fun _ => .top, timer⟩

/-- What `run_test` returns once it has joined the workers; `cleanup` is what `test->ops.cleanup`
returned, if there is one. -/
def runTest (s : Loop) (cleanup : Option ℤ) : ℕ :=
  if cleanup.any (· ≠ 0) then 1 else if s.error then 1 else 0

/-! ## What a step can do -/

/-- **The steps of a worker**, one by one. -/
inductive LoopStep (s : Loop) (i : ℕ) : LoopAction → Loop → Prop
  | null (hphase : s.phase i = .top) (hlimit : limitReached cfg s = true) :
      LoopStep s i .test (s.put i (.finished true))
  | passed (hphase : s.phase i = .top) (hlimit : limitReached cfg s = false)
      (hlocked : cfg.locked = false) : LoopStep s i .test (s.put i .tested)
  | taken (hphase : s.phase i = .top) (hlimit : limitReached cfg s = false)
      (hlocked : cfg.locked = true) : LoopStep s i .test (s.countRequest.put i .granted)
  | counted (hphase : s.phase i = .tested) : LoopStep s i .count (s.countRequest.put i .granted)
  | started (hphase : s.phase i = .granted) {now : ℤ} {t : Timer}
      (htimer : sbTimerStart (s.timer i) now = some t) :
      LoopStep s i (.start now) ((s.putTimer i t).put i .running)
  | restarted (hphase : s.phase i = .running) : LoopStep s i (.attempt .restart) s
  | succeeded (hphase : s.phase i = .running) {now : ℤ} {t : Timer}
      (htimer : sbTimerStop (s.timer i) now = some t) :
      LoopStep s i (.attempt (.success now)) ((s.putTimer i t).put i (.finished false))
  | failed (hphase : s.phase i = .running) :
      LoopStep s i (.attempt .failure) ({ s with error := true }.put i .stopped)
  | stopped {null timeUp : Bool} (hphase : s.phase i = .finished null)
      (hstop : (timeUp || null || s.error) = true) :
      LoopStep s i (.check timeUp) (s.put i .stopped)
  | again {null timeUp : Bool} (hphase : s.phase i = .finished null)
      (hstop : (timeUp || null || s.error) = false) :
      LoopStep s i (.check timeUp) (s.put i .top)

variable {cfg} {s s' : Loop} {m : LoopMove}

/-- **The inversion lemma.** -/
theorem loopStep_of_loopMove (h : loopMove cfg s m = some s') :
    m.worker < cfg.workers ∧ LoopStep cfg s m.worker m.action s' := by
  obtain ⟨i, a⟩ := m
  unfold loopMove at h
  dsimp only at h
  by_cases hi : i < cfg.workers
  swap
  · rw [if_neg hi] at h
    exact absurd h (by simp)
  rw [if_pos hi] at h
  refine ⟨hi, ?_⟩
  split at h <;> rename_i hphase
  · split_ifs at h with hlimit hlocked <;> obtain rfl := Option.some.inj h
    · exact .null hphase hlimit
    · exact .taken hphase (Bool.eq_false_iff.mpr hlimit) hlocked
    · exact .passed hphase (Bool.eq_false_iff.mpr hlimit) (Bool.eq_false_iff.mpr hlocked)
  · obtain rfl := Option.some.inj h
    exact .counted hphase
  · obtain ⟨t, ht, rfl⟩ := Option.map_eq_some_iff.mp h
    exact .started hphase ht
  · obtain rfl := Option.some.inj h
    exact .restarted hphase
  · obtain ⟨t, ht, rfl⟩ := Option.map_eq_some_iff.mp h
    exact .succeeded hphase ht
  · obtain rfl := Option.some.inj h
    exact .failed hphase
  · obtain rfl := Option.some.inj h
    split_ifs with hstop
    · exact .stopped hphase hstop
    · exact .again hphase (Bool.eq_false_iff.mpr hstop)
  · exact absurd h (by simp)

/-! ## The requests of a worker -/

/-- How a request ended, if it did. -/
inductive RequestEnd
  | running
  | succeeded (now : ℤ)
  | failed
  deriving DecidableEq

/-- A request: the start of its first attempt, how often it was restarted, and how it ended. -/
structure RequestLog where
  start : ℤ
  restarts : ℕ
  ended : RequestEnd

/-- The requests of a worker after one more step of it, the last request first. -/
def logAction : List RequestLog → LoopAction → List RequestLog
  | log, .start now => ⟨now, 0, .running⟩ :: log
  | r :: log, .attempt .restart => { r with restarts := r.restarts + 1 } :: log
  | r :: log, .attempt (.success now) => { r with ended := .succeeded now } :: log
  | r :: log, .attempt .failure => { r with ended := .failed } :: log
  | log, _ => log

/-- The requests of worker `i` in a run. -/
def requests (i : ℕ) (hist : List (Loop × LoopMove)) : List RequestLog :=
  hist.foldl (fun log e => if e.2.worker = i then logAction log e.2.action else log) []

/-- The operation of a request that succeeded, from the first attempt to the end. -/
def RequestLog.operation (r : RequestLog) : Option (ℤ × ℤ) :=
  match r.ended with
  | .succeeded now => some (r.start, now)
  | _ => none

/-- The operations of a worker in a run. -/
def operations (log : List RequestLog) : List (ℤ × ℤ) := log.filterMap RequestLog.operation

/-- A timer that was started and stopped once for each of the operations. -/
def recorded (t : Timer) (ops : List (ℤ × ℤ)) : Timer :=
  ops.foldr (fun op t => { t with timeStart := op.1 }.finish op.2) t

/-- What a timer adds up. -/
def counters (t : Timer) : U64 × U64 × U64 × U64 := (t.events, t.sumTime, t.minTime, t.maxTime)

theorem counters_finish_congr {t t' : Timer} (hcounters : counters t = counters t')
    (hqueue : t.queueTime = t'.queueTime) (hstart : t.timeStart = t'.timeStart) (now : ℤ) :
    counters (t.finish now) = counters (t'.finish now) := by
  simp only [counters, Prod.mk.injEq] at hcounters
  obtain ⟨hevents, hsum, hmin, hmax⟩ := hcounters
  simp only [counters, Timer.finish, sbTimerUpdate, hevents, hsum, hmin, hmax, hqueue, hstart]
  congr

/-- **The timer of a worker**: it has recorded the operations, and was last started with the request
that is running. -/
structure TimerInv (t₀ t : Timer) (phase : WorkerPhase) (log : List RequestLog) : Prop where
  ready : t.state ≠ .uninitialized
  counters_eq : counters t = counters (recorded t₀ (operations log))
  queueTime_eq : t.queueTime = (recorded t₀ (operations log)).queueTime
  current : phase = .running →
    ∃ r rest, log = r :: rest ∧ r.ended = .running ∧ t.timeStart = r.start

theorem requests_snoc (i : ℕ) (hist : List (Loop × LoopMove)) (e : Loop × LoopMove) :
    requests i (hist ++ [e])
      = if e.2.worker = i then logAction (requests i hist) e.2.action else requests i hist := by
  rw [requests, List.foldl_append]
  rfl

variable {t₀ t : Timer} {phase : WorkerPhase} {log : List RequestLog} {now : ℤ}

theorem operations_cons_none {r : RequestLog} (h : r.operation = none) :
    operations (r :: log) = operations log := List.filterMap_cons_none h

theorem logAction_of_quiet (log : List RequestLog) {a : LoopAction}
    (h : a = .test ∨ a = .count ∨ ∃ timeUp, a = .check timeUp) : logAction log a = log := by
  rcases h with rfl | rfl | ⟨timeUp, rfl⟩ <;> cases log <;> rfl

/-- Outside a request nothing changes. -/
theorem TimerInv.quiet (h : TimerInv t₀ t phase log) {a : LoopAction}
    (ha : a = .test ∨ a = .count ∨ ∃ timeUp, a = .check timeUp) {w : WorkerPhase}
    (hw : w ≠ .running) : TimerInv t₀ t w (logAction log a) := by
  rw [logAction_of_quiet log ha]
  exact ⟨h.ready, h.counters_eq, h.queueTime_eq, fun hrunning => absurd hrunning hw⟩

theorem TimerInv.started (h : TimerInv t₀ t phase log) {t' : Timer}
    (htimer : sbTimerStart t now = some t') :
    TimerInv t₀ t' .running (logAction log (.start now)) := by
  have hlog : logAction log (.start now) = ⟨now, 0, .running⟩ :: log := by cases log <;> rfl
  rw [sbTimerStart, if_neg h.ready] at htimer
  obtain rfl := Option.some.inj htimer
  rw [hlog]
  exact ⟨TimerState.noConfusion, h.counters_eq, h.queueTime_eq, fun _ => ⟨_, log, rfl, rfl, rfl⟩⟩

theorem TimerInv.restarted (h : TimerInv t₀ t .running log) :
    TimerInv t₀ t .running (logAction log (.attempt .restart)) := by
  obtain ⟨r, rest, rfl, hended, hstart⟩ := h.current rfl
  exact ⟨h.ready, h.counters_eq, h.queueTime_eq, fun _ => ⟨_, rest, rfl, hended, hstart⟩⟩

theorem TimerInv.succeeded (h : TimerInv t₀ t .running log) {t' : Timer}
    (htimer : sbTimerStop t now = some t') :
    TimerInv t₀ t' (.finished false) (logAction log (.attempt (.success now))) := by
  obtain ⟨r, rest, rfl, hended, hstart⟩ := h.current rfl
  rw [sbTimerStop, if_neg h.ready] at htimer
  obtain rfl := Option.some.inj htimer
  have hold : operations (r :: rest) = operations rest := operations_cons_none (by
    rw [RequestLog.operation, hended])
  have hcounters := h.counters_eq
  have hqueue := h.queueTime_eq
  rw [hold] at hcounters hqueue
  have hstarted : counters t
      = counters { recorded t₀ (operations rest) with timeStart := r.start } := hcounters
  have hfinish := counters_finish_congr hstarted hqueue hstart now
  exact ⟨TimerState.noConfusion, hfinish, hqueue, fun hrunning => absurd hrunning (by decide)⟩

theorem TimerInv.failed (h : TimerInv t₀ t .running log) :
    TimerInv t₀ t .stopped (logAction log (.attempt .failure)) := by
  obtain ⟨r, rest, rfl, hended, -⟩ := h.current rfl
  have hold : operations (r :: rest) = operations rest := operations_cons_none (by
    rw [RequestLog.operation, hended])
  have hcounters := h.counters_eq
  have hqueue := h.queueTime_eq
  rw [hold] at hcounters hqueue
  exact ⟨h.ready, hcounters, hqueue, fun hrunning => absurd hrunning (by decide)⟩

/-- What the worker that moves does to its own timer. -/
theorem LoopStep.timerInv {i : ℕ} {a : LoopAction} (hstep : LoopStep cfg s i a s')
    (h : TimerInv t₀ (s.timer i) (s.phase i) log) :
    TimerInv t₀ (s'.timer i) (s'.phase i) (logAction log a) := by
  cases hstep with
  | null | passed | taken => simpa using h.quiet (.inl rfl) (by decide)
  | counted => simpa using h.quiet (.inr (.inl rfl)) (by decide)
  | started _ htimer => simpa using h.started htimer
  | restarted hphase =>
    rw [hphase] at h ⊢
    exact h.restarted
  | succeeded hphase htimer =>
    rw [hphase] at h
    simpa using h.succeeded htimer
  | failed hphase =>
    rw [hphase] at h
    simpa using h.failed
  | stopped | again => simpa using h.quiet (.inr (.inr ⟨_, rfl⟩)) (by decide)

/-- A worker that does not move is left alone. -/
theorem LoopStep.of_ne {i j : ℕ} {a : LoopAction} (hstep : LoopStep cfg s i a s') (hj : j ≠ i) :
    s'.phase j = s.phase j ∧ s'.timer j = s.timer j := by
  cases hstep <;> simp [Function.update_of_ne hj]

/-- **The timers of all workers** record the operations of their requests, in every run. -/
theorem timerInv_of_run {timer : ℕ → Timer} (htimer : ∀ i, (timer i).state ≠ .uninitialized)
    {hist : List (Loop × LoopMove)} (h : Run (loopMove cfg) (startLoop timer) hist s) (i : ℕ) :
    TimerInv (timer i) (s.timer i) (s.phase i) (requests i hist) := by
  refine Run.induction (fun hist s => TimerInv (timer i) (s.timer i) (s.phase i) (requests i hist))
    ⟨htimer i, rfl, rfl, fun hrunning => absurd hrunning (by simp [startLoop])⟩ ?_ h
  intro hist s m s' hI hmove
  obtain ⟨-, hstep⟩ := loopStep_of_loopMove hmove
  rw [requests_snoc]
  rcases eq_or_ne m.worker i with rfl | hne
  · rw [if_pos rfl]
    exact hstep.timerInv hI
  · obtain ⟨hphase, htimer⟩ := hstep.of_ne hne.symm
    rw [if_neg hne, hphase, htimer]
    exact hI

/-! ## After an error -/

/-- How many requests a worker can still start once the flag is set. -/
def startsLeft : WorkerPhase → ℕ
  | .top | .tested | .granted => 1
  | _ => 0

/-- How many steps it has still to make then, but for restarts. -/
def stepsLeft : WorkerPhase → ℕ
  | .top => 5
  | .tested => 4
  | .granted => 3
  | .running => 2
  | .finished _ => 1
  | .stopped => 0

/-- Worker `j` starts a request. -/
def isStart (j : ℕ) (e : Loop × LoopMove) : Bool :=
  e.2.worker = j && match e.2.action with
    | .start _ => true
    | _ => false

/-- Worker `j` makes a step that is not a restart. -/
def isProgress (j : ℕ) (e : Loop × LoopMove) : Bool :=
  e.2.worker = j && e.2.action ≠ .attempt .restart

theorem LoopStep.error {i : ℕ} {a : LoopAction} (hstep : LoopStep cfg s i a s')
    (h : s.error = true) : s'.error = true := by
  cases hstep <;> first | exact h | rfl

theorem LoopStep.left_le {i : ℕ} {a : LoopAction} (hstep : LoopStep cfg s i a s')
    (herror : s.error = true) :
    (isStart i (s, ⟨i, a⟩)).toNat + startsLeft (s'.phase i) ≤ startsLeft (s.phase i) ∧
      (isProgress i (s, ⟨i, a⟩)).toNat + stepsLeft (s'.phase i) ≤ stepsLeft (s.phase i) := by
  cases hstep with
  | again _ hstop => simp [herror] at hstop
  | null hphase | passed hphase | taken hphase | counted hphase | started hphase | restarted hphase
  | succeeded hphase | failed hphase | stopped hphase =>
    simp [isStart, isProgress, startsLeft, stepsLeft, hphase]

/-- **Once the flag is set**, what a worker starts and does is used up. -/
theorem left_le_of_run {hist : List (Loop × LoopMove)} (h : Run (loopMove cfg) s hist s')
    (herror : s.error = true) (j : ℕ) :
    hist.countP (isStart j) + startsLeft (s'.phase j) ≤ startsLeft (s.phase j) ∧
      hist.countP (isProgress j) + stepsLeft (s'.phase j) ≤ stepsLeft (s.phase j) ∧
      s'.error = true := by
  refine Run.induction (fun hist s' =>
    hist.countP (isStart j) + startsLeft (s'.phase j) ≤ startsLeft (s.phase j) ∧
      hist.countP (isProgress j) + stepsLeft (s'.phase j) ≤ stepsLeft (s.phase j) ∧
      s'.error = true) ⟨by simp, by simp, herror⟩ ?_ h
  rintro hist u ⟨i, a⟩ u' ⟨hstarts, hsteps, herror⟩ hmove
  have hstep : LoopStep cfg u i a u' := (loopStep_of_loopMove hmove).2
  rw [countP_concat, countP_concat]
  rcases eq_or_ne i j with rfl | hne
  · obtain ⟨hstart, hprogress⟩ := hstep.left_le herror
    exact ⟨by omega, by omega, hstep.error herror⟩
  · have hstart : isStart j (u, ⟨i, a⟩) = false := by simp [isStart, hne]
    have hprogress : isProgress j (u, ⟨i, a⟩) = false := by simp [isProgress, hne]
    rw [(hstep.of_ne hne.symm).1, hstart, hprogress]
    exact ⟨by simpa using hstarts, by simpa using hsteps, hstep.error herror⟩

/-- A worker that has not stopped can go on. -/
theorem exists_move {i : ℕ} (hi : i < cfg.workers) (hready : (s.timer i).state ≠ .uninitialized)
    (hphase : s.phase i ≠ .stopped) : ∃ a, (loopMove cfg s ⟨i, a⟩).isSome := by
  cases h : s.phase i with
  | top =>
    refine ⟨.test, ?_⟩
    simp only [loopMove, if_pos hi, h]
    split_ifs <;> rfl
  | tested => exact ⟨.count, by simp [loopMove, hi, h]⟩
  | granted => exact ⟨.start 0, by simp [loopMove, hi, h, sbTimerStart, hready]⟩
  | running => exact ⟨.attempt .restart, by simp [loopMove, hi, h]⟩
  | finished null => exact ⟨.check false, by simp [loopMove, hi, h]⟩
  | stopped => exact absurd h hphase

/-- **The requests of a run.**  Each worker's timer has one operation for each of its requests that
succeeded, from the start of its first attempt on, and none for the others.  Once an event has
failed, each worker starts at most one more request, makes at most five more steps besides restarts,
and can always go on until it has stopped; and `run_test` does not return zero. -/
theorem requests_of_run (cfg : LoopConfig) (timer : ℕ → Timer)
    (htimer : ∀ i, (timer i).state ≠ .uninitialized) {hist : List (Loop × LoopMove)} {s : Loop}
    (h : Run (loopMove cfg) (startLoop timer) hist s) :
    (∀ i, counters (s.timer i) = counters (recorded (timer i) (operations (requests i hist)))) ∧
    ∀ before e after, hist = before ++ e :: after → e.2.action = .attempt .failure →
      (∀ j, after.countP (isStart j) ≤ 1 ∧ after.countP (isProgress j) ≤ 5 ∧
        (j < cfg.workers → s.phase j ≠ .stopped → ∃ a, (loopMove cfg s ⟨j, a⟩).isSome)) ∧
      ∀ cleanup, runTest s cleanup ≠ 0 := by
  have hinv := timerInv_of_run htimer h
  refine ⟨fun i => (hinv i).counters_eq, ?_⟩
  rintro before e after rfl hfailure
  obtain ⟨u, -, hmove, hafter⟩ := h.split
  obtain ⟨-, hstep⟩ := loopStep_of_loopMove hmove
  have herror : u.error = true := by
    rw [hfailure] at hstep
    cases hstep
    rfl
  have hleft := left_le_of_run hafter herror
  have hstarts : ∀ w, startsLeft w ≤ 1 := fun w => by cases w <;> simp [startsLeft]
  have hsteps : ∀ w, stepsLeft w ≤ 5 := fun w => by cases w <;> simp [stepsLeft]
  refine ⟨fun j => ⟨?_, ?_, fun hj hphase => exists_move hj (hinv j).ready hphase⟩,
    fun cleanup => ?_⟩
  · exact (Nat.le_add_right _ _).trans ((hleft j).1.trans (hstarts _))
  · exact (Nat.le_add_right _ _).trans ((hleft j).2.1.trans (hsteps _))
  · rw [runTest, (hleft 0).2.2, if_pos (rfl : true = true)]
    split_ifs <;> decide

/-- Two workers of a Lua test without a limit. -/
def twoWorkers : LoopConfig := ⟨2, 0, false⟩

/-- A request of worker `i` up to the first call of `event()`. -/
def oneRequest (i : ℕ) (now : ℤ) : List LoopMove :=
  [⟨i, .test⟩, ⟨i, .count⟩, ⟨i, .start now⟩]

/-- Worker 0 has a request that is restarted once; worker 1 fails while worker 0 asks for its next
request, which it still executes. -/
def oneFails : List LoopMove :=
  (oneRequest 0 1).append ([⟨0, .attempt .restart⟩, ⟨0, .attempt (.success 5)⟩,
    ⟨0, .check false⟩].append ((oneRequest 1 2).append ([⟨1, .attempt .failure⟩].append
      ((oneRequest 0 7).append [⟨0, .attempt (.success 9)⟩, ⟨0, .check false⟩]))))

theorem requests_of_run_oneFails : ∃ hist s,
    Run (loopMove twoWorkers) (startLoop fun _ => sbTimerInit blankTimer) hist s ∧
      hist.map Prod.snd = oneFails ∧ operations (requests 0 hist) = [(7, 9), (1, 5)] ∧
      operations (requests 1 hist) = [] ∧
      counters (s.timer 0) = counters (recorded (sbTimerInit blankTimer) [(7, 9), (1, 5)]) ∧
      ∀ cleanup, runTest s cleanup ≠ 0 := by
  have h : Run.play (loopMove twoWorkers) (startLoop fun _ => sbTimerInit blankTimer) oneFails
      = some (_, _) := rfl
  have hrun := Run.of_play h
  have hready : ∀ _ : ℕ, (sbTimerInit blankTimer).state ≠ .uninitialized := fun _ => by decide
  have hfailed : ∀ hist s,
      Run (loopMove twoWorkers) (startLoop fun _ => sbTimerInit blankTimer) hist s →
      hist.map Prod.snd = oneFails → ∀ cleanup, runTest s cleanup ≠ 0 := by
    intro hist s hrun hmoves
    have hmem : ⟨1, .attempt .failure⟩ ∈ hist.map Prod.snd := hmoves ▸ by decide
    obtain ⟨e, he, hmove⟩ := List.mem_map.mp hmem
    obtain ⟨before, after, hsplit⟩ := List.append_of_mem he
    exact ((requests_of_run twoWorkers _ hready hrun).2 before e after hsplit (by rw [hmove])).2
  exact ⟨_, _, hrun, rfl, rfl, rfl, (requests_of_run twoWorkers _ hready hrun).1 0,
    hfailed _ _ hrun rfl⟩

end Sysbench.Threads
