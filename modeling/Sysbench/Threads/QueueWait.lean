import Sysbench.Threads.Concurrency
import Sysbench.Logging.Percentiles

/-!
# Threads/QueueWait — the time an event waits in the queue, and the reports

In `--tx-rate` mode the time of an operation includes the time its event waited.  A worker stores
that wait in its timer when it has taken the event, and the timer adds it when the operation stops.
A report resets all timers in between, and `sb_timer_reset` clears the wait with the counters.

So an operation is recorded with its own wait or with none, never with the wait of another, and with
its own exactly when no report has been made since its event was taken, or there was no wait
(`stop_elapsed_iff`).
-/

namespace Sysbench.Threads

open Logging

/-- Where a worker is between taking an event and being done with it, with the event's time, the
wait of the event by the clock, and the clock at the start of the operation.  The worker itself
keeps none of these but in `queue_start_time` and in its timer. -/
inductive OpPhase
  | outside
  | taken (eventTime : Option ℕ)
  | waited (wait : Option U64)
  | running (wait : Option U64) (start : ℤ)

/-- `n` workers, the queue and the statistics together. -/
structure TxRun (n : ℕ) where
  queue : QueueState (Fin n)
  oper : OperStats
  phase : Fin n → OpPhase

/-- The time of the event a worker would take now. -/
def headTime {ω : Type} (q : QueueState ω) : Option ℕ :=
  match q.links.next .head with
  | .head => none
  | .item i => some (q.eventTime i)

/-- `queue_time`: the clock less the time of an event. -/
def waitOf (execTime : U64) (eventTime : ℕ) : U64 := execTime - BitVec.ofNat 64 eventTime

/-- A step of a thread: one of the queue, a worker that stores its wait or logs the start or the
stop of an operation, or a step of the statistics that is none of these. -/
inductive TxMove (n : ℕ)
  | queue (m : Move (Fin n))
  | storeWait (w : Fin n) (execTime : U64)
  | start (w : Fin n) (now : ℤ)
  | stop (w : Fin n) (now : ℤ)
  | oper (m : OperMove)

/-- The steps of the statistics that are made where a worker is in its loop. -/
def ofWorker : OperMove → Bool
  | .queue _ _ | .start _ _ | .stop _ _ => true
  | _ => false

variable {n : ℕ}

/-- One step of a run. -/
def txMove (scale : Scale) (s : TxRun n) : TxMove n → Option (TxRun n)
  | .queue (.dequeue w) =>
    (queueMove s.queue (.dequeue w)).map fun queue =>
      { s with queue, phase := Function.update s.phase w (.taken (headTime s.queue)) }
  | .queue (.execute w err) =>
    match s.phase w with
    | .waited _ | .running _ _ =>
      (queueMove s.queue (.execute w err)).map fun queue =>
        { s with queue, phase := Function.update s.phase w .outside }
    | .outside | .taken _ => none
  | .queue m => (queueMove s.queue m).map fun queue => { s with queue }
  | .storeWait w execTime =>
    match s.phase w with
    | .taken eventTime =>
      (operMove scale n s.oper (.queue w (waitOf execTime (s.queue.queueStartTime w)))).map
        fun oper => { s with
          oper, phase := Function.update s.phase w (.waited (eventTime.map (waitOf execTime))) }
    | _ => none
  | .start w now =>
    match s.phase w with
    | .waited wait =>
      (operMove scale n s.oper (.start w now)).map fun oper =>
        { s with oper, phase := Function.update s.phase w (.running wait now) }
    | _ => none
  | .stop w now =>
    match s.phase w with
    | .running wait _ =>
      (operMove scale n s.oper (.stop w now)).map fun oper =>
        { s with oper, phase := Function.update s.phase w (.waited wait) }
    | _ => none
  | .oper m =>
    if ofWorker m then none else (operMove scale n s.oper m).map fun oper => { s with oper }

/-- All threads have passed the start barrier, at time `now`. -/
def txStart (links : Links QueueNode) (eventTime : ℕ → ℕ) (now : ℤ) : TxRun n :=
  ⟨startQueue links eventTime, operHandlerInit now, fun _ => .outside⟩

/-- Whether a report has been made since worker `w` stored the wait of its event, one step on. -/
def noteReport (w : Fin n) (reported : Bool) : TxMove n → Bool
  | .storeWait w' _ => if w' = w then false else reported
  | .oper (.copyTimers _) => true
  | _ => reported

/-- A report has been made since worker `w` stored the wait of its event. -/
def reportedSince (w : Fin n) (hist : List (TxRun n × TxMove n)) : Bool :=
  hist.foldl (fun reported e => noteReport w reported e.2) false

/-! ## What a timer keeps -/

/-- The wait and the start time in a timer. -/
def held (t : Timer) : U64 × ℤ := (t.queueTime, t.timeStart)

/-- What a step of the statistics makes of them. -/
def heldAfter (m : OperMove) (w : ℕ) (h : U64 × ℤ) : U64 × ℤ :=
  match m with
  | .queue t time => if w = t then (time, h.2) else h
  | .start t now => if w = t then (h.1, now) else h
  | .copyTimers _ => (0, h.2)
  | _ => h

theorem held_update {timers : ℕ → Timer} {t w : ℕ} {timer : Timer} :
    held (Function.update timers t timer w) = if w = t then held timer else held (timers w) := by
  rw [Function.update_apply]
  split <;> rfl

theorem held_start {t timer : Timer} {now : ℤ} (h : sbTimerStart t now = some timer) :
    held timer = ((held t).1, now) := by
  unfold sbTimerStart at h
  split_ifs at h
  obtain rfl := Option.some.inj h
  rfl

theorem held_operMove {scale : Scale} {s s' : OperStats} {m : OperMove}
    (h : operMove scale n s m = some s') (w : ℕ) :
    held (s'.timers w) = heldAfter m w (held (s.timers w)) := by
  have hstep := operStep_of_operMove h
  cases hstep with
  | queue ht =>
    rw [heldAfter, held_update]
    split
    next heq => rw [heq]; rfl
    next => rfl
  | start ht hcounted =>
    simp only [operMove] at h
    split_ifs at h
    obtain ⟨timer, hstart, hs⟩ := Option.map_eq_some_iff.mp h
    have htimers := congrArg OperStats.timers hs
    dsimp only at htimers ⊢
    rw [← htimers, heldAfter, held_update, held_start hstart]
    split
    next heq => rw [heq]
    next => rfl
  | stop ht hnone hfree =>
    change held (Function.update s.timers _ _ w) = held (s.timers w)
    rw [held_update]
    split
    next heq => rw [heq]; rfl
    next => rfl
  | updatePercentile | copyTimers | calculate | resetPercentile | print | forceShutdown => rfl

/-! ## The queue of a run -/

section Queue

variable {ω : Type} [DecidableEq ω] {q q' : QueueState ω} {m : Move ω} {w : ω}

/-- The queue is as the threads have left it. -/
def QueueKept (q : QueueState ω) : Prop := ∃ c p outs, QueueInv c p outs q

theorem QueueKept.move (h : QueueKept q) (hmove : queueMove q m = some q') : QueueKept q' := by
  obtain ⟨c, p, outs, hinv⟩ := h
  obtain ⟨⟨o, q''⟩, hstep, rfl⟩ := Option.map_eq_some_iff.mp hmove
  obtain ⟨c', p', hinv'⟩ := queueInv_step hinv hstep
  exact ⟨c', p', _, hinv'⟩

/-- **The worker that takes an event has its time in `queue_start_time`.** -/
theorem QueueKept.dequeue (h : QueueKept q) (hmove : queueMove q (.dequeue w) = some q') :
    headTime q = some (q'.queueStartTime w) := by
  obtain ⟨c, p, outs, hinv⟩ := h
  obtain ⟨⟨o, q''⟩, hstep, rfl⟩ := Option.map_eq_some_iff.mp hmove
  simp only [step, Option.ite_none_right_eq_some, Option.some.injEq] at hstep
  obtain ⟨⟨-, hne⟩, hstep⟩ := hstep
  have hlen := hinv.length
  have hle := hinv.le
  have hring := hinv.ring
  rw [slots_cons (by omega), List.map_cons] at hring
  rw [headTime, hring.next_head]
  rw [takeEvent, hring.next_head] at hstep
  obtain ⟨-, rfl⟩ := Prod.mk.inj hstep
  simp [setWorker]

/-- Nobody else touches it. -/
theorem queueStartTime_of_ne (hmove : queueMove q m = some q') (hm : m ≠ .dequeue w) :
    q'.queueStartTime w = q.queueStartTime w := by
  obtain ⟨⟨o, q''⟩, hstep, rfl⟩ := Option.map_eq_some_iff.mp hmove
  cases m <;>
    simp only [step, Option.ite_none_right_eq_some, Option.some.injEq, Prod.mk.injEq] at hstep
  case stamp | link | enter | execute | release =>
    obtain ⟨-, -, rfl⟩ := hstep
    rfl
  case testFull =>
    obtain ⟨-, -, rfl⟩ := hstep
    dsimp only [nextSlot]
    split <;> rfl
  case dequeue w' =>
    have hne : w ≠ w' := fun heq => hm (by rw [heq])
    obtain ⟨-, hstep⟩ := hstep
    unfold takeEvent at hstep
    split at hstep
    all_goals
      obtain ⟨-, rfl⟩ := Prod.mk.inj hstep
      simp [setWorker, hne]

end Queue

/-! ## The wait of an operation -/

/-- What a worker knows of its event agrees with `queue_start_time` and with what its timer
holds, up to a report. -/
def Agrees (phase : OpPhase) (queueStartTime : ℕ) (h : U64 × ℤ) (reported : Bool) : Prop :=
  match phase with
  | .outside => True
  | .taken eventTime => eventTime = some queueStartTime
  | .waited wait => ∃ v, wait = some v ∧ h.1 = if reported then 0 else v
  | .running wait start => ∃ v, wait = some v ∧ h = (if reported then 0 else v, start)

/-- **The invariant of a run.** -/
structure WaitInv (hist : List (TxRun n × TxMove n)) (s : TxRun n) : Prop where
  queue : QueueKept s.queue
  agrees : ∀ w, Agrees (s.phase w) (s.queue.queueStartTime w) (held (s.oper.timers w))
    (reportedSince w hist)

variable {scale : Scale} {s s' : TxRun n} {w : Fin n} {hist : List (TxRun n × TxMove n)}

theorem reportedSince_concat (w : Fin n) (e : TxRun n × TxMove n) :
    reportedSince w (hist ++ [e]) = noteReport w (reportedSince w hist) e.2 := by
  simp [reportedSince]

/-- A step of the queue keeps the invariant where the phases do. -/
theorem WaitInv.queueStep {m : Move (Fin n)} {q : QueueState (Fin n)} {phase : Fin n → OpPhase}
    (hI : WaitInv hist s) (hmove : queueMove s.queue m = some q)
    (hphase : ∀ w, Agrees (phase w) (q.queueStartTime w) (held (s.oper.timers w))
      (reportedSince w hist)) :
    WaitInv (hist ++ [(s, TxMove.queue m)]) { s with queue := q, phase } where
  queue := hI.queue.move hmove
  agrees w := by
    rw [reportedSince_concat]
    exact hphase w

/-- A step of the statistics does. -/
theorem WaitInv.operStep {m : OperMove} {oper : OperStats} {phase : Fin n → OpPhase}
    (hI : WaitInv hist s) (hmove : operMove scale n s.oper m = some oper) (tm : TxMove n)
    (hphase : ∀ w : Fin n, Agrees (phase w) (s.queue.queueStartTime w)
      (heldAfter m w (held (s.oper.timers w))) (noteReport w (reportedSince w hist) tm)) :
    WaitInv (hist ++ [(s, tm)]) { s with oper, phase } where
  queue := hI.queue
  agrees w := by
    rw [reportedSince_concat, held_operMove hmove]
    exact hphase w

/-- The other workers, while one takes an event. -/
theorem WaitInv.agrees_of_ne {m : Move (Fin n)} {q : QueueState (Fin n)} (hI : WaitInv hist s)
    (hmove : queueMove s.queue m = some q) (hm : m ≠ .dequeue w) :
    Agrees (s.phase w) (q.queueStartTime w) (held (s.oper.timers w)) (reportedSince w hist) := by
  rw [queueStartTime_of_ne hmove hm]
  exact hI.agrees w

/-- The other workers, while one goes on to `phase`. -/
theorem agrees_update {p : OpPhase} {t : Fin n → ℕ} {h : Fin n → U64 × ℤ} {r : Fin n → Bool}
    {phase : Fin n → OpPhase} (hown : Agrees p (t w) (h w) (r w))
    (hother : ∀ w', w' ≠ w → Agrees (phase w') (t w') (h w') (r w')) (w' : Fin n) :
    Agrees (Function.update phase w p w') (t w') (h w') (r w') := by
  rcases eq_or_ne w' w with rfl | hne
  · rwa [Function.update_self]
  · rw [Function.update_of_ne hne]
    exact hother w' hne

/-- A report clears the wait of every worker. -/
theorem Agrees.report {phase : OpPhase} {t : ℕ} {h : U64 × ℤ} {reported : Bool}
    (ha : Agrees phase t h reported) : Agrees phase t (0, h.2) true := by
  cases phase with
  | outside => trivial
  | taken eventTime => exact ha
  | waited wait =>
    obtain ⟨v, hv, -⟩ := ha
    exact ⟨v, hv, rfl⟩
  | running wait start =>
    obtain ⟨v, hv, hheld⟩ := ha
    exact ⟨v, hv, by rw [hheld]; rfl⟩

/-- **Every step keeps the invariant.** -/
theorem WaitInv.step {m : TxMove n} (hI : WaitInv hist s) (hmove : txMove scale s m = some s') :
    WaitInv (hist ++ [(s, m)]) s' := by
  cases m with
  | queue m =>
    cases m with
    | dequeue w =>
      obtain ⟨q, hq, rfl⟩ := Option.map_eq_some_iff.mp hmove
      refine hI.queueStep hq (agrees_update (hI.queue.dequeue hq) fun w' hne => ?_)
      exact hI.agrees_of_ne hq fun heq => hne (Move.dequeue.inj heq).symm
    | execute w err =>
      simp only [txMove] at hmove
      split at hmove
      case h_1 | h_2 =>
        obtain ⟨q, hq, rfl⟩ := Option.map_eq_some_iff.mp hmove
        exact hI.queueStep hq (agrees_update trivial fun w' _ => hI.agrees_of_ne hq (by simp))
      case h_3 | h_4 => cases hmove
    | stamp | link | testFull | enter | release =>
      obtain ⟨q, hq, rfl⟩ := Option.map_eq_some_iff.mp hmove
      exact hI.queueStep hq fun w' => hI.agrees_of_ne hq (by simp)
  | storeWait w execTime =>
    simp only [txMove] at hmove
    split at hmove
    case h_1 eventTime hphase =>
      obtain ⟨oper, hoper, rfl⟩ := Option.map_eq_some_iff.mp hmove
      have hown := hI.agrees w
      rw [hphase] at hown
      obtain rfl : eventTime = some _ := hown
      refine hI.operStep hoper _ (agrees_update ⟨_, rfl, ?_⟩ fun w' hne => ?_)
      · simp [heldAfter, noteReport]
      · simp only [heldAfter, noteReport, Fin.val_inj, hne, hne.symm, if_false]
        exact hI.agrees w'
    case h_2 => cases hmove
  | start w now =>
    simp only [txMove] at hmove
    split at hmove
    case h_1 wait hphase =>
      obtain ⟨oper, hoper, rfl⟩ := Option.map_eq_some_iff.mp hmove
      have hown := hI.agrees w
      rw [hphase] at hown
      obtain ⟨v, hv, hheld⟩ := hown
      refine hI.operStep hoper _ (agrees_update ⟨v, hv, ?_⟩ fun w' hne => ?_)
      · rw [heldAfter, if_pos rfl, hheld]
        rfl
      · simp only [heldAfter, noteReport, Fin.val_inj, hne, if_false]
        exact hI.agrees w'
    case h_2 => cases hmove
  | stop w now =>
    simp only [txMove] at hmove
    split at hmove
    case h_1 wait start hphase =>
      obtain ⟨oper, hoper, rfl⟩ := Option.map_eq_some_iff.mp hmove
      have hown := hI.agrees w
      rw [hphase] at hown
      obtain ⟨v, hv, hheld⟩ := hown
      refine hI.operStep hoper _ (agrees_update ⟨v, hv, ?_⟩ fun w' _ => hI.agrees w')
      exact congrArg Prod.fst hheld
    case h_2 => cases hmove
  | oper m =>
    simp only [txMove] at hmove
    split_ifs at hmove with hworker
    obtain ⟨oper, hoper, rfl⟩ := Option.map_eq_some_iff.mp hmove
    refine hI.operStep hoper _ fun w' => ?_
    cases m with
    | queue | start | stop => exact absurd rfl hworker
    | copyTimers => exact (hI.agrees w').report
    | updatePercentile | calculate | resetPercentile | print | forceShutdown => exact hI.agrees w'

theorem waitInv_of_run {links : Links QueueNode} {eventTime : ℕ → ℕ} {now : ℤ}
    (hrun : Run (txMove scale) (txStart links eventTime now) hist s) : WaitInv hist s := by
  have hstart : WaitInv [] (txStart links eventTime now : TxRun n) :=
    ⟨⟨0, 0, [], .start links eventTime⟩, fun _ => trivial⟩
  exact hrun.induction WaitInv hstart fun _ _ _ _ hI hmove => hI.step hmove

/-- **The time recorded for an operation is its execution time and its own wait exactly when no
report has been made since the wait was stored, or there was none to store**; otherwise it is the
execution time alone.  This holds of every stop of every run. -/
theorem stop_elapsed_iff {links : Links QueueNode} {eventTime : ℕ → ℕ} {now₀ now : ℤ}
    {before after : List (TxRun n × TxMove n)}
    (hrun : Run (txMove scale) (txStart links eventTime now₀) (before ++ (s, .stop w now) :: after)
      s') :
    ∃ wait start elapsed, s.phase w = .running (some wait) start ∧
      stopTime (s.oper, .stop w now) = some elapsed ∧
      elapsed = timespecDiff now start + (if reportedSince w before then 0 else wait) ∧
      (elapsed = timespecDiff now start + wait ↔ reportedSince w before = false ∨ wait = 0) := by
  obtain ⟨t, hbefore, hmove, -⟩ := Run.split hrun
  have hown := (waitInv_of_run hbefore).agrees w
  simp only [txMove] at hmove
  split at hmove
  case h_1 wait start hphase =>
    rw [hphase] at hown
    obtain ⟨v, rfl, hheld⟩ := hown
    obtain ⟨hwait, hstart⟩ := Prod.mk.inj hheld
    refine ⟨v, start, _, hphase, rfl, ?_, ?_⟩
    · change timespecDiff now (s.oper.timers w).timeStart + (s.oper.timers w).queueTime = _
      rw [hwait, hstart]
    · change timespecDiff now (s.oper.timers w).timeStart + (s.oper.timers w).queueTime = _ ↔ _
      rw [hwait, hstart, add_right_inj]
      cases reportedSince w before with
      | false => simp
      | true => simpa using eq_comm
  case h_2 => cases hmove

/-! ## One operation -/

/-- One worker takes an event of time 2 at time 5. -/
def takeAtFive : List (TxMove 1) :=
  [.queue (.stamp 2), .queue .link, .queue .testFull, .queue (.enter soleParty),
    .queue (.dequeue soleParty), .storeWait soleParty 5]

/-- A report, from the copy of the timers on. -/
def txReport : List (TxMove 1) :=
  [.oper (.copyTimers 8), .oper .calculate, .oper .resetPercentile, .oper (.print fun _ => 9)]

/-- The start of a run with one worker. -/
def oneWorker : TxRun 1 := txStart ⟨id, id⟩ (fun _ => 0) 0

/-- An operation from 10 to 14, without a report. -/
theorem stop_elapsed_seven :
    ∃ before s s', Run (txMove oneBucket) oneWorker (before ++ [(s, .stop 0 14)]) s' ∧
      s.phase 0 = .running (some 3) 10 ∧ stopTime (s.oper, .stop 0 14) = some 7 := by
  have h : Run.play (txMove oneBucket) oneWorker (takeAtFive ++ [.start 0 10]) = some (_, _) := rfl
  have hrun := (Run.of_play h).snoc (i := .stop 0 14) rfl
  obtain ⟨wait, start, elapsed, hphase, hstop, -, hiff⟩ := stop_elapsed_iff hrun
  obtain ⟨hwait, rfl⟩ := OpPhase.running.inj hphase
  obtain rfl := Option.some.inj hwait
  refine ⟨_, _, _, hrun, rfl, hstop.trans (congrArg some ?_)⟩
  exact (hiff.mpr (.inl rfl)).trans (by decide)

/-- **The same operation with a report before it starts**: its wait is lost. -/
theorem stop_elapsed_reported :
    ∃ before s s', Run (txMove oneBucket) oneWorker (before ++ [(s, .stop 0 14)]) s' ∧
      s.phase 0 = .running (some 3) 10 ∧ stopTime (s.oper, .stop 0 14) = some 4 ∧
      (4 : U64) ≠ timespecDiff 14 10 + 3 := by
  have h : Run.play (txMove oneBucket) oneWorker (takeAtFive ++ txReport ++ [.start 0 10])
      = some (_, _) := rfl
  exact ⟨_, _, _, (Run.of_play h).snoc (i := .stop 0 14) rfl, rfl, rfl, by decide⟩

end Sysbench.Threads
