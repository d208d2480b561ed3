import Sysbench.Logging.OperHandler

/-!
# Logging/Percentiles — when the histogram holds the operations of the report

A stop message counts its operation in the timer and then, in a second section, in the histogram; a
report takes the timers and the histogram together.  The percentile of every report is that of the
operations it counts exactly when no worker is between its two sections at the computation
(`histogramMatches_iff`).
-/

namespace Sysbench.Logging

/-- The events of `n` timers. -/
def eventCount (timers : ℕ → Timer) (n : ℕ) : U64 := ∑ i ∈ Finset.range n, (timers i).events

/-- The operations that are in a timer and not yet in the histogram. -/
def stoppingCount (stopping : ℕ → Option U64) (n : ℕ) : U64 :=
  ∑ i ∈ Finset.range n, if (stopping i).isSome then 1 else 0

/-- **At the computation of the percentile the histogram holds the operations of the copied
timers.** -/
def HistogramMatches (n : ℕ) (e : OperStats × OperMove) : Prop :=
  match e.2 with
  | .calculate => e.1.percentile.total = eventCount e.1.timersCopy n
  | _ => True

/-- **At the computation of the percentile no worker is between the two sections of a stop
message.** -/
def NobodyStopping (n : ℕ) (e : OperStats × OperMove) : Prop :=
  match e.2 with
  | .calculate => ∀ t < n, e.1.stopping t = none
  | _ => True

/-- The workers between their sections are fewer than `unsigned long long` counts. -/
theorem stoppingCount_eq_zero_iff {stopping : ℕ → Option U64} {n : ℕ} (hn : n < 2 ^ 32) :
    stoppingCount stopping n = 0 ↔ ∀ t < n, stopping t = none := by
  have hcard : ((Finset.range n).filter fun i => (stopping i).isSome).card ≤ n := by
    simpa using Finset.card_filter_le (Finset.range n) fun i => (stopping i).isSome = true
  rw [stoppingCount, Finset.sum_boole]
  constructor
  · intro h t ht
    have hzero := congrArg BitVec.toNat h
    rw [BitVec.natCast_eq_ofNat, BitVec.toNat_ofNat, Nat.mod_eq_of_lt (by omega)] at hzero
    have hnot := Finset.filter_eq_empty_iff.mp (Finset.card_eq_zero.mp hzero)
      (Finset.mem_range.mpr ht)
    simpa using hnot
  · intro h
    rw [Finset.filter_eq_empty_iff.mpr, Finset.card_empty]
    · rfl
    · intro t ht
      simp [h t (Finset.mem_range.mp ht)]

/-- **Histogram and timers agree up to the workers between their sections.** -/
def Paired (n : ℕ) (s : OperStats) : Prop :=
  match s.stage with
  | .idle | .released _ _ =>
    s.percentile.total + stoppingCount s.stopping n = eventCount s.timers n
  | .copied _ =>
    s.percentile.total + stoppingCount s.stopping n = eventCount s.timersCopy n ∧
      eventCount s.timers n = 0
  | .calculated _ _ => (∀ t < n, s.stopping t = none) ∧ eventCount s.timers n = 0

variable {scale : Scale} {n t : ℕ} {s s' : OperStats}

theorem eventCount_reset (timers : ℕ → Timer) :
    eventCount (fun i => sbTimerReset (timers i)) n = 0 :=
  Finset.sum_eq_zero fun _ _ => rfl

/-- A change to one timer that counts nothing. -/
theorem eventCount_update {timers : ℕ → Timer} {timer : Timer} (ht : t < n)
    (h : timer.events = (timers t).events) :
    eventCount (Function.update timers t timer) n = eventCount timers n := by
  rw [eventCount, sum_update_of_eq_add Timer.events (a := 0) ht (by rw [h, add_zero]), add_zero]
  rfl

theorem eventCount_finish {timers : ℕ → Timer} {now : ℤ} (ht : t < n) :
    eventCount (Function.update timers t ((timers t).finish now)) n = eventCount timers n + 1 :=
  sum_update_of_eq_add Timer.events ht rfl

theorem stoppingCount_some {stopping : ℕ → Option U64} {value : U64} (ht : t < n)
    (h : stopping t = none) :
    stoppingCount (Function.update stopping t (some value)) n = stoppingCount stopping n + 1 :=
  sum_update_of_eq_add (fun o : Option U64 => if o.isSome then (1 : U64) else 0) ht (by simp [h])

/-- A worker leaves the second section: it was counted before. -/
theorem stoppingCount_none {stopping : ℕ → Option U64} {value : U64} (ht : t < n)
    (h : stopping t = some value) :
    stoppingCount stopping n = stoppingCount (Function.update stopping t none) n + 1 := by
  have hback : Function.update (Function.update stopping t none) t (some value) = stopping := by
    rw [Function.update_idem, ← h, Function.update_eq_self]
  have hcount : stoppingCount (Function.update (Function.update stopping t none) t (some value)) n
      = stoppingCount (Function.update stopping t none) n + 1 :=
    stoppingCount_some ht (Function.update_self ..)
  rw [← hcount, hback]

theorem paired_init (now : ℤ) : Paired n (operHandlerInit now) := by
  have hcount : eventCount (operHandlerInit now).timers n = 0 :=
    eventCount_reset fun _ => blankTimer
  have hstop : stoppingCount (operHandlerInit now).stopping n = 0 :=
    Finset.sum_eq_zero fun _ _ => rfl
  change sbPercentileReset.total + _ = _
  rw [hcount, hstop]
  rfl

/-! ## One step -/

/-- A worker changes its timer and counts nothing. -/
theorem paired_timer {timer : Timer} (hP : Paired n s) (ht : t < n)
    (h : timer.events = (s.timers t).events) :
    Paired n { s with timers := Function.update s.timers t timer } := by
  unfold Paired at hP ⊢
  simp only [eventCount_update ht h]
  exact hP

theorem paired_stop {now : ℤ} (hP : Paired n s) (ht : t < n) (hnone : s.stopping t = none)
    (hfree : s.stage.holdsMutex = false) :
    Paired n { s with
      timers := Function.update s.timers t ((s.timers t).finish now)
      stopping := Function.update s.stopping t (some ((s.timers t).finish now).elapsed) } := by
  unfold Paired at hP ⊢
  cases hstage : s.stage with
  | idle | released _ _ =>
    simp only [hstage] at hP ⊢
    rw [eventCount_finish ht, stoppingCount_some ht hnone, ← add_assoc, hP]
  | copied _ | calculated _ _ =>
    rw [hstage] at hfree
    cases hfree

theorem paired_updatePercentile {value : U64} (hP : Paired n s) (ht : t < n)
    (hvalue : s.stopping t = some value) :
    Paired n { s with
      percentile := sbPercentileUpdate scale s.percentile value
      stopping := Function.update s.stopping t none } := by
  have hcount := stoppingCount_none ht hvalue
  have hmove : (s.percentile.total + 1) + stoppingCount (Function.update s.stopping t none) n
      = s.percentile.total + stoppingCount s.stopping n := by
    rw [hcount]
    abel
  unfold Paired at hP ⊢
  cases hstage : s.stage with
  | idle | released _ _ =>
    simp only [hstage] at hP ⊢
    exact hmove.trans hP
  | copied _ =>
    simp only [hstage] at hP ⊢
    exact ⟨hmove.trans hP.1, hP.2⟩
  | calculated _ _ =>
    simp only [hstage] at hP
    rw [hP.1 t ht] at hvalue
    cases hvalue

/-- At the computation the histogram lacks exactly the operations of the workers between their
sections. -/
theorem matches_iff_of_copied {totalTimeNs : U64} (hn : n < 2 ^ 32) (hP : Paired n s)
    (hcopied : s.stage = .copied totalTimeNs) :
    s.percentile.total = eventCount s.timersCopy n ↔ ∀ t < n, s.stopping t = none := by
  unfold Paired at hP
  simp only [hcopied] at hP
  rw [← stoppingCount_eq_zero_iff hn, ← hP.1, left_eq_add]

/-- **One step.** -/
theorem paired_step {i : OperMove} (hn : n < 2 ^ 32) (hP : Paired n s)
    (h : OperStep scale n s i s') :
    (HistogramMatches n (s, i) ↔ NobodyStopping n (s, i)) ∧
      (NobodyStopping n (s, i) → Paired n s') := by
  cases h with
  | queue ht => exact ⟨Iff.rfl, fun _ => paired_timer hP ht rfl⟩
  | start ht hcounted =>
    exact ⟨Iff.rfl, fun _ => paired_timer hP ht (congrArg Prod.fst hcounted)⟩
  | stop ht hnone hfree => exact ⟨Iff.rfl, fun _ => paired_stop hP ht hnone hfree⟩
  | updatePercentile ht hvalue => exact ⟨Iff.rfl, fun _ => paired_updatePercentile hP ht hvalue⟩
  | copyTimers hidle =>
    refine ⟨Iff.rfl, fun _ => ⟨?_, eventCount_reset s.timers⟩⟩
    unfold Paired at hP
    simpa only [hidle] using hP
  | calculate hcopied =>
    refine ⟨matches_iff_of_copied hn hP hcopied, fun hnone => ⟨hnone, ?_⟩⟩
    unfold Paired at hP
    simp only [hcopied] at hP
    exact hP.2
  | resetPercentile hcalc =>
    refine ⟨Iff.rfl, fun _ => ?_⟩
    unfold Paired at hP
    simp only [hcalc] at hP
    change (0 : U64) + stoppingCount s.stopping n = eventCount s.timers n
    rw [(stoppingCount_eq_zero_iff hn).mpr hP.1, hP.2, add_zero]
  | print hrel =>
    refine ⟨Iff.rfl, fun _ => ?_⟩
    unfold Paired at hP
    simp only [hrel] at hP
    exact hP
  | forceShutdown => exact ⟨Iff.rfl, fun _ => hP⟩

/-! ## A whole run -/

/-- **The percentile of every report is computed from exactly the operations its timers count if
and only if at every computation no worker is between its two sections.**  The number of threads is
an `unsigned int`. -/
theorem histogramMatches_iff (scale : Scale) (n : ℕ) (now : ℤ) (hn : n < 2 ^ 32)
    {hist : List (OperStats × OperMove)} {s : OperStats}
    (h : Run (operMove scale n) (operHandlerInit now) hist s) :
    (∀ e ∈ hist, HistogramMatches n e) ↔ ∀ e ∈ hist, NobodyStopping n e :=
  h.forall_iff (Paired n) (paired_init now)
    fun _ _ _ hP hs => paired_step hn hP (operStep_of_operMove hs)

/-- A histogram of one bucket, for short runs. -/
def oneBucket : Scale := ⟨1, fun _ => 0, id⟩

/-- The report comes after both sections of the stop message. -/
def reportAfterUpdate : List OperMove :=
  [.start 0 0, .stop 0 10, .updatePercentile 0, .copyTimers 20, .calculate]

theorem histogramMatches_reportAfterUpdate :
    ∃ hist s, Run (operMove oneBucket 1) (operHandlerInit 0) hist s ∧
      hist.map Prod.snd = reportAfterUpdate ∧ ∀ e ∈ hist, HistogramMatches 1 e := by
  have h : Run.play (operMove oneBucket 1) (operHandlerInit 0) reportAfterUpdate
      = some (_, _) := rfl
  have hrun := Run.of_play h
  refine ⟨_, _, hrun, rfl, (histogramMatches_iff oneBucket 1 0 (by decide) hrun).mpr ?_⟩
  simp [NobodyStopping]

/-- The report comes between the sections of the stop message. -/
def copyBeforeUpdate : List OperMove := [.start 0 0, .stop 0 10, .copyTimers 20]

/-- **A report between the two sections**: at its computation the timers count one operation, the
histogram none. -/
theorem histogram_lacks_operation :
    ∃ hist s s', Run (operMove oneBucket 1) (operHandlerInit 0) hist s ∧
      hist.map Prod.snd = copyBeforeUpdate ∧ operMove oneBucket 1 s .calculate = some s' ∧
      s.percentile.total = 0 ∧ eventCount s.timersCopy 1 = 1 ∧
      ¬ HistogramMatches 1 (s, .calculate) := by
  have h : Run.play (operMove oneBucket 1) (operHandlerInit 0) copyBeforeUpdate
      = some (_, _) := rfl
  refine ⟨_, _, _, Run.of_play h, rfl, rfl, rfl, rfl, fun hmatch => ?_⟩
  change (0 : U64) = 1 at hmatch
  exact absurd hmatch (by decide)

end Sysbench.Logging
