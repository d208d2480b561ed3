import Sysbench.Logging.OperHandler

/-!
# Logging/Reports — every stopped operation is in one report

A report copies and resets the timers in one section, so its copies hold the stop messages since the
report before it: an operation that is running then is counted when it stops, by the report after.
The reports of a run divide its stop messages among them, in order (`reports_count_stops`).  On a
forced shutdown a report counts the operations that are still running as well.
-/

namespace Sysbench.Logging

/-- The events and the time of a list of operations. -/
def tally (times : List U64) : U64 × U64 := (times.map fun time => ((1 : U64), time)).sum

theorem tally_eq (times : List U64) : tally times = ((times.length : U64), times.sum) := by
  induction times with
  | nil => rfl
  | cons time times ih =>
    rw [tally, List.map_cons, List.sum_cons, ← tally, ih]
    ext <;> simp [add_comm]

/-- What `n` timers have counted together. -/
def total (timers : ℕ → Timer) (n : ℕ) : U64 × U64 := ∑ i ∈ Finset.range n, (timers i).counted

theorem total_reset (timers : ℕ → Timer) (n : ℕ) :
    total (fun i => sbTimerReset (timers i)) n = 0 :=
  Finset.sum_eq_zero fun i _ => counted_reset (timers i)

/-- **Merging the timers adds up their counts.** -/
theorem counted_mergeAll (timers : ℕ → Timer) (n : ℕ) :
    (mergeAll timers n).counted = total timers n := by
  induction n with
  | zero => rfl
  | succ n ih =>
    rw [mergeAll, List.range_succ, List.foldl_append, List.foldl_cons, List.foldl_nil, ← mergeAll,
      counted_mergeTimers, ih, total, total, Finset.sum_range_succ]

/-- Stopping the copies that run adds the operations found unfinished. -/
theorem total_merged (s : OperStats) (now : ℕ → ℤ) (n : ℕ) :
    total (s.merged now) n = total s.timersCopy n + tally (s.unfinished n now) := by
  induction n with
  | zero => simp [total, tally, OperStats.unfinished]
  | succ n ih =>
    rw [total, Finset.sum_range_succ, ← total, ih, total, total, Finset.sum_range_succ]
    unfold OperStats.merged OperStats.unfinished
    cases hforced : s.forcedShutdownInProgress with
    | false => simp [tally]
    | true =>
      cases hrun : sbTimerRunning (s.timersCopy n) with
      | false => simp [List.range_succ, hrun, add_right_comm]
      | true =>
        simp [List.range_succ, hrun, tally]
        abel

/-! ## Stop messages and reports -/

/-- The stop messages between the copies of the reports so far, and those since the last copy. -/
def cut (p : List (List U64) × List U64) (e : OperStats × OperMove) : List (List U64) × List U64 :=
  match e.2 with
  | .stop t now => (p.1, p.2 ++ [((e.1.timers t).finish now).elapsed])
  | .copyTimers _ => (p.1 ++ [p.2], [])
  | _ => p

def segments (hist : List (OperStats × OperMove)) : List (List U64) × List U64 :=
  hist.foldl cut ([], [])

@[simp] theorem segments_snoc (hist : List (OperStats × OperMove)) (e : OperStats × OperMove) :
    segments (hist ++ [e]) = cut (segments hist) e := by
  simp [segments]

/-- The segments hold every stop message once, in order. -/
theorem flatten_segments (hist : List (OperStats × OperMove)) :
    (segments hist).1.flatten ++ (segments hist).2 = hist.filterMap stopTime := by
  induction hist using List.reverseRecOn with
  | nil => rfl
  | append_singleton hist e ih =>
    rw [segments_snoc, List.filterMap_append, ← ih]
    obtain ⟨s, i⟩ := e
    cases i <;> simp [cut, stopTime]

/-- A report counts the operations of a segment and the unfinished ones. -/
def Covers (r : Report) (seg : List U64) : Prop :=
  r.t.counted = tally seg + tally r.unfinished

/-- **The reports printed match the segments closed, and the timers hold the open one.** -/
structure Accounted (n : ℕ) (hist : List (OperStats × OperMove)) (s : OperStats) : Prop where
  timers : total s.timers n = tally (segments hist).2
  idle : s.stage = .idle →
    List.Forall₂ Covers (hist.filterMap (printed n)) (segments hist).1
  busy : s.stage ≠ .idle → ∃ segs seg, (segments hist).1 = segs ++ [seg] ∧
    List.Forall₂ Covers (hist.filterMap (printed n)) segs ∧ total s.timersCopy n = tally seg
  unforced : s.forcedShutdownInProgress = false →
    ∀ r ∈ hist.filterMap (printed n), r.unfinished = []

variable {scale : Scale} {n : ℕ} {hist : List (OperStats × OperMove)} {s s' : OperStats}

theorem accounted_init (now : ℤ) : Accounted n [] (operHandlerInit now) where
  timers := Finset.sum_eq_zero fun _ _ => counted_reset blankTimer
  idle _ := .nil
  busy h := absurd rfl h
  unforced _ _ hr := absurd hr List.not_mem_nil

/-- A step that neither prints nor copies leaves the reports and the segments closed alone. -/
theorem Accounted.of_same {i : OperMove} (hA : Accounted n hist s)
    (htimers : total s'.timers n = tally (cut (segments hist) (s, i)).2)
    (hsegs : (cut (segments hist) (s, i)).1 = (segments hist).1) (hprint : printed n (s, i) = none)
    (hstage : s'.stage = .idle ↔ s.stage = .idle) (hcopy : s'.timersCopy = s.timersCopy)
    (hforced : s'.forcedShutdownInProgress = false → s.forcedShutdownInProgress = false) :
    Accounted n (hist ++ [(s, i)]) s' := by
  have hreports : (hist ++ [(s, i)]).filterMap (printed n) = hist.filterMap (printed n) := by
    simp [hprint]
  refine ⟨by rwa [segments_snoc], fun h => ?_, fun h => ?_, fun h => ?_⟩
  · rw [hreports, segments_snoc, hsegs]
    exact hA.idle (hstage.mp h)
  · rw [hreports, segments_snoc, hsegs, hcopy]
    exact hA.busy fun hidle => h (hstage.mpr hidle)
  · rw [hreports]
    exact hA.unforced (hforced h)

/-- **One step.** -/
theorem accounted_step {i : OperMove} (hA : Accounted n hist s) (h : OperStep scale n s i s') :
    Accounted n (hist ++ [(s, i)]) s' := by
  cases h with
  | queue ht =>
    refine hA.of_same ?_ rfl rfl Iff.rfl rfl id
    rw [total, sum_update_of_eq_add Timer.counted (a := 0) ht (by simp), add_zero]
    exact hA.timers
  | start ht hcounted =>
    refine hA.of_same ?_ rfl rfl Iff.rfl rfl id
    rw [total, sum_update_of_eq_add Timer.counted (a := 0) ht (by rw [hcounted, add_zero]),
      add_zero]
    exact hA.timers
  | stop ht hnone hfree =>
    refine hA.of_same ?_ rfl rfl Iff.rfl rfl id
    rw [total, sum_update_of_eq_add Timer.counted ht (counted_finish _ _), ← total, hA.timers]
    simp [cut, tally]
  | updatePercentile ht hvalue => exact hA.of_same hA.timers rfl rfl Iff.rfl rfl id
  | copyTimers hidle =>
    have hreports : ∀ now, (hist ++ [(s, OperMove.copyTimers now)]).filterMap (printed n)
        = hist.filterMap (printed n) := fun now => by
      rw [List.filterMap_append]
      exact List.append_nil _
    refine ⟨?_, nofun, fun _ => ?_, fun hforced => ?_⟩
    · rw [segments_snoc]
      exact total_reset s.timers n
    · refine ⟨(segments hist).1, (segments hist).2, by simp [cut], ?_, hA.timers⟩
      rw [hreports]
      exact hA.idle hidle
    · rw [hreports]
      exact hA.unforced hforced
  | calculate hcopied => exact hA.of_same hA.timers rfl rfl (by simp [hcopied]) rfl id
  | resetPercentile hcalc => exact hA.of_same hA.timers rfl rfl (by simp [hcalc]) rfl id
  | @print now totalTimeNs percentileVal hrel =>
    obtain ⟨segs, seg, hsegs, hall, hcopy⟩ := hA.busy (by simp [hrel])
    refine ⟨?_, fun _ => ?_, fun hne => absurd rfl hne, fun hforced => ?_⟩
    · rw [segments_snoc]
      exact hA.timers
    · -- the copies merged are those of the last segment closed
      rw [segments_snoc]
      simp only [cut, hsegs, List.filterMap_append, List.filterMap_cons, printed, hrel,
        List.filterMap_nil]
      refine List.rel_append hall (.cons ?_ .nil)
      rw [Covers, counted_mergeAll, total_merged, hcopy]
    · simp only [List.filterMap_append, List.filterMap_cons, printed, hrel, List.filterMap_nil,
        List.forall_mem_append, List.forall_mem_singleton]
      refine ⟨hA.unforced hforced, ?_⟩
      have hforced : s.forcedShutdownInProgress = false := hforced
      simp [OperStats.unfinished, hforced]
  | forceShutdown => exact hA.of_same hA.timers rfl rfl Iff.rfl rfl nofun

/-! ## A whole run -/

/-- The counts of the reports add up to those of the segments and of the unfinished operations. -/
theorem sum_counted {reports : List Report} {segs : List (List U64)}
    (h : List.Forall₂ Covers reports segs) :
    (reports.map fun r => r.t.counted).sum
      = tally segs.flatten + tally (reports.flatMap Report.unfinished) := by
  induction h with
  | nil => rfl
  | cons hcov _ ih =>
    rw [List.map_cons, List.sum_cons, ih, hcov]
    simp only [List.flatten_cons, List.flatMap_cons, tally, List.map_append, List.sum_append]
    abel

theorem sum_events_and_times (reports : List Report) :
    (reports.map fun r => r.t.counted).sum
      = ((reports.map fun r => r.t.events).sum, (reports.map fun r => r.t.sumTime).sum) := by
  induction reports with
  | nil => rfl
  | cons r reports ih =>
    simp only [List.map_cons, List.sum_cons, ih]
    rfl

/-- **Every stop message is counted in exactly one report**, with its elapsed time.  In a run whose
last report has been printed, with no stop message since its copy: the stop messages divide, in
order, into one segment a report; a report counts its segment and, on a forced shutdown, the
operations it found running; and the reports together count all stop messages and those. -/
theorem reports_count_stops (scale : Scale) (n : ℕ) (now : ℤ)
    {hist : List (OperStats × OperMove)} {s : OperStats}
    (h : Run (operMove scale n) (operHandlerInit now) hist s) (hidle : s.stage = .idle)
    (hlast : (segments hist).2 = []) :
    (segments hist).1.flatten = hist.filterMap stopTime ∧
      List.Forall₂ (fun (r : Report) (seg : List U64) =>
        r.t.events = (seg.length : U64) + (r.unfinished.length : U64) ∧
          r.t.sumTime = seg.sum + r.unfinished.sum)
        (hist.filterMap (printed n)) (segments hist).1 ∧
      ((hist.filterMap (printed n)).map fun r => r.t.events).sum
        = ((hist.filterMap stopTime).length : U64)
          + (((hist.filterMap (printed n)).flatMap Report.unfinished).length : U64) ∧
      ((hist.filterMap (printed n)).map fun r => r.t.sumTime).sum
        = (hist.filterMap stopTime).sum
          + ((hist.filterMap (printed n)).flatMap Report.unfinished).sum ∧
      (s.forcedShutdownInProgress = false →
        (hist.filterMap (printed n)).flatMap Report.unfinished = []) := by
  have hA : Accounted n hist s := h.induction (Accounted n) (accounted_init now)
    fun hist s i s' hA hs => accounted_step hA (operStep_of_operMove hs)
  have hall := hA.idle hidle
  have hflat := flatten_segments hist
  rw [hlast, List.append_nil] at hflat
  have hsum := sum_counted hall
  rw [sum_events_and_times, hflat, tally_eq, tally_eq] at hsum
  refine ⟨hflat, hall.imp fun r seg hcov => ?_, congrArg Prod.fst hsum, congrArg Prod.snd hsum,
    fun hforced => List.flatMap_eq_nil_iff.mpr (hA.unforced hforced)⟩
  rw [Covers, tally_eq, tally_eq] at hcov
  exact ⟨congrArg Prod.fst hcov, congrArg Prod.snd hcov⟩

/-- A histogram of two buckets, for short runs. -/
def twoBuckets : Scale := ⟨2, fun value => if value < 100 then 0 else 1, id⟩

/-- All steps of one report, at time `now`. -/
def wholeReport (now : ℤ) : List OperMove :=
  [.copyTimers now, .calculate, .resetPercentile, .print fun _ => now]

/-- Two threads, of which the second is running when the first report copies the timers. -/
def runningAcrossReport : List OperMove :=
  .start 0 0 :: .start 1 5 :: .stop 0 10 :: .updatePercentile 0 :: List.append (wholeReport 20)
    (.stop 1 30 :: .updatePercentile 1 :: wholeReport 40)

theorem reports_count_stops_runningAcrossReport :
    ∃ hist s, Run (operMove twoBuckets 2) (operHandlerInit 0) hist s ∧
      hist.map Prod.snd = runningAcrossReport ∧
      ((hist.filterMap (printed 2)).map fun r => r.t.sumTime).sum
        = (hist.filterMap stopTime).sum
          + ((hist.filterMap (printed 2)).flatMap Report.unfinished).sum := by
  have h : Run.play (operMove twoBuckets 2) (operHandlerInit 0) runningAcrossReport
      = some (_, _) := rfl
  have hrun := Run.of_play h
  exact ⟨_, _, hrun, rfl, (reports_count_stops twoBuckets 2 0 hrun rfl rfl).2.2.2.1⟩

/-- An operation that runs when the time limit forces the shutdown. -/
def runningAtShutdown : List OperMove := .start 0 0 :: .forceShutdown :: wholeReport 7

/-- **The report on a forced shutdown** counts an operation that never stopped. -/
theorem forcedReport_counts_running :
    ∃ hist s, Run (operMove twoBuckets 1) (operHandlerInit 0) hist s ∧ s.stage = .idle ∧
      hist.map Prod.snd = runningAtShutdown ∧ (segments hist).2 = [] ∧
      ((hist.filterMap (printed 1)).map fun r => r.t.events).sum = 1 ∧
      hist.filterMap stopTime = [] := by
  have h : Run.play (operMove twoBuckets 1) (operHandlerInit 0) runningAtShutdown
      = some (_, _) := rfl
  exact ⟨_, _, Run.of_play h, rfl, rfl, rfl, rfl, rfl⟩

end Sysbench.Logging
