import Sysbench.Logging.Checkpoints

/-!
# Logging/ReportThread — the deadlines of the intermediate reports

The reporting thread sleeps, makes a report and then moves its deadline on by whole intervals until
it is later than the clock, however long the report has taken.  As long as no time passes `2 ^ 64`
nanoseconds, the deadlines stay on the **grid** `s + k * interval` that begins where the thread read
the clock first: each is the least point of the grid after the reading it was computed from, so they
never drift, and no pause is longer than an interval.
-/

namespace Sysbench.Logging

/-! ## The thread -/

/-- The variables of `report_thread_proc` while it sleeps, and how many reports it has made. -/
structure Reporter where
  prevNs : ℕ
  pauseNs : ℕ
  reports : ℕ
  deriving DecidableEq

/-- What the thread reads when it wakes up: `sb_globals.report_interval`, which the master thread
sets to 0 to silence it, and after the report the value of the execution timer. -/
structure WakeUp where
  reportInterval : ℕ
  currNs : ℕ

/-- `report_thread_proc` up to its loop, where it reads the value `startNs` of the timer: it ends if
the barrier fails or the test prints no statistics. -/
def startReporter (barrier : ℤ) (hasPrintStats : Bool) (reportInterval startNs : ℕ) :
    Option Reporter :=
  if barrier < 0 then none
  else if hasPrintStats then
    some ⟨toU64 (startNs + sec2ns reportInterval : ℕ), sec2ns reportInterval, 0⟩
  else none

/-- The `do` loop: the next deadline. -/
def catchUp (intervalNs currNs : ℕ) : (fuel prevNs : ℕ) → Option ℕ
  | 0, _ => none
  | fuel + 1, prevNs =>
    let nextNs := toU64 (prevNs + intervalNs : ℕ)
    if nextNs ≤ currNs then catchUp intervalNs currNs fuel nextNs else some nextNs

/-- One turn of the `for` loop, from one sleep to the next. -/
def Reporter.wake (fuel intervalNs : ℕ) (r : Reporter) (w : WakeUp) : Option Reporter :=
  (catchUp intervalNs w.currNs fuel r.prevNs).map fun nextNs =>
    ⟨nextNs, toU64 (nextNs - w.currNs), if 0 < w.reportInterval then r.reports + 1 else r.reports⟩

/-! ## The grid -/

/-- The points from `s` on that are whole intervals apart. -/
def grid (s interval : ℕ) : Set ℕ := {d | ∃ k, d = s + k * interval}

/-- A wake-up is not before the deadline that was slept for, and the grid has a point after it that
fits in 64 bits. -/
def OnTimeWake (s interval : ℕ) (e : Reporter × WakeUp) : Prop :=
  e.1.prevNs ≤ e.2.currNs ∧ ∃ d ∈ grid s interval, e.2.currNs < d ∧ d < 2 ^ 64

/-- What a turn of the loop makes of a reading of the clock. -/
structure NextDeadline (s interval curr : ℕ) (r r' : Reporter) : Prop where
  least : IsLeast {d | d ∈ grid s interval ∧ curr < d} r'.prevNs
  later : r.prevNs < r'.prevNs
  pause : r'.pauseNs = r'.prevNs - curr
  pause_pos : 0 < r'.pauseNs
  pause_le : r'.pauseNs ≤ interval

section Turn

variable {s interval curr : ℕ}

/-- Points of the grid are ordered as their numbers. -/
theorem lt_of_point_lt {k m : ℕ} (h : s + k * interval < s + m * interval) : k < m :=
  lt_of_mul_lt_mul_right (Nat.lt_of_add_lt_add_left h) (Nat.zero_le interval)

/-- **The catch-up loop ends** at the least point of the grid after `curr`, after at most as many
turns as there are points up to one that is. -/
theorem catchUp_eq_some {k m fuel : ℕ} (hle : s + k * interval ≤ curr)
    (hm : curr < s + m * interval) (hmax : s + m * interval < 2 ^ 64) (hfuel : m ≤ k + fuel) :
    ∃ d, catchUp interval curr fuel (s + k * interval) = some d ∧
      IsLeast {d | d ∈ grid s interval ∧ curr < d} d ∧ d ≤ curr + interval := by
  induction fuel generalizing k with
  | zero => exact absurd (lt_of_point_lt (hle.trans_lt hm)) (by omega)
  | succ fuel ih =>
    have hstep : s + k * interval + interval = s + (k + 1) * interval := by
      rw [add_assoc, ← Nat.succ_mul]
    -- every point after `curr` has a number above `k`
    have hleast : ∀ j, curr < s + j * interval → s + (k + 1) * interval ≤ s + j * interval := by
      intro j hj
      have hkj : k + 1 ≤ j := lt_of_point_lt (hle.trans_lt hj)
      gcongr
    have hnext : toU64 (s + k * interval + interval : ℕ) = s + (k + 1) * interval := by
      rw [hstep]
      exact toU64_of_lt ((hleast m hm).trans_lt hmax)
    rw [catchUp, hnext]
    split_ifs with hpast
    · exact ih hpast (by omega)
    · refine ⟨_, rfl, ⟨⟨⟨k + 1, rfl⟩, not_le.mp hpast⟩, ?_⟩, ?_⟩
      · rintro _ ⟨⟨j, rfl⟩, hj⟩
        exact hleast j hj
      · rw [← hstep]
        exact Nat.add_le_add_right hle interval

/-- **One turn of the loop**: from a deadline on the grid it ends with the least one after the
clock. -/
theorem wake_spec {fuel : ℕ} (hfuel : 2 ^ 64 ≤ fuel) (hpos : 0 < interval) {r : Reporter}
    (hgrid : r.prevNs ∈ grid s interval) {w : WakeUp} (hw : OnTimeWake s interval (r, w)) :
    ∃ r', r.wake fuel interval w = some r' ∧ NextDeadline s interval w.currNs r r' := by
  obtain ⟨k, hk⟩ := hgrid
  obtain ⟨hle, _, ⟨m, rfl⟩, hm, hmax⟩ := hw
  have hturns : m ≤ k + fuel := by
    have := Nat.le_mul_of_pos_right m hpos
    omega
  obtain ⟨d, hloop, hleast, hnear⟩ := catchUp_eq_some (hk ▸ hle) hm hmax hturns
  have hafter : w.currNs < d := hleast.1.2
  have hlt : d < 2 ^ 64 := (hleast.2 ⟨⟨m, rfl⟩, hm⟩).trans_lt hmax
  have hpause : toU64 ((d : ℤ) - w.currNs) = d - w.currNs := by
    rw [← Nat.cast_sub hafter.le]
    exact toU64_of_lt (by omega)
  refine ⟨⟨d, d - w.currNs, if 0 < w.reportInterval then r.reports + 1 else r.reports⟩, ?_, ?_⟩
  · rw [Reporter.wake, hk, hloop, Option.map_some, hpause]
  · exact ⟨hleast, lt_of_le_of_lt hle hafter, rfl, Nat.sub_pos_of_lt hafter,
      Nat.sub_le_iff_le_add'.mpr hnear⟩

end Turn

/-! ## All turns -/

/-- The deadlines of a run, the last one still to come. -/
def deadlines (hist : List (Reporter × WakeUp)) (r : Reporter) : List ℕ :=
  hist.map (·.1.prevNs) ++ [r.prevNs]

/-- What holds of the thread whenever it sleeps. -/
structure OnGrid (s interval : ℕ) (hist : List (Reporter × WakeUp)) (r : Reporter) : Prop where
  mem_grid : ∀ d ∈ deadlines hist r, d ∈ grid s interval
  increasing : (deadlines hist r).Pairwise (· < ·)
  pause_pos : 0 < r.pauseNs
  pause_le : r.pauseNs ≤ interval

theorem OnGrid.prevNs_mem {s interval : ℕ} {hist : List (Reporter × WakeUp)} {r : Reporter}
    (h : OnGrid s interval hist r) : r.prevNs ∈ grid s interval :=
  h.mem_grid _ (List.mem_append_right _ (List.mem_singleton_self _))

theorem deadlines_concat (hist : List (Reporter × WakeUp)) (r r' : Reporter) (w : WakeUp) :
    deadlines (hist ++ [(r, w)]) r' = deadlines hist r ++ [r'.prevNs] := by
  simp only [deadlines, List.map_append, List.map_singleton]

/-- A turn of the loop keeps it. -/
theorem OnGrid.wake {s interval : ℕ} {hist : List (Reporter × WakeUp)} {r r' : Reporter}
    {w : WakeUp} (h : OnGrid s interval hist r) (hnext : NextDeadline s interval w.currNs r r') :
    OnGrid s interval (hist ++ [(r, w)]) r' where
  mem_grid := by
    rw [deadlines_concat]
    intro d hd
    rcases List.mem_append.mp hd with hd | hd
    · exact h.mem_grid d hd
    · rw [List.mem_singleton.mp hd]
      exact hnext.least.1.1
  increasing := by
    rw [deadlines_concat, List.pairwise_append]
    refine ⟨h.increasing, List.pairwise_singleton _ _, fun d hd d' hd' => ?_⟩
    rw [List.mem_singleton.mp hd']
    -- the deadlines so far are at most the last of them, which is before the new one
    refine lt_of_le_of_lt ?_ hnext.later
    have hsorted := (List.pairwise_append.mp h.increasing).2.2
    rcases List.mem_append.mp hd with hd | hd
    · exact (hsorted d hd _ (List.mem_singleton_self _)).le
    · exact (List.mem_singleton.mp hd).le
  pause_pos := hnext.pause_pos
  pause_le := hnext.pause_le

theorem sec2ns_of_unsigned {sec : ℕ} (h : sec < 2 ^ 32) : sec2ns sec = sec * 1000000000 := by
  unfold sec2ns
  exact_mod_cast toU64_of_lt (n := sec * 1000000000) (by omega)

/-- The first deadline is one interval after the start. -/
theorem onGrid_startReporter {barrier : ℤ} {hasPrintStats : Bool} {reportInterval s : ℕ}
    {r : Reporter} (h : startReporter barrier hasPrintStats reportInterval s = some r)
    (hpos : 0 < sec2ns reportInterval) (hs : s + sec2ns reportInterval < 2 ^ 64) :
    OnGrid s (sec2ns reportInterval) [] r := by
  unfold startReporter at h
  split_ifs at h
  obtain rfl := Option.some.inj h
  have hprev : toU64 (s + sec2ns reportInterval : ℕ) = s + 1 * sec2ns reportInterval := by
    rw [one_mul]
    exact toU64_of_lt hs
  refine ⟨fun d hd => ?_, List.pairwise_singleton _ _, hpos, le_rfl⟩
  exact ⟨1, (List.mem_singleton.mp hd).trans hprev⟩

/-- **The reports keep to the grid**: for every interval and every start, in every run whose
wake-ups are not before their deadlines, the deadlines increase on the grid, each pause is positive
and at most an interval, and the next wake-up gets the least deadline after it. -/
theorem reportThread_onGrid {reportInterval : ℕ} (hpos : 0 < reportInterval)
    (hunsigned : reportInterval < 2 ^ 32) {barrier : ℤ} {hasPrintStats : Bool} {s : ℕ}
    (hs : s + sec2ns reportInterval < 2 ^ 64) {fuel : ℕ} (hfuel : 2 ^ 64 ≤ fuel) {r₀ r : Reporter}
    (hstart : startReporter barrier hasPrintStats reportInterval s = some r₀)
    {hist : List (Reporter × WakeUp)}
    (hrun : Run (Reporter.wake fuel (sec2ns reportInterval)) r₀ hist r)
    (hwakes : ∀ e ∈ hist, OnTimeWake s (sec2ns reportInterval) e) :
    OnGrid s (sec2ns reportInterval) hist r ∧
      ∀ w, OnTimeWake s (sec2ns reportInterval) (r, w) →
        ∃ r', r.wake fuel (sec2ns reportInterval) w = some r' ∧
          NextDeadline s (sec2ns reportInterval) w.currNs r r' := by
  have hinterval : 0 < sec2ns reportInterval := by
    rw [sec2ns_of_unsigned hunsigned]
    omega
  set interval := sec2ns reportInterval
  have hfirst : OnGrid s interval [] r₀ := onGrid_startReporter hstart hinterval hs
  have hgrid : OnGrid s interval hist r := by
    refine Run.induction (fun hist r => (∀ e ∈ hist, OnTimeWake s interval e) →
      OnGrid s interval hist r) (fun _ => hfirst) ?_ hrun hwakes
    intro hist r w r' ih hwake hall
    obtain ⟨hbefore, hlast⟩ := List.forall_mem_append.mp hall
    have h := ih hbefore
    obtain ⟨r'', hwake', hnext⟩ := wake_spec hfuel hinterval h.prevNs_mem
      (hlast _ (List.mem_singleton_self _))
    obtain rfl : r' = r'' := Option.some.inj (hwake.symm.trans hwake')
    exact h.wake hnext
  exact ⟨hgrid, fun w hw => wake_spec hfuel hinterval hgrid.prevNs_mem hw⟩

/-- Reports every two seconds, from 5 ns on; the first takes five seconds. -/
theorem reportThread_onGrid_late :
    ∃ r₀ r, startReporter 0 true 2 5 = some r₀ ∧
      r₀.wake (2 ^ 64) (sec2ns 2) ⟨2, 7000000000⟩ = some r ∧
      deadlines [(r₀, ⟨2, 7000000000⟩)] r = [2000000005, 8000000005] ∧ r.pauseNs = 1000000005 ∧
      OnGrid 5 (sec2ns 2) [(r₀, ⟨2, 7000000000⟩)] r := by
  obtain ⟨r₀, r, hr₀, hr, hdeadlines, hpause, hwake⟩ : ∃ r₀ r, startReporter 0 true 2 5 = some r₀ ∧
      r₀.wake (2 ^ 64) (sec2ns 2) ⟨2, 7000000000⟩ = some r ∧
      deadlines [(r₀, ⟨2, 7000000000⟩)] r = [2000000005, 8000000005] ∧ r.pauseNs = 1000000005 ∧
      OnTimeWake 5 (sec2ns 2) (r₀, ⟨2, 7000000000⟩) :=
    ⟨_, _, rfl, rfl, rfl, rfl, by decide, 8000000005, ⟨4, by decide⟩, by decide, by decide⟩
  refine ⟨r₀, r, hr₀, hr, hdeadlines, hpause, ?_⟩
  exact (reportThread_onGrid (by decide) (by decide) (by decide) le_rfl hr₀
    (Run.snoc Trace.nil hr) (by simpa using hwake)).1

end Sysbench.Logging
