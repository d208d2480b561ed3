import Sysbench.Logging.OperHandler

/-!
# Logging/TimerSplit — the times between the splits of a timer

A `struct timespec` has its seconds and nanoseconds apart, and `TIMESPEC_DIFF` multiplies a
difference of seconds by an unsigned constant and adds a difference of nanoseconds, which may be
negative.  Read modulo `2 ^ 64` this is the difference of the instants, so a timer that keeps
`timespec`s **simulates** one that keeps instants, call by call.  A split returns the difference to
the previous split point: the splits telescope to the time since the start, with no time lost or
counted twice.
-/

namespace Sysbench.Logging

/-! ## Clock readings -/

/-- A normalised `struct timespec` of the monotonic clock; `tv_sec` is a `time_t` of 64 bits. -/
structure TimeSpec where
  sec : Fin (2 ^ 63)
  nsec : Fin 1000000000
  deriving DecidableEq

namespace TimeSpec

/-- The instant, in nanoseconds. -/
def ns (a : TimeSpec) : ℤ := (a.sec : ℕ) * 1000000000 + (a.nsec : ℕ)

/-- `TIMESPEC_DIFF`: both differences are of type `long`; they are converted where they meet the
`unsigned long long` product. -/
def diff (a b : TimeSpec) : U64 :=
  BitVec.ofInt 64 ((a.sec : ℕ) - (b.sec : ℕ)) * 1000000000
    + BitVec.ofInt 64 ((a.nsec : ℕ) - (b.nsec : ℕ))

/-- The order of the readings: by the seconds first. -/
instance : LE TimeSpec := ⟨fun a b => a.sec < b.sec ∨ a.sec = b.sec ∧ a.nsec ≤ b.nsec⟩

instance (a b : TimeSpec) : Decidable (a ≤ b) :=
  inferInstanceAs (Decidable (a.sec < b.sec ∨ a.sec = b.sec ∧ a.nsec ≤ b.nsec))

/-- **The mixed arithmetic is right modulo `2 ^ 64`.** -/
theorem diff_eq (a b : TimeSpec) : a.diff b = timespecDiff a.ns b.ns := by
  have hsplit : a.ns - b.ns = ((a.sec : ℕ) - (b.sec : ℕ)) * 1000000000
      + ((a.nsec : ℕ) - (b.nsec : ℕ)) := by
    unfold ns
    ring
  rw [diff, timespecDiff, hsplit, BitVec.ofInt_add, BitVec.ofInt_mul]
  rfl

/-- Normalised readings are ordered as their instants. -/
theorem ns_le_ns {a b : TimeSpec} (h : a ≤ b) : a.ns ≤ b.ns := by
  have ha := a.nsec.isLt
  unfold ns
  rcases h with hsec | ⟨hsec, hnsec⟩
  · have := Fin.lt_def.mp hsec
    omega
  · have := Fin.le_def.mp hnsec
    rw [hsec]
    omega

end TimeSpec

/-! ## A timer that keeps readings -/

/-- `sb_timer_t`. -/
structure RawTimer where
  timeStart : TimeSpec
  timeEnd : TimeSpec
  timeSplit : TimeSpec
  elapsed : U64
  minTime : U64
  maxTime : U64
  sumTime : U64
  events : U64
  queueTime : U64
  state : TimerState
  deriving DecidableEq

namespace RawTimer

/-- `sb_timer_update`. -/
def sbTimerUpdate (t : RawTimer) (now : TimeSpec) : RawTimer :=
  { t with timeEnd := now, elapsed := now.diff t.timeStart + t.queueTime }

/-- `sb_timer_reset`. -/
def sbTimerReset (t : RawTimer) : RawTimer :=
  { t with minTime := BitVec.allOnes 64, maxTime := 0, sumTime := 0, events := 0, elapsed := 0,
           queueTime := 0 }

/-- `sb_timer_init`. -/
def sbTimerInit (t : RawTimer) : RawTimer :=
  { sbTimerReset { t with timeStart := ⟨0, 0⟩, timeEnd := ⟨0, 0⟩, timeSplit := ⟨0, 0⟩ } with
      state := .initialized }

/-- `sb_timer_start`. -/
def sbTimerStart (t : RawTimer) (now : TimeSpec) : Option RawTimer :=
  if t.state = .uninitialized then none
  else some { t with timeStart := now, timeSplit := now, state := .running }

/-- What `sb_timer_stop` does to a timer that is initialized. -/
def finish (t : RawTimer) (now : TimeSpec) : RawTimer :=
  let t := t.sbTimerUpdate now
  { t with
    events := t.events + 1
    sumTime := t.sumTime + t.elapsed
    minTime := if t.elapsed < t.minTime then t.elapsed else t.minTime
    maxTime := if t.elapsed > t.maxTime then t.elapsed else t.maxTime
    state := .stopped }

/-- `sb_timer_stop`. -/
def sbTimerStop (t : RawTimer) (now : TimeSpec) : Option RawTimer :=
  if t.state = .uninitialized then none else some (t.finish now)

/-- `sb_timer_value`, with the timer it leaves. -/
def sbTimerValue (t : RawTimer) (now : TimeSpec) : Option (U64 × RawTimer) :=
  match t.state with
  | .initialized => some (0, t)
  | .stopped => some (t.elapsed, t)
  | .running => some ((t.sbTimerUpdate now).elapsed, t.sbTimerUpdate now)
  | .uninitialized => none

/-- `sb_timer_split`, with the timer it leaves.  A stopped timer that has no time left to report
returns 0 with a warning. -/
def sbTimerSplit (t : RawTimer) (now : TimeSpec) : Option (U64 × RawTimer) :=
  match t.state with
  | .initialized => some (0, t)
  | .stopped => some (t.timeEnd.diff t.timeSplit, { t with timeSplit := t.timeEnd })
  | .running =>
    some (now.diff t.timeSplit, { t with elapsed := now.diff t.timeStart, timeSplit := now })
  | .uninitialized => none

/-- The timer with its instants in nanoseconds. -/
def toTimer (t : RawTimer) : Timer :=
  ⟨t.timeStart.ns, t.timeEnd.ns, t.timeSplit.ns, t.elapsed, t.minTime, t.maxTime, t.sumTime,
    t.events, t.queueTime, t.state⟩

end RawTimer

/-! ## The calls after the start -/

/-- A call on a timer that was started, with the time at which it reads the clock. -/
inductive SplitCall (τ : Type)
  | split (now : τ)
  | value (now : τ)
  | reset
  | stop (now : τ)

namespace SplitCall

/-- The call with its time read in another way. -/
def map {τ υ : Type} (f : τ → υ) : SplitCall τ → SplitCall υ
  | split now => split (f now)
  | value now => value (f now)
  | reset => reset
  | stop now => stop (f now)

/-- The time at which a call reads the clock. -/
def reading {τ : Type} : SplitCall τ → Option τ
  | split now => some now
  | value now => some now
  | reset => none
  | stop now => some now

end SplitCall

/-- A call on a timer: what it returns if it is a split, and the timer it leaves. -/
def Timer.call (t : Timer) : SplitCall ℤ → Option (Option U64 × Timer)
  | .split now => (sbTimerSplit t now).map fun p => (some p.1, p.2)
  | .value now => (sbTimerValue t now).map fun p => (none, p.2)
  | .reset => some (none, sbTimerReset t)
  | .stop now => (sbTimerStop t now).map fun t => (none, t)

namespace RawTimer

/-- A call on a timer that keeps readings. -/
def call (t : RawTimer) : SplitCall TimeSpec → Option (Option U64 × RawTimer)
  | .split now => (t.sbTimerSplit now).map fun p => (some p.1, p.2)
  | .value now => (t.sbTimerValue now).map fun p => (none, p.2)
  | .reset => some (none, t.sbTimerReset)
  | .stop now => (t.sbTimerStop now).map fun t => (none, t)

theorem toTimer_sbTimerUpdate (t : RawTimer) (now : TimeSpec) :
    (t.sbTimerUpdate now).toTimer = Logging.sbTimerUpdate t.toTimer now.ns := by
  simp only [sbTimerUpdate, Logging.sbTimerUpdate, toTimer, TimeSpec.diff_eq]

theorem toTimer_finish (t : RawTimer) (now : TimeSpec) :
    (t.finish now).toTimer = t.toTimer.finish now.ns := by
  unfold Timer.finish
  rw [← toTimer_sbTimerUpdate]
  rfl

/-- **A timer that keeps readings does, call by call, what one that keeps instants does.** -/
theorem call_simulates (t : RawTimer) (c : SplitCall TimeSpec) :
    (t.call c).map (Prod.map id toTimer) = t.toTimer.call (c.map TimeSpec.ns) := by
  have hstate : t.toTimer.state = t.state := rfl
  cases c with
  | split now =>
    simp only [call, Timer.call, SplitCall.map, sbTimerSplit, Logging.sbTimerSplit, hstate]
    cases t.state <;> simp [toTimer, TimeSpec.diff_eq]
  | value now =>
    simp only [call, Timer.call, SplitCall.map, sbTimerValue, Logging.sbTimerValue, hstate]
    cases t.state <;> simp [toTimer_sbTimerUpdate]
  | reset => rfl
  | stop now =>
    simp only [call, Timer.call, SplitCall.map, sbTimerStop, Logging.sbTimerStop, hstate]
    split_ifs <;> simp [toTimer_finish]

end RawTimer

/-! ## Split points -/

section Points

/-- The split points of a list of calls: the time of the split, or the time at which the timer was
stopped if it was. -/
def splitPoints : Option ℤ → List (SplitCall ℤ) → List ℤ
  | _, [] => []
  | stopped, .split now :: calls => stopped.getD now :: splitPoints stopped calls
  | _, .stop now :: calls => splitPoints (some now) calls
  | stopped, .value _ :: calls => splitPoints stopped calls
  | stopped, .reset :: calls => splitPoints stopped calls

/-- The time from each point to the next. -/
def spans : ℤ → List ℤ → List ℤ
  | _, [] => []
  | a, b :: bs => (b - a) :: spans b bs

theorem sum_spans (a : ℤ) (bs : List ℤ) : (spans a bs).sum = bs.getLastD a - a := by
  induction bs generalizing a with
  | nil => simp [spans]
  | cons b bs ih =>
    rw [spans, List.sum_cons, ih, List.getLastD_cons]
    ring

/-- With a clock that never goes back, no point is before the one that precedes it. -/
theorem spans_splitPoints_nonneg {a : ℤ} {stopped : Option ℤ} {calls : List (SplitCall ℤ)}
    (hclock : (a :: calls.filterMap SplitCall.reading).Pairwise (· ≤ ·))
    (hstopped : ∀ e ∈ stopped, a ≤ e ∧ ∀ r ∈ calls.filterMap SplitCall.reading, e ≤ r) :
    ∀ d ∈ spans a (splitPoints stopped calls), 0 ≤ d := by
  induction calls generalizing a stopped with
  | nil => exact List.forall_mem_nil _
  | cons c calls ih =>
    cases c with
    | reset => exact ih hclock hstopped
    | value now =>
      refine ih (hclock.sublist (List.Sublist.cons_cons a (List.sublist_cons_self now _))) ?_
      exact fun e he => ⟨(hstopped e he).1, (List.forall_mem_cons.mp (hstopped e he).2).2⟩
    | stop now =>
      obtain ⟨hall, hclock⟩ := List.pairwise_cons.mp hclock
      obtain ⟨hnow, hall⟩ := List.forall_mem_cons.mp hall
      obtain ⟨hlater, hclock⟩ := List.pairwise_cons.mp hclock
      refine ih (List.pairwise_cons.mpr ⟨hall, hclock⟩) ?_
      rintro _ ⟨⟩
      exact ⟨hnow, hlater⟩
    | split now =>
      obtain ⟨hall, hclock⟩ := List.pairwise_cons.mp hclock
      cases stopped with
      | none =>
        refine List.forall_mem_cons.mpr ⟨sub_nonneg.mpr (List.forall_mem_cons.mp hall).1, ?_⟩
        exact ih hclock fun e he => absurd he (by simp)
      | some e =>
        obtain ⟨hle, hlater⟩ := hstopped e rfl
        obtain ⟨-, hlater⟩ := List.forall_mem_cons.mp hlater
        refine List.forall_mem_cons.mpr ⟨sub_nonneg.mpr hle, ?_⟩
        refine ih (List.pairwise_cons.mpr ⟨hlater, (List.pairwise_cons.mp hclock).2⟩) ?_
        rintro _ ⟨⟩
        exact ⟨le_rfl, hlater⟩

end Points

/-! ## What the splits return -/

namespace Timer

/-- The timer was started. -/
def Started (t : Timer) : Prop := t.state = .running ∨ t.state = .stopped

/-- When the timer was stopped. -/
def stopTime (t : Timer) : Option ℤ := if t.state = .stopped then some t.timeEnd else none

theorem stopTime_of_running {t : Timer} (h : t.state = .running) : t.stopTime = none := by
  rw [stopTime, h, if_neg (by decide)]

theorem stopTime_of_stopped {t : Timer} (h : t.state = .stopped) : t.stopTime = some t.timeEnd := by
  rw [stopTime, if_pos h]

/-- What the splits of a list of calls should return. -/
def expected (t : Timer) (calls : List (SplitCall ℤ)) : List U64 :=
  (spans t.timeSplit (splitPoints t.stopTime calls)).map (BitVec.ofInt 64)

/-- One call on a timer that was started returns the first of what is expected, and leaves a timer
of which the rest is. -/
theorem call_spec {t : Timer} (h : t.Started) (c : SplitCall ℤ) :
    ∃ o t', t.call c = some (o, t') ∧ t'.Started ∧
      ∀ calls, t.expected (c :: calls) = o.toList ++ t'.expected calls := by
  unfold expected
  cases c with
  | reset => exact ⟨none, sbTimerReset t, rfl, h, fun _ => rfl⟩
  | stop now =>
    refine ⟨none, t.finish now, ?_, .inr rfl, fun calls => ?_⟩
    · rw [call, sbTimerStop, if_neg (by rcases h with h | h <;> simp [h])]
      rfl
    · rw [stopTime_of_stopped (t := t.finish now) rfl]
      rfl
  | value now =>
    rcases h with h | h
    · refine ⟨none, sbTimerUpdate t now, ?_, .inl h, fun calls => ?_⟩
      · rw [call, sbTimerValue, h]
        rfl
      · rw [stopTime_of_running h, stopTime_of_running (t := sbTimerUpdate t now) h]
        rfl
    · refine ⟨none, t, ?_, .inr h, fun calls => rfl⟩
      rw [call, sbTimerValue, h]
      rfl
  | split now =>
    rcases h with h | h
    · refine ⟨some (timespecDiff now t.timeSplit),
        { t with elapsed := timespecDiff now t.timeStart, timeSplit := now }, ?_, .inl h,
        fun calls => ?_⟩
      · rw [call, sbTimerSplit, h]
        rfl
      · rw [stopTime_of_running h, stopTime_of_running (by exact h)]
        rfl
    · -- the split point is the time of the stop, whatever the clock says
      refine ⟨some (timespecDiff t.timeEnd t.timeSplit), { t with timeSplit := t.timeEnd }, ?_,
        .inr h, fun calls => ?_⟩
      · rw [call, sbTimerSplit, h]
        rfl
      · rw [stopTime_of_stopped h, stopTime_of_stopped (by exact h)]
        rfl

/-- **The splits of a timer that was started return the spans between its split points, modulo
`2 ^ 64`.** -/
theorem answers_call {t : Timer} (h : t.Started) (calls : List (SplitCall ℤ)) :
    ∃ t', answers call t calls = some (t.expected calls, t') := by
  induction calls generalizing t with
  | nil => exact ⟨t, rfl⟩
  | cons c calls ih =>
    obtain ⟨o, t', hcall, hstarted, hexpected⟩ := call_spec h c
    obtain ⟨t'', hanswers⟩ := ih hstarted
    exact ⟨t'', by rw [answers_cons hcall hanswers, hexpected]⟩

end Timer

/-- A span that fits is its residue. -/
theorem toNat_ofInt_of_lt {d : ℤ} (hd : 0 ≤ d) (hlt : d < 2 ^ 64) :
    ((BitVec.ofInt 64 d).toNat : ℤ) = d := by
  rw [BitVec.toNat_ofInt]
  omega

theorem sum_map_ofInt (l : List ℤ) : (l.map (BitVec.ofInt 64)).sum = BitVec.ofInt 64 l.sum := by
  induction l with
  | nil => rfl
  | cons d l ih => rw [List.map_cons, List.sum_cons, List.sum_cons, ih, BitVec.ofInt_add]

/-- Spans whose sum fits do not wrap. -/
theorem sum_toNat_ofInt {l : List ℤ} (hnonneg : ∀ d ∈ l, 0 ≤ d) (hsum : l.sum < 2 ^ 64) :
    (((l.map (BitVec.ofInt 64)).map BitVec.toNat).sum : ℤ) = l.sum := by
  induction l with
  | nil => rfl
  | cons d l ih =>
    obtain ⟨hd, hnonneg⟩ := List.forall_mem_cons.mp hnonneg
    have hrest := List.sum_nonneg hnonneg
    rw [List.sum_cons] at hsum
    simp only [List.map_cons, List.sum_cons, Nat.cast_add]
    rw [toNat_ofInt_of_lt hd (by omega), ih hnonneg (by omega)]

/-- What the splits of a timer report: each the time since the previous split point, all together
the time from the start to the last one; exactly modulo `2 ^ 64`, and so exactly when it fits. -/
structure Telescopes (start : ℤ) (points : List ℤ) (splits : List U64) : Prop where
  each : List.Forall₂ (fun split d => 0 ≤ d ∧ split = BitVec.ofInt 64 d ∧
    (d < 2 ^ 64 → (split.toNat : ℤ) = d)) splits (spans start points)
  total_mod : splits.sum = BitVec.ofInt 64 (points.getLastD start - start)
  total : points.getLastD start - start < 2 ^ 64 →
    ((splits.map BitVec.toNat).sum : ℤ) = points.getLastD start - start

theorem telescopes_spans {start : ℤ} {points : List ℤ} (h : ∀ d ∈ spans start points, 0 ≤ d) :
    Telescopes start points ((spans start points).map (BitVec.ofInt 64)) where
  each := by
    rw [List.forall₂_map_left_iff, List.forall₂_same]
    exact fun d hd => ⟨h d hd, rfl, toNat_ofInt_of_lt (h d hd)⟩
  total_mod := by rw [sum_map_ofInt, sum_spans]
  total hlt := by
    rw [← sum_spans] at hlt ⊢
    exact sum_toNat_ofInt h hlt

/-- **The splits of a timer telescope**: for every timer, every start and every calls after it that
read a clock which never goes back, each split is the time since the previous split point and all
splits together are the time from the start to the last one. -/
theorem splits_telescope {t₀ : RawTimer} (h₀ : t₀.state ≠ .uninitialized) {start : TimeSpec}
    {calls : List (SplitCall TimeSpec)}
    (hclock : (start :: calls.filterMap SplitCall.reading).Pairwise (· ≤ ·)) :
    ∃ t splits t', t₀.sbTimerStart start = some t ∧
      answers RawTimer.call t calls = some (splits, t') ∧
      Telescopes start.ns (splitPoints none (calls.map (SplitCall.map TimeSpec.ns))) splits := by
  set t : RawTimer := { t₀ with timeStart := start, timeSplit := start, state := .running } with ht
  set instants := calls.map (SplitCall.map TimeSpec.ns) with hinstants
  have hreadings : instants.filterMap SplitCall.reading
      = (calls.filterMap SplitCall.reading).map TimeSpec.ns := by
    rw [hinstants, List.filterMap_map, List.map_filterMap]
    refine List.filterMap_congr fun c _ => ?_
    cases c <;> rfl
  have hmono : (start.ns :: instants.filterMap SplitCall.reading).Pairwise (· ≤ ·) := by
    rw [hreadings, ← List.map_cons]
    exact hclock.map _ fun _ _ => TimeSpec.ns_le_ns
  obtain ⟨t', hanswers⟩ := Timer.answers_call (t := t.toTimer) (.inl rfl) instants
  rw [← answers_simulation RawTimer.call_simulates] at hanswers
  obtain ⟨⟨splits, t''⟩, hraw, hmap⟩ := Option.map_eq_some_iff.mp hanswers
  obtain rfl : splits = t.toTimer.expected instants := congrArg Prod.fst hmap
  refine ⟨t, _, t'', if_neg h₀, hraw, ?_⟩
  exact telescopes_spans (spans_splitPoints_nonneg hmono fun e he => absurd he (by simp))

/-- A timer whose memory is all zero. -/
def blankRawTimer : RawTimer := ⟨⟨0, 0⟩, ⟨0, 0⟩, ⟨0, 0⟩, 0, 0, 0, 0, 0, 0, .uninitialized⟩

/-- A start at 5.9 s, a split whose nanoseconds are fewer, a stop and a split after it. -/
theorem splits_telescope_stopped :
    ∃ t splits t', blankRawTimer.sbTimerInit.sbTimerStart ⟨5, 900000000⟩ = some t ∧
      answers RawTimer.call t [.split ⟨7, 100000000⟩, .value ⟨7, 200000000⟩, .reset,
        .stop ⟨8, 0⟩, .split ⟨9, 0⟩] = some (splits, t') ∧
      Telescopes 5900000000 [7100000000, 8000000000] splits :=
  splits_telescope (by decide) (by decide)

/-- **A span that does not fit**: a split 18446744074 seconds after the start returns the rest. -/
theorem split_wraps :
    ∃ t t', blankRawTimer.sbTimerInit.sbTimerStart ⟨0, 0⟩ = some t ∧
      answers RawTimer.call t [.split ⟨18446744074, 0⟩] = some ([290448384], t') ∧
      ((290448384 : U64).toNat : ℤ)
        ≠ (⟨18446744074, 0⟩ : TimeSpec).ns - (⟨0, 0⟩ : TimeSpec).ns :=
  ⟨_, _, rfl, rfl, by decide⟩

end Sysbench.Logging
