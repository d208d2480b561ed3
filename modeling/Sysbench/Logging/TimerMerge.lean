import Sysbench.Logging.OperHandler

/-!
# Logging/TimerMerge — merging timers, in any order

`merge_timers` adds the counters of two timers and takes the smaller minimum and the larger maximum.
On these fields timers form a **commutative monoid** whose neutral element is a timer that was just
initialised, so a report does not depend on the order in which it merges the threads.  A timer's own
counters are the sum of its stops since the last reset in the same monoid, and so the minimum, the
average and the maximum of a report are those of one list of times.
-/

namespace Sysbench.Logging

/-! ## The monoid -/

/-- The smaller of two times, as `merge_timers` and `sb_timer_stop` take it. -/
def lesser (a b : U64) : U64 := if a < b then a else b

/-- The larger of two times. -/
def greater (a b : U64) : U64 := if a > b then a else b

theorem toNat_lesser (a b : U64) : (lesser a b).toNat = min a.toNat b.toNat := by
  unfold lesser
  simp only [BitVec.lt_def]
  split_ifs with h
  · exact (min_eq_left h.le).symm
  · exact (min_eq_right (not_lt.mp h)).symm

theorem toNat_greater (a b : U64) : (greater a b).toNat = max a.toNat b.toNat := by
  unfold greater
  simp only [gt_iff_lt, BitVec.lt_def]
  split_ifs with h
  · exact (max_eq_left h.le).symm
  · exact (max_eq_right (not_lt.mp h)).symm

/-- The counters of a timer. -/
@[ext] structure Counts where
  sumTime : U64
  events : U64
  minTime : U64
  maxTime : U64
  deriving DecidableEq

namespace Counts

instance : Zero Counts := ⟨⟨0, 0, BitVec.allOnes 64, 0⟩⟩

instance : Add Counts :=
  ⟨fun c d => ⟨c.sumTime + d.sumTime, c.events + d.events, lesser c.minTime d.minTime,
    greater c.maxTime d.maxTime⟩⟩

theorem zero_def : (0 : Counts) = ⟨0, 0, BitVec.allOnes 64, 0⟩ := rfl

theorem add_def (c d : Counts) :
    c + d = ⟨c.sumTime + d.sumTime, c.events + d.events, lesser c.minTime d.minTime,
      greater c.maxTime d.maxTime⟩ := rfl

theorem add_comm' (c d : Counts) : c + d = d + c := by
  rw [add_def, add_def, mk.injEq]
  refine ⟨add_comm _ _, add_comm _ _, BitVec.eq_of_toNat_eq ?_, BitVec.eq_of_toNat_eq ?_⟩
  · rw [toNat_lesser, toNat_lesser, min_comm]
  · rw [toNat_greater, toNat_greater, max_comm]

theorem add_assoc' (c d e : Counts) : c + d + e = c + (d + e) := by
  simp only [add_def, mk.injEq]
  refine ⟨add_assoc _ _ _, add_assoc _ _ _, BitVec.eq_of_toNat_eq ?_, BitVec.eq_of_toNat_eq ?_⟩
  · simp only [toNat_lesser, min_assoc]
  · simp only [toNat_greater, max_assoc]

/-- **The sentinels are neutral**: no time is larger than all ones, and none smaller than 0. -/
theorem zero_add' (c : Counts) : 0 + c = c := by
  rw [zero_def, add_def]
  ext1
  · exact zero_add _
  · exact zero_add _
  · refine BitVec.eq_of_toNat_eq ?_
    rw [toNat_lesser, BitVec.toNat_allOnes]
    exact min_eq_right (Nat.le_sub_one_of_lt c.minTime.isLt)
  · refine BitVec.eq_of_toNat_eq ?_
    rw [toNat_greater]
    exact max_eq_right (Nat.zero_le _)

instance : AddCommMonoid Counts where
  add_assoc := add_assoc'
  zero_add := zero_add'
  add_zero := fun c => (add_comm' c 0).trans (zero_add' c)
  add_comm := add_comm'
  nsmul := nsmulRec

/-- One event. -/
def one (time : U64) : Counts := ⟨time, 1, time, time⟩

end Counts

/-- The counters of a timer. -/
def Timer.counts (t : Timer) : Counts := ⟨t.sumTime, t.events, t.minTime, t.maxTime⟩

/-- The fields that are merged. -/
def Timer.tally (t : Timer) : U64 × Counts := (t.elapsed, t.counts)

/-- **`merge_timers` is the addition**, on the fields it merges. -/
theorem tally_mergeTimers (t₁ t₂ : Timer) :
    (mergeTimers t₁ t₂).tally = t₁.tally + t₂.tally := rfl

theorem tally_sbTimerInit (t : Timer) : (sbTimerInit t).tally = 0 := rfl

/-! ## Any order and bracketing -/

/-- A way of merging timers. -/
inductive Merging
  | timer (t : Timer)
  | merge (l r : Merging)

/-- The merged timer. -/
def Merging.eval : Merging → Timer
  | .timer t => t
  | .merge l r => mergeTimers l.eval r.eval

/-- The timers that are merged, from left to right. -/
def Merging.timers : Merging → List Timer
  | .timer t => [t]
  | .merge l r => l.timers ++ r.timers

theorem Merging.tally_eval (m : Merging) : m.eval.tally = (m.timers.map Timer.tally).sum := by
  induction m with
  | timer t => simp [eval, timers]
  | merge l r hl hr =>
    rw [eval, tally_mergeTimers, hl, hr, timers, List.map_append, List.sum_append]

/-! ## What a timer has counted -/

/-- A call on a timer, with the time it reads. -/
inductive TimerOp
  | start (now : ℤ)
  | stop (now : ℤ)
  | value (now : ℤ)
  | split (now : ℤ)
  | reset
  | queue (time : U64)

/-- The timer after a call. -/
def timerOp (t : Timer) : TimerOp → Option Timer
  | .start now => sbTimerStart t now
  | .stop now => sbTimerStop t now
  | .value now => (sbTimerValue t now).map Prod.snd
  | .split now => (sbTimerSplit t now).map Prod.snd
  | .reset => some (sbTimerReset t)
  | .queue time => some (t.setQueueTime time)

/-- One more call, for the times recorded since the last reset. -/
def record (times : List U64) (e : Timer × TimerOp) : List U64 :=
  match e.2 with
  | .stop now => times ++ [(e.1.finish now).elapsed]
  | .reset => []
  | _ => times

/-- The times recorded since the last reset. -/
def recordedTimes (hist : List (Timer × TimerOp)) : List U64 := hist.foldl record []

theorem counts_finish (t : Timer) (now : ℤ) :
    (t.finish now).counts = t.counts + .one (t.finish now).elapsed := by
  rw [add_comm]
  refine Counts.ext ?_ ?_ rfl rfl
  · exact add_comm _ _
  · exact add_comm _ _

/-- The counters after a call: a stop adds one event, a reset clears them, and the others leave
them. -/
def TimerOp.counts (t : Timer) : TimerOp → Counts
  | .stop now => t.counts + .one (t.finish now).elapsed
  | .reset => 0
  | _ => t.counts

/-- **What a call does to the counters.** -/
theorem counts_timerOp {t t' : Timer} {op : TimerOp} (h : timerOp t op = some t') :
    t'.counts = op.counts t := by
  cases op with
  | start now =>
    simp only [timerOp, sbTimerStart] at h
    split_ifs at h
    rw [← Option.some.inj h]
    rfl
  | stop now =>
    simp only [timerOp, sbTimerStop] at h
    split_ifs at h
    rw [← Option.some.inj h, counts_finish]
    rfl
  | value now =>
    simp only [timerOp, sbTimerValue] at h
    split at h
    · rw [← Option.some.inj h]
      rfl
    · rw [← Option.some.inj h]
      rfl
    · rw [← Option.some.inj h]
      rfl
    · cases h
  | split now =>
    simp only [timerOp, sbTimerSplit] at h
    split at h
    · rw [← Option.some.inj h]
      rfl
    · rw [← Option.some.inj h]
      rfl
    · rw [← Option.some.inj h]
      rfl
    · cases h
  | reset =>
    rw [← Option.some.inj h]
    rfl
  | queue time =>
    rw [← Option.some.inj h]
    rfl

/-- **A timer's counters are the sum of its stops since the last reset.** -/
theorem counts_of_run {t₀ t : Timer} {hist : List (Timer × TimerOp)}
    (h : Run timerOp (sbTimerInit t₀) hist t) :
    t.counts = ((recordedTimes hist).map Counts.one).sum := by
  refine h.induction (fun hist t => t.counts = ((recordedTimes hist).map Counts.one).sum) rfl ?_
  intro hist t op t' ih hop
  have hnext : recordedTimes (hist ++ [(t, op)]) = record (recordedTimes hist) (t, op) := by
    rw [recordedTimes, List.foldl_append]
    rfl
  rw [counts_timerOp hop, hnext]
  cases op with
  | stop now => simp [record, TimerOp.counts, ih]
  | reset => rfl
  | start now => exact ih
  | value now => exact ih
  | split now => exact ih
  | queue time => exact ih

/-! ## Minimum, average and maximum -/

/-- What the counters of a list of times say, as long as they do not overflow. -/
theorem counts_sum_spec {times : List U64} (hlen : times.length < 2 ^ 64)
    (hsum : (times.map BitVec.toNat).sum < 2 ^ 64) :
    let c := (times.map Counts.one).sum
    c.events.toNat = times.length ∧ c.sumTime.toNat = (times.map BitVec.toNat).sum ∧
      ∀ time ∈ times, c.minTime.toNat ≤ time.toNat ∧ time.toNat ≤ c.maxTime.toNat := by
  induction times with
  | nil => exact ⟨rfl, rfl, by simp⟩
  | cons time times ih =>
    simp only [List.map_cons, List.sum_cons, List.length_cons] at hlen hsum ⊢
    obtain ⟨hevents, htotal, hbounds⟩ := ih (by omega) (by omega)
    rw [Counts.add_def]
    simp only [Counts.one, BitVec.toNat_add, hevents, htotal, toNat_lesser, toNat_greater]
    refine ⟨?_, ?_, ?_⟩
    · have hone : (1 : U64).toNat = 1 := rfl
      omega
    · exact Nat.mod_eq_of_lt hsum
    · rw [List.forall_mem_cons]
      refine ⟨⟨min_le_left _ _, le_max_left _ _⟩, fun x hx => ?_⟩
      exact ⟨(min_le_right _ _).trans (hbounds x hx).1, (hbounds x hx).2.trans (le_max_right _ _)⟩

/-- `get_min_time`. -/
def getMinTime (t : Timer) : U64 := t.minTime

/-- `get_max_time`. -/
def getMaxTime (t : Timer) : U64 := t.maxTime

/-- **The average lies between the extremes.** -/
theorem getAvgTime_mem {t : Timer} {times : List U64} (hcounts : t.counts = (times.map .one).sum)
    (hevents : t.events ≠ 0) (hlen : times.length < 2 ^ 64)
    (hsum : (times.map BitVec.toNat).sum < 2 ^ 64) :
    getMinTime t ≤ getAvgTime t ∧ getAvgTime t ≤ getMaxTime t := by
  have hspec := counts_sum_spec hlen hsum
  rw [← hcounts] at hspec
  obtain ⟨hcount, htotal, hbounds⟩ := hspec
  have hcount : t.events.toNat = times.length := hcount
  have htotal : t.sumTime.toNat = (times.map BitVec.toNat).sum := htotal
  have hpos : 0 < times.length := by
    rw [← hcount, Nat.pos_iff_ne_zero]
    exact fun h0 => hevents (BitVec.eq_of_toNat_eq h0)
  have hlower : times.length * t.minTime.toNat ≤ (times.map BitVec.toNat).sum := by
    have hle := List.card_nsmul_le_sum (times.map BitVec.toNat) t.minTime.toNat
      (List.forall_mem_map.mpr fun time htime => (hbounds time htime).1)
    simpa using hle
  have hupper : (times.map BitVec.toNat).sum ≤ times.length * t.maxTime.toNat := by
    have hle := List.sum_le_card_nsmul (times.map BitVec.toNat) t.maxTime.toNat
      (List.forall_mem_map.mpr fun time htime => (hbounds time htime).2)
    simpa using hle
  have havg : (getAvgTime t).toNat = (times.map BitVec.toNat).sum / times.length := by
    rw [getAvgTime, if_neg hevents, BitVec.toNat_udiv, hcount, htotal]
  rw [BitVec.le_def, BitVec.le_def, havg]
  exact ⟨(Nat.le_div_iff_mul_le hpos).mpr (by rwa [mul_comm]),
    Nat.div_le_of_le_mul hupper⟩

/-- **What merged timers have counted**: the stops of all of them since their last resets. -/
theorem counts_eval {runs : List (List (Timer × TimerOp) × Timer)}
    (hruns : ∀ r ∈ runs, ∃ t₀, Run timerOp (sbTimerInit t₀) r.1 r.2) {fresh : Timer} {m : Merging}
    (hm : m.timers.Perm (sbTimerInit fresh :: runs.map Prod.snd)) :
    m.eval.counts = ((runs.flatMap (recordedTimes ·.1)).map Counts.one).sum := by
  have htally := m.tally_eval
  rw [(hm.map Timer.tally).sum_eq, List.map_cons, List.sum_cons, tally_sbTimerInit,
    zero_add] at htally
  have hcounts := congrArg (AddMonoidHom.snd U64 Counts) htally
  rw [map_list_sum, List.map_map] at hcounts
  calc m.eval.counts = ((runs.map Prod.snd).map Timer.counts).sum := hcounts
    _ = (runs.map fun r => ((recordedTimes r.1).map Counts.one).sum).sum := by
        rw [List.map_map]
        congr 1
        refine List.map_congr_left fun r hr => ?_
        obtain ⟨t₀, hrun⟩ := hruns r hr
        exact counts_of_run hrun
    _ = ((runs.flatMap (recordedTimes ·.1)).map Counts.one).sum := by
        rw [List.map_flatMap, List.flatMap_def, List.sum_flatten, List.map_map]
        rfl

/-- **Merging timers is order-free, and its average is an average**: for timers that were used in
any way since they were initialised, and any way of merging them with a fresh one. -/
theorem mergeTimers_order_free {runs : List (List (Timer × TimerOp) × Timer)}
    (hruns : ∀ r ∈ runs, ∃ t₀, Run timerOp (sbTimerInit t₀) r.1 r.2) (fresh : Timer) {m : Merging}
    (hm : m.timers.Perm (sbTimerInit fresh :: runs.map Prod.snd)) :
    ((∀ a b, (mergeTimers a b).tally = (mergeTimers b a).tally) ∧
      (∀ a b c, (mergeTimers (mergeTimers a b) c).tally
        = (mergeTimers a (mergeTimers b c)).tally) ∧
      ∀ a, (mergeTimers (sbTimerInit fresh) a).tally = a.tally ∧
        (mergeTimers a (sbTimerInit fresh)).tally = a.tally) ∧
    (∀ m' : Merging, m'.timers.Perm m.timers → m'.eval.tally = m.eval.tally) ∧
    (m.eval.events ≠ 0 → (runs.flatMap (recordedTimes ·.1)).length < 2 ^ 64 →
      ((runs.flatMap (recordedTimes ·.1)).map BitVec.toNat).sum < 2 ^ 64 →
      getMinTime m.eval ≤ getAvgTime m.eval ∧ getAvgTime m.eval ≤ getMaxTime m.eval) := by
  refine ⟨⟨?_, ?_, ?_⟩, ?_, ?_⟩
  · intro a b
    rw [tally_mergeTimers, tally_mergeTimers, add_comm]
  · intro a b c
    simp only [tally_mergeTimers, add_assoc]
  · intro a
    rw [tally_mergeTimers, tally_mergeTimers, tally_sbTimerInit, zero_add, add_zero]
    exact ⟨rfl, rfl⟩
  · intro m' hm'
    rw [Merging.tally_eval, Merging.tally_eval, (hm'.map Timer.tally).sum_eq]
  · intro hevents hlen hsum
    exact getAvgTime_mem (counts_eval hruns hm) hevents hlen hsum

/-- Two threads, one of which has counted two operations. -/
theorem mergeTimers_order_free_two :
    ∃ (hist : List (Timer × TimerOp)) (t : Timer) (m : Merging),
      Run timerOp (sbTimerInit blankTimer) hist t ∧
      m.timers = [sbTimerInit blankTimer, t, sbTimerInit blankTimer] ∧ m.eval.events = 2 ∧
      getMinTime m.eval ≤ getAvgTime m.eval ∧ getAvgTime m.eval ≤ getMaxTime m.eval := by
  obtain ⟨hist, t, hplay, hcount, htimes⟩ : ∃ hist t, Run.play timerOp (sbTimerInit blankTimer)
      [.start 0, .stop 5, .start 10, .stop 20] = some (hist, t) ∧ t.events = 2 ∧
      recordedTimes hist = [5, 10] :=
    ⟨_, _, rfl, by decide, by decide⟩
  set fresh := sbTimerInit blankTimer with hfresh
  set m : Merging := .merge (.timer fresh) (.merge (.timer t) (.timer fresh)) with hm
  have hruns : ∀ r ∈ [(hist, t), ([], fresh)], ∃ t₀, Run timerOp (sbTimerInit t₀) r.1 r.2 := by
    rw [List.forall_mem_cons, List.forall_mem_singleton]
    exact ⟨⟨blankTimer, Run.of_play hplay⟩, ⟨blankTimer, Trace.nil⟩⟩
  have hevents : m.eval.events = 2 := by
    change 0 + (t.events + 0) = 2
    rw [hcount]
    rfl
  have htotal : [(hist, t), ([], fresh)].flatMap (recordedTimes ·.1) = [5, 10] := by
    have hnone : recordedTimes [] = [] := rfl
    simp [htimes, hnone]
  refine ⟨hist, t, m, Run.of_play hplay, rfl, hevents, ?_⟩
  refine (mergeTimers_order_free hruns blankTimer (m := m) (List.Perm.refl _)).2.2 ?_ ?_ ?_
  · rw [hevents]
    decide
  · rw [htotal]
    decide
  · rw [htotal]
    decide

end Sysbench.Logging
